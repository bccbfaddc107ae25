import RexOs.Fs.FatEffects
import RexOs.Fs.FatHistory

/-! Every call keeps the tree of directories and the nodes in order. -/

set_option autoImplicit false

namespace RexOs.Fs

open RexOs.Library

structure Sound (v : Volume) (clusters : Nat) (kind : Nat → Option Bool) (cs : Nat → List Nat) (fs : State) : Prop where
  tree : Tree v clusters kind cs fs.disk
  nodes : Linked v kind cs fs.disk fs.entryOf fs.kids

variable {dev : Device} {v : Volume} {clusters : Nat} {kind : Nat → Option Bool} {cs : Nat → List Nat}
variable {fs fs' : State} {m m₁ : Mem} {a c d i fuel : Nat} {dp : Node} {e : Entry} {raw : List UInt8} {isDir : Bool}

namespace Sound

theorem unchanged (sound : Sound v clusters kind cs fs) (same : Unchanged v clusters kind cs fs fs') :
    Sound v clusters kind cs fs' := by
  have entries : fs'.entryOf = fs.entryOf := by
    funext i
    rw [State.entryOf, same.nodes, State.entryOf]
  have kids : fs'.kids = fs.kids := by
    funext i
    rw [State.kids, same.nodes, State.kids]
  refine ⟨sound.tree.quiet same.quiet same.free, ?_⟩
  rw [entries, kids]
  exact sound.nodes.quiet same.quiet

theorem dir (sound : Sound v clusters kind cs fs) (reach : Reach fs.kids 0 d) (found : fs.nodes[d]? = some dp)
    (isDir : dp.isDir = true) : kind dp.startCluster = some true := sound.nodes.dir reach (entryOf_some found) isDir

theorem inside (sound : Sound v clusters kind cs fs) (reach : Reach fs.kids 0 i) : i < fs.nodes.length := by
  obtain ⟨e, known⟩ := sound.nodes.known reach
  exact entryOf_inside known

theorem elsewhere (sound : Sound v clusters kind cs fs) (geo : Geometry v clusters) (reach : Reach fs.kids 0 d)
    (found : fs.nodes[d]? = some dp) (isDir : dp.isDir = true) (before : dp.childrenLoaded = false)
    (reach' : Reach fs.kids 0 i) (known : fs.entryOf i = some e) :
    slotAddr e ∉ dirSlots v (cs dp.startCluster) := by
  intro slot
  have dir := sound.dir reach found isDir
  rcases reach'.cases with rfl | ⟨d', parent, member⟩
  · obtain ⟨r, root, -, -, place⟩ := sound.nodes.root
    rw [known] at root
    cases root
    have above := dirSlots_above slot
    have copies := geo.copies
    have table := geo.table
    rw [place, sectorSize] at above
    omega
  · obtain ⟨p, e', found', isDir', child, housed⟩ := sound.nodes.home d' i parent member
    rw [known] at child
    cases child
    have same := sound.tree.same_dir geo dir (sound.nodes.dir parent found' isDir') slot housed.slot
    obtain rfl := sound.nodes.distinct d d' _ p reach parent (entryOf_some found) found' same
      (sound.tree.high _ _ dir)
    rw [kids_some found, before] at member
    cases member

theorem loaded (sound : Sound v clusters kind cs fs) (geo : Geometry v clusters) (reach : Reach fs.kids 0 d)
    (found : fs.nodes[d]? = some dp) (isDir : dp.isDir = true) (loaded : Loaded v (cs dp.startCluster) fs d dp fs') :
    Sound v clusters kind cs fs' := by
  obtain ⟨new, cap, loads, appends, grafted⟩ := loaded.grafts
  have dir := sound.dir reach found isDir
  have ch := sound.tree.chains _ _ dir
  -- a new node mirrors a named entry of the directory
  have mirrored : ∀ i ∈ List.range' fs.nodes.length new.length, ∃ k p, i = fs.nodes.length + k ∧ new[k]? = some p ∧
      fs'.entryOf i = some p.toEntry ∧ Mirrors fs.disk (slotAddr p.toEntry) p ∧
      slotAddr p.toEntry ∈ dirSlots v (cs dp.startCluster) := by
    intro i member
    obtain ⟨low, high⟩ := List.mem_range'_1.mp member
    have here := List.getElem?_eq_getElem (l := new) (i := i - fs.nodes.length) (by omega)
    obtain ⟨a, slot, mirrors⟩ := loads.mirrors _ (List.mem_of_getElem? here)
    have place := mirrors.place
    rw [← place] at mirrors slot
    have node := appends.fresh here
    have index : fs.nodes.length + (i - fs.nodes.length) = i := by omega
    rw [index] at node
    exact ⟨_, _, index.symm, here, entryOf_some node, mirrors, slot⟩
  have isEntry : ∀ {p : Node}, Mirrors fs.disk (slotAddr p.toEntry) p → slotAddr p.toEntry ∈ dirSlots v (cs dp.startCluster) →
      IsEntry v kind cs fs.disk (slotAddr p.toEntry) := fun mirrors slot => ⟨mirrors.named, _, dir, slot⟩
  refine ⟨by rw [loaded.disk]; exact sound.tree, ?_⟩
  rw [loaded.disk]
  apply sound.nodes.graft grafted reach (entryOf_some found) isDir fun i reach' => appends.old (sound.inside reach')
  refine ⟨List.nodup_range', ?_, ?_, ?_, ?_⟩
  · intro i member reach'
    have := sound.inside reach'
    have := (List.mem_range'_1.mp member).1
    omega
  · intro i member
    obtain ⟨k, p, -, -, known, mirrors, slot⟩ := mirrored i member
    have is := isEntry mirrors slot
    obtain ⟨leads, -⟩ := sound.tree.leads _ is
    rw [← mirrors.start, ← mirrors.isDir] at leads
    refine ⟨_, known, ⟨slot, mirrors.small, mirrors.named.2⟩, leads, ?_⟩
    intro high x is' cluster
    exact sound.tree.once x _ is' is (cluster.trans mirrors.start) (by rw [cluster]; exact high)
  · intro i member e known high j e' reach' known' equal
    obtain ⟨k, p, -, -, known₁, mirrors, slot⟩ := mirrored i member
    rw [known] at known₁
    cases known₁
    -- the entry leads to the chain of `j`, so it is the entry of `j`
    have own := sound.nodes.sole j e' reach' known' (by rw [equal]; exact high) _ (isEntry mirrors slot)
      (mirrors.start.symm.trans equal.symm)
    rw [own] at slot
    exact sound.elsewhere geo reach found isDir loaded.before reach' known' slot
  · intro i member j member' e e' known known' equal high
    obtain ⟨k, p, rfl, here, known₁, mirrors, slot⟩ := mirrored i member
    obtain ⟨k', p', rfl, here', known₂, mirrors', slot'⟩ := mirrored j member'
    rw [known] at known₁
    rw [known'] at known₂
    cases known₁
    cases known₂
    have cluster : clusterField fs.disk (slotAddr p.toEntry) = clusterField fs.disk (slotAddr p'.toEntry) := by
      rw [← mirrors.start, ← mirrors'.start]
      exact equal
    have same := sound.tree.once _ _ (isEntry mirrors slot) (isEntry mirrors' slot') cluster
      (by rw [← mirrors.start]; exact high)
    rw [loads.place_inj (dirSlots_nodup geo ch.inside ch.nodup) here here' same]

end Sound

theorem toUpper_plain {b : UInt8} (other : b ≠ dot) : toUpper b ≠ dot := by
  unfold toUpper
  split
  · rename_i range
    intro same
    have low : 97 ≤ b.toNat := UInt8.le_iff_toNat_le.mp range.1
    have value := congrArg UInt8.toNat same
    rw [UInt8.toNat_sub_of_le _ _ (UInt8.le_iff_toNat_le.mpr (by simpa using (by omega : 32 ≤ b.toNat)))] at value
    have high : b.toNat ≤ 122 := UInt8.le_iff_toNat_le.mp range.2
    have thirty : (32 : UInt8).toNat = 32 := rfl
    have point : dot.toNat = 46 := rfl
    omega
  · exact other

theorem nameTo83_plain (name : List UInt8) : (nameTo83 name).head? ≠ some dot := by
  have blank : (some space : Option UInt8) ≠ some dot := by decide
  rw [nameTo83, padTo]
  cases name with
  | nil => exact blank
  | cons b rest =>
    by_cases first : b = dot
    · rw [List.takeWhile_cons_of_neg (by simpa using first)]
      exact blank
    · rw [List.takeWhile_cons_of_pos (by simpa using first)]
      have upper := toUpper_plain first
      simpa using upper

theorem newAttr_long (isDir : Bool) : newAttr isDir &&& attrLfn ≠ attrLfn := by cases isDir <;> decide

theorem newAttr_dir (isDir : Bool) : decide (newAttr isDir &&& attrDirectory ≠ 0) = isDir := by cases isDir <;> decide

namespace Entered

variable {m' : Mem}

theorem not_dots (entered : Entered m a raw (newAttr isDir) c m') (plain : raw.head? ≠ some dot) : ¬ Dots m' a := by
  rintro (one | two)
  · rw [entered.raw] at one
    rw [one] at plain
    exact plain (by decide)
  · rw [entered.raw] at two
    rw [two] at plain
    exact plain (by decide)

theorem not_long (entered : Entered m a raw (newAttr isDir) c m') : ¬ LongAt m' a := by
  intro long
  have both := long.2
  rw [entered.attr] at both
  exact newAttr_long isDir both

theorem dir (entered : Entered m a raw (newAttr isDir) c m') : dirField m' a = isDir := by
  rw [dirField, entered.attr]
  exact newAttr_dir isDir

end Entered

/-- What is known of the chains after the cluster `c` began a new one, unless it is 0. -/
def addKind (kind : Nat → Option Bool) (c : Nat) (isDir : Bool) : Nat → Option Bool :=
  if c = 0 then kind else Function.update kind c (some isDir)

def addChain (cs : Nat → List Nat) (c : Nat) : Nat → List Nat := if c = 0 then cs else Function.update cs c [c]

/-- A chain that is not known yet begins at `c`, unless it is 0. -/
structure Adopts (v : Volume) (clusters : Nat) (kind : Nat → Option Bool) (cs : Nat → List Nat) (c : Nat) (isDir : Bool)
    (m : Mem) : Prop where
  unknown : kind c = none
  tree : Tree v clusters (addKind kind c isDir) (addChain cs c) m
  linked : ∀ ents kids, Linked v kind cs m ents kids → Linked v (addKind kind c isDir) (addChain cs c) m ents kids
  entries : ∀ x, IsEntry v (addKind kind c isDir) (addChain cs c) m x ↔ IsEntry v kind cs m x

theorem addKind_old {k : Nat} {b : Bool} (unknown : kind c = none) (known : kind k = some b) :
    addKind kind c isDir k = some b := by
  rw [addKind]
  split
  · exact known
  · rw [Function.update_of_ne, known]
    rintro rfl
    rw [unknown] at known
    cases known

theorem addChain_old {k : Nat} {b : Bool} (unknown : kind c = none) (known : kind k = some b) : addChain cs c k = cs k := by
  rw [addChain]
  split
  · rfl
  · apply Function.update_of_ne
    rintro rfl
    rw [unknown] at known
    cases known

theorem addKind_new (real : c ≠ 0) : addKind kind c isDir c = some isDir := by
  rw [addKind, if_neg real, Function.update_self]

theorem calm_of_not_long {slots : List Nat} (short : ∀ x ∈ slots, ¬ LongAt m x) : List.IsChain (Calm m) slots := by
  apply List.Pairwise.isChain
  apply List.Pairwise.imp_of_mem (R := fun _ _ => True)
  · intro x _ member _ _ long
    exact absurd long (short x member)
  · exact List.pairwise_of_forall fun _ _ => trivial

theorem Tree.zero_unknown (tree : Tree v clusters kind cs m) : kind 0 = none := by
  cases known : kind 0 with
  | none => rfl
  | some b => exact absurd (tree.high 0 b known) (by decide)

theorem Reserves.adopts (reserves : Reserves v clusters kind cs m c isDir m₁) (tree : Tree v clusters kind cs m) :
    Adopts v clusters kind cs c isDir m₁ := by
  have real : c ≠ 0 := by
    have := reserves.inside.1
    omega
  have kindIs : addKind kind c isDir = Function.update kind c (some isDir) := if_neg real
  have chainIs : addChain cs c = Function.update cs c [c] := if_neg real
  have unowned := tree.unowned reserves.zero
  have unknown := tree.unknown unowned
  obtain ⟨tree', entries⟩ := (tree.quiet reserves.quiet reserves.free).adopt (b := isDir) reserves.inside reserves.mark
    unowned fun dir => ⟨fun x member => ((reserves.bare dir).plain x member).1,
      calm_of_not_long fun x member => ((reserves.bare dir).plain x member).2⟩
  rw [← kindIs, ← chainIs] at tree' entries
  refine ⟨unknown, tree', ?_, entries⟩
  intro ents kids linked
  have entries' := fun x => (entries x).mp
  rw [kindIs, chainIs] at entries' ⊢
  exact linked.adopt unknown [c] entries'

theorem Placed.adopts (placed : Placed v clusters kind cs fs d dp isDir raw c a m₁ fs') (tree : Tree v clusters kind cs fs.disk) :
    Adopts v clusters kind cs c isDir m₁ ∧ Quiet v kind cs fs.disk m₁ := by
  rcases placed.reserved with ⟨rfl, rfl, rfl⟩ | reserves
  · have same : addKind kind 0 false = kind ∧ addChain cs 0 = cs := ⟨rfl, rfl⟩
    refine ⟨⟨tree.zero_unknown, ?_, ?_, ?_⟩, fun _ _ _ _ _ => rfl, fun _ _ _ _ _ _ => rfl⟩
    · rw [same.1, same.2]
      exact tree
    · intro ents kids linked
      rw [same.1, same.2]
      exact linked
    · intro x
      rw [same.1, same.2]
  · exact ⟨reserves.adopts tree, reserves.quiet⟩

section

variable (made : Placed v clusters kind cs fs d dp isDir raw c a m₁ fs') (sound : Sound v clusters kind cs fs)
variable (geo : Geometry v clusters) (reach : Reach fs.kids 0 d) (isDirectory : dp.isDir = true) (plain : raw.head? ≠ some dot)

include made sound geo in
theorem Placed.puts : Puts v (addKind kind c isDir) (addChain cs c) m₁ a fs'.disk ∧ FreeInside v clusters fs'.disk := by
  obtain ⟨adopts, -⟩ := made.adopts sound.tree
  exact Puts.of_changed geo adopts.tree made.slot made.entered.changed

include made sound in
theorem Placed.unled (high : 2 ≤ c) {x : Nat} (is : IsEntry v (addKind kind c isDir) (addChain cs c) m₁ x) :
    clusterField m₁ x ≠ c := by
  obtain ⟨adopts, quiet⟩ := made.adopts sound.tree
  have before := quiet.isEntry.mp ((adopts.entries x).mp is)
  rw [(quiet.same before).cluster]
  rintro rfl
  rcases (sound.tree.leads x before).1 with known | ⟨-, low⟩
  · rw [adopts.unknown] at known
    cases known
  · omega

include made sound in
theorem Placed.nodeless (high : 2 ≤ c) {e : Entry} (reach : Reach fs.kids 0 i) (known : fs.entryOf i = some e) :
    e.startCluster ≠ c := by
  obtain ⟨adopts, -⟩ := made.adopts sound.tree
  rintro rfl
  have kindIs := (sound.nodes.fits i e reach known).known high
  rw [adopts.unknown] at kindIs
  cases kindIs

include made sound in
theorem Placed.leads : (addKind kind c isDir c = some isDir ∨ isDir = false ∧ c < 2) ∧ c ≠ v.rootCluster := by
  obtain ⟨adopts, -⟩ := made.adopts sound.tree
  constructor
  · rcases made.reserved with ⟨rfl, rfl, -⟩ | reserves
    · exact Or.inr ⟨rfl, by decide⟩
    · exact Or.inl (addKind_new (by have := reserves.inside.1; omega))
  · rintro rfl
    have unknown := adopts.unknown
    rw [sound.tree.root] at unknown
    cases unknown

include made sound geo reach isDirectory plain in
theorem Sound.placed : Sound v clusters (addKind kind c isDir) (addChain cs c) fs' := by
  obtain ⟨adopts, quiet⟩ := made.adopts sound.tree
  obtain ⟨puts, free⟩ := made.puts sound geo
  have notDots := made.entered.not_dots plain
  have cluster := made.entered.cluster
  have leads := made.leads sound
  have unled := fun high {x} => made.unled sound high (x := x)
  have tree : Tree v clusters (addKind kind c isDir) (addChain cs c) fs'.disk := by
    apply adopts.tree.puts puts free made.entered.not_long notDots
    · intro _
      rw [Leads, cluster, made.entered.dir]
      exact leads
    · intro _ high x _ is
      rw [cluster] at high ⊢
      exact unled high is
  have linked : Linked v (addKind kind c isDir) (addChain cs c) fs'.disk fs.entryOf fs.kids := by
    apply (adopts.linked _ _ (sound.nodes.quiet quiet)).puts puts notDots
    intro i e reach known high _ same
    rw [cluster] at same
    exact absurd same.symm (made.nodeless sound (by omega) reach known)
  refine ⟨tree, ?_⟩
  obtain ⟨n, cap, place, small, isDirIs, start, -, -, appends⟩ := made.node
  have old : ∀ i, Reach fs.kids 0 i → fs'.entryOf i = fs.entryOf i := fun i reach => appends.old (sound.inside reach)
  cases loaded : dp.childrenLoaded with
  | false =>
    -- the new node cannot be reached
    rw [appends.unseen loaded loaded]
    exact linked.extend old
  | true =>
    have known : fs'.entryOf fs.nodes.length = some n.toEntry := entryOf_some (appends.fresh (k := 0) rfl)
    have dir := sound.dir reach appends.found isDirectory
    have grafted := appends.grafted loaded (by rw [kids_some appends.found, loaded]; rfl)
    have one : List.range' fs.nodes.length [n].length = [fs.nodes.length] := rfl
    rw [one] at grafted
    apply linked.graft grafted reach (entryOf_some appends.found) isDirectory old
    refine ⟨List.nodup_singleton _, ?_, ?_, ?_, ?_⟩
    · intro i member reach'
      have inside := sound.inside reach'
      rw [List.mem_singleton.mp member] at inside
      exact Nat.lt_irrefl _ inside
    · intro i member
      rw [List.mem_singleton.mp member]
      refine ⟨_, known, ⟨?_, small, ?_⟩, ?_, ?_⟩
      · rw [place, addChain_old adopts.unknown dir]
        exact made.slot
      · rw [place]
        exact notDots
      · rw [Fits, isDirIs, start]
        exact leads.1
      · intro high x is same
        rw [start] at high same
        rw [place]
        by_contra other
        have before := (puts.isEntry other).mp is
        rw [(puts.same other before).cluster] at same
        exact unled high before same
    · intro i member e found high j e' reach' found'
      rw [List.mem_singleton.mp member, known] at found
      cases found
      rw [start] at high ⊢
      exact made.nodeless sound high reach' found'
    · intro i member j member' _ _ _ _ _ _
      rw [List.mem_singleton.mp member, List.mem_singleton.mp member']

end

theorem Tree.low_unknown (tree : Tree v clusters kind cs m) (low : c < 2) : Function.update kind c none = kind := by
  apply Function.update_eq_self_iff.mpr
  cases known : kind c with
  | none => rfl
  | some b => exact absurd (tree.high c b known) (by omega)

theorem Freed.quiet {m' : Mem} (geo : Geometry v clusters) (tree : Tree v clusters kind cs m) {ds : List Nat}
    (freed : Freed v ds m m') (inside : ∀ x ∈ ds, InVolume clusters x) (apart : ∀ k b, kind k = some b → ∀ x ∈ cs k, x ∉ ds) :
    Quiet v kind cs m m' ∧ FreeInside v clusters m' := by
  refine ⟨⟨?_, ?_⟩, ?_⟩
  · intro k b known x member
    exact freed.there x (((tree.chains k b known).inside x member).listed geo) (apart k b known x member)
  · intro k _ x slot b _
    exact freed.data _ (Nat.le_trans (dirSlots_above slot) (Nat.le_add_right _ _))
  · intro x high listed zero
    by_cases member : x ∈ ds
    · exact (inside x member).2
    · rw [freed.there x listed member] at zero
      exact tree.free x high listed zero

section

variable (gone : Removed v cs fs d i e m₁ fs') (sound : Sound v clusters kind cs fs) (geo : Geometry v clusters)
variable (reach : Reach fs.kids 0 d)

include gone sound in
theorem Removed.housed (reach : Reach fs.kids 0 d) : ∃ p, fs.entryOf d = some p ∧ p.isDir = true ∧ Housed v cs fs.disk p e := by
  obtain ⟨p, e', found, isDir, child, housed⟩ := sound.nodes.home d i reach gone.pruned.member
  rw [gone.known] at child
  cases child
  exact ⟨p, found, isDir, housed⟩

include gone sound geo reach in
theorem Removed.unreached : ¬ Reach fs'.kids 0 i := by
  apply gone.pruned.gone
  · rintro rfl
    exact sound.nodes.root_orphan geo reach gone.pruned.member
  · intro d' reach' member
    exact sound.nodes.parent sound.tree geo reach reach' gone.pruned.member member

include gone sound geo reach in
theorem Removed.notRoot : e.startCluster ≠ v.rootCluster := by
  intro same
  have member := gone.pruned.member
  obtain ⟨r, root, -, start, -⟩ := sound.nodes.root
  have high := sound.tree.high _ _ sound.tree.root
  have zero := sound.nodes.distinct i 0 e r (reach.child member) (Reach.refl _ _) gone.known root
    (same.trans start.symm) (by omega)
  rw [zero] at member
  exact sound.nodes.root_orphan geo reach member

include gone sound geo reach in
theorem Removed.puts : Puts v kind cs fs.disk (slotAddr e) m₁ ∧ Tree v clusters kind cs m₁ ∧
    Linked v kind cs m₁ fs'.entryOf fs'.kids := by
  obtain ⟨p, _, _, housed⟩ := gone.housed sound reach
  obtain ⟨puts, free⟩ := Puts.of_changed geo sound.tree housed.slot gone.erased.changed
  obtain ⟨unused, plain⟩ := gone.erased.free
  have entries : fs'.entryOf = fs.entryOf := by
    funext j
    exact gone.entries j
  refine ⟨puts, ?_, ?_⟩
  · apply sound.tree.puts puts free (fun long => unused long.1) plain
    · exact fun named => absurd named.1.1 unused
    · exact fun named => absurd named.1.1 unused
  · rw [entries]
    apply (sound.nodes.prune gone.pruned gone.sub).puts puts plain
    exact fun _ _ _ _ _ named => absurd named.1.1 unused

include gone sound geo reach in
theorem Removed.unled (high : 2 ≤ e.startCluster) {x : Nat} (is : IsEntry v kind cs m₁ x) :
    clusterField m₁ x ≠ e.startCluster := by
  intro cluster
  obtain ⟨puts, -⟩ := gone.puts sound geo reach
  have other : x ≠ slotAddr e := by
    rintro rfl
    exact gone.erased.free.1 is.1.1.1
  have before := (puts.isEntry other).mp is
  rw [(puts.same other before).cluster] at cluster
  exact other (sound.nodes.sole i e (reach.child gone.pruned.member) gone.known high x before cluster)

include gone sound geo reach in
theorem Sound.removed : Sound v clusters (Function.update kind e.startCluster none) cs fs' := by
  obtain ⟨-, tree, linked⟩ := gone.puts sound geo reach
  rcases gone.chain with ⟨low, disk⟩ | ⟨high, freed⟩
  · rw [tree.low_unknown low]
    rw [← disk] at tree linked
    exact ⟨tree, linked⟩
  have known := (sound.nodes.fits i e (reach.child gone.pruned.member) gone.known).known high
  obtain ⟨tree', less⟩ := tree.drop (gone.notRoot sound geo reach) fun x => gone.unled sound geo reach high (x := x)
  have linked' : Linked v (Function.update kind e.startCluster none) cs m₁ fs'.entryOf fs'.kids := by
    apply linked.drop _ less
    rintro j e' reach' known' same
    rw [gone.entries j] at known'
    have here := sound.nodes.distinct j i e' e (gone.pruned.reached reach') (reach.child gone.pruned.member) known'
      gone.known same (by omega)
    rw [here] at reach'
    exact gone.unreached sound geo reach reach'
  obtain ⟨quiet, free⟩ := freed.quiet geo tree' (sound.tree.chains _ _ known).inside (by
    intro k b knownK x member listed
    have other : k ≠ e.startCluster := by
      rintro rfl
      rw [Function.update_self] at knownK
      cases knownK
    rw [Function.update_of_ne other] at knownK
    exact sound.tree.apart k _ b _ knownK known other x member listed)
  exact ⟨tree'.quiet quiet free, linked'.quiet quiet⟩

end

def Opened (v : Volume) (ds : List Nat) (fs : State) (d : Nat) (dp : Node) (fs' : State) : Prop :=
  fs' = fs ∧ dp.childrenLoaded = true ∨ Loaded v ds fs d dp fs'

structure Looked (v : Volume) (clusters : Nat) (kind : Nat → Option Bool) (cs : Nat → List Nat) (fs fs' : State) : Prop where
  sound : Sound v clusters kind cs fs'
  disk : fs'.disk = fs.disk
  more : ∀ i, Reach fs.kids 0 i → Reach fs'.kids 0 i

theorem Looked.refl (sound : Sound v clusters kind cs fs) : Looked v clusters kind cs fs fs := ⟨sound, rfl, fun _ reach => reach⟩

theorem Looked.trans {fs'' : State} (first : Looked v clusters kind cs fs fs') (second : Looked v clusters kind cs fs' fs'') :
    Looked v clusters kind cs fs fs'' :=
  ⟨second.sound, second.disk.trans first.disk, fun i reach => second.more i (first.more i reach)⟩

namespace Opened

variable {ds : List Nat}

theorem node (opened : Opened v ds fs d dp fs') (found : fs.nodes[d]? = some dp) :
    ∃ dp', fs'.nodes[d]? = some dp' ∧ dp'.childrenLoaded = true ∧ dp'.toEntry = dp.toEntry := by
  rcases opened with ⟨rfl, loaded⟩ | loaded
  · exact ⟨dp, found, loaded, rfl⟩
  · obtain ⟨new, cap, -, appends⟩ := loaded.nodes
    exact ⟨_, appends.dir, rfl, rfl⟩

theorem children (opened : Opened v ds fs d dp fs') (found : fs.nodes[d]? = some dp) : fs'.childrenOf d = fs'.kids d := by
  obtain ⟨dp', found', loaded, -⟩ := opened.node found
  rw [State.childrenOf, found', kids_some found', if_pos loaded]

theorem looked (opened : Opened v (cs dp.startCluster) fs d dp fs') (sound : Sound v clusters kind cs fs)
    (geo : Geometry v clusters) (reach : Reach fs.kids 0 d) (found : fs.nodes[d]? = some dp) (isDir : dp.isDir = true) :
    Looked v clusters kind cs fs fs' := by
  rcases opened with ⟨rfl, -⟩ | loaded
  · exact Looked.refl sound
  · refine ⟨sound.loaded geo reach found isDir loaded, loaded.disk, ?_⟩
    obtain ⟨new, cap, loads, appends, grafted⟩ := loaded.grafts
    exact fun i reach => grafted.reach reach

end Opened

theorem Sound.load (sound : Sound v clusters kind cs fs) (ok : Reliable dev) (geo : Geometry v clusters)
    (reach : Reach fs.kids 0 d) (found : fs.nodes[d]? = some dp) (isDir : dp.isDir = true)
    (returned : fat32DirLoadChildren dev v fuel fs d = .ok fs') : Opened v (cs dp.startCluster) fs d dp fs' := by
  have dir := sound.dir reach found isDir
  exact fat32DirLoadChildren_loaded ok geo found (sound.tree.chains _ _ dir) (sound.tree.high _ _ dir)
    (sound.tree.calm _ dir) returned

theorem fat32Finddir_opens (ok : Reliable dev) (geo : Geometry v clusters) (sound : Sound v clusters kind cs fs)
    (reach : Reach fs.kids 0 d) {name : List UInt8} {child : Option Nat}
    (returned : fat32Finddir dev v fuel fs d name = .ok (child, fs')) :
    (fs' = fs ∧ child = none) ∨ ∃ dp, fs.nodes[d]? = some dp ∧ dp.isDir = true ∧
      Opened v (cs dp.startCluster) fs d dp fs' ∧ ∀ i, child = some i → i ∈ fs'.kids d := by
  unfold fat32Finddir at returned
  split at returned
  · cases returned
    exact Or.inl ⟨rfl, rfl⟩
  rename_i dp found
  split at returned
  rotate_left
  · cases returned
    exact Or.inl ⟨rfl, rfl⟩
  rename_i isDir
  obtain ⟨fs₁, load, returned⟩ := bind_returns returned
  cases returned
  have opened := sound.load ok geo reach found isDir load
  refine Or.inr ⟨dp, found, isDir, opened, fun i same => ?_⟩
  rw [← opened.children found]
  exact List.mem_of_find?_eq_some same

theorem fat32Readdir_opens (ok : Reliable dev) (geo : Geometry v clusters) (sound : Sound v clusters kind cs fs)
    (reach : Reach fs.kids 0 d) {index : Nat} {name : Option (List UInt8)}
    (returned : fat32Readdir dev v fuel fs d index = .ok (name, fs')) :
    fs' = fs ∨ ∃ dp, fs.nodes[d]? = some dp ∧ dp.isDir = true ∧ Opened v (cs dp.startCluster) fs d dp fs' := by
  unfold fat32Readdir at returned
  split at returned
  · cases returned
    exact Or.inl rfl
  rename_i dp found
  split at returned
  rotate_left
  · cases returned
    exact Or.inl rfl
  rename_i isDir
  obtain ⟨fs₁, load, returned⟩ := bind_returns returned
  cases returned
  exact Or.inr ⟨dp, found, isDir, sound.load ok geo reach found isDir load⟩

theorem fat32UnlinkImpl_effect (ok : Reliable dev) (geo : Geometry v clusters) (sound : Sound v clusters kind cs fs)
    (reach : Reach fs.kids 0 d) {name : List UInt8} {done : Bool}
    (returned : fat32UnlinkImpl dev v fuel fs d name = .ok (done, fs')) :
    fs' = fs ∨ ∃ dp fs₁, fs.nodes[d]? = some dp ∧ dp.isDir = true ∧ Opened v (cs dp.startCluster) fs d dp fs₁ ∧
      (fs' = fs₁ ∨ ∃ i e m₁, Removed v cs fs₁ d i e m₁ fs') := by
  rcases node_or_other fs d true with ⟨dp, found, isDir⟩ | other
  rotate_left
  · rw [fat32UnlinkImpl_other other] at returned
    cases returned
    exact Or.inl rfl
  rcases fat32UnlinkImpl_split found returned with same | ⟨fs₁, load, rest⟩
  · exact Or.inl same
  have opened := sound.load ok geo reach found isDir load
  refine Or.inr ⟨dp, fs₁, found, isDir, opened, rest.imp_right ?_⟩
  rintro ⟨idx, i, fp, fs₂, here, node, freed, rfl⟩
  have looked := opened.looked sound geo reach found isDir
  obtain ⟨dp', found', loaded', -⟩ := opened.node found
  obtain ⟨m₁, gone⟩ := removed_of_unlink ok geo looked.sound.tree looked.sound.nodes (looked.more d reach) found'
    loaded' here node freed
  exact ⟨i, _, m₁, gone⟩

structure Mounted (v : Volume) (fs : State) : Prop where
  root : ∃ r, fs.nodes = [r] ∧ r.isDir = true ∧ r.startCluster = v.rootCluster ∧ r.direntSector = 0 ∧ r.direntOff = 0 ∧
    r.childrenLoaded = false

theorem Mounted.reach (mounted : Mounted v fs) (reach : Reach fs.kids 0 i) : i = 0 := by
  obtain ⟨r, nodes, -, -, -, -, unloaded⟩ := mounted.root
  have childless : ∀ d, fs.kids d = [] := by
    intro d
    rw [State.kids, nodes]
    rcases d with _ | d
    · exact if_neg (by rw [unloaded]; decide)
    · rfl
  rcases reach.cases with zero | ⟨d, -, member⟩
  · exact zero.symm
  · rw [childless d] at member
    cases member

theorem Mounted.sound (mounted : Mounted v fs) (tree : Tree v clusters kind cs fs.disk) : Sound v clusters kind cs fs := by
  obtain ⟨r, nodes, isDir, start, sector, off, unloaded⟩ := mounted.root
  have known : fs.entryOf 0 = some r.toEntry := by
    rw [State.entryOf, nodes]
    rfl
  have only : ∀ {i e}, Reach fs.kids 0 i → fs.entryOf i = some e → e = r.toEntry := by
    intro i e reach found
    rw [mounted.reach reach, known] at found
    exact (Option.some.inj found).symm
  have none_ : ∀ {d i}, Reach fs.kids 0 d → i ∉ fs.kids d := by
    intro d i reach member
    rw [mounted.reach reach, State.kids, nodes] at member
    simp only [List.getElem?_cons_zero, unloaded, Bool.false_eq_true, if_false] at member
    cases member
  refine ⟨tree, ?_, ?_, ?_, ?_, ?_, ?_⟩
  · refine ⟨_, known, isDir, start, ?_⟩
    rw [slotAddr, sector, off, Nat.zero_mul]
  · intro d reach
    rw [List.eq_nil_iff_forall_not_mem.mpr fun i => none_ (i := i) reach]
    exact List.nodup_nil
  · exact fun d i reach member => absurd member (none_ reach)
  · intro i e reach found
    rw [only reach found]
    left
    rw [start, isDir]
    exact tree.root
  · intro i e reach found _ x is cluster
    rw [only reach found, start] at cluster
    exact absurd cluster (tree.leads x is).2
  · intro i j _ _ reach reach' _ _ _ _
    rw [mounted.reach reach, mounted.reach reach']

def rootKind : Nat → Option Bool := Function.update (fun _ => none) 2 (some true)

def rootChain (_ : Nat) : List Nat := [2]

theorem rootKind_some {b : Bool} (known : rootKind c = some b) : c = 2 ∧ b = true := by
  by_cases root : c = 2
  · subst root
    exact ⟨rfl, (Option.some.inj known).symm⟩
  · rw [rootKind, Function.update_of_ne root] at known
    cases known

theorem smallDisk_unused {a : Nat} {ds : List Nat} (slot : a ∈ dirSlots smallVolume ds) : ¬ Used smallDisk a := by
  intro used
  have above : 1536 ≤ a := dirSlots_above slot
  apply used.1
  exact if_neg fun inside => absurd inside.2.1 (Nat.not_lt.mpr above)

theorem smallDisk_tree : Tree smallVolume 4 rootKind rootChain smallDisk := by
  have empty : ∀ {x}, ¬ IsEntry smallVolume rootKind rootChain smallDisk x := by
    rintro x ⟨named, d, -, slot⟩
    exact smallDisk_unused slot named.1.1
  constructor
  · exact smallDisk_free
  · intro c b known
    exact Nat.le_of_eq (rootKind_some known).1.symm
  · intro c b known
    rw [(rootKind_some known).1]
    exact smallDisk_chain (c := 2) ⟨by decide, by decide⟩ (by decide +kernel)
  · intro c c' b b' known known' other
    exact absurd ((rootKind_some known).1.trans (rootKind_some known').1.symm) other
  · rfl
  · intro d _
    exact calm_of_not_long fun x slot long => smallDisk_unused slot long.1
  · exact fun x is => absurd is empty
  · exact fun x _ is => absurd is empty

def emptyRoot : Node :=
  { isDir := true, startCluster := 2, size := 0, direntSector := 0, direntOff := 0
    name := [], length := 0, children := [], childrenCap := 0, childrenLoaded := false }

def freshVolume : State := ⟨smallDisk, [emptyRoot], 0⟩

theorem freshVolume_mounted : Mounted smallVolume freshVolume := ⟨emptyRoot, rfl, rfl, rfl, rfl, rfl, rfl⟩

end RexOs.Fs
