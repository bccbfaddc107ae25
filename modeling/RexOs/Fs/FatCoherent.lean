import RexOs.Fs.FatGrow

/-! The nodes say what the entries on the disk say.

`Coherent` is about the nodes that can be reached from the root: each one agrees with its
directory entry, and no two are for one entry. A call keeps it if it makes entries only in
directories that were loaded before, and records only sizes that the entry can hold.
-/

set_option autoImplicit false

namespace RexOs.Fs

open RexOs.Library

/-- The node says of its file what the entry on the disk says; no size is kept for a directory. -/
structure Accords (m : Mem) (p : Node) : Prop where
  named : Named m (slotAddr p.toEntry)
  isDir : dirField m (slotAddr p.toEntry) = p.isDir
  cluster : clusterField m (slotAddr p.toEntry) = p.startCluster
  size : p.isDir = false → sizeField m (slotAddr p.toEntry) = p.size
  length : p.isDir = false → p.length = p.size

structure Coherent (v : Volume) (clusters : Nat) (kind : Nat → Option Bool) (cs : Nat → List Nat) (fs : State) : Prop where
  sound : Sound v clusters kind cs fs
  agrees : ∀ i p, Reach fs.kids 0 i → i ≠ 0 → fs.nodes[i]? = some p → Accords fs.disk p
  places : ∀ i j p q, Reach fs.kids 0 i → Reach fs.kids 0 j → fs.nodes[i]? = some p → fs.nodes[j]? = some q →
    slotAddr p.toEntry = slotAddr q.toEntry → i = j

def SameFile (p p' : Node) : Prop := p'.toEntry = p.toEntry ∧ (p.isDir = false → p'.length = p.length)

structure Stays (fs fs' : State) (i : Nat) (p p' : Node) : Prop where
  reach : Reach fs.kids 0 i
  found : fs.nodes[i]? = some p
  same : SameFile p p'
  entry : i ≠ 0 → SameEntry fs.disk (slotAddr p.toEntry) fs'.disk (slotAddr p.toEntry)

section
variable {dev : Device} {v : Volume} {clusters : Nat} {kind kind' : Nat → Option Bool} {cs cs' : Nat → List Nat}
variable {fs fs' : State} {m m' m₁ : Mem} {a c d i fuel : Nat} {dp p p' : Node} {e : Entry} {raw name : List UInt8}
variable {isDir : Bool}

theorem SameFile.refl (p : Node) : SameFile p p := ⟨rfl, fun _ => rfl⟩

theorem Accords.follow (agrees : Accords m p) (same : SameFile p p')
    (entry : SameEntry m (slotAddr p.toEntry) m' (slotAddr p.toEntry)) : Accords m' p' := by
  obtain ⟨same, length⟩ := same
  constructor
  · rw [same]
    exact entry.named.mpr agrees.named
  · rw [same, entry.dir]
    exact agrees.isDir
  · rw [same, entry.cluster]
    exact agrees.cluster
  · intro file
    rw [same] at file
    rw [same, entry.size]
    exact agrees.size file
  · intro file
    rw [same] at file
    rw [length file, same]
    exact agrees.length file

theorem Mirrors.agrees (mirrors : Mirrors m (slotAddr p.toEntry) p) : Accords m p := by
  refine ⟨mirrors.named, mirrors.isDir.symm, mirrors.start.symm, ?_, fun _ => mirrors.length⟩
  intro file
  rw [mirrors.size, file]
  rfl

theorem Sound.slot (sound : Sound v clusters kind cs fs) (reach : Reach fs.kids 0 i) (child : i ≠ 0)
    (found : fs.nodes[i]? = some p) : ∃ d, kind d = some true ∧ slotAddr p.toEntry ∈ dirSlots v (cs d) ∧
      ¬ Dots fs.disk (slotAddr p.toEntry) := by
  rcases reach.cases with root | ⟨d, before, member⟩
  · exact absurd root.symm child
  · obtain ⟨q, e, parent, isDir, known, housed⟩ := sound.nodes.home d i before member
    rw [entryOf_some found] at known
    cases known
    exact ⟨_, sound.nodes.dir before parent isDir, housed.slot, housed.plain⟩

theorem Sound.root_place (sound : Sound v clusters kind cs fs) (geo : Geometry v clusters) {ds : List Nat}
    (found : fs.nodes[0]? = some p) (slot : a ∈ dirSlots v ds) : slotAddr p.toEntry ≠ a := by
  obtain ⟨r, root, -, -, place⟩ := sound.nodes.root
  rw [entryOf_some found] at root
  cases root
  have above := dirSlots_above slot
  have copies := geo.copies
  have table := geo.table
  rw [sectorSize] at above
  omega

namespace Coherent

theorem extend (coherent : Coherent v clusters kind cs fs) (sound : Sound v clusters kind' cs' fs')
    (New : Nat → Node → Prop)
    (split : ∀ i p', Reach fs'.kids 0 i → fs'.nodes[i]? = some p' → New i p' ∨ ∃ p, Stays fs fs' i p p')
    (agrees : ∀ i p, New i p → Accords fs'.disk p)
    (apart : ∀ i j p q, New i p → Reach fs.kids 0 j → j ≠ i → fs.nodes[j]? = some q → slotAddr q.toEntry ≠ slotAddr p.toEntry)
    (distinct : ∀ i j p q, New i p → New j q → slotAddr p.toEntry = slotAddr q.toEntry → i = j) :
    Coherent v clusters kind' cs' fs' := by
  refine ⟨sound, ?_, ?_⟩
  · intro i p' reach child found
    rcases split i p' reach found with new | ⟨p, stays⟩
    · exact agrees i p' new
    · exact (coherent.agrees i p stays.reach child stays.found).follow stays.same (stays.entry child)
  · intro i j p' q' reach reach' found found' equal
    by_contra other
    rcases split i p' reach found with new | ⟨p, stays⟩
    · rcases split j q' reach' found' with new' | ⟨q, stays'⟩
      · exact other (distinct i j p' q' new new' equal)
      · rw [stays'.same.1] at equal
        exact apart i j p' q new stays'.reach (Ne.symm other) stays'.found equal.symm
    · rw [stays.same.1] at equal
      rcases split j q' reach' found' with new' | ⟨q, stays'⟩
      · exact apart j i q' p new' stays.reach other stays.found equal
      · rw [stays'.same.1] at equal
        exact other (coherent.places i j p q stays.reach stays'.reach stays.found stays'.found equal)

theorem keep (coherent : Coherent v clusters kind cs fs) (sound : Sound v clusters kind' cs' fs')
    (stays : ∀ i p', Reach fs'.kids 0 i → fs'.nodes[i]? = some p' → ∃ p, Stays fs fs' i p p') :
    Coherent v clusters kind' cs' fs' := by
  apply coherent.extend sound (fun _ _ => False) fun i p' reach found => Or.inr (stays i p' reach found)
  · exact fun _ _ none => none.elim
  · exact fun _ _ _ _ none => none.elim
  · exact fun _ _ _ _ none => none.elim

theorem unchanged (coherent : Coherent v clusters kind cs fs) (same : Unchanged v clusters kind cs fs fs') :
    Coherent v clusters kind cs fs' := by
  apply coherent.keep (coherent.sound.unchanged same)
  intro i p reach found
  have kids : fs'.kids = fs.kids := by
    funext i
    rw [State.kids, same.nodes, State.kids]
  rw [kids] at reach
  rw [same.nodes] at found
  refine ⟨p, reach, found, SameFile.refl p, fun child => ?_⟩
  obtain ⟨d, dir, slot, -⟩ := coherent.sound.slot reach child found
  exact same.quiet.entries d dir _ slot

end Coherent

theorem Appends.before {dp' : Node} {new : List Node} (appends : Appends fs d dp dp' new fs') (isDir : dp.isDir = true)
    (inside : i < fs.nodes.length) (found : fs'.nodes[i]? = some p') : ∃ p, fs.nodes[i]? = some p ∧ SameFile p p' := by
  by_cases here : i = d
  · subst here
    rw [appends.dir] at found
    cases found
    refine ⟨dp, appends.found, appends.same, fun file => ?_⟩
    rw [isDir] at file
    cases file
  · rw [appends.other here, List.getElem?_append_left inside] at found
    exact ⟨p', found, SameFile.refl p'⟩

theorem Coherent.loaded (coherent : Coherent v clusters kind cs fs) (geo : Geometry v clusters) (reach : Reach fs.kids 0 d)
    (found : fs.nodes[d]? = some dp) (isDir : dp.isDir = true) (loaded : Loaded v (cs dp.startCluster) fs d dp fs') :
    Coherent v clusters kind cs fs' := by
  have sound := coherent.sound
  obtain ⟨new, cap, loads, appends, grafted⟩ := loaded.grafts
  have mirrored : ∀ {k : Nat} {p : Node}, new[k]? = some p → Mirrors fs.disk (slotAddr p.toEntry) p ∧
      slotAddr p.toEntry ∈ dirSlots v (cs dp.startCluster) := by
    intro k p here
    obtain ⟨a, slot, mirrors⟩ := loads.mirrors p (List.mem_of_getElem? here)
    have place := mirrors.place
    rw [← place] at mirrors slot
    exact ⟨mirrors, slot⟩
  apply coherent.extend (sound.loaded geo reach found isDir loaded)
    fun i p => ∃ k, i = fs.nodes.length + k ∧ new[k]? = some p
  · intro i p' reach' found'
    rcases grafted.reached reach' with old | ⟨-, fresh⟩
    · obtain ⟨p, before, same⟩ := appends.before isDir (sound.inside old) found'
      refine Or.inr ⟨p, old, before, same, fun _ => ?_⟩
      rw [loaded.disk]
      exact fun _ _ => rfl
    · obtain ⟨low, high⟩ := List.mem_range'_1.mp fresh
      have here := List.getElem?_eq_getElem (l := new) (i := i - fs.nodes.length) (by omega)
      have node := appends.fresh here
      have index : fs.nodes.length + (i - fs.nodes.length) = i := by omega
      rw [index, found'] at node
      cases node
      exact Or.inl ⟨_, index.symm, here⟩
  · rintro i p ⟨k, rfl, here⟩
    rw [loaded.disk]
    exact (mirrored here).1.agrees
  · rintro i j p q ⟨k, rfl, here⟩ reach' - known equal
    have slot := (mirrored here).2
    rw [← equal] at slot
    exact sound.elsewhere geo reach found isDir loaded.before reach' (entryOf_some known) slot
  · rintro i j p q ⟨k, rfl, here⟩ ⟨k', rfl, here'⟩ equal
    have ch := sound.tree.chains _ _ (sound.dir reach found isDir)
    rw [loads.place_inj (dirSlots_nodup geo ch.inside ch.nodup) here here' equal]

theorem Coherent.opened (coherent : Coherent v clusters kind cs fs) (geo : Geometry v clusters) (reach : Reach fs.kids 0 d)
    (found : fs.nodes[d]? = some dp) (isDir : dp.isDir = true) (opened : Opened v (cs dp.startCluster) fs d dp fs') :
    Coherent v clusters kind cs fs' := by
  rcases opened with ⟨rfl, -⟩ | loaded
  · exact coherent
  · exact coherent.loaded geo reach found isDir loaded

def Usable (raw : List UInt8) : Prop := raw.head? ≠ some 0 ∧ raw.head? ≠ some 0xE5

instance (raw : List UInt8) : Decidable (Usable raw) := inferInstanceAs (Decidable (_ ∧ _))

theorem Entered.named (entered : Entered m a raw (newAttr isDir) c m') (plain : raw.head? ≠ some dot) (usable : Usable raw) :
    Named m' a := by
  have first : raw.head? = some (m' a) := by
    rw [← entered.raw]
    rfl
  rw [Usable, first] at usable
  refine ⟨⟨⟨fun free => usable.1 (congrArg some free), fun deleted => usable.2 (congrArg some deleted)⟩, ?_⟩,
    entered.not_dots plain⟩
  rw [entered.attr]
  cases isDir <;> decide

theorem Placed.kept (made : Placed v clusters kind cs fs d dp isDir raw c a m₁ fs') (sound : Sound v clusters kind cs fs)
    (geo : Geometry v clusters) {k x : Nat} (dir : kind k = some true) (slot : x ∈ dirSlots v (cs k))
    (used : Used fs.disk x) : x ≠ a ∧ SameEntry fs.disk x fs'.disk x := by
  obtain ⟨adopts, quiet⟩ := made.adopts sound.tree
  obtain ⟨puts, -⟩ := made.puts sound geo
  have first := quiet.entries k dir x slot
  have other : x ≠ a := by
    rintro rfl
    exact made.unused (first.used.mpr used)
  have chain : addChain cs c k = cs k := addChain_old adopts.unknown dir
  rw [← chain] at slot
  exact ⟨other, first.trans (puts.others k (addKind_old adopts.unknown dir) x slot other)⟩

theorem Coherent.placed (coherent : Coherent v clusters kind cs fs) (geo : Geometry v clusters)
    (made : Placed v clusters kind cs fs d dp isDir raw c a m₁ fs') (reach : Reach fs.kids 0 d) (isDirectory : dp.isDir = true)
    (loaded : dp.childrenLoaded = true) (plain : raw.head? ≠ some dot) (usable : Usable raw) :
    Coherent v clusters (addKind kind c isDir) (addChain cs c) fs' := by
  have sound := coherent.sound
  obtain ⟨n, cap, place, small, isDirIs, start, size, length, appends⟩ := made.node
  have grafted := appends.grafted loaded (by rw [kids_some appends.found, loaded]; rfl)
  have kept : ∀ {i : Nat} {p : Node}, Reach fs.kids 0 i → i ≠ 0 → fs.nodes[i]? = some p →
      slotAddr p.toEntry ≠ a ∧ SameEntry fs.disk (slotAddr p.toEntry) fs'.disk (slotAddr p.toEntry) := by
    intro i p reach' child found
    obtain ⟨k, dir, slot, -⟩ := sound.slot reach' child found
    exact made.kept sound geo dir slot (coherent.agrees i p reach' child found).named.1.1
  apply coherent.extend (Sound.placed made sound geo reach isDirectory plain) fun i p => i = fs.nodes.length ∧ p = n
  · intro i p' reach' found'
    rcases grafted.reached reach' with old | ⟨-, fresh⟩
    · obtain ⟨p, before, same⟩ := appends.before isDirectory (sound.inside old) found'
      exact Or.inr ⟨p, old, before, same, fun child => (kept old child before).2⟩
    · obtain rfl : i = fs.nodes.length := List.mem_singleton.mp fresh
      have node := appends.fresh (k := 0) rfl
      rw [Nat.add_zero, found'] at node
      exact Or.inl ⟨rfl, Option.some.inj node⟩
  · rintro i p ⟨-, rfl⟩
    rw [← place] at made
    refine ⟨made.entered.named plain usable, made.entered.dir.trans isDirIs.symm, made.entered.cluster.trans start.symm, ?_, ?_⟩
    · exact fun _ => made.entered.size.trans size.symm
    · exact fun _ => length.trans size.symm
  · rintro i j p q ⟨-, rfl⟩ reach' - known
    rw [place]
    by_cases child : j = 0
    · subst child
      exact sound.root_place geo known made.slot
    · exact (kept reach' child known).1
  · rintro i j p q ⟨rfl, -⟩ ⟨rfl, -⟩ -
    rfl

theorem Coherent.removed (coherent : Coherent v clusters kind cs fs) (geo : Geometry v clusters)
    (gone : Removed v cs fs d i e m₁ fs') (reach : Reach fs.kids 0 d) :
    Coherent v clusters (Function.update kind e.startCluster none) cs fs' := by
  have sound := coherent.sound
  have unreached := gone.unreached sound geo reach
  obtain ⟨puts, -, -⟩ := gone.puts sound geo reach
  apply coherent.keep (Sound.removed gone sound geo reach)
  intro j p' reach' found'
  have before := gone.pruned.reached reach'
  have entry := gone.entries j
  rw [entryOf_some found'] at entry
  obtain ⟨p, found, same⟩ := Option.map_eq_some_iff.mp entry.symm
  have length := gone.lengths j
  rw [found', found] at length
  refine ⟨p, before, found, ⟨same.symm, fun _ => Option.some.inj length⟩, fun child => ?_⟩
  -- the node is another than the one that is removed, so its entry is another
  have other : slotAddr p.toEntry ≠ slotAddr e := by
    intro equal
    obtain ⟨q, known, isEntry⟩ := Option.map_eq_some_iff.mp gone.known
    rw [← isEntry] at equal
    obtain rfl := coherent.places j i p q before (reach.child gone.pruned.member) found known equal
    exact unreached reach'
  obtain ⟨k, dir, slot, -⟩ := sound.slot before child found
  have erased := puts.others k dir _ slot other
  rcases gone.chain with ⟨-, disk⟩ | ⟨-, freed⟩
  · rw [disk]
    exact erased
  · exact erased.trans fun b _ => freed.data _ (Nat.le_trans (dirSlots_above slot) (Nat.le_add_right _ _))

theorem LiveAt.not_long (live : LiveAt m a) : ¬ LongAt m a := by
  intro long
  have both : attrAt m a &&& attrLfn &&& attrVolumeId = attrLfn &&& attrVolumeId := by rw [long.2]
  have bit : attrLfn &&& attrVolumeId = attrVolumeId := by decide
  have set : attrVolumeId ≠ 0 := by decide
  rw [Nat.and_assoc, bit, live.2] at both
  exact set both.symm

theorem entryOf_set (found : fs.nodes[i]? = some p) (nodes : fs'.nodes = fs.nodes.set i p') :
    fs'.entryOf = Function.update fs.entryOf i (some p'.toEntry) := by
  funext j
  by_cases here : j = i
  · rw [here, Function.update_self, State.entryOf, nodes, List.getElem?_set_self (List.getElem?_eq_some_iff.mp found).1,
      Option.map_some]
  · rw [Function.update_of_ne here, State.entryOf, nodes, List.getElem?_set_ne (Ne.symm here), State.entryOf]

theorem kids_set (found : fs.nodes[i]? = some p) (nodes : fs'.nodes = fs.nodes.set i p')
    (loaded : p'.childrenLoaded = p.childrenLoaded) (children : p'.children = p.children) : fs'.kids = fs.kids := by
  funext j
  by_cases here : j = i
  · subst here
    have there : fs'.nodes[j]? = some p' := by
      rw [nodes, List.getElem?_set_self (List.getElem?_eq_some_iff.mp found).1]
    rw [kids_some there, kids_some found, loaded, children]
  · rw [State.kids, nodes, List.getElem?_set_ne (Ne.symm here), State.kids]

theorem Sound.file_child (sound : Sound v clusters kind cs fs) (found : fs.nodes[i]? = some p) (file : p.isDir = false) :
    i ≠ 0 := by
  rintro rfl
  obtain ⟨r, root, isDir, -⟩ := sound.nodes.root
  rw [entryOf_some found] at root
  cases root
  rw [file] at isDir
  cases isDir

theorem Sound.block (sound : Sound v clusters kind cs fs) (geo : Geometry v clusters) (reach : Reach fs.kids 0 i)
    (child : i ≠ 0) (found : fs.nodes[i]? = some p) : p.direntSector ≠ 0 ∧ p.direntOff + 32 ≤ sectorSize := by
  rcases reach.cases with root | ⟨d, before, member⟩
  · exact absurd root.symm child
  · obtain ⟨q, e, -, -, known, housed⟩ := sound.nodes.home d i before member
    rw [entryOf_some found] at known
    cases known
    exact housed.block geo

theorem Coherent.renew {s z l newSize newCluster : Nat} (coherent : Coherent v clusters kind cs fs) (geo : Geometry v clusters)
    (reach : Reach fs.kids 0 i) (found : fs.nodes[i]? = some p) (file : p.isDir = false)
    (nodes : fs'.nodes = fs.nodes.set i { p with startCluster := s, size := z, length := l })
    (sets : SetsFields fs.disk (slotAddr p.toEntry) newSize newCluster fs'.disk)
    (accords : Accords fs'.disk { p with startCluster := s, size := z, length := l })
    (fits : kind s = some false ∨ s < 2)
    (fresh : 2 ≤ s → ∀ x, x ≠ slotAddr p.toEntry → IsEntry v kind cs fs.disk x → clusterField fs.disk x ≠ s)
    (apart : 2 ≤ s → ∀ j e, Reach fs.kids 0 j → j ≠ i → fs.entryOf j = some e → e.startCluster ≠ s) :
    Coherent v clusters kind cs fs' := by
  have sound := coherent.sound
  have child := sound.file_child found file
  obtain ⟨d, dir, slot, plain⟩ := sound.slot reach child found
  have old := coherent.agrees i p reach child found
  have kids : fs'.kids = fs.kids := kids_set found nodes rfl rfl
  have cluster : clusterField fs'.disk (slotAddr p.toEntry) = s := accords.cluster
  have isFile : dirField fs'.disk (slotAddr p.toEntry) = false := accords.isDir.trans file
  have leads : Leads v kind fs'.disk (slotAddr p.toEntry) := by
    rw [Leads, cluster, isFile]
    refine ⟨fits.imp_right fun low => ⟨rfl, low⟩, ?_⟩
    rintro rfl
    have high := sound.tree.high _ _ sound.tree.root
    rcases fits with known | low
    · rw [sound.tree.root] at known
      cases known
    · omega
  obtain ⟨tree, puts⟩ := sound.tree.update geo slot sets old.named.1.not_long plain leads (by
    rw [cluster]
    exact fresh)
  have linked : Linked v kind cs fs'.disk fs.entryOf fs.kids := by
    apply sound.nodes.puts puts accords.named.2
    intro j e reach' known high _ same
    rw [cluster] at same
    by_cases here : j = i
    · subst here
      rw [entryOf_some found] at known
      cases known
      rfl
    · exact absurd same.symm (apart (by omega) j e reach' here known)
  have renewed : Linked v kind cs fs'.disk
      (Function.update fs.entryOf i (some { p.toEntry with startCluster := s, size := z })) fs.kids := by
    apply linked.renew reach (entryOf_some found) file rfl
    · exact fits.imp (fun known => known.trans (congrArg some file.symm)) fun low => ⟨file, low⟩
    · intro high x is same
      by_contra other
      have before := (puts.isEntry other).mp is
      rw [(puts.same other before).cluster] at same
      exact fresh high x other before same
    · exact fun high j e reach' other known => apart high j e reach' other known
  have entries : fs'.entryOf = _ := entryOf_set found nodes
  have sound' : Sound v clusters kind cs fs' := by
    refine ⟨tree, ?_⟩
    rw [entries, kids]
    exact renewed
  apply coherent.extend sound' fun j q => j = i ∧ q = { p with startCluster := s, size := z, length := l }
  · intro j q reach' found'
    rw [kids] at reach'
    by_cases here : j = i
    · rw [here, nodes, List.getElem?_set_self (List.getElem?_eq_some_iff.mp found).1] at found'
      exact Or.inl ⟨here, (Option.some.inj found').symm⟩
    · rw [nodes, List.getElem?_set_ne (Ne.symm here)] at found'
      refine Or.inr ⟨q, reach', found', SameFile.refl q, fun child' => ?_⟩
      obtain ⟨d', dir', slot', -⟩ := sound.slot reach' child' found'
      exact puts.others d' dir' _ slot' fun same => here (coherent.places j i q p reach' reach found' found same)
  · rintro _ _ ⟨-, rfl⟩
    exact accords
  · rintro _ j _ q ⟨rfl, rfl⟩ reach' other known same
    exact other (coherent.places j _ q p reach' reach known found same)
  · rintro _ _ _ _ ⟨rfl, -⟩ ⟨rfl, -⟩ -
    rfl

theorem Coherent.grow {a b : Nat} {g : Nat → UInt8} {ds : List Nat} (coherent : Coherent v clusters kind cs fs)
    (geo : Geometry v clusters) (file : kind c = some false) (writes : Writes v clusters c fs.disk (cs c) m ds a b g)
    (t : Nat) : Coherent v clusters kind (Function.update cs c ds) (fs.after m t) := by
  have sound := coherent.sound
  have grown : Sound v clusters kind (Function.update cs c ds) (fs.after m t) :=
    ⟨sound.tree.grow file writes geo, sound.nodes.grow sound.tree file writes⟩
  apply coherent.keep grown
  intro i p reach found
  refine ⟨p, reach, found, SameFile.refl p, fun child => ?_⟩
  obtain ⟨d, dir, slot, -⟩ := sound.slot reach child found
  exact sound.tree.slot_kept file writes dir slot

theorem Coherent.reserve (coherent : Coherent v clusters kind cs fs) (reserves : Reserves v clusters kind cs fs.disk c false m)
    (t : Nat) : Coherent v clusters (addKind kind c false) (addChain cs c) (fs.after m t) := by
  have sound := coherent.sound
  have adopts := reserves.adopts sound.tree
  have adopted : Sound v clusters (addKind kind c false) (addChain cs c) (fs.after m t) :=
    ⟨adopts.tree, adopts.linked _ _ (sound.nodes.quiet reserves.quiet)⟩
  apply coherent.keep adopted
  intro i p reach found
  refine ⟨p, reach, found, SameFile.refl p, fun child => ?_⟩
  obtain ⟨d, dir, slot, -⟩ := sound.slot reach child found
  exact reserves.quiet.entries d dir _ slot

end

/-! The node of a file and its entry change in two places: a file without clusters gets its first one,
and the size is recorded when the file has grown. In between only the clusters of the file change.
-/

variable {dev : Device} {v : Volume} {clusters start : Nat} {kind kind₁ : Nat → Option Bool} {cs cs₁ : Nat → List Nat}
variable {fs fs' fs₁ : State} {m m' : Mem} {a b c i x n offset fuel : Nat} {p : Node} {ds : List Nat} {g : Nat → UInt8}
variable {isDir : Bool} {buffer : List UInt8}

theorem chain_low (low : c < 2) : chain v m c = [] := by
  unfold chain
  cases v.fatSize * entriesPerSec with
  | zero => rfl
  | succ fuel => rw [follow, if_neg (by omega)]

theorem SetsFields.entry {newSize newCluster : Nat} (sets : SetsFields m a newSize newCluster m') (geo : Geometry v clusters)
    (slot : a ∈ dirSlots v ds) (listed : c < v.fatSize * entriesPerSec) : entry v m' c = entry v m c := by
  have above := dirSlots_above slot
  exact entry_congr geo (fun x low => sets.changed x (Or.inl (by omega))) listed

theorem Sound.unled (sound : Sound v clusters kind cs fs) (unknown : kind c = none) (high : 2 ≤ c)
    (is : IsEntry v kind cs fs.disk x) : clusterField fs.disk x ≠ c := by
  rintro rfl
  rcases (sound.tree.leads x is).1 with known | ⟨-, low⟩
  · rw [unknown] at known
    cases known
  · omega

theorem Sound.nodeless (sound : Sound v clusters kind cs fs) (unknown : kind c = none) (high : 2 ≤ c) {e : Entry}
    (reach : Reach fs.kids 0 i) (known : fs.entryOf i = some e) : e.startCluster ≠ c := by
  rintro rfl
  have kindIs := (sound.nodes.fits i e reach known).known high
  rw [unknown] at kindIs
  cases kindIs

structure Starts (v : Volume) (clusters : Nat) (fs : State) (i : Nat) (p : Node) (start : Nat) (kind₁ : Nat → Option Bool)
    (cs₁ : Nat → List Nat) (fs₁ : State) : Prop where
  coherent : Coherent v clusters kind₁ cs₁ fs₁
  known : kind₁ start = some false
  node : fs₁.nodes[i]? = some { p with startCluster := start }
  kids : fs₁.kids = fs.kids
  length : fs₁.nodes.length = fs.nodes.length
  room : (cs₁ start).length + (freeClusters v clusters fs₁.disk).card =
    (chain v fs.disk p.startCluster).length + (freeClusters v clusters fs.disk).card

theorem firstCluster_starts (ok : Reliable dev) (geo : Geometry v clusters) (coherent : Coherent v clusters kind cs fs)
    (reach : Reach fs.kids 0 i) (found : fs.nodes[i]? = some p) (file : p.isDir = false) :
    (∃ t, firstCluster dev v fs i p.startCluster = (none, fs.after fs.disk t)) ∨
      ∃ start fs₁ kind₁ cs₁, firstCluster dev v fs i p.startCluster = (some start, fs₁) ∧
        Starts v clusters fs i p start kind₁ cs₁ fs₁ := by
  have sound := coherent.sound
  obtain ⟨high, first⟩ | ⟨low, ⟨t, first, -⟩ | ⟨c, m, t, first, inside, writes⟩⟩ :=
    firstCluster_steps ok geo sound.tree.free i p.startCluster fun _ => 0
  · have known := (sound.nodes.fits i _ reach (entryOf_some found)).known high
    rw [file] at known
    refine Or.inr ⟨_, _, kind, cs, first, coherent, known, found, rfl, rfl, ?_⟩
    rw [(sound.tree.chains _ _ known).chain_eq geo]
  · exact Or.inl ⟨t, first⟩
  have child := sound.file_child found file
  have reserves := writes.reserves geo sound.tree inside
  have adopts := reserves.adopts sound.tree
  have reserved := coherent.reserve reserves t
  have old := reserved.agrees i p reach child found
  obtain ⟨d, dir, slot, -⟩ := sound.slot reach child found
  obtain ⟨real, within⟩ := sound.block geo reach child found
  have small := inside.small geo
  have other : c ≠ keepField := by
    rw [keepField]
    omega
  generalize begun : (fs.setNode i fun p => { p with startCluster := c }).after m t = fs₂ at first
  have nodes : fs₂.nodes = fs.nodes.set i { p with startCluster := c } := by
    rw [← begun]
    exact setNode_nodes found _
  have found₂ : fs₂.nodes[i]? = some { p with startCluster := c } := by
    rw [nodes, List.getElem?_set_self (List.getElem?_eq_some_iff.mp found).1]
  obtain ⟨m', t', updated, sets⟩ := fat32UpdateDirent_updates ok found₂ real within (by decide : keepField < 2 ^ 32)
    (Nat.lt_trans small (by decide) : c < 2 ^ 32)
  have disk : fs₂.disk = m := by
    rw [← begun]
    rfl
  rw [disk] at sets
  rw [updated] at first
  have real : c ≠ 0 := by
    have := inside.1
    omega
  have begins : addKind kind c false c = some false := addKind_new real
  have after : (fs₂.after m' t').nodes = fs.nodes.set i { p with startCluster := c } := nodes
  have renewed : Coherent v clusters (addKind kind c false) (addChain cs c) (fs₂.after m' t') := by
    apply reserved.renew geo reach found file after sets
    · refine ⟨sets.head.named.mpr old.named, sets.head.dir.trans old.isDir, ?_, fun isFile => ?_, old.length⟩
      · exact sets.cluster.trans (if_neg other)
      · exact sets.size.trans ((if_pos rfl).trans (old.size isFile))
    · exact Or.inl begins
    · intro high x _ is
      have before := reserves.quiet.isEntry.mp ((adopts.entries x).mp is)
      rw [after_disk, (reserves.quiet.same before).cluster]
      exact sound.unled adopts.unknown high before
    · exact fun high j e reach' _ known => sound.nodeless adopts.unknown high reach' known
  refine Or.inr ⟨c, _, _, _, first, renewed, begins, found₂, kids_set found after rfl rfl, ?_, ?_⟩
  · rw [after, List.length_set]
  · have room := writes.room geo fun x none => absurd none List.not_mem_nil
    have table := freeClusters_congr geo fun x listed => sets.entry geo slot listed
    rw [addChain, if_neg real, Function.update_self, after_disk, table, room, chain_low low]

theorem recordSize_coherent {newEnd : Nat} (ok : Reliable dev) (geo : Geometry v clusters)
    (coherent : Coherent v clusters kind cs fs) (reach : Reach fs.kids 0 i) (found : fs.nodes[i]? = some p)
    (file : p.isDir = false) (fits : newEnd ≤ p.size ∨ newEnd < keepField) :
    Coherent v clusters kind cs (recordSize dev fs i p.size newEnd) ∧ (recordSize dev fs i p.size newEnd).kids = fs.kids ∧
      (recordSize dev fs i p.size newEnd).nodes.length = fs.nodes.length := by
  rw [recordSize]
  split
  rotate_left
  · exact ⟨coherent, rfl, rfl⟩
  rename_i grows
  have below : newEnd < keepField := by omega
  have whole : u32 newEnd = newEnd := Nat.mod_eq_of_lt (Nat.lt_trans below (by decide))
  have sound := coherent.sound
  have child := sound.file_child found file
  have old := coherent.agrees i p reach child found
  obtain ⟨real, within⟩ := sound.block geo reach child found
  have nodes := setNode_nodes found fun p => { p with size := newEnd, length := newEnd }
  have found' : (fs.setNode i fun p => { p with size := newEnd, length := newEnd }).nodes[i]? =
      some { p with size := newEnd, length := newEnd } := by
    rw [nodes, List.getElem?_set_self (List.getElem?_eq_some_iff.mp found).1]
  obtain ⟨m, t, updated, sets⟩ := fat32UpdateDirent_updates ok found' real within
    (Nat.lt_trans below (by decide) : newEnd < 2 ^ 32) (by decide : keepField < 2 ^ 32)
  have after : ((fs.setNode i fun p => { p with size := newEnd, length := newEnd }).after m t).nodes =
      fs.nodes.set i { p with size := newEnd, length := newEnd } := nodes
  simp only [whole]
  rw [updated]
  refine ⟨?_, kids_set found after rfl rfl, by rw [after, List.length_set]⟩
  apply coherent.renew geo reach found file after sets
  · refine ⟨sets.head.named.mpr old.named, sets.head.dir.trans old.isDir, ?_, fun _ => ?_, fun _ => rfl⟩
    · exact sets.cluster.trans ((if_pos rfl).trans old.cluster)
    · exact sets.size.trans (if_neg (Nat.ne_of_lt below))
  · have known := sound.nodes.fits i _ reach (entryOf_some found)
    exact known.imp (fun known => known.trans (congrArg some file)) And.right
  · exact fun high x other is same => other (sound.nodes.sole i _ reach (entryOf_some found) high x is same)
  · exact fun high j e reach' other known same =>
      other (sound.nodes.distinct j i e _ reach' reach known (entryOf_some found) same (by rw [same]; exact high))

theorem fat32Write_coherent (ok : Reliable dev) (geo : Geometry v clusters) (coherent : Coherent v clusters kind cs fs)
    (reach : Reach fs.kids 0 i)
    (fits : ∀ p, fs.nodes[i]? = some p → p.isDir = false → SizeFits v clusters fs.disk p.toEntry offset buffer.length)
    (returned : fat32Write dev v fuel fs i offset buffer = .ok (n, fs')) :
    (∃ kind cs, Coherent v clusters kind cs fs') ∧ fs'.kids = fs.kids ∧ fs'.nodes.length = fs.nodes.length := by
  rcases node_or_other fs i false with ⟨p, found, file⟩ | other
  rotate_left
  · rw [fat32Write_other other] at returned
    cases returned
    exact ⟨⟨kind, cs, coherent⟩, rfl, rfl⟩
  by_cases nothing : buffer.length = 0
  · rw [fat32Write] at returned
    simp only [found, file, Bool.false_eq_true, if_false, nothing, if_true] at returned
    cases returned
    exact ⟨⟨kind, cs, coherent⟩, rfl, rfl⟩
  obtain ⟨t, first⟩ | ⟨start, fs₁, kind₁, cs₁, first, starts⟩ := firstCluster_starts ok geo coherent reach found file
  · rw [fat32Write] at returned
    simp only [found, file, Bool.false_eq_true, if_false, nothing, first] at returned
    cases returned
    exact ⟨⟨kind, cs, coherent.unchanged (Unchanged.refl coherent.sound.tree t)⟩, rfl, rfl⟩
  have begun := starts.coherent
  have tree := begun.sound.tree
  have ch := tree.chains _ _ starts.known
  have tail := Returns.holds (f := fun fuel => fat32Write dev v fuel fs i offset buffer) ⟨fuel, returned⟩
    (fat32Write_settles dev v fs i offset buffer) fun fuel enough =>
      fat32Write_tail ok geo found file nothing first (tree.high _ _ starts.known) tree.free ch enough
  have count := tail.count ok geo ch
  rw [starts.room] at count
  have count : n = writable v clusters fs.disk p.startCluster offset buffer.length := count
  have fits := fits p found file
  rw [SizeFits, ← count] at fits
  have reach₁ : Reach fs₁.kids 0 i := by
    rw [starts.kids]
    exact reach
  cases tail with
  | unreached t extended short full =>
    exact ⟨⟨_, _, begun.grow geo starts.known extended t⟩, starts.kids, starts.length⟩
  | written t writes some_ _ _ _ =>
    have grown := begun.grow geo starts.known writes t
    obtain ⟨recorded, kids, length⟩ := recordSize_coherent ok geo grown reach₁ starts.node file
      (show offset + n ≤ p.size ∨ offset + n < keepField by omega)
    exact ⟨⟨_, _, recorded⟩, kids.trans starts.kids, length.trans starts.length⟩

end RexOs.Fs
