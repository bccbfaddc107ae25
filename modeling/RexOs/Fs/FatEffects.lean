import RexOs.Fs.FatCreate
import RexOs.Fs.FatFuel
import RexOs.Fs.FatTree

/-! What the calls do to the disk and to the nodes, on a device that does not fail.

`Loaded`, `Placed` and `Removed` describe a directory that was read, an entry that
was made and one that was removed.
-/

set_option autoImplicit false

namespace RexOs.Fs

open RexOs.Library

variable {dev : Device} {v : Volume} {clusters : Nat} {kind : Nat → Option Bool} {cs : Nat → List Nat}
variable {fs fs' : State} {m m' : Mem} {a c d i start fuel : Nat} {dp dp' : Node} {name : List UInt8}

theorem entryOf_some (found : fs.nodes[i]? = some dp) : fs.entryOf i = some dp.toEntry := by
  rw [State.entryOf, found, Option.map_some]

theorem entryOf_inside {e : Entry} (known : fs.entryOf i = some e) : i < fs.nodes.length := by
  obtain ⟨p, found, -⟩ := Option.map_eq_some_iff.mp known
  exact (List.getElem?_eq_some_iff.mp found).1

theorem kids_some (found : fs.nodes[d]? = some dp) : fs.kids d = if dp.childrenLoaded then dp.children else [] := by
  rw [State.kids, found]

/-- Nodes are added, and the directory `d` may get other children. -/
structure Appends (fs : State) (d : Nat) (dp dp' : Node) (new : List Node) (fs' : State) : Prop where
  found : fs.nodes[d]? = some dp
  same : dp'.toEntry = dp.toEntry
  nodes : fs'.nodes = (fs.nodes ++ new).set d dp'
  unloaded : ∀ p ∈ new, p.childrenLoaded = false

namespace Appends

variable {new : List Node}

theorem inside (appends : Appends fs d dp dp' new fs') : d < fs.nodes.length :=
  (List.getElem?_eq_some_iff.mp appends.found).1

theorem dir (appends : Appends fs d dp dp' new fs') : fs'.nodes[d]? = some dp' := by
  rw [appends.nodes, List.getElem?_set_self]
  rw [List.length_append]
  exact Nat.lt_of_lt_of_le appends.inside (Nat.le_add_right _ _)

theorem other (appends : Appends fs d dp dp' new fs') (ne : i ≠ d) : fs'.nodes[i]? = (fs.nodes ++ new)[i]? := by
  rw [appends.nodes, List.getElem?_set_ne ne.symm]

theorem old (appends : Appends fs d dp dp' new fs') (inside : i < fs.nodes.length) : fs'.entryOf i = fs.entryOf i := by
  by_cases here : i = d
  · subst here
    rw [entryOf_some appends.dir, entryOf_some appends.found, appends.same]
  · rw [State.entryOf, appends.other here, List.getElem?_append_left inside, State.entryOf]

theorem fresh (appends : Appends fs d dp dp' new fs') {k : Nat} {p : Node} (here : new[k]? = some p) :
    fs'.nodes[fs.nodes.length + k]? = some p := by
  rw [appends.other (by have := appends.inside; omega), List.getElem?_append_right (Nat.le_add_right _ _),
    Nat.add_sub_cancel_left]
  exact here

theorem kids_here (appends : Appends fs d dp dp' new fs') :
    fs'.kids d = if dp'.childrenLoaded then dp'.children else [] := kids_some appends.dir

theorem kids_there (appends : Appends fs d dp dp' new fs') (ne : i ≠ d) : fs'.kids i = fs.kids i := by
  rw [State.kids, appends.other ne, State.kids]
  rcases Nat.lt_or_ge i fs.nodes.length with old | new_
  · rw [List.getElem?_append_left old]
  · rw [List.getElem?_append_right new_, List.getElem?_eq_none new_]
    cases here : new[i - fs.nodes.length]? with
    | none => rfl
    | some p => simp only [appends.unloaded p (List.mem_of_getElem? here), Bool.false_eq_true, if_false]

theorem childless (appends : Appends fs d dp dp' new fs') (fresh : fs.nodes.length ≤ i) : fs'.kids i = [] := by
  rw [appends.kids_there (by have := appends.inside; omega), State.kids, List.getElem?_eq_none fresh]

theorem grafted (appends : Appends fs d dp dp' new fs') (loaded : dp'.childrenLoaded = true)
    (children : dp'.children = fs.kids d ++ List.range' fs.nodes.length new.length) :
    Grafted fs.kids d (List.range' fs.nodes.length new.length) fs'.kids := by
  constructor
  · rw [appends.kids_here, if_pos loaded, children]
  · exact fun i ne => appends.kids_there ne
  · intro i member
    exact appends.childless (List.mem_range'_1.mp member).1

theorem unseen (appends : Appends fs d dp dp' new fs') (before : dp.childrenLoaded = false)
    (after : dp'.childrenLoaded = false) : fs'.kids = fs.kids := by
  funext i
  by_cases here : i = d
  · subst here
    rw [appends.kids_here, kids_some appends.found, before, after]
    rfl
  · exact appends.kids_there here

end Appends

theorem dirAddChild_state (ok : Reliable dev) (found : fs.nodes[d]? = some dp) (child : Nat) :
    ∃ cap t, dirAddChild dev fs d child =
      { fs with nodes := fs.nodes.set d { dp with children := dp.children ++ [child], childrenCap := cap }, clock := t } := by
  have changed : ∀ (f : Node → Node) (t : Nat), (fs.after fs.disk t).setNode d f =
      { fs with nodes := fs.nodes.set d (f dp), clock := t } := by
    intro f t
    have nodes : fs.nodes.modify d f = fs.nodes.set d (f dp) := setNode_nodes found f
    rw [← nodes]
    rfl
  rw [dirAddChild, found]
  simp only [heapAlloc_ok ok]
  split
  · exact ⟨_, _, changed _ _⟩
  · exact ⟨dp.childrenCap, fs.clock, changed _ _⟩

structure Loaded (v : Volume) (ds : List Nat) (fs : State) (d : Nat) (dp : Node) (fs' : State) : Prop where
  before : dp.childrenLoaded = false
  disk : fs'.disk = fs.disk
  nodes : ∃ new cap, Loads fs.disk (dirSlots v ds) new ∧
    Appends fs d dp
      { dp with
        childrenLoaded := true, children := List.range' fs.nodes.length new.length, childrenCap := cap } new fs'

theorem Loaded.grafts {ds : List Nat} (loaded : Loaded v ds fs d dp fs') :
    ∃ new cap, Loads fs.disk (dirSlots v ds) new ∧ Appends fs d dp
      { dp with
        childrenLoaded := true, children := List.range' fs.nodes.length new.length, childrenCap := cap } new fs' ∧
      Grafted fs.kids d (List.range' fs.nodes.length new.length) fs'.kids := by
  obtain ⟨new, cap, loads, appends⟩ := loaded.nodes
  have childless : fs.kids d = [] := by
    rw [kids_some appends.found, loaded.before]
    rfl
  exact ⟨new, cap, loads, appends, appends.grafted rfl (by rw [childless]; rfl)⟩

theorem Loads.mirrors {slots : List Nat} {new : List Node} (loads : Loads m slots new) :
    ∀ p ∈ new, ∃ a ∈ slots, Mirrors m a p := by
  obtain ⟨shown, sub, all⟩ := loads
  intro p member
  obtain ⟨k, inside, rfl⟩ := List.getElem_of_mem member
  have length := all.length_eq
  exact ⟨shown[k], sub.subset (List.getElem_mem _), (List.forall₂_iff_get.mp all).2 k (by omega) inside⟩

theorem Loads.nodup {slots : List Nat} {new : List Node} (loads : Loads m slots new) (nodup : slots.Nodup) :
    (new.map fun p => slotAddr p.toEntry).Nodup := by
  obtain ⟨shown, sub, all⟩ := loads
  have places : new.map (fun p => slotAddr p.toEntry) = shown := by
    clear sub
    induction all with
    | nil => rfl
    | cons mirrors _ ih => rw [List.map_cons, mirrors.place, ih]
  rw [places]
  exact nodup.sublist sub

theorem Loads.place_inj {slots : List Nat} {new : List Node} {k k' : Nat} {p p' : Node} (loads : Loads m slots new)
    (nodup : slots.Nodup) (here : new[k]? = some p) (here' : new[k']? = some p')
    (same : slotAddr p.toEntry = slotAddr p'.toEntry) : k = k' := by
  have first : (new.map fun p => slotAddr p.toEntry)[k]? = some (slotAddr p.toEntry) := by
    rw [List.getElem?_map, here, Option.map_some]
  have second : (new.map fun p => slotAddr p.toEntry)[k']? = some (slotAddr p'.toEntry) := by
    rw [List.getElem?_map, here', Option.map_some]
  rw [← same] at second
  exact (List.getElem?_inj (List.getElem?_eq_some_iff.mp first).1 (loads.nodup nodup)).mp (first.trans second.symm)

theorem fat32DirLoadChildren_loaded (ok : Reliable dev) (geo : Geometry v clusters) {ds : List Nat}
    (found : fs.nodes[d]? = some dp) (ch : IsChain v clusters fs.disk dp.startCluster ds) (high : 2 ≤ dp.startCluster)
    (calm : List.IsChain (Calm fs.disk) (dirSlots v ds)) (returned : fat32DirLoadChildren dev v fuel fs d = .ok fs') :
    fs' = fs ∧ dp.childrenLoaded = true ∨ Loaded v ds fs d dp fs' := by
  simp only [fat32DirLoadChildren, found] at returned
  split at returned
  · rename_i loaded
    cases returned
    exact Or.inl ⟨rfl, loaded⟩
  rename_i unloaded
  have unloaded : dp.childrenLoaded = false := by simpa using unloaded
  obtain ⟨inside, -⟩ := List.getElem?_eq_some_iff.mp found
  obtain ⟨rest, chain⟩ := ch.head high
  have first := ch.inside dp.startCluster (by rw [chain]; exact List.mem_cons_self)
  rw [if_neg (by have := first.below geo; omega)] at returned
  obtain ⟨⟨ld, fs₁⟩, read, returned⟩ := bind_returns returned
  obtain ⟨last, path, ends⟩ := ch.path
  have path' : Path (entry v (fs.setNode d fun dp => { dp with childrenLoaded := true }).disk) dp.startCluster ds last := path
  obtain ⟨_, gives⟩ := clusterLoop_gives ok geo fuel path' ch.inside (ends.imp And.right And.right) calm
    (fun long => by cases long) read
  have marked : (fs.setNode d fun dp => { dp with childrenLoaded := true }).nodes =
      fs.nodes.set d { dp with childrenLoaded := true } := setNode_nodes found _
  obtain ⟨new, loads, nodes, kids⟩ := gives.nodes
  rw [marked] at nodes kids
  simp only [List.nil_append, List.length_set] at kids
  have here : fs₁.nodes[d]? = some { dp with childrenLoaded := true } := by
    rw [nodes, List.getElem?_append_left (by rw [List.length_set]; exact inside), List.getElem?_set_self inside]
  have unlisted : ∀ p ∈ new, p.childrenLoaded = false := by
    intro p member
    obtain ⟨_, _, mirrors⟩ := loads.mirrors p member
    exact mirrors.unloaded
  cases returned
  refine Or.inr ⟨unloaded, gives.disk, new, ld.kidsCap, loads, found, rfl, ?_, unlisted⟩
  rw [setNode_nodes here, nodes, kids, List.set_append_left _ _ (by rw [List.length_set]; exact inside),
    List.set_append_left _ _ inside, List.set_set]

theorem SameEntry.trans {m'' : Mem} (first : SameEntry m a m' a) (second : SameEntry m' a m'' a) : SameEntry m a m'' a :=
  fun b small => (second b small).trans (first b small)

theorem Quiet.trans {m'' : Mem} (first : Quiet v kind cs m m') (second : Quiet v kind cs m' m'') :
    Quiet v kind cs m m'' := by
  constructor
  · intro c b known x member
    rw [second.table c b known x member, first.table c b known x member]
  · exact fun d dir x slot => (first.entries d dir x slot).trans (second.entries d dir x slot)

theorem table_congr (geo : Geometry v clusters) (tree : Tree v clusters kind cs m)
    (same : ∀ x < v.clusterBeginLba * sectorSize, m' x = m x) :
    FreeInside v clusters m' ∧ ∀ c b, kind c = some b → ∀ x ∈ cs c, entry v m' x = entry v m x := by
  constructor
  · apply tree.free.congr
    intro x listed zero
    rwa [entry_congr geo same listed] at zero
  · intro c b known x member
    exact entry_congr geo same (((tree.chains c b known).inside x member).listed geo)

theorem Puts.of_changed (geo : Geometry v clusters) (tree : Tree v clusters kind cs m) {ds : List Nat}
    (slot : a ∈ dirSlots v ds) (changed : AgreeOff m' m a 32) : Puts v kind cs m a m' ∧ FreeInside v clusters m' := by
  have above := dirSlots_above slot
  have below : ∀ x < v.clusterBeginLba * sectorSize, m' x = m x := fun x low => changed x (Or.inl (by omega))
  obtain ⟨free, table⟩ := table_congr geo tree below
  refine ⟨⟨table, ?_⟩, free⟩
  intro d _ x member other
  exact other_entry changed (dirSlots_aligned slot) (dirSlots_aligned member) other

structure Entered (m : Mem) (a : Nat) (raw : List UInt8) (attr c : Nat) (m' : Mem) : Prop where
  changed : AgreeOff m' m a 32
  raw : rawName m' a = raw
  attr : attrAt m' a = attr
  cluster : clusterField m' a = c
  size : sizeField m' a = 0

theorem putDirent_entered (m : Mem) (sector : Nat) {off attr : Nat} {raw : List UInt8} (inside : off + 32 ≤ sectorSize)
    (length : raw.length = 11) (small : attr < 256) (fits : c < 2 ^ 32) :
    Entered m (sector * sectorSize + off) raw attr c
      (paste m (sector * sectorSize) (1 * sectorSize)
        (putDirent (fun i => m (sector * sectorSize + i)) off raw attr c)) := by
  have same : SameEntry (putDirent (fun i => m (sector * sectorSize + i)) off raw attr c) off
      (paste m (sector * sectorSize) (1 * sectorSize)
        (putDirent (fun i => m (sector * sectorSize + i)) off raw attr c)) (sector * sectorSize + off) := by
    intro b few
    rw [paste_inside _ (by omega) (by omega)]
    congr 1
    omega
  constructor
  · exact paste_agreeOff (putDirent_agreeOff _ off (Nat.le_of_eq length) attr c)
  · rw [same.raw, putDirent_raw length]
  · rw [same.attr, putDirent_attr small]
  · rw [same.cluster, putDirent_cluster fits]
  · rw [same.size, putDirent_size length]

theorem FreeSlot.place {ds : List Nat} {sector off : Nat} (geo : Geometry v clusters) (free : FreeSlot v ds m sector off) :
    sector * sectorSize + off ∈ dirSlots v ds ∧ off + 32 ≤ sectorSize ∧ ¬ Used m (sector * sectorSize + off) := by
  have slot := free.1 ⟨false, 0, 0, sector, off⟩ rfl rfl
  refine ⟨slot.mem geo, ?_, ?_⟩
  · obtain ⟨_, _, _, _, k, few, _, place⟩ := slot
    have place : off = 32 * k := place
    rw [place, sectorSize]
    omega
  · rintro ⟨first, second⟩
    exact free.2.elim first second

theorem fat32FindFreeDirent_state (ok : Reliable dev) (geo : Geometry v clusters) {ds : List Nat}
    {place : Option (Nat × Nat)} (ch : IsChain v clusters fs.disk start ds)
    (returned : fat32FindFreeDirent dev v fuel fs start = .ok (place, fs')) :
    (∃ t, fs' = fs.after fs.disk t) ∧
      ∀ sector off, place = some (sector, off) → FreeSlot v ds fs.disk sector off := by
  obtain ⟨last, path, ends⟩ := ch.path
  obtain ⟨t, state, slots⟩ := Returns.holds (f := fun fuel => fat32FindFreeDirent dev v fuel fs start) ⟨fuel, returned⟩
    (fat32FindFreeDirent_settles dev v start fs) fun fuel enough =>
      fat32FindFreeDirent_ok ok geo fuel fs path ch.inside (ends.imp And.right And.right) enough
  exact ⟨⟨t, state⟩, slots⟩

/-- The directory in the cluster `c` has no named entries, and no name twice. -/
structure Bare (v : Volume) (m : Mem) (c : Nat) : Prop where
  plain : ∀ x ∈ slotsOf v c, ¬ Named m x ∧ ¬ LongAt m x
  unique : ∀ x ∈ slotsOf v c, ∀ y ∈ slotsOf v c, LiveAt m x → LiveAt m y → rawName m x = rawName m y → x = y

structure Reserves (v : Volume) (clusters : Nat) (kind : Nat → Option Bool) (cs : Nat → List Nat) (m : Mem) (c : Nat)
    (b : Bool) (m' : Mem) : Prop where
  inside : InVolume clusters c
  zero : entry v m c = 0
  mark : clusterEndMark ≤ entry v m' c
  free : FreeInside v clusters m'
  quiet : Quiet v kind cs m m'
  bare : b = true → Bare v m' c

theorem setsEntry_quiet (geo : Geometry v clusters) (tree : Tree v clusters kind cs m) {x : Nat}
    (sets : SetsEntry v m c x m') (unowned : ∀ k b, kind k = some b → c ∉ cs k) (inside : x = 0 → c < clusters + 2) :
    Quiet v kind cs m m' ∧ FreeInside v clusters m' := by
  refine ⟨⟨?_, ?_⟩, ?_⟩
  · intro k b known y member
    apply sets.there y (((tree.chains k b known).inside y member).listed geo)
    rintro rfl
    exact unowned k b known member
  · intro d _ y member b _
    exact sets.data _ (Nat.le_trans (dirSlots_above member) (Nat.le_add_right _ _))
  · intro y two listed zero
    by_cases same : y = c
    · rw [same, sets.here] at zero
      rw [same]
      exact inside zero
    · exact tree.free y two listed (by rwa [sets.there y listed same] at zero)

theorem Allocates.reserves (geo : Geometry v clusters) (tree : Tree v clusters kind cs m)
    (allocates : Allocates v clusters m c m') : c = 0 ∧ m' = m ∨ Reserves v clusters kind cs m c false m' := by
  rcases allocates with none | ⟨inside, zero, sets⟩
  · exact Or.inl none
  · obtain ⟨quiet, free⟩ := setsEntry_quiet geo tree sets (tree.unowned zero) nofun
    exact Or.inr ⟨inside, zero, by rw [sets.here]; decide, free, quiet, nofun⟩

theorem fatSetEntry_quiet (ok : Reliable dev) (geo : Geometry v clusters) (fs : State) (tree : Tree v clusters kind cs fs.disk)
    (inside : InVolume clusters c) (unowned : ∀ k b, kind k = some b → c ∉ cs k) :
    ∃ m t, fatSetEntry dev v fs c 0 = fs.after m t ∧ Quiet v kind cs fs.disk m ∧ FreeInside v clusters m := by
  obtain ⟨m, t, undone, sets⟩ := fatSetEntry_ok ok geo fs (inside.listed geo) (inside.small geo) (x := 0) (by decide)
  exact ⟨m, t, undone, setsEntry_quiet geo tree sets unowned fun _ => inside.2⟩

theorem undoAlloc_quiet (ok : Reliable dev) (geo : Geometry v clusters) (fs : State) (tree : Tree v clusters kind cs fs.disk)
    (reserved : c = 0 ∨ InVolume clusters c ∧ ∀ k b, kind k = some b → c ∉ cs k) :
    ∃ m t, undoAlloc dev v fs c = fs.after m t ∧ Quiet v kind cs fs.disk m ∧ FreeInside v clusters m := by
  rw [undoAlloc]
  rcases reserved with none | ⟨inside, unowned⟩
  · rw [if_neg (by omega)]
    exact ⟨fs.disk, fs.clock, rfl, ⟨fun _ _ _ _ _ => rfl, fun _ _ _ _ _ _ => rfl⟩, tree.free⟩
  · rw [if_pos (by have := inside.1; omega)]
    exact fatSetEntry_quiet ok geo fs tree inside unowned

structure Unchanged (v : Volume) (clusters : Nat) (kind : Nat → Option Bool) (cs : Nat → List Nat) (fs fs' : State) :
    Prop where
  quiet : Quiet v kind cs fs.disk fs'.disk
  free : FreeInside v clusters fs'.disk
  nodes : fs'.nodes = fs.nodes

theorem Unchanged.refl (tree : Tree v clusters kind cs fs.disk) (t : Nat) :
    Unchanged v clusters kind cs fs (fs.after fs.disk t) :=
  ⟨⟨fun _ _ _ _ _ => rfl, fun _ _ _ _ _ _ => rfl⟩, tree.free, rfl⟩

def newAttr (isDir : Bool) : Nat := if isDir then attrDirectory else attrArchive

/-- An entry was made at `a` in the directory `d`, with the cluster `c` or without one, and a node
for it. The disk goes from `m₁` on, where the cluster is reserved. -/
structure Placed (v : Volume) (clusters : Nat) (kind : Nat → Option Bool) (cs : Nat → List Nat) (fs : State) (d : Nat)
    (dp : Node) (isDir : Bool) (raw : List UInt8) (c a : Nat) (m₁ : Mem) (fs' : State) : Prop where
  reserved : c = 0 ∧ isDir = false ∧ m₁ = fs.disk ∨ Reserves v clusters kind cs fs.disk c isDir m₁
  slot : a ∈ dirSlots v (cs dp.startCluster)
  unused : ¬ Used m₁ a
  entered : Entered m₁ a raw (newAttr isDir) c fs'.disk
  node : ∃ n cap, slotAddr n.toEntry = a ∧ n.direntOff < sectorSize ∧ n.isDir = isDir ∧ n.startCluster = c ∧ n.size = 0 ∧
    n.length = 0 ∧ Appends fs d dp { dp with children := dp.children ++ [fs.nodes.length], childrenCap := cap } [n] fs'

theorem placed_of_place (ok : Reliable dev) (geo : Geometry v clusters) {isDir : Bool} {m₁ : Mem} {t sector off : Nat}
    (found : fs.nodes[d]? = some dp)
    (reserved : c = 0 ∧ isDir = false ∧ m₁ = fs.disk ∨ Reserves v clusters kind cs fs.disk c isDir m₁)
    (free : FreeSlot v (cs dp.startCluster) m₁ sector off) (name : List UInt8) :
    ∃ m n t', createFat32Node dev ((fs.after m₁ t).after (paste m₁ (sector * sectorSize) (1 * sectorSize)
          (putDirent (fun i => m₁ (sector * sectorSize + i)) off (nameTo83 name) (newAttr isDir) c)) t) name isDir c 0 =
        (some fs.nodes.length, { fs.after m t' with nodes := fs.nodes ++ [n] }) ∧
      ∀ fs', dirAddChild dev (({ fs.after m t' with nodes := fs.nodes ++ [n] } : State).setDirent fs.nodes.length sector off)
          d fs.nodes.length = fs' →
        Placed v clusters kind cs fs d dp isDir (nameTo83 name) c (sector * sectorSize + off) m₁ fs' := by
  have fits : c < 2 ^ 32 := by
    rcases reserved with ⟨none, _⟩ | reserves
    · omega
    · have := reserves.inside.small geo
      omega
  obtain ⟨slot, inside, unused⟩ := free.place geo
  have attr : newAttr isDir < 256 := by cases isDir <;> decide
  have entered := putDirent_entered m₁ sector inside (nameTo83_length name) attr fits
  generalize written : paste m₁ (sector * sectorSize) (1 * sectorSize)
    (putDirent (fun i => m₁ (sector * sectorSize + i)) off (nameTo83 name) (newAttr isDir) c) = m at entered ⊢
  obtain ⟨t', created⟩ := createFat32Node_state ok ((fs.after m₁ t).after m t) name isDir c 0
  have there : ({ fs.after m t' with nodes := fs.nodes ++ [freshNode name isDir c 0 sector off] } : State).nodes[d]? =
      some dp := by
    rw [List.getElem?_append_left (List.getElem?_eq_some_iff.mp found).1]
    exact found
  obtain ⟨cap, t'', linked⟩ := dirAddChild_state ok there fs.nodes.length
  refine ⟨m, _, t', created, ?_⟩
  intro fs' state
  have last := setDirent_last (fs.after m t') name isDir c 0 t' sector off
  obtain rfl := ((congrArg (fun s => dirAddChild dev s d fs.nodes.length) last).trans linked).symm.trans state
  constructor
  · exact reserved
  · exact slot
  · exact unused
  · exact entered
  · refine ⟨freshNode name isDir c 0 sector off, cap, rfl, ?_, rfl, rfl, rfl, rfl, found, rfl, rfl, ?_⟩
    · show off < sectorSize
      omega
    · intro p member
      rw [List.mem_singleton.mp member]
      rfl

theorem fat32CreateImpl_effect (ok : Reliable dev) (geo : Geometry v clusters) (tree : Tree v clusters kind cs fs.disk)
    (found : fs.nodes[d]? = some dp) (dir : kind dp.startCluster = some true) {child : Option Nat}
    (returned : fat32CreateImpl dev v fuel fs d name = .ok (child, fs')) :
    Unchanged v clusters kind cs fs fs' ∨
      ∃ c a m₁, Placed v clusters kind cs fs d dp false (nameTo83 name) c a m₁ fs' := by
  simp only [fat32CreateImpl, found] at returned
  split at returned
  rotate_left
  · cases returned
    exact Or.inl (Unchanged.refl tree fs.clock)
  obtain ⟨c, m₁, t, allocated, allocates⟩ := fatAllocCluster_ok ok geo fs tree.free
  have reserved := allocates.reserves geo tree
  rw [allocated] at returned
  obtain ⟨⟨place, fs₁⟩, search, returned⟩ := bind_returns returned
  -- the disk before the search still holds the tree
  have quiet : Quiet v kind cs fs.disk m₁ ∧ FreeInside v clusters m₁ := by
    rcases reserved with ⟨_, rfl⟩ | reserves
    · exact ⟨⟨fun _ _ _ _ _ => rfl, fun _ _ _ _ _ _ => rfl⟩, tree.free⟩
    · exact ⟨reserves.quiet, reserves.free⟩
  have tree₁ := tree.quiet quiet.1 quiet.2
  obtain ⟨⟨t₁, rfl⟩, slots⟩ := fat32FindFreeDirent_state ok geo (tree₁.chains _ _ dir) search
  cases place with
  | none =>
    have unowned : c = 0 ∨ InVolume clusters c ∧ ∀ k b, kind k = some b → c ∉ cs k := by
      rcases reserved with ⟨none, _⟩ | reserves
      · exact Or.inl none
      · exact Or.inr ⟨reserves.inside, tree.unowned reserves.zero⟩
    obtain ⟨m₂, t₂, undone, quiet₂, free₂⟩ := undoAlloc_quiet ok geo (fs.after m₁ t₁) tree₁ unowned
    simp only [after_after, after_disk, undone] at returned
    cases returned
    exact Or.inl ⟨quiet.1.trans quiet₂, free₂, rfl⟩
  | some place =>
    obtain ⟨sector, off⟩ := place
    simp only [readBlocks_ok ok, writeBlocks_ok ok, after_after, after_disk, after_clock] at returned
    have reserved' : c = 0 ∧ false = false ∧ m₁ = fs.disk ∨ Reserves v clusters kind cs fs.disk c false m₁ :=
      reserved.imp_left fun given => ⟨given.1, rfl, given.2⟩
    obtain ⟨m, n, t', created, placed⟩ := placed_of_place ok geo (t := t₁ + 1 + 1) found reserved' (slots sector off rfl) name
    have created : createFat32Node dev (fs.after (paste m₁ (sector * sectorSize) (1 * sectorSize)
        (putDirent (fun i => m₁ (sector * sectorSize + i)) off (nameTo83 name) attrArchive c)) (t₁ + 1 + 1)) name false c 0 =
      _ := created
    rw [created] at returned
    cases returned
    exact Or.inr ⟨c, _, m₁, placed _ rfl⟩

theorem dotEntries_bare (m : Mem) (v : Volume) (c parent : Nat) :
    Bare v (paste m (clusterAddr v c) v.bytesPerCluster (dotEntries c parent)) c := by
  have first : AgreeOff (putDirent (fun _ => 0) 0 (padTo 11 [dot]) attrDirectory c) (fun _ => 0) 0 32 :=
    putDirent_agreeOff _ 0 (by decide) _ _
  have second : AgreeOff (dotEntries c parent) (putDirent (fun _ => 0) 0 (padTo 11 [dot]) attrDirectory c) 32 32 :=
    putDirent_agreeOff _ 32 (by decide) _ _
  -- an entry is `.`, `..` or free
  have cases_ : ∀ x ∈ slotsOf v c, (x = clusterAddr v c ∧
        rawName (paste m (clusterAddr v c) v.bytesPerCluster (dotEntries c parent)) x = padTo 11 [dot] ∧
        attrAt (paste m (clusterAddr v c) v.bytesPerCluster (dotEntries c parent)) x = attrDirectory) ∨
      (x = clusterAddr v c + 32 ∧
        rawName (paste m (clusterAddr v c) v.bytesPerCluster (dotEntries c parent)) x = padTo 11 [dot, dot] ∧
        attrAt (paste m (clusterAddr v c) v.bytesPerCluster (dotEntries c parent)) x = attrDirectory) ∨
      ¬ Used (paste m (clusterAddr v c) v.bytesPerCluster (dotEntries c parent)) x := by
    intro x member
    obtain ⟨k, few, rfl⟩ := mem_slotsOf.mp member
    have same : SameEntry (dotEntries c parent) (32 * k)
        (paste m (clusterAddr v c) v.bytesPerCluster (dotEntries c parent)) (clusterAddr v c + 32 * k) := by
      intro b small
      rw [paste_inside _ (by omega) (by omega)]
      congr 1
      omega
    rcases k with _ | _ | k
    · have kept : SameEntry _ 0 (dotEntries c parent) 0 := other_entry second (by decide) (by decide) (by decide)
      refine Or.inl ⟨by omega, ?_, ?_⟩
      · rw [same.raw, kept.raw, putDirent_raw (by decide)]
      · rw [same.attr, kept.attr, putDirent_attr (by decide)]
    · refine Or.inr (Or.inl ⟨by omega, ?_, ?_⟩)
      · rw [same.raw, dotEntries, putDirent_raw (by decide)]
      · rw [same.attr, dotEntries, putDirent_attr (by decide)]
    · refine Or.inr (Or.inr fun used => ?_)
      have zero : dotEntries c parent (32 * (k + 1 + 1)) = 0 := by
        rw [second _ (by omega), first _ (by omega)]
      exact (same.used.mp used).1 zero
  have notLong : attrDirectory &&& attrLfn ≠ attrLfn := by decide
  constructor
  · intro x member
    rcases cases_ x member with ⟨-, raw, attr⟩ | ⟨-, raw, attr⟩ | free
    · refine ⟨fun named => named.2 (Or.inl raw), fun long => notLong ?_⟩
      rw [← attr]
      exact long.2
    · refine ⟨fun named => named.2 (Or.inr raw), fun long => notLong ?_⟩
      rw [← attr]
      exact long.2
    · exact ⟨fun named => free named.1.1, fun long => free long.1⟩
  · intro x member y member' live live' equal
    have differ : padTo 11 [dot] ≠ padTo 11 [dot, dot] := by decide
    rcases cases_ x member with ⟨rfl, raw, -⟩ | ⟨rfl, raw, -⟩ | free
    · rcases cases_ y member' with ⟨same, -, -⟩ | ⟨-, raw', -⟩ | free
      · exact same.symm
      · exact absurd (raw.symm.trans (equal.trans raw')) differ
      · exact absurd live'.1 free
    · rcases cases_ y member' with ⟨-, raw', -⟩ | ⟨same, -, -⟩ | free
      · exact absurd (raw'.symm.trans (equal.symm.trans raw)) differ
      · exact same.symm
      · exact absurd live'.1 free
    · exact absurd live.1 free

theorem Reserves.overwrite (geo : Geometry v clusters) (tree : Tree v clusters kind cs m) {b : Bool}
    (reserves : Reserves v clusters kind cs m c false m') (data : Mem)
    (bare : b = true → Bare v (paste m' (clusterAddr v c) v.bytesPerCluster data) c) :
    Reserves v clusters kind cs m c b (paste m' (clusterAddr v c) v.bytesPerCluster data) := by
  have tree' := tree.quiet reserves.quiet reserves.free
  have unowned := tree.unowned reserves.zero
  have below : ∀ x < v.clusterBeginLba * sectorSize, paste m' (clusterAddr v c) v.bytesPerCluster data x = m' x :=
    fun x low => paste_outside _ (Or.inl (Nat.lt_of_lt_of_le low (clusterAddr_ge v c)))
  obtain ⟨free, table⟩ := table_congr geo tree' below
  refine ⟨reserves.inside, reserves.zero, ?_, free, reserves.quiet.trans ⟨table, ?_⟩, bare⟩
  · rw [entry_congr geo below (reserves.inside.listed geo)]
    exact reserves.mark
  · intro d dir x member b small
    obtain ⟨c', listed, here⟩ := mem_dirSlots.mp member
    have inside := (tree.chains d _ dir).inside c' listed
    have other : c' ≠ c := by
      rintro rfl
      exact unowned d true dir listed
    have place := slotsOf_inside here
    have apart := clusterAddr_apart geo inside reserves.inside other
    exact paste_outside _ (by omega)

theorem Reserves.fill (geo : Geometry v clusters) (tree : Tree v clusters kind cs m)
    (reserves : Reserves v clusters kind cs m c false m') (parent : Nat) :
    Reserves v clusters kind cs m c true (paste m' (clusterAddr v c) v.bytesPerCluster (dotEntries c parent)) :=
  reserves.overwrite geo tree _ fun _ => dotEntries_bare ..

theorem fat32MkdirImpl_effect (ok : Reliable dev) (geo : Geometry v clusters) (tree : Tree v clusters kind cs fs.disk)
    (found : fs.nodes[d]? = some dp) (dir : kind dp.startCluster = some true) {done : Bool}
    (returned : fat32MkdirImpl dev v fuel fs d name = .ok (done, fs')) :
    Unchanged v clusters kind cs fs fs' ∨
      ∃ c a m₁, Placed v clusters kind cs fs d dp true (nameTo83 name) c a m₁ fs' := by
  simp only [fat32MkdirImpl, found] at returned
  split at returned
  rotate_left
  · cases returned
    exact Or.inl (Unchanged.refl tree fs.clock)
  obtain ⟨c, m₀, t, allocated, allocates⟩ := fatAllocCluster_ok ok geo fs tree.free
  rw [allocated] at returned
  rcases allocates.reserves geo tree with ⟨none, rfl⟩ | reserves₀
  · rw [if_pos none] at returned
    cases returned
    exact Or.inl (Unchanged.refl tree t)
  have inside := reserves₀.inside
  rw [if_neg (by have := inside.1; omega)] at returned
  obtain ⟨t₁, filled⟩ := fatWriteCluster_ok ok geo ((fs.after m₀ t).after m₀ (t + 1)) (dotEntries c dp.startCluster) inside
  simp only [heapAlloc_ok ok, after_disk, after_clock] at returned
  rw [filled] at returned
  have reserves := reserves₀.fill geo tree dp.startCluster
  simp only [after_after, after_disk] at returned
  generalize paste m₀ (clusterAddr v c) v.bytesPerCluster (dotEntries c dp.startCluster) = m₁ at returned reserves
  have tree₁ := tree.quiet reserves.quiet reserves.free
  obtain ⟨⟨place, fs₁⟩, search, returned⟩ := bind_returns returned
  obtain ⟨⟨t₂, rfl⟩, slots⟩ := fat32FindFreeDirent_state ok geo (tree₁.chains _ _ dir) search
  cases place with
  | none =>
    obtain ⟨m₂, t₃, undone, quiet₂, free₂⟩ := fatSetEntry_quiet ok geo (fs.after m₁ t₂) tree₁ inside
      (tree.unowned reserves.zero)
    simp only [after_after, after_disk, undone] at returned
    cases returned
    exact Or.inl ⟨reserves.quiet.trans quiet₂, free₂, rfl⟩
  | some place =>
    obtain ⟨sector, off⟩ := place
    simp only [readBlocks_ok ok, writeBlocks_ok ok, after_after, after_disk, after_clock] at returned
    obtain ⟨m, n, t', created, placed⟩ := placed_of_place ok geo (t := t₂ + 1 + 1) found (Or.inr reserves)
      (slots sector off rfl) name
    have created : createFat32Node dev (fs.after (paste m₁ (sector * sectorSize) (1 * sectorSize)
        (putDirent (fun i => m₁ (sector * sectorSize + i)) off (nameTo83 name) attrDirectory c)) (t₂ + 1 + 1)) name true c 0 =
      _ := created
    rw [created] at returned
    cases returned
    exact Or.inr ⟨c, _, m₁, placed _ rfl⟩

structure Freed (v : Volume) (ds : List Nat) (m m' : Mem) : Prop where
  here : ∀ x ∈ ds, entry v m' x = 0
  there : ∀ x < v.fatSize * entriesPerSec, x ∉ ds → entry v m' x = entry v m x
  data : ∀ x, v.clusterBeginLba * sectorSize ≤ x → m' x = m x

theorem fatFreeChain_freed (ok : Reliable dev) (geo : Geometry v clusters) {ds : List Nat} :
    ∀ {start last : Nat} (fuel : Nat) {fs : State}, Path (entry v fs.disk) start ds last →
    (∀ c ∈ ds, InVolume clusters c) → ds.Nodup → (last < 2 ∨ clusterEndMark ≤ last) →
    fatFreeChain dev v fuel fs start = .ok fs' → ∃ m t, fs' = fs.after m t ∧ Freed v ds fs.disk m := by
  induction ds with
  | nil =>
    rintro start last fuel fs rfl _ _ ends returned
    cases fuel with
    | zero => cases returned
    | succ fuel =>
      rw [fatFreeChain, if_neg (by omega)] at returned
      cases returned
      exact ⟨fs'.disk, fs'.clock, rfl, nofun, fun _ _ _ => rfl, fun _ _ => rfl⟩
  | cons c rest ih =>
    rintro start last fuel fs ⟨rfl, path⟩ inside nodup ends returned
    cases fuel with
    | zero => cases returned
    | succ fuel =>
      have here := inside start List.mem_cons_self
      obtain ⟨fresh, nodup⟩ := List.nodup_cons.mp nodup
      have inside' : ∀ c ∈ rest, InVolume clusters c := fun c member => inside c (List.mem_cons_of_mem _ member)
      rw [fatFreeChain, if_pos ⟨here.1, here.below geo⟩] at returned
      simp only [fatNextCluster_ok ok geo fs (here.listed geo) (here.small geo)] at returned
      obtain ⟨m, t, cleared, sets⟩ := fatSetEntry_ok ok geo (fs.after fs.disk (fs.clock + 1)) (here.listed geo)
        (here.small geo) (x := 0) (by decide)
      rw [cleared] at returned
      -- the entry was read before it was cleared, and the rest of the chain is still there
      have path : Path (entry v m) (entry v fs.disk start) rest last := by
        apply path.congr
        intro x member
        apply sets.there x ((inside' x member).listed geo)
        rintro rfl
        exact fresh member
      obtain ⟨m', t', final, freed⟩ := @ih _ _ fuel ((fs.after fs.disk (fs.clock + 1)).after m t) path inside' nodup ends
        returned
      refine ⟨m', t', final, ?_, ?_, ?_⟩
      · intro x member
        by_cases listed : x ∈ rest
        · exact freed.here x listed
        · obtain rfl : x = start := (List.mem_cons.mp member).resolve_right listed
          rw [freed.there x (here.listed geo) listed]
          exact sets.here
      · intro x listed out
        rw [List.mem_cons, not_or] at out
        rw [freed.there x listed out.2]
        exact sets.there x listed out.1
      · intro x above
        rw [freed.data x above]
        exact sets.data x above

/-- The entry at `a` is marked as deleted. -/
structure Erased (m : Mem) (a : Nat) (m' : Mem) : Prop where
  changed : AgreeOff m' m a 32
  byte : m' a = 0xE5

theorem eraseDirent_erased (ok : Reliable dev) (fs : State) {fp : Node} (real : fp.direntSector ≠ 0) (small : fp.direntOff < sectorSize) :
    ∃ m t, eraseDirent dev fs fp = fs.after m t ∧ Erased fs.disk (slotAddr fp.toEntry) m := by
  rw [eraseDirent, if_pos real]
  simp only [readBlocks_ok ok, writeBlocks_ok ok, after_disk, after_after]
  refine ⟨_, _, rfl, ?_, ?_⟩
  · apply paste_agreeOff
    intro x outside
    have away : ¬ (fp.direntOff ≤ x ∧ x < fp.direntOff + 1) := by omega
    rw [fill, if_neg away]
  · rw [slotAddr, paste_inside _ (by omega) (by omega), Nat.add_sub_cancel_left, fill, if_pos (by omega)]

theorem Erased.free {m' : Mem} (erased : Erased m a m') : ¬ Used m' a ∧ ¬ Dots m' a := by
  constructor
  · exact fun used => used.2 erased.byte
  · have first : ∀ {raw : List UInt8}, rawName m' a = raw → raw.head? = some 0xE5 := by
      intro raw same
      rw [← same, ← erased.byte]
      rfl
    rintro (one | two)
    · exact absurd (first one) (by decide)
    · exact absurd (first two) (by decide)

/-- The child `i` of the directory `d` was removed, with its chain. The disk goes from `m₁` on,
where the entry is deleted. -/
structure Removed (v : Volume) (cs : Nat → List Nat) (fs : State) (d i : Nat) (e : Entry) (m₁ : Mem) (fs' : State) :
    Prop where
  known : fs.entryOf i = some e
  erased : Erased fs.disk (slotAddr e) m₁
  chain : e.startCluster < 2 ∧ fs'.disk = m₁ ∨ 2 ≤ e.startCluster ∧ Freed v (cs e.startCluster) m₁ fs'.disk
  pruned : Pruned fs.kids d i fs'.kids
  sub : (fs'.kids d).Sublist (fs.kids d)
  entries : ∀ j, fs'.entryOf j = fs.entryOf j
  lengths : ∀ j : Nat, (fs'.nodes[j]?).map Node.length = (fs.nodes[j]?).map Node.length

theorem fat32UnlinkImpl_split (found : fs.nodes[d]? = some dp) {done : Bool}
    (returned : fat32UnlinkImpl dev v fuel fs d name = .ok (done, fs')) :
    fs' = fs ∨ ∃ fs₁, fat32DirLoadChildren dev v fuel fs d = .ok fs₁ ∧ (fs' = fs₁ ∨
      ∃ idx i fp fs₂, (fs₁.childrenOf d)[idx]? = some i ∧ fs₁.nodes[i]? = some fp ∧
        (if fp.startCluster ≥ 2 then fatFreeChain dev v fuel (eraseDirent dev fs₁ fp) fp.startCluster
          else .ok (eraseDirent dev fs₁ fp)) = .ok fs₂ ∧
        fs' = fs₂.setNode d fun dp => { dp with children := dp.children.eraseIdx idx }) := by
  simp only [fat32UnlinkImpl, found] at returned
  split at returned
  rotate_left
  · cases returned
    exact Or.inl rfl
  obtain ⟨fs₁, loaded, returned⟩ := bind_returns returned
  refine Or.inr ⟨fs₁, loaded, ?_⟩
  split at returned
  · cases returned
    exact Or.inl rfl
  rename_i idx _
  split at returned
  · cases returned
    exact Or.inl rfl
  rename_i fp child
  obtain ⟨i, here, node⟩ := Option.bind_eq_some_iff.mp child
  split at returned
  · rename_i high
    obtain ⟨fs₂, freed, returned⟩ := bind_returns returned
    cases returned
    exact Or.inr ⟨idx, i, fp, fs₂, here, node, by rw [if_pos high]; exact freed, rfl⟩
  · rename_i low
    cases returned
    exact Or.inr ⟨idx, i, fp, _, here, node, by rw [if_neg low], rfl⟩

theorem removed_of_unlink (ok : Reliable dev) (geo : Geometry v clusters) (tree : Tree v clusters kind cs fs.disk)
    (linked : Linked v kind cs fs.disk fs.entryOf fs.kids) (reach : Reach fs.kids 0 d) (found : fs.nodes[d]? = some dp)
    (loaded : dp.childrenLoaded = true) {idx : Nat} {fp : Node} {fs₂ : State} (here : (fs.childrenOf d)[idx]? = some i)
    (node : fs.nodes[i]? = some fp)
    (freed : (if fp.startCluster ≥ 2 then fatFreeChain dev v fuel (eraseDirent dev fs fp) fp.startCluster
      else .ok (eraseDirent dev fs fp)) = .ok fs₂) :
    ∃ m₁, Removed v cs fs d i fp.toEntry m₁
      (fs₂.setNode d fun dp => { dp with children := dp.children.eraseIdx idx }) := by
  have children : fs.kids d = dp.children := by rw [kids_some found, if_pos loaded]
  have listed : fs.childrenOf d = dp.children := by rw [State.childrenOf, found]
  rw [listed, ← children] at here
  have member := List.mem_of_getElem? here
  have known := entryOf_some node
  obtain ⟨p, e, _, _, child, housed⟩ := linked.home d i reach member
  rw [known] at child
  cases child
  -- the entry is behind the table, so its sector is not 0
  have real : fp.direntSector ≠ 0 := by
    intro zero
    have above := dirSlots_above housed.slot
    have copies := geo.copies
    have table := geo.table
    have small := housed.small
    rw [slotAddr, zero] at above
    simp only [sectorSize] at above small
    omega
  obtain ⟨m₁, t, erasing, erased⟩ := eraseDirent_erased ok fs real housed.small
  rw [erasing] at freed
  -- both branches leave the nodes alone
  obtain ⟨m₂, t₂, rfl, chain⟩ : ∃ m t, fs₂ = fs.after m t ∧
      (fp.startCluster < 2 ∧ m = m₁ ∨ 2 ≤ fp.startCluster ∧ Freed v (cs fp.startCluster) m₁ m) := by
    split at freed
    · rename_i high
      have kindIs := (linked.fits i _ (reach.child member) known).known high
      obtain ⟨puts, free⟩ := Puts.of_changed geo tree housed.slot erased.changed
      have ch := (tree.chains _ _ kindIs).congr (puts.table _ _ kindIs)
      obtain ⟨last, path, ends⟩ := ch.path
      have path' : Path (entry v (fs.after m₁ t).disk) fp.startCluster (cs fp.startCluster) last := path
      obtain ⟨m, t', rfl, clear_⟩ := fatFreeChain_freed ok geo fuel path' ch.inside ch.nodup
        (ends.imp And.right And.right) freed
      exact ⟨m, t', rfl, Or.inr ⟨high, clear_⟩⟩
    · rename_i low
      cases freed
      exact ⟨m₁, t, rfl, Or.inl ⟨by omega, rfl⟩⟩
  have found' : (fs.after m₂ t₂).nodes[d]? = some dp := found
  have nodes := setNode_nodes found' fun dp => { dp with children := dp.children.eraseIdx idx }
  obtain ⟨inside, -⟩ := List.getElem?_eq_some_iff.mp found
  have there : ((fs.after m₂ t₂).setNode d fun dp => { dp with children := dp.children.eraseIdx idx }).nodes[d]? =
      some { dp with children := dp.children.eraseIdx idx } := by
    rw [nodes, after_nodes, List.getElem?_set_self inside]
  have elsewhere : ∀ j ≠ d, ((fs.after m₂ t₂).setNode d fun dp =>
      { dp with children := dp.children.eraseIdx idx }).nodes[j]? = fs.nodes[j]? := by
    intro j other
    rw [nodes, after_nodes, List.getElem?_set_ne other.symm]
  have kids : ((fs.after m₂ t₂).setNode d fun dp => { dp with children := dp.children.eraseIdx idx }).kids d =
      (fs.kids d).eraseIdx idx := by
    rw [kids_some there, children]
    exact if_pos loaded
  have nodup := linked.nodup d reach
  refine ⟨m₁, known, erased, chain, ⟨member, ?_, ?_⟩, ?_, ?_, ?_⟩
  · intro j
    rw [kids, List.mem_eraseIdx_iff_getElem?]
    constructor
    · rintro ⟨k, other, at_⟩
      refine ⟨List.mem_of_getElem? at_, ?_⟩
      rintro rfl
      exact other ((List.getElem?_inj (List.getElem?_eq_some_iff.mp at_).1 nodup).mp (at_.trans here.symm))
    · rintro ⟨listed', other⟩
      obtain ⟨k, inside', rfl⟩ := List.getElem_of_mem listed'
      refine ⟨k, ?_, List.getElem?_eq_getElem inside'⟩
      rintro rfl
      rw [List.getElem?_eq_getElem inside', Option.some.injEq] at here
      exact other here
  · intro j other
    rw [State.kids, elsewhere j other, State.kids]
  · rw [kids]
    exact List.eraseIdx_sublist _ _
  · intro j
    by_cases same : j = d
    · rw [same, entryOf_some there, entryOf_some found]
    · rw [State.entryOf, elsewhere j same, State.entryOf]
  · intro j
    by_cases same : j = d
    · rw [same, there, found]
      rfl
    · rw [elsewhere j same]

end RexOs.Fs
