import RexOs.Fs.FatHonest
import RexOs.Fs.FatSound

/-! A file of the tree grows, or begins.

`fat32_write` changes the chain of one file and its directory entry.
-/

set_option autoImplicit false

namespace RexOs.Fs

open RexOs.Library

variable {dev : Device} {v : Volume} {clusters : Nat} {kind : Nat → Option Bool} {cs : Nat → List Nat}
variable {fs fs' : State} {m m' : Mem} {a b c d i k off x : Nat} {ds : List Nat} {g : Nat → UInt8} {p : Node} {e e' : Entry}
variable {ents : Nat → Option Entry} {kids : Nat → List Nat}

theorem Tree.dir_ne (file : kind c = some false) (dir : kind d = some true) : d ≠ c := by
  rintro rfl
  rw [file] at dir
  cases dir

section

variable (tree : Tree v clusters kind cs m) (file : kind c = some false) (writes : Writes v clusters c m (cs c) m' ds a b g)

include tree file writes in
theorem Tree.beside {b' : Bool} (known : kind k = some b') (other : k ≠ c) : ∀ x ∈ cs k, x ∉ ds :=
  writes.grows.apart (tree.chains k _ known) (tree.apart k c _ _ known file other)

include tree file writes in
theorem Tree.slot_kept (dir : kind d = some true) (slot : x ∈ dirSlots v (cs d)) : SameEntry m x m' x := by
  obtain ⟨c', listed, here⟩ := mem_dirSlots.mp slot
  obtain ⟨k, few, rfl⟩ := mem_slotsOf.mp here
  intro b small
  rw [Nat.add_assoc]
  exact writes.grows.data c' ((tree.chains d _ dir).inside c' listed)
    (tree.beside file writes dir (Tree.dir_ne file dir) c' listed) (32 * k + b) (by omega)

include file in
theorem grown_dir (dir : kind d = some true) : Function.update cs c ds d = cs d :=
  Function.update_of_ne (Tree.dir_ne file dir) _ _

include tree file writes in
theorem Tree.grown_entry : IsEntry v kind (Function.update cs c ds) m' x ↔ IsEntry v kind cs m x := by
  constructor
  · rintro ⟨named, d, dir, slot⟩
    rw [grown_dir file dir] at slot
    exact ⟨(tree.slot_kept file writes dir slot).named.mp named, d, dir, slot⟩
  · rintro ⟨named, d, dir, slot⟩
    refine ⟨(tree.slot_kept file writes dir slot).named.mpr named, d, dir, ?_⟩
    rw [grown_dir file dir]
    exact slot

include tree file writes in
theorem Tree.entry_kept (is : IsEntry v kind cs m x) : SameEntry m x m' x := by
  obtain ⟨_, d, dir, slot⟩ := is
  exact tree.slot_kept file writes dir slot

include tree file writes in
theorem Tree.grow (geo : Geometry v clusters) : Tree v clusters kind (Function.update cs c ds) m' := by
  refine ⟨writes.free, tree.high, ?_, ?_, tree.root, ?_, ?_, ?_⟩
  · intro k b' known
    by_cases here : k = c
    · rw [here, Function.update_self]
      exact writes.chain
    · rw [Function.update_of_ne here]
      exact writes.grows.chain geo (tree.chains k b' known) (tree.apart k c _ _ known file here)
  · intro k k' b₁ b₂ known known' other x member
    by_cases here : k = c
    · rw [here, Function.update_self] at member
      rw [here] at other
      rw [Function.update_of_ne other.symm]
      exact fun member' => tree.beside file writes known' other.symm x member' member
    · rw [Function.update_of_ne here] at member
      by_cases there : k' = c
      · rw [there, Function.update_self]
        exact tree.beside file writes known here x member
      · rw [Function.update_of_ne there]
        exact tree.apart k k' b₁ b₂ known known' other x member
  · intro d dir
    rw [grown_dir file dir]
    apply (tree.calm d dir).imp_of_mem_imp
    intro x y member member' calm long
    rw [(tree.slot_kept file writes dir member).long] at long
    rw [(tree.slot_kept file writes dir member').dots]
    exact calm long
  · intro x is
    have is := (tree.grown_entry file writes).mp is
    have same := tree.entry_kept file writes is
    rw [Leads, same.cluster, same.dir]
    exact tree.leads x is
  · intro x y is is' equal high
    have is := (tree.grown_entry file writes).mp is
    have is' := (tree.grown_entry file writes).mp is'
    rw [(tree.entry_kept file writes is).cluster] at equal high
    rw [(tree.entry_kept file writes is').cluster] at equal
    exact tree.once x y is is' equal high

include tree file writes in
theorem Linked.grow (linked : Linked v kind cs m ents kids) : Linked v kind (Function.update cs c ds) m' ents kids := by
  apply linked.rebase
  · intro k b' known _
    refine ⟨known, fun isDir => ?_⟩
    rw [isDir] at known
    exact grown_dir file known
  · intro d x dir slot plain
    rw [(tree.slot_kept file writes dir slot).dots]
    exact plain
  · intro i e reach found high x is cluster
    have is := (tree.grown_entry file writes).mp is
    rw [(tree.entry_kept file writes is).cluster] at cluster
    exact linked.sole i e reach found high x is cluster

end

theorem Writes.reserves (geo : Geometry v clusters) (tree : Tree v clusters kind cs m) (inside : InVolume clusters c)
    (writes : Writes v clusters c m [] m' [c] a b g) : Reserves v clusters kind cs m c false m' := by
  have zero : entry v m c = 0 := writes.grows.fresh c (List.mem_singleton_self c) List.not_mem_nil
  have unowned := tree.unowned zero
  refine ⟨inside, zero, ?_, writes.free, ⟨?_, ?_⟩, fun isDir => by cases isDir⟩
  · exact writes.chain.last rfl
  · intro k b known x member
    refine writes.grows.entries x (((tree.chains k b known).inside x member).listed geo) fun new => ?_
    rw [List.mem_singleton.mp new] at member
    exact unowned k b known member
  · intro d dir x slot b small
    obtain ⟨c', listed, here⟩ := mem_dirSlots.mp slot
    obtain ⟨k, few, rfl⟩ := mem_slotsOf.mp here
    rw [Nat.add_assoc]
    refine writes.grows.data c' ((tree.chains d _ dir).inside c' listed) (fun new => ?_) (32 * k + b) (by omega)
    rw [List.mem_singleton.mp new] at listed
    exact unowned d _ dir listed

def SameHead (m : Mem) (a : Nat) (m' : Mem) : Prop := ∀ b < 20, m' (a + b) = m (a + b)

namespace SameHead

variable (same : SameHead m a m')

include same in
theorem used : Used m' a ↔ Used m a := by
  have byte : m' a = m a := same 0 (by decide)
  rw [Used, Used, byte]

include same in
theorem attr : attrAt m' a = attrAt m a := congrArg UInt8.toNat (same 11 (by decide))

include same in
theorem dots : Dots m' a ↔ Dots m a := by
  have raw : rawName m' a = rawName m a := by
    apply List.map_congr_left
    intro i member
    have small := List.mem_range.mp member
    exact same i (by omega)
  rw [Dots, Dots, raw]

include same in
theorem long : LongAt m' a ↔ LongAt m a := by rw [LongAt, LongAt, same.used, same.attr]

include same in
theorem named : Named m' a ↔ Named m a := by rw [Named, Named, LiveAt, LiveAt, same.used, same.attr, same.dots]

include same in
theorem dir : dirField m' a = dirField m a := by rw [dirField, dirField, same.attr]

end SameHead

theorem fields_head (buf : Mem) (off newSize newCluster : Nat) :
    ∀ b < 20, setClusterField (setSizeField buf off newSize) off newCluster (off + b) = buf (off + b) := by
  intro b small
  have size : setSizeField buf off newSize (off + b) = buf (off + b) := by
    rw [setSizeField]
    split
    · exact store_outside _ _ _ _ (by omega)
    · rfl
  rw [← size, setClusterField]
  split
  · rw [store_outside _ _ _ _ (by omega), store_outside _ _ _ _ (by omega)]
  · rfl

theorem Housed.block (geo : Geometry v clusters) (housed : Housed v cs m e e') :
    e'.direntSector ≠ 0 ∧ e'.direntOff + 32 ≤ sectorSize := by
  have above := dirSlots_above housed.slot
  have aligned := dirSlots_aligned housed.slot
  have copies := geo.copies
  have table := geo.table
  have small := housed.small
  rw [slotAddr] at above aligned
  constructor
  · intro zero
    rw [zero] at above
    simp only [sectorSize] at above small
    omega
  · simp only [sectorSize] at aligned small ⊢
    omega

structure SetsFields (m : Mem) (a newSize newCluster : Nat) (m' : Mem) : Prop where
  changed : AgreeOff m' m a 32
  head : SameHead m a m'
  size : sizeField m' a = if newSize = keepField then sizeField m a else newSize
  cluster : clusterField m' a = if newCluster = keepField then clusterField m a else newCluster

theorem fat32UpdateDirent_updates (ok : Reliable dev) (found : fs.nodes[i]? = some p) (real : p.direntSector ≠ 0)
    (inside : p.direntOff + 32 ≤ sectorSize) {newSize newCluster : Nat} (size : newSize < 2 ^ 32)
    (cluster : newCluster < 2 ^ 32) :
    ∃ m t, fat32UpdateDirent dev fs i newSize newCluster = fs.after m t ∧
      SetsFields fs.disk (slotAddr p.toEntry) newSize newCluster m := by
  obtain ⟨sized, started⟩ := fat32UpdateDirent_fields ok found real inside size cluster rfl
  rw [fat32UpdateDirent_eq ok found real, after_disk] at sized started
  refine ⟨_, _, fat32UpdateDirent_eq ok found real newSize newCluster, paste_agreeOff (fields_agreeOff _ _ _ _), ?_,
    sized, started⟩
  intro b small
  rw [slotAddr, Nat.one_mul, Nat.add_assoc, paste_inside _ (Nat.le_add_right _ _) (by omega), Nat.add_sub_cancel_left,
    fields_head _ _ _ _ b small]

theorem Tree.update (tree : Tree v clusters kind cs m) (geo : Geometry v clusters) {ds : List Nat} {newSize newCluster : Nat}
    (slot : a ∈ dirSlots v ds) (updates : SetsFields m a newSize newCluster m') (long : ¬ LongAt m a) (dots : ¬ Dots m a)
    (leads : Leads v kind m' a)
    (fresh : 2 ≤ clusterField m' a → ∀ x, x ≠ a → IsEntry v kind cs m x → clusterField m x ≠ clusterField m' a) :
    Tree v clusters kind cs m' ∧ Puts v kind cs m a m' := by
  obtain ⟨puts, free⟩ := Puts.of_changed geo tree slot updates.changed
  refine ⟨?_, puts⟩
  apply tree.puts puts free
  · rwa [updates.head.long]
  · rwa [updates.head.dots]
  · exact fun _ => leads
  · exact fun _ => fresh

theorem Linked.renew (linked : Linked v kind cs m ents kids) (reach : Reach kids 0 i) (found : ents i = some e)
    (file : e.isDir = false) (same : e' = { e with startCluster := e'.startCluster, size := e'.size })
    (fits : Fits kind e') (sole : Sole v kind cs m e')
    (apart : 2 ≤ e'.startCluster → ∀ j x, Reach kids 0 j → j ≠ i → ents j = some x → x.startCluster ≠ e'.startCluster) :
    Linked v kind cs m (Function.update ents i (some e')) kids := by
  have place : slotAddr e' = slotAddr e := by
    rw [same]
    rfl
  have off : e'.direntOff = e.direntOff := by rw [same]
  have noDir : ∀ {d : Nat} {q : Entry}, ents d = some q → q.isDir = true → d ≠ i := by
    rintro d q known isDir rfl
    rw [found] at known
    cases known
    rw [file] at isDir
    cases isDir
  refine ⟨?_, linked.nodup, ?_, ?_, ?_, ?_⟩
  · obtain ⟨r, root, isDir, rest⟩ := linked.root
    refine ⟨r, ?_, isDir, rest⟩
    rw [Function.update_of_ne (noDir root isDir)]
    exact root
  · intro d j reach' member
    obtain ⟨q, x, parent, isDir, child, housed⟩ := linked.home d j reach' member
    by_cases here : j = i
    · subst here
      rw [found] at child
      cases child
      refine ⟨q, e', ?_, isDir, Function.update_self _ _ _, ?_, ?_, ?_⟩
      · rw [Function.update_of_ne (noDir parent isDir)]
        exact parent
      · rw [place]
        exact housed.slot
      · rw [off]
        exact housed.small
      · rw [place]
        exact housed.plain
    · refine ⟨q, x, ?_, isDir, ?_, housed⟩
      · rw [Function.update_of_ne (noDir parent isDir)]
        exact parent
      · rw [Function.update_of_ne here]
        exact child
  · intro j x reach' known
    by_cases here : j = i
    · rw [here, Function.update_self] at known
      cases known
      exact fits
    · rw [Function.update_of_ne here] at known
      exact linked.fits j x reach' known
  · intro j x reach' known
    by_cases here : j = i
    · rw [here, Function.update_self] at known
      cases known
      exact sole
    · rw [Function.update_of_ne here] at known
      exact linked.sole j x reach' known
  · intro j j' x x' reach₁ reach₂ known known' equal high
    by_cases here : j = i
    · by_cases there : j' = i
      · rw [here, there]
      · rw [here, Function.update_self] at known
        rw [Function.update_of_ne there] at known'
        cases known
        exact absurd equal.symm (apart high j' x' reach₂ there known')
    · rw [Function.update_of_ne here] at known
      by_cases there : j' = i
      · rw [there, Function.update_self] at known'
        cases known'
        exact absurd equal (apart (by omega) j x reach₁ here known)
      · rw [Function.update_of_ne there] at known'
        exact linked.distinct j j' x x' reach₁ reach₂ known known' equal high

end RexOs.Fs
