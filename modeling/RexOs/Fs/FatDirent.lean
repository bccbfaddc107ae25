import RexOs.Fs.FatCalls
import Mathlib.Data.List.Chain

/-! Directory entries on the disk.

An entry is 32 bytes; the entries of a directory are at the `dirSlots` of its clusters. An entry is
live when it is neither free nor a part of a long name nor the volume label.
-/

set_option autoImplicit false

namespace RexOs.Fs

open RexOs.Library

def slotsOf (v : Volume) (c : Nat) : List Nat :=
  (List.range (v.bytesPerCluster / 32)).map fun k => clusterAddr v c + 32 * k

def dirSlots (v : Volume) (cs : List Nat) : List Nat := cs.flatMap (slotsOf v)

def attrAt (m : Mem) (a : Nat) : Nat := (m (a + 11)).toNat

def rawName (m : Mem) (a : Nat) : List UInt8 := (List.range 11).map fun i => m (a + i)

def clusterField (m : Mem) (a : Nat) : Nat := load m (a + 20) 2 <<< 16 ||| load m (a + 26) 2

def sizeField (m : Mem) (a : Nat) : Nat := load m (a + 28) 4

def dirField (m : Mem) (a : Nat) : Bool := decide (attrAt m a &&& attrDirectory ≠ 0)

def Used (m : Mem) (a : Nat) : Prop := m a ≠ 0x00 ∧ m a ≠ 0xE5

def LiveAt (m : Mem) (a : Nat) : Prop := Used m a ∧ attrAt m a &&& attrVolumeId = 0

def LongAt (m : Mem) (a : Nat) : Prop := Used m a ∧ attrAt m a &&& attrLfn = attrLfn

/-- The entry `.` or `..`. -/
def Dots (m : Mem) (a : Nat) : Prop := rawName m a = padTo 11 [dot] ∨ rawName m a = padTo 11 [dot, dot]

def Named (m : Mem) (a : Nat) : Prop := LiveAt m a ∧ ¬ Dots m a

instance (m : Mem) (a : Nat) : Decidable (Used m a) := inferInstanceAs (Decidable (_ ∧ _))
instance (m : Mem) (a : Nat) : Decidable (LiveAt m a) := inferInstanceAs (Decidable (_ ∧ _))
instance (m : Mem) (a : Nat) : Decidable (LongAt m a) := inferInstanceAs (Decidable (_ ∧ _))
instance (m : Mem) (a : Nat) : Decidable (Dots m a) := inferInstanceAs (Decidable (_ ∨ _))
instance (m : Mem) (a : Nat) : Decidable (Named m a) := inferInstanceAs (Decidable (_ ∧ _))

section
variable {v : Volume} {clusters : Nat} {m m' : Mem} {cs cs' : List Nat} {a a' c x off : Nat}

/-- The 32 bytes at `a'` are those at `a`. -/
def SameEntry (m : Mem) (a : Nat) (m' : Mem) (a' : Nat) : Prop := ∀ b < 32, m' (a' + b) = m (a + b)

namespace SameEntry

theorem load_eq (same : SameEntry m a m' a') (b n : Nat) (inside : b + n ≤ 32) :
    load m' (a' + b) n = load m (a + b) n := by
  rw [← load_shift m' a' b n, ← load_shift m a b n]
  apply load_congr
  intro i _ high
  exact same i (by omega)

theorem byte (same : SameEntry m a m' a') : m' a' = m a := same 0 (by decide)

theorem attr (same : SameEntry m a m' a') : attrAt m' a' = attrAt m a := congrArg UInt8.toNat (same 11 (by decide))

theorem raw (same : SameEntry m a m' a') : rawName m' a' = rawName m a := by
  apply List.map_congr_left
  intro i member
  have small := List.mem_range.mp member
  exact same i (by omega)

theorem cluster (same : SameEntry m a m' a') : clusterField m' a' = clusterField m a := by
  rw [clusterField, clusterField, same.load_eq 20 2 (by decide), same.load_eq 26 2 (by decide)]

theorem size (same : SameEntry m a m' a') : sizeField m' a' = sizeField m a := same.load_eq 28 4 (by decide)

theorem dir (same : SameEntry m a m' a') : dirField m' a' = dirField m a := by
  rw [dirField, dirField, same.attr]

theorem used (same : SameEntry m a m' a') : Used m' a' ↔ Used m a := by rw [Used, Used, same.byte]

theorem live (same : SameEntry m a m' a') : LiveAt m' a' ↔ LiveAt m a := by rw [LiveAt, LiveAt, same.used, same.attr]

theorem long (same : SameEntry m a m' a') : LongAt m' a' ↔ LongAt m a := by rw [LongAt, LongAt, same.used, same.attr]

theorem dots (same : SameEntry m a m' a') : Dots m' a' ↔ Dots m a := by rw [Dots, Dots, same.raw]

theorem named (same : SameEntry m a m' a') : Named m' a' ↔ Named m a := by rw [Named, Named, same.live, same.dots]

end SameEntry

theorem mem_slotsOf : a ∈ slotsOf v c ↔ ∃ k < v.bytesPerCluster / 32, a = clusterAddr v c + 32 * k := by
  simp only [slotsOf, List.mem_map, List.mem_range, eq_comm]

theorem mem_dirSlots : a ∈ dirSlots v cs ↔ ∃ c ∈ cs, a ∈ slotsOf v c := by simp only [dirSlots, List.mem_flatMap]

theorem slotsOf_aligned (member : a ∈ slotsOf v c) : a % 32 = 0 := by
  obtain ⟨k, _, rfl⟩ := mem_slotsOf.mp member
  rw [clusterAddr, sectorSize]
  omega

theorem dirSlots_aligned (member : a ∈ dirSlots v cs) : a % 32 = 0 := by
  obtain ⟨c, _, inside⟩ := mem_dirSlots.mp member
  exact slotsOf_aligned inside

theorem slotsOf_inside (member : a ∈ slotsOf v c) : clusterAddr v c ≤ a ∧ a + 32 ≤ clusterAddr v c + v.bytesPerCluster := by
  obtain ⟨k, few, rfl⟩ := mem_slotsOf.mp member
  omega

theorem dirSlots_above (member : a ∈ dirSlots v cs) : v.clusterBeginLba * sectorSize ≤ a := by
  obtain ⟨c, _, inside⟩ := mem_dirSlots.mp member
  exact Nat.le_trans (clusterAddr_ge v c) (slotsOf_inside inside).1

theorem slotsOf_apart (geo : Geometry v clusters) (inside : InVolume clusters c) (inside' : InVolume clusters x)
    (member : a ∈ slotsOf v c) (member' : a ∈ slotsOf v x) : c = x := by
  by_contra other
  have here := slotsOf_inside member
  have there := slotsOf_inside member'
  have := clusterAddr_apart geo inside inside' other
  omega

theorem slotsOf_nodup (v : Volume) (c : Nat) : (slotsOf v c).Nodup := by
  apply List.Nodup.map
  · intro k k' same
    simp only at same
    omega
  · exact List.nodup_range

theorem dirSlots_nodup (geo : Geometry v clusters) (inside : ∀ c ∈ cs, InVolume clusters c) (nodup : cs.Nodup) :
    (dirSlots v cs).Nodup := by
  apply List.nodup_flatMap.mpr
  constructor
  · intro c _
    exact slotsOf_nodup v c
  · apply nodup.imp_of_mem
    intro c x member member' other a here there
    exact other (slotsOf_apart geo (inside c member) (inside x member') here there)

theorem dirSlots_apart (geo : Geometry v clusters) (inside : ∀ c ∈ cs, InVolume clusters c)
    (inside' : ∀ c ∈ cs', InVolume clusters c) (apart : ∀ c ∈ cs, c ∉ cs') (member : a ∈ dirSlots v cs) :
    a ∉ dirSlots v cs' := by
  intro member'
  obtain ⟨c, listed, here⟩ := mem_dirSlots.mp member
  obtain ⟨x, listed', there⟩ := mem_dirSlots.mp member'
  have same := slotsOf_apart geo (inside c listed) (inside' x listed') here there
  exact apart c listed (same ▸ listed')

theorem Slot.mem (geo : Geometry v clusters) {e : Entry} (slot : Slot v cs e) : slotAddr e ∈ dirSlots v cs := by
  obtain ⟨c, member, i, place, room⟩ := slot.inside geo
  exact mem_dirSlots.mpr ⟨c, member, mem_slotsOf.mpr ⟨i, by omega, place⟩⟩

theorem other_entry (changed : AgreeOff m' m a 32) (aligned : a % 32 = 0) (aligned' : x % 32 = 0) (other : x ≠ a) :
    SameEntry m x m' x := by
  intro b small
  exact changed (x + b) (by omega)

variable {buf : Mem} {name : List UInt8} {attr cluster : Nat}

theorem putDirent_raw (length : name.length = 11) : rawName (putDirent buf off name attr cluster) off = name := by
  apply List.ext_getElem
  · simp [rawName, length]
  · intro i _ inside
    have inside : i < 11 := by omega
    simp only [rawName, List.getElem_map, List.getElem_range, putDirent]
    rw [store_outside _ _ _ _ (by omega), store_outside _ _ _ _ (by omega), store_outside _ _ _ _ (by omega),
      storeBytes, paste_inside _ (by omega) (by omega), Nat.add_sub_cancel_left]
    simp [List.getD, length, inside]

theorem putDirent_attr (fits : attr < 256) : attrAt (putDirent buf off name attr cluster) off = attr := by
  have byte : ∀ (m : Mem) (p : Nat), (m p).toNat = load m p 1 := by
    intro m p
    simp [load]
  rw [attrAt, byte, putDirent, load_store_apart (by omega), load_store_apart (by omega), load_store fits]

theorem cluster_halves (fits : cluster < 2 ^ 32) :
    cluster >>> 16 < 256 ^ 2 ∧ cluster &&& 0xFFFF < 256 ^ 2 ∧ cluster >>> 16 <<< 16 ||| cluster &&& 0xFFFF = cluster := by
  have low : cluster &&& 0xFFFF = cluster % 2 ^ 16 := Nat.and_two_pow_sub_one_eq_mod cluster 16
  rw [low, Nat.shiftRight_eq_div_pow]
  refine ⟨by omega, by omega, ?_⟩
  rw [← Nat.shiftLeft_add_eq_or_of_lt (Nat.mod_lt _ (by decide)), Nat.shiftLeft_eq]
  omega

theorem putDirent_cluster (fits : cluster < 2 ^ 32) :
    clusterField (putDirent buf off name attr cluster) off = cluster := by
  obtain ⟨high, low, whole⟩ := cluster_halves fits
  rw [clusterField, putDirent, load_store_apart (by omega), load_store high, load_store low, whole]

theorem putDirent_size (length : name.length = 11) : sizeField (putDirent buf off name attr cluster) off = 0 := by
  rw [sizeField, putDirent, load_store_apart (by omega), load_store_apart (by omega), load_store_apart (by omega)]
  have named : AgreeOn (storeBytes (fill buf off 32 0) off name) (fill buf off 32 0) (off + 28) 4 := by
    intro i low high
    exact paste_outside _ (by omega)
  rw [load_congr named, load_fill_zero (by omega) (by omega)]

end

/-! What `fat32_dir_load_children` makes of the entries on the disk: one node for each of
some named entries, in their order, and an array of these nodes.
-/

variable {dev : Device} {v : Volume} {clusters : Nat} {m : Mem} {fs fs' : State} {a c : Nat} {p : Node}

structure Mirrors (m : Mem) (a : Nat) (p : Node) : Prop where
  named : Named m a
  place : slotAddr p.toEntry = a
  small : p.direntOff < sectorSize
  isDir : p.isDir = dirField m a
  start : p.startCluster = clusterField m a
  size : p.size = if p.isDir then 0 else sizeField m a
  length : p.length = p.size
  unloaded : p.childrenLoaded = false
  childless : p.children = []

def Loads (m : Mem) (slots : List Nat) (new : List Node) : Prop :=
  ∃ shown, shown.Sublist slots ∧ List.Forall₂ (Mirrors m) shown new

theorem Loads.nil (m : Mem) (slots : List Nat) : Loads m slots [] := ⟨[], List.nil_sublist _, .nil⟩

theorem Loads.append {slots slots' : List Nat} {new new' : List Node} (first : Loads m slots new)
    (second : Loads m slots' new') : Loads m (slots ++ slots') (new ++ new') := by
  obtain ⟨shown, sub, all⟩ := first
  obtain ⟨shown', sub', all'⟩ := second
  exact ⟨shown ++ shown', sub.append sub', List.rel_append all all'⟩

/-- An entry `.` or `..` does not follow a part of a long name. -/
def Calm (m : Mem) (a b : Nat) : Prop := LongAt m a → ¬ Dots m b

/-- A long name is not for an entry `.` or `..`. -/
def Ready (m : Mem) (ld : Loading) (slots : List Nat) : Prop :=
  ld.lfnHave = true → ∀ a ∈ slots.head?, ¬ Dots m a

theorem Calm.ready {slots : List Nat} {ld : Loading} (calm : List.IsChain (Calm m) (a :: slots))
    (long : ld.lfnHave = true → LongAt m a) : Ready m ld slots := by
  intro have_ b head
  cases slots with
  | nil => cases head
  | cons x rest =>
    cases head
    rw [List.isChain_cons_cons] at calm
    exact calm.1 (long have_)

theorem padTo_dot_name : cString (name83ToString (padTo 11 [dot])) = [dot] := by decide
theorem padTo_dots_name : cString (name83ToString (padTo 11 [dot, dot])) = [dot, dot] := by decide

/-- What an entry gives: at most one node, and a long name goes on only from one of its parts. -/
structure Gives (m : Mem) (a : Nat) (ld ld' : Loading) (fs fs' : State) : Prop where
  disk : fs'.disk = fs.disk
  long : ld'.lfnHave = true → LongAt m a
  nodes : ∃ new, Loads m [a] new ∧ fs'.nodes = fs.nodes ++ new ∧
    ld'.kids = ld.kids ++ List.range' fs.nodes.length new.length

theorem Gives.nothing {ld ld' : Loading} (m : Mem) (a : Nat) (fs : State) (kids : ld'.kids = ld.kids)
    (long : ld'.lfnHave = true → LongAt m a) : Gives m a ld ld' fs fs :=
  ⟨rfl, long, [], Loads.nil m [a], by simp, by simp [kids]⟩

def freshNode (name : List UInt8) (isDir : Bool) (cluster size sector off : Nat) : Node :=
  { isDir := isDir, startCluster := cluster, size := size, direntSector := sector, direntOff := off
    name := name.take 127, length := size, children := [], childrenCap := 0, childrenLoaded := false }

theorem createFat32Node_state (ok : Reliable dev) (fs : State) (name : List UInt8) (isDir : Bool) (cluster size : Nat) :
    ∃ t, createFat32Node dev fs name isDir cluster size = (some fs.nodes.length,
      { fs with nodes := fs.nodes ++ [freshNode name isDir cluster size 0 0], clock := t }) := by
  simp only [createFat32Node, heapAlloc_ok ok]
  exact ⟨_, rfl⟩

theorem setDirent_last (fs : State) (name : List UInt8) (isDir : Bool) (cluster size t sector off : Nat) :
    ({ fs with nodes := fs.nodes ++ [freshNode name isDir cluster size 0 0], clock := t } : State).setDirent
        fs.nodes.length sector off =
      { fs with nodes := fs.nodes ++ [freshNode name isDir cluster size sector off], clock := t } := by
  have there : ({ fs with nodes := fs.nodes ++ [freshNode name isDir cluster size 0 0], clock := t } : State).nodes[fs.nodes.length]? =
      some (freshNode name isDir cluster size 0 0) := List.getElem?_concat_length ..
  have nodes := setNode_nodes there fun p => { p with direntSector := sector, direntOff := off }
  rw [List.set_append_right _ _ (Nat.le_refl _), Nat.sub_self, List.set_cons_zero] at nodes
  have same : freshNode name isDir cluster size sector off =
      { freshNode name isDir cluster size 0 0 with direntSector := sector, direntOff := off } := rfl
  rw [same, ← nodes]
  rfl

theorem addKid_ok (ok : Reliable dev) (ld : Loading) (child : Nat) (fs : State) :
    ∃ cap t, addKid dev ld child fs =
      (true, { ld with kids := ld.kids ++ [child], kidsCap := cap }, fs.after fs.disk t) := by
  rw [addKid]
  split
  · rw [heapAlloc_ok ok]
    exact ⟨_, _, rfl⟩
  · exact ⟨ld.kidsCap, fs.clock, rfl⟩

theorem loadLfn_kids {cbuf : Mem} {e : Nat} {ld ld' : Loading} (returned : loadLfn cbuf e ld = .ok ld') :
    ld'.kids = ld.kids := by
  unfold loadLfn at returned
  simp only at returned
  split at returned
  · cases returned
  · cases returned
    split <;> rfl

theorem loadEntry_gives (ok : Reliable dev) (geo : Geometry v clusters) (inside : InVolume clusters c) {cbuf : Mem}
    {i : Nat} (few : i < v.bytesPerCluster / 32)
    (bytes : ∀ b < v.bytesPerCluster, cbuf b = fs.disk (clusterAddr v c + b)) {ld ld' : Loading} {more : Bool}
    (ready : ld.lfnHave = true → ¬ Dots fs.disk (clusterAddr v c + 32 * i))
    (returned : loadEntry dev (clusterToLba v c) cbuf i ld fs = .ok (more, ld', fs')) :
    Gives fs.disk (clusterAddr v c + 32 * i) ld ld' fs fs' ∨ more = false ∧ fs' = fs ∧ ld' = ld := by
  have same : SameEntry cbuf (i * 32) fs.disk (clusterAddr v c + 32 * i) := by
    intro b small
    rw [bytes (i * 32 + b) (by omega), Nat.add_assoc, Nat.mul_comm]
  generalize place : clusterAddr v c + 32 * i = a at *
  have used : cbuf (i * 32) ≠ 0 → cbuf (i * 32) ≠ 0xE5 → Used fs.disk a := fun first second => same.used.mpr ⟨first, second⟩
  unfold loadEntry at returned
  simp only at returned
  split at returned
  · cases returned
    exact Or.inr ⟨rfl, rfl, rfl⟩
  rename_i notEnd
  left
  split at returned
  · cases returned
    exact Gives.nothing _ _ _ rfl nofun
  rename_i notFree
  have used := used notEnd notFree
  split at returned
  · -- a part of a long name
    rename_i long
    obtain ⟨ld₁, loaded, returned⟩ := bind_returns returned
    cases returned
    refine Gives.nothing _ _ _ (loadLfn_kids loaded) fun _ => ⟨used, ?_⟩
    rw [same.attr]
    exact long
  split at returned
  · cases returned
    exact Gives.nothing _ _ _ rfl nofun
  rename_i notVolume
  have live : LiveAt fs.disk a := by
    refine ⟨used, ?_⟩
    rw [same.attr]
    exact not_not.mp notVolume
  obtain ⟨name, naming, returned⟩ := bind_returns returned
  split at returned
  · cases returned
    exact Gives.nothing _ _ _ rfl nofun
  rename_i other
  have named : Named fs.disk a := by
    refine ⟨live, fun dots => ?_⟩
    unfold entryName at naming
    split at naming
    · rename_i have_
      exact ready have_ dots
    · -- without a long name the name is that of the entry itself
      cases naming
      have raw : ((List.range 11).map fun b => cbuf (i * 32 + b)) = rawName fs.disk a := same.raw.symm
      rw [raw] at other
      rcases dots with one | two
      · rw [one, padTo_dot_name] at other
        exact other (Or.inl rfl)
      · rw [two, padTo_dots_name] at other
        exact other (Or.inr (Or.inl rfl))
  have isDir : decide ((cbuf (i * 32 + 11)).toNat &&& attrDirectory ≠ 0) = dirField fs.disk a := by
    rw [same.dir]
    rfl
  rw [isDir] at returned
  obtain ⟨t, created⟩ := createFat32Node_state ok fs name (dirField fs.disk a)
    (load cbuf (i * 32 + 20) 2 <<< 16 ||| load cbuf (i * 32 + 26) 2)
    (if dirField fs.disk a = true then 0 else load cbuf (i * 32 + 28) 4)
  rw [created] at returned
  simp only [setDirent_last] at returned
  generalize nodeIs : freshNode name (dirField fs.disk a) _ _ _ _ = n at returned
  obtain ⟨cap, t', added⟩ := addKid_ok ok { ld with lfnHave := false } fs.nodes.length
    { fs with nodes := fs.nodes ++ [n], clock := t }
  rw [added] at returned
  cases returned
  refine ⟨rfl, nofun, [n], ⟨[a], List.Sublist.refl _, .cons ?_ .nil⟩, rfl, rfl⟩
  subst nodeIs
  obtain ⟨lba, room⟩ := clusterToLba_eq geo inside
  have bytesPer := geo.bytes
  have sector : u32 (clusterToLba v c + i * 32 / sectorSize) = clusterToLba v c + i * 32 / sectorSize := by
    apply Nat.mod_eq_of_lt
    simp only [sectorSize] at bytesPer ⊢
    omega
  constructor
  · exact named
  · show u32 (clusterToLba v c + i * 32 / sectorSize) * sectorSize + i * 32 % sectorSize = a
    rw [sector, lba, ← place, clusterAddr, sectorSize]
    omega
  · exact Nat.mod_lt _ (by decide)
  · rfl
  · rw [same.cluster]
    rfl
  · rw [same.size]
    rfl
  · rfl
  · rfl
  · rfl

/-- What a loop over some slots gives; `rest` are the slots behind them. -/
structure GivesAll (m : Mem) (slots rest : List Nat) (more : Bool) (ld ld' : Loading) (fs fs' : State) : Prop where
  disk : fs'.disk = fs.disk
  ready : more = true → Ready m ld' rest
  nodes : ∃ new, Loads m slots new ∧ fs'.nodes = fs.nodes ++ new ∧
    ld'.kids = ld.kids ++ List.range' fs.nodes.length new.length

theorem GivesAll.trans {slots slots' rest : List Nat} {more : Bool} {ld ld' ld'' : Loading} {fs'' : State}
    (second : GivesAll m slots' rest more ld' ld'' fs' fs'') (disk : fs'.disk = fs.disk)
    (first : ∃ new, Loads m slots new ∧ fs'.nodes = fs.nodes ++ new ∧
      ld'.kids = ld.kids ++ List.range' fs.nodes.length new.length) : GivesAll m (slots ++ slots') rest more ld ld'' fs fs'' := by
  obtain ⟨new, loads, nodes, kids⟩ := first
  obtain ⟨new', loads', nodes', kids'⟩ := second.nodes
  refine ⟨second.disk.trans disk, second.ready, new ++ new', loads.append loads', ?_, ?_⟩
  · rw [nodes', nodes, List.append_assoc]
  · rw [kids', kids, nodes, List.append_assoc, List.length_append, List.length_append, List.range'_append_1]

theorem entryLoop_gives (ok : Reliable dev) (geo : Geometry v clusters) (inside : InVolume clusters c) {cbuf : Mem}
    {rest : List Nat} {more : Bool} {ld' : Loading} : ∀ (rounds i : Nat) {ld : Loading} {fs : State},
    (∀ b < v.bytesPerCluster, cbuf b = fs.disk (clusterAddr v c + b)) →
    i + rounds ≤ v.bytesPerCluster / 32 →
    List.IsChain (Calm fs.disk) ((List.range' i rounds).map (fun k => clusterAddr v c + 32 * k) ++ rest) →
    Ready fs.disk ld ((List.range' i rounds).map (fun k => clusterAddr v c + 32 * k) ++ rest) →
    entryLoop dev (clusterToLba v c) cbuf rounds i ld fs = .ok (more, ld', fs') →
    GivesAll fs.disk ((List.range' i rounds).map fun k => clusterAddr v c + 32 * k) rest more ld ld' fs fs' := by
  intro rounds
  induction rounds with
  | zero =>
    intro i ld fs _ _ _ ready returned
    cases returned
    exact ⟨rfl, fun _ => ready, [], Loads.nil _ _, by simp, by simp⟩
  | succ rounds ih =>
    intro i ld fs bytes few calm ready returned
    rw [List.range'_succ, List.map_cons, List.cons_append] at calm ready
    rw [List.range'_succ, List.map_cons]
    rw [entryLoop] at returned
    obtain ⟨⟨more₁, ld₁, fs₁⟩, entry, finished⟩ := bind_returns returned
    clear returned
    have here : ld.lfnHave = true → ¬ Dots fs.disk (clusterAddr v c + 32 * i) :=
      fun long => ready long _ rfl
    rcases loadEntry_gives ok geo inside (by omega) bytes here entry with gives | ⟨rfl, rfl, rfl⟩
    · cases more₁ with
      | false =>
        cases finished
        obtain ⟨new, loads, nodes, kids⟩ := gives.nodes
        refine ⟨gives.disk, nofun, new, ?_, nodes, kids⟩
        obtain ⟨shown, sub, all⟩ := loads
        exact ⟨shown, sub.trans (List.singleton_sublist.mpr List.mem_cons_self), all⟩
      | true =>
        have later := @ih (i + 1) ld₁ fs₁ (by rw [gives.disk]; exact bytes) (by omega)
          (by rw [gives.disk]; exact calm.of_cons) (by rw [gives.disk]; exact Calm.ready calm gives.long) finished
        rw [gives.disk] at later
        exact later.trans gives.disk gives.nodes
    · -- the end of the directory
      cases finished
      exact ⟨rfl, nofun, [], Loads.nil _ _, by simp, by simp⟩

theorem clusterLoop_gives (ok : Reliable dev) (geo : Geometry v clusters) {ld' : Loading} :
    ∀ {cs : List Nat} {start last : Nat} (fuel : Nat) {ld : Loading} {fs : State},
    Path (entry v fs.disk) start cs last → (∀ c ∈ cs, InVolume clusters c) → (last < 2 ∨ clusterEndMark ≤ last) →
    List.IsChain (Calm fs.disk) (dirSlots v cs) → Ready fs.disk ld (dirSlots v cs) →
    clusterLoop dev v fuel start ld fs = .ok (ld', fs') →
    ∃ more, GivesAll fs.disk (dirSlots v cs) [] more ld ld' fs fs' := by
  intro cs
  induction cs with
  | nil =>
    rintro start last fuel ld fs rfl _ ends _ ready returned
    cases fuel with
    | zero => cases returned
    | succ fuel =>
      rw [clusterLoop, if_neg (by omega)] at returned
      cases returned
      exact ⟨true, rfl, fun _ => ready, [], Loads.nil _ _, by simp, by simp⟩
  | cons c rest ih =>
    rintro start last fuel ld fs ⟨rfl, path⟩ inside ends calm ready returned
    cases fuel with
    | zero => cases returned
    | succ fuel =>
      have here := inside start List.mem_cons_self
      rw [clusterLoop, if_pos ⟨here.below geo, here.1⟩] at returned
      obtain ⟨buf, t, read, bytes⟩ := readCluster_ok ok geo fs here
      rw [read] at returned
      obtain ⟨⟨more, ld₁, fs₁⟩, entries, returned⟩ := bind_returns returned
      have slots : dirSlots v (start :: rest) =
          ((List.range' 0 (v.bytesPerCluster / 32)).map fun k => clusterAddr v start + 32 * k) ++ dirSlots v rest := by
        rw [dirSlots, List.flatMap_cons, slotsOf, List.range_eq_range']
        rfl
      rw [slots] at calm ready ⊢
      have buffer : ∀ b < v.bytesPerCluster, buf b = (fs.after fs.disk t).disk (clusterAddr v start + b) := bytes
      have first := entryLoop_gives ok geo here _ 0 buffer (by omega) calm ready entries
      cases more with
      | false =>
        cases returned
        obtain ⟨new, loads, nodes, kids⟩ := first.nodes
        refine ⟨false, first.disk, fun more => absurd more Bool.false_ne_true, new, ?_, nodes, kids⟩
        obtain ⟨shown, sub, all⟩ := loads
        exact ⟨shown, sub.trans (List.sublist_append_left _ _), all⟩
      | true =>
        have disk : fs₁.disk = fs.disk := first.disk
        simp only [fatNextCluster_ok ok geo fs₁ (here.listed geo) (here.small geo)] at returned
        rw [disk] at returned
        obtain ⟨more, later⟩ := @ih _ _ fuel ld₁ (fs₁.after fs.disk (fs₁.clock + 1)) path
          (fun c member => inside c (List.mem_cons_of_mem _ member)) ends calm.right_of_append
          (first.ready rfl) returned
        have rest' : GivesAll fs.disk (dirSlots v rest) [] more ld₁ ld' fs₁ fs' :=
          ⟨later.disk.trans disk.symm, later.ready, later.nodes⟩
        exact ⟨more, rest'.trans disk first.nodes⟩

end RexOs.Fs
