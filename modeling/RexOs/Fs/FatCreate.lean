import RexOs.Fs.FatCalls

/-! `fat32_create_impl` on a well-formed volume: it makes an empty file and changes no other. -/

set_option autoImplicit false

namespace RexOs.Fs

open RexOs.Library

variable {dev : Device} {v : Volume} {clusters : Nat} {closed : List Entry} {fs : State} {m m' : Mem}
variable {obj : Object → Option Entry} {cs : Object → List Nat}

theorem freeDirentLoop_some {buf : Mem} {off : Nat} : ∀ {rounds e : Nat}, freeDirentLoop buf rounds e = some off →
    ∃ k, k < e + rounds ∧ off = 32 * k ∧ (buf off = 0 ∨ buf off = 0xE5) := by
  intro rounds
  induction rounds with
  | zero =>
    intro e found
    cases found
  | succ rounds ih =>
    intro e found
    rw [freeDirentLoop] at found
    split at found
    · rename_i free
      cases found
      exact ⟨e, by omega, Nat.mul_comm e 32, free⟩
    · obtain ⟨k, few, place, free⟩ := ih found
      exact ⟨k, by omega, place, free⟩

/-- A free entry of the directory whose clusters are `ds`. -/
def FreeSlot (v : Volume) (ds : List Nat) (m : Mem) (sector off : Nat) : Prop :=
  (∀ e : Entry, e.direntSector = sector → e.direntOff = off → Slot v ds e) ∧
    (m (sector * sectorSize + off) = 0 ∨ m (sector * sectorSize + off) = 0xE5)

theorem freeSectorLoop_ok (ok : Reliable dev) {base : Nat} : ∀ (rounds s : Nat) (fs : State),
    base + s + rounds ≤ 2 ^ 32 →
    ∃ r t, freeSectorLoop dev base rounds s fs = (r, fs.after fs.disk t) ∧
      ∀ sector off, r = some (sector, off) → ∃ s' < s + rounds, sector = base + s' ∧ ∃ k < 16, off = 32 * k ∧
        (fs.disk (sector * sectorSize + off) = 0 ∨ fs.disk (sector * sectorSize + off) = 0xE5) := by
  intro rounds
  induction rounds with
  | zero =>
    intro s fs _
    exact ⟨none, fs.clock, rfl, nofun⟩
  | succ rounds ih =>
    intro s fs room
    have here : u32 (base + s) = base + s := Nat.mod_eq_of_lt (by omega)
    simp only [freeSectorLoop, readBlocks_ok ok, here]
    cases free : freeDirentLoop (fun i => fs.disk ((base + s) * sectorSize + i)) (sectorSize / 32) 0 with
    | none =>
      obtain ⟨r, t, later, found⟩ := ih (s + 1) (fs.after fs.disk (fs.clock + 1)) (by omega)
      refine ⟨r, t, later, fun sector off some => ?_⟩
      obtain ⟨s', few, rest⟩ := found sector off some
      exact ⟨s', by omega, rest⟩
    | some off =>
      refine ⟨_, _, rfl, ?_⟩
      rintro sector off' ⟨rfl, rfl⟩
      obtain ⟨k, few, place, byte⟩ := freeDirentLoop_some free
      exact ⟨s, by omega, rfl, k, by simpa [sectorSize] using few, place, byte⟩

theorem fat32FindFreeDirent_ok (ok : Reliable dev) (geo : Geometry v clusters) : ∀ {ds : List Nat} {start last : Nat}
    (fuel : Nat) (fs : State), Path (entry v fs.disk) start ds last → (∀ c ∈ ds, InVolume clusters c) →
    (last < 2 ∨ clusterEndMark ≤ last) → ds.length < fuel →
    Safe (fat32FindFreeDirent dev v fuel fs start) fun r => ∃ t, r.2 = fs.after fs.disk t ∧
      ∀ sector off, r.1 = some (sector, off) → FreeSlot v ds fs.disk sector off := by
  intro ds
  induction ds with
  | nil =>
    rintro start last fuel fs rfl _ ends enough
    obtain ⟨fuel, rfl⟩ := Nat.exists_eq_succ_of_ne_zero (by omega : fuel ≠ 0)
    rw [fat32FindFreeDirent]
    exact Safe.neg (by omega) (Safe.ok ⟨fs.clock, rfl, nofun⟩)
  | cons c rest ih =>
    rintro start last fuel fs ⟨rfl, path⟩ inside ends enough
    obtain ⟨fuel, rfl⟩ := Nat.exists_eq_succ_of_ne_zero (by omega : fuel ≠ 0)
    have here := inside start (by simp)
    obtain ⟨lba, room⟩ := clusterToLba_eq geo here
    obtain ⟨r, t, searched, found⟩ := freeSectorLoop_ok ok v.sectorsPerCluster 0 fs (by simpa using room)
    rw [fat32FindFreeDirent, searched]
    refine Safe.pos ⟨here.1, here.below geo⟩ ?_
    cases r with
    | some place =>
      refine Safe.ok ⟨t, rfl, ?_⟩
      rintro sector off ⟨rfl⟩
      obtain ⟨s, few, sector_, k, small, off_, free⟩ := found sector off rfl
      refine ⟨fun e sector' off' => ⟨start, by simp, s, by omega, k, small, ?_, by rw [off', off_]⟩, free⟩
      rw [sector', sector_, lba]
    | none =>
      simp only [fatNextCluster_ok ok geo _ (here.listed geo) (here.small geo), after_after, after_disk]
      refine (ih fuel (fs.after fs.disk (t + 1)) path (fun c member => inside c (by simp [member])) ends
        (by simpa using enough)).mono ?_
      rintro r ⟨t', state, slot⟩
      refine ⟨t', state, fun sector off some => ?_⟩
      obtain ⟨place, free⟩ := slot sector off some
      refine ⟨fun e sector' off' => ?_, free⟩
      obtain ⟨c, member, more⟩ := place e sector' off'
      exact ⟨c, by simp [member], more⟩

theorem objects_append (nodes : List Node) (closed : List Entry) (n : Node) :
    objects (nodes ++ [n]) closed = Function.update (objects nodes closed) (.inl nodes.length) (some n.toEntry) := by
  funext o
  rcases o with k | j
  · by_cases same : k = nodes.length
    · subst same
      simp [objects]
    · rw [Function.update_of_ne (by simpa using same)]
      rcases Nat.lt_or_gt_of_ne same with below | above
      · simp [objects, List.getElem?_append_left below]
      · simp [objects, List.getElem?_eq_none (by simp; omega : (nodes ++ [n]).length ≤ k),
          List.getElem?_eq_none (by omega : nodes.length ≤ k)]
  · simp [objects]

theorem objects_modify (nodes : List Node) (closed : List Entry) (i : Nat) {f : Node → Node}
    (same : ∀ p, (f p).toEntry = p.toEntry) : objects (nodes.modify i f) closed = objects nodes closed := by
  funext o
  rcases o with k | j
  · simp only [objects, List.getElem?_modify]
    cases nodes[k]? with
    | none => rfl
    | some p =>
      split
      · exact congrArg some (same p)
      · rfl
  · rfl

theorem dirAddChild_ok (ok : Reliable dev) (fs : State) (closed : List Entry) (d child : Nat) :
    (dirAddChild dev fs d child).disk = fs.disk ∧
      objects (dirAddChild dev fs d child).nodes closed = objects fs.nodes closed := by
  rw [dirAddChild]
  split
  · exact ⟨rfl, rfl⟩
  · simp only [heapAlloc_ok ok]
    split
    · exact ⟨rfl, objects_modify fs.nodes closed d fun _ => rfl⟩
    · exact ⟨rfl, objects_modify fs.nodes closed d fun _ => rfl⟩

theorem createFat32Node_ok (ok : Reliable dev) (fs : State) (name : List UInt8) (isDir : Bool)
    (cluster size sector off : Nat) :
    ∃ n t, createFat32Node dev fs name isDir cluster size =
        (some fs.nodes.length, { fs with nodes := fs.nodes ++ [n], clock := t }) ∧
      (({ fs with nodes := fs.nodes ++ [n], clock := t } : State).setDirent fs.nodes.length sector off).disk = fs.disk ∧
      ∀ closed, objects (({ fs with nodes := fs.nodes ++ [n], clock := t } : State).setDirent fs.nodes.length
          sector off).nodes closed =
        Function.update (objects fs.nodes closed) (.inl fs.nodes.length)
          (some ⟨isDir, cluster, size, sector, off⟩) := by
  simp only [createFat32Node, heapAlloc_ok ok]
  refine ⟨_, _, rfl, rfl, fun closed => ?_⟩
  rw [State.setDirent, setNode_nodes (List.getElem?_concat_length ..), List.set_append_right _ _ (Nat.le_refl _),
    Nat.sub_self, List.set_cons_zero, objects_append]

theorem putDirent_agreeOff (buf : Mem) (off : Nat) {name : List UInt8} (short : name.length ≤ 11) (attr cluster : Nat) :
    AgreeOff (putDirent buf off name attr cluster) buf off 32 := by
  have cleared := fill_agreeOff buf off 32 0
  have named : AgreeOff (storeBytes (fill buf off 32 0) off name) (fill buf off 32 0) off 32 :=
    fun _ outside => paste_outside _ (by omega)
  refine ((cleared.trans named).trans ?_ : AgreeOff _ buf off 32)
  exact ((store_agreeOff (by omega) (by omega)).trans (store_agreeOff (by omega) (by omega))).trans
    (store_agreeOff (by omega) (by omega))

theorem nameTo83_length (name : List UInt8) : (nameTo83 name).length = 11 := by
  have pad : ∀ (n : Nat) (bytes : List UInt8), (padTo n bytes).length = n := by
    intro n bytes
    simp only [padTo, List.length_append, List.length_take, List.length_replicate]
    omega
  simp only [nameTo83, List.length_append, pad]

def Reserved (v : Volume) (clusters : Nat) (obj : Object → Option Entry) (cs : Object → List Nat) (m : Mem) (c : Nat) :
    Prop :=
  c = 0 ∨ InVolume clusters c ∧ clusterEndMark ≤ entry v m c ∧ ∀ o e, obj o = some e → c ∉ cs o

theorem Owns.alloc (own : Owns v clusters obj cs m) (geo : Geometry v clusters) {c : Nat}
    (allocates : Allocates v clusters m c m') :
    Owns v clusters obj cs m' ∧ Keeps v obj none m m' ∧ Reserved v clusters obj cs m' c := by
  rcases allocates with ⟨none, rfl⟩ | ⟨inside, zero, marked⟩
  · exact ⟨own, Keeps.refl .., Or.inl none⟩
  · have unowned : ∀ o e, obj o = some e → c ∉ cs o :=
      fun o e found member => (own.chains o e found).nonzero member zero
    obtain ⟨own', keeps⟩ := own.entry geo marked unowned nofun
    exact ⟨own', keeps, Or.inr ⟨inside, by rw [marked.here]; decide, unowned⟩⟩

theorem undoAlloc_ok (ok : Reliable dev) (geo : Geometry v clusters) (fs : State)
    (own : Owns v clusters obj cs fs.disk) {c : Nat} (reserved : Reserved v clusters obj cs fs.disk c) :
    ∃ m t, undoAlloc dev v fs c = fs.after m t ∧ Owns v clusters obj cs m ∧ Keeps v obj none fs.disk m := by
  rw [undoAlloc]
  rcases reserved with none | ⟨inside, _, unowned⟩
  · rw [if_neg (by omega)]
    exact ⟨fs.disk, fs.clock, rfl, own, Keeps.refl ..⟩
  · rw [if_pos (by have := inside.1; omega)]
    obtain ⟨m, t, undone, sets⟩ := fatSetEntry_ok ok geo fs (inside.listed geo) (inside.small geo)
      (x := 0) (by decide)
    exact ⟨m, t, undone, own.entry geo sets unowned fun _ => inside.2⟩

theorem Reserved.chain {c : Nat} (reserved : Reserved v clusters obj cs m c) :
    ∃ ds, IsChain v clusters m c ds ∧ ∀ c' ∈ ds, ∀ o e, obj o = some e → c' ∉ cs o := by
  rcases reserved with rfl | ⟨inside, mark, unowned⟩
  · exact ⟨[], ⟨⟨0, rfl, Or.inl ⟨rfl, by decide⟩⟩, nofun, List.nodup_nil⟩, nofun⟩
  · refine ⟨[c], IsChain.single mark inside, fun c' member => ?_⟩
    rw [List.mem_singleton.mp member]
    exact unowned

theorem Keeps.trans_none {m'' : Mem} (first : Keeps v obj none m m') (second : Keeps v obj none m' m'') :
    Keeps v obj none m m'' := first.trans second (fun _ _ => rfl) fun _ => rfl

/-- What `fat32_create_impl` does: the files and directories stay, and there may be a new one. -/
structure Created (v : Volume) (clusters : Nat) (closed : List Entry) (fs : State) (child : Option Nat) (fs' : State) :
    Prop where
  formed : WellFormed v clusters closed fs'
  keeps : Keeps v (objects fs.nodes closed) none fs.disk fs'.disk
  same : ∀ i, some i ≠ child → objects fs'.nodes closed (.inl i) = objects fs.nodes closed (.inl i)
  empty : ∀ i, child = some i → objects fs.nodes closed (.inl i) = none ∧
    ∃ e, objects fs'.nodes closed (.inl i) = some e ∧ e.isDir = false ∧ e.size = 0

theorem fat32CreateImpl_ok (ok : Reliable dev) (formed : WellFormed v clusters closed fs) (d : Nat) (name : List UInt8)
    {fuel : Nat} (enough : v.fatSize * entriesPerSec < fuel) :
    Safe (fat32CreateImpl dev v fuel fs d name) fun r => Created v clusters closed fs r.1 r.2 := by
  obtain ⟨geo, cs, own⟩ := formed
  have failed : ∀ {m t}, Owns v clusters (objects fs.nodes closed) cs m →
      Keeps v (objects fs.nodes closed) none fs.disk m → Created v clusters closed fs none (fs.after m t) :=
    fun own' keeps => ⟨⟨geo, cs, own'⟩, keeps, fun _ _ => rfl, fun _ made => by cases made⟩
  rw [fat32CreateImpl]
  cases found : fs.nodes[d]? with
  | none => exact Safe.ok (failed (t := fs.clock) own (Keeps.refl ..))
  | some dp =>
  refine Safe.ite (fun isDir => ?_) fun _ => Safe.ok (failed (t := fs.clock) own (Keeps.refl ..))
  have dir := objects_node found closed
  obtain ⟨c, m, t, allocated, allocates⟩ := fatAllocCluster_ok ok geo fs own.free
  obtain ⟨own₁, keeps₁, reserved⟩ := own.alloc geo allocates
  simp only [allocated]
  have ch := own₁.chains _ _ dir
  obtain ⟨last, path, ends⟩ := ch.path
  refine Safe.bind (fat32FindFreeDirent_ok ok geo fuel (fs.after m t) path ch.inside
    (ends.imp And.right And.right) (Nat.lt_of_le_of_lt (ch.length_le geo) enough)) ?_
  rintro ⟨place, _⟩ ⟨t₂, rfl, slots⟩
  cases place with
  | none =>
    obtain ⟨m₃, t₃, undone, own₃, keeps₃⟩ := undoAlloc_ok ok geo (fs.after m t₂) own₁ reserved
    refine Safe.ok ?_
    simp only [after_after, after_disk, undone] at *
    exact failed own₃ (keeps₁.trans_none keeps₃)
  | some place =>
    obtain ⟨ds, doff⟩ := place
    obtain ⟨slot, free⟩ := slots ds doff rfl
    -- the entry was free, so it belongs to nothing without a node
    have apart : ∀ j e, objects fs.nodes closed (.inr j) = some e → e.direntSector ≠ 0 →
        slotAddr e ≠ ds * sectorSize + doff := by
      intro j e found' real same
      obtain ⟨_, first, second, _⟩ := own₁.used j e found' real
      rw [same] at first second
      exact free.elim first second
    simp only [readBlocks_ok ok, writeBlocks_ok ok, after_after, after_disk, after_clock]
    obtain ⟨own₂, keeps₂⟩ := own₁.dirent geo (x := ⟨false, c, 0, ds, doff⟩) dir isDir (slot _ rfl rfl)
      (paste_agreeOff (n := 1 * sectorSize) (putDirent_agreeOff (fun i => m (ds * sectorSize + i)) doff
        (Nat.le_of_eq (nameTo83_length name)) attrArchive c)) apart
    have reserved : Reserved v clusters (objects fs.nodes closed) cs (paste m (ds * sectorSize) (1 * sectorSize)
        (putDirent (fun i => m (ds * sectorSize + i)) doff (nameTo83 name) attrArchive c)) c := by
      refine reserved.imp_right ?_
      rintro ⟨inside, mark, unowned⟩
      refine ⟨inside, ?_, unowned⟩
      obtain ⟨c', _, s, _, _, _, sector, _⟩ := slot ⟨false, c, 0, ds, doff⟩ rfl rfl
      have sector : ds = v.clusterBeginLba + (c' - 2) * v.sectorsPerCluster + s := sector
      rwa [entry_paste geo _ _ (inside.listed geo) (Nat.mul_le_mul_right _ (by omega))]
    generalize written : paste m (ds * sectorSize) (1 * sectorSize)
      (putDirent (fun i => m (ds * sectorSize + i)) doff (nameTo83 name) attrArchive c) = m₂ at own₂ keeps₂ reserved ⊢
    obtain ⟨n, t₄, created, disk, objects₄⟩ :=
      createFat32Node_ok ok (fs.after m₂ (t₂ + 1 + 1)) name false c 0 ds doff
    rw [created]
    obtain ⟨disk₅, objects₅⟩ := dirAddChild_ok ok
      (({ fs.after m₂ (t₂ + 1 + 1) with nodes := fs.nodes ++ [n], clock := t₄ } : State).setDirent fs.nodes.length ds doff)
      closed d fs.nodes.length
    have objects₆ := objects₅.trans (objects₄ closed)
    have disk₆ : _ = m₂ := disk₅.trans disk
    have fresh : objects fs.nodes closed (.inl fs.nodes.length) = none := by simp [objects]
    obtain ⟨chain, isChain, unowned⟩ := reserved.chain
    have own₆ := own₂.insert (e := ⟨false, c, 0, ds, doff⟩) fresh isChain unowned
      (fun _ => ⟨Nat.zero_le _, Nat.two_pow_pos 32⟩) ⟨_, _, dir, isDir, slot _ rfl rfl⟩ apart
    refine Safe.ok ⟨⟨geo, Function.update cs (.inl fs.nodes.length) chain, ?_⟩, ?_, ?_, ?_⟩
    · dsimp only [after_nodes] at objects₆ disk₆ ⊢
      rw [objects₆, disk₆]
      exact own₆
    · rw [← disk₆] at keeps₂
      exact keeps₁.trans_none keeps₂
    · intro i other
      have ne : (Sum.inl i : Object) ≠ .inl fs.nodes.length := fun same => other (congrArg some (Sum.inl.inj same))
      exact (congrFun objects₆ (.inl i)).trans (Function.update_of_ne ne _ _)
    · rintro i ⟨rfl⟩
      exact ⟨fresh, _, (congrFun objects₆ _).trans (Function.update_self ..), rfl, rfl⟩

end RexOs.Fs
