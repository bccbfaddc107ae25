import RexOs.Fs.TarComplete

/-! Whether the initial file system stays inside its archive (`kernel/fs/tarfs.c`).

`tarfs_init` goes from header to header by the sizes in them and does not compare a size with what
is left of the archive. `tarfs_read` relies on the same size, and on a sum that can wrap.
-/

set_option autoImplicit false

namespace RexOs.Fs

open RexOs.Library

structure InMemory (address size : Nat) : Prop where
  upper : 2 ^ 63 ≤ address
  inside : address + size ≤ 2 ^ 64

/-- The addresses of the bytes that `tarfs_read` copies. -/
def readFrom (node : TarfsNode) (offset len : UInt64) : List Nat :=
  (List.range (Arch.tarfsRead node.length offset.toNat len.toNat)).map fun i => node.ptr + offset.toNat + i

section
variable (granted : Nat → Bool) (m : Mem) (address size : Nat)

inductive Scans : Nat → Tarfs → Nat → Tarfs → Prop where
  | here {offset : Nat} {s : Tarfs} : Scans offset s offset s
  | next {offset offset' : Nat} {s s' s'' : Tarfs} : offset < size → m (address + offset) ≠ 0 →
      tarfsEntry granted m s (address + offset) = (true, s') →
      Scans ((offset + entrySize (dataSize m (address + offset))) % 2 ^ 64) s' offset' s'' → Scans offset s offset' s''

structure Inspects (offset : Nat) (s : Tarfs) : Prop where
  root : granted 0 = true
  scans : Scans granted m address size 0 ⟨[], 1⟩ offset s
  below : offset < size

structure Adds (s : Tarfs) (header : Nat) : Prop where
  named : m header ≠ 0
  file : typeflag m header = 48 ∨ typeflag m header = 0
  memory : granted s.allocs = true
  room : (tarfsEnsureParents granted { s with allocs := s.allocs + 1 }
    (cString (fieldBytes m (nameAt m header) 127))).nodes.length < tarfsMaxNodes

/-- A file whose header is at `offset` has a node. -/
def Registers (offset : Nat) : Prop := ∃ s, Inspects granted m address size offset s ∧ Adds granted m s (address + offset)

/-- The scan ends, the headers it looks at lie in the archive, and so does all that a read returns. -/
structure Confined (offset len : UInt64) : Prop where
  ends : ∃ fuel result, tarfsInit granted m fuel address size = some result
  headers : ∀ place s, Inspects granted m address size place s → place + 512 ≤ size
  reads : ∀ fuel s, tarfsInit granted m fuel address size = some (some s) → ∀ node ∈ fileNodes s.nodes,
    ∀ a ∈ readFrom node offset len, address ≤ a ∧ a < address + size

/-- No header begins in an incomplete last block, and the part of each file that is asked for is in the archive,
up to an end that does not wrap. -/
structure ArchiveFits (offset len : UInt64) : Prop where
  blocks : 512 ∣ size ∨ ∀ s, ¬ Inspects granted m address size (size / 512 * 512) s
  data : ∀ place, Registers granted m address size place → offset.toNat < dataSize m (address + place) →
    offset.toNat + len.toNat < 2 ^ 64 ∧
      (len = 0 ∨ place + 512 + min (offset.toNat + len.toNat) (dataSize m (address + place)) ≤ size)

end

section
variable {granted : Nat → Bool} {m : Mem} {address size : Nat} {s : Tarfs} {header : Nat}

theorem octalToInt_lt (bytes : List UInt8) : octalToInt bytes < 8 ^ bytes.length := by
  have bound : ∀ n, bytes.foldl (fun n c => if 48 ≤ c ∧ c ≤ 55 then n * 8 + (c.toNat - 48) else n) n <
      (n + 1) * 8 ^ bytes.length := by
    induction bytes with
    | nil =>
      intro n
      rw [List.length_nil, Nat.pow_zero, Nat.mul_one]
      exact Nat.lt_succ_self n
    | cons c bytes ih =>
      intro n
      rw [List.foldl_cons, List.length_cons, Nat.pow_succ', ← Nat.mul_assoc]
      split
      · rename_i digit
        have low := UInt8.le_iff_toNat_le.mp digit.2
        have seven : (55 : UInt8).toNat = 55 := rfl
        exact Nat.lt_of_lt_of_le (ih _) (Nat.mul_le_mul_right _ (by omega))
      · exact Nat.lt_of_lt_of_le (ih _) (Nat.mul_le_mul_right _ (by omega))
  have start := bound 0
  rw [Nat.zero_add, Nat.one_mul] at start
  exact start

theorem dataSize_lt (m : Mem) (header : Nat) : dataSize m header < 2 ^ 33 := by
  have bound := octalToInt_lt (fieldBytes m (header + 124) 11)
  rw [fieldBytes_length] at bound
  exact bound

theorem entrySize_le (header : Nat) : 512 ≤ entrySize (dataSize m header) ∧ entrySize (dataSize m header) < 2 ^ 33 + 1024 := by
  have small := dataSize_lt m header
  unfold entrySize
  omega

theorem tarfsEntry_adds (adds : Adds granted m s header) : ∃ s' node, tarfsEntry granted m s header = (true, s') ∧
    fileNodes s'.nodes = fileNodes s.nodes ++ [node] ∧ node.ptr = header + 512 ∧ node.length = dataSize m header := by
  have other : ¬ typeflag m header = 53 := by
    intro same
    rcases adds.file with flag | flag
    · rw [flag] at same
      cases same
    · rw [flag] at same
      cases same
  rw [tarfsEntry, if_neg other, if_pos adds.file, if_neg (by rw [adds.memory]; exact Bool.noConfusion)]
  simp only [if_pos adds.room]
  refine ⟨_, ⟨cString (fieldBytes m (nameAt m header) 127), false, s.nodes.length, dataSize m header, header + 512⟩, rfl,
    ?_, rfl, rfl⟩
  rw [fileNodes_push, tarfsEnsureParents_files]
  rfl

theorem tarfsEntry_other (named : m header ≠ 0) (other : ¬ Adds granted m s header) :
    fileNodes (tarfsEntry granted m s header).2.nodes = fileNodes s.nodes := by
  unfold tarfsEntry
  split
  · simp only
    split
    · exact tarfsEnsureDir_files _
    · rfl
  split
  · rename_i file
    split
    · rfl
    rename_i memory
    have full : ¬ (tarfsEnsureParents granted { s with allocs := s.allocs + 1 }
        (cString (fieldBytes m (nameAt m header) 127))).nodes.length < tarfsMaxNodes := by
      intro room
      exact other ⟨named, file, by simpa using memory, room⟩
    simp only [if_neg full]
    exact tarfsEnsureParents_files _
  · rfl

theorem tarfsEntry_keeps (named : m header ≠ 0) : ∀ node ∈ fileNodes s.nodes,
    node ∈ fileNodes (tarfsEntry granted m s header).2.nodes := by
  intro node member
  by_cases adds : Adds granted m s header
  · obtain ⟨s', new, entry, files, _⟩ := tarfsEntry_adds adds
    rw [entry, files]
    exact List.mem_append_left _ member
  · rw [tarfsEntry_other named adds]
    exact member

theorem Scans.block {offset offset' : Nat} {s' : Tarfs} (scans : Scans granted m address size offset s offset' s')
    (block : 512 ∣ offset) : 512 ∣ offset' := by
  induction scans with
  | here => exact block
  | next _ _ _ _ ih =>
    apply ih
    unfold entrySize
    omega

theorem tarfsLoop_ends (granted : Nat → Bool) (m : Mem) (address : Nat) (small : size ≤ 2 ^ 63) (fuel : Nat) : ∀ (offset : Nat) (s : Tarfs), size ≤ offset + fuel →
    ∃ s', tarfsLoop granted m address size (fuel + 1) offset s = some s' := by
  induction fuel with
  | zero =>
    intro offset s enough
    exact ⟨s, if_neg (by omega)⟩
  | succ fuel ih =>
    intro offset s enough
    rw [tarfsLoop]
    by_cases below : offset < size
    · rw [if_pos below]
      by_cases last : m (address + offset) = 0
      · rw [if_pos last]
        exact ⟨s, rfl⟩
      · rw [if_neg last]
        obtain ⟨low, high⟩ := entrySize_le (m := m) (address + offset)
        obtain ⟨more, s'⟩ := tarfsEntry granted m s (address + offset)
        cases more with
        | false => exact ⟨s', rfl⟩
        | true => exact ih _ s' (by omega)
    · rw [if_neg below]
      exact ⟨s, rfl⟩

theorem tarfsLoop_files (fuel : Nat) : ∀ (offset : Nat) (s last : Tarfs),
    tarfsLoop granted m address size fuel offset s = some last → ∀ node ∈ fileNodes last.nodes, node ∈ fileNodes s.nodes ∨
      ∃ place t, Scans granted m address size offset s place t ∧ place < size ∧ Adds granted m t (address + place) ∧
        node.ptr = address + place + 512 ∧ node.length = dataSize m (address + place) := by
  induction fuel with
  | zero =>
    intro offset s last ended
    cases ended
  | succ fuel ih =>
    intro offset s last ended node member
    rw [tarfsLoop] at ended
    by_cases below : offset < size
    · rw [if_pos below] at ended
      by_cases stop : m (address + offset) = 0
      · rw [if_pos stop] at ended
        cases ended
        exact Or.inl member
      rw [if_neg stop] at ended
      -- a node that is there after this header was there before, or is the one of this header
      have now : node ∈ fileNodes (tarfsEntry granted m s (address + offset)).2.nodes → node ∈ fileNodes s.nodes ∨
          ∃ place t, Scans granted m address size offset s place t ∧ place < size ∧ Adds granted m t (address + place) ∧
            node.ptr = address + place + 512 ∧ node.length = dataSize m (address + place) := by
        intro there
        by_cases adds : Adds granted m s (address + offset)
        · obtain ⟨s', new, entry, files, start, length⟩ := tarfsEntry_adds adds
          rw [entry, files] at there
          rcases List.mem_append.mp there with before | added
          · exact Or.inl before
          · rw [List.mem_singleton.mp added]
            exact Or.inr ⟨offset, s, Scans.here, below, adds, start, length⟩
        · rw [tarfsEntry_other stop adds] at there
          exact Or.inl there
      cases entry : tarfsEntry granted m s (address + offset) with
      | mk more s' =>
        rw [entry] at ended now
        cases more with
        | false =>
          cases ended
          exact now member
        | true =>
          rcases ih _ s' last ended node member with before | ⟨place, t, scans, rest⟩
          · exact now before
          · exact Or.inr ⟨place, t, Scans.next below stop entry scans, rest⟩
    · rw [if_neg below] at ended
      cases ended
      exact Or.inl member

theorem Scans.registered {offset place : Nat} {t : Tarfs} (scans : Scans granted m address size offset s place t)
    (below : place < size) (adds : Adds granted m t (address + place)) : ∀ (fuel : Nat) (last : Tarfs),
    tarfsLoop granted m address size fuel offset s = some last → ∃ node ∈ fileNodes last.nodes,
      node.ptr = address + place + 512 ∧ node.length = dataSize m (address + place) := by
  induction scans with
  | here =>
    intro fuel last ended
    cases fuel with
    | zero => cases ended
    | succ fuel =>
      obtain ⟨s', node, entry, files, rest⟩ := tarfsEntry_adds adds
      rw [tarfsLoop, if_pos below, if_neg adds.named, entry] at ended
      refine ⟨node, tarfsLoop_induct (fun s => node ∈ fileNodes s.nodes)
        (fun _ _ named => tarfsEntry_keeps named node) ended ?_, rest⟩
      rw [files]
      exact List.mem_append_right _ (List.mem_singleton_self node)
  | next inside named entry _ ih =>
    intro fuel last ended
    cases fuel with
    | zero => cases ended
    | succ fuel =>
      rw [tarfsLoop, if_pos inside, if_neg named, entry] at ended
      exact ih below adds fuel last ended

theorem tarfsInit_some {fuel : Nat} {last : Tarfs} : tarfsInit granted m fuel address size = some (some last) ↔
    granted 0 = true ∧ tarfsLoop granted m address size fuel 0 ⟨[], 1⟩ = some last := by
  rw [tarfsInit]
  cases root : granted 0 with
  | false =>
    rw [if_pos rfl]
    constructor
    · intro same
      cases same
    · intro same
      cases same.1
  | true =>
    rw [if_neg Bool.noConfusion, Option.map_eq_some_iff]
    constructor
    · rintro ⟨s, ended, same⟩
      cases same
      exact ⟨rfl, ended⟩
    · intro ended
      exact ⟨last, ended.2, rfl⟩

theorem readFrom_below {node : TarfsNode} {base place top : Nat} {offset len : UInt64} (start : node.ptr = base + place)
    (room : base + top ≤ 2 ^ 64) (some_ : 0 < place) :
    (∀ a ∈ readFrom node offset len, base ≤ a ∧ a < base + top) ↔ (offset.toNat < node.length →
      offset.toNat + len.toNat < 2 ^ 64 ∧ (len = 0 ∨ place + min (offset.toNat + len.toNat) node.length ≤ top)) := by
  have low := offset.toNat_lt
  have wide := len.toNat_lt
  have count : (∀ a ∈ readFrom node offset len, base ≤ a ∧ a < base + top) ↔
      Arch.tarfsRead node.length offset.toNat len.toNat = 0 ∨
        place + offset.toNat + Arch.tarfsRead node.length offset.toNat len.toNat ≤ top := by
    simp only [readFrom, List.mem_map, List.mem_range, start]
    generalize Arch.tarfsRead node.length offset.toNat len.toNat = n
    constructor
    · intro inside
      rcases Nat.eq_zero_or_pos n with none | more
      · exact Or.inl none
      · have last := inside (base + place + offset.toNat + (n - 1)) ⟨n - 1, by omega, rfl⟩
        omega
    · rintro inside a ⟨i, below, rfl⟩
      omega
  have zero : len = 0 ↔ len.toNat = 0 := by
    rw [← UInt64.toNat_inj]
    rfl
  rw [count, zero, Arch.tarfsRead]
  generalize offset.toNat = offset at *
  generalize len.toNat = len at *
  -- `tarfs_read` returns 0 behind the file, and compares the wrapped sum with the length before it
  rcases Nat.lt_or_ge offset node.length with inside | behind
  · rw [if_neg (by omega)]
    rcases Nat.lt_or_ge (offset + len) (2 ^ 64) with fits | wraps
    · rw [Nat.mod_eq_of_lt fits]
      split <;> omega
    · -- the sum is small again, so `len` is not cut, and the read goes on past the address space
      have sum : (offset + len) % 2 ^ 64 = offset + len - 2 ^ 64 := by omega
      rw [sum, if_neg (by omega)]
      omega
  · rw [if_pos behind]
    omega

/-- The archive confines the scan and a read when its last block is whole, or never begun, and each file that
is registered has in the archive what is asked for. -/
theorem tarfs_confined (granted : Nat → Bool) (m : Mem) (memory : InMemory address size) (offset len : UInt64) :
    Confined granted m address size offset len ↔ ArchiveFits granted m address size offset len := by
  obtain ⟨upper, inside⟩ := memory
  have aligned : ∀ {place s}, Inspects granted m address size place s → 512 ∣ place := by
    intro place s inspects
    exact inspects.scans.block (Nat.dvd_zero 512)
  obtain ⟨last, done⟩ := tarfsLoop_ends granted m address (show size ≤ 2 ^ 63 by omega) size 0 ⟨[], 1⟩ (by omega)
  constructor
  · rintro ⟨⟨fuel, result, ended⟩, headers, reads⟩
    refine ⟨?_, ?_⟩
    · by_cases whole : 512 ∣ size
      · exact Or.inl whole
      · refine Or.inr fun s inspects => ?_
        have fits := headers _ s inspects
        omega
    · rintro place ⟨s, inspects, adds⟩
      obtain ⟨node, member, start, length⟩ := inspects.scans.registered inspects.below adds _ last done
      have bytes := reads _ last (tarfsInit_some.mpr ⟨inspects.root, done⟩) node member
      rw [Nat.add_assoc] at start
      rw [readFrom_below start inside (Nat.succ_pos _), length] at bytes
      exact bytes
  · rintro ⟨blocks, data⟩
    refine ⟨?_, ?_, ?_⟩
    · refine ⟨size + 1, if granted 0 = false then none else some last, ?_⟩
      rw [tarfsInit, done]
      split <;> rfl
    · intro place s inspects
      -- only the header that begins in an incomplete last block is not whole
      have block := aligned inspects
      have below := inspects.below
      rcases blocks with whole | stops
      · omega
      · have other : place ≠ size / 512 * 512 := fun same => stops s (same ▸ inspects)
        omega
    · intro fuel last ended node member
      obtain ⟨root, done⟩ := tarfsInit_some.mp ended
      rcases tarfsLoop_files fuel 0 ⟨[], 1⟩ last done node member with before | ⟨place, s, scans, below, adds, start, length⟩
      · cases before
      · have bytes := data place ⟨s, ⟨root, scans, below⟩, adds⟩
        rw [← length] at bytes
        rw [Nat.add_assoc] at start
        exact (readFrom_below start inside (Nat.succ_pos _)).mpr bytes

end

/-- The header of the file `a`, at the start of the upper half. -/
def byteFileMem : Mem := fun i =>
  if i = 2 ^ 63 then 97 else if 2 ^ 63 + 100 ≤ i ∧ i < 2 ^ 63 + 134 ∨ i = 2 ^ 63 + 156 then 48 else if i = 2 ^ 63 + 134 then 49 else 0

theorem byteFile_size : dataSize byteFileMem (2 ^ 63) = 1 := by decide +kernel

theorem byteFile_scan {size place : Nat} {s : Tarfs} (small : size ≤ 1024)
    (inspects : Inspects (fun _ => true) byteFileMem (2 ^ 63) size place s) : place = 0 := by
  have all : ∀ {offset place' : Nat} {t t' : Tarfs}, Scans (fun _ => true) byteFileMem (2 ^ 63) size offset t place' t' →
      offset = 0 ∨ size ≤ offset → place' = 0 ∨ size ≤ place' := by
    intro offset place' t t' scans
    induction scans with
    | here => exact id
    | next below _ _ _ ih =>
      intro start
      refine ih (Or.inr ?_)
      rcases start with rfl | behind
      · rw [Nat.add_zero, byteFile_size]
        exact small
      · omega
  exact (all inspects.scans (Or.inl rfl)).resolve_right (Nat.not_le.mpr inspects.below)

/-- With its data the file is confined. -/
theorem tarfs_confined_byteFile : InMemory (2 ^ 63) 1024 ∧ Confined (fun _ => true) byteFileMem (2 ^ 63) 1024 0 5 := by
  have memory : InMemory (2 ^ 63) 1024 := ⟨Nat.le_refl _, by decide⟩
  refine ⟨memory, (tarfs_confined (fun _ => true) byteFileMem memory 0 5).mpr ⟨Or.inl (by decide), ?_⟩⟩
  rintro place ⟨s, inspects, _⟩ _
  have one : dataSize byteFileMem (2 ^ 63 + 0) = 1 := byteFile_size
  rw [byteFile_scan (Nat.le_refl _) inspects, one]
  exact ⟨by decide, Or.inr (by decide)⟩

/-- Without its data the file has the same node, and a read goes on behind the archive. -/
theorem truncated_not_confined : InMemory (2 ^ 63) 512 ∧ ¬ Confined (fun _ => true) byteFileMem (2 ^ 63) 512 0 1 := by
  refine ⟨⟨Nat.le_refl _, by decide⟩, fun confined => ?_⟩
  have loaded : tarfsInit (fun _ => true) byteFileMem 2 (2 ^ 63) 512 =
      some (some ⟨[⟨[97], false, 0, 1, 2 ^ 63 + 512⟩], 2⟩) := rfl
  have first : 2 ^ 63 + 512 ∈ readFrom ⟨[97], false, 0, 1, 2 ^ 63 + 512⟩ 0 1 := by decide
  have inside := confined.reads 2 _ loaded _ List.mem_cons_self _ first
  omega

end RexOs.Fs
