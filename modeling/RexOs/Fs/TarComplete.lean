import RexOs.Fs.TarIndexed

/-! Which archives `tarfs_init` indexes completely, and which ranges `tarfs_read` reads exactly.

A header must have its whole path in the name field, with a zero behind it. The prefix field is not
read, and a name of 100 bytes goes on into the mode of the file.
-/

set_option autoImplicit false

namespace RexOs.Fs

open RexOs.Library

section
variable {m : Mem} {a n k : Nat}

theorem fieldBytes_drop (m : Mem) (a n k : Nat) : (fieldBytes m a n).drop k = fieldBytes m (a + k) (n - k) := by
  rcases Nat.le_total k n with inside | outside
  · have whole := fieldBytes_append m a k (n - k)
    rw [Nat.add_sub_cancel' inside] at whole
    rw [whole, List.drop_left' (fieldBytes_length m a k)]
  · rw [List.drop_of_length_le (by simpa using outside), Nat.sub_eq_zero_of_le outside]
    rfl

theorem fieldBytes_take (inside : k ≤ n) : (fieldBytes m a n).take k = fieldBytes m a k := by
  have whole := fieldBytes_append m a k (n - k)
  rw [Nat.add_sub_cancel' inside] at whole
  rw [whole, List.take_left' (fieldBytes_length m a k)]

theorem tarfsReadNode_exact {node : TarfsNode} (small : node.length < 2 ^ 64) (offset size : UInt64) :
    tarfsReadNode m node offset.toNat size.toNat =
        ((fieldBytes m node.ptr node.length).drop offset.toNat).take size.toNat ↔
      node.length ≤ offset.toNat ∨ offset.toNat + size.toNat < 2 ^ 64 := by
  have low := offset.toNat_lt
  have wide := size.toNat_lt
  rw [fieldBytes_drop, tarfsReadNode, Arch.tarfsRead]
  generalize offset.toNat = offset at *
  generalize size.toNat = size at *
  rcases Nat.lt_or_ge offset node.length with inside | behind
  · rw [if_neg (by omega)]
    rcases Nat.lt_or_ge (offset + size) (2 ^ 64) with fits | wraps
    · refine iff_of_true ?_ (Or.inr fits)
      rw [Nat.mod_eq_of_lt fits]
      split
      · rw [List.take_of_length_le (by rw [fieldBytes_length]; omega)]
      · rw [fieldBytes_take (by omega)]
    · refine iff_of_false (fun same => ?_) (by omega)
      have sum : (offset + size) % 2 ^ 64 = offset + size - 2 ^ 64 := by omega
      have count := congrArg List.length same
      rw [sum, if_neg (by omega), fieldBytes_length, List.length_take, fieldBytes_length] at count
      omega
  · rw [if_pos behind, Nat.sub_eq_zero_of_le behind]
    simp [fieldBytes, behind]

end

theorem ArchiveAt.size_lt {m : Mem} {address size offset : Nat} {entries : List TarEntry}
    (archive : ArchiveAt m address size offset entries) : ∀ e ∈ entries, e.size < 2 ^ 64 := by
  induction entries generalizing offset with
  | nil => simp
  | cons e rest ih =>
    obtain ⟨-, -, small, more⟩ := archive
    intro e' member
    rcases List.mem_cons.mp member with rfl | later
    · rw [entrySize] at small
      omega
    · exact ih more e' later

theorem forall_placed (address offset : Nat) {entries : List TarEntry} (p : TarEntry → Prop) :
    (∀ q ∈ placed address offset entries, p q.2) ↔ ∀ e ∈ entries, p e := by
  conv_rhs => rw [← map_placed address offset entries]
  rw [List.forall_mem_map]

section
variable {granted : Nat → Bool} {m : Mem} {address size fuel : Nat} {entries : List TarEntry}

def registered (granted : Nat → Bool) (m : Mem) (address : Nat) (entries : List TarEntry) : List TarfsNode :=
  ((placed address 0 entries).foldl (fun s p => (tarfsEntry granted m s p.1).2) (⟨[], 1⟩ : Tarfs)).nodes

theorem tarfsInit_archive (archive : ArchiveAt m address size 0 entries) (memory : ∀ n, granted n = true)
    (enough : entries.length < fuel) :
    ∃ s, tarfsInit granted m fuel address size = some (some s) ∧ s.nodes = registered granted m address entries := by
  refine ⟨_, ?_, rfl⟩
  rw [tarfsInit, if_neg (by simp [memory]), tarfsLoop_archive archive memory enough]
  rfl

theorem registered_files (archive : ArchiveAt m address size 0 entries) (memory : ∀ n, granted n = true) :
    ((fileNodes (registered granted m address entries)).map TarfsNode.file).Sublist
      ((filesOf (placed address 0 entries)).map (readFile m)) :=
  files_in_order memory archive.header ⟨[], 1⟩

theorem Indexed.short (archive : ArchiveAt m address size 0 entries) (memory : ∀ n, granted n = true)
    (indexed : Indexed address entries (registered granted m address entries)) : ∀ e ∈ entries, e.isDir = false → e.Short := by
  -- The files read are a sublist of those in the archive; with as many of them, none was cut.
  have found := registered_files archive memory
  rw [indexed.files] at found
  have same := found.eq_of_length (by simp)
  rw [List.map_inj_left] at same
  refine (forall_placed address 0 fun e => e.isDir = false → e.Short).mp fun q member file => ?_
  have name := congrArg Prod.fst (same q (List.mem_filter.mpr ⟨member, by simp [file]⟩))
  exact ((archive.header q member).file_name file (by decide : 100 < 127) (by decide)).mp name.symm

theorem registered_tracks (archive : ArchiveAt m address size 0 entries) (distinct : DistinctPaths entries) (within : InLimit entries)
    (memory : ∀ n, granted n = true) (short : ∀ e ∈ entries, e.Short) :
    Tracks ((filesOf (placed address 0 entries)).map fun p => (p.2.path, p.2.size, p.1 + 512)) (Registered entries)
      (registered granted m address entries) := by
  have start : Tracks ((filesOf []).map (readFile m)) (Registered (([] : List (Nat × TarEntry)).map Prod.snd)) (⟨[], 1⟩ : Tarfs).nodes :=
    ⟨rfl, List.nodup_nil, fun dir => by simp [dirNames, Registered]⟩
  have headers := archive.header
  have all := archive_tracks memory headers ((forall_placed address 0 _).mpr short) (by rwa [map_placed]) (by rwa [map_placed]) rfl start
  rw [map_placed] at all
  -- A short header is read back as the path of its entry.
  have names : (filesOf (placed address 0 entries)).map (readFile m) =
      (filesOf (placed address 0 entries)).map fun p => (p.2.path, p.2.size, p.1 + 512) := by
    refine List.map_congr_left fun p member => ?_
    obtain ⟨inside, file⟩ := List.mem_filter.mp member
    have file : p.2.isDir = false := by simpa using file
    rw [readFile, ((headers p inside).file_name file (by decide : 100 < 127) (by decide)).mpr
      ((forall_placed address 0 _).mpr short p inside)]
  rw [← names]
  exact all

/-- The archive is indexed just when its files have short headers, and the parents of its listed
directories are covered; directories with long headers aside. Reads are exact unless they wrap. -/
theorem archive_indexed (archive : ArchiveAt m address size 0 entries) (distinct : DistinctPaths entries) (within : InLimit entries)
    (memory : ∀ n, granted n = true) (enough : entries.length < fuel) :
    ∃ s, tarfsInit granted m fuel address size = some (some s) ∧
      ((∀ e ∈ entries, e.Short) ∧ ParentsCovered entries → Indexed address entries s.nodes) ∧
      (Indexed address entries s.nodes → (∀ e ∈ entries, e.isDir = false → e.Short) ∧
        ((∀ e ∈ entries, e.isDir = true → e.Short) → ParentsCovered entries)) ∧
      ∀ node ∈ fileNodes s.nodes, ∀ offset n : UInt64,
        tarfsReadNode m node offset.toNat n.toNat = ((fieldBytes m node.ptr node.length).drop offset.toNat).take n.toNat ↔
          node.length ≤ offset.toNat ∨ offset.toNat + n.toNat < 2 ^ 64 := by
  obtain ⟨s, loaded, nodes⟩ := tarfsInit_archive archive memory enough
  refine ⟨s, loaded, ?_, ?_, ?_⟩ <;> rw [nodes]
  · rintro ⟨short, covered⟩
    obtain ⟨files, once, dirs⟩ := registered_tracks archive distinct within memory short
    exact ⟨files, once, fun dir => (dirs dir).trans (registered_iff.mpr covered dir)⟩
  · intro indexed
    have files := indexed.short archive memory
    refine ⟨files, fun shortDirs => registered_iff.mp fun dir => ?_⟩
    have short : ∀ e ∈ entries, e.Short := fun e member => by
      cases isDir : e.isDir with
      | false => exact files e member isDir
      | true => exact shortDirs e member isDir
    exact ((registered_tracks archive distinct within memory short).dirs dir).symm.trans (indexed.dirs dir)
  · -- The length of a node was in a size field, so it is small.
    intro node member
    refine tarfsReadNode_exact ?_
    have listed := (registered_files archive memory).subset (List.mem_map_of_mem member)
    obtain ⟨p, inside, same⟩ := List.mem_map.mp listed
    have length : node.length = p.2.size := congrArg (fun file => file.2.1) same.symm
    rw [length]
    exact (forall_placed address 0 fun e => e.size < 2 ^ 64).mpr archive.size_lt p (List.mem_of_mem_filter inside)

end

def emptyEntry (name : List UInt8) : TarEntry := ⟨false, false, false, [], name, 0⟩

def emptyEntryMem (name : List UInt8) : Mem := fun i =>
  if i < 100 then name.getD i 0 else if i < 135 ∨ i = 156 then 48 else 0

theorem emptyEntry_archive {name : List UInt8} (fits : name.length ≤ 100) (plain : ∀ c ∈ name, c ≠ 0) (path : PathText name) :
    ArchiveAt (emptyEntryMem name) 0 512 0 [emptyEntry name] := by
  have text : (emptyEntry name).nameField = name := by simp [TarEntry.nameField, emptyEntry]
  have bytes (i : Nat) (inside : i < 100) : emptyEntryMem name i = name.getD i 0 := if_pos inside
  have digit (i : Nat) (low : 100 ≤ i) (high : i < 135) : emptyEntryMem name i = 48 := by
    rw [emptyEntryMem, if_neg (by omega), if_pos (Or.inl high)]
  have whole : entrySize (emptyEntry name).size = 512 := by simp [entrySize, emptyEntry]
  refine ⟨by decide, ⟨?_, ?_, ?_, ?_, ?_, ?_, ?_, ?_, ?_⟩, by rw [whole]; decide, Or.inl (by rw [whole])⟩
  · rw [text, Nat.zero_add]
    refine ⟨fits, List.ext_getElem (fieldBytes_length _ _ _) fun i low high => ?_, fun short => ?_, plain⟩
    · simp [fieldBytes, bytes i (by omega), high]
    · rw [Nat.zero_add, bytes _ short]
      simp
  · intro i low high
    rw [Nat.zero_add, digit i low (by omega)]
    exact Or.inr (Or.inr (by decide +kernel))
  · rw [Nat.zero_add, digit 100 (by decide) (by decide)]
    decide
  · refine ⟨[], List.replicate 11 48, [0], rfl, by simp, ?_, by simp, by simp, rfl⟩
    intro c member
    rw [List.eq_of_mem_replicate member]
    decide +kernel
  · exact Or.inl rfl
  · have none : (emptyEntry name).prefixField = [] := rfl
    rw [none]
    exact ⟨by decide, rfl, fun _ => rfl, by simp⟩
  · exact Or.inl path
  · simp [emptyEntry]
  · simp [emptyEntry]

theorem emptyEntry_distinct (name : List UInt8) : DistinctPaths [emptyEntry name] := by
  refine ⟨List.nodup_singleton _, fun f file _ e member parent => ?_⟩
  rw [List.mem_singleton.mp file, List.mem_singleton.mp member] at parent
  obtain ⟨-, rest, same⟩ := parent
  have count := congrArg List.length same
  rw [List.length_append, List.length_cons] at count
  omega

theorem emptyEntry_within {name : List UInt8} (fits : name.length ≤ 100) : InLimit [emptyEntry name] := by
  refine ⟨(List.range name.length).map name.take, fun dir required => ?_, ?_⟩
  · rcases required with ⟨-, e, member, isDir, -⟩ | ⟨e, member, parent⟩
    · rw [List.mem_singleton.mp member] at isDir
      cases isDir
    · rw [List.mem_singleton.mp member] at parent
      obtain ⟨-, i, inside, -, same⟩ := parent_iff.mp parent
      exact List.mem_map.mpr ⟨i, List.mem_range.mpr inside, same⟩
  · have one : ([emptyEntry name].filter fun e => !e.isDir).length = 1 := rfl
    rw [one, List.length_map, List.length_range, tarfsMaxNodes]
    omega

/-- `a/b`: a file, and the directory that is its parent. -/
theorem archive_indexed_a_b : ∃ s, tarfsInit (fun _ => true) (emptyEntryMem [97, slash, 98]) 2 0 512 = some (some s) ∧
    Indexed 0 [emptyEntry [97, slash, 98]] s.nodes := by
  have path : PathText [97, slash, 98] := ⟨by simp, by decide +kernel, by decide +kernel, by decide +kernel⟩
  obtain ⟨s, loaded, indexed, -⟩ := @archive_indexed (fun _ => true) _ 0 512 2 _
    (emptyEntry_archive (by decide +kernel) (by decide +kernel) path) (emptyEntry_distinct _) (emptyEntry_within (by decide +kernel)) (fun _ => rfl) (by decide)
  refine ⟨s, loaded, indexed ⟨fun e member => ?_, fun e member isDir => ?_⟩⟩
  · rw [List.mem_singleton.mp member]
    exact ⟨rfl, by decide +kernel⟩
  · rw [List.mem_singleton.mp member] at isDir
    cases isDir

/-- A name that fills its field goes on into the mode of the file. -/
theorem long_name_not_indexed :
    ArchiveAt (emptyEntryMem (List.replicate 100 97)) 0 512 0 [emptyEntry (List.replicate 100 97)] ∧
      DistinctPaths [emptyEntry (List.replicate 100 97)] ∧ InLimit [emptyEntry (List.replicate 100 97)] ∧
      ∀ fuel, 1 < fuel → ∃ s, tarfsInit (fun _ => true) (emptyEntryMem (List.replicate 100 97)) fuel 0 512 = some (some s) ∧
        ¬Indexed 0 [emptyEntry (List.replicate 100 97)] s.nodes := by
  have path : PathText (List.replicate 100 97) := by
    refine ⟨by simp, by simp [slash], by simp [slash], by simp, ?_⟩
    rintro ⟨tail, same⟩
    have first := congrArg List.head? same
    simp [dotSlash, dot] at first
  have archive := emptyEntry_archive (by simp) (by simp) path
  refine ⟨archive, emptyEntry_distinct _, emptyEntry_within (by simp), fun fuel enough => ?_⟩
  obtain ⟨s, loaded, nodes⟩ := tarfsInit_archive archive (fun _ => rfl) enough
  refine ⟨s, loaded, fun indexed => ?_⟩
  rw [nodes] at indexed
  have short := (indexed.short archive (fun _ => rfl) _ List.mem_cons_self rfl).2
  simp [TarEntry.nameField, emptyEntry] at short

end RexOs.Fs
