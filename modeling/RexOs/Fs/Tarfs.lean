import RexOs.Fs.Vfs
import RexOs.Arch.Syscall
import Mathlib.Data.List.TakeWhile

/-! The initial file system, read from a tar archive in memory (`kernel/fs/tarfs.c`).

The archive is a sequence of 512-byte headers, each with its data behind it. `kzalloc` answers as
`granted` says, call by call.
-/

set_option autoImplicit false

namespace RexOs.Fs

open RexOs.Library

def tarfsMaxNodes : Nat := 256

/-- A `vfs_node_t` of the archive; `ptr` is the address of the data. -/
structure TarfsNode where
  name : List UInt8
  isDir : Bool
  inode : Nat
  length : Nat
  ptr : Nat
  deriving DecidableEq, Repr

/-- `tarfs_nodes` up to `tarfs_node_count`, and how often `kzalloc` was called. -/
structure Tarfs where
  nodes : List TarfsNode
  allocs : Nat

def fieldBytes (m : Mem) (a n : Nat) : List UInt8 := (List.range n).map fun i => m (a + i)

/-- `octal_to_int`: bytes that are no octal digits are skipped. -/
def octalToInt (bytes : List UInt8) : Nat :=
  bytes.foldl (fun n c => if 48 ≤ c ∧ c ≤ 55 then n * 8 + (c.toNat - 48) else n) 0

def tarfsReadNode (m : Mem) (node : TarfsNode) (offset size : Nat) : List UInt8 :=
  fieldBytes m (node.ptr + offset) (Arch.tarfsRead node.length offset size)

section
variable (granted : Nat → Bool) (m : Mem)

def tarfsEnsureDir (s : Tarfs) (path : List UInt8) : Tarfs :=
  if path = [] then s
  else if s.nodes.any fun node => node.name = path then s
  else if s.nodes.length ≥ tarfsMaxNodes then s
  else if granted s.allocs = false then { s with allocs := s.allocs + 1 }
  else
    { nodes := s.nodes ++ [{ name := path.take 127, isDir := true, inode := s.nodes.length, length := 0, ptr := 0 }]
      allocs := s.allocs + 1 }

def tarfsEnsureParents (s : Tarfs) (name : List UInt8) : Tarfs :=
  (List.range (min name.length 127)).foldl
    (fun s i => if name.getD i 0 = slash then tarfsEnsureDir granted s (name.take i) else s) s

/-- The name in a header, behind a leading `./`. -/
def nameAt (header : Nat) : Nat := if m header = dot ∧ m (header + 1) = slash then header + 2 else header

/-- `clean[n - 1] = 0` when the name ends in a slash. -/
def withoutSlash (name : List UInt8) : List UInt8 := if name.getLast? = some slash then name.dropLast else name

def typeflag (header : Nat) : UInt8 := m (header + 156)
def dataSize (header : Nat) : Nat := octalToInt (fieldBytes m (header + 124) 11)

/-- The part of the loop that registers an entry; `false` is out of memory. -/
def tarfsEntry (s : Tarfs) (header : Nat) : Bool × Tarfs :=
  if typeflag m header = 53 then
    let name := cString (fieldBytes m (nameAt m header) 128)
    (true, if 0 < name.length ∧ name.length < 128 then tarfsEnsureDir granted s (withoutSlash name) else s)
  else if typeflag m header = 48 ∨ typeflag m header = 0 then
    if granted s.allocs = false then (false, { s with allocs := s.allocs + 1 })
    else
      let name := cString (fieldBytes m (nameAt m header) 127)
      let inode := s.nodes.length
      let s := tarfsEnsureParents granted { s with allocs := s.allocs + 1 } name
      let node : TarfsNode :=
        { name := name, isDir := false, inode := inode, length := dataSize m header, ptr := header + 512 }
      (true, if s.nodes.length < tarfsMaxNodes then { s with nodes := s.nodes ++ [node] } else s)
  else (true, s)

def entrySize (size : Nat) : Nat := 512 + (size + 511) / 512 * 512

/-- `while (offset < size)`; `none` is a loop that is still running. -/
def tarfsLoop (address size : Nat) : Nat → Nat → Tarfs → Option Tarfs
  | 0, _, _ => none
  | fuel + 1, offset, s =>
      if offset < size then
        if m (address + offset) = 0 then some s
        else
          match tarfsEntry granted m s (address + offset) with
          | (false, s) => some s
          | (true, s) =>
              tarfsLoop address size fuel ((offset + entrySize (dataSize m (address + offset))) % 2 ^ 64) s
      else some s

/-- What is registered; without memory for the root there is no file system. -/
def tarfsInit (fuel address size : Nat) : Option (Option Tarfs) :=
  if granted 0 = false then some none else (tarfsLoop granted m address size fuel 0 ⟨[], 1⟩).map some

end

/-! A name of up to 100 bytes fills its field without a zero behind it. A longer path has its beginning
in the prefix field.
-/

def dotSlash : List UInt8 := [dot, slash]

/-- An entry of an archive: a regular file or a directory. Its path may be written with `./` in front,
and that of a directory with a slash behind. -/
structure TarEntry where
  isDir : Bool
  dotted : Bool
  slashed : Bool
  pre : List UInt8
  name : List UInt8
  size : Nat

def TarEntry.path (e : TarEntry) : List UInt8 := if e.pre = [] then e.name else e.pre ++ slash :: e.name

def TarEntry.nameField (e : TarEntry) : List UInt8 :=
  (if e.dotted ∧ e.pre = [] then dotSlash else []) ++ (e.name ++ if e.slashed then [slash] else [])

def TarEntry.prefixField (e : TarEntry) : List UInt8 :=
  if e.pre = [] then [] else (if e.dotted then dotSlash else []) ++ e.pre

/-- A path below the root, without `./` in front. -/
structure PathText (path : List UInt8) : Prop where
  nonempty : path ≠ []
  head : path.head? ≠ some slash
  last : path.getLast? ≠ some slash
  inner : path ≠ [dot] ∧ ¬dotSlash <+: path

structure TextField (m : Mem) (a width : Nat) (text : List UInt8) : Prop where
  fits : text.length ≤ width
  bytes : fieldBytes m a text.length = text
  ends : text.length < width → m (a + text.length) = 0
  plain : ∀ c ∈ text, c ≠ 0

def OctalDigit (c : UInt8) : Prop := 48 ≤ c ∧ c ≤ 55

instance (c : UInt8) : Decidable (OctalDigit c) := inferInstanceAs (Decidable (_ ∧ _))

def octalValue (digits : List UInt8) : Nat := digits.foldl (fun n c => n * 8 + (c.toNat - 48)) 0

def NumberField (m : Mem) (a width value : Nat) : Prop :=
  ∃ spaces digits tail, fieldBytes m a width = spaces ++ digits ++ tail ∧ (∀ c ∈ spaces, c = space) ∧
    (∀ c ∈ digits, OctalDigit c) ∧ tail ≠ [] ∧ (∀ c ∈ tail, c = 0 ∨ c = space) ∧ octalValue digits = value

structure HeaderAt (m : Mem) (a : Nat) (e : TarEntry) : Prop where
  name : TextField m a 100 e.nameField
  numbers : ∀ i, 100 ≤ i → i < 124 → m (a + i) = 0 ∨ m (a + i) = space ∨ OctalDigit (m (a + i))
  mode : m (a + 100) ≠ 0
  size : NumberField m (a + 124) 12 e.size
  flag : if e.isDir then m (a + 156) = 53 else m (a + 156) = 48 ∨ m (a + 156) = 0
  pre : TextField m (a + 345) 155 e.prefixField
  path : PathText e.path ∨ (e.isDir = true ∧ e.path = [] ∧ e.dotted = true ∧ e.slashed = false)
  slashed : e.slashed = true → e.isDir = true
  empty : e.isDir = true → e.size = 0

/-- The archive from `offset` on: the entries, and then the end or an empty header. -/
def ArchiveAt (m : Mem) (address size : Nat) : Nat → List TarEntry → Prop
  | offset, [] => size ≤ offset ∨ m (address + offset) = 0
  | offset, e :: rest =>
      offset < size ∧ HeaderAt m (address + offset) e ∧ offset + entrySize e.size < 2 ^ 64 ∧
        ArchiveAt m address size (offset + entrySize e.size) rest

def placed (address : Nat) : Nat → List TarEntry → List (Nat × TarEntry)
  | _, [] => []
  | offset, e :: rest => (address + offset, e) :: placed address (offset + entrySize e.size) rest

def Parent (dir path : List UInt8) : Prop := dir ≠ [] ∧ ∃ rest, path = dir ++ slash :: rest

structure DistinctPaths (entries : List TarEntry) : Prop where
  nodup : (entries.map TarEntry.path).Nodup
  files : ∀ f ∈ entries, f.isDir = false → ∀ e ∈ entries, ¬Parent f.path e.path

def Required (entries : List TarEntry) (dir : List UInt8) : Prop :=
  (dir ≠ [] ∧ ∃ e ∈ entries, e.isDir = true ∧ e.path = dir) ∨ ∃ e ∈ entries, Parent dir e.path

/-- A header that has the whole path in its name field, with a zero behind it. -/
def TarEntry.Short (e : TarEntry) : Prop := e.pre = [] ∧ e.nameField.length < 100

section
variable {m : Mem} {a n k width value : Nat} {text : List UInt8}

@[simp] theorem fieldBytes_length (m : Mem) (a n : Nat) : (fieldBytes m a n).length = n := by simp [fieldBytes]

theorem fieldBytes_append (m : Mem) (a n k : Nat) : fieldBytes m a (n + k) = fieldBytes m a n ++ fieldBytes m (a + n) k := by
  rw [fieldBytes, List.range_add, List.map_append, List.map_map, fieldBytes, fieldBytes]
  congr 1
  refine List.map_congr_left fun i _ => ?_
  simp only [Function.comp_apply, Nat.add_assoc]

theorem mem_field {c : UInt8} : c ∈ fieldBytes m a n ↔ ∃ i, i < n ∧ m (a + i) = c := by simp [fieldBytes]

theorem cString_field_zero (some : 0 < n) (zero : m a = 0) : cString (fieldBytes m a n) = [] := by
  obtain ⟨k, rfl⟩ : ∃ k, n = k + 1 := ⟨n - 1, by omega⟩
  simp [cString, fieldBytes, List.range_succ_eq_map, zero]

theorem cString_field_ne_nil (some : 0 < n) (other : m a ≠ 0) : cString (fieldBytes m a n) ≠ [] := by
  obtain ⟨k, rfl⟩ : ∃ k, n = k + 1 := ⟨n - 1, by omega⟩
  simp [cString, fieldBytes, List.range_succ_eq_map, other]

theorem TextField.string_eq (holds : TextField m a width text) (longer : width < n) :
    ∃ tail, cString (fieldBytes m a n) = text ++ tail ∧
      (text.length < width → tail = []) ∧
      (text.length = width → m (a + width) ≠ 0 → tail ≠ []) ∧
      ∀ c ∈ tail, c ≠ 0 ∧ ∃ i, width ≤ i ∧ i < n ∧ m (a + i) = c := by
  obtain ⟨fits, bytes, ends, plain⟩ := holds
  have split : fieldBytes m a n = text ++ fieldBytes m (a + text.length) (n - text.length) := by
    have whole := fieldBytes_append m a text.length (n - text.length)
    rwa [bytes, Nat.add_sub_cancel' (by omega)] at whole
  have short : text.length < width → cString (fieldBytes m (a + text.length) (n - text.length)) = [] :=
    fun short => cString_field_zero (by omega) (ends short)
  refine ⟨cString (fieldBytes m (a + text.length) (n - text.length)), ?_, short, fun full other => ?_, fun c member => ?_⟩
  · rw [split, cString, cString, List.takeWhile_append_of_pos (by simpa using plain)]
  · exact cString_field_ne_nil (by omega) (by rwa [full])
  · have full : text.length = width := by
      by_contra other
      rw [short (by omega)] at member
      cases member
    refine ⟨by simpa using List.mem_takeWhile_imp member, ?_⟩
    obtain ⟨i, inside, same⟩ := mem_field.mp ((List.takeWhile_sublist _).subset member)
    exact ⟨text.length + i, by omega, by omega, by rw [← Nat.add_assoc, same]⟩

theorem cString_drop {d : Nat} (inside : d ≤ (cString (fieldBytes m a (d + n))).length) :
    cString (fieldBytes m (a + d) n) = (cString (fieldBytes m a (d + n))).drop d := by
  have whole := fieldBytes_append m a d n
  have all : ∀ c ∈ fieldBytes m a d, decide (c ≠ 0) = true := by
    have first : (cString (fieldBytes m a (d + n))).take d = fieldBytes m a d := by
      have start : cString (fieldBytes m a (d + n)) <+: fieldBytes m a (d + n) := List.takeWhile_prefix _
      rw [List.prefix_iff_eq_take.mp start, List.take_take, Nat.min_eq_left inside, whole, List.take_left' (fieldBytes_length m a d)]
    intro c member
    rw [← first] at member
    have kept := List.mem_of_mem_take member
    rw [cString] at kept
    simpa using List.mem_takeWhile_imp kept
  rw [whole, cString, cString, List.takeWhile_append_of_pos all, List.drop_left' (fieldBytes_length m a d)]

theorem octalValue_skip (n : Nat) {bytes : List UInt8} (other : ∀ c ∈ bytes, ¬OctalDigit c) :
    bytes.foldl (fun n c => if 48 ≤ c ∧ c ≤ 55 then n * 8 + (c.toNat - 48) else n) n = n := by
  induction bytes generalizing n with
  | nil => rfl
  | cons c bytes ih =>
    have here : ¬(48 ≤ c ∧ c ≤ 55) := other c List.mem_cons_self
    rw [List.foldl_cons, if_neg here]
    exact ih n fun c member => other c (List.mem_cons_of_mem _ member)

theorem octalValue_read (n : Nat) {bytes : List UInt8} (all : ∀ c ∈ bytes, OctalDigit c) :
    bytes.foldl (fun n c => if 48 ≤ c ∧ c ≤ 55 then n * 8 + (c.toNat - 48) else n) n =
      bytes.foldl (fun n c => n * 8 + (c.toNat - 48)) n := by
  induction bytes generalizing n with
  | nil => rfl
  | cons c bytes ih =>
    have here : 48 ≤ c ∧ c ≤ 55 := all c List.mem_cons_self
    rw [List.foldl_cons, List.foldl_cons, if_pos here]
    exact ih _ fun c member => all c (List.mem_cons_of_mem _ member)

theorem NumberField.octal (holds : NumberField m a 12 value) : octalToInt (fieldBytes m a 11) = value := by
  obtain ⟨spaces, digits, tail, bytes, front, octal, some, behind, rfl⟩ := holds
  have cut : fieldBytes m a 11 = spaces ++ digits ++ tail.dropLast := by
    have last := congrArg List.dropLast bytes
    rw [List.dropLast_append_of_ne_nil some] at last
    rw [← last, show (12 : Nat) = 11 + 1 from rfl, fieldBytes_append]
    simp [fieldBytes]
  have blank : ∀ c : UInt8, c = 0 ∨ c = space → ¬OctalDigit c := by
    rintro c (rfl | rfl) <;> decide +kernel
  rw [octalToInt, cut, List.foldl_append, List.foldl_append, octalValue_skip 0 fun c member => blank c (Or.inr (front c member)),
    octalValue_skip _ fun c member => blank c (behind c (List.mem_of_mem_dropLast member)), octalValue_read 0 octal]
  rfl

end

section
variable {m : Mem} {a n : Nat} {e : TarEntry}

theorem TarEntry.nameField_ne_nil (header : HeaderAt m a e) : e.nameField ≠ [] := by
  intro none
  rcases header.path with path | ⟨-, empty, dotted, -⟩
  · rw [TarEntry.nameField, List.append_eq_nil_iff, List.append_eq_nil_iff] at none
    obtain ⟨-, name, -⟩ := none
    by_cases pre : e.pre = []
    · exact path.nonempty (by rw [TarEntry.path, if_pos pre, name])
    · refine path.last ?_
      rw [TarEntry.path, if_neg pre, name]
      simp
  · have pre : e.pre = [] := by
      by_contra pre
      rw [TarEntry.path, if_neg pre] at empty
      simp at empty
    simp [TarEntry.nameField, dotted, pre, dotSlash] at none

theorem TextField.byte {text : List UInt8} {width i : Nat} (holds : TextField m a width text) (inside : i < text.length) :
    m (a + i) = text[i] := by
  have same := congrArg (fun l => l[i]?) holds.bytes
  simpa [fieldBytes, inside] using same

theorem HeaderAt.first (header : HeaderAt m a e) : m a ≠ 0 := by
  have some := List.length_pos_of_ne_nil (TarEntry.nameField_ne_nil header)
  have byte := header.name.byte some
  rw [Nat.add_zero] at byte
  rw [byte]
  exact header.name.plain _ (List.getElem_mem some)

theorem HeaderAt.dataSize (header : HeaderAt m a e) : dataSize m a = e.size := header.size.octal

theorem HeaderAt.number (header : HeaderAt m a e) {i : Nat} (low : 100 ≤ i) (high : i < 136) : m (a + i) ≠ slash := by
  have plain : m (a + i) = 0 ∨ m (a + i) = space ∨ OctalDigit (m (a + i)) := by
    rcases Nat.lt_or_ge i 124 with before | inside
    · exact header.numbers i low before
    · obtain ⟨spaces, digits, tail, bytes, front, octal, -, behind, -⟩ := header.size
      have place : a + 124 + (i - 124) = a + i := by omega
      have member : m (a + i) ∈ fieldBytes m (a + 124) 12 := mem_field.mpr ⟨i - 124, by omega, by rw [place]⟩
      rw [bytes, List.mem_append, List.mem_append] at member
      rcases member with (one | two) | three
      · exact Or.inr (Or.inl (front _ one))
      · exact Or.inr (Or.inr (octal _ two))
      · exact (behind _ three).imp_right Or.inl
  rcases plain with zero | blank | digit
  · rw [zero]; decide
  · rw [blank]; decide
  · intro same
    rw [same] at digit
    exact absurd digit (by decide +kernel)

/-- The bytes of `./` in front of a name field. -/
def dots (e : TarEntry) : Nat := if dotSlash <+: e.nameField then 2 else 0

theorem dots_le (e : TarEntry) : dots e ≤ e.nameField.length := by
  unfold dots
  split
  · rename_i starts
    exact starts.length_le
  · exact Nat.zero_le _

theorem nameAt_eq (header : HeaderAt m a e) : nameAt m a = a + dots e := by
  have plain := header.name
  have byte (i : Nat) (inside : i < e.nameField.length) : m (a + i) = e.nameField[i] := plain.byte inside
  have ends := plain.ends
  have some := TarEntry.nameField_ne_nil header
  unfold nameAt dots
  generalize e.nameField = text at *
  cases text with
  | nil => exact absurd rfl some
  | cons c rest =>
    have first : m a = c := byte 0 (by simp)
    cases rest with
    | nil =>
      have zero : m (a + 1) = 0 := ends (by simp)
      rw [if_neg (by rw [zero]; rintro ⟨-, other⟩; cases other), if_neg (by simp [dotSlash]), Nat.add_zero]
    | cons c' rest =>
      have second : m (a + 1) = c' := byte 1 (by simp)
      rw [first, second]
      by_cases starts : c = dot ∧ c' = slash
      · obtain ⟨rfl, rfl⟩ := starts
        rw [if_pos ⟨rfl, rfl⟩, if_pos ⟨rest, rfl⟩]
      · have other : ¬dotSlash <+: c :: c' :: rest := by
          rintro ⟨tail, same⟩
          simp only [dotSlash, List.cons_append, List.nil_append, List.cons.injEq] at same
          exact starts ⟨same.1.symm, same.2.1.symm⟩
        rw [if_neg starts, if_neg other, Nat.add_zero]

theorem HeaderAt.string (header : HeaderAt m a e) (low : 100 < n) (high : n ≤ 128) :
    ∃ tail, cString (fieldBytes m (nameAt m a) n) = (e.nameField ++ tail).drop (dots e) ∧
      (e.nameField.length < 100 → tail = []) ∧ (e.nameField.length = 100 → tail ≠ []) ∧
      (∀ c ∈ tail, c ≠ slash) := by
  obtain ⟨tail, whole, short, full, numbers⟩ := header.name.string_eq (by omega : 100 < dots e + n)
  have few : dots e ≤ 2 := by
    unfold dots
    split <;> omega
  refine ⟨tail, ?_, short, fun fills => full fills header.mode, fun c member => ?_⟩
  · rw [nameAt_eq header, cString_drop, whole]
    rw [whole, List.length_append]
    have := dots_le e
    omega
  · obtain ⟨-, i, low, below, same⟩ := numbers c member
    rw [← same]
    exact header.number low (by omega)

theorem HeaderAt.behind_dots (header : HeaderAt m a e) (pre : e.pre = []) (tail : List UInt8) :
    (e.nameField ++ tail).drop (dots e) = e.name ++ (if e.slashed then [slash] else []) ++ tail := by
  have whole : e.path = e.name := if_pos pre
  have shape : e.nameField = (if e.dotted then dotSlash else []) ++ (e.name ++ if e.slashed then [slash] else []) := by
    simp [TarEntry.nameField, pre]
  generalize (if e.slashed then [slash] else []) = behind at *
  cases dotted : e.dotted with
  | true =>
    have starts : dotSlash <+: e.nameField := by simp [shape, dotted]
    rw [dots, if_pos starts, shape, dotted, if_pos rfl, List.append_assoc]
    rfl
  | false =>
    have path : PathText e.name := by
      rw [← whole]
      exact header.path.resolve_right fun root => by simp [dotted] at root
    have starts : ¬dotSlash <+: e.nameField := by
      rw [shape, dotted, if_neg (by simp), List.nil_append]
      rintro ⟨rest, same⟩
      obtain ⟨nonempty, -, -, notDot, notDots⟩ := path
      generalize e.name = name at *
      cases name with
      | nil => exact nonempty rfl
      | cons c name =>
        cases name with
        | nil =>
          simp only [dotSlash, List.cons_append, List.nil_append, List.cons.injEq] at same
          exact notDot (by rw [same.1])
        | cons c' name =>
          simp only [dotSlash, List.cons_append, List.nil_append, List.cons.injEq] at same
          exact notDots ⟨name, by rw [← same.1, ← same.2.1]; rfl⟩
    rw [dots, if_neg starts, shape, dotted]
    rfl

theorem HeaderAt.file_name (header : HeaderAt m a e) (file : e.isDir = false) (low : 100 < n) (high : n ≤ 128) :
    cString (fieldBytes m (nameAt m a) n) = e.path ↔ e.Short := by
  obtain ⟨tail, string, short, full, numbers⟩ := header.string low high
  have slashed : e.slashed = false := by
    cases slashed : e.slashed with
    | false => rfl
    | true => exact absurd (header.slashed slashed) (by simp [file])
  have path : PathText e.path := header.path.resolve_right fun root => by simp [file] at root
  have noTail : tail = [] ↔ e.nameField.length < 100 := by
    constructor
    · intro none
      have := header.name.fits
      by_contra long
      exact full (by omega) none
    · exact short
  rw [string, TarEntry.Short]
  by_cases pre : e.pre = []
  · have whole : e.path = e.name := if_pos pre
    rw [header.behind_dots pre, slashed, whole]
    simp [pre, noTail]
  · -- the path has more slashes than what is read
    refine iff_of_false (fun same => ?_) fun short => pre short.1
    have slashes := congrArg (List.count slash) same
    have same_ : e.nameField = e.name := by simp [TarEntry.nameField, pre, slashed]
    have less := (List.drop_sublist (dots e) (e.nameField ++ tail)).count_le slash
    rw [slashes, List.count_append, List.count_eq_zero.mpr (fun member => numbers slash member rfl), same_, TarEntry.path,
      if_neg pre, List.count_append, List.count_cons_self] at less
    omega

theorem HeaderAt.dir_name (header : HeaderAt m a e) (short : e.Short) (low : 100 < n) (high : n ≤ 128) :
    (cString (fieldBytes m (nameAt m a) n)).length < 100 ∧
      (e.path ≠ [] → cString (fieldBytes m (nameAt m a) n) ≠ [] ∧ withoutSlash (cString (fieldBytes m (nameAt m a) n)) = e.path) ∧
      (e.path = [] → cString (fieldBytes m (nameAt m a) n) = []) := by
  obtain ⟨pre, fits⟩ := short
  obtain ⟨tail, string, none, -, -⟩ := header.string low high
  have whole : e.path = e.name := if_pos pre
  have read : cString (fieldBytes m (nameAt m a) n) = e.name ++ if e.slashed then [slash] else [] := by
    rw [string, header.behind_dots pre, none fits, List.append_nil]
  refine ⟨?_, fun nonempty => ?_, fun empty => ?_⟩
  · rw [string, none fits, List.append_nil, List.length_drop]
    omega
  · have path := header.path.resolve_right fun root => nonempty root.2.1
    rw [read, whole] at *
    refine ⟨fun nil => nonempty (List.append_eq_nil_iff.mp nil).1, ?_⟩
    cases e.slashed with
    | true => simp [withoutSlash]
    | false => simp [withoutSlash, path.last]
  · have root := header.path.resolve_left fun path => path.nonempty empty
    rw [read, root.2.2.2, ← whole, empty]
    rfl

end

theorem ArchiveAt.header {m : Mem} {address size offset : Nat} {entries : List TarEntry}
    (archive : ArchiveAt m address size offset entries) : ∀ p ∈ placed address offset entries, HeaderAt m p.1 p.2 := by
  induction entries generalizing offset with
  | nil => simp [placed]
  | cons e rest ih =>
    obtain ⟨-, header, -, more⟩ := archive
    intro p member
    rcases List.mem_cons.mp member with rfl | later
    · exact header
    · exact ih more p later

theorem map_placed (address offset : Nat) (entries : List TarEntry) : (placed address offset entries).map Prod.snd = entries := by
  induction entries generalizing offset with
  | nil => rfl
  | cons e rest ih => rw [placed, List.map_cons, ih]

theorem tarfsLoop_archive {granted : Nat → Bool} {m : Mem} {address size offset fuel : Nat} {entries : List TarEntry}
    (archive : ArchiveAt m address size offset entries) (memory : ∀ n, granted n = true) (enough : entries.length < fuel)
    (s : Tarfs) :
    tarfsLoop granted m address size fuel offset s =
      some ((placed address offset entries).foldl (fun s p => (tarfsEntry granted m s p.1).2) s) := by
  induction entries generalizing offset fuel s with
  | nil =>
    obtain ⟨fuel, rfl⟩ : ∃ k, fuel = k + 1 := ⟨fuel - 1, by simp at enough; omega⟩
    rw [tarfsLoop]
    rcases archive with behind | empty
    · rw [if_neg (by omega)]
      rfl
    · rw [empty]
      simp [placed]
  | cons e rest ih =>
    obtain ⟨fuel, rfl⟩ : ∃ k, fuel = k + 1 := ⟨fuel - 1, by omega⟩
    obtain ⟨inside, header, small, more⟩ := archive
    have more_ := ih more (by simpa using enough) (tarfsEntry granted m s (address + offset)).2
    have going : (tarfsEntry granted m s (address + offset)).1 = true := by
      unfold tarfsEntry
      simp only [memory, Bool.true_eq_false, if_false]
      split
      · rfl
      · split <;> rfl
    rw [tarfsLoop, if_pos inside, if_neg header.first, header.dataSize, Nat.mod_eq_of_lt small, placed, List.foldl_cons,
      ← more_]
    generalize tarfsEntry granted m s (address + offset) = out at going ⊢
    obtain ⟨ok, next⟩ := out
    cases going
    rfl

end RexOs.Fs
