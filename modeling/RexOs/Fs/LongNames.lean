import RexOs.Fs.Fat32Dir
import RexOs.Library.Run
import Mathlib.Data.Set.Insert
import Mathlib.Data.List.GetD
import Mathlib.Data.List.TakeWhile

/-! The arrays of `fat32_dir_load_children` that names are put together in.

A long name comes in entries of 13 characters each, and the order byte of an entry says where in
`lfn_buf` its characters go. The order is not checked, and neither is the room for the terminating
zero behind a name that fills `name`.
-/

set_option autoImplicit false

namespace RexOs.Fs

open RexOs.Library

def lfnBufSize : Nat := 260
def nameSize : Nat := 256

/-- An index of `lfn_buf` that is read or written, or of `name` that is written. The first entry
of a long name starts it. -/
inductive Access where
  | start
  | readLfn (i : Int)
  | writeLfn (i : Int)
  | writeName (i : Int)
  deriving DecidableEq, Repr

/-- The bytes of `lfn_buf` that have been written since the long name started. -/
def Access.after (written : Set Int) : Access → Set Int
  | .start => ∅
  | .writeLfn i => insert i written
  | .readLfn _ => written
  | .writeName _ => written

def Access.Ok (written : Set Int) : Access → Prop
  | .start => True
  | .writeLfn i => 0 ≤ i ∧ i < lfnBufSize
  | .readLfn i => (0 ≤ i ∧ i < lfnBufSize) ∧ i ∈ written
  | .writeName i => 0 ≤ i ∧ i < nameSize

def InBounds (written : Set Int) (l : List Access) : Prop := EachStep Access.after Access.Ok written l

/-- `lfn_buf`, with the stack around it, and `lfn_have`. -/
structure Names where
  lfnBuf : Int → UInt8
  lfnHave : Bool

def direntAttr (e : Mem) : Nat := (e 11).toNat

def lfnOrder (e : Mem) : Nat := (e 0).toNat

def lfnOrd (e : Mem) : Nat := lfnOrder e &&& 0x1F

def clearName (e : Mem) (n : Names) : List Access × Names :=
  if lfnOrder e &&& 0x40 ≠ 0 then
    (.start :: (List.range lfnBufSize).map fun k : Nat => .writeLfn k,
      { n with lfnBuf := fun i => if 0 ≤ i ∧ i < lfnBufSize then 0 else n.lfnBuf i, lfnHave := true })
  else ([], n)

def lfnEntry (e : Mem) (n : Names) : List Access × Names :=
  let (clear, n) := clearName e n
  let tmp := lfnExtract e 0
  let target : Int := ((lfnOrd e : Int) - 1) * 13
  (clear ++ (List.range 13).map fun k : Nat => .writeLfn (target + k),
    { n with lfnBuf := fun i => if target ≤ i ∧ i < target + 13 then tmp.getD (i - target).toNat 0 else n.lfnBuf i })

/-- `while (j < 256 && lfn_buf[j]) { name[j] = lfn_buf[j]; j++; }` and the zero behind it; `rounds` are left until `j` is 256. -/
def copyName (lfnBuf : Int → UInt8) : Nat → Nat → List Access
  | 0, j => [.writeName j]
  | rounds + 1, j =>
      if lfnBuf j ≠ 0 then .readLfn j :: .readLfn j :: .writeName j :: copyName lfnBuf rounds (j + 1)
      else [.readLfn j, .writeName j]

def nameAccesses (e : Mem) (n : Names) : List Access :=
  if n.lfnHave then copyName n.lfnBuf nameSize 0
  else (List.range ((name83ToString ((List.range 11).map e)).length + 1)).map fun k : Nat => .writeName k

def nameEntry (e : Mem) (n : Names) : List Access × Names :=
  if e 0 = 0xE5 then ([], { n with lfnHave := false })
  else if direntAttr e &&& attrLfn = attrLfn then lfnEntry e n
  else if direntAttr e &&& attrVolumeId ≠ 0 then ([], { n with lfnHave := false })
  else (nameAccesses e n, { n with lfnHave := false })

def nameEntries : List Mem → Names → List Access
  | [], _ => []
  | e :: es, n => if e 0 = 0x00 then [] else (nameEntry e n).1 ++ nameEntries es (nameEntry e n).2

def isLfn (e : Mem) : Bool := e 0 ≠ 0xE5 && direntAttr e &&& attrLfn = attrLfn

def isShort (e : Mem) : Bool :=
  e 0 ≠ 0xE5 && direntAttr e &&& attrLfn ≠ attrLfn && direntAttr e &&& attrVolumeId = 0

/-- The entries of the long name that is open behind `before`. Both lists begin with the last entry. -/
def longName : List Mem → List Mem
  | [] => []
  | e :: before =>
      if isLfn e then
        if lfnOrder e &&& 0x40 ≠ 0 then [e]
        else if longName before = [] then [] else e :: longName before
      else []

/-- Character `k` of a long name: that of the last entry with this part of it. -/
def character (es : List Mem) (k : Nat) : UInt8 :=
  match es.find? fun e => lfnOrd e = k / 13 + 1 with
  | none => 0
  | some e => (lfnExtract e 0).getD (k % 13) 0

/-- The part of a long name that an entry has is one of the 20 parts, and a name that is complete
has less than 256 characters. -/
def EntryFits (before : List Mem) (e : Mem) : Prop :=
  (isLfn e = true → 1 ≤ lfnOrd e ∧ lfnOrd e ≤ 20) ∧
    (isShort e = true → longName before = [] ∨ ∃ k < nameSize, character (longName before) k = 0)

def FitBehind (before entries : List Mem) : Prop :=
  EachStep (fun before e => e :: before) EntryFits before (entries.takeWhile fun e => e 0 ≠ 0x00)

def NamesFit (entries : List Mem) : Prop := FitBehind [] entries

variable {written : Set Int} {n n' : Names} {before entries : List Mem} {e : Mem} {l : List Access}

theorem written_after {i : Int} (same : Access.start ∉ l) (here : i ∈ written ∨ Access.writeLfn i ∈ l) :
    i ∈ l.foldl Access.after written := by
  induction l generalizing written with
  | nil => exact here.resolve_right List.not_mem_nil
  | cons a l ih =>
    have rest : Access.start ∉ l := fun member => same (List.mem_cons_of_mem a member)
    rw [List.foldl_cons]
    apply ih rest
    rcases here with old | new
    · left
      cases a with
      | start => exact absurd List.mem_cons_self same
      | readLfn j => exact old
      | writeLfn j => exact Set.mem_insert_of_mem j old
      | writeName j => exact old
    · rcases List.mem_cons.mp new with rfl | later
      · exact Or.inl (Set.mem_insert i written)
      · exact Or.inr later

theorem inBounds_writes (reads : ∀ i, Access.readLfn i ∉ l) : InBounds written l ↔ ∀ a ∈ l, a.Ok ∅ := by
  apply eachStep_forall
  intro s a member
  cases a with
  | start => exact Iff.rfl
  | readLfn i => exact absurd member (reads i)
  | writeLfn i => exact Iff.rfl
  | writeName i => exact Iff.rfl

theorem character_cons (es : List Mem) (k : Nat) :
    character (e :: es) k = if lfnOrd e = k / 13 + 1 then (lfnExtract e 0).getD (k % 13) 0 else character es k := by
  rw [character, List.find?_cons]
  by_cases here : lfnOrd e = k / 13 + 1
  · rw [decide_eq_true here, if_pos here]
  · rw [decide_eq_false here, if_neg here, character]

theorem part_inBounds (ord : Nat) :
    (∀ k < 13, (Access.writeLfn (((ord : Int) - 1) * 13 + (k : Nat))).Ok ∅) ↔ 1 ≤ ord ∧ ord ≤ 20 := by
  constructor
  · intro all
    have first : 0 ≤ ((ord : Int) - 1) * 13 + (0 : Nat) := (all 0 (by decide)).1
    have last : ((ord : Int) - 1) * 13 + (12 : Nat) < lfnBufSize := (all 12 (by decide)).2
    rw [lfnBufSize] at last
    omega
  · rintro ⟨low, high⟩ k small
    constructor
    · omega
    · rw [lfnBufSize]
      omega

theorem lfnEntry_cases (e : Mem) (n : Names) {a : Access} (member : a ∈ (lfnEntry e n).1) :
    a ∈ (clearName e n).1 ∨ ∃ k < 13, a = .writeLfn (((lfnOrd e : Int) - 1) * 13 + (k : Nat)) := by
  rcases List.mem_append.mp member with clears | here
  · exact Or.inl clears
  · obtain ⟨k, small, rfl⟩ := List.mem_map.mp here
    exact Or.inr ⟨k, List.mem_range.mp small, rfl⟩

theorem clearName_cases (e : Mem) (n : Names) {a : Access} (member : a ∈ (clearName e n).1) :
    a = .start ∨ ∃ k < lfnBufSize, a = .writeLfn (k : Nat) := by
  rw [clearName] at member
  split at member
  · rcases List.mem_cons.mp member with here | clears
    · exact Or.inl here
    · obtain ⟨k, small, rfl⟩ := List.mem_map.mp clears
      exact Or.inr ⟨k, List.mem_range.mp small, rfl⟩
  · cases member

theorem lfnEntry_inBounds (written : Set Int) (e : Mem) (n : Names) :
    InBounds written (lfnEntry e n).1 ↔ 1 ≤ lfnOrd e ∧ lfnOrd e ≤ 20 := by
  rw [inBounds_writes, ← part_inBounds]
  · constructor
    · intro all k small
      apply all
      apply List.mem_append_right
      exact List.mem_map.mpr ⟨k, List.mem_range.mpr small, rfl⟩
    · intro part a member
      rcases lfnEntry_cases e n member with clears | ⟨k, small, rfl⟩
      · rcases clearName_cases e n clears with rfl | ⟨k, small, rfl⟩
        · trivial
        · exact ⟨Int.natCast_nonneg k, Int.ofNat_lt.mpr small⟩
      · exact part k small
  · intro i member
    rcases lfnEntry_cases e n member with clears | ⟨k, _, same⟩
    · rcases clearName_cases e n clears with same | ⟨k, _, same⟩ <;> cases same
    · cases same

/-- What the locals are behind the entries `before`. -/
structure Agrees (n : Names) (written : Set Int) (before : List Mem) : Prop where
  open_ : n.lfnHave = true ↔ longName before ≠ []
  long : n.lfnHave = true → ∀ k < lfnBufSize, (k : Int) ∈ written ∧ n.lfnBuf k = character (longName before) k

theorem agrees_closed (noLfn : isLfn e = false) : Agrees { n with lfnHave := false } written (e :: before) := by
  constructor
  · rw [longName, noLfn]
    exact iff_of_false Bool.false_ne_true fun name => name rfl
  · intro opened
    cases opened

theorem part_stored (e : Mem) (buf : Int → UInt8) (es : List Mem) {k : Nat}
    (same : buf k = character es k) :
    (if ((lfnOrd e : Int) - 1) * 13 ≤ k ∧ (k : Int) < ((lfnOrd e : Int) - 1) * 13 + 13
      then (lfnExtract e 0).getD ((k : Int) - ((lfnOrd e : Int) - 1) * 13).toNat 0 else buf k) = character (e :: es) k := by
  rw [character_cons]
  by_cases here : lfnOrd e = k / 13 + 1
  · rw [if_pos here, if_pos (by omega)]
    congr 1
    omega
  · rw [if_neg here, if_neg (by omega), same]

theorem character_none (k : Nat) : character [] k = 0 := rfl

theorem lfnEntry_agrees (agrees : Agrees n written before) (lfn : isLfn e = true) :
    Agrees (lfnEntry e n).2 ((lfnEntry e n).1.foldl Access.after written) (e :: before) := by
  by_cases starts : lfnOrder e &&& 0x40 ≠ 0
  · have name : longName (e :: before) = [e] := by rw [longName, if_pos lfn, if_pos starts]
    constructor
    · rw [name, lfnEntry, clearName, if_pos starts]
      exact iff_of_true rfl (List.cons_ne_nil e [])
    · intro _ k small
      rw [name, lfnEntry, clearName, if_pos starts]
      dsimp only
      constructor
      · rw [List.cons_append, List.foldl_cons]
        apply written_after
        · intro member
          rcases List.mem_append.mp member with clears | here
          · obtain ⟨j, _, same⟩ := List.mem_map.mp clears
            cases same
          · obtain ⟨j, _, same⟩ := List.mem_map.mp here
            cases same
        · exact Or.inr (List.mem_append_left _ (List.mem_map.mpr ⟨k, List.mem_range.mpr small, rfl⟩))
      · have cleared : (if 0 ≤ (k : Int) ∧ (k : Int) < lfnBufSize then (0 : UInt8) else n.lfnBuf k) = character [] k := by
          rw [if_pos ⟨Int.natCast_nonneg k, Int.ofNat_lt.mpr small⟩, character_none]
        exact part_stored e (fun i => if 0 ≤ i ∧ i < lfnBufSize then 0 else n.lfnBuf i) [] cleared
  · have quiet : clearName e n = ([], n) := if_neg starts
    have kept : (lfnEntry e n).2.lfnHave = n.lfnHave := by rw [lfnEntry, quiet]
    constructor
    · rw [kept, agrees.open_, longName, if_pos lfn, if_neg starts]
      split
      · rename_i closed
        exact iff_of_false (fun name => name closed) fun name => name rfl
      · rename_i opened
        exact iff_of_true opened (List.cons_ne_nil e _)
    · intro opened k small
      rw [kept] at opened
      have name := agrees.open_.mp opened
      obtain ⟨old, same⟩ := agrees.long opened k small
      rw [longName, if_pos lfn, if_neg starts, if_neg name]
      constructor
      · apply written_after _ (Or.inl old)
        intro member
        rcases lfnEntry_cases e n member with clears | ⟨j, _, other⟩
        · rw [quiet] at clears
          cases clears
        · cases other
      · rw [lfnEntry, quiet]
        exact part_stored e n.lfnBuf (longName before) same

theorem copyName_inBounds (buf : Int → UInt8) (rounds j : Nat) (all : rounds + j = nameSize)
    (have_ : ∀ k < lfnBufSize, (k : Int) ∈ written) :
    InBounds written (copyName buf rounds j) ↔ ∃ k : Nat, j ≤ k ∧ k < nameSize ∧ buf k = 0 := by
  have write (i : Nat) : Access.Ok written (.writeName i) ↔ i < nameSize :=
    ⟨fun ok => Int.ofNat_lt.mp ok.2, fun small => ⟨Int.natCast_nonneg i, Int.ofNat_lt.mpr small⟩⟩
  induction rounds generalizing j with
  | zero =>
    rw [copyName, InBounds, eachStep_cons, write]
    constructor
    · rintro ⟨small, _⟩
      omega
    · rintro ⟨k, low, high, _⟩
      omega
  | succ rounds ih =>
    have read : Access.Ok written (.readLfn j) := by
      have small : j < lfnBufSize := by
        rw [nameSize] at all
        rw [lfnBufSize]
        omega
      exact ⟨⟨Int.natCast_nonneg j, Int.ofNat_lt.mpr small⟩, have_ j small⟩
    have room : Access.Ok written (.writeName j) := (write j).mpr (by omega)
    rw [copyName]
    split
    · rename_i more
      rw [InBounds, eachStep_cons, eachStep_cons, eachStep_cons]
      refine (and_iff_right read).trans ((and_iff_right read).trans ((and_iff_right room).trans ?_))
      refine (ih (j + 1) (by omega)).trans ?_
      constructor
      · rintro ⟨k, low, high, zero⟩
        exact ⟨k, by omega, high, zero⟩
      · rintro ⟨k, low, high, zero⟩
        have later : j ≠ k := by
          rintro rfl
          exact more zero
        exact ⟨k, by omega, high, zero⟩
    · rename_i last
      rw [ne_eq, not_not] at last
      apply iff_of_true
      · rw [InBounds, eachStep_cons, eachStep_cons]
        exact ⟨read, room, eachStep_nil _⟩
      · exact ⟨j, Nat.le_refl j, by omega, last⟩

theorem name83ToString_length (raw : List UInt8) : (name83ToString raw).length ≤ 12 := by
  have base : ((raw.take 8).takeWhile (· ≠ space)).length ≤ 8 :=
    (List.takeWhile_prefix _).length_le.trans (List.length_take_le 8 raw)
  have ext : (((raw.drop 8).take 3).takeWhile (· ≠ space)).length ≤ 3 :=
    (List.takeWhile_prefix _).length_le.trans (List.length_take_le 3 _)
  unfold name83ToString
  dsimp only
  split
  · rw [List.length_append, List.length_cons, List.length_map, List.length_map]
    omega
  · rw [List.length_map]
    omega

theorem nameAccesses_inBounds (agrees : Agrees n written before) :
    InBounds written (nameAccesses e n) ↔
      longName before = [] ∨ ∃ k < nameSize, character (longName before) k = 0 := by
  rw [nameAccesses]
  split
  · rename_i opened
    have name := agrees.open_.mp opened
    have long := agrees.long opened
    have small {k : Nat} (high : k < nameSize) : k < lfnBufSize := by
      rw [nameSize] at high
      rw [lfnBufSize]
      omega
    rw [or_iff_right name, copyName_inBounds n.lfnBuf nameSize 0 (Nat.add_zero _) fun k high => (long k high).1]
    constructor
    · rintro ⟨k, _, high, zero⟩
      exact ⟨k, high, (long k (small high)).2 ▸ zero⟩
    · rintro ⟨k, high, zero⟩
      exact ⟨k, Nat.zero_le k, high, (long k (small high)).2.trans zero⟩
  · rename_i closed
    apply iff_of_true
    · rw [inBounds_writes]
      · intro a member
        obtain ⟨k, small, rfl⟩ := List.mem_map.mp member
        have short := name83ToString_length ((List.range 11).map e)
        have inside : k < nameSize := by
          rw [nameSize]
          have := List.mem_range.mp small
          omega
        exact ⟨Int.natCast_nonneg k, Int.ofNat_lt.mpr inside⟩
      · intro i member
        obtain ⟨k, _, same⟩ := List.mem_map.mp member
        cases same
    · by_contra none
      rw [not_or] at none
      exact closed (agrees.open_.mpr none.1)

theorem nameEntry_cases (e : Mem) (n : Names) :
    isLfn e = true ∧ isShort e = false ∧ nameEntry e n = lfnEntry e n ∨
      isLfn e = false ∧ isShort e = false ∧ nameEntry e n = ([], { n with lfnHave := false }) ∨
      isLfn e = false ∧ isShort e = true ∧ nameEntry e n = (nameAccesses e n, { n with lfnHave := false }) := by
  rw [isLfn, isShort, nameEntry]
  by_cases deleted : e 0 = 0xE5
  · right; left
    simp [deleted]
  · by_cases lfn : direntAttr e &&& attrLfn = attrLfn
    · left
      simp [deleted, lfn]
    · by_cases label : direntAttr e &&& attrVolumeId = 0
      · right; right
        simp [deleted, lfn, label]
      · right; left
        simp [deleted, lfn, label]

theorem nameEntry_inBounds (agrees : Agrees n written before) :
    InBounds written (nameEntry e n).1 ↔ EntryFits before e := by
  rcases nameEntry_cases e n with ⟨lfn, short, branch⟩ | ⟨lfn, short, branch⟩ | ⟨lfn, short, branch⟩
  · rw [branch, lfnEntry_inBounds, EntryFits, lfn, short]
    constructor
    · intro part
      exact ⟨fun _ => part, fun other => absurd other Bool.false_ne_true⟩
    · intro fits
      exact fits.1 rfl
  · rw [branch, EntryFits, lfn, short]
    apply iff_of_true (eachStep_nil _)
    exact ⟨fun other => absurd other Bool.false_ne_true, fun other => absurd other Bool.false_ne_true⟩
  · rw [branch, nameAccesses_inBounds agrees, EntryFits, lfn, short]
    constructor
    · intro part
      exact ⟨fun other => absurd other Bool.false_ne_true, fun _ => part⟩
    · intro fits
      exact fits.2 rfl

theorem nameEntry_agrees (agrees : Agrees n written before) (e : Mem) :
    Agrees (nameEntry e n).2 ((nameEntry e n).1.foldl Access.after written) (e :: before) := by
  rcases nameEntry_cases e n with ⟨lfn, _, branch⟩ | ⟨lfn, _, branch⟩ | ⟨lfn, _, branch⟩ <;> rw [branch]
  · exact lfnEntry_agrees agrees lfn
  · exact agrees_closed lfn
  · exact agrees_closed lfn

theorem nameEntries_inBounds (agrees : Agrees n written before) :
    InBounds written (nameEntries entries n) ↔ FitBehind before entries := by
  induction entries generalizing n written before with
  | nil => exact iff_of_true (eachStep_nil _) (eachStep_nil _)
  | cons e entries ih =>
    rw [nameEntries, FitBehind, List.takeWhile_cons]
    by_cases last : e 0 = 0x00
    · rw [if_pos last, if_neg (by rw [last]; decide)]
      exact iff_of_true (eachStep_nil _) (eachStep_nil _)
    · rw [if_neg last, if_pos (decide_eq_true last), InBounds, eachStep_append, eachStep_cons]
      exact and_congr (nameEntry_inBounds agrees) (ih (nameEntry_agrees agrees e))

/-- `lfn_buf` and `name` are accessed in bounds, and no byte of `lfn_buf` is read before it is
written, exactly if the entries of the directory fit; `lfn_buf` is not initialised. -/
theorem long_names_inBounds (entries : List Mem) (lfnBuf : Int → UInt8) :
    InBounds ∅ (nameEntries entries ⟨lfnBuf, false⟩) ↔ NamesFit entries := by
  apply nameEntries_inBounds
  constructor
  · exact iff_of_false Bool.false_ne_true fun name => name rfl
  · intro opened
    cases opened

/-- Entry number `i` of the cluster in `cbuf`. -/
def direntAt (cbuf : Mem) (i : Nat) : Mem := fun k => cbuf (i * 32 + k)

/-- The locals of the loader behind the entries `before`. -/
structure Loading.Follows (ld : Loading) (before : List Mem) : Prop where
  open_ : ld.lfnHave = true ↔ longName before ≠ []
  size : ld.lfnBuf.length = lfnBufSize
  long : ld.lfnHave = true → ∀ k < lfnBufSize, ld.lfnBuf.getD k 0 = character (longName before) k

section
variable {dev : Device} {cbuf : Mem} {i : Nat} {ld ld' : Loading} {fs fs' : State} {more : Bool}

theorem lfnExtract_direntAt (cbuf : Mem) (i : Nat) : lfnExtract (direntAt cbuf i) 0 = lfnExtract cbuf (i * 32) := by
  have word (p : Nat) : load (direntAt cbuf i) (0 + p) 2 = load cbuf (i * 32 + p) 2 := by
    simp only [load, direntAt]
    rw [Nat.zero_add, Nat.add_assoc]
  simp only [lfnExtract, word]

theorem lfnExtract_length (cbuf : Mem) (e : Nat) : (lfnExtract cbuf e).length = 13 := rfl

theorem part_pasted {bytes tmp : List UInt8} {target k : Nat} (length : tmp.length = 13)
    (room : target + 13 ≤ bytes.length) :
    (bytes.take target ++ tmp ++ bytes.drop (target + 13)).getD k 0 =
      if target ≤ k ∧ k < target + 13 then tmp.getD (k - target) 0 else bytes.getD k 0 := by
  simp only [List.getD_eq_getElem?_getD]
  have first : (bytes.take target).length = target := List.length_take_of_le (by omega)
  rw [List.append_assoc]
  rcases Nat.lt_or_ge k target with left | right
  · rw [List.getElem?_append_left (by omega), List.getElem?_take_of_lt left, if_neg (by omega)]
  · rw [List.getElem?_append_right (by omega), first]
    rcases Nat.lt_or_ge k (target + 13) with inside | behind
    · rw [List.getElem?_append_left (by omega), if_pos ⟨right, inside⟩]
    · have index : target + 13 + (k - target - 13) = k := by omega
      rw [List.getElem?_append_right (by omega), if_neg (by omega), List.getElem?_drop, length, index]

theorem noName_getD (k : Nat) : noName.getD k 0 = 0 := by
  rw [List.getD_eq_getElem?_getD, noName, List.getElem?_replicate]
  split <;> rfl

theorem loadLfn_follows {before : List Mem} (follows : ld.Follows before) (lfn : isLfn (direntAt cbuf i) = true)
    (part : 1 ≤ lfnOrd (direntAt cbuf i) ∧ lfnOrd (direntAt cbuf i) ≤ 20) :
    ∃ ld', loadLfn cbuf (i * 32) ld = .ok ld' ∧ ld'.Follows (direntAt cbuf i :: before) := by
  have order : lfnOrder (direntAt cbuf i) = (cbuf (i * 32)).toNat := rfl
  have ord : lfnOrd (direntAt cbuf i) = (cbuf (i * 32)).toNat &&& 0x1F := rfl
  rw [ord] at part
  rw [loadLfn, if_neg (by omega)]
  refine ⟨_, rfl, ?_⟩
  by_cases starts : lfnOrder (direntAt cbuf i) &&& 0x40 ≠ 0
  · have name : longName (direntAt cbuf i :: before) = [direntAt cbuf i] := by rw [longName, if_pos lfn, if_pos starts]
    rw [order] at starts
    simp only [if_pos starts]
    constructor
    · rw [name]
      exact iff_of_true rfl (List.cons_ne_nil _ [])
    · simp only [List.length_append, List.length_take, List.length_drop, lfnExtract_length, noName, List.length_replicate,
        lfnBufSize]
      omega
    · intro _ k small
      rw [name, character_cons, ord, lfnExtract_direntAt,
        part_pasted (lfnExtract_length cbuf _) (by rw [noName, List.length_replicate]; omega)]
      by_cases here : (cbuf (i * 32)).toNat &&& 0x1F = k / 13 + 1
      · rw [if_pos here, if_pos (by omega)]
        congr 1
        omega
      · rw [if_neg here, if_neg (by omega), noName_getD, character_none]
  · have name : longName (direntAt cbuf i :: before) =
        if longName before = [] then [] else direntAt cbuf i :: longName before := by
      rw [longName, if_pos lfn, if_neg starts]
    rw [order] at starts
    simp only [if_neg starts]
    have length := follows.size
    rw [lfnBufSize] at length
    constructor
    · rw [follows.open_, name]
      split
      · rename_i closed
        exact iff_of_false (fun name => name closed) fun name => name rfl
      · rename_i opened
        exact iff_of_true opened (List.cons_ne_nil _ _)
    · simp only [List.length_append, List.length_take, List.length_drop, lfnExtract_length, length, lfnBufSize]
      omega
    · intro opened k small
      rw [name, if_neg (follows.open_.mp opened), character_cons, ord, lfnExtract_direntAt,
        part_pasted (lfnExtract_length cbuf _) (by omega), ← follows.long opened k small]
      by_cases here : (cbuf (i * 32)).toNat &&& 0x1F = k / 13 + 1
      · rw [if_pos here, if_pos (by omega)]
        congr 1
        omega
      · rw [if_neg here, if_neg (by omega)]

theorem loadLfn_overflow (unfit : ¬ (1 ≤ lfnOrd (direntAt cbuf i) ∧ lfnOrd (direntAt cbuf i) ≤ 20)) (ld : Loading) :
    loadLfn cbuf (i * 32) ld = .error .overflow := by
  have ord : lfnOrd (direntAt cbuf i) = (cbuf (i * 32)).toNat &&& 0x1F := rfl
  rw [ord] at unfit
  rw [loadLfn, if_pos (by omega)]

theorem Loading.Follows.closed {e : Mem} {before : List Mem} (follows : ld.Follows before) (noLfn : isLfn e = false) :
    Loading.Follows { ld with lfnHave := false } (e :: before) := by
  constructor
  · rw [longName, noLfn]
    exact iff_of_false Bool.false_ne_true fun name => name rfl
  · exact follows.size
  · intro opened
    cases opened

theorem Loading.Follows.congr {before : List Mem} (follows : ld.Follows before) (open_ : ld'.lfnHave = ld.lfnHave)
    (buf : ld'.lfnBuf = ld.lfnBuf) : ld'.Follows before := by
  constructor
  · rw [open_]
    exact follows.open_
  · rw [buf]
    exact follows.size
  · rw [open_, buf]
    exact follows.long

theorem cString_length {bytes : List UInt8} (long : nameSize ≤ bytes.length) :
    (cString (bytes.take nameSize)).length = nameSize ↔ ∀ k < nameSize, bytes.getD k 0 ≠ 0 := by
  have taken : (bytes.take nameSize).length = nameSize := List.length_take_of_le long
  constructor
  · intro full k small
    have whole : cString (bytes.take nameSize) = bytes.take nameSize :=
      (List.takeWhile_prefix _).eq_of_length (full.trans taken.symm)
    have member : bytes.getD k 0 ∈ bytes.take nameSize := by
      rw [List.getD_eq_getElem _ _ (Nat.lt_of_lt_of_le small long)]
      exact List.mem_take_iff_getElem.mpr ⟨k, by omega, rfl⟩
    rw [← whole, cString] at member
    have kept := List.mem_takeWhile_imp member
    exact of_decide_eq_true kept
  · intro all
    have whole : cString (bytes.take nameSize) = bytes.take nameSize := by
      apply List.takeWhile_eq_self_iff.mpr
      intro c member
      obtain ⟨k, small, rfl⟩ := List.mem_take_iff_getElem.mp member
      have nonzero := all k (by omega)
      rw [List.getD_eq_getElem _ _ (by omega)] at nonzero
      exact decide_eq_true nonzero
    rw [whole, taken]

theorem entryName_fits {before : List Mem} (follows : ld.Follows before) (cbuf : Mem) (e : Nat) :
    entryName cbuf e ld = .error .overflow ↔
      ¬ (longName before = [] ∨ ∃ k < nameSize, character (longName before) k = 0) := by
  rw [entryName, not_or]
  split
  · rename_i opened
    have long := follows.long opened
    have room : nameSize ≤ ld.lfnBuf.length := by
      rw [follows.size]
      decide
    have full : (cString (ld.lfnBuf.take 256)).length = 256 ↔ ¬ ∃ k < nameSize, character (longName before) k = 0 := by
      refine (cString_length room).trans ?_
      constructor
      · rintro all ⟨k, small, zero⟩
        exact all k small ((long k (by rw [lfnBufSize]; rw [nameSize] at small; omega)).trans zero)
      · intro none k small zero
        exact none ⟨k, small, (long k (by rw [lfnBufSize]; rw [nameSize] at small; omega)).symm.trans zero⟩
    rw [and_iff_right (follows.open_.mp opened), ← full]
    dsimp only
    split
    · rename_i here
      exact iff_of_true rfl here
    · rename_i short
      exact iff_of_false (by rintro ⟨⟩) short
  · rename_i closed
    apply iff_of_false
    · rintro ⟨⟩
    · rintro ⟨name, _⟩
      exact closed (follows.open_.mpr name)

theorem entryName_cases (cbuf : Mem) (e : Nat) (ld : Loading) :
    entryName cbuf e ld = .error .overflow ∨ ∃ name, entryName cbuf e ld = .ok name := by
  rw [entryName]
  split
  · dsimp only
    split
    · exact Or.inl rfl
    · exact Or.inr ⟨_, rfl⟩
  · exact Or.inr ⟨_, rfl⟩

theorem createFat32Node_disk (dev : Device) (fs : State) (name : List UInt8) (isDir : Bool) (cluster size : Nat) :
    (createFat32Node dev fs name isDir cluster size).2.disk = fs.disk := by
  rw [createFat32Node]
  cases first : dev.allocOk fs.clock with
  | false =>
    simp only [heapAlloc, first]
    rfl
  | true =>
    cases second : dev.allocOk (fs.clock + 1) with
    | false =>
      simp only [heapAlloc, first, State.tick, second]
    | true =>
      simp only [heapAlloc, first, State.tick, second]

theorem addKid_keeps (dev : Device) (ld : Loading) (child : Nat) (fs : State) :
    (addKid dev ld child fs).2.1.lfnHave = ld.lfnHave ∧ (addKid dev ld child fs).2.1.lfnBuf = ld.lfnBuf ∧
      (addKid dev ld child fs).2.2.disk = fs.disk ∧
      ((∀ t, dev.allocOk t = true) → (addKid dev ld child fs).1 = true) := by
  rw [addKid, heapAlloc]
  split
  · cases room : dev.allocOk fs.clock with
    | false => exact ⟨rfl, rfl, rfl, fun all => absurd (room.symm.trans (all fs.clock)) Bool.false_ne_true⟩
    | true => exact ⟨rfl, rfl, rfl, fun _ => rfl⟩
  · exact ⟨rfl, rfl, rfl, fun _ => rfl⟩

theorem loadEntry_overflow {before : List Mem} {baseLba : Nat} (follows : ld.Follows before) (used : cbuf (i * 32) ≠ 0x00)
    (unfit : ¬ EntryFits before (direntAt cbuf i)) : loadEntry dev baseLba cbuf i ld fs = .error .overflow := by
  have first : direntAt cbuf i 0 = cbuf (i * 32) := rfl
  have attr : direntAttr (direntAt cbuf i) = (cbuf (i * 32 + 11)).toNat := rfl
  rw [EntryFits, isLfn, isShort, first, attr] at unfit
  rw [loadEntry]
  dsimp only
  rw [if_neg used]
  by_cases deleted : cbuf (i * 32) = 0xE5
  · simp [deleted] at unfit
  rw [if_neg deleted]
  by_cases lfn : (cbuf (i * 32 + 11)).toNat &&& attrLfn = attrLfn
  · rw [if_pos lfn, loadLfn_overflow]
    · rfl
    · intro part
      apply unfit
      simp [deleted, lfn, part]
  rw [if_neg lfn]
  by_cases label : (cbuf (i * 32 + 11)).toNat &&& attrVolumeId = 0
  · rw [if_neg (not_not.mpr label), (entryName_fits follows cbuf (i * 32)).mpr]
    · rfl
    · intro short
      apply unfit
      simp only [lfn, decide_false, Bool.and_false, Bool.false_eq_true, false_implies, true_and]
      exact fun _ => short
  · simp [deleted, lfn, label] at unfit

theorem loadEntry_follows {before : List Mem} (dev : Device) (baseLba : Nat) (fs : State) (follows : ld.Follows before)
    (used : cbuf (i * 32) ≠ 0x00) (fits : EntryFits before (direntAt cbuf i)) :
    ∃ more ld' fs', loadEntry dev baseLba cbuf i ld fs = .ok (more, ld', fs') ∧
      ld'.Follows (direntAt cbuf i :: before) ∧ fs'.disk = fs.disk ∧ ((∀ t, dev.allocOk t = true) → more = true) := by
  have first : direntAt cbuf i 0 = cbuf (i * 32) := rfl
  have attr : direntAttr (direntAt cbuf i) = (cbuf (i * 32 + 11)).toNat := rfl
  rw [EntryFits] at fits
  rw [loadEntry]
  dsimp only
  rw [if_neg used]
  by_cases deleted : cbuf (i * 32) = 0xE5
  · rw [if_pos deleted]
    refine ⟨_, _, _, rfl, follows.closed ?_, rfl, fun _ => rfl⟩
    simp [isLfn, first, deleted]
  rw [if_neg deleted]
  by_cases lfn : (cbuf (i * 32 + 11)).toNat &&& attrLfn = attrLfn
  · have isLfn_ : isLfn (direntAt cbuf i) = true := by simp [isLfn, first, attr, deleted, lfn]
    obtain ⟨ld', loaded, follows'⟩ := loadLfn_follows follows isLfn_ (fits.1 isLfn_)
    rw [if_pos lfn, loaded]
    exact ⟨_, _, _, rfl, follows', rfl, fun _ => rfl⟩
  rw [if_neg lfn]
  have closed := follows.closed (e := direntAt cbuf i) (by simp [isLfn, first, attr, lfn])
  by_cases label : (cbuf (i * 32 + 11)).toNat &&& attrVolumeId = 0
  · have short := fits.2 (by simp [isShort, first, attr, deleted, lfn, label])
    rw [if_neg (not_not.mpr label)]
    rcases entryName_cases cbuf (i * 32) ld with unnamed | ⟨name, named⟩
    · exact absurd short ((entryName_fits follows cbuf (i * 32)).mp unnamed)
    rw [named]
    show ∃ more ld' fs', (if name = [dot] ∨ name = [dot, dot] ∨ name = [] then _ else _) = _ ∧ _
    split
    · exact ⟨_, _, _, rfl, closed, rfl, fun _ => rfl⟩
    have disk := createFat32Node_disk dev fs name (decide ((cbuf (i * 32 + 11)).toNat &&& attrDirectory ≠ 0))
      (load cbuf (i * 32 + 20) 2 <<< 16 ||| load cbuf (i * 32 + 26) 2)
      (if decide ((cbuf (i * 32 + 11)).toNat &&& attrDirectory ≠ 0) = true then 0 else load cbuf (i * 32 + 28) 4)
    split
    · rename_i created
      rw [created] at disk
      exact ⟨_, _, _, rfl, closed, disk, fun _ => rfl⟩
    · rename_i child fs₁ created
      rw [created] at disk
      obtain ⟨open_, buf, disk', more⟩ := addKid_keeps dev { ld with lfnHave := false } child
        (fs₁.setDirent child (u32 (baseLba + i * 32 / sectorSize)) (i * 32 % sectorSize))
      refine ⟨_, _, _, rfl, ?_, disk'.trans disk, more⟩
      exact closed.congr open_ buf
  · rw [if_pos label]
    exact ⟨_, _, _, rfl, closed, rfl, fun _ => rfl⟩

def direntsAt (cbuf : Mem) (i rounds : Nat) : List Mem := (List.range' i rounds).map (direntAt cbuf)

theorem direntsAt_succ (cbuf : Mem) (i rounds : Nat) :
    direntsAt cbuf i (rounds + 1) = direntAt cbuf i :: direntsAt cbuf (i + 1) rounds := rfl

theorem fitBehind_end {before rest : List Mem} {e : Mem} (last : e 0 = 0x00) : FitBehind before (e :: rest) := by
  rw [FitBehind, List.takeWhile_cons, if_neg (by rw [last]; decide)]
  exact eachStep_nil _

theorem fitBehind_cons {before rest : List Mem} {e : Mem} (used : e 0 ≠ 0x00) :
    FitBehind before (e :: rest) ↔ EntryFits before e ∧ FitBehind (e :: before) rest := by
  rw [FitBehind, List.takeWhile_cons, if_pos (decide_eq_true used), eachStep_cons]
  rfl

/-- What a pass through some entries does. It goes on behind them only if there is no end mark
among them, and then it does so unless memory runs out. -/
structure Passes (dev : Device) (before entries : List Mem) (fs : State) (more : Bool) (ld' : Loading) (fs' : State) : Prop where
  disk : fs'.disk = fs.disk
  goesOn : more = true → (∀ e ∈ entries, e 0 ≠ 0x00) ∧ FitBehind before entries ∧ ld'.Follows (entries.reverse ++ before)
  ends : (∀ t, dev.allocOk t = true) → FitBehind before entries ∧ ((∀ e ∈ entries, e 0 ≠ 0x00) → more = true)

theorem entryLoop_passes (dev : Device) (baseLba : Nat) (cbuf : Mem) : ∀ (rounds i : Nat) (fs : State) {before : List Mem} {ld : Loading},
    ld.Follows before →
    entryLoop dev baseLba cbuf rounds i ld fs = .error .overflow ∧ ¬ FitBehind before (direntsAt cbuf i rounds) ∨
      ∃ more ld' fs', entryLoop dev baseLba cbuf rounds i ld fs = .ok (more, ld', fs') ∧
        Passes dev before (direntsAt cbuf i rounds) fs more ld' fs' := by
  intro rounds
  induction rounds with
  | zero =>
    intro i fs before ld follows
    have all : ∀ e ∈ direntsAt cbuf i 0, e 0 ≠ 0x00 := by rintro e ⟨⟩
    exact Or.inr ⟨true, ld, fs, rfl, rfl, fun _ => ⟨all, eachStep_nil _, follows⟩, fun _ => ⟨eachStep_nil _, fun _ => rfl⟩⟩
  | succ rounds ih =>
    intro i fs before ld follows
    rw [direntsAt_succ, entryLoop]
    by_cases used : cbuf (i * 32) = 0x00
    · -- the end mark
      have last : loadEntry dev baseLba cbuf i ld fs = .ok (false, ld, fs) := if_pos used
      rw [last]
      refine Or.inr ⟨false, ld, fs, rfl, rfl, fun other => absurd other Bool.false_ne_true, fun _ => ?_⟩
      constructor
      · exact fitBehind_end (e := direntAt cbuf i) used
      · intro all
        exact absurd used (all (direntAt cbuf i) List.mem_cons_self)
    have here : direntAt cbuf i 0 ≠ 0x00 := used
    by_cases fits : EntryFits before (direntAt cbuf i)
    · obtain ⟨more, ld₁, fs₁, loaded, follows₁, disk₁, on⟩ := loadEntry_follows dev baseLba fs follows used fits
      rw [loaded]
      cases more with
      | false =>
        refine Or.inr ⟨false, ld₁, fs₁, rfl, disk₁, fun other => absurd other Bool.false_ne_true, fun all => ?_⟩
        exact absurd (on all) Bool.false_ne_true
      | true =>
        rcases ih (i + 1) fs₁ follows₁ with ⟨faults, unfit⟩ | ⟨more, ld', fs', returns, passes⟩
        · left
          refine ⟨faults, ?_⟩
          rw [fitBehind_cons here]
          exact fun both => unfit both.2
        · right
          refine ⟨more, ld', fs', returns, passes.disk.trans disk₁, fun goes => ?_, fun all => ?_⟩
          · obtain ⟨rest, fit, follows'⟩ := passes.goesOn goes
            rw [List.reverse_cons, List.append_assoc]
            exact ⟨List.forall_mem_cons.mpr ⟨here, rest⟩, (fitBehind_cons here).mpr ⟨fits, fit⟩, follows'⟩
          · obtain ⟨fit, ends⟩ := passes.ends all
            exact ⟨(fitBehind_cons here).mpr ⟨fits, fit⟩, fun rest => ends fun e member => rest e (List.mem_cons_of_mem _ member)⟩
    · left
      rw [loadEntry_overflow follows used fits]
      exact ⟨rfl, fun fit => fits ((fitBehind_cons here).mp fit).1⟩

end

def orderZero : Mem := fun i => if i = 0 then 0x40 else if i = 11 then 0x0F else 0x41

theorem order_zero_overflows : ¬ ∀ entries lfnBuf, InBounds ∅ (nameEntries entries ⟨lfnBuf, false⟩) := by
  intro all
  have first := (lfnEntry_inBounds ∅ orderZero ⟨fun _ => 0, false⟩).mp
  have inBounds := all [orderZero] fun _ => 0
  have zero : lfnOrd orderZero = 0 := by decide
  rw [nameEntries, if_neg (by decide), nameEntries, List.append_nil] at inBounds
  exact absurd (first inBounds).1 (by rw [zero]; decide)

end RexOs.Fs
