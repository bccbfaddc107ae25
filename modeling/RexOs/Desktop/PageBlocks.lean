import RexOs.Desktop.Entity
import RexOs.Library.Buffer
import RexOs.Library.Spaces

/-! The text blocks of a page (`blocks_push` and `clean_text` of `user/desktop/app_browser.c`).

`clean_text` works within its buffer: what it writes is never ahead of what it reads.
-/

set_option autoImplicit false

namespace RexOs.Desktop.Browser

open RexOs.Library

def blockMax : Nat := 256

def blockTextMax : Nat := 1024

structure Block where
  kind : Int
  text : List UInt8
  deriving DecidableEq, Repr

/-- `s_blocks` and `s_block_count`. -/
structure BlockTable where
  blocks : List Block
  count : Nat
  deriving DecidableEq, Repr

def BlockTable.used (table : BlockTable) : List Block := table.blocks.take table.count

def blocksReset (table : BlockTable) : BlockTable := { table with count := 0 }

/-- `while (text[i] && i < BR_BLOCK_TEXT_MAX - 1)`: what is in the block, and `i`. -/
def copyLoop (text : List UInt8) : Nat → List UInt8 → Nat → Except Fault (List UInt8 × Nat)
  | 0, _, _ => .error .hang
  | fuel + 1, out, i => do
      let c ← readByte .read text i
      if c ≠ 0 ∧ i < blockTextMax - 1 then do
        let out ← writeByte .write out i c
        copyLoop text fuel out (i + 1)
      else .ok (out, i)

def blocksPush (table : BlockTable) (kind : Int) (text : List UInt8) : Except Fault BlockTable :=
  if blockMax ≤ table.count then .ok table
  else match table.blocks[table.count]? with
    | none => .error .write
    | some block => do
        let (out, i) ← copyLoop text blockTextMax block.text 0
        let out ← writeByte .write out i 0
        .ok ⟨table.blocks.set table.count ⟨kind, out⟩, table.count + 1⟩

/-- `while (t[i])`: the text, and `j`. -/
def squeezeLoop : Nat → List UInt8 → Nat → Nat → Bool → Except Fault (List UInt8 × Nat)
  | 0, _, _, _, _ => .error .hang
  | fuel + 1, t, i, j, prevSp => do
      let c ← readByte .read t i
      if c = 0 then .ok (t, j)
      else
        let c := if isBreak c then 32 else c
        if c = 32 then
          if prevSp then squeezeLoop fuel t (i + 1) j true
          else do
            let t ← writeByte .write t j 32
            squeezeLoop fuel t (i + 1) (j + 1) true
        else do
          let t ← writeByte .write t j c
          squeezeLoop fuel t (i + 1) (j + 1) false

/-- `while (j > 0 && t[j-1] == ' ')` -/
def trimLoop (t : List UInt8) : Nat → Except Fault Nat
  | 0 => .ok 0
  | j + 1 => do
      let c ← readByte .read t j
      if c = 32 then trimLoop t j else .ok (j + 1)

def cleanText (t : List UInt8) : Except Fault (List UInt8) := do
  let (t, j) ← squeezeLoop (t.length + 1) t 0 0 true
  let j ← trimLoop t j
  writeByte .write t j 0

section
variable {t s : List UInt8} {i j : Nat} {space : Bool}

theorem readByte_drop {c : UInt8} {rest : List UInt8} (here : t.drop i = c :: rest) : readByte Fault.read t i = .ok c := by
  have same := congrArg List.head? here
  rw [List.head?_drop, List.head?_cons] at same
  rw [readByte, same]
  rfl

theorem drop_next {c : UInt8} {rest : List UInt8} (here : t.drop i = c :: rest) : i < t.length ∧ t.drop (i + 1) = rest := by
  refine ⟨Nat.lt_of_not_le fun le => ?_, ?_⟩
  · rw [List.drop_eq_nil_of_le le] at here
    cases here
  · rw [← List.drop_drop, here]
    rfl

theorem squeezeLoop_eq (s rest : List UInt8) (fuel : Nat) (t : List UInt8) (i j : Nat) (space : Bool) (nonzero : ∀ c ∈ s, c ≠ 0)
    (here : t.drop i = s ++ 0 :: rest) (behind : j ≤ i) (enough : s.length < fuel) :
    squeezeLoop fuel t i j space = .ok (overwrite t j (collapse space s), j + (collapse space s).length) := by
  induction s generalizing fuel t i j space with
  | nil =>
    obtain ⟨fuel, rfl⟩ := Nat.exists_eq_add_of_lt enough
    rw [List.length_nil, Nat.zero_add, squeezeLoop, readByte_drop here, collapse, overwrite_nil]
    rfl
  | cons c s ih =>
    obtain ⟨fuel, rfl⟩ := Nat.exists_eq_succ_of_ne_zero (Nat.ne_of_gt (Nat.zero_lt_of_lt enough))
    rw [List.forall_mem_cons] at nonzero
    rw [List.cons_append] at here
    obtain ⟨inside, next⟩ := drop_next here
    have room : j < t.length := by omega
    -- A byte is written, and the rest of the text stays as it was.
    have written (b : UInt8) (space : Bool) : squeezeLoop fuel (t.set j b) (i + 1) (j + 1) space =
        .ok (overwrite t j (b :: collapse space s), j + (b :: collapse space s).length) := by
      rw [ih fuel (t.set j b) (i + 1) (j + 1) space nonzero.2 (by rw [List.drop_set_of_lt (by omega), next]) (by omega)
        (Nat.lt_of_succ_lt_succ enough), overwrite_cons room, List.length_cons, Nat.add_assoc, Nat.add_comm 1]
    rw [squeezeLoop, readByte_drop here]
    show (if c = 0 then _ else _) = _
    rw [if_neg nonzero.1]
    by_cases blank : (if isBreak c then 32 else c) = 32
    · rw [if_pos blank, collapse_space blank]
      cases space with
      | true => exact ih fuel t (i + 1) j true nonzero.2 next (by omega) (Nat.lt_of_succ_lt_succ enough)
      | false =>
        rw [if_neg Bool.false_ne_true, writeByte_ok room]
        exact written 32 true
    · have plain : (if isBreak c then 32 else c) = c := by rw [(letter_iff.mp blank).1, if_neg Bool.false_ne_true]
      rw [if_neg blank, collapse_letter blank, plain, writeByte_ok room]
      exact written c false

theorem trimLoop_eq (t : List UInt8) (le : j ≤ t.length) : trimLoop t j = .ok (trimEnd (t.take j)).length := by
  induction j with
  | zero => rfl
  | succ j ih =>
    have last : t.take (j + 1) = t.take j ++ [t[j]] := (List.take_append_getElem le).symm
    have read : readByte Fault.read t j = .ok t[j] := readByte_ok le
    rw [trimLoop, read, last, trimEnd, List.rdropWhile_concat]
    show (if t[j] = 32 then _ else _) = _
    by_cases blank : t[j] = 32
    · rw [if_pos blank, if_pos (decide_eq_true blank)]
      exact ih (Nat.le_of_succ_le le)
    · rw [if_neg blank, if_neg (by simpa using blank), List.length_append, List.length_take, Nat.min_eq_left (Nat.le_of_succ_le le)]
      rfl

def cleaned (s : List UInt8) : List UInt8 := trimEnd (collapse true s)

theorem cleaned_tidy (s : List UInt8) : Tidy (cleaned s) := tidy_trimEnd s

theorem cleaned_le (s : List UInt8) : (cleaned s).length ≤ (collapse true s).length := (trimEnd_start _).length_le

theorem collapsed_length (text : Text t s) : (collapse true s ++ t.drop (collapse true s).length).length = t.length := by
  have shorter := collapse_length true s
  have room := text.length_lt
  rw [List.length_append, List.length_drop]
  omega

theorem cleanText_eq (text : Text t s) :
    cleanText t = .ok ((collapse true s ++ t.drop (collapse true s).length).set (cleaned s).length 0) := by
  obtain ⟨rest, whole⟩ := text.stored
  have shorter := collapse_length true s
  have shortest := cleaned_le s
  have room := text.length_lt
  have squeezed := squeezeLoop_eq s rest (t.length + 1) t 0 0 true text.nonzero whole (Nat.le_refl 0) (by omega)
  rw [Nat.zero_add, overwrite_zero] at squeezed
  have length := collapsed_length text
  rw [cleanText, squeezed]
  show (trimLoop _ _ >>= fun j => writeByte Fault.write _ j 0) = _
  rw [trimLoop_eq _ (by omega), List.take_left']
  · exact writeByte_ok (by rw [length]; exact Nat.lt_of_le_of_lt shortest (by omega))
  · rfl

theorem cleanText_text (text : Text t s) : Safe (cleanText t) fun t' => t'.length = t.length ∧ Text t' (cleaned s) := by
  have shorter := collapse_length true s
  have shortest := cleaned_le s
  have room := text.length_lt
  have length := collapsed_length text
  rw [cleanText_eq text]
  refine Safe.ok ⟨by rw [List.length_set, length], text_set (fun c member => ?_) (by omega) ?_⟩
  · exact collapse_nonzero true text.nonzero c ((trimEnd_start _).subset member)
  · exact (trimEnd_start _).trans (List.prefix_append _ _)

theorem cleanText_tidy (text : Text t s) (tidy : Tidy s) : cleanText t = .ok t := by
  obtain ⟨rest, whole⟩ := text.stored
  rw [cleanText_eq text, cleaned, tidy.collapse_eq, tidy.trimEnd_eq, whole, List.drop_left, List.set_append_right _ _ (Nat.le_refl _),
    Nat.sub_self, List.set_cons_zero]

theorem cleanText_again (zero : 0 ∈ t) : Safe (cleanText t) fun t' => cleanText t' = .ok t' := by
  obtain ⟨s, text⟩ := exists_text zero
  exact (cleanText_text text).mono fun t' holds => cleanText_tidy holds.2 (cleaned_tidy s)

end

/-- The table and its blocks have the sizes of their arrays, and every block in use holds a tidy string. -/
structure BlockTable.Sound (table : BlockTable) : Prop where
  size : table.blocks.length = blockMax
  texts : ∀ b ∈ table.blocks, b.text.length = blockTextMax
  count : table.count ≤ blockMax
  tidy : ∀ b ∈ table.used, ∃ s, Text b.text s ∧ Tidy s

section
variable {table : BlockTable} {text s : List UInt8}

theorem copyLoop_eq (s rest : List UInt8) (fuel : Nat) (out : List UInt8) (i : Nat) (nonzero : ∀ c ∈ s, c ≠ 0)
    (here : text.drop i = s ++ 0 :: rest) (small : i + s.length < blockTextMax) (size : out.length = blockTextMax) (enough : s.length < fuel) :
    copyLoop text fuel out i = .ok (overwrite out i s, i + s.length) := by
  induction s generalizing fuel out i with
  | nil =>
    obtain ⟨fuel, rfl⟩ := Nat.exists_eq_add_of_lt enough
    rw [List.length_nil, Nat.zero_add, copyLoop, readByte_drop here, overwrite_nil]
    rfl
  | cons c s ih =>
    obtain ⟨fuel, rfl⟩ := Nat.exists_eq_succ_of_ne_zero (Nat.ne_of_gt (Nat.zero_lt_of_lt enough))
    rw [List.forall_mem_cons] at nonzero
    rw [List.cons_append] at here
    rw [List.length_cons] at small
    have room : i < out.length := by omega
    rw [copyLoop, readByte_drop here]
    show (if c ≠ 0 ∧ i < blockTextMax - 1 then _ else _) = _
    rw [if_pos ⟨nonzero.1, by omega⟩, writeByte_ok room]
    show copyLoop text fuel (out.set i c) (i + 1) = _
    rw [ih fuel (out.set i c) (i + 1) nonzero.2 (drop_next here).2 (by omega) (by rw [List.length_set, size]) (Nat.lt_of_succ_lt_succ enough),
      overwrite_cons room, List.length_cons, Nat.add_assoc, Nat.add_comm 1]

theorem blocksPush_sound (sound : table.Sound) (kind : Int) (stored : Text text s) (tidy : Tidy s) (small : s.length < blockTextMax) :
    Safe (blocksPush table kind text) BlockTable.Sound := by
  refine Safe.ite (fun _ => Safe.ok sound) fun room => ?_
  have inside : table.count < table.blocks.length := by
    rw [sound.size]
    omega
  have size := sound.texts _ (List.getElem_mem inside)
  obtain ⟨rest, whole⟩ := stored.stored
  have copied := copyLoop_eq s rest blockTextMax (table.blocks[table.count]).text 0 stored.nonzero whole (by omega) size small
  rw [Nat.zero_add, overwrite_zero] at copied
  have length : (s ++ (table.blocks[table.count]).text.drop s.length).length = blockTextMax := by
    rw [List.length_append, List.length_drop, size]
    omega
  rw [List.getElem?_eq_getElem inside]
  show Safe (copyLoop text blockTextMax (table.blocks[table.count]).text 0 >>= _) _
  rw [copied]
  show Safe (writeByte Fault.write _ s.length 0 >>= _) _
  rw [writeByte_ok (by omega)]
  refine Safe.ok ⟨by rw [List.length_set, sound.size], fun b member => ?_, Nat.lt_of_not_le room, fun b member => ?_⟩
  · rcases List.mem_or_eq_of_mem_set member with old | rfl
    · exact sound.texts b old
    · rw [List.length_set, length]
  · rw [BlockTable.used, List.take_add_one, List.take_set_of_le (Nat.le_refl _), List.getElem?_set_self inside] at member
    rcases List.mem_append.mp member with old | new
    · exact sound.tidy b old
    · rw [Option.toList_some, List.mem_singleton] at new
      subst new
      exact ⟨s, text_set stored.nonzero (by omega) (List.prefix_append _ _), tidy⟩

theorem blocksReset_sound (size : table.blocks.length = blockMax) (texts : ∀ b ∈ table.blocks, b.text.length = blockTextMax) :
    (blocksReset table).Sound :=
  ⟨size, texts, Nat.zero_le _, fun b member => by cases member⟩

end

end RexOs.Desktop.Browser
