import RexOs.User.Iconv

/-! Which UTF-8 `iconv` accepts.

A well-formed sequence matches the masks, and its value has the size of the sequence. So the
longest well-formed prefix is converted, and what is reported depends on the bytes behind it.
-/

set_option autoImplicit false

namespace RexOs.User.Iconv

open RexOs.Library RexOs.Library.Utf8

theorem lead_eq (c : UInt8) : lead c =
    if c.toNat < 0x80 then some (1, c.toNat)
    else if 0xC0 ≤ c.toNat ∧ c.toNat < 0xE0 then some (2, c.toNat % 32)
    else if 0xE0 ≤ c.toNat ∧ c.toNat < 0xF0 then some (3, c.toNat % 16)
    else if 0xF0 ≤ c.toNat ∧ c.toNat < 0xF8 then some (4, c.toNat % 8)
    else none := by
  have all : ∀ n : Fin 256, lead (UInt8.ofFin n) =
      if n.val < 0x80 then some (1, n.val)
      else if 0xC0 ≤ n.val ∧ n.val < 0xE0 then some (2, n.val % 32)
      else if 0xE0 ≤ n.val ∧ n.val < 0xF0 then some (3, n.val % 16)
      else if 0xF0 ≤ n.val ∧ n.val < 0xF8 then some (4, n.val % 8)
      else none := by decide +kernel
  exact all c.toFin

theorem follows_iff (b : UInt8) : b &&& 0xC0 = 0x80 ↔ Trails b := by
  have all : ∀ n : Fin 256, UInt8.ofFin n &&& 0xC0 = 0x80 ↔ 0x80 ≤ n.val ∧ n.val < 0xC0 := by decide +kernel
  exact all b.toFin

theorem low_bits (b : UInt8) : (b &&& 0x3F).toNat = b.toNat % 64 := by
  have all : ∀ n : Fin 256, (UInt8.ofFin n &&& 0x3F).toNat = n.val % 64 := by decide +kernel
  exact all b.toFin

section
variable {cp : Nat} {b : UInt8} {bytes : List UInt8}

theorem continuation_cons (follows : Trails b) : continuation cp (b :: bytes) = continuation (cp * 64 + b.toNat % 64) bytes := by
  have small : b.toNat % 64 < 2 ^ 6 := Nat.mod_lt _ (by decide)
  rw [continuation, if_neg (not_not.mpr ((follows_iff b).mpr follows)), low_bits, ← Nat.shiftLeft_add_eq_or_of_lt small,
    Nat.shiftLeft_eq]

variable (cp) in
theorem continuation_some (follow : ∀ b ∈ bytes, b &&& 0xC0 = 0x80) : ∃ cp', continuation cp bytes = some cp' := by
  induction bytes generalizing cp with
  | nil => exact ⟨cp, rfl⟩
  | cons b bytes ih =>
    rw [List.forall_mem_cons] at follow
    rw [continuation, if_neg (not_not.mpr follow.1)]
    exact ih _ follow.2

theorem continuation_none (wrong : ∃ b ∈ bytes, b &&& 0xC0 ≠ 0x80) : continuation cp bytes = none := by
  induction bytes generalizing cp with
  | nil =>
    obtain ⟨b, none_, -⟩ := wrong
    cases none_
  | cons b bytes ih =>
    rw [continuation]
    split
    · rfl
    · rename_i fine
      obtain ⟨b', member, wrong⟩ := wrong
      rcases List.mem_cons.mp member with rfl | later
      · exact absurd wrong fine
      · exact ih ⟨b', later, wrong⟩

end

section
variable {c : UInt8} {s : List UInt8}

theorem lead_formed (formed : WellFormed (c :: s)) : ∃ bits, lead c = some (s.length + 1, bits) := by
  rw [lead_eq]
  cases formed.shape with
  | one small => exact ⟨_, if_pos small⟩
  | two low high second => exact ⟨_, by rw [if_neg (by omega), if_pos (by omega)]; rfl⟩
  | three low high second third long => exact ⟨_, by rw [if_neg (by omega), if_neg (by omega), if_pos (by omega)]; rfl⟩
  | four low high second third fourth long =>
    exact ⟨_, by rw [if_neg (by omega), if_neg (by omega), if_neg (by omega), if_pos (by omega)]; rfl⟩

theorem decode_short {tail : List UInt8} {n bits : Nat} (leads : lead c = some (n, bits)) (short : tail.length + 1 < n) :
    decode .utf8 c tail = .error .einval := by
  unfold decode
  dsimp only
  rw [leads]
  exact if_pos short

theorem decode_wrong {tail : List UInt8} {n bits : Nat} (leads : lead c = some (n, bits)) (enough : n ≤ tail.length + 1)
    (wrong : continuation bits (tail.take (n - 1)) = none) : decode .utf8 c tail = .error .eilseq := by
  unfold decode
  dsimp only
  rw [leads]
  dsimp only
  rw [if_neg (by omega), wrong]

theorem decode_right {tail : List UInt8} {n bits cp : Nat} (leads : lead c = some (n, bits)) (enough : n ≤ tail.length + 1)
    (right : continuation bits (tail.take (n - 1)) = some cp) : decode .utf8 c tail = .ok (cp, n) := by
  unfold decode
  dsimp only
  rw [leads]
  dsimp only
  rw [if_neg (by omega), right]

theorem decode_formed (formed : WellFormed (c :: s)) (tail : List UInt8) :
    ∃ cp, decode .utf8 c (s ++ tail) = .ok (cp, s.length + 1) ∧ need cp = s.length + 1 := by
  have value : ∃ bits cp, lead c = some (s.length + 1, bits) ∧ continuation bits s = some cp ∧ need cp = s.length + 1 := by
    rw [lead_eq]
    unfold need
    cases formed.shape with
    | one small => exact ⟨_, _, if_pos small, rfl, if_pos small⟩
    | @two a b low high second =>
      refine ⟨_, _, by rw [if_neg (by omega), if_pos (by omega)]; rfl, by rw [continuation_cons second, continuation], ?_⟩
      rw [if_neg (by omega), if_pos (by omega)]
      rfl
    | @three a b c low high second third long =>
      refine ⟨_, _, by rw [if_neg (by omega), if_neg (by omega), if_pos (by omega)]; rfl,
        by rw [continuation_cons second, continuation_cons third, continuation], ?_⟩
      unfold Trails at second
      rw [if_neg (by omega), if_neg (by omega), if_pos (by omega)]
      rfl
    | @four a b c d low high second third fourth long =>
      refine ⟨_, _, by rw [if_neg (by omega), if_neg (by omega), if_neg (by omega), if_pos (by omega)]; rfl,
        by rw [continuation_cons second, continuation_cons third, continuation_cons fourth, continuation], ?_⟩
      unfold Trails at second
      rw [if_neg (by omega), if_neg (by omega), if_neg (by omega)]
      rfl
  obtain ⟨bits, cp, first, rest, size⟩ := value
  refine ⟨cp, decode_right first ?_ ?_, size⟩
  · rw [List.length_append]
    omega
  · rw [Nat.add_sub_cancel, List.take_left, rest]

end

def outSize (dst : Enc) (seqs : List (List UInt8)) : Nat :=
  match dst with
  | .latin1 => seqs.length
  | .utf8 => seqs.flatten.length

/-- What is to be reported when `rest` is what follows the longest well-formed prefix. -/
structure Reports (rest : List UInt8) (r : Option Errno × Buffers) : Prop where
  left : r.2.input = rest
  done : rest = [] → r.1 = none
  incomplete : Incomplete rest → r.1 = some .einval
  illFormed : rest ≠ [] → ¬ Incomplete rest → r.1 = some .eilseq

def MasksRefuse (rest : List UInt8) : Prop := ∀ c tail, rest = c :: tail → ∀ n bits, lead c = some (n, bits) →
  n ≤ tail.length + 1 ∧ ∃ b ∈ tail.take (n - 1), b &&& 0xC0 ≠ 0x80

section
variable {dst : Enc} {cp outLeft rounds : Nat} {rest : List UInt8} {seqs : List (List UInt8)} {b : Buffers}

theorem need_cases (cp : Nat) : need cp = 1 ∨ need cp = 2 ∨ need cp = 3 ∨ need cp = 4 := by
  unfold need
  split
  · exact Or.inl rfl
  split
  · exact Or.inr (Or.inl rfl)
  split
  · exact Or.inr (Or.inr (Or.inl rfl))
  · exact Or.inr (Or.inr (Or.inr rfl))

theorem encodeUtf8_length (cp : Nat) : (encodeUtf8 cp).length = need cp := by
  unfold encodeUtf8
  rcases need_cases cp with size | size | size | size
  all_goals
    rw [size]
    rfl

theorem encode_room {s : List UInt8} (size : need cp = s.length) (room : outSize dst (s :: seqs) ≤ outLeft) :
    ∃ bytes, encode dst cp outLeft = some bytes ∧ outSize dst seqs ≤ outLeft - bytes.length := by
  cases dst with
  | latin1 =>
    have room : seqs.length + 1 ≤ outLeft := room
    have left : seqs.length ≤ outLeft - 1 := by omega
    exact ⟨_, if_neg (by omega), left⟩
  | utf8 =>
    have room : (s :: seqs).flatten.length ≤ outLeft := room
    rw [List.flatten_cons, List.length_append] at room
    refine ⟨_, if_neg (by omega), ?_⟩
    rw [encodeUtf8_length]
    show seqs.flatten.length ≤ outLeft - need cp
    omega

theorem convert_formed (formed : ∀ s ∈ seqs, WellFormed s) (enough : (seqs.flatten ++ rest).length ≤ rounds) (out : List UInt8)
    (room : outSize dst seqs ≤ outLeft) : ∃ rounds' b', rest.length ≤ rounds' ∧ b'.input = rest ∧
      convert ⟨.utf8, dst⟩ rounds ⟨seqs.flatten ++ rest, out, outLeft⟩ = convert ⟨.utf8, dst⟩ rounds' b' := by
  induction seqs generalizing rounds out outLeft with
  | nil => exact ⟨rounds, ⟨rest, out, outLeft⟩, enough, rfl, rfl⟩
  | cons s seqs ih =>
    rw [List.forall_mem_cons] at formed
    obtain ⟨c, s, rfl⟩ := formed.1.cons
    rw [List.flatten_cons, List.append_assoc, List.cons_append] at enough ⊢
    rw [List.length_cons, List.length_append] at enough
    obtain ⟨rounds, rfl⟩ := Nat.exists_eq_add_one_of_ne_zero (by omega : rounds ≠ 0)
    obtain ⟨cp, decoded, size⟩ := decode_formed formed.1 (seqs.flatten ++ rest)
    obtain ⟨bytes, encoded, room'⟩ := encode_room (s := c :: s) size room
    have enough' : (seqs.flatten ++ rest).length ≤ rounds := by omega
    obtain ⟨rounds', b', enough', input, same⟩ := ih formed.2 enough' (out ++ bytes) room'
    refine ⟨rounds', b', enough', input, ?_⟩
    rw [convert]
    dsimp only
    rw [decoded]
    dsimp only
    rw [encoded]
    dsimp only
    rw [List.drop_succ_cons, List.drop_left]
    exact same

theorem convert_shorter (cd : Cd) (rounds : Nat) (b : Buffers) : (convert cd rounds b).2.input.length ≤ b.input.length := by
  induction rounds generalizing b with
  | zero => exact Nat.le_refl _
  | succ rounds ih =>
    rw [convert]
    split
    · exact Nat.le_refl _
    split
    · exact Nat.le_refl _
    split
    · exact Nat.le_refl _
    · refine Nat.le_trans (ih _) ?_
      rw [List.length_drop]
      exact Nat.sub_le _ _

theorem lead_positive {c : UInt8} {n bits : Nat} (leads : lead c = some (n, bits)) : 1 ≤ n := by
  rw [lead_eq] at leads
  iterate 4
    split at leads
    · cases leads
      decide
  cases leads

theorem lead_incomplete {c : UInt8} {tail : List UInt8} (incomplete : Incomplete (c :: tail)) :
    ∃ n bits, lead c = some (n, bits) ∧ tail.length + 1 < n := by
  obtain ⟨-, t, some_, formed⟩ := incomplete
  obtain ⟨bits, leads⟩ := lead_formed formed
  have more := List.length_pos_iff.mpr some_
  refine ⟨_, bits, leads, ?_⟩
  show tail.length + 1 < (tail ++ t).length + 1
  rw [List.length_append]
  omega

theorem convert_error {c : UInt8} {tail out : List UInt8} {e : Errno} (refused : decode .utf8 c tail = .error e) :
    convert ⟨.utf8, dst⟩ (rounds + 1) ⟨c :: tail, out, outLeft⟩ = (some e, ⟨c :: tail, out, outLeft⟩) := by
  rw [convert]
  dsimp only
  rw [refused]

theorem convert_taken {c : UInt8} {tail out : List UInt8} {n : Nat} (decoded : decode .utf8 c tail = .ok (cp, n)) (some_ : 1 ≤ n) :
    (convert ⟨.utf8, dst⟩ (rounds + 1) ⟨c :: tail, out, outLeft⟩).1 = some .e2big ∨
      (convert ⟨.utf8, dst⟩ (rounds + 1) ⟨c :: tail, out, outLeft⟩).2.input.length ≤ tail.length := by
  rw [convert]
  dsimp only
  rw [decoded]
  dsimp only
  cases encode dst cp outLeft with
  | none => exact Or.inl rfl
  | some bytes =>
    refine Or.inr (Nat.le_trans (convert_shorter _ rounds _) ?_)
    rw [List.length_drop, List.length_cons]
    omega

theorem reports_refused {c : UInt8} {tail out : List UInt8} (refuse : MasksRefuse (c :: tail)) :
    Reports (c :: tail) (convert ⟨.utf8, dst⟩ (rounds + 1) ⟨c :: tail, out, outLeft⟩) := by
  have complete : ¬ Incomplete (c :: tail) := by
    intro incomplete
    obtain ⟨n, bits, leads, long⟩ := lead_incomplete incomplete
    have short := (refuse c tail rfl n bits leads).1
    omega
  have refused : decode .utf8 c tail = .error .eilseq := by
    cases leads : lead c with
    | none =>
      unfold decode
      dsimp only
      rw [leads]
    | some first =>
      obtain ⟨n, bits⟩ := first
      obtain ⟨short, wrong⟩ := refuse c tail rfl n bits leads
      exact decode_wrong leads short (continuation_none wrong)
  rw [convert_error refused]
  exact ⟨rfl, fun none_ => absurd none_ (List.cons_ne_nil _ _), fun incomplete => absurd incomplete complete, fun _ _ => rfl⟩

theorem refused_of_reports {c : UInt8} {tail out : List UInt8} (complete : ¬ Incomplete (c :: tail))
    (reports : Reports (c :: tail) (convert ⟨.utf8, dst⟩ (rounds + 1) ⟨c :: tail, out, outLeft⟩)) : MasksRefuse (c :: tail) := by
  have wrong := reports.illFormed (List.cons_ne_nil _ _) complete
  rintro c tail ⟨rfl⟩ n bits leads
  by_cases short : n ≤ tail.length + 1
  · refine ⟨short, ?_⟩
    by_contra fine
    have follow : ∀ b ∈ tail.take (n - 1), b &&& 0xC0 = 0x80 := by
      intro b member
      by_contra other
      exact fine ⟨b, member, other⟩
    obtain ⟨cp, value⟩ := continuation_some bits follow
    rcases convert_taken (decode_right leads short value) (lead_positive leads) with full | shorter
    · rw [full] at wrong
      cases wrong
    · rw [reports.left, List.length_cons] at shorter
      omega
  · rw [convert_error (decode_short leads (Nat.not_le.mp short))] at wrong
    cases wrong

theorem convert_reports (enough : b.input.length ≤ rounds) :
    Reports b.input (convert ⟨.utf8, dst⟩ rounds b) ↔ Incomplete b.input ∨ MasksRefuse b.input := by
  obtain ⟨input, out, outLeft⟩ := b
  dsimp only at enough ⊢
  cases input with
  | nil =>
    have ended : convert ⟨.utf8, dst⟩ rounds ⟨[], out, outLeft⟩ = (none, ⟨[], out, outLeft⟩) := by cases rounds <;> rfl
    rw [ended]
    constructor
    · exact fun _ => Or.inr fun _ _ none_ => absurd none_.symm (List.cons_ne_nil _ _)
    · exact fun _ => ⟨rfl, fun _ => rfl, fun incomplete => absurd rfl incomplete.1, fun some_ => absurd rfl some_⟩
  | cons c tail =>
    rw [List.length_cons] at enough
    obtain ⟨rounds, rfl⟩ := Nat.exists_eq_add_one_of_ne_zero (by omega : rounds ≠ 0)
    constructor
    · intro reports
      by_cases incomplete : Incomplete (c :: tail)
      · exact Or.inl incomplete
      · exact Or.inr (refused_of_reports incomplete reports)
    · rintro (incomplete | refuse)
      · obtain ⟨n, bits, leads, long⟩ := lead_incomplete incomplete
        rw [convert_error (decode_short leads long)]
        exact ⟨rfl, fun none_ => absurd none_ (List.cons_ne_nil _ _), fun _ => rfl, fun _ complete => absurd incomplete complete⟩
      · exact reports_refused refuse

end

/-- Every input has a longest well-formed prefix. With room for that, it is what is taken, and the rest is reported as it
should be, if and only if the rest is incomplete or the masks refuse it, too. -/
theorem iconv_wellFormed (dst : Enc) (input : List UInt8) : (∃ seqs rest, Longest input seqs rest) ∧
    ∀ seqs rest, Longest input seqs rest → ∀ outLeft, outSize dst seqs ≤ outLeft →
      (Reports rest (iconv (some ⟨.utf8, dst⟩) (some input) outLeft) ↔ Incomplete rest ∨ MasksRefuse rest) := by
  refine ⟨longest_exists input, fun seqs rest longest outLeft room => ?_⟩
  have all : (seqs.flatten ++ rest).length ≤ input.length := by rw [longest.whole]
  obtain ⟨rounds, b, enough, left, same⟩ := convert_formed longest.formed all [] room
  rw [iconv]
  rw [← longest.whole] at same
  rw [same, ← left]
  exact convert_reports (by rw [left]; exact enough)

/-- The overlong form of the zero byte is no sequence, but it is converted. -/
theorem iconv_overlong : iconvOpen true (ascii "ISO-8859-1") (ascii "UTF-8") = .ok ⟨.utf8, .latin1⟩ ∧
    Longest [0xC0, 0x80] [] [0xC0, 0x80] ∧
    iconv (some ⟨.utf8, .latin1⟩) (some [0xC0, 0x80]) 8 = (none, ⟨[], [0], 7⟩) ∧
    ¬ Reports [0xC0, 0x80] (iconv (some ⟨.utf8, .latin1⟩) (some [0xC0, 0x80]) 8) := by
  have converted : iconv (some ⟨.utf8, .latin1⟩) (some [0xC0, 0x80]) 8 = (none, ⟨[], [0], 7⟩) := by decide
  have formed : ∀ s ∈ ([] : List (List UInt8)), WellFormed s := fun _ none_ => absurd none_ List.not_mem_nil
  have stop : ∀ s, WellFormed s → ¬ s <+: [0xC0, 0x80] := by
    intro s formed here
    obtain ⟨c, s, rfl⟩ := formed.cons
    obtain rfl := (List.cons_prefix_cons.mp here).1
    cases formed.shape with
    | one small => exact absurd small (by decide)
    | two low | three low | four low => exact absurd low (by decide)
  refine ⟨by decide, ⟨rfl, formed, fun _ formed' => longest_of_stop formed stop formed'⟩, converted, fun reports => ?_⟩
  have left := reports.left
  rw [converted] at left
  cases left

end RexOs.User.Iconv
