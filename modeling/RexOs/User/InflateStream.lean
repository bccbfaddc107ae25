import RexOs.User.InflateData

/-! `rex_inflate` decodes DEFLATE streams whose dynamic blocks declare at most 30 distance codes.

The format allows 32 of them, of which the last two are never used; the source
refuses a block that declares more than `MAXDCODES`.
-/

set_option autoImplicit false

namespace RexOs.User

open RexOs.Library

variable {src : List UInt8} {cap pos next : Nat} {out final : List UInt8} {s : Inf}

theorem At.bytes {i n : Nat} (at_ : At src cap (8 * i) out s) (inside : i + n ≤ src.length) :
    s.incnt = i ∧ At src cap (8 * (i + n)) out { s with incnt := s.incnt + n } := by
  have place := at_.place
  have few := at_.few
  have none : s.bitcnt = 0 := by omega
  have buffer := at_.buffer
  rw [none] at buffer
  refine ⟨by omega, at_.source, at_.capacity, at_.written, at_.fine, ?_, ?_, few, ?_⟩
  · simp only
    omega
  · simp only
    omega
  · simp only [none, buffer]
    rfl

theorem storedLoop_at : ∀ (len i : Nat) {s : Inf} {out : List UInt8}, At src cap (8 * i) out s →
    i + len ≤ src.length → out.length + len ≤ cap →
    Safe (storedLoop len s) fun r => r.1 = 0 ∧ At src cap (8 * (i + len)) (out ++ (src.drop i).take len) r.2 := by
  intro len
  induction len with
  | zero =>
    intro i s out at_ _ _
    refine Safe.ok ⟨rfl, ?_⟩
    simpa using at_
  | succ len ih =>
    intro i s out at_ inside room
    obtain ⟨rfl, at'⟩ := at_.bytes (by omega : i + 1 ≤ src.length)
    have free : s.out.length < s.outlen := by
      rw [at_.written, at_.capacity]
      omega
    rw [storedLoop]
    refine Safe.neg (by omega) ?_
    refine Safe.bind (nextByte_safe (by rw [at_.source]; omega)) ?_
    rintro ⟨b, s₁⟩ ⟨rfl, rfl⟩
    refine Safe.bind (emit_safe free) ?_
    rintro _ rfl
    have left : s.incnt < src.length := by omega
    have byte : s.src.getD s.incnt 0 = src[s.incnt] := by
      simp only [at_.source, List.getD, List.getElem?_eq_getElem left, Option.getD_some]
    have more : out ++ (src.drop s.incnt).take (len + 1) =
        (out ++ [src[s.incnt]]) ++ (src.drop (s.incnt + 1)).take len := by
      rw [List.drop_eq_getElem_cons left, List.take_succ_cons, List.append_assoc, List.singleton_append]
    have shift : s.incnt + (len + 1) = s.incnt + 1 + len := by omega
    simp only [byte]
    rw [more, shift, at_.written]
    refine ih (s.incnt + 1) (at'.write _) (by omega) ?_
    rw [List.length_append, List.length_singleton]
    omega

theorem infStored_at {b : Nat} (at_ : At src cap pos out s) (aligned : b = (pos + 7) / 8)
    (inside : b + 4 + word src b ≤ src.length) (room : out.length + word src b ≤ cap) :
    Safe (infStored s) fun r => r.1 = 0 ∧
      At src cap (8 * (b + 4 + word src b)) (out ++ (src.drop (b + 4)).take (word src b)) r.2 := by
  have place := at_.place
  have few := at_.few
  have start : s.incnt = b := by omega
  have whole : At src cap (8 * b) out { s with bitbuf := 0, bitcnt := 0 } :=
    ⟨at_.source, at_.capacity, at_.written, at_.fine, at_.input, by simp only; omega, by simp, rfl⟩
  have source := at_.source
  rw [infStored]
  refine Safe.neg (by simp only [source]; omega) ?_
  refine Safe.bind (nextByte_safe (by simp only [source]; omega)) ?_
  rintro ⟨lo, s₁⟩ ⟨rfl, rfl⟩
  refine Safe.bind (nextByte_safe (by simp only [source]; omega)) ?_
  rintro ⟨hi, s₂⟩ ⟨rfl, rfl⟩
  refine Safe.bind (skip_safe (by simp only [source]; omega)) ?_
  rintro _ rfl
  have length : (src.getD b 0).toNat ||| (src.getD (b + 1) 0).toNat <<< 8 = word src b :=
    (or_shift (src.getD b 0).toNat_lt _).trans rfl
  simp only [source, start, length]
  refine Safe.neg (by omega) ?_
  have behind := (whole.bytes (by omega : b + 4 ≤ src.length)).2
  simp only [start, source] at behind
  exact storedLoop_at (word src b) (b + 4) behind inside room

section
variable {lengths acc code : List Nat} {total : Nat}

theorem orderLoop_at (n : Nat) (inside : pos + 3 * n ≤ 8 * src.length) :
    ∀ (rounds index : Nat) {lengths : List Nat} {s : Inf}, index + rounds = 19 → 19 ≤ lengths.length →
      At src cap (pos + 3 * min index n) out s →
      (∀ sym < 19, codeOrder.idxOf sym < index →
        lengths.getD sym 0 = if codeOrder.idxOf sym < n then field src (pos + 3 * codeOrder.idxOf sym) 3 else 0) →
      Safe (orderLoop n rounds index lengths s) fun r => r.1.take 19 = codeLengthLengths src pos n ∧
        At src cap (pos + 3 * min 19 n) out r.2 := by
  have listed : ∀ sym < 19, codeOrder.idxOf sym < 19 ∧ orderTable.getD (codeOrder.idxOf sym) 0 = sym := by decide
  have placed : ∀ i < 19, codeOrder.idxOf (orderTable.getD i 0) = i := by decide
  have extend : ∀ {index v : Nat} {lengths : List Nat}, index < 19 → 19 ≤ lengths.length →
      v = (if index < n then field src (pos + 3 * index) 3 else 0) →
      (∀ sym < 19, codeOrder.idxOf sym < index →
        lengths.getD sym 0 = if codeOrder.idxOf sym < n then field src (pos + 3 * codeOrder.idxOf sym) 3 else 0) →
      ∀ sym < 19, codeOrder.idxOf sym < index + 1 → (lengths.set (orderTable.getD index 0) v).getD sym 0 =
        if codeOrder.idxOf sym < n then field src (pos + 3 * codeOrder.idxOf sym) 3 else 0 := by
    intro index v lengths small size value known sym low before
    have := orderTable_lt small
    rw [getD_set (by omega)]
    split
    · rename_i same
      rw [← same, placed index small]
      exact value
    · rename_i other
      refine known sym low ?_
      have : codeOrder.idxOf sym ≠ index := fun same => other (by rw [← same, (listed sym low).2])
      omega
  intro rounds
  induction rounds with
  | zero =>
    intro index lengths s all size at_ known
    have done : index = 19 := by omega
    subst done
    refine Safe.ok ⟨List.ext_getElem ?_ fun sym low low' => ?_, at_⟩
    · simp only [codeLengthLengths, List.length_take, List.length_map, List.length_range]
      omega
    · have small : sym < 19 := by
        rw [List.length_take] at low
        omega
      have value := known sym small (listed sym small).1
      rw [List.getD, List.getElem?_eq_getElem (by omega), Option.getD_some] at value
      simp only [codeLengthLengths, List.getElem_take, List.getElem_map, List.getElem_range]
      exact value
  | succ rounds ih =>
    intro index lengths s all size at_ known
    have small : index < 19 := by omega
    have place := orderTable_lt small
    rw [orderLoop]
    refine Safe.ite (fun given => ?_) fun absent => ?_
    · have here : min index n = index := by omega
      rw [here] at at_
      refine Safe.bind (infBits_at at_ (by omega)) ?_
      rintro ⟨_, s'⟩ ⟨rfl, at'⟩
      refine Safe.bind (rd_safe small) ?_
      rintro _ rfl
      refine Safe.bind (wr_safe (by omega)) ?_
      rintro _ rfl
      refine ih (index + 1) (by omega) (by rw [List.length_set]; exact size) ?_
        (extend small size (by rw [if_pos given]) known)
      have next : pos + 3 * index + 3 = pos + 3 * min (index + 1) n := by omega
      rw [← next]
      exact at'
    · refine Safe.bind (rd_safe small) ?_
      rintro _ rfl
      refine Safe.bind (wr_safe (by omega)) ?_
      rintro _ rfl
      refine ih (index + 1) (by omega) (by rw [List.length_set]; exact size) ?_
        (extend small size (by rw [if_neg absent]) known)
      have next : min index n = min (index + 1) n := by omega
      rw [← next]
      exact at_

theorem take_set_end {v : Nat} (known : lengths.take acc.length = acc) (room : acc.length < lengths.length) :
    (lengths.set acc.length v).take (acc.length + 1) = acc ++ [v] := by
  rw [List.take_succ_eq_append_getElem (by rw [List.length_set]; exact room), List.getElem_set_self,
    List.take_set_of_le (Nat.le_refl _), known]

theorem repeatLoop_at (len : Nat) : ∀ (n : Nat) {lengths acc : List Nat}, lengths.take acc.length = acc →
    acc.length + n ≤ lengths.length →
    Safe (repeatLoop len n acc.length lengths) fun r => r.length = lengths.length ∧
      r.take (acc.length + n) = acc ++ List.replicate n len := by
  intro n
  induction n with
  | zero =>
    intro lengths acc known _
    refine Safe.ok ⟨rfl, ?_⟩
    simpa using known
  | succ n ih =>
    intro lengths acc known room
    rw [repeatLoop]
    refine Safe.bind (wr_safe (by omega)) ?_
    rintro _ rfl
    have size : (acc ++ [len]).length = acc.length + 1 := by simp
    have more := @ih (lengths.set acc.length len) (acc ++ [len])
      (by rw [size]; exact take_set_end known (by omega)) (by rw [size, List.length_set]; omega)
    rw [size] at more
    refine more.mono ?_
    rintro r ⟨same, taken⟩
    refine ⟨by rw [same, List.length_set], ?_⟩
    have shift : acc.length + (n + 1) = acc.length + 1 + n := by omega
    rw [shift, taken, List.append_assoc, List.singleton_append, List.replicate_succ]

theorem lengthsLoop_repeat {h : Huffman} {fuel symbol n base e len p₁ p₂ : Nat} {s : Inf}
    {post : Int × List Nat × Inf → Prop} (table : Table code h) (small : ∀ l ∈ code, l ≤ maxBits)
    (reads : ReadsSymbol src code pos symbol p₁) (extra : ReadsField src p₁ n e p₂) (long : 16 ≤ symbol)
    (bits : n = if symbol = 16 then 2 else if symbol = 17 then 3 else 7)
    (times : base = if symbol = 16 ∨ symbol = 17 then 3 else 11)
    (started : ¬ (symbol = 16 ∧ acc.length = 0)) (last : Safe (repeated lengths symbol acc.length) (· = len))
    (at_ : At src cap pos out s) (known : lengths.take acc.length = acc)
    (fits : acc.length + (base + e) ≤ total) (room : total ≤ lengths.length)
    (rest : ∀ {lengths' : List Nat} {s' : Inf}, lengths'.length = lengths.length →
      lengths'.take (acc.length + (base + e)) = acc ++ List.replicate (base + e) len → At src cap p₂ out s' →
      Safe (lengthsLoop h total fuel (acc.length + (base + e)) lengths' s') post) :
    Safe (lengthsLoop h total (fuel + 1) acc.length lengths s) post := by
  have positive : 3 ≤ base := by
    rw [times]
    split <;> omega
  have wide : (if (symbol : Int) = 16 then 2 else if (symbol : Int) = 17 then 3 else 7) = n := by
    rw [bits]
    repeat' split
    all_goals omega
  have least : (if (symbol : Int) = 16 ∨ (symbol : Int) = 17 then 3 else 11) = base := by
    rw [times]
    split <;> split <;> omega
  rw [lengthsLoop]
  refine Safe.pos (by omega) ?_
  refine Safe.bind (infDecode_at table small at_ reads) ?_
  rintro ⟨_, s₁⟩ ⟨rfl, at₁⟩
  refine Safe.neg (by omega) (Safe.neg (by omega) (Safe.neg (by omega) ?_))
  refine Safe.bind last ?_
  rintro _ rfl
  simp only [wide, least]
  refine Safe.bind (at₁.field extra) ?_
  rintro ⟨_, s₂⟩ ⟨rfl, at₂⟩
  refine Safe.neg (by simpa using at₂.fine) (Safe.neg (by simp only; omega) ?_)
  refine Safe.bind (repeatLoop_at _ _ known (by simp only; omega)) ?_
  rintro lengths' ⟨same, taken⟩
  exact rest same taken at₂

theorem lengthsLoop_at {h : Huffman} (table : Table code h) (small : ∀ l ∈ code, l ≤ maxBits) {final : List Nat}
    (reads : Lengths src code total pos acc next final) :
    ∀ {fuel : Nat} {lengths : List Nat} {s : Inf}, At src cap pos out s → lengths.take acc.length = acc →
      total ≤ lengths.length → total < acc.length + fuel →
      Safe (lengthsLoop h total fuel acc.length lengths s) fun r => r.1 = 0 ∧ r.2.1.take total = final ∧
        At src cap next out r.2.2 := by
  induction reads with
  | stop all =>
    intro fuel lengths s at_ known _ enough
    obtain ⟨fuel, rfl⟩ := Nat.exists_eq_succ_of_ne_zero (by omega : fuel ≠ 0)
    rw [lengthsLoop]
    refine Safe.neg (by omega) (Safe.ok ⟨rfl, ?_, at_⟩)
    rw [← all]
    exact known
  | @length pos after next sym acc final more reads short rest ih =>
    intro fuel lengths s at_ known room enough
    obtain ⟨fuel, rfl⟩ := Nat.exists_eq_succ_of_ne_zero (by omega : fuel ≠ 0)
    have size : (acc ++ [sym]).length = acc.length + 1 := by simp
    rw [size] at ih
    rw [lengthsLoop]
    refine Safe.pos more ?_
    refine Safe.bind (infDecode_at table small at_ reads) ?_
    rintro ⟨_, s₁⟩ ⟨rfl, at₁⟩
    refine Safe.neg (by omega) (Safe.pos (by omega) ?_)
    refine Safe.bind (wr_safe (by omega)) ?_
    rintro _ rfl
    exact ih at₁ (take_set_end known (by omega)) (by rw [List.length_set]; exact room) (by omega)
  | @repeatLast pos p₁ p₂ next e last acc final reads extra ending fits rest ih =>
    intro fuel lengths s at_ known room enough
    obtain ⟨fuel, rfl⟩ := Nat.exists_eq_succ_of_ne_zero (by omega : fuel ≠ 0)
    rw [List.length_append, List.length_replicate] at ih
    have some : acc ≠ [] := by
      rintro rfl
      simp at ending
    have positive : 0 < acc.length := List.length_pos_iff.mpr some
    have before : (acc.length : Int) - 1 = ((acc.length - 1 : Nat) : Int) := by omega
    have value : lengths.getD (acc.length - 1) 0 = last := by
      rw [List.getLast?_eq_getElem?, ← known, List.length_take, List.getElem?_take, if_pos (by omega)] at ending
      have width : min acc.length lengths.length - 1 = acc.length - 1 := by omega
      rw [width] at ending
      rw [List.getD, ending, Option.getD_some]
    have repeats : Safe (repeated lengths (16 : Nat) acc.length) (· = last) := by
      refine Safe.pos rfl ?_
      rw [before]
      refine (rd_safe (by omega)).mono ?_
      rintro _ rfl
      exact value
    exact lengthsLoop_repeat table small reads extra (Nat.le_refl _) rfl rfl (by omega) repeats at_ known fits room
      fun same taken at' => ih at' taken (by omega) (by omega)
  | @repeatZero pos p₁ p₂ next e acc final reads extra fits rest ih =>
    intro fuel lengths s at_ known room enough
    obtain ⟨fuel, rfl⟩ := Nat.exists_eq_succ_of_ne_zero (by omega : fuel ≠ 0)
    rw [List.length_append, List.length_replicate] at ih
    exact lengthsLoop_repeat table small reads extra (by decide) rfl rfl (by omega) (Safe.ok rfl) at_ known fits room
      fun same taken at' => ih at' taken (by omega) (by omega)
  | @repeatZeros pos p₁ p₂ next e acc final reads extra fits rest ih =>
    intro fuel lengths s at_ known room enough
    obtain ⟨fuel, rfl⟩ := Nat.exists_eq_succ_of_ne_zero (by omega : fuel ≠ 0)
    rw [List.length_append, List.length_replicate] at ih
    exact lengthsLoop_repeat table small reads extra (by decide) rfl rfl (by omega) (Safe.ok rfl) at_ known fits room
      fun same taken at' => ih at' taken (by omega) (by omega)

theorem Lengths.size {final : List Nat} (reads : Lengths src code total pos acc next final) :
    final.length = total := by
  induction reads with
  | stop all => exact all
  | length _ _ _ _ ih => exact ih
  | repeatLast _ _ _ _ _ ih => exact ih
  | repeatZero _ _ _ _ ih => exact ih
  | repeatZeros _ _ _ _ ih => exact ih

theorem allowed_accepted {L : List Nat} {h : Huffman} {n : Nat} {err : Int} (size : L.length = n)
    (allowed : CompleteCode L ∨ SingleCode L ∨ NoCode L)
    (built : err < 0 ∧ codeLeft L maxBits < 0 ∨
      Table L h ∧ (L.count 0 = n ∧ err = 0 ∨ L.count 0 ≠ n ∧ err = codeLeft L maxBits ∧ 0 ≤ err)) :
    Table L h ∧ ¬ (err < 0 ∨ err > 0 ∧ (n : Int) - h.count.getD 0 0 ≠ 1) := by
  have enough : 0 ≤ codeLeft L maxBits := by
    rcases allowed with complete | few
    · exact Int.le_of_eq complete.2.symm
    · -- at most one symbol has a code
      have coded := offset_le L maxBits
      have one : offset L (maxBits + 1) ≤ 1 := by
        rcases few with ⟨-, single⟩ | none
        · omega
        · have : L.count 0 = L.length := none
          omega
      have := codeLeft_pos one
      omega
  obtain ⟨table, outcome⟩ := built.resolve_left fun bad => by omega
  refine ⟨table, ?_⟩
  rw [table.counts 0 (by decide)]
  rcases allowed with ⟨-, complete⟩ | ⟨-, single⟩ | none
  · have complete : codeLeft L maxBits = 0 := complete
    omega
  · omega
  · have : L.count 0 = L.length := none
    omega

theorem infDynamic_at {p₁ p₂ p₃ p₄ hlit hdist hclen : Nat} (at_ : At src cap pos out s)
    (lits : ReadsField src pos 5 hlit p₁) (dists : ReadsField src p₁ 5 hdist p₂) (codes : ReadsField src p₂ 4 hclen p₃)
    (fewLits : hlit + 257 ≤ maxLCodes) (fewDists : hdist + 1 ≤ maxDCodes)
    (inside : p₃ + 3 * (hclen + 4) ≤ 8 * src.length) (complete : CompleteCode (codeLengthLengths src p₃ (hclen + 4)))
    (reads : Lengths src (codeLengthLengths src p₃ (hclen + 4)) (hlit + 257 + (hdist + 1)) (p₃ + 3 * (hclen + 4)) []
      p₄ lengths)
    (litCode : CompleteCode (lengths.take (hlit + 257)) ∨ SingleCode (lengths.take (hlit + 257)))
    (distCode : CompleteCode (lengths.drop (hlit + 257)) ∨ SingleCode (lengths.drop (hlit + 257)) ∨
      NoCode (lengths.drop (hlit + 257)))
    (data : Data src (lengths.take (hlit + 257)) (lengths.drop (hlit + 257)) p₄ out next final)
    (room : final.length ≤ cap) :
    Safe (infDynamic s) fun r => r.1 = 0 ∧ At src cap next final r.2 := by
  have sizes : maxLCodes = 286 ∧ maxDCodes = 30 ∧ maxCodes = 316 := by decide
  have grown := data.grows
  have filled := reads.size
  have four : hclen < 16 := by
    rw [codes.2.2]
    exact field_lt src p₂ 4
  refine Safe.bind (at_.field lits) ?_
  rintro ⟨hlit, s₁⟩ ⟨rfl, at₁⟩
  refine Safe.bind (at₁.field dists) ?_
  rintro ⟨hdist, s₂⟩ ⟨rfl, at₂⟩
  refine Safe.bind (at₂.field codes) ?_
  rintro ⟨hclen, s₃⟩ ⟨rfl, at₃⟩
  dsimp only at *
  have litRoom : 0 + (hlit + 257) ≤ maxCodes := by
    rw [Nat.zero_add]
    exact Nat.le_trans fewLits (by decide)
  have distRoom : hlit + 257 + (hdist + 1) ≤ maxCodes := Nat.add_le_add fewLits fewDists
  refine Safe.neg (by simpa using at₃.fine) (Safe.neg (by omega) ?_)
  -- the code length code
  have ok₃ : s₃.Ok := ⟨by rw [at₃.source]; exact at₃.input, by rw [at₃.written, at₃.capacity]; omega⟩
  have blank : CodeLengths (List.replicate maxCodes 0) := ⟨List.length_replicate, by simp⟩
  refine Safe.bind (Safe.and (orderLoop_safe 19 0 ok₃ rfl blank)
    (orderLoop_at (hclen + 4) inside 19 0 rfl (by decide +kernel) (by simpa using at₃) (by omega))) ?_
  rintro ⟨order, s₄⟩ ⟨⟨-, good⟩, given, at₄⟩
  refine Safe.neg (by simpa using at₄.fine) ?_
  refine Safe.bind (infConstruct_safe (.blank maxLCodes) order 0 19 rfl (by rw [good.size]; decide) good.small
    (blank_size _).1 (by rw [(blank_size _).2]; decide)) ?_
  rintro ⟨err, lencode⟩ ⟨⟨lenSize, lenWidth⟩, built⟩
  rw [List.drop_zero, given] at built
  have ordered : ∀ l ∈ codeLengthLengths src p₃ (hclen + 4), l ≤ maxBits := complete.1
  have whole : codeLeft (codeLengthLengths src p₃ (hclen + 4)) maxBits = 0 := complete.2
  obtain ⟨lens, outcome⟩ := built.resolve_left fun bad => by omega
  refine Safe.neg (by omega) ?_
  -- the lengths of the two codes
  have all : min 19 (hclen + 4) = hclen + 4 := by omega
  rw [all] at at₄
  have ok₄ : s₄.Ok := ⟨by rw [at₄.source]; exact at₄.input, by rw [at₄.written, at₄.capacity]; omega⟩
  have size := good.size
  refine Safe.bind (Safe.and
    (lengthsLoop_safe lens distRoom (hlit + 257 + (hdist + 1) + 1) 0 ok₄ good (by omega) (Nat.zero_le _))
    (lengthsLoop_at lens ordered reads at₄ rfl (by omega) (by simp))) ?_
  rintro ⟨_, array, s₅⟩ ⟨⟨-, good⟩, rfl, taken, at₅⟩
  have size : array.length = maxCodes := good.size
  refine Safe.neg (by simp) ?_
  have litLengths : (array.drop 0).take (hlit + 257) = lengths.take (hlit + 257) := by
    rw [List.drop_zero, ← taken, List.take_take, Nat.min_eq_left (Nat.le_add_right _ _)]
  have distLengths : (array.drop (hlit + 257)).take (hdist + 1) = lengths.drop (hlit + 257) := by
    rw [← taken, List.drop_take, Nat.add_sub_cancel_left]
  have ends : array.getD 256 0 ≠ 0 := by
    have stops := data.stops
    rw [← litLengths, getD_sub (by omega), Nat.zero_add] at stops
    exact stops
  refine Safe.bind (rd_safe (i := 256) (by rw [size]; decide)) ?_
  rintro _ rfl
  refine Safe.neg ends ?_
  -- the two codes
  rw [(blank_size _).2] at lenWidth
  refine Safe.bind (infConstruct_safe lencode array 0 (hlit + 257) rfl (by rw [size]; exact litRoom) good.small lenSize
    (by rw [lenWidth]; exact fewLits)) ?_
  rintro ⟨err, lencode⟩ ⟨⟨lenSize, -⟩, built⟩
  rw [litLengths] at built
  obtain ⟨lens, passes⟩ := allowed_accepted (by rw [List.length_take]; omega) (litCode.imp_right Or.inl) built
  refine Safe.bind (rd_safe (by rw [lenSize]; exact Nat.succ_pos _)) ?_
  rintro _ rfl
  refine Safe.neg passes ?_
  refine Safe.bind (infConstruct_safe (.blank maxDCodes) array (hlit + 257) (hdist + 1) rfl (by rw [size]; exact distRoom)
    good.small (blank_size _).1 (by rw [(blank_size _).2]; exact fewDists)) ?_
  rintro ⟨err, distcode⟩ ⟨⟨distSize, -⟩, built⟩
  rw [distLengths] at built
  obtain ⟨distances, passes⟩ := allowed_accepted (by rw [List.length_drop]; omega) distCode built
  refine Safe.bind (rd_safe (by rw [distSize]; exact Nat.succ_pos _)) ?_
  rintro _ rfl
  refine Safe.neg passes ?_
  refine infCodes_at lens (fun l member => ?_) distances (fun l member => ?_) data room at₅
  · rw [← litLengths] at member
    exact good.small l (List.mem_of_mem_drop (List.mem_of_mem_take member))
  · rw [← distLengths] at member
    exact good.small l (List.mem_of_mem_drop (List.mem_of_mem_take member))

end

section
variable {maxDist : Nat}

theorem Block.grows (block : Block maxDist src pos out next final) : out.length ≤ final.length := by
  cases block with
  | stored => simp
  | fixed _ data => exact data.grows
  | dynamic _ _ _ _ _ _ _ _ _ _ _ data => exact data.grows

theorem Blocks.grows (blocks : Blocks maxDist src pos out final) : out.length ≤ final.length := by
  induction blocks with
  | last _ _ block => exact block.grows
  | more _ _ block _ ih => exact Nat.le_trans block.grows ih

theorem infBlock_at (few : maxDist ≤ maxDCodes) (block : Block maxDist src pos out next final)
    (room : final.length ≤ cap) (at_ : At src cap (pos + 2) out s) :
    Safe (infBlock (field src pos 2) s) fun r => r.1 = 0 ∧ At src cap next final r.2 := by
  rw [infBlock]
  cases block with
  | stored type aligned inside complement =>
    refine Safe.pos type (infStored_at at_ aligned inside ?_)
    rw [List.length_append, List.length_take, List.length_drop] at room
    omega
  | fixed type data => exact Safe.neg (by omega) (Safe.pos type (infFixed_at data room at_))
  | dynamic type lits dists codes fewLits fewDists inside complete reads litCode distCode data =>
    refine Safe.neg (by omega) (Safe.neg (by omega) (Safe.pos type ?_))
    exact infDynamic_at at_ lits dists codes fewLits (Nat.le_trans fewDists few) inside complete reads litCode
      distCode data room

theorem inflateLoop_at (few : maxDist ≤ maxDCodes) (blocks : Blocks maxDist src pos out final)
    (room : final.length ≤ cap) :
    ∀ {fuel : Nat} {s : Inf}, At src cap pos out s → 8 * src.length - pos < fuel →
      Safe (inflateLoop fuel s) fun r => r.1 = 0 ∧ r.2.out = final := by
  induction blocks with
  | @last pos next out final header last block =>
    intro fuel s at_ enough
    obtain ⟨fuel, rfl⟩ := Nat.exists_eq_succ_of_ne_zero (by omega : fuel ≠ 0)
    refine Safe.bind (infBits_at at_ (by omega)) ?_
    rintro ⟨_, s₁⟩ ⟨rfl, at₁⟩
    refine Safe.bind (infBits_at at₁ (by omega)) ?_
    rintro ⟨_, s₂⟩ ⟨rfl, at₂⟩
    refine Safe.neg (by simpa using at₂.fine) ?_
    refine Safe.bind (infBlock_at few block room at₂) ?_
    rintro ⟨_, s₃⟩ ⟨rfl, at₃⟩
    rw [field_one, last]
    exact Safe.neg (by simp) (Safe.neg (by simp) (Safe.ok ⟨rfl, at₃.written⟩))
  | @more pos next out mid final header more block rest ih =>
    intro fuel s at_ enough
    obtain ⟨fuel, rfl⟩ := Nat.exists_eq_succ_of_ne_zero (by omega : fuel ≠ 0)
    have grown := rest.grows
    have begun := block.grows
    refine Safe.bind (infBits_at at_ (by omega)) ?_
    rintro ⟨_, s₁⟩ ⟨rfl, at₁⟩
    refine Safe.bind (infBits_at at₁ (by omega)) ?_
    rintro ⟨_, s₂⟩ ⟨rfl, at₂⟩
    have ok : Inf.Ok s₂ := ⟨by rw [at₂.source]; exact at₂.input, by rw [at₂.written, at₂.capacity]; omega⟩
    refine Safe.neg (by simpa using at₂.fine) ?_
    refine Safe.bind (Safe.and (infBlock_safe _ ok) (infBlock_at few block (by omega) at₂)) ?_
    rintro ⟨_, s₃⟩ ⟨reached, rfl, at₃⟩
    have bits := reached.bits
    rw [At.avail at₃, At.avail at₂] at bits
    rw [field_one, more]
    exact Safe.neg (by simp) (Safe.pos rfl (ih room at₃ (by omega)))

/-- A stream whose dynamic blocks declare at most 30 distance codes is decoded, whatever
follows it, into any destination that its data fit into. -/
theorem inflate_decodes {data : List UInt8} {destlen : Nat} (stream : Deflate maxDCodes src data)
    (fits : data.length ≤ destlen) : rexInflate src destlen = .ok (0, data) := by
  have start : At src destlen 0 [] ⟨src, 0, [], destlen, 0, 0, false⟩ :=
    ⟨rfl, rfl, rfl, rfl, Nat.zero_le _, rfl, by simp, rfl⟩
  obtain ⟨⟨_, s⟩, done, rfl, written⟩ :=
    inflateLoop_at (Nat.le_refl _) stream fits start (Nat.lt_succ_of_le (Nat.le_of_eq start.avail.symm))
  rw [rexInflate, done]
  exact congrArg (fun out => Except.ok (0, out)) written

def fourBytes : List UInt8 := [75, 4, 2, 0, 9]

theorem fourBytes_deflate : Deflate maxDCodes fourBytes [97, 97, 97, 97] := by
  have literal : ReadsSymbol fourBytes fixedLitLengths 3 97 11 := by decide +kernel
  have length : ReadsSymbol fourBytes fixedLitLengths 11 (257 + 0) 18 := by decide +kernel
  have lengthBits : ReadsField fourBytes 18 (lengthExtra 0) 0 18 := by decide
  have distance : ReadsSymbol fourBytes fixedDistanceLengths 18 0 23 := by decide +kernel
  have distanceBits : ReadsField fourBytes 23 (distExtra 0) 0 23 := by decide
  have stop : ReadsSymbol fourBytes fixedLitLengths 23 256 30 := by decide +kernel
  have copy : Data fourBytes fixedLitLengths fixedDistanceLengths 11 [97] 30 [97, 97, 97, 97] :=
    .copy length (by decide) lengthBits distance (by decide) distanceBits (by decide) (.stop stop)
  exact .last (by decide) (by decide) (.fixed (by decide) (.literal literal (by decide) copy))

theorem inflate_decodes_fourBytes : rexInflate fourBytes 5 = .ok (0, [97, 97, 97, 97]) :=
  inflate_decodes fourBytes_deflate (by decide)

/-- An empty dynamic block that declares 32 distance codes, the last 30 of length 0. -/
def wideStream : List UInt8 := [5, 223, 129, 0, 0, 0, 0, 0, 16, 255, 213, 56, 9]

def wideLengths : List Nat :=
  [] ++ [1] ++ List.replicate (11 + 127) 0 ++ List.replicate (11 + 106) 0 ++ [1] ++ [1] ++ [1] ++
    List.replicate (11 + 19) 0

theorem wideStream_lengths : Lengths wideStream (codeLengthLengths wideStream 17 18) 289 71 [] 99 wideLengths := by
  have stop : Lengths wideStream (codeLengthLengths wideStream 17 18) 289 99 wideLengths 99 wideLengths :=
    .stop (by decide +kernel)
  have one : ∀ {pos : Nat}, pos ∈ [71, 88, 89, 90] →
      ReadsSymbol wideStream (codeLengthLengths wideStream 17 18) pos 1 (pos + 1) := by
    intro pos
    revert pos
    decide +kernel
  have zeros : ∀ {pos : Nat}, pos ∈ [72, 80, 91] →
      ReadsSymbol wideStream (codeLengthLengths wideStream 17 18) pos 18 (pos + 1) := by
    intro pos
    revert pos
    decide +kernel
  have many : ReadsField wideStream 73 7 127 80 := by decide
  have more : ReadsField wideStream 81 7 106 88 := by decide
  have rest : ReadsField wideStream 92 7 19 99 := by decide
  refine .length (by decide) (one (by decide)) (by decide) ?_
  refine .repeatZeros (zeros (by decide)) many (by decide +kernel) ?_
  refine .repeatZeros (zeros (by decide)) more (by decide +kernel) ?_
  refine .length (by decide +kernel) (one (by decide)) (by decide) ?_
  refine .length (by decide +kernel) (one (by decide)) (by decide) ?_
  refine .length (by decide +kernel) (one (by decide)) (by decide) ?_
  exact .repeatZeros (zeros (by decide)) rest (by decide +kernel) stop

theorem wideStream_deflate : Deflate 32 wideStream [] := by
  have lits : ReadsField wideStream 3 5 0 8 := by decide
  have dists : ReadsField wideStream 8 5 31 13 := by decide
  have codes : ReadsField wideStream 13 4 14 17 := by decide
  have complete : CompleteCode (codeLengthLengths wideStream 17 18) := by decide +kernel
  have litCode : CompleteCode (wideLengths.take 257) := by decide +kernel
  have distCode : CompleteCode (wideLengths.drop 257) := by decide +kernel
  have data : Data wideStream (wideLengths.take 257) (wideLengths.drop 257) 99 [] 100 [] :=
    .stop (by decide +kernel)
  exact .last (by decide) (by decide) (.dynamic (by decide) lits dists codes (by decide) (by decide) (by decide)
    complete wideStream_lengths (Or.inl litCode) (Or.inl distCode) data)

/-- The format allows 32 distance codes, the source 30 of them. -/
theorem inflate_refuses_wide : ¬ ∀ (src data : List UInt8) (destlen : Nat), Deflate 32 src data →
    data.length ≤ destlen → rexInflate src destlen = .ok (0, data) := by
  intro decodes
  have refused : rexInflate wideStream 0 = .ok (-3, []) := by decide +kernel
  have decoded := decodes wideStream [] 0 wideStream_deflate (by decide)
  rw [refused] at decoded
  simp at decoded

end

end RexOs.User
