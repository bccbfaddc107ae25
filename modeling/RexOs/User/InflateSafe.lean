import RexOs.User.InflateTables

/-! Inflating is safe on any input.

`Reached s s'` collects what every function keeps: the counters stay within the
source and the destination, and no bit is given back. A function that has read
a bit without an error leaves fewer bits, which bounds every loop.
-/

set_option autoImplicit false

namespace RexOs.User

open RexOs.Library

structure Inf.Ok (s : Inf) : Prop where
  input : s.incnt ≤ s.src.length
  output : s.out.length ≤ s.outlen

structure Reached (s s' : Inf) : Prop where
  ok : s'.Ok
  src : s'.src = s.src
  outlen : s'.outlen = s.outlen
  bits : s'.avail ≤ s.avail

variable {s s' s'' : Inf}

theorem Reached.refl (ok : s.Ok) : Reached s s := ⟨ok, rfl, rfl, Nat.le_refl _⟩

theorem Reached.trans (first : Reached s s') (second : Reached s' s'') : Reached s s'' :=
  ⟨second.ok, second.src.trans first.src, second.outlen.trans first.outlen, Nat.le_trans second.bits first.bits⟩

theorem nextByte_safe (inside : s.incnt < s.src.length) :
    Safe (nextByte s) fun r => r.1 = s.src.getD s.incnt 0 ∧ r.2 = { s with incnt := s.incnt + 1 } := by
  have found : s.src[s.incnt]? = some s.src[s.incnt] := List.getElem?_eq_getElem inside
  exact ⟨(s.src[s.incnt], _), by simp [nextByte, found], by simp [List.getD, found], rfl⟩

theorem skip_safe {n : Nat} (inside : s.incnt + n ≤ s.src.length) :
    Safe (skip s n) fun r => r = { s with incnt := s.incnt + n } := ⟨_, if_pos inside, rfl⟩

theorem emit_safe {b : UInt8} (room : s.out.length < s.outlen) :
    Safe (emit s b) fun r => r = { s with out := s.out ++ [b] } := ⟨_, if_pos room, rfl⟩

theorem infBitsLoop_safe (need : Nat) : ∀ (fuel : Nat) {s : Inf} (val : Nat), s.Ok →
    need ≤ s.bitcnt + 8 * fuel →
    Safe (infBitsLoop need (fuel + 1) s val) fun r => Reached s r.2 ∧ r.2.out = s.out ∧ r.1 < 2 ^ need ∧
      (r.2.err = false → s.err = false ∧ r.2.avail + need = s.avail) := by
  intro fuel
  induction fuel with
  | zero =>
    intro s val ok enough
    rw [infBitsLoop, if_neg (by omega)]
    refine Safe.ok ⟨⟨⟨ok.input, ok.output⟩, rfl, rfl, ?_⟩, rfl, Nat.mod_lt _ (Nat.two_pow_pos _), fun fine => ⟨fine, ?_⟩⟩
    all_goals
      simp only [Inf.avail]
      omega
  | succ fuel ih =>
    intro s val ok enough
    rw [infBitsLoop]
    refine Safe.ite (fun more => Safe.ite (fun spent => ?_) fun left => ?_) fun full => ?_
    · exact Safe.ok ⟨⟨⟨ok.input, ok.output⟩, rfl, rfl, Nat.le_refl _⟩, rfl, Nat.two_pow_pos _, nofun⟩
    · have inside : s.incnt < s.src.length := by
        have := ok.input
        omega
      refine Safe.bind (nextByte_safe inside) ?_
      rintro ⟨byte, s'⟩ ⟨-, rfl⟩
      -- a byte moves from the source to the bit buffer
      have moved : Inf.avail { s with incnt := s.incnt + 1, bitcnt := s.bitcnt + 8 } = s.avail := by
        simp only [Inf.avail]
        omega
      have step : Reached s { s with incnt := s.incnt + 1, bitcnt := s.bitcnt + 8 } :=
        ⟨⟨inside, ok.output⟩, rfl, rfl, Nat.le_of_eq moved⟩
      refine (ih _ step.ok (by simp only; omega)).mono ?_
      rintro r ⟨reached, same, small, paid⟩
      refine ⟨step.trans reached, same, small, fun fine => ?_⟩
      rw [← moved]
      exact paid fine
    · refine Safe.ok ⟨⟨⟨ok.input, ok.output⟩, rfl, rfl, ?_⟩, rfl, Nat.mod_lt _ (Nat.two_pow_pos _), fun fine => ⟨fine, ?_⟩⟩
      all_goals
        simp only [Inf.avail]
        omega

theorem infBits_safe (ok : s.Ok) (need : Nat) :
    Safe (infBits s need) fun r => Reached s r.2 ∧ r.2.out = s.out ∧ r.1 < 2 ^ need ∧
      (r.2.err = false → s.err = false ∧ r.2.avail + need = s.avail) :=
  infBitsLoop_safe need need s.bitbuf ok (by omega)

theorem decodeLoop_safe {L : List Nat} {h : Huffman} (table : Table L h) :
    ∀ (rounds len code first : Nat) {s : Inf}, s.Ok → 0 < len → len + rounds = maxBits + 1 → first ≤ code →
      Safe (decodeLoop h rounds len code first (offset L len) s) fun r => Reached s r.2 ∧ r.2.out = s.out ∧
        (0 ≤ r.1 → r.2.err = false ∧ r.2.avail < s.avail) := by
  intro rounds
  induction rounds with
  | zero =>
    intro len code first s ok _ _ _
    exact Safe.ok ⟨Reached.refl ok, rfl, by simp⟩
  | succ rounds ih =>
    intro len code first s ok positive all behind
    refine Safe.bind (infBits_safe ok 1) ?_
    rintro ⟨bit, s'⟩ ⟨reached, same, _, paid⟩
    refine Safe.ite (fun _ => Safe.ok ⟨reached, same, by simp⟩) fun noError => ?_
    have spent := (paid (by simpa using noError)).2
    have ahead : first ≤ code ||| bit := Nat.le_trans behind Nat.left_le_or
    have next : offset L (len + 1) = offset L len + L.count len := by
      simp only [offset]
      rw [if_neg (by omega)]
    refine Safe.bind (rd_safe (by have := table.size; omega)) ?_
    rintro _ rfl
    rw [table.counts len (by omega)]
    refine Safe.ite (fun found => ?_) fun beyond => ?_
    · have place : ((offset L len : Nat) : Int) + (((code ||| bit : Nat) : Int) - (first : Int)) =
          ((offset L len + ((code ||| bit) - first) : Nat) : Int) := by omega
      have inside : offset L len + ((code ||| bit) - first) < h.symbol.length := by
        have := offset_le L len
        have := table.room
        omega
      rw [place]
      refine Safe.bind (rd_safe inside) ?_
      rintro _ rfl
      exact Safe.ok ⟨reached, same, fun _ => ⟨by simpa using noError, by simp only at *; omega⟩⟩
    · rw [← next]
      refine (ih _ _ _ reached.ok (by omega) (by omega) ?_).mono ?_
      · simp only [Nat.shiftLeft_eq]
        omega
      · rintro r ⟨later, same', paid'⟩
        exact ⟨reached.trans later, same'.trans same, fun positive =>
          ⟨(paid' positive).1, Nat.lt_of_lt_of_le (paid' positive).2 reached.bits⟩⟩

theorem infDecode_safe {L : List Nat} {h : Huffman} (table : Table L h) (ok : s.Ok) :
    Safe (infDecode s h) fun r => Reached s r.2 ∧ r.2.out = s.out ∧
      (0 ≤ r.1 → r.2.err = false ∧ r.2.avail < s.avail) :=
  decodeLoop_safe table maxBits 1 0 0 ok (by decide) (by decide) (Nat.le_refl _)

theorem storedLoop_safe : ∀ (len : Nat) {s : Inf}, s.Ok → s.incnt + len ≤ s.src.length →
    Safe (storedLoop len s) fun r => Reached s r.2 := by
  intro len
  induction len with
  | zero =>
    intro s ok _
    exact Safe.ok (Reached.refl ok)
  | succ len ih =>
    intro s ok room
    refine Safe.ite (fun _ => Safe.ok (Reached.refl ok)) fun notFull => ?_
    have output := ok.output
    refine Safe.bind (nextByte_safe (by omega)) ?_
    rintro ⟨b, s'⟩ ⟨-, rfl⟩
    refine Safe.bind (emit_safe (by simp only; omega)) ?_
    rintro _ rfl
    have step : Reached s { s with incnt := s.incnt + 1, out := s.out ++ [b] } := by
      refine ⟨⟨by simp only; omega, ?_⟩, rfl, rfl, by simp only [Inf.avail]; omega⟩
      simp only [List.length_append, List.length_singleton]
      omega
    exact (ih step.ok (by simp only; omega)).mono fun r reached => step.trans reached

theorem infStored_safe (ok : s.Ok) : Safe (infStored s) fun r => Reached s r.2 := by
  have input := ok.input
  have dropped : Reached s { s with bitbuf := 0, bitcnt := 0 } :=
    ⟨⟨ok.input, ok.output⟩, rfl, rfl, by simp only [Inf.avail]; omega⟩
  refine Safe.ite (fun _ => Safe.ok dropped) fun header => ?_
  simp only at header
  refine Safe.bind (nextByte_safe (by simp only; omega)) ?_
  rintro ⟨lo, s₁⟩ ⟨-, rfl⟩
  refine Safe.bind (nextByte_safe (by simp only; omega)) ?_
  rintro ⟨hi, s₂⟩ ⟨-, rfl⟩
  refine Safe.bind (skip_safe (by simp only; omega)) ?_
  rintro _ rfl
  have after : Reached s { s with bitbuf := 0, bitcnt := 0, incnt := s.incnt + 4 } :=
    ⟨⟨by simp only; omega, ok.output⟩, rfl, rfl, by simp only [Inf.avail]; omega⟩
  refine Safe.ite (fun _ => Safe.ok after) fun body => ?_
  exact (storedLoop_safe _ after.ok (by simp only at *; omega)).mono fun r reached => after.trans reached

theorem copyLoop_safe {dist : Nat} (positive : 0 < dist) : ∀ (n : Nat) {s : Inf}, s.Ok → dist ≤ s.out.length →
    s.out.length + n ≤ s.outlen →
    Safe (copyLoop dist n s) fun r => Reached s r ∧ r.avail = s.avail := by
  intro n
  induction n with
  | zero =>
    intro s ok _ _
    exact Safe.ok ⟨Reached.refl ok, rfl⟩
  | succ n ih =>
    intro s ok back room
    have inside : s.out.length - dist < s.out.length := by omega
    rw [copyLoop, if_neg (by omega), List.getElem?_eq_getElem inside]
    refine Safe.bind (emit_safe (by omega)) ?_
    rintro _ rfl
    have grown : ∀ b : UInt8, (s.out ++ [b]).length = s.out.length + 1 := fun b => by simp
    have step : Reached s { s with out := s.out ++ [s.out[s.out.length - dist]] } :=
      ⟨⟨ok.input, by simp only [grown]; omega⟩, rfl, rfl, Nat.le_refl _⟩
    refine (ih step.ok (by simp only [grown]; omega) (by simp only [grown]; omega)).mono ?_
    rintro r ⟨reached, same⟩
    exact ⟨step.trans reached, same⟩

theorem infDists_positive : ∀ {d : Nat}, d < 30 → 0 < infDists.getD d 0 := by decide

theorem codesLoop_safe {L D : List Nat} {lencode distcode : Huffman} (lens : Table L lencode)
    (dists : Table D distcode) : ∀ (fuel : Nat) {s : Inf}, s.Ok → s.avail < fuel →
    Safe (codesLoop lencode distcode fuel s) fun r => Reached s r.2 := by
  intro fuel
  induction fuel with
  | zero =>
    intro s _ none
    exact absurd none (Nat.not_lt_zero _)
  | succ fuel ih =>
    intro s ok enough
    refine Safe.bind (infDecode_safe lens ok) ?_
    rintro ⟨symbol, s₁⟩ ⟨reached, -, paid⟩
    refine Safe.ite (fun _ => Safe.ok reached) fun found => ?_
    have spent := (paid (by simp only; omega)).2
    simp only at spent
    refine Safe.ite (fun literal => ?_) fun notLiteral => ?_
    · refine Safe.ite (fun _ => Safe.ok reached) fun notFull => ?_
      have output := reached.ok.output
      refine Safe.bind (emit_safe (by simp only at *; omega)) ?_
      rintro _ rfl
      have step : Reached s { s₁ with out := s₁.out ++ [UInt8.ofNat symbol.toNat] } := by
        refine ⟨⟨reached.ok.input, ?_⟩, reached.src, reached.outlen, reached.bits⟩
        simp only [List.length_append, List.length_singleton] at *
        omega
      refine (ih step.ok ?_).mono fun r later => step.trans later
      change s₁.avail < fuel
      omega
    refine Safe.ite (fun copy => ?_) fun _ => Safe.ok reached
    refine Safe.ite (fun _ => Safe.ok reached) fun known => ?_
    obtain ⟨k, rfl⟩ : ∃ k : Nat, symbol = ((k + 257 : Nat) : Int) := ⟨(symbol - 257).toNat, by omega⟩
    have base : ((k + 257 : Nat) : Int) - 257 = (k : Int) := by omega
    rw [base] at known ⊢
    refine Safe.bind (rd_safe (by simp only [infLens, List.length_cons, List.length_nil]; omega)) ?_
    rintro _ rfl
    refine Safe.bind (rd_safe (by simp only [infLext, List.length_cons, List.length_nil]; omega)) ?_
    rintro _ rfl
    refine Safe.bind (infBits_safe reached.ok _) ?_
    rintro ⟨extra, s₂⟩ ⟨later, -, -, -⟩
    have reached := reached.trans later
    have spent := Nat.lt_of_le_of_lt later.bits spent
    refine Safe.ite (fun _ => Safe.ok reached) fun _ => ?_
    refine Safe.bind (infDecode_safe dists reached.ok) ?_
    rintro ⟨symbol, s₃⟩ ⟨later, -, -⟩
    have reached := reached.trans later
    have spent := Nat.lt_of_le_of_lt later.bits spent
    refine Safe.ite (fun _ => Safe.ok reached) fun found => ?_
    refine Safe.ite (fun _ => Safe.ok reached) fun known => ?_
    obtain ⟨d, rfl⟩ : ∃ d : Nat, symbol = (d : Int) := ⟨symbol.toNat, by omega⟩
    have inside : d < 30 := by omega
    refine Safe.bind (rd_safe (by simp only [infDists, List.length_cons, List.length_nil]; omega)) ?_
    rintro _ rfl
    refine Safe.bind (rd_safe (by simp only [infDext, List.length_cons, List.length_nil]; omega)) ?_
    rintro _ rfl
    refine Safe.bind (infBits_safe reached.ok _) ?_
    rintro ⟨extra', s₄⟩ ⟨later, -, -, -⟩
    have reached := reached.trans later
    have spent := Nat.lt_of_le_of_lt later.bits spent
    have positive : 0 < infDists.getD d 0 + extra' := Nat.lt_of_lt_of_le (infDists_positive inside) (by omega)
    refine Safe.ite (fun _ => Safe.ok reached) fun _ => ?_
    refine Safe.ite (fun _ => Safe.ok reached) fun back => ?_
    have output := reached.ok.output
    simp only at output spent
    refine Safe.ite (fun truncated => ?_) fun fits => ?_
    · refine Safe.bind (copyLoop_safe positive _ reached.ok (by omega) (by omega)) ?_
      rintro s₅ ⟨later, -⟩
      exact Safe.ok (reached.trans later)
    · refine Safe.bind (copyLoop_safe positive _ reached.ok (by omega) (by omega)) ?_
      rintro s₅ ⟨later, same⟩
      exact (ih later.ok (by omega)).mono fun r last => (reached.trans later).trans last

theorem infCodes_safe {L D : List Nat} {lencode distcode : Huffman} (lens : Table L lencode)
    (dists : Table D distcode) (ok : s.Ok) : Safe (infCodes s lencode distcode) fun r => Reached s r.2 :=
  codesLoop_safe lens dists _ ok (Nat.lt_succ_self _)

theorem blank_size (n : Nat) : (Huffman.blank n).count.length = maxBits + 1 ∧
    (Huffman.blank n).symbol.length = n := by simp [Huffman.blank]

theorem infFixed_tables : ∃ lencode distcode, Table fixedLengths lencode ∧
    Table (List.replicate maxDCodes 5) distcode ∧ ∀ s, infFixed s = infCodes s lencode distcode := by
  obtain ⟨⟨one, lencode⟩, built, -, lens⟩ := infConstruct_safe (.blank fixLCodes) fixedLengths 0 fixLCodes rfl
    (by decide +kernel) (by decide +kernel) (blank_size _).1 (Nat.le_of_eq (blank_size _).2.symm)
  obtain ⟨⟨two, distcode⟩, built', -, dists⟩ := infConstruct_safe (.blank maxDCodes)
    (List.replicate maxDCodes 5 ++ fixedLengths.drop maxDCodes) 0 maxDCodes rfl
    (by decide +kernel) (by decide +kernel) (blank_size _).1 (Nat.le_of_eq (blank_size _).2.symm)
  have complete : ¬ codeLeft ((fixedLengths.drop 0).take fixLCodes) maxBits < 0 := by decide +kernel
  have enough : ¬ codeLeft (((List.replicate maxDCodes 5 ++ fixedLengths.drop maxDCodes).drop 0).take maxDCodes)
      maxBits < 0 := by decide +kernel
  have all : (fixedLengths.drop 0).take fixLCodes = fixedLengths := by decide +kernel
  have some : ((List.replicate maxDCodes 5 ++ fixedLengths.drop maxDCodes).drop 0).take maxDCodes =
      List.replicate maxDCodes 5 := by decide +kernel
  have lens := (lens.resolve_left fun bad => complete bad.2).1
  have dists := (dists.resolve_left fun bad => enough bad.2).1
  rw [all] at lens
  rw [some] at dists
  refine ⟨lencode, distcode, lens, dists, fun s => ?_⟩
  rw [infFixed, built, built']
  rfl

theorem infFixed_safe (ok : s.Ok) : Safe (infFixed s) fun r => Reached s r.2 := by
  obtain ⟨lencode, distcode, lens, dists, same⟩ := infFixed_tables
  rw [same]
  exact infCodes_safe lens dists ok

structure CodeLengths (lengths : List Nat) : Prop where
  size : lengths.length = maxCodes
  small : ∀ l ∈ lengths, l ≤ maxBits

theorem CodeLengths.set {lengths : List Nat} (ok : CodeLengths lengths) {i v : Nat} (short : v ≤ maxBits) :
    CodeLengths (lengths.set i v) where
  size := by rw [List.length_set, ok.size]
  small := by
    intro l member
    rcases List.mem_or_eq_of_mem_set member with old | rfl
    · exact ok.small l old
    · exact short

theorem CodeLengths.getD_le {lengths : List Nat} (ok : CodeLengths lengths) (i : Nat) :
    lengths.getD i 0 ≤ maxBits := by
  rcases Nat.lt_or_ge i lengths.length with inside | outside
  · simp only [List.getD, List.getElem?_eq_getElem inside, Option.getD_some]
    exact ok.small _ (List.getElem_mem inside)
  · simp [List.getD, outside]

theorem orderTable_lt : ∀ {i : Nat}, i < 19 → orderTable.getD i 0 < 19 := by decide

theorem orderLoop_safe {ncode : Nat} : ∀ (rounds index : Nat) {lengths : List Nat} {s : Inf}, s.Ok →
    index + rounds = 19 → CodeLengths lengths →
    Safe (orderLoop ncode rounds index lengths s) fun r => Reached s r.2 ∧ CodeLengths r.1 := by
  intro rounds
  induction rounds with
  | zero =>
    intro index lengths s ok _ good
    exact Safe.ok ⟨Reached.refl ok, good⟩
  | succ rounds ih =>
    intro index lengths s ok all good
    have listed : index < orderTable.length := by
      simp only [orderTable, List.length_cons, List.length_nil]
      omega
    have place : orderTable.getD index 0 < lengths.length := by
      have := orderTable_lt (by omega : index < 19)
      rw [good.size]
      simp only [maxCodes, maxLCodes, maxDCodes]
      omega
    refine Safe.ite (fun _ => ?_) fun _ => ?_
    · refine Safe.bind (infBits_safe ok 3) ?_
      rintro ⟨v, s₁⟩ ⟨reached, -, small, -⟩
      refine Safe.bind (rd_safe listed) ?_
      rintro _ rfl
      refine Safe.bind (wr_safe place) ?_
      rintro _ rfl
      refine (ih _ reached.ok (by omega) (good.set (by simp only [maxBits] at *; omega))).mono ?_
      rintro r ⟨later, good'⟩
      exact ⟨reached.trans later, good'⟩
    · refine Safe.bind (rd_safe listed) ?_
      rintro _ rfl
      refine Safe.bind (wr_safe place) ?_
      rintro _ rfl
      exact ih _ ok (by omega) (good.set (Nat.zero_le _))

theorem repeatLoop_safe {len : Nat} (short : len ≤ maxBits) : ∀ (n index : Nat) {lengths : List Nat},
    CodeLengths lengths → index + n ≤ maxCodes → Safe (repeatLoop len n index lengths) CodeLengths := by
  intro n
  induction n with
  | zero =>
    intro index lengths good _
    exact Safe.ok good
  | succ n ih =>
    intro index lengths good room
    refine Safe.bind (wr_safe (by rw [good.size]; omega)) ?_
    rintro _ rfl
    exact ih _ (good.set short) (by omega)

theorem lengthsLoop_safe {L : List Nat} {h : Huffman} (table : Table L h) {total : Nat} (room : total ≤ maxCodes) :
    ∀ (fuel index : Nat) {lengths : List Nat} {s : Inf}, s.Ok → CodeLengths lengths → total < index + fuel →
      index ≤ total →
      Safe (lengthsLoop h total fuel index lengths s) fun r => Reached s r.2.2 ∧ CodeLengths r.2.1 := by
  intro fuel
  induction fuel with
  | zero =>
    intro index lengths s _ _ enough le
    omega
  | succ fuel ih =>
    intro index lengths s ok good enough le
    refine Safe.ite (fun more => ?_) fun _ => Safe.ok ⟨Reached.refl ok, good⟩
    refine Safe.bind (infDecode_safe table ok) ?_
    rintro ⟨symbol, s₁⟩ ⟨reached, -, -⟩
    refine Safe.ite (fun _ => Safe.ok ⟨reached, good⟩) fun found => ?_
    refine Safe.ite (fun short => ?_) fun long => ?_
    · refine Safe.bind (wr_safe (by rw [good.size]; omega)) ?_
      rintro _ rfl
      refine (ih _ reached.ok (good.set (by simp only [maxBits]; omega)) (by omega) (by omega)).mono ?_
      rintro r ⟨later, good'⟩
      exact ⟨reached.trans later, good'⟩
    refine Safe.ite (fun _ => Safe.ok ⟨reached, good⟩) fun started => ?_
    have last : Safe (repeated lengths symbol index) fun len => len ≤ maxBits := by
      refine Safe.ite (fun copy => ?_) fun _ => Safe.ok (Nat.zero_le _)
      have before : (index : Int) - 1 = ((index - 1 : Nat) : Int) := by omega
      rw [before]
      refine (rd_safe (by rw [good.size]; omega)).mono ?_
      rintro _ rfl
      exact good.getD_le _
    refine Safe.bind last ?_
    intro len short
    refine Safe.bind (infBits_safe reached.ok _) ?_
    rintro ⟨extra, s₂⟩ ⟨later, -, -, -⟩
    have reached := reached.trans later
    refine Safe.ite (fun _ => Safe.ok ⟨reached, good⟩) fun _ => ?_
    refine Safe.ite (fun _ => Safe.ok ⟨reached, good⟩) fun fits => ?_
    refine Safe.bind (repeatLoop_safe short _ _ good (by omega)) ?_
    intro lengths' good'
    have some : 3 ≤ if symbol = 16 ∨ symbol = 17 then 3 else 11 := by split <;> omega
    refine (ih _ reached.ok good' (by omega) (by omega)).mono ?_
    rintro r ⟨later, good''⟩
    exact ⟨reached.trans later, good''⟩

theorem infDynamic_safe (ok : s.Ok) : Safe (infDynamic s) fun r => Reached s r.2 := by
  refine Safe.bind (infBits_safe ok 5) ?_
  rintro ⟨hlit, s₁⟩ ⟨reached, -, -, -⟩
  refine Safe.bind (infBits_safe reached.ok 5) ?_
  rintro ⟨hdist, s₂⟩ ⟨later, -, -, -⟩
  have reached := reached.trans later
  refine Safe.bind (infBits_safe reached.ok 4) ?_
  rintro ⟨hclen, s₃⟩ ⟨later, -, -, -⟩
  have reached := reached.trans later
  refine Safe.ite (fun _ => Safe.ok reached) fun _ => ?_
  refine Safe.ite (fun _ => Safe.ok reached) fun bounded => ?_
  simp only [maxLCodes, maxDCodes] at bounded
  have blank : CodeLengths (List.replicate maxCodes 0) := ⟨List.length_replicate, by simp⟩
  refine Safe.bind (orderLoop_safe 19 0 reached.ok rfl blank) ?_
  rintro ⟨lengths, s₄⟩ ⟨later, good⟩
  have reached := reached.trans later
  have size : maxCodes = 316 := rfl
  have goodSize := good.size
  refine Safe.ite (fun _ => Safe.ok reached) fun _ => ?_
  refine Safe.bind (infConstruct_safe (.blank maxLCodes) lengths 0 19 rfl (by simp only at *; omega) good.small
    (blank_size _).1 (by rw [(blank_size _).2]; decide)) ?_
  rintro ⟨err, lencode⟩ ⟨⟨lenSize, lenWidth⟩, lens⟩
  refine Safe.ite (fun _ => Safe.ok reached) fun complete => ?_
  have lens := (lens.resolve_left fun bad => by simp only at *; omega).1
  refine Safe.bind (lengthsLoop_safe lens (by simp only at *; omega) _ _ reached.ok good (by omega) (by omega)) ?_
  rintro ⟨err, lengths, s₅⟩ ⟨later, good⟩
  have reached := reached.trans later
  have goodSize := good.size
  refine Safe.ite (fun _ => Safe.ok reached) fun _ => ?_
  refine Safe.bind (rd_safe (by simp only at *; omega)) ?_
  rintro _ rfl
  refine Safe.ite (fun _ => Safe.ok reached) fun _ => ?_
  rw [(blank_size _).2] at lenWidth
  refine Safe.bind (infConstruct_safe lencode lengths 0 (hlit + 257) rfl (by simp only at *; omega) good.small
    lenSize (by simp only [maxLCodes] at *; omega)) ?_
  rintro ⟨err, lencode⟩ ⟨⟨lenSize, -⟩, lens⟩
  refine Safe.bind (rd_safe (by simp only [maxBits] at *; omega)) ?_
  rintro _ -
  refine Safe.ite (fun _ => Safe.ok reached) fun accepted => ?_
  have lens := (lens.resolve_left fun bad => accepted (Or.inl bad.1)).1
  refine Safe.bind (infConstruct_safe (.blank maxDCodes) lengths (hlit + 257) (hdist + 1) rfl
    (by simp only at *; omega) good.small (blank_size _).1 (by rw [(blank_size _).2]; simp only [maxDCodes]; omega)) ?_
  rintro ⟨err, distcode⟩ ⟨⟨distSize, -⟩, dists⟩
  refine Safe.bind (rd_safe (by simp only [maxBits] at *; omega)) ?_
  rintro _ -
  refine Safe.ite (fun _ => Safe.ok reached) fun accepted => ?_
  have dists := (dists.resolve_left fun bad => accepted (Or.inl bad.1)).1
  exact (infCodes_safe lens dists reached.ok).mono fun r later => reached.trans later

theorem infBlock_safe (type : Nat) (ok : s.Ok) : Safe (infBlock type s) fun r => Reached s r.2 := by
  refine Safe.ite (fun _ => infStored_safe ok) fun _ => ?_
  refine Safe.ite (fun _ => infFixed_safe ok) fun _ => ?_
  exact Safe.ite (fun _ => infDynamic_safe ok) fun _ => Safe.ok (Reached.refl ok)

theorem inflateLoop_safe : ∀ (fuel : Nat) {s : Inf}, s.Ok → s.avail < fuel →
    Safe (inflateLoop fuel s) fun r => Reached s r.2 := by
  intro fuel
  induction fuel with
  | zero =>
    intro s _ none
    exact absurd none (Nat.not_lt_zero _)
  | succ fuel ih =>
    intro s ok enough
    refine Safe.bind (infBits_safe ok 1) ?_
    rintro ⟨last, s₁⟩ ⟨reached, -, -, paid⟩
    refine Safe.bind (infBits_safe reached.ok 2) ?_
    rintro ⟨type, s₂⟩ ⟨later, -, -, paid'⟩
    have reached := reached.trans later
    refine Safe.ite (fun _ => Safe.ok reached) fun noError => ?_
    have spent : s₂.avail < s.avail := by
      obtain ⟨fine, header⟩ := paid' (by simpa using noError)
      have := (paid fine).2
      simp only at *
      omega
    refine Safe.bind (infBlock_safe type reached.ok) ?_
    rintro ⟨err, s₃⟩ later
    have reached := reached.trans later
    have bits := later.bits
    refine Safe.ite (fun _ => Safe.ok reached) fun _ => ?_
    refine Safe.ite (fun _ => ?_) fun _ => Safe.ok reached
    exact (ih later.ok (by simp only at *; omega)).mono fun r rest => reached.trans rest

theorem rexInflate_safe (src : List UInt8) (destlen : Nat) :
    Safe (rexInflate src destlen) fun r => r.2.length ≤ destlen := by
  have ok : Inf.Ok ⟨src, 0, [], destlen, 0, 0, false⟩ := ⟨Nat.zero_le _, Nat.zero_le _⟩
  refine Safe.bind (inflateLoop_safe _ ok (Nat.lt_succ_self _)) ?_
  rintro ⟨err, s⟩ reached
  refine Safe.ok ?_
  have := reached.ok.output
  rw [reached.outlen] at this
  exact this

theorem byteAt_safe {p : List UInt8} {off : Nat} (inside : off < p.length) : Safe (byteAt p off) fun _ => True := by
  refine ⟨(p[off]).toNat, ?_, trivial⟩
  simp [byteAt, List.getElem?_eq_getElem inside]

theorem zeroLoop_safe (p : List UInt8) : ∀ (fuel off : Nat), p.length ≤ off + fuel →
    Safe (zeroLoop p (fuel + 1) off) fun _ => True := by
  intro fuel
  induction fuel with
  | zero =>
    intro off beyond
    rw [zeroLoop, if_neg (by omega)]
    exact Safe.ok trivial
  | succ fuel ih =>
    intro off enough
    rw [zeroLoop]
    refine Safe.ite (fun inside => ?_) fun _ => Safe.ok trivial
    refine Safe.bind (byteAt_safe inside) ?_
    intro b _
    exact Safe.ite (fun _ => ih _ (by omega)) fun _ => Safe.ok trivial

theorem skipField_safe (p : List UInt8) (present : Bool) (off : Nat) :
    Safe (skipField p present off) fun _ => True := by
  refine Safe.ite (fun _ => ?_) fun _ => Safe.ok trivial
  refine Safe.bind (zeroLoop_safe p p.length off (by omega)) ?_
  exact fun _ _ => Safe.ok trivial

theorem skipExtra_safe {p : List UInt8} {present : Bool} {off : Nat} (room : present = true → off + 2 ≤ p.length) :
    Safe (skipExtra p present off) fun _ => True := by
  refine Safe.ite (fun there => ?_) fun _ => Safe.ok trivial
  have := room there
  refine Safe.bind (byteAt_safe (by omega)) ?_
  intro _ _
  refine Safe.bind (byteAt_safe (by omega)) ?_
  exact fun _ _ => Safe.ok trivial

theorem inflateFrom_safe (src : List UInt8) (destlen off : Nat) :
    Safe (inflateFrom src destlen off) fun r => ∀ out, r.2 = some out → out.length ≤ destlen := by
  refine Safe.bind (rexInflate_safe _ destlen) ?_
  rintro ⟨err, out⟩ within
  refine Safe.ok ?_
  rintro _ ⟨rfl⟩
  exact within

theorem rexGunzip_safe (src : List UInt8) (destlen : Nat) :
    Safe (rexGunzip src destlen) fun r => ∀ out, r.2 = some out → out.length ≤ destlen := by
  have refused : ∀ code : Int, Safe (.ok (code, none) : Except Fault (Int × Option (List UInt8)))
      fun r => ∀ out, r.2 = some out → out.length ≤ destlen := fun _ => Safe.ok nofun
  refine Safe.ite (fun _ => inflateFrom_safe src destlen 0) fun two => ?_
  refine Safe.bind (byteAt_safe (by omega)) ?_
  intro b0 _
  refine Safe.bind (byteAt_safe (by omega)) ?_
  intro b1 _
  refine Safe.ite (fun gzip => ?_) fun _ =>
    Safe.ite (fun _ => inflateFrom_safe src destlen 2) fun _ => inflateFrom_safe src destlen 0
  refine Safe.ite (fun _ => refused _) fun ten => ?_
  refine Safe.bind (byteAt_safe (by omega)) ?_
  intro flg _
  refine Safe.ite (fun _ => refused _) fun header => ?_
  refine Safe.bind (skipExtra_safe fun there => ?_) ?_
  · by_contra short
    exact header ⟨by simpa using there, by omega⟩
  intro off _
  refine Safe.bind (skipField_safe src _ off) ?_
  intro off _
  refine Safe.bind (skipField_safe src _ off) ?_
  intro off _
  exact Safe.ite (fun _ => refused _) fun _ => inflateFrom_safe src destlen _

/-- On any source and for any capacity, no access is out of bounds, the loops end, and
the destination is not overrun. -/
theorem inflate_memory_safe (src : List UInt8) (destlen : Nat) :
    (∃ err out, rexInflate src destlen = .ok (err, out) ∧ out.length ≤ destlen) ∧
    ∃ err written, rexGunzip src destlen = .ok (err, written) ∧ ∀ out, written = some out → out.length ≤ destlen := by
  obtain ⟨⟨err, out⟩, done, within⟩ := rexInflate_safe src destlen
  obtain ⟨⟨err', written⟩, done', within'⟩ := rexGunzip_safe src destlen
  exact ⟨⟨err, out, done, within⟩, err', written, done', within'⟩

end RexOs.User
