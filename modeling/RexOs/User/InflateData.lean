import RexOs.User.Deflate
import RexOs.User.InflateSafe

/-! Compressed data is decoded as the format says.

`At src cap pos out s` says that the state `s` has read the source up to the bit position `pos` and
written `out`.
-/

set_option autoImplicit false

namespace RexOs.User

open RexOs.Library

variable {src : List UInt8} {cap pos : Nat} {out : List UInt8} {s : Inf}

theorem bit_lt (src : List UInt8) (i : Nat) : bit src i < 2 := Nat.mod_lt _ (by decide)

theorem field_lt (src : List UInt8) (pos n : Nat) : field src pos n < 2 ^ n := by
  induction n generalizing pos with
  | zero => simp [field]
  | succ n ih =>
    have := ih (pos + 1)
    have := bit_lt src pos
    simp only [field, Nat.pow_succ]
    omega

theorem field_add (src : List UInt8) (pos a b : Nat) :
    field src pos (a + b) = field src pos a + 2 ^ a * field src (pos + a) b := by
  induction a generalizing pos with
  | zero => simp [field]
  | succ a ih =>
    have shift : a + 1 + b = a + b + 1 := by omega
    have place : pos + 1 + a = pos + (a + 1) := by omega
    rw [shift, field, ih, field, place, Nat.pow_succ, Nat.mul_add]
    rw [Nat.mul_comm (2 ^ a) 2, Nat.mul_assoc]
    omega

theorem field_byte (src : List UInt8) (i : Nat) : field src (8 * i) 8 = (src.getD i 0).toNat := by
  have digit : ∀ k < 8, bit src (8 * i + k) = (src.getD i 0).toNat / 2 ^ k % 2 := by
    intro k small
    have quotient : (8 * i + k) / 8 = i := by omega
    have rest : (8 * i + k) % 8 = k := by omega
    rw [bit, quotient, rest]
  have small := (src.getD i 0).toNat_lt
  simp only [field, Nat.add_assoc, Nat.reduceAdd]
  have zero := digit 0 (by decide)
  rw [Nat.add_zero] at zero
  rw [zero, digit 1 (by decide), digit 2 (by decide), digit 3 (by decide), digit 4 (by decide), digit 5 (by decide),
    digit 6 (by decide), digit 7 (by decide)]
  simp only [Nat.reducePow] at *
  omega

theorem or_shift {a k : Nat} (small : a < 2 ^ k) (b : Nat) : a ||| b <<< k = a + 2 ^ k * b := by
  rw [Nat.or_comm, ← Nat.shiftLeft_add_eq_or_of_lt small, Nat.shiftLeft_eq, Nat.mul_comm, Nat.add_comm]

structure At (src : List UInt8) (cap pos : Nat) (out : List UInt8) (s : Inf) : Prop where
  source : s.src = src
  capacity : s.outlen = cap
  written : s.out = out
  fine : s.err = false
  input : s.incnt ≤ src.length
  place : pos + s.bitcnt = 8 * s.incnt
  few : s.bitcnt < 8
  buffer : s.bitbuf = field src pos s.bitcnt

theorem At.avail (at_ : At src cap pos out s) : s.avail = 8 * src.length - pos := by
  have := at_.place
  have := at_.input
  simp only [Inf.avail, at_.source]
  omega

theorem infBitsLoop_at (need : Nat) (inside : pos + need ≤ 8 * src.length) :
    ∀ (fuel : Nat) {s : Inf} {val : Nat}, s.src = src → s.outlen = cap → s.out = out → s.err = false →
      s.incnt ≤ src.length → pos + s.bitcnt = 8 * s.incnt → s.bitcnt < need + 8 → val = field src pos s.bitcnt →
      need ≤ s.bitcnt + 8 * fuel →
      Safe (infBitsLoop need (fuel + 1) s val) fun r => r.1 = field src pos need ∧ At src cap (pos + need) out r.2 := by
  intro fuel
  have done : ∀ {s : Inf} {val : Nat}, s.src = src → s.outlen = cap → s.out = out → s.err = false →
      s.incnt ≤ src.length → pos + s.bitcnt = 8 * s.incnt → s.bitcnt < need + 8 → val = field src pos s.bitcnt →
      need ≤ s.bitcnt →
      Safe (.ok (val % 2 ^ need, { s with bitbuf := val >>> need, bitcnt := s.bitcnt - need }) : Except Fault _)
        fun r => r.1 = field src pos need ∧ At src cap (pos + need) out r.2 := by
    intro s val src_ cap_ out_ err_ input place few buffer full
    have split : field src pos s.bitcnt =
        field src pos need + 2 ^ need * field src (pos + need) (s.bitcnt - need) := by
      rw [← field_add]
      congr 1
      omega
    have small := field_lt src pos need
    refine Safe.ok ⟨?_, src_, cap_, out_, err_, input, ?_, ?_, ?_⟩
    · simp only [buffer, split, Nat.add_mul_mod_self_left, Nat.mod_eq_of_lt small]
    · simp only
      omega
    · simp only
      omega
    · simp only [buffer, split, Nat.shiftRight_eq_div_pow]
      rw [Nat.add_mul_div_left _ _ (Nat.two_pow_pos _), Nat.div_eq_of_lt small, Nat.zero_add]
  induction fuel with
  | zero =>
    intro s val src_ cap_ out_ err_ input place few buffer enough
    rw [infBitsLoop, if_neg (by omega)]
    exact done src_ cap_ out_ err_ input place few buffer (by omega)
  | succ fuel ih =>
    intro s val src_ cap_ out_ err_ input place few buffer enough
    rw [infBitsLoop]
    refine Safe.ite (fun more => ?_) fun full => done src_ cap_ out_ err_ input place few buffer (by omega)
    have left : s.incnt < s.src.length := by rw [src_]; omega
    rw [if_neg (by omega)]
    refine Safe.bind (nextByte_safe left) ?_
    rintro ⟨byte, s'⟩ ⟨same, rfl⟩
    refine ih src_ cap_ out_ err_ (by rw [← src_]; exact left) (by simp only; omega) (by simp only; omega) ?_
      (by simp only; omega)
    have small := field_lt src pos s.bitcnt
    simp only at same
    simp only [buffer, same, or_shift small]
    rw [field_add, place, field_byte, src_]

theorem infBits_at (at_ : At src cap pos out s) {need : Nat} (inside : pos + need ≤ 8 * src.length) :
    Safe (infBits s need) fun r => r.1 = field src pos need ∧ At src cap (pos + need) out r.2 :=
  infBitsLoop_at need inside need at_.source at_.capacity at_.written at_.fine at_.input at_.place (by have := at_.few; omega)
    at_.buffer (by omega)

theorem At.field {v next n : Nat} (at_ : At src cap pos out s) (reads : ReadsField src pos n v next) :
    Safe (infBits s n) fun r => r.1 = v ∧ At src cap next out r.2 := by
  obtain ⟨rfl, inside, rfl⟩ := reads
  exact infBits_at at_ inside

theorem field_one (src : List UInt8) (pos : Nat) : field src pos 1 = bit src pos := by simp [field]

section
variable {L : List Nat} {h : Huffman} {sym next : Nat}

theorem codeword_lt (L : List Nat) (src : List UInt8) (pos : Nat) {k : Nat} (positive : 0 < k)
    (early : codeword src pos k < firstCode L k + L.count k) (i : Nat) :
    codeword src pos (k + (i + 1)) < firstCode L (k + (i + 1)) := by
  induction i with
  | zero =>
    have := bit_lt src (pos + k)
    have some : k ≠ 0 := by omega
    simp only [codeword, firstCode, some, if_false]
    omega
  | succ i ih =>
    have := bit_lt src (pos + (k + (i + 1)))
    rw [← Nat.add_assoc k, codeword, firstCode]
    omega

theorem decodeLoop_at (table : Table L h) (reads : ReadsSymbol src L pos sym next) (short : L.getD sym 0 ≤ maxBits) :
    ∀ (rounds k : Nat) {s : Inf}, At src cap (pos + k) out s → k < L.getD sym 0 → L.getD sym 0 ≤ k + rounds →
      Safe (decodeLoop h rounds (k + 1) (codeword src pos k <<< 1) (firstCode L (k + 1)) (offset L (k + 1)) s)
        fun r => r.1 = sym ∧ At src cap next out r.2 := by
  obtain ⟨listed, coded, rfl, inside, code⟩ := reads
  intro rounds
  induction rounds with
  | zero =>
    intro k s _ before enough
    omega
  | succ rounds ih =>
    intro k s at_ before enough
    rw [decodeLoop]
    refine Safe.bind (infBits_at at_ (by omega)) ?_
    rintro ⟨b, s'⟩ ⟨read, at'⟩
    simp only [field_one] at read
    have moreCode : codeword src pos k <<< 1 ||| b = codeword src pos (k + 1) := by
      have := bit_lt src (pos + k)
      rw [Nat.or_comm, or_shift (by omega), read, codeword]
      omega
    simp only [moreCode]
    rw [if_neg (by simpa using at'.fine)]
    refine Safe.bind (rd_safe (by rw [table.size]; omega)) ?_
    rintro _ rfl
    rw [table.counts (k + 1) (by omega)]
    rcases Nat.lt_or_ge (k + 1) (L.getD sym 0) with shorter | full
    · have late : ¬ codeword src pos (k + 1) < firstCode L (k + 1) + L.count (k + 1) := by
        intro early
        have less := codeword_lt L src pos (Nat.succ_pos k) early (L.getD sym 0 - (k + 1) - 1)
        have place : k + 1 + (L.getD sym 0 - (k + 1) - 1 + 1) = L.getD sym 0 := by omega
        rw [place, code, canonicalCode] at less
        omega
      rw [if_neg (by omega)]
      have nextFirst : (firstCode L (k + 1) + L.count (k + 1)) <<< 1 = firstCode L (k + 1 + 1) := by
        simp only [firstCode, Nat.shiftLeft_eq, Nat.succ_ne_zero, if_false]
        omega
      have nextOffset : offset L (k + 1) + L.count (k + 1) = offset L (k + 1 + 1) := by simp [offset]
      rw [nextFirst, nextOffset]
      exact ih (k + 1) (by rw [← Nat.add_assoc]; exact at') shorter (by omega)
    · have all : k + 1 = L.getD sym 0 := by omega
      have ranked := rank_lt listed
      rw [all, code, canonicalCode, if_pos (by omega)]
      have found : ((offset L (L.getD sym 0) : Int) + (((firstCode L (L.getD sym 0) + rank L sym : Nat) : Int) -
          (firstCode L (L.getD sym 0) : Int))) = (place L sym : Nat) := by
        rw [place]
        omega
      have below := place_lt listed coded
      have room := offset_le L (L.getD sym 0)
      have width := table.room
      rw [found]
      refine Safe.bind (rd_safe (by omega)) ?_
      rintro _ rfl
      rw [table.filled sym listed coded]
      refine Safe.ok ⟨rfl, ?_⟩
      rw [← all, ← Nat.add_assoc]
      exact at'

theorem infDecode_at (table : Table L h) (small : ∀ l ∈ L, l ≤ maxBits) (at_ : At src cap pos out s)
    (reads : ReadsSymbol src L pos sym next) :
    Safe (infDecode s h) fun r => r.1 = sym ∧ At src cap next out r.2 := by
  have short : L.getD sym 0 ≤ maxBits := by
    simp only [List.getD, List.getElem?_eq_getElem reads.1, Option.getD_some]
    exact small _ (List.getElem_mem reads.1)
  have coded := reads.2.1
  exact decodeLoop_at table reads short maxBits 0 at_ (by omega) (by omega)

end

theorem infLens_eq : ∀ {c : Nat}, c < 29 → infLens.getD c 0 = lengthBase c := by decide
theorem infLext_eq : ∀ {c : Nat}, c < 29 → infLext.getD c 0 = lengthExtra c := by decide
theorem infDists_eq : ∀ {d : Nat}, d < 30 → infDists.getD d 0 = distBase d := by decide
theorem infDext_eq : ∀ {d : Nat}, d < 30 → infDext.getD d 0 = distExtra d := by decide

theorem At.write (at_ : At src cap pos out s) (more : List UInt8) : At src cap pos more { s with out := more } :=
  ⟨at_.source, at_.capacity, rfl, at_.fine, at_.input, at_.place, at_.few, at_.buffer⟩

theorem copyBack_length (dist n : Nat) (out : List UInt8) : (copyBack dist n out).length = out.length + n := by
  induction n generalizing out with
  | zero => rfl
  | succ n ih =>
    rw [copyBack, ih, List.length_append, List.length_singleton]
    omega

theorem copyLoop_at {dist : Nat} (positive : 0 < dist) : ∀ (n : Nat) {s : Inf} {out : List UInt8},
    At src cap pos out s → dist ≤ out.length → out.length + n ≤ cap →
    Safe (copyLoop dist n s) fun r => At src cap pos (copyBack dist n out) r := by
  intro n
  induction n with
  | zero =>
    intro s out at_ _ _
    exact Safe.ok at_
  | succ n ih =>
    intro s out at_ window room
    have source : out.length - dist < out.length := by omega
    rw [copyLoop, at_.written, if_neg (by omega), List.getElem?_eq_getElem source]
    refine Safe.bind (emit_safe (by rw [at_.written, at_.capacity]; omega)) ?_
    rintro _ rfl
    have byte : out.getD (out.length - dist) 0 = out[out.length - dist] := by
      simp only [List.getD, List.getElem?_eq_getElem source, Option.getD_some]
    rw [copyBack, byte, at_.written]
    refine ih (at_.write _) ?_ ?_
    all_goals
      rw [List.length_append, List.length_singleton]
      omega

section
variable {lits dists : List Nat} {next : Nat} {final : List UInt8}

theorem Data.grows (data : Data src lits dists pos out next final) : out.length ≤ final.length := by
  induction data with
  | stop => exact Nat.le_refl _
  | literal _ _ _ ih =>
    rw [List.length_append] at ih
    omega
  | copy _ _ _ _ _ _ _ _ ih =>
    rw [copyBack_length] at ih
    omega

theorem Data.stops (data : Data src lits dists pos out next final) : lits.getD 256 0 ≠ 0 := by
  induction data with
  | stop reads => exact reads.2.1
  | literal _ _ _ ih => exact ih
  | copy _ _ _ _ _ _ _ _ ih => exact ih

theorem Data.mono {dists' : List Nat} (data : Data src lits dists pos out next final)
    (same : ∀ {d pos next : Nat}, d < 30 → ReadsSymbol src dists pos d next → ReadsSymbol src dists' pos d next) :
    Data src lits dists' pos out next final := by
  induction data with
  | stop reads => exact .stop reads
  | literal reads small _ ih => exact .literal reads small ih
  | copy reads small extra reads' small' extra' window _ ih =>
    exact .copy reads small extra (same small' reads') small' extra' window ih

theorem ReadsSymbol.moves {L : List Nat} {sym : Nat} (reads : ReadsSymbol src L pos sym next) :
    pos < next ∧ next ≤ 8 * src.length := by
  obtain ⟨_, coded, rfl, inside, _⟩ := reads
  omega

theorem ReadsField.moves {n v : Nat} (reads : ReadsField src pos n v next) : pos ≤ next ∧ next ≤ 8 * src.length := by
  obtain ⟨rfl, inside, _⟩ := reads
  omega

theorem codesLoop_at {lencode distcode : Huffman} (lens : Table lits lencode) (shortLens : ∀ l ∈ lits, l ≤ maxBits)
    (distances : Table dists distcode) (shortDists : ∀ l ∈ dists, l ≤ maxBits)
    (data : Data src lits dists pos out next final) (room : final.length ≤ cap) :
    ∀ {fuel : Nat} {s : Inf}, At src cap pos out s → 8 * src.length - pos < fuel →
      Safe (codesLoop lencode distcode fuel s) fun r => r.1 = 0 ∧ At src cap next final r.2 := by
  induction data with
  | stop reads =>
    intro fuel s at_ enough
    obtain ⟨fuel, rfl⟩ := Nat.exists_eq_succ_of_ne_zero (by omega : fuel ≠ 0)
    refine Safe.bind (infDecode_at lens shortLens at_ reads) ?_
    rintro ⟨symbol, s₁⟩ ⟨rfl, at₁⟩
    exact Safe.ok ⟨rfl, at₁⟩
  | @literal pos after next sym out final reads small rest ih =>
    intro fuel s at_ enough
    obtain ⟨fuel, rfl⟩ := Nat.exists_eq_succ_of_ne_zero (by omega : fuel ≠ 0)
    have moved := reads.moves
    have grown := rest.grows
    rw [List.length_append, List.length_singleton] at grown
    refine Safe.bind (infDecode_at lens shortLens at_ reads) ?_
    rintro ⟨symbol, s₁⟩ ⟨rfl, at₁⟩
    have free : s₁.out.length < s₁.outlen := by
      rw [at₁.written, at₁.capacity]
      omega
    refine Safe.neg (by omega) (Safe.pos (by omega) (Safe.neg (by omega) ?_))
    refine Safe.bind (emit_safe free) ?_
    rintro _ rfl
    rw [at₁.written]
    exact ih room (at₁.write _) (by omega)
  | @copy pos p₁ p₂ p₃ p₄ next c e d f out final reads small extra reads' small' extra' window rest ih =>
    intro fuel s at_ enough
    obtain ⟨fuel, rfl⟩ := Nat.exists_eq_succ_of_ne_zero (by omega : fuel ≠ 0)
    have moved := reads.moves
    have moved₁ := extra.moves
    have moved₂ := reads'.moves
    have moved₃ := extra'.moves
    have grown := rest.grows
    rw [copyBack_length] at grown
    refine Safe.bind (infDecode_at lens shortLens at_ reads) ?_
    rintro ⟨symbol, s₁⟩ ⟨rfl, at₁⟩
    refine Safe.neg (by omega) (Safe.neg (by omega) (Safe.pos (by omega) ?_))
    have code : ((257 + c : Nat) : Int) - 257 = (c : Nat) := by omega
    simp only [code]
    refine Safe.neg (by omega) ?_
    refine Safe.bind (rd_safe small) ?_
    rintro _ rfl
    refine Safe.bind (rd_safe small) ?_
    rintro _ rfl
    rw [infLens_eq small, infLext_eq small]
    refine Safe.bind (at₁.field extra) ?_
    rintro ⟨_, s₂⟩ ⟨rfl, at₂⟩
    refine Safe.neg (by simpa using at₂.fine) ?_
    refine Safe.bind (infDecode_at distances shortDists at₂ reads') ?_
    rintro ⟨symbol, s₃⟩ ⟨rfl, at₃⟩
    refine Safe.neg (by omega) (Safe.neg (by omega) ?_)
    refine Safe.bind (rd_safe small') ?_
    rintro _ rfl
    refine Safe.bind (rd_safe small') ?_
    rintro _ rfl
    rw [infDists_eq small', infDext_eq small']
    refine Safe.bind (at₃.field extra') ?_
    rintro ⟨_, s₄⟩ ⟨rfl, at₄⟩
    have length : s₄.out.length = out.length := congrArg List.length at₄.written
    have outlen : s₄.outlen = cap := at₄.capacity
    refine Safe.neg (by simpa using at₄.fine) (Safe.neg (by simp only; omega) (Safe.neg (by simp only; omega) ?_))
    have positive : ∀ {d : Nat}, d < 30 → 0 < distBase d := by decide
    refine Safe.bind (copyLoop_at (Nat.add_pos_left (positive small') _) _ at₄ window (by simp only; omega)) ?_
    intro s₅ at₅
    exact ih room at₅ (by omega)

theorem infCodes_at {lencode distcode : Huffman} (lens : Table lits lencode) (shortLens : ∀ l ∈ lits, l ≤ maxBits)
    (distances : Table dists distcode) (shortDists : ∀ l ∈ dists, l ≤ maxBits)
    (data : Data src lits dists pos out next final) (room : final.length ≤ cap) (at_ : At src cap pos out s) :
    Safe (infCodes s lencode distcode) fun r => r.1 = 0 ∧ At src cap next final r.2 :=
  codesLoop_at lens shortLens distances shortDists data room at_ (by rw [at_.avail]; omega)

theorem infFixed_at (data : Data src fixedLitLengths fixedDistanceLengths pos out next final)
    (room : final.length ≤ cap) (at_ : At src cap pos out s) :
    Safe (infFixed s) fun r => r.1 = 0 ∧ At src cap next final r.2 := by
  have same : ∀ {d : Nat}, d < 30 → (List.replicate maxDCodes 5).getD d 0 = fixedDistanceLengths.getD d 0 ∧
      canonicalCode (List.replicate maxDCodes 5) d = canonicalCode fixedDistanceLengths d := by decide +kernel
  have data' : Data src fixedLengths (List.replicate maxDCodes 5) pos out next final := by
    refine data.mono fun small reads => ?_
    obtain ⟨-, coded, moved, inside, code⟩ := reads
    obtain ⟨length, codes⟩ := same small
    rw [← length] at coded moved code
    rw [← codes] at code
    exact ⟨small, coded, moved, inside, code⟩
  obtain ⟨lencode, distcode, lens, distances, equal⟩ := infFixed_tables
  rw [equal]
  exact infCodes_at lens (by decide +kernel) distances (by decide +kernel) data' room at_

end

end RexOs.User
