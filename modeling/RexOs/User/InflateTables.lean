import RexOs.Library.Canonical
import RexOs.Library.Safe
import RexOs.User.Inflate

/-! The tables that `inf_construct` builds.

`Table L h` says that `h` holds the canonical code with the code lengths `L`: the
number of codes of each length, and the symbols in the order of their codes.
-/

set_option autoImplicit false

namespace RexOs.User

open RexOs.Library

section
variable {a : List Nat} {i v : Nat}

theorem rd_safe (inside : i < a.length) : Safe (rd a i) fun x => x = a.getD i 0 := by
  have found : a[i]? = some a[i] := List.getElem?_eq_getElem inside
  refine ⟨a.getD i 0, ?_, rfl⟩
  have natural : ¬ (i : Int) < 0 := by omega
  simp [rd, natural, found, List.getD]

theorem wr_safe (inside : i < a.length) : Safe (wr a i v) fun b => b = a.set i v :=
  ⟨a.set i v, if_pos inside, rfl⟩

theorem getD_set (inside : i < a.length) (j : Nat) :
    (a.set i v).getD j 0 = if i = j then v else a.getD j 0 := by
  simp only [List.getD, List.getElem?_set]
  split
  · rename_i same
    subst same
    simp
  · rfl

theorem getD_sub {off n : Nat} (inside : i < n) : ((a.drop off).take n).getD i 0 = a.getD (off + i) 0 := by
  simp [List.getD, inside, List.getElem?_drop]

end

theorem clearLoop_safe {rounds : Nat} : ∀ {len : Nat} {count : List Nat}, len + rounds ≤ count.length →
    Safe (clearLoop rounds len count) fun c => c.length = count.length ∧
      ∀ i, c.getD i 0 = if len ≤ i ∧ i < len + rounds then 0 else count.getD i 0 := by
  induction rounds with
  | zero =>
    intro len count _
    refine Safe.ok ⟨rfl, fun i => ?_⟩
    rw [if_neg (by omega)]
  | succ rounds ih =>
    intro len count room
    refine Safe.bind (wr_safe (by omega)) ?_
    rintro _ rfl
    refine (ih (by rw [List.length_set]; omega)).mono ?_
    rintro c ⟨size, value⟩
    refine ⟨by rw [size, List.length_set], fun i => ?_⟩
    rw [value, getD_set (by omega)]
    by_cases covered : len ≤ i ∧ i < len + (rounds + 1)
    · rw [if_pos covered]
      split
      · rfl
      · rw [if_pos (by omega)]
    · rw [if_neg covered, if_neg (by omega), if_neg (by omega)]

section
variable {lengths : List Nat} {off n : Nat} {L : List Nat}

theorem countLoop_safe (small : ∀ l ∈ lengths, l ≤ maxBits) :
    ∀ {rounds symbol : Nat} {count : List Nat}, off + symbol + rounds ≤ lengths.length →
      count.length = maxBits + 1 →
      Safe (countLoop lengths off rounds symbol count) fun c => c.length = maxBits + 1 ∧
        ∀ len, c.getD len 0 = count.getD len 0 + ((lengths.drop (off + symbol)).take rounds).count len := by
  intro rounds
  induction rounds with
  | zero =>
    intro symbol count _ size
    exact Safe.ok ⟨size, fun len => by simp⟩
  | succ rounds ih =>
    intro symbol count room size
    have inside : off + symbol < lengths.length := by omega
    have value : lengths.getD (off + symbol) 0 = lengths[off + symbol] := by simp [List.getD, inside]
    have short : lengths.getD (off + symbol) 0 < count.length := by
      have := small _ (List.getElem_mem inside)
      omega
    refine Safe.bind (rd_safe inside) ?_
    rintro _ rfl
    refine Safe.bind (rd_safe short) ?_
    rintro _ rfl
    refine Safe.bind (wr_safe short) ?_
    rintro _ rfl
    refine (ih (by omega) (by rw [List.length_set]; exact size)).mono ?_
    rintro c ⟨size', counted⟩
    refine ⟨size', fun len => ?_⟩
    have next : (lengths.drop (off + symbol)).take (rounds + 1) =
        lengths[off + symbol] :: (lengths.drop (off + (symbol + 1))).take rounds := by
      rw [List.drop_eq_getElem_cons inside, List.take_succ_cons, Nat.add_assoc]
    rw [counted, getD_set short, next, List.count_cons, value]
    simp only [beq_iff_eq]
    split
    · rename_i same
      subst same
      omega
    · omega

theorem codeLeft_neg {m k : Nat} (negative : codeLeft L m < 0) : codeLeft L (m + k) < 0 := by
  induction k with
  | zero => exact negative
  | succ k ih =>
    rw [← Nat.add_assoc, codeLeft]
    omega

theorem leftLoop_safe {count : List Nat} (size : count.length = maxBits + 1)
    (counts : ∀ len ≤ maxBits, count.getD len 0 = L.count len) :
    ∀ (rounds m : Nat), m + rounds ≤ maxBits → 0 ≤ codeLeft L m →
      Safe (leftLoop count rounds (m + 1) (codeLeft L m)) fun left =>
        left < 0 ∧ codeLeft L (m + rounds) < 0 ∨ left = codeLeft L (m + rounds) ∧ 0 ≤ left := by
  intro rounds
  induction rounds with
  | zero =>
    intro m _ positive
    exact Safe.ok (Or.inr ⟨rfl, positive⟩)
  | succ rounds ih =>
    intro m room positive
    refine Safe.bind (rd_safe (by omega)) ?_
    rintro _ rfl
    rw [counts (m + 1) (by omega)]
    have step : 2 * codeLeft L m - L.count (m + 1) = codeLeft L (m + 1) := rfl
    have place : m + (rounds + 1) = m + 1 + rounds := by omega
    simp only [step, place]
    refine Safe.ite (fun negative => ?_) fun enough => ?_
    · exact Safe.ok (Or.inl ⟨negative, codeLeft_neg negative⟩)
    · exact ih (m + 1) (by omega) (by omega)

theorem offsLoop_safe {count : List Nat} (size : count.length = maxBits + 1)
    (counts : ∀ len ≤ maxBits, count.getD len 0 = L.count len) :
    ∀ {rounds m : Nat} {offs : List Nat}, m + 1 + rounds ≤ maxBits → offs.length = maxBits + 1 →
      (∀ len, 0 < len → len ≤ m + 1 → offs.getD len 0 = offset L len) →
      Safe (offsLoop count rounds (m + 1) offs) fun o => o.length = maxBits + 1 ∧
        ∀ len, 0 < len → len ≤ m + 1 + rounds → o.getD len 0 = offset L len := by
  intro rounds
  induction rounds with
  | zero =>
    intro m offs _ size' known
    exact Safe.ok ⟨size', known⟩
  | succ rounds ih =>
    intro m offs room size' known
    refine Safe.bind (rd_safe (by omega)) ?_
    rintro _ rfl
    refine Safe.bind (rd_safe (by omega)) ?_
    rintro _ rfl
    refine Safe.bind (wr_safe (by omega)) ?_
    rintro _ rfl
    have place : m + 1 + (rounds + 1) = m + 1 + 1 + rounds := by omega
    rw [place]
    refine ih (by omega) (by rw [List.length_set]; exact size') ?_
    intro len positive le
    rw [getD_set (by omega)]
    split
    · rename_i last
      subst last
      rw [known (m + 1) (by omega) (Nat.le_refl _), counts (m + 1) (by omega)]
      simp [offset]
    · exact known len positive (by omega)

theorem fillLoop_safe (whole : L = (lengths.drop off).take n) (room : off + n ≤ lengths.length)
    (small : ∀ l ∈ lengths, l ≤ maxBits) :
    ∀ {rounds symbol : Nat} {offs table : List Nat}, symbol + rounds = n → offs.length = maxBits + 1 →
      L.length ≤ table.length →
      (∀ len, 0 < len → len ≤ maxBits → offs.getD len 0 = offset L len + (L.take symbol).count len) →
      (∀ i < symbol, L.getD i 0 ≠ 0 → table.getD (place L i) 0 = i) →
      Safe (fillLoop lengths off rounds symbol offs table) fun t => t.length = table.length ∧
        ∀ i < n, L.getD i 0 ≠ 0 → t.getD (place L i) 0 = i := by
  have size : L.length = n := by
    rw [whole, List.length_take, List.length_drop]
    omega
  intro rounds
  induction rounds with
  | zero =>
    intro symbol offs table all _ _ _ filled
    have done : symbol = n := by omega
    subst done
    exact Safe.ok ⟨rfl, filled⟩
  | succ rounds ih =>
    intro symbol offs table all offsSize tableSize offsets filled
    have inside : off + symbol < lengths.length := by omega
    have listed : symbol < L.length := by omega
    have value : lengths.getD (off + symbol) 0 = L.getD symbol 0 := by rw [whole, getD_sub (by omega)]
    have short : L.getD symbol 0 ≤ maxBits := by
      rw [← value]
      simp only [List.getD, List.getElem?_eq_getElem inside, Option.getD_some]
      exact small _ (List.getElem_mem inside)
    refine Safe.bind (rd_safe inside) ?_
    rintro _ rfl
    rw [value]
    refine Safe.ite (fun coded => ?_) fun uncoded => ?_
    · -- the symbol goes to its place, which no earlier symbol has
      have here : offs.getD (L.getD symbol 0) 0 = place L symbol := offsets _ (by omega) short
      have free : place L symbol < table.length := by
        have := place_lt listed coded
        have := offset_le L (L.getD symbol 0)
        omega
      refine Safe.bind (rd_safe (by omega)) ?_
      rintro _ rfl
      rw [here]
      refine Safe.bind (wr_safe free) ?_
      rintro _ rfl
      refine Safe.bind (wr_safe (by omega)) ?_
      rintro _ rfl
      refine (ih (by omega) (by rw [List.length_set]; exact offsSize) (by rw [List.length_set]; exact tableSize)
        ?_ ?_).mono ?_
      · intro len positive le
        rw [getD_set (by omega), rank_succ len listed]
        split
        · rename_i same
          subst same
          rw [place, rank]
          omega
        · exact offsets len positive le
      · intro i before coded'
        rw [getD_set free]
        split
        · rename_i same
          exact place_inj listed (by omega) coded coded' same
        · rename_i other
          refine filled i ?_ coded'
          have : i ≠ symbol := fun same => other (by rw [same])
          omega
      · rintro t ⟨size', filled'⟩
        exact ⟨by rw [size', List.length_set], filled'⟩
    · have zero : L.getD symbol 0 = 0 := by omega
      refine ih (by omega) offsSize tableSize ?_ ?_
      · intro len positive le
        rw [rank_succ len listed, if_neg (by omega), offsets len positive le]
        rfl
      · intro i before coded
        refine filled i ?_ coded
        have : i ≠ symbol := fun same => coded (by rw [same, zero])
        omega

structure Table (L : List Nat) (h : Huffman) : Prop where
  size : h.count.length = maxBits + 1
  counts : ∀ len ≤ maxBits, h.count.getD len 0 = L.count len
  room : L.length ≤ h.symbol.length
  filled : ∀ i < L.length, L.getD i 0 ≠ 0 → h.symbol.getD (place L i) 0 = i

theorem infConstruct_safe (h : Huffman) (lengths : List Nat) (off n : Nat) (whole : L = (lengths.drop off).take n)
    (room : off + n ≤ lengths.length) (small : ∀ l ∈ lengths, l ≤ maxBits) (size : h.count.length = maxBits + 1)
    (wide : n ≤ h.symbol.length) :
    Safe (infConstruct h lengths off n) fun r =>
      (r.2.count.length = maxBits + 1 ∧ r.2.symbol.length = h.symbol.length) ∧
      (r.1 < 0 ∧ codeLeft L maxBits < 0 ∨
        Table L r.2 ∧ (L.count 0 = n ∧ r.1 = 0 ∨ L.count 0 ≠ n ∧ r.1 = codeLeft L maxBits ∧ 0 ≤ r.1)) := by
  have listed : L.length = n := by
    rw [whole, List.length_take, List.length_drop]
    omega
  refine Safe.bind (clearLoop_safe (by omega)) ?_
  rintro cleared ⟨clearedSize, zeros⟩
  refine Safe.bind (countLoop_safe small (by omega) (by omega)) ?_
  rintro count ⟨countSize, counted⟩
  have counts : ∀ len ≤ maxBits, count.getD len 0 = L.count len := by
    intro len le
    rw [counted, zeros, if_pos (by omega), Nat.zero_add, whole, Nat.add_zero]
  refine Safe.bind (rd_safe (i := 0) (by omega)) ?_
  rintro _ rfl
  rw [counts 0 (by omega)]
  refine Safe.ite (fun none => ?_) fun some => ?_
  · refine Safe.ok ⟨⟨countSize, rfl⟩, Or.inr ⟨⟨countSize, counts, by rw [listed]; exact wide, ?_⟩, Or.inl ⟨none, rfl⟩⟩⟩
    intro i inside coded
    have all : ∀ l ∈ L, 0 = l := List.count_eq_length.mp (by omega)
    refine absurd ?_ coded
    simp only [List.getD, List.getElem?_eq_getElem inside, Option.getD_some]
    exact (all _ (List.getElem_mem inside)).symm
  · refine Safe.bind (leftLoop_safe countSize counts maxBits 0 (by omega) (by simp [codeLeft])) ?_
    rintro left outcome
    rw [Nat.zero_add] at outcome
    refine Safe.ite (fun negative => ?_) fun enough => ?_
    · refine Safe.ok ⟨⟨countSize, rfl⟩, Or.inl ⟨negative, ?_⟩⟩
      rcases outcome with ⟨_, over_⟩ | ⟨_, positive⟩
      · exact over_
      · omega
    · refine Safe.bind (wr_safe (by simp [maxBits])) ?_
      rintro _ rfl
      refine Safe.bind (offsLoop_safe (L := L) (m := 0) countSize counts (by decide) (by simp) ?_) ?_
      · intro len positive le
        have one : len = 1 := by omega
        subst one
        simp [offset, maxBits]
      · rintro offs ⟨offsSize, offsets⟩
        refine Safe.bind (fillLoop_safe whole room small (by omega) offsSize (by omega) ?_ (by rintro sym (bound : sym < 0); omega)) ?_
        · intro len positive le
          rw [offsets len positive (by simp only [maxBits] at *; omega)]
          simp
        · rintro table ⟨tableSize, filled⟩
          refine Safe.ok ⟨⟨countSize, tableSize⟩, Or.inr ⟨⟨countSize, counts, ?_, ?_⟩, Or.inr ?_⟩⟩
          · dsimp only
            omega
          · rwa [listed]
          · rcases outcome with ⟨negative, _⟩ | done
            · exact absurd negative enough
            · exact ⟨some, done⟩

end

end RexOs.User
