import RexOs.Mm.Heap

/-! What the heap's operations do to the list of blocks. -/

set_option autoImplicit false

namespace RexOs.Mm

open RexOs.Library

variable {m : Mem} {prev a next n : Nat} {blk c d : Blk} {xs ys : List Blk}

theorem magicOf_lt (used : Bool) : magicOf used < 2 ^ 32 := by cases used <;> decide

theorem seg_middle : Seg m prev a (xs ++ blk :: ys) next ↔
    Seg m prev a xs (a + extent xs) ∧
    headerAt m (a + extent xs) = ⟨blk.size, magicOf blk.used,
      firstAddr (a + extent xs + headerSize + blk.size) next ys, lastAddr prev a xs⟩ ∧
    16 ∣ blk.size ∧
    Seg m (a + extent xs) (a + extent xs + headerSize + blk.size) ys next := by
  rw [seg_append]
  simp only [firstAddr_cons, Seg]

theorem setMagic_seg (seg : Seg m prev a (xs ++ blk :: ys) next) (used : Bool) :
    Seg (setMagic m (a + extent xs) (magicOf used)) prev a (xs ++ ⟨blk.size, used⟩ :: ys) next := by
  obtain ⟨front, header, aligned, back⟩ := seg_middle.mp seg
  refine seg_middle.mpr ⟨front.congr (setMagic_agree (Or.inl (Nat.le_refl _))), ?_, aligned,
    back.congr (setMagic_agree (Or.inr (by omega)))⟩
  rw [headerAt_setMagic (magicOf_lt used), header]

/-- The blocks that `splitBlock` leaves in the place of one block. -/
def splitBlk (blk : Blk) (n : Nat) : List Blk :=
  if blk.size - n ≥ headerSize + kheapAlign then [⟨n, blk.used⟩, ⟨blk.size - n - headerSize, false⟩]
  else [blk]

theorem extent_splitBlk (blk : Blk) (n : Nat) : extent (splitBlk blk n) = headerSize + blk.size := by
  unfold splitBlk
  split
  · rename_i large
    simp only [extent, headerSize, kheapAlign] at *
    omega
  · simp [extent]

theorem splitBlock_headers {b : Nat} {header : Header} (found : headerAt m b = header)
    (large : headerSize + kheapAlign ≤ header.size - n) (positive : 0 < b)
    (room : b + headerSize + header.size < 2 ^ 64) (fits : n ≤ header.size)
    (after : header.next = 0 ∨ header.next = b + headerSize + header.size) (wide : header.next + headerSize < 2 ^ 64) :
    headerAt (splitBlock m b n) b = { header with size := n, next := b + headerSize + n } ∧
    headerAt (splitBlock m b n) (b + headerSize + n) =
      ⟨header.size - n - headerSize, magicOf false, header.next, b⟩ ∧
    (header.next ≠ 0 → headerAt (splitBlock m b n) header.next =
      { headerAt m header.next with prev := b + headerSize + n }) ∧
    ∀ x, ¬ (b ≤ x ∧ x < b + headerSize) →
      ¬ (b + headerSize + n ≤ x ∧ x < b + headerSize + n + headerSize) →
      (header.next ≠ 0 → ¬ (header.next ≤ x ∧ x < header.next + headerSize)) →
        splitBlock m b n x = m x := by
  obtain ⟨size, magic, nxt, prv⟩ := header
  have unfolded : splitBlock m b n =
      let m := setPrev (setNext (setMagic (setSize m (b + 32 + n) (size - n - 32)) (b + 32 + n)
        blockMagicFree) (b + 32 + n) nxt) (b + 32 + n) b
      setSize (setNext (if nxt ≠ 0 then setPrev m nxt (b + 32 + n) else m) b (b + 32 + n)) b n := by
    unfold splitBlock
    simp only [found]
    exact if_pos large
  rw [unfolded]
  simp only [headerSize, kheapAlign] at *
  have freeFits : blockMagicFree < 2 ^ 32 := by decide
  have zero : ¬ nxt = 0 → nxt = b + 32 + size := fun other => after.resolve_left other
  have done : ∀ m₁ : Mem,
      headerAt (setSize (setNext m₁ b (b + 32 + n)) b n) b =
        { headerAt m₁ b with size := n, next := b + 32 + n } := by
    intro m₁
    rw [headerAt_setSize (by omega), headerAt_setNext (by omega)]
  have beyond : ∀ (m₁ : Mem) (c : Nat), b + 32 ≤ c →
      headerAt (setSize (setNext m₁ b (b + 32 + n)) b n) c = headerAt m₁ c := by
    intro m₁ c apart
    rw [headerAt_setSize_apart (Or.inr apart), headerAt_setNext_apart (Or.inr apart)]
  have untouched : ∀ c, c + 32 ≤ b + 32 + n ∨ b + 32 + n + 32 ≤ c →
      headerAt (setPrev (setNext (setMagic (setSize m (b + 32 + n) (size - n - 32)) (b + 32 + n)
        blockMagicFree) (b + 32 + n) nxt) (b + 32 + n) b) c = headerAt m c := by
    intro c apart
    rw [headerAt_setPrev_apart apart, headerAt_setNext_apart apart, headerAt_setMagic_apart apart,
      headerAt_setSize_apart apart]
  have written : headerAt (setPrev (setNext (setMagic (setSize m (b + 32 + n) (size - n - 32))
      (b + 32 + n) blockMagicFree) (b + 32 + n) nxt) (b + 32 + n) b) (b + 32 + n) =
      ⟨size - n - 32, magicOf false, nxt, b⟩ := by
    rw [headerAt_setPrev (by omega), headerAt_setNext (by omega), headerAt_setMagic freeFits,
      headerAt_setSize (by omega)]
    rfl
  refine ⟨?_, ?_, ?_, ?_⟩
  · rw [done]
    by_cases last : nxt = 0
    · simp only [last, ne_eq, not_true_eq_false, if_false] at untouched ⊢
      rw [untouched b (by omega), found]
    · simp only [last, ne_eq, not_false_eq_true, if_true]
      have := zero last
      rw [headerAt_setPrev_apart (Or.inl (by simp only [headerSize]; omega)), untouched b (by omega), found]
  · rw [beyond _ _ (by omega)]
    by_cases last : nxt = 0
    · simp only [last, ne_eq, not_true_eq_false, if_false] at written ⊢
      rw [written]
    · simp only [last, ne_eq, not_false_eq_true, if_true]
      have := zero last
      rw [headerAt_setPrev_apart (Or.inl (by simp only [headerSize]; omega)), written]
  · intro last
    have := zero last
    rw [beyond _ _ (by omega)]
    simp only [last, ne_eq, not_false_eq_true, if_true]
    rw [headerAt_setPrev (by omega), untouched nxt (by omega)]
  · intro x one two three
    simp only [setSize, setMagic, setNext, setPrev]
    by_cases last : nxt = 0
    · simp only [last, ne_eq, not_true_eq_false, if_false]
      simp (disch := omega) only [store_outside]
    · have apart := three last
      simp only [last, ne_eq, not_false_eq_true, if_true]
      simp (disch := omega) only [store_outside]

theorem splitBlock_seg (seg : Seg m prev a (xs ++ blk :: ys) 0) (positive : 0 < a)
    (room : a + extent (xs ++ blk :: ys) < 2 ^ 64) (fits : n ≤ blk.size) (aligned : 16 ∣ n) :
    Seg (splitBlock m (a + extent xs) n) prev a (xs ++ splitBlk blk n ++ ys) 0 := by
  obtain ⟨front, header, blkAligned, back⟩ := seg_middle.mp seg
  rcases Nat.lt_or_ge (blk.size - n) (headerSize + kheapAlign) with small | large
  · have kept : splitBlock m (a + extent xs) n = m := by
      unfold splitBlock
      simp only [header, Nat.not_le.mpr small, if_false]
    rw [kept, splitBlk, if_neg (Nat.not_le.mpr small)]
    simpa using seg
  simp only [extent_append, extent] at room
  have after : firstAddr (a + extent xs + headerSize + blk.size) 0 ys = 0 ∨
      firstAddr (a + extent xs + headerSize + blk.size) 0 ys = a + extent xs + headerSize + blk.size := by
    cases ys with
    | nil => exact Or.inl rfl
    | cons c ys => exact Or.inr rfl
  have wide : firstAddr (a + extent xs + headerSize + blk.size) 0 ys + headerSize < 2 ^ 64 := by
    cases ys with
    | nil => simp [headerSize]
    | cons c ys => simp only [firstAddr_cons, extent] at *; omega
  obtain ⟨first, second, third, outside⟩ :=
    splitBlock_headers header large (by omega) (by simp only; omega) fits after wide
  have whole : xs ++ splitBlk blk n ++ ys =
      xs ++ ⟨n, blk.used⟩ :: ⟨blk.size - n - headerSize, false⟩ :: ys := by
    rw [splitBlk, if_pos large]
    simp
  have sameEnd : a + extent xs + headerSize + n + headerSize + (blk.size - n - headerSize) =
      a + extent xs + headerSize + blk.size := by
    simp only [headerSize, kheapAlign] at *
    omega
  rw [whole, seg_middle]
  simp only [firstAddr_cons]
  simp only [headerSize, kheapAlign] at *
  refine ⟨front.congr fun x low high => ?_, first, aligned, ?_, by simp only; omega, ?_⟩
  · cases ys with
    | nil => exact outside x (by omega) (by omega) (fun other => absurd rfl other)
    | cons c ys => exact outside x (by omega) (by omega) (fun _ => by simp only [firstAddr_cons]; omega)
  · rw [second]
    simp only [headerSize, sameEnd]
  · rw [show a + extent xs + 32 + n + headerSize + (blk.size - n - 32) = a + extent xs + 32 + blk.size
      from sameEnd]
    cases ys with
    | nil => trivial
    | cons c ys =>
      simp only [firstAddr_cons, extent] at *
      refine back.new_prev (third (by omega)) fun x low high => ?_
      simp only [headerSize] at low high
      exact outside x (by omega) (by omega) (fun _ => by omega)

/-- A free block that can hold `n` bytes. -/
def Fits (n : Nat) (blk : Blk) : Prop := blk.used = false ∧ n ≤ blk.size

theorem magicOf_eq_free {used : Bool} : magicOf used = blockMagicFree ↔ used = false := by
  cases used <;> decide

theorem checkBlock_ok {b : Nat} (used : Bool) (magic : (headerAt m b).magic = magicOf used) :
    checkBlock m b = .ok () := by
  unfold checkBlock
  rw [magic, if_neg]
  cases used <;> decide

theorem kmallocLoop_seg {fuel : Nat} (seg : Seg m prev a xs 0) (positive : 0 < a) (enough : xs.length < fuel) :
    (kmallocLoop m n (firstAddr a 0 xs) fuel = .ok (0, m) ∧ ∀ blk ∈ xs, ¬ Fits n blk) ∨
    ∃ front blk back, xs = front ++ blk :: back ∧ (∀ c ∈ front, ¬ Fits n c) ∧ Fits n blk ∧
      kmallocLoop m n (firstAddr a 0 xs) fuel = .ok (a + extent front + headerSize,
        setMagic (splitBlock m (a + extent front) n) (a + extent front) blockMagicUsed) := by
  induction xs generalizing prev a fuel with
  | nil =>
    obtain ⟨fuel, rfl⟩ : ∃ k, fuel = k + 1 := ⟨fuel - 1, by simp at enough; omega⟩
    exact Or.inl ⟨by simp [kmallocLoop], by simp⟩
  | cons x xs ih =>
    obtain ⟨fuel, rfl⟩ : ∃ k, fuel = k + 1 := ⟨fuel - 1, by omega⟩
    obtain ⟨header, _, rest⟩ := seg
    have magic : (headerAt m a).magic = magicOf x.used := by rw [header]
    have step : kmallocLoop m n a (fuel + 1) =
        if x.used = false ∧ x.size ≥ n then
          .ok (a + headerSize, setMagic (splitBlock m a n) a blockMagicUsed)
        else kmallocLoop m n (firstAddr (a + headerSize + x.size) 0 xs) fuel := by
      rw [kmallocLoop, if_neg (by omega), checkBlock_ok _ magic]
      simp only [header, magicOf_eq_free]
      rfl
    rw [firstAddr_cons, step]
    by_cases fit : x.used = false ∧ x.size ≥ n
    · refine Or.inr ⟨[], x, xs, rfl, by simp, fit, ?_⟩
      simp only [fit, and_self, if_true, extent, Nat.add_zero]
    · simp only [fit, if_false]
      have unfit : ¬ Fits n x := fit
      rcases ih rest (by omega) (by simpa using enough) with ⟨out, none⟩ | ⟨front, blk, back, shape, skipped, fit, out⟩
      · exact Or.inl ⟨out, List.forall_mem_cons.mpr ⟨unfit, none⟩⟩
      · refine Or.inr ⟨x :: front, blk, back, by rw [shape]; rfl, List.forall_mem_cons.mpr ⟨unfit, skipped⟩,
          fit, ?_⟩
        rw [out]
        simp only [extent, Nat.add_assoc]

theorem take_seg (seg : Seg m prev a (xs ++ blk :: ys) 0) (positive : 0 < a)
    (room : a + extent (xs ++ blk :: ys) < 2 ^ 64) (fits : n ≤ blk.size) (aligned : 16 ∣ n) :
    Seg (setMagic (splitBlock m (a + extent xs) n) (a + extent xs) blockMagicUsed) prev a
      (xs ++ splitBlk ⟨blk.size, true⟩ n ++ ys) 0 := by
  have cut := splitBlock_seg seg positive room fits aligned
  have marked : magicOf true = blockMagicUsed := rfl
  rw [← marked]
  unfold splitBlk at cut ⊢
  by_cases large : blk.size - n ≥ headerSize + kheapAlign
  · simp only [large, if_true, List.append_assoc, List.cons_append, List.nil_append] at cut ⊢
    exact setMagic_seg cut true
  · simp only [large, if_false, List.append_assoc, List.cons_append, List.nil_append] at cut ⊢
    exact setMagic_seg cut true

def absorbed (m : Mem) (b c : Nat) : Mem :=
  let merged := setNext (setSize m b ((headerAt m b).size + headerSize + (headerAt m c).size)) b
    (headerAt m c).next
  if (headerAt m c).next ≠ 0 then setPrev merged (headerAt m c).next b else merged

theorem absorbed_seg (seg : Seg m prev a (xs ++ blk :: c :: ys) 0) (positive : 0 < a)
    (room : a + extent (xs ++ blk :: c :: ys) < 2 ^ 64) :
    Seg (absorbed m (a + extent xs) (a + extent xs + headerSize + blk.size)) prev a
      (xs ++ ⟨blk.size + headerSize + c.size, blk.used⟩ :: ys) 0 := by
  obtain ⟨front, header, aligned, second, aligned', back⟩ := seg_middle.mp seg
  simp only [extent_append, extent, firstAddr_cons] at room header
  simp only [headerSize] at *
  have far : a + extent xs + 32 + (blk.size + 32 + c.size) = a + extent xs + 32 + blk.size + 32 + c.size := by
    omega
  have first : ∀ (m₁ : Mem), headerAt m₁ (a + extent xs) = headerAt m (a + extent xs) →
      headerAt (setNext (setSize m₁ (a + extent xs) (blk.size + 32 + c.size)) (a + extent xs)
        (firstAddr (a + extent xs + 32 + blk.size + 32 + c.size) 0 ys)) (a + extent xs) =
      ⟨blk.size + 32 + c.size, magicOf blk.used,
        firstAddr (a + extent xs + 32 + blk.size + 32 + c.size) 0 ys, lastAddr prev a xs⟩ := by
    intro m₁ same
    rw [headerAt_setNext (by cases ys <;> simp only [firstAddr_cons, firstAddr_nil] <;> omega),
      headerAt_setSize (by omega), same, header]
  rw [seg_middle]
  unfold absorbed
  simp only [header, second, headerSize, far]
  cases ys with
  | nil =>
    simp only [firstAddr_nil, ne_eq, not_true_eq_false, if_false] at first ⊢
    refine ⟨front.congr fun x low high => ?_, first m rfl, by omega, trivial⟩
    simp only [setNext, setSize]
    simp (disch := omega) only [store_outside]
  | cons d ys =>
    have linked : ¬ a + extent xs + 32 + blk.size + 32 + c.size = 0 := by omega
    simp only [firstAddr_cons, ne_eq, linked, not_false_eq_true, if_true] at first ⊢
    refine ⟨front.congr fun x low high => ?_, ?_, by omega, ?_⟩
    · simp only [setNext, setSize, setPrev]
      simp (disch := omega) only [store_outside]
    · rw [headerAt_setPrev_apart (Or.inl (by simp only [headerSize]; omega)), first m rfl]
    · refine back.new_prev ?_ fun x low high => ?_
      · rw [headerAt_setPrev (by omega), headerAt_setNext_apart (Or.inr (by simp only [headerSize]; omega)),
          headerAt_setSize_apart (Or.inr (by simp only [headerSize]; omega))]
      · simp only [setNext, setSize, setPrev, headerSize] at *
        simp (disch := omega) only [store_outside]

def absorbNext (blk : Blk) : List Blk → List Blk
  | [] => [blk]
  | c :: rest => if c.used then blk :: c :: rest else ⟨blk.size + headerSize + c.size, blk.used⟩ :: rest

/-- The whole list after a backward coalesce of `blk`, which follows `xs`. -/
def absorbPrev (xs : List Blk) (blk : Blk) (ys : List Blk) : List Blk :=
  match xs.getLast? with
  | none => blk :: ys
  | some c =>
      if c.used then xs ++ blk :: ys
      else xs.dropLast ++ ⟨c.size + headerSize + blk.size, c.used⟩ :: ys

theorem coalesceForward_seg (seg : Seg m prev a (xs ++ blk :: ys) 0) (positive : 0 < a)
    (room : a + extent (xs ++ blk :: ys) < 2 ^ 64) :
    Seg (coalesceForward m (a + extent xs)) prev a (xs ++ absorbNext blk ys) 0 := by
  obtain ⟨front, header, aligned, back⟩ := seg_middle.mp seg
  cases ys with
  | nil =>
    have kept : coalesceForward m (a + extent xs) = m := by
      unfold coalesceForward
      simp [header]
    rw [kept]
    exact seg
  | cons c ys =>
    obtain ⟨second, _, _⟩ := back
    simp only [firstAddr_cons] at header
    have linked : ¬ a + extent xs + headerSize + blk.size = 0 := by omega
    cases used : c.used with
    | true =>
      have kept : coalesceForward m (a + extent xs) = m := by
        unfold coalesceForward
        simp only [header, second, magicOf_eq_free, used]
        simp
      rw [kept, absorbNext, if_pos used]
      exact seg
    | false =>
      have taken : coalesceForward m (a + extent xs) =
          absorbed m (a + extent xs) (a + extent xs + headerSize + blk.size) := by
        have apart : (a + extent xs + headerSize + blk.size) + headerSize ≤ a + extent xs ∨
            a + extent xs + headerSize ≤ a + extent xs + headerSize + blk.size := Or.inr (by omega)
        have small : firstAddr (a + extent xs + headerSize + blk.size + headerSize + c.size) 0 ys < 2 ^ 64 := by
          simp only [extent_append, extent] at room
          cases ys <;> simp only [firstAddr_cons, firstAddr_nil] <;> omega
        unfold coalesceForward absorbed
        simp only [header, linked, second, magicOf_eq_free, used, ne_eq, not_false_eq_true, and_self,
          if_true, headerAt_setSize_apart apart, headerAt_setNext small]
      rw [taken, absorbNext, if_neg (by simp [used])]
      exact absorbed_seg seg positive room

theorem coalesceBackward_seg (seg : Seg m 0 a (xs ++ blk :: ys) 0) (positive : 0 < a)
    (room : a + extent (xs ++ blk :: ys) < 2 ^ 64) :
    Seg (coalesceBackward m (a + extent xs)) 0 a (absorbPrev xs blk ys) 0 := by
  obtain ⟨front, header, aligned, back⟩ := seg_middle.mp seg
  rcases List.eq_nil_or_concat xs with rfl | ⟨xs, c, rfl⟩
  · have kept : coalesceBackward m (a + extent []) = m := by
      unfold coalesceBackward
      simp [header, lastAddr]
    rw [kept]
    exact seg
  · have place : a + extent (xs ++ [c]) = a + extent xs + headerSize + c.size := by
      simp only [extent_append, extent]
      omega
    have last : lastAddr 0 a (xs ++ [c]) = a + extent xs := lastAddr_concat
    have whole : xs ++ [c] ++ blk :: ys = xs ++ c :: blk :: ys := by simp
    simp only [List.concat_eq_append] at seg room header ⊢
    rw [whole] at seg room
    obtain ⟨_, second, _, _⟩ := seg_middle.mp seg
    have linked : ¬ a + extent xs = 0 := by omega
    simp only [absorbPrev, List.getLast?_append, List.getLast?_singleton,
      List.dropLast_concat, Option.some_or]
    rw [place, last] at header
    rw [place]
    cases used : c.used with
    | true =>
      have kept : coalesceBackward m (a + extent xs + headerSize + c.size) = m := by
        unfold coalesceBackward
        simp only [header, second, magicOf_eq_free, used]
        simp
      rw [kept]
      simpa using seg
    | false =>
      have taken : coalesceBackward m (a + extent xs + headerSize + c.size) =
          absorbed m (a + extent xs) (a + extent xs + headerSize + c.size) := by
        have apart : (a + extent xs + headerSize + c.size) + headerSize ≤ a + extent xs ∨
            a + extent xs + headerSize ≤ a + extent xs + headerSize + c.size := Or.inr (by omega)
        unfold coalesceBackward absorbed
        simp only [header, linked, second, magicOf_eq_free, used, ne_eq, not_false_eq_true, and_self,
          if_true, headerAt_setSize_apart apart, headerAt_setNext_apart apart]
      rw [taken]
      have merged := absorbed_seg seg positive room
      rw [used] at merged
      simpa using merged

end RexOs.Mm
