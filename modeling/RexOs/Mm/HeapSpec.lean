import RexOs.Mm.HeapOps
import Mathlib.Data.List.Chain

/-! The kernel heap's operations on its list of blocks.

`Tiled h blocks` is the representation invariant. Each operation is described by
what it does to `blocks`.
-/

set_option autoImplicit false

namespace RexOs.Mm

open RexOs.Library

/-- The list from the head is `blocks`, and they fill the heap's range exactly. -/
structure Tiled (h : Heap) (blocks : List Blk) : Prop where
  head : h.head = kheapVirtBase
  total : h.totalBytes = kheapInitialSize
  seg : Seg h.mem 0 kheapVirtBase blocks 0
  covers : extent blocks = kheapInitialSize

section
variable {h : Heap} {blocks front back : List Blk} {blk : Blk} {p size : Nat}

theorem base_positive : 0 < kheapVirtBase := by decide

theorem heap_room (covers : extent blocks = kheapInitialSize) : kheapVirtBase + extent blocks < 2 ^ 64 := by
  rw [covers]
  decide

theorem Tiled.nonempty (tiled : Tiled h blocks) : blocks ≠ [] := by
  rintro rfl
  exact absurd tiled.covers (by decide)

theorem Tiled.first (tiled : Tiled h blocks) : h.head = firstAddr kheapVirtBase 0 blocks := by
  rw [tiled.head, firstAddr, if_neg (by simpa using tiled.nonempty)]

theorem Tiled.length_lt (tiled : Tiled h blocks) : blocks.length < h.walk := by
  have bound := length_le_extent blocks
  rw [tiled.covers] at bound
  rw [Heap.walk, tiled.total]
  exact Nat.lt_succ_of_le ((Nat.le_div_iff_mul_le (by decide)).mpr bound)

theorem kheapInit_tiled (memory : Mem) :
    Tiled (kheapInit memory) [⟨kheapInitialSize - headerSize, false⟩] where
  head := rfl
  total := rfl
  seg := by
    refine ⟨?_, by decide, trivial⟩
    unfold kheapInit
    rw [headerAt_setPrev (by decide), headerAt_setNext (by decide), headerAt_setMagic (by decide),
      headerAt_setSize (by decide)]
    rfl
  covers := rfl

theorem alignUp_aligned (size : Nat) : 16 ∣ alignUp size := ⟨_, Nat.mul_comm _ _⟩

theorem le_alignUp (small : size + 15 < 2 ^ 64) : size ≤ alignUp size := by
  unfold alignUp
  omega

theorem kmalloc_takes (tiled : Tiled h blocks) (positive : 0 < size) :
    (kmalloc h size = .ok (0, h) ∧ ∀ blk ∈ blocks, ¬ Fits (alignUp size) blk) ∨
    ∃ front blk back, blocks = front ++ blk :: back ∧ Fits (alignUp size) blk ∧
      kmalloc h size = .ok (kheapVirtBase + extent front + headerSize, { h with
        mem := setMagic (splitBlock h.mem (kheapVirtBase + extent front) (alignUp size))
          (kheapVirtBase + extent front) blockMagicUsed }) := by
  have entered : kmalloc h size = (kmallocLoop h.mem (alignUp size) h.head h.walk).bind
      fun r => .ok (r.1, { h with mem := r.2 }) := by
    rw [kmalloc, if_neg (by rw [tiled.head]; have := base_positive; omega)]
    rfl
  have walked := kmallocLoop_seg (n := alignUp size) tiled.seg base_positive tiled.length_lt
  rw [← tiled.first] at walked
  rw [entered]
  rcases walked with ⟨out, none⟩ | ⟨front, blk, back, rfl, _, fit, out⟩
  · exact Or.inl ⟨by rw [out]; rfl, none⟩
  · exact Or.inr ⟨front, blk, back, rfl, fit, by rw [out]; rfl⟩

theorem Tiled.take {n : Nat} (tiled : Tiled h (front ++ blk :: back)) (fits : n ≤ blk.size) (aligned : 16 ∣ n) :
    Tiled { h with
      mem := setMagic (splitBlock h.mem (kheapVirtBase + extent front) n) (kheapVirtBase + extent front)
        blockMagicUsed } (front ++ splitBlk ⟨blk.size, true⟩ n ++ back) where
  head := tiled.head
  total := tiled.total
  seg := take_seg tiled.seg base_positive (heap_room tiled.covers) fits aligned
  covers := by
    have covers := tiled.covers
    simp only [extent_append, extent, extent_splitBlk] at covers ⊢
    omega

theorem kmalloc_spec (tiled : Tiled h blocks) (positive : 0 < size) :
    (kmalloc h size = .ok (0, h) ∧ ∀ blk ∈ blocks, ¬ Fits (alignUp size) blk) ∨
    ∃ front blk back m, blocks = front ++ blk :: back ∧ Fits (alignUp size) blk ∧
      kmalloc h size = .ok (kheapVirtBase + extent front + headerSize, { h with mem := m }) ∧
      Tiled { h with mem := m } (front ++ splitBlk ⟨blk.size, true⟩ (alignUp size) ++ back) := by
  rcases kmalloc_takes tiled positive with none | ⟨front, blk, back, rfl, fit, out⟩
  · exact Or.inl none
  · exact Or.inr ⟨front, blk, back, _, rfl, fit, out, tiled.take fit.2 (alignUp_aligned size)⟩

theorem Tiled.write_payload {m : Mem} (tiled : Tiled h (front ++ blk :: back))
    (same : ∀ x, x < kheapVirtBase + extent front + headerSize ∨
      kheapVirtBase + extent front + headerSize + blk.size ≤ x → m x = h.mem x) :
    Tiled { h with mem := m } (front ++ blk :: back) where
  head := tiled.head
  total := tiled.total
  covers := tiled.covers
  seg := by
    obtain ⟨before, header, aligned, after⟩ := seg_middle.mp tiled.seg
    refine seg_middle.mpr ⟨before.congr fun x low high => same x (by omega), ?_, aligned,
      after.congr fun x low high => same x (by omega)⟩
    rw [← header]
    exact headerAt_congr fun x low high => same x (by omega)

/-- The list after the used block between `front` and `back` is freed. -/
def freeBlk (front : List Blk) (size : Nat) (back : List Blk) : List Blk :=
  match absorbNext ⟨size, false⟩ back with
  | [] => front
  | blk :: rest => absorbPrev front blk rest

theorem absorbNext_cons (blk : Blk) (ys : List Blk) :
    ∃ c rest, absorbNext blk ys = c :: rest ∧ c.used = blk.used ∧
      headerSize + c.size + extent rest = headerSize + blk.size + extent ys ∧
      ∀ a, spans (a + headerSize + c.size) rest = spans (a + headerSize + blk.size) ys := by
  cases ys with
  | nil => exact ⟨blk, [], rfl, rfl, rfl, fun _ => rfl⟩
  | cons c ys =>
    unfold absorbNext
    cases used : c.used with
    | true => exact ⟨blk, c :: ys, by simp [used], rfl, rfl, fun _ => rfl⟩
    | false =>
      refine ⟨⟨blk.size + headerSize + c.size, blk.used⟩, ys, by simp [used], rfl, ?_, fun a => ?_⟩
      · simp only [extent]
        omega
      · simp [spans, used, Nat.add_assoc]

theorem extent_absorbPrev (xs : List Blk) (blk : Blk) (ys : List Blk) :
    extent (absorbPrev xs blk ys) = extent (xs ++ blk :: ys) := by
  rcases List.eq_nil_or_concat xs with rfl | ⟨xs, c, rfl⟩
  · rfl
  · simp only [List.concat_eq_append, absorbPrev, List.getLast?_append, List.getLast?_singleton,
      List.dropLast_concat, Option.some_or]
    split
    · rfl
    · simp only [extent_append, extent]
      omega

theorem spans_absorbPrev {a : Nat} (xs : List Blk) (blk : Blk) (ys : List Blk) (free : blk.used = false) :
    spans a (absorbPrev xs blk ys) = spans a (xs ++ blk :: ys) := by
  rcases List.eq_nil_or_concat xs with rfl | ⟨xs, c, rfl⟩
  · rfl
  · simp only [List.concat_eq_append, absorbPrev, List.getLast?_append, List.getLast?_singleton,
      List.dropLast_concat, Option.some_or]
    split
    · rfl
    · rename_i unused
      simp [spans_append, spans, unused, free, Nat.add_assoc]

theorem extent_freeBlk (front : List Blk) (size : Nat) (back : List Blk) :
    extent (freeBlk front size back) = extent (front ++ ⟨size, true⟩ :: back) := by
  obtain ⟨c, rest, shape, _, same, _⟩ := absorbNext_cons ⟨size, false⟩ back
  simp only [freeBlk, shape, extent_absorbPrev, extent_append, extent]
  simp only at same
  omega

theorem spans_freeBlk (a : Nat) (front : List Blk) (size : Nat) (back : List Blk) :
    spans a (freeBlk front size back) = spans a front ++ spans (a + extent front + headerSize + size) back := by
  obtain ⟨c, rest, shape, free, _, same⟩ := absorbNext_cons ⟨size, false⟩ back
  simp only [freeBlk, shape]
  rw [spans_absorbPrev front c rest free, spans_append]
  simp only [spans, free, Bool.false_eq_true, if_false, same]

theorem payloads_freeBlk (a : Nat) (front : List Blk) (size : Nat) (back : List Blk) :
    payloads a (freeBlk front size back) =
      payloads a front ++ payloads (a + extent front + headerSize + size) back := by
  rw [payloads_eq_spans, spans_freeBlk, List.map_append, ← payloads_eq_spans, ← payloads_eq_spans]

/-- The memory after the block behind `front` is freed. -/
def freedMem (m : Mem) (front : List Blk) : Mem :=
  coalesceBackward (coalesceForward (setMagic m (kheapVirtBase + extent front) blockMagicFree)
    (kheapVirtBase + extent front)) (kheapVirtBase + extent front)

theorem kfree_frees (tiled : Tiled h (front ++ ⟨size, true⟩ :: back)) :
    kfree h (kheapVirtBase + extent front + headerSize) = .ok { h with mem := freedMem h.mem front } := by
  obtain ⟨_, header, _, _⟩ := seg_middle.mp tiled.seg
  have place : kheapVirtBase + extent front + headerSize - headerSize = kheapVirtBase + extent front := by omega
  have notFree : ¬ magicOf true = blockMagicFree := by decide
  unfold kfree
  simp only [place]
  rw [if_neg (by have := base_positive; omega), checkBlock_ok true (by rw [header])]
  simp only [header, notFree, if_false]
  rfl

theorem Tiled.freed (tiled : Tiled h (front ++ ⟨size, true⟩ :: back)) :
    Tiled { h with mem := freedMem h.mem front } (freeBlk front size back) := by
  have room := heap_room tiled.covers
  have marked := setMagic_seg tiled.seg false
  have forward := coalesceForward_seg marked base_positive (by simpa [extent] using room)
  obtain ⟨c, rest, shape, _, same, _⟩ := absorbNext_cons ⟨size, false⟩ back
  rw [shape] at forward
  have backward := coalesceBackward_seg forward base_positive (by
    simp only [extent_append, extent] at room same ⊢
    omega)
  refine ⟨tiled.head, tiled.total, ?_, ?_⟩
  · simp only [freeBlk, shape]
    exact backward
  · rw [extent_freeBlk]
    exact tiled.covers

theorem payloads_bounds {a : Nat} (member : p ∈ payloads a blocks) :
    a + headerSize ≤ p ∧ p ≤ a + extent blocks := by
  obtain ⟨front, back, size, rfl, rfl⟩ := mem_payloads.mp member
  simp only [extent_append, extent]
  omega

def keptSize (blk : Blk) (n : Nat) : Nat := if blk.size - n ≥ headerSize + kheapAlign then n else blk.size

theorem keptSize_bounds (blk : Blk) {n : Nat} (fits : n ≤ blk.size) : n ≤ keptSize blk n ∧ keptSize blk n ≤ blk.size := by
  unfold keptSize
  split <;> omega

theorem splitBlk_cons (blk : Blk) (n : Nat) : ∃ rest, splitBlk blk n = ⟨keptSize blk n, blk.used⟩ :: rest := by
  unfold splitBlk keptSize
  split
  · exact ⟨_, rfl⟩
  · exact ⟨[], rfl⟩

theorem spans_splitBlk (a : Nat) (blk : Blk) (n : Nat) :
    spans a (splitBlk blk n) = if blk.used then [(a + headerSize, keptSize blk n)] else [] := by
  unfold splitBlk keptSize
  split <;> cases used : blk.used <;> simp [spans, used]

theorem payloads_splitBlk (a : Nat) (blk : Blk) (n : Nat) :
    payloads a (splitBlk blk n) = if blk.used then [a + headerSize] else [] := by
  rw [payloads_eq_spans, spans_splitBlk]
  split <;> rfl

theorem spans_take (a : Nat) (front : List Blk) (blk : Blk) (back : List Blk) (n : Nat) (free : blk.used = false) :
    spans a (front ++ splitBlk ⟨blk.size, true⟩ n ++ back) =
      spans a front ++ (a + extent front + headerSize, keptSize ⟨blk.size, true⟩ n) ::
        spans (a + extent front + headerSize + blk.size) back ∧
    spans a (front ++ blk :: back) = spans a front ++ spans (a + extent front + headerSize + blk.size) back := by
  constructor
  · rw [spans_append, spans_append, spans_splitBlk, extent_append, extent_splitBlk]
    simp [Nat.add_assoc]
  · rw [spans_append]
    simp [spans, free]

theorem mem_payloads_take {a n : Nat} (free : blk.used = false) :
    p ∈ payloads a (front ++ splitBlk ⟨blk.size, true⟩ n ++ back) ↔
      p = a + extent front + headerSize ∨ p ∈ payloads a (front ++ blk :: back) := by
  rw [payloads_append, payloads_append, payloads_append, payloads_splitBlk, extent_append, extent_splitBlk]
  simp only [if_true, payloads, free, Bool.false_eq_true, if_false, List.mem_append, List.mem_singleton,
    ← Nat.add_assoc]
  tauto

theorem mem_payloads_free {a : Nat} : p ∈ payloads a (freeBlk front size back) ↔
    p ≠ a + extent front + headerSize ∧ p ∈ payloads a (front ++ ⟨size, true⟩ :: back) := by
  rw [payloads_freeBlk, payloads_append]
  simp only [payloads, if_true, List.mem_append, List.mem_cons]
  constructor
  · rintro (member | member)
    · have := payloads_bounds member
      exact ⟨by simp only [headerSize] at *; omega, Or.inl member⟩
    · have := payloads_bounds member
      exact ⟨by simp only [headerSize] at *; omega, Or.inr (Or.inr member)⟩
  · rintro ⟨other, member | member | member⟩
    · exact Or.inl member
    · exact absurd member other
    · exact Or.inr member

def payloadSize (h : Heap) (p : Nat) : Nat := (headerAt h.mem (p - headerSize)).size

theorem Tiled.payloadSize_eq (tiled : Tiled h (front ++ blk :: back)) :
    payloadSize h (kheapVirtBase + extent front + headerSize) = blk.size := by
  obtain ⟨_, header, _, _⟩ := seg_middle.mp tiled.seg
  have place : kheapVirtBase + extent front + headerSize - headerSize = kheapVirtBase + extent front := by omega
  rw [payloadSize, place, header]

theorem Tiled.payloads_aligned (tiled : Tiled h blocks) (member : p ∈ payloads kheapVirtBase blocks) : 16 ∣ p := by
  obtain ⟨front, back, size, rfl, rfl⟩ := mem_payloads.mp member
  obtain ⟨before, _, _, _⟩ := seg_middle.mp tiled.seg
  have aligned := extent_aligned before
  have base : 16 ∣ kheapVirtBase := by decide
  simp only [headerSize]
  omega

theorem Tiled.payloads_disjoint (tiled : Tiled h blocks) {q : Nat} (left : p ∈ payloads kheapVirtBase blocks)
    (right : q ∈ payloads kheapVirtBase blocks) (distinct : p ≠ q) :
    p + payloadSize h p ≤ q ∨ q + payloadSize h q ≤ p := by
  obtain ⟨front, back, size, rfl, rfl⟩ := mem_payloads.mp left
  rw [tiled.payloadSize_eq]
  rw [payloads_append, List.mem_append] at right
  rcases right with before | after
  · obtain ⟨first, mid, size', rfl, rfl⟩ := mem_payloads.mp before
    have listed : first ++ ⟨size', true⟩ :: mid ++ ⟨size, true⟩ :: back =
        first ++ ⟨size', true⟩ :: (mid ++ ⟨size, true⟩ :: back) := by simp
    rw [listed] at tiled
    rw [tiled.payloadSize_eq]
    simp only [extent_append, extent]
    omega
  · simp only [payloads, if_true, List.mem_cons] at after
    rcases after with same | after
    · exact absurd same.symm distinct
    · have := payloads_bounds after
      dsimp only
      omega

theorem fresh_not_mem {a : Nat} (free : blk.used = false) :
    a + extent front + headerSize ∉ payloads a (front ++ blk :: back) := by
  rw [payloads_append, List.mem_append]
  simp only [payloads, free, Bool.false_eq_true, if_false]
  rintro (before | after)
  · have := payloads_bounds before
    simp only [headerSize] at this
    omega
  · have := payloads_bounds after
    simp only [headerSize] at this
    omega

theorem Tiled.payloadSize_span (tiled : Tiled h blocks) (member : (p, size) ∈ spans kheapVirtBase blocks) :
    payloadSize h p = size := by
  obtain ⟨front, back, rfl, rfl⟩ := mem_spans.mp member
  exact tiled.payloadSize_eq

theorem Tiled.payloadSize_kept {h' : Heap} {blocks' : List Blk} (tiled : Tiled h blocks) (tiled' : Tiled h' blocks')
    (member : p ∈ payloads kheapVirtBase blocks)
    (kept : ∀ size, (p, size) ∈ spans kheapVirtBase blocks → (p, size) ∈ spans kheapVirtBase blocks') :
    payloadSize h' p = payloadSize h p := by
  rw [payloads_eq_spans] at member
  obtain ⟨⟨_, size⟩, span, rfl⟩ := List.mem_map.mp member
  rw [tiled.payloadSize_span span, tiled'.payloadSize_span (kept size span)]

theorem Tiled.payloadSize_take {h' : Heap} {n : Nat} (tiled : Tiled h (front ++ blk :: back))
    (tiled' : Tiled h' (front ++ splitBlk ⟨blk.size, true⟩ n ++ back)) (free : blk.used = false)
    (member : p ∈ payloads kheapVirtBase (front ++ blk :: back)) : payloadSize h' p = payloadSize h p := by
  obtain ⟨taken, before⟩ := spans_take kheapVirtBase front blk back n free
  refine tiled.payloadSize_kept tiled' member fun size span => ?_
  rw [before, List.mem_append] at span
  rw [taken, List.mem_append, List.mem_cons]
  exact span.imp_right Or.inr

theorem Tiled.payloadSize_free {h' : Heap} (tiled : Tiled h (front ++ ⟨size, true⟩ :: back))
    (tiled' : Tiled h' (freeBlk front size back)) (member : p ∈ payloads kheapVirtBase (front ++ ⟨size, true⟩ :: back))
    (other : p ≠ kheapVirtBase + extent front + headerSize) : payloadSize h' p = payloadSize h p := by
  refine tiled.payloadSize_kept tiled' member fun n span => ?_
  rw [spans_append, List.mem_append, spans, if_pos rfl, List.mem_cons, Prod.mk.injEq] at span
  rw [spans_freeBlk, List.mem_append]
  exact span.imp_right fun after => after.resolve_left fun here => other here.1

theorem statsLoop_seg {m : Mem} {prev a fuel : Nat} {xs : List Blk} (seg : Seg m prev a xs 0) (positive : 0 < a)
    (enough : xs.length < fuel) (start : KheapStats) :
    ∃ out, statsLoop m (firstAddr a 0 xs) start fuel = .ok out ∧
      out.totalBytes = start.totalBytes ∧
      out.usedBytes + out.freeBytes + headerSize * out.blockCount =
        start.usedBytes + start.freeBytes + headerSize * start.blockCount + extent xs ∧
      out.freeBlockCount = start.freeBlockCount + (xs.filter fun blk => !blk.used).length := by
  induction xs generalizing prev a fuel start with
  | nil =>
    obtain ⟨fuel, rfl⟩ : ∃ k, fuel = k + 1 := ⟨fuel - 1, by simp at enough; omega⟩
    exact ⟨start, by simp [statsLoop], rfl, rfl, rfl⟩
  | cons x xs ih =>
    obtain ⟨fuel, rfl⟩ : ∃ k, fuel = k + 1 := ⟨fuel - 1, by omega⟩
    obtain ⟨header, _, rest⟩ := seg
    have more := ih rest (by omega) (by simpa using enough)
    rw [firstAddr_cons, statsLoop, if_neg (by omega)]
    simp only [header, magicOf_eq_free]
    cases used : x.used with
    | true =>
      obtain ⟨out, done, total, sum, free⟩ := more
        { start with blockCount := start.blockCount + 1, usedBytes := start.usedBytes + x.size }
      refine ⟨out, by simpa using done, total, ?_, by simpa [used] using free⟩
      simp only [extent, headerSize] at *
      omega
    | false =>
      obtain ⟨out, done, total, sum, free⟩ := more
        { start with
          blockCount := start.blockCount + 1
          freeBlockCount := start.freeBlockCount + 1
          freeBytes := start.freeBytes + x.size
          largestFree := if x.size > start.largestFree then x.size else start.largestFree }
      refine ⟨out, by simpa using done, total, ?_, ?_⟩
      · simp only [extent, headerSize] at *
        omega
      · simp only [List.filter_cons, used, Bool.not_false, if_true, List.length_cons] at *
        omega

theorem kheapGetStats_spec (tiled : Tiled h blocks) :
    ∃ out, kheapGetStats h = .ok out ∧ out.totalBytes = kheapInitialSize ∧
      out.usedBytes + out.freeBytes + headerSize * out.blockCount = out.totalBytes ∧
      out.freeBlockCount = (blocks.filter fun blk => !blk.used).length := by
  obtain ⟨out, done, total, sum, free⟩ := statsLoop_seg tiled.seg base_positive tiled.length_lt
    ⟨h.totalBytes, 0, 0, 0, 0, 0⟩
  rw [← tiled.first] at done
  have covers := tiled.covers
  have whole := tiled.total
  refine ⟨out, done, by rw [total]; exact whole, ?_, by simpa using free⟩
  simp only at total sum
  omega

end

/-! A list of blocks is merged when no two neighbours are both free. Taking and freeing a
block keep this. Cutting a used block down, as `krealloc` does, keeps it only when the
block behind is not free, since the rest is not merged with that one.
-/

def Parted (b c : Blk) : Prop := b.used = true ∨ c.used = true

def Merged (blocks : List Blk) : Prop := blocks.IsChain Parted

def StartsUsed (blocks : List Blk) : Prop := ∀ c ∈ blocks.head?, c.used = true

def EndsUsed (blocks : List Blk) : Prop := ∀ c ∈ blocks.getLast?, c.used = true

section
variable {front back : List Blk} {blk : Blk} {size n : Nat}

theorem merged_used (used : blk.used = true) : Merged (front ++ blk :: back) ↔ Merged front ∧ Merged back := by
  unfold Merged
  rw [List.isChain_append, List.isChain_cons]
  constructor
  · rintro ⟨left, ⟨_, right⟩, _⟩
    exact ⟨left, right⟩
  · rintro ⟨left, right⟩
    refine ⟨left, ⟨fun c _ => Or.inl used, right⟩, ?_⟩
    intro b _ c first
    cases first
    exact Or.inr used

theorem merged_free (free : blk.used = false) :
    Merged (front ++ blk :: back) ↔ Merged front ∧ EndsUsed front ∧ StartsUsed back ∧ Merged back := by
  unfold Merged
  rw [List.isChain_append, List.isChain_cons]
  have parted : ∀ c : Blk, (Parted blk c ↔ c.used = true) ∧ (Parted c blk ↔ c.used = true) := by
    intro c
    simp [Parted, free]
  constructor
  · rintro ⟨left, ⟨next, right⟩, before⟩
    exact ⟨left, fun c last => (parted c).2.mp (before c last blk rfl), fun c first => (parted c).1.mp (next c first), right⟩
  · rintro ⟨left, before, next, right⟩
    refine ⟨left, ⟨fun c first => (parted c).1.mpr (next c first), right⟩, ?_⟩
    intro c last b first
    cases first
    exact (parted c).2.mpr (before c last)

theorem merged_cut (front back : List Blk) (size n : Nat) (merged : Merged front ∧ Merged back)
    (next : size - n ≥ headerSize + kheapAlign → StartsUsed back) :
    Merged (front ++ splitBlk ⟨size, true⟩ n ++ back) := by
  unfold splitBlk
  split
  · rename_i large
    rw [List.append_assoc]
    apply (merged_used rfl).mpr
    refine ⟨merged.1, ?_⟩
    have rest : Merged ([] ++ ⟨size - n - headerSize, false⟩ :: back) :=
      (merged_free rfl).mpr ⟨List.isChain_nil, nofun, next large, merged.2⟩
    exact rest
  · rw [List.append_assoc]
    exact (merged_used rfl).mpr merged

theorem merged_take (free : blk.used = false) (merged : Merged (front ++ blk :: back)) :
    Merged (front ++ splitBlk ⟨blk.size, true⟩ n ++ back) := by
  obtain ⟨left, _, next, right⟩ := (merged_free free).mp merged
  exact merged_cut front back blk.size n ⟨left, right⟩ fun _ => next

theorem absorbNext_merged (free : blk.used = false) (merged : Merged back) :
    ∃ c rest, absorbNext blk back = c :: rest ∧ c.used = false ∧ StartsUsed rest ∧ Merged rest := by
  cases back with
  | nil => exact ⟨blk, [], rfl, free, nofun, List.isChain_nil⟩
  | cons c rest =>
    cases used : c.used with
    | true =>
      refine ⟨blk, c :: rest, by simp [absorbNext, used], free, ?_, merged⟩
      intro d first
      cases first
      exact used
    | false =>
      have split : Merged ([] ++ c :: rest) := merged
      obtain ⟨_, _, next, right⟩ := (merged_free used).mp split
      exact ⟨⟨blk.size + headerSize + c.size, blk.used⟩, rest, by simp [absorbNext, used], free, next, right⟩

theorem absorbPrev_merged (free : blk.used = false) (before : Merged front) (next : StartsUsed back) (after : Merged back) :
    Merged (absorbPrev front blk back) := by
  rcases List.eq_nil_or_concat front with rfl | ⟨front, c, rfl⟩
  · have whole : Merged ([] ++ blk :: back) := (merged_free free).mpr ⟨List.isChain_nil, nofun, next, after⟩
    exact whole
  · rw [List.concat_eq_append] at *
    simp only [absorbPrev, List.getLast?_append, List.getLast?_singleton, List.dropLast_concat, Option.some_or]
    cases used : c.used with
    | true =>
      rw [if_pos rfl]
      apply (merged_free free).mpr
      refine ⟨before, ?_, next, after⟩
      intro d last
      rw [List.getLast?_append, List.getLast?_singleton, Option.some_or] at last
      cases last
      exact used
    | false =>
      rw [if_neg Bool.false_ne_true]
      obtain ⟨left, last, _, _⟩ := (merged_free used).mp before
      exact (merged_free rfl).mpr ⟨left, last, next, after⟩

theorem merged_freeBlk (merged : Merged (front ++ ⟨size, true⟩ :: back)) : Merged (freeBlk front size back) := by
  obtain ⟨before, after⟩ := (merged_used rfl).mp merged
  have free' : (⟨size, false⟩ : Blk).used = false := rfl
  obtain ⟨c, rest, shape, free, next, after'⟩ := absorbNext_merged free' after
  rw [freeBlk, shape]
  exact absorbPrev_merged free before next after'

theorem Merged.single {h : Heap} {blocks : List Blk} (merged : Merged blocks) (tiled : Tiled h blocks)
    (none : ∀ p, p ∉ payloads kheapVirtBase blocks) : blocks = [⟨kheapInitialSize - headerSize, false⟩] := by
  have free : ∀ b ∈ blocks, b.used = false := by
    intro b member
    by_contra used
    obtain ⟨front, back, rfl⟩ := List.append_of_mem member
    apply none (kheapVirtBase + extent front + headerSize)
    apply mem_payloads.mpr
    refine ⟨front, back, b.size, ?_, rfl⟩
    rw [← eq_true_of_ne_false used]
  cases blocks with
  | nil => exact absurd rfl tiled.nonempty
  | cons b rest =>
    cases rest with
    | nil =>
      have covers := tiled.covers
      simp only [extent] at covers
      have used := free b List.mem_cons_self
      obtain ⟨size, used'⟩ := b
      dsimp only at used covers
      rw [used, show size = kheapInitialSize - headerSize by omega]
    | cons c rest =>
      rw [Merged, List.isChain_cons_cons, Parted, free b (by simp), free c (by simp)] at merged
      cases merged.1 <;> contradiction

end

theorem magicOf_inj {used used' : Bool} (same : magicOf used = magicOf used') : used = used' := by
  cases used <;> cases used' <;> first | rfl | exact absurd same (by decide)

theorem Seg.unique {m : Mem} {prev a : Nat} {xs ys : List Blk} (left : Seg m prev a xs 0) (right : Seg m prev a ys 0)
    (positive : 0 < a) (some' : xs = [] ↔ ys = []) : xs = ys := by
  induction xs generalizing prev a ys with
  | nil => exact (some'.mp rfl).symm
  | cons x xs ih =>
    cases ys with
    | nil => cases some'.mpr rfl
    | cons y ys =>
      obtain ⟨header, _, rest⟩ := left
      obtain ⟨header', _, rest'⟩ := right
      rw [header] at header'
      obtain ⟨sameSize, sameMagic, sameNext, _⟩ := Header.mk.inj header'
      obtain rfl : x = y := by
        cases x
        cases y
        exact Blk.mk.injEq .. ▸ ⟨sameSize, magicOf_inj sameMagic⟩
      congr 1
      apply ih rest rest' (by omega)
      -- the next block is there exactly when the link is not 0
      cases xs <;> cases ys <;> simp only [firstAddr_nil, firstAddr_cons] at sameNext <;> first | omega | simp

theorem Tiled.unique {h : Heap} {xs ys : List Blk} (left : Tiled h xs) (right : Tiled h ys) : xs = ys := by
  apply left.seg.unique right.seg base_positive
  exact ⟨fun nil => absurd nil left.nonempty, fun nil => absurd nil right.nonempty⟩

end RexOs.Mm
