import RexOs.Mm.HeapHistory

/-! What the operations of the heap leave in the payloads.

All an operation writes is headers: those of the blocks before it, and that of the rest of a block
it cuts. Reallocation also copies, into a payload that was free.
-/

set_option autoImplicit false

namespace RexOs.Mm

open RexOs.Library

section
variable {h : Heap} {blocks : List Blk} {p size : Nat}

/-- The bytes that an allocation clears lie in the heap's range. Behind it there are no pages, and
the clearing ends in a page fault. -/
def HeapOp.Mapped (p : Nat) (op : HeapOp) : Prop := p = 0 ∨ p + op.zeroed ≤ kheapVirtBase + kheapInitialSize

def MappedStep (s : Holding) (op : HeapOp) (next : Holding) : Prop :=
  op.Allowed s ∧ ∃ p h, op.apply s.heap = .ok (p, h) ∧ op.Mapped p ∧ next = ⟨h, op.liveAfter s.live p⟩

theorem kzalloc_null {live : Finset Nat} {h' : Heap} (held : Held ⟨h, live⟩ blocks)
    (out : kzalloc h size = .ok (0, h')) : h' = h := by
  obtain ⟨p, m, got, ⟨rfl, rfl⟩ | ⟨found, _⟩⟩ := kmalloc_held held size
  · rw [kzalloc, got] at out
    cases out
    rfl
  · rw [kzalloc, got] at out
    change (if p = 0 then _ else _) = _ at out
    rw [if_neg found] at out
    cases out
    exact absurd rfl found

theorem mapped_step {s next : Holding} {op : HeapOp} (held : ∃ blocks, Held s blocks)
    (step : MappedStep s op next) : ∃ blocks, Held next blocks := by
  obtain ⟨allowed, p, h, out, mapped, rfl⟩ := step
  by_cases bounded : op.Bounded s
  · exact held_step held ⟨bounded, allowed, p, h, out, rfl⟩
  obtain ⟨blocks, held⟩ := held
  have large : 2 ^ 64 - 16 < op.zeroed := Nat.lt_of_not_le fun small => bounded (Or.inl small)
  -- nothing that large is mapped, so nothing was cleared
  have null : p = 0 := mapped.resolve_right fun inside => by
    simp only [kheapVirtBase, kheapInitialSize] at inside
    omega
  subst null
  cases op with
  | zalloc size =>
    rw [kzalloc_null held out]
    exact ⟨blocks, by simpa [HeapOp.liveAfter, gain] using held⟩
  | calloc n size =>
    have same : h = s.heap := by
      rw [HeapOp.apply, kcalloc] at out
      split at out
      · cases out
        rfl
      · exact kzalloc_null held out
    rw [same]
    exact ⟨blocks, by simpa [HeapOp.liveAfter, gain] using held⟩
  | malloc size => simp [HeapOp.zeroed] at large
  | realloc ptr newSize => simp [HeapOp.zeroed] at large
  | free ptr => simp [HeapOp.zeroed] at large
  | write ptr offset byte => simp [HeapOp.zeroed] at large

theorem mapped_unless_zeroed {s next : Holding} {op : HeapOp} (held : Held s blocks) (none : op.zeroed = 0)
    (step : HeapStep s op next) : MappedStep s op next := by
  obtain ⟨allowed, p, h, out, rfl⟩ := step
  obtain ⟨p', h', blocks', out', held', _⟩ := apply_held held allowed (Or.inl (by omega) : op.Bounded s)
  rw [out] at out'
  cases out'
  refine ⟨allowed, p, h, out, ?_, rfl⟩
  by_cases null : p = 0
  · exact Or.inl null
  have listed : p ∈ op.liveAfter s.live p := by
    cases op with
    | malloc size => simp [HeapOp.liveAfter, gain, null]
    | zalloc size => simp [HeapOp.liveAfter, gain, null]
    | calloc n size => simp [HeapOp.liveAfter, gain, null]
    | realloc ptr newSize => simp [HeapOp.liveAfter, gain, null]
    | free ptr =>
      rw [HeapOp.apply] at out
      cases freed : kfree s.heap ptr with
      | error fault => rw [freed] at out; cases out
      | ok after => rw [freed] at out; cases out; exact absurd rfl null
    | write ptr offset byte => cases out; exact absurd rfl null
  have bounds := payloads_bounds ((held'.2 p).mp listed)
  rw [held'.1.covers] at bounds
  exact Or.inr (by omega)

theorem mapped_histories {memory : Mem} {ops : List HeapOp} {s : Holding}
    (run : Run MappedStep ⟨kheapInit memory, ∅⟩ ops s) : ∃ blocks, Held s blocks :=
  Run.invariant (fun s => ∃ blocks, Held s blocks) (kheapInit_held memory)
    (fun _ _ _ held step => mapped_step held step) run

def OnHeader (x a : Nat) : List Blk → Prop
  | [] => False
  | blk :: rest => (a ≤ x ∧ x < a + headerSize) ∨ OnHeader x (a + headerSize + blk.size) rest

section
variable {m : Mem} {prev a n x : Nat} {blk c : Blk} {front back xs ys : List Blk}

theorem onHeader_append : OnHeader x a (xs ++ ys) ↔ OnHeader x a xs ∨ OnHeader x (a + extent xs) ys := by
  induction xs generalizing a with
  | nil => simp [OnHeader, extent]
  | cons b xs ih => simp only [List.cons_append, OnHeader, ih, or_assoc, extent, Nat.add_assoc]

theorem onHeader_middle : OnHeader x a (front ++ blk :: back) ↔ OnHeader x a front ∨
    (a + extent front ≤ x ∧ x < a + extent front + headerSize) ∨
      OnHeader x (a + extent front + headerSize + blk.size) back := by
  rw [onHeader_append, OnHeader]

theorem onHeader_bounds (on : OnHeader x a blocks) : a ≤ x ∧ x < a + extent blocks := by
  induction blocks generalizing a with
  | nil => exact absurd on not_false
  | cons b rest ih =>
    simp only [extent]
    rcases on with here | later
    · omega
    · have := ih later
      omega

theorem span_off_header {i : Nat} (span : (p, size) ∈ spans a blocks) (inside : i < size) : ¬OnHeader (p + i) a blocks := by
  obtain ⟨front, back, rfl, rfl⟩ := mem_spans.mp span
  rw [onHeader_middle]
  rintro (before | here | after)
  · have := onHeader_bounds before
    omega
  · omega
  · have := onHeader_bounds after
    simp only at this
    omega

theorem onHeader_splitBlk (blk : Blk) (large : blk.size - n ≥ headerSize + kheapAlign) :
    OnHeader x a (front ++ splitBlk blk n ++ back) ↔ OnHeader x a front ∨
      (a + extent front ≤ x ∧ x < a + extent front + headerSize) ∨
      (a + extent front + headerSize + n ≤ x ∧ x < a + extent front + headerSize + n + headerSize) ∨
      OnHeader x (a + extent front + headerSize + blk.size) back := by
  have behind : a + extent front + headerSize + n + headerSize + (blk.size - n - headerSize) =
      a + extent front + headerSize + blk.size := by
    simp only [headerSize, kheapAlign] at *
    omega
  rw [splitBlk, if_pos large, List.append_assoc, onHeader_append]
  simp only [List.cons_append, List.nil_append, OnHeader, behind]

theorem onHeader_splitBlk_flag {used : Bool} :
    OnHeader x a (front ++ splitBlk ⟨blk.size, used⟩ n ++ back) ↔ OnHeader x a (front ++ splitBlk blk n ++ back) := by
  by_cases large : blk.size - n ≥ headerSize + kheapAlign
  · rw [onHeader_splitBlk blk large, onHeader_splitBlk ⟨blk.size, used⟩ large]
  · simp [splitBlk, large, onHeader_append, OnHeader]

theorem onHeader_absorbNext (on : OnHeader x a (absorbNext blk back)) : OnHeader x a (blk :: back) := by
  cases back with
  | nil => exact on
  | cons c back =>
    rw [absorbNext] at on
    split at on
    · exact on
    · have place : a + headerSize + (blk.size + headerSize + c.size) = a + headerSize + blk.size + headerSize + c.size := by
        omega
      rw [OnHeader, place] at on
      exact on.imp_right Or.inr

theorem set_outside {b v : Nat} (outside : x < b ∨ b + headerSize ≤ x) :
    setSize m b v x = m x ∧ setMagic m b v x = m x ∧ setNext m b v x = m x ∧ setPrev m b v x = m x := by
  simp only [headerSize] at outside
  refine ⟨?_, ?_, ?_, ?_⟩ <;> exact store_outside _ _ _ _ (by omega)

theorem off_link {next : Nat} (off : ¬OnHeader x a back) (linked : firstAddr a 0 back ≠ 0) (same : next = firstAddr a 0 back) :
    x < next ∨ next + headerSize ≤ x := by
  cases back with
  | nil => exact absurd rfl linked
  | cons c back =>
    rw [same, firstAddr_cons]
    by_contra inside
    exact off (Or.inl ⟨by omega, by omega⟩)

theorem splitBlock_off (seg : Seg m prev a (front ++ blk :: back) 0)
    (off : ¬OnHeader x a (front ++ splitBlk blk n ++ back)) : splitBlock m (a + extent front) n x = m x := by
  obtain ⟨_, header, _, _⟩ := seg_middle.mp seg
  unfold splitBlock
  simp only [header]
  by_cases large : blk.size - n ≥ headerSize + kheapAlign
  · rw [if_pos large]
    rw [onHeader_splitBlk _ large] at off
    simp only [not_or] at off
    obtain ⟨-, first, second, third⟩ := off
    have first : x < a + extent front ∨ a + extent front + headerSize ≤ x := by omega
    have second : x < a + extent front + headerSize + n ∨ a + extent front + headerSize + n + headerSize ≤ x := by omega
    rw [(set_outside first).1, (set_outside first).2.2.1]
    split
    · rename_i linked
      rw [(set_outside (off_link third linked rfl)).2.2.2, (set_outside second).2.2.2, (set_outside second).2.2.1,
        (set_outside second).2.1, (set_outside second).1]
    · rw [(set_outside second).2.2.2, (set_outside second).2.2.1, (set_outside second).2.1, (set_outside second).1]
  · rw [if_neg large]

theorem coalesceForward_off (seg : Seg m prev a (front ++ blk :: back) 0)
    (room : a + extent (front ++ blk :: back) < 2 ^ 64)
    (off : ¬OnHeader x a (front ++ blk :: back)) : coalesceForward m (a + extent front) x = m x := by
  obtain ⟨_, header, _, rest⟩ := seg_middle.mp seg
  rw [onHeader_middle] at off
  simp only [not_or] at off
  obtain ⟨-, first, behind⟩ := off
  have first : x < a + extent front ∨ a + extent front + headerSize ≤ x := by omega
  unfold coalesceForward
  simp only [header]
  split
  · rename_i merges
    cases back with
    | nil => exact absurd rfl merges.1
    | cons c back =>
      obtain ⟨second, _, _⟩ := rest
      have small : firstAddr (a + extent front + headerSize + blk.size + headerSize + c.size) 0 back < 2 ^ 64 := by
        simp only [extent_append, extent] at room
        cases back <;> simp only [firstAddr_cons, firstAddr_nil] <;> omega
      rw [firstAddr_cons, headerAt_setSize_apart (Or.inr (by omega)), second, headerAt_setNext small]
      split
      · rename_i linked
        have link := off_link (fun on => behind (Or.inr on)) linked rfl
        rw [(set_outside link).2.2.2, (set_outside first).2.2.1, (set_outside first).1]
      · rw [(set_outside first).2.2.1, (set_outside first).1]
  · rfl

theorem coalesceBackward_off (seg : Seg m 0 a (front ++ blk :: back) 0)
    (off : ¬OnHeader x a (front ++ blk :: back)) : coalesceBackward m (a + extent front) x = m x := by
  obtain ⟨_, header, _, _⟩ := seg_middle.mp seg
  rw [onHeader_middle] at off
  simp only [not_or] at off
  obtain ⟨before, -, behind⟩ := off
  unfold coalesceBackward
  simp only [header]
  split
  · rename_i merges
    rcases List.eq_nil_or_concat front with rfl | ⟨front, c, rfl⟩
    · exact absurd rfl merges.1
    · simp only [List.concat_eq_append] at *
      have place : a + extent (front ++ [c]) = a + extent front + headerSize + c.size := by
        simp only [extent_append, extent]
        omega
      rw [onHeader_append] at before
      have first : x < a + extent front ∨ a + extent front + headerSize ≤ x := by
        by_contra inside
        exact before (Or.inr (Or.inl ⟨by omega, by omega⟩))
      rw [lastAddr_concat, headerAt_setNext_apart (Or.inr (by omega)), headerAt_setSize_apart (Or.inr (by omega)), header]
      split
      · rename_i linked
        rw [(set_outside (off_link behind linked rfl)).2.2.2, (set_outside first).2.2.1, (set_outside first).1]
      · rw [(set_outside first).2.2.1, (set_outside first).1]
  · rfl

theorem onHeader_flag {used used' : Bool} :
    OnHeader x a (front ++ ⟨n, used⟩ :: back) ↔ OnHeader x a (front ++ ⟨n, used'⟩ :: back) := by
  rw [onHeader_middle, onHeader_middle]

theorem setMagic_off {v : Nat} (off : ¬OnHeader x a (front ++ blk :: back)) : setMagic m (a + extent front) v x = m x := by
  rw [onHeader_middle] at off
  simp only [not_or] at off
  obtain ⟨-, here, -⟩ := off
  exact (set_outside (by omega)).2.1

theorem take_off {v : Nat} (seg : Seg m prev a (front ++ blk :: back) 0)
    (off : ¬OnHeader x a (front ++ splitBlk blk n ++ back)) :
    setMagic (splitBlock m (a + extent front) n) (a + extent front) v x = m x := by
  obtain ⟨rest, shape⟩ := splitBlk_cons blk n
  rw [← splitBlock_off seg off]
  rw [shape, List.append_assoc, List.cons_append] at off
  exact setMagic_off off

end

/-- The payload at `q` is as large as it was, and holds what it held. -/
def SamePayload (h h' : Heap) (q : Nat) : Prop :=
  payloadSize h' q = payloadSize h q ∧ ∀ i, i < payloadSize h q → h'.mem (q + i) = h.mem (q + i)

theorem SamePayload.trans {h h' h'' : Heap} {q : Nat} (first : SamePayload h h' q) (second : SamePayload h' h'' q) :
    SamePayload h h'' q := by
  refine ⟨second.1.trans first.1, fun i inside => ?_⟩
  have inside' : i < payloadSize h' q := by
    rw [first.1]
    exact inside
  exact (second.2 i inside').trans (first.2 i inside)

section
variable {live : Finset Nat} {front back : List Blk} {blk : Blk}

theorem Tiled.span (tiled : Tiled h blocks) (member : p ∈ payloads kheapVirtBase blocks) :
    (p, payloadSize h p) ∈ spans kheapVirtBase blocks := by
  rw [payloads_eq_spans] at member
  obtain ⟨⟨_, size⟩, span, rfl⟩ := List.mem_map.mp member
  rwa [tiled.payloadSize_span span]

theorem freedMem_off {x : Nat} (tiled : Tiled h (front ++ ⟨size, true⟩ :: back))
    (off : ¬OnHeader x kheapVirtBase (front ++ ⟨size, true⟩ :: back)) : freedMem h.mem front x = h.mem x := by
  have room := heap_room tiled.covers
  have marked := setMagic_seg tiled.seg false
  have off' : ¬OnHeader x kheapVirtBase (front ++ ⟨size, false⟩ :: back) := fun on => off (onHeader_flag.mp on)
  have forward := coalesceForward_seg marked base_positive (by simpa [extent] using room)
  obtain ⟨c, rest, shape, _⟩ := absorbNext_cons ⟨size, false⟩ back
  have merged : ¬OnHeader x kheapVirtBase (front ++ c :: rest) := by
    intro on
    rw [← shape, onHeader_append] at on
    exact off' (onHeader_append.mpr (on.imp_right onHeader_absorbNext))
  rw [shape] at forward
  exact (coalesceBackward_off forward merged).trans
    ((coalesceForward_off marked (by simpa [extent] using room) off').trans (setMagic_off off))

theorem kmalloc_kept (held : Held ⟨h, live⟩ blocks) {h' : Heap} (out : kmalloc h size = .ok (p, h')) (found : p ≠ 0) :
    p ∉ live ∧ (∃ blocks', Held ⟨h', insert p live⟩ blocks') ∧ alignUp size ≤ payloadSize h' p ∧
      ∀ q ∈ live, SamePayload h h' q := by
  obtain ⟨tiled, pointers⟩ := held
  have positive : 0 < size := by
    rcases Nat.eq_zero_or_pos size with rfl | positive
    · rw [kmalloc, if_pos (Or.inl rfl)] at out
      cases out
      exact absurd rfl found
    · exact positive
  rcases kmalloc_takes tiled positive with ⟨none, _⟩ | ⟨front, blk, back, rfl, fit, taken⟩
  · rw [none] at out
    cases out
    exact absurd rfl found
  rw [taken] at out
  cases out
  have tiled' := tiled.take fit.2 (alignUp_aligned size)
  obtain ⟨after, before⟩ := spans_take kheapVirtBase front blk back (alignUp size) fit.1
  refine ⟨fun member => fresh_not_mem fit.1 ((pointers _).mp member), ⟨_, tiled', fun q => ?_⟩, ?_, fun q member => ?_⟩
  · rw [mem_payloads_take fit.1, Finset.mem_insert, ← pointers]
  · have got : payloadSize _ (kheapVirtBase + extent front + headerSize) = keptSize ⟨blk.size, true⟩ (alignUp size) :=
      tiled'.payloadSize_span (by rw [after]; simp)
    rw [got]
    exact (keptSize_bounds ⟨blk.size, true⟩ fit.2).1
  · have listed := (mem_payloads_take (n := alignUp size) fit.1).mpr (Or.inr ((pointers q).mp member))
    have same := tiled.payloadSize_take tiled' fit.1 ((pointers q).mp member)
    refine ⟨same, fun i inside => ?_⟩
    rw [← same] at inside
    have off : ¬OnHeader (q + i) kheapVirtBase (front ++ splitBlk ⟨blk.size, true⟩ (alignUp size) ++ back) :=
      span_off_header (tiled'.span listed) inside
    exact take_off tiled.seg (mt onHeader_splitBlk_flag.mpr off)

theorem kfree_kept (held : Held ⟨h, live⟩ blocks) (member : p ∈ live) :
    ∃ h' blocks', kfree h p = .ok h' ∧ Held ⟨h', live.erase p⟩ blocks' ∧ ∀ q ∈ live, q ≠ p → SamePayload h h' q := by
  obtain ⟨tiled, pointers⟩ := held
  obtain ⟨front, back, size, rfl, rfl⟩ := mem_payloads.mp ((pointers p).mp member)
  refine ⟨_, _, kfree_frees tiled, ⟨tiled.freed, fun q => ?_⟩, fun q other apart => ?_⟩
  · rw [Finset.mem_erase, mem_payloads_free, ← pointers]
  · have listed := (pointers q).mp other
    have same := tiled.payloadSize_free tiled.freed listed apart
    refine ⟨same, fun i inside => ?_⟩
    have off : ¬OnHeader (q + i) kheapVirtBase (front ++ ⟨size, true⟩ :: back) :=
      span_off_header (tiled.span listed) inside
    dsimp only
    rw [freedMem_off tiled off]

theorem shrink_kept {n : Nat} (held : Held ⟨h, live⟩ blocks) (member : p ∈ live) (aligned : 16 ∣ n)
    (fits : n ≤ payloadSize h p) :
    payloadSize { h with mem := splitBlock h.mem (p - headerSize) n } p = keptSize ⟨payloadSize h p, true⟩ n ∧
      (∀ i, i < n → splitBlock h.mem (p - headerSize) n (p + i) = h.mem (p + i)) ∧
      ∀ q ∈ live, q ≠ p → SamePayload h { h with mem := splitBlock h.mem (p - headerSize) n } q := by
  obtain ⟨tiled, pointers⟩ := held
  obtain ⟨front, back, size, rfl, rfl⟩ := mem_payloads.mp ((pointers p).mp member)
  have place : kheapVirtBase + extent front + headerSize - headerSize = kheapVirtBase + extent front := by omega
  rw [place, tiled.payloadSize_eq] at *
  have tiled' := splitBlock_tiled tiled fits aligned
  have after : spans kheapVirtBase (front ++ splitBlk ⟨size, true⟩ n ++ back) =
      spans kheapVirtBase front ++ (kheapVirtBase + extent front + headerSize, keptSize ⟨size, true⟩ n) ::
        spans (kheapVirtBase + extent front + headerSize + size) back := (spans_take _ front ⟨size, false⟩ back n rfl).1
  have here : (kheapVirtBase + extent front + headerSize, keptSize ⟨size, true⟩ n) ∈
      spans kheapVirtBase (front ++ splitBlk ⟨size, true⟩ n ++ back) := by
    rw [after]
    simp
  refine ⟨tiled'.payloadSize_span here, fun i inside => ?_, fun q other apart => ?_⟩
  · have off := span_off_header here (Nat.lt_of_lt_of_le inside (keptSize_bounds ⟨size, true⟩ fits).1)
    exact splitBlock_off tiled.seg off
  · have listed := (pointers q).mp other
    have span := tiled.span listed
    have same : (q, payloadSize h q) ∈ spans kheapVirtBase (front ++ splitBlk ⟨size, true⟩ n ++ back) := by
      rw [spans_append, List.mem_append, spans, if_pos rfl, List.mem_cons, Prod.mk.injEq] at span
      rw [after, List.mem_append, List.mem_cons]
      exact span.imp_right fun behind => Or.inr (behind.resolve_left fun at_ => apart at_.1)
    refine ⟨tiled'.payloadSize_span same, fun i inside => ?_⟩
    have off := span_off_header same inside
    exact splitBlock_off tiled.seg off

theorem write_kept {m : Mem} (held : Held ⟨h, live⟩ blocks) (member : p ∈ live)
    (same : ∀ x, x < p ∨ p + payloadSize h p ≤ x → m x = h.mem x) :
    (∃ blocks', Held ⟨{ h with mem := m }, live⟩ blocks') ∧ payloadSize { h with mem := m } p = payloadSize h p ∧
      ∀ q ∈ live, q ≠ p → SamePayload h { h with mem := m } q := by
  obtain ⟨tiled, pointers⟩ := held
  have left := (pointers p).mp member
  have tiled' : Tiled { h with mem := m } blocks := by
    obtain ⟨front, back, size, rfl, rfl⟩ := mem_payloads.mp left
    rw [tiled.payloadSize_eq] at same
    exact tiled.write_payload same
  refine ⟨⟨blocks, tiled', pointers⟩, tiled.payloadSize_kept tiled' left fun _ span => span, fun q other apart => ?_⟩
  have right := (pointers q).mp other
  have parted : p + payloadSize h p ≤ q ∨ q + payloadSize h q ≤ p := tiled.payloads_disjoint left right (Ne.symm apart)
  exact ⟨tiled.payloadSize_kept tiled' right fun _ span => span, fun i inside => same _ (by omega)⟩

/-- What a reallocation that does not fail leaves: the new payload `q` begins with what the old one
began with, and the other payloads are as before. -/
structure Moved (h : Heap) (live : Finset Nat) (ptr n : Nat) (q : Nat) (h' : Heap) : Prop where
  found : q ≠ 0
  fresh : q = ptr ∨ q ∉ live
  held : ∃ blocks, Held ⟨h', insert q (live.erase ptr)⟩ blocks
  large : n ≤ payloadSize h' q
  copied : ∀ i, i < min (payloadSize h ptr) n → h'.mem (q + i) = h.mem (ptr + i)
  others : ∀ r ∈ live, r ≠ ptr → SamePayload h h' r

theorem copied_freed (held : Held ⟨h, live⟩ blocks) {ptr newSize np : Nat} {h₁ : Heap} (member : ptr ∈ live)
    (grows : payloadSize h ptr < alignUp newSize) (out : kmalloc h newSize = .ok (np, h₁)) (found : np ≠ 0) :
    (headerAt h₁.mem (ptr - headerSize)).size = payloadSize h ptr ∧
      ∃ h', kfree { h₁ with mem := copy h₁.mem np ptr (payloadSize h ptr) } ptr = .ok h' ∧ Moved h live ptr (alignUp newSize) np h' := by
  obtain ⟨fresh, ⟨blocks₁, held₁⟩, large, kept₁⟩ := kmalloc_kept held out found
  have old := kept₁ ptr member
  have distinct : np ≠ ptr := fun same => fresh (same ▸ member)
  obtain ⟨⟨blocks₂, held₂⟩, size₂, kept₂⟩ := write_kept (m := copy h₁.mem np ptr (payloadSize h ptr)) held₁
    (Finset.mem_insert_self np live) fun x outside => if_neg (by omega)
  obtain ⟨h₃, blocks₃, freed, held₃, kept₃⟩ := kfree_kept held₂ (Finset.mem_insert_of_mem member)
  have new := kept₃ np (Finset.mem_insert_self np live) distinct
  rw [Finset.erase_insert_of_ne distinct] at held₃
  refine ⟨old.1, h₃, freed, found, Or.inr fresh, ⟨blocks₃, held₃⟩, ?_, fun i inside => ?_, fun r other apart => ?_⟩
  · rw [new.1, size₂]
    exact large
  · have here : i < payloadSize h ptr := by omega
    rw [new.2 i (by rw [size₂]; omega), ← old.2 i here]
    refine (if_pos ⟨by omega, by omega⟩).trans ?_
    rw [Nat.add_sub_cancel_left]
  · have elsewhere : r ≠ np := fun same => fresh (same ▸ other)
    exact ((kept₁ r other).trans (kept₂ r (Finset.mem_insert_of_mem other) elsewhere)).trans
      (kept₃ r (Finset.mem_insert_of_mem other) apart)

theorem krealloc_moved (held : Held ⟨h, live⟩ blocks) {ptr newSize : Nat} (member : ptr ∈ live) (some : newSize ≠ 0) :
    ∃ q h', krealloc h ptr newSize = .ok (q, h') ∧ ((q = 0 ∧ h' = h) ∨ Moved h live ptr (alignUp newSize) q h') := by
  have null : ptr ≠ 0 := payload_positive ((held.2 ptr).mp member)
  rw [krealloc_known held member some]
  by_cases shrink : payloadSize h ptr ≥ alignUp newSize
  · obtain ⟨blocks', held', _⟩ := krealloc_shrinks held member (alignUp_aligned newSize) shrink
    obtain ⟨size, bytes, others⟩ := shrink_kept held member (alignUp_aligned newSize) shrink
    refine ⟨ptr, _, if_pos shrink, Or.inr ⟨null, Or.inl rfl, ⟨blocks', ?_⟩, ?_, fun i inside => bytes i (by omega), others⟩⟩
    · rwa [Finset.insert_erase member]
    · rw [size]
      exact (keptSize_bounds ⟨payloadSize h ptr, true⟩ shrink).1
  rw [if_neg shrink]
  obtain ⟨np, m, out, _⟩ := kmalloc_held held newSize
  by_cases found : np = 0
  · obtain ⟨np, m', out', ⟨rfl, rfl⟩ | ⟨found', _⟩⟩ := kmalloc_held held newSize
    · refine ⟨0, h, ?_, Or.inl ⟨rfl, rfl⟩⟩
      rw [out']
      rfl
    · rw [out'] at out
      cases out
      exact absurd found found'
  obtain ⟨header, h', freed, moved⟩ := copied_freed held member (Nat.lt_of_not_le shrink) out found
  refine ⟨np, h', ?_, Or.inr moved⟩
  rw [out]
  change (if np = 0 then _ else _) = _
  rw [if_neg found, header, freed]
  rfl

end

/-- `krealloc` fails and leaves everything as it was, or it carries the contents over: over every
history of calls that return. -/
theorem krealloc_preserves {memory : Mem} {ops : List HeapOp} {s : Holding} {ptr newSize : Nat}
    (run : Run MappedStep ⟨kheapInit memory, ∅⟩ ops s) (member : ptr ∈ s.live) (low : 1 ≤ newSize)
    (high : newSize ≤ 2 ^ 64 - 16) :
    ∃ q h', krealloc s.heap ptr newSize = .ok (q, h') ∧
      ((q = 0 ∧ h' = s.heap) ∨
        (q ≠ 0 ∧ (q = ptr ∨ q ∉ s.live) ∧
          (∀ i, i < min (payloadSize s.heap ptr) newSize → h'.mem (q + i) = s.heap.mem (ptr + i)) ∧
          (∀ r ∈ s.live, r ≠ ptr → payloadSize h' r = payloadSize s.heap r ∧
            ∀ i, i < payloadSize s.heap r → h'.mem (r + i) = s.heap.mem (r + i)) ∧
          ∃ blocks, Tiled h' blocks ∧
            ∀ r, r ∈ payloads kheapVirtBase blocks ↔ r = q ∨ (r ≠ ptr ∧ r ∈ s.live))) := by
  obtain ⟨blocks, held⟩ := mapped_histories run
  obtain ⟨q, h', out, failed | moved⟩ := krealloc_moved held member (by omega : newSize ≠ 0)
  · exact ⟨q, h', out, Or.inl failed⟩
  · have rounded : newSize ≤ alignUp newSize := le_alignUp (by omega)
    obtain ⟨blocks', tiled, pointers⟩ := moved.held
    refine ⟨q, h', out, Or.inr ⟨moved.found, moved.fresh, fun i inside => moved.copied i (by omega), moved.others,
      blocks', tiled, fun r => ?_⟩⟩
    rw [← pointers, Finset.mem_insert, Finset.mem_erase]

/-- The heap's first payload, cut down. -/
theorem krealloc_preserves_first : ∃ m q h', krealloc (firstHolding m).heap firstPtr 16 = .ok (q, h') ∧
    (q ≠ 0 → ∀ i, i < min (payloadSize (firstHolding m).heap firstPtr) 16 →
      h'.mem (q + i) = (firstHolding m).heap.mem (firstPtr + i)) := by
  obtain ⟨m, run, _⟩ := kmalloc_first
  have start : Held ⟨kheapInit fun _ => 0, ∅⟩ _ := ⟨kheapInit_tiled _, by simp [payloads]⟩
  have step := mapped_unless_zeroed start rfl (Run.single run).2.2
  have live : firstPtr ∈ (firstHolding m).live := show firstPtr ∈ gain ∅ firstPtr by decide
  obtain ⟨q, h', out, failed | kept⟩ := krealloc_preserves (Run.nil.snoc step) live (show 1 ≤ 16 by decide) (by decide)
  · exact ⟨m, q, h', out, fun found => absurd failed.1 found⟩
  · exact ⟨m, q, h', out, fun _ => kept.2.2.1⟩

end

/-! `align_up` wraps for the 15 largest sizes: they are rounded up to 0, and any free block will do.
-/

variable {h : Heap} {blocks : List Blk} {p size : Nat}

/-- The call returns, and a block it returns has at least `amount` bytes. -/
def Covers (amount : Nat) (out : Except HeapFault (Nat × Heap)) : Prop :=
  ∃ p h, out = .ok (p, h) ∧ (p ≠ 0 → amount ≤ payloadSize h p)

def roundUp (size : Nat) : Nat := (size + 15) / 16 * 16

theorem alignUp_small (small : size ≤ 2 ^ 64 - 16) : alignUp size = roundUp size := by
  unfold alignUp roundUp
  omega

theorem alignUp_wraps (large : 2 ^ 64 - 16 < size) (wide : size < 2 ^ 64) : alignUp size = 0 := by
  unfold alignUp
  omega

theorem Tiled.blk_small {blk : Blk} {front back : List Blk} (tiled : Tiled h (front ++ blk :: back)) :
    blk.size ≤ kheapInitialSize := by
  have covers := tiled.covers
  simp only [extent_append, extent] at covers
  omega

theorem covers_ok {amount : Nat} : Covers amount (.ok (p, h)) ↔ p = 0 ∨ amount ≤ payloadSize h p := by
  constructor
  · rintro ⟨_, _, out, large⟩
    cases out
    by_cases null : p = 0
    · exact Or.inl null
    · exact Or.inr (large null)
  · intro large
    exact ⟨p, h, rfl, fun found => large.resolve_left found⟩

theorem keptSize_covers (blk : Blk) (wide : size < 2 ^ 64) (fits : alignUp size ≤ blk.size)
    (small : blk.size ≤ kheapInitialSize) : size ≤ keptSize blk (alignUp size) ↔ size ≤ 2 ^ 64 - 16 := by
  obtain ⟨low, high⟩ := keptSize_bounds blk fits
  constructor
  · intro covered
    simp only [kheapInitialSize] at small
    omega
  · intro bounded
    exact (le_alignUp (by omega)).trans low

theorem kmalloc_covers (tiled : Tiled h blocks) (wide : size < 2 ^ 64) :
    Covers size (kmalloc h size) ↔ size ≤ 2 ^ 64 - 16 ∨ Exhausted h := by
  by_cases zero : size = 0
  · rw [kmalloc, if_pos (Or.inl zero), covers_ok]
    exact iff_of_true (Or.inl rfl) (Or.inl (by omega))
  rw [exhausted_iff tiled]
  rcases kmalloc_spec tiled (by omega : 0 < size) with ⟨out, none⟩ | ⟨front, blk, back, m, rfl, fit, out, tiled'⟩
  · rw [out, covers_ok]
    refine iff_of_true (Or.inl rfl) (or_iff_not_imp_left.mpr fun large blk member => ?_)
    have wraps := alignUp_wraps (by omega) wide
    exact eq_true_of_ne_false fun free => none blk member ⟨free, by omega⟩
  · have listed := (spans_take kheapVirtBase front blk back (alignUp size) fit.1).1
    have kept : payloadSize _ (kheapVirtBase + extent front + headerSize) = keptSize ⟨blk.size, true⟩ (alignUp size) :=
      tiled'.payloadSize_span (by rw [listed]; simp)
    have found : kheapVirtBase + extent front + headerSize ≠ 0 := by simp [headerSize]
    have available : ¬∀ c ∈ front ++ blk :: back, c.used = true := fun all => by
      have := all blk (by simp)
      simp [fit.1] at this
    rw [out, covers_ok, kept, keptSize_covers ⟨blk.size, true⟩ wide fit.2 tiled.blk_small,
      or_iff_right found, or_iff_left available]

theorem kmalloc_null (tiled : Tiled h blocks) (positive : 0 < size) (bounded : size ≤ 2 ^ 64 - 16 ∨ Exhausted h) :
    (∃ h', kmalloc h size = .ok (0, h')) ↔ ∀ blk ∈ blocks, ¬Fits (roundUp size) blk := by
  have found (front : List Blk) : kheapVirtBase + extent front + headerSize ≠ 0 := by simp [headerSize]
  rcases kmalloc_spec tiled positive with ⟨out, none⟩ | ⟨front, blk, back, m, rfl, fit, out, _⟩
  · refine iff_of_true ⟨h, out⟩ fun blk member fit => ?_
    rcases bounded with small | full
    · rw [alignUp_small small] at none
      exact none blk member fit
    · have := (exhausted_iff tiled).mp full blk member
      simp [fit.1] at this
  · have small : size ≤ 2 ^ 64 - 16 := bounded.resolve_right fun full => by
      have := (exhausted_iff tiled).mp full blk (by simp)
      simp [fit.1] at this
    refine iff_of_false ?_ fun none => none blk (by simp) (alignUp_small small ▸ fit)
    rintro ⟨h', null⟩
    rw [out, Except.ok.injEq, Prod.mk.injEq] at null
    exact found front null.1

theorem kzalloc_covers (amount : Nat) (held : ∃ live, Held ⟨h, live⟩ blocks) :
    Covers amount (kzalloc h size) ↔ Covers amount (kmalloc h size) := by
  obtain ⟨live, held⟩ := held
  obtain ⟨p, m, out, ⟨rfl, rfl⟩ | ⟨found, _, _, _, front, _, _, _, place, _⟩⟩ := kmalloc_held held size
  · rw [kzalloc, out]
    exact Iff.rfl
  · have zeroed : kzalloc h size = .ok (p, { h with mem := fill m p size 0 }) := by
      rw [kzalloc, out]
      exact if_neg found
    have header : payloadSize { h with mem := fill m p size 0 } p = payloadSize { h with mem := m } p := by
      unfold payloadSize
      rw [headerAt_congr (fill_agree 0 (Or.inl (by omega)))]
    rw [zeroed, out, covers_ok, covers_ok, header]

theorem kcalloc_guard {n : Nat} : (n ≠ 0 ∧ size > (2 ^ 64 - 1) / n) ↔ 2 ^ 64 ≤ n * size := by
  by_cases zero : n = 0
  · simp [zero]
  · rw [gt_iff_lt, Nat.div_lt_iff_lt_mul (by omega), Nat.mul_comm size n]
    exact ⟨fun overflow => by omega, fun overflow => ⟨zero, by omega⟩⟩

theorem kcalloc_covers {n : Nat} (held : ∃ live, Held ⟨h, live⟩ blocks) :
    Covers (n * size) (kcalloc h n size) ↔ n * size ≤ 2 ^ 64 - 16 ∨ 2 ^ 64 ≤ n * size ∨ Exhausted h := by
  by_cases overflow : 2 ^ 64 ≤ n * size
  · rw [kcalloc, if_pos (kcalloc_guard.mpr overflow), covers_ok]
    exact iff_of_true (Or.inl rfl) (Or.inr (Or.inl overflow))
  · rw [kcalloc, if_neg (mt kcalloc_guard.mp overflow), Nat.mod_eq_of_lt (by omega), kzalloc_covers _ held]
    obtain ⟨_, tiled, _⟩ := held
    rw [kmalloc_covers tiled (by omega), or_iff_right overflow]

theorem Held.payloadSize_small {live : Finset Nat} (held : Held ⟨h, live⟩ blocks) (member : p ∈ live) :
    payloadSize h p ≤ kheapInitialSize := by
  obtain ⟨tiled, pointers⟩ := held
  obtain ⟨front, back, size, rfl, rfl⟩ := mem_payloads.mp ((pointers p).mp member)
  rw [tiled.payloadSize_eq]
  exact tiled.blk_small

theorem krealloc_covers {live : Finset Nat} {ptr : Nat} (held : Held ⟨h, live⟩ blocks) (known : ptr = 0 ∨ ptr ∈ live)
    (wide : size < 2 ^ 64) :
    Covers size (krealloc h ptr size) ↔ size ≤ 2 ^ 64 - 16 ∨ (ptr = 0 ∧ Exhausted h) := by
  by_cases null : ptr = 0
  · subst null
    rw [krealloc, if_pos rfl, kmalloc_covers held.1 wide]
    simp
  have member := known.resolve_left null
  rw [or_iff_left fun other => null other.1]
  by_cases zero : size = 0
  · obtain ⟨h', _, freed, _⟩ := kfree_kept held member
    rw [krealloc, if_neg null, if_pos zero, freed]
    exact iff_of_true (covers_ok.mpr (Or.inl rfl)) (by omega)
  by_cases small : size ≤ 2 ^ 64 - 16
  · refine iff_of_true ?_ small
    obtain ⟨q, h', out, ⟨rfl, rfl⟩ | moved⟩ := krealloc_moved held member zero
    · exact ⟨0, h', out, fun found => absurd rfl found⟩
    · exact ⟨q, h', out, fun _ => (le_alignUp (by omega)).trans moved.large⟩
  · -- the size is rounded to 0, and the block is cut down to nothing
    have wraps := alignUp_wraps (by omega) wide
    rw [krealloc_known held member zero, wraps, if_pos (Nat.zero_le _), covers_ok, or_iff_right null,
      (shrink_kept held member (Nat.dvd_zero 16) (Nat.zero_le _)).1]
    have fits : alignUp size ≤ payloadSize h ptr := by
      rw [wraps]
      exact Nat.zero_le _
    have covers := keptSize_covers ⟨payloadSize h ptr, true⟩ wide fits (held.payloadSize_small member)
    rwa [wraps] at covers

/-- An allocation is as large as was asked for, and `kmalloc` fails only for want of a free block, except for the
sizes that `align_up` wraps: over every history of calls that return. -/
theorem allocation_sizes {memory : Mem} {ops : List HeapOp} {s : Holding}
    (run : Run MappedStep ⟨kheapInit memory, ∅⟩ ops s) :
    ∃ blocks, Tiled s.heap blocks ∧
      (∀ size : UInt64,
        (Covers size.toNat (kmalloc s.heap size.toNat) ∧ (0 < size.toNat →
          ((∃ h, kmalloc s.heap size.toNat = .ok (0, h)) ↔ ∀ blk ∈ blocks, ¬Fits (roundUp size.toNat) blk)) ↔
        size.toNat ≤ 2 ^ 64 - 16 ∨ Exhausted s.heap)) ∧
      (∀ size : UInt64, Covers size.toNat (kzalloc s.heap size.toNat) ↔ size.toNat ≤ 2 ^ 64 - 16 ∨ Exhausted s.heap) ∧
      (∀ n size : UInt64, Covers (n.toNat * size.toNat) (kcalloc s.heap n.toNat size.toNat) ↔
        n.toNat * size.toNat ≤ 2 ^ 64 - 16 ∨ 2 ^ 64 ≤ n.toNat * size.toNat ∨ Exhausted s.heap) ∧
      ∀ (ptr : Nat) (size : UInt64), ptr = 0 ∨ ptr ∈ s.live →
        (Covers size.toNat (krealloc s.heap ptr size.toNat) ↔
          size.toNat ≤ 2 ^ 64 - 16 ∨ (ptr = 0 ∧ Exhausted s.heap)) := by
  obtain ⟨blocks, held⟩ := mapped_histories run
  refine ⟨blocks, held.1, fun size => ?_, fun size => ?_, fun n size => kcalloc_covers ⟨_, held⟩,
    fun ptr size known => krealloc_covers held known size.toNat_lt⟩
  · rw [kmalloc_covers held.1 size.toNat_lt]
    exact ⟨And.left, fun bounded => ⟨bounded, fun positive => kmalloc_null held.1 positive bounded⟩⟩
  · rw [kzalloc_covers _ ⟨_, held⟩, kmalloc_covers held.1 size.toNat_lt]

/-- The sizes at the start: 100 bytes are covered. -/
theorem allocation_sizes_start : Covers (100 : UInt64).toNat (kmalloc (kheapInit fun _ => 0) (100 : UInt64).toNat) := by
  have run : Run MappedStep ⟨kheapInit fun _ => 0, ∅⟩ [] _ := Run.nil
  obtain ⟨_, _, sizes, _⟩ := allocation_sizes run
  exact ((sizes 100).mpr (Or.inl (by decide))).1

/-- Right after `kheap_init`, 2^64 - 1 bytes are granted. -/
theorem kmalloc_wraps : ¬∀ ops s, Run HeapStep ⟨kheapInit fun _ => 0, ∅⟩ ops s → ∀ size : UInt64,
    Covers size.toNat (kmalloc s.heap size.toNat) := by
  intro claim
  have tiled := kheapInit_tiled fun _ => 0
  have covered := claim [] _ Run.nil (UInt64.ofNat (2 ^ 64 - 1))
  rw [kmalloc_covers tiled (UInt64.toNat_lt _)] at covered
  rcases covered with small | full
  · exact absurd small (by decide)
  · have := (exhausted_iff tiled).mp full _ List.mem_cons_self
    cases this

end RexOs.Mm
