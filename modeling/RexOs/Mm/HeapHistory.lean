import Mathlib.Data.Finset.Basic
import RexOs.Library.Run
import RexOs.Mm.HeapSpec

/-! Histories of the kernel heap: sequences of allocator calls by callers that
free and reallocate only what they hold, and that write only inside the payloads
they were given.
-/

set_option autoImplicit false

namespace RexOs.Mm

open RexOs.Library

variable {h : Heap} {blocks : List Blk} {p : Nat}

inductive HeapOp where
  | malloc (size : UInt64)
  | zalloc (size : UInt64)
  | calloc (n size : UInt64)
  | realloc (ptr : Nat) (newSize : UInt64)
  | free (ptr : Nat)
  /-- The holder of a live pointer writes a byte of its payload. -/
  | write (ptr offset : Nat) (byte : UInt8)

structure Holding where
  heap : Heap
  live : Finset Nat

def HeapOp.apply (h : Heap) : HeapOp → Except HeapFault (Nat × Heap)
  | .malloc size => kmalloc h size.toNat
  | .zalloc size => kzalloc h size.toNat
  | .calloc n size => kcalloc h n.toNat size.toNat
  | .realloc ptr newSize => krealloc h ptr newSize.toNat
  | .free ptr => do
      let h ← kfree h ptr
      .ok (0, h)
  | .write ptr offset byte => .ok (0, { h with mem := Function.update h.mem (ptr + offset) byte })

/-- Add a returned pointer, unless it is `NULL`. -/
def gain (live : Finset Nat) (p : Nat) : Finset Nat := if p = 0 then live else insert p live

/-- The live pointers after an operation that returned `p`. -/
def HeapOp.liveAfter (live : Finset Nat) (p : Nat) : HeapOp → Finset Nat
  | .malloc _ | .zalloc _ | .calloc _ _ => gain live p
  | .realloc ptr newSize => if newSize = 0 ∨ p ≠ 0 then gain (live.erase ptr) p else live
  | .free ptr => live.erase ptr
  | .write _ _ _ => live

/-- What the callers promise: frees, reallocations and writes concern live pointers. -/
def HeapOp.Allowed (s : Holding) : HeapOp → Prop
  | .malloc _ | .zalloc _ | .calloc _ _ => True
  | .realloc ptr _ | .free ptr => ptr = 0 ∨ ptr ∈ s.live
  | .write ptr offset _ => ptr ∈ s.live ∧ offset < payloadSize s.heap ptr

def HeapOp.zeroed : HeapOp → Nat
  | .zalloc size => size.toNat
  | .calloc n size => n.toNat * size.toNat % 2 ^ 64
  | _ => 0

def Exhausted (h : Heap) : Prop := ∃ out, kheapGetStats h = .ok out ∧ out.freeBlockCount = 0

def HeapOp.Bounded (s : Holding) (op : HeapOp) : Prop := op.zeroed ≤ 2 ^ 64 - 16 ∨ Exhausted s.heap

def HeapStep (s : Holding) (op : HeapOp) (next : Holding) : Prop :=
  op.Allowed s ∧ ∃ p h, op.apply s.heap = .ok (p, h) ∧ next = ⟨h, op.liveAfter s.live p⟩

def BoundedStep (s : Holding) (op : HeapOp) (next : Holding) : Prop := op.Bounded s ∧ HeapStep s op next

def Held (s : Holding) (blocks : List Blk) : Prop :=
  Tiled s.heap blocks ∧ ∀ p, p ∈ s.live ↔ p ∈ payloads kheapVirtBase blocks

theorem payload_positive (member : p ∈ payloads kheapVirtBase blocks) : p ≠ 0 := by
  have := payloads_bounds member
  have := base_positive
  omega

section
variable {live : Finset Nat}

theorem kmalloc_held (held : Held ⟨h, live⟩ blocks) (size : Nat) :
    ∃ p m, kmalloc h size = .ok (p, { h with mem := m }) ∧
      ((p = 0 ∧ m = h.mem) ∨
        (p ≠ 0 ∧ p ∉ live ∧ (∃ blk ∈ blocks, Fits (alignUp size) blk) ∧
          (∀ q ∈ live, payloadSize { h with mem := m } q = payloadSize h q) ∧
          ∃ front back got, alignUp size ≤ got ∧ p = kheapVirtBase + extent front + headerSize ∧
            Held ⟨{ h with mem := m }, insert p live⟩ (front ++ ⟨got, true⟩ :: back) ∧
            (Merged blocks → Merged (front ++ ⟨got, true⟩ :: back)))) := by
  obtain ⟨tiled, pointers⟩ := held
  by_cases empty : size = 0
  · exact ⟨0, h.mem, by simp [kmalloc, empty], Or.inl ⟨rfl, rfl⟩⟩
  rcases kmalloc_spec tiled (by omega : 0 < size) with ⟨out, _⟩ | ⟨front, blk, back, m, shape, fit, out, tiled'⟩
  · exact ⟨0, h.mem, out, Or.inl ⟨rfl, rfl⟩⟩
  have listed : ∃ got rest, alignUp size ≤ got ∧
      front ++ splitBlk ⟨blk.size, true⟩ (alignUp size) ++ back = front ++ ⟨got, true⟩ :: rest := by
    unfold splitBlk
    split
    · exact ⟨alignUp size, _, Nat.le_refl _, by simp only [List.append_assoc, List.cons_append]; rfl⟩
    · exact ⟨blk.size, _, fit.2, by simp only [List.append_assoc, List.cons_append]; rfl⟩
  obtain ⟨got, rest, large, listed⟩ := listed
  subst shape
  have fresh : kheapVirtBase + extent front + headerSize ∉ live := by
    rw [pointers]
    exact fresh_not_mem fit.1
  refine ⟨_, m, out, Or.inr ⟨by have := base_positive; omega, fresh, ⟨blk, by simp, fit⟩,
    fun q member => tiled.payloadSize_take tiled' fit.1 ((pointers q).mp member),
    front, rest, got, large, rfl, ⟨?_, fun p => ?_⟩, ?_⟩⟩
  · rw [← listed]
    exact tiled'
  · rw [← listed, mem_payloads_take fit.1, Finset.mem_insert, ← pointers]
  · rw [← listed]
    exact merged_take fit.1

theorem kfree_held (held : Held ⟨h, live⟩ blocks) (member : p ∈ live) :
    ∃ m blocks', kfree h p = .ok { h with mem := m } ∧ Held ⟨{ h with mem := m }, live.erase p⟩ blocks' ∧
      (Merged blocks → Merged blocks') := by
  obtain ⟨tiled, pointers⟩ := held
  obtain ⟨front, back, size, rfl, rfl⟩ := mem_payloads.mp ((pointers p).mp member)
  refine ⟨_, _, kfree_frees tiled, ⟨tiled.freed, fun q => ?_⟩, merged_freeBlk⟩
  rw [Finset.mem_erase, mem_payloads_free, ← pointers]

theorem Held.write {m : Mem} {front back : List Blk} {got : Nat}
    (held : Held ⟨h, live⟩ (front ++ ⟨got, true⟩ :: back))
    (same : ∀ x, x < kheapVirtBase + extent front + headerSize ∨
      kheapVirtBase + extent front + headerSize + got ≤ x → m x = h.mem x) :
    Held ⟨{ h with mem := m }, live⟩ (front ++ ⟨got, true⟩ :: back) :=
  ⟨held.1.write_payload same, held.2⟩

theorem kmalloc_gain (held : Held ⟨h, live⟩ blocks) (size : Nat) :
    ∃ p h' blocks', kmalloc h size = .ok (p, h') ∧ Held ⟨h', gain live p⟩ blocks' ∧ (Merged blocks → Merged blocks') := by
  obtain ⟨p, m, out, ⟨rfl, rfl⟩ | ⟨found, _, _, _, front, back, got, _, _, held', merged⟩⟩ := kmalloc_held held size
  · exact ⟨0, h, blocks, out, by simpa [gain] using held, id⟩
  · exact ⟨p, _, _, out, by simpa [gain, found] using held', merged⟩

theorem exhausted_iff (tiled : Tiled h blocks) : Exhausted h ↔ ∀ blk ∈ blocks, blk.used = true := by
  obtain ⟨out, done, _, _, free⟩ := kheapGetStats_spec tiled
  have counted : Exhausted h ↔ out.freeBlockCount = 0 := by
    constructor
    · rintro ⟨out', done', none⟩
      rw [done, Except.ok.injEq] at done'
      rw [done']
      exact none
    · exact fun none => ⟨out, done, none⟩
  rw [counted, free, List.length_eq_zero_iff, List.filter_eq_nil_iff]
  simp

theorem kzalloc_gain (held : Held ⟨h, live⟩ blocks) {size : Nat} (bounded : size ≤ 2 ^ 64 - 16 ∨ Exhausted h) :
    ∃ p h' blocks', kzalloc h size = .ok (p, h') ∧ Held ⟨h', gain live p⟩ blocks' ∧ (Merged blocks → Merged blocks') := by
  obtain ⟨p, m, out, ⟨rfl, rfl⟩ | ⟨found, _, ⟨blk, member, fit⟩, _, front, back, got, large, place, held', merged⟩⟩ :=
    kmalloc_held held size
  · refine ⟨0, h, blocks, ?_, by simpa [gain] using held, id⟩
    rw [kzalloc, out]
    rfl
  · have small : size ≤ 2 ^ 64 - 16 := bounded.resolve_right fun full => by
      have := (exhausted_iff held.1).mp full blk member
      simp [fit.1] at this
    have inside : size ≤ got := Nat.le_trans (le_alignUp (by omega)) large
    refine ⟨p, { h with mem := fill m p size 0 }, front ++ ⟨got, true⟩ :: back, ?_, ?_, merged⟩
    · rw [kzalloc, out]
      exact if_neg found
    · have zeroed := held'.write (m := fill m p size 0) fun x outside => if_neg (by omega)
      simpa [gain, found] using zeroed

theorem kcalloc_gain (held : Held ⟨h, live⟩ blocks) {n size : Nat}
    (bounded : n * size % 2 ^ 64 ≤ 2 ^ 64 - 16 ∨ Exhausted h) :
    ∃ p h' blocks', kcalloc h n size = .ok (p, h') ∧ Held ⟨h', gain live p⟩ blocks' ∧ (Merged blocks → Merged blocks') := by
  by_cases overflow : n ≠ 0 ∧ size > (2 ^ 64 - 1) / n
  · exact ⟨0, h, blocks, if_pos overflow, by simpa [gain] using held, id⟩
  · rw [kcalloc, if_neg overflow]
    exact kzalloc_gain held bounded

/-- When the block is cut down to `n` bytes, the block behind it is not free. -/
def CutApart (h : Heap) (p n : Nat) : Prop :=
  let b := headerAt h.mem (p - headerSize)
  b.size - n ≥ headerSize + kheapAlign → b.next = 0 ∨ (headerAt h.mem b.next).magic ≠ blockMagicFree

theorem CutApart.startsUsed {front back : List Blk} {size n : Nat} (tiled : Tiled h (front ++ ⟨size, true⟩ :: back))
    (apart : CutApart h (kheapVirtBase + extent front + headerSize) n) (large : size - n ≥ headerSize + kheapAlign) :
    StartsUsed back := by
  obtain ⟨_, header, _, behind⟩ := seg_middle.mp tiled.seg
  have place : kheapVirtBase + extent front + headerSize - headerSize = kheapVirtBase + extent front := by omega
  unfold CutApart at apart
  rw [place, header] at apart
  intro c first
  cases back with
  | nil => cases first
  | cons d back =>
    cases first
    obtain ⟨header', _⟩ := behind
    rcases apart large with none | used
    · have := base_positive
      simp only [firstAddr_cons] at none
      omega
    · rw [firstAddr_cons, header', ne_eq, magicOf_eq_free] at used
      exact eq_true_of_ne_false used

theorem splitBlock_tiled {front back : List Blk} {size n : Nat} (tiled : Tiled h (front ++ ⟨size, true⟩ :: back))
    (fits : n ≤ size) (aligned : 16 ∣ n) :
    Tiled { h with mem := splitBlock h.mem (kheapVirtBase + extent front) n }
      (front ++ splitBlk ⟨size, true⟩ n ++ back) where
  head := tiled.head
  total := tiled.total
  seg := splitBlock_seg tiled.seg base_positive (heap_room tiled.covers) fits aligned
  covers := by
    have covers := tiled.covers
    simp only [extent_append, extent, extent_splitBlk] at covers ⊢
    omega

theorem krealloc_shrinks {n : Nat} (held : Held ⟨h, live⟩ blocks) (member : p ∈ live) (aligned : 16 ∣ n)
    (fits : n ≤ payloadSize h p) :
    ∃ blocks', Held ⟨{ h with mem := splitBlock h.mem (p - headerSize) n }, live⟩ blocks' ∧
      (CutApart h p n → Merged blocks → Merged blocks') := by
  obtain ⟨tiled, pointers⟩ := held
  obtain ⟨front, back, size, rfl, rfl⟩ := mem_payloads.mp ((pointers p).mp member)
  have place : kheapVirtBase + extent front + headerSize - headerSize = kheapVirtBase + extent front := by omega
  rw [tiled.payloadSize_eq] at fits
  refine ⟨front ++ splitBlk ⟨size, true⟩ n ++ back, ⟨?_, fun q => ?_⟩, ?_⟩
  · rw [place]
    exact splitBlock_tiled tiled fits aligned
  · rw [pointers]
    simp only [payloads_append, payloads, payloads_splitBlk, extent_append, extent_splitBlk, if_true,
      List.mem_append, List.mem_cons, List.not_mem_nil, or_false, ← Nat.add_assoc, or_assoc]
  · intro apart merged
    exact merged_cut front back size n ((merged_used rfl).mp merged) (apart.startsUsed tiled)

theorem Held.checked (held : Held ⟨h, live⟩ blocks) (member : p ∈ live) :
    checkBlock h.mem (p - headerSize) = .ok () := by
  obtain ⟨tiled, pointers⟩ := held
  obtain ⟨front, back, size, rfl, rfl⟩ := mem_payloads.mp ((pointers p).mp member)
  obtain ⟨_, header, _, _⟩ := seg_middle.mp tiled.seg
  have place : kheapVirtBase + extent front + headerSize - headerSize = kheapVirtBase + extent front := by omega
  rw [place]
  exact checkBlock_ok true (by rw [header])

theorem krealloc_known (held : Held ⟨h, live⟩ blocks) {ptr newSize : Nat} (member : ptr ∈ live) (drop : newSize ≠ 0) :
    krealloc h ptr newSize =
      (if payloadSize h ptr ≥ alignUp newSize then
        .ok (ptr, { h with mem := splitBlock h.mem (ptr - headerSize) (alignUp newSize) })
      else do
        let (np, h) ← kmalloc h newSize
        if np = 0 then .ok (0, h)
        else
          let h := { h with mem := copy h.mem np ptr (headerAt h.mem (ptr - headerSize)).size }
          let h ← kfree h ptr
          .ok (np, h)) := by
  have null : ptr ≠ 0 := payload_positive ((held.2 ptr).mp member)
  rw [krealloc, if_neg null, if_neg drop]
  change (checkBlock h.mem (ptr - headerSize) >>= _) = _
  rw [held.checked member]
  rfl

theorem krealloc_held (held : Held ⟨h, live⟩ blocks) {ptr newSize : Nat} (known : ptr = 0 ∨ ptr ∈ live) :
    ∃ p h' blocks', krealloc h ptr newSize = .ok (p, h') ∧
      Held ⟨h', if newSize = 0 ∨ p ≠ 0 then gain (live.erase ptr) p else live⟩ blocks' ∧
      ((ptr ≠ 0 → newSize ≠ 0 → CutApart h ptr (alignUp newSize)) → Merged blocks → Merged blocks') := by
  have zero : 0 ∉ live := fun member => payload_positive ((held.2 0).mp member) rfl
  by_cases null : ptr = 0
  · subst null
    obtain ⟨p, h', blocks', out, held', merged⟩ := kmalloc_gain held newSize
    refine ⟨p, h', blocks', by simpa [krealloc] using out, ?_, fun _ => merged⟩
    rw [Finset.erase_eq_of_notMem zero]
    split
    · exact held'
    · rename_i none
      have : p = 0 := by tauto
      simpa [gain, this] using held'
  have member : ptr ∈ live := known.resolve_left null
  by_cases drop : newSize = 0
  · obtain ⟨m, blocks', out, held', merged⟩ := kfree_held held member
    refine ⟨0, _, blocks', ?_, by simpa [drop, gain] using held', fun _ => merged⟩
    rw [krealloc, if_neg null, if_pos drop, out]
    rfl
  rw [krealloc_known held member drop]
  by_cases shrink : payloadSize h ptr ≥ alignUp newSize
  · obtain ⟨blocks', held', merged⟩ := krealloc_shrinks held member (alignUp_aligned newSize) shrink
    refine ⟨ptr, _, blocks', if_pos shrink, ?_, fun apart => merged (apart null drop)⟩
    simpa [gain, null, Finset.insert_erase member] using held'
  rw [if_neg shrink]
  obtain ⟨np, m, out, ⟨rfl, rfl⟩ | ⟨found, fresh, _, sizes, front, back, got, large, place, held', merged⟩⟩ :=
    kmalloc_held held newSize
  · refine ⟨0, h, blocks, ?_, by simpa [drop] using held, fun _ => id⟩
    rw [out]
    rfl
  · -- the copy stays inside the new payload, which is larger than the old one
    have copied : Held ⟨{ h with mem := copy m np ptr (headerAt m (ptr - headerSize)).size },
        insert np live⟩ (front ++ ⟨got, true⟩ :: back) := by
      have old : (headerAt m (ptr - headerSize)).size = payloadSize h ptr := sizes ptr member
      exact held'.write fun x outside => if_neg (by omega)
    obtain ⟨m', blocks', freed, held'', merged'⟩ := kfree_held copied (Finset.mem_insert_of_mem member)
    refine ⟨np, { h with mem := m' }, blocks', ?_, ?_, fun _ start => merged' (merged start)⟩
    · rw [out]
      change (if np = 0 then _ else _) = _
      rw [if_neg found]
      rw [freed]
      rfl
    · have distinct : np ≠ ptr := fun same => fresh (same ▸ member)
      rw [Finset.erase_insert_of_ne distinct] at held''
      simpa [gain, found] using held''

end

def HeapOp.Apart (s : Holding) : HeapOp → Prop
  | .realloc ptr newSize => ptr ≠ 0 → newSize.toNat ≠ 0 → CutApart s.heap ptr (alignUp newSize.toNat)
  | _ => True

theorem apply_held {s : Holding} (held : Held s blocks) {op : HeapOp} (allowed : op.Allowed s)
    (bounded : op.Bounded s) :
    ∃ p h' blocks', op.apply s.heap = .ok (p, h') ∧ Held ⟨h', op.liveAfter s.live p⟩ blocks' ∧
      (op.Apart s → Merged blocks → Merged blocks') := by
  cases op with
  | malloc size =>
    obtain ⟨p, h', blocks', out, held', merged⟩ := kmalloc_gain held size.toNat
    exact ⟨p, h', blocks', out, held', fun _ => merged⟩
  | zalloc size =>
    obtain ⟨p, h', blocks', out, held', merged⟩ := kzalloc_gain held bounded
    exact ⟨p, h', blocks', out, held', fun _ => merged⟩
  | calloc n size =>
    obtain ⟨p, h', blocks', out, held', merged⟩ := kcalloc_gain held bounded
    exact ⟨p, h', blocks', out, held', fun _ => merged⟩
  | realloc ptr newSize =>
    have same : newSize = 0 ↔ newSize.toNat = 0 := by
      rw [← UInt64.toNat_inj]
      rfl
    simp only [HeapOp.liveAfter, same]
    exact krealloc_held held allowed
  | free ptr =>
    rcases allowed with rfl | member
    · refine ⟨0, s.heap, blocks, rfl, ?_, fun _ => id⟩
      have zero : 0 ∉ s.live := fun member => payload_positive ((held.2 0).mp member) rfl
      simpa [HeapOp.liveAfter, Finset.erase_eq_of_notMem zero] using held
    · obtain ⟨m, blocks', out, held', merged⟩ := kfree_held held member
      refine ⟨0, _, blocks', ?_, held', fun _ => merged⟩
      rw [HeapOp.apply, out]
      rfl
  | write ptr offset byte =>
    obtain ⟨member, inside⟩ := allowed
    obtain ⟨front, back, size, rfl, rfl⟩ := mem_payloads.mp ((held.2 ptr).mp member)
    rw [held.1.payloadSize_eq] at inside
    refine ⟨0, _, _, rfl, Held.write held fun x outside => Function.update_of_ne ?_ _ _, fun _ => id⟩
    dsimp only at inside
    omega

theorem held_step {s next : Holding} {op : HeapOp} (held : ∃ blocks, Held s blocks)
    (step : BoundedStep s op next) : ∃ blocks, Held next blocks := by
  obtain ⟨blocks, held⟩ := held
  obtain ⟨bounded, allowed, p, h, out, rfl⟩ := step
  obtain ⟨p', h', blocks', out', held', _⟩ := apply_held held allowed bounded
  rw [out, Except.ok.injEq, Prod.mk.injEq] at out'
  obtain ⟨rfl, rfl⟩ := out'
  exact ⟨blocks', held'⟩

theorem kheapInit_held (memory : Mem) : ∃ blocks, Held ⟨kheapInit memory, ∅⟩ blocks :=
  ⟨_, kheapInit_tiled memory, by simp [payloads]⟩

/-- The representation invariant of the heap, over every history in which rounding
up the size of a zeroed allocation does not wrap. -/
theorem kheap_histories (memory : Mem) (ops : List HeapOp) (s : Holding)
    (run : Run BoundedStep ⟨kheapInit memory, ∅⟩ ops s) :
    (∃ blocks, Tiled s.heap blocks ∧ ∀ p, p ∈ s.live ↔ p ∈ payloads kheapVirtBase blocks) ∧
    (∀ p ∈ s.live, 16 ∣ p) ∧
    (∀ p ∈ s.live, ∀ q ∈ s.live, p ≠ q → p + payloadSize s.heap p ≤ q ∨ q + payloadSize s.heap q ≤ p) ∧
    (∃ out, kheapGetStats s.heap = .ok out ∧ out.totalBytes = kheapInitialSize ∧
      out.usedBytes + out.freeBytes + headerSize * out.blockCount = out.totalBytes) ∧
    ∀ op : HeapOp, op.Allowed s → op.Bounded s → ∃ next, HeapStep s op next := by
  obtain ⟨blocks, held⟩ := Run.invariant (fun s => ∃ blocks, Held s blocks) (kheapInit_held memory)
    (fun _ _ _ held step => held_step held step) run
  obtain ⟨tiled, pointers⟩ := held
  obtain ⟨out, done, total, sum, _⟩ := kheapGetStats_spec tiled
  refine ⟨⟨blocks, tiled, pointers⟩, fun p member => tiled.payloads_aligned ((pointers p).mp member),
    fun p left q right distinct => tiled.payloads_disjoint ((pointers p).mp left) ((pointers q).mp right)
      distinct, ⟨out, done, total, sum⟩, fun op allowed bounded => ?_⟩
  obtain ⟨p, h, _, out, _, _⟩ := apply_held ⟨tiled, pointers⟩ allowed bounded
  exact ⟨_, allowed, p, h, out, rfl⟩

/-- A history of two allocations. -/
theorem kheap_histories_twoAllocations :
    ∃ s, Run BoundedStep ⟨kheapInit (fun _ => 0), ∅⟩ [.malloc 24, .zalloc 100] s ∧
      (∀ p ∈ s.live, 16 ∣ p) ∧ ∃ blocks, Tiled s.heap blocks := by
  have start : Run BoundedStep ⟨kheapInit (fun _ => 0), ∅⟩ [] _ := Run.nil
  have small : ∀ s, (HeapOp.malloc 24).Bounded s := fun _ => Or.inl (by decide)
  have small' : ∀ s, (HeapOp.zalloc 100).Bounded s := fun _ => Or.inl (by decide)
  obtain ⟨one, first⟩ := (kheap_histories _ _ _ start).2.2.2.2 (.malloc 24) trivial (small _)
  have run := start.snoc ⟨small _, first⟩
  obtain ⟨two, second⟩ := (kheap_histories _ _ _ run).2.2.2.2 (.zalloc 100) trivial (small' _)
  have run' := run.snoc ⟨small' _, second⟩
  obtain ⟨⟨blocks, tiled, _⟩, aligned, _⟩ := kheap_histories _ _ _ run'
  exact ⟨two, run', aligned, blocks, tiled⟩

theorem magicOf_ne_zero (used : Bool) : magicOf used ≠ 0 := by cases used <;> decide

/-- `align_up` maps the largest size to 0, so the new block has no payload and its
zeroing runs over the header that the split has just written. -/
theorem kzalloc_wraps : ¬ ∀ ops s, Run HeapStep ⟨kheapInit (fun _ => 0), ∅⟩ ops s →
    ∃ blocks, Tiled s.heap blocks := by
  intro kept
  have tiled := kheapInit_tiled fun _ => 0
  have wrapped : alignUp (2 ^ 64 - 1) = 0 := by decide
  rcases kmalloc_spec tiled (by decide : 0 < 2 ^ 64 - 1) with ⟨_, none⟩ | ⟨front, blk, back, m, shape, _, out, tiled'⟩
  · exact none _ List.mem_cons_self ⟨rfl, by rw [wrapped]; exact Nat.zero_le _⟩
  obtain ⟨rfl, rfl, rfl⟩ : front = [] ∧ blk = ⟨kheapInitialSize - headerSize, false⟩ ∧ back = [] := by
    cases front with
    | nil =>
      simp only [List.nil_append, List.cons.injEq] at shape
      exact ⟨rfl, shape.1.symm, shape.2.symm⟩
    | cons x xs => simp at shape
  -- the block taken has no payload, and the free rest starts right after its header
  have cut : splitBlk ⟨kheapInitialSize - headerSize, true⟩ 0 =
      [⟨0, true⟩, ⟨kheapInitialSize - headerSize - headerSize, false⟩] := by decide
  have seg := tiled'.seg
  simp only [wrapped, List.nil_append, List.append_nil, cut, Seg, firstAddr_cons, firstAddr_nil] at seg
  obtain ⟨first, _, _, _, _⟩ := seg
  have zeroed : kzalloc (kheapInit fun _ => 0) (2 ^ 64 - 1) = .ok (kheapVirtBase + headerSize,
      { kheapInit (fun _ => 0) with mem := fill m (kheapVirtBase + headerSize) (2 ^ 64 - 1) 0 }) := by
    rw [kzalloc, out]
    rfl
  have run : Run HeapStep ⟨kheapInit fun _ => 0, ∅⟩ ([] ++ [.zalloc (UInt64.ofNat (2 ^ 64 - 1))]) _ :=
    Run.nil.snoc ⟨trivial, _, _, zeroed, rfl⟩
  obtain ⟨blocks, broken⟩ := kept _ _ run
  have header : headerAt (fill m (kheapVirtBase + headerSize) (2 ^ 64 - 1) 0) kheapVirtBase =
      ⟨0, magicOf true, kheapVirtBase + headerSize, 0⟩ := by
    rw [headerAt_congr (fill_agree 0 (Or.inl (Nat.le_refl _))), first]
    rfl
  have gone : (headerAt (fill m (kheapVirtBase + headerSize) (2 ^ 64 - 1) 0)
      (kheapVirtBase + headerSize)).magic = 0 := load_fill_zero (by omega) (by omega)
  cases blocks with
  | nil => exact broken.nonempty rfl
  | cons x rest =>
    obtain ⟨here, _, after⟩ := broken.seg
    have covers := broken.covers
    simp only at here after
    rw [header] at here
    simp only [Header.mk.injEq] at here
    obtain ⟨empty, _, linked, _⟩ := here
    cases rest with
    | nil =>
      simp only [extent, ← empty] at covers
      exact absurd covers (by decide)
    | cons y rest =>
      obtain ⟨there, _, _⟩ := after
      rw [← empty, Nat.add_zero] at there
      rw [there] at gone
      exact magicOf_ne_zero y.used gone

def ApartStep (s : Holding) (op : HeapOp) (next : Holding) : Prop := op.Apart s ∧ BoundedStep s op next

/-- No two neighbours are free, and without live pointers the heap is as at the start. -/
def Defragmented (s : Holding) : Prop :=
  ∃ blocks, Tiled s.heap blocks ∧ Merged blocks ∧ (s.live = ∅ → blocks = [⟨kheapInitialSize - headerSize, false⟩])

theorem apart_step {s next : Holding} {op : HeapOp} (held : ∃ blocks, Held s blocks ∧ Merged blocks)
    (step : ApartStep s op next) : ∃ blocks, Held next blocks ∧ Merged blocks := by
  obtain ⟨blocks, held, merged⟩ := held
  obtain ⟨apart, bounded, allowed, p, h, out, rfl⟩ := step
  obtain ⟨p', h', blocks', out', held', keeps⟩ := apply_held held allowed bounded
  rw [out, Except.ok.injEq, Prod.mk.injEq] at out'
  obtain ⟨rfl, rfl⟩ := out'
  exact ⟨blocks', held', keeps apart merged⟩

theorem kheap_defragmented (memory : Mem) (ops : List HeapOp) (s : Holding)
    (run : Run ApartStep ⟨kheapInit memory, ∅⟩ ops s) : Defragmented s := by
  have start : ∃ blocks, Held ⟨kheapInit memory, ∅⟩ blocks ∧ Merged blocks :=
    ⟨_, ⟨kheapInit_tiled memory, by simp [payloads]⟩, List.isChain_singleton _⟩
  obtain ⟨blocks, ⟨tiled, pointers⟩, merged⟩ :=
    Run.invariant (fun s => ∃ blocks, Held s blocks ∧ Merged blocks) start (fun _ _ _ held step => apart_step held step) run
  refine ⟨blocks, tiled, merged, ?_⟩
  intro none
  apply merged.single tiled
  intro p member
  rw [← pointers, none] at member
  cases member

def firstPtr : Nat := kheapVirtBase + headerSize

def firstHolding (m : Mem) : Holding := ⟨{ kheapInit (fun _ => 0) with mem := m }, gain ∅ firstPtr⟩

theorem kmalloc_first : ∃ m, Run ApartStep ⟨kheapInit fun _ => 0, ∅⟩ [.malloc 1000] (firstHolding m) ∧
    Held (firstHolding m) [⟨1008, true⟩, ⟨1047504, false⟩] := by
  have tiled := kheapInit_tiled fun _ => 0
  rcases kmalloc_spec tiled (by decide : 0 < 1000) with ⟨_, none⟩ | ⟨front, blk, back, m, shape, _, out, tiled'⟩
  · exact absurd ⟨rfl, by decide⟩ (none _ List.mem_cons_self)
  · obtain ⟨rfl, rfl, rfl⟩ : front = [] ∧ blk = ⟨kheapInitialSize - headerSize, false⟩ ∧ back = [] := by
      cases front with
      | nil =>
        simp only [List.nil_append, List.cons.injEq] at shape
        exact ⟨rfl, shape.1.symm, shape.2.symm⟩
      | cons x xs => simp at shape
    refine ⟨m, Run.nil.snoc ⟨trivial, Or.inl (by decide), trivial, _, _, out, rfl⟩, tiled', ?_⟩
    intro p
    simp [payloads, firstHolding, gain, firstPtr, kheapVirtBase]

/-- An allocation and its release. -/
theorem kheap_defragmented_freed :
    ∃ s, Run ApartStep ⟨kheapInit fun _ => 0, ∅⟩ [.malloc 1000, .free firstPtr] s ∧ Defragmented s := by
  obtain ⟨m, run, held⟩ := kmalloc_first
  have allowed : (HeapOp.free firstPtr).Allowed (firstHolding m) := Or.inr (show firstPtr ∈ gain ∅ firstPtr by decide)
  have bounded : (HeapOp.free firstPtr).Bounded (firstHolding m) := Or.inl (by decide)
  obtain ⟨p, h, blocks, out, _⟩ := apply_held held allowed bounded
  have run' := run.snoc ⟨show (HeapOp.free firstPtr).Apart (firstHolding m) from trivial, bounded, allowed, p, h, out, rfl⟩
  exact ⟨_, run', kheap_defragmented _ _ _ run'⟩

/-- The rest of a block that is cut down stays apart from the free block behind it. -/
theorem krealloc_fragments : ¬ ∀ memory ops s, Run HeapStep ⟨kheapInit memory, ∅⟩ ops s → Defragmented s := by
  intro claim
  obtain ⟨m, run, held⟩ := kmalloc_first
  have tiled : Tiled (firstHolding m).heap ([] ++ ⟨1008, true⟩ :: [⟨1047504, false⟩]) := held.1
  have size : payloadSize (firstHolding m).heap firstPtr = 1008 := tiled.payloadSize_eq
  have member : firstPtr ∈ (firstHolding m).live := show firstPtr ∈ gain ∅ firstPtr by decide
  have shrunk : krealloc (firstHolding m).heap firstPtr 16 = .ok (firstPtr,
      { (firstHolding m).heap with mem := splitBlock (firstHolding m).heap.mem (firstPtr - headerSize) 16 }) :=
    (krealloc_known held member (by decide)).trans (if_pos (show payloadSize (firstHolding m).heap firstPtr ≥ 16 by omega))
  have step : HeapStep (firstHolding m) (.realloc firstPtr 16) _ :=
    ⟨Or.inr member, _, _, shrunk, rfl⟩
  obtain ⟨blocks, tiled', merged, _⟩ := claim _ _ _ ((run.mono fun _ _ _ step => step.2.2).snoc step)
  have cut := splitBlock_tiled tiled (show 16 ≤ 1008 by decide) (by decide)
  rw [tiled'.unique cut] at merged
  have free := (List.isChain_cons_cons.mp (List.isChain_cons_cons.mp merged).2).1
  rcases free with used | used <;> cases used

end RexOs.Mm
