import Mathlib.Data.List.Pairwise
import RexOs.User.Malloc

/-! Histories of the allocator: a program that frees what it holds and writes only to its payloads.

As long as the sizes do not wrap around, all that it holds lies in the heap and apart from the
rest. A size that does wrap around gives a block that is too small, a header behind the heap or
a smaller heap.
-/

set_option autoImplicit false

namespace RexOs.User.Libc

open RexOs.Library RexOs.Arch

/-- A pointer that `malloc` has returned, and the size that was asked for. -/
structure Grant where
  ptr : Nat
  size : Nat
  deriving DecidableEq, Repr

structure Program where
  proc : Process
  live : List Grant

inductive Op where
  /-- There are frames for the pages below `reach`. -/
  | malloc (size : UInt64) (reach : Nat)
  | free (ptr : Nat)
  /-- The program writes a byte of a payload. -/
  | write (ptr offset : Nat) (byte : UInt8)

def Op.apply (p : Process) : Op → Except UserFault (Nat × Process)
  | .malloc size reach => p.malloc reach size.toNat
  | .free ptr => (p.free ptr).map fun p => (0, p)
  | .write ptr offset byte => .ok (0, { p with mem := Function.update p.mem (ptr + offset) byte })

def Op.liveAfter (live : List Grant) (answer : Nat) : Op → List Grant
  | .malloc size _ => if answer = 0 then live else ⟨answer, size.toNat⟩ :: live
  | .free ptr => live.filter fun g => g.ptr ≠ ptr
  | .write _ _ _ => live

def Op.Allowed (s : Program) : Op → Prop
  | .malloc _ _ => True
  | .free ptr => ptr = 0 ∨ ∃ g ∈ s.live, g.ptr = ptr
  | .write ptr offset _ => ∃ g ∈ s.live, g.ptr = ptr ∧ offset < g.size

def ProgramStep (s : Program) (op : Op) (s' : Program) : Prop :=
  op.Allowed s ∧ ∃ answer p', op.apply s.proc = .ok (answer, p') ∧ s' = ⟨p', op.liveAfter s.live answer⟩

def Op.Fits (s : Program) : Op → Prop
  | .malloc size reach => Libc.Fits s.proc reach size.toNat
  | .free _ | .write _ _ _ => True

def FittingStep (s : Program) (op : Op) (s' : Program) : Prop := op.Fits s ∧ ProgramStep s op s'

def Grant.Apart (g g' : Grant) : Prop := g.ptr + g.size + headerSize ≤ g'.ptr ∨ g'.ptr + g'.size + headerSize ≤ g.ptr

structure Contract (s : Program) : Prop where
  inside : ∀ g ∈ s.live, s.proc.brkStart + headerSize ≤ g.ptr ∧ g.ptr + g.size ≤ s.proc.brkCurrent
  apart : s.live.Pairwise Grant.Apart

/-- The heap of a program that has just been started; the image ends at a page boundary. -/
def programStart (mem : Mem) (image : Nat) : Program := ⟨⟨mem, 0, image, image, image⟩, []⟩

structure Held (blocks : List Block) (live : List Grant) : Prop where
  each : ∀ g ∈ live, ∃ x ∈ blocks, x.used = true ∧ g.ptr = x.payload ∧ g.size ≤ x.size
  once : (live.map Grant.ptr).Nodup

section
variable {p : Process} {blocks : List Block} {live : List Grant}

theorem Laid.apart_of_mem (laid : Laid p blocks) {x y : Block} (left : x ∈ blocks) (right : y ∈ blocks) :
    x = y ∨ x.stop ≤ y.addr ∨ y.stop ≤ x.addr := by
  by_cases same : x = y
  · exact Or.inl same
  · have either : blocks.Pairwise fun x y => x.stop ≤ y.addr ∨ y.stop ≤ x.addr := laid.ordered.imp Or.inl
    have symm : Std.Symm fun x y : Block => x.stop ≤ y.addr ∨ y.stop ≤ x.addr := ⟨fun _ _ => Or.symm⟩
    exact Or.inr (either.forall left right same)

theorem Laid.payload_inj (laid : Laid p blocks) {x y : Block} (left : x ∈ blocks) (right : y ∈ blocks)
    (same : x.payload = y.payload) : x = y := by
  unfold Block.payload at same
  rcases laid.apart_of_mem left right with one | apart | apart
  · exact one
  · unfold Block.stop headerSize at *
    omega
  · unfold Block.stop headerSize at *
    omega

theorem Held.contract (held : Held blocks live) (laid : Laid p blocks) : Contract ⟨p, live⟩ := by
  constructor
  case inside =>
    intro g member
    obtain ⟨x, inside, -, place, fits⟩ := held.each g member
    have low := laid.low x inside
    have high := laid.high x inside
    unfold Block.payload at place
    unfold Block.stop at high
    show p.brkStart + headerSize ≤ g.ptr ∧ g.ptr + g.size ≤ p.brkCurrent
    omega
  case apart =>
    have distinct : live.Pairwise fun g g' => g.ptr ≠ g'.ptr := List.pairwise_map.mp held.once
    refine distinct.imp_of_mem fun left right differ => ?_
    obtain ⟨x, inside, -, place, fits⟩ := held.each _ left
    obtain ⟨y, inside', -, place', fits'⟩ := held.each _ right
    unfold Grant.Apart
    unfold Block.payload at place place'
    rcases laid.apart_of_mem inside inside' with one | apart | apart
    · subst one
      exact absurd (place.trans place'.symm) differ
    · unfold Block.stop at apart
      omega
    · unfold Block.stop at apart
      omega

theorem Held.unheld (held : Held blocks live) (laid : Laid p blocks) {x : Block} (member : x ∈ blocks) (free : x.used = false) :
    ∀ g ∈ live, g.ptr ≠ x.payload := by
  intro g holds same
  obtain ⟨y, inside, used, place, -⟩ := held.each g holds
  have one := laid.payload_inj inside member (place.symm.trans same)
  rw [one, free] at used
  cases used

theorem mem_mark {front back : List Block} {x y x' : Block} (member : y ∈ front ++ x :: back) (other : y ≠ x) :
    y ∈ front ++ x' :: back := by
  rw [List.mem_append, List.mem_cons] at member ⊢
  rcases member with before | same | behind
  · exact Or.inl before
  · exact absurd same other
  · exact Or.inr (Or.inr behind)

theorem Held.take (held : Held blocks live) (laid : Laid p blocks) {front back : List Block} {x : Block}
    (split_ : blocks = front ++ x :: back) (free : x.used = false) {size : Nat} (enough : size ≤ x.size) :
    Held (front ++ x.mark true :: back) (⟨x.payload, size⟩ :: live) := by
  have inside : x ∈ blocks := by
    rw [split_]
    exact List.mem_append_right _ (List.mem_cons_self ..)
  constructor
  case each =>
    rw [List.forall_mem_cons]
    refine ⟨⟨x.mark true, List.mem_append_right _ (List.mem_cons_self ..), rfl, rfl, enough⟩, fun g holds => ?_⟩
    obtain ⟨y, member, used, place, fits⟩ := held.each g holds
    have other : y ≠ x := by
      rintro rfl
      rw [free] at used
      cases used
    rw [split_] at member
    exact ⟨y, mem_mark member other, used, place, fits⟩
  case once =>
    rw [List.map_cons, List.nodup_cons]
    refine ⟨fun member => ?_, held.once⟩
    obtain ⟨g, holds, same⟩ := List.mem_map.mp member
    exact held.unheld laid inside free g holds same

theorem Held.add (held : Held blocks live) {x : Block} (behind : ∀ y ∈ blocks, y.stop ≤ x.addr) (used : x.used = true)
    {size : Nat} (enough : size ≤ x.size) : Held (blocks ++ [x]) (⟨x.payload, size⟩ :: live) := by
  constructor
  case each =>
    rw [List.forall_mem_cons]
    refine ⟨⟨x, List.mem_append_right _ (List.mem_cons_self ..), used, rfl, enough⟩, fun g holds => ?_⟩
    obtain ⟨y, member, used, place, fits⟩ := held.each g holds
    exact ⟨y, List.mem_append_left _ member, used, place, fits⟩
  case once =>
    rw [List.map_cons, List.nodup_cons]
    refine ⟨fun member => ?_, held.once⟩
    obtain ⟨g, holds, same⟩ := List.mem_map.mp member
    obtain ⟨y, member, -, place, -⟩ := held.each g holds
    have before := behind y member
    have same : g.ptr = x.payload := same
    unfold Block.payload at place same
    unfold Block.stop headerSize at *
    omega

theorem Held.drop (held : Held blocks live) {front back : List Block} {x : Block} (split_ : blocks = front ++ x :: back) :
    Held (front ++ x.mark false :: back) (live.filter fun g => g.ptr ≠ x.payload) := by
  constructor
  case each =>
    intro g holds
    rw [List.mem_filter, decide_eq_true_eq] at holds
    obtain ⟨y, member, used, place, fits⟩ := held.each g holds.1
    have other : y ≠ x := by
      rintro rfl
      exact holds.2 place
    rw [split_] at member
    exact ⟨y, mem_mark member other, used, place, fits⟩
  case once => exact held.once.sublist (List.filter_sublist.map _)

theorem Laid.write (laid : Laid p blocks) {x : Block} (member : x ∈ blocks) {offset : Nat} (inside : offset < x.size) (byte : UInt8) :
    Laid { p with mem := Function.update p.mem (x.payload + offset) byte } blocks := by
  have headers : ∀ y ∈ blocks, AgreeOn (Function.update p.mem (x.payload + offset) byte) p.mem y.addr headerSize := by
    intro y member' a low high
    refine Function.update_of_ne ?_ _ _
    unfold Block.payload
    rcases laid.apart_of_mem member member' with rfl | apart | apart
    · omega
    · unfold Block.stop at apart
      omega
    · unfold Block.stop at apart
      omega
  exact { laid with linked := laid.linked.congr headers }

end

def Managed (s : Program) : Prop := ∃ blocks, Laid s.proc blocks ∧ Held blocks s.live

theorem Managed.contract {s : Program} (managed : Managed s) : Contract s := by
  obtain ⟨blocks, laid, held⟩ := managed
  exact held.contract laid

theorem programStart_laid {mem : Mem} {image : Nat} (some_ : 0 < image) (aligned : Mm.pageSize ∣ image) (cap : image ≤ heapCap) :
    Laid (programStart mem image).proc [] := by
  refine ⟨rfl, List.Pairwise.nil, ?_, ?_, some_, Nat.le_refl _, cap, aligned, Nat.le_refl _⟩
  all_goals
    intro x none_
    cases none_

theorem programStart_managed {mem : Mem} {image : Nat} (some_ : 0 < image) (aligned : Mm.pageSize ∣ image) (cap : image ≤ heapCap) :
    Managed (programStart mem image) := by
  refine ⟨[], programStart_laid some_ aligned cap, ?_, List.nodup_nil⟩
  intro g none_
  cases none_

theorem malloc_managed {s : Program} (managed : Managed s) {reach size : Nat} (fits : Fits s.proc reach size) :
    Safe (s.proc.malloc reach size) fun r => Managed ⟨r.2, if r.1 = 0 then s.live else ⟨r.1, size⟩ :: s.live⟩ := by
  obtain ⟨blocks, laid, held⟩ := managed
  have header : headerSize = 24 := rfl
  apply (malloc_served laid fits).mono
  rintro r served
  cases served with
  | null laid' start => exact ⟨blocks, laid', held⟩
  | @reused front back x p' split_ free enough laid' start =>
    have some_ : ¬ x.payload = 0 := by
      unfold Block.payload
      omega
    dsimp only
    rw [if_neg some_]
    exact ⟨_, laid', held.take laid split_ free enough⟩
  | @fresh size' p' enough laid' start =>
    have some_ : ¬ s.proc.brkCurrent + headerSize = 0 := by omega
    dsimp only
    rw [if_neg some_]
    exact ⟨_, laid', held.add laid.high rfl enough⟩

theorem free_managed {s : Program} (managed : Managed s) {ptr : Nat} (allowed : (Op.free ptr).Allowed s) :
    Safe (s.proc.free ptr) fun p' => Managed ⟨p', s.live.filter fun g => g.ptr ≠ ptr⟩ := by
  obtain ⟨blocks, laid, held⟩ := managed
  rw [Process.free]
  rcases allowed with rfl | ⟨g, holds, rfl⟩
  · -- no payload is at 0
    have all : s.live.filter (fun g => g.ptr ≠ 0) = s.live := by
      refine List.filter_eq_self.mpr fun g holds => ?_
      obtain ⟨x, -, -, place, -⟩ := held.each g holds
      rw [decide_eq_true_eq, place]
      exact Nat.ne_of_gt (Nat.add_pos_right _ (by decide))
    rw [if_pos rfl, all]
    exact Safe.ok ⟨blocks, laid, held⟩
  · obtain ⟨x, member, -, place, -⟩ := held.each g holds
    obtain ⟨front, back, split_⟩ := List.append_of_mem member
    have present := laid.present x member
    unfold Block.payload headerSize at place
    unfold Block.stop headerSize at present
    have addr : g.ptr - headerSize = x.addr := by
      unfold headerSize
      omega
    have payload : g.ptr = x.payload := place
    apply Safe.neg (by omega)
    rw [addr, payload]
    apply Safe.neg (by unfold headerSize; omega)
    exact Safe.ok ⟨_, laid.setUsed split_ false, held.drop split_⟩

theorem fitting_managed {s : Program} (managed : Managed s) (op : Op) (allowed : op.Allowed s) (fits : op.Fits s) :
    Safe (op.apply s.proc) fun r => Managed ⟨r.2, op.liveAfter s.live r.1⟩ := by
  cases op with
  | malloc size reach => exact malloc_managed managed fits
  | free ptr =>
    obtain ⟨p', returned, kept⟩ := free_managed managed allowed
    rw [Op.apply, returned]
    exact Safe.ok kept
  | write ptr offset byte =>
    obtain ⟨blocks, laid, held⟩ := managed
    obtain ⟨g, holds, rfl, inside⟩ := allowed
    obtain ⟨x, member, -, place, enough⟩ := held.each g holds
    refine Safe.ok ⟨blocks, ?_, held⟩
    dsimp only
    rw [place]
    exact laid.write member (by omega) byte

theorem Laid.small_fits {p : Process} {blocks : List Block} (laid : Laid p blocks) {reach size : Nat} (small : size ≤ heapCap) :
    Fits p reach size := by
  have start := laid.start
  have cap := laid.cap
  simp only [heapCap] at small cap
  have header : headerSize = 24 := rfl
  have room : total size = headerSize + alignSize size := total_eq (by omega)
  have rounded : alignSize size ≤ size + 7 := by
    unfold alignSize
    omega
  refine Or.inl ⟨by omega, ?_⟩
  rintro ⟨-, low, less⟩
  rw [Nat.mod_eq_of_lt (by omega)] at low less
  rcases le_pageUp (n := p.brkCurrent + total size) (by omega) with above | zero
  · omega
  · omega

theorem link_break {p p' : Process} {b : Nat} (linked : p.link b = .ok p') : p'.brkCurrent = p.brkCurrent := by
  rw [Process.link] at linked
  split at linked
  · cases linked
    rfl
  · obtain ⟨tail, -, rest⟩ := bind_returns linked
    cases rest
    rfl

theorem fits_of_contract {s : Program} (managed : Managed s) {reach size : Nat} {answer : Nat} {p' : Process}
    (returned : s.proc.malloc reach size = .ok (answer, p'))
    (contract : Contract ⟨p', if answer = 0 then s.live else ⟨answer, size⟩ :: s.live⟩) : Fits s.proc reach size := by
  obtain ⟨blocks, laid, -⟩ := managed
  have cap := laid.cap
  have header : headerSize = 24 := rfl
  by_cases zero : size = 0
  · exact laid.small_fits (by rw [zero]; exact Nat.zero_le _)
  -- what is returned lies below the break
  have below : answer ≠ 0 → answer + size ≤ p'.brkCurrent := by
    intro some_
    have inside := contract.inside
    rw [if_neg some_] at inside
    exact (inside _ (List.mem_cons_self ..)).2
  cases found : blocks.find? (Block.fits (alignSize size)) with
  | some x =>
    rw [malloc_reuses laid reach zero found] at returned
    cases returned
    have inside := below (by unfold Block.payload; omega)
    have inside : x.payload + size ≤ s.proc.brkCurrent := inside
    exact laid.small_fits (by omega)
  | none =>
    have search : findFree s.proc (alignSize size) s.proc.walk s.proc.heapHead = .ok 0 := by
      rw [laid.search, found]
      rfl
    -- a new block lies behind the old break
    have fresh : ∀ q : Process, s.proc.sbrk reach (total size) = (s.proc.brkCurrent, q) →
        s.proc.brkCurrent + headerSize + size ≤ q.brkCurrent := by
      intro q called
      simp only [heapCap] at cap
      rw [malloc_new laid zero found called, if_neg (by omega)] at returned
      split at returned
      · cases returned
      · obtain ⟨p'', linked, rest⟩ := bind_returns returned
        rw [Nat.mod_eq_of_lt (by omega)] at rest
        cases rest
        have inside := below (by omega)
        have same := link_break linked
        have same : p'.brkCurrent = q.brkCurrent := same
        omega
    by_cases nothing : total size = 0
    · have inside := fresh s.proc (by rw [Process.sbrk, if_pos nothing])
      omega
    rcases sbrk_cases s.proc reach nothing with ⟨pages, more, called⟩ | ⟨newBrk, -, -, -, high, -, called⟩
    · exact Or.inr ⟨search, by rw [called]⟩
    · have inside := fresh _ called
      dsimp only at inside
      exact laid.small_fits (by omega)

/-- As long as every size fits, what a program holds lies in its heap, and payloads and headers do not overlap. The next
allocation keeps this if and only if its size fits. -/
theorem malloc_contract {mem : Mem} {image : Nat} (some_ : 0 < image) (aligned : Mm.pageSize ∣ image) (cap : image ≤ heapCap)
    {ops : List Op} {s : Program} (run : Run FittingStep (programStart mem image) ops s) :
    Contract s ∧ ∀ (size : UInt64) (reach : Nat),
      (∃ s', ProgramStep s (.malloc size reach) s' ∧ Contract s') ↔ Fits s.proc reach size.toNat := by
  have managed : Managed s := by
    apply run.invariant Managed (programStart_managed some_ aligned cap)
    rintro s op s' managed ⟨fits, allowed, answer, p', returned, rfl⟩
    obtain ⟨r, returned', kept⟩ := fitting_managed managed op allowed fits
    rw [returned] at returned'
    cases returned'
    exact kept
  refine ⟨managed.contract, fun size reach => ⟨?_, fun fits => ?_⟩⟩
  · rintro ⟨s', ⟨-, answer, p', returned, rfl⟩, contract⟩
    exact fits_of_contract managed returned contract
  · obtain ⟨⟨answer, p'⟩, returned, kept⟩ := fitting_managed managed (.malloc size reach) trivial fits
    exact ⟨_, ⟨trivial, answer, p', returned, rfl⟩, kept.contract⟩

def firstBlock (mem : Mem) (size : Nat) : Process := ⟨newHeader mem 0x400000 (alignSize size), 0x400000, 0x400000, 0x401000, 0x401000⟩

theorem malloc_first (mem : Mem) {size : Nat} (some_ : size ≠ 0) (small : total size ≤ Mm.pageSize) (enough : total size ≠ 0) :
    (programStart mem 0x400000).proc.malloc heapCap size = .ok (0x400018, firstBlock mem size) := by
  have laid : Laid (programStart mem 0x400000).proc [] := programStart_laid (by decide) (by decide) (by decide)
  simp only [Mm.pageSize] at small
  have place : (0x400000 + total size) % 2 ^ 64 = 0x400000 + total size := Nat.mod_eq_of_lt (by omega)
  have page : pageUp (0x400000 + total size) = 0x401000 := by
    rw [pageUp_eq]
    simp only [Mm.pageSize]
    omega
  have called : (programStart mem 0x400000).proc.sbrk heapCap (total size) =
      (0x400000, ⟨mem, 0, 0x400000, 0x401000, 0x401000⟩) := by
    have moved : (programStart mem 0x400000).proc.sysBrk heapCap (0x400000 + total size) =
        (0x401000, ⟨mem, 0, 0x400000, 0x401000, 0x401000⟩) := by
      rw [Process.sysBrk, if_neg (by omega), page]
      simp [programStart, heapCap]
    have broken : (programStart mem 0x400000).proc.brkCurrent = 0x400000 := rfl
    rw [Process.sbrk, if_neg enough, broken, place, moved]
    rfl
  rw [malloc_new laid some_ rfl called]
  rfl

/-- A block of ten bytes and a write to its last byte. -/
theorem malloc_contract_ten : ∃ s, Run FittingStep (programStart (fun _ => 0) 0x400000)
    [.malloc 10 heapCap, .write 0x400018 9 7] s ∧ s.live = [⟨0x400018, 10⟩] ∧ Contract s ∧
      ∀ (size : UInt64) (reach : Nat),
        (∃ s', ProgramStep s (.malloc size reach) s' ∧ Contract s') ↔ Fits s.proc reach size.toNat := by
  have fits : Op.Fits (programStart (fun _ => 0) 0x400000) (.malloc 10 heapCap) := Or.inl (by decide)
  have first : FittingStep (programStart (fun _ => 0) 0x400000) (.malloc 10 heapCap) ⟨firstBlock (fun _ => 0) 10, [⟨0x400018, 10⟩]⟩ :=
    ⟨fits, trivial, _, _, malloc_first _ (by decide) (by decide) (by decide), rfl⟩
  have second : FittingStep ⟨firstBlock (fun _ => 0) 10, [⟨0x400018, 10⟩]⟩ (.write 0x400018 9 7)
      ⟨{ firstBlock (fun _ => 0) 10 with mem := Function.update (firstBlock (fun _ => 0) 10).mem (0x400018 + 9) 7 }, [⟨0x400018, 10⟩]⟩ :=
    ⟨trivial, ⟨_, List.mem_singleton_self _, rfl, by decide⟩, _, _, rfl, rfl⟩
  have run := (Run.nil.snoc first).snoc second
  exact ⟨_, run, rfl, malloc_contract (by decide) (by decide) (by decide) run⟩

/-- The size wraps around to a block of no bytes at all: the pointer is not `NULL`. -/
theorem malloc_wraps : ∃ s, Run ProgramStep (programStart (fun _ => 0) 0x400000) [.malloc 0xFFFFFFFFFFFFFFFF heapCap] s ∧
    s.live = [⟨0x400018, 0xFFFFFFFFFFFFFFFF⟩] ∧ ¬ Contract s := by
  have step : ProgramStep (programStart (fun _ => 0) 0x400000) (.malloc 0xFFFFFFFFFFFFFFFF heapCap)
      ⟨firstBlock (fun _ => 0) 0xFFFFFFFFFFFFFFFF, [⟨0x400018, 0xFFFFFFFFFFFFFFFF⟩]⟩ :=
    ⟨trivial, _, _, malloc_first _ (by decide) (by decide) (by decide), rfl⟩
  refine ⟨_, Run.nil.snoc step, rfl, fun contract => ?_⟩
  have inside := (contract.inside _ (List.mem_singleton_self _)).2
  exact absurd inside (by decide)

end RexOs.User.Libc
