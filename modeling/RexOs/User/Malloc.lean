import RexOs.Arch.Brk
import RexOs.Library.Safe

/-! The allocator of user programs: `sbrk`, `malloc` and `free` of `user/libc.c`.

A block is a header of 24 bytes and its payload; the headers are a list from `heap_head` on.
Sizes are 64 bits wide and wrap around. An access to a header behind the mapped pages is the
fault `pageFault`, which ends the program.
-/

set_option autoImplicit false

namespace RexOs.User.Libc

open RexOs.Library RexOs.Arch

/-- The fields of a `block_header_t`: size at +0, used at +8, next at +16. -/
structure Header where
  size : Nat
  used : Nat
  next : Nat
  deriving DecidableEq, Repr

def headerSize : Nat := 24

def headerAt (m : Mem) (b : Nat) : Header := ⟨load m b 8, load m (b + 8) 8, load m (b + 16) 8⟩

def setSize (m : Mem) (b v : Nat) : Mem := store m b 8 v
def setUsed (m : Mem) (b v : Nat) : Mem := store m (b + 8) 8 v
def setNext (m : Mem) (b v : Nat) : Mem := store m (b + 16) 8 v

/-- A process: the pages below `mapped` are there. -/
structure Process where
  mem : Mem
  heapHead : Nat
  brkStart : Nat
  brkCurrent : Nat
  mapped : Nat

inductive UserFault where
  | pageFault
  | hang
  deriving DecidableEq, Repr

/-- The system call, when there are frames for the pages below `reach`. Pages stay mapped when the heap shrinks
and when the call fails. -/
def Process.sysBrk (p : Process) (reach arg1 : Nat) : Nat × Process :=
  if arg1 = 0 then (p.brkCurrent, p)
  else
    let newBrk := pageUp arg1
    if newBrk < p.brkStart then (p.brkCurrent, p)
    else if newBrk > heapCap then (p.brkCurrent, p)
    else if newBrk ≤ pageUp p.brkCurrent ∨ newBrk ≤ reach then (newBrk, { p with brkCurrent := newBrk, mapped := max p.mapped newBrk })
    else (p.brkCurrent, { p with mapped := max p.mapped reach })

def Process.sbrk (p : Process) (reach increment : Nat) : Nat × Process :=
  let oldBrk := p.brkCurrent
  if increment = 0 then (oldBrk, p)
  else
    let (newBrk, p) := p.sysBrk reach ((oldBrk + increment) % 2 ^ 64)
    if newBrk = oldBrk then (2 ^ 64 - 1, p) else (oldBrk, p)

/-- A walk that is not cut short visits at most this many blocks. -/
def Process.walk (p : Process) : Nat := p.mapped / headerSize + 1

def findFree (p : Process) (size : Nat) : Nat → Nat → Except UserFault Nat
  | 0, _ => .error .hang
  | fuel + 1, b =>
      if b = 0 then .ok 0
      else if b + headerSize > p.mapped then .error .pageFault
      else if (headerAt p.mem b).used = 0 ∧ (headerAt p.mem b).size ≥ size then .ok b
      else findFree p size fuel (headerAt p.mem b).next

/-- `while (tail->next) tail = tail->next`. -/
def findTail (p : Process) : Nat → Nat → Except UserFault Nat
  | 0, _ => .error .hang
  | fuel + 1, tail =>
      if tail + headerSize > p.mapped then .error .pageFault
      else if (headerAt p.mem tail).next = 0 then .ok tail
      else findTail p fuel (headerAt p.mem tail).next

/-- `(size + 7) & ~7ULL`. -/
def alignSize (size : Nat) : Nat := (size + 7) % 2 ^ 64 / 8 * 8

def total (size : Nat) : Nat := (headerSize + alignSize size) % 2 ^ 64

def Process.link (p : Process) (newBlock : Nat) : Except UserFault Process :=
  if p.heapHead = 0 then .ok { p with heapHead := newBlock }
  else do
    let tail ← findTail p p.walk p.heapHead
    .ok { p with mem := setNext p.mem tail newBlock }

def Process.malloc (p : Process) (reach size : Nat) : Except UserFault (Nat × Process) :=
  if size = 0 then .ok (0, p)
  else do
    let b ← findFree p (alignSize size) p.walk p.heapHead
    if b ≠ 0 then .ok ((b + headerSize) % 2 ^ 64, { p with mem := setUsed p.mem b 1 })
    else
      let (newBlock, p) := p.sbrk reach (total size)
      if newBlock = 2 ^ 64 - 1 then .ok (0, p)
      else if newBlock + headerSize > p.mapped then .error .pageFault
      else do
        let mem := setNext (setUsed (setSize p.mem newBlock (alignSize size)) newBlock 1) newBlock 0
        let p ← { p with mem := mem }.link newBlock
        .ok ((newBlock + headerSize) % 2 ^ 64, p)

def Process.free (p : Process) (ptr : Nat) : Except UserFault Process :=
  if ptr = 0 then .ok p
  else
    let b := ptr - headerSize
    if b + headerSize > p.mapped then .error .pageFault else .ok { p with mem := setUsed p.mem b 0 }

theorem sysBrk_kernel {fails : Nat → Bool} {s s' : Mm.Machine} {t t' : Task} {arg1 value : Nat}
    (called : Arch.sysBrk fails s t arg1 = .ok (value, t', s')) {p : Process} (start : p.brkStart = t.brkStart)
    (current : p.brkCurrent = t.brkCurrent) :
    ∃ reach, (p.sysBrk reach arg1).1 = value ∧ (p.sysBrk reach arg1).2.brkCurrent = t'.brkCurrent := by
  unfold Arch.sysBrk at called
  unfold Process.sysBrk
  rw [start, current]
  split at called
  · rename_i zero
    cases called
    exact ⟨0, by rw [if_pos zero], by rw [if_pos zero]; exact current⟩
  rename_i some_
  simp only [if_neg some_]
  dsimp only at called
  split at called
  · rename_i low
    cases called
    exact ⟨0, by rw [if_pos low], by rw [if_pos low]; exact current⟩
  rename_i low
  simp only [if_neg low]
  split at called
  · rename_i high
    cases called
    exact ⟨0, by rw [if_pos high], by rw [if_pos high]; exact current⟩
  rename_i high
  simp only [if_neg high]
  split at called
  · cases called
  · rename_i grown
    cases called
    -- without new pages the loop does not run
    have more : ¬ pageUp arg1 ≤ pageUp t.brkCurrent := by
      intro less
      have none_ : newPages t (pageUp arg1) = 0 := by
        rw [newPages]
        omega
      rw [none_] at grown
      cases grown
    have fails : ¬ (pageUp arg1 ≤ pageUp t.brkCurrent ∨ pageUp arg1 ≤ 0) := by omega
    exact ⟨0, by rw [if_neg fails], by rw [if_neg fails]⟩
  · cases called
    have grows : pageUp arg1 ≤ pageUp t.brkCurrent ∨ pageUp arg1 ≤ pageUp arg1 := Or.inr (Nat.le_refl _)
    exact ⟨pageUp arg1, by rw [if_pos grows], by rw [if_pos grows]⟩

/-! `Laid p blocks` says that the list from `heap_head` on has these blocks, one behind the other
between the start of the heap and the break. Searching, growing and freeing are described on
the list.
-/

section
variable {m m' : Mem} {a b v x k : Nat}

theorem headerAt_congr (agree : AgreeOn m m' b headerSize) : headerAt m b = headerAt m' b := by
  unfold headerSize at agree
  simp only [headerAt]
  rw [load_congr (n := 8) fun y low high => agree y (by omega) (by omega),
    load_congr (a := b + 8) (n := 8) fun y low high => agree y (by omega) (by omega),
    load_congr (a := b + 16) (n := 8) fun y low high => agree y (by omega) (by omega)]

theorem setSize_agree (apart : x + k ≤ b ∨ b + headerSize ≤ x) : AgreeOn (setSize m b v) m x k :=
  store_agree (by unfold headerSize at apart; omega)

theorem setUsed_agree (apart : x + k ≤ b ∨ b + headerSize ≤ x) : AgreeOn (setUsed m b v) m x k :=
  store_agree (by unfold headerSize at apart; omega)

theorem setNext_agree (apart : x + k ≤ b ∨ b + headerSize ≤ x) : AgreeOn (setNext m b v) m x k :=
  store_agree (by unfold headerSize at apart; omega)

theorem headerAt_setSize (fits : v < 2 ^ 64) : headerAt (setSize m b v) b = { headerAt m b with size := v } := by
  simp only [headerAt, setSize, Header.mk.injEq]
  exact ⟨load_store (by omega), load_store_apart (by omega), load_store_apart (by omega)⟩

theorem headerAt_setUsed (fits : v < 2 ^ 64) : headerAt (setUsed m b v) b = { headerAt m b with used := v } := by
  simp only [headerAt, setUsed, Header.mk.injEq]
  exact ⟨load_store_apart (by omega), load_store (by omega), load_store_apart (by omega)⟩

theorem headerAt_setNext (fits : v < 2 ^ 64) : headerAt (setNext m b v) b = { headerAt m b with next := v } := by
  simp only [headerAt, setNext, Header.mk.injEq]
  exact ⟨load_store_apart (by omega), load_store_apart (by omega), load_store (by omega)⟩

end

structure Block where
  addr : Nat
  size : Nat
  used : Bool
  deriving DecidableEq, Repr

def Block.payload (x : Block) : Nat := x.addr + headerSize

def Block.stop (x : Block) : Nat := x.addr + headerSize + x.size

def Block.header (x : Block) (next : Nat) : Header := ⟨x.size, if x.used then 1 else 0, next⟩

/-- The headers of the blocks are linked, from the pointer `b` to the pointer `c`. -/
def Seg (m : Mem) : Nat → List Block → Nat → Prop
  | b, [], c => b = c
  | b, x :: rest, c => b = x.addr ∧ ∃ next, headerAt m b = x.header next ∧ Seg m next rest c

section
variable {m m' : Mem} {b c : Nat} {xs ys : List Block}

theorem seg_append : Seg m b (xs ++ ys) c ↔ ∃ d, Seg m b xs d ∧ Seg m d ys c := by
  induction xs generalizing b with
  | nil =>
    constructor
    · intro seg
      exact ⟨b, rfl, seg⟩
    · rintro ⟨d, rfl, seg⟩
      exact seg
  | cons x rest ih =>
    constructor
    · rintro ⟨place, next, header, seg⟩
      obtain ⟨d, front, back⟩ := ih.mp seg
      exact ⟨d, ⟨place, next, header, front⟩, back⟩
    · rintro ⟨d, ⟨place, next, header, front⟩, back⟩
      exact ⟨place, next, header, ih.mpr ⟨d, front, back⟩⟩

theorem Seg.congr (seg : Seg m b xs c) (agree : ∀ x ∈ xs, AgreeOn m' m x.addr headerSize) : Seg m' b xs c := by
  induction xs generalizing b with
  | nil => exact seg
  | cons x rest ih =>
    obtain ⟨rfl, next, header, seg⟩ := seg
    refine ⟨rfl, next, ?_, ih seg fun y member => agree y (List.mem_cons_of_mem x member)⟩
    rw [headerAt_congr (agree x (List.mem_cons_self ..)), header]

end

structure Laid (p : Process) (blocks : List Block) : Prop where
  linked : Seg p.mem p.heapHead blocks 0
  ordered : blocks.Pairwise fun x y => x.stop ≤ y.addr
  low : ∀ x ∈ blocks, p.brkStart ≤ x.addr
  high : ∀ x ∈ blocks, x.stop ≤ p.brkCurrent
  start : 0 < p.brkStart
  above : p.brkStart ≤ p.brkCurrent
  cap : p.brkCurrent ≤ heapCap
  aligned : Mm.pageSize ∣ p.brkCurrent
  mapped : p.brkCurrent ≤ p.mapped

section
variable {p : Process} {blocks xs : List Block}

theorem ordered_length (lo : Nat) {hi : Nat} (ordered : xs.Pairwise fun x y => x.stop ≤ y.addr) (low : ∀ x ∈ xs, lo ≤ x.addr)
    (high : ∀ x ∈ xs, x.stop ≤ hi) (fits : lo ≤ hi) : lo + headerSize * xs.length ≤ hi := by
  induction xs generalizing lo with
  | nil => exact fits
  | cons x rest ih =>
    rw [List.pairwise_cons] at ordered
    have here := low x (List.mem_cons_self ..)
    have there := high x (List.mem_cons_self ..)
    unfold Block.stop at *
    have later := ih (x.addr + headerSize) ordered.2
      (fun y member => by have := ordered.1 y member; omega)
      (fun y member => high y (List.mem_cons_of_mem x member)) (by omega)
    rw [List.length_cons, Nat.mul_succ]
    omega

theorem Laid.walk (laid : Laid p blocks) : blocks.length < p.walk := by
  have length := ordered_length p.brkStart laid.ordered laid.low laid.high laid.above
  have start := laid.start
  have mapped := laid.mapped
  rw [Process.walk]
  simp only [headerSize] at *
  omega

def Block.fits (size : Nat) (x : Block) : Bool := !x.used && decide (size ≤ x.size)

theorem findFree_eq (size : Nat) {fuel b : Nat} (seg : Seg p.mem b xs 0) (some_ : ∀ x ∈ xs, 0 < x.addr)
    (mapped : ∀ x ∈ xs, x.stop ≤ p.mapped) (enough : xs.length < fuel) :
    findFree p size fuel b = .ok ((xs.find? (Block.fits size)).elim 0 Block.addr) := by
  induction xs generalizing b fuel with
  | nil =>
    cases fuel with
    | zero => exact absurd enough (Nat.not_lt_zero _)
    | succ fuel =>
      have none_ : b = 0 := seg
      rw [findFree, if_pos none_]
      rfl
  | cons x rest ih =>
    cases fuel with
    | zero => exact absurd enough (Nat.not_lt_zero _)
    | succ fuel =>
      obtain ⟨rfl, next, header, seg⟩ := seg
      have here := some_ x (List.mem_cons_self ..)
      have there := mapped x (List.mem_cons_self ..)
      have present : ¬ x.addr + headerSize > p.mapped := by
        unfold Block.stop at there
        omega
      have rest_ := ih seg (fun y member => some_ y (List.mem_cons_of_mem x member))
        (fun y member => mapped y (List.mem_cons_of_mem x member)) (Nat.lt_of_succ_lt_succ enough)
      rw [findFree, if_neg (by omega), if_neg present, header]
      by_cases fits : Block.fits size x = true
      · have free : (x.header next).used = 0 ∧ (x.header next).size ≥ size := by
          simpa [Block.fits, Block.header] using fits
        rw [if_pos free, List.find?_cons_of_pos fits]
        rfl
      · have taken : ¬ ((x.header next).used = 0 ∧ (x.header next).size ≥ size) := by
          simpa [Block.fits, Block.header] using fits
        rw [if_neg taken, List.find?_cons_of_neg fits]
        exact rest_

theorem findTail_eq {last : Block} {fuel b : Nat} (seg : Seg p.mem b (xs ++ [last]) 0)
    (some_ : ∀ x ∈ xs ++ [last], 0 < x.addr) (mapped : ∀ x ∈ xs ++ [last], x.stop ≤ p.mapped)
    (enough : (xs ++ [last]).length ≤ fuel) : findTail p fuel b = .ok last.addr := by
  induction xs generalizing b fuel with
  | nil =>
    cases fuel with
    | zero => exact absurd enough (Nat.not_succ_le_zero 0)
    | succ fuel =>
      obtain ⟨rfl, next, header, seg⟩ := seg
      have there := mapped last (List.mem_cons_self ..)
      have present : ¬ last.addr + headerSize > p.mapped := by
        unfold Block.stop at there
        omega
      have end_ : (last.header next).next = 0 := seg
      rw [findTail, if_neg present, header, if_pos end_]
  | cons x rest ih =>
    cases fuel with
    | zero => exact absurd enough (Nat.not_succ_le_zero _)
    | succ fuel =>
      obtain ⟨rfl, next, header, seg⟩ := seg
      have there := mapped x (List.mem_cons_self ..)
      have present : ¬ x.addr + headerSize > p.mapped := by
        unfold Block.stop at there
        omega
      have more : ¬ (x.header next).next = 0 := by
        -- the pointer leads to the next block
        have positive : ∀ y ∈ rest ++ [last], 0 < y.addr := fun y member => some_ y (List.mem_cons_of_mem x member)
        cases rest with
        | nil =>
          have place : next = last.addr := seg.1
          have positive := positive last (List.mem_cons_self ..)
          show ¬ next = 0
          omega
        | cons y rest =>
          have place : next = y.addr := seg.1
          have positive := positive y (List.mem_cons_self ..)
          show ¬ next = 0
          omega
      rw [findTail, if_neg present, header, if_neg more]
      exact ih seg (fun y member => some_ y (List.mem_cons_of_mem x member))
        (fun y member => mapped y (List.mem_cons_of_mem x member)) (Nat.le_of_succ_le_succ enough)

theorem Laid.positive (laid : Laid p blocks) : ∀ x ∈ blocks, 0 < x.addr := fun x member =>
  Nat.lt_of_lt_of_le laid.start (laid.low x member)

theorem Laid.present (laid : Laid p blocks) : ∀ x ∈ blocks, x.stop ≤ p.mapped := fun x member =>
  Nat.le_trans (laid.high x member) laid.mapped

theorem Laid.head_ne (laid : Laid p blocks) (some_ : blocks ≠ []) : p.heapHead ≠ 0 := by
  cases blocks with
  | nil => exact absurd rfl some_
  | cons x rest =>
    rw [laid.linked.1]
    exact Nat.ne_of_gt (laid.positive x (List.mem_cons_self ..))

def Block.mark (x : Block) (used : Bool) : Block := { x with used := used }

theorem Laid.apart (laid : Laid p blocks) {front back : List Block} {x : Block} (split_ : blocks = front ++ x :: back) :
    (∀ y ∈ front, y.stop ≤ x.addr) ∧ ∀ y ∈ back, x.stop ≤ y.addr := by
  have ordered := laid.ordered
  rw [split_, List.pairwise_append, List.pairwise_cons] at ordered
  exact ⟨fun y member => ordered.2.2 y member x (List.mem_cons_self ..), ordered.2.1.1⟩

theorem mark_forall {front back : List Block} {x : Block} {used : Bool} {P : Block → Prop} (all : ∀ y ∈ front ++ x :: back, P y)
    (marked : P x → P (x.mark used)) : ∀ y ∈ front ++ x.mark used :: back, P y := by
  rw [List.forall_mem_append, List.forall_mem_cons] at all ⊢
  exact ⟨all.1, marked all.2.1, all.2.2⟩

theorem Laid.setUsed (laid : Laid p blocks) {front back : List Block} {x : Block} (split_ : blocks = front ++ x :: back) (used : Bool) :
    Laid { p with mem := setUsed p.mem x.addr (if used then 1 else 0) } (front ++ x.mark used :: back) := by
  obtain ⟨before, behind⟩ := laid.apart split_
  have linked := laid.linked
  have ordered := laid.ordered
  have low := laid.low
  have high := laid.high
  subst split_
  rw [seg_append] at linked
  obtain ⟨d, first, rfl, next, header, last⟩ := linked
  have small : (if used then 1 else 0) < 2 ^ 64 := by split <;> decide
  refine { laid with
    linked := seg_append.mpr ⟨x.addr, first.congr fun y member => setUsed_agree (Or.inl ?_), rfl, next, ?_, ?_⟩
    ordered := ?_
    low := mark_forall low fun here => here
    high := mark_forall high fun here => here }
  · have apart := before y member
    unfold Block.stop at apart
    omega
  · rw [Block.mark, headerAt_setUsed small, header]
    rfl
  · refine last.congr fun y member => setUsed_agree (Or.inr ?_)
    have apart := behind y member
    unfold Block.stop at apart
    omega
  · rw [List.pairwise_append, List.pairwise_cons] at ordered ⊢
    refine ⟨ordered.1, ordered.2.1, fun y member => ?_⟩
    have later := ordered.2.2 y member
    rw [List.forall_mem_cons] at later ⊢
    exact later

theorem pageUp_le {n m : Nat} (aligned : Mm.pageSize ∣ m) (cap : m ≤ heapCap) (le : n ≤ m) : pageUp n ≤ m := by
  obtain ⟨k, rfl⟩ := aligned
  rw [pageUp_eq]
  simp only [Mm.pageSize, heapCap] at *
  omega

theorem le_pageUp {n : Nat} (small : n < 2 ^ 64) : n ≤ pageUp n ∨ pageUp n = 0 := by
  rw [pageUp_eq]
  simp only [Mm.pageSize]
  omega

def Shrinks (p : Process) (increment : Nat) : Prop :=
  (p.brkCurrent + increment) % 2 ^ 64 ≠ 0 ∧ p.brkStart ≤ pageUp ((p.brkCurrent + increment) % 2 ^ 64) ∧
    pageUp ((p.brkCurrent + increment) % 2 ^ 64) < p.brkCurrent

instance (p : Process) (increment : Nat) : Decidable (Shrinks p increment) := by
  unfold Shrinks
  infer_instance

theorem Laid.remap (laid : Laid p blocks) {pages : Nat} (more : p.mapped ≤ pages) : Laid { p with mapped := pages } blocks :=
  { laid with mapped := Nat.le_trans laid.mapped more }

theorem sbrk_cases (p : Process) (reach : Nat) {increment : Nat} (some_ : increment ≠ 0) :
    (∃ pages, p.mapped ≤ pages ∧ p.sbrk reach increment = (2 ^ 64 - 1, { p with mapped := pages })) ∨
      ∃ newBrk, newBrk = pageUp ((p.brkCurrent + increment) % 2 ^ 64) ∧ (p.brkCurrent + increment) % 2 ^ 64 ≠ 0 ∧
        p.brkStart ≤ newBrk ∧ newBrk ≤ heapCap ∧ newBrk ≠ p.brkCurrent ∧
        p.sbrk reach increment = (p.brkCurrent, { p with brkCurrent := newBrk, mapped := max p.mapped newBrk }) := by
  unfold Process.sbrk Process.sysBrk
  rw [if_neg some_]
  generalize (p.brkCurrent + increment) % 2 ^ 64 = arg1
  by_cases zero : arg1 = 0
  · exact Or.inl ⟨p.mapped, Nat.le_refl _, by simp only [if_pos zero, if_true]⟩
  by_cases low : pageUp arg1 < p.brkStart
  · exact Or.inl ⟨p.mapped, Nat.le_refl _, by simp only [if_neg zero, if_pos low, if_true]⟩
  by_cases high : pageUp arg1 > heapCap
  · exact Or.inl ⟨p.mapped, Nat.le_refl _, by simp only [if_neg zero, if_neg low, if_pos high, if_true]⟩
  by_cases frames : pageUp arg1 ≤ pageUp p.brkCurrent ∨ pageUp arg1 ≤ reach
  · by_cases same : pageUp arg1 = p.brkCurrent
    · refine Or.inl ⟨max p.mapped p.brkCurrent, Nat.le_max_left _ _, ?_⟩
      simp only [if_neg zero, if_neg low, if_neg high, if_pos frames, if_pos same]
      rw [same]
    · refine Or.inr ⟨pageUp arg1, rfl, zero, by omega, by omega, same, ?_⟩
      simp only [if_neg zero, if_neg low, if_neg high, if_pos frames, if_neg same]
  · refine Or.inl ⟨max p.mapped reach, Nat.le_max_left _ _, ?_⟩
    simp only [if_neg zero, if_neg low, if_neg high, if_neg frames, if_true]

theorem break_grows (laid : Laid p blocks) {increment : Nat} (small : increment < 2 ^ 64) (up : ¬ Shrinks p increment)
    (some_ : (p.brkCurrent + increment) % 2 ^ 64 ≠ 0) (low : p.brkStart ≤ pageUp ((p.brkCurrent + increment) % 2 ^ 64))
    (moves : pageUp ((p.brkCurrent + increment) % 2 ^ 64) ≠ p.brkCurrent) :
    p.brkCurrent + increment ≤ pageUp ((p.brkCurrent + increment) % 2 ^ 64) := by
  have cap := laid.cap
  have start := laid.start
  have larger : ¬ pageUp ((p.brkCurrent + increment) % 2 ^ 64) < p.brkCurrent := fun less => up ⟨some_, low, less⟩
  by_cases wraps : p.brkCurrent + increment < 2 ^ 64
  · rw [Nat.mod_eq_of_lt wraps] at low larger moves ⊢
    rcases le_pageUp wraps with above | zero
    · exact above
    · omega
  · simp only [heapCap] at cap
    have below := pageUp_le laid.aligned laid.cap (n := (p.brkCurrent + increment) % 2 ^ 64) (by omega)
    omega

def newHeader (m : Mem) (b size : Nat) : Mem := setNext (setUsed (setSize m b size) b 1) b 0

theorem newHeader_agree {m : Mem} {b size x k : Nat} (apart : x + k ≤ b ∨ b + headerSize ≤ x) :
    AgreeOn (newHeader m b size) m x k := fun y low high =>
  ((setNext_agree apart y low high).trans (setUsed_agree apart y low high)).trans (setSize_agree apart y low high)

theorem headerAt_newHeader {m : Mem} {b size : Nat} (small : size < 2 ^ 64) :
    headerAt (newHeader m b size) b = (⟨b, size, true⟩ : Block).header 0 := by
  rw [newHeader, headerAt_setNext (by decide), headerAt_setUsed (by decide), headerAt_setSize small]
  rfl

/-- The process behind a growing `sbrk`, with the header of the new block. -/
def Process.grown (p : Process) (newBrk size : Nat) : Process :=
  { p with brkCurrent := newBrk, mapped := max p.mapped newBrk, mem := newHeader p.mem p.brkCurrent size }

theorem Laid.grown (laid : Laid p blocks) {newBrk size : Nat} (room : p.brkCurrent + headerSize ≤ newBrk) (cap : newBrk ≤ heapCap)
    (aligned : Mm.pageSize ∣ newBrk) : Laid (p.grown newBrk size) blocks := by
  have longer : p.brkCurrent ≤ newBrk := by omega
  refine { laid with
    linked := laid.linked.congr fun x member => newHeader_agree (Or.inl ?_)
    high := fun x member => Nat.le_trans (laid.high x member) longer
    above := Nat.le_trans laid.above longer
    cap := cap
    aligned := aligned
    mapped := Nat.le_max_right _ _ }
  have high := laid.high x member
  unfold Block.stop at high
  omega

theorem Laid.append (laid : Laid p blocks) {new : Block} (behind : ∀ x ∈ blocks, x.stop ≤ new.addr) (low : p.brkStart ≤ new.addr)
    (high : new.stop ≤ p.brkCurrent) {mem : Mem} {head : Nat} (linked : Seg mem head (blocks ++ [new]) 0) :
    Laid { p with mem := mem, heapHead := head } (blocks ++ [new]) := by
  refine { laid with linked := linked, ordered := ?_, low := ?_, high := ?_ }
  · rw [List.pairwise_append]
    refine ⟨laid.ordered, List.pairwise_singleton _ _, fun x member y last => ?_⟩
    rw [List.mem_singleton.mp last]
    exact behind x member
  · rw [List.forall_mem_append, List.forall_mem_singleton]
    exact ⟨laid.low, low⟩
  · rw [List.forall_mem_append, List.forall_mem_singleton]
    exact ⟨laid.high, high⟩

theorem Laid.link (laid : Laid p blocks) {newBrk : Nat} (size : Nat) (small : size < 2 ^ 64)
    (room : p.brkCurrent + headerSize + size ≤ newBrk) (cap : newBrk ≤ heapCap) (aligned : Mm.pageSize ∣ newBrk) :
    Safe ((p.grown newBrk size).link p.brkCurrent) fun p' => Laid p' (blocks ++ [⟨p.brkCurrent, size, true⟩]) ∧
      p'.brkStart = p.brkStart ∧ p'.brkCurrent = newBrk := by
  have grown : Laid (p.grown newBrk size) blocks := laid.grown (by omega) cap aligned
  have header : headerAt (p.grown newBrk size).mem p.brkCurrent = (⟨p.brkCurrent, size, true⟩ : Block).header 0 :=
    headerAt_newHeader small
  have low : (p.grown newBrk size).brkStart ≤ p.brkCurrent := laid.above
  have high : (⟨p.brkCurrent, size, true⟩ : Block).stop ≤ (p.grown newBrk size).brkCurrent := room
  unfold Process.link
  rcases List.eq_nil_or_concat blocks with rfl | ⟨front, last, whole⟩
  · have none_ : (p.grown newBrk size).heapHead = 0 := laid.linked
    apply Safe.pos none_
    exact Safe.ok ⟨grown.append laid.high low high ⟨rfl, 0, header, rfl⟩, rfl, rfl⟩
  · rw [List.concat_eq_append] at whole
    subst whole
    have some_ : ¬ (p.grown newBrk size).heapHead = 0 := grown.head_ne (by simp)
    have split_ : front ++ [last] = front ++ last :: [] := rfl
    obtain ⟨before, -⟩ := grown.apart split_
    have behind := laid.high last (List.mem_append_right _ (List.mem_singleton_self _))
    obtain ⟨d, first, rfl, next, lastHeader, end_⟩ := seg_append.mp grown.linked
    apply Safe.neg some_
    rw [findTail_eq grown.linked grown.positive grown.present (Nat.le_of_lt grown.walk)]
    refine Safe.ok ⟨grown.append laid.high low high ?_, rfl, rfl⟩
    have moved : headerAt (setNext (p.grown newBrk size).mem last.addr p.brkCurrent) last.addr = last.header p.brkCurrent := by
      have cap := laid.cap
      rw [headerAt_setNext (by simp only [heapCap] at cap; omega), lastHeader]
      rfl
    have kept : headerAt (setNext (p.grown newBrk size).mem last.addr p.brkCurrent) p.brkCurrent =
        (⟨p.brkCurrent, size, true⟩ : Block).header 0 := by
      rw [← header]
      refine headerAt_congr (setNext_agree (Or.inr ?_))
      unfold Block.stop at behind
      omega
    refine seg_append.mpr ⟨p.brkCurrent, seg_append.mpr ⟨last.addr, ?_, rfl, _, moved, rfl⟩, rfl, 0, kept, rfl⟩
    refine first.congr fun y member => setNext_agree (Or.inl ?_)
    have apart := before y member
    unfold Block.stop at apart
    omega

/-- No block fits and the break does not move: the pointer is `NULL`. -/
def Refused (p : Process) (reach size : Nat) : Prop :=
  findFree p (alignSize size) p.walk p.heapHead = .ok 0 ∧ (p.sbrk reach (total size)).1 = 2 ^ 64 - 1

/-- The size does not wrap around, neither alone nor with the break; or it is refused. -/
def Fits (p : Process) (reach size : Nat) : Prop :=
  size ≤ 2 ^ 64 - 32 ∧ ¬ Shrinks p (total size) ∨ Refused p reach size

/-- What `malloc` answers: `NULL`, a block that was free, or a new one. -/
inductive Served (p : Process) (blocks : List Block) (size : Nat) : Nat × Process → Prop where
  | null {p' : Process} (laid : Laid p' blocks) (start : p'.brkStart = p.brkStart) : Served p blocks size (0, p')
  | reused {front back : List Block} {x : Block} {p' : Process} (split_ : blocks = front ++ x :: back) (free : x.used = false)
      (enough : size ≤ x.size) (laid : Laid p' (front ++ x.mark true :: back)) (start : p'.brkStart = p.brkStart) :
      Served p blocks size (x.payload, p')
  | fresh {size' : Nat} {p' : Process} (enough : size ≤ size') (laid : Laid p' (blocks ++ [⟨p.brkCurrent, size', true⟩]))
      (start : p'.brkStart = p.brkStart) : Served p blocks size (p.brkCurrent + headerSize, p')

theorem alignSize_le {size : Nat} (small : size ≤ 2 ^ 64 - 32) : size ≤ alignSize size ∧ alignSize size ≤ 2 ^ 64 - 32 := by
  unfold alignSize
  omega

theorem total_eq {size : Nat} (small : size ≤ 2 ^ 64 - 32) : total size = headerSize + alignSize size := by
  have rounded := (alignSize_le small).2
  unfold total headerSize
  omega

theorem Laid.search (laid : Laid p blocks) (size : Nat) :
    findFree p size p.walk p.heapHead = .ok ((blocks.find? (Block.fits size)).elim 0 Block.addr) :=
  findFree_eq size laid.linked laid.positive laid.present laid.walk

theorem malloc_reuses (laid : Laid p blocks) (reach : Nat) {size : Nat} (some_ : size ≠ 0) {x : Block}
    (found : blocks.find? (Block.fits (alignSize size)) = some x) :
    p.malloc reach size = .ok (x.payload, { p with mem := setUsed p.mem x.addr 1 }) := by
  have member := List.mem_of_find?_eq_some found
  have positive := laid.positive x member
  have high := laid.high x member
  have cap := laid.cap
  have search : findFree p (alignSize size) p.walk p.heapHead = .ok x.addr := by
    rw [laid.search, found]
    rfl
  have place : x.addr ≠ 0 := by omega
  have pointer : (x.addr + headerSize) % 2 ^ 64 = x.payload := by
    unfold Block.stop at high
    simp only [heapCap] at cap
    exact Nat.mod_eq_of_lt (by omega)
  rw [Process.malloc, if_neg some_, search]
  show (if x.addr ≠ 0 then _ else _) = _
  rw [if_pos place, pointer]

theorem malloc_new (laid : Laid p blocks) {reach size newBlock : Nat} {q : Process} (some_ : size ≠ 0)
    (none_ : blocks.find? (Block.fits (alignSize size)) = none) (called : p.sbrk reach (total size) = (newBlock, q)) :
    p.malloc reach size =
      if newBlock = 2 ^ 64 - 1 then .ok (0, q)
      else if newBlock + headerSize > q.mapped then .error .pageFault
      else ({ q with mem := newHeader q.mem newBlock (alignSize size) } : Process).link newBlock >>= fun p' =>
        .ok ((newBlock + headerSize) % 2 ^ 64, p') := by
  have search : findFree p (alignSize size) p.walk p.heapHead = .ok 0 := by
    rw [laid.search, none_]
    rfl
  have nothing : ¬ (0 : Nat) ≠ 0 := not_not.mpr rfl
  rw [Process.malloc, if_neg some_, search]
  dsimp only [bind, Except.bind]
  rw [if_neg nothing, called]
  rfl

theorem malloc_served (laid : Laid p blocks) {reach size : Nat} (fits : Fits p reach size) :
    Safe (p.malloc reach size) (Served p blocks size) := by
  have cap := laid.cap
  have mapped := laid.mapped
  simp only [heapCap] at cap
  by_cases zero : size = 0
  · rw [Process.malloc, if_pos zero]
    exact Safe.ok (.null laid rfl)
  cases found : blocks.find? (Block.fits (alignSize size)) with
  | some x =>
    rw [malloc_reuses laid reach zero found]
    obtain ⟨fit, front, back, whole, -⟩ := List.find?_eq_some_iff_append.mp found
    rw [Block.fits, Bool.and_eq_true, decide_eq_true_eq, Bool.not_eq_true'] at fit
    rcases fits with ⟨small, -⟩ | refused
    · have rounded := (alignSize_le small).1
      exact Safe.ok (.reused whole fit.1 (by omega) (laid.setUsed whole true) rfl)
    · have search := laid.search (alignSize size)
      rw [found, refused.1] at search
      have none_ : 0 = x.addr := Except.ok.inj search
      have positive := laid.positive x (List.mem_of_find?_eq_some found)
      omega
  | none =>
    by_cases nothing : total size = 0
    · rcases fits with ⟨small, -⟩ | refused
      · have room := total_eq small
        unfold headerSize at room
        omega
      · have failed := refused.2
        rw [Process.sbrk, if_pos nothing] at failed
        dsimp only at failed
        omega
    rcases sbrk_cases p reach nothing with ⟨pages, more, called⟩ | ⟨newBrk, rfl, some_, low, high, moves, called⟩
    · rw [malloc_new laid zero found called, if_pos rfl]
      exact Safe.ok (.null (laid.remap more) rfl)
    rcases fits with ⟨small, up⟩ | refused
    · have room := total_eq small
      have rounded := alignSize_le small
      have header : headerSize = 24 := rfl
      have grows := break_grows laid (by omega) up some_ low moves
      rw [malloc_new laid zero found called, if_neg (by omega), if_neg (by dsimp only; omega)]
      have aligned := pageUp_aligned ((p.brkCurrent + total size) % 2 ^ 64)
      apply Safe.bind (laid.link (alignSize size) (by omega) (by omega) high aligned)
      rintro p' ⟨laid', start, -⟩
      rw [Nat.mod_eq_of_lt (by omega)]
      exact Safe.ok (.fresh rounded.1 laid' start)
    · have failed := refused.2
      rw [called] at failed
      dsimp only at failed
      omega

end

end RexOs.User.Libc
