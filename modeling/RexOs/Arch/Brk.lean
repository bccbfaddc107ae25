import RexOs.Library.Run
import RexOs.Mm.VmmMap

/-! The program break (`sys_brk` in `kernel/arch/x86_64/syscall.c`).

Shrinking leaves the pages mapped and growing skips pages that are mapped, so a page of
the heap keeps its frame. The result of `vmm_map_page_pml4` is not looked at: when no frame
is left for a page table, the break moves over a page that is not mapped.
-/

set_option autoImplicit false

namespace RexOs.Arch

open RexOs.Library RexOs.Mm

def heapCap : Nat := 0x80000000

/-- `(n + 0xFFF) & ~0xFFF`. -/
def pageUp (n : Nat) : Nat := (n + 0xFFF) % 2 ^ 64 &&& 0xFFFFFFFFFFFFF000

/-- The fields of a task that `sys_brk` uses. -/
structure Task where
  cr3 : Nat
  brkStart : Nat
  brkCurrent : Nat
  deriving DecidableEq, Repr

def userFlags : Nat := pagePresent ||| pageWritable ||| pageUser

section
variable (fails : Nat → Bool)

/-- `for (page = old_page; page < new_brk; page += 0x1000)`; `n` pages from `page` on remain.
It is false when there is no frame for a page. -/
def growHeap (cr3 : Nat) (s : Machine) (page : Nat) : Nat → Except VmmPanic (Bool × Machine)
  | 0 => .ok (true, s)
  | n + 1 =>
      if vmmTranslatePml4 s.mem cr3 page ≠ 0 then growHeap cr3 s (page + 0x1000) n
      else
        let (phys, s) := allocFrame fails s
        if phys = 0 then .ok (false, s)
        else
          match vmmMapPagePml4 fails s cr3 page phys userFlags with
          | .error e => .error e
          | .ok (_, s) => growHeap cr3 { s with mem := fill s.mem phys 0x1000 0 } (page + 0x1000) n

def newPages (t : Task) (newBrk : Nat) : Nat := (newBrk - pageUp t.brkCurrent + 0xFFF) / 0x1000

def sysBrk (s : Machine) (t : Task) (arg1 : Nat) : Except VmmPanic (Nat × Task × Machine) :=
  if arg1 = 0 then .ok (t.brkCurrent, t, s)
  else
    let newBrk := pageUp arg1
    if newBrk < t.brkStart then .ok (t.brkCurrent, t, s)
    else if newBrk > heapCap then .ok (t.brkCurrent, t, s)
    else
      match growHeap fails t.cr3 s (pageUp t.brkCurrent) (newPages t newBrk) with
      | .error e => .error e
      | .ok (false, s) => .ok (t.brkCurrent, t, s)
      | .ok (true, s) => .ok (newBrk, { t with brkCurrent := newBrk }, s)

def TablesGranted : Machine → Nat → List (Fin 512) → Prop
  | _, _, [] => True
  | s, table, idx :: path =>
      (entryAt s.mem table idx &&& pagePresent = 0 → (allocFrame fails s).1 ≠ 0) ∧
        ∀ next s', getOrCreateTable fails s table idx userFlags = .ok (some next, s') → TablesGranted s' next path

def HeapGranted (cr3 : Nat) (s : Machine) (page : Nat) : Nat → Prop
  | 0 => True
  | n + 1 =>
      if vmmTranslatePml4 s.mem cr3 page ≠ 0 then HeapGranted cr3 s (page + 0x1000) n
      else
        let (phys, s) := allocFrame fails s
        phys = 0 ∨
          TablesGranted fails s cr3 (pathOf page) ∧
            ∀ done s', vmmMapPagePml4 fails s cr3 page phys userFlags = .ok (done, s') →
              HeapGranted cr3 { s' with mem := fill s'.mem phys 0x1000 0 } (page + 0x1000) n

/-- In the call `sys_brk(arg1)` no frame for a page table is missing. -/
def CallGranted (s : Machine) (t : Task) (arg1 : Nat) : Prop :=
  pageUp arg1 ≤ heapCap → HeapGranted fails t.cr3 s (pageUp t.brkCurrent) (newPages t (pageUp arg1))

end

theorem pageUp_eq (n : Nat) : pageUp n = (n + 0xFFF) % 2 ^ 64 / pageSize * pageSize := by
  have mask : 0xFFFFFFFFFFFFF000 = (2 ^ 52 - 1) * 2 ^ 12 := by decide
  have page : pageSize = 2 ^ 12 := rfl
  have bound : (n + 0xFFF) % 2 ^ 64 < 2 ^ 64 := Nat.mod_lt _ (by decide)
  rw [pageUp, mask, and_field, page, Nat.mod_eq_of_lt (by omega)]

theorem pageUp_aligned (n : Nat) : pageSize ∣ pageUp n := by
  rw [pageUp_eq]
  exact Nat.dvd_mul_left _ _

theorem pageUp_of_aligned {n : Nat} (aligned : pageSize ∣ n) (small : n ≤ heapCap) : pageUp n = n := by
  obtain ⟨k, rfl⟩ := aligned
  rw [pageUp_eq]
  simp only [pageSize, heapCap] at *
  omega

end RexOs.Arch
