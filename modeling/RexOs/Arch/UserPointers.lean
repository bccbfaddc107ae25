import RexOs.Arch.SyscallSafe
import RexOs.Mm.Vmm

/-! What the checks of user pointers accept.

`uptr_mapped` ends its loop when it meets the last page, and `copy_user_string` looks at a page when
it gets there. Both are exact, except that the length of a string is returned as an `int`.
-/

set_option autoImplicit false

namespace RexOs.Arch

open RexOs.Library RexOs.Mm

def tableSpace (m : Mem) (cr3 : Nat) : UserSpace where
  translate := vmmTranslatePml4 m cr3
  byte addr := m (vmmTranslatePml4 m cr3 addr)

/-- `for (page = first; ; page += 0x1000)` as it stands: it ends at a page that is not mapped, or at
`last`. With `fuel` rounds used up it is still running. -/
def pageLoop (space : UserSpace) (last : Nat) : Nat → Nat → Option Bool
  | 0, _ => none
  | fuel + 1, page =>
      if space.translate page = 0 then some false
      else if page = last then some true
      else pageLoop space last fuel ((page + 0x1000) % 2 ^ 64)

def uptrMappedLoop (space : UserSpace) (fuel ptr len : Nat) : Option Bool :=
  if uptrOk ptr len then pageLoop space (lastPage ptr len) fuel (firstPage ptr) else some false

/-- The range `[ptr, ptr + max(len, 1))` lies in the user half, and all its pages are mapped. -/
def UserRange (space : UserSpace) (ptr len : Nat) : Prop :=
  ptr ≠ 0 ∧ ptr + max len 1 ≤ userTop + 1 ∧
    ∀ addr, ptr ≤ addr → addr < ptr + max len 1 → space.translate (pageOf addr) ≠ 0

section
variable {space : UserSpace} {ptr len page last n fuel : Nat}

theorem uptrOk_iff (word : ptr < 2 ^ 64) (wordLen : len < 2 ^ 64) :
    uptrOk ptr len = true ↔ ptr ≠ 0 ∧ ptr + max len 1 ≤ userTop + 1 := by
  rw [uptrOk]
  by_cases null : ptr = 0
  · simp [null]
  by_cases high : ptr > userTop
  · rw [if_neg null, if_pos high]
    simp only [Bool.false_eq_true, false_iff]
    omega
  rw [if_neg null, if_neg high]
  by_cases out : len ≠ 0 ∧ ((ptr + len) % 2 ^ 64 < ptr ∨ (ptr + len) % 2 ^ 64 > userTop + 1)
  · rw [if_pos out]
    simp only [Bool.false_eq_true, false_iff]
    simp only [userTop] at *
    omega
  · rw [if_neg out]
    simp only [true_iff]
    simp only [userTop] at *
    omega

theorem pageLoop_eq (place : page + n * 0x1000 = last) (word : last < 2 ^ 64) (enough : n < fuel) :
    pageLoop space last fuel page = some (pagesMapped space page (n + 1)) := by
  induction n generalizing page fuel with
  | zero =>
    obtain ⟨fuel, rfl⟩ : ∃ k, fuel = k + 1 := ⟨fuel - 1, by omega⟩
    rw [pageLoop, pagesMapped, pagesMapped]
    split
    · rfl
    · rw [if_pos (by omega)]
  | succ n ih =>
    obtain ⟨fuel, rfl⟩ : ∃ k, fuel = k + 1 := ⟨fuel - 1, by omega⟩
    rw [pageLoop, pagesMapped]
    split
    · rfl
    · rw [if_neg (by omega), Nat.mod_eq_of_lt (by omega)]
      exact ih (by omega) (by omega)

theorem uptrMappedLoop_eq (word : ptr < 2 ^ 64) (wordLen : len < 2 ^ 64)
    (enough : (lastPage ptr len - firstPage ptr) / 0x1000 < fuel) :
    uptrMappedLoop space fuel ptr len = some (uptrMapped space ptr len) := by
  unfold uptrMappedLoop uptrMapped
  by_cases ok : uptrOk ptr len = true
  · obtain ⟨_, low, high⟩ := uptrOk_bounds word wordLen ok
    have start : firstPage ptr = ptr / 0x1000 * 0x1000 := pageOf_eq word
    have stop := lastPage_eq word wordLen ok
    simp only [userTop] at *
    rw [if_pos ok, ok, Bool.true_and]
    exact pageLoop_eq (by omega) (by omega) enough
  · rw [if_neg ok, Bool.eq_false_iff.mpr ok, Bool.false_and]

theorem pagesMapped_iff : pagesMapped space page n = true ↔ ∀ j, j < n → space.translate (page + j * 0x1000) ≠ 0 := by
  refine ⟨fun mapped j inside => pagesMapped_spec mapped inside, fun mapped => ?_⟩
  induction n generalizing page with
  | zero => rfl
  | succ n ih =>
    have first := mapped 0 (by omega)
    rw [pagesMapped, if_neg (by simpa using first)]
    refine ih fun j inside => ?_
    have later := mapped (j + 1) (by omega)
    rwa [show page + (j + 1) * 0x1000 = page + 0x1000 + j * 0x1000 by omega] at later

theorem uptrMapped_iff (word : ptr < 2 ^ 64) (wordLen : len < 2 ^ 64) :
    uptrMapped space ptr len = true ↔ UserRange space ptr len := by
  rw [uptrMapped, Bool.and_eq_true, UserRange, ← and_assoc, ← uptrOk_iff word wordLen]
  refine and_congr_right fun ok => ?_
  obtain ⟨_, low, high⟩ := uptrOk_bounds word wordLen ok
  have start : firstPage ptr = ptr / 0x1000 * 0x1000 := pageOf_eq word
  have stop := lastPage_eq word wordLen ok
  simp only [userTop] at low high
  rw [pagesMapped_iff, start, stop]
  constructor
  · intro mapped addr first behind
    have page : pageOf addr = addr / 0x1000 * 0x1000 := pageOf_eq (by omega)
    have here := mapped (addr / 0x1000 - ptr / 0x1000) (by omega)
    rw [page]
    rwa [show ptr / 0x1000 * 0x1000 + (addr / 0x1000 - ptr / 0x1000) * 0x1000 = addr / 0x1000 * 0x1000 by omega] at here
  · intro mapped j inside
    -- the first address of the range on that page
    have here := mapped (max ptr (ptr / 0x1000 * 0x1000 + j * 0x1000)) (by omega) (by omega)
    rw [pageOf_eq (by omega)] at here
    rwa [show max ptr (ptr / 0x1000 * 0x1000 + j * 0x1000) / 0x1000 * 0x1000 =
      ptr / 0x1000 * 0x1000 + j * 0x1000 by omega] at here

end

def UserByte (space : UserSpace) (addr : Nat) : Prop := addr ≤ userTop ∧ space.translate (pageOf addr) ≠ 0

/-- The first NUL at or after `uptr + i` is at `uptr + k`, and all bytes up to it are mapped. -/
structure EndsAt (space : UserSpace) (uptr i k : Nat) : Prop where
  behind : i ≤ k
  nul : space.byte (uptr + k) = 0
  first : ∀ j, i ≤ j → j < k → space.byte (uptr + j) ≠ 0
  mapped : ∀ j, i ≤ j → j ≤ k → UserByte space (uptr + j)

theorem EndsAt.unique {space : UserSpace} {uptr i k k' : Nat} (one : EndsAt space uptr i k) (two : EndsAt space uptr i k') :
    k = k' := by
  rcases Nat.lt_trichotomy k k' with below | same | above
  · exact absurd one.nul (two.first k one.behind below)
  · exact same
  · exact absurd two.nul (one.first k' two.behind above)

theorem EndsAt.cons_iff {space : UserSpace} {uptr i k : Nat} (here : UserByte space (uptr + i))
    (more : space.byte (uptr + i) ≠ 0) : EndsAt space uptr i k ↔ EndsAt space uptr (i + 1) k := by
  constructor
  · rintro ⟨behind, nul, first, mapped⟩
    have other : i ≠ k := fun same => more (same ▸ nul)
    exact ⟨by omega, nul, fun j low high => first j (by omega) high, fun j low high => mapped j (by omega) high⟩
  · rintro ⟨behind, nul, first, mapped⟩
    refine ⟨by omega, nul, fun j low high => ?_, fun j low high => ?_⟩
    · rcases Nat.eq_or_lt_of_le low with rfl | later
      · exact more
      · exact first j later high
    · rcases Nat.eq_or_lt_of_le low with rfl | later
      · exact here
      · exact mapped j later high

def Checked (space : UserSpace) (page : Nat) : Prop :=
  page ≠ 1 → 0x1000 ∣ page ∧ page ≤ userTop ∧ space.translate page ≠ 0

def Touches (space : UserSpace) (events : List Event) : Prop :=
  ∀ addr count, Event.touch addr count ∈ events → ∀ i, i < count → UserByte space (addr + i)

section
variable {space : UserSpace} {uptr n i page : Nat} {dst : List UInt8}

theorem copyLoop_step (checked : Checked space page) (inside : uptr + i ≤ userTop + 1) :
    (¬UserByte space (uptr + i) ∧ copyLoop space uptr (n + 1) i page dst = (none, [.rejected])) ∨
    (UserByte space (uptr + i) ∧ ∃ checks : List Event, (∀ addr count, .touch addr count ∉ checks) ∧
      Checked space (pageOf (uptr + i)) ∧
      copyLoop space uptr (n + 1) i page dst =
        if space.byte (uptr + i) = 0 then (some dst, checks ++ [.touch (uptr + i) 1])
        else
          let rest := copyLoop space uptr n (i + 1) (pageOf (uptr + i)) (dst ++ [space.byte (uptr + i)])
          (rest.1, checks ++ .touch (uptr + i) 1 :: rest.2)) := by
  have word : (uptr + i) % 2 ^ 64 = uptr + i := Nat.mod_eq_of_lt (by simp only [userTop] at inside; omega)
  have here : pageOf (uptr + i) = (uptr + i) / 0x1000 * 0x1000 := pageOf_eq (by simp only [userTop] at inside; omega)
  have aligned : 0x1000 ∣ pageOf (uptr + i) := ⟨(uptr + i) / 0x1000, by omega⟩
  rw [copyLoop]
  simp only [word]
  by_cases same : pageOf (uptr + i) ≠ page
  · rw [if_pos same]
    by_cases high : uptr + i > userTop
    · rw [if_pos high]
      exact Or.inl ⟨fun byte => absurd byte.1 (by omega), rfl⟩
    rw [if_neg high]
    by_cases unmapped : space.translate (pageOf (uptr + i)) = 0
    · rw [if_pos unmapped]
      exact Or.inl ⟨fun byte => byte.2 unmapped, rfl⟩
    rw [if_neg unmapped]
    refine Or.inr ⟨⟨by omega, unmapped⟩, [.found (pageOf (uptr + i)) (pageOf (uptr + i))], by simp,
      fun _ => ⟨aligned, by omega, unmapped⟩, ?_⟩
    split <;> rfl
  · rw [if_neg same]
    have same : pageOf (uptr + i) = page := by simpa using same
    obtain ⟨_, low, mapped⟩ := checked (by omega)
    refine Or.inr ⟨⟨by simp only [userTop] at *; omega, same ▸ mapped⟩, [], by simp, same ▸ checked, ?_⟩
    rw [same]
    split <;> rfl

theorem copyLoop_exact (checked : Checked space page) (inside : uptr + i ≤ userTop + 1) :
    (∀ k, EndsAt space uptr i k → k < i + n →
      (copyLoop space uptr n i page dst).1 = some (dst ++ (List.range (k - i)).map fun j => space.byte (uptr + (i + j)))) ∧
    ((¬∃ k, EndsAt space uptr i k ∧ k < i + n) → (copyLoop space uptr n i page dst).1 = none) ∧
    Touches space (copyLoop space uptr n i page dst).2 := by
  induction n generalizing i page dst with
  | zero =>
    refine ⟨fun k ends below => absurd ends.behind (by omega), fun _ => rfl, fun addr count member => ?_⟩
    simp [copyLoop] at member
  | succ n ih =>
    rcases @copyLoop_step space uptr n i page dst checked inside with ⟨bad, out⟩ | ⟨here, checks, quiet, checked', out⟩
    · rw [out]
      refine ⟨fun k ends _ => absurd (ends.mapped i (Nat.le_refl i) ends.behind) bad, fun _ => rfl, fun addr count member => ?_⟩
      simp at member
    have one : ∀ addr count, Event.touch addr count ∈ [Event.touch (uptr + i) 1] → ∀ j, j < count → UserByte space (addr + j) := by
      intro addr count member j small
      simp only [List.mem_singleton, Event.touch.injEq] at member
      obtain ⟨rfl, rfl⟩ := member
      obtain rfl : j = 0 := by omega
      exact here
    rw [out]
    by_cases nul : space.byte (uptr + i) = 0
    · have ends : EndsAt space uptr i i :=
        ⟨Nat.le_refl i, nul, fun j low high => by omega, fun j low high => (Nat.le_antisymm low high) ▸ here⟩
      rw [if_pos nul]
      refine ⟨fun k ends' _ => ?_, fun none => absurd ⟨i, ends, by omega⟩ none, fun addr count member => ?_⟩
      · rw [ends'.unique ends]
        simp
      · exact one addr count ((List.mem_append.mp member).resolve_left (quiet addr count))
    · rw [if_neg nul]
      obtain ⟨found, missed, touched⟩ := @ih (i + 1) (pageOf (uptr + i)) (dst ++ [space.byte (uptr + i)]) checked'
        (by have := here.1; omega)
      refine ⟨fun k ends below => ?_, fun none => ?_, fun addr count member => ?_⟩
      · have later := (EndsAt.cons_iff here nul).mp ends
        have count : k - i = (k - (i + 1)) + 1 := by have := later.behind; omega
        dsimp only
        rw [found k later (by omega), count, List.range_succ_eq_map]
        simp only [List.map_cons, List.map_map, List.append_assoc, List.cons_append, List.nil_append, Nat.add_zero]
        congr 3
        refine List.map_congr_left fun j _ => ?_
        simp only [Function.comp_apply]
        congr 1
        omega
      · refine missed fun later => none ?_
        obtain ⟨k, ends, below⟩ := later
        exact ⟨k, (EndsAt.cons_iff here nul).mpr ends, by omega⟩
      · rcases List.mem_append.mp member with before | after
        · exact absurd before (quiet addr count)
        · rcases List.mem_cons.mp after with first | rest
          · exact one addr count (List.mem_singleton.mpr first)
          · exact touched addr count rest

/-- The string at `uptr` ends at `uptr + n`, within the limit and within mapped user pages. -/
def StringEnds (space : UserSpace) (uptr max n : Nat) : Prop := uptr ≠ 0 ∧ n < max ∧ EndsAt space uptr 0 n

theorem copyUserString_exact {max : Nat} (word : uptr < 2 ^ 64) :
    (∀ n, StringEnds space uptr max n →
      (copyUserString space uptr max).1 = some ((List.range n).map fun j => space.byte (uptr + j))) ∧
    ((¬∃ n, StringEnds space uptr max n) → (copyUserString space uptr max).1 = none) ∧
    Touches space (copyUserString space uptr max).2 := by
  unfold copyUserString
  by_cases bad : max = 0 ∨ uptrOk uptr 1 = false
  · rw [if_pos bad]
    refine ⟨fun n ends => ?_, fun _ => rfl, fun addr count member => by simp at member⟩
    have first := (ends.2.2.mapped 0 (Nat.le_refl 0) (Nat.zero_le n)).1
    rcases bad with none | out
    · exact absurd ends.2.1 (by omega)
    · have ok := (uptrOk_iff word (by decide : 1 < 2 ^ 64)).mpr ⟨ends.1, by simp only [Nat.max_self]; omega⟩
      rw [out] at ok
      cases ok
  · rw [if_neg bad]
    have ok : uptrOk uptr 1 = true := by
      cases out : uptrOk uptr 1 with
      | true => rfl
      | false => exact absurd (Or.inr out) bad
    obtain ⟨nonzero, low⟩ := (uptrOk_iff word (by decide)).mp ok
    simp only [Nat.max_self] at low
    obtain ⟨found, missed, touched⟩ := @copyLoop_exact space uptr max 0 1 []
      (fun other => absurd rfl other) (by omega : uptr + 0 ≤ userTop + 1)
    refine ⟨fun n ends => ?_, fun none => missed ?_, touched⟩
    · rw [found n ends.2.2 (by have := ends.2.1; omega)]
      simp
    · rintro ⟨n, ends, below⟩
      exact none ⟨n, nonzero, by omega, ends⟩

end

/-- `(int)i`. -/
def intOf (i : Nat) : Int := ((i + 2 ^ 31) % 2 ^ 32 : Nat) - (2 ^ 31 : Nat)

/-- What `copy_user_string` returns: the length as an `int`, or -1. -/
def copyResult (text : Option (List UInt8)) : Int := text.elim (-1) fun bytes => intOf bytes.length

/-- A call returns the length of the string with its bytes and the NUL in the buffer if there is a
string, else -1, and touches only mapped pages of the user half. -/
structure StringExact (space : UserSpace) (uptr max : Nat) (out : Option (List UInt8) × List Event) : Prop where
  found : ∀ n : Nat, copyResult out.1 = n ↔ StringEnds space uptr max n
  missed : (¬∃ n, StringEnds space uptr max n) → copyResult out.1 = -1
  copied : ∀ n, StringEnds space uptr max n →
    ∃ dst, out.1 = some dst ∧ dst ++ [0] = (List.range (n + 1)).map fun j => space.byte (uptr + j)
  touched : Touches space out.2

theorem intOf_eq {n : Nat} : intOf n = n ↔ n < 2 ^ 31 := by
  unfold intOf
  omega

theorem stringExact_iff {space : UserSpace} {uptr max : Nat} (word : uptr < 2 ^ 64) :
    StringExact space uptr max (copyUserString space uptr max) ↔ ∀ n, StringEnds space uptr max n → n < 2 ^ 31 := by
  obtain ⟨found, missed, touched⟩ := @copyUserString_exact space uptr max word
  have result : ∀ n, StringEnds space uptr max n → copyResult (copyUserString space uptr max).1 = intOf n := by
    intro n ends
    rw [found n ends, copyResult, Option.elim_some, List.length_map, List.length_range]
  constructor
  · intro exact_ n ends
    rw [← intOf_eq, ← result n ends]
    exact (exact_.found n).mpr ends
  · intro short
    refine ⟨fun n => ⟨fun same => ?_, fun ends => ?_⟩, fun none => ?_, fun n ends => ⟨_, found n ends, ?_⟩, touched⟩
    · by_cases some : ∃ k, StringEnds space uptr max k
      · obtain ⟨k, ends⟩ := some
        rw [result k ends, intOf_eq.mpr (short k ends)] at same
        have equal : k = n := by exact_mod_cast same
        exact equal ▸ ends
      · rw [missed some] at same
        exact absurd same (by simp [copyResult])
    · rw [result n ends]
      exact intOf_eq.mpr (short n ends)
    · rw [missed none]
      rfl
    · rw [List.range_succ, List.map_append, List.map_singleton, ends.2.2.nul]

/-- `uptr_mapped` ends and is exact, and `copy_user_string` is exact for the strings whose length an `int` holds. -/
theorem user_pointers_exact (space : UserSpace) :
    (∀ ptr len : UInt64, ∃ rounds, ∀ fuel, rounds < fuel →
      ∃ good, uptrMappedLoop space fuel ptr.toNat len.toNat = some good ∧
        (good = true ↔ UserRange space ptr.toNat len.toNat)) ∧
    ∀ uptr max : UInt64, StringExact space uptr.toNat max.toNat (copyUserString space uptr.toNat max.toNat) ↔
      ∀ n, StringEnds space uptr.toNat max.toNat n → n < 2 ^ 31 := by
  refine ⟨fun ptr len => ⟨_, fun fuel enough => ⟨_, uptrMappedLoop_eq ptr.toNat_lt len.toNat_lt enough, ?_⟩⟩,
    fun uptr max => stringExact_iff uptr.toNat_lt⟩
  exact uptrMapped_iff ptr.toNat_lt len.toNat_lt

/-- Nothing is mapped by an empty page table. -/
theorem user_pointers_exact_empty :
    StringExact (tableSpace (fun _ => 0) 0) (0x1000 : UInt64).toNat (16 : UInt64).toNat
      (copyUserString (tableSpace (fun _ => 0) 0) (0x1000 : UInt64).toNat (16 : UInt64).toNat) := by
  refine ((user_pointers_exact (tableSpace (fun _ => 0) 0)).2 0x1000 16).mpr fun n ends => ?_
  have : (16 : UInt64).toNat = 16 := by decide
  have := ends.2.1
  omega

def longString : UserSpace := ⟨fun _ => 1, fun addr => if addr = 0x1000 + 2 ^ 31 then 0 else 1⟩

/-- The length 2^31 comes back as a negative number. -/
theorem copy_user_string_negative : ¬∀ (space : UserSpace) (uptr max : UInt64),
    StringExact space uptr.toNat max.toNat (copyUserString space uptr.toNat max.toNat) := by
  intro claim
  have exact_ := claim longString 0x1000 (UInt64.ofNat (2 ^ 32))
  have start : (0x1000 : UInt64).toNat = 0x1000 := by decide
  have limit : (UInt64.ofNat (2 ^ 32)).toNat = 2 ^ 32 := by decide
  rw [start, limit, stringExact_iff (by decide)] at exact_
  have ends : StringEnds longString 0x1000 (2 ^ 32) (2 ^ 31) := by
    have nul : longString.byte (0x1000 + 2 ^ 31) = 0 := by simp [longString]
    have mapped (page : Nat) : longString.translate page ≠ 0 := Nat.one_ne_zero
    refine ⟨by decide, by decide, ⟨by decide, nul, fun j _ below => ?_, fun j _ inside => ⟨?_, mapped _⟩⟩⟩
    · have byte : longString.byte (0x1000 + j) = 1 := if_neg (by omega)
      rw [byte]
      decide
    · simp only [userTop]
      omega
  exact absurd (exact_ _ ends) (by decide)

end RexOs.Arch
