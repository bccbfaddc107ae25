import RexOs.Arch.Syscall

/-! System calls use user addresses that were checked.

Most calls check a range with `uptr_mapped` and stay inside it, or copy a string with
`copy_user_string`. Two do not: the path of `SYS_STAT` is only compared with the end of
user space and then read in place, and text for the console is read up to a NUL when its
length is negative as an `int`.
-/

set_option autoImplicit false

namespace RexOs.Arch

open RexOs.Library

/-- The address is below the end of user space and on a page of a range that was found mapped. -/
def Covered (seen : List (Nat × Nat)) (addr : Nat) : Prop :=
  addr ≤ userTop ∧ ∃ range ∈ seen, range.1 ≤ pageOf addr ∧ pageOf addr ≤ range.2

/-- Every use of an address comes after the check that covers it, and nothing comes after a
check that fails. -/
def Validated (space : UserSpace) : List (Nat × Nat) → List Event → Prop
  | _, [] => True
  | seen, .found first last :: rest =>
      (∀ page, 0x1000 ∣ page → first ≤ page → page ≤ last → space.translate page ≠ 0) ∧
        Validated space ((first, last) :: seen) rest
  | _, .rejected :: rest => rest = []
  | seen, .touch addr count :: rest => (∀ i, i < count → Covered seen (addr + i)) ∧ Validated space seen rest

def Valid (space : UserSpace) (seen : List (Nat × Nat)) (outcome : Outcome) : Prop :=
  Validated space seen outcome.2 ∧ (.rejected ∈ outcome.2 → outcome.1 = minusOne)

theorem pageOf_eq {addr : Nat} (word : addr < 2 ^ 64) : pageOf addr = addr / 0x1000 * 0x1000 := by
  have mask : 0xFFFFFFFFFFFFF000 = (2 ^ 52 - 1) * 2 ^ 12 := by decide
  have page : 0x1000 = 2 ^ 12 := by decide
  rw [pageOf, mask, and_field, page, Nat.mod_eq_of_lt (by omega)]

theorem uptrOk_bounds {ptr len : Nat} (word : ptr < 2 ^ 64) (wordLen : len < 2 ^ 64) (ok : uptrOk ptr len = true) :
    0 < ptr ∧ ptr ≤ userTop ∧ ptr + len ≤ userTop + 1 := by
  unfold uptrOk at ok
  split at ok
  · cases ok
  split at ok
  · cases ok
  split at ok
  · cases ok
  · rename_i nonzero low range
    simp only [userTop] at *
    omega

theorem pagesMapped_spec {space : UserSpace} {page n : Nat} (mapped : pagesMapped space page n = true) {j : Nat} (inside : j < n) :
    space.translate (page + j * 0x1000) ≠ 0 := by
  induction n generalizing page j with
  | zero => omega
  | succ n ih =>
    rw [pagesMapped] at mapped
    split at mapped
    · cases mapped
    · rename_i first
      cases j with
      | zero =>
        rw [Nat.zero_mul, Nat.add_zero]
        exact first
      | succ j =>
        have rest := ih mapped (Nat.lt_of_succ_lt_succ inside)
        have place : page + 0x1000 + j * 0x1000 = page + (j + 1) * 0x1000 := by omega
        rw [← place]
        exact rest

section
variable {space : UserSpace} {seen : List (Nat × Nat)} {ptr len : Nat}

theorem lastPage_eq (word : ptr < 2 ^ 64) (wordLen : len < 2 ^ 64) (ok : uptrOk ptr len = true) :
    lastPage ptr len = (ptr + (len - 1)) / 0x1000 * 0x1000 := by
  obtain ⟨_, low, high⟩ := uptrOk_bounds word wordLen ok
  have choice : (if len ≠ 0 then len - 1 else 0) = len - 1 := by
    split <;> omega
  simp only [userTop] at *
  rw [lastPage, choice, Nat.mod_eq_of_lt (by omega), pageOf_eq (by omega)]

theorem uptrMapped_pages (word : ptr < 2 ^ 64) (wordLen : len < 2 ^ 64) (mapped : uptrMapped space ptr len = true) {page : Nat}
    (aligned : 0x1000 ∣ page) (first : firstPage ptr ≤ page) (last : page ≤ lastPage ptr len) :
    space.translate page ≠ 0 := by
  rw [uptrMapped, Bool.and_eq_true] at mapped
  have start : firstPage ptr = ptr / 0x1000 * 0x1000 := pageOf_eq word
  have stop := lastPage_eq word wordLen mapped.1
  obtain ⟨k, rfl⟩ := aligned
  have place : firstPage ptr + (k - ptr / 0x1000) * 0x1000 = 0x1000 * k := by omega
  rw [← place]
  apply pagesMapped_spec mapped.2
  omega

theorem uptrMapped_covers (word : ptr < 2 ^ 64) (wordLen : len < 2 ^ 64) (mapped : uptrMapped space ptr len = true) {i : Nat}
    (inside : i < len) : Covered ((firstPage ptr, lastPage ptr len) :: seen) (ptr + i) := by
  rw [uptrMapped, Bool.and_eq_true] at mapped
  obtain ⟨_, low, high⟩ := uptrOk_bounds word wordLen mapped.1
  have start : firstPage ptr = ptr / 0x1000 * 0x1000 := pageOf_eq word
  have stop := lastPage_eq word wordLen mapped.1
  have here : pageOf (ptr + i) = (ptr + i) / 0x1000 * 0x1000 := pageOf_eq (by simp only [userTop] at *; omega)
  refine ⟨by omega, _, List.mem_cons_self, ?_⟩
  dsimp only
  omega

theorem withMapped_valid (word : ptr < 2 ^ 64) (wordLen : len < 2 ^ 64) (rest : Outcome) :
    Valid space seen (withMapped space ptr len rest) ↔
      (uptrMapped space ptr len = true → Valid space ((firstPage ptr, lastPage ptr len) :: seen) rest) := by
  unfold withMapped
  split
  · rename_i mapped
    have pages : ∀ page, 0x1000 ∣ page → firstPage ptr ≤ page → page ≤ lastPage ptr len → space.translate page ≠ 0 :=
      fun page aligned first last => uptrMapped_pages word wordLen mapped aligned first last
    simp only [Valid, Validated, List.mem_cons, reduceCtorEq, false_or, mapped, forall_const]
    constructor
    · rintro ⟨⟨_, valid⟩, result⟩
      exact ⟨valid, result⟩
    · rintro ⟨valid, result⟩
      exact ⟨⟨pages, valid⟩, result⟩
  · rename_i failed
    constructor
    · exact fun _ mapped => absurd mapped failed
    · exact fun _ => ⟨rfl, fun _ => rfl⟩

def Inside (ptr len : Nat) (events : List Event) : Prop :=
  ∀ e ∈ events, ∃ offset count, e = .touch (ptr + offset) count ∧ offset + count ≤ len

theorem touches_validated {events : List Event}
    (touches : ∀ e ∈ events, ∃ addr count, e = .touch addr count ∧ ∀ i, i < count → Covered seen (addr + i)) :
    Validated space seen events ∧ .rejected ∉ events := by
  induction events with
  | nil => exact ⟨trivial, List.not_mem_nil⟩
  | cons e events ih =>
    obtain ⟨addr, count, rfl, covered⟩ := touches e List.mem_cons_self
    obtain ⟨rest, none⟩ := ih fun e member => touches e (List.mem_cons_of_mem _ member)
    refine ⟨⟨covered, rest⟩, ?_⟩
    intro member
    rcases List.mem_cons.mp member with here | later
    · cases here
    · exact none later

theorem Inside.validated {events : List Event} (inside : Inside ptr len events)
    (covers : ∀ i, i < len → Covered seen (ptr + i)) : Validated space seen events ∧ .rejected ∉ events := by
  apply touches_validated
  intro e member
  obtain ⟨offset, count, rfl, bound⟩ := inside e member
  refine ⟨_, _, rfl, ?_⟩
  intro i below
  rw [Nat.add_assoc]
  exact covers _ (by omega)

theorem withMapped_inside (word : ptr < 2 ^ 64) (wordLen : len < 2 ^ 64) {rest : Outcome} (inside : Inside ptr len rest.2) :
    Valid space seen (withMapped space ptr len rest) := by
  rw [withMapped_valid word wordLen]
  intro mapped
  obtain ⟨valid, none⟩ := inside.validated fun i below => uptrMapped_covers word wordLen mapped below
  exact ⟨valid, fun member => absurd member none⟩

end

theorem inside_nil (ptr len : Nat) : Inside ptr len [] := nofun

theorem Inside.cons {ptr len offset count : Nat} {events : List Event} (rest : Inside ptr len events)
    (bound : offset + count ≤ len) : Inside ptr len (.touch (ptr + offset) count :: events) := by
  intro e member
  rcases List.mem_cons.mp member with rfl | later
  · exact ⟨offset, count, rfl, bound⟩
  · exact rest e later

theorem Inside.first {ptr len count : Nat} {events : List Event} (rest : Inside ptr len events) (bound : count ≤ len) :
    Inside ptr len (.touch ptr count :: events) := by
  have start : 0 + count ≤ len := by omega
  exact rest.cons start

section
variable {space : UserSpace} {seen : List (Nat × Nat)} {uptr : Nat}

theorem page_inside {addr page : Nat} (word : addr < 2 ^ 64) (here : pageOf addr = page) (low : page ≤ userTop) :
    addr ≤ userTop := by
  rw [pageOf_eq word] at here
  simp only [userTop] at *
  omega

theorem copyLoop_valid {n i checkedPage : Nat} {dst : List UInt8}
    (checked : checkedPage = 1 ∨ (checkedPage, checkedPage) ∈ seen ∧ checkedPage ≤ userTop) :
    Validated space seen (copyLoop space uptr n i checkedPage dst).2 ∧
      (.rejected ∈ (copyLoop space uptr n i checkedPage dst).2 → (copyLoop space uptr n i checkedPage dst).1 = none) := by
  induction n generalizing i checkedPage dst seen with
  | zero => exact ⟨rfl, fun _ => rfl⟩
  | succ n ih =>
    have word : (uptr + i) % 2 ^ 64 < 2 ^ 64 := Nat.mod_lt _ (by decide)
    have page := pageOf_eq word
    rw [copyLoop]
    dsimp only
    generalize (uptr + i) % 2 ^ 64 = addr at *
    split
    · split
      · exact ⟨rfl, fun _ => rfl⟩
      split
      · exact ⟨rfl, fun _ => rfl⟩
      rename_i _ low present
      have below : addr ≤ userTop := Nat.le_of_not_lt low
      -- the page has just been found
      have found : ∀ p, 0x1000 ∣ p → pageOf addr ≤ p → p ≤ pageOf addr → space.translate p ≠ 0 := by
        intro p _ first last
        rw [Nat.le_antisymm last first]
        exact present
      have covered : ∀ j, j < 1 → Covered ((pageOf addr, pageOf addr) :: seen) (addr + j) := by
        intro j single
        rw [Nat.lt_one_iff.mp single, Nat.add_zero]
        exact ⟨below, _, List.mem_cons_self, Nat.le_refl _, Nat.le_refl _⟩
      split
      · exact ⟨⟨found, covered, trivial⟩, by simp⟩
      · have next : (pageOf addr, pageOf addr) ∈ (pageOf addr, pageOf addr) :: seen ∧ pageOf addr ≤ userTop :=
          ⟨List.mem_cons_self, by omega⟩
        have rest := @ih ((pageOf addr, pageOf addr) :: seen) (i + 1) (pageOf addr) (dst ++ [space.byte addr]) (Or.inr next)
        exact ⟨⟨found, covered, rest.1⟩, by simpa using rest.2⟩
    · rename_i same
      have here : pageOf addr = checkedPage := Classical.not_not.mp same
      have known : (checkedPage, checkedPage) ∈ seen ∧ checkedPage ≤ userTop := by
        rcases checked with never | known
        · omega
        · exact known
      have covered : ∀ j, j < 1 → Covered seen (addr + j) := by
        intro j single
        rw [Nat.lt_one_iff.mp single, Nat.add_zero]
        exact ⟨page_inside word here known.2, _, known.1, Nat.le_of_eq here.symm, Nat.le_of_eq here⟩
      split
      · exact ⟨⟨covered, trivial⟩, by simp⟩
      · have rest := @ih seen (i + 1) checkedPage (dst ++ [space.byte addr]) checked
        exact ⟨⟨covered, rest.1⟩, by simpa using rest.2⟩

theorem withString_valid (size : Nat) (rest : List UInt8 → Nat) : Valid space seen (withString space uptr size rest) := by
  have copied : Validated space seen (copyUserString space uptr size).2 ∧
      (.rejected ∈ (copyUserString space uptr size).2 → (copyUserString space uptr size).1 = none) := by
    unfold copyUserString
    split
    · exact ⟨rfl, fun _ => rfl⟩
    · exact copyLoop_valid (Or.inl rfl)
  unfold withString
  split
  · rename_i got
    rw [got] at copied
    exact ⟨copied.1, fun _ => rfl⟩
  · rename_i got
    rw [got] at copied
    exact ⟨copied.1, fun member => nomatch copied.2 member⟩

end

theorem stringRead_le (byte : Nat → UInt8) (addr n : Nat) : stringRead byte addr n ≤ n := by
  induction n generalizing addr with
  | zero => exact Nat.le_refl _
  | succ n ih =>
    rw [stringRead]
    split
    · omega
    · have := ih (addr + 1)
      omega

theorem stringRead_nul {byte : Nat → UInt8} {addr i : Nat} (nul : byte (addr + i) = 0) (n : Nat) :
    stringRead byte addr n ≤ i + 1 := by
  induction n generalizing addr i with
  | zero => exact Nat.zero_le _
  | succ n ih =>
    rw [stringRead]
    split
    · omega
    · rename_i other
      cases i with
      | zero => exact absurd nul other
      | succ i =>
        have place : addr + 1 + i = addr + (i + 1) := by omega
        have rest := ih (by rw [place]; exact nul)
        omega

theorem stringRead_long {byte : Nat → UInt8} {addr m n : Nat} (text : ∀ j, j < m → byte (addr + j) ≠ 0) (more : m < n) :
    m < stringRead byte addr n := by
  induction n generalizing addr m with
  | zero => omega
  | succ n ih =>
    rw [stringRead]
    cases m with
    | zero => split <;> omega
    | succ m =>
      have first : byte addr ≠ 0 := text 0 (Nat.succ_pos m)
      rw [if_neg first]
      apply Nat.succ_lt_succ
      apply ih _ (Nat.lt_of_succ_lt_succ more)
      intro j below
      have place : addr + 1 + j = addr + (j + 1) := by omega
      rw [place]
      exact text (j + 1) (Nat.succ_lt_succ below)

section
variable (k : Kernel) (space : UserSpace)

def TextEnds (buf len : Nat) : Prop := ∃ i, space.byte (buf + i) = 0 ∧ buf + i < lastPage buf len + 0x1000

def PathNear (path out : Nat) : Prop :=
  ∀ i, i < (statNode k.vfs space.byte path).2 →
    path + i ≤ userTop ∧ firstPage out ≤ pageOf (path + i) ∧ pageOf (path + i) ≤ lastPage out 16

variable {space} {seen : List (Nat × Nat)}

theorem printed_valid {buf len : Nat} (word : buf < 2 ^ 64) (wordLen : len < 2 ^ 64) :
    Valid space [] (withMapped space buf len (len, [.touch buf (printed space buf len)])) ↔
      (uptrMapped space buf len = true → 2 ^ 31 ≤ len % 2 ^ 32 → TextEnds space buf len) := by
  rw [withMapped_valid word wordLen]
  apply forall_congr'
  intro mapped
  have passed := mapped
  rw [uptrMapped, Bool.and_eq_true] at passed
  obtain ⟨_, low, high⟩ := uptrOk_bounds word wordLen passed.1
  have start : firstPage buf = buf / 0x1000 * 0x1000 := pageOf_eq word
  have stop := lastPage_eq word wordLen passed.1
  have unfolded : Valid space [(firstPage buf, lastPage buf len)] (len, [.touch buf (printed space buf len)]) ↔
      ∀ i, i < printed space buf len → Covered [(firstPage buf, lastPage buf len)] (buf + i) := by
    simp [Valid, Validated]
  rw [unfolded]
  by_cases negative : 2 ^ 31 ≤ len % 2 ^ 32
  · have whole : printed space buf len = stringRead space.byte buf (2 ^ 64) := if_pos negative
    rw [whole]
    constructor
    · intro covered _
      by_contra never
      -- then the byte behind the last page is read
      have text : ∀ j, j < lastPage buf len + 0x1000 - buf → space.byte (buf + j) ≠ 0 :=
        fun j below nul => never ⟨j, nul, by omega⟩
      simp only [userTop] at low high
      have beyond := covered _ (stringRead_long text (by omega))
      obtain ⟨_, range, member, _, last⟩ := beyond
      rw [List.mem_singleton.mp member, pageOf_eq (by omega)] at last
      dsimp only at last
      omega
    · intro ends i below
      obtain ⟨end', nul, inside⟩ := ends negative
      have bound := stringRead_nul nul (2 ^ 64)
      simp only [userTop] at low high
      have here : pageOf (buf + i) = (buf + i) / 0x1000 * 0x1000 := pageOf_eq (by omega)
      refine ⟨by simp only [userTop]; omega, _, List.mem_singleton_self _, ?_⟩
      dsimp only
      omega
  · have part : printed space buf len = stringRead space.byte buf (len % 2 ^ 32) := if_neg negative
    have bound := stringRead_le space.byte buf (len % 2 ^ 32)
    constructor
    · exact fun _ other => absurd other negative
    · intro _ i below
      exact uptrMapped_covers word wordLen mapped (by omega)

theorem sysWrite_valid {fd buf len : Nat} (word : buf < 2 ^ 64) (wordLen : len < 2 ^ 64) :
    Valid space [] (sysWrite k space fd buf len) ↔
      (fd = 1 ∨ fd = 2 → uptrMapped space buf len = true → 2 ^ 31 ≤ len % 2 ^ 32 → TextEnds space buf len) := by
  unfold sysWrite
  split
  · rename_i console
    rw [printed_valid word wordLen]
    exact ⟨fun valid _ => valid, fun valid => valid console⟩
  · rename_i other
    apply iff_of_true _ fun console => absurd console other
    split
    · apply withMapped_inside word wordLen
      split
      · exact inside_nil _ _
      · rename_i node _
        apply (inside_nil _ _).first
        have bound := node.writeBound (k.fdOffset fd) ((List.range len).map fun i => space.byte (buf + i))
        rw [List.length_map, List.length_range] at bound
        exact bound
    · exact ⟨trivial, nofun⟩

theorem sysRead_valid {fd buf len : Nat} (word : buf < 2 ^ 64) (wordLen : len < 2 ^ 64) :
    Valid space seen (sysRead k space fd buf len) := by
  unfold sysRead
  split
  · apply withMapped_inside word wordLen
    exact (inside_nil _ _).first (Nat.min_le_right _ _)
  split
  · apply withMapped_inside word wordLen
    split
    · exact inside_nil _ _
    · rename_i node _
      exact (inside_nil _ _).first (node.readBound _ _)
  · exact ⟨trivial, nofun⟩

theorem sysGetFb_valid {width height pitch : Nat} (wordW : width < 2 ^ 64) (wordH : height < 2 ^ 64) (wordP : pitch < 2 ^ 64) :
    Valid space seen (sysGetFb k space width height pitch) := by
  have small : 8 < 2 ^ 64 := by decide
  unfold sysGetFb
  rw [withMapped_valid wordW small]
  intro mappedW
  rw [withMapped_valid wordH small]
  intro mappedH
  rw [withMapped_valid wordP small]
  intro mappedP
  have older : ∀ {seen : List (Nat × Nat)} {range : Nat × Nat} {addr : Nat}, Covered seen addr → Covered (range :: seen) addr := by
    rintro seen range addr ⟨low, found, member, bounds⟩
    exact ⟨low, found, List.mem_cons_of_mem _ member, bounds⟩
  have touches : Validated space ((firstPage pitch, lastPage pitch 8) :: (firstPage height, lastPage height 8) ::
      (firstPage width, lastPage width 8) :: seen) [.touch width 8, .touch height 8, .touch pitch 8] ∧
      .rejected ∉ [Event.touch width 8, .touch height 8, .touch pitch 8] := by
    apply touches_validated
    intro e member
    simp only [List.mem_cons, List.not_mem_nil, or_false] at member
    rcases member with rfl | rfl | rfl
    · exact ⟨_, _, rfl, fun i below => older (older (uptrMapped_covers wordW small mappedW below))⟩
    · exact ⟨_, _, rfl, fun i below => older (uptrMapped_covers wordH small mappedH below)⟩
    · exact ⟨_, _, rfl, fun i below => uptrMapped_covers wordP small mappedP below⟩
  exact ⟨touches.1, fun member => absurd member touches.2⟩

theorem sysGetdents_valid {fd dir : Nat} (word : dir < 2 ^ 64) : Valid space seen (sysGetdents k space fd dir) := by
  apply withMapped_inside word (by decide)
  split
  · exact (inside_nil _ _).first (Nat.le_refl _)
  · exact inside_nil _ _

theorem sysMouse_valid {out : Nat} (word : out < 2 ^ 64) : Valid space seen (sysMouse space out) := by
  apply withMapped_inside word (by decide)
  exact (((inside_nil _ _).cons (by decide)).cons (by decide)).first (by decide)

theorem sysBlockInfo_valid {idx out : Nat} (word : out < 2 ^ 64) : Valid space seen (sysBlockInfo k space idx out) := by
  apply withMapped_inside word (by decide)
  split
  · exact ((((inside_nil _ _).cons (by decide)).cons (by decide)).cons (by decide)).first (by decide)
  · exact inside_nil _ _

theorem sysPciInfo_valid {idx out : Nat} (word : out < 2 ^ 64) : Valid space seen (sysPciInfo k space idx out) := by
  apply withMapped_inside word (by decide)
  split
  · exact (((inside_nil _ _).cons (by decide)).cons (by decide)).first (by decide)
  · exact inside_nil _ _

theorem sysNetSend_valid {sock buf len : Nat} (word : buf < 2 ^ 64) (wordLen : len < 2 ^ 64) :
    Valid space seen (sysNetSend k space sock buf len) := by
  unfold sysNetSend
  split
  · exact ⟨trivial, nofun⟩
  split
  · exact ⟨trivial, nofun⟩
  · apply withMapped_inside word wordLen
    apply (inside_nil _ _).first
    split <;> omega

theorem sysNetRecv_valid {sock buf len : Nat} (word : buf < 2 ^ 64) (wordLen : len < 2 ^ 64) :
    Valid space seen (sysNetRecv k space sock buf len) := by
  unfold sysNetRecv
  split
  · exact ⟨trivial, nofun⟩
  · apply withMapped_inside word wordLen
    split
    · exact inside_nil _ _
    · apply (inside_nil _ _).first
      split <;> omega

theorem randomLoop_inside (out len n i : Nat) : Inside out len (randomLoop out len n i) := by
  induction n generalizing i with
  | zero => exact inside_nil _ _
  | succ n ih =>
    rw [randomLoop]
    split
    · exact (ih (i + 8)).cons (by omega)
    · exact inside_nil _ _

theorem sysRandom_valid {out len : Nat} (word : out < 2 ^ 64) (wordLen : len < 2 ^ 64) :
    Valid space seen (sysRandom space out len) := by
  unfold sysRandom
  split
  · exact ⟨trivial, nofun⟩
  · exact withMapped_inside word wordLen (randomLoop_inside out len 32 0)

theorem statFields_inside (out : Nat) : Inside out 16 (statFields out).2 :=
  (((inside_nil _ _).cons (by decide)).cons (by decide)).first (by decide)

theorem sysFstat_valid {fd out : Nat} (word : out < 2 ^ 64) : Valid space seen (sysFstat k space fd out) := by
  apply withMapped_inside word (by decide)
  split
  · exact statFields_inside out
  · exact inside_nil _ _

theorem sysStat_valid {path out : Nat} (word : out < 2 ^ 64) :
    Valid space [] (sysStat k space path out) ↔
      (uptrMapped space out 16 = true → uptrOk path 1 = true → PathNear k space path out) := by
  have small : 16 < 2 ^ 64 := by decide
  unfold sysStat
  rw [withMapped_valid word small]
  apply forall_congr'
  intro mapped
  split
  · rename_i outside
    apply iff_of_true
    · exact ⟨rfl, fun _ => rfl⟩
    · exact fun passed => nomatch outside.symm.trans passed
  · rename_i passed
    have ok : uptrOk path 1 = true := Bool.eq_true_of_not_eq_false passed
    -- the bytes of the path are read in any case
    have covered : (∀ i, i < (statNode k.vfs space.byte path).2 → Covered [(firstPage out, lastPage out 16)] (path + i)) ↔
        PathNear k space path out := by
      simp only [PathNear, Covered, List.mem_singleton, exists_eq_left]
    have fields : Validated space [(firstPage out, lastPage out 16)] (statFields out).2 ∧ .rejected ∉ (statFields out).2 :=
      (statFields_inside out).validated fun i below => uptrMapped_covers word small mapped below
    have none := fields.2
    cases found : statNode k.vfs space.byte path with
    | mk node read =>
      rw [found] at covered
      dsimp only at covered
      cases node with
      | none => simp [Valid, Validated, covered, ok]
      | some node => simp [Valid, Validated, covered, ok, fields.1, none]

end

/-- The two ways in which a call could read what it has not checked do not occur. -/
structure PointersOk (k : Kernel) (space : UserSpace) (nr arg1 arg2 arg3 : UInt64) : Prop where
  text : nr = 0 → arg1 = 1 ∨ arg1 = 2 → uptrMapped space arg2.toNat arg3.toNat = true →
    2 ^ 31 ≤ arg3.toNat % 2 ^ 32 → TextEnds space arg2.toNat arg3.toNat
  path : nr = 27 → uptrMapped space arg2.toNat 16 = true → uptrOk arg1.toNat 1 = true →
    PathNear k space arg1.toNat arg2.toNat

theorem syscallHandler_valid (k : Kernel) (space : UserSpace) {nr arg1 arg2 arg3 : UInt64} (write : nr.toNat ≠ 0)
    (stat : nr.toNat ≠ 27) : Valid space [] (syscallHandler k space nr arg1 arg2 arg3) := by
  have word1 := arg1.toNat_lt
  have word2 := arg2.toNat_lt
  have word3 := arg3.toNat_lt
  unfold syscallHandler
  split
  · exact absurd ‹_› write
  · exact sysRead_valid k word2 word3
  · exact sysGetFb_valid k word1 word2 word3
  · exact withString_valid 128 _
  · exact withString_valid 128 _
  · exact sysGetdents_valid k word2
  · exact sysMouse_valid word1
  · exact sysBlockInfo_valid k word2
  · exact sysPciInfo_valid k word2
  · exact withString_valid 128 _
  · exact withString_valid 128 _
  · exact withString_valid 254 _
  · exact sysNetSend_valid k word2 word3
  · exact sysNetRecv_valid k word2 word3
  · exact withMapped_inside word1 (by decide) ((inside_nil _ _).first (Nat.le_refl _))
  · exact sysRandom_valid word1 word2
  · exact absurd ‹_› stat
  · exact sysFstat_valid k word2
  · exact ⟨trivial, nofun⟩

/-- User addresses are used after a check that covers them, exactly when console text ends on
the pages of its buffer and the path of `SYS_STAT` is near its result. -/
theorem syscall_validated (k : Kernel) (space : UserSpace) (nr arg1 arg2 arg3 : UInt64) :
    Valid space [] (syscallHandler k space nr arg1 arg2 arg3) ↔ PointersOk k space nr arg1 arg2 arg3 := by
  have word2 := arg2.toNat_lt
  have word3 := arg3.toNat_lt
  have number : ∀ n : UInt64, nr = n ↔ nr.toNat = n.toNat := fun n => UInt64.toNat_inj.symm
  by_cases write : nr = 0
  · subst write
    have fd : (arg1.toNat = 1 ∨ arg1.toNat = 2) ↔ (arg1 = 1 ∨ arg1 = 2) := by
      rw [← UInt64.toNat_inj, ← UInt64.toNat_inj]
      rfl
    have unfolded : syscallHandler k space 0 arg1 arg2 arg3 = sysWrite k space arg1.toNat arg2.toNat arg3.toNat := rfl
    rw [unfolded, sysWrite_valid k word2 word3, fd]
    exact ⟨fun valid => ⟨fun _ => valid, nofun⟩, fun ok => ok.text rfl⟩
  by_cases stat : nr = 27
  · subst stat
    have unfolded : syscallHandler k space 27 arg1 arg2 arg3 = sysStat k space arg1.toNat arg2.toNat := rfl
    rw [unfolded, sysStat_valid k word2]
    exact ⟨fun valid => ⟨nofun, fun _ => valid⟩, fun ok => ok.path rfl⟩
  · apply iff_of_true
    · exact syscallHandler_valid k space (mt (number 0).mpr write) (mt (number 27).mpr stat)
    · exact ⟨fun here => absurd here write, fun here => absurd here stat⟩

def onePage : UserSpace := ⟨fun page => if page = 0x400000 then 0x5000 else 0, fun _ => 0⟩

def emptyKernel : Kernel where
  fdTable _ := none
  fdOffset _ := 0
  typed := 0
  readdir _ _ := false
  fbVaddr := 0xA0000000
  blockAt _ := false
  pciDeviceAt _ := false
  socketIsValid _ := false
  established _ := false
  rxLen _ := 0
  noData _ := 0
  vfs := ⟨none, [], [], fun _ _ => none⟩
  pathResult _ _ := minusOne
  plainResult _ _ _ := minusOne

/-- `SYS_STAT` reads a path that is not mapped. -/
theorem stat_path_unchecked :
    ¬ ∀ (k : Kernel) (space : UserSpace) (nr arg1 arg2 arg3 : UInt64),
      Valid space [] (syscallHandler k space nr arg1 arg2 arg3) := by
  intro claim
  have valid := claim emptyKernel onePage 27 0x500000 0x400000 0
  have trace : (syscallHandler emptyKernel onePage 27 0x500000 0x400000 0).2 =
      [.found 0x400000 0x400000, .touch 0x500000 1] := by decide +kernel
  rw [Valid, trace] at valid
  obtain ⟨_, range, member, _, last⟩ := valid.1.2.1 0 (by decide)
  rw [List.mem_singleton.mp member] at last
  exact absurd last (by decide)

end RexOs.Arch
