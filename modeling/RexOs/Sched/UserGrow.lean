import RexOs.Arch.BrkHistory
import RexOs.Arch.SyscallSafe
import RexOs.Sched.UserTask

/-! The launcher and the system calls let an address space grow by the frames they take.

This needs that a page is mapped exactly when it gets a frame, and only where there was none: the
code looks neither at the results of `pmm_alloc_frame` and `vmm_map_page_pml4` nor at what is mapped
already.
-/

set_option autoImplicit false

namespace RexOs.Sched

open RexOs.Library RexOs.Mm RexOs.Arch RexOs.Fs

section
variable (fails : Nat → Bool) (platform : Platform)

/-- The page is in the user half and is not mapped, and there is a frame for it exactly when there
are frames for the tables on its path. -/
structure PageGranted (cr3 : Nat) (s : Machine) (page : Nat) : Prop where
  low : LowAddress page
  unmapped : vmmTranslatePml4 s.mem cr3 page = 0
  both : TablesGranted fails (allocFrame fails s).2 cr3 (pathOf page) ↔ (allocFrame fails s).1 ≠ 0

def NewPagesGranted (cr3 flags : Nat) (s : Machine) (page n : Nat) : Prop :=
  ∀ j s', j < n → mapNewPages fails cr3 flags s page j = .ok s' → PageGranted fails cr3 s' (page + j * 0x1000)

/-- The bytes from `dst` on go to the user half, as far as the pages before are mapped. -/
def DataLow (cr3 : Nat) (m : Mem) (dst n : Nat) : Prop :=
  ∀ i, i < n → (∀ j, j < i → vmmTranslatePml4 m cr3 (pageOf ((dst + j) % 2 ^ 64)) ≠ 0) → LowAddress ((dst + i) % 2 ^ 64)

structure SegmentGranted (cr3 : Nat) (s : Machine) (h : Phdr) : Prop where
  pages : NewPagesGranted fails cr3 (segmentFlags h) s (startPage h) (segmentPages h)
  data : ∀ s', mapNewPages fails cr3 (segmentFlags h) s (startPage h) (segmentPages h) = .ok s' →
    DataLow cr3 s'.mem h.vaddr h.filesz

def SegmentsGranted (file : ElfFile) (cr3 : Nat) (s : Machine) (top : Nat) (headers : List Phdr) : Prop :=
  ∀ front h rest highest s', headers = front ++ h :: rest → h.type = ptLoad →
    loadSegments fails file cr3 s top front = .ok (some highest, s') → SegmentGranted fails cr3 s' h

structure LaunchGranted (s : Machine) (cr3 : Nat) (kmalloc : Nat → Option Mem) (file : Option ElfFile) : Prop where
  segments : ∀ file' ehdr headers, readHeaders file kmalloc = some (file', ehdr, headers) →
    SegmentsGranted fails file' cr3 s 0 headers
  stack : ∀ entry brkEnd s', elfLoadEx fails kmalloc cr3 s file = .ok (entry, brkEnd, s') → entry ≠ 0 →
    NewPagesGranted fails cr3 userFlags s' userStackBase (stackSize / 0x1000)

/-- When the page is mapped, its frame is beyond the bitmap, and so is the one it had before, if any. -/
def FbPageGranted (cr3 : Nat) (s : Machine) (page phys : Nat) : Prop :=
  TablesGranted fails s cr3 (pathOf page) →
    s.pmm.totalFrames ≤ (phys &&& addrMask4k) / pageSize ∧
      (vmmTranslatePml4 s.mem cr3 page = 0 ∨ s.pmm.totalFrames ≤ vmmTranslatePml4 s.mem cr3 page / pageSize)

/-- The machine when `sys_get_fb` starts to map pages. -/
def fbStart (s : Machine) (cr3 width height pitch : Nat) : Machine :=
  { s with mem := writeFbSize platform cr3 s.mem width height pitch }

def FbGranted (s : Machine) (cr3 width height pitch : Nat) : Prop :=
  fbPointers s cr3 width height pitch = true →
    let start := fbStart platform s cr3 width height pitch
    ∀ j s', j < fbPages platform → mapFb fails cr3 (fbPhys platform start.mem) start 0 j = .ok s' →
      FbPageGranted fails cr3 s' (fbVaddr + j * 0x1000) ((fbPhys platform start.mem + j * 0x1000) % 2 ^ 64)

end

section
variable {fails : Nat → Bool} {cr3 flags page n : Nat} {s s' : Machine}

theorem grows_same (ok : FramesOk s) (tree : UserTree s cr3) : Grows cr3 s s (NewFrame s s) :=
  (tree.still ok rfl (Allocates.refl _) (not_newFrame rfl)).1

theorem grows_none (ok : FramesOk s) (tree : UserTree s cr3) : Grows cr3 s s fun _ => False :=
  (grows_same ok tree).congr fun k => ⟨not_newFrame rfl k, False.elim⟩

theorem NewPagesGranted.cons {s₁ s₂ : Machine} {phys : Nat} {done : Bool}
    (granted : NewPagesGranted fails cr3 flags s page (n + 1)) (alloc : allocFrame fails s = (phys, s₁))
    (run : vmmMapPagePml4 fails s₁ cr3 page phys flags = .ok (done, s₂)) :
    PageGranted fails cr3 s page ∧
      NewPagesGranted fails cr3 flags { s₂ with mem := fill s₂.mem phys 0x1000 0 } (page + 0x1000) n := by
  constructor
  · have first := granted 0 s (Nat.succ_pos n) rfl
    rw [Nat.zero_mul, Nat.add_zero] at first
    exact first
  · intro j s' inside reached
    have next := granted (j + 1) s' (Nat.succ_lt_succ inside) (by rw [mapNewPages, alloc]; simp only [run]; exact reached)
    rw [show page + (j + 1) * 0x1000 = page + 0x1000 + j * 0x1000 by omega] at next
    exact next

theorem mapNewPages_grows (ok : FramesOk s) (tree : UserTree s cr3) (flagged : PageFlags flags)
    (granted : NewPagesGranted fails cr3 flags s page n) (run : mapNewPages fails cr3 flags s page n = .ok s') :
    Grows cr3 s s' (NewFrame s s') := by
  induction n generalizing s page with
  | zero =>
    cases run
    exact grows_same ok tree
  | succ n ih =>
    rw [mapNewPages] at run
    split at run
    rename_i phys s₁ alloc
    split at run
    · cases run
    · rename_i done s₂ mapped
      obtain ⟨first, rest⟩ := granted.cons alloc mapped
      have both : done = true ↔ phys ≠ 0 := by
        have agree := first.both
        rw [alloc] at agree
        exact (vmmMapPagePml4_granted mapped).trans agree
      have grows := newPage_grows ok tree first.low flagged first.unmapped alloc mapped both
      exact Grows.append grows (ih grows.ok grows.tree rest run)

end

section
variable {cr3 : Nat} {s : Machine} {file : ElfFile}

theorem pageOf_low {v : Nat} (low : LowAddress v) : LowAddress (pageOf v) ∧ pageSize ∣ pageOf v := by
  unfold LowAddress at *
  rw [pageOf_eq (by omega)]
  exact ⟨by omega, Nat.dvd_mul_left _ _⟩

theorem Grows.none {s' s'' : Machine} (first : Grows cr3 s s' fun _ => False) (second : Grows cr3 s' s'' fun _ => False) :
    Grows cr3 s s'' fun _ => False :=
  (first.trans second).congr fun _ => Iff.of_eq (or_false _)

theorem DataLow.rest {dst remaining chunk f : Nat} {m : Mem} (tree : UserTree s cr3) (word : dst < 2 ^ 64)
    (low : DataLow cr3 s.mem dst remaining) (free : Writable s cr3 f) (changed : AgreeOff m s.mem f pageSize)
    (inside : dst % 0x1000 + chunk ≤ 0x1000) (mapped : vmmTranslatePml4 s.mem cr3 (pageOf dst) ≠ 0) :
    DataLow cr3 m ((dst + chunk) % 2 ^ 64) (remaining - chunk) := by
  intro i small before
  have shift : ∀ j, ((dst + chunk) % 2 ^ 64 + j) % 2 ^ 64 = (dst + (chunk + j)) % 2 ^ 64 := by
    intro j
    omega
  -- all pages up to here were mapped before the chunk was written
  have earlier : ∀ j, j < chunk + i → vmmTranslatePml4 s.mem cr3 (pageOf ((dst + j) % 2 ^ 64)) ≠ 0 := by
    intro j
    induction j using Nat.strong_induction_on with
    | _ j ih =>
      intro below
      by_cases first : j < chunk
      · have page : pageOf ((dst + j) % 2 ^ 64) = pageOf dst := by
          rw [pageOf_eq (Nat.mod_lt _ (by decide)), pageOf_eq word]
          omega
        rw [page]
        exact mapped
      · have here := low j (by omega) fun k smaller => ih k smaller (by omega)
        have after := before (j - chunk) (by omega)
        rw [shift, Nat.add_sub_cancel' (by omega), free.translate tree changed (pageOf_low here).1] at after
        exact after
  rw [shift]
  exact low (chunk + i) (by omega) earlier

theorem readPages_grows {fuel dst src remaining : Nat} {done : Bool} {m : Mem} (ok : FramesOk s) (tree : UserTree s cr3)
    (word : dst < 2 ^ 64) (low : DataLow cr3 s.mem dst remaining)
    (run : readPages file cr3 s.mem dst src remaining fuel = (done, m)) :
    Grows cr3 s { s with mem := m } fun _ => False := by
  induction fuel generalizing s dst src remaining with
  | zero =>
    cases run
    exact grows_none ok tree
  | succ fuel ih =>
    rw [readPages] at run
    split at run
    · cases run
      exact grows_none ok tree
    rename_i some'
    split at run
    · cases run
      exact grows_none ok tree
    rename_i mapped
    dsimp only at run
    obtain ⟨_, fits, inside⟩ := chunkAt_bounds dst some'
    have here : LowAddress dst := by
      have first := low 0 (Nat.pos_of_ne_zero some') fun j none => absurd none (Nat.not_lt_zero j)
      rw [Nat.add_zero, Nat.mod_eq_of_lt word] at first
      exact first
    obtain ⟨lowPage, aligned⟩ := pageOf_low here
    obtain ⟨f, free, frame⟩ := writable_of_low tree lowPage
    have frame : vmmTranslatePml4 s.mem cr3 (pageOf dst) = f := by
      rw [Nat.mod_eq_zero_of_dvd aligned, Nat.add_zero] at frame
      exact frame.elim id And.left
    rw [frame] at run
    have changed := readChunk_agree file s.mem f src inside
    have grows := free.grows ok tree changed
    have rest := low.rest tree word free changed inside mapped
    exact Grows.none grows (ih grows.ok grows.tree (Nat.mod_lt _ (by decide)) rest run)

end

section
variable {fails : Nat → Bool} {cr3 : Nat} {s s' : Machine} {file : ElfFile}

theorem Grows.then {s₁ s₂ : Machine} (first : Grows cr3 s s₁ (NewFrame s s₁)) (second : Grows cr3 s₁ s₂ fun _ => False)
    (pmm : s₂.pmm = s₁.pmm) : Grows cr3 s s₂ (NewFrame s s₂) := by
  apply (first.trans second).congr
  intro k
  rw [or_false, NewFrame, NewFrame, pmm]

theorem loadSegment_grows {h : Phdr} {done : Bool} (ok : FramesOk s) (tree : UserTree s cr3) (word : h.vaddr < 2 ^ 64)
    (granted : SegmentGranted fails cr3 s h) (run : loadSegment fails file cr3 s h = .ok (done, s')) :
    Grows cr3 s s' (NewFrame s s') := by
  rw [loadSegment] at run
  split at run
  · cases run
  · rename_i s₁ mapped
    have grows := mapNewPages_grows ok tree (segmentFlags_page h) granted.pages mapped
    split at run
    rename_i done' mem read
    cases run
    exact Grows.then grows (readPages_grows grows.ok grows.tree word (granted.data s₁ mapped) read) rfl

theorem loadSegments_grows {headers : List Phdr} {top : Nat} {r : Option Nat} (ok : FramesOk s) (tree : UserTree s cr3)
    (words : ∀ h ∈ headers, h.vaddr < 2 ^ 64) (granted : SegmentsGranted fails file cr3 s top headers)
    (run : loadSegments fails file cr3 s top headers = .ok (r, s')) : Grows cr3 s s' (NewFrame s s') := by
  induction headers generalizing s top with
  | nil =>
    cases run
    exact grows_same ok tree
  | cons h rest ih =>
    have words' : ∀ h ∈ rest, h.vaddr < 2 ^ 64 := fun h' member => words h' (List.mem_cons_of_mem h member)
    rw [loadSegments] at run
    split at run
    · rename_i load
      have here : SegmentGranted fails cr3 s h := granted [] h rest top s rfl load rfl
      split at run
      · cases run
      · rename_i loaded
        cases run
        exact loadSegment_grows ok tree (words h List.mem_cons_self) here loaded
      · rename_i s₁ loaded
        have grows := loadSegment_grows ok tree (words h List.mem_cons_self) here loaded
        apply Grows.append grows
        apply ih grows.ok grows.tree words' _ run
        intro front h' rest' highest s₂ parts load' reached
        apply granted (h :: front) h' rest' highest s₂ (by rw [parts]; rfl) load'
        rw [loadSegments, if_pos load]
        simp only [loaded]
        exact reached
    · rename_i skip
      apply ih ok tree words' _ run
      intro front h' rest' highest s₂ parts load' reached
      apply granted (h :: front) h' rest' highest s₂ (by rw [parts]; rfl) load'
      rw [loadSegments, if_neg skip]
      exact reached

theorem phdrs_word {h : Ehdr} {buf : Mem} : ∀ p ∈ phdrs h buf, p.vaddr < 2 ^ 64 := by
  intro p member
  obtain ⟨i, _, rfl⟩ := List.mem_map.mp member
  exact Nat.lt_of_lt_of_le (load_lt _ _ 8) (by decide)

theorem readHeaders_word {file : Option ElfFile} {kmalloc : Nat → Option Mem} {file' : ElfFile} {ehdr : Ehdr}
    {headers : List Phdr} (found : readHeaders file kmalloc = some (file', ehdr, headers)) :
    ∀ h ∈ headers, h.vaddr < 2 ^ 64 := by
  obtain ⟨buf, rfl⟩ := readHeaders_phdrs found
  exact phdrs_word

theorem elfLoadEx_grows {kmalloc : Nat → Option Mem} {file : Option ElfFile} {entry brkEnd : Nat} (ok : FramesOk s)
    (tree : UserTree s cr3)
    (granted : ∀ file' ehdr headers, readHeaders file kmalloc = some (file', ehdr, headers) →
      SegmentsGranted fails file' cr3 s 0 headers)
    (run : elfLoadEx fails kmalloc cr3 s file = .ok (entry, brkEnd, s')) : Grows cr3 s s' (NewFrame s s') := by
  rw [elfLoadEx] at run
  split at run
  · cases run
    exact grows_same ok tree
  · rename_i file' ehdr headers found
    have words := readHeaders_word found
    split at run
    · cases run
    · rename_i loaded
      cases run
      exact loadSegments_grows ok tree words (granted _ _ _ found) loaded
    · rename_i loaded
      cases run
      exact loadSegments_grows ok tree words (granted _ _ _ found) loaded

end

section
variable {fails : Nat → Bool} {platform : Platform} {s s' : Machine} {t t' : Arch.Task}

theorem userTaskLauncher_grows {kmalloc : Nat → Option Mem} {file : Option ElfFile} {alive : Bool} (ok : FramesOk s)
    (tree : UserTree s t.cr3) (granted : LaunchGranted fails s t.cr3 kmalloc file)
    (run : userTaskLauncher fails s t kmalloc file = .ok (alive, t', s')) :
    t'.cr3 = t.cr3 ∧ Grows t.cr3 s s' (NewFrame s s') := by
  rw [userTaskLauncher] at run
  split at run
  · cases run
  · rename_i entry brkEnd s₁ loaded
    have grows := elfLoadEx_grows ok tree granted.segments loaded
    split at run
    · cases run
      exact ⟨rfl, grows⟩
    · rename_i real
      split at run
      · cases run
      · rename_i s₂ stacked
        have grows₂ := mapNewPages_grows grows.ok grows.tree userFlags_page (granted.stack _ _ _ loaded real) stacked
        cases run
        refine ⟨rfl, ?_⟩
        have whole := Grows.append grows grows₂
        split
        · -- the top of the stack is in one frame
          rename_i mapped
          have low : LowAddress (userStackTop - 8) := by unfold LowAddress; decide
          obtain ⟨f, free, address⟩ := writable_of_low grows₂.tree low
          have place : vmmTranslatePml4 s₂.mem t.cr3 (userStackTop - 8) = f + 4088 := by
            rcases address with here | ⟨here, zero⟩
            · exact here
            · exact absurd (here.trans zero) mapped
          rw [place]
          exact Grows.then whole (free.grows grows₂.ok grows₂.tree (store_agreeOff (by omega) (by simp only [pageSize]; omega))) rfl
        · exact whole

theorem allocFrame_failed {cr3 : Nat} (ok : FramesOk s) (tree : UserTree s cr3) (failed : allocFrame fails s = (0, s')) :
    Grows cr3 s s' (NewFrame s s') := by
  obtain ⟨s₁, mem, ok₁, pmm, result⟩ := allocFrame_exact fails ok
  rcases result with ⟨none, still⟩ | ⟨k, got, nonzero, _⟩
  · rw [none] at failed
    cases failed
    exact (tree.still ok₁ mem pmm still).1
  · rw [got] at failed
    exact absurd (Prod.mk.inj failed).1 (Nat.mul_ne_zero nonzero (by decide))

theorem growHeap_grows {cr3 page n : Nat} {done : Bool} (ok : FramesOk s) (tree : UserTree s cr3)
    (low : ∀ j, j < n → LowAddress (page + j * 0x1000)) (granted : HeapGranted fails cr3 s page n)
    (run : growHeap fails cr3 s page n = .ok (done, s')) : Grows cr3 s s' (NewFrame s s') := by
  induction n generalizing s page with
  | zero =>
    cases run
    exact grows_same ok tree
  | succ n ih =>
    have low' : ∀ j, j < n → LowAddress (page + 0x1000 + j * 0x1000) := by
      intro j inside
      have next := low (j + 1) (Nat.succ_lt_succ inside)
      rw [show page + (j + 1) * 0x1000 = page + 0x1000 + j * 0x1000 by omega] at next
      exact next
    rw [growHeap] at run
    rw [HeapGranted] at granted
    split at run
    · rename_i mapped
      rw [if_pos mapped] at granted
      exact ih ok tree low' granted run
    · rename_i unmapped
      rw [if_neg unmapped] at granted
      split at run
      rename_i phys s₁ alloc
      rw [alloc] at granted
      split at run
      · rename_i zero
        cases run
        rw [zero] at alloc
        exact allocFrame_failed ok tree alloc
      · rename_i nonzero
        obtain ⟨tables, rest⟩ := granted.resolve_left nonzero
        split at run
        · cases run
        · rename_i done' s₂ mapped
          have both : done' = true ↔ phys ≠ 0 := by
            rw [vmmMapPagePml4_granted mapped]
            exact ⟨fun _ => nonzero, fun _ => tables⟩
          have here : LowAddress page := low 0 (Nat.succ_pos n)
          have grows := newPage_grows ok tree here userFlags_page (Classical.not_not.mp unmapped) alloc mapped both
          exact Grows.append grows (ih grows.ok grows.tree low' (rest _ _ mapped) run)

theorem sysBrk_grows {arg1 result : Nat} (ok : FramesOk s) (tree : UserTree s t.cr3) (granted : CallGranted fails s t arg1)
    (run : sysBrk fails s t arg1 = .ok (result, t', s')) : t'.cr3 = t.cr3 ∧ Grows t.cr3 s s' (NewFrame s s') := by
  rw [sysBrk] at run
  split at run
  · cases run
    exact ⟨rfl, grows_same ok tree⟩
  dsimp only at run
  split at run
  · cases run
    exact ⟨rfl, grows_same ok tree⟩
  split at run
  · cases run
    exact ⟨rfl, grows_same ok tree⟩
  rename_i capped
  have low : ∀ j, j < newPages t (pageUp arg1) → LowAddress (pageUp t.brkCurrent + j * 0x1000) := by
    intro j inside
    unfold newPages at inside
    unfold LowAddress
    simp only [heapCap] at capped
    omega
  have granted' := granted (Nat.le_of_not_lt capped)
  split at run
  · cases run
  · rename_i grown
    cases run
    exact ⟨rfl, growHeap_grows ok tree low granted' grown⟩
  · rename_i grown
    cases run
    exact ⟨rfl, growHeap_grows ok tree low granted' grown⟩

theorem writeUser_grows (value : Nat) {cr3 v n : Nat} (ok : FramesOk s) (tree : UserTree s cr3)
    (low : ∀ j, j < n → LowAddress (v + j)) :
    Grows cr3 s { s with mem := writeUser cr3 s.mem v value n } fun _ => False := by
  induction n generalizing s v value with
  | zero => exact grows_none ok tree
  | succ n ih =>
    obtain ⟨f, free, address⟩ := writable_of_low tree (low 0 (Nat.succ_pos n))
    have changed : AgreeOff (Function.update s.mem (vmmTranslatePml4 s.mem cr3 v) (UInt8.ofNat (value % 256))) s.mem f
        pageSize := by
      intro x outside
      have offset := Nat.mod_lt (v + 0) (show 0 < pageSize by decide)
      rw [Nat.add_zero] at address offset
      exact Function.update_of_ne (by omega) _ _
    have grows := free.grows ok tree changed
    have low' : ∀ j, j < n → LowAddress (v + 1 + j) := by
      intro j inside
      have next := low (j + 1) (Nat.succ_lt_succ inside)
      rw [show v + (j + 1) = v + 1 + j by omega] at next
      exact next
    exact Grows.none grows (ih (value / 256) grows.ok grows.tree low')

theorem fbPage_grows {cr3 page phys : Nat} {done : Bool} (ok : FramesOk s) (tree : UserTree s cr3) (low : LowAddress page)
    (granted : FbPageGranted fails cr3 s page phys)
    (run : vmmMapPagePml4 fails s cr3 page phys userFlags = .ok (done, s')) : Grows cr3 s s' (NewFrame s s') := by
  obtain ⟨s₁, grows, pages, same, mapped⟩ := vmmMapPagePml4_user ok tree low run
  cases done with
  | false =>
    rw [same rfl]
    exact grows
  | true =>
    obtain ⟨beyond, before⟩ := granted ((vmmMapPagePml4_granted run).mp rfl)
    obtain ⟨pt, found, rfl⟩ := mapped rfl
    have free : userFrame s cr3 (placeOf page) = none := by
      rcases translate_user tree low with ⟨_, none⟩ | ⟨f, aligned, address, some' | ⟨none, _⟩⟩
      · exact none
      · -- a frame of the bitmap would be lost
        obtain ⟨k, rfl, nonzero, inside, _⟩ := tree.frames _ _ (Nat.le_of_eq (placeOf_length page)) some'
        have offset := Nat.mod_lt page (show 0 < pageSize by decide)
        rw [address, frame_offset aligned] at before
        have := Nat.pos_of_ne_zero nonzero
        simp only [pageSize] at *
        omega
      · exact none
    have last := setEntry_beyond grows.ok grows.tree (isFrame_and phys) userFlags_page found (pathOf_length page)
      (pages.unmapped free) (by rw [grows.pmm.total]; exact beyond)
    exact Grows.then grows last rfl

theorem mapFb_grows {cr3 base offset n : Nat} (ok : FramesOk s) (tree : UserTree s cr3)
    (low : ∀ j, j < n → LowAddress (fbVaddr + (offset + j * 0x1000)))
    (granted : ∀ j s', j < n → mapFb fails cr3 base s offset j = .ok s' →
      FbPageGranted fails cr3 s' (fbVaddr + (offset + j * 0x1000)) ((base + (offset + j * 0x1000)) % 2 ^ 64))
    (run : mapFb fails cr3 base s offset n = .ok s') : Grows cr3 s s' (NewFrame s s') := by
  induction n generalizing s offset with
  | zero =>
    cases run
    exact grows_same ok tree
  | succ n ih =>
    have shift : ∀ j, offset + (j + 1) * 0x1000 = offset + 0x1000 + j * 0x1000 := by
      intro j
      omega
    have first := low 0 (Nat.succ_pos n)
    have granted₀ := granted 0 s (Nat.succ_pos n) rfl
    rw [Nat.zero_mul, Nat.add_zero] at first granted₀
    rw [mapFb] at run
    split at run
    · cases run
    · rename_i mapped
      have grows := fbPage_grows ok tree first granted₀ mapped
      apply Grows.append grows
      apply ih grows.ok grows.tree _ _ run
      · intro j inside
        rw [← shift]
        exact low (j + 1) (Nat.succ_lt_succ inside)
      · intro j s₂ inside reached
        rw [← shift]
        apply granted (j + 1) s₂ (Nat.succ_lt_succ inside)
        rw [mapFb]
        simp only [mapped]
        exact reached

theorem fbPages_le (platform : Platform) : fbPages platform ≤ 2 ^ 20 := by
  unfold fbPages
  have := (platform.fb.pitch * platform.fb.height).toNat_lt
  omega

theorem uptrMapped_low {cr3 ptr : Nat} (good : uptrMapped (spaceOf s cr3) ptr 8 = true) :
    ∀ j, j < 8 → LowAddress (ptr + j) := by
  obtain ⟨ok, _⟩ := (Bool.and_eq_true _ _).mp good
  have top : userTop < 2 ^ 47 := by decide
  have word : ptr < 2 ^ 64 := by
    by_contra large
    have beyond : ptr > userTop := by omega
    have nonzero : ptr ≠ 0 := by omega
    rw [uptrOk, if_neg nonzero, if_pos beyond] at ok
    cases ok
  obtain ⟨_, _, last⟩ := uptrOk_bounds word (by decide) ok
  intro j inside
  unfold LowAddress
  omega

theorem sysGetFb_grows {width height pitch : Nat} (ok : FramesOk s) (tree : UserTree s t.cr3)
    (granted : FbGranted fails platform s t.cr3 width height pitch)
    (run : sysGetFb fails platform s t width height pitch = .ok s') : Grows t.cr3 s s' (NewFrame s s') := by
  rw [sysGetFb] at run
  split at run
  · rename_i good
    have pages := granted good
    rw [fbPointers, Bool.and_eq_true, Bool.and_eq_true] at good
    obtain ⟨⟨goodWidth, goodHeight⟩, goodPitch⟩ := good
    have grows₁ := writeUser_grows platform.fb.width.toNat ok tree (uptrMapped_low goodWidth)
    have grows₂ := writeUser_grows platform.fb.height.toNat grows₁.ok grows₁.tree (uptrMapped_low goodHeight)
    have grows₃ := writeUser_grows platform.fb.pitch.toNat grows₂.ok grows₂.tree (uptrMapped_low goodPitch)
    have written := Grows.none (Grows.none grows₁ grows₂) grows₃
    have before : Grows t.cr3 s (fbStart platform s t.cr3 width height pitch)
        (NewFrame s (fbStart platform s t.cr3 width height pitch)) := Grows.then (grows_same ok tree) written rfl
    apply Grows.append before
    apply mapFb_grows before.ok before.tree _ _ run
    · intro j inside
      have := fbPages_le platform
      unfold LowAddress fbVaddr
      omega
    · intro j s₂ inside reached
      rw [Nat.zero_add]
      exact pages j s₂ inside reached
  · cases run
    exact grows_same ok tree

end

end RexOs.Sched
