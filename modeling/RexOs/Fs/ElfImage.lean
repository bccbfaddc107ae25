import RexOs.Fs.ElfPages

/-! The image that the ELF loader leaves.

Each segment gets new frames of zeros for all its pages, also for a page that an earlier segment has
been read into.
-/

set_option autoImplicit false

namespace RexOs.Fs

open RexOs.Library RexOs.Mm RexOs.Arch

def Phdr.HasPage (h : Phdr) (q : Nat) : Prop := startPage h ≤ q * pageSize ∧ q * pageSize < endPage h

instance (h : Phdr) (q : Nat) : Decidable (h.HasPage q) := inferInstanceAs (Decidable (_ ∧ _))

def segmentByte (content : List UInt8) (h : Phdr) (i : Nat) : UInt8 := if i < h.filesz then content.getD (h.offset + i) 0 else 0

def headersOf (content : List UInt8) : List Phdr :=
  (List.range (ehdrAt (bytesAt content)).phnum).map fun i =>
    phdrAt (bytesAt content) ((ehdrAt (bytesAt content)).phoff + i * (ehdrAt (bytesAt content)).phentsize)

def loads (headers : List Phdr) : List Phdr := headers.filter fun h => h.type = ptLoad

structure SegmentFits (content : List UInt8) (h : Phdr) : Prop where
  filesz : h.filesz ≤ h.memsz
  inside : h.offset + h.filesz ≤ content.length
  low : h.vaddr + h.memsz ≤ 2 ^ 47

def Phdr.Apart (h h' : Phdr) : Prop :=
  ∀ v, h.vaddr ≤ v → v < h.vaddr + h.memsz → ¬(h'.vaddr ≤ v ∧ v < h'.vaddr + h'.memsz)

structure ElfFormed (content : List UInt8) : Prop where
  size : content.length < 2 ^ 64
  header : ehdrSize ≤ content.length
  magic : content.take 4 = elfMagic
  entries : (ehdrAt (bytesAt content)).phentsize = 56
  table : (ehdrAt (bytesAt content)).phoff + 56 * (ehdrAt (bytesAt content)).phnum ≤ content.length
  fits : ∀ h ∈ loads (headersOf content), SegmentFits content h
  apart : (loads (headersOf content)).Pairwise Phdr.Apart

def SegmentLoaded (cr3 : Nat) (m : Mem) (content : List UInt8) (h : Phdr) : Prop :=
  ∀ i, i < h.memsz → vmmTranslatePml4 m cr3 (h.vaddr + i) ≠ 0 ∧ userByte cr3 m (h.vaddr + i) = segmentByte content h i

def Spares (content : List UInt8) (h h' : Phdr) : Prop :=
  ∀ i, i < h.filesz → h'.HasPage ((h.vaddr + i) / pageSize) → content.getD (h.offset + i) 0 = 0

def loadImage (content : List UInt8) (old : Nat → UInt8) (h : Phdr) (v : Nat) : UInt8 :=
  if h.vaddr ≤ v ∧ v < h.vaddr + h.filesz then content.getD (h.offset + (v - h.vaddr)) 0
  else if h.HasPage (v / pageSize) then 0
  else old v

def image (content : List UInt8) (old : Nat → UInt8) (segments : List Phdr) : Nat → UInt8 := segments.foldl (loadImage content) old

section
variable {content : List UInt8} {h : Phdr} {segments : List Phdr} {old : Nat → UInt8}

theorem SegmentFits.pages (fits : SegmentFits content h) : startPage h = h.vaddr / pageSize * pageSize ∧
    endPage h = (h.vaddr + h.memsz + 0xFFF) / pageSize * pageSize ∧
    startPage h + segmentPages h * pageSize = endPage h := by
  have low := fits.low
  have first : startPage h = h.vaddr / pageSize * pageSize := pageOf_eq (by omega)
  have last : endPage h = (h.vaddr + h.memsz + 0xFFF) / pageSize * pageSize := by
    rw [endPage, Nat.mod_eq_of_lt (by omega)]
    exact pageOf_eq (by omega)
  refine ⟨first, last, ?_⟩
  rw [segmentPages, first, last]
  simp only [pageSize]
  omega

theorem SegmentFits.hasPage (fits : SegmentFits content h) {v : Nat} (low : h.vaddr ≤ v) (high : v < h.vaddr + h.memsz) :
    h.HasPage (v / pageSize) := by
  obtain ⟨first, last, -⟩ := fits.pages
  rw [Phdr.HasPage, first, last]
  simp only [pageSize]
  omega

theorem image_later {v : Nat} (apart : ∀ h ∈ segments, ¬(h.vaddr ≤ v ∧ v < h.vaddr + h.filesz)) :
    image content old segments v = if ∃ h ∈ segments, h.HasPage (v / pageSize) then 0 else old v := by
  induction segments generalizing old with
  | nil =>
    rw [if_neg (by simp)]
    rfl
  | cons h segments ih =>
    have here : loadImage content old h v = if h.HasPage (v / pageSize) then 0 else old v :=
      if_neg (apart h List.mem_cons_self)
    show image content (loadImage content old h) segments v = _
    rw [ih fun h' member => apart h' (List.mem_cons_of_mem h member), here]
    by_cases later : ∃ h' ∈ segments, h'.HasPage (v / pageSize)
    · rw [if_pos later, if_pos]
      obtain ⟨h', member, page⟩ := later
      exact ⟨h', List.mem_cons_of_mem h member, page⟩
    · rw [if_neg later]
      by_cases page : h.HasPage (v / pageSize)
      · rw [if_pos page, if_pos ⟨h, List.mem_cons_self, page⟩]
      · rw [if_neg page, if_neg]
        rintro ⟨h', member, page'⟩
        rcases List.mem_cons.mp member with rfl | member
        · exact page page'
        · exact later ⟨h', member, page'⟩

theorem image_congr {old' : Nat → UInt8} {v : Nat} (same : old v = old' v ∨ ∃ h ∈ segments, h.HasPage (v / pageSize)) :
    image content old segments v = image content old' segments v := by
  induction segments generalizing old old' with
  | nil => exact same.resolve_right (by simp)
  | cons h segments ih =>
    refine ih ?_
    rw [loadImage, loadImage]
    split
    · exact Or.inl rfl
    split
    · exact Or.inl rfl
    · rename_i page
      refine same.imp_right ?_
      rintro ⟨h', member, page'⟩
      rcases List.mem_cons.mp member with rfl | member
      · exact absurd page' page
      · exact ⟨h', member, page'⟩

theorem image_iff (fits : ∀ h ∈ segments, SegmentFits content h) (apart : segments.Pairwise Phdr.Apart) :
    (∀ h ∈ segments, ∀ i, i < h.memsz → image content old segments (h.vaddr + i) = segmentByte content h i) ↔
      segments.Pairwise (Spares content) := by
  induction segments generalizing old with
  | nil => simp
  | cons h segments ih =>
    obtain ⟨first, rest⟩ := List.pairwise_cons.mp apart
    have fitsH := fits h List.mem_cons_self
    have fitsRest := fun h' member => fits h' (List.mem_cons_of_mem h member)
    rw [List.forall_mem_cons, List.pairwise_cons, ← @ih (loadImage content old h) fitsRest rest]
    refine and_congr_left fun _ => ?_
    -- what is left of the first segment
    have left : ∀ i, i < h.memsz → image content old (h :: segments) (h.vaddr + i) =
        if ∃ h' ∈ segments, h'.HasPage ((h.vaddr + i) / pageSize) then 0 else segmentByte content h i := by
      intro i inside
      have others : ∀ h' ∈ segments, ¬(h'.vaddr ≤ h.vaddr + i ∧ h.vaddr + i < h'.vaddr + h'.filesz) := by
        rintro h' member ⟨low, high⟩
        have bound := (fitsRest h' member).filesz
        exact first h' member (h.vaddr + i) (by omega) (by omega) ⟨low, by omega⟩
      have own : loadImage content old h (h.vaddr + i) = segmentByte content h i := by
        rw [loadImage, segmentByte, Nat.add_sub_cancel_left, if_pos (fitsH.hasPage (by omega) (by omega))]
        by_cases file : i < h.filesz
        · rw [if_pos (by omega), if_pos file]
        · rw [if_neg (by omega), if_neg file]
      show image content (loadImage content old h) segments (h.vaddr + i) = _
      rw [image_later others, own]
    constructor
    · intro loaded h' member i file page
      have inside : i < h.memsz := Nat.lt_of_lt_of_le file fitsH.filesz
      have byte := loaded i inside
      rw [left i inside, if_pos ⟨h', member, page⟩, segmentByte, if_pos file] at byte
      exact byte.symm
    · intro spared i inside
      rw [left i inside]
      split
      · rename_i page
        obtain ⟨h', member, page⟩ := page
        rw [segmentByte]
        split
        · rename_i file
          exact (spared h' member i file page).symm
        · rfl
      · rfl

end

section
variable {cr3 n : Nat} {s : Machine} {P : Nat → Prop} {frame : Nat → Nat} {file : ElfFile} {content : List UInt8} {h : Phdr}

structure LeavesImage (cr3 : Nat) (content : List UInt8) (segments : List Phdr) (s s' : Machine) (P : Nat → Prop) (frame : Nat → Nat) : Prop where
  backed : Backed cr3 s' (fun q => P q ∨ ∃ h ∈ segments, h.HasPage q) frame
  bytes : ∀ v, (P (v / pageSize) ∨ ∃ h ∈ segments, h.HasPage (v / pageSize)) →
    userByte cr3 s'.mem v = image content (userByte cr3 s.mem) segments v

theorem loadSegment_loads (backed : Backed cr3 s P frame) (plenty : Plenty s.pmm (n + 4 * segmentPages h))
    (reads : Reads file content) (small : content.length < 2 ^ 64) (fits : SegmentFits content h) :
    ∃ s' frame', loadSegment (fun _ => false) file cr3 s h = .ok (true, s') ∧
      LeavesImage cr3 content [h] s s' P frame' ∧ Plenty s'.pmm n := by
  obtain ⟨first, last, count⟩ := fits.pages
  have low := fits.low
  -- the pages by their numbers
  have numbers : ∀ q, h.HasPage q ↔ h.vaddr / pageSize ≤ q ∧ q < h.vaddr / pageSize + segmentPages h := by
    intro q
    rw [Phdr.HasPage, ← count, first]
    simp only [pageSize]
    omega
  have lowPages : ∀ q, h.vaddr / pageSize ≤ q → q < h.vaddr / pageSize + segmentPages h → LowAddress (q * pageSize) := by
    intro q from_ below
    have page := ((numbers q).mpr ⟨from_, below⟩).2
    rw [last] at page
    simp only [LowAddress, pageSize] at *
    omega
  obtain ⟨s₁, frame₁, run, maps, left⟩ := backed.mapRun plenty lowPages (segmentFlags_page h)
  have there : ∀ v, h.vaddr ≤ v → v < h.vaddr + h.filesz →
      P (v / pageSize) ∨ h.vaddr / pageSize ≤ v / pageSize ∧ v / pageSize < h.vaddr / pageSize + segmentPages h :=
    fun v begins ends => Or.inr ((numbers _).mp (fits.hasPage begins (Nat.lt_of_lt_of_le ends (Nat.add_le_add_left fits.filesz _))))
  have lowFile : h.vaddr + h.filesz ≤ 2 ^ 47 := Nat.le_trans (Nat.add_le_add_left fits.filesz _) low
  obtain ⟨m, read, backed', bytes⟩ := maps.backed.read reads there fits.inside small lowFile (Nat.le_refl _)
  refine ⟨{ s₁ with mem := m }, frame₁, ?_, ⟨backed'.congr fun q => ?_, fun v at_ => ?_⟩, left⟩
  · rw [loadSegment, first, run]
    dsimp only
    rw [read]
  · rw [← numbers]
    simp
  · have one : (∃ h' ∈ [h], h'.HasPage (v / pageSize)) ↔ h.HasPage (v / pageSize) := by simp
    rw [one, numbers] at at_
    show userByte cr3 m v = loadImage content (userByte cr3 s.mem) h v
    rw [bytes v at_, loadImage]
    split
    · rfl
    by_cases page : h.HasPage (v / pageSize)
    · rw [if_pos page]
      exact maps.zero _ ((numbers _).mp page).1 ((numbers _).mp page).2 v rfl
    · rw [if_neg page]
      rw [numbers] at page
      exact maps.others _ (at_.resolve_right page) page v rfl

def pagesOf : List Phdr → Nat
  | [] => 0
  | h :: rest => segmentPages h + pagesOf rest

theorem loadSegments_loads {headers : List Phdr} {highest : Nat} (backed : Backed cr3 s P frame)
    (plenty : Plenty s.pmm (n + 4 * pagesOf (loads headers))) (reads : Reads file content) (small : content.length < 2 ^ 64)
    (fits : ∀ h ∈ loads headers, SegmentFits content h) (bound : highest ≤ 2 ^ 47) :
    ∃ top s' frame', loadSegments (fun _ => false) file cr3 s highest headers = .ok (some top, s') ∧
      highest ≤ top ∧ top ≤ 2 ^ 47 ∧ (∀ h ∈ loads headers, h.vaddr + h.memsz ≤ top) ∧
      LeavesImage cr3 content (loads headers) s s' P frame' ∧ Plenty s'.pmm n := by
  induction headers generalizing s P frame highest with
  | nil =>
    refine ⟨highest, s, frame, rfl, Nat.le_refl _, bound, by simp [loads], ⟨backed.congr fun q => by simp [loads], fun _ _ => rfl⟩, ?_⟩
    simpa [loads, pagesOf] using plenty
  | cons h headers ih =>
    by_cases load : h.type = ptLoad
    · have split : loads (h :: headers) = h :: loads headers := by simp [loads, load]
      rw [split] at plenty fits ⊢
      have fitsH := fits h List.mem_cons_self
      have low := fitsH.low
      have pages : n + 4 * pagesOf (h :: loads headers) = n + 4 * pagesOf (loads headers) + 4 * segmentPages h := by
        rw [pagesOf]
        omega
      rw [pages] at plenty
      obtain ⟨s₁, frame₁, run, ⟨backed₁, bytes₁⟩, left⟩ := loadSegment_loads backed plenty reads small fitsH
      have segEnd : (h.vaddr + h.memsz) % 2 ^ 64 = h.vaddr + h.memsz := Nat.mod_eq_of_lt (by omega)
      have bound' : (if h.vaddr + h.memsz > highest then h.vaddr + h.memsz else highest) ≤ 2 ^ 47 := by split <;> omega
      obtain ⟨top, s', frame', rest, above, below, ends, ⟨backed', bytes'⟩, left'⟩ :=
        ih backed₁ left (fun h' member => fits h' (List.mem_cons_of_mem h member)) bound'
      have higher : highest ≤ top ∧ h.vaddr + h.memsz ≤ top := by
        split at above <;> omega
      refine ⟨top, s', frame', ?_, higher.1, below, ?_, ⟨backed'.congr fun q => ?_, fun v at_ => ?_⟩, left'⟩
      · rw [loadSegments, if_pos load]
        dsimp only
        rw [run, segEnd]
        exact rest
      · intro h' member
        rcases List.mem_cons.mp member with rfl | member
        · exact higher.2
        · exact ends h' member
      · simp [or_assoc]
      · rw [bytes' v (by simpa [or_assoc] using at_)]
        refine image_congr ?_
        by_cases now : P (v / pageSize) ∨ h.HasPage (v / pageSize)
        · exact Or.inl (bytes₁ v (by simpa using now))
        · rw [List.exists_mem_cons_iff, ← or_assoc] at at_
          exact Or.inr (at_.resolve_left now)
    · have split : loads (h :: headers) = loads headers := by simp [loads, load]
      rw [split] at plenty fits ⊢
      rw [loadSegments, if_neg load]
      exact ih backed plenty fits bound

theorem load_taken (content : List UInt8) (base : Nat) {size a k : Nat} (inside : a + k ≤ size) :
    load (bytesAt ((content.drop base).take size)) a k = load (bytesAt content) (base + a) k := by
  rw [← load_shift]
  refine load_congr fun x low high => ?_
  rw [bytesAt_taken content (by omega), bytesAt]

theorem ehdrAt_taken (content : List UInt8) : ehdrAt (bytesAt (content.take ehdrSize)) = ehdrAt (bytesAt content) := by
  have field : ∀ a k, a + k ≤ ehdrSize → load (bytesAt (content.take ehdrSize)) a k = load (bytesAt content) a k := by
    intro a k inside
    have same := load_taken content 0 inside
    rwa [List.drop_zero, Nat.zero_add] at same
  rw [ehdrAt, ehdrAt, field 24 8 (by decide), field 32 8 (by decide), field 54 2 (by decide), field 56 2 (by decide)]

theorem phdrAt_taken (content : List UInt8) (heap : Mem) (base : Nat) {size a : Nat} (inside : a + 56 ≤ size)
    (whole : base + size ≤ content.length) :
    phdrAt (paste heap 0 ((content.drop base).take size).length (bytesAt ((content.drop base).take size))) a =
      phdrAt (bytesAt content) (base + a) := by
  have length : ((content.drop base).take size).length = size := by
    rw [List.length_take, List.length_drop]
    omega
  have field : ∀ o k, o + k ≤ 56 →
      load (paste heap 0 ((content.drop base).take size).length (bytesAt ((content.drop base).take size))) (a + o) k =
        load (bytesAt content) (base + a + o) k := by
    intro o k fits
    rw [Nat.add_assoc, ← load_taken content base (by omega : a + o + k ≤ size)]
    refine load_congr fun x low high => ?_
    rw [length, paste_inside _ (Nat.zero_le x) (by omega), Nat.sub_zero]
  have type := field 0 4 (by decide)
  rw [Nat.add_zero, Nat.add_zero] at type
  rw [phdrAt, phdrAt, type, field 4 4 (by decide), field 8 8 (by decide), field 16 8 (by decide), field 32 8 (by decide),
    field 40 8 (by decide)]

theorem readHeaders_formed {kmalloc : Nat → Option Mem} {heap : Mem} (formed : ElfFormed content) (reads : Reads file content)
    (granted : kmalloc (phSize (ehdrAt (bytesAt content))) = some heap) :
    readHeaders (some file) kmalloc = some (file, ehdrAt (bytesAt content), headersOf content) := by
  have small := formed.size
  have whole := formed.header
  have entries := formed.entries
  have table := formed.table
  have few : (ehdrAt (bytesAt content)).phnum < 2 ^ 16 := load_lt _ _ 2
  have first : file.read 0 ehdrSize = content.take ehdrSize := by rw [reads 0 ehdrSize (by decide), List.drop_zero]
  have length : (content.take ehdrSize).length = ehdrSize := by rw [List.length_take, Nat.min_eq_left whole]
  have magic : (content.take ehdrSize).take 4 = elfMagic := by
    rw [List.take_take]
    exact formed.magic
  rw [readHeaders]
  dsimp only
  rw [first, if_neg (not_not.mpr length), if_neg (not_not.mpr magic), ehdrAt_taken, granted]
  dsimp only
  have size : phSize (ehdrAt (bytesAt content)) = 56 * (ehdrAt (bytesAt content)).phnum := by
    rw [phSize, entries, if_pos (by omega)]
  have headers : phdrs (ehdrAt (bytesAt content))
      (paste heap 0 (file.read (ehdrAt (bytesAt content)).phoff (phSize (ehdrAt (bytesAt content)))).length
        (bytesAt (file.read (ehdrAt (bytesAt content)).phoff (phSize (ehdrAt (bytesAt content)))))) = headersOf content := by
    rw [phdrs, headersOf, reads _ _ (by rw [size]; omega)]
    refine List.map_congr_left fun i member => ?_
    have inside := List.mem_range.mp member
    exact phdrAt_taken content heap _ (by rw [size, entries]; omega) (by rw [size]; exact table)
  rw [headers]

theorem pageUp_ge {top : Nat} (low : top ≤ 2 ^ 47) : top ≤ pageUp top := by
  rw [pageUp_eq, Nat.mod_eq_of_lt (by omega)]
  simp only [pageSize]
  omega

theorem elfLoadEx_image {kmalloc : Nat → Option Mem} {heap : Mem} (formed : ElfFormed content) (reads : Reads file content)
    (granted : kmalloc (phSize (ehdrAt (bytesAt content))) = some heap) (space : UserHalf cr3 s)
    (plenty : Plenty s.pmm (4 * pagesOf (loads (headersOf content)))) :
    ∃ brk s' frame, elfLoadEx (fun _ => false) kmalloc cr3 s (some file) = .ok ((ehdrAt (bytesAt content)).entry, brk, s') ∧
      (∀ h ∈ loads (headersOf content), h.vaddr + h.memsz ≤ brk) ∧
      LeavesImage cr3 content (loads (headersOf content)) s s' (fun _ => False) frame := by
  have enough : Plenty s.pmm (0 + 4 * pagesOf (loads (headersOf content))) := by rwa [Nat.zero_add]
  obtain ⟨top, s', frame, run, -, low, ends, loaded, -⟩ :=
    loadSegments_loads space.backed enough reads formed.size formed.fits (Nat.zero_le _)
  refine ⟨pageUp top, s', frame, ?_, fun h member => Nat.le_trans (ends h member) (pageUp_ge low), loaded⟩
  rw [elfLoadEx, readHeaders_formed formed reads granted]
  dsimp only
  rw [run]

theorem LeavesImage.segments {segments : List Phdr} {s' : Machine} (loaded : LeavesImage cr3 content segments s s' (fun _ => False) frame)
    (fits : ∀ h ∈ segments, SegmentFits content h) (apart : segments.Pairwise Phdr.Apart) :
    (∀ h ∈ segments, SegmentLoaded cr3 s'.mem content h) ↔ segments.Pairwise (Spares content) := by
  rw [← @image_iff content segments (userByte cr3 s.mem) fits apart]
  refine forall₂_congr fun h member => forall₂_congr fun i inside => ?_
  have page := (fits h member).hasPage (Nat.le_add_right h.vaddr i) (by omega)
  rw [loaded.bytes _ (Or.inr ⟨h, member, page⟩)]
  refine and_iff_right ?_
  have there : (False ∨ ∃ h' ∈ segments, h'.HasPage ((h.vaddr + i) / pageSize)) := Or.inr ⟨h, member, page⟩
  have nonzero := Nat.mul_ne_zero (loaded.backed.nonzero _ there) (show pageSize ≠ 0 by decide)
  rw [loaded.backed.translate _ there]
  omega

/-- The loader succeeds and reports a break above all segments; these are as they should be just when
none has bytes other than zero in a page of a later one. -/
theorem elf_image {kmalloc : Nat → Option Mem} {heap : Mem} (formed : ElfFormed content) (reads : Reads file content)
    (granted : kmalloc (phSize (ehdrAt (bytesAt content))) = some heap) (space : UserHalf cr3 s)
    (plenty : Plenty s.pmm (4 * pagesOf (loads (headersOf content)))) :
    ∃ brk s', elfLoadEx (fun _ => false) kmalloc cr3 s (some file) = .ok ((ehdrAt (bytesAt content)).entry, brk, s') ∧
      (∀ h ∈ loads (headersOf content), h.vaddr + h.memsz ≤ brk) ∧
      ((∀ h ∈ loads (headersOf content), SegmentLoaded cr3 s'.mem content h) ↔
        (loads (headersOf content)).Pairwise (Spares content)) := by
  obtain ⟨brk, s', frame, run, ends, loaded⟩ := elfLoadEx_image formed reads granted space plenty
  exact ⟨brk, s', run, ends, loaded.segments formed.fits formed.apart⟩

end

def twoSegmentsMem (second : Nat) : Mem :=
  let header := store (store (store (store (store (fun _ => 0) 0 4 0x464C457F) 24 8 0x400000) 32 8 64) 54 2 56) 56 2 2
  let first := store (store (store (store (store header 64 4 1) 72 8 176) 80 8 0x400000) 96 8 1) 104 8 1
  let both := store (store (store (store (store first 120 4 1) 128 8 177) 136 8 second) 152 8 1) 160 8 1
  store both 176 2 0xBBAA

def twoSegments (second : Nat) : List UInt8 := (List.range 178).map (twoSegmentsMem second)

def contentFile (content : List UInt8) : ElfFile where
  read offset size := (content.drop offset).take size
  bound offset size := by
    rw [List.length_take]
    exact Nat.min_le_left _ _

theorem emptyHeap_granted (size : Nat) : emptyHeap size = some fun _ => 0 := rfl

theorem contentFile_reads (content : List UInt8) : Reads (contentFile content) content := fun _ _ _ => rfl

def bytePair (second : Nat) : List Phdr := [⟨1, 0, 176, 0x400000, 1, 1⟩, ⟨1, 0, 177, second, 1, 1⟩]

theorem twoSegments_formed {second : Nat} (headers : loads (headersOf (twoSegments second)) = bytePair second)
    (magic : (twoSegments second).take 4 = elfMagic)
    (table : ehdrAt (bytesAt (twoSegments second)) = ⟨0x400000, 64, 56, 2⟩)
    (low : second < 2 ^ 47) (other : second ≠ 0x400000) : ElfFormed (twoSegments second) := by
  have length : (twoSegments second).length = 178 := by simp [twoSegments]
  refine ⟨by rw [length]; decide, by rw [length]; decide, magic, by rw [table], by rw [table, length]; decide, ?_, ?_⟩
  · rw [headers, bytePair, List.forall_mem_cons, List.forall_mem_singleton]
    exact ⟨⟨Nat.le_refl _, Nat.le_of_lt (by rw [length]; decide), by decide⟩, ⟨Nat.le_refl _, Nat.le_of_eq length.symm, low⟩⟩
  · rw [headers, bytePair, List.pairwise_pair]
    intro v first last between
    dsimp only at first last between
    omega

def roomyMachine : Machine := { smallMachine with pmm := { smallMachine.pmm with totalFrames := 16, bitmapSize := 2 } }

theorem roomyMachine_space : UserHalf (1 * pageSize) roomyMachine :=
  ⟨TreeOk.empty (smallMachine_entry _) rfl (by decide) (by decide), fun _ _ => smallMachine_noHuge _⟩

theorem roomyMachine_plenty {second : Nat} (headers : loads (headersOf (twoSegments second)) = bytePair second)
    (page : segmentPages ⟨1, 0, 177, second, 1, 1⟩ = 1) :
    Plenty roomyMachine.pmm (4 * pagesOf (loads (headersOf (twoSegments second)))) := by
  have pages : pagesOf (bytePair second) = 2 := by
    simp only [pagesOf, bytePair, page]
    decide
  rw [headers, pages]
  exact ⟨by decide, by decide, by decide +kernel⟩

/-- In pages of their own, both bytes are where they should be. -/
theorem elf_image_apart : ∃ brk s', elfLoadEx (fun _ => false) emptyHeap (1 * pageSize) roomyMachine
      (some (contentFile (twoSegments 0x401000))) = .ok (0x400000, brk, s') ∧
    ∀ h ∈ bytePair 0x401000, SegmentLoaded (1 * pageSize) s'.mem (twoSegments 0x401000) h := by
  have headers : loads (headersOf (twoSegments 0x401000)) = bytePair 0x401000 := by decide +kernel
  have table : ehdrAt (bytesAt (twoSegments 0x401000)) = ⟨0x400000, 64, 56, 2⟩ := by decide +kernel
  have formed := twoSegments_formed headers (by decide +kernel) table (by decide) (by decide)
  obtain ⟨brk, s', run, -, loaded⟩ := elf_image formed (contentFile_reads _) (emptyHeap_granted _) roomyMachine_space
    (roomyMachine_plenty headers (by decide +kernel))
  rw [table] at run
  rw [headers] at loaded
  refine ⟨brk, s', run, loaded.mpr ?_⟩
  rw [bytePair, List.pairwise_pair]
  intro i inside page
  obtain rfl : i = 0 := Nat.lt_one_iff.mp inside
  exact absurd page (by decide +kernel)

/-- In one page, the second segment clears the first one. -/
theorem shared_page_cleared :
    ElfFormed (twoSegments 0x400010) ∧ UserHalf (1 * pageSize) roomyMachine ∧
    Plenty roomyMachine.pmm (4 * pagesOf (loads (headersOf (twoSegments 0x400010)))) ∧
    ∃ brk s', elfLoadEx (fun _ => false) emptyHeap (1 * pageSize) roomyMachine
        (some (contentFile (twoSegments 0x400010))) = .ok (0x400000, brk, s') ∧
      ¬∀ h ∈ loads (headersOf (twoSegments 0x400010)), SegmentLoaded (1 * pageSize) s'.mem (twoSegments 0x400010) h := by
  have headers : loads (headersOf (twoSegments 0x400010)) = bytePair 0x400010 := by decide +kernel
  have table : ehdrAt (bytesAt (twoSegments 0x400010)) = ⟨0x400000, 64, 56, 2⟩ := by decide +kernel
  have formed := twoSegments_formed headers (by decide +kernel) table (by decide) (by decide)
  have plenty := roomyMachine_plenty headers (by decide +kernel)
  obtain ⟨brk, s', frame, run, -, loaded⟩ := elfLoadEx_image formed (contentFile_reads _) (emptyHeap_granted _) roomyMachine_space plenty
  rw [table] at run
  refine ⟨formed, roomyMachine_space, plenty, brk, s', run, fun all => ?_⟩
  have spares := (loaded.segments formed.fits formed.apart).mp all
  rw [headers, bytePair, List.pairwise_pair] at spares
  have zero := spares 0 (by decide) (by decide +kernel)
  have byte : (twoSegments 0x400010).getD (176 + 0) 0 = 0xAA := by decide +kernel
  dsimp only at zero
  rw [byte] at zero
  exact absurd zero (by decide)

end RexOs.Fs
