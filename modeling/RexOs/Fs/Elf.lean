import RexOs.Arch.Brk
import RexOs.Arch.Syscall

/-! The ELF loader (`kernel/fs/elf.c`).

The pages of a segment get new frames, and the bytes of the file are then written through
the translation of the address space. What `vfs_read` puts into a buffer and what `kmalloc`
gives are parameters; bytes of a buffer that were never written are those of the heap.
The result of `vmm_map_page_pml4` is not looked at, and neither is that of `pmm_alloc_frame`.
-/

set_option autoImplicit false

namespace RexOs.Fs

open RexOs.Library RexOs.Mm RexOs.Arch

def pageNx : Nat := 2 ^ 63

/-- `vfs_read(file, offset, size, buffer)` writes these bytes to the buffer. -/
structure ElfFile where
  read : Nat → Nat → List UInt8
  bound : ∀ offset size, (read offset size).length ≤ size

def bytesAt (bytes : List UInt8) : Mem := fun i => bytes.getD i 0

/-- The fields of `Elf64_Ehdr` that the loader uses. -/
structure Ehdr where
  entry : Nat
  phoff : Nat
  phentsize : Nat
  phnum : Nat
  deriving DecidableEq, Repr

def ehdrSize : Nat := 64

/-- `\x7f`, `E`, `L`, `F`. -/
def elfMagic : List UInt8 := [0x7F, 0x45, 0x4C, 0x46]

def ehdrAt (m : Mem) : Ehdr where
  entry := load m 24 8
  phoff := load m 32 8
  phentsize := load m 54 2
  phnum := load m 56 2

/-- The fields of `Elf64_Phdr` that the loader uses. -/
structure Phdr where
  type : Nat
  flags : Nat
  offset : Nat
  vaddr : Nat
  filesz : Nat
  memsz : Nat
  deriving DecidableEq, Repr

def ptLoad : Nat := 1

def phdrAt (m : Mem) (a : Nat) : Phdr where
  type := load m a 4
  flags := load m (a + 4) 4
  offset := load m (a + 8) 8
  vaddr := load m (a + 16) 8
  filesz := load m (a + 32) 8
  memsz := load m (a + 40) 8

/-- `e_phentsize * e_phnum`, an `int` that is made a `uint64_t`. -/
def phSize (h : Ehdr) : Nat :=
  if h.phentsize * h.phnum < 2 ^ 31 then h.phentsize * h.phnum else 2 ^ 64 - 2 ^ 32 + h.phentsize * h.phnum

def startPage (h : Phdr) : Nat := pageOf h.vaddr

def endPage (h : Phdr) : Nat := pageOf ((h.vaddr + h.memsz + 0xFFF) % 2 ^ 64)

def segmentPages (h : Phdr) : Nat := (endPage h - startPage h) / 0x1000

def segmentFlags (h : Phdr) : Nat := if h.flags &&& 1 = 0 then userFlags ||| pageNx else userFlags

section
variable (fails : Nat → Bool)

/-- `for (page = ...; page += 0x1000)` with a new frame for each page; `n` pages from `page` on remain. -/
def mapNewPages (cr3 flags : Nat) (s : Machine) (page : Nat) : Nat → Except VmmPanic Machine
  | 0 => .ok s
  | n + 1 =>
      let (phys, s) := allocFrame fails s
      match vmmMapPagePml4 fails s cr3 page phys flags with
      | .error e => .error e
      | .ok (_, s) => mapNewPages cr3 flags { s with mem := fill s.mem phys 0x1000 0 } (page + 0x1000) n

def chunkAt (dst remaining : Nat) : Nat :=
  let pageOff := dst &&& 0xFFF
  if 0x1000 - pageOff > remaining then remaining else 0x1000 - pageOff

/-- `vfs_read(file, src, chunk, phys_to_virt(frame) + page_off)`. -/
def readChunk (file : ElfFile) (m : Mem) (frame dst src chunk : Nat) : Mem :=
  let bytes := file.read src chunk
  paste m (frame + (dst &&& 0xFFF)) bytes.length (bytesAt bytes)

/-- `while (remaining > 0)`; a pass takes at least one byte, so `fuel` is at least `remaining`.
It is false when a page is not mapped. -/
def readPages (file : ElfFile) (cr3 : Nat) (m : Mem) (dst src remaining : Nat) : Nat → Bool × Mem
  | 0 => (true, m)
  | fuel + 1 =>
      if remaining = 0 then (true, m)
      else if vmmTranslatePml4 m cr3 (pageOf dst) = 0 then (false, m)
      else
        let chunk := chunkAt dst remaining
        readPages file cr3 (readChunk file m (vmmTranslatePml4 m cr3 (pageOf dst)) dst src chunk)
          ((dst + chunk) % 2 ^ 64) ((src + chunk) % 2 ^ 64) (remaining - chunk) fuel

/-- One program header of the type `PT_LOAD`. -/
def loadSegment (file : ElfFile) (cr3 : Nat) (s : Machine) (h : Phdr) : Except VmmPanic (Bool × Machine) :=
  match mapNewPages fails cr3 (segmentFlags h) s (startPage h) (segmentPages h) with
  | .error e => .error e
  | .ok s =>
      let (done, mem) := readPages file cr3 s.mem h.vaddr h.offset h.filesz h.filesz
      .ok (done, { s with mem := mem })

/-- The loop over the program headers; it gives the highest address of a segment. -/
def loadSegments (file : ElfFile) (cr3 : Nat) (s : Machine) (highest : Nat) :
    List Phdr → Except VmmPanic (Option Nat × Machine)
  | [] => .ok (some highest, s)
  | h :: rest =>
      if h.type = ptLoad then
        let segEnd := (h.vaddr + h.memsz) % 2 ^ 64
        match loadSegment fails file cr3 s h with
        | .error e => .error e
        | .ok (false, s) => .ok (none, s)
        | .ok (true, s) => loadSegments file cr3 s (if segEnd > highest then segEnd else highest) rest
      else loadSegments file cr3 s highest rest

/-- The program headers, as they are in `ph_buf`. -/
def phdrs (h : Ehdr) (buf : Mem) : List Phdr := (List.range h.phnum).map fun i => phdrAt buf (i * h.phentsize)

def readHeaders (file : Option ElfFile) (kmalloc : Nat → Option Mem) : Option (ElfFile × Ehdr × List Phdr) :=
  match file with
  | none => none
  | some file =>
      let bytes := file.read 0 ehdrSize
      if bytes.length ≠ ehdrSize then none
      else if bytes.take 4 ≠ elfMagic then none
      else
        let ehdr := ehdrAt (bytesAt bytes)
        match kmalloc (phSize ehdr) with
        | none => none
        | some heap =>
            let headers := file.read ehdr.phoff (phSize ehdr)
            some (file, ehdr, phdrs ehdr (paste heap 0 headers.length (bytesAt headers)))

def elfLoadEx (kmalloc : Nat → Option Mem) (cr3 : Nat) (s : Machine) (file : Option ElfFile) :
    Except VmmPanic (Nat × Nat × Machine) :=
  match readHeaders file kmalloc with
  | none => .ok (0, 0, s)
  | some (file, ehdr, headers) =>
      match loadSegments fails file cr3 s 0 headers with
      | .error e => .error e
      | .ok (none, s) => .ok (0, 0, s)
      | .ok (some highest, s) => .ok (ehdr.entry, pageUp highest, s)

end

theorem readHeaders_phdrs {file : Option ElfFile} {kmalloc : Nat → Option Mem} {file' : ElfFile} {ehdr : Ehdr}
    {headers : List Phdr} (found : readHeaders file kmalloc = some (file', ehdr, headers)) :
    ∃ buf, headers = phdrs ehdr buf := by
  unfold readHeaders at found
  split at found
  · cases found
  · dsimp only at found
    split at found
    · cases found
    · split at found
      · cases found
      · split at found
        · cases found
        · have parts := Prod.mk.inj (Prod.mk.inj (Option.some.inj found)).2
          rw [← parts.2, ← parts.1]
          exact ⟨_, rfl⟩

theorem segmentFlags_page (h : Phdr) : PageFlags (segmentFlags h) := by
  unfold segmentFlags
  split
  · constructor <;> decide
  · constructor <;> decide

theorem pageOff_eq (dst : Nat) : dst &&& 0xFFF = dst % 0x1000 := Nat.and_two_pow_sub_one_eq_mod dst 12

theorem chunkAt_bounds (dst : Nat) {remaining : Nat} (some' : remaining ≠ 0) :
    0 < chunkAt dst remaining ∧ chunkAt dst remaining ≤ remaining ∧ dst % 0x1000 + chunkAt dst remaining ≤ 0x1000 := by
  unfold chunkAt
  rw [pageOff_eq]
  have := Nat.mod_lt dst (show 0 < 0x1000 by decide)
  dsimp only
  split <;> omega

theorem readChunk_agree (file : ElfFile) (m : Mem) (f src : Nat) {dst chunk : Nat} (inside : dst % 0x1000 + chunk ≤ 0x1000) :
    AgreeOff (readChunk file m f dst src chunk) m f pageSize := by
  have bound := file.bound src chunk
  intro x outside
  rw [readChunk, pageOff_eq]
  apply paste_outside
  simp only [pageSize] at outside
  omega

end RexOs.Fs
