import RexOs.Arch.BrkHistory
import RexOs.Fs.Elf
import RexOs.Mm.VmmPages

/-! What the ELF loader touches.

`ElfConfined` says what the loader may do there, and `ElfFits` what has to hold before each of these
steps: the source itself checks none of it.
-/

set_option autoImplicit false

namespace RexOs.Fs

open RexOs.Library RexOs.Mm RexOs.Arch

section
variable (fails : Nat → Bool)

/-- The loader has dealt with the first `i` program headers and is in the state `s'`. -/
def ReachesHeader (file : ElfFile) (cr3 : Nat) (s : Machine) (headers : List Phdr) (i : Nat) (s' : Machine) : Prop :=
  ∃ highest, loadSegments fails file cr3 s 0 (headers.take i) = .ok (some highest, s')

/-- The loader has dealt with the first `j` pages of a segment and is in the state `s'`. -/
def ReachesPage (cr3 : Nat) (s : Machine) (h : Phdr) (j : Nat) (s' : Machine) : Prop :=
  j < segmentPages h ∧ mapNewPages fails cr3 (segmentFlags h) s (startPage h) j = .ok s'

/-- The page that is mapped after `j` others. -/
def pageAt (h : Phdr) (j : Nat) : Nat := startPage h + j * 0x1000

/-- The last byte of a program header that is read, and one: `p_type` always, the other
fields up to `p_memsz` for a segment to load. -/
def headerBytes (h : Phdr) : Nat := if h.type = ptLoad then 48 else 4

structure ElfConfined (kmalloc : Nat → Option Mem) (cr3 : Nat) (s : Machine) (file : Option ElfFile) : Prop where
  returns : ∃ r, elfLoadEx fails kmalloc cr3 s file = .ok r
  /-- The loop over the bytes of a segment ends after at most one round for each byte. -/
  ends : ∀ (file' : ElfFile) (m : Mem) (h : Phdr) (fuel : Nat), h.filesz ≤ fuel →
    readPages file' cr3 m h.vaddr h.offset h.filesz fuel = readPages file' cr3 m h.vaddr h.offset h.filesz h.filesz
  inside : ∀ file' ehdr headers i h s', readHeaders file kmalloc = some (file', ehdr, headers) →
    headers[i]? = some h → ReachesHeader fails file' cr3 s headers i s' →
    i * ehdr.phentsize + headerBytes h ≤ phSize ehdr
  /-- A page that gets mapped is in the user half, and gets a frame that `pmm_alloc_frame` has returned. -/
  mapped : ∀ file' ehdr headers i h s' j s₁ s₂, readHeaders file kmalloc = some (file', ehdr, headers) →
    headers[i]? = some h → ReachesHeader fails file' cr3 s headers i s' → h.type = ptLoad →
    ReachesPage fails cr3 s' h j s₁ →
    vmmMapPagePml4 fails (allocFrame fails s₁).2 cr3 (pageAt h j) (allocFrame fails s₁).1 (segmentFlags h) = .ok (true, s₂) →
    LowAddress (pageAt h j) ∧ (allocFrame fails s₁).1 ≠ 0
  /-- When it gives up on the headers or on the bytes of a segment, it returns 0. -/
  failed : ∀ entry brkEnd s', elfLoadEx fails kmalloc cr3 s file = .ok (entry, brkEnd, s') →
    (∀ file' ehdr headers, readHeaders file kmalloc = some (file', ehdr, headers) →
      ¬ ReachesHeader fails file' cr3 s headers headers.length s') → entry = 0

def TablesSmall : Machine → Nat → List (Fin 512) → Prop
  | _, _, [] => True
  | s, table, idx :: path => SmallEntry s.mem table idx ∧
      ∀ next s', getOrCreateTable fails s table idx userFlags = .ok (some next, s') → TablesSmall s' next path

structure PageFits (cr3 : Nat) (s : Machine) (page : Nat) : Prop where
  small : TablesSmall fails (allocFrame fails s).2 cr3 (pathOf page)
  user : TablesGranted fails (allocFrame fails s).2 cr3 (pathOf page) → LowAddress page ∧ (allocFrame fails s).1 ≠ 0

structure HeaderFits (cr3 : Nat) (s : Machine) (ehdr : Ehdr) (i : Nat) (h : Phdr) : Prop where
  /-- The entries from this one on are long enough for what is read, unless their size
  overflows the source's `int`, which makes the buffer larger. -/
  long : ehdr.phentsize * ehdr.phnum < 2 ^ 31 → headerBytes h ≤ (ehdr.phnum - i) * ehdr.phentsize
  pages : h.type = ptLoad → ∀ j s', ReachesPage fails cr3 s h j s' → PageFits fails cr3 s' (pageAt h j)

def ElfFits (kmalloc : Nat → Option Mem) (cr3 : Nat) (s : Machine) (file : Option ElfFile) : Prop :=
  ∀ file' ehdr headers i h s', readHeaders file kmalloc = some (file', ehdr, headers) → headers[i]? = some h →
    ReachesHeader fails file' cr3 s headers i s' → HeaderFits fails cr3 s' ehdr i h

end

section
variable {fails : Nat → Bool} {s : Machine} {t : Nat} {i : Fin 512}

theorem allocFrame_multiple (fails : Nat → Bool) (s : Machine) : ∃ k, (allocFrame fails s).1 = k * pageSize := by
  unfold allocFrame
  split
  · exact ⟨0, rfl⟩
  · unfold pmmAllocFrame
    split
    · exact ⟨_, rfl⟩
    · split
      · exact ⟨_, rfl⟩
      · exact ⟨0, rfl⟩

theorem newEntry_small (k : Nat) : (k * pageSize ||| userFlags) % 256 ^ 8 &&& pageHuge = 0 := by
  have joined : k * pageSize ||| userFlags = k * pageSize + userFlags := by
    have shifted : k * pageSize = k <<< 12 := by rw [Nat.shiftLeft_eq, pageSize]
    rw [shifted, Nat.shiftLeft_add_eq_or_of_lt (by decide)]
  have low : (k * pageSize + userFlags) % 256 ^ 8 % 2 ^ 8 = 7 := by
    have : userFlags = 7 := by decide
    simp only [pageSize, this]
    omega
  -- only the lowest byte of the entry matters
  have byte : pageHuge = (2 ^ 8 - 1) &&& pageHuge := by decide
  rw [joined, byte, ← Nat.and_assoc, Nat.and_two_pow_sub_one_eq_mod, low]
  decide

theorem getOrCreateTable_iff (fails : Nat → Bool) :
    (∃ r, getOrCreateTable fails s t i userFlags = .ok r) ↔ SmallEntry s.mem t i := by
  constructor
  · rintro ⟨r, got⟩
    exact getOrCreateTable_small fails got
  · intro small
    unfold getOrCreateTable
    split
    · split
      rename_i newPhys s₁ alloc
      split
      · exact ⟨_, rfl⟩
      · obtain ⟨k, multiple⟩ := allocFrame_multiple fails s
        rw [alloc] at multiple
        simp only at multiple
        unfold tableBehind
        rw [if_neg]
        · exact ⟨_, rfl⟩
        · rw [entryAt, setEntry, load_store_mod, multiple, not_not]
          exact newEntry_small k
    · rename_i present
      unfold tableBehind
      rw [if_neg (not_not.mpr (small present))]
      exact ⟨_, rfl⟩

theorem getOrCreateTables_iff {path : List (Fin 512)} :
    (∃ r, getOrCreateTables fails userFlags s t path = .ok r) ↔ TablesSmall fails s t path := by
  induction path generalizing s t with
  | nil => exact ⟨fun _ => trivial, fun _ => ⟨_, rfl⟩⟩
  | cons i path ih =>
    rw [TablesSmall, ← getOrCreateTable_iff fails, getOrCreateTables]
    cases got : getOrCreateTable fails s t i userFlags with
    | error e => simp
    | ok r =>
      obtain ⟨next, s₁⟩ := r
      cases next with
      | none => simp
      | some next =>
        simp only [ih]
        constructor
        · intro small
          refine ⟨⟨_, rfl⟩, ?_⟩
          rintro next' s' same
          cases same
          exact small
        · intro small
          exact small.2 next s₁ rfl

theorem vmmMapPagePml4_iff {cr3 page : Nat} (phys flags : Nat) :
    (∃ r, vmmMapPagePml4 fails s cr3 page phys flags = .ok r) ↔ TablesSmall fails s cr3 (pathOf page) := by
  rw [← getOrCreateTables_iff, vmmMapPagePml4]
  show _ ↔ ∃ r, getOrCreateTables fails (pagePresent ||| pageWritable ||| pageUser) s cr3
    [pml4Index page, pdptIndex page, pdIndex page] = .ok r
  cases getOrCreateTables fails (pagePresent ||| pageWritable ||| pageUser) s cr3
      [pml4Index page, pdptIndex page, pdIndex page] with
  | error e => simp
  | ok r =>
    obtain ⟨pt, s₁⟩ := r
    cases pt <;> exact ⟨fun _ => ⟨_, rfl⟩, fun _ => ⟨_, rfl⟩⟩

end

section
variable {fails : Nat → Bool} {cr3 flags page : Nat} {s : Machine} {h : Phdr} {file : ElfFile}

theorem mapNewPages_succ (n : Nat) : mapNewPages fails cr3 flags s page (n + 1) =
    (vmmMapPagePml4 fails (allocFrame fails s).2 cr3 page (allocFrame fails s).1 flags).bind fun r =>
      mapNewPages fails cr3 flags { r.2 with mem := fill r.2.mem (allocFrame fails s).1 0x1000 0 } (page + 0x1000) n := by
  rw [mapNewPages]
  cases allocFrame fails s with
  | mk phys s₁ =>
    simp only
    cases vmmMapPagePml4 fails s₁ cr3 page phys flags with
    | error e => rfl
    | ok r => rfl

theorem mapNewPages_add (j n : Nat) : mapNewPages fails cr3 flags s page (j + n) =
    (mapNewPages fails cr3 flags s page j).bind fun s' => mapNewPages fails cr3 flags s' (page + j * 0x1000) n := by
  induction j generalizing s page with
  | zero =>
    rw [Nat.zero_add, Nat.zero_mul, Nat.add_zero]
    rfl
  | succ j ih =>
    have next : page + (j + 1) * 0x1000 = page + 0x1000 + j * 0x1000 := by omega
    rw [Nat.succ_add, mapNewPages_succ, mapNewPages_succ, next]
    cases vmmMapPagePml4 fails (allocFrame fails s).2 cr3 page (allocFrame fails s).1 flags with
    | error e => rfl
    | ok r => exact ih

theorem mapNewPages_stuck {j n : Nat} {s' : Machine} {e : VmmPanic} (inside : j < n)
    (reached : mapNewPages fails cr3 flags s page j = .ok s')
    (stuck : vmmMapPagePml4 fails (allocFrame fails s').2 cr3 (page + j * 0x1000) (allocFrame fails s').1 flags = .error e) :
    mapNewPages fails cr3 flags s page n = .error e := by
  obtain ⟨rest, rfl⟩ : ∃ rest, n = j + (rest + 1) := ⟨n - j - 1, by omega⟩
  rw [mapNewPages_add, reached]
  simp only [Except.bind, mapNewPages_succ, stuck]

theorem mapNewPages_total (j : Nat) (within : j ≤ segmentPages h)
    (fits : ∀ j s', ReachesPage fails cr3 s h j s' → PageFits fails cr3 s' (pageAt h j)) :
    ∃ s', mapNewPages fails cr3 (segmentFlags h) s (startPage h) j = .ok s' := by
  induction j with
  | zero => exact ⟨s, rfl⟩
  | succ j ih =>
    obtain ⟨s', reached⟩ := ih (by omega)
    have small := (fits j s' ⟨within, reached⟩).small
    obtain ⟨r, mapped⟩ := (vmmMapPagePml4_iff (allocFrame fails s').1 (segmentFlags h)).mpr small
    rw [mapNewPages_add, reached]
    rw [pageAt] at mapped
    simp only [Except.bind, mapNewPages_succ, mapped]
    exact ⟨_, rfl⟩

theorem readPages_enough {m : Mem} {dst src remaining fuel : Nat} (enough : remaining ≤ fuel) :
    readPages file cr3 m dst src remaining fuel = readPages file cr3 m dst src remaining remaining := by
  induction fuel using Nat.strong_induction_on generalizing m dst src remaining with
  | h fuel ih =>
    rcases Nat.eq_or_lt_of_le enough with rfl | less
    · rfl
    obtain ⟨rounds, rfl⟩ : ∃ rounds, fuel = rounds + 1 := ⟨fuel - 1, by omega⟩
    cases remaining with
    | zero => rfl
    | succ remaining =>
      have nonempty : remaining + 1 ≠ 0 := Nat.succ_ne_zero remaining
      obtain ⟨some_, most, _⟩ := chunkAt_bounds dst nonempty
      rw [readPages, readPages, if_neg nonempty, if_neg nonempty]
      split
      · rfl
      · simp only
        rw [ih rounds (by omega) (by omega), ih remaining (by omega) (by omega)]

theorem loadSegments_append (front rest : List Phdr) (top : Nat) :
    loadSegments fails file cr3 s top (front ++ rest) =
      match loadSegments fails file cr3 s top front with
      | .error e => .error e
      | .ok (none, s') => .ok (none, s')
      | .ok (some highest, s') => loadSegments fails file cr3 s' highest rest := by
  induction front generalizing s top with
  | nil => rfl
  | cons h front ih =>
    rw [List.cons_append, loadSegments, loadSegments]
    split
    · cases loadSegment fails file cr3 s h with
      | error e => rfl
      | ok r =>
        obtain ⟨done, s'⟩ := r
        cases done with
        | false => rfl
        | true => exact ih _
    · exact ih _

theorem loadSegment_total (file : ElfFile) (fits : ∀ j s', ReachesPage fails cr3 s h j s' → PageFits fails cr3 s' (pageAt h j)) :
    ∃ r, loadSegment fails file cr3 s h = .ok r := by
  obtain ⟨s', mapped⟩ := mapNewPages_total (segmentPages h) (Nat.le_refl _) fits
  exact ⟨_, by rw [loadSegment, mapped]⟩

theorem loadSegments_total {headers : List Phdr} (i : Nat) (within : i ≤ headers.length)
    (fits : ∀ i h s', headers[i]? = some h → ReachesHeader fails file cr3 s headers i s' → h.type = ptLoad →
      ∀ j s₁, ReachesPage fails cr3 s' h j s₁ → PageFits fails cr3 s₁ (pageAt h j)) :
    ∃ r, loadSegments fails file cr3 s 0 (headers.take i) = .ok r := by
  induction i with
  | zero => exact ⟨_, rfl⟩
  | succ i ih =>
    obtain ⟨⟨highest, s'⟩, reached⟩ := ih (by omega)
    have found : headers[i]? = some headers[i] := List.getElem?_eq_getElem within
    rw [List.take_add_one, found, Option.toList_some, loadSegments_append, reached]
    cases highest with
    | none => exact ⟨_, rfl⟩
    | some highest =>
      simp only [loadSegments]
      split
      · rename_i load
        obtain ⟨⟨done, s₁⟩, loaded⟩ := loadSegment_total file (fits i _ s' found ⟨highest, reached⟩ load)
        rw [loaded]
        cases done with
        | false => exact ⟨_, rfl⟩
        | true => exact ⟨_, rfl⟩
      · exact ⟨_, rfl⟩

theorem loadSegments_stuck {headers : List Phdr} {i : Nat} {s' : Machine} {e : VmmPanic}
    (found : headers[i]? = some h) (reached : ReachesHeader fails file cr3 s headers i s') (load : h.type = ptLoad)
    (stuck : mapNewPages fails cr3 (segmentFlags h) s' (startPage h) (segmentPages h) = .error e) :
    loadSegments fails file cr3 s 0 headers = .error e := by
  obtain ⟨highest, reached⟩ := reached
  obtain ⟨inside, same⟩ := List.getElem?_eq_some_iff.mp found
  have whole : headers = headers.take i ++ h :: headers.drop (i + 1) := by
    rw [← same, ← List.drop_eq_getElem_cons inside, List.take_append_drop]
  rw [whole, loadSegments_append, reached]
  simp only [loadSegments, if_pos load, loadSegment, stuck]

end

section
variable {fails : Nat → Bool} {kmalloc : Nat → Option Mem} {cr3 : Nat} {s : Machine} {file : Option ElfFile}

theorem readHeaders_length {file' : ElfFile} {ehdr : Ehdr} {headers : List Phdr}
    (found : readHeaders file kmalloc = some (file', ehdr, headers)) : headers.length = ehdr.phnum := by
  obtain ⟨buf, rfl⟩ := readHeaders_phdrs found
  simp [phdrs]

theorem elfLoadEx_failed {entry brkEnd : Nat} {s' : Machine} (run : elfLoadEx fails kmalloc cr3 s file = .ok (entry, brkEnd, s'))
    (gaveUp : ∀ file' ehdr headers, readHeaders file kmalloc = some (file', ehdr, headers) →
      ¬ ReachesHeader fails file' cr3 s headers headers.length s') : entry = 0 := by
  unfold elfLoadEx at run
  split at run
  · cases run
    rfl
  · rename_i file' ehdr headers found
    split at run
    · cases run
    · cases run
      rfl
    · rename_i highest s₁ loaded
      cases run
      exact absurd ⟨highest, by rw [List.take_length]; exact loaded⟩ (gaveUp _ _ _ found)

theorem headerBytes_le (h : Phdr) : headerBytes h ≤ 48 := by
  unfold headerBytes
  split <;> decide

theorem inside_iff {ehdr : Ehdr} {i : Nat} (h : Phdr) (counted : i < ehdr.phnum) :
    i * ehdr.phentsize + headerBytes h ≤ phSize ehdr ↔
      (ehdr.phentsize * ehdr.phnum < 2 ^ 31 → headerBytes h ≤ (ehdr.phnum - i) * ehdr.phentsize) := by
  have few : i * ehdr.phentsize ≤ ehdr.phnum * ehdr.phentsize := Nat.mul_le_mul_right _ (Nat.le_of_lt counted)
  have small := headerBytes_le h
  rw [Nat.sub_mul, phSize, Nat.mul_comm ehdr.phentsize]
  split
  · rename_i fits
    constructor
    · intro inside _
      omega
    · intro long
      have := long fits
      omega
  · rename_i wide
    exact ⟨fun _ fits => absurd fits wide, fun _ => by omega⟩

theorem elfLoadEx_stuck {file' : ElfFile} {ehdr : Ehdr} {headers : List Phdr} {e : VmmPanic}
    (found : readHeaders file kmalloc = some (file', ehdr, headers))
    (stuck : loadSegments fails file' cr3 s 0 headers = .error e) : elfLoadEx fails kmalloc cr3 s file = .error e := by
  rw [elfLoadEx, found]
  simp only [stuck]

/-- The loader is confined exactly when every step that it comes to fits. -/
theorem elf_confined (fails : Nat → Bool) (kmalloc : Nat → Option Mem) (cr3 : Nat) (s : Machine) (file : Option ElfFile) :
    ElfConfined fails kmalloc cr3 s file ↔ ElfFits fails kmalloc cr3 s file := by
  constructor
  · intro confined file' ehdr headers i h s' found here reached
    have counted : i < ehdr.phnum := by
      rw [← readHeaders_length found]
      exact (List.getElem?_eq_some_iff.mp here).1
    refine ⟨(inside_iff h counted).mp (confined.inside _ _ _ _ _ _ found here reached), ?_⟩
    intro load j s₁ turn
    have small : TablesSmall fails (allocFrame fails s₁).2 cr3 (pathOf (pageAt h j)) := by
      apply (vmmMapPagePml4_iff (allocFrame fails s₁).1 (segmentFlags h)).mp
      cases mapped : vmmMapPagePml4 fails (allocFrame fails s₁).2 cr3 (pageAt h j) (allocFrame fails s₁).1 (segmentFlags h) with
      | ok r => exact ⟨r, rfl⟩
      | error e =>
        -- the panic would be that of the whole call
        obtain ⟨r, returned⟩ := confined.returns
        have stuck := mapNewPages_stuck turn.1 turn.2 mapped
        rw [elfLoadEx_stuck found (loadSegments_stuck here reached load stuck)] at returned
        cases returned
    refine ⟨small, fun granted => ?_⟩
    obtain ⟨⟨done, s₂⟩, mapped⟩ := (vmmMapPagePml4_iff (allocFrame fails s₁).1 (segmentFlags h)).mpr small
    have made : done = true := (vmmMapPagePml4_granted mapped).mpr granted
    rw [made] at mapped
    exact confined.mapped _ _ _ _ _ _ _ _ _ found here reached load turn mapped
  · intro fits
    constructor
    · unfold elfLoadEx
      split
      · exact ⟨_, rfl⟩
      · rename_i file' ehdr headers found
        obtain ⟨⟨highest, s'⟩, loaded⟩ := loadSegments_total headers.length (Nat.le_refl _)
          fun i h s' here reached => (fits _ _ _ i h s' found here reached).pages
        rw [List.take_length] at loaded
        rw [loaded]
        cases highest <;> exact ⟨_, rfl⟩
    · intro file' m h fuel enough
      exact readPages_enough enough
    · intro file' ehdr headers i h s' found here reached
      have counted : i < ehdr.phnum := by
        rw [← readHeaders_length found]
        exact (List.getElem?_eq_some_iff.mp here).1
      exact (inside_iff h counted).mpr (fits _ _ _ _ _ _ found here reached).long
    · intro file' ehdr headers i h s' j s₁ s₂ found here reached load turn mapped
      apply ((fits _ _ _ _ _ _ found here reached).pages load j s₁ turn).user
      exact (vmmMapPagePml4_granted mapped).mp rfl
    · intro entry brkEnd s' run gaveUp
      exact elfLoadEx_failed run gaveUp

end

def kernelHalfImage : Mem :=
  let header := store (store (store (store (store (fun _ => 0) 0 4 0x464C457F) 24 8 0x400000) 32 8 64) 54 2 56) 56 2 1
  store (store (store (store header 64 4 1) 68 4 5) 80 8 0xFFFFC00000000000) 104 8 1

def kernelHalfFile : ElfFile where
  read offset size := (((List.range 120).map kernelHalfImage).drop offset).take size
  bound offset size := by
    rw [List.length_take]
    exact Nat.min_le_left _ _

def emptyHeap : Nat → Option Mem := fun _ => some fun _ => 0

def mapsKernelHalf : Bool :=
  match vmmMapPagePml4 (fun _ => false) (allocFrame (fun _ => false) smallMachine).2 (1 * pageSize) 0xFFFFC00000000000
    (allocFrame (fun _ => false) smallMachine).1 userFlags with
  | .ok (done, _) => done
  | .error _ => false

theorem kernel_half_mapped : ¬ ElfConfined (fun _ => false) emptyHeap (1 * pageSize) smallMachine (some kernelHalfFile) := by
  intro confined
  have facts : (readHeaders (some kernelHalfFile) emptyHeap).map (·.2.2) = some [⟨1, 5, 0, 0xFFFFC00000000000, 0, 1⟩] := by
    decide +kernel
  obtain ⟨⟨file', ehdr, headers⟩, found, only⟩ := Option.map_eq_some_iff.mp facts
  dsimp only at only
  subst only
  have maps : mapsKernelHalf = true := by decide +kernel
  unfold mapsKernelHalf at maps
  split at maps
  · rename_i done s₂ mapped
    subst maps
    have low := confined.mapped file' ehdr _ 0 _ smallMachine 0 smallMachine s₂ found rfl ⟨0, rfl⟩ rfl
      ⟨by decide +kernel, rfl⟩ mapped
    have high : 2 ^ 47 ≤ pageAt ⟨1, 5, 0, 0xFFFFC00000000000, 0, 1⟩ 0 := by decide +kernel
    exact absurd low.1 (Nat.not_lt.mpr high)
  · cases maps

end RexOs.Fs
