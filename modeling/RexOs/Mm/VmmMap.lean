import RexOs.Mm.VmmTree

/-! Mapping a page.

`vmm_map_page_pml4` first makes the tables of the path, which changes no translation, and
then writes one entry of the page table. The translation of a canonical address depends
on its four indices, and these determine its page.
-/

set_option autoImplicit false

namespace RexOs.Mm

open RexOs.Library

def Canonical (v : Nat) : Prop := v < 2 ^ 47 ∨ 2 ^ 64 - 2 ^ 47 ≤ v ∧ v < 2 ^ 64

def placeOf (virt : Nat) : List (Fin 512) := pathOf virt ++ [ptIndex virt]

theorem ofNat_shift_eq {k v w : Nat} :
    Fin.ofNat 512 (v >>> k) = Fin.ofNat 512 (w >>> k) ↔ v / 2 ^ k % 512 = w / 2 ^ k % 512 := by
  rw [Fin.ext_iff, Fin.val_ofNat, Fin.val_ofNat, Nat.shiftRight_eq_div_pow, Nat.shiftRight_eq_div_pow]

theorem placeOf_eq {v w : Nat} :
    placeOf v = placeOf w ↔ v / 2 ^ 39 % 512 = w / 2 ^ 39 % 512 ∧ v / 2 ^ 30 % 512 = w / 2 ^ 30 % 512 ∧
      v / 2 ^ 21 % 512 = w / 2 ^ 21 % 512 ∧ v / 2 ^ 12 % 512 = w / 2 ^ 12 % 512 := by
  simp only [placeOf, pathOf, List.cons_append, List.nil_append, List.cons.injEq, and_true, pml4Index, pdptIndex,
    pdIndex, ptIndex, ofNat_shift_eq]

theorem placeOf_canonical {v w : Nat} (canonical : Canonical v) (canonical' : Canonical w) :
    placeOf v = placeOf w ↔ v / pageSize = w / pageSize := by
  rw [placeOf_eq]
  unfold Canonical at canonical canonical'
  simp only [pageSize]
  omega

section
variable {m : Mem} {pml4 virt pt e : Nat}

theorem setEntry_off {p q : List (Fin 512)} {t a : Nat} {i j : Fin 512} (root : pageSize ∣ pml4)
    (distinct : Distinct (child m) pml4 3) (found : tableOf m pml4 p = some t) (inside : p.length ≤ 3)
    (short : q.length ≤ 3) (above : tableOf m pml4 q = some a) (off : q ++ [j] ≠ p ++ [i]) :
    entryAt (setEntry m t i e) a j = entryAt m a j := by
  apply entryAt_setEntry_of_ne (tableOf_aligned root found) (tableOf_aligned root above)
  by_cases same : a = t
  · right
    rintro rfl
    rw [same] at above
    exact off (by rw [distinct q p t short inside above found])
  · exact Or.inl same

theorem setEntry_upper (root : pageSize ∣ pml4) (distinct : Distinct (child m) pml4 3)
    (found : tableOf m pml4 (pathOf virt) = some pt) {q : List (Fin 512)} {a : Nat} {j : Fin 512} (short : q.length ≤ 3)
    (above : tableOf m pml4 q = some a) (off : q ++ [j] ≠ placeOf virt) :
    entryAt (setEntry m pt (ptIndex virt) e) a j = entryAt m a j :=
  setEntry_off root distinct found (Nat.le_of_eq (pathOf_length virt)) short above off

theorem placeOf_length (virt : Nat) : (placeOf virt).length = 4 := rfl

theorem setEntry_tables (root : pageSize ∣ pml4) (distinct : Distinct (child m) pml4 3)
    (found : tableOf m pml4 (pathOf virt) = some pt) {q : List (Fin 512)} (short : q.length ≤ 3) :
    tableOf (setEntry m pt (ptIndex virt) e) pml4 q = tableOf m pml4 q := by
  have same : ∀ p i a, p.length < 3 → walk (child m) pml4 p = some a → p ++ [i] ≠ placeOf virt →
      child (setEntry m pt (ptIndex virt) e) p.length a i = child m p.length a i := by
    intro p i a inside above off
    apply child_congr
    exact setEntry_upper root distinct found (by omega) above off
  apply walk_off same q short
  intro begins
  have := begins.length_le
  rw [placeOf_length] at this
  omega

theorem setEntry_translate (root : pageSize ∣ pml4) (distinct : Distinct (child m) pml4 3)
    (found : tableOf m pml4 (pathOf virt) = some pt) {v : Nat} (other : placeOf v ≠ placeOf virt) :
    vmmTranslatePml4 (setEntry m pt (ptIndex virt) e) pml4 v = vmmTranslatePml4 m pml4 v := by
  apply translate_congr
  · exact setEntry_tables root distinct found (Nat.le_succ 2)
  · intro t above
    have upper : [pml4Index v, pdptIndex v].length ≤ 3 := Nat.le_succ 2
    apply setEntry_upper root distinct found upper above
    intro same
    have := congrArg List.length same
    rw [placeOf_length] at this
    cases this
  · intro t above
    exact setEntry_upper root distinct found (Nat.le_of_eq (pathOf_length v)) above other

end

section
variable {m m' : Mem} {pml4 f : Nat}

theorem off_entry (changed : AgreeOff m' m f pageSize) (root : pageSize ∣ pml4) (frame : pageSize ∣ f)
    (noTable : ∀ q, q.length ≤ 3 → tableOf m pml4 q ≠ some f) {q : List (Fin 512)} {a : Nat} {j : Fin 512}
    (short : q.length ≤ 3) (found : tableOf m pml4 q = some a) :
    entryAt m' a j = entryAt m a j := by
  apply entryAt_off changed frame (tableOf_aligned root found)
  rintro rfl
  exact noTable q short found

theorem off_tables (changed : AgreeOff m' m f pageSize) (root : pageSize ∣ pml4) (frame : pageSize ∣ f)
    (noTable : ∀ q, q.length ≤ 3 → tableOf m pml4 q ≠ some f) {q : List (Fin 512)} (short : q.length ≤ 3) :
    tableOf m' pml4 q = tableOf m pml4 q := by
  have same : ∀ p i a, p.length < 3 → walk (child m) pml4 p = some a →
      child m' p.length a i = child m p.length a i := by
    intro p i a inside found
    apply child_congr
    exact off_entry changed root frame noTable (by omega) found
  exact walk_congr same q short

theorem off_translate (changed : AgreeOff m' m f pageSize) (root : pageSize ∣ pml4) (frame : pageSize ∣ f)
    (noTable : ∀ q, q.length ≤ 3 → tableOf m pml4 q ≠ some f) (v : Nat) :
    vmmTranslatePml4 m' pml4 v = vmmTranslatePml4 m pml4 v := by
  have upper : [pml4Index v, pdptIndex v].length ≤ 3 := Nat.le_succ 2
  apply translate_congr
  · exact off_tables changed root frame noTable upper
  · intro t found
    exact off_entry changed root frame noTable upper found
  · intro t found
    exact off_entry changed root frame noTable (Nat.le_of_eq (pathOf_length v)) found

theorem off_noHuge (changed : AgreeOff m' m f pageSize) (root : pageSize ∣ pml4) (frame : pageSize ∣ f)
    (noTable : ∀ q, q.length ≤ 3 → tableOf m pml4 q ≠ some f) {path : List (Fin 512)} (inside : path.length ≤ 3)
    (noHuge : NoHuge m pml4 path) : NoHuge m' pml4 path := by
  intro q j a begins found
  have short := begins.length_le
  rw [List.length_append, List.length_singleton] at short
  rw [off_tables changed root frame noTable (by omega)] at found
  rw [SmallEntry, off_entry changed root frame noTable (by omega) found]
  exact noHuge q j a begins found

theorem off_treeOk {s : Machine} (changed : AgreeOff m' s.mem f pageSize) (ok : TreeOk s pml4) (frame : pageSize ∣ f)
    (noTable : ∀ q, q.length ≤ 3 → tableOf s.mem pml4 q ≠ some f) :
    TreeOk { s with mem := m' } pml4 := by
  have tables : ∀ q : List (Fin 512), q.length ≤ 3 → tableOf m' pml4 q = tableOf s.mem pml4 q :=
    fun q short => off_tables changed ok.root frame noTable short
  refine ⟨ok.root, ?_, ?_, ok.hint, ok.narrow⟩
  · apply ok.distinct.mono
    intro q a short found
    rw [← tableOf, tables q short] at found
    exact found
  · intro i inside clear q short
    rw [tables q short]
    exact ok.free i inside clear q short

end

structure PageFlags (flags : Nat) : Prop where
  present : flags &&& pagePresent ≠ 0
  noAddress : flags &&& addrMask4k = 0
  word : flags < 2 ^ 64

/-- The page of `virt` is mapped to the frame `phys`, and otherwise only tables have been added. -/
structure MapsPage (pml4 virt phys : Nat) (s s' : Machine) : Prop where
  here : ∀ v, placeOf v = placeOf virt → vmmTranslatePml4 s'.mem pml4 v = phys ||| v &&& pageOff4k
  others : ∀ v, placeOf v ≠ placeOf virt → vmmTranslatePml4 s'.mem pml4 v = vmmTranslatePml4 s.mem pml4 v
  noHuge : ∀ path, path.length ≤ 3 → NoHuge s.mem pml4 path → NoHuge s'.mem pml4 path
  pmm : Allocates s.pmm s'.pmm
  apart : ∀ k, s.pmm.bmTest k = true → (∀ q, q.length ≤ 3 → tableOf s.mem pml4 q ≠ some (k * pageSize)) →
    (∀ q, q.length ≤ 3 → tableOf s'.mem pml4 q ≠ some (k * pageSize)) ∧
      AgreeOn s'.mem s.mem (k * pageSize) pageSize

section
variable {s s' : Machine} {pml4 virt phys flags pt : Nat}

theorem setEntry_treeOk {e : Nat} (ok : TreeOk s pml4) (found : tableOf s.mem pml4 (pathOf virt) = some pt) :
    TreeOk { s with mem := setEntry s.mem pt (ptIndex virt) e } pml4 := by
  have tables : ∀ q : List (Fin 512), q.length ≤ 3 →
      tableOf (setEntry s.mem pt (ptIndex virt) e) pml4 q = tableOf s.mem pml4 q :=
    fun q short => setEntry_tables ok.root ok.distinct found short
  refine ⟨ok.root, ?_, ?_, ok.hint, ok.narrow⟩
  · apply ok.distinct.mono
    intro q a short there
    rw [← tableOf, tables q short] at there
    exact there
  · intro i inside clear q short
    rw [tables q short]
    exact ok.free i inside clear q short

theorem Extends.mapsPage (extends' : Extends pml4 s s') (ok : TreeOk s' pml4)
    (found : tableOf s'.mem pml4 (pathOf virt) = some pt) (frame : IsFrame phys) (flagged : PageFlags flags) :
    MapsPage pml4 virt phys s { s' with mem := setEntry s'.mem pt (ptIndex virt) (phys ||| flags) } := by
  have tables : ∀ q : List (Fin 512), q.length ≤ 3 →
      tableOf (setEntry s'.mem pt (ptIndex virt) (phys ||| flags)) pml4 q = tableOf s'.mem pml4 q :=
    fun q short => setEntry_tables ok.root ok.distinct found short
  have entry : entryAt (setEntry s'.mem pt (ptIndex virt) (phys ||| flags)) pt (ptIndex virt) = phys ||| flags :=
    entryAt_setEntry (entry_lt frame flagged.word)
  constructor
  case here =>
    intro v same
    obtain ⟨path, last⟩ := List.append_inj' same rfl
    have index : ptIndex v = ptIndex virt := List.singleton_inj.mp last
    have there : tableOf (setEntry s'.mem pt (ptIndex virt) (phys ||| flags)) pml4 (pathOf v) = some pt := by
      rw [path, tables _ (Nat.le_of_eq (pathOf_length virt)), found]
    have present : ¬ (phys ||| flags) &&& pagePresent = 0 := by
      rw [frame_low frame (by decide)]
      exact flagged.present
    rw [translate_of_table there, index, entry, if_neg present, frame_or frame flagged.noAddress]
  case others =>
    intro v other
    rw [setEntry_translate ok.root ok.distinct found other]
    exact extends'.translate v
  case noHuge =>
    intro path inside noHuge q j a begins above present
    have short : q.length + 1 ≤ 3 := by
      have := begins.length_le
      rw [List.length_append, List.length_singleton] at this
      omega
    have same : entryAt (setEntry s'.mem pt (ptIndex virt) (phys ||| flags)) a j = entryAt s'.mem a j := by
      rw [tables q (by omega)] at above
      apply setEntry_upper ok.root ok.distinct found (by omega) above
      intro whole
      have := congrArg List.length whole
      rw [placeOf_length, List.length_append, List.length_singleton] at this
      omega
    rw [tables q (by omega)] at above
    dsimp only at present ⊢
    rw [same] at present ⊢
    exact noHuge.extends inside extends' q j a begins above present
  case pmm => exact extends'.pmm
  case apart =>
    intro k used other
    obtain ⟨other', agree⟩ := extends'.apart k used other
    refine ⟨fun q short => by rw [tables q short]; exact other' q short, ?_⟩
    intro x low high
    rw [← agree x low high]
    apply store_outside
    -- the page table is another frame
    obtain ⟨b, rfl⟩ := tableOf_aligned ok.root found
    have apart : k ≠ b := by
      rintro rfl
      rw [Nat.mul_comm] at found
      exact other' _ (Nat.le_of_eq (pathOf_length virt)) found
    have index := (ptIndex virt).isLt
    simp only [pageSize] at *
    omega

theorem inter_tableFlags : TableFlags (pagePresent ||| pageWritable ||| pageUser) := by
  constructor <;> decide

theorem vmmMapPagePml4_spec {fails : Nat → Bool} {done : Bool} (ok : TreeOk s pml4) (flagged : PageFlags flags)
    (run : vmmMapPagePml4 fails s pml4 virt phys flags = .ok (done, s')) :
    TreeOk s' pml4 ∧ (done = true → MapsPage pml4 virt (phys &&& addrMask4k) s s') ∧
      (done = false → Extends pml4 s s') := by
  have root : tableOf s.mem pml4 [] = some pml4 := rfl
  rw [vmmMapPagePml4] at run
  split at run
  · cases run
  · rename_i got
    have tables := getOrCreateTables_spec fails ok inter_tableFlags root (Nat.le_of_eq (pathOf_length virt)) got
    obtain ⟨ok', extends', _⟩ := tables
    cases run
    exact ⟨ok', nofun, fun _ => extends'⟩
  · rename_i got
    have tables := getOrCreateTables_spec fails ok inter_tableFlags root (Nat.le_of_eq (pathOf_length virt)) got
    obtain ⟨ok', extends', found⟩ := tables
    cases run
    have there := found _ rfl
    exact ⟨setEntry_treeOk ok' there, fun _ => extends'.mapsPage ok' there (isFrame_and phys) flagged, nofun⟩

theorem vmmMapPagePml4_total (fails : Nat → Bool) (phys flags : Nat) (ok : TreeOk s pml4)
    (noHuge : NoHuge s.mem pml4 (pathOf virt)) :
    ∃ done s', vmmMapPagePml4 fails s pml4 virt phys flags = .ok (done, s') := by
  have root : tableOf s.mem pml4 [] = some pml4 := rfl
  have tables := getOrCreateTables_total fails ok inter_tableFlags root (Nat.le_of_eq (pathOf_length virt)) noHuge
  obtain ⟨r, s', got⟩ := tables
  rw [vmmMapPagePml4, got]
  cases r with
  | none => exact ⟨false, s', rfl⟩
  | some pt => exact ⟨true, _, rfl⟩

/-- Mapping a page maps this page and no other, or nothing, and the tree stays well-formed. -/
theorem vmm_map_translate (fails : Nat → Bool) (ok : TreeOk s pml4) (noHuge : NoHuge s.mem pml4 (pathOf virt))
    (canonical : Canonical virt) (frame : IsFrame phys) (flagged : PageFlags flags) :
    ∃ done s', vmmMapPagePml4 fails s pml4 virt phys flags = .ok (done, s') ∧
      TreeOk s' pml4 ∧ NoHuge s'.mem pml4 (pathOf virt) ∧
      (done = true →
        (∀ v, Canonical v → v / pageSize = virt / pageSize → vmmTranslatePml4 s'.mem pml4 v = phys ||| v &&& pageOff4k) ∧
        ∀ v, Canonical v → v / pageSize ≠ virt / pageSize →
          vmmTranslatePml4 s'.mem pml4 v = vmmTranslatePml4 s.mem pml4 v) ∧
      (done = false → ∀ v, vmmTranslatePml4 s'.mem pml4 v = vmmTranslatePml4 s.mem pml4 v) := by
  have inside := Nat.le_of_eq (pathOf_length virt)
  obtain ⟨done, s', run⟩ := vmmMapPagePml4_total fails phys flags ok noHuge
  obtain ⟨ok', success, failure⟩ := vmmMapPagePml4_spec ok flagged run
  rw [show phys &&& addrMask4k = phys from frame] at success
  cases done with
  | true =>
    have maps := success rfl
    refine ⟨true, s', run, ok', maps.noHuge _ inside noHuge, fun _ => ⟨?_, ?_⟩, nofun⟩
    · intro v canonical' same
      exact maps.here v ((placeOf_canonical canonical' canonical).mpr same)
    · intro v canonical' other
      exact maps.others v (mt (placeOf_canonical canonical' canonical).mp other)
  | false =>
    have extends' := failure rfl
    exact ⟨false, s', run, ok', noHuge.extends inside extends', nofun, fun _ => extends'.translate⟩

def smallMachine : Machine where
  pmm :=
    { bitmap := fun _ => 3, bitmapPhys := 0, bitmapSize := 1, totalFrames := 8, usedFrames := 2, searchHint := 0 }
  mem := fun _ => 0
  clock := 0

theorem smallMachine_entry (t : Nat) (i : Fin 512) : entryAt smallMachine.mem t i = 0 := by
  simp [entryAt, smallMachine, load]

theorem smallMachine_ok : TreeOk smallMachine (1 * pageSize) :=
  TreeOk.empty (smallMachine_entry _) rfl (by decide) (by decide)

theorem smallMachine_noHuge (path : List (Fin 512)) : NoHuge smallMachine.mem (1 * pageSize) path := by
  intro p i t _ _ present
  exact absurd (by rw [smallMachine_entry, Nat.zero_and]) present

theorem vmm_map_translate_small :
    (vmmMapPagePml4 (fun _ => false) smallMachine (1 * pageSize) 0x400000 0x6000 7).map Prod.fst = .ok true ∧
    ∃ done s', vmmMapPagePml4 (fun _ => false) smallMachine (1 * pageSize) 0x400000 0x6000 7 = .ok (done, s') ∧
      TreeOk s' (1 * pageSize) ∧ NoHuge s'.mem (1 * pageSize) (pathOf 0x400000) ∧
      (done = true →
        (∀ v, Canonical v → v / pageSize = 0x400000 / pageSize →
          vmmTranslatePml4 s'.mem (1 * pageSize) v = 0x6000 ||| v &&& pageOff4k) ∧
        ∀ v, Canonical v → v / pageSize ≠ 0x400000 / pageSize →
          vmmTranslatePml4 s'.mem (1 * pageSize) v = vmmTranslatePml4 smallMachine.mem (1 * pageSize) v) ∧
      (done = false → ∀ v,
        vmmTranslatePml4 s'.mem (1 * pageSize) v = vmmTranslatePml4 smallMachine.mem (1 * pageSize) v) := by
  constructor
  · decide +kernel
  · apply vmm_map_translate
    case ok => exact smallMachine_ok
    case noHuge => exact smallMachine_noHuge _
    case canonical => exact Or.inl (by decide)
    case frame => exact isFrame_and 0x6000
    case flagged => exact ⟨by decide, by decide, by decide⟩

end

/-! The allocator finds every clear frame in the end, those ahead of its hint one after the other;
with enough of them no table is missing.
-/

/-- Where `P s n` holds, the allocator finds `n` frames one after the other. -/
structure Supply (P : Pmm → Nat → Prop) : Prop where
  fewer : ∀ {s n}, P s (n + 1) → P s n
  alloc : ∀ {s n}, P s (n + 1) →
    ∃ k, k * pageSize ≠ 0 ∧ pmmAllocFrame s = (k * pageSize, takeFrame s k) ∧ P (takeFrame s k) n

structure Plenty (s : Pmm) (n : Nat) : Prop where
  zero : s.bmTest 0 = true
  hint : s.searchHint ≤ s.totalFrames
  clear : s.setBits + n ≤ s.totalFrames

theorem Plenty.supply : Supply Plenty where
  fewer plenty := ⟨plenty.zero, plenty.hint, Nat.le_of_succ_le plenty.clear⟩
  alloc := by
    intro s n plenty
    obtain ⟨zero, hint, clear⟩ := plenty
    rcases pmmAllocFrame_cases hint with ⟨k, inside, clearK, got⟩ | ⟨all, -⟩
    · have nonzero : k ≠ 0 := by
        rintro rfl
        rw [zero] at clearK
        cases clearK
      have bits : ∀ j, (takeFrame s k).bmTest j = (decide (j = k) || s.bmTest j) := Pmm.bmTest_bmSet s k
      have raised := Pmm.setBits_set (s := s) (t := takeFrame s k) rfl inside clearK bits
      refine ⟨k, Nat.mul_ne_zero nonzero (by decide), got, by rw [bits, zero, Bool.or_true], inside, ?_⟩
      show (takeFrame s k).setBits + n ≤ s.totalFrames
      omega
    · -- all frames would be taken
      have full : s.setBits = s.totalFrames := Nat.count_iff_forall.mpr fun i inside => all i inside
      omega

/-- `n` clear frames lie ahead of the search, and frame 0 is taken. -/
def Ahead (s : Pmm) (n : Nat) : Prop :=
  s.bmTest 0 = true ∧ ∃ w, s.searchHint ≤ w ∧ w + n ≤ s.totalFrames ∧ ∀ j, w ≤ j → j < w + n → s.bmTest j = false

theorem Ahead.mono {s : Pmm} {n k : Nat} (ahead : Ahead s n) (fewer : k ≤ n) : Ahead s k := by
  obtain ⟨zero, w, hint, inside, clear⟩ := ahead
  exact ⟨zero, w, hint, by omega, fun j low high => clear j low (by omega)⟩

theorem firstClear_first {s : Pmm} {lo n i : Nat} (found : firstClear s lo n = some i) :
    ∀ j, lo ≤ j → j < i → s.bmTest j = true := by
  induction n generalizing lo with
  | zero => cases found
  | succ n ih =>
    intro j low high
    rw [firstClear] at found
    split at found
    · rename_i set
      by_cases here : j = lo
      · rw [here]
        exact set
      · exact ih found j (by omega) high
    · cases found
      omega

theorem Ahead.alloc {s : Pmm} {n : Nat} (ahead : Ahead s (n + 1)) :
    ∃ k, k * pageSize ≠ 0 ∧ pmmAllocFrame s = (k * pageSize, takeFrame s k) ∧ Ahead (takeFrame s k) n := by
  obtain ⟨zero, w, hint, inside, clear⟩ := ahead
  have here := clear w (Nat.le_refl _) (by omega)
  cases found : firstClear s s.searchHint (s.totalFrames - s.searchHint) with
  | none =>
    have set := firstClear_none found w hint (by omega)
    rw [here] at set
    cases set
  | some k =>
    obtain ⟨low, _, clearK⟩ := firstClear_some found
    have before : k ≤ w := by
      by_contra beyond
      have set := firstClear_first found w hint (by omega)
      rw [here] at set
      cases set
    have nonzero : k ≠ 0 := by
      rintro rfl
      rw [zero] at clearK
      cases clearK
    have bits : ∀ j, (takeFrame s k).bmTest j = (decide (j = k) || s.bmTest j) := Pmm.bmTest_bmSet s k
    refine ⟨k, Nat.mul_ne_zero nonzero (by decide), by rw [pmmAllocFrame, found], by rw [bits, zero, Bool.or_true],
      w + 1, Nat.succ_le_succ before, by show w + 1 + n ≤ s.totalFrames; omega, ?_⟩
    intro j first last
    rw [bits, clear j (by omega) (by omega), decide_eq_false (by omega)]
    rfl

theorem Ahead.supply : Supply Ahead := ⟨fun ahead => ahead.mono (Nat.le_succ _), Ahead.alloc⟩

section
variable {P : Pmm → Nat → Prop} {s s' : Machine} {pml4 t flags n : Nat} {i : Fin 512}

theorem getOrCreateTable_supply {r : Option Nat} (supply : Supply P) (has : P s.pmm (n + 1))
    (run : getOrCreateTable (fun _ => false) s t i flags = .ok (r, s')) : r ≠ none ∧ P s'.pmm n := by
  unfold getOrCreateTable at run
  split at run
  · obtain ⟨k, nonzero, got, left⟩ := supply.alloc has
    simp only [allocFrame, got, nonzero, if_false, Bool.false_eq_true] at run
    obtain ⟨some', rfl⟩ := tableBehind_result run
    exact ⟨some', left⟩
  · obtain ⟨some', rfl⟩ := tableBehind_result run
    exact ⟨some', supply.fewer has⟩

theorem getOrCreateTables_supply {path : List (Fin 512)} {r : Option Nat} (supply : Supply P) (has : P s.pmm (n + path.length))
    (run : getOrCreateTables (fun _ => false) flags s t path = .ok (r, s')) : r ≠ none ∧ P s'.pmm n := by
  induction path generalizing s t with
  | nil =>
    cases run
    exact ⟨nofun, has⟩
  | cons i path ih =>
    rw [getOrCreateTables] at run
    split at run
    · cases run
    · rename_i got
      exact absurd rfl (getOrCreateTable_supply supply has got).1
    · rename_i got
      exact ih (getOrCreateTable_supply supply has got).2 run

variable {virt phys : Nat} {done : Bool}

theorem vmmMapHuge2mb_supply (supply : Supply P) (has : P s.pmm (n + 2))
    (run : vmmMapHuge2mb (fun _ => false) s pml4 virt phys flags = .ok (done, s')) : done = true ∧ P s'.pmm n := by
  rw [vmmMapHuge2mb] at run
  split at run
  · cases run
  · rename_i got
    exact absurd rfl (getOrCreateTables_supply supply has got).1
  · rename_i got
    cases run
    exact ⟨rfl, (getOrCreateTables_supply supply has got).2⟩

theorem vmmMapPagePml4_supply (supply : Supply P) (has : P s.pmm (n + 3))
    (run : vmmMapPagePml4 (fun _ => false) s pml4 virt phys flags = .ok (done, s')) : done = true ∧ P s'.pmm n := by
  rw [vmmMapPagePml4] at run
  split at run
  · cases run
  · rename_i got
    exact absurd rfl (getOrCreateTables_supply supply has got).1
  · rename_i got
    cases run
    exact ⟨rfl, (getOrCreateTables_supply supply has got).2⟩

end

end RexOs.Mm
