import RexOs.Mm.PmmHistory
import RexOs.Mm.VmmMap

/-! The direct map.

`vmm_init` maps the physical addresses below 4 GiB at `hhdm` with pages of 2 MiB and then
the kernel image with pages of 4 KiB. The allocator hands out frames of all usable
regions, wherever these lie.
-/

set_option autoImplicit false

namespace RexOs.Mm

open RexOs.Library

theorem and_addrMask2m {phys : Nat} (aligned : hugePageSize ∣ phys) (narrow : phys < 2 ^ 52) :
    phys &&& addrMask2m = phys := by
  have mask : addrMask2m = (2 ^ 31 - 1) * 2 ^ 21 := by decide
  have size : hugePageSize = 2 ^ 21 := by decide
  have whole := Nat.mod_eq_zero_of_dvd aligned
  rw [mask, and_field]
  rw [size] at whole
  omega

theorem or_offset2m {phys v : Nat} (aligned : hugePageSize ∣ phys) :
    phys ||| v &&& pageOff2m = phys + v % hugePageSize := by
  obtain ⟨k, rfl⟩ := aligned
  have mask : pageOff2m = 2 ^ 21 - 1 := by decide
  have size : hugePageSize = 2 ^ 21 := by decide
  rw [mask, size, Nat.and_two_pow_sub_one_eq_mod]
  exact (Nat.two_pow_add_eq_or_of_lt (Nat.mod_lt _ (by decide)) k).symm

theorem pathOf_canonical {v w : Nat} (canonical : Canonical v) (canonical' : Canonical w) :
    pathOf v = pathOf w ↔ v / hugePageSize = w / hugePageSize := by
  simp only [pathOf, List.cons.injEq, and_true, pml4Index, pdptIndex, pdIndex, ofNat_shift_eq]
  unfold Canonical at canonical canonical'
  simp only [hugePageSize]
  omega

def upperPath (virt : Nat) : List (Fin 512) := [pml4Index virt, pdptIndex virt]

section
variable {m : Mem} {pml4 virt pd e : Nat}

theorem upperPath_length (v : Nat) : (upperPath v).length ≤ 3 := Nat.le_succ 2

theorem pathOf_below (v w : Nat) : ¬ pathOf w <+: upperPath v := by
  intro begins
  have := begins.length_le
  rw [pathOf_length] at this
  exact absurd this (Nat.not_succ_le_self 2)

theorem setHuge_off (root : pageSize ∣ pml4) (distinct : Distinct (child m) pml4 3)
    (found : tableOf m pml4 (upperPath virt) = some pd) {q : List (Fin 512)} {a : Nat} {j : Fin 512} (short : q.length ≤ 3)
    (above : tableOf m pml4 q = some a) (off : q ++ [j] ≠ pathOf virt) :
    entryAt (setEntry m pd (pdIndex virt) e) a j = entryAt m a j :=
  setEntry_off root distinct found (upperPath_length virt) short above off

theorem setHuge_tables (root : pageSize ∣ pml4) (distinct : Distinct (child m) pml4 3)
    (found : tableOf m pml4 (upperPath virt) = some pd) (huge : e &&& pageHuge ≠ 0) (word : e < 2 ^ 64) :
    (∀ q : List (Fin 512), q.length ≤ 3 → ¬ pathOf virt <+: q →
      tableOf (setEntry m pd (pdIndex virt) e) pml4 q = tableOf m pml4 q) ∧
    ∀ q, pathOf virt <+: q → tableOf (setEntry m pd (pdIndex virt) e) pml4 q = none := by
  have same : ∀ p i a, p.length < 3 → walk (child m) pml4 p = some a → p ++ [i] ≠ pathOf virt →
      child (setEntry m pd (pdIndex virt) e) p.length a i = child m p.length a i := by
    intro p i a inside above off
    apply child_congr
    exact setHuge_off root distinct found (by omega) above off
  have place : upperPath virt ++ [pdIndex virt] = pathOf virt := rfl
  have gone : child (setEntry m pd (pdIndex virt) e) (upperPath virt).length pd (pdIndex virt) = none := by
    rw [child, entryAt_setEntry word]
    exact if_pos (Or.inr ⟨rfl, huge⟩)
  exact ⟨walk_off same, walk_cut same place found gone (Nat.le_of_eq (pathOf_length virt))⟩

theorem setHuge_fewer (root : pageSize ∣ pml4) (distinct : Distinct (child m) pml4 3)
    (found : tableOf m pml4 (upperPath virt) = some pd) (huge : e &&& pageHuge ≠ 0) (word : e < 2 ^ 64)
    {q : List (Fin 512)} {a : Nat} (short : q.length ≤ 3)
    (there : tableOf (setEntry m pd (pdIndex virt) e) pml4 q = some a) : tableOf m pml4 q = some a := by
  obtain ⟨off, below⟩ := setHuge_tables root distinct found huge word
  by_cases begins : pathOf virt <+: q
  · rw [below q begins] at there
    cases there
  · rw [← off q short begins]
    exact there

theorem setHuge_treeOk {s : Machine} (ok : TreeOk s pml4) (found : tableOf s.mem pml4 (upperPath virt) = some pd)
    (huge : e &&& pageHuge ≠ 0) (word : e < 2 ^ 64) :
    TreeOk { s with mem := setEntry s.mem pd (pdIndex virt) e } pml4 := by
  have fewer : ∀ (q : List (Fin 512)) a, q.length ≤ 3 → tableOf (setEntry s.mem pd (pdIndex virt) e) pml4 q = some a →
      tableOf s.mem pml4 q = some a :=
    fun q a short there => setHuge_fewer ok.root ok.distinct found huge word short there
  refine ⟨ok.root, ok.distinct.mono fewer, ?_, ok.hint, ok.narrow⟩
  intro i inside clear q short there
  exact ok.free i inside clear q short (fewer q _ short there)

theorem setHuge_noHuge (root : pageSize ∣ pml4) (distinct : Distinct (child m) pml4 3)
    (found : tableOf m pml4 (upperPath virt) = some pd) (huge : e &&& pageHuge ≠ 0) (word : e < 2 ^ 64)
    {path : List (Fin 512)} (inside : path.length ≤ 3) (other : path ≠ pathOf virt) (noHuge : NoHuge m pml4 path) :
    NoHuge (setEntry m pd (pdIndex virt) e) pml4 path := by
  intro q j a begins there
  have bound := begins.length_le
  rw [List.length_append, List.length_singleton] at bound
  have before := setHuge_fewer root distinct found huge word (by omega) there
  have same : entryAt (setEntry m pd (pdIndex virt) e) a j = entryAt m a j := by
    apply setHuge_off root distinct found (by omega) before
    intro whole
    -- the path of the huge page is as long as a path can be
    rw [whole] at begins
    exact other (begins.eq_of_length_le (by rw [pathOf_length]; exact inside)).symm
  intro present
  rw [same] at present ⊢
  exact noHuge q j a begins before present

theorem setHuge_here (root : pageSize ∣ pml4) (distinct : Distinct (child m) pml4 3)
    (found : tableOf m pml4 (upperPath virt) = some pd) (present : e &&& pagePresent ≠ 0) (huge : e &&& pageHuge ≠ 0)
    (word : e < 2 ^ 64) {v : Nat} (same : pathOf v = pathOf virt) :
    vmmTranslatePml4 (setEntry m pd (pdIndex virt) e) pml4 v = e &&& addrMask2m ||| v &&& pageOff2m := by
  obtain ⟨off, _⟩ := setHuge_tables root distinct found huge word
  obtain ⟨upper, last⟩ := List.append_inj' (show upperPath v ++ [pdIndex v] = upperPath virt ++ [pdIndex virt] from same) rfl
  have index : pdIndex v = pdIndex virt := List.singleton_inj.mp last
  have there : tableOf (setEntry m pd (pdIndex virt) e) pml4 (upperPath v) = some pd := by
    rw [upper, off _ (upperPath_length virt) (pathOf_below virt virt), found]
  rw [vmmTranslatePml4, tableOf_pd, show [pml4Index v, pdptIndex v] = upperPath v from rfl, there]
  simp only [index, entryAt_setEntry word, present, huge, if_false, ne_eq, not_false_eq_true, if_true]

theorem setHuge_others (root : pageSize ∣ pml4) (distinct : Distinct (child m) pml4 3)
    (found : tableOf m pml4 (upperPath virt) = some pd) (huge : e &&& pageHuge ≠ 0) (word : e < 2 ^ 64) {v : Nat}
    (other : pathOf v ≠ pathOf virt) :
    vmmTranslatePml4 (setEntry m pd (pdIndex virt) e) pml4 v = vmmTranslatePml4 m pml4 v := by
  obtain ⟨off, _⟩ := setHuge_tables root distinct found huge word
  apply translate_congr
  · exact off _ (upperPath_length v) (pathOf_below v virt)
  · intro t above
    exact setHuge_off root distinct found (upperPath_length v) above other
  · intro t above
    apply setHuge_off root distinct found (Nat.le_of_eq (pathOf_length v)) above
    intro same
    have := congrArg List.length same
    rw [List.length_append, pathOf_length, pathOf_length] at this
    cases this

end

/-- Two MiB at `virt` are mapped to `phys`, and otherwise only tables have been added. -/
structure MapsHuge (pml4 virt phys : Nat) (s s' : Machine) : Prop where
  here : ∀ v, pathOf v = pathOf virt → vmmTranslatePml4 s'.mem pml4 v = phys ||| v &&& pageOff2m
  others : ∀ v, pathOf v ≠ pathOf virt → vmmTranslatePml4 s'.mem pml4 v = vmmTranslatePml4 s.mem pml4 v
  noHuge : ∀ path, path.length ≤ 3 → path ≠ pathOf virt → NoHuge s.mem pml4 path → NoHuge s'.mem pml4 path
  pmm : Allocates s.pmm s'.pmm

theorem vmmMapHuge2mb_spec {fails : Nat → Bool} {s s' : Machine} {pml4 virt phys : Nat} (ok : TreeOk s pml4)
    (aligned : hugePageSize ∣ phys) (narrow : phys < 2 ^ 52)
    (run : vmmMapHuge2mb fails s pml4 virt phys (pagePresent ||| pageWritable) = .ok (true, s')) :
    TreeOk s' pml4 ∧ MapsHuge pml4 virt phys s s' := by
  have inter : TableFlags (pagePresent ||| pageWritable) := by
    constructor <;> decide
  have root : tableOf s.mem pml4 [] = some pml4 := rfl
  have frame : IsFrame phys := isFrame_iff.mpr ⟨Nat.dvd_trans (by decide) aligned, narrow⟩
  have bits : ∀ bit, addrMask4k &&& bit = 0 →
      (phys ||| (pagePresent ||| pageWritable ||| pageHuge)) &&& bit = (pagePresent ||| pageWritable ||| pageHuge) &&& bit :=
    fun bit low => frame_low frame low _
  have present : (phys ||| (pagePresent ||| pageWritable ||| pageHuge)) &&& pagePresent ≠ 0 := by
    rw [bits _ (by decide)]
    decide
  have huge : (phys ||| (pagePresent ||| pageWritable ||| pageHuge)) &&& pageHuge ≠ 0 := by
    rw [bits _ (by decide)]
    decide
  have address : (phys ||| (pagePresent ||| pageWritable ||| pageHuge)) &&& addrMask2m = phys := by
    rw [Nat.and_or_distrib_right, and_addrMask2m aligned narrow]
    exact Nat.or_zero phys
  have word := entry_lt frame (show pagePresent ||| pageWritable ||| pageHuge < 2 ^ 64 by decide)
  rw [vmmMapHuge2mb, and_addrMask2m aligned narrow] at run
  split at run
  · cases run
  · cases run
  · rename_i pd s₁ got
    obtain ⟨ok', extends', found⟩ := getOrCreateTables_spec fails ok inter root (upperPath_length virt) got
    have there := found pd rfl
    rw [Nat.or_assoc] at run
    cases run
    refine ⟨setHuge_treeOk ok' there huge word, ?_, ?_, ?_, extends'.pmm⟩
    · intro v same
      rw [setHuge_here ok'.root ok'.distinct there present huge word same, address]
    · intro v other
      rw [setHuge_others ok'.root ok'.distinct there huge word other]
      exact extends'.translate v
    · intro path inside other noHuge
      exact setHuge_noHuge ok'.root ok'.distinct there huge word inside other (noHuge.extends inside extends')

structure LayoutOk (map : List MemmapEntry) (kernel : KernelAddress) (kernelEnd hhdm : Nat) : Prop where
  aligned : hugePageSize ∣ hhdm
  high : 2 ^ 64 - 2 ^ 47 ≤ hhdm
  ram : hhdm + usableTop map ≤ kernel.virtualBase
  window : hhdm + hhdmTop ≤ kernel.virtualBase
  image : kernel.virtualBase ≤ kernelEnd
  addressable : kernelEnd < 2 ^ 64

section
variable {fails : Nat → Bool} {s s' : Machine} {pml4 hhdm : Nat}

/-- The first `top` bytes of physical memory are mapped at `hhdm`, and nothing else is mapped. -/
def DirectMap (m : Mem) (pml4 hhdm top : Nat) : Prop :=
  ∀ v, Canonical v → vmmTranslatePml4 m pml4 v = if hhdm ≤ v ∧ v < hhdm + top then v - hhdm else 0

theorem mapHhdm_spec (aligned : hugePageSize ∣ hhdm) (high : 2 ^ 64 - 2 ^ 47 ≤ hhdm) {n p : Nat}
    (alignedP : hugePageSize ∣ p) (inside : hhdm + p + n * hugePageSize < 2 ^ 64) (ok : TreeOk s pml4)
    (direct : DirectMap s.mem pml4 hhdm p) (run : mapHhdm fails pml4 hhdm s p n = .ok s') :
    TreeOk s' pml4 ∧ DirectMap s'.mem pml4 hhdm (p + n * hugePageSize) ∧ Allocates s.pmm s'.pmm := by
  induction n generalizing s p with
  | zero =>
    cases run
    rw [Nat.zero_mul, Nat.add_zero]
    exact ⟨ok, direct, Allocates.refl _⟩
  | succ n ih =>
    have size : hugePageSize = 2 ^ 21 := by decide
    have noWrap : (hhdm + p) % 2 ^ 64 = hhdm + p := Nat.mod_eq_of_lt (by rw [size] at inside; omega)
    rw [mapHhdm, noWrap] at run
    split at run
    · cases run
    · cases run
    · rename_i s₁ mapped
      have narrow : p < 2 ^ 52 := by
        rw [size] at inside
        omega
      obtain ⟨ok₁, maps⟩ := vmmMapHuge2mb_spec ok alignedP narrow mapped
      -- the next two MiB belong to the map
      have direct₁ : DirectMap s₁.mem pml4 hhdm (p + hugePageSize) := by
        intro v canonical
        have here : Canonical (hhdm + p) := Or.inr (by rw [size] at inside; omega)
        have first := Nat.mod_eq_zero_of_dvd aligned
        have last := Nat.mod_eq_zero_of_dvd alignedP
        by_cases same : pathOf v = pathOf (hhdm + p)
        · have page := (pathOf_canonical canonical here).mp same
          rw [maps.here v same, or_offset2m alignedP]
          rw [size] at *
          rw [if_pos (by omega)]
          omega
        · have page := mt (pathOf_canonical canonical here).mpr same
          rw [maps.others v same, direct v canonical]
          rw [size] at *
          congr 1
          apply propext
          omega
      have sum : p + (n + 1) * hugePageSize = p + hugePageSize + n * hugePageSize := by
        rw [Nat.succ_mul]
        omega
      have next : hhdm + (p + hugePageSize) + n * hugePageSize < 2 ^ 64 := by omega
      have rest := ih (Nat.dvd_add alignedP (Nat.dvd_refl _)) next ok₁ direct₁ run
      obtain ⟨ok', direct', pmm⟩ := rest
      rw [sum]
      exact ⟨ok', direct', maps.pmm.trans pmm⟩

theorem mapKernel_spec {kernel : KernelAddress} {n i : Nat} (high : 2 ^ 64 - 2 ^ 47 ≤ kernel.virtualBase)
    (inside : ∀ j, j < i + n → kernel.virtualBase + j * pageSize < 2 ^ 64) (ok : TreeOk s pml4)
    (run : mapKernel fails pml4 kernel s i n = .ok s') :
    Allocates s.pmm s'.pmm ∧ ∀ v, Canonical v → v / pageSize < kernel.virtualBase / pageSize →
      vmmTranslatePml4 s'.mem pml4 v = vmmTranslatePml4 s.mem pml4 v := by
  induction n generalizing s i with
  | zero =>
    cases run
    exact ⟨Allocates.refl _, fun _ _ _ => rfl⟩
  | succ n ih =>
    have flagged : PageFlags (pagePresent ||| pageWritable) := by
      constructor <;> decide
    have addressable := inside i (by omega)
    rw [mapKernel, Nat.mod_eq_of_lt addressable] at run
    split at run
    · cases run
    · cases run
    · rename_i s₁ mapped
      obtain ⟨ok₁, success, _⟩ := vmmMapPagePml4_spec ok flagged mapped
      have maps := success rfl
      obtain ⟨pmm, rest⟩ := ih (fun j below => inside j (by omega)) ok₁ run
      refine ⟨maps.pmm.trans pmm, ?_⟩
      intro v canonical below
      have here : Canonical (kernel.virtualBase + i * pageSize) := Or.inr (by omega)
      rw [rest v canonical below, maps.others]
      apply mt (placeOf_canonical canonical here).mp
      simp only [pageSize] at *
      omega

theorem vmmInit_spec {map : List MemmapEntry} {kernel : KernelAddress} {kernelEnd : Nat}
    (layout : LayoutOk map kernel kernelEnd hhdm) (hint : s.pmm.searchHint ≤ s.pmm.totalFrames)
    (narrow : s.pmm.totalFrames * pageSize ≤ 2 ^ 52)
    (run : vmmInit fails s (some kernel) kernelEnd hhdm = .ok (pml4, s')) :
    Allocates s.pmm s'.pmm ∧ ∀ v, Canonical v → v / pageSize < kernel.virtualBase / pageSize →
      vmmTranslatePml4 s'.mem pml4 v = if hhdm ≤ v ∧ v < hhdm + hhdmTop then v - hhdm else 0 := by
  have high := layout.high
  have window := layout.window
  have image := layout.image
  have addressable := layout.addressable
  obtain ⟨s₁, mem, pmm, hint₁, result⟩ := allocFrame_cases fails hint
  rw [vmmInit] at run
  rcases result with failed | ⟨k, got, inside, clear, used⟩
  · rw [failed] at run
    cases run
  · rw [got] at run
    dsimp only at run
    split at run
    · cases run
    split at run
    · cases run
    rename_i s₂ hhdmRun
    split at run
    · cases run
    rename_i s₃ kernelRun
    cases run
    -- the new PML4 maps nothing
    have empty : ∀ i, entryAt (fill s₁.mem (k * pageSize) pageSize 0) (k * pageSize) i = 0 := entryAt_fill
    have ok₁ : TreeOk { s₁ with mem := fill s₁.mem (k * pageSize) pageSize 0 } (k * pageSize) :=
      TreeOk.empty empty used hint₁ (by rw [pmm.total]; exact narrow)
    have direct₁ : DirectMap (fill s₁.mem (k * pageSize) pageSize 0) (k * pageSize) hhdm 0 := by
      intro v _
      have begins : [] ++ [pml4Index v] <+: pathOf v := ⟨[pdptIndex v, pdIndex v], rfl⟩
      rw [if_neg (by omega)]
      exact translate_missing begins rfl (by rw [empty]; exact Nat.zero_and _)
    have top : hhdmTop / hugePageSize * hugePageSize = hhdmTop := by decide
    have first := mapHhdm_spec layout.aligned high (Nat.dvd_zero _) (by rw [top]; omega) ok₁ direct₁ hhdmRun
    rw [top, Nat.zero_add] at first
    obtain ⟨ok₂, direct₂, pmm₂⟩ := first
    have pages : ∀ j, j < 0 + ((2 ^ 64 + kernelEnd - kernel.virtualBase) % 2 ^ 64 + pageSize - 1) % 2 ^ 64 / pageSize →
        kernel.virtualBase + j * pageSize < 2 ^ 64 := by
      intro j below
      simp only [pageSize] at *
      omega
    obtain ⟨pmm₃, below⟩ := mapKernel_spec (by omega) pages ok₂ kernelRun
    refine ⟨pmm.trans (pmm₂.trans pmm₃), ?_⟩
    intro v canonical lower
    rw [below v canonical lower]
    exact direct₂ v canonical

end

section
variable {s : Machine} {pml4 virt n : Nat}

theorem vmmMapHuge2mb_total (fails : Nat → Bool) (phys : Nat) (ok : TreeOk s pml4)
    (noHuge : NoHuge s.mem pml4 (upperPath virt)) :
    ∃ done s', vmmMapHuge2mb fails s pml4 virt phys (pagePresent ||| pageWritable) = .ok (done, s') := by
  have inter : TableFlags (pagePresent ||| pageWritable) := by
    constructor <;> decide
  have root : tableOf s.mem pml4 [] = some pml4 := rfl
  obtain ⟨r, s', got⟩ := getOrCreateTables_total fails ok inter root (upperPath_length virt) noHuge
  have got' : getOrCreateTables fails (pagePresent ||| pageWritable) s pml4 [pml4Index virt, pdptIndex virt] = .ok (r, s') := got
  rw [vmmMapHuge2mb, got']
  cases r with
  | none => exact ⟨false, s', rfl⟩
  | some pd => exact ⟨true, _, rfl⟩

/-- Huge pages are on the paths of the first `top` bytes of the direct map only. -/
def NoHugeOutside (m : Mem) (pml4 hhdm top : Nat) : Prop :=
  ∀ v, Canonical v → ¬ (hhdm ≤ v ∧ v < hhdm + top) → NoHuge m pml4 (pathOf v)

theorem mapHhdm_total {hhdm k p : Nat} (aligned : hugePageSize ∣ hhdm) (high : 2 ^ 64 - 2 ^ 47 ≤ hhdm)
    (alignedP : hugePageSize ∣ p) (inside : hhdm + p + n * hugePageSize < 2 ^ 64) (ok : TreeOk s pml4)
    (noHuge : NoHugeOutside s.mem pml4 hhdm p) (ahead : Ahead s.pmm (k + 2 * n)) :
    ∃ s', mapHhdm (fun _ => false) pml4 hhdm s p n = .ok s' ∧ TreeOk s' pml4 ∧
      NoHugeOutside s'.mem pml4 hhdm (p + n * hugePageSize) ∧ Ahead s'.pmm k := by
  induction n generalizing s p with
  | zero =>
    rw [Nat.zero_mul, Nat.add_zero]
    exact ⟨s, rfl, ok, noHuge, ahead⟩
  | succ n ih =>
    have size : hugePageSize = 2 ^ 21 := by decide
    have noWrap : (hhdm + p) % 2 ^ 64 = hhdm + p := Nat.mod_eq_of_lt (by rw [size] at inside; omega)
    have here : Canonical (hhdm + p) := Or.inr (by rw [size] at inside; omega)
    have upper : NoHuge s.mem pml4 (upperPath (hhdm + p)) := by
      intro q i a begins
      exact noHuge _ here (by omega) q i a (begins.trans ⟨[pdIndex (hhdm + p)], rfl⟩)
    have narrow : p < 2 ^ 52 := by
      rw [size] at inside
      omega
    obtain ⟨done, s₁, mapped⟩ := vmmMapHuge2mb_total (fun _ => false) p ok upper
    obtain ⟨rfl, ahead₁⟩ := vmmMapHuge2mb_supply (n := k + 2 * n) Ahead.supply ahead mapped
    obtain ⟨ok₁, maps⟩ := vmmMapHuge2mb_spec ok alignedP narrow mapped
    have noHuge₁ : NoHugeOutside s₁.mem pml4 hhdm (p + hugePageSize) := by
      intro v canonical outside
      apply maps.noHuge _ (Nat.le_of_eq (pathOf_length v)) _ (noHuge v canonical (by omega))
      apply mt (pathOf_canonical canonical here).mp
      have first := Nat.mod_eq_zero_of_dvd aligned
      have last := Nat.mod_eq_zero_of_dvd alignedP
      rw [size] at *
      omega
    have sum : p + (n + 1) * hugePageSize = p + hugePageSize + n * hugePageSize := by
      rw [Nat.succ_mul]
      omega
    have next : hhdm + (p + hugePageSize) + n * hugePageSize < 2 ^ 64 := by omega
    rw [mapHhdm, noWrap, mapped, sum]
    exact ih (Nat.dvd_add alignedP (Nat.dvd_refl _)) next ok₁ noHuge₁ ahead₁

theorem mapKernel_total {kernel : KernelAddress} {i : Nat} (high : 2 ^ 64 - 2 ^ 47 ≤ kernel.virtualBase)
    (inside : ∀ j, j < i + n → kernel.virtualBase + j * pageSize < 2 ^ 64) (ok : TreeOk s pml4)
    (noHuge : ∀ v, Canonical v → kernel.virtualBase ≤ v → NoHuge s.mem pml4 (pathOf v)) (ahead : Ahead s.pmm (3 * n)) :
    ∃ s', mapKernel (fun _ => false) pml4 kernel s i n = .ok s' := by
  induction n generalizing s i with
  | zero => exact ⟨s, rfl⟩
  | succ n ih =>
    have flagged : PageFlags (pagePresent ||| pageWritable) := by
      constructor <;> decide
    have addressable := inside i (by omega)
    have here : Canonical (kernel.virtualBase + i * pageSize) := Or.inr (by omega)
    have mapping := vmmMapPagePml4_total (fun _ => false) ((kernel.physicalBase + i * pageSize) % 2 ^ 64)
      (pagePresent ||| pageWritable) ok (noHuge _ here (Nat.le_add_right _ _))
    obtain ⟨done, s₁, mapped⟩ := mapping
    obtain ⟨rfl, ahead₁⟩ := vmmMapPagePml4_supply (n := 3 * n) Ahead.supply ahead mapped
    obtain ⟨ok₁, success, _⟩ := vmmMapPagePml4_spec ok flagged mapped
    rw [mapKernel, Nat.mod_eq_of_lt addressable, mapped]
    apply ih (fun j below => inside j (by omega)) ok₁ _ ahead₁
    intro v canonical above
    exact (success rfl).noHuge _ (Nat.le_of_eq (pathOf_length v)) (noHuge v canonical above)

theorem vmmInit_total {map : List MemmapEntry} {kernel : KernelAddress} {kernelEnd hhdm : Nat}
    (layout : LayoutOk map kernel kernelEnd hhdm) (narrow : s.pmm.totalFrames * pageSize ≤ 2 ^ 52)
    (sized : kernelEnd ≤ kernel.virtualBase + n * pageSize)
    (ahead : Ahead s.pmm (1 + 2 * (hhdmTop / hugePageSize) + 3 * n)) :
    ∃ pml4 s', vmmInit (fun _ => false) s (some kernel) kernelEnd hhdm = .ok (pml4, s') := by
  have high := layout.high
  have window := layout.window
  have image := layout.image
  have addressable := layout.addressable
  have top : hhdmTop / hugePageSize * hugePageSize = hhdmTop := by decide
  have first : Ahead s.pmm (3 * n + 2 * (hhdmTop / hugePageSize) + 1) := ahead.mono (by omega)
  obtain ⟨k, nonzero, got, left⟩ := first.alloc
  have used : (takeFrame s.pmm k).bmTest k = true := by
    have bit : (takeFrame s.pmm k).bmTest k = (decide (k = k) || s.pmm.bmTest k) := Pmm.bmTest_bmSet s.pmm k k
    rw [bit]
    simp
  have hint : (takeFrame s.pmm k).searchHint ≤ (takeFrame s.pmm k).totalFrames := by
    obtain ⟨_, w, low, inside, _⟩ := left
    omega
  -- the machine with the new PML4, which is empty
  let s₁ : Machine := { s with pmm := takeFrame s.pmm k, mem := fill s.mem (k * pageSize) pageSize 0, clock := s.clock + 1 }
  have empty : ∀ i, entryAt s₁.mem (k * pageSize) i = 0 := entryAt_fill
  have ok₁ : TreeOk s₁ (k * pageSize) := TreeOk.empty empty used hint narrow
  have noHuge₁ : NoHugeOutside s₁.mem (k * pageSize) hhdm 0 := by
    intro v _ _ q i a _ found present
    rw [(tableOf_empty empty found).2, empty] at present
    exact absurd (Nat.zero_and _) present
  have hhdmRun := mapHhdm_total layout.aligned high (Nat.dvd_zero _) (by rw [top]; omega) ok₁ noHuge₁ left
  obtain ⟨s₂, hhdmDone, ok₂, noHuge₂, ahead₂⟩ := hhdmRun
  rw [top, Nat.zero_add] at noHuge₂
  have pages : ((2 ^ 64 + kernelEnd - kernel.virtualBase) % 2 ^ 64 + pageSize - 1) % 2 ^ 64 / pageSize ≤ n := by
    simp only [pageSize] at *
    omega
  have addresses : ∀ j, j < 0 + ((2 ^ 64 + kernelEnd - kernel.virtualBase) % 2 ^ 64 + pageSize - 1) % 2 ^ 64 / pageSize →
      kernel.virtualBase + j * pageSize < 2 ^ 64 := by
    intro j below
    simp only [pageSize] at *
    omega
  have kernelRun := mapKernel_total (by omega) addresses ok₂ (fun v canonical above => noHuge₂ v canonical (by omega))
    (ahead₂.mono (Nat.mul_le_mul_left 3 pages))
  obtain ⟨s₃, kernelDone⟩ := kernelRun
  refine ⟨k * pageSize, s₃, ?_⟩
  simp only [vmmInit, allocFrame, got, nonzero, if_false, Bool.false_eq_true]
  rw [hhdmDone]
  dsimp only
  rw [kernelDone]

end

def Reached (m : Mem) (pml4 hhdm phys : Nat) : Prop := vmmTranslatePml4 m pml4 (hhdm + phys) = phys

/-- The direct map shows the frames that are handed out, by `vmm_init` or later, and the bitmap. -/
structure DirectMapOk (pmm : Pmm) (s : Machine) (pml4 hhdm : Nat) : Prop where
  tables : ∀ i, i < pmm.totalFrames → pmm.bmTest i = false → s.pmm.bmTest i = true →
    Reached s.mem pml4 hhdm (i * pageSize)
  later : ∀ ops l, Run LedgerStep ⟨s.pmm, ∅, ∅⟩ ops l → ∀ op, ∀ i ∈ handedOut l.pmm op,
    Reached s.mem pml4 hhdm (i * pageSize)
  bitmap : ∀ b, b < pmm.bitmapSize → Reached s.mem pml4 hhdm (pmm.bitmapPhys + b)

section
variable {map : List MemmapEntry} {kernel : KernelAddress} {kernelEnd hhdm pml4 : Nat} {memory : Nat → UInt8}
  {fails : Nat → Bool} {s s' : Machine}

theorem usable_end {e : MemmapEntry} (ok : MemmapOk map) (member : e ∈ map) (usable : e.type = .usable) :
    e.base + e.length ≤ usableTop map := by
  have below : e.end ≤ usableTop map := (raiseTop_fold_bounds map 0).2 e member usable
  rw [MemmapEntry.end, Nat.mod_eq_of_lt (ok.addressable e member)] at below
  exact below

theorem initial_narrow (layout : LayoutOk map kernel kernelEnd hhdm) (initial : InitialPmm map s.pmm) :
    s.pmm.totalFrames * pageSize ≤ 2 ^ 52 := by
  have base := layout.high
  have ram := layout.ram
  have image := layout.image
  have addressable := layout.addressable
  rw [initial.total]
  simp only [pageSize]
  omega

theorem reached_iff (ok : MemmapOk map) (layout : LayoutOk map kernel kernelEnd hhdm) (initial : InitialPmm map s.pmm)
    (run : vmmInit fails s (some kernel) kernelEnd hhdm = .ok (pml4, s')) {i x : Nat} (frame : UsableFrame map i)
    (low : i * pageSize ≤ x) (high : x < (i + 1) * pageSize) : Reached s'.mem pml4 hhdm x ↔ x < hhdmTop := by
  obtain ⟨e, member, usable, first, last⟩ := frame
  have top := usable_end ok member usable
  have base := layout.high
  have ram := layout.ram
  have image := layout.image
  have addressable := layout.addressable
  have aligned := Nat.mod_eq_zero_of_dvd layout.aligned
  have narrow := initial_narrow layout initial
  have canonical : Canonical (hhdm + x) := Or.inr (by omega)
  have below : (hhdm + x) / pageSize < kernel.virtualBase / pageSize := by
    simp only [pageSize, hugePageSize] at *
    omega
  have translated := (vmmInit_spec layout initial.ok.hint narrow run).2 (hhdm + x) canonical below
  rw [Reached, translated]
  split
  · omega
  · have size : hhdmTop = 2 ^ 32 := by decide
    omega

theorem initial_of_init (ok : MemmapOk map) (init : pmmInit map memory = some s.pmm) : InitialPmm map s.pmm := by
  obtain ⟨pmm, init', initial⟩ := pmmInit_ok ok memory
  rw [init] at init'
  cases init'
  exact initial

theorem allocatable_inside (ok : MemmapOk map) (initial : InitialPmm map s.pmm) {i : Nat} (frame : UsableFrame map i) :
    i < s.pmm.totalFrames := by
  obtain ⟨e, member, usable, _, last⟩ := frame
  have top := usable_end ok member usable
  rw [initial.total]
  simp only [pageSize] at *
  omega

theorem high_region_unreached (ok : MemmapOk map) (layout : LayoutOk map kernel kernelEnd hhdm)
    (initial : InitialPmm map s.pmm) (run : vmmInit fails s (some kernel) kernelEnd hhdm = .ok (pml4, s'))
    {e : MemmapEntry} (member : e ∈ map) (usable : e.type = .usable) (nonempty : e.length ≠ 0)
    (above : hhdmTop < e.base + e.length) : ¬ DirectMapOk s.pmm s' pml4 hhdm := by
  intro reached
  have size : hhdmTop = 2 ^ 32 := by decide
  -- the last frame of the region
  have last : ∃ i, UsableFrame map i ∧ hhdmTop ≤ i * pageSize := by
    obtain ⟨⟨a, base⟩, ⟨b, length⟩⟩ := ok.aligned e member
    refine ⟨a + b - 1, ⟨e, member, usable, ?_⟩, ?_⟩
    all_goals
      simp only [pageSize] at *
      omega
  obtain ⟨i, frame, high⟩ := last
  have outside : ∀ x, i * pageSize ≤ x → x < (i + 1) * pageSize → ¬ Reached s'.mem pml4 hhdm x := by
    intro x low below shown
    have := (reached_iff ok layout initial run frame low below).mp shown
    omega
  have page : i * pageSize < (i + 1) * pageSize := by
    rw [Nat.succ_mul]
    exact Nat.lt_add_of_pos_right (by decide)
  have inside := allocatable_inside ok initial frame
  by_cases held : InBitmap s.pmm i
  · -- the bitmap has a byte in the frame
    obtain ⟨low, below⟩ := held
    have sized : 0 < s.pmm.bitmapSize := by
      rw [initial.size, ← initial.total, bitmapBytes]
      omega
    have byte := reached.bitmap (max (i * pageSize) s.pmm.bitmapPhys - s.pmm.bitmapPhys) (by omega)
    exact outside _ (by omega) (by omega) byte
  · have clear := initial.clear i ⟨frame, held⟩
    by_cases used : s'.pmm.bmTest i = true
    · exact outside _ (Nat.le_refl _) page (reached.tables i inside clear used)
    · have pmm := (vmmInit_spec layout initial.ok.hint (initial_narrow layout initial) run).1
      have inside' : i < s'.pmm.totalFrames := by
        rw [pmm.total]
        exact inside
      have nonzero : i ≠ 0 := allocatable_ne_zero ok ⟨frame, held⟩
      have runs := alloc_reaches (l := ⟨s'.pmm, ∅, ∅⟩) (pmm.ok _ initial.ok) inside' (Bool.eq_false_of_not_eq_true used) nonzero
      obtain ⟨ops, l, history, handed⟩ := runs
      exact outside _ (Nat.le_refl _) page (reached.later ops l history _ i handed)

/-- The direct map shows all that is handed out exactly when no usable region ends above its window. -/
theorem direct_map_reaches (ok : MemmapOk map) (layout : LayoutOk map kernel kernelEnd hhdm)
    (init : pmmInit map memory = some s.pmm) (run : vmmInit fails s (some kernel) kernelEnd hhdm = .ok (pml4, s')) :
    DirectMapOk s.pmm s' pml4 hhdm ↔
      ∀ e ∈ map, e.type = .usable → e.length ≠ 0 → e.base + e.length ≤ hhdmTop := by
  have initial := initial_of_init ok init
  constructor
  · intro reached e member usable nonempty
    by_contra above
    exact high_region_unreached ok layout initial run member usable nonempty (Nat.lt_of_not_le above) reached
  · intro low
    have page : ∀ i, i * pageSize < (i + 1) * pageSize := by
      intro i
      rw [Nat.succ_mul]
      exact Nat.lt_add_of_pos_right (by decide)
    have shown : ∀ i, UsableFrame map i → Reached s'.mem pml4 hhdm (i * pageSize) := by
      intro i frame
      rw [reached_iff ok layout initial run frame (Nat.le_refl _) (page i)]
      obtain ⟨e, member, usable, first, last⟩ := frame
      have := page i
      have := low e member usable (by omega)
      omega
    have pmm := (vmmInit_spec layout initial.ok.hint (initial_narrow layout initial) run).1
    constructor
    case tables =>
      intro i inside clear _
      exact shown i (initial.ok.clear i inside clear).1
    case later =>
      intro ops l history op i handed
      have held : LedgerOk (Allocatable map s.pmm) l :=
        history.invariant (LedgerOk (Allocatable map s.pmm)) ⟨pmm.ok _ initial.ok, by simp, by simp⟩
          fun _ _ _ before taken => ledger_step before taken
      obtain ⟨inside, clear, _⟩ := handedOut_clear held.pmm handed
      exact shown i (held.pmm.clear i inside clear).1
    case bitmap =>
      intro b below
      obtain ⟨e, member, usable, large, place⟩ := bitmapPlace_region ok.room
      rw [← initial.size] at large place
      rw [initial.place, place]
      have aligned := ok.aligned e member
      have base := Nat.mod_eq_zero_of_dvd aligned.1
      have length := Nat.mod_eq_zero_of_dvd aligned.2
      have frame : UsableFrame map ((e.base + b) / pageSize) := by
        refine ⟨e, member, usable, ?_⟩
        simp only [pageSize] at *
        omega
      rw [reached_iff ok layout initial run frame (Nat.div_mul_le_self _ _)
        (by simp only [pageSize]; omega)]
      have := low e member usable (by omega)
      omega

def splitMap : List MemmapEntry :=
  [⟨0, 0x100000, .reserved⟩, ⟨0x100000, 0x7FF00000, .usable⟩, ⟨0x80000000, 0x80000000, .reserved⟩,
    ⟨0x100000000, 0x80000000, .usable⟩]

def splitKernel : KernelAddress := ⟨0x200000, 0xffffffff80000000⟩

theorem splitMap_ok : MemmapOk splitMap where
  addressable := by decide
  aligned := by decide
  disjoint := by simp [splitMap, MemmapEntry.Disjoint]
  zeroReserved := by decide
  room := by decide

theorem splitMap_layout : LayoutOk splitMap splitKernel 0xffffffff80004000 0xffff800000000000 := by
  constructor <;> decide

theorem splitMap_started : ∃ (s : Machine) (pml4 : Nat) (s' : Machine), pmmInit splitMap (fun _ => 0) = some s.pmm ∧
    vmmInit (fun _ => false) s (some splitKernel) 0xffffffff80004000 0xffff800000000000 = .ok (pml4, s') := by
  obtain ⟨pmm, init, initial⟩ := pmmInit_ok splitMap_ok (fun _ => 0)
  have place : pmm.bitmapPhys = 0x100000 := by
    rw [initial.place, initial.size]
    decide
  have size : pmm.bitmapSize = 196608 := by
    rw [initial.size]
    decide
  have total : pmm.totalFrames = 1572864 := by
    rw [initial.total]
    decide
  have zero : pmm.bmTest 0 = true := by
    by_contra clear
    have own := initial.ok.clear 0 (by rw [total]; decide) (Bool.eq_false_of_not_eq_true clear)
    exact allocatable_ne_zero splitMap_ok own rfl
  -- the frames of the lower region behind the bitmap
  have ahead : Ahead pmm (1 + 2 * (hhdmTop / hugePageSize) + 3 * 4) := by
    refine ⟨zero, 304, by rw [initial.start]; exact Nat.zero_le _, by rw [total]; decide, ?_⟩
    intro j low high
    have bound : j < 304 + 4109 := high
    apply initial.clear j
    constructor
    · refine ⟨⟨0x100000, 0x7FF00000, .usable⟩, by decide, rfl, ?_⟩
      simp only [pageSize]
      omega
    · rw [InBitmap, place, size]
      simp only [pageSize]
      omega
  have narrow : pmm.totalFrames * pageSize ≤ 2 ^ 52 := by
    rw [total]
    decide
  have started := vmmInit_total (s := ⟨pmm, fun _ => 0, 0⟩) splitMap_layout narrow (show _ ≤ _ + 4 * pageSize by decide) ahead
  obtain ⟨pml4, s', run⟩ := started
  exact ⟨_, pml4, s', init, run⟩

/-- The RAM above 4 GiB is handed out, but not shown. -/
theorem high_memory_unreached :
    ¬ ∀ (map : List MemmapEntry) (memory : Nat → UInt8) (fails : Nat → Bool) (kernel : KernelAddress) (kernelEnd hhdm : Nat)
      (s s' : Machine) (pml4 : Nat), MemmapOk map → LayoutOk map kernel kernelEnd hhdm →
      pmmInit map memory = some s.pmm → vmmInit fails s (some kernel) kernelEnd hhdm = .ok (pml4, s') →
      DirectMapOk s.pmm s' pml4 hhdm := by
  intro claim
  obtain ⟨s, pml4, s', init, run⟩ := splitMap_started
  have initial := initial_of_init splitMap_ok init
  have high : (⟨0x100000000, 0x80000000, .usable⟩ : MemmapEntry) ∈ splitMap := by decide
  apply high_region_unreached splitMap_ok splitMap_layout initial run high rfl (by decide) (by decide)
  exact claim _ _ _ _ _ _ _ _ _ splitMap_ok splitMap_layout init run

theorem direct_map_reaches_split : ∃ (s : Machine) (pml4 : Nat) (s' : Machine),
    pmmInit splitMap (fun _ => 0) = some s.pmm ∧
    vmmInit (fun _ => false) s (some splitKernel) 0xffffffff80004000 0xffff800000000000 = .ok (pml4, s') ∧
    (DirectMapOk s.pmm s' pml4 0xffff800000000000 ↔
      ∀ e ∈ splitMap, e.type = .usable → e.length ≠ 0 → e.base + e.length ≤ hhdmTop) := by
  obtain ⟨s, pml4, s', init, run⟩ := splitMap_started
  exact ⟨s, pml4, s', init, run, direct_map_reaches splitMap_ok splitMap_layout init run⟩

end

end RexOs.Mm
