import RexOs.Mm.VmmGrow

/-! The pages of an address space.

A page comes to the user half when its entry is written, provided that it had no frame
before. The bytes of pages, of frames beyond the bitmap and of frame 0 are in no table, so
writing them changes no address space.
-/

set_option autoImplicit false

namespace RexOs.Mm

open RexOs.Library

section
variable {cr3 t phys flags : Nat} {s : Machine} {p : List (Fin 512)} {i : Fin 512}

theorem setEntry_agree {m : Mem} {e k : Nat} (table : pageSize ∣ t) (other : k * pageSize ≠ t) :
    AgreeOn (setEntry m t i e) m (k * pageSize) pageSize := by
  intro x low high
  obtain ⟨b, rfl⟩ := table
  have index := i.isLt
  have apart : k ≠ b := fun same => other (by rw [same, Nat.mul_comm])
  simp only [pageSize] at *
  exact store_outside _ _ _ _ (by omega)

theorem setEntry_child {m : Mem} (frame : IsFrame phys) (flagged : PageFlags flags) :
    child (setEntry m t i (phys ||| flags)) 3 t i = some phys := by
  have entry : entryAt (setEntry m t i (phys ||| flags)) t i = phys ||| flags :=
    entryAt_setEntry (entry_lt frame flagged.word)
  have present := frame_low frame (show addrMask4k &&& pagePresent = 0 by decide) flags
  rw [child, entry, present, frame_or frame flagged.noAddress, if_neg]
  rintro (missing | ⟨deep, _⟩)
  · exact flagged.present missing
  · cases deep

theorem setEntry_tree_off (tree : UserTree s cr3) {e a : Nat} {q : List (Fin 512)} {j : Fin 512}
    (parent : userFrame s cr3 p = some t) (long : p.length = 3) (short : q.length ≤ 3) (found : userFrame s cr3 q = some a)
    (off : q ++ [j] ≠ p ++ [i]) : entryAt (setEntry s.mem t i e) a j = entryAt s.mem a j := by
  apply entryAt_setEntry_of_ne (tree.aligned (by omega) parent) (tree.aligned (by omega) found)
  by_cases same : a = t
  · right
    rintro rfl
    rw [same] at found
    exact off (by rw [tree.distinct q p t (by omega) (by omega) found parent])
  · exact Or.inl same

theorem setEntry_grows {k : Nat} (ok : FramesOk s) (tree : UserTree s cr3) (flagged : PageFlags flags)
    (parent : userFrame s cr3 p = some t) (long : p.length = 3) (free : userFrame s cr3 (p ++ [i]) = none)
    (outside : ¬ InTree s cr3 k) (nonzero : k ≠ 0) (inside : k < s.pmm.totalFrames) (taken : s.pmm.bmTest k = true) :
    Grows cr3 s { s with mem := setEntry s.mem t i (k * pageSize ||| flags) } (· = k) ∧
      userFrame { s with mem := setEntry s.mem t i (k * pageSize ||| flags) } cr3 (p ++ [i]) = some (k * pageSize) := by
  have attaches : Attaches cr3 s { s with mem := setEntry s.mem t i (k * pageSize ||| flags) } p t i k := by
    constructor
    case parent => exact parent
    case short => omega
    case low =>
      rintro rfl
      cases long
    case free => exact free
    case outside => exact outside
    case nonzero => exact nonzero
    case inside => exact inside
    case pmm => exact Allocates.refl _
    case taken => exact taken
    case entry =>
      rw [long]
      exact setEntry_child (ok.isFrame inside) flagged
    case small => intro short; omega
    case empty => intro short; omega
    case off => exact fun q a j short found off => setEntry_tree_off tree parent long short found off
  refine ⟨?_, (attaches.walks tree).2.1⟩
  apply attaches.grows tree ⟨ok.hint, ok.narrow, ok.zero⟩
  intro j _ _ _ outside' _
  apply setEntry_agree (tree.aligned (by omega) parent)
  rintro rfl
  exact outside' ⟨p, by omega, parent⟩

theorem setEntry_beyond (ok : FramesOk s) (tree : UserTree s cr3) (frame : IsFrame phys) (flagged : PageFlags flags)
    (parent : userFrame s cr3 p = some t) (long : p.length = 3) (free : userFrame s cr3 (p ++ [i]) = none)
    (beyond : s.pmm.totalFrames ≤ phys / pageSize) :
    Grows cr3 s { s with mem := setEntry s.mem t i (phys ||| flags) } fun _ => False := by
  have new := setEntry_child (m := s.mem) (t := t) (i := i) frame flagged
  apply tree.grows
  case ok => exact ⟨ok.hint, ok.narrow, ok.zero⟩
  case pmm => exact Allocates.refl _
  case same =>
    constructor
    case tables =>
      intro q a j short found
      apply setEntry_tree_off tree parent long (by omega) found
      intro same
      have := congrArg List.length same
      simp only [List.length_append, List.length_singleton] at this
      omega
    case pages =>
      intro q a j longQ found
      by_cases same : q ++ [j] = p ++ [i]
      · obtain ⟨rfl, last⟩ := List.append_inj' same rfl
        cases last
        rw [parent] at found
        cases found
        rw [userFrame_snoc parent, long] at free
        rw [free, userChild, if_pos]
        rw [child_frame new]
        exact Or.inr ⟨rfl, beyond⟩
      · have entry := setEntry_tree_off (e := phys ||| flags) tree parent long (by omega) found same
        simp only [userChild, child, entry]
  case apart =>
    intro j _ _ _ outside
    apply setEntry_agree (tree.aligned (by omega) parent)
    rintro rfl
    exact outside ⟨p, by omega, parent⟩

end

def LowAddress (v : Nat) : Prop := v < 2 ^ 47

section
variable {cr3 v : Nat} {s : Machine}

theorem LowAddress.index (low : LowAddress v) : (pml4Index v).val < 256 := by
  rw [pml4Index, Fin.val_ofNat, Nat.shiftRight_eq_div_pow]
  unfold LowAddress at low
  omega

theorem userChild_upper {total t : Nat} {m : Mem} {i : Fin 512} (depth : Nat) (low : depth = 0 → i.val < 256) (upper : depth ≠ 3) :
    userChild total m depth t i = child m depth t i := by
  rw [userChild, if_neg]
  rintro (⟨top, high⟩ | ⟨deep, _⟩)
  · have := low top
    omega
  · exact upper deep

theorem userFrame_path (low : LowAddress v) : userFrame s cr3 (pathOf v) = tableOf s.mem cr3 (pathOf v) := by
  simp only [userFrame, tableOf, walk, pathOf, walkFrom, userChild_upper 0 (fun _ => low.index) (by decide),
    userChild_upper (0 + 1) (absurd · (Nat.succ_ne_zero 0)) (by decide),
    userChild_upper (0 + 1 + 1) (absurd · (Nat.succ_ne_zero 1)) (by decide)]

theorem userFrame_upper (low : LowAddress v) :
    userFrame s cr3 [pml4Index v, pdptIndex v] = tableOf s.mem cr3 [pml4Index v, pdptIndex v] := by
  simp only [userFrame, tableOf, walk, walkFrom, userChild_upper 0 (fun _ => low.index) (by decide),
    userChild_upper (0 + 1) (absurd · (Nat.succ_ne_zero 0)) (by decide)]

theorem userFrame_placeOf {t : Nat} (low : LowAddress v) (found : tableOf s.mem cr3 (pathOf v) = some t) :
    userFrame s cr3 (placeOf v) = userChild s.pmm.totalFrames s.mem 3 t (ptIndex v) := by
  rw [placeOf, userFrame_snoc (by rw [userFrame_path low]; exact found)]
  rfl

theorem translate_no_table (tree : UserTree s cr3) (low : LowAddress v) (none : tableOf s.mem cr3 (pathOf v) = none) :
    vmmTranslatePml4 s.mem cr3 v = 0 := by
  rw [vmmTranslatePml4, tableOf_pd]
  cases upper : tableOf s.mem cr3 [pml4Index v, pdptIndex v] with
  | none => rfl
  | some pd =>
    have small : entryAt s.mem pd (pdIndex v) &&& pageHuge = 0 := by
      apply tree.small [pml4Index v, pdptIndex v] pd _ (Nat.le_refl 2) (absurd · (List.cons_ne_nil _ _))
      rw [userFrame_upper low]
      exact upper
    have split : pathOf v = [pml4Index v, pdptIndex v] ++ [pdIndex v] := rfl
    rw [split, tableOf, walk_snoc, ← tableOf, upper, Option.bind_some] at none
    have missing : entryAt s.mem pd (pdIndex v) &&& pagePresent = 0 := by
      by_contra present
      unfold child at none
      rw [if_neg] at none
      · cases none
      · rintro (missing | ⟨_, huge⟩)
        · exact present missing
        · exact huge small
    exact if_pos missing

theorem translate_user (tree : UserTree s cr3) (low : LowAddress v) :
    vmmTranslatePml4 s.mem cr3 v = 0 ∧ userFrame s cr3 (placeOf v) = none ∨
      ∃ f, pageSize ∣ f ∧ vmmTranslatePml4 s.mem cr3 v = f ||| v &&& pageOff4k ∧
        (userFrame s cr3 (placeOf v) = some f ∨ userFrame s cr3 (placeOf v) = none ∧ s.pmm.totalFrames ≤ f / pageSize) := by
  cases found : tableOf s.mem cr3 (pathOf v) with
  | none =>
    refine Or.inl ⟨translate_no_table tree low found, ?_⟩
    have nothing : userFrame s cr3 (pathOf v) = none := by
      rw [userFrame_path low]
      exact found
    rw [userFrame] at nothing
    rw [placeOf, userFrame, walk_snoc, nothing, Option.bind_none]
  | some t =>
    rw [translate_of_table found, userFrame_placeOf low found]
    split
    · rename_i missing
      exact Or.inl ⟨rfl, userChild_missing missing⟩
    · rename_i present
      refine Or.inr ⟨_, frame_dvd (isFrame_and _), rfl, ?_⟩
      unfold userChild
      split
      · rename_i beyond
        rcases beyond with ⟨top, _⟩ | ⟨_, beyond⟩
        · cases top
        · exact Or.inr ⟨rfl, beyond⟩
      · left
        rw [child, if_neg]
        rintro (missing | ⟨deep, _⟩)
        · exact present missing
        · cases deep

theorem userFrame_unmapped (tree : UserTree s cr3) (low : LowAddress v) (unmapped : vmmTranslatePml4 s.mem cr3 v = 0) :
    userFrame s cr3 (placeOf v) = none := by
  rcases translate_user tree low with ⟨_, none⟩ | ⟨f, _, address, found | ⟨none, _⟩⟩
  · exact none
  · obtain ⟨k, rfl, nonzero, _⟩ := tree.frames _ _ (Nat.le_of_eq (placeOf_length v)) found
    rw [unmapped] at address
    exact absurd (Nat.eq_zero_of_le_zero (Nat.le_trans Nat.left_le_or (Nat.le_of_eq address.symm)))
      (Nat.mul_ne_zero nonzero (by decide))
  · exact none

end

/-- A frame whose bytes do not matter to the address spaces: that of a page, one beyond the bitmap, or frame 0. -/
def Writable (s : Machine) (cr3 f : Nat) : Prop :=
  (∃ q, q.length = 4 ∧ userFrame s cr3 q = some f) ∨ pageSize ∣ f ∧ (s.pmm.totalFrames ≤ f / pageSize ∨ f = 0)

section
variable {cr3 f : Nat} {s : Machine} {m : Mem}

theorem Writable.aligned (tree : UserTree s cr3) (free : Writable s cr3 f) : pageSize ∣ f := by
  rcases free with ⟨q, long, found⟩ | ⟨aligned, _⟩
  · exact tree.aligned (Nat.le_of_eq long) found
  · exact aligned

theorem Writable.noTable (tree : UserTree s cr3) (free : Writable s cr3 f) {p : List (Fin 512)} {a : Nat} (short : p.length ≤ 3)
    (found : userFrame s cr3 p = some a) : a ≠ f := by
  rintro rfl
  rcases free with ⟨q, long, page⟩ | ⟨_, beyond⟩
  · have same := tree.distinct p q a (by omega) (by omega) found page
    rw [same] at short
    omega
  · obtain ⟨k, rfl, nonzero, inside, _⟩ := tree.frames p a (by omega) found
    rw [Nat.mul_div_cancel _ (by decide)] at beyond
    rcases beyond with beyond | zero
    · omega
    · exact Nat.mul_ne_zero nonzero (by decide) zero

theorem Writable.ne (free : Writable s cr3 f) {k : Nat} (inside : k < s.pmm.totalFrames) (nonzero : k ≠ 0)
    (outside : ¬ InTree s cr3 k) : k * pageSize ≠ f := by
  rintro rfl
  rcases free with ⟨q, long, page⟩ | ⟨_, beyond⟩
  · exact outside ⟨q, Nat.le_of_eq long, page⟩
  · rw [Nat.mul_div_cancel _ (by decide)] at beyond
    rcases beyond with beyond | zero
    · omega
    · exact Nat.mul_ne_zero nonzero (by decide) zero

theorem agree_of_frames {m' : Mem} {a : Nat} (changed : AgreeOff m' m f pageSize) (aligned : pageSize ∣ a)
    (frame : pageSize ∣ f) (other : a ≠ f) : AgreeOn m' m a pageSize := by
  intro x low high
  apply changed
  obtain ⟨k, rfl⟩ := aligned
  obtain ⟨j, rfl⟩ := frame
  have apart : k ≠ j := fun same => other (by rw [same])
  simp only [pageSize] at *
  omega

theorem Writable.entries (tree : UserTree s cr3) (free : Writable s cr3 f) (changed : AgreeOff m s.mem f pageSize)
    {p : List (Fin 512)} {t : Nat} (i : Fin 512) (short : p.length ≤ 3) (found : userFrame s cr3 p = some t) :
    entryAt m t i = entryAt s.mem t i := by
  have agree := agree_of_frames changed (tree.aligned (by omega) found) (free.aligned tree) (free.noTable tree short found)
  apply load_congr
  intro x low high
  have := i.isLt
  exact agree x (by omega) (by simp only [pageSize]; omega)

theorem Writable.grows (ok : FramesOk s) (tree : UserTree s cr3) (free : Writable s cr3 f)
    (changed : AgreeOff m s.mem f pageSize) : Grows cr3 s { s with mem := m } fun _ => False := by
  apply tree.grows
  case ok => exact ⟨ok.hint, ok.narrow, ok.zero⟩
  case pmm => exact Allocates.refl _
  case same =>
    apply SameTree.of_entries
    exact fun p t i short found => free.entries tree changed i short found
  case apart =>
    intro k inside nonzero _ outside
    exact agree_of_frames changed (Nat.dvd_mul_left _ _) (free.aligned tree) (free.ne inside nonzero outside)

theorem Writable.translate (tree : UserTree s cr3) (free : Writable s cr3 f) (changed : AgreeOff m s.mem f pageSize) {v : Nat}
    (low : LowAddress v) : vmmTranslatePml4 m cr3 v = vmmTranslatePml4 s.mem cr3 v := by
  have same : SameTree cr3 s { s with mem := m } := by
    apply SameTree.of_entries
    exact fun p t i short found => free.entries tree changed i short found
  have pmm : Allocates s.pmm ({ s with mem := m } : Machine).pmm := Allocates.refl s.pmm
  have walks := (tree.keep pmm same).2
  have upperLength : [pml4Index v, pdptIndex v].length ≤ 3 := Nat.le_succ 2
  apply translate_congr
  · have upper := walks [pml4Index v, pdptIndex v] (Nat.le_succ_of_le upperLength)
    rw [userFrame_upper low, userFrame_upper low] at upper
    exact upper
  · intro t found
    rw [← userFrame_upper low] at found
    exact free.entries tree changed _ upperLength found
  · intro t found
    rw [← userFrame_path low] at found
    exact free.entries tree changed _ (Nat.le_of_eq (pathOf_length v)) found

theorem frame_offset {v : Nat} (aligned : pageSize ∣ f) : f ||| v &&& pageOff4k = f + v % pageSize := by
  have mask : pageOff4k = 2 ^ 12 - 1 := by decide
  obtain ⟨k, rfl⟩ := aligned
  have small : v % 2 ^ 12 < 2 ^ 12 := Nat.mod_lt v (by decide)
  rw [mask, Nat.and_two_pow_sub_one_eq_mod]
  exact (Nat.two_pow_add_eq_or_of_lt small k).symm

theorem writable_of_low (tree : UserTree s cr3) {v : Nat} (low : LowAddress v) :
    ∃ f, Writable s cr3 f ∧
      (vmmTranslatePml4 s.mem cr3 v = f + v % pageSize ∨ vmmTranslatePml4 s.mem cr3 v = f ∧ f = 0) := by
  rcases translate_user tree low with ⟨unmapped, _⟩ | ⟨f, aligned, address, place⟩
  · exact ⟨0, Or.inr ⟨Nat.dvd_zero _, Or.inr rfl⟩, Or.inr ⟨unmapped, rfl⟩⟩
  · refine ⟨f, ?_, Or.inl (by rw [address, frame_offset aligned])⟩
    rcases place with found | ⟨_, beyond⟩
    · exact Or.inl ⟨placeOf v, placeOf_length v, found⟩
    · exact Or.inr ⟨aligned, Or.inl beyond⟩

end

section
variable {fails : Nat → Bool} {cr3 page phys flags : Nat} {s s₁ s₂ : Machine} {done : Bool}

theorem vmmMapPagePml4_user (ok : FramesOk s) (tree : UserTree s cr3) (low : LowAddress page)
    (run : vmmMapPagePml4 fails s cr3 page phys flags = .ok (done, s₂)) :
    ∃ s₁, Grows cr3 s s₁ (NewFrame s s₁) ∧ SamePages cr3 s s₁ ∧
      (done = false → s₂ = s₁) ∧
      (done = true → ∃ pt, userFrame s₁ cr3 (pathOf page) = some pt ∧
        s₂ = { s₁ with mem := setEntry s₁.mem pt (ptIndex page) (phys &&& addrMask4k ||| flags) }) := by
  have head : ∀ i ∈ ([] ++ pathOf page).head?, i.val < 256 := by
    intro i member
    cases member
    exact low.index
  have root : userFrame s cr3 [] = some cr3 := rfl
  have inside : ([] ++ pathOf page).length ≤ 3 := Nat.le_of_eq (pathOf_length page)
  rw [vmmMapPagePml4] at run
  split at run
  · cases run
  · rename_i got
    obtain ⟨grows, pages, _⟩ := getOrCreateTables_grows fails ok tree inter_tableFlags root inside head got
    cases run
    exact ⟨s₂, grows, pages, fun _ => rfl, fun done => absurd done Bool.false_ne_true⟩
  · rename_i pt s₁ got
    obtain ⟨grows, pages, found⟩ := getOrCreateTables_grows fails ok tree inter_tableFlags root inside head got
    cases run
    exact ⟨s₁, grows, pages, fun failed => absurd failed.symm Bool.false_ne_true, fun _ => ⟨pt, found pt rfl, rfl⟩⟩

theorem SamePages.unmapped (pages : SamePages cr3 s s₁) (free : userFrame s cr3 (placeOf page) = none) :
    userFrame s₁ cr3 (placeOf page) = none := by
  rcases pages (placeOf page) (placeOf_length page) with none | same
  · exact none
  · rw [same]
    exact free

theorem Writable.clear {f : Nat} (ok : FramesOk s) (tree : UserTree s cr3) (free : Writable s cr3 f) :
    Grows cr3 s { s with mem := fill s.mem f 0x1000 0 } fun _ => False :=
  free.grows ok tree (fill_agreeOff s.mem f pageSize 0)

theorem newPage_grows (ok : FramesOk s) (tree : UserTree s cr3) (low : LowAddress page) (flagged : PageFlags flags)
    (unmapped : vmmTranslatePml4 s.mem cr3 page = 0) (alloc : allocFrame fails s = (phys, s₁))
    (run : vmmMapPagePml4 fails s₁ cr3 page phys flags = .ok (done, s₂)) (both : done = true ↔ phys ≠ 0) :
    Grows cr3 s { s₂ with mem := fill s₂.mem phys 0x1000 0 } (NewFrame s s₂) := by
  have free := userFrame_unmapped tree low unmapped
  obtain ⟨s₁', mem, ok₁, pmm, result⟩ := allocFrame_exact fails ok
  rcases result with ⟨failed, none⟩ | ⟨k, got, nonzero, inside, new⟩
  · rw [failed] at alloc
    cases alloc
    have stays : done = false := by
      cases done with
      | true => exact absurd rfl (both.mp rfl)
      | false => rfl
    obtain ⟨grows₁, _⟩ := tree.still ok₁ mem pmm none
    obtain ⟨s₃, grows₂, _, same, _⟩ := vmmMapPagePml4_user ok₁ grows₁.tree low run
    obtain rfl := same stays
    have zero : Writable s₂ cr3 0 := Or.inr ⟨Nat.dvd_zero _, Or.inr rfl⟩
    have grows := (grows₁.append grows₂).trans (zero.clear grows₂.ok grows₂.tree)
    exact grows.congr fun k => Iff.of_eq (or_false _)
  · rw [got] at alloc
    cases alloc
    have done' : done = true := both.mpr (Nat.mul_ne_zero nonzero (by decide))
    have taken := (new k).mpr rfl
    -- the frame is taken, but not yet in the tree
    have same : SameTree cr3 s s₁ := by
      apply SameTree.of_entries
      rw [mem]
      exact fun _ _ _ _ _ => rfl
    have grows₁ : Grows cr3 s s₁ fun _ => False := by
      apply tree.grows ok₁ pmm same
      rw [mem]
      exact fun _ _ _ _ _ _ _ _ => rfl
    have free₁ : userFrame s₁ cr3 (placeOf page) = none := by
      rw [(tree.keep pmm same).2 _ (Nat.le_of_eq (placeOf_length page))]
      exact free
    obtain ⟨s₃, grows₂, pages, _, mapped⟩ := vmmMapPagePml4_user ok₁ grows₁.tree low run
    obtain ⟨pt, found, rfl⟩ := mapped done'
    have outside : ¬ InTree s₃ cr3 k := by
      rw [grows₂.inTree, grows₁.inTree]
      rintro ((before | none) | ⟨clear, _⟩)
      · exact tree.outside taken.1 before
      · exact none
      · rw [taken.2] at clear
        cases clear
    have frame : k * pageSize &&& addrMask4k = k * pageSize := ok.isFrame inside
    rw [frame]
    have inside₃ : k < s₃.pmm.totalFrames := by
      rw [grows₂.pmm.total, pmm.total]
      exact inside
    obtain ⟨grows₃, here⟩ := setEntry_grows grows₂.ok grows₂.tree flagged found (pathOf_length page) (pages.unmapped free₁)
      outside nonzero inside₃ (grows₂.pmm.taken k taken.2)
    have page' : Writable { s₃ with mem := setEntry s₃.mem pt (ptIndex page) (k * pageSize ||| flags) } cr3 (k * pageSize) :=
      Or.inl ⟨placeOf page, placeOf_length page, here⟩
    have grows := ((grows₁.trans grows₂).trans grows₃).trans (page'.clear grows₃.ok grows₃.tree)
    apply grows.congr
    intro j
    have chain : NewFrame s s₃ j ↔ j = k ∨ NewFrame s₁ s₃ j := by
      rw [newFrame_trans pmm grows₂.pmm, new]
    show ((False ∨ NewFrame s₁ s₃ j) ∨ j = k) ∨ False ↔ NewFrame s s₃ j
    rw [chain, or_false, false_or, or_comm]

end

section
variable {s s' : Machine} {k kernelPml4 : Nat}

structure NewPml4 (kernelPml4 : Nat) (s s' : Machine) (k : Nat) : Prop where
  ok : FramesOk s'
  pmm : Allocates s.pmm s'.pmm
  nonzero : k ≠ 0
  inside : k < s.pmm.totalFrames
  new : ∀ j, NewFrame s s' j ↔ j = k
  changed : AgreeOff s'.mem s.mem (k * pageSize) pageSize
  lower : ∀ i : Fin 512, i.val < 256 → entryAt s'.mem (k * pageSize) i = 0
  upper : ∀ i : Fin 512, 256 ≤ i.val → entryAt s'.mem (k * pageSize) i = entryAt s.mem kernelPml4 i

theorem vmmCreateUserPml4_cases (fails : Nat → Bool) (ok : FramesOk s) (kernel : ∃ j, kernelPml4 = j * pageSize ∧ s.pmm.bmTest j = true) :
    ∃ s', vmmCreateUserPml4 fails s kernelPml4 = (0, s') ∧ s'.mem = s.mem ∧ FramesOk s' ∧ Allocates s.pmm s'.pmm ∧
        (∀ k, ¬ NewFrame s s' k) ∨
      ∃ k, vmmCreateUserPml4 fails s kernelPml4 = (k * pageSize, s') ∧ NewPml4 kernelPml4 s s' k := by
  obtain ⟨s₁, mem, ok₁, pmm, result⟩ := allocFrame_exact fails ok
  rcases result with ⟨failed, none⟩ | ⟨k, got, nonzero, inside, new⟩
  · refine ⟨s₁, Or.inl ⟨?_, mem, ok₁, pmm, none⟩⟩
    rw [vmmCreateUserPml4, failed]
    rfl
  · obtain ⟨j, rfl, taken⟩ := kernel
    have other : j ≠ k := by
      rintro rfl
      rw [((new j).mpr rfl).1] at taken
      cases taken
    let mem' := copy (fill s.mem (k * pageSize) 2048 0) (k * pageSize + 2048) (j * pageSize + 2048) 2048
    refine ⟨{ s₁ with mem := mem' }, Or.inr ⟨k, ?_, ?_⟩⟩
    · rw [vmmCreateUserPml4, got]
      dsimp only
      rw [if_neg (Nat.mul_ne_zero nonzero (by decide)), mem]
    constructor
    case ok => exact ⟨ok₁.hint, ok₁.narrow, ok₁.zero⟩
    case pmm => exact pmm
    case nonzero => exact nonzero
    case inside => exact inside
    case new => exact new
    case changed =>
      intro x outside
      simp only [pageSize] at outside
      show (if _ then _ else fill s.mem (k * pageSize) 2048 0 x) = s.mem x
      rw [if_neg (by simp only [pageSize]; omega), fill, if_neg (by simp only [pageSize]; omega)]
    case lower =>
      intro i low
      have entry : entryAt mem' (k * pageSize) i = entryAt (fill s.mem (k * pageSize) 2048 0) (k * pageSize) i :=
        load_congr (copy_agree _ (Or.inl (by omega)))
      show entryAt mem' (k * pageSize) i = 0
      rw [entry]
      exact load_fill_zero (Nat.le_add_right _ _) (by omega)
    case upper =>
      intro i high
      have small := i.isLt
      show load mem' (k * pageSize + 8 * i) 8 = load s.mem (j * pageSize + 8 * i) 8
      have place : j * pageSize + 2048 + (k * pageSize + 8 * i - (k * pageSize + 2048)) = j * pageSize + 8 * i := by omega
      rw [load_copy (by omega) (by omega), place]
      -- the PML4 of the kernel is another frame
      apply load_congr
      apply fill_agree
      simp only [pageSize]
      omega

theorem NewPml4.userFrame (new : NewPml4 kernelPml4 s s' k) {p : List (Fin 512)} (other : p ≠ []) :
    userFrame s' (k * pageSize) p = none := by
  cases p with
  | nil => exact absurd rfl other
  | cons i p =>
    have none : userChild s'.pmm.totalFrames s'.mem 0 (k * pageSize) i = none := by
      by_cases low : i.val < 256
      · exact userChild_missing (by rw [new.lower i low, Nat.zero_and])
      · exact if_pos (Or.inl ⟨rfl, by omega⟩)
    rw [Mm.userFrame, walk, walkFrom, none, Option.bind_none]

theorem NewPml4.inTree (new : NewPml4 kernelPml4 s s' k) (j : Nat) : InTree s' (k * pageSize) j ↔ j = k := by
  constructor
  · rintro ⟨p, _, found⟩
    by_cases root : p = []
    · rw [root] at found
      exact (Nat.eq_of_mul_eq_mul_right (by decide) (Option.some.inj found)).symm
    · rw [new.userFrame root] at found
      cases found
  · rintro rfl
    exact ⟨[], Nat.zero_le _, rfl⟩

theorem NewPml4.tree (new : NewPml4 kernelPml4 s s' k) : UserTree s' (k * pageSize) := by
  have root : ∀ {p a}, Mm.userFrame s' (k * pageSize) p = some a → p = [] := by
    intro p a found
    by_contra other
    rw [new.userFrame other] at found
    cases found
  constructor
  case distinct =>
    intro p q a _ _ foundP foundQ
    rw [root foundP, root foundQ]
  case frames =>
    intro p a _ found
    rw [root found] at found
    exact ⟨k, (Option.some.inj found).symm, new.nonzero, by rw [new.pmm.total]; exact new.inside, ((new.new k).mpr rfl).2⟩
  case small =>
    intro p t i _ low found
    obtain rfl := root found
    cases found
    rw [new.lower i (low rfl), Nat.zero_and]

end

end RexOs.Mm
