import RexOs.Mm.VmmMap

/-! The address spaces of user tasks (`vmm_create_user_pml4` and `vmm_destroy_user_pml4`).

A new PML4 shares its upper half with the kernel. Destruction walks the lower half and
releases every frame that it meets there, whatever its origin; frames beyond the bitmap
are passed over by `pmm_free_frame`.
-/

set_option autoImplicit false

namespace RexOs.Mm

open RexOs.Library

def vmmCreateUserPml4 (fails : Nat → Bool) (s : Machine) (kernelPml4 : Nat) : Nat × Machine :=
  let (phys, s) := allocFrame fails s
  if phys = 0 then (0, s)
  else
    -- entries 0 to 255 are cleared, 256 to 511 are those of the kernel
    let mem := fill s.mem phys 2048 0
    (phys, { s with mem := copy mem (phys + 2048) (kernelPml4 + 2048) 2048 })

/-- One of the nested loops: the frames below an entry are released before the entry's own. -/
def freeEntries (m : Mem) (indices : List (Fin 512)) (skip : Nat → Bool) (below : Nat → Pmm → Pmm) (table : Nat)
    (pmm : Pmm) : Pmm :=
  indices.foldl (fun pmm i =>
    let e := entryAt m table i
    if skip e then pmm else pmmFreeFrame (below (e &&& addrMask4k) pmm) (e &&& addrMask4k)) pmm

def isAbsent (e : Nat) : Bool := e &&& pagePresent = 0

def isAbsentOrHuge (e : Nat) : Bool := isAbsent e || e &&& pageHuge ≠ 0

def freePt (m : Mem) : Nat → Pmm → Pmm := freeEntries m (List.finRange 512) isAbsent fun _ pmm => pmm

def freePd (m : Mem) : Nat → Pmm → Pmm := freeEntries m (List.finRange 512) isAbsentOrHuge (freePt m)

def freePdpt (m : Mem) : Nat → Pmm → Pmm := freeEntries m (List.finRange 512) isAbsentOrHuge (freePd m)

def userIndices : List (Fin 512) := (List.finRange 512).filter fun i => i.val < 256

def vmmDestroyUserPml4 (m : Mem) (kernelPml4 pml4 : Nat) (pmm : Pmm) : Pmm :=
  if pml4 = kernelPml4 ∨ pml4 = 0 then pmm
  else pmmFreeFrame (freeEntries m userIndices isAbsent (freePdpt m) pml4 pmm) pml4

structure Frees (F : Nat → Prop) (s s' : Pmm) : Prop where
  total : s'.totalFrames = s.totalFrames
  hint : s.searchHint ≤ s.totalFrames → s'.searchHint ≤ s'.totalFrames
  bits : ∀ k, k < s.totalFrames → (s'.bmTest k = true ↔ s.bmTest k = true ∧ ¬ F k)

section
variable {F G : Nat → Prop} {s s' s'' : Pmm}

theorem Frees.refl (s : Pmm) : Frees (fun _ => False) s s := ⟨rfl, id, fun _ _ => by simp⟩

theorem Frees.trans (first : Frees F s s') (second : Frees G s' s'') : Frees (fun k => F k ∨ G k) s s'' := by
  constructor
  case total => exact second.total.trans first.total
  case hint => exact fun inside => second.hint (first.hint inside)
  case bits =>
    intro k inside
    rw [second.bits k (by rw [first.total]; exact inside), first.bits k inside, and_assoc, not_or]

theorem Frees.congr (frees : Frees F s s') (same : ∀ k, k < s.totalFrames → (F k ↔ G k)) : Frees G s s' :=
  ⟨frees.total, frees.hint, fun k inside => by rw [frees.bits k inside, same k inside]⟩

theorem pmmFreeFrame_frees (s : Pmm) (phys : Nat) : Frees (fun k => phys / pageSize = k) s (pmmFreeFrame s phys) := by
  constructor
  case total => exact (pmmFreeFrame_fields s phys).1
  case hint =>
    unfold pmmFreeFrame
    dsimp only
    intro hint
    split
    · exact hint
    split
    · exact hint
    · show (if phys / pageSize < s.searchHint then phys / pageSize else s.searchHint) ≤ s.totalFrames
      split <;> omega
  case bits =>
    intro k inside
    rw [pmmFreeFrame_bmTest s phys k inside, Bool.and_eq_true, Bool.not_eq_true', decide_eq_false_iff_not, and_comm,
      eq_comm (a := k)]

theorem foldl_frees {Index : Type} {pass : Pmm → Index → Pmm} {F : Index → Nat → Prop} {total : Nat} (indices : List Index)
    (each : ∀ i ∈ indices, ∀ s, s.totalFrames = total → Frees (F i) s (pass s i)) (s : Pmm) (size : s.totalFrames = total) :
    Frees (fun k => ∃ i ∈ indices, F i k) s (indices.foldl pass s) := by
  induction indices generalizing s with
  | nil => exact (Frees.refl s).congr fun k _ => by simp
  | cons i rest ih =>
    have first := each i List.mem_cons_self s size
    have others := ih (fun j member => each j (List.mem_cons_of_mem i member)) (pass s i) (first.total.trans size)
    exact (first.trans others).congr fun k _ => by simp

theorem Frees.clear (frees : Frees F s s') {k : Nat} (inside : k < s.totalFrames) (clear : s.bmTest k = false) :
    s'.bmTest k = false := by
  by_contra taken
  rw [((frees.bits k inside).mp (Bool.eq_true_of_not_eq_false taken)).1] at clear
  cases clear

theorem foldl_some {Index : Type} {pass : Pmm → Index → Pmm} (each : ∀ s i, ∃ F, Frees F s (pass s i)) (indices : List Index)
    (s : Pmm) : ∃ F, Frees F s (indices.foldl pass s) := by
  induction indices generalizing s with
  | nil => exact ⟨_, Frees.refl s⟩
  | cons i rest ih =>
    obtain ⟨F, first⟩ := each s i
    obtain ⟨G, others⟩ := ih (pass s i)
    exact ⟨_, first.trans others⟩

theorem foldl_clears {Index : Type} {pass : Pmm → Index → Pmm} {indices : List Index} {i : Index} {k : Nat}
    (each : ∀ s i, ∃ F, Frees F s (pass s i)) (member : i ∈ indices) (inside : k < s.totalFrames)
    (clears : ∀ s' : Pmm, s'.totalFrames = s.totalFrames → (pass s' i).bmTest k = false) :
    (indices.foldl pass s).bmTest k = false := by
  obtain ⟨before, after, rfl⟩ := List.append_of_mem member
  rw [List.foldl_append, List.foldl_cons]
  obtain ⟨F, first⟩ := foldl_some each before s
  obtain ⟨G, here⟩ := each (before.foldl pass s) i
  obtain ⟨H, last⟩ := foldl_some each after (pass (before.foldl pass s) i)
  apply last.clear
  · rw [here.total, first.total]
    exact inside
  · exact clears _ first.total

end

/-- The frame behind an entry of the user half, if the bitmap has it. At depth 3 it is the frame of a page. -/
def userChild (total : Nat) (m : Mem) (depth t : Nat) (i : Fin 512) : Option Nat :=
  if depth = 0 ∧ 256 ≤ i.val ∨ depth = 3 ∧ total ≤ (entryAt m t i &&& addrMask4k) / pageSize then none
  else child m depth t i

def userFrame (s : Machine) (cr3 : Nat) (path : List (Fin 512)) : Option Nat :=
  walk (userChild s.pmm.totalFrames s.mem) cr3 path

def InTree (s : Machine) (cr3 k : Nat) : Prop := ∃ p, p.length ≤ 4 ∧ userFrame s cr3 p = some (k * pageSize)

/-- Every frame of the user half is there once and is taken, and there are no huge pages. -/
structure UserTree (s : Machine) (cr3 : Nat) : Prop where
  distinct : Distinct (userChild s.pmm.totalFrames s.mem) cr3 4
  frames : ∀ p a, p.length ≤ 4 → userFrame s cr3 p = some a →
    ∃ k, a = k * pageSize ∧ k ≠ 0 ∧ k < s.pmm.totalFrames ∧ s.pmm.bmTest k = true
  small : ∀ p t i, p.length ≤ 2 → (p = [] → i.val < 256) → userFrame s cr3 p = some t →
    entryAt s.mem t i &&& pageHuge = 0

section
variable {s : Machine} {m : Mem} {total cr3 depth t : Nat} {i : Fin 512}

theorem userChild_le {a : Nat} (found : userChild total m depth t i = some a) : child m depth t i = some a := by
  unfold userChild at found
  split at found
  · cases found
  · exact found

def Below (total : Nat) (m : Mem) (depth t k : Nat) : Prop :=
  ∃ q, 0 < q.length ∧ depth + q.length ≤ 4 ∧ walkFrom (userChild total m) depth t q = some (k * pageSize)

theorem below_iff {k : Nat} (inside : depth < 4) :
    Below total m depth t k ↔
      ∃ i a, userChild total m depth t i = some a ∧ (a = k * pageSize ∨ Below total m (depth + 1) a k) := by
  constructor
  · rintro ⟨q, some', short, found⟩
    cases q with
    | nil => cases some'
    | cons i q =>
      rw [walkFrom] at found
      obtain ⟨a, here, rest⟩ := Option.bind_eq_some_iff.mp found
      refine ⟨i, a, here, ?_⟩
      cases q with
      | nil => exact Or.inl (Option.some.inj rest)
      | cons j q =>
        rw [List.length_cons] at short
        exact Or.inr ⟨j :: q, Nat.succ_pos _, by omega, rest⟩
  · rintro ⟨i, a, here, rfl | ⟨q, some', short, found⟩⟩
    · exact ⟨[i], Nat.one_pos, inside, by rw [walkFrom, here]; rfl⟩
    · exact ⟨i :: q, Nat.succ_pos _, by rw [List.length_cons]; omega, by rw [walkFrom, here]; exact found⟩

theorem inTree_iff {k : Nat} : InTree s cr3 k ↔ cr3 = k * pageSize ∨ Below s.pmm.totalFrames s.mem 0 cr3 k := by
  constructor
  · rintro ⟨p, short, found⟩
    cases p with
    | nil => exact Or.inl (Option.some.inj found)
    | cons i p => exact Or.inr ⟨i :: p, Nat.succ_pos _, by omega, found⟩
  · rintro (root | ⟨q, _, short, found⟩)
    · exact ⟨[], Nat.zero_le _, by rw [root]; rfl⟩
    · exact ⟨q, by omega, found⟩

end

section
variable {m : Mem} {total : Nat}

theorem child_cases (m : Mem) (depth t : Nat) (i : Fin 512) :
    child m depth t i = none ∨ child m depth t i = some (entryAt m t i &&& addrMask4k) := by
  unfold child
  split
  · exact Or.inl rfl
  · exact Or.inr rfl

theorem frame_index {f k : Nat} (aligned : pageSize ∣ f) : f / pageSize = k ↔ f = k * pageSize :=
  Nat.div_eq_iff_eq_mul_left (by decide) aligned

theorem not_below {depth t k : Nat} (deep : 4 ≤ depth) : ¬ Below total m depth t k := by
  rintro ⟨q, some', short, _⟩
  omega

theorem freeEntries_frees {indices : List (Fin 512)} {skip : Nat → Bool} {below : Nat → Pmm → Pmm} {depth t : Nat}
    (skips : ∀ i ∈ indices, skip (entryAt m t i) = true ↔ child m depth t i = none)
    (others : ∀ i, i ∉ indices → userChild total m depth t i = none)
    (listed : ∀ i ∈ indices, ¬ (depth = 0 ∧ 256 ≤ i.val)) (inside : depth < 4)
    (deeper : ∀ i a pmm, i ∈ indices → child m depth t i = some a → pmm.totalFrames = total →
      Frees (Below total m (depth + 1) a) pmm (below a pmm))
    (pmm : Pmm) (size : pmm.totalFrames = total) :
    Frees (Below total m depth t) pmm (freeEntries m indices skip below t pmm) := by
  let F : Fin 512 → Nat → Prop := fun i k =>
    ∃ a, userChild total m depth t i = some a ∧ (a = k * pageSize ∨ Below total m (depth + 1) a k)
  have each : ∀ i ∈ indices, ∀ s, s.totalFrames = total → Frees (F i) s
      (if skip (entryAt m t i) then s
        else pmmFreeFrame (below (entryAt m t i &&& addrMask4k) s) (entryAt m t i &&& addrMask4k)) := by
    intro i member s size
    split
    · rename_i skipped
      have none := (skips i member).mp skipped
      apply (Frees.refl s).congr
      rintro k _
      refine ⟨False.elim, ?_⟩
      rintro ⟨a, found, _⟩
      rw [userChild_le found] at none
      cases none
    · rename_i taken
      have found := (child_cases m depth t i).resolve_left (mt (skips i member).mpr taken)
      have frees := (deeper i _ s member found size).trans (pmmFreeFrame_frees _ (entryAt m t i &&& addrMask4k))
      apply frees.congr
      intro k small
      have aligned := child_aligned found
      rw [frame_index aligned]
      by_cases outside : depth = 3 ∧ total ≤ (entryAt m t i &&& addrMask4k) / pageSize
      · -- a page whose frame the bitmap does not have
        refine ⟨?_, ?_⟩
        · rintro (deep | here)
          · exact absurd deep (not_below (by omega))
          · rw [here, Nat.mul_div_cancel _ (by decide)] at outside
            omega
        · rintro ⟨a, none, _⟩
          rw [userChild, if_pos (Or.inr outside)] at none
          cases none
      · have child' : userChild total m depth t i = some (entryAt m t i &&& addrMask4k) := by
          rw [userChild, if_neg (not_or.mpr ⟨listed i member, outside⟩)]
          exact found
        constructor
        · rintro (deep | here)
          · exact ⟨_, child', Or.inr deep⟩
          · exact ⟨_, child', Or.inl here⟩
        · rintro ⟨a, found', way⟩
          rw [child'] at found'
          cases found'
          exact way.symm
  apply (foldl_frees indices each pmm size).congr
  intro k _
  rw [below_iff inside]
  constructor
  · rintro ⟨i, _, way⟩
    exact ⟨i, way⟩
  · rintro ⟨i, a, found, way⟩
    by_cases member : i ∈ indices
    · exact ⟨i, member, a, found, way⟩
    · rw [others i member] at found
      cases found

theorem freeAll_frees {skip : Nat → Bool} {below : Nat → Pmm → Pmm} {depth t : Nat} (lower : 0 < depth) (inside : depth < 4)
    (skips : ∀ i, skip (entryAt m t i) = true ↔ child m depth t i = none)
    (deeper : ∀ i a pmm, child m depth t i = some a → pmm.totalFrames = total →
      Frees (Below total m (depth + 1) a) pmm (below a pmm))
    (pmm : Pmm) (size : pmm.totalFrames = total) :
    Frees (Below total m depth t) pmm (freeEntries m (List.finRange 512) skip below t pmm) := by
  apply freeEntries_frees _ _ _ inside _ pmm size
  · exact fun i _ => skips i
  · exact fun i missing => absurd (List.mem_finRange i) missing
  · exact fun i _ top => absurd top.1 (Nat.ne_of_gt lower)
  · exact fun i a pmm _ => deeper i a pmm

theorem isAbsent_iff {depth t : Nat} {i : Fin 512} (other : depth ≠ 2) :
    isAbsent (entryAt m t i) = true ↔ child m depth t i = none := by
  simp [isAbsent, child, other]

theorem isAbsentOrHuge_iff {depth t : Nat} {i : Fin 512} (small : depth = 2 ∨ entryAt m t i &&& pageHuge = 0) :
    isAbsentOrHuge (entryAt m t i) = true ↔ child m depth t i = none := by
  rcases small with rfl | small
  · simp [isAbsentOrHuge, isAbsent, child, or_iff_not_imp_left]
  · simp [isAbsentOrHuge, isAbsent, child, small]

variable {pmm : Pmm} {t : Nat}

theorem freePt_frees (size : pmm.totalFrames = total) : Frees (Below total m 3 t) pmm (freePt m t pmm) := by
  apply freeAll_frees (by decide) (by decide) (fun i => isAbsent_iff (by decide)) _ pmm size
  intro i a pmm _ _
  apply (Frees.refl pmm).congr
  intro k _
  exact ⟨False.elim, not_below (Nat.le_refl 4)⟩

theorem freePd_frees (size : pmm.totalFrames = total) : Frees (Below total m 2 t) pmm (freePd m t pmm) := by
  apply freeAll_frees (by decide) (by decide) (fun i => isAbsentOrHuge_iff (Or.inl rfl)) _ pmm size
  exact fun i a pmm _ size' => freePt_frees size'

theorem freePdpt_frees (small : ∀ i, entryAt m t i &&& pageHuge = 0) (size : pmm.totalFrames = total) :
    Frees (Below total m 1 t) pmm (freePdpt m t pmm) := by
  apply freeAll_frees (by decide) (by decide) (fun i => isAbsentOrHuge_iff (Or.inr (small i))) _ pmm size
  exact fun i a pmm _ size' => freePd_frees size'

theorem mem_userIndices {i : Fin 512} : i ∈ userIndices ↔ i.val < 256 := by
  simp [userIndices]

theorem freeEntries_some (m : Mem) (indices : List (Fin 512)) (skip : Nat → Bool) {below : Nat → Pmm → Pmm}
    (deeper : ∀ a s, ∃ F, Frees F s (below a s)) (t : Nat) (s : Pmm) :
    ∃ F, Frees F s (freeEntries m indices skip below t s) := by
  apply foldl_some
  intro s i
  dsimp only
  split
  · exact ⟨_, Frees.refl s⟩
  · obtain ⟨F, first⟩ := deeper (entryAt m t i &&& addrMask4k) s
    exact ⟨_, first.trans (pmmFreeFrame_frees _ _)⟩

theorem freeEntries_clears {indices : List (Fin 512)} {skip : Nat → Bool} {below : Nat → Pmm → Pmm} {i : Fin 512} {k f : Nat}
    (deeper : ∀ a s, ∃ F, Frees F s (below a s)) (member : i ∈ indices) (taken : skip (entryAt m t i) = false)
    (frame : entryAt m t i &&& addrMask4k = f)
    (here : f / pageSize = k ∨ ∀ s : Pmm, s.totalFrames = total → (below f s).bmTest k = false) (inside : k < total)
    (pmm : Pmm) (size : pmm.totalFrames = total) : (freeEntries m indices skip below t pmm).bmTest k = false := by
  have each : ∀ (s : Pmm) (i : Fin 512), ∃ F, Frees F s (if skip (entryAt m t i) then s
      else pmmFreeFrame (below (entryAt m t i &&& addrMask4k) s) (entryAt m t i &&& addrMask4k)) := by
    intro s i
    obtain ⟨F, frees⟩ := freeEntries_some m [i] skip deeper t s
    exact ⟨F, frees⟩
  apply foldl_clears each member (by rw [size]; exact inside)
  intro s sizeS
  rw [size] at sizeS
  rw [taken, if_neg Bool.false_ne_true, frame]
  obtain ⟨F, first⟩ := deeper f s
  have small : k < (below f s).totalFrames := by
    rw [first.total, sizeS]
    exact inside
  have last := pmmFreeFrame_frees (below f s) f
  rcases here with own | lower
  · by_contra set
    exact ((last.bits k small).mp (Bool.eq_true_of_not_eq_false set)).2 own
  · exact last.clear small (lower s sizeS)

theorem vmmDestroyUserPml4_total (m : Mem) (kernelPml4 pml4 : Nat) (pmm : Pmm) :
    (vmmDestroyUserPml4 m kernelPml4 pml4 pmm).totalFrames = pmm.totalFrames := by
  have somePt : ∀ a s, ∃ F, Frees F s (freePt m a s) := freeEntries_some _ _ _ fun _ s => ⟨_, Frees.refl s⟩
  have somePdpt : ∀ a s, ∃ F, Frees F s (freePdpt m a s) := freeEntries_some _ _ _ (freeEntries_some _ _ _ somePt)
  unfold vmmDestroyUserPml4
  split
  · rfl
  · obtain ⟨F, frees⟩ := freeEntries_some m userIndices isAbsent somePdpt pml4 pmm
    exact (pmmFreeFrame_frees _ pml4).total.trans frees.total

theorem vmmDestroyUserPml4_clears {pml4 kernelPml4 pdpt pd pt f k : Nat} {i j l n : Fin 512}
    (guard : ¬ (pml4 = kernelPml4 ∨ pml4 = 0)) (low : i.val < 256)
    (top : isAbsent (entryAt m pml4 i) = false ∧ entryAt m pml4 i &&& addrMask4k = pdpt)
    (second : isAbsentOrHuge (entryAt m pdpt j) = false ∧ entryAt m pdpt j &&& addrMask4k = pd)
    (third : isAbsentOrHuge (entryAt m pd l) = false ∧ entryAt m pd l &&& addrMask4k = pt)
    (last : isAbsent (entryAt m pt n) = false ∧ entryAt m pt n &&& addrMask4k = f)
    (frame : f / pageSize = k) (inside : k < pmm.totalFrames) :
    (vmmDestroyUserPml4 m kernelPml4 pml4 pmm).bmTest k = false := by
  have somePt : ∀ a s, ∃ F, Frees F s (freePt m a s) := freeEntries_some _ _ _ fun _ s => ⟨_, Frees.refl s⟩
  have somePd : ∀ a s, ∃ F, Frees F s (freePd m a s) := freeEntries_some _ _ _ somePt
  have somePdpt : ∀ a s, ∃ F, Frees F s (freePdpt m a s) := freeEntries_some _ _ _ somePd
  have pages : ∀ s : Pmm, s.totalFrames = pmm.totalFrames → (freePt m pt s).bmTest k = false :=
    freeEntries_clears (fun _ s => ⟨_, Frees.refl s⟩) (List.mem_finRange n) last.1 last.2 (Or.inl frame) inside
  have tables : ∀ s : Pmm, s.totalFrames = pmm.totalFrames → (freePd m pd s).bmTest k = false :=
    freeEntries_clears somePt (List.mem_finRange l) third.1 third.2 (Or.inr pages) inside
  have directories : ∀ s : Pmm, s.totalFrames = pmm.totalFrames → (freePdpt m pdpt s).bmTest k = false :=
    freeEntries_clears somePd (List.mem_finRange j) second.1 second.2 (Or.inr tables) inside
  rw [vmmDestroyUserPml4, if_neg guard]
  have lower := freeEntries_clears somePdpt (mem_userIndices.mpr low) top.1 top.2 (Or.inr directories) inside pmm rfl
  obtain ⟨F, frees⟩ := freeEntries_some m userIndices isAbsent somePdpt pml4 pmm
  apply (pmmFreeFrame_frees _ pml4).clear _ lower
  rw [frees.total]
  exact inside

theorem vmmDestroyUserPml4_frees {s : Machine} {cr3 kernelPml4 : Nat} (tree : UserTree s cr3) (other : cr3 ≠ kernelPml4) :
    Frees (InTree s cr3) s.pmm (vmmDestroyUserPml4 s.mem kernelPml4 cr3 s.pmm) := by
  obtain ⟨k, root, nonzero, _, _⟩ := tree.frames [] cr3 (Nat.zero_le _) rfl
  have guard : ¬ (cr3 = kernelPml4 ∨ cr3 = 0) := by
    rintro (same | zero)
    · exact other same
    · rw [root] at zero
      exact Nat.mul_ne_zero nonzero (by decide) zero
  rw [vmmDestroyUserPml4, if_neg guard]
  have lower : Frees (Below s.pmm.totalFrames s.mem 0 cr3) s.pmm
      (freeEntries s.mem userIndices isAbsent (freePdpt s.mem) cr3 s.pmm) := by
    apply freeEntries_frees _ _ _ (by decide) _ s.pmm rfl
    · exact fun i _ => isAbsent_iff (by decide)
    · intro i upper
      exact if_pos (Or.inl ⟨rfl, Nat.le_of_not_lt (mt mem_userIndices.mpr upper)⟩)
    · exact fun i member top => absurd (mem_userIndices.mp member) (Nat.not_lt.mpr top.2)
    · intro i a pmm member found size
      have low := mem_userIndices.mp member
      have frame : userFrame s cr3 [i] = some a := by
        have child' : userChild s.pmm.totalFrames s.mem 0 cr3 i = some a := by
          rw [userChild, if_neg]
          · exact found
          · rintro (⟨_, high⟩ | ⟨deep, _⟩)
            · omega
            · cases deep
        rw [userFrame, walk, walkFrom, child']
        rfl
      apply freePdpt_frees _ size
      exact fun j => tree.small [i] a j (Nat.le_succ 1) (absurd · (List.cons_ne_nil _ _)) frame
  apply (lower.trans (pmmFreeFrame_frees _ cr3)).congr
  intro j _
  rw [inTree_iff, frame_index ⟨k, by rw [root, Nat.mul_comm]⟩, or_comm]

end

end RexOs.Mm
