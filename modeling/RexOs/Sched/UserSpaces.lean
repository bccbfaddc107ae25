import RexOs.Sched.UserGrow

/-! Which frames belong to which address space.

A frame that is taken was so at boot or is in the tree of exactly one task, whose record
has it. Steps of a task let its own tree grow and leave the frames of the others alone;
so destruction gives back what the task has taken, and nothing else.
-/

set_option autoImplicit false

namespace RexOs.Sched

open RexOs.Library RexOs.Mm RexOs.Arch RexOs.Fs

structure BootOk (platform : Platform) (start : Machine) : Prop where
  ok : FramesOk start
  tables : ∀ p a, p.length ≤ 3 → tableOf start.mem platform.kernelPml4 p = some a →
    ∃ k, a = k * pageSize ∧ k ≠ 0 ∧ k < start.pmm.totalFrames ∧ start.pmm.bmTest k = true
  pages : ∀ p k, p.length = 4 → tableOf start.mem platform.kernelPml4 p = some (k * pageSize) →
    k < start.pmm.totalFrames → start.pmm.bmTest k = true

structure TaskSpace (platform : Platform) (s : Machine) (t : UserTask) : Prop where
  tree : UserTree s t.cr3
  frames : ∀ k, k ∈ t.frames ↔ InTree s t.cr3 k
  upper : ∀ i : Fin 512, 256 ≤ i.val → entryAt s.mem t.cr3 i = entryAt s.mem platform.kernelPml4 i

structure SpacesOk (platform : Platform) (start s : Machine) (tasks : List UserTask) : Prop where
  ok : FramesOk s
  total : s.pmm.totalFrames = start.pmm.totalFrames
  kernel : ∀ p a, p.length ≤ 3 → tableOf start.mem platform.kernelPml4 p = some a → AgreeOn s.mem start.mem a pageSize
  spaces : ∀ t ∈ tasks, TaskSpace platform s t
  apart : tasks.Pairwise fun t u => ∀ k ∈ t.frames, k ∉ u.frames
  account : ∀ k, k < s.pmm.totalFrames →
    (s.pmm.bmTest k = true ↔ start.pmm.bmTest k = true ∨ ∃ t ∈ tasks, k ∈ t.frames)
  fresh : ∀ t ∈ tasks, ∀ k ∈ t.frames, start.pmm.bmTest k = false

section
variable {platform : Platform} {start s s' : Machine} {tasks : List UserTask} {t : UserTask}

theorem SpacesOk.perm {tasks' : List UserTask} (ok : SpacesOk platform start s tasks) (same : tasks.Perm tasks') :
    SpacesOk platform start s tasks' := by
  have members : ∀ t, t ∈ tasks' ↔ t ∈ tasks := fun t => same.symm.mem_iff
  constructor
  case ok => exact ok.ok
  case total => exact ok.total
  case kernel => exact ok.kernel
  case spaces => exact fun t member => ok.spaces t ((members t).mp member)
  case apart =>
    apply (same.pairwise_iff _).mp ok.apart
    exact fun {t u} disjoint k memberU memberT => disjoint k memberT memberU
  case account =>
    intro k inside
    rw [ok.account k inside]
    simp only [members]
  case fresh => exact fun t member => ok.fresh t ((members t).mp member)

theorem entryAt_agree {m m' : Mem} {a : Nat} (agree : AgreeOn m' m a pageSize) (i : Fin 512) : entryAt m' a i = entryAt m a i := by
  apply load_congr
  intro x low high
  have := i.isLt
  exact agree x (by omega) (by simp only [pageSize]; omega)

theorem TaskSpace.taken (space : TaskSpace platform s t) {k : Nat} (member : k ∈ t.frames) :
    k ≠ 0 ∧ k < s.pmm.totalFrames ∧ s.pmm.bmTest k = true := by
  obtain ⟨p, short, found⟩ := (space.frames k).mp member
  obtain ⟨j, same, nonzero, inside, taken⟩ := space.tree.frames p _ short found
  have equal := Nat.eq_of_mul_eq_mul_right (by decide) same
  subst equal
  exact ⟨nonzero, inside, taken⟩

theorem TaskSpace.keep (space : TaskSpace platform s t) (pmm : Allocates s.pmm s'.pmm)
    (agree : ∀ k ∈ t.frames, AgreeOn s'.mem s.mem (k * pageSize) pageSize)
    (kernel : ∀ i, entryAt s'.mem platform.kernelPml4 i = entryAt s.mem platform.kernelPml4 i) : TaskSpace platform s' t := by
  have entries : ∀ p a i, p.length ≤ 3 → userFrame s t.cr3 p = some a → entryAt s'.mem a i = entryAt s.mem a i := by
    intro p a i short found
    obtain ⟨k, rfl, _⟩ := space.tree.frames p a (by omega) found
    exact entryAt_agree (agree k ((space.frames k).mpr ⟨p, by omega, found⟩)) i
  obtain ⟨tree, walks⟩ := space.tree.keep pmm (SameTree.of_entries entries)
  constructor
  case tree => exact tree
  case frames =>
    intro k
    rw [space.frames]
    constructor
    · rintro ⟨p, short, found⟩
      exact ⟨p, short, by rw [walks p short]; exact found⟩
    · rintro ⟨p, short, found⟩
      exact ⟨p, short, by rw [← walks p short]; exact found⟩
  case upper =>
    intro i high
    rw [entries [] t.cr3 i (Nat.zero_le _) rfl, kernel i]
    exact space.upper i high

theorem SpacesOk.kernelFrame (ok : SpacesOk platform start s tasks) (boot : BootOk platform start) {p : List (Fin 512)} {a : Nat}
    (short : p.length ≤ 3) (found : tableOf start.mem platform.kernelPml4 p = some a) :
    ∃ k, a = k * pageSize ∧ k ≠ 0 ∧ k < s.pmm.totalFrames ∧ s.pmm.bmTest k = true ∧ ∀ t ∈ tasks, k ∉ t.frames := by
  obtain ⟨k, rfl, nonzero, inside, taken⟩ := boot.tables p a short found
  rw [← ok.total] at inside
  refine ⟨k, rfl, nonzero, inside, (ok.account k inside).mpr (Or.inl taken), ?_⟩
  intro t member mine
  rw [ok.fresh t member k mine] at taken
  cases taken

theorem SpacesOk.clear (ok : SpacesOk platform start s tasks) {k : Nat} (inside : k < s.pmm.totalFrames)
    (clear : s.pmm.bmTest k = false) : start.pmm.bmTest k = false := by
  by_contra taken
  rw [(ok.account k inside).mpr (Or.inl (Bool.eq_true_of_not_eq_false taken))] at clear
  cases clear

theorem SpacesOk.grow {rest : List UserTask} {t' : UserTask} (boot : BootOk platform start)
    (ok : SpacesOk platform start s (t :: rest)) (grows : Grows t.cr3 s s' (NewFrame s s')) (same : t'.cr3 = t.cr3)
    (frames : ∀ k, k ∈ t'.frames ↔ k ∈ t.frames ∨ NewFrame s s' k) : SpacesOk platform start s' (t' :: rest) := by
  have mine := ok.spaces t List.mem_cons_self
  have disjoint := List.pairwise_cons.mp ok.apart
  -- what is taken and not in the tree stays
  have stays : ∀ k, k < s.pmm.totalFrames → k ≠ 0 → s.pmm.bmTest k = true → k ∉ t.frames →
      AgreeOn s'.mem s.mem (k * pageSize) pageSize := by
    intro k inside nonzero taken other
    apply grows.apart k inside nonzero taken
    · rw [← mine.frames]
      exact other
    · rintro ⟨clear, _⟩
      rw [taken] at clear
      cases clear
  have kernel : ∀ p a, p.length ≤ 3 → tableOf start.mem platform.kernelPml4 p = some a → AgreeOn s'.mem s.mem a pageSize := by
    intro p a short found
    obtain ⟨k, rfl, nonzero, inside, taken, other⟩ := ok.kernelFrame boot short found
    exact stays k inside nonzero taken (other t List.mem_cons_self)
  have kernelEntry := entryAt_agree (kernel [] _ (Nat.zero_le _) rfl)
  constructor
  case ok => exact grows.ok
  case total => exact grows.pmm.total.trans ok.total
  case kernel =>
    intro p a short found x low high
    exact (kernel p a short found x low high).trans (ok.kernel p a short found x low high)
  case spaces =>
    intro u member
    rcases List.mem_cons.mp member with rfl | other
    · constructor
      case tree =>
        rw [same]
        exact grows.tree
      case frames =>
        intro k
        rw [frames, mine.frames, same, grows.inTree]
      case upper =>
        intro i high
        rw [same, grows.upper i high, kernelEntry i]
        exact mine.upper i high
    · have space := ok.spaces u (List.mem_cons_of_mem t other)
      apply space.keep grows.pmm _ kernelEntry
      intro k member
      obtain ⟨nonzero, inside, taken⟩ := space.taken member
      exact stays k inside nonzero taken fun both => disjoint.1 u other k both member
  case apart =>
    apply List.pairwise_cons.mpr
    refine ⟨fun u member k new other => ?_, disjoint.2⟩
    rcases (frames k).mp new with before | ⟨clear, _⟩
    · exact disjoint.1 u member k before other
    · rw [((ok.spaces u (List.mem_cons_of_mem t member)).taken other).2.2] at clear
      cases clear
  case account =>
    intro k inside
    have before := ok.account k (by rw [← grows.pmm.total]; exact inside)
    have bits : s'.pmm.bmTest k = true ↔ s.pmm.bmTest k = true ∨ NewFrame s s' k := by
      have taken := grows.pmm.taken k
      unfold NewFrame
      cases old : s.pmm.bmTest k <;> cases new : s'.pmm.bmTest k <;> simp_all
    rw [bits, before]
    simp only [List.mem_cons, exists_eq_or_imp, frames]
    rw [or_assoc, or_right_comm]
  case fresh =>
    intro u member k owned
    rcases List.mem_cons.mp member with rfl | other
    · rcases (frames k).mp owned with old | ⟨clear, taken⟩
      · exact ok.fresh t List.mem_cons_self k old
      · obtain ⟨p, short, found⟩ := (grows.inTree k).mpr (Or.inr ⟨clear, taken⟩)
        obtain ⟨j, frame, _, inside, _⟩ := grows.tree.frames p _ short found
        rw [← Nat.eq_of_mul_eq_mul_right (by decide) frame, grows.pmm.total] at inside
        exact ok.clear inside clear
    · exact ok.fresh u (List.mem_cons_of_mem t other) k owned

theorem SpacesOk.idle (ok : SpacesOk platform start s tasks) (ok' : FramesOk s')
    (mem : s'.mem = s.mem) (pmm : Allocates s.pmm s'.pmm) (none : ∀ k, ¬ NewFrame s s' k) : SpacesOk platform start s' tasks := by
  constructor
  case ok => exact ok'
  case total => exact pmm.total.trans ok.total
  case kernel =>
    rw [mem]
    exact ok.kernel
  case spaces =>
    intro t member
    apply (ok.spaces t member).keep pmm
    · rw [mem]
      exact fun _ _ _ _ _ => rfl
    · rw [mem]
      exact fun _ => rfl
  case apart => exact ok.apart
  case account =>
    intro k inside
    rw [pmm.total] at inside
    rw [← ok.account k inside]
    refine ⟨fun taken => ?_, pmm.taken k⟩
    by_contra clear
    exact none k ⟨Bool.eq_false_of_not_eq_true clear, taken⟩
  case fresh => exact ok.fresh

theorem SpacesOk.create {k : Nat} (boot : BootOk platform start) (ok : SpacesOk platform start s tasks)
    (new : NewPml4 platform.kernelPml4 s s' k) (cr3 : t.cr3 = k * pageSize) (frames : ∀ j, j ∈ t.frames ↔ NewFrame s s' j) :
    SpacesOk platform start s' (t :: tasks) := by
  have clear := ((new.new k).mpr rfl).1
  have mine : ∀ j, j ∈ t.frames ↔ j = k := fun j => (frames j).trans (new.new j)
  -- every other frame keeps its bytes
  have stays : ∀ j, j ≠ k → AgreeOn s'.mem s.mem (j * pageSize) pageSize := by
    intro j other
    apply agree_of_frames new.changed (Nat.dvd_mul_left _ _) (Nat.dvd_mul_left _ _)
    exact fun same => other (Nat.eq_of_mul_eq_mul_right (by decide) same)
  have taken : ∀ j, s.pmm.bmTest j = true → j ≠ k := by
    rintro j used rfl
    rw [clear] at used
    cases used
  have kernel : ∀ p a, p.length ≤ 3 → tableOf start.mem platform.kernelPml4 p = some a → AgreeOn s'.mem s.mem a pageSize := by
    intro p a short found
    obtain ⟨j, rfl, _, _, used, _⟩ := ok.kernelFrame boot short found
    exact stays j (taken j used)
  have kernelEntry := entryAt_agree (kernel [] _ (Nat.zero_le _) rfl)
  have others : ∀ u ∈ tasks, ∀ j ∈ u.frames, j ≠ k := fun u member j owned =>
    taken j ((ok.spaces u member).taken owned).2.2
  constructor
  case ok => exact new.ok
  case total => exact new.pmm.total.trans ok.total
  case kernel =>
    intro p a short found x low high
    exact (kernel p a short found x low high).trans (ok.kernel p a short found x low high)
  case spaces =>
    intro u member
    rcases List.mem_cons.mp member with rfl | other
    · constructor
      case tree =>
        rw [cr3]
        exact new.tree
      case frames =>
        intro j
        rw [mine, cr3, new.inTree]
      case upper =>
        intro i high
        rw [cr3, new.upper i high, kernelEntry i]
    · apply (ok.spaces u other).keep new.pmm _ kernelEntry
      exact fun j owned => stays j (others u other j owned)
  case apart =>
    apply List.pairwise_cons.mpr
    refine ⟨fun u member j owned other => ?_, ok.apart⟩
    exact others u member j other ((mine j).mp owned)
  case account =>
    intro j inside
    rw [new.pmm.total] at inside
    have bits : s'.pmm.bmTest j = true ↔ s.pmm.bmTest j = true ∨ j ∈ t.frames := by
      rw [frames]
      have used := new.pmm.taken j
      unfold NewFrame
      cases old : s.pmm.bmTest j <;> cases new : s'.pmm.bmTest j <;> simp_all
    rw [bits, ok.account j inside]
    simp only [List.mem_cons, exists_eq_or_imp]
    rw [or_assoc, or_comm (a := ∃ _, _)]
  case fresh =>
    intro u member j owned
    rcases List.mem_cons.mp member with rfl | other
    · rw [(mine j).mp owned]
      exact ok.clear new.inside clear
    · exact ok.fresh u other j owned

theorem TaskSpace.released (space : TaskSpace platform s t) {pmm : Pmm} (total : pmm.totalFrames = s.pmm.totalFrames)
    (kept : ∀ k ∈ t.frames, pmm.bmTest k = true) : TaskSpace platform { s with pmm := pmm } t := by
  have walks : ∀ p, userFrame { s with pmm := pmm } t.cr3 p = userFrame s t.cr3 p := by
    intro p
    simp only [userFrame, total]
  constructor
  case tree =>
    constructor
    case distinct =>
      have distinct := space.tree.distinct
      rw [← total] at distinct
      exact distinct
    case frames =>
      intro p a short found
      rw [walks] at found
      obtain ⟨k, rfl, nonzero, inside, _⟩ := space.tree.frames p a short found
      exact ⟨k, rfl, nonzero, by rw [total]; exact inside, kept k ((space.frames k).mpr ⟨p, short, found⟩)⟩
    case small =>
      intro p a i short low found
      rw [walks] at found
      exact space.tree.small p a i short low found
  case frames =>
    intro k
    rw [space.frames]
    simp only [InTree, walks]
  case upper => exact space.upper

theorem SpacesOk.cr3_ne (boot : BootOk platform start) (ok : SpacesOk platform start s tasks) (member : t ∈ tasks) :
    t.cr3 ≠ platform.kernelPml4 := by
  intro same
  obtain ⟨k, frame, _, _, _, other⟩ := ok.kernelFrame boot (p := []) (Nat.zero_le _) rfl
  apply other t member
  rw [(ok.spaces t member).frames]
  exact ⟨[], Nat.zero_le _, by rw [same, frame]; rfl⟩

theorem SpacesOk.destroy {rest : List UserTask} (boot : BootOk platform start) (ok : SpacesOk platform start s (t :: rest)) :
    SpacesOk platform start
      { s with pmm := vmmDestroyUserPml4 s.mem platform.kernelPml4 t.cr3 s.pmm } rest := by
  have mine := ok.spaces t List.mem_cons_self
  have disjoint := List.pairwise_cons.mp ok.apart
  have frees := vmmDestroyUserPml4_frees mine.tree (ok.cr3_ne boot List.mem_cons_self)
  obtain ⟨root, _, _, inside, _⟩ := mine.tree.frames [] _ (Nat.zero_le _) rfl
  constructor
  case ok =>
    refine ⟨frees.hint ok.ok.hint, ?_, ?_⟩
    · show Pmm.totalFrames _ * pageSize ≤ 2 ^ 52
      rw [frees.total]
      exact ok.ok.narrow
    · apply (frees.bits 0 (by omega)).mpr
      refine ⟨ok.ok.zero, ?_⟩
      rw [← mine.frames]
      exact fun owned => (mine.taken owned).1 rfl
  case total => exact frees.total.trans ok.total
  case kernel => exact ok.kernel
  case spaces =>
    intro u member
    have space := ok.spaces u (List.mem_cons_of_mem t member)
    apply space.released frees.total
    intro k owned
    obtain ⟨_, inside', taken⟩ := space.taken owned
    apply (frees.bits k inside').mpr
    refine ⟨taken, ?_⟩
    rw [← mine.frames]
    exact fun both => disjoint.1 u member k both owned
  case apart => exact disjoint.2
  case account =>
    intro k inside'
    have inside' : k < s.pmm.totalFrames := by
      rw [← frees.total]
      exact inside'
    rw [show (_ : Pmm).bmTest k = true ↔ _ from frees.bits k inside', ok.account k inside', ← mine.frames]
    simp only [List.mem_cons, exists_eq_or_imp]
    constructor
    · rintro ⟨before | owned | other, released⟩
      · exact Or.inl before
      · exact absurd owned released
      · exact Or.inr other
    · rintro (before | ⟨u, member, owned⟩)
      · refine ⟨Or.inl before, fun both => ?_⟩
        rw [ok.fresh t List.mem_cons_self k both] at before
        cases before
      · exact ⟨Or.inr (Or.inr ⟨u, member, owned⟩), fun both => disjoint.1 u member k both owned⟩
  case fresh => exact fun u member => ok.fresh u (List.mem_cons_of_mem t member)

end

end RexOs.Sched
