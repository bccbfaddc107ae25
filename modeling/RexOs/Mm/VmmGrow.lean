import RexOs.Mm.VmmUser

/-! How an address space grows.

Frames come into the user half of a tree one at a time, each at a place where there was
none. `Grows` says which frames have come, and that everything outside of the tree is
left alone; so it can be used for each address space while the others stay as they are.
-/

set_option autoImplicit false

namespace RexOs.Mm

open RexOs.Library

/-- The allocator never gives out frame 0, and entries can hold its frames. -/
structure FramesOk (s : Machine) : Prop where
  hint : s.pmm.searchHint ≤ s.pmm.totalFrames
  narrow : s.pmm.totalFrames * pageSize ≤ 2 ^ 52
  zero : s.pmm.bmTest 0 = true

def NewFrame (s s' : Machine) (k : Nat) : Prop := s.pmm.bmTest k = false ∧ s'.pmm.bmTest k = true

theorem not_newFrame {s s' : Machine} (same : s'.pmm = s.pmm) (k : Nat) : ¬ NewFrame s s' k := by
  rintro ⟨clear, taken⟩
  rw [same, clear] at taken
  cases taken

/-- The frames of `more` have come to the user half of the tree, and nothing else has changed
but bytes of pages and of frame 0. -/
structure Grows (cr3 : Nat) (s s' : Machine) (more : Nat → Prop) : Prop where
  ok : FramesOk s'
  tree : UserTree s' cr3
  inTree : ∀ k, InTree s' cr3 k ↔ InTree s cr3 k ∨ more k
  pmm : Allocates s.pmm s'.pmm
  apart : ∀ k, k < s.pmm.totalFrames → k ≠ 0 → s.pmm.bmTest k = true → ¬ InTree s cr3 k → ¬ more k →
    AgreeOn s'.mem s.mem (k * pageSize) pageSize
  upper : ∀ i : Fin 512, 256 ≤ i.val → entryAt s'.mem cr3 i = entryAt s.mem cr3 i

section
variable {cr3 : Nat} {s s' s'' : Machine} {more more' : Nat → Prop}

theorem Grows.trans (first : Grows cr3 s s' more) (second : Grows cr3 s' s'' more') :
    Grows cr3 s s'' fun k => more k ∨ more' k := by
  constructor
  case ok => exact second.ok
  case tree => exact second.tree
  case inTree =>
    intro k
    rw [second.inTree, first.inTree, or_assoc]
  case pmm => exact first.pmm.trans second.pmm
  case apart =>
    intro k inside nonzero taken outside none
    obtain ⟨none, none'⟩ := not_or.mp none
    have agree := first.apart k inside nonzero taken outside none
    have outside' : ¬ InTree s' cr3 k := by
      rw [first.inTree]
      exact not_or.mpr ⟨outside, none⟩
    have agree' := second.apart k (by rw [first.pmm.total]; exact inside) nonzero (first.pmm.taken k taken) outside' none'
    exact fun x low high => (agree' x low high).trans (agree x low high)
  case upper => exact fun i high => (second.upper i high).trans (first.upper i high)

theorem Grows.congr (grows : Grows cr3 s s' more) (same : ∀ k, more k ↔ more' k) : Grows cr3 s s' more' := by
  have equal : more = more' := funext fun k => propext (same k)
  rw [← equal]
  exact grows

theorem newFrame_trans {k : Nat} (first : Allocates s.pmm s'.pmm) (second : Allocates s'.pmm s''.pmm) :
    NewFrame s s'' k ↔ NewFrame s s' k ∨ NewFrame s' s'' k := by
  unfold NewFrame
  have taken := first.taken k
  have taken' := second.taken k
  cases before : s.pmm.bmTest k <;> cases middle : s'.pmm.bmTest k <;> cases after : s''.pmm.bmTest k <;> simp_all

theorem Grows.append (first : Grows cr3 s s' (NewFrame s s')) (second : Grows cr3 s' s'' (NewFrame s' s'')) :
    Grows cr3 s s'' (NewFrame s s'') :=
  (first.trans second).congr fun _ => (newFrame_trans first.pmm second.pmm).symm

end

section
variable {cr3 : Nat} {s s' : Machine}

structure SameTree (cr3 : Nat) (s s' : Machine) : Prop where
  tables : ∀ p t i, p.length ≤ 2 → userFrame s cr3 p = some t → entryAt s'.mem t i = entryAt s.mem t i
  pages : ∀ p t i, p.length = 3 → userFrame s cr3 p = some t →
    userChild s.pmm.totalFrames s'.mem 3 t i = userChild s.pmm.totalFrames s.mem 3 t i

theorem SameTree.of_entries
    (same : ∀ p t i, p.length ≤ 3 → userFrame s cr3 p = some t → entryAt s'.mem t i = entryAt s.mem t i) :
    SameTree cr3 s s' where
  tables p t i short found := same p t i (by omega) found
  pages p t i long found := by
    have entry := same p t i (by omega) found
    simp only [userChild, child, entry]

theorem UserTree.keep (tree : UserTree s cr3) (pmm : Allocates s.pmm s'.pmm) (same : SameTree cr3 s s') :
    UserTree s' cr3 ∧ ∀ p, p.length ≤ 4 → userFrame s' cr3 p = userFrame s cr3 p := by
  have walks : ∀ p, p.length ≤ 4 → userFrame s' cr3 p = userFrame s cr3 p := by
    apply walk_congr
    intro p i t short found
    rw [pmm.total]
    by_cases deep : p.length = 3
    · rw [deep]
      exact same.pages p t i deep found
    · have entry := same.tables p t i (by omega) found
      simp only [userChild, child, entry]
  refine ⟨⟨?_, ?_, ?_⟩, walks⟩
  · apply tree.distinct.mono
    exact fun q a short found => (walks q short).symm.trans found
  · intro p a short found
    rw [walks p short] at found
    obtain ⟨k, frame, nonzero, inside, taken⟩ := tree.frames p a short found
    exact ⟨k, frame, nonzero, by rw [pmm.total]; exact inside, pmm.taken k taken⟩
  · intro p t i short low found
    rw [walks p (by omega)] at found
    rw [same.tables p t i short found]
    exact tree.small p t i short low found

theorem UserTree.grows (tree : UserTree s cr3) (ok : FramesOk s') (pmm : Allocates s.pmm s'.pmm) (same : SameTree cr3 s s')
    (apart : ∀ k, k < s.pmm.totalFrames → k ≠ 0 → s.pmm.bmTest k = true → ¬ InTree s cr3 k →
      AgreeOn s'.mem s.mem (k * pageSize) pageSize) :
    Grows cr3 s s' fun _ => False := by
  obtain ⟨tree', walks⟩ := tree.keep pmm same
  constructor
  case ok => exact ok
  case tree => exact tree'
  case inTree =>
    intro k
    rw [or_false]
    constructor
    · rintro ⟨p, short, found⟩
      exact ⟨p, short, by rw [← walks p short]; exact found⟩
    · rintro ⟨p, short, found⟩
      exact ⟨p, short, by rw [walks p short]; exact found⟩
  case pmm => exact pmm
  case apart => exact fun k inside nonzero taken outside _ => apart k inside nonzero taken outside
  case upper => exact fun i _ => same.tables [] cr3 i (Nat.zero_le _) rfl

end

/-- The frame `k` comes to the place `i` of the table `t`, where `p` leads to. -/
structure Attaches (cr3 : Nat) (s s' : Machine) (p : List (Fin 512)) (t : Nat) (i : Fin 512) (k : Nat) : Prop where
  parent : userFrame s cr3 p = some t
  short : p.length ≤ 3
  low : p = [] → i.val < 256
  free : userFrame s cr3 (p ++ [i]) = none
  outside : ¬ InTree s cr3 k
  nonzero : k ≠ 0
  inside : k < s.pmm.totalFrames
  pmm : Allocates s.pmm s'.pmm
  taken : s'.pmm.bmTest k = true
  entry : child s'.mem p.length t i = some (k * pageSize)
  small : p.length ≤ 2 → entryAt s'.mem t i &&& pageHuge = 0
  /-- A new table has no entries. -/
  empty : p.length ≤ 2 → ∀ j, entryAt s'.mem (k * pageSize) j = 0
  off : ∀ q a j, q.length ≤ 3 → userFrame s cr3 q = some a → q ++ [j] ≠ p ++ [i] → entryAt s'.mem a j = entryAt s.mem a j

section
variable {cr3 t k : Nat} {s s' : Machine} {p : List (Fin 512)} {i : Fin 512}

theorem child_frame {m : Mem} {depth f : Nat} (found : child m depth t i = some f) : entryAt m t i &&& addrMask4k = f := by
  unfold child at found
  split at found
  · cases found
  · exact Option.some.inj found

theorem Attaches.child' (new : Attaches cr3 s s' p t i k) :
    userChild s'.pmm.totalFrames s'.mem p.length t i = some (k * pageSize) := by
  rw [userChild, if_neg, new.entry]
  rintro (⟨top, high⟩ | ⟨_, beyond⟩)
  · have := new.low (List.eq_nil_of_length_eq_zero top)
    omega
  · rw [child_frame new.entry, Nat.mul_div_cancel _ (by decide), new.pmm.total] at beyond
    have := new.inside
    omega

theorem Attaches.walks (new : Attaches cr3 s s' p t i k) (tree : UserTree s cr3) :
    (∀ q, q.length ≤ 4 → ¬ p ++ [i] <+: q → userFrame s' cr3 q = userFrame s cr3 q) ∧
    userFrame s' cr3 (p ++ [i]) = some (k * pageSize) ∧
    (∀ q, q.length ≤ 4 → p ++ [i] <+: q → q ≠ p ++ [i] → userFrame s' cr3 q = none) ∧
    Distinct (userChild s'.pmm.totalFrames s'.mem) cr3 4 := by
  have same : ∀ q j a, q.length < 4 → walk (userChild s.pmm.totalFrames s.mem) cr3 q = some a → q ++ [j] ≠ p ++ [i] →
      userChild s'.pmm.totalFrames s'.mem q.length a j = userChild s.pmm.totalFrames s.mem q.length a j := by
    intro q j a short found other
    have entry := new.off q a j (by omega) found other
    simp only [userChild, new.pmm.total, child, entry]
  have length : (p ++ [i]).length = p.length + 1 := by rw [List.length_append, List.length_singleton]
  have short := new.short
  have empty : (p ++ [i]).length < 4 → ∀ j, userChild s'.pmm.totalFrames s'.mem (p.length + 1) (k * pageSize) j = none := by
    intro deeper j
    have none : child s'.mem (p.length + 1) (k * pageSize) j = none := by
      rw [child, new.empty (by omega) j, if_pos (Or.inl (Nat.zero_and _))]
    rw [userChild, none, ite_self]
  obtain ⟨here, below⟩ := walk_grow same rfl new.parent new.child' empty (by omega)
  refine ⟨walk_off same, here, below, tree.distinct.grow same here below ?_⟩
  exact fun q shortQ found => new.outside ⟨q, shortQ, found⟩

theorem Attaches.before (new : Attaches cr3 s s' p t i k) {q : List (Fin 512)} (begins : p ++ [i] <+: q) :
    userFrame s cr3 q = none := by
  obtain ⟨rest, rfl⟩ := begins
  have free := new.free
  rw [userFrame] at free
  rw [userFrame, walk_append, free, Option.bind_none]

theorem Attaches.inTree (new : Attaches cr3 s s' p t i k) (tree : UserTree s cr3) (j : Nat) :
    InTree s' cr3 j ↔ InTree s cr3 j ∨ j = k := by
  obtain ⟨off, here, below, _⟩ := new.walks tree
  have short := new.short
  constructor
  · rintro ⟨q, shortQ, found⟩
    by_cases begins : p ++ [i] <+: q
    · by_cases whole : q = p ++ [i]
      · rw [whole, here] at found
        exact Or.inr (Nat.eq_of_mul_eq_mul_right (by decide) (Option.some.inj found)).symm
      · rw [below q shortQ begins whole] at found
        cases found
    · exact Or.inl ⟨q, shortQ, by rw [← off q shortQ begins]; exact found⟩
  · rintro (⟨q, shortQ, found⟩ | rfl)
    · refine ⟨q, shortQ, ?_⟩
      rw [off q shortQ]
      · exact found
      · intro begins
        rw [new.before begins] at found
        cases found
    · exact ⟨p ++ [i], by rw [List.length_append, List.length_singleton]; omega, here⟩

theorem Attaches.tree (new : Attaches cr3 s s' p t i k) (tree : UserTree s cr3) : UserTree s' cr3 := by
  obtain ⟨off, here, below, distinct⟩ := new.walks tree
  have short := new.short
  refine ⟨distinct, ?_, ?_⟩
  · intro q a shortQ found
    by_cases begins : p ++ [i] <+: q
    · by_cases whole : q = p ++ [i]
      · rw [whole, here] at found
        exact ⟨k, (Option.some.inj found).symm, new.nonzero, by rw [new.pmm.total]; exact new.inside, new.taken⟩
      · rw [below q shortQ begins whole] at found
        cases found
    · rw [off q shortQ begins] at found
      obtain ⟨j, frame, nonzero, inside, taken⟩ := tree.frames q a shortQ found
      exact ⟨j, frame, nonzero, by rw [new.pmm.total]; exact inside, new.pmm.taken j taken⟩
  · intro q a j shortQ low found
    by_cases begins : p ++ [i] <+: q
    · by_cases whole : q = p ++ [i]
      · -- the new table
        have length := congrArg List.length whole
        rw [List.length_append, List.length_singleton] at length
        rw [whole, here] at found
        cases found
        rw [new.empty (by omega), Nat.zero_and]
      · rw [below q (by omega) begins whole] at found
        cases found
    · rw [off q (by omega) begins] at found
      by_cases same : q ++ [j] = p ++ [i]
      · obtain ⟨rfl, last⟩ := List.append_inj' same rfl
        cases last
        rw [new.parent] at found
        cases found
        exact new.small shortQ
      · rw [new.off q a j (by omega) found same]
        exact tree.small q a j shortQ low found

end

section
variable (fails : Nat → Bool) {cr3 t k : Nat} {s s' : Machine} {p : List (Fin 512)} {i : Fin 512}

theorem allocFrame_exact (ok : FramesOk s) :
    ∃ s', s'.mem = s.mem ∧ FramesOk s' ∧ Allocates s.pmm s'.pmm ∧
      (allocFrame fails s = (0, s') ∧ (∀ k, ¬ NewFrame s s' k) ∨
        ∃ k, allocFrame fails s = (k * pageSize, s') ∧ k ≠ 0 ∧ k < s.pmm.totalFrames ∧ ∀ j, NewFrame s s' j ↔ j = k) := by
  have still : ∀ k, ¬ NewFrame s { s with clock := s.clock + 1 } k := not_newFrame rfl
  unfold allocFrame
  split
  · exact ⟨{ s with clock := s.clock + 1 }, rfl, ⟨ok.hint, ok.narrow, ok.zero⟩, Allocates.refl _, Or.inl ⟨rfl, still⟩⟩
  · rcases pmmAllocFrame_cases ok.hint with ⟨k, inside, clear, found⟩ | ⟨_, none⟩
    · have bits : ∀ j, (takeFrame s.pmm k).bmTest j = (decide (j = k) || s.pmm.bmTest j) := Pmm.bmTest_bmSet s.pmm k
      have nonzero : k ≠ 0 := by
        rintro rfl
        rw [ok.zero] at clear
        cases clear
      have pmm : Allocates s.pmm (takeFrame s.pmm k) := by
        refine ⟨rfl, ?_, fun Free before => takeFrame_ok before inside clear⟩
        intro j used
        rw [bits, used, Bool.or_true]
      rw [found]
      refine ⟨{ s with pmm := takeFrame s.pmm k, clock := s.clock + 1 }, rfl, ⟨inside, ok.narrow, pmm.taken 0 ok.zero⟩, pmm,
        Or.inr ⟨k, rfl, nonzero, inside, ?_⟩⟩
      intro j
      rw [NewFrame, bits]
      constructor
      · rintro ⟨before, after⟩
        rw [before, Bool.or_false] at after
        exact of_decide_eq_true after
      · rintro rfl
        exact ⟨clear, by simp⟩
    · rw [none]
      exact ⟨{ s with clock := s.clock + 1 }, rfl, ⟨ok.hint, ok.narrow, ok.zero⟩, Allocates.refl _, Or.inl ⟨rfl, still⟩⟩

theorem FramesOk.isFrame (ok : FramesOk s) {k : Nat} (inside : k < s.pmm.totalFrames) : IsFrame (k * pageSize) := by
  rw [isFrame_iff]
  refine ⟨Nat.dvd_mul_left _ _, Nat.lt_of_lt_of_le ?_ ok.narrow⟩
  exact Nat.mul_lt_mul_of_pos_right inside (by decide)

theorem UserTree.aligned (tree : UserTree s cr3) {a : Nat} (short : p.length ≤ 4) (found : userFrame s cr3 p = some a) :
    pageSize ∣ a := by
  obtain ⟨k, rfl, _⟩ := tree.frames p a short found
  exact Nat.dvd_mul_left _ _

theorem UserTree.outside (tree : UserTree s cr3) {k : Nat} (clear : s.pmm.bmTest k = false) : ¬ InTree s cr3 k := by
  rintro ⟨p, short, found⟩
  obtain ⟨j, same, _, _, taken⟩ := tree.frames p _ short found
  rw [Nat.eq_of_mul_eq_mul_right (by decide) same, taken] at clear
  cases clear

theorem userFrame_snoc (parent : userFrame s cr3 p = some t) :
    userFrame s cr3 (p ++ [i]) = userChild s.pmm.totalFrames s.mem p.length t i := by
  rw [userFrame] at parent ⊢
  rw [walk_snoc, parent, Option.bind_some]

theorem userChild_missing {total depth : Nat} {m : Mem} (missing : entryAt m t i &&& pagePresent = 0) :
    userChild total m depth t i = none := by
  rw [userChild, child, if_pos (Or.inl missing), ite_self]

theorem addTable_attaches {flags : Nat} (ok : FramesOk s) (tree : UserTree s cr3) (flagged : TableFlags flags)
    (parent : userFrame s cr3 p = some t) (short : p.length ≤ 2) (low : p = [] → i.val < 256)
    (missing : entryAt s.mem t i &&& pagePresent = 0) (nonzero : k ≠ 0) (inside : k < s.pmm.totalFrames)
    (pmm : Allocates s.pmm s'.pmm) (new : NewFrame s s' k) (mem : s'.mem = addTable s.mem t i (k * pageSize) flags) :
    Attaches cr3 s s' p t i k := by
  have frame := ok.isFrame inside
  have table := tree.aligned (by omega) parent
  have outside := tree.outside new.1
  have other : ∀ q a, q.length ≤ 4 → userFrame s cr3 q = some a → a ≠ k * pageSize := by
    rintro q a shortQ found rfl
    exact outside ⟨q, shortQ, found⟩
  constructor
  case parent => exact parent
  case short => omega
  case low => exact low
  case free => rw [userFrame_snoc parent, userChild_missing missing]
  case outside => exact outside
  case nonzero => exact nonzero
  case inside => exact inside
  case pmm => exact pmm
  case taken => exact new.2
  case entry =>
    rw [mem]
    exact addTable_child frame flagged
  case small =>
    intro _
    rw [mem, addTable, entryAt_setEntry (entry_lt frame flagged.word), frame_low frame (by decide)]
    exact flagged.notHuge
  case empty =>
    intro _ j
    rw [mem]
    exact addTable_empty (frame_dvd frame) table (other p t (by omega) parent).symm
  case off =>
    intro q a j shortQ found off
    rw [mem]
    apply addTable_entry_of_ne (frame_dvd frame) table (tree.aligned (by omega) found) (other q a (by omega) found)
    by_cases same : a = t
    · right
      rintro rfl
      rw [same] at found
      exact off (by rw [tree.distinct q p t (by omega) (by omega) found parent])
    · exact Or.inl same

def SamePages (cr3 : Nat) (s s' : Machine) : Prop :=
  ∀ q, q.length = 4 → userFrame s' cr3 q = none ∨ userFrame s' cr3 q = userFrame s cr3 q

theorem Attaches.grows (new : Attaches cr3 s s' p t i k) (tree : UserTree s cr3) (ok : FramesOk s')
    (apart : ∀ j, j < s.pmm.totalFrames → j ≠ 0 → s.pmm.bmTest j = true → ¬ InTree s cr3 j → j ≠ k →
      AgreeOn s'.mem s.mem (j * pageSize) pageSize) : Grows cr3 s s' (· = k) := by
  constructor
  case ok => exact ok
  case tree => exact new.tree tree
  case inTree => exact new.inTree tree
  case pmm => exact new.pmm
  case apart => exact apart
  case upper =>
    intro j high
    apply new.off [] cr3 j (Nat.zero_le _) rfl
    intro same
    obtain ⟨top, last⟩ := List.append_inj' same rfl
    cases last
    have := new.low top.symm
    omega

theorem UserTree.still (tree : UserTree s cr3) (ok : FramesOk s') (mem : s'.mem = s.mem) (pmm : Allocates s.pmm s'.pmm)
    (none : ∀ k, ¬ NewFrame s s' k) : Grows cr3 s s' (NewFrame s s') ∧ SamePages cr3 s s' := by
  have same : SameTree cr3 s s' := by
    apply SameTree.of_entries
    rw [mem]
    exact fun _ _ _ _ _ => rfl
  constructor
  · apply (tree.grows ok pmm same _).congr
    · exact fun k => ⟨False.elim, none k⟩
    · rw [mem]
      exact fun _ _ _ _ _ _ _ _ => rfl
  · intro q long
    exact Or.inr ((tree.keep pmm same).2 q (Nat.le_of_eq long))

theorem tableBehind_some {r : Option Nat} (small : entryAt s.mem t i &&& pageHuge = 0)
    (run : tableBehind s t i = .ok (r, s')) : r = some (entryAt s.mem t i &&& addrMask4k) ∧ s' = s := by
  rw [tableBehind, if_neg (fun huge => huge small)] at run
  cases run
  exact ⟨rfl, rfl⟩

theorem getOrCreateTable_grows {flags : Nat} {r : Option Nat} (ok : FramesOk s) (tree : UserTree s cr3)
    (flagged : TableFlags flags) (parent : userFrame s cr3 p = some t) (short : p.length ≤ 2) (low : p = [] → i.val < 256)
    (run : getOrCreateTable fails s t i flags = .ok (r, s')) :
    Grows cr3 s s' (NewFrame s s') ∧ SamePages cr3 s s' ∧ ∀ t', r = some t' → userFrame s' cr3 (p ++ [i]) = some t' := by
  unfold getOrCreateTable at run
  split at run
  · rename_i missing
    obtain ⟨s₁, mem, ok₁, pmm, result⟩ := allocFrame_exact fails ok
    rcases result with ⟨failed, none⟩ | ⟨k, got, nonzero, inside, new⟩
    · rw [failed] at run
      cases run
      obtain ⟨grows, pages⟩ := tree.still ok₁ mem pmm none
      exact ⟨grows, pages, nofun⟩
    · have frame := ok.isFrame inside
      rw [got] at run
      dsimp only at run
      rw [if_neg (Nat.mul_ne_zero nonzero (by decide)), mem, ← addTable] at run
      have small : entryAt (addTable s.mem t i (k * pageSize) flags) t i &&& pageHuge = 0 := by
        rw [addTable, entryAt_setEntry (entry_lt frame flagged.word), frame_low frame (by decide)]
        exact flagged.notHuge
      obtain ⟨found, rfl⟩ :=
        tableBehind_some (s := { s₁ with mem := addTable s.mem t i (k * pageSize) flags }) small run
      have attaches : Attaches cr3 s { s₁ with mem := addTable s.mem t i (k * pageSize) flags } p t i k :=
        addTable_attaches ok tree flagged parent short low missing nonzero inside pmm ((new k).mpr rfl) rfl
      obtain ⟨off, here, below, _⟩ := attaches.walks tree
      refine ⟨?_, ?_, ?_⟩
      · apply (attaches.grows tree ⟨ok₁.hint, ok₁.narrow, ok₁.zero⟩ _).congr
        · exact fun j => (new j).symm
        · intro j _ _ _ outside other
          apply addTable_agree (frame_dvd frame) (tree.aligned (by omega) parent)
          · exact fun same => other (Nat.eq_of_mul_eq_mul_right (by decide) same)
          · rintro rfl
            exact outside ⟨p, by omega, parent⟩
      · intro q long
        by_cases begins : p ++ [i] <+: q
        · refine Or.inl (below q (Nat.le_of_eq long) begins ?_)
          rintro rfl
          rw [List.length_append, List.length_singleton] at long
          omega
        · exact Or.inr (off q (Nat.le_of_eq long) begins)
      · intro t' same
        rw [found, addTable, entryAt_setEntry (entry_lt frame flagged.word), frame_or frame flagged.noAddress] at same
        rw [here, same]
  · rename_i present
    have small := tree.small p t i short low parent
    obtain ⟨found, rfl⟩ := tableBehind_some small run
    obtain ⟨grows, pages⟩ := tree.still ok rfl (Allocates.refl _) (not_newFrame rfl)
    refine ⟨grows, pages, ?_⟩
    intro t' same
    rw [userFrame_snoc parent, userChild, if_neg, child, if_neg, ← same, found]
    · rintro (missing | ⟨_, huge⟩)
      · exact present missing
      · exact huge small
    · rintro (⟨top, high⟩ | ⟨deep, _⟩)
      · have := low (List.eq_nil_of_length_eq_zero top)
        omega
      · omega

theorem SamePages.trans {s'' : Machine} (first : SamePages cr3 s s') (second : SamePages cr3 s' s'') :
    SamePages cr3 s s'' := by
  intro q long
  rcases second q long with none | same
  · exact Or.inl none
  · rw [same]
    exact first q long

theorem getOrCreateTables_grows {flags : Nat} {rest : List (Fin 512)} {r : Option Nat} (ok : FramesOk s)
    (tree : UserTree s cr3) (flagged : TableFlags flags) (parent : userFrame s cr3 p = some t)
    (inside : (p ++ rest).length ≤ 3) (low : ∀ i ∈ (p ++ rest).head?, i.val < 256)
    (run : getOrCreateTables fails flags s t rest = .ok (r, s')) :
    Grows cr3 s s' (NewFrame s s') ∧ SamePages cr3 s s' ∧ ∀ t', r = some t' → userFrame s' cr3 (p ++ rest) = some t' := by
  induction rest generalizing s p t with
  | nil =>
    cases run
    obtain ⟨grows, pages⟩ := tree.still ok rfl (Allocates.refl _) (not_newFrame rfl)
    refine ⟨grows, pages, ?_⟩
    intro t' found
    cases found
    rw [List.append_nil]
    exact parent
  | cons i rest ih =>
    have short : p.length ≤ 2 := by
      simp only [List.length_append, List.length_cons] at inside
      omega
    have lowI : p = [] → i.val < 256 := by
      rintro rfl
      exact low i rfl
    rw [List.append_cons] at inside low ⊢
    rw [getOrCreateTables] at run
    split at run
    · cases run
    · rename_i got
      cases run
      obtain ⟨grows, pages, _⟩ := getOrCreateTable_grows fails ok tree flagged parent short lowI got
      exact ⟨grows, pages, by rintro t' ⟨⟩⟩
    · rename_i next s₁ got
      obtain ⟨grows, pages, found⟩ := getOrCreateTable_grows fails ok tree flagged parent short lowI got
      obtain ⟨grows', pages', found'⟩ := ih grows.ok grows.tree (found next rfl) inside low run
      exact ⟨grows.append grows', pages.trans pages', found'⟩

end

end RexOs.Mm
