import RexOs.Library.Radix
import RexOs.Mm.PmmInvariant
import RexOs.Mm.Vmm

/-! The tree of page tables.

A path of up to three indices leads from the PML4 to a table. In a well-formed tree
different paths lead to different frames, and no frame of the tree is free in the
bitmap; so a change of one entry is seen by the walks through that entry only.
-/

set_option autoImplicit false

namespace RexOs.Mm

open RexOs.Library

theorem and_addrMask4k (e : Nat) : e &&& addrMask4k = e / pageSize % 2 ^ 40 * pageSize := by
  have mask : addrMask4k = (2 ^ 40 - 1) * 2 ^ 12 := by decide
  rw [mask, and_field]
  rfl

def IsFrame (phys : Nat) : Prop := phys &&& addrMask4k = phys

theorem isFrame_iff {phys : Nat} : IsFrame phys ↔ pageSize ∣ phys ∧ phys < 2 ^ 52 := by
  rw [IsFrame, and_addrMask4k]
  simp only [pageSize]
  omega

theorem isFrame_and (e : Nat) : IsFrame (e &&& addrMask4k) := by
  rw [IsFrame, Nat.and_assoc, Nat.and_self]

theorem frame_dvd {phys : Nat} (frame : IsFrame phys) : pageSize ∣ phys := (isFrame_iff.mp frame).1

theorem frame_or {phys flags : Nat} (frame : IsFrame phys) (flagged : flags &&& addrMask4k = 0) :
    (phys ||| flags) &&& addrMask4k = phys := by
  rw [Nat.and_or_distrib_right, flagged, Nat.or_zero]
  exact frame

theorem frame_low {phys bit : Nat} (frame : IsFrame phys) (low : addrMask4k &&& bit = 0) (flags : Nat) :
    (phys ||| flags) &&& bit = flags &&& bit := by
  have none : phys &&& bit = 0 := by
    rw [← frame, Nat.and_assoc, low, Nat.and_zero]
  rw [Nat.and_or_distrib_right, none, Nat.zero_or]

section
variable {m m' : Mem} {t t' f e : Nat} {i j : Fin 512}

theorem entryAt_setEntry (fits : e < 2 ^ 64) : entryAt (setEntry m t i e) t i = e :=
  load_store (Nat.lt_of_lt_of_le fits (by decide))

theorem entryAt_setEntry_of_ne (aligned : pageSize ∣ t) (aligned' : pageSize ∣ t') (other : t' ≠ t ∨ j ≠ i) :
    entryAt (setEntry m t i e) t' j = entryAt m t' j := by
  apply load_store_apart
  have := i.isLt
  have := j.isLt
  obtain ⟨k, rfl⟩ := aligned
  obtain ⟨k', rfl⟩ := aligned'
  simp only [pageSize] at *
  rcases other with table | index
  · have : k' ≠ k := fun same => table (by rw [same])
    omega
  · have : (j : Nat) ≠ i := fun same => index (Fin.ext same)
    by_cases same : k' = k
    · omega
    · omega

theorem entryAt_fill (i : Fin 512) : entryAt (fill m f pageSize 0) f i = 0 := by
  apply load_fill_zero
  · exact Nat.le_add_right _ _
  · have := i.isLt
    simp only [pageSize]
    omega

theorem entryAt_off (changed : AgreeOff m' m f pageSize) (aligned : pageSize ∣ f) (aligned' : pageSize ∣ t') (other : t' ≠ f) :
    entryAt m' t' j = entryAt m t' j := by
  apply load_congr
  intro x low high
  apply changed
  have := j.isLt
  obtain ⟨k, rfl⟩ := aligned
  obtain ⟨k', rfl⟩ := aligned'
  have : k' ≠ k := fun same => other (by rw [same])
  simp only [pageSize] at *
  omega

theorem entryAt_fill_of_ne (aligned : pageSize ∣ f) (aligned' : pageSize ∣ t') (other : t' ≠ f) :
    entryAt (fill m f pageSize 0) t' j = entryAt m t' j :=
  entryAt_off (fill_agreeOff m f pageSize 0) aligned aligned' other

end

/-- The table below `t` at index `i`; a huge page of a page directory is none. -/
def child (m : Mem) (depth t : Nat) (i : Fin 512) : Option Nat :=
  if entryAt m t i &&& pagePresent = 0 ∨ depth = 2 ∧ entryAt m t i &&& pageHuge ≠ 0 then none
  else some (entryAt m t i &&& addrMask4k)

def tableOf (m : Mem) (pml4 : Nat) (path : List (Fin 512)) : Option Nat := walk (child m) pml4 path

def pathOf (virt : Nat) : List (Fin 512) := [pml4Index virt, pdptIndex virt, pdIndex virt]

structure TreeOk (s : Machine) (pml4 : Nat) : Prop where
  root : pageSize ∣ pml4
  distinct : Distinct (child s.mem) pml4 3
  free : ∀ i, i < s.pmm.totalFrames → s.pmm.bmTest i = false → ∀ p, p.length ≤ 3 → tableOf s.mem pml4 p ≠ some (i * pageSize)
  hint : s.pmm.searchHint ≤ s.pmm.totalFrames
  narrow : s.pmm.totalFrames * pageSize ≤ 2 ^ 52

section
variable {m m' : Mem} {pml4 t : Nat} {i : Fin 512} {p : List (Fin 512)}

theorem child_congr {depth : Nat} (same : entryAt m' t i = entryAt m t i) : child m' depth t i = child m depth t i := by
  simp only [child, same]

theorem child_aligned {depth f : Nat} (found : child m depth t i = some f) : pageSize ∣ f := by
  unfold child at found
  split at found
  · cases found
  · cases found
    exact frame_dvd (isFrame_and _)

theorem tableOf_aligned (root : pageSize ∣ pml4) (found : tableOf m pml4 p = some t) : pageSize ∣ t := by
  rcases List.eq_nil_or_concat p with rfl | ⟨q, i, rfl⟩
  · cases found
    exact root
  · rw [List.concat_eq_append, tableOf, walk_snoc] at found
    obtain ⟨_, _, below⟩ := Option.bind_eq_some_iff.mp found
    exact child_aligned below

theorem tableOf_empty (empty : ∀ i, entryAt m pml4 i = 0) (found : tableOf m pml4 p = some t) : p = [] ∧ t = pml4 := by
  cases p with
  | nil =>
    cases found
    exact ⟨rfl, rfl⟩
  | cons i p =>
    simp only [tableOf, walk, walkFrom, child, empty, Nat.zero_and, true_or, if_true, Option.bind_none] at found
    cases found

theorem TreeOk.empty {s : Machine} {k : Nat} (empty : ∀ i, entryAt s.mem (k * pageSize) i = 0)
    (used : s.pmm.bmTest k = true) (hint : s.pmm.searchHint ≤ s.pmm.totalFrames)
    (narrow : s.pmm.totalFrames * pageSize ≤ 2 ^ 52) : TreeOk s (k * pageSize) where
  root := Nat.dvd_mul_left _ _
  distinct p q a _ _ foundP foundQ := by
    rw [(tableOf_empty empty foundP).1, (tableOf_empty empty foundQ).1]
  free i _ clear p _ found := by
    have same := Nat.eq_of_mul_eq_mul_right (by decide) (tableOf_empty empty found).2
    rw [same, used] at clear
    cases clear
  hint := hint
  narrow := narrow

theorem prefix_pathOf {virt : Nat} (begins : p ++ [i] <+: pathOf virt) :
    p = [] ∧ i = pml4Index virt ∨ p = [pml4Index virt] ∧ i = pdptIndex virt ∨
      p = [pml4Index virt, pdptIndex virt] ∧ i = pdIndex virt := by
  unfold pathOf at begins
  rcases p with _ | ⟨a, _ | ⟨b, _ | ⟨c, rest⟩⟩⟩ <;> simp_all [List.cons_prefix_cons]

theorem tableOf_pd (m : Mem) (pml4 virt : Nat) :
    (tableAt m pml4 (pml4Index virt)).bind (fun pdpt => tableAt m pdpt (pdptIndex virt)) =
      tableOf m pml4 [pml4Index virt, pdptIndex virt] := by
  have same : ∀ depth t i, depth < 2 → child m depth t i = tableAt m t i := by
    intro depth t i upper
    have other : depth ≠ 2 := Nat.ne_of_lt upper
    simp only [child, tableAt, other, false_and, or_false]
  simp only [tableOf, walk, walkFrom, same 0 _ _ (by decide), same 1 _ _ (by decide)]
  congr 1
  funext pdpt
  cases tableAt m pdpt (pdptIndex virt) <;> rfl

theorem translate_of_table {virt : Nat} (found : tableOf m pml4 (pathOf virt) = some t) :
    vmmTranslatePml4 m pml4 virt =
      if entryAt m t (ptIndex virt) &&& pagePresent = 0 then 0
      else entryAt m t (ptIndex virt) &&& addrMask4k ||| virt &&& pageOff4k := by
  have split : pathOf virt = [pml4Index virt, pdptIndex virt] ++ [pdIndex virt] := rfl
  rw [split, tableOf, walk_snoc] at found
  obtain ⟨pd, above, below⟩ := Option.bind_eq_some_iff.mp found
  unfold child at below
  split at below
  · cases below
  · rename_i plain
    obtain ⟨present, small⟩ := not_or.mp plain
    have notHuge : ¬ entryAt m pd (pdIndex virt) &&& pageHuge ≠ 0 := fun huge => small ⟨rfl, huge⟩
    cases below
    rw [vmmTranslatePml4, tableOf_pd, tableOf, above]
    simp only [present, notHuge, if_false]

theorem translate_missing {virt : Nat} (begins : p ++ [i] <+: pathOf virt) (found : tableOf m pml4 p = some t)
    (missing : entryAt m t i &&& pagePresent = 0) : vmmTranslatePml4 m pml4 virt = 0 := by
  have none : ∀ depth, child m depth t i = none := fun depth => if_pos (Or.inl missing)
  rw [vmmTranslatePml4, tableOf_pd]
  rcases prefix_pathOf begins with ⟨rfl, rfl⟩ | ⟨rfl, rfl⟩ | ⟨rfl, rfl⟩
  · cases found
    simp only [tableOf, walk, walkFrom, none, Option.bind_none]
  · have split : [pml4Index virt, pdptIndex virt] = [pml4Index virt] ++ [pdptIndex virt] := rfl
    rw [split, tableOf, walk_snoc, ← tableOf, found, Option.bind_some, none]
  · rw [found]
    simp only [missing, if_true]

theorem translate_congr {virt : Nat}
    (above : tableOf m' pml4 [pml4Index virt, pdptIndex virt] = tableOf m pml4 [pml4Index virt, pdptIndex virt])
    (pd : ∀ t, tableOf m pml4 [pml4Index virt, pdptIndex virt] = some t →
      entryAt m' t (pdIndex virt) = entryAt m t (pdIndex virt))
    (pt : ∀ t, tableOf m pml4 (pathOf virt) = some t → entryAt m' t (ptIndex virt) = entryAt m t (ptIndex virt)) :
    vmmTranslatePml4 m' pml4 virt = vmmTranslatePml4 m pml4 virt := by
  rw [vmmTranslatePml4, vmmTranslatePml4, tableOf_pd, tableOf_pd, above]
  cases found : tableOf m pml4 [pml4Index virt, pdptIndex virt] with
  | none => rfl
  | some t =>
    simp only [pd t found]
    split
    · rfl
    split
    · rfl
    · rename_i present small
      -- the entry leads to the page table of the address
      have table : tableOf m pml4 (pathOf virt) = some (entryAt m t (pdIndex virt) &&& addrMask4k) := by
        have split : pathOf virt = [pml4Index virt, pdptIndex virt] ++ [pdIndex virt] := rfl
        rw [split, tableOf, walk_snoc, ← tableOf, found, Option.bind_some, child,
          if_neg (not_or.mpr ⟨present, fun huge => small huge.2⟩)]
      rw [pt _ table]

end

structure TableFlags (flags : Nat) : Prop where
  present : flags &&& pagePresent ≠ 0
  notHuge : flags &&& pageHuge = 0
  noAddress : flags &&& addrMask4k = 0
  word : flags < 2 ^ 64

theorem entry_lt {phys flags : Nat} (frame : IsFrame phys) (word : flags < 2 ^ 64) : phys ||| flags < 2 ^ 64 :=
  Nat.or_lt_two_pow (Nat.lt_trans (isFrame_iff.mp frame).2 (by decide)) word

/-- The frame `f` is cleared and put into the entry `i` of the table `t`. -/
def addTable (m : Mem) (t : Nat) (i : Fin 512) (f flags : Nat) : Mem := setEntry (fill m f pageSize 0) t i (f ||| flags)

section
variable {m : Mem} {t f flags a : Nat} {i j : Fin 512}

theorem addTable_entry_of_ne (frame : pageSize ∣ f) (table : pageSize ∣ t) (aligned : pageSize ∣ a) (other : a ≠ f)
    (off : a ≠ t ∨ j ≠ i) : entryAt (addTable m t i f flags) a j = entryAt m a j := by
  rw [addTable, entryAt_setEntry_of_ne table aligned off, entryAt_fill_of_ne frame aligned other]

theorem addTable_empty (frame : pageSize ∣ f) (table : pageSize ∣ t) (other : f ≠ t) :
    entryAt (addTable m t i f flags) f j = 0 := by
  rw [addTable, entryAt_setEntry_of_ne table frame (Or.inl other), entryAt_fill]

theorem addTable_agree {k : Nat} (frame : pageSize ∣ f) (table : pageSize ∣ t) (other : k * pageSize ≠ f)
    (noTable : k * pageSize ≠ t) : AgreeOn (addTable m t i f flags) m (k * pageSize) pageSize := by
  intro x low high
  obtain ⟨a, rfl⟩ := frame
  obtain ⟨b, rfl⟩ := table
  have index := i.isLt
  have apart : k ≠ a := fun same => other (by rw [same, Nat.mul_comm])
  have apart' : k ≠ b := fun same => noTable (by rw [same, Nat.mul_comm])
  simp only [pageSize] at *
  rw [addTable, setEntry, store_outside _ _ _ _ (by omega), fill, if_neg (by simp only [pageSize]; omega)]

theorem addTable_child {depth : Nat} (frame : IsFrame f) (flagged : TableFlags flags) :
    child (addTable m t i f flags) depth t i = some f := by
  have entry : entryAt (addTable m t i f flags) t i = f ||| flags := entryAt_setEntry (entry_lt frame flagged.word)
  have present := frame_low frame (show addrMask4k &&& pagePresent = 0 by decide) flags
  have huge := frame_low frame (show addrMask4k &&& pageHuge = 0 by decide) flags
  rw [child, entry, present, huge, flagged.notHuge, frame_or frame flagged.noAddress, if_neg]
  rintro (missing | ⟨_, absent⟩)
  · exact flagged.present missing
  · exact absent rfl

end

/-- The frame `f` is no table yet, and `t` is the table that `p` leads to. -/
structure NewTable (m : Mem) (pml4 : Nat) (p : List (Fin 512)) (t f : Nat) : Prop where
  root : pageSize ∣ pml4
  distinct : Distinct (child m) pml4 3
  parent : tableOf m pml4 p = some t
  short : p.length ≤ 2
  frame : IsFrame f
  unused : ∀ q, q.length ≤ 3 → tableOf m pml4 q ≠ some f

section
variable {m : Mem} {pml4 t f flags : Nat} {i : Fin 512} {p : List (Fin 512)}

theorem NewTable.off (new : NewTable m pml4 p t f) {q : List (Fin 512)} {j : Fin 512} {a : Nat} (inside : q.length ≤ 3)
    (found : tableOf m pml4 q = some a) (off : q ++ [j] ≠ p ++ [i]) :
    entryAt (addTable m t i f flags) a j = entryAt m a j := by
  have aligned := tableOf_aligned new.root found
  have short := new.short
  have other : a ≠ f := by
    rintro rfl
    exact new.unused q inside found
  apply addTable_entry_of_ne (frame_dvd new.frame) (tableOf_aligned new.root new.parent) aligned other
  by_cases same : a = t
  · right
    rintro rfl
    subst same
    exact off (by rw [new.distinct q p a inside (by omega) found new.parent])
  · exact Or.inl same

theorem NewTable.empty (new : NewTable m pml4 p t f) (j : Fin 512) : entryAt (addTable m t i f flags) f j = 0 := by
  have short := new.short
  have other : f ≠ t := by
    rintro rfl
    exact new.unused p (by omega) new.parent
  exact addTable_empty (frame_dvd new.frame) (tableOf_aligned new.root new.parent) other

theorem NewTable.entry (new : NewTable m pml4 p t f) (flagged : TableFlags flags) :
    entryAt (addTable m t i f flags) t i = f ||| flags := entryAt_setEntry (entry_lt new.frame flagged.word)

theorem NewTable.walks (new : NewTable m pml4 p t f) (flagged : TableFlags flags) :
    (∀ q, q.length ≤ 3 → ¬ p ++ [i] <+: q → tableOf (addTable m t i f flags) pml4 q = tableOf m pml4 q) ∧
    tableOf (addTable m t i f flags) pml4 (p ++ [i]) = some f ∧
    (∀ q, q.length ≤ 3 → p ++ [i] <+: q → q ≠ p ++ [i] → tableOf (addTable m t i f flags) pml4 q = none) ∧
    Distinct (child (addTable m t i f flags)) pml4 3 := by
  have same : ∀ q j a, q.length < 3 → walk (child m) pml4 q = some a → q ++ [j] ≠ p ++ [i] →
      child (addTable m t i f flags) q.length a j = child m q.length a j := by
    intro q j a inside found off
    apply child_congr
    exact new.off (by omega) found off
  have empty : ∀ j, child (addTable m t i f flags) (p.length + 1) f j = none := by
    intro j
    rw [child, new.empty j, if_pos (Or.inl (Nat.zero_and _))]
  have inside : (p ++ [i]).length ≤ 3 := by
    have short := new.short
    rw [List.length_append, List.length_singleton]
    omega
  obtain ⟨here, below⟩ := walk_grow same rfl new.parent (addTable_child new.frame flagged) (fun _ => empty) inside
  exact ⟨walk_off same, here, below, new.distinct.grow same here below new.unused⟩

theorem pathOf_length (virt : Nat) : (pathOf virt).length = 3 := rfl

theorem NewTable.translate (new : NewTable m pml4 p t f) (flagged : TableFlags flags)
    (missing : entryAt m t i &&& pagePresent = 0) (virt : Nat) :
    vmmTranslatePml4 (addTable m t i f flags) pml4 virt = vmmTranslatePml4 m pml4 virt := by
  obtain ⟨off, here, _, _⟩ := new.walks (i := i) flagged
  have upper : [pml4Index virt, pdptIndex virt].length ≤ 3 := Nat.le_succ 2
  by_cases begins : p ++ [i] <+: pathOf virt
  · rw [translate_missing begins new.parent missing]
    by_cases whole : p ++ [i] = pathOf virt
    · rw [whole] at here
      rw [translate_of_table here, new.empty, if_pos (Nat.zero_and _)]
    · -- the path goes on below the new table
      obtain ⟨rest, split⟩ := begins
      cases rest with
      | nil => exact absurd ((List.append_nil _).symm.trans split) whole
      | cons j rest =>
        refine translate_missing ⟨rest, ?_⟩ here (by rw [new.empty j]; exact Nat.zero_and _)
        rw [← split, List.append_assoc]
        rfl
  · apply translate_congr (off _ upper fun first => begins (first.trans ⟨[pdIndex virt], rfl⟩))
    · intro a found
      apply new.off upper found
      intro same
      exact begins (by rw [← same]; exact List.prefix_refl _)
    · intro a found
      apply new.off (Nat.le_of_eq (pathOf_length virt)) found
      intro same
      have short := new.short
      have := congrArg List.length same
      simp only [List.length_append, pathOf_length, List.length_singleton] at this
      omega

end

structure Allocates (s s' : Pmm) : Prop where
  total : s'.totalFrames = s.totalFrames
  taken : ∀ k, s.bmTest k = true → s'.bmTest k = true
  ok : ∀ Free, s.Ok Free → s'.Ok Free

theorem Allocates.refl (s : Pmm) : Allocates s s := ⟨rfl, fun _ used => used, fun _ ok => ok⟩

theorem Allocates.trans {s s' s'' : Pmm} (first : Allocates s s') (second : Allocates s' s'') : Allocates s s'' where
  total := second.total.trans first.total
  taken k used := second.taken k (first.taken k used)
  ok Free before := second.ok Free (first.ok Free before)

structure Extends (pml4 : Nat) (s s' : Machine) : Prop where
  tables : ∀ p t, p.length ≤ 3 → tableOf s.mem pml4 p = some t → tableOf s'.mem pml4 p = some t
  huge : ∀ p t i, p.length ≤ 2 → tableOf s'.mem pml4 p = some t → entryAt s'.mem t i &&& pageHuge ≠ 0 →
    tableOf s.mem pml4 p = some t ∧ entryAt s.mem t i = entryAt s'.mem t i
  translate : ∀ virt, vmmTranslatePml4 s'.mem pml4 virt = vmmTranslatePml4 s.mem pml4 virt
  pmm : Allocates s.pmm s'.pmm
  /-- A frame that is taken and no table stays so, with what is in it. -/
  apart : ∀ k, s.pmm.bmTest k = true → (∀ q, q.length ≤ 3 → tableOf s.mem pml4 q ≠ some (k * pageSize)) →
    (∀ q, q.length ≤ 3 → tableOf s'.mem pml4 q ≠ some (k * pageSize)) ∧
      AgreeOn s'.mem s.mem (k * pageSize) pageSize

theorem Extends.refl (pml4 : Nat) {s s' : Machine} (mem : s'.mem = s.mem) (pmm : Allocates s.pmm s'.pmm) :
    Extends pml4 s s' := by
  constructor
  case tables => rw [mem]; exact fun _ _ _ found => found
  case huge => rw [mem]; exact fun _ _ _ _ found _ => ⟨found, rfl⟩
  case translate => rw [mem]; exact fun _ => rfl
  case pmm => exact pmm
  case apart => rw [mem]; exact fun _ _ other => ⟨other, fun _ _ _ => rfl⟩

theorem Extends.trans {pml4 : Nat} {s s' s'' : Machine} (first : Extends pml4 s s') (second : Extends pml4 s' s'') :
    Extends pml4 s s'' where
  tables p t inside found := second.tables p t inside (first.tables p t inside found)
  huge p t i inside found big := by
    obtain ⟨found', same'⟩ := second.huge p t i inside found big
    obtain ⟨found'', same''⟩ := first.huge p t i inside found' (by rw [same']; exact big)
    exact ⟨found'', same''.trans same'⟩
  translate virt := (second.translate virt).trans (first.translate virt)
  pmm := first.pmm.trans second.pmm
  apart k used other := by
    obtain ⟨other', agree⟩ := first.apart k used other
    obtain ⟨other'', agree'⟩ := second.apart k (first.pmm.taken k used) other'
    exact ⟨other'', fun x low high => (agree' x low high).trans (agree x low high)⟩

section
variable (fails : Nat → Bool) {s : Machine} {m : Mem} {pml4 t f flags : Nat} {i : Fin 512} {p : List (Fin 512)}

theorem allocFrame_cases (hint : s.pmm.searchHint ≤ s.pmm.totalFrames) :
    ∃ s', s'.mem = s.mem ∧ Allocates s.pmm s'.pmm ∧ s'.pmm.searchHint ≤ s'.pmm.totalFrames ∧
      (allocFrame fails s = (0, s') ∨
        ∃ k, allocFrame fails s = (k * pageSize, s') ∧ k < s.pmm.totalFrames ∧ s.pmm.bmTest k = false ∧
          s'.pmm.bmTest k = true) := by
  unfold allocFrame
  split
  · exact ⟨{ s with clock := s.clock + 1 }, rfl, Allocates.refl _, hint, Or.inl rfl⟩
  · rcases pmmAllocFrame_cases hint with ⟨k, inside, clear, found⟩ | ⟨_, none⟩
    · have bits : ∀ j, (takeFrame s.pmm k).bmTest j = (decide (j = k) || s.pmm.bmTest j) := Pmm.bmTest_bmSet s.pmm k
      have pmm : Allocates s.pmm (takeFrame s.pmm k) := by
        refine ⟨rfl, ?_, fun Free before => takeFrame_ok before inside clear⟩
        intro j used
        rw [bits, used, Bool.or_true]
      rw [found]
      refine ⟨{ s with pmm := takeFrame s.pmm k, clock := s.clock + 1 }, rfl, pmm, inside, Or.inr ⟨k, rfl, inside, clear, ?_⟩⟩
      rw [bits]
      simp
    · rw [none]
      exact ⟨{ s with clock := s.clock + 1 }, rfl, Allocates.refl _, hint, Or.inl rfl⟩

theorem Allocates.clear {s s' : Pmm} (pmm : Allocates s s') {k : Nat} (clear : s'.bmTest k = false) : s.bmTest k = false := by
  by_contra used
  rw [pmm.taken k (Bool.eq_true_of_not_eq_false used)] at clear
  cases clear

theorem TreeOk.alloc {s' : Machine} (ok : TreeOk s pml4) (mem : s'.mem = s.mem) (pmm : Allocates s.pmm s'.pmm)
    (hint : s'.pmm.searchHint ≤ s'.pmm.totalFrames) : TreeOk s' pml4 := by
  refine ⟨ok.root, ?_, ?_, hint, ?_⟩
  · rw [mem]
    exact ok.distinct
  · rw [mem, pmm.total]
    exact fun i inside clear => ok.free i inside (pmm.clear clear)
  · rw [pmm.total]
    exact ok.narrow

theorem TreeOk.isFrame (ok : TreeOk s pml4) {k : Nat} (inside : k < s.pmm.totalFrames) : IsFrame (k * pageSize) := by
  rw [isFrame_iff]
  refine ⟨Nat.dvd_mul_left _ _, Nat.lt_of_lt_of_le ?_ ok.narrow⟩
  exact Nat.mul_lt_mul_of_pos_right inside (by decide)

theorem NewTable.treeOk {s : Machine} {k : Nat} (ok : TreeOk s pml4) (new : NewTable s.mem pml4 p t (k * pageSize))
    (flagged : TableFlags flags) (used : s.pmm.bmTest k = true) :
    TreeOk { s with mem := addTable s.mem t i (k * pageSize) flags } pml4 := by
  obtain ⟨off, here, below, distinct⟩ := new.walks (i := i) flagged
  refine ⟨ok.root, distinct, ?_, ok.hint, ok.narrow⟩
  intro j inside clear q short found
  by_cases begins : p ++ [i] <+: q
  · by_cases whole : q = p ++ [i]
    · -- the new table is taken
      rw [whole, here] at found
      have same : k = j := Nat.eq_of_mul_eq_mul_right (by decide) (Option.some.inj found)
      rw [← same, used] at clear
      cases clear
    · rw [below q short begins whole] at found
      cases found
  · rw [off q short begins] at found
    exact ok.free j inside clear q short found

theorem NewTable.extends {s : Machine} {k : Nat} (new : NewTable s.mem pml4 p t (k * pageSize))
    (flagged : TableFlags flags) (clear : s.pmm.bmTest k = false) {s' : Machine}
    (mem : s'.mem = addTable s.mem t i (k * pageSize) flags) (missing : entryAt s.mem t i &&& pagePresent = 0)
    (pmm : Allocates s.pmm s'.pmm) : Extends pml4 s s' := by
  obtain ⟨off, here, below, _⟩ := new.walks (i := i) flagged
  have short := new.short
  -- before, nothing was there and below
  have before : ∀ q a, p ++ [i] <+: q → tableOf s.mem pml4 q ≠ some a := by
    intro q a begins found
    obtain ⟨b, through⟩ := walk_beginning found begins
    rw [walk_snoc, ← tableOf, new.parent, Option.bind_some, child, if_pos (Or.inl missing)] at through
    cases through
  -- now there is one table without entries
  have after : ∀ q a, q.length ≤ 3 → p ++ [i] <+: q → tableOf s'.mem pml4 q = some a → a = k * pageSize := by
    intro q a inside begins found
    rw [mem] at found
    by_cases whole : q = p ++ [i]
    · rw [whole, here] at found
      exact (Option.some.inj found).symm
    · rw [below q inside begins whole] at found
      cases found
  constructor
  case tables =>
    intro q a inside found
    rw [mem, off q inside fun begins => before q a begins found]
    exact found
  case huge =>
    intro q a j inside found big
    by_cases begins : p ++ [i] <+: q
    · rw [after q a (by omega) begins found, mem, new.empty, Nat.zero_and] at big
      exact absurd rfl big
    · have found' : tableOf s.mem pml4 q = some a := by
        rw [mem, off q (by omega) begins] at found
        exact found
      by_cases same : q ++ [j] = p ++ [i]
      · obtain ⟨rfl, at_i⟩ := List.append_inj' same rfl
        cases at_i
        have table : a = t := Option.some.inj (found'.symm.trans new.parent)
        have notHuge := frame_low new.frame (show addrMask4k &&& pageHuge = 0 by decide) flags
        rw [table, mem, new.entry flagged, notHuge, flagged.notHuge] at big
        exact absurd rfl big
      · rw [mem, new.off (by omega) found' same]
        exact ⟨found', rfl⟩
  case translate =>
    rw [mem]
    exact new.translate flagged missing
  case pmm => exact pmm
  case apart =>
    intro j used other
    have distinct : j * pageSize ≠ k * pageSize := by
      intro same
      rw [Nat.eq_of_mul_eq_mul_right (by decide) same, clear] at used
      cases used
    constructor
    · intro q inside found
      by_cases begins : p ++ [i] <+: q
      · exact distinct (after q _ inside begins found)
      · rw [mem, off q inside begins] at found
        exact other q inside found
    · rw [mem]
      apply addTable_agree (frame_dvd new.frame) (tableOf_aligned new.root new.parent) distinct
      rintro rfl
      exact other p (by omega) new.parent

def SmallEntry (m : Mem) (t : Nat) (i : Fin 512) : Prop :=
  entryAt m t i &&& pagePresent ≠ 0 → entryAt m t i &&& pageHuge = 0

theorem getOrCreateTable_spec (ok : TreeOk s pml4) (flagged : TableFlags flags) (parent : tableOf s.mem pml4 p = some t)
    (short : p.length ≤ 2) (small : SmallEntry s.mem t i) :
    ∃ r s', getOrCreateTable fails s t i flags = .ok (r, s') ∧ TreeOk s' pml4 ∧ Extends pml4 s s' ∧
      ∀ t', r = some t' → tableOf s'.mem pml4 (p ++ [i]) = some t' := by
  unfold getOrCreateTable
  split
  · rename_i missing
    obtain ⟨s', mem, pmm, hint, result⟩ := allocFrame_cases fails ok.hint
    have ok' : TreeOk s' pml4 := ok.alloc mem pmm hint
    have extends' : Extends pml4 s s' := Extends.refl pml4 mem pmm
    rcases result with failed | ⟨k, got, inside, clear, used⟩
    · rw [failed]
      exact ⟨none, s', rfl, ok', extends', nofun⟩
    · simp only [got]
      split
      · exact ⟨none, s', rfl, ok', extends', nofun⟩
      · have frame := ok.isFrame inside
        have unused := ok.free k inside clear
        have new : NewTable s.mem pml4 p t (k * pageSize) := ⟨ok.root, ok.distinct, parent, short, frame, unused⟩
        have new' : NewTable s'.mem pml4 p t (k * pageSize) := by
          rw [mem]
          exact new
        obtain ⟨_, here, _, _⟩ := new.walks (i := i) flagged
        have notHuge : ¬ (k * pageSize ||| flags) &&& pageHuge ≠ 0 := by
          rw [frame_low frame (by decide), flagged.notHuge]
          exact fun other => other rfl
        rw [mem, ← addTable, tableBehind]
        dsimp only
        rw [new.entry flagged, if_neg notHuge, frame_or frame flagged.noAddress]
        refine ⟨_, _, rfl, ?_, ?_, ?_⟩
        · have grown := new'.treeOk (i := i) ok' flagged used
          rw [mem] at grown
          exact grown
        · exact new.extends flagged clear rfl missing extends'.pmm
        · intro t' found
          cases found
          exact here
  · rename_i present
    rw [tableBehind, if_neg (by rw [small present]; exact fun h => h rfl)]
    refine ⟨_, s, rfl, ok, Extends.refl pml4 rfl (Allocates.refl _), ?_⟩
    intro t' found
    cases found
    rw [tableOf, walk_snoc, ← tableOf, parent, Option.bind_some, child, if_neg]
    rintro (missing | ⟨_, huge⟩)
    · exact present missing
    · exact huge (small present)

theorem tableBehind_result {s' : Machine} {r : Option Nat} (run : tableBehind s t i = .ok (r, s')) : r ≠ none ∧ s' = s := by
  unfold tableBehind at run
  split at run
  · cases run
  · cases run
    exact ⟨nofun, rfl⟩

theorem getOrCreateTable_none {r : Option Nat} {s' : Machine} (run : getOrCreateTable fails s t i flags = .ok (r, s')) :
    r = none ↔ entryAt s.mem t i &&& pagePresent = 0 ∧ (allocFrame fails s).1 = 0 := by
  unfold getOrCreateTable at run
  split at run
  · rename_i missing
    split at run
    rename_i newPhys s₁ alloc
    rw [alloc]
    split at run
    · rename_i zero
      cases run
      exact ⟨fun _ => ⟨missing, zero⟩, fun _ => rfl⟩
    · rename_i nonzero
      exact ⟨fun none => absurd none (tableBehind_result run).1, fun failed => absurd failed.2 nonzero⟩
  · rename_i present
    exact ⟨fun none => absurd none (tableBehind_result run).1, fun failed => absurd failed.1 present⟩

theorem getOrCreateTable_small {r : Option Nat × Machine} (run : getOrCreateTable fails s t i flags = .ok r) :
    SmallEntry s.mem t i := by
  intro present
  by_contra huge
  rw [getOrCreateTable, if_neg present, tableBehind, if_pos huge] at run
  cases run

theorem getOrCreateTables_spec {rest : List (Fin 512)} {r : Option Nat} {s' : Machine} (ok : TreeOk s pml4)
    (flagged : TableFlags flags) (parent : tableOf s.mem pml4 p = some t) (inside : (p ++ rest).length ≤ 3)
    (run : getOrCreateTables fails flags s t rest = .ok (r, s')) :
    TreeOk s' pml4 ∧ Extends pml4 s s' ∧ ∀ t', r = some t' → tableOf s'.mem pml4 (p ++ rest) = some t' := by
  induction rest generalizing s p t with
  | nil =>
    cases run
    refine ⟨ok, Extends.refl pml4 rfl (Allocates.refl _), ?_⟩
    intro t' found
    cases found
    rw [List.append_nil]
    exact parent
  | cons i rest ih =>
    have short : p.length ≤ 2 := by
      simp only [List.length_append, List.length_cons] at inside
      omega
    rw [List.append_cons] at inside ⊢
    rw [getOrCreateTables] at run
    have small : SmallEntry s.mem t i := by
      cases got : getOrCreateTable fails s t i flags with
      | error e =>
        rw [got] at run
        cases run
      | ok r => exact getOrCreateTable_small fails got
    have step := getOrCreateTable_spec fails ok flagged parent short small
    obtain ⟨r', s₁, got, ok', extends', found⟩ := step
    rw [got] at run
    cases r' with
    | none =>
      cases run
      exact ⟨ok', extends', nofun⟩
    | some next =>
      obtain ⟨ok'', extends'', found'⟩ := ih ok' (found next rfl) inside run
      exact ⟨ok'', extends'.trans extends'', found'⟩

def NoHuge (m : Mem) (pml4 : Nat) (path : List (Fin 512)) : Prop :=
  ∀ p i t, p ++ [i] <+: path → tableOf m pml4 p = some t → SmallEntry m t i

theorem NoHuge.extends {s' : Machine} {path : List (Fin 512)} (inside : path.length ≤ 3) (noHuge : NoHuge s.mem pml4 path)
    (extends' : Extends pml4 s s') : NoHuge s'.mem pml4 path := by
  intro q j a begins found present
  by_contra big
  have short := begins.length_le
  rw [List.length_append, List.length_singleton] at short
  obtain ⟨found', same⟩ := extends'.huge q a j (by omega) found big
  apply big
  rw [← same] at present ⊢
  exact noHuge q j a begins found' present

theorem getOrCreateTables_total {rest : List (Fin 512)} (ok : TreeOk s pml4) (flagged : TableFlags flags)
    (parent : tableOf s.mem pml4 p = some t) (inside : (p ++ rest).length ≤ 3) (noHuge : NoHuge s.mem pml4 (p ++ rest)) :
    ∃ r s', getOrCreateTables fails flags s t rest = .ok (r, s') := by
  induction rest generalizing s p t with
  | nil => exact ⟨some t, s, rfl⟩
  | cons i rest ih =>
    have short : p.length ≤ 2 := by
      simp only [List.length_append, List.length_cons] at inside
      omega
    rw [List.append_cons] at inside noHuge
    have small := noHuge p i t (List.prefix_append _ _) parent
    have step := getOrCreateTable_spec fails ok flagged parent short small
    obtain ⟨r, s', got, ok', extends', found⟩ := step
    simp only [getOrCreateTables, got]
    cases r with
    | none => exact ⟨none, s', rfl⟩
    | some next => exact ih ok' (found next rfl) inside (noHuge.extends inside extends')

end

end RexOs.Mm
