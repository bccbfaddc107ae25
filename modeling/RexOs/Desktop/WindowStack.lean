import RexOs.Desktop.Windows
import RexOs.Library.Run

/-! The stack of windows.

`stack` is `s_z[0..s_z_count)` as a list. It holds exactly the used slots, each once, and only the
window on top can have the focus.
-/

set_option autoImplicit false

namespace RexOs.Desktop

open RexOs.Library

variable {g : Screen} {s s' : Wm} {i j : Slot}

def stack (s : Wm) : List Slot := listing s.z s.zCount

structure Listed (s : Wm) : Prop where
  nodup : (stack s).Nodup
  members : ∀ i, i ∈ stack s ↔ (s.pool i).used = true
  visible : ∀ i, (s.pool i).used = true → (s.pool i).visible = true

structure Stacked (s : Wm) : Prop extends Listed s where
  focused : ∀ i, (s.pool i).used = true → (s.pool i).focused = true → (stack s).getLast? = some i

theorem wmFocused_stack (s : Wm) : wmFocused s = (stack s).getLast? := by
  rw [wmFocused, stack]
  cases count : s.zCount with
  | zero => rfl
  | succ n => rw [listing_last, if_neg (Nat.succ_ne_zero n), Nat.add_sub_cancel]

theorem unfocus_apply (z : Nat → Slot) (pool : Slot → Window) (k n : Nat) (i : Slot) :
    unfocus z pool k n i = if i ∈ (List.range' k n).map z then { pool i with focused := false } else pool i := by
  induction n generalizing pool k with
  | zero => rfl
  | succ n ih =>
    rw [unfocus, ih, List.range'_succ, List.map_cons]
    by_cases here : i = z k
    · -- a window that occurs twice is cleared twice
      rw [here, Function.update_self, ite_self, if_pos List.mem_cons_self]
    · rw [Function.update_of_ne here]
      exact if_congr (by rw [List.mem_cons, or_iff_right here]) rfl rfl

theorem unfocus_all (s : Wm) (i : Slot) :
    unfocus s.z s.pool 0 s.zCount i = if i ∈ stack s then { s.pool i with focused := false } else s.pool i := by
  rw [unfocus_apply, ← List.range_eq_range']
  rfl

theorem freeSlot_unused (free : freeSlot s.pool = some i) : (s.pool i).used = false := by
  have unused := List.find?_some free
  simpa using unused

structure Focuses (s : Wm) (i : Slot) (s' : Wm) : Prop where
  stack : stack s' = (stack s).erase i ++ [i]
  here : s'.pool i = { s.pool i with focused := true, minimized := false }
  there : ∀ j, j ≠ i → s'.pool j = if j ∈ Desktop.stack s then { s.pool j with focused := false } else s.pool j

theorem wmFocus_focuses (used : (s.pool i).used = true) (member : i ∈ stack s) : Focuses s i (wmFocus s (some i)) := by
  obtain ⟨found, search⟩ := indexFrom_member member
  obtain ⟨_, small, _, _⟩ := indexFrom_some search
  rw [wmFocus, used, if_neg (by decide), search]
  dsimp only
  constructor
  · obtain ⟨n, count⟩ : ∃ n, s.zCount = n + 1 := ⟨s.zCount - 1, by omega⟩
    have removed := listing_removed search
    simp only [stack, count, Nat.add_sub_cancel] at removed ⊢
    rw [listing_push, removed]
  · dsimp only
    rw [Function.update_self, unfocus_all, if_pos member]
  · intro j other
    dsimp only
    rw [Function.update_of_ne other, unfocus_all]

theorem wmFocus_unused (unused : (s.pool i).used = false) : wmFocus s (some i) = s := by
  rw [wmFocus, unused, if_pos rfl]

theorem Focuses.stacked (listed : Listed s) (used : (s.pool i).used = true) (focuses : Focuses s i s') : Stacked s' := by
  have same : ∀ j, (s'.pool j).used = (s.pool j).used ∧ (s'.pool j).visible = (s.pool j).visible := by
    intro j
    by_cases here : j = i
    · subst here
      rw [focuses.here]
      exact ⟨rfl, rfl⟩
    · rw [focuses.there j here]
      split <;> exact ⟨rfl, rfl⟩
  have members : ∀ j, j ∈ Desktop.stack s' ↔ (s'.pool j).used = true := by
    intro j
    rw [(same j).1, ← listed.members, focuses.stack, List.mem_append, List.mem_singleton]
    by_cases here : j = i
    · subst here
      exact ⟨fun _ => (listed.members j).mpr used, fun _ => Or.inr rfl⟩
    · rw [List.mem_erase_of_ne here]
      exact ⟨fun either => either.resolve_right here, Or.inl⟩
  refine { nodup := ?_, members := members, visible := ?_, focused := ?_ }
  · rw [focuses.stack, List.nodup_append]
    refine ⟨listed.nodup.erase i, List.nodup_singleton i, ?_⟩
    intro j below k top same
    rw [List.mem_singleton.mp top] at same
    exact listed.nodup.not_mem_erase (same ▸ below)
  · intro j usedJ
    rw [(same j).1] at usedJ
    rw [(same j).2]
    exact listed.visible j usedJ
  · intro j usedJ focused
    by_cases here : j = i
    · rw [here, focuses.stack, List.getLast?_concat]
    · rw [(same j).1, ← listed.members] at usedJ
      rw [focuses.there j here, if_pos usedJ] at focused
      cases focused

def Window.flags (w : Window) : Bool × Bool × Bool × Bool × Option AppDef :=
  (w.used, w.visible, w.minimized, w.focused, w.app)

structure Steady (s s' : Wm) : Prop where
  stack : stack s' = stack s
  flags : ∀ i, (s'.pool i).flags = (s.pool i).flags

namespace Steady

theorem refl (s : Wm) : Steady s s := ⟨rfl, fun _ => rfl⟩

variable (steady : Steady s s')
include steady

theorem used (i : Slot) : (s'.pool i).used = (s.pool i).used := congrArg (·.1) (steady.flags i)

theorem visible (i : Slot) : (s'.pool i).visible = (s.pool i).visible := congrArg (·.2.1) (steady.flags i)

theorem minimized (i : Slot) : (s'.pool i).minimized = (s.pool i).minimized := congrArg (·.2.2.1) (steady.flags i)

theorem focused (i : Slot) : (s'.pool i).focused = (s.pool i).focused := congrArg (·.2.2.2.1) (steady.flags i)

theorem app (i : Slot) : (s'.pool i).app = (s.pool i).app := congrArg (·.2.2.2.2) (steady.flags i)

end Steady

theorem set_pool (s : Wm) (i : Slot) (w : Window) (j : Slot) : (s.set i w).pool j = if j = i then w else s.pool j :=
  Function.update_apply s.pool i w j

theorem set_steady {w : Window} (flags : w.flags = (s.pool i).flags) : Steady s (s.set i w) := by
  constructor
  · rfl
  · intro j
    rw [set_pool]
    split
    next here => rw [here, flags]
    next => rfl

theorem set_listed (listed : Listed s) {w : Window} (used : w.used = (s.pool i).used)
    (visible : w.visible = (s.pool i).visible) : Listed (s.set i w) := by
  have same : ∀ j, ((s.set i w).pool j).used = (s.pool j).used ∧ ((s.set i w).pool j).visible = (s.pool j).visible := by
    intro j
    rw [set_pool]
    split
    next here => rw [here, used, visible]; exact ⟨rfl, rfl⟩
    next => exact ⟨rfl, rfl⟩
  constructor
  · exact listed.nodup
  · intro j
    rw [(same j).1]
    exact listed.members j
  · intro j
    rw [(same j).1, (same j).2]
    exact listed.visible j

theorem Steady.stacked (stacked : Stacked s) (steady : Steady s s') : Stacked s' := by
  refine { nodup := ?_, members := ?_, visible := ?_, focused := ?_ }
  · rw [steady.stack]
    exact stacked.nodup
  · intro i
    rw [steady.stack, steady.used]
    exact stacked.members i
  · intro i
    rw [steady.used, steady.visible]
    exact stacked.visible i
  · intro i
    rw [steady.used, steady.focused, steady.stack]
    exact stacked.focused i

theorem refocus_stack (s : Wm) : stack (refocus s) = stack s := by
  rw [refocus]
  split <;> rfl

theorem refocus_pool (s : Wm) (j : Slot) :
    (refocus s).pool j
      = if j ∈ stack s then { s.pool j with focused := decide ((stack s).getLast? = some j) } else s.pool j := by
  rw [refocus]
  split
  next empty =>
    rw [stack, empty]
    rfl
  next some_ =>
    obtain ⟨n, count⟩ : ∃ n, s.zCount = n + 1 := ⟨s.zCount - 1, by omega⟩
    have last : (stack s).getLast? = some (s.z (s.zCount - 1)) := by
      rw [stack, count]
      exact listing_last s.z n
    have top := List.mem_of_getLast? last
    dsimp only
    by_cases here : j = s.z (s.zCount - 1)
    · subst here
      rw [Function.update_self, unfocus_all, if_pos top, if_pos top, decide_eq_true last]
    · rw [Function.update_of_ne here, unfocus_all, last, decide_eq_false fun same => here (Option.some.inj same).symm]

/-- What is left when `i` has been taken away, with the focus on the window that is now on top. -/
structure Closes (s : Wm) (i : Slot) (s' : Wm) : Prop where
  stack : stack s' = (stack s).erase i
  here : (s'.pool i).used = false ∧ (s'.pool i).visible = false
  there : ∀ j, j ≠ i → s'.pool j =
    if j ∈ (Desktop.stack s).erase i then { s.pool j with focused := decide (((Desktop.stack s).erase i).getLast? = some j) }
    else s.pool j

theorem wmClose_closes (stacked : Stacked s) (used : (s.pool i).used = true) : Closes s i (wmClose s (some i)) := by
  obtain ⟨found, search⟩ := indexFrom_member ((stacked.members i).mpr used)
  have removed := listing_removed search
  rw [wmClose, used, if_neg (by decide), search]
  dsimp only
  constructor
  · rw [refocus_stack]
    exact removed
  · rw [refocus_pool, if_neg]
    · dsimp only [Wm.set]
      rw [Function.update_self]
      exact ⟨rfl, rfl⟩
    · rw [stack]
      dsimp only [Wm.set]
      rw [removed]
      exact stacked.nodup.not_mem_erase
  · intro j other
    rw [refocus_pool, stack]
    dsimp only [Wm.set]
    rw [removed, Function.update_of_ne other]
    rfl

theorem Closes.stacked (stacked : Stacked s) (used : (s.pool i).used = true) (closes : Closes s i s') : Stacked s' := by
  have same : ∀ j, j ≠ i → (s'.pool j).used = (s.pool j).used ∧ (s'.pool j).visible = (s.pool j).visible := by
    intro j other
    rw [closes.there j other]
    split <;> exact ⟨rfl, rfl⟩
  have members : ∀ j, j ∈ Desktop.stack s' ↔ (s'.pool j).used = true := by
    intro j
    rw [closes.stack]
    by_cases here : j = i
    · subst here
      rw [closes.here.1]
      exact ⟨fun member => absurd member stacked.nodup.not_mem_erase, (absurd · Bool.false_ne_true)⟩
    · rw [List.mem_erase_of_ne here, (same j here).1]
      exact stacked.members j
  have distinct : ∀ j, (s'.pool j).used = true → j ≠ i := by
    intro j usedJ here
    rw [here, closes.here.1] at usedJ
    cases usedJ
  refine { nodup := ?_, members := members, visible := ?_, focused := ?_ }
  · rw [closes.stack]
    exact stacked.nodup.erase i
  · intro j usedJ
    rw [(same j (distinct j usedJ)).2]
    exact stacked.visible j ((same j (distinct j usedJ)).1 ▸ usedJ)
  · intro j usedJ focused
    have member := (members j).mpr usedJ
    rw [closes.there j (distinct j usedJ), ← closes.stack, if_pos member] at focused
    exact of_decide_eq_true focused

/-- The state of `wmOpen` before it gives the new window `w` the focus. -/
def pushed (s : Wm) (slot : Slot) (w : Window) : Wm :=
  { s.set slot w with z := Function.update s.z s.zCount slot, zCount := s.zCount + 1, nextId := s.nextId + 1 }

theorem pushed_stack (s : Wm) (slot : Slot) (w : Window) : stack (pushed s slot w) = stack s ++ [slot] := by
  rw [stack, pushed]
  exact listing_push s.z s.zCount slot

theorem pushed_pool (s : Wm) (w : Window) (j : Slot) : (pushed s i w).pool j = if j = i then w else s.pool j := by
  dsimp only [pushed, Wm.set]
  exact Function.update_apply s.pool i w j

theorem pushed_listed (listed : Listed s) {w : Window} (free : (s.pool i).used = false) (used : w.used = true)
    (visible : w.visible = true) : Listed (pushed s i w) := by
  have outside : i ∉ stack s := by
    rw [listed.members, free]
    decide
  constructor
  · rw [pushed_stack, List.nodup_append]
    refine ⟨listed.nodup, List.nodup_singleton i, ?_⟩
    intro j below k top same
    rw [List.mem_singleton.mp top] at same
    exact outside (same ▸ below)
  · intro j
    rw [pushed_stack, List.mem_append, List.mem_singleton, pushed_pool]
    split
    next here => exact ⟨fun _ => used, fun _ => Or.inr here⟩
    next other => rw [or_iff_left other, listed.members]
  · intro j
    rw [pushed_pool]
    split
    next => exact fun _ => visible
    next => exact listed.visible j

theorem pushed_focuses {w : Window} (used : w.used = true) :
    Focuses (pushed s i w) i (wmFocus (pushed s i w) (some i)) := by
  apply wmFocus_focuses
  · rw [pushed_pool, if_pos rfl, used]
  · rw [pushed_stack]
    exact List.mem_append_right _ (List.mem_singleton_self i)

theorem wmOpen_cases (g : Screen) (s : Wm) (app : Option AppDef) (state : Nat) :
    wmOpen g s app state = s ∨ ∃ slot w, (s.pool slot).used = false ∧ w.used = true ∧ w.visible = true ∧
      wmOpen g s app state = wmFocus (pushed s slot w) (some slot) := by
  cases app with
  | none => exact Or.inl rfl
  | some app =>
    unfold wmOpen
    cases free : freeSlot s.pool with
    | none => exact Or.inl rfl
    | some slot =>
      refine Or.inr ⟨slot, _, freeSlot_unused free, ?_, ?_, rfl⟩
      all_goals
        dsimp only
        split <;> rfl

theorem wmFocus_stacked (stacked : Stacked s) (w : Option Slot) : Stacked (wmFocus s w) := by
  cases w with
  | none => exact stacked
  | some i =>
    cases used : (s.pool i).used with
    | false =>
      rw [wmFocus_unused used]
      exact stacked
    | true => exact (wmFocus_focuses used ((stacked.members i).mpr used)).stacked stacked.toListed used

theorem wmOpen_stacked (stacked : Stacked s) (g : Screen) (app : Option AppDef) (state : Nat) :
    Stacked (wmOpen g s app state) := by
  rcases wmOpen_cases g s app state with same | ⟨slot, w, free, used, visible, opened⟩
  · rw [same]
    exact stacked
  · rw [opened]
    apply (pushed_focuses used).stacked (pushed_listed stacked.toListed free used visible)
    rw [pushed_pool, if_pos rfl, used]

theorem wmClose_stacked (stacked : Stacked s) (w : Option Slot) : Stacked (wmClose s w) := by
  cases w with
  | none => exact stacked
  | some i =>
    cases used : (s.pool i).used with
    | false =>
      rw [wmClose, used, if_pos rfl]
      exact stacked
    | true => exact (wmClose_closes stacked used).stacked stacked used

theorem wmToggleMinimize_cases (used : (s.pool i).used = true) :
    ((s.pool i).minimized = true ∧ wmToggleMinimize s (some i) =
        wmFocus (s.set i { s.pool i with minimized := false, anim := 0 }) (some i)) ∨
      (s.pool i).minimized = false ∧ wmToggleMinimize s (some i) =
        s.set i { s.pool i with minimized := true, focused := false } := by
  rw [wmToggleMinimize]
  dsimp only
  rw [used, if_neg (by decide)]
  cases minimized : (s.pool i).minimized with
  | true => exact Or.inl ⟨rfl, if_pos rfl⟩
  | false => exact Or.inr ⟨rfl, if_neg (by decide)⟩

theorem wmToggleMinimize_stacked (stacked : Stacked s) (w : Option Slot) : Stacked (wmToggleMinimize s w) := by
  cases w with
  | none => exact stacked
  | some i =>
    cases used : (s.pool i).used with
    | false =>
      rw [wmToggleMinimize, used, if_pos rfl]
      exact stacked
    | true =>
      rcases wmToggleMinimize_cases used with ⟨_, restored⟩ | ⟨_, minimized⟩
      · rw [restored]
        have listed := set_listed stacked.toListed (i := i)
          (w := { s.pool i with minimized := false, anim := 0 }) rfl rfl
        have used' : ((s.set i { s.pool i with minimized := false, anim := 0 }).pool i).used = true := by
          rw [set_pool, if_pos rfl, used]
        exact (wmFocus_focuses used' ((listed.members i).mpr used')).stacked listed used'
      · rw [minimized]
        have listed := set_listed stacked.toListed (i := i)
          (w := { s.pool i with minimized := true, focused := false }) rfl rfl
        refine { listed with focused := ?_ }
        intro j
        rw [set_pool]
        split
        next => exact fun _ focused => absurd focused Bool.false_ne_true
        next => exact stacked.focused j

theorem animate_flags (z : Nat → Slot) (pool : Slot → Window) (k n : Nat) (i : Slot) :
    (animate z pool k n i).flags = (pool i).flags := by
  induction n generalizing pool k with
  | zero => rfl
  | succ n ih =>
    rw [animate, ih]
    split
    next => rfl
    next =>
      split
      next =>
        by_cases here : i = z k
        · rw [here, Function.update_self]
          rfl
        · rw [Function.update_of_ne here]
      next => rfl

theorem wmAnimate_steady (s : Wm) : Steady s (wmAnimate s) := ⟨rfl, animate_flags s.z s.pool 0 s.zCount⟩

theorem topmostAt_shown {x y : Int} {n : Nat} (found : topmostAt s x y n = some i) :
    i ∈ listing s.z n ∧ (s.pool i).visible = true ∧ (s.pool i).minimized = false := by
  induction n with
  | zero => cases found
  | succ n ih =>
    have deeper : topmostAt s x y n = some i →
        i ∈ listing s.z (n + 1) ∧ (s.pool i).visible = true ∧ (s.pool i).minimized = false := by
      intro found
      obtain ⟨member, shown⟩ := ih found
      rw [listing_succ]
      exact ⟨List.mem_append_left _ member, shown⟩
    rw [topmostAt] at found
    split at found
    next => exact deeper found
    next hidden =>
      split at found
      next =>
        cases found
        rw [not_or, Bool.not_eq_false, Bool.not_eq_true] at hidden
        rw [listing_succ]
        exact ⟨List.mem_append_right _ (List.mem_singleton_self _), hidden⟩
      next => exact deeper found

def raised (s : Wm) (w : Slot) : Wm := if wmFocused s = some w then s else wmFocus s (some w)

def released (s : Wm) : Wm :=
  match wmFocused s with
  | none => s
  | some top => if (s.pool top).dragging then s.set top { s.pool top with dragging := false } else s

inductive Target where
  | drag (w : Slot)
  | titlebar (w : Slot) (button : Option Button)
  | content (w : Slot)
  | top

def dragged (s : Wm) (m : Mouse) : Option Slot :=
  match wmFocused s with
  | none => none
  | some top => if (s.pool top).dragging && m.down then some top else none

def target (m : Mouse) (s : Wm) : Target :=
  match dragged s m with
  | some w => .drag w
  | none =>
      if m.clicked then
        match wmTopmostAt (released s) m.x m.y with
        | none => .top
        | some w =>
            let window := (released s).pool w
            if m.y < window.y + winTitlebarH then .titlebar w (titlebarHit window m.x m.y) else .content w
      else .top

def press (g : Screen) (m : Mouse) (s : Wm) (w : Slot) : Option Button → Wm
  | some .close => wmClose s (some w)
  | some .maximize => s.set w ((s.pool w).maximize g)
  | some .minimize => wmToggleMinimize s (some w)
  | none =>
      s.set w { s.pool w with dragging := true, dragOffX := m.x - (s.pool w).x, dragOffY := m.y - (s.pool w).y }

def handle (g : Screen) (m : Mouse) (s : Wm) : Target → Option Slot × Wm
  | .drag w => (none, s.set w ((s.pool w).drag g m))
  | .titlebar w button => (none, press g m (raised (released s) w) w button)
  | .content w => (forwardEvent (raised (released s) w), raised (released s) w)
  | .top => (forwardEvent (released s), released s)

theorem wmFocus_place (s : Wm) (w : Option Slot) (j : Slot) :
    ((wmFocus s w).pool j).x = (s.pool j).x ∧ ((wmFocus s w).pool j).y = (s.pool j).y ∧
      ((wmFocus s w).pool j).w = (s.pool j).w := by
  rw [wmFocus.eq_def]
  cases w with
  | none => exact ⟨rfl, rfl, rfl⟩
  | some i =>
    dsimp only
    split
    next => exact ⟨rfl, rfl, rfl⟩
    next =>
      split
      next => exact ⟨rfl, rfl, rfl⟩
      next =>
        dsimp only
        rw [Function.update_apply, unfocus_all, unfocus_all]
        split
        next here =>
          subst here
          split <;> exact ⟨rfl, rfl, rfl⟩
        next => split <;> exact ⟨rfl, rfl, rfl⟩

theorem raised_place (s : Wm) (w : Slot) :
    ((raised s w).pool w).x = (s.pool w).x ∧ ((raised s w).pool w).y = (s.pool w).y ∧
      ((raised s w).pool w).w = (s.pool w).w := by
  rw [raised]
  split
  next => exact ⟨rfl, rfl, rfl⟩
  next => exact wmFocus_place s (some w) w

theorem titlebarHit_raised (s : Wm) (w : Slot) (x y : Int) :
    titlebarHit ((raised s w).pool w) x y = titlebarHit (s.pool w) x y := by
  obtain ⟨left, upper, width⟩ := raised_place s w
  rw [titlebarHit, titlebarHit, titlebarBtnRects, titlebarBtnRects, left, upper, width]

theorem clickTitlebar_press (g : Screen) (m : Mouse) (s : Wm) (w : Slot) :
    clickTitlebar g m s w = if m.y < (s.pool w).y + winTitlebarH then
      some (press g m s w (titlebarHit (s.pool w) m.x m.y)) else none := by
  rw [clickTitlebar]
  congr 1
  cases titlebarHit (s.pool w) m.x m.y with
  | none => rfl
  | some button => cases button <;> rfl

theorem wmDispatch_handle (g : Screen) {m : Mouse} (undragged : dragged s m = none) :
    wmDispatch g m (released s) = handle g m s (target m s) := by
  rw [target, undragged, wmDispatch]
  dsimp only
  split
  next clicked =>
    cases under : wmTopmostAt (released s) m.x m.y with
    | none => rfl
    | some w =>
      dsimp only
      rw [← raised, clickTitlebar_press, titlebarHit_raised, (raised_place _ _).2.1]
      by_cases upper : m.y < ((released s).pool w).y + winTitlebarH
      · rw [if_pos upper, if_pos upper]
        rfl
      · rw [if_neg upper, if_neg upper]
        rfl
  next => rfl

theorem wmInputFrame_handle (g : Screen) (m : Mouse) (s : Wm) : wmInputFrame g m s = handle g m s (target m s) := by
  cases top : wmFocused s with
  | none =>
    have dragged_ : dragged s m = none := by rw [dragged, top]
    have released_ : released s = s := by rw [released, top]
    rw [wmInputFrame, top, ← wmDispatch_handle g dragged_, released_]
  | some w =>
    rw [wmInputFrame, top]
    dsimp only
    cases dragging : (s.pool w).dragging with
    | false =>
      have dragged_ : dragged s m = none := by rw [dragged, top]; dsimp only; rw [dragging]; rfl
      have released_ : released s = s := by rw [released, top]; dsimp only; rw [dragging]; rfl
      rw [if_neg (by decide), ← wmDispatch_handle g dragged_, released_]
    | true =>
      rw [if_pos rfl]
      cases down : m.down with
      | false =>
        have dragged_ : dragged s m = none := by rw [dragged, top]; dsimp only; rw [dragging, down]; rfl
        have released_ : released s = s.set w { s.pool w with dragging := false } := by
          rw [released, top]
          dsimp only
          rw [dragging, if_pos rfl]
        rw [if_neg (by decide), ← wmDispatch_handle g dragged_, released_]
      | true =>
        have dragged_ : dragged s m = some w := by rw [dragged, top]; dsimp only; rw [dragging, down]; rfl
        rw [if_pos rfl, target, dragged_]
        rfl

theorem released_steady (s : Wm) : Steady s (released s) := by
  rw [released]
  cases wmFocused s with
  | none => exact Steady.refl s
  | some top =>
    dsimp only
    split
    next => exact set_steady rfl
    next => exact Steady.refl s

theorem raised_stacked (stacked : Stacked s) (w : Slot) : Stacked (raised s w) := by
  rw [raised]
  split
  next => exact stacked
  next => exact wmFocus_stacked stacked (some w)

theorem maximize_flags (w : Window) (g : Screen) : (w.maximize g).flags = w.flags := by
  rw [Window.maximize]
  split
  next => rfl
  next => split <;> rfl

theorem press_stacked (stacked : Stacked s) (g : Screen) (m : Mouse) (w : Slot) (button : Option Button) :
    Stacked (press g m s w button) := by
  cases button with
  | none =>
    apply Steady.stacked stacked
    exact set_steady rfl
  | some button =>
    cases button with
    | close => exact wmClose_stacked stacked (some w)
    | maximize =>
      apply Steady.stacked stacked
      exact set_steady (maximize_flags (s.pool w) g)
    | minimize => exact wmToggleMinimize_stacked stacked (some w)

theorem wmInputFrame_stacked (stacked : Stacked s) (g : Screen) (m : Mouse) : Stacked (wmInputFrame g m s).2 := by
  have free := (released_steady s).stacked stacked
  rw [wmInputFrame_handle]
  cases target m s with
  | drag w =>
    apply Steady.stacked stacked
    exact set_steady rfl
  | titlebar w button => exact press_stacked (raised_stacked free w) g m w button
  | content w => exact raised_stacked free w
  | top => exact free

theorem wmInit_stacked (s : Wm) : Stacked (wmInit s) := by
  refine { nodup := List.nodup_nil, members := ?_, visible := ?_, focused := ?_ }
  · exact fun i => iff_of_false List.not_mem_nil Bool.false_ne_true
  · exact fun i used => absurd used Bool.false_ne_true
  · exact fun i used => absurd used Bool.false_ne_true

theorem call_stacked (stacked : Stacked s) (g : Screen) (c : Call) : Stacked (call g s c).2 := by
  cases c with
  | «open» app state => exact wmOpen_stacked stacked g app state
  | close w => exact wmClose_stacked stacked w
  | focus w => exact wmFocus_stacked stacked w
  | toggleMinimize w => exact wmToggleMinimize_stacked stacked w
  | animate => exact (wmAnimate_steady s).stacked stacked
  | input m => exact wmInputFrame_stacked stacked g m

theorem calls_stacked (g : Screen) (s : Wm) (l : List Call) : Stacked (calls g (wmInit s) l) :=
  foldl_invariant Stacked (fun _ c stacked => call_stacked stacked g c) (wmInit_stacked s)

/-- In every state that the window manager gets into, the stack is a permutation of the used
slots and only its top has the focus; a focus moves one window to the top and a close takes
one away, and neither changes the order of the others. -/
theorem window_stack (g : Screen) (s : Wm) (l : List Call) :
    (stack (calls g (wmInit s) l)).Perm
        ((List.finRange wmMaxWindows).filter fun i => ((calls g (wmInit s) l).pool i).used) ∧
      (∀ i, ((calls g (wmInit s) l).pool i).used = true → ((calls g (wmInit s) l).pool i).focused = true →
        (stack (calls g (wmInit s) l)).getLast? = some i) ∧
      (∀ i, ((calls g (wmInit s) l).pool i).used = true →
        stack (wmFocus (calls g (wmInit s) l) (some i)) = (stack (calls g (wmInit s) l)).erase i ++ [i]) ∧
      ∀ i, ((calls g (wmInit s) l).pool i).used = true →
        stack (wmClose (calls g (wmInit s) l) (some i)) = (stack (calls g (wmInit s) l)).erase i ∧
        ∀ j, ((wmClose (calls g (wmInit s) l) (some i)).pool j).used = true ↔
          ((calls g (wmInit s) l).pool j).used = true ∧ j ≠ i := by
  have stacked := calls_stacked g s l
  generalize calls g (wmInit s) l = state at stacked
  refine ⟨?_, stacked.focused, ?_, ?_⟩
  · rw [List.perm_ext_iff_of_nodup stacked.nodup ((List.nodup_finRange _).filter _)]
    intro i
    rw [stacked.members, List.mem_filter]
    exact ⟨fun used => ⟨List.mem_finRange i, used⟩, And.right⟩
  · intro i used
    exact (wmFocus_focuses used ((stacked.members i).mpr used)).stack
  · intro i used
    have closes := wmClose_closes stacked used
    refine ⟨closes.stack, fun j => ?_⟩
    have after := (closes.stacked stacked used).members j
    rw [← after, closes.stack, stacked.nodup.mem_erase_iff, stacked.members]
    exact and_comm

end RexOs.Desktop
