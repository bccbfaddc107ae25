import RexOs.Desktop.WindowStack

/-! Which window receives the input.

`wm_focused` is the window on top of the stack, whatever its flags say. It is shown and has the
focus as long as no step leaves a minimised window on top while another one is shown.
-/

set_option autoImplicit false

namespace RexOs.Desktop

open RexOs.Library

variable {g : Screen} {s s' : Wm} {i j : Slot}

def Window.shown (w : Window) : Bool := w.visible && !w.minimized

/-- `on_event` is called on a window that is shown, if on any. -/
def Received (r : Option Slot × Wm) : Prop := ∀ i, r.1 = some i → (r.2.pool i).shown = true

def FocusShown (s : Wm) : Prop :=
  ∀ i, ((stack s).filter fun i => (s.pool i).shown).getLast? = some i → (s.pool i).focused = true

def TopShown (s : Wm) : Prop :=
  ∀ top, (stack s).getLast? = some top →
    (s.pool top).minimized = false ∧ (s.pool top).focused = true ∨ ∀ i ∈ stack s, (s.pool i).minimized = true

def Alone (s : Wm) (i : Slot) : Prop := ∀ j ∈ stack s, j ≠ i → (s.pool j).minimized = true

/-- The window that gets to the top when `i` is closed is not minimised, or all that are left are. -/
def Uncovers (s : Wm) (i : Slot) : Prop :=
  ∀ top, ((stack s).erase i).getLast? = some top → (s.pool top).minimized = false ∨ Alone s i

/-- The window on top is not minimised, or its application has no `on_event`. -/
def Listens (s : Wm) : Prop :=
  ∀ top app, (stack s).getLast? = some top → (s.pool top).app = some app → app.onEvent = true →
    (s.pool top).minimized = false

def Clean (s : Wm) : Call → Prop
  | .close (some i) => (s.pool i).used = true → Uncovers s i
  | .toggleMinimize (some i) =>
      (s.pool i).used = true → (s.pool i).minimized = false → (stack s).getLast? = some i → Alone s i
  | .input m =>
      match target m s with
      | .titlebar w (some .close) => Uncovers s w
      | .titlebar w (some .minimize) => Alone s w
      | .top => Listens s
      | _ => True
  | _ => True

theorem last_filter {α : Type} {l : List α} {p : α → Bool} {a : α} (last : l.getLast? = some a) (holds : p a = true) :
    (l.filter p).getLast? = some a := by
  obtain ⟨init, rfl⟩ := List.getLast?_eq_some_iff.mp last
  rw [List.filter_append, List.filter_cons_of_pos holds, List.filter_nil, List.getLast?_concat]

theorem Stacked.shown_iff (stacked : Stacked s) (member : i ∈ stack s) :
    (s.pool i).shown = true ↔ (s.pool i).minimized = false := by
  rw [Window.shown, stacked.visible i ((stacked.members i).mp member), Bool.true_and, Bool.not_eq_true']

theorem focusShown_iff (stacked : Stacked s) : FocusShown s ↔ TopShown s := by
  constructor
  · intro focus top last
    have member := List.mem_of_getLast? last
    cases minimized : (s.pool top).minimized with
    | false =>
      have shown := (stacked.shown_iff member).mpr minimized
      exact Or.inl ⟨rfl, focus top (last_filter last shown)⟩
    | true =>
      -- a shown window would have the focus below the top
      refine Or.inr fun i memberI => ?_
      by_contra shown
      rw [Bool.not_eq_true, ← stacked.shown_iff memberI] at shown
      have some_ : ((stack s).filter fun i => (s.pool i).shown) ≠ [] :=
        List.ne_nil_of_mem (List.mem_filter.mpr ⟨memberI, shown⟩)
      obtain ⟨k, found⟩ : ∃ k, ((stack s).filter fun i => (s.pool i).shown).getLast? = some k :=
        ⟨_, List.getLast?_eq_some_getLast some_⟩
      have memberK := List.mem_filter.mp (List.mem_of_getLast? found)
      have onTop := stacked.focused k ((stacked.members k).mp memberK.1) (focus k found)
      rw [last] at onTop
      cases onTop
      rw [stacked.shown_iff member, minimized] at memberK
      cases memberK.2
  · intro topShown i found
    obtain ⟨member, shown⟩ := List.mem_filter.mp (List.mem_of_getLast? found)
    obtain ⟨top, last⟩ : ∃ top, (stack s).getLast? = some top :=
      ⟨_, List.getLast?_eq_some_getLast (List.ne_nil_of_mem member)⟩
    rw [stacked.shown_iff member] at shown
    rcases topShown top last with ⟨minimized, focused⟩ | all
    · have here := last_filter (p := fun i => (s.pool i).shown) last ((stacked.shown_iff (List.mem_of_getLast? last)).mpr minimized)
      rw [here] at found
      cases found
      exact focused
    · rw [all i member] at shown
      cases shown

theorem Steady.topShown (steady : Steady s s') : TopShown s' ↔ TopShown s := by
  rw [TopShown, TopShown, steady.stack]
  simp only [steady.minimized, steady.focused]

theorem Focuses.topShown (focuses : Focuses s i s') : TopShown s' := by
  intro top last
  rw [focuses.stack, List.getLast?_concat] at last
  cases last
  rw [focuses.here]
  exact Or.inl ⟨rfl, rfl⟩

theorem Closes.topShown (stacked : Stacked s) (closes : Closes s i s') : TopShown s' ↔ Uncovers s i := by
  have same : ∀ j, j ∈ (Desktop.stack s).erase i → (s'.pool j).minimized = (s.pool j).minimized := by
    intro j member
    have other : j ≠ i := fun here => stacked.nodup.not_mem_erase (here ▸ member)
    rw [closes.there j other, if_pos member]
  have all : (∀ j ∈ Desktop.stack s', (s'.pool j).minimized = true) ↔ Alone s i := by
    rw [closes.stack]
    constructor
    · intro all j member other
      have left := (List.mem_erase_of_ne other).mpr member
      rw [← same j left]
      exact all j left
    · intro alone j member
      rw [same j member]
      exact alone j (List.mem_of_mem_erase member) fun here => stacked.nodup.not_mem_erase (here ▸ member)
  rw [TopShown, Uncovers, all, closes.stack]
  refine forall_congr' fun top => imp_congr_right fun last => ?_
  have member := List.mem_of_getLast? last
  have other : top ≠ i := fun here => stacked.nodup.not_mem_erase (here ▸ member)
  rw [same top member, closes.there top other, if_pos member]
  dsimp only
  rw [last, decide_eq_true rfl, and_iff_left rfl]

theorem minimize_topShown (stacked : Stacked s) (topShown : TopShown s) (used : (s.pool i).used = true)
    (shown : (s.pool i).minimized = false) :
    TopShown (s.set i { s.pool i with minimized := true, focused := false })
      ↔ ((stack s).getLast? = some i → Alone s i) := by
  constructor
  · intro after last
    rcases after i last with ⟨minimized, _⟩ | all
    · rw [set_pool, if_pos rfl] at minimized
      cases minimized
    · intro j member other
      have minimized := all j member
      rw [set_pool, if_neg other] at minimized
      exact minimized
  · intro alone top last
    by_cases here : top = i
    · subst here
      refine Or.inr fun j member => ?_
      rw [set_pool]
      split
      next => rfl
      next other => exact alone last j member other
    · rw [set_pool, if_neg here]
      rcases topShown top last with kept | all
      · exact Or.inl kept
      · -- the window that is minimised was not
        rw [all i ((stacked.members i).mpr used)] at shown
        cases shown

theorem forward_received (stacked : Stacked s) : Received (forwardEvent s, s) ↔ Listens s := by
  rw [Received, Listens]
  dsimp only [forwardEvent]
  rw [wmFocused_stack]
  cases last : (stack s).getLast? with
  | none => exact iff_of_true (by rintro i ⟨⟩) (by rintro top app ⟨⟩)
  | some top =>
    have shown := stacked.shown_iff (List.mem_of_getLast? last)
    dsimp only
    cases app : (s.pool top).app with
    | none =>
      refine iff_of_true (by rintro i ⟨⟩) fun top' app' here some_ => ?_
      cases here
      rw [app] at some_
      cases some_
    | some a =>
      dsimp only
      constructor
      · intro received top' app' here some_ listens
        cases here
        rw [app] at some_
        cases some_
        rw [if_pos listens] at received
        exact shown.mp (received top rfl)
      · intro listens i called
        split at called
        next onEvent =>
          cases called
          exact shown.mpr (listens top a rfl app onEvent)
        next => cases called

theorem Steady.listens (steady : Steady s s') : Listens s' ↔ Listens s := by
  rw [Listens, Listens, steady.stack]
  simp only [steady.minimized, steady.app]

/-- The window `i` has got to the top. -/
structure Raises (s : Wm) (i : Slot) (s' : Wm) : Prop where
  last : (stack s').getLast? = some i
  shown : (s'.pool i).minimized = false
  focused : (s'.pool i).focused = true
  below : (stack s').erase i = (stack s).erase i
  there : ∀ j, j ≠ i → (s'.pool j).minimized = (s.pool j).minimized

theorem raised_raises (stacked : Stacked s) (topShown : TopShown s) (member : i ∈ stack s)
    (shown : (s.pool i).minimized = false) : Raises s i (raised s i) := by
  rw [raised]
  split
  next onTop =>
    rw [wmFocused_stack] at onTop
    rcases topShown i onTop with ⟨_, focused⟩ | all
    · exact ⟨onTop, shown, focused, rfl, fun _ _ => rfl⟩
    · rw [all i member] at shown
      cases shown
  next =>
    have focuses := wmFocus_focuses ((stacked.members i).mp member) member
    constructor
    · rw [focuses.stack, List.getLast?_concat]
    · rw [focuses.here]
    · rw [focuses.here]
    · rw [focuses.stack, List.erase_append_right _ stacked.nodup.not_mem_erase, List.erase_cons_head, List.append_nil]
    · intro j other
      rw [focuses.there j other]
      split <;> rfl

namespace Raises

variable (raises : Raises s i s')
include raises

theorem topShown : TopShown s' := by
  intro top last
  rw [raises.last] at last
  cases last
  exact Or.inl ⟨raises.shown, raises.focused⟩

theorem alone : Alone s' i ↔ Alone s i := by
  refine forall_congr' fun j => ?_
  by_cases here : j = i
  · exact ⟨fun _ _ other => absurd here other, fun _ _ other => absurd here other⟩
  · rw [raises.there j here, ← List.mem_erase_of_ne here, raises.below, List.mem_erase_of_ne here]

theorem uncovers (nodup : (stack s).Nodup) : Uncovers s' i ↔ Uncovers s i := by
  rw [Uncovers, Uncovers, raises.alone, raises.below]
  refine forall_congr' fun top => imp_congr_right fun last => ?_
  have other : top ≠ i := fun here => nodup.not_mem_erase (here ▸ List.mem_of_getLast? last)
  rw [raises.there top other]

end Raises

theorem target_shown {m : Mouse} (clicked : target m s = .content i ∨ ∃ button, target m s = .titlebar i button) :
    i ∈ stack (released s) ∧ ((released s).pool i).minimized = false := by
  have under : wmTopmostAt (released s) m.x m.y = some i := by
    rw [target] at clicked
    cases drag : dragged s m with
    | some w =>
      rw [drag] at clicked
      rcases clicked with same | ⟨_, same⟩ <;> cases same
    | none =>
      rw [drag] at clicked
      dsimp only at clicked
      cases press : m.clicked with
      | false =>
        rw [press] at clicked
        rcases clicked with same | ⟨_, same⟩ <;> cases same
      | true =>
        rw [press, if_pos rfl] at clicked
        cases under : wmTopmostAt (released s) m.x m.y with
        | none =>
          rw [under] at clicked
          rcases clicked with same | ⟨_, same⟩ <;> cases same
        | some w =>
          rw [under] at clicked
          dsimp only at clicked
          split at clicked
          next =>
            rcases clicked with same | ⟨_, same⟩
            · cases same
            · cases same
              rfl
          next =>
            rcases clicked with same | ⟨_, same⟩
            · cases same
              rfl
            · cases same
  obtain ⟨member, _, shown⟩ := topmostAt_shown under
  exact ⟨member, shown⟩

theorem uncalled_received (s : Wm) : Received (none, s) := by
  rintro i ⟨⟩

theorem wmClose_topShown (stacked : Stacked s) (used : (s.pool i).used = true) :
    TopShown (wmClose s (some i)) ↔ Uncovers s i :=
  (wmClose_closes stacked used).topShown stacked

theorem wmFocus_topShown (stacked : Stacked s) (topShown : TopShown s) (w : Option Slot) : TopShown (wmFocus s w) := by
  cases w with
  | none => exact topShown
  | some i =>
    cases used : (s.pool i).used with
    | false =>
      rw [wmFocus_unused used]
      exact topShown
    | true => exact (wmFocus_focuses used ((stacked.members i).mpr used)).topShown

theorem wmOpen_topShown (topShown : TopShown s) (g : Screen) (app : Option AppDef) (state : Nat) :
    TopShown (wmOpen g s app state) := by
  rcases wmOpen_cases g s app state with same | ⟨slot, w, _, used, _, opened⟩
  · rw [same]
    exact topShown
  · rw [opened]
    exact (pushed_focuses used).topShown

theorem wmToggleMinimize_topShown (stacked : Stacked s) (topShown : TopShown s) (used : (s.pool i).used = true) :
    TopShown (wmToggleMinimize s (some i)) ↔
      ((s.pool i).minimized = false → (stack s).getLast? = some i → Alone s i) := by
  rcases wmToggleMinimize_cases used with ⟨minimized, restored⟩ | ⟨shown, minimized⟩
  · rw [restored, minimized]
    refine ⟨fun _ minimized => absurd minimized.symm Bool.false_ne_true, fun _ => ?_⟩
    have used' : ((s.set i { s.pool i with minimized := false, anim := 0 }).pool i).used = true := by
      rw [set_pool, if_pos rfl, used]
    exact (wmFocus_focuses used' ((stacked.members i).mpr used)).topShown
  · rw [minimized, minimize_topShown stacked topShown used shown]
    exact ⟨fun alone _ => alone, fun alone => alone shown⟩

theorem press_topShown (stacked : Stacked s) (topShown : TopShown s) (g : Screen) (m : Mouse) (member : i ∈ stack s)
    (shown : (s.pool i).minimized = false) (button : Option Button) :
    TopShown (press g m (raised s i) i button) ↔
      match button with
      | some .close => Uncovers s i
      | some .minimize => Alone s i
      | _ => True := by
  have raises := raised_raises stacked topShown member shown
  have stacked' := raised_stacked stacked i
  have used := (stacked'.members i).mp (List.mem_of_getLast? raises.last)
  cases button with
  | none =>
    rw [iff_true]
    apply Steady.topShown _ |>.mpr raises.topShown
    exact set_steady rfl
  | some button =>
    cases button with
    | close => exact (wmClose_topShown stacked' used).trans (raises.uncovers stacked.nodup)
    | minimize =>
      apply (wmToggleMinimize_topShown stacked' raises.topShown used).trans
      rw [raises.alone]
      exact ⟨fun alone => alone raises.shown raises.last, fun alone _ _ => alone⟩
    | maximize =>
      rw [iff_true]
      apply Steady.topShown _ |>.mpr raises.topShown
      exact set_steady (maximize_flags _ g)

theorem input_clean (stacked : Stacked s) (topShown : TopShown s) (g : Screen) (m : Mouse) :
    Received (wmInputFrame g m s) ∧ TopShown (wmInputFrame g m s).2 ↔ Clean s (.input m) := by
  have steady := released_steady s
  have stacked' := steady.stacked stacked
  have topShown' := steady.topShown.mpr topShown
  rw [wmInputFrame_handle, Clean]
  cases aim : target m s with
  | drag w =>
    dsimp only
    rw [iff_true]
    refine ⟨uncalled_received _, ?_⟩
    apply Steady.topShown _ |>.mpr topShown
    exact set_steady rfl
  | titlebar w button =>
    obtain ⟨member, shown⟩ := target_shown (Or.inr ⟨button, aim⟩)
    have pressed := press_topShown stacked' topShown' g m member shown button
    have same : Uncovers (released s) w ↔ Uncovers s w := by
      simp only [Uncovers, Alone, steady.stack, steady.minimized]
    have same' : Alone (released s) w ↔ Alone s w := by
      simp only [Alone, steady.stack, steady.minimized]
    rw [same, same'] at pressed
    rw [handle, and_iff_right (uncalled_received _), pressed]
    cases button with
    | none => exact Iff.rfl
    | some button => cases button <;> exact Iff.rfl
  | content w =>
    obtain ⟨member, shown⟩ := target_shown (Or.inl aim)
    have raises := raised_raises stacked' topShown' member shown
    dsimp only
    rw [iff_true, handle]
    refine ⟨(forward_received (raised_stacked stacked' w)).mpr ?_, raises.topShown⟩
    intro top app last _ _
    rw [raises.last] at last
    cases last
    exact raises.shown
  | top =>
    dsimp only
    rw [handle, forward_received stacked', steady.listens, and_iff_left topShown']

theorem call_clean (stacked : Stacked s) (topShown : TopShown s) (g : Screen) (c : Call) :
    Received (call g s c) ∧ FocusShown (call g s c).2 ↔ Clean s c := by
  rw [focusShown_iff (call_stacked stacked g c)]
  have quiet : ∀ s', Received (none, s') ∧ TopShown s' ↔ TopShown s' :=
    fun s' => and_iff_right (uncalled_received s')
  cases c with
  | «open» app state => exact (quiet _).trans (iff_of_true (wmOpen_topShown topShown g app state) trivial)
  | focus w => exact (quiet _).trans (iff_of_true (wmFocus_topShown stacked topShown w) (by cases w <;> trivial))
  | animate => exact (quiet _).trans (iff_of_true ((wmAnimate_steady s).topShown.mpr topShown) trivial)
  | input m => exact input_clean stacked topShown g m
  | close w =>
    apply (quiet _).trans
    cases w with
    | none => exact iff_of_true topShown trivial
    | some i =>
      cases used : (s.pool i).used with
      | false =>
        rw [wmClose, used, if_pos rfl, Clean, used]
        exact iff_of_true topShown (absurd · Bool.false_ne_true)
      | true =>
        rw [wmClose_topShown stacked used, Clean, used]
        exact ⟨fun uncovers _ => uncovers, fun clean => clean rfl⟩
  | toggleMinimize w =>
    apply (quiet _).trans
    cases w with
    | none => exact iff_of_true topShown trivial
    | some i =>
      cases used : (s.pool i).used with
      | false =>
        rw [wmToggleMinimize, used, if_pos rfl, Clean, used]
        exact iff_of_true topShown (absurd · Bool.false_ne_true)
      | true =>
        rw [wmToggleMinimize_topShown stacked topShown used, Clean, used]
        exact ⟨fun alone _ => alone, fun clean => clean rfl⟩

theorem wmInit_topShown (s : Wm) : TopShown (wmInit s) := by
  rintro top ⟨⟩

/-- Every call of a run passes input to shown windows only and leaves the focus on the topmost
shown window, exactly if every call of it is clean. -/
theorem input_to_shown (g : Screen) (s : Wm) (l : List Call) :
    EachStep (fun s c => (call g s c).2) (fun s c => Received (call g s c) ∧ FocusShown (call g s c).2) (wmInit s) l ↔
      EachStep (fun s c => (call g s c).2) Clean (wmInit s) l := by
  apply eachStep_iff fun s => Stacked s ∧ TopShown s
  · rintro s c ⟨stacked, topShown⟩
    exact call_clean stacked topShown g c
  · rintro s c ⟨stacked, _⟩ ⟨_, focus⟩
    have stacked' := call_stacked stacked g c
    exact ⟨stacked', (focusShown_iff stacked').mp focus⟩
  · exact ⟨wmInit_stacked s, wmInit_topShown s⟩

def screen : Screen := ⟨1024, 768⟩

def bareWindow : Window :=
  { id := 0, used := false, visible := false, minimized := false, x := 0, y := 0, w := 0, h := 0, dragOffX := 0
    dragOffY := 0, dragging := false, title := [], icon := 0, app := none, state := 0, focused := false, anim := 0
    closing := false }

def bootWm : Wm := ⟨fun _ => bareWindow, fun _ => 0, 0, 1⟩

def terminalApp : AppDef := ⟨[], 1, 640, 420, true, true⟩

def untouched : Mouse := ⟨0, 0, false, false⟩

/-- Two windows are opened, the second is minimised, and a frame without a click follows: the
minimised window gets the keys, and the first one, which is shown, has no focus. -/
theorem minimized_receives :
    ¬ ∀ g s l, EachStep (fun s c => (call g s c).2) (fun s c => Received (call g s c) ∧ FocusShown (call g s c).2)
      (wmInit s) l := by
  intro always
  have received := (always screen bootWm _ [.open (some terminalApp) 1, .open (some terminalApp) 2, .toggleMinimize (some 1)]
    (.input untouched) [] rfl).1
  have hidden := received 1 (by decide +kernel)
  revert hidden
  decide +kernel

end RexOs.Desktop
