import Mathlib.Logic.Relation

/-! Runs of a labelled transition relation.

A run lists its labels in the order in which the steps were taken. Invariants
are proved once per step and carried to every state of a run by `Run.invariant`.
-/

set_option autoImplicit false

namespace RexOs.Library

section
variable {State Label : Type}

/-- `Run step start labels final`: the labels lead from `start` to `final`. -/
inductive Run (step : State → Label → State → Prop) (start : State) : List Label → State → Prop where
  | nil : Run step start [] start
  | snoc {labels : List Label} {state next : State} {label : Label} :
      Run step start labels state → step state label next → Run step start (labels ++ [label]) next

variable {step : State → Label → State → Prop} {start final : State} {labels : List Label}

theorem Run.invariant (Inv : State → Prop) (initial : Inv start)
    (kept : ∀ state label next, Inv state → step state label next → Inv next)
    (run : Run step start labels final) : Inv final := by
  induction run with
  | nil => exact initial
  | snoc _ taken ih => exact kept _ _ _ ih taken

theorem Run.single {label : Label} (run : Run step start [label] final) : step start label final := by
  generalize whole : [label] = labels at run
  cases run with
  | nil => cases whole
  | @snoc labels state _ label' before taken =>
    obtain ⟨rfl, rfl⟩ := List.append_singleton_inj.mp (show [] ++ [label] = labels ++ [label'] from whole)
    generalize none : ([] : List Label) = nothing at before
    cases before with
    | nil => exact taken
    | snoc _ _ => exact absurd none (by simp)

theorem Run.split {first second : List Label} (run : Run step start (first ++ second) final) :
    ∃ middle, Run step start first middle ∧ Run step middle second final := by
  generalize whole : first ++ second = labels at run
  induction run generalizing second with
  | nil =>
    obtain ⟨rfl, rfl⟩ := List.append_eq_nil_iff.mp whole
    exact ⟨start, Run.nil, Run.nil⟩
  | @snoc labels state next label before taken ih =>
    rcases List.eq_nil_or_concat second with rfl | ⟨second, last, rfl⟩
    · rw [List.append_nil] at whole
      subst whole
      exact ⟨next, before.snoc taken, Run.nil⟩
    · rw [List.concat_eq_append, ← List.append_assoc] at whole
      obtain ⟨rfl, rfl⟩ := List.append_singleton_inj.mp whole
      obtain ⟨middle, left, right⟩ := ih rfl
      rw [List.concat_eq_append]
      exact ⟨middle, left, right.snoc taken⟩

theorem Run.cons {middle : State} {label : Label} (first : step start label middle)
    (rest : Run step middle labels final) : Run step start (label :: labels) final := by
  induction rest with
  | nil => exact Run.nil.snoc first
  | snoc _ taken ih => exact ih.snoc taken

theorem Run.append {middle : State} {first second : List Label} (before : Run step start first middle)
    (rest : Run step middle second final) : Run step start (first ++ second) final := by
  induction rest with
  | nil =>
    rw [List.append_nil]
    exact before
  | snoc _ taken ih =>
    rw [← List.append_assoc]
    exact ih.snoc taken

def Allowed (allowed : State → Label → Prop) (apply : State → Label → State) : State → List Label → Prop
  | _, [] => True
  | state, label :: labels => allowed state label ∧ Allowed allowed apply (apply state label) labels

instance Allowed.decide (allowed : State → Label → Prop) [∀ state label, Decidable (allowed state label)]
    (apply : State → Label → State) : (state : State) → (labels : List Label) → Decidable (Allowed allowed apply state labels)
  | _, [] => .isTrue trivial
  | state, label :: labels =>
      have := Allowed.decide allowed apply (apply state label) labels
      inferInstanceAs (Decidable (allowed state label ∧ Allowed allowed apply (apply state label) labels))

theorem Run.exec {allowed : State → Label → Prop} {apply : State → Label → State}
    (all : Allowed allowed apply start labels) :
    Run (fun state label next => allowed state label ∧ next = apply state label) start labels
      (labels.foldl apply start) := by
  induction labels generalizing start with
  | nil => exact Run.nil
  | cons label labels ih => exact Run.cons ⟨all.1, rfl⟩ (ih all.2)

theorem Run.mono {step' : State → Label → State → Prop}
    (weaker : ∀ state label next, step state label next → step' state label next)
    (run : Run step start labels final) : Run step' start labels final := by
  induction run with
  | nil => exact Run.nil
  | snoc _ taken ih => exact ih.snoc (weaker _ _ _ taken)

end

/-! A property of single steps holds at every step of a run exactly where another one does, when
the two agree in each state that the invariant allows and the first one keeps the invariant.
-/

variable {State Label : Type} {next : State → Label → State} {s : State} {l l' : List Label}

/-- `P` holds of every step of the run over `l`. -/
def EachStep (next : State → Label → State) (P : State → Label → Prop) (s : State) (l : List Label) : Prop :=
  ∀ before c after, l = before ++ c :: after → P (before.foldl next s) c

theorem eachStep_nil (P : State → Label → Prop) : EachStep next P s [] := by
  intro before c after split
  cases before <;> cases split

theorem eachStep_cons {P : State → Label → Prop} {c : Label} :
    EachStep next P s (c :: l) ↔ P s c ∧ EachStep next P (next s c) l := by
  constructor
  · intro each
    constructor
    · exact each [] c l rfl
    · intro before c' after split
      exact each (c :: before) c' after (by rw [split]; rfl)
  · rintro ⟨first, rest⟩ before c' after split
    cases before with
    | nil =>
      cases split
      exact first
    | cons b before =>
      cases split
      exact rest before c' after rfl

theorem eachStep_append {P : State → Label → Prop} :
    EachStep next P s (l ++ l') ↔ EachStep next P s l ∧ EachStep next P (l.foldl next s) l' := by
  induction l generalizing s with
  | nil => exact ⟨fun rest => ⟨eachStep_nil P, rest⟩, fun both => both.2⟩
  | cons c l ih => rw [List.cons_append, eachStep_cons, eachStep_cons, ih, List.foldl_cons, and_assoc]

theorem eachStep_forall {P : State → Label → Prop} {Q : Label → Prop} (same : ∀ s, ∀ c ∈ l, P s c ↔ Q c) :
    EachStep next P s l ↔ ∀ c ∈ l, Q c := by
  induction l generalizing s with
  | nil => exact iff_of_true (eachStep_nil P) (List.forall_mem_nil Q)
  | cons c l ih =>
    rw [eachStep_cons, List.forall_mem_cons, same s c List.mem_cons_self,
      ih fun s c' member => same s c' (List.mem_cons_of_mem c member)]

theorem foldl_invariant (Inv : State → Prop) (kept : ∀ s c, Inv s → Inv (next s c)) (initial : Inv s) :
    Inv (l.foldl next s) := by
  induction l generalizing s with
  | nil => exact initial
  | cons c l ih => exact ih (kept s c initial)

theorem eachStep_iff {P Q : State → Label → Prop} (Inv : State → Prop) (agree : ∀ s c, Inv s → (P s c ↔ Q s c))
    (kept : ∀ s c, Inv s → P s c → Inv (next s c)) (initial : Inv s) : EachStep next P s l ↔ EachStep next Q s l := by
  induction l generalizing s with
  | nil => exact ⟨fun _ => eachStep_nil Q, fun _ => eachStep_nil P⟩
  | cons c l ih =>
    rw [eachStep_cons, eachStep_cons, ← agree s c initial]
    exact and_congr_right fun holds => ih (kept s c initial holds)

end RexOs.Library
