import RexOs.NetSurf.RelayoutSafe

/-! Whether a change of the DOM can be lost.

Beside the module runs a history that numbers the changes of every document and knows which of them
the shown tree and the tree being built have seen.
-/

set_option autoImplicit false

namespace RexOs.NetSurf

open RexOs.Library

/-- `dom` counts the changes of a document; `shown` and `building` are the counts at which the shown tree
and the one being built were begun. `allowedAt` is `relayoutAllowed` at the last change. -/
structure History where
  relayout : Relayout
  dom : Nat → Nat
  shown : Nat → Nat
  building : Nat
  allowedAt : Nat → Bool
  cancelled : Nat → Bool

namespace History
variable (h : History)

def next (l : RelayoutLabel) : History where
  relayout := l.apply h.relayout
  dom :=
    match l with
    | .mutate d => Function.update h.dom d (h.dom d + 1)
    | _ => h.dom
  shown := fun d =>
    if ((l.apply h.relayout).html d).layout = (h.relayout.html d).layout then h.shown d
    else
      match l with
      | .build _ _ => h.building
      | _ => h.dom d
  building :=
    match l with
    | .fireRun d _ _ => if (l.apply h.relayout).swap.owner = h.relayout.swap.owner then h.building else h.dom d
    | _ => h.building
  allowedAt :=
    match l with
    | .mutate d => Function.update h.allowedAt d (relayoutAllowed (h.relayout.html d))
    | _ => h.allowedAt
  cancelled :=
    match l with
    | .cancel d => Function.update h.cancelled d true
    | _ => h.cancelled

def Stale (d : Nat) : Prop := h.allowedAt d = true ∧ h.cancelled d = false ∧ h.shown d < h.dom d

def Pending (d : Nat) : Prop :=
  h.relayout.runAt d = true ∨
    h.relayout.swap.owner = some d ∧ (h.relayout.swap.dirty = true ∨ h.building = h.dom d)

end History

def HistoryStep (h : History) (l : RelayoutLabel) (h' : History) : Prop := l.Possible h.relayout ∧ h' = h.next l

def historyStart : History :=
  { relayout := relayoutStart, dom := fun _ => 0, shown := fun _ => 0, building := 0, allowedAt := fun _ => false
    cancelled := fun _ => false }

def Fires (r : Relayout) (d : Nat) (root : Bool) (answer : DomToBox) : Prop :=
  relayoutAllowed (r.html d) = true ∧ r.swap.owner = none ∧ (0 < (r.html d).active ∨ root = true ∧ answer = .started)

def Kept (h : History) : RelayoutLabel → Prop
  | .fireRun d root answer => h.Stale d → Fires h.relayout d root answer
  | .build d success => h.Stale d → success = true
  | _ => True

def KeptStep (h : History) (l : RelayoutLabel) (h' : History) : Prop := Kept h l ∧ HistoryStep h l h'

variable {r r' : Relayout} {d : Nat}

structure Still (d : Nat) (r r' : Relayout) : Prop where
  layout : ∀ e, (r'.html e).layout = (r.html e).layout
  runAt : ∀ e, e ≠ d → r'.runAt e = r.runAt e

theorem Still.trans {r'' : Relayout} (first : Still d r r') (second : Still d r' r'') : Still d r r'' :=
  ⟨fun e => (second.layout e).trans (first.layout e), fun e other => (second.runAt e other).trans (first.runAt e other)⟩

theorem still_update {h : Html} (html : r'.html = Function.update r.html d h) (layout : h.layout = (r.html d).layout)
    (runAt : r'.runAt = r.runAt) : Still d r r' := by
  constructor
  · intro e
    rw [html]
    exact field_update Html.layout layout e
  · intro e _
    rw [runAt]

theorem restoreOld_still (shown : (r.html d).layout = r.swap.oldLayout) (owned : r.swap.owner = some d) :
    Still d r (restoreOld r d) := by
  have shape := restoreOld_eq owned
  apply still_update (h := (restoreOld r d).html d)
  · rw [shape]
    simp only [Function.update_self]
  · rw [shape]
    simp only [Function.update_self]
    exact shown.symm
  · rw [shape]

theorem stash_still (r : Relayout) (d : Nat) : Still d r ((stash r d).emit [.dropNodeCaches d]) := still_update rfl rfl rfl

theorem makeContext_still (r : Relayout) (d : Nat) : Still d r (makeContext r d) := still_update rfl rfl rfl

inductive RunOutcome (r : Relayout) (d : Nat) (fires : Prop) : Relayout → Prop where
  | dropped : ¬ fires → RunOutcome r d fires r
  | postponed : RunOutcome r d fires (r.scheduleRun d true)
  | failed {r' : Relayout} : ¬ fires → Still d r r' → r.swap.owner = none → r'.swap.owner = none → RunOutcome r d fires r'
  | started {r' : Relayout} : Still d r r' → r.swap.owner = none → r'.swap.owner = some d → r'.swap.dirty = false →
      (r'.html d).converting = true → (r'.html d).bctx ≠ none → RunOutcome r d fires r'

theorem relayoutRun_outcome (r : Relayout) (d : Nat) (root : Bool) (answer : DomToBox) :
    RunOutcome r d (Fires r d root answer) (relayoutRun r d root answer) := by
  unfold relayoutRun
  dsimp only
  split
  · rename_i refused
    apply RunOutcome.dropped
    rintro ⟨allowed, _, _⟩
    rw [refused] at allowed
    cases allowed
  split
  · rename_i busy
    apply RunOutcome.dropped
    rintro ⟨_, idle, _⟩
    exact busy idle
  rename_i idle
  rw [ne_eq, not_not] at idle
  split
  · exact RunOutcome.postponed
  rename_i quiet
  split
  · rename_i noRoot
    apply RunOutcome.dropped
    rintro ⟨_, _, active | ⟨some_, _⟩⟩
    · exact quiet active
    · rw [noRoot] at some_
      cases some_
  have unstarted : ∀ b, ¬ Fires r d root (.failed b) := by
    rintro b ⟨_, _, active | ⟨_, started⟩⟩
    · exact quiet active
    · cases started
  have put := stash_still r d
  have made := put.trans (makeContext_still ((stash r d).emit [.dropNodeCaches d]) d)
  have old : ∀ q : Relayout, Still d r q → q.swap.oldLayout = (r.html d).layout → (q.html d).layout = q.swap.oldLayout := by
    intro q still same
    rw [same, still.layout d]
  split
  · apply RunOutcome.started
    · apply made.trans
      exact still_update rfl rfl rfl
    · exact idle
    · rfl
    · rfl
    · simp only [Relayout.setHtml, Function.update_self]
    · simp only [makeContext, Relayout.setHtml, Function.update_self]
      exact Option.some_ne_none _
  · apply RunOutcome.failed (unstarted _) _ idle (restoreOld_swap rfl).1
    exact made.trans (restoreOld_still (old _ made rfl) rfl)
  · apply RunOutcome.failed (unstarted _) _ idle (restoreOld_swap rfl).1
    exact put.trans (restoreOld_still (old _ put rfl) rfl)

/-- A document is converted while it is rebuilt, so a change that comes then does not count; without one
the tree being built has seen all changes. -/
structure NoLoss (h : History) : Prop where
  safe : Safe h.relayout
  converting : ∀ d, h.relayout.swap.owner = some d →
    (h.relayout.html d).converting = true ∧ (h.relayout.html d).bctx ≠ none
  seen : ∀ d, h.relayout.swap.owner = some d → h.relayout.swap.dirty = false → h.building = h.dom d
  dirtied : ∀ d, h.relayout.swap.owner = some d → h.relayout.swap.dirty = true → h.allowedAt d = false
  pending : ∀ d, h.Stale d → h.relayout.runAt d = true ∨ h.relayout.swap.owner = some d ∧ h.building = h.dom d

theorem historyStart_noLoss : NoLoss historyStart := by
  refine ⟨relayoutStart_safe, nofun, nofun, nofun, ?_⟩
  rintro d ⟨allowed, _⟩
  cases allowed

variable {h : History}

theorem next_shown {l : RelayoutLabel} {e : Nat}
    (same : ((l.apply h.relayout).html e).layout = (h.relayout.html e).layout) : (h.next l).shown e = h.shown e :=
  if_pos same

theorem NoLoss.calm {l : RelayoutLabel} (noLoss : NoLoss h) (safe : Safe (l.apply h.relayout))
    (swap : (l.apply h.relayout).swap = h.relayout.swap) (runAt : (l.apply h.relayout).runAt = h.relayout.runAt)
    (html : ∀ e, ((l.apply h.relayout).html e).layout = (h.relayout.html e).layout ∧
      ((l.apply h.relayout).html e).converting = (h.relayout.html e).converting ∧
      ((l.apply h.relayout).html e).bctx = (h.relayout.html e).bctx)
    (dom : (h.next l).dom = h.dom) (building : (h.next l).building = h.building)
    (allowedAt : (h.next l).allowedAt = h.allowedAt) (cancelled : (h.next l).cancelled = h.cancelled) :
    NoLoss (h.next l) := by
  have relayout : (h.next l).relayout = l.apply h.relayout := rfl
  refine ⟨safe, ?_, ?_, ?_, ?_⟩ <;> intro e <;> rw [relayout, swap]
  · intro owned
    rw [(html e).2.1, (html e).2.2]
    exact noLoss.converting e owned
  · rw [dom, building]
    exact noLoss.seen e
  · rw [allowedAt]
    exact noLoss.dirtied e
  · rw [History.Stale, next_shown (html e).1, dom, building, allowedAt, cancelled, runAt]
    exact noLoss.pending e

theorem NoLoss.load (noLoss : NoLoss h) (safe : Safe (loadTree h.relayout d)) (none_ : (h.relayout.html d).bctx = none)
    (other : h.relayout.swap.owner ≠ some d) : NoLoss (h.next (.load d)) := by
  have others : ∀ e, e ≠ d → (loadTree h.relayout d).html e = h.relayout.html e := by
    intro e away
    simp only [loadTree, makeContext, Relayout.setHtml, Function.update_of_ne away]
  have away : ∀ e, h.relayout.swap.owner = some e → e ≠ d := by
    rintro e owned rfl
    exact other owned
  refine ⟨safe, ?_, noLoss.seen, noLoss.dirtied, ?_⟩
  · intro e owned
    have same := others e (away e owned)
    simp only [History.next, RelayoutLabel.apply, same]
    exact noLoss.converting e owned
  · rintro e ⟨allowed, kept, old⟩
    by_cases here : e = d
    · -- the new tree has seen everything
      subst here
      have untreed : (h.relayout.html e).layout = none := by
        rw [Option.eq_none_iff_forall_ne_some]
        intro t tree
        have held := noLoss.safe.trees.layout e t tree other
        rw [none_] at held
        cases held
      have treed : ((loadTree h.relayout e).html e).layout = some h.relayout.nextBctx := by
        simp only [loadTree, makeContext, Relayout.setHtml, Function.update_self]
      simp only [History.next, RelayoutLabel.apply, untreed, treed, reduceCtorEq, if_false] at old
      exact absurd old (Nat.lt_irrefl _)
    · have same : (((RelayoutLabel.load d).apply h.relayout).html e).layout = (h.relayout.html e).layout :=
        congrArg Html.layout (others e here)
      rw [next_shown same] at old
      exact noLoss.pending e ⟨allowed, kept, old⟩

structure Mutated (d : Nat) (r r' : Relayout) : Prop where
  html : r'.html = r.html
  owner : r'.swap.owner = r.swap.owner
  runAt : ∀ e, e ≠ d → r'.runAt e = r.runAt e
  noted : r.swap.owner = some d → r'.swap.dirty = true
  kept : r.swap.owner ≠ some d → r'.swap.dirty = r.swap.dirty
  scheduled : r.swap.owner ≠ some d → relayoutAllowed (r.html d) = true → r'.runAt d = true

theorem domMutated_mutated (r : Relayout) (d : Nat) : Mutated d r (domMutated r d) := by
  have html := (domMutated_same r d).2.2
  have owner := (domMutated_same r d).1.swap.1
  unfold domMutated at html owner ⊢
  split
  · rename_i owned
    exact ⟨rfl, rfl, fun _ _ => rfl, fun _ => rfl, fun other => absurd owned other, fun other => absurd owned other⟩
  · rename_i other
    split
    · rename_i refused
      refine ⟨rfl, rfl, fun _ _ => rfl, fun owned => absurd owned other, fun _ => rfl, ?_⟩
      intro _ allowed
      rw [refused] at allowed
      cases allowed
    · refine ⟨rfl, rfl, ?_, fun owned => absurd owned other, fun _ => rfl, ?_⟩
      · intro e away
        simp only [Relayout.scheduleRun, Function.update_of_ne away]
      · intro _ _
        simp only [Relayout.scheduleRun, Function.update_self]

theorem NoLoss.mutate (noLoss : NoLoss h) (safe : Safe (domMutated h.relayout d)) : NoLoss (h.next (.mutate d)) := by
  have mutated : Mutated d h.relayout ((RelayoutLabel.mutate d).apply h.relayout) := domMutated_mutated h.relayout d
  have relayout : (h.next (.mutate d)).relayout = (RelayoutLabel.mutate d).apply h.relayout := rfl
  have others : ∀ e, e ≠ d → (h.next (.mutate d)).dom e = h.dom e ∧ (h.next (.mutate d)).allowedAt e = h.allowedAt e := by
    intro e away
    exact ⟨Function.update_of_ne away _ _, Function.update_of_ne away _ _⟩
  have here : (h.next (.mutate d)).allowedAt d = relayoutAllowed (h.relayout.html d) := Function.update_self _ _ _
  refine ⟨safe, ?_, ?_, ?_, ?_⟩
  · intro e owned
    rw [relayout, mutated.owner] at owned
    rw [relayout, mutated.html]
    exact noLoss.converting e owned
  · intro e owned clean
    rw [relayout, mutated.owner] at owned
    by_cases same : e = d
    · rw [relayout, mutated.noted (same ▸ owned)] at clean
      cases clean
    · have other : h.relayout.swap.owner ≠ some d := fun owner => same (Option.some.inj (owned.symm.trans owner))
      rw [relayout, mutated.kept other] at clean
      rw [(others e same).1]
      exact noLoss.seen e owned clean
  · intro e owned dirty
    rw [relayout, mutated.owner] at owned
    by_cases same : e = d
    · subst same
      rw [here]
      simp only [relayoutAllowed, (noLoss.converting e owned).1, if_true, ite_self]
    · have other : h.relayout.swap.owner ≠ some d := fun owner => same (Option.some.inj (owned.symm.trans owner))
      rw [relayout, mutated.kept other] at dirty
      rw [(others e same).2]
      exact noLoss.dirtied e owned dirty
  · rintro e ⟨allowed, kept, old⟩
    rw [relayout, mutated.owner]
    by_cases same : e = d
    · subst same
      rw [here] at allowed
      left
      apply mutated.scheduled _ allowed
      intro owned
      simp only [relayoutAllowed, (noLoss.converting e owned).1, if_true, ite_self, Bool.false_eq_true] at allowed
    · rw [next_shown (by rw [mutated.html]), (others e same).1] at old
      rw [(others e same).2] at allowed
      rw [mutated.runAt e same, (others e same).1]
      exact noLoss.pending e ⟨allowed, kept, old⟩

theorem NoLoss.fireRun {root : Bool} {answer : DomToBox} (noLoss : NoLoss h)
    (safe : Safe ((RelayoutLabel.fireRun d root answer).apply h.relayout)) (kept : Kept h (.fireRun d root answer)) :
    NoLoss (h.next (.fireRun d root answer)) := by
  have outcome : RunOutcome (h.relayout.scheduleRun d false) d (Fires h.relayout d root answer)
      (h.next (.fireRun d root answer)).relayout := relayoutRun_outcome (h.relayout.scheduleRun d false) d root answer
  have building : (h.next (.fireRun d root answer)).building =
      if (h.next (.fireRun d root answer)).relayout.swap.owner = h.relayout.swap.owner then h.building else h.dom d := rfl
  have shown : ∀ e, ((h.next (.fireRun d root answer)).relayout.html e).layout = (h.relayout.html e).layout →
      (h.next (.fireRun d root answer)).shown e = h.shown e := fun e same => next_shown same
  have ghosts : (h.next (.fireRun d root answer)).dom = h.dom ∧ (h.next (.fireRun d root answer)).allowedAt = h.allowedAt ∧
      (h.next (.fireRun d root answer)).cancelled = h.cancelled := ⟨rfl, rfl, rfl⟩
  have safe' : Safe (h.next (.fireRun d root answer)).relayout := safe
  generalize h.next (.fireRun d root answer) = h' at outcome building shown ghosts safe'
  obtain ⟨dom, allowedAt, cancelled⟩ := ghosts
  have stale : ∀ e, (h'.relayout.html e).layout = (h.relayout.html e).layout → h'.Stale e → h.Stale e := by
    intro e same
    rw [History.Stale, shown e same, dom, allowedAt, cancelled]
    exact id
  have off : ∀ e, e ≠ d → (h.relayout.scheduleRun d false).runAt e = h.relayout.runAt e :=
    fun e other => Function.update_of_ne other _ _
  generalize after : h'.relayout = r' at outcome building stale safe'
  -- the run was dropped or put off
  have unbegun : r'.swap = h.relayout.swap → r'.html = h.relayout.html →
      (∀ e, h.Stale e → r'.runAt e = true ∨ r'.runAt e = h.relayout.runAt e) → NoLoss h' := by
    intro swap html runAt
    rw [swap, if_pos rfl] at building
    refine ⟨after ▸ safe', ?_, ?_, ?_, ?_⟩ <;> rw [after, swap]
    · rw [html]
      exact noLoss.converting
    · rw [building, dom]
      exact noLoss.seen
    · rw [allowedAt]
      exact noLoss.dirtied
    · intro e old
      have before := stale e (by rw [html]) old
      rcases runAt e before with scheduled | same
      · exact Or.inl scheduled
      · rw [same, building, dom]
        exact noLoss.pending e before
  cases outcome with
  | dropped unfired =>
    apply unbegun rfl rfl
    intro e before
    exact Or.inr (off e fun same => unfired (kept (same ▸ before)))
  | postponed =>
    apply unbegun rfl rfl
    intro e _
    by_cases same : e = d
    · rw [same]
      exact Or.inl (Function.update_self _ _ _)
    · exact Or.inr ((Function.update_of_ne same _ _).trans (off e same))
  | failed unfired still idle ended =>
    refine ⟨after ▸ safe', ?_, ?_, ?_, ?_⟩ <;> rw [after]
    · intro e owned
      rw [ended] at owned
      cases owned
    · intro e owned
      rw [ended] at owned
      cases owned
    · intro e owned
      rw [ended] at owned
      cases owned
    · intro e old
      have before := stale e (still.layout e) old
      have away : e ≠ d := fun same => unfired (kept (same ▸ before))
      rw [still.runAt e away, off e away]
      rcases noLoss.pending e before with scheduled | ⟨owned, _⟩
      · exact Or.inl scheduled
      · exact absurd (idle.symm.trans owned) nofun
  | started still idle owner clean converting made =>
    have idle' : h.relayout.swap.owner = none := idle
    rw [owner, idle', if_neg nofun] at building
    have self : ∀ e, r'.swap.owner = some e → e = d := fun e owned => Option.some.inj (owned.symm.trans owner)
    refine ⟨after ▸ safe', ?_, ?_, ?_, ?_⟩ <;> rw [after]
    · intro e owned
      rw [self e owned]
      exact ⟨converting, made⟩
    · intro e owned _
      rw [self e owned, building, dom]
    · intro e _ dirty
      rw [clean] at dirty
      cases dirty
    · intro e old
      by_cases same : e = d
      · rw [same]
        right
        exact ⟨owner, by rw [building, dom]⟩
      · have before := stale e (still.layout e) old
        rw [still.runAt e same, off e same]
        rcases noLoss.pending e before with scheduled | ⟨owned, _⟩
        · exact Or.inl scheduled
        · exact absurd (idle'.symm.trans owned) nofun

theorem finishBuild_still (safe : Safe r) (owned : r.swap.owner = some d) : Still d r (finishBuild r d false) := by
  rw [finishBuild_failed owned]
  have ended : Still d r (endConversion r d { r.html d with converting := false }) := still_update rfl rfl rfl
  apply ended.trans
  apply restoreOld_still
  · rw [ended.layout d]
    exact safe.shown d owned
  · exact owned

theorem finishBuild_shows (safe : Safe r) (owned : r.swap.owner = some d) (made : (r.html d).bctx ≠ none) :
    ((finishBuild r d true).html d).layout ≠ (r.html d).layout ∧
      ∀ e, e ≠ d → ((finishBuild r d true).html e).layout = (r.html e).layout ∧ (finishBuild r d true).runAt e = r.runAt e := by
  have new : (r.html d).bctx ≠ r.swap.oldLayout := by
    intro same
    obtain ⟨t, held⟩ := Option.ne_none_iff_exists'.mp made
    have old := safe.trees.old d t owned (same.symm.trans held)
    have spare : bctxSlot r.html r.swap none = some t := by
      simp only [bctxSlot, owned, reduceCtorEq, if_false, old]
    cases safe.trees.bctx.alone (some d) none t held spare
  have trees : ∀ r' : Relayout, r'.html = Function.update r.html d
      { r.html d with layout := (r.html d).bctx, converting := false } → (∀ e, e ≠ d → r'.runAt e = r.runAt e) →
      (r'.html d).layout ≠ (r.html d).layout ∧
        ∀ e, e ≠ d → (r'.html e).layout = (r.html e).layout ∧ r'.runAt e = r.runAt e := by
    intro r' html runAt
    constructor
    · rw [html, Function.update_self, safe.shown d owned]
      exact new
    · intro e other
      rw [html, Function.update_of_ne other]
      exact ⟨rfl, runAt e other⟩
  rcases finishBuild_done owned with ⟨undone, _⟩ | done
  · rcases undone with none_ | same
    · exact absurd none_ made
    · exact absurd same new
  · have released := releaseOld_released
      (endConversion r d { r.html d with layout := (r.html d).bctx, converting := false }) d
    have quiet := layoutNew_quiet
      (releaseOld (endConversion r d { r.html d with layout := (r.html d).bctx, converting := false }) d) d
    have html := quiet.html.trans released.html
    have runAt := quiet.runAt.trans released.runAt
    rw [done]
    generalize layoutNew (releaseOld (endConversion r d { r.html d with layout := (r.html d).bctx, converting := false }) d) d = r4
      at html runAt
    dsimp only
    split
    · have mutated := domMutated_mutated { r4 with swap := { r4.swap with dirty := false } } d
      apply trees _ (mutated.html.trans html)
      intro e other
      exact (mutated.runAt e other).trans (congrFun runAt e)
    · exact trees r4 html fun e _ => congrFun runAt e

theorem NoLoss.build {success : Bool} (noLoss : NoLoss h) (safe : Safe (finishBuild h.relayout d success))
    (waits : h.relayout.expecting d = true) (ended : (finishBuild h.relayout d success).swap.owner = none)
    (kept : Kept h (.build d success)) : NoLoss (h.next (.build d success)) := by
  have owned := (noLoss.safe.expecting d).mp waits
  have relayout : (h.next (.build d success)).relayout = finishBuild h.relayout d success := rfl
  have none_ : ∀ e, (h.next (.build d success)).relayout.swap.owner ≠ some e := by
    intro e owner
    rw [relayout, ended] at owner
    cases owner
  refine ⟨safe, fun e owner => absurd owner (none_ e), fun e owner => absurd owner (none_ e),
    fun e owner => absurd owner (none_ e), ?_⟩
  -- another document was scheduled before
  have others : ∀ e, e ≠ d → h.Stale e → h.relayout.runAt e = true := by
    intro e other before
    rcases noLoss.pending e before with scheduled | ⟨owner, _⟩
    · exact scheduled
    · exact absurd (Option.some.inj (owner.symm.trans owned)) other
  rintro e ⟨allowed, uncancelled, old⟩
  left
  rw [relayout]
  cases success with
  | false =>
    have still := finishBuild_still noLoss.safe owned
    have shown : (h.next (.build d false)).shown e = h.shown e := next_shown (still.layout e)
    have before : h.Stale e := ⟨allowed, uncancelled, shown ▸ old⟩
    have other : e ≠ d := by
      rintro rfl
      cases kept before
    rw [still.runAt e other]
    exact others e other before
  | true =>
    obtain ⟨new, rest⟩ := finishBuild_shows noLoss.safe owned (noLoss.converting d owned).2
    by_cases same : e = d
    · subst same
      have shown : (h.next (.build e true)).shown e = h.building := if_neg new
      have dirty : h.relayout.swap.dirty = false := by
        apply Bool.eq_false_iff.mpr
        intro dirty
        have refused : h.allowedAt e = true := allowed
        rw [noLoss.dirtied e owned dirty] at refused
        cases refused
      rw [shown, noLoss.seen e owned dirty] at old
      exact absurd old (Nat.lt_irrefl _)
    · have shown : (h.next (.build d true)).shown e = h.shown e := next_shown (rest e same).1
      rw [(rest e same).2]
      exact others e same ⟨allowed, uncancelled, shown ▸ old⟩

theorem relayoutCancel_still (safe : Safe r) (d : Nat) : Still d r (relayoutCancel r d) := by
  have off : Still d r ((r.scheduleRun d false).scheduleSettle d false) := by
    constructor
    · intro e
      rfl
    · intro e other
      exact Function.update_of_ne other _ _
  unfold relayoutCancel
  dsimp only
  split
  · rename_i owned
    exact off.trans (restoreOld_still (safe.shown d owned) owned)
  · exact off

theorem relayoutCancel_other (other : r.swap.owner ≠ some d) :
    (relayoutCancel r d).swap = r.swap ∧ (relayoutCancel r d).html = r.html := by
  unfold relayoutCancel
  dsimp only
  split
  · rename_i owned
    exact absurd owned other
  · exact ⟨rfl, rfl⟩

theorem relayoutCancel_owner (owned : r.swap.owner = some d) : (relayoutCancel r d).swap.owner = none := by
  unfold relayoutCancel
  dsimp only
  split
  · rename_i still
    exact (restoreOld_swap still).1
  · rename_i other
    exact absurd owned other

theorem NoLoss.cancel (noLoss : NoLoss h) (safe : Safe (cancelDocument h.relayout d)) : NoLoss (h.next (.cancel d)) := by
  have relayout : (h.next (.cancel d)).relayout = cancelDocument h.relayout d := rfl
  have still : Still d h.relayout (cancelDocument h.relayout d) :=
    (relayoutCancel_still noLoss.safe d).trans (still_update rfl rfl rfl)
  have swap : (cancelDocument h.relayout d).swap = (relayoutCancel h.relayout d).swap := rfl
  have pending : ∀ e, (h.next (.cancel d)).Stale e → e ≠ d ∧ h.Stale e := by
    rintro e ⟨allowed, uncancelled, old⟩
    have same : (h.next (.cancel d)).shown e = h.shown e := next_shown (still.layout e)
    have away : e ≠ d := by
      rintro rfl
      exact absurd ((Function.update_self _ _ _).symm.trans uncancelled) nofun
    exact ⟨away, allowed, (Function.update_of_ne away _ _).symm.trans uncancelled, same ▸ old⟩
  by_cases owned : h.relayout.swap.owner = some d
  · have none_ : ∀ e, (h.next (.cancel d)).relayout.swap.owner ≠ some e := by
      intro e owner
      rw [relayout, swap, relayoutCancel_owner owned] at owner
      cases owner
    refine ⟨safe, fun e owner => absurd owner (none_ e), fun e owner => absurd owner (none_ e),
      fun e owner => absurd owner (none_ e), ?_⟩
    intro e stale
    obtain ⟨away, before⟩ := pending e stale
    rcases noLoss.pending e before with scheduled | ⟨owner, _⟩
    · left
      rw [relayout, still.runAt e away]
      exact scheduled
    · exact absurd (Option.some.inj (owner.symm.trans owned)) away
  · obtain ⟨same, html⟩ := relayoutCancel_other owned
    have others : ∀ e, e ≠ d → (cancelDocument h.relayout d).html e = h.relayout.html e := by
      intro e away
      rw [← html]
      exact Function.update_of_ne away _ _
    have ghosts : (h.next (.cancel d)).dom = h.dom ∧ (h.next (.cancel d)).building = h.building ∧
        (h.next (.cancel d)).allowedAt = h.allowedAt := ⟨rfl, rfl, rfl⟩
    rw [same] at swap
    refine ⟨safe, ?_, ?_, ?_, ?_⟩ <;> intro e <;> rw [relayout, swap]
    · intro owner
      have away : e ≠ d := fun here => owned (here ▸ owner)
      rw [others e away]
      exact noLoss.converting e owner
    · exact noLoss.seen e
    · exact noLoss.dirtied e
    · intro stale
      obtain ⟨away, before⟩ := pending e stale
      rw [still.runAt e away]
      exact noLoss.pending e before

theorem NoLoss.step {l : RelayoutLabel} {h' : History} (noLoss : NoLoss h) (step : KeptStep h l h') : NoLoss h' := by
  obtain ⟨kept, possible, rfl⟩ := step
  have safe : Safe (l.apply h.relayout) := noLoss.safe.step ⟨possible, rfl⟩
  -- a document changes in fields that do not matter here
  have fields : ∀ d x, x.layout = (h.relayout.html d).layout → x.converting = (h.relayout.html d).converting →
      x.bctx = (h.relayout.html d).bctx → ∀ e, (Function.update h.relayout.html d x e).layout = (h.relayout.html e).layout ∧
        (Function.update h.relayout.html d x e).converting = (h.relayout.html e).converting ∧
        (Function.update h.relayout.html d x e).bctx = (h.relayout.html e).bctx := by
    intro d x layout converting bctx e
    exact ⟨field_update Html.layout layout e, field_update Html.converting converting e, field_update Html.bctx bctx e⟩
  cases l with
  | load d => exact noLoss.load safe possible.1 possible.2
  | flags d f => exact noLoss.calm safe rfl rfl (fields d _ rfl rfl rfl) rfl rfl rfl rfl
  | form d f => exact noLoss.calm safe rfl rfl (fields d _ rfl rfl rfl) rfl rfl rfl rfl
  | fetch d =>
    have shape : ∃ x, x.layout = (h.relayout.html d).layout ∧ x.converting = (h.relayout.html d).converting ∧
        x.bctx = (h.relayout.html d).bctx ∧ (fetchObject h.relayout d).html = Function.update h.relayout.html d x ∧
        (fetchObject h.relayout d).swap = h.relayout.swap ∧ (fetchObject h.relayout d).runAt = h.relayout.runAt := by
      unfold fetchObject
      dsimp only
      split <;> refine ⟨_, ?_, ?_, ?_, rfl, rfl, rfl⟩ <;> rfl
    obtain ⟨x, layout, converting, bctx, html, swap, runAt⟩ := shape
    apply noLoss.calm safe swap runAt _ rfl rfl rfl rfl
    intro e
    simp only [RelayoutLabel.apply, html]
    exact fields d x layout converting bctx e
  | mutate d => exact noLoss.mutate safe
  | fireRun d root answer => exact noLoss.fireRun safe kept
  | fireSettle d =>
    have quiet := settle_quiet (h.relayout.scheduleSettle d false) d
    apply noLoss.calm safe quiet.swap quiet.runAt _ rfl rfl rfl rfl
    intro e
    have html := congrFun quiet.html e
    simp only [RelayoutLabel.apply, html]
    exact ⟨rfl, rfl, rfl⟩
  | build d success =>
    have owned := (noLoss.safe.expecting d).mp possible
    have ended := noLoss.safe.ended owned (l := .build d success) ⟨possible, rfl⟩ (Or.inr ⟨success, rfl⟩)
    exact noLoss.build safe possible ended kept
  | cancel d => exact noLoss.cancel safe

theorem no_lost_mutation {ls : List RelayoutLabel} (run : Run KeptStep historyStart ls h) :
    ∀ d, h.Stale d → h.Pending d := by
  intro d stale
  have noLoss := run.invariant NoLoss historyStart_noLoss fun _ _ _ noLoss step => noLoss.step step
  rcases noLoss.pending d stale with scheduled | ⟨owned, seen⟩
  · exact Or.inl scheduled
  · exact Or.inr ⟨owned, Or.inr seen⟩

def changed : List RelayoutLabel := [.load 0, .flags 0 shownFlags, .mutate 0, .fireRun 0 true .started]

theorem changed_run : Run KeptStep historyStart changed (changed.foldl History.next historyStart) := by
  have kept : Allowed (fun h l => Kept h l ∧ l.Possible h.relayout) History.next historyStart changed :=
    ⟨⟨trivial, rfl, nofun⟩, ⟨trivial, trivial⟩, ⟨trivial, trivial⟩, ⟨fun _ => ⟨rfl, rfl, Or.inr ⟨rfl, rfl⟩⟩, rfl⟩, trivial⟩
  apply (Run.exec kept).mono
  intro h l h' step
  exact ⟨step.1.1, step.1.2, step.2⟩

theorem no_lost_mutation_changed : (changed.foldl History.next historyStart).Pending 0 :=
  no_lost_mutation changed_run 0 ⟨rfl, rfl, by decide +kernel⟩

/-- Two documents are changed, and the run of the second comes while the first is being rebuilt. -/
def twoChanged : List RelayoutLabel :=
  [.load 0, .load 1, .flags 0 shownFlags, .flags 1 shownFlags, .mutate 0, .mutate 1, .fireRun 0 true .started,
    .fireRun 1 true .started]

/-- The second change is neither scheduled nor being built. -/
theorem second_mutation_lost : ¬ ∀ (ls : List RelayoutLabel) (h : History), Run HistoryStep historyStart ls h →
    ∀ d, h.Stale d → h.Pending d := by
  intro safe
  have possible : Allowed (fun h l => l.Possible h.relayout) History.next historyStart twoChanged :=
    ⟨⟨rfl, nofun⟩, ⟨rfl, nofun⟩, trivial, trivial, trivial, trivial, rfl, rfl, trivial⟩
  have stale : (twoChanged.foldl History.next historyStart).Stale 1 := ⟨rfl, rfl, by decide +kernel⟩
  rcases safe _ _ (Run.exec possible) 1 stale with scheduled | ⟨owned, _⟩
  · cases scheduled
  · cases owned

end RexOs.NetSurf
