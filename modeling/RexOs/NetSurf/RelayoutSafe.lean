import RexOs.Library.Slots
import RexOs.NetSurf.Relayout

/-! Who owns the talloc contexts and the object lists of the box trees.

Every document is a slot, and the swap record is one more while a rebuild is under way.
-/

set_option autoImplicit false

namespace RexOs.NetSurf

open RexOs.Library

def Freed.ctx : Freed → Option Nat
  | .bctx c => some c
  | _ => none

def Freed.list : Freed → Option Nat
  | .objects l => some l
  | _ => none

def bctxSlot (html : Nat → Html) (swap : Swap) : Option Nat → Option Nat
  | some d => (html d).bctx
  | none => if swap.owner = none then none else swap.oldBctx

def objectSlot (html : Nat → Html) (swap : Swap) : Option Nat → Option Nat
  | some d => (html d).objectList
  | none => if swap.owner = none then none else swap.oldObjects

theorem bctxSlot_update {html : Nat → Html} (swap : Swap) {d : Nat} {h : Html} (same : h.bctx = (html d).bctx) :
    bctxSlot (Function.update html d h) swap = bctxSlot html swap := by
  funext i
  cases i with
  | none => rfl
  | some e =>
    by_cases here : e = d
    · subst here
      simp only [bctxSlot, Function.update_self, same]
    · simp only [bctxSlot, Function.update_of_ne here]

theorem objectSlot_update {html : Nat → Html} (swap : Swap) {d : Nat} {h : Html}
    (same : h.objectList = (html d).objectList) : objectSlot (Function.update html d h) swap = objectSlot html swap := by
  funext i
  cases i with
  | none => rfl
  | some e =>
    by_cases here : e = d
    · subst here
      simp only [objectSlot, Function.update_self, same]
    · simp only [objectSlot, Function.update_of_ne here]

/-- Contexts and lists are accounted for, and a tree that is shown or put aside is in the context beside it. -/
structure Trees (r : Relayout) : Prop where
  bctx : Accounted (bctxSlot r.html r.swap) (r.log.filterMap Freed.ctx) r.nextBctx
  objects : Accounted (objectSlot r.html r.swap) (r.log.filterMap Freed.list) r.nextObjects
  layout : ∀ d t, (r.html d).layout = some t → r.swap.owner ≠ some d → (r.html d).bctx = some t
  old : ∀ d t, r.swap.owner = some d → r.swap.oldLayout = some t → r.swap.oldBctx = some t

/-- The document that is rebuilt still shows its old tree, and `dom_to_box` is at work for it. -/
structure Safe (r : Relayout) : Prop where
  trees : Trees r
  shown : ∀ d, r.swap.owner = some d → (r.html d).layout = r.swap.oldLayout
  expecting : ∀ d, r.expecting d = true ↔ r.swap.owner = some d

theorem relayoutStart_safe : Safe relayoutStart := by
  have slots : ∀ i, bctxSlot relayoutStart.html relayoutStart.swap i = none ∧
      objectSlot relayoutStart.html relayoutStart.swap i = none := by
    intro i
    cases i <;> exact ⟨rfl, rfl⟩
  refine ⟨⟨?_, ?_, nofun, nofun⟩, nofun, fun d => ⟨nofun, nofun⟩⟩
  · rw [funext fun i => (slots i).1]
    exact Accounted.empty
  · rw [funext fun i => (slots i).2]
    exact Accounted.empty

variable {r r' : Relayout} {d : Nat}

structure SameTrees (r r' : Relayout) : Prop where
  html : ∀ e, (r'.html e).bctx = (r.html e).bctx ∧ (r'.html e).objectList = (r.html e).objectList
  layout : ∀ e, r.swap.owner ≠ some e → (r'.html e).layout = (r.html e).layout
  swap : r'.swap.owner = r.swap.owner ∧ r'.swap.oldBctx = r.swap.oldBctx ∧ r'.swap.oldObjects = r.swap.oldObjects ∧
    r'.swap.oldLayout = r.swap.oldLayout
  log : r'.log.filterMap Freed.ctx = r.log.filterMap Freed.ctx ∧ r'.log.filterMap Freed.list = r.log.filterMap Freed.list
  next : r'.nextBctx = r.nextBctx ∧ r'.nextObjects = r.nextObjects

theorem Trees.same (trees : Trees r) (same : SameTrees r r') : Trees r' := by
  obtain ⟨html, layout, ⟨owner, oldBctx, oldObjects, oldLayout⟩, log, next⟩ := same
  have slots : bctxSlot r'.html r'.swap = bctxSlot r.html r.swap ∧ objectSlot r'.html r'.swap = objectSlot r.html r.swap := by
    constructor <;> funext i <;> cases i with
    | none => simp only [bctxSlot, objectSlot, owner, oldBctx, oldObjects]
    | some e => simp only [bctxSlot, objectSlot, html e]
  constructor
  · rw [slots.1, log.1, next.1]
    exact trees.bctx
  · rw [slots.2, log.2, next.2]
    exact trees.objects
  · intro e t shown other
    rw [owner] at other
    rw [layout e other] at shown
    rw [(html e).1]
    exact trees.layout e t shown other
  · rw [owner, oldLayout, oldBctx]
    exact trees.old

theorem Safe.same (safe : Safe r) (same : SameTrees r r')
    (shown : ∀ e, r.swap.owner = some e → (r'.html e).layout = (r.html e).layout) (expecting : r'.expecting = r.expecting) :
    Safe r' := by
  refine ⟨safe.trees.same same, ?_, ?_⟩
  · intro e owned
    rw [same.swap.1] at owned
    rw [shown e owned, same.swap.2.2.2, safe.shown e owned]
  · rw [expecting, same.swap.1]
    exact safe.expecting

theorem ctx_objects (x : Option Nat) : (x.toList.map Freed.objects).filterMap Freed.ctx = [] := by cases x <;> rfl

theorem ctx_bctx (x : Option Nat) : (x.toList.map Freed.bctx).filterMap Freed.ctx = x.toList := by cases x <;> rfl

theorem list_objects (x : Option Nat) : (x.toList.map Freed.objects).filterMap Freed.list = x.toList := by cases x <;> rfl

theorem list_bctx (x : Option Nat) : (x.toList.map Freed.bctx).filterMap Freed.list = [] := by cases x <;> rfl

theorem forms_nothing (forms : List Nat) :
    (forms.map Freed.form).filterMap Freed.ctx = [] ∧ (forms.map Freed.form).filterMap Freed.list = [] := by
  induction forms with
  | nil => exact ⟨rfl, rfl⟩
  | cons f forms ih => exact ih

theorem restoreOld_eq (owned : r.swap.owner = some d) :
    restoreOld r d = { r with
      html := Function.update r.html d
        { r.html d with
          bctx := r.swap.oldBctx, layout := r.swap.oldLayout, forms := r.swap.oldForms
          objectList := r.swap.oldObjects, numObjects := r.swap.oldNumObjects }
      swap := { r.swap with owner := none, dirty := false }
      log := r.log ++ (r.html d).objectList.toList.map .objects ++ (r.html d).bctx.toList.map .bctx } := by
  rw [restoreOld, if_neg (not_not.mpr owned)]
  simp only [freeObjectList, Relayout.emit, Relayout.setHtml, Function.update_self, Function.update_idem]

theorem Trees.restore (trees : Trees r) (owned : r.swap.owner = some d) : Trees (restoreOld r d) := by
  obtain ⟨bctx, objects, layout, old⟩ := trees
  have apart : (some d : Option Nat) ≠ none := nofun
  have others : ∀ e, e ≠ d → ∀ h, Function.update r.html d h e = r.html e := fun e other h => Function.update_of_ne other _ _
  rw [restoreOld_eq owned]
  constructor
  · simp only [List.filterMap_append, ctx_objects, ctx_bctx, List.append_nil]
    apply bctx.restore apart
    · simp only [bctxSlot, Function.update_self, owned, reduceCtorEq, if_false]
    · simp only [bctxSlot, if_true]
    · intro i notHere notSpare
      cases i with
      | none => exact absurd rfl notSpare
      | some e => simp only [bctxSlot, others e (fun same => notHere (congrArg some same))]
  · simp only [List.filterMap_append, list_objects, list_bctx, List.append_nil]
    apply objects.restore apart
    · simp only [objectSlot, Function.update_self, owned, reduceCtorEq, if_false]
    · simp only [objectSlot, if_true]
    · intro i notHere notSpare
      cases i with
      | none => exact absurd rfl notSpare
      | some e => simp only [objectSlot, others e (fun same => notHere (congrArg some same))]
  · intro e t shown _
    by_cases same : e = d
    · subst same
      simp only [Function.update_self] at shown ⊢
      exact old e t owned shown
    · simp only [others e same] at shown ⊢
      apply layout e t shown
      rw [owned]
      exact fun here => same (Option.some.inj here).symm
  · intro e t none_
    cases none_

structure Released (r r' : Relayout) : Prop where
  html : r'.html = r.html
  swap : r'.swap = { r.swap with owner := none }
  runAt : r'.runAt = r.runAt
  expecting : r'.expecting = r.expecting
  next : r'.nextBctx = r.nextBctx ∧ r'.nextObjects = r.nextObjects
  ctx : r'.log.filterMap Freed.ctx = r.log.filterMap Freed.ctx ++ r.swap.oldBctx.toList
  list : r'.log.filterMap Freed.list = r.log.filterMap Freed.list ++ r.swap.oldObjects.toList

theorem releaseOld_released (r : Relayout) (d : Nat) : Released r (releaseOld r d) := by
  have forms := forms_nothing r.swap.oldForms
  -- the list of the document is not touched
  have html : Function.update r.html d { r.html d with numObjects := (r.html d).numObjects } = r.html :=
    Function.update_eq_self d r.html
  unfold releaseOld
  simp only [freeObjectList, Relayout.setHtml, Relayout.emit, html]
  cases (r.html d).sel <;> refine ⟨rfl, rfl, rfl, rfl, ⟨rfl, rfl⟩, ?_, ?_⟩ <;>
    simp only [Bool.false_eq_true, if_false, if_true, List.filterMap_append, ctx_objects, ctx_bctx, list_objects, list_bctx,
      forms, List.filterMap_cons, List.filterMap_nil, Freed.ctx, Freed.list, List.append_nil]

/-- Only events that free nothing, and the callback of `settle`. -/
structure Quiet (r r' : Relayout) : Prop where
  html : r'.html = r.html
  swap : r'.swap = r.swap
  runAt : r'.runAt = r.runAt
  expecting : r'.expecting = r.expecting
  next : r'.nextBctx = r.nextBctx ∧ r'.nextObjects = r.nextObjects
  ctx : r'.log.filterMap Freed.ctx = r.log.filterMap Freed.ctx
  list : r'.log.filterMap Freed.list = r.log.filterMap Freed.list

theorem Quiet.refl (r : Relayout) : Quiet r r := ⟨rfl, rfl, rfl, rfl, ⟨rfl, rfl⟩, rfl, rfl⟩

theorem Quiet.trans {r'' : Relayout} (first : Quiet r r') (second : Quiet r' r'') : Quiet r r'' :=
  ⟨second.html.trans first.html, second.swap.trans first.swap, second.runAt.trans first.runAt,
    second.expecting.trans first.expecting, ⟨second.next.1.trans first.next.1, second.next.2.trans first.next.2⟩,
    second.ctx.trans first.ctx, second.list.trans first.list⟩

theorem Quiet.same (quiet : Quiet r r') : SameTrees r r' := by
  obtain ⟨html, swap, _, _, next, ctx, list⟩ := quiet
  refine ⟨?_, ?_, ?_, ⟨ctx, list⟩, next⟩
  · intro e
    rw [html]
    exact ⟨rfl, rfl⟩
  · intro e _
    rw [html]
  · rw [swap]
    exact ⟨rfl, rfl, rfl, rfl⟩

theorem Safe.quiet (safe : Safe r) (quiet : Quiet r r') : Safe r' := by
  apply safe.same quiet.same
  · intro e _
    rw [quiet.html]
  · exact quiet.expecting

theorem emit_quiet (r : Relayout) {event : Freed} (ctx : event.ctx = none) (list : event.list = none) :
    Quiet r (r.emit [event]) := by
  refine ⟨rfl, rfl, rfl, rfl, ⟨rfl, rfl⟩, ?_, ?_⟩ <;> simp [Relayout.emit, ctx, list]

theorem scheduleSettle_quiet (r : Relayout) (d : Nat) (on : Bool) : Quiet r (r.scheduleSettle d on) :=
  ⟨rfl, rfl, rfl, rfl, ⟨rfl, rfl⟩, rfl, rfl⟩

theorem reformat_quiet (r : Relayout) (d : Nat) : Quiet r (reformat r d) := by
  rw [reformat]
  split
  · exact emit_quiet r rfl rfl
  · exact Quiet.refl r

theorem layoutNew_quiet (r : Relayout) (d : Nat) : Quiet r (layoutNew r d) := by
  have laidOut := (emit_quiet r rfl rfl).trans (reformat_quiet (r.emit [.imagemapExtract d]) d)
  unfold layoutNew
  dsimp only
  split
  · exact laidOut.trans (scheduleSettle_quiet _ _ _)
  · exact laidOut

theorem settle_quiet (r : Relayout) (d : Nat) : Quiet r (settle r d) := by
  unfold settle
  split
  · exact Quiet.refl r
  · split
    · exact scheduleSettle_quiet _ _ _
    · exact reformat_quiet r d

theorem Trees.release (trees : Trees r) (owned : r.swap.owner = some d)
    (shown : ∀ t, (r.html d).layout = some t → (r.html d).bctx = some t) (released : Released r r') : Trees r' := by
  obtain ⟨bctx, objects, layout, old⟩ := trees
  obtain ⟨html, swap, _, _, next, ctx, list⟩ := released
  have spare : bctxSlot r.html r.swap none = r.swap.oldBctx ∧ objectSlot r.html r.swap none = r.swap.oldObjects := by
    simp only [bctxSlot, objectSlot, owned, reduceCtorEq, if_false, and_self]
  constructor
  · rw [ctx, next.1, html, swap, ← spare.1]
    apply bctx.free
    · simp only [bctxSlot, if_true]
    · intro i notSpare
      cases i with
      | none => exact absurd rfl notSpare
      | some e => rfl
  · rw [list, next.2, html, swap, ← spare.2]
    apply objects.free
    · simp only [objectSlot, if_true]
    · intro i notSpare
      cases i with
      | none => exact absurd rfl notSpare
      | some e => rfl
  · intro e t tree _
    rw [html] at tree ⊢
    by_cases same : e = d
    · subst same
      exact shown t tree
    · apply layout e t tree
      rw [owned]
      exact fun here => same (Option.some.inj here).symm
  · intro e t none_
    rw [swap] at none_
    cases none_

theorem domMutated_same (r : Relayout) (d : Nat) : SameTrees r (domMutated r d) ∧ (domMutated r d).expecting = r.expecting ∧
    (domMutated r d).html = r.html := by
  unfold domMutated
  split
  · exact ⟨⟨fun _ => ⟨rfl, rfl⟩, fun _ _ => rfl, ⟨rfl, rfl, rfl, rfl⟩, ⟨rfl, rfl⟩, ⟨rfl, rfl⟩⟩, rfl, rfl⟩
  · split <;>
      exact ⟨⟨fun _ => ⟨rfl, rfl⟩, fun _ _ => rfl, ⟨rfl, rfl, rfl, rfl⟩, ⟨rfl, rfl⟩, ⟨rfl, rfl⟩⟩, rfl, rfl⟩

theorem Safe.mutated (safe : Safe r) (d : Nat) : Safe (domMutated r d) := by
  obtain ⟨same, expecting, html⟩ := domMutated_same r d
  apply safe.same same _ expecting
  intro e _
  rw [html]

theorem Safe.settled (trees : Trees r) (none_ : r.swap.owner = none) (expecting : ∀ e, r.expecting e = false) : Safe r := by
  refine ⟨trees, ?_, ?_⟩
  · intro e owned
    rw [none_] at owned
    cases owned
  · intro e
    rw [expecting, none_]
    constructor <;> intro h <;> cases h

theorem restoreOld_swap (owned : r.swap.owner = some d) :
    (restoreOld r d).swap.owner = none ∧ (restoreOld r d).expecting = r.expecting := by
  rw [restoreOld_eq owned]
  exact ⟨rfl, rfl⟩

theorem Safe.silenced (safe : Safe r) (owned : r.swap.owner = some d) (e : Nat) :
    Function.update r.expecting d false e = false := by
  by_cases same : e = d
  · rw [same, Function.update_self]
  · rw [Function.update_of_ne same]
    apply Bool.eq_false_iff.mpr
    intro waits
    have other := (safe.expecting e).mp waits
    rw [owned] at other
    exact same (Option.some.inj other).symm

theorem sameTrees_update {h : Html} (bctx : h.bctx = (r.html d).bctx) (objectList : h.objectList = (r.html d).objectList)
    (layout : r.swap.owner ≠ some d → h.layout = (r.html d).layout) (html : r'.html = Function.update r.html d h)
    (swap : r'.swap = r.swap) (log : r'.log = r.log) (next : r'.nextBctx = r.nextBctx ∧ r'.nextObjects = r.nextObjects) :
    SameTrees r r' := by
  refine ⟨?_, ?_, ?_, ?_, next⟩
  · intro e
    rw [html]
    by_cases same : e = d
    · subst same
      rw [Function.update_self]
      exact ⟨bctx, objectList⟩
    · rw [Function.update_of_ne same]
      exact ⟨rfl, rfl⟩
  · intro e other
    rw [html]
    by_cases same : e = d
    · subst same
      rw [Function.update_self]
      exact layout other
    · rw [Function.update_of_ne same]
  · rw [swap]
    exact ⟨rfl, rfl, rfl, rfl⟩
  · rw [log]
    exact ⟨rfl, rfl⟩

theorem Safe.setHtml (safe : Safe r) (d : Nat) {h : Html} (bctx : h.bctx = (r.html d).bctx)
    (objectList : h.objectList = (r.html d).objectList) (layout : h.layout = (r.html d).layout) : Safe (r.setHtml d h) := by
  have same : SameTrees r (r.setHtml d h) := sameTrees_update bctx objectList (fun _ => layout) rfl rfl rfl ⟨rfl, rfl⟩
  apply safe.same same
  · intro e _
    by_cases same : e = d
    · subst same
      simp only [Relayout.setHtml, Function.update_self]
      exact layout
    · simp only [Relayout.setHtml, Function.update_of_ne same]
  · rfl

theorem finishBuild_failed (owned : r.swap.owner = some d) :
    finishBuild r d false = restoreOld (endConversion r d { r.html d with converting := false }) d := by
  simp only [finishBuild, rebuildDone, endConversion, Bool.false_eq_true, if_false, Relayout.setHtml, owned, ne_eq,
    not_true_eq_false, true_or, if_true, Function.update_self, Function.update_idem]

theorem finishBuild_done (owned : r.swap.owner = some d) :
    let r2 := endConversion r d { r.html d with layout := (r.html d).bctx, converting := false }
    ((r.html d).bctx = none ∨ (r.html d).bctx = r.swap.oldLayout) ∧ finishBuild r d true = restoreOld r2 d ∨
      finishBuild r d true =
        let r3 := layoutNew (releaseOld r2 d) d
        if r3.swap.dirty then domMutated { r3 with swap := { r3.swap with dirty := false } } d else r3 := by
  simp only [finishBuild, rebuildDone, endConversion, if_true, Relayout.setHtml, owned, ne_eq, not_true_eq_false, if_false,
    Function.update_self, Function.update_idem, reduceCtorEq, false_or]
  split
  · rename_i same
    exact Or.inl ⟨same, rfl⟩
  · exact Or.inr rfl

theorem Safe.build (safe : Safe r) (waits : r.expecting d = true) (success : Bool) : Safe (finishBuild r d success) := by
  have owned := (safe.expecting d).mp waits
  have silent := safe.silenced owned
  have back : ∀ r2 : Relayout, Trees r2 → r2.swap.owner = some d → r2.expecting = Function.update r.expecting d false →
      Safe (restoreOld r2 d) := by
    intro r2 trees still expecting
    obtain ⟨none_, same⟩ := restoreOld_swap still
    apply Safe.settled (trees.restore still) none_
    rw [same, expecting]
    exact silent
  cases success with
  | false =>
    rw [finishBuild_failed owned]
    have same : SameTrees r (endConversion r d { r.html d with converting := false }) :=
      sameTrees_update (h := { r.html d with converting := false }) rfl rfl (fun _ => rfl) rfl rfl rfl ⟨rfl, rfl⟩
    exact back _ (safe.trees.same same) owned rfl
  | true =>
    have same : SameTrees r (endConversion r d { r.html d with layout := (r.html d).bctx, converting := false }) :=
      sameTrees_update (h := { r.html d with layout := (r.html d).bctx, converting := false }) rfl rfl
        (fun other => absurd owned other) rfl rfl rfl ⟨rfl, rfl⟩
    have trees := safe.trees.same same
    rcases finishBuild_done owned with ⟨_, undone⟩ | done
    · rw [undone]
      exact back _ trees owned rfl
    · rw [done]
      have released := releaseOld_released
        (endConversion r d { r.html d with layout := (r.html d).bctx, converting := false }) d
      have quiet := layoutNew_quiet
        (releaseOld (endConversion r d { r.html d with layout := (r.html d).bctx, converting := false }) d) d
      generalize releaseOld (endConversion r d { r.html d with layout := (r.html d).bctx, converting := false }) d = r3 at released quiet
      generalize layoutNew r3 d = r4 at quiet
      have shown : Safe r4 := by
        apply Safe.quiet _ quiet
        apply Safe.settled
        · apply trees.release owned _ released
          intro t tree
          simp only [endConversion, Function.update_self] at tree ⊢
          exact tree
        · rw [released.swap]
        · rw [released.expecting]
          exact silent
      dsimp only
      split
      · apply Safe.mutated
        exact shown.same ⟨fun _ => ⟨rfl, rfl⟩, fun _ _ => rfl, ⟨rfl, rfl, rfl, rfl⟩, ⟨rfl, rfl⟩, ⟨rfl, rfl⟩⟩
          (fun _ _ => rfl) rfl
      · exact shown

theorem Safe.cancel (safe : Safe r) (d : Nat) : Safe (cancelDocument r d) := by
  have unscheduled : Safe ((r.scheduleRun d false).scheduleSettle d false) :=
    safe.same ⟨fun _ => ⟨rfl, rfl⟩, fun _ _ => rfl, ⟨rfl, rfl, rfl, rfl⟩, ⟨rfl, rfl⟩, ⟨rfl, rfl⟩⟩ (fun _ _ => rfl) rfl
  unfold cancelDocument relayoutCancel
  dsimp only
  generalize (r.scheduleRun d false).scheduleSettle d false = q at unscheduled
  have ended : ∀ q' : Relayout, SameTrees q' (endConversion q' d { q'.html d with converting := false }) := by
    intro q'
    exact sameTrees_update (h := { q'.html d with converting := false }) rfl rfl (fun _ => rfl) rfl rfl rfl ⟨rfl, rfl⟩
  split
  · rename_i owned
    obtain ⟨none_, expecting⟩ := restoreOld_swap owned
    apply Safe.settled ((unscheduled.trees.restore owned).same (ended _)) none_
    intro e
    simp only [endConversion, expecting]
    exact unscheduled.silenced owned e
  · rename_i other
    have same := unscheduled.setHtml d (h := { q.html d with converting := false }) rfl rfl rfl
    refine ⟨unscheduled.trees.same (ended q), same.shown, ?_⟩
    intro e
    by_cases here : e = d
    · subst here
      simp only [endConversion, Function.update_self, Bool.false_eq_true, false_iff]
      exact other
    · simp only [endConversion, Function.update_of_ne here]
      exact unscheduled.expecting e

theorem makeContext_accounted {html : Nat → Html} {swap : Swap} {freed : List Nat} {next : Nat} {h : Html}
    (accounted : Accounted (bctxSlot html swap) freed next) (none_ : (html d).bctx = none) (made : h.bctx = some next) :
    Accounted (bctxSlot (Function.update html d h) swap) freed (next + 1) := by
  apply accounted.give (i := some d) none_
  · simp only [bctxSlot, Function.update_self]
    exact made
  · intro i other
    cases i with
    | none => rfl
    | some e =>
      have away : e ≠ d := fun same => other (congrArg some same)
      simp only [bctxSlot, Function.update_of_ne away]

theorem Safe.load (safe : Safe r) (none_ : (r.html d).bctx = none) (other : r.swap.owner ≠ some d) : Safe (loadTree r d) := by
  have shape : loadTree r d = { r with
      html := Function.update r.html d { r.html d with bctx := some r.nextBctx, layout := some r.nextBctx }
      nextBctx := r.nextBctx + 1 } := by
    simp only [loadTree, makeContext, Relayout.setHtml, Function.update_self, Function.update_idem]
  rw [shape]
  refine ⟨⟨makeContext_accounted safe.trees.bctx none_ rfl, ?_, ?_, safe.trees.old⟩, ?_, safe.expecting⟩
  · rw [objectSlot_update]
    · exact safe.trees.objects
    · rfl
  · intro e t tree away
    by_cases same : e = d
    · subst same
      simp only [Function.update_self] at tree ⊢
      exact tree
    · simp only [Function.update_of_ne same] at tree ⊢
      exact safe.trees.layout e t tree away
  · intro e owned
    have away : e ≠ d := fun same => other (same ▸ owned)
    simp only [Function.update_of_ne away]
    exact safe.shown e owned

theorem makeList_accounted {html : Nat → Html} {swap : Swap} {freed : List Nat} {next : Nat} {h : Html}
    (accounted : Accounted (objectSlot html swap) freed next) (none_ : (html d).objectList = none)
    (made : h.objectList = some next) : Accounted (objectSlot (Function.update html d h) swap) freed (next + 1) := by
  apply accounted.give (i := some d) none_
  · simp only [objectSlot, Function.update_self]
    exact made
  · intro i other
    cases i with
    | none => rfl
    | some e =>
      have away : e ≠ d := fun same => other (congrArg some same)
      simp only [objectSlot, Function.update_of_ne away]

theorem field_update {β : Type} (field : Html → β) {html : Nat → Html} {h : Html} (same : field h = field (html d)) (e : Nat) :
    field (Function.update html d h e) = field (html e) := by
  by_cases here : e = d
  · rw [here, Function.update_self, same]
  · rw [Function.update_of_ne here]

theorem Safe.fetch (safe : Safe r) (d : Nat) : Safe (fetchObject r d) := by
  unfold fetchObject
  dsimp only
  split
  · exact safe.setHtml d rfl rfl rfl
  · rename_i none_
    obtain ⟨⟨bctx, objects, layout, old⟩, shown, expecting⟩ := safe
    -- only the list of the document is new
    have layouts : ∀ e, (Function.update r.html d { r.html d with
        objectList := some r.nextObjects, numObjects := (r.html d).numObjects + 1 } e).layout = (r.html e).layout :=
      field_update Html.layout rfl
    have bctxs : ∀ e, (Function.update r.html d { r.html d with
        objectList := some r.nextObjects, numObjects := (r.html d).numObjects + 1 } e).bctx = (r.html e).bctx :=
      field_update Html.bctx rfl
    refine ⟨⟨?_, ?_, ?_, old⟩, ?_, expecting⟩
    · dsimp only [Relayout.setHtml]
      rw [bctxSlot_update]
      · exact bctx
      · rfl
    · exact makeList_accounted objects none_ rfl
    · intro e t tree other
      dsimp only [Relayout.setHtml] at tree other ⊢
      rw [layouts] at tree
      rw [bctxs]
      exact layout e t tree other
    · intro e owned
      dsimp only [Relayout.setHtml] at owned ⊢
      rw [layouts]
      exact shown e owned

theorem Trees.stash (trees : Trees r) (idle : r.swap.owner = none) (d : Nat) :
    Trees ((stash r d).emit [.dropNodeCaches d]) := by
  obtain ⟨bctx, objects, layout, _⟩ := trees
  have apart : (some d : Option Nat) ≠ none := nofun
  have log : ∀ field : Freed → Option Nat, field (.dropNodeCaches d) = none →
      (r.log ++ [Freed.dropNodeCaches d]).filterMap field = r.log.filterMap field := by
    intro field nothing
    simp only [List.filterMap_append, List.filterMap_cons, nothing, List.filterMap_nil, List.append_nil]
  constructor
  · simp only [Relayout.emit, NetSurf.stash]
    rw [log Freed.ctx rfl]
    apply bctx.move apart
    · simp only [bctxSlot, idle, if_true]
    · simp only [bctxSlot, Function.update_self]
    · simp only [bctxSlot, reduceCtorEq, if_false]
    · intro i notHere notSpare
      cases i with
      | none => exact absurd rfl notSpare
      | some e => simp only [bctxSlot, Function.update_of_ne fun same => notHere (congrArg some same)]
  · simp only [Relayout.emit, NetSurf.stash]
    rw [log Freed.list rfl]
    apply objects.move apart
    · simp only [objectSlot, idle, if_true]
    · simp only [objectSlot, Function.update_self]
    · simp only [objectSlot, reduceCtorEq, if_false]
    · intro i notHere notSpare
      cases i with
      | none => exact absurd rfl notSpare
      | some e => simp only [objectSlot, Function.update_of_ne fun same => notHere (congrArg some same)]
  · intro e t tree other
    simp only [Relayout.emit, NetSurf.stash] at tree other ⊢
    have away : e ≠ d := fun same => other (congrArg some same.symm)
    rw [Function.update_of_ne away] at tree ⊢
    apply layout e t tree
    rw [idle]
    exact nofun
  · intro e t owned tree
    simp only [Relayout.emit, NetSurf.stash] at tree ⊢
    apply layout d t tree
    rw [idle]
    exact nofun

theorem Trees.makeContext (trees : Trees r) (owned : r.swap.owner = some d) (none_ : (r.html d).bctx = none) :
    Trees (makeContext r d) := by
  refine ⟨makeContext_accounted trees.bctx none_ rfl, ?_, ?_, trees.old⟩
  · simp only [NetSurf.makeContext, Relayout.setHtml]
    rw [objectSlot_update]
    · exact trees.objects
    · rfl
  · intro e t tree other
    simp only [NetSurf.makeContext, Relayout.setHtml] at tree other ⊢
    have away : e ≠ d := by
      intro same
      rw [same, owned] at other
      exact other rfl
    rw [Function.update_of_ne away] at tree ⊢
    exact trees.layout e t tree other

theorem Trees.started (trees : Trees r) (owned : r.swap.owner = some d) (shown : (r.html d).layout = r.swap.oldLayout)
    (silent : ∀ e, r.expecting e = false) :
    Safe { r.setHtml d { r.html d with converting := true } with expecting := Function.update r.expecting d true } := by
  have layouts : ∀ e, (Function.update r.html d { r.html d with converting := true } e).layout = (r.html e).layout :=
    field_update Html.layout rfl
  constructor
  · exact trees.same (sameTrees_update (h := { r.html d with converting := true }) rfl rfl (fun _ => rfl) rfl rfl rfl ⟨rfl, rfl⟩)
  · intro e here
    dsimp only [Relayout.setHtml] at here ⊢
    rw [owned] at here
    cases here
    rw [layouts, shown]
  · intro e
    dsimp only [Relayout.setHtml]
    rw [owned]
    by_cases here : e = d
    · subst here
      simp only [Function.update_self]
    · simp only [Function.update_of_ne here, silent e, Bool.false_eq_true, false_iff]
      exact fun owns => here (Option.some.inj owns).symm

theorem Safe.run (safe : Safe r) (d : Nat) (root : Bool) (answer : DomToBox) : Safe (relayoutRun r d root answer) := by
  unfold relayoutRun
  dsimp only
  split
  · exact safe
  split
  · exact safe
  rename_i idle
  rw [ne_eq, not_not] at idle
  split
  · exact safe.same ⟨fun _ => ⟨rfl, rfl⟩, fun _ _ => rfl, ⟨rfl, rfl, rfl, rfl⟩, ⟨rfl, rfl⟩, ⟨rfl, rfl⟩⟩ (fun _ _ => rfl) rfl
  split
  · exact safe
  have silent : ∀ e, r.expecting e = false := by
    intro e
    apply Bool.eq_false_iff.mpr
    intro waits
    have other := (safe.expecting e).mp waits
    rw [idle] at other
    cases other
  have stashed := safe.trees.stash idle d
  have owned : ((stash r d).emit [.dropNodeCaches d]).swap.owner = some d := rfl
  have empty : (((stash r d).emit [.dropNodeCaches d]).html d).bctx = none := by
    simp only [Relayout.emit, stash, Function.update_self]
  have back : ∀ q : Relayout, Trees q → q.swap.owner = some d → q.expecting = r.expecting → Safe (restoreOld q d) := by
    intro q trees still same
    obtain ⟨none_, expecting⟩ := restoreOld_swap still
    apply Safe.settled (trees.restore still) none_
    rw [expecting, same]
    exact silent
  split
  · apply (stashed.makeContext owned empty).started owned _ silent
    simp only [makeContext, Relayout.setHtml, Relayout.emit, stash, Function.update_self]
  · exact back _ (stashed.makeContext owned empty) rfl rfl
  · exact back _ stashed owned rfl

theorem Safe.step {l : RelayoutLabel} (safe : Safe r) (step : RelayoutStep r l r') : Safe r' := by
  obtain ⟨possible, rfl⟩ := step
  have rescheduled : ∀ d on, Safe (r.scheduleRun d on) ∧ Safe (r.scheduleSettle d on) := by
    intro d on
    constructor <;>
      exact safe.same ⟨fun _ => ⟨rfl, rfl⟩, fun _ _ => rfl, ⟨rfl, rfl, rfl, rfl⟩, ⟨rfl, rfl⟩, ⟨rfl, rfl⟩⟩ (fun _ _ => rfl) rfl
  cases l with
  | load d => exact safe.load possible.1 possible.2
  | flags d f => exact safe.setHtml d rfl rfl rfl
  | fetch d => exact safe.fetch d
  | form d f => exact safe.setHtml d rfl rfl rfl
  | mutate d => exact safe.mutated d
  | fireRun d root answer => exact (rescheduled d false).1.run d root answer
  | fireSettle d => exact (rescheduled d false).2.quiet (settle_quiet _ d)
  | build d success => exact safe.build possible success
  | cancel d => exact safe.cancel d

def Relayout.freedBctx (r : Relayout) : List Nat := r.log.filterMap Freed.ctx

def Relayout.freedObjects (r : Relayout) : List Nat := r.log.filterMap Freed.list

theorem restoreOld_expecting (r : Relayout) (d : Nat) : (restoreOld r d).expecting = r.expecting := by
  by_cases owned : r.swap.owner = some d
  · exact (restoreOld_swap owned).2
  · rw [restoreOld, if_pos owned]

theorem rebuildDone_expecting (r : Relayout) (d : Nat) (success : Bool) : (rebuildDone r d success).expecting = r.expecting := by
  unfold rebuildDone
  dsimp only
  generalize cleared : r.setHtml d { r.html d with converting := false } = q
  have same : q.expecting = r.expecting := by
    rw [← cleared]
    rfl
  split
  · exact same
  split
  · rw [restoreOld_expecting, same]
  have exchanged : (layoutNew (releaseOld q d) d).expecting = r.expecting := by
    rw [(layoutNew_quiet _ d).expecting, (releaseOld_released q d).expecting, same]
  split
  · rw [(domMutated_same _ d).2.1]
    exact exchanged
  · exact exchanged

theorem relayoutCancel_expecting (r : Relayout) (d : Nat) : (relayoutCancel r d).expecting = r.expecting := by
  unfold relayoutCancel
  dsimp only
  split
  · rw [restoreOld_expecting]
    rfl
  · rfl

theorem Safe.ended (safe : Safe r) (owned : r.swap.owner = some d) {l : RelayoutLabel} (step : RelayoutStep r l r')
    (ends : l = .cancel d ∨ ∃ success, l = .build d success) : r'.swap.owner = none := by
  have silent : ∀ e, r'.expecting e = false := by
    intro e
    rcases ends with rfl | ⟨success, rfl⟩ <;> rw [step.2]
    · simp only [RelayoutLabel.apply, cancelDocument, endConversion, relayoutCancel_expecting]
      exact safe.silenced owned e
    · simp only [RelayoutLabel.apply, finishBuild, rebuildDone_expecting, endConversion]
      exact safe.silenced owned e
  rw [Option.eq_none_iff_forall_ne_some]
  intro e owner
  have waits := ((safe.step step).expecting e).mpr owner
  rw [silent e] at waits
  cases waits

theorem Safe.shown_live (safe : Safe r) {t : Nat} (tree : (r.html d).layout = some t) : t ∉ r.freedBctx := by
  by_cases owned : r.swap.owner = some d
  · apply safe.trees.bctx.live none t
    simp only [bctxSlot, owned, reduceCtorEq, if_false]
    apply safe.trees.old d t owned
    rw [← safe.shown d owned, tree]
  · exact safe.trees.bctx.live (some d) t (safe.trees.layout d t tree owned)

theorem boxTrees_safe {ls : List RelayoutLabel} (run : Run RelayoutStep relayoutStart ls r) :
    (∀ d t, (r.html d).layout = some t → t ∉ r.freedBctx) ∧
      (∀ c, r.freedBctx.count c ≤ 1) ∧ (∀ o, r.freedObjects.count o ≤ 1) ∧
      (∀ c < r.nextBctx, Traced (bctxSlot r.html r.swap) r.freedBctx c) ∧
      (∀ o < r.nextObjects, Traced (objectSlot r.html r.swap) r.freedObjects o) ∧
      ∀ d, r.swap.owner = some d → r.expecting d = true ∧
        ∀ l r', RelayoutStep r l r' → (l = .cancel d ∨ ∃ success, l = .build d success) → r'.swap.owner = none := by
  have safe := run.invariant Safe relayoutStart_safe fun _ _ _ safe step => safe.step step
  refine ⟨fun d t => safe.shown_live, ?_, ?_, fun c => safe.trees.bctx.traced, fun o => safe.trees.objects.traced, ?_⟩
  · exact safe.trees.bctx.count_le
  · exact safe.trees.objects.count_le
  · intro d owned
    exact ⟨(safe.expecting d).mpr owned, fun l r' step ends => safe.ended owned step ends⟩

def shownFlags : Flags :=
  { done := true, reflowing := false, aborted := false, frameset := false, iframe := false, document := true
    hadInitialLayout := true, active := 0, availableWidth := 800, sel := false }

def oneRebuild : List RelayoutLabel :=
  [.load 0, .fetch 0, .flags 0 shownFlags, .mutate 0, .fireRun 0 true .started, .fetch 0, .build 0 true]

theorem oneRebuild_run : Run RelayoutStep relayoutStart oneRebuild (oneRebuild.foldl RelayoutLabel.apply relayoutStart) := by
  have possible : Allowed RelayoutLabel.Possible RelayoutLabel.apply relayoutStart oneRebuild :=
    ⟨⟨rfl, nofun⟩, trivial, trivial, trivial, rfl, trivial, rfl, trivial⟩
  exact Run.exec possible

theorem boxTrees_safe_once : (oneRebuild.foldl RelayoutLabel.apply relayoutStart).freedBctx.count 0 ≤ 1 :=
  (boxTrees_safe oneRebuild_run).2.1 0

end RexOs.NetSurf
