import RexOs.Library.Run
import Mathlib.Logic.Function.Basic

/-! Rebuilding the box tree when the DOM has changed (`user/netsurf/html_relayout_rexos.c`).

Documents, talloc contexts and object lists are numbered. A box tree is named by the talloc
context in which it was built. What NetSurf does between the calls of this module is given by
the labels of `RelayoutStep`.
-/

set_option autoImplicit false

namespace RexOs.NetSurf

/-- The fields of `html_content` that the module uses; NULL pointers are `none`, `[]` or `false`. -/
structure Html where
  done : Bool
  converting : Bool
  reflowing : Bool
  aborted : Bool
  frameset : Bool
  iframe : Bool
  document : Bool
  hadInitialLayout : Bool
  active : Nat
  availableWidth : Nat
  sel : Bool
  layout : Option Nat
  bctx : Option Nat
  forms : List Nat
  objectList : Option Nat
  numObjects : Nat
  deriving DecidableEq, Repr

structure Swap where
  owner : Option Nat
  oldBctx : Option Nat
  oldLayout : Option Nat
  oldForms : List Nat
  oldObjects : Option Nat
  oldNumObjects : Nat
  dirty : Bool
  deriving DecidableEq, Repr

inductive Freed where
  | objects (list : Nat)
  | form (f : Nat)
  | bctx (ctx : Nat)
  | imagemapDestroy (d : Nat)
  | imagemapExtract (d : Nat)
  | selectionInit (d : Nat)
  | reformat (d : Nat)
  | dropNodeCaches (d : Nat)
  deriving DecidableEq, Repr

/-- `runAt` and `settleAt` tell for which documents the two callbacks are scheduled; `expecting` is the
document whose `dom_to_box` still has to call back. Fresh contexts and lists are `nextBctx` and `nextObjects`. -/
structure Relayout where
  html : Nat → Html
  swap : Swap
  runAt : Nat → Bool
  settleAt : Nat → Bool
  log : List Freed
  expecting : Nat → Bool
  nextBctx : Nat
  nextObjects : Nat

namespace Relayout
variable (r : Relayout)

def setHtml (d : Nat) (h : Html) : Relayout := { r with html := Function.update r.html d h }

def emit (events : List Freed) : Relayout := { r with log := r.log ++ events }

def scheduleRun (d : Nat) (on : Bool) : Relayout := { r with runAt := Function.update r.runAt d on }

def scheduleSettle (d : Nat) (on : Bool) : Relayout := { r with settleAt := Function.update r.settleAt d on }

end Relayout

def relayoutAllowed (h : Html) : Bool :=
  if h.done = false then false
  else if h.converting then false
  else if h.reflowing then false
  else if h.aborted then false
  else if h.frameset ∨ h.iframe then false
  else if h.document = false ∨ h.layout = none then false
  else if h.hadInitialLayout = false then false
  else true

def domMutated (r : Relayout) (d : Nat) : Relayout :=
  if r.swap.owner = some d then { r with swap := { r.swap with dirty := true } }
  else if relayoutAllowed (r.html d) = false then r
  else (r.scheduleRun d false).scheduleRun d true

/-- `html_object_free_objects` on a list that is made the current one for the call. -/
def freeObjectList (r : Relayout) (d : Nat) (list : Option Nat) (numKept : Nat) : Relayout :=
  (r.emit (list.toList.map .objects)).setHtml d { r.html d with numObjects := numKept }

def restoreOld (r : Relayout) (d : Nat) : Relayout :=
  if r.swap.owner ≠ some d then r
  else
    let r := freeObjectList r d (r.html d).objectList r.swap.oldNumObjects
    let r := r.emit ((r.html d).bctx.toList.map .bctx)
    let r := r.setHtml d
      { r.html d with
        bctx := r.swap.oldBctx, layout := r.swap.oldLayout, forms := r.swap.oldForms
        objectList := r.swap.oldObjects, numObjects := r.swap.oldNumObjects }
    { r with swap := { r.swap with owner := none, dirty := false } }

def relayoutCancel (r : Relayout) (d : Nat) : Relayout :=
  let r := (r.scheduleRun d false).scheduleSettle d false
  if r.swap.owner = some d then restoreOld r d else r

/-- `content__reformat`, if the window has a width. -/
def reformat (r : Relayout) (d : Nat) : Relayout :=
  if (r.html d).availableWidth > 0 then r.emit [.reformat d] else r

def settle (r : Relayout) (d : Nat) : Relayout :=
  if relayoutAllowed (r.html d) = false then r
  else if (r.html d).active > 0 then r.scheduleSettle d true
  else reformat r d

def releaseOld (r : Relayout) (d : Nat) : Relayout :=
  let r := freeObjectList r d r.swap.oldObjects (r.html d).numObjects
  let r := r.emit (r.swap.oldForms.map .form)
  let r := r.emit [.imagemapDestroy d]
  let r := if (r.html d).sel then r.emit [.selectionInit d] else r
  let r := r.emit (r.swap.oldBctx.toList.map .bctx)
  { r with swap := { r.swap with owner := none } }

/-- The new tree is laid out, once more when its images have come. -/
def layoutNew (r : Relayout) (d : Nat) : Relayout :=
  let r := r.emit [.imagemapExtract d]
  let r := reformat r d
  if (r.html d).active > 0 then r.scheduleSettle d true else r

def rebuildDone (r : Relayout) (d : Nat) (success : Bool) : Relayout :=
  let r := r.setHtml d { r.html d with converting := false }
  if r.swap.owner ≠ some d then r
  else if success = false ∨ (r.html d).layout = none ∨ (r.html d).layout = r.swap.oldLayout then restoreOld r d
  else
    let r := layoutNew (releaseOld r d) d
    if r.swap.dirty then domMutated { r with swap := { r.swap with dirty := false } } d else r

/-- The state that is put aside before the new tree is built. -/
def stash (r : Relayout) (d : Nat) : Relayout :=
  let h := r.html d
  { r with
    swap := ⟨some d, h.bctx, h.layout, h.forms, h.objectList, h.numObjects, false⟩
    html := Function.update r.html d { h with forms := [], objectList := none, numObjects := 0, bctx := none } }

/-- What `dom_to_box` does at once: it makes a context, unless there is no memory for it, and then either
stores the conversion and calls back later, or fails. -/
inductive DomToBox where
  | started
  | failed (madeContext : Bool)
  deriving DecidableEq, Repr

def makeContext (r : Relayout) (d : Nat) : Relayout :=
  { r.setHtml d { r.html d with bctx := some r.nextBctx } with nextBctx := r.nextBctx + 1 }

/-- `root` says whether the document has an html element. -/
def relayoutRun (r : Relayout) (d : Nat) (root : Bool) (answer : DomToBox) : Relayout :=
  if relayoutAllowed (r.html d) = false then r
  else if r.swap.owner ≠ none then r
  else if (r.html d).active > 0 then r.scheduleRun d true
  else if root = false then r
  else
    let r := (stash r d).emit [.dropNodeCaches d]
    match answer with
    | .started =>
        let r := makeContext r d
        { r.setHtml d { r.html d with converting := true } with expecting := Function.update r.expecting d true }
    | .failed true => restoreOld (makeContext r d) d
    | .failed false => restoreOld r d

structure Flags where
  done : Bool
  reflowing : Bool
  aborted : Bool
  frameset : Bool
  iframe : Bool
  document : Bool
  hadInitialLayout : Bool
  active : Nat
  availableWidth : Nat
  sel : Bool

def Html.setFlags (h : Html) (f : Flags) : Html :=
  { h with
    done := f.done, reflowing := f.reflowing, aborted := f.aborted, frameset := f.frameset, iframe := f.iframe
    document := f.document, hadInitialLayout := f.hadInitialLayout, active := f.active
    availableWidth := f.availableWidth, sel := f.sel }

inductive RelayoutLabel where
  /-- the first tree of a document is there -/
  | load (d : Nat)
  | flags (d : Nat) (f : Flags)
  /-- an object is fetched for the tree that is current or being built -/
  | fetch (d : Nat)
  /-- a form is found, likewise -/
  | form (d f : Nat)
  | mutate (d : Nat)
  | fireRun (d : Nat) (root : Bool) (answer : DomToBox)
  | fireSettle (d : Nat)
  /-- `dom_to_box` calls back -/
  | build (d : Nat) (success : Bool)
  /-- a document is destroyed; NetSurf also drops its conversion -/
  | cancel (d : Nat)

/-- Which steps are possible: callbacks that are scheduled, a conversion that was started, a document without a tree. -/
def RelayoutLabel.Possible (r : Relayout) : RelayoutLabel → Prop
  | .load d => (r.html d).bctx = none ∧ r.swap.owner ≠ some d
  | .fireRun d _ _ => r.runAt d = true
  | .fireSettle d => r.settleAt d = true
  | .build d _ => r.expecting d = true
  | _ => True

def loadTree (r : Relayout) (d : Nat) : Relayout :=
  let r := makeContext r d
  r.setHtml d { r.html d with layout := (r.html d).bctx }

def fetchObject (r : Relayout) (d : Nat) : Relayout :=
  let h := r.html d
  match h.objectList with
  | some _ => r.setHtml d { h with numObjects := h.numObjects + 1 }
  | none =>
      { r.setHtml d { h with objectList := some r.nextObjects, numObjects := h.numObjects + 1 } with
        nextObjects := r.nextObjects + 1 }

/-- The conversion of a document is over, and `dom_to_box` calls back no more. -/
def endConversion (r : Relayout) (d : Nat) (h : Html) : Relayout :=
  { r with expecting := Function.update r.expecting d false, html := Function.update r.html d h }

/-- A successful conversion stores the new tree right before it calls back. -/
def finishBuild (r : Relayout) (d : Nat) (success : Bool) : Relayout :=
  let h := r.html d
  rebuildDone (endConversion r d (if success then { h with layout := h.bctx } else h)) d success

def cancelDocument (r : Relayout) (d : Nat) : Relayout :=
  let r := relayoutCancel r d
  endConversion r d { r.html d with converting := false }

def RelayoutLabel.apply (r : Relayout) : RelayoutLabel → Relayout
  | .load d => loadTree r d
  | .flags d f => r.setHtml d ((r.html d).setFlags f)
  | .fetch d => fetchObject r d
  | .form d f => r.setHtml d { r.html d with forms := f :: (r.html d).forms }
  | .mutate d => domMutated r d
  | .fireRun d root answer => relayoutRun (r.scheduleRun d false) d root answer
  | .fireSettle d => settle (r.scheduleSettle d false) d
  | .build d success => finishBuild r d success
  | .cancel d => cancelDocument r d

def RelayoutStep (r : Relayout) (l : RelayoutLabel) (r' : Relayout) : Prop := l.Possible r ∧ r' = l.apply r

def noHtml : Html :=
  { done := false, converting := false, reflowing := false, aborted := false, frameset := false, iframe := false
    document := false, hadInitialLayout := false, active := 0, availableWidth := 0, sel := false
    layout := none, bctx := none, forms := [], objectList := none, numObjects := 0 }

def relayoutStart : Relayout :=
  { html := fun _ => noHtml, swap := ⟨none, none, none, [], none, 0, false⟩, runAt := fun _ => false
    settleAt := fun _ => false, log := [], expecting := fun _ => false, nextBctx := 0, nextObjects := 0 }

end RexOs.NetSurf
