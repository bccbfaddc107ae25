import RexOs.Desktop.Render
import RexOs.Library.CInt
import RexOs.Library.ErrorTerm
import Mathlib.Data.List.Chain

/-! Lines (`rd_line` of `user/desktop/render.c`).

The loop ends when both coordinates are those of the second point, and only then. The error term
is that of a walk along the line (`Walk`), which comes to both in the same step.
-/

set_option autoImplicit false

namespace RexOs.Desktop.Lines

open RexOs.Library

structure Line where
  x1 : Int
  y1 : Int
  adx : Int
  ady : Int
  sx : Int
  sy : Int
  deriving DecidableEq, Repr

structure LineState where
  x : Int
  y : Int
  err : Int
  deriving DecidableEq, Repr

def Line.ofPoints (x0 y0 x1 y1 : Int) : Line :=
  let dx := wrapInt (x1 - x0)
  let dy := wrapInt (y1 - y0)
  { x1 := x1
    y1 := y1
    adx := if dx < 0 then wrapInt (-dx) else dx
    ady := if dy < 0 then wrapInt (-dy) else dy
    sx := if dx < 0 then -1 else 1
    sy := if dy < 0 then -1 else 1 }

def lineStep (l : Line) (s : LineState) : LineState :=
  let e2 := wrapInt (s.err * 2)
  let s := if e2 > wrapInt (-l.ady) then { s with err := wrapInt (s.err - l.ady), x := wrapInt (s.x + l.sx) } else s
  if e2 < l.adx then { s with err := wrapInt (s.err + l.adx), y := wrapInt (s.y + l.sy) } else s

/-- `for (;;)`, where `pixel` is called for each point. -/
def lineLoop {α : Type} (pixel : Int → Int → α → α) (l : Line) : Nat → LineState → α → Option α
  | 0, _, _ => none
  | fuel + 1, s, c =>
      let c := pixel s.x s.y c
      if s.x = l.x1 ∧ s.y = l.y1 then some c else lineLoop pixel l fuel (lineStep l s) c

def lineStart (x0 y0 : Int) (l : Line) : LineState := ⟨x0, y0, wrapInt (l.adx - l.ady)⟩

def rdLine (fuel : Nat) (x0 y0 x1 y1 : Int) (color : UInt32) (c : Canvas) : Option Canvas :=
  let l := Line.ofPoints x0 y0 x1 y1
  lineLoop (fun x y => rdPixel x y color) l fuel (lineStart x0 y0 l) c

def linePoints (fuel : Nat) (x0 y0 x1 y1 : Int) : Option (List (Int × Int)) :=
  let l := Line.ofPoints x0 y0 x1 y1
  lineLoop (fun x y points => points ++ [(x, y)]) l fuel (lineStart x0 y0 l) []

def Touches (p q : Int × Int) : Prop := (q.1 - p.1).natAbs ≤ 1 ∧ (q.2 - p.2).natAbs ≤ 1

def lineLength (x0 y0 x1 y1 : Int) : Nat := max (x1 - x0).natAbs (y1 - y0).natAbs

structure LineRight (x0 y0 x1 y1 : Int) (points : List (Int × Int)) : Prop where
  count : points.length = lineLength x0 y0 x1 y1 + 1
  first : points.head? = some (x0, y0)
  last : points.getLast? = some (x1, y1)
  touching : points.IsChain Touches

def IsInt (v : Int) : Prop := -2 ^ 31 ≤ v ∧ v < 2 ^ 31

/-- Points in `int` coordinates, with differences below 2^29. -/
structure LineFits (x0 y0 x1 y1 : Int) : Prop where
  first : IsInt x0 ∧ IsInt y0
  second : IsInt x1 ∧ IsInt y1
  width : (x1 - x0).natAbs < 2 ^ 29
  height : (y1 - y0).natAbs < 2 ^ 29

section
variable {v₀ v₁ : Int} {i : Nat}

def direction (v₀ v₁ : Int) : Int := if v₁ - v₀ < 0 then -1 else 1

/-- Where a coordinate is after `i` steps. -/
def coordinate (v₀ v₁ : Int) (i : Nat) : Int := v₀ + direction v₀ v₁ * i

theorem coordinate_zero (v₀ v₁ : Int) : coordinate v₀ v₁ 0 = v₀ := by
  unfold coordinate
  rw [Int.natCast_zero, Int.mul_zero, Int.add_zero]

theorem coordinate_cases (v₀ v₁ : Int) (i : Nat) :
    v₁ < v₀ ∧ direction v₀ v₁ = -1 ∧ coordinate v₀ v₁ i = v₀ - i ∨ v₀ ≤ v₁ ∧ direction v₀ v₁ = 1 ∧ coordinate v₀ v₁ i = v₀ + i := by
  unfold coordinate direction
  by_cases back : v₁ - v₀ < 0
  · rw [if_pos back]
    omega
  · rw [if_neg back]
    omega

theorem coordinate_end (v₀ v₁ : Int) (i : Nat) : coordinate v₀ v₁ i = v₁ ↔ i = (v₁ - v₀).natAbs := by
  have := coordinate_cases v₀ v₁ i
  omega

theorem coordinate_next (first : IsInt v₀) (second : IsInt v₁) (le : i + 1 ≤ (v₁ - v₀).natAbs) :
    wrapInt (coordinate v₀ v₁ i + direction v₀ v₁) = coordinate v₀ v₁ (i + 1) := by
  obtain ⟨low, high⟩ := first
  obtain ⟨low', high'⟩ := second
  have here := coordinate_cases v₀ v₁ i
  have next := coordinate_cases v₀ v₁ (i + 1)
  rw [wrapInt_of_fits (by omega) (by omega)]
  omega

theorem coordinate_step (first : IsInt v₀) (second : IsInt v₁) {test : Prop} [Decidable test]
    (le : (if test then i + 1 else i) ≤ (v₁ - v₀).natAbs) :
    (if test then wrapInt (coordinate v₀ v₁ i + direction v₀ v₁) else coordinate v₀ v₁ i) =
      coordinate v₀ v₁ (if test then i + 1 else i) := by
  by_cases holds : test
  · rw [if_pos holds, if_pos holds] at *
    exact coordinate_next first second le
  · rw [if_neg holds, if_neg holds]

end

section
variable {x0 y0 x1 y1 : Int} {k : Nat}

theorem ofPoints_eq (fits : LineFits x0 y0 x1 y1) : Line.ofPoints x0 y0 x1 y1 =
    ⟨x1, y1, (x1 - x0).natAbs, (y1 - y0).natAbs, direction x0 x1, direction y0 y1⟩ := by
  have width := fits.width
  have height := fits.height
  have dx : wrapInt (x1 - x0) = x1 - x0 := wrapInt_of_fits (by omega) (by omega)
  have dy : wrapInt (y1 - y0) = y1 - y0 := wrapInt_of_fits (by omega) (by omega)
  have ndx : wrapInt (-(x1 - x0)) = -(x1 - x0) := wrapInt_of_fits (by omega) (by omega)
  have ndy : wrapInt (-(y1 - y0)) = -(y1 - y0) := wrapInt_of_fits (by omega) (by omega)
  have adx : (if x1 - x0 < 0 then -(x1 - x0) else x1 - x0) = (x1 - x0).natAbs := by
    split <;> omega
  have ady : (if y1 - y0 < 0 then -(y1 - y0) else y1 - y0) = (y1 - y0).natAbs := by
    split <;> omega
  unfold Line.ofPoints
  dsimp only
  rw [dx, dy, ndx, ndy, adx, ady]
  rfl

def lineAt (x0 y0 x1 y1 : Int) (k : Nat) : LineState :=
  let w := walkAfter (x1 - x0).natAbs (y1 - y0).natAbs k
  ⟨coordinate x0 x1 w.i, coordinate y0 y1 w.j, w.err⟩

def pointAt (x0 y0 x1 y1 : Int) (k : Nat) : Int × Int := ((lineAt x0 y0 x1 y1 k).x, (lineAt x0 y0 x1 y1 k).y)

theorem lineStart_eq (fits : LineFits x0 y0 x1 y1) : lineStart x0 y0 (Line.ofPoints x0 y0 x1 y1) = lineAt x0 y0 x1 y1 0 := by
  have width := fits.width
  have height := fits.height
  rw [ofPoints_eq fits]
  unfold lineStart lineAt
  dsimp only [walkAfter]
  rw [coordinate_zero, coordinate_zero, wrapInt_of_fits (by omega) (by omega)]

theorem lineStep_fields (l : Line) (s : LineState) : lineStep l s =
    { x := if wrapInt (s.err * 2) > wrapInt (-l.ady) then wrapInt (s.x + l.sx) else s.x
      y := if wrapInt (s.err * 2) < l.adx then wrapInt (s.y + l.sy) else s.y
      err := if wrapInt (s.err * 2) < l.adx then
          wrapInt ((if wrapInt (s.err * 2) > wrapInt (-l.ady) then wrapInt (s.err - l.ady) else s.err) + l.adx)
        else if wrapInt (s.err * 2) > wrapInt (-l.ady) then wrapInt (s.err - l.ady) else s.err } := by
  unfold lineStep
  dsimp only
  split <;> split <;> rfl

theorem error_step {a b : Nat} {w : Walk} (width : a < 2 ^ 29) (height : b < 2 ^ 29)
    (error : -(3 * max a b : Int) ≤ w.err * 2 ∧ w.err * 2 ≤ 3 * max a b) :
    (if w.err * 2 < a then wrapInt ((if w.err * 2 > -(b : Int) then wrapInt (w.err - b) else w.err) + a)
      else if w.err * 2 > -(b : Int) then wrapInt (w.err - b) else w.err) = (w.next a b).err := by
  have less : wrapInt (w.err - b) = w.err - b := wrapInt_of_fits (by omega) (by omega)
  rw [less]
  unfold Walk.next
  dsimp only
  split
  · rw [wrapInt_of_fits]
    · split <;> omega
    · split <;> omega
  · rw [Int.add_zero]

theorem lineStep_eq (fits : LineFits x0 y0 x1 y1) (more : k < lineLength x0 y0 x1 y1) :
    lineStep (Line.ofPoints x0 y0 x1 y1) (lineAt x0 y0 x1 y1 k) = lineAt x0 y0 x1 y1 (k + 1) := by
  have here := (walkAfter_inside (Nat.le_of_lt more)).error
  have next := walkAfter_inside (Nat.succ_le_of_lt more)
  have width := fits.width
  have height := fits.height
  rw [ofPoints_eq fits, lineStep_fields]
  unfold lineAt
  rw [walkAfter] at next ⊢
  dsimp only
  generalize walkAfter (x1 - x0).natAbs (y1 - y0).natAbs k = w at here next ⊢
  have e2 : wrapInt (w.err * 2) = w.err * 2 := wrapInt_of_fits (by omega) (by omega)
  have neg : wrapInt (-((y1 - y0).natAbs : Int)) = -((y1 - y0).natAbs : Int) := wrapInt_of_fits (by omega) (by omega)
  rw [e2, neg, coordinate_step fits.first.1 fits.second.1 next.first, coordinate_step fits.first.2 fits.second.2 next.second,
    error_step width height here]
  rfl

theorem lineAt_end (le : k ≤ lineLength x0 y0 x1 y1) :
    (lineAt x0 y0 x1 y1 k).x = x1 ∧ (lineAt x0 y0 x1 y1 k).y = y1 ↔ k = lineLength x0 y0 x1 y1 := by
  have main := (walkAfter_inside le).main
  unfold lineAt
  dsimp only
  rw [coordinate_end, coordinate_end]
  exact main

theorem pointAt_touches (x0 y0 x1 y1 : Int) (k : Nat) : Touches (pointAt x0 y0 x1 y1 k) (pointAt x0 y0 x1 y1 (k + 1)) := by
  have near (v₀ v₁ : Int) (i : Nat) (test : Prop) [Decidable test] :
      (coordinate v₀ v₁ (if test then i + 1 else i) - coordinate v₀ v₁ i).natAbs ≤ 1 := by
    have here := coordinate_cases v₀ v₁ i
    have next := coordinate_cases v₀ v₁ (i + 1)
    split <;> omega
  exact ⟨near x0 x1 _ _, near y0 y1 _ _⟩

end

section
variable {x0 y0 x1 y1 : Int} {k n : Nat}

def pointsFrom (x0 y0 x1 y1 : Int) : Nat → Nat → List (Int × Int)
  | k, 0 => [pointAt x0 y0 x1 y1 k]
  | k, n + 1 => pointAt x0 y0 x1 y1 k :: pointsFrom x0 y0 x1 y1 (k + 1) n

theorem pointsFrom_length (x0 y0 x1 y1 : Int) (k n : Nat) : (pointsFrom x0 y0 x1 y1 k n).length = n + 1 := by
  induction n generalizing k with
  | zero => rfl
  | succ n ih => rw [pointsFrom, List.length_cons, ih]

theorem pointsFrom_head (x0 y0 x1 y1 : Int) (k n : Nat) : (pointsFrom x0 y0 x1 y1 k n).head? = some (pointAt x0 y0 x1 y1 k) := by
  cases n <;> rfl

theorem pointsFrom_last (x0 y0 x1 y1 : Int) (k n : Nat) : (pointsFrom x0 y0 x1 y1 k n).getLast? = some (pointAt x0 y0 x1 y1 (k + n)) := by
  induction n generalizing k with
  | zero => rfl
  | succ n ih =>
    rw [pointsFrom, List.getLast?_cons, ih, Nat.add_assoc, Nat.add_comm 1]
    rfl

theorem pointsFrom_touching (x0 y0 x1 y1 : Int) (k n : Nat) : (pointsFrom x0 y0 x1 y1 k n).IsChain Touches := by
  induction n generalizing k with
  | zero => exact .singleton _
  | succ n ih =>
    rw [pointsFrom, List.isChain_cons, pointsFrom_head]
    refine ⟨fun q next => ?_, ih (k + 1)⟩
    rw [← Option.some.inj next]
    exact pointAt_touches x0 y0 x1 y1 k

theorem lineLoop_eq {α : Type} (pixel : Int → Int → α → α) (fits : LineFits x0 y0 x1 y1) (fuel : Nat) (c : α)
    (left : k + n = lineLength x0 y0 x1 y1) (enough : n < fuel) :
    lineLoop pixel (Line.ofPoints x0 y0 x1 y1) fuel (lineAt x0 y0 x1 y1 k) c =
      some ((pointsFrom x0 y0 x1 y1 k n).foldl (fun c p => pixel p.1 p.2 c) c) := by
  have ends := lineAt_end (k := k) (by omega : k ≤ lineLength x0 y0 x1 y1)
  have place : (Line.ofPoints x0 y0 x1 y1).x1 = x1 ∧ (Line.ofPoints x0 y0 x1 y1).y1 = y1 := ⟨rfl, rfl⟩
  induction n generalizing k fuel c with
  | zero =>
    obtain ⟨fuel, rfl⟩ := Nat.exists_eq_add_of_lt enough
    rw [Nat.zero_add, lineLoop, place.1, place.2, if_pos (ends.mpr left)]
    rfl
  | succ n ih =>
    obtain ⟨fuel, rfl⟩ := Nat.exists_eq_succ_of_ne_zero (Nat.ne_of_gt (Nat.zero_lt_of_lt enough))
    have more : k < lineLength x0 y0 x1 y1 := by omega
    rw [lineLoop, place.1, place.2, if_neg fun here => absurd (ends.mp here) (Nat.ne_of_lt more), lineStep_eq fits more]
    exact ih fuel _ (by omega) (Nat.lt_of_succ_lt_succ enough) (lineAt_end (by omega))

theorem coordinate_add (v₀ v₁ : Int) (i : Nat) : coordinate v₀ v₁ i + direction v₀ v₁ = coordinate v₀ v₁ (i + 1) := by
  have here := coordinate_cases v₀ v₁ i
  have next := coordinate_cases v₀ v₁ (i + 1)
  omega

theorem lineLoop_render (color : UInt32) (fuel : Nat) (c : Canvas) (left : k + n = lineLength x0 y0 x1 y1) (enough : n < fuel) :
    Desktop.lineLoop x1 y1 (x1 - x0).natAbs (y1 - y0).natAbs (direction x0 x1) (direction y0 y1) color fuel
        (lineAt x0 y0 x1 y1 k).err (lineAt x0 y0 x1 y1 k).x (lineAt x0 y0 x1 y1 k).y c =
      (pointsFrom x0 y0 x1 y1 k n).foldl (fun c p => rdPixel p.1 p.2 color c) c := by
  have ends := lineAt_end (k := k) (by omega : k ≤ lineLength x0 y0 x1 y1)
  induction n generalizing k fuel c with
  | zero =>
    obtain ⟨fuel, rfl⟩ := Nat.exists_eq_add_of_lt enough
    rw [Nat.zero_add, Desktop.lineLoop, if_pos (ends.mpr left)]
    rfl
  | succ n ih =>
    obtain ⟨fuel, rfl⟩ := Nat.exists_eq_succ_of_ne_zero (Nat.ne_of_gt (Nat.zero_lt_of_lt enough))
    have more : k < lineLength x0 y0 x1 y1 := by omega
    rw [Desktop.lineLoop, if_neg fun here => absurd (ends.mp here) (Nat.ne_of_lt more)]
    have rest := ih fuel (rdPixel (lineAt x0 y0 x1 y1 k).x (lineAt x0 y0 x1 y1 k).y color c) (by omega) (Nat.lt_of_succ_lt_succ enough)
      (lineAt_end more)
    refine Eq.trans ?_ rest
    unfold lineAt
    rw [walkAfter]
    dsimp only [Walk.next]
    split <;> split <;> simp only [coordinate_add, Int.add_zero]

end

theorem foldl_concat (points before : List (Int × Int)) :
    points.foldl (fun done p => done ++ [(p.1, p.2)]) before = before ++ points := by
  induction points generalizing before with
  | nil => rw [List.foldl_nil, List.append_nil]
  | cons p points ih => rw [List.foldl_cons, ih, List.append_assoc, List.singleton_append]

theorem pointsFrom_right (x0 y0 x1 y1 : Int) : LineRight x0 y0 x1 y1 (pointsFrom x0 y0 x1 y1 0 (lineLength x0 y0 x1 y1)) := by
  have ends := (lineAt_end (Nat.le_refl (lineLength x0 y0 x1 y1))).mpr rfl
  refine ⟨pointsFrom_length .., ?_, ?_, pointsFrom_touching ..⟩
  · rw [pointsFrom_head]
    unfold pointAt lineAt
    dsimp only [walkAfter]
    rw [coordinate_zero, coordinate_zero]
  · rw [pointsFrom_last, Nat.zero_add]
    exact congrArg some (Prod.ext ends.1 ends.2)

/-- The loop ends at the second point, and draws the points of a line. -/
theorem rdLine_right (x0 y0 x1 y1 : Int) (fits : LineFits x0 y0 x1 y1) : ∃ points, LineRight x0 y0 x1 y1 points ∧
    ∀ fuel, lineLength x0 y0 x1 y1 < fuel → linePoints fuel x0 y0 x1 y1 = some points ∧
      ∀ color c, rdLine fuel x0 y0 x1 y1 color c = some (points.foldl (fun c p => rdPixel p.1 p.2 color c) c) := by
  refine ⟨_, pointsFrom_right x0 y0 x1 y1, fun fuel enough => ⟨?_, fun color c => ?_⟩⟩
  · have listed := lineLoop_eq (fun x y points => points ++ [(x, y)]) fits fuel [] (Nat.zero_add _) enough
    rw [← lineStart_eq fits, foldl_concat, List.nil_append] at listed
    exact listed
  · have drawn := lineLoop_eq (fun x y => rdPixel x y color) fits fuel c (Nat.zero_add _) enough
    rw [← lineStart_eq fits] at drawn
    exact drawn

/-- A line that falls back to the left. -/
theorem rdLine_right_falling : ∃ points, LineRight 3 0 (-2) 2 points ∧
    ∀ fuel, lineLength 3 0 (-2) 2 < fuel → linePoints fuel 3 0 (-2) 2 = some points ∧
      ∀ color c, rdLine fuel 3 0 (-2) 2 color c = some (points.foldl (fun c p => rdPixel p.1 p.2 color c) c) :=
  rdLine_right 3 0 (-2) 2 ⟨⟨⟨by decide, by decide⟩, ⟨by decide, by decide⟩⟩, ⟨⟨by decide, by decide⟩, ⟨by decide, by decide⟩⟩, by decide, by decide⟩

theorem rdLine_render (fuel : Nat) (x0 y0 x1 y1 : Int) (color : UInt32) (c : Canvas) (enough : lineLength x0 y0 x1 y1 < fuel) :
    Desktop.rdLine fuel x0 y0 x1 y1 color c =
      (pointsFrom x0 y0 x1 y1 0 (lineLength x0 y0 x1 y1)).foldl (fun c p => rdPixel p.1 p.2 color c) c := by
  have adx : (if x1 - x0 < 0 then -(x1 - x0) else x1 - x0) = (x1 - x0).natAbs := by
    split <;> omega
  have ady : (if y1 - y0 < 0 then -(y1 - y0) else y1 - y0) = (y1 - y0).natAbs := by
    split <;> omega
  have drawn := lineLoop_render color fuel c (Nat.zero_add _) enough
  unfold lineAt at drawn
  dsimp only [walkAfter] at drawn
  rw [coordinate_zero, coordinate_zero] at drawn
  unfold Desktop.rdLine
  dsimp only
  rw [adx, ady]
  exact drawn

example : linePoints 9 3 0 (-2) 2 = some [(3, 0), (2, 0), (1, 1), (0, 1), (-1, 2), (-2, 2)] := by decide

end RexOs.Desktop.Lines
