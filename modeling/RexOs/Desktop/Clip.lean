import RexOs.Desktop.Focus
import RexOs.Desktop.Render

/-! Where the primitives draw.

They draw at coordinates that `clip_xmin` to `clip_ymax` allow, and nowhere else. With an active
clip the lower bounds are those of the clip alone, so they allow elements of the buffer only if
the clip does not begin left of the screen or above it.
-/

set_option autoImplicit false

namespace RexOs.Desktop

variable {c c' c'' : Canvas} {P Q : Int → Prop}

def Canvas.place (c : Canvas) (x y : Int) : Int := y * c.screen.w + x

def Canvas.Allows (c : Canvas) (x y : Int) : Prop :=
  clipXmin c ≤ x ∧ x < clipXmax c ∧ clipYmin c ≤ y ∧ y < clipYmax c

def Canvas.area (c : Canvas) (i : Int) : Prop := ∃ x y, c.Allows x y ∧ i = c.place x y

def Canvas.InClip (c : Canvas) (x y : Int) : Prop :=
  ∀ r, c.clip = some r → r.x ≤ x ∧ x < r.x + r.w ∧ r.y ≤ y ∧ y < r.y + r.h

def Canvas.Inside (c : Canvas) (i : Int) : Prop :=
  ∃ x y : Int, 0 ≤ x ∧ x < c.screen.w ∧ 0 ≤ y ∧ y < c.screen.h ∧ c.InClip x y ∧ i = c.place x y

/-- Only places in `P` have been written. -/
structure Within (P : Int → Prop) (c c' : Canvas) : Prop where
  screen : c'.screen = c.screen
  clip : c'.clip = c.clip
  writes : ∃ new, c'.writes = c.writes ++ new ∧ ∀ i ∈ new, P i
  back : ∀ i, ¬ P i → c'.back i = c.back i

namespace Within

theorem refl (P : Int → Prop) (c : Canvas) : Within P c c :=
  ⟨rfl, rfl, ⟨[], (List.append_nil _).symm, by rintro i ⟨⟩⟩, fun _ _ => rfl⟩

theorem trans (first : Within P c c') (second : Within P c' c'') : Within P c c'' := by
  obtain ⟨new, writes, inside⟩ := first.writes
  obtain ⟨new', writes', inside'⟩ := second.writes
  constructor
  · exact second.screen.trans first.screen
  · exact second.clip.trans first.clip
  · refine ⟨new ++ new', ?_, ?_⟩
    · rw [writes', writes, List.append_assoc]
    · intro i member
      rcases List.mem_append.mp member with old | recent
      · exact inside i old
      · exact inside' i recent
  · intro i outside
    rw [second.back i outside, first.back i outside]

theorem mono (within : Within P c c') (more : ∀ i, P i → Q i) : Within Q c c' := by
  obtain ⟨new, writes, inside⟩ := within.writes
  constructor
  · exact within.screen
  · exact within.clip
  · exact ⟨new, writes, fun i member => more i (inside i member)⟩
  · exact fun i outside => within.back i fun here => outside (more i here)

theorem area (within : Within P c c') : c'.area = c.area := by
  funext i
  simp only [Canvas.area, Canvas.Allows, Canvas.place, clipXmin, clipXmax, clipYmin, clipYmax, within.screen, within.clip]

theorem store (f : UInt32 → UInt32) {i : Int} (here : P i) : Within P c (c.store f i) := by
  constructor
  · rfl
  · rfl
  · exact ⟨[i], rfl, fun j member => List.mem_singleton.mp member ▸ here⟩
  · intro j outside
    have other : j ≠ i := by
      rintro rfl
      exact outside here
    exact Function.update_of_ne other _ c.back

end Within

/-- Wherever the clip allows the places `P` and no others, `f` writes only these. -/
def Paints (P : Int → Prop) (f : Canvas → Canvas) : Prop := ∀ c, c.area = P → Within P c (f c)

namespace Paints

variable {f f' : Canvas → Canvas}

theorem id : Paints P fun c => c := fun c _ => Within.refl P c

theorem comp (first : Paints P f) (second : Paints P f') : Paints P fun c => f' (f c) := by
  intro c same
  have within := first c same
  exact within.trans (second (f c) (within.area.trans same))

theorem ite {p : Prop} [Decidable p] (yes : Paints P f) (no : Paints P f') : Paints P fun c => if p then f c else f' c := by
  intro c same
  dsimp only
  split
  next => exact yes c same
  next => exact no c same

theorem forEach {body : Int → Canvas → Canvas} (each : ∀ i, Paints P (body i)) (i : Int) (n : Nat) :
    Paints P (forEach body i n) := by
  induction n generalizing i with
  | zero => exact id
  | succ n ih => exact (each i).comp (ih (i + 1))

end Paints

theorem forEach_within {body : Int → Canvas → Canvas} {i : Int} {n : Nat}
    (each : ∀ j c', i ≤ j → j < i + n → c'.area = c.area → c'.screen = c.screen → Within P c' (body j c')) :
    Within P c (forEach body i n c) := by
  induction n generalizing i c with
  | zero => exact Within.refl P c
  | succ n ih =>
    have first := each i c (Int.le_refl i) (by omega) rfl rfl
    apply first.trans
    apply ih
    intro j c' low high area screen
    exact each j c' (by omega) (by omega) (area.trans first.area) (screen.trans first.screen)

theorem paint_within (f : UInt32 → UInt32) {x0 y0 x1 y1 : Int}
    (allowed : ∀ x y, x0 ≤ x → x < x1 → y0 ≤ y → y < y1 → c.Allows x y) : Within c.area c (paint f x0 y0 x1 y1 c) := by
  apply forEach_within
  intro y c' lowY highY _ screen
  apply forEach_within
  intro x c'' lowX highX _ screen'
  apply Within.store
  refine ⟨x, y, allowed x y lowX (by omega) lowY (by omega), ?_⟩
  rw [Canvas.place, ← screen, ← screen']

theorem paintClipped_paints (f : UInt32 → UInt32) (x y w h : Int) : Paints P (paintClipped f x y w h) := by
  rintro c rfl
  have left : clipXmin c ≤ if x < clipXmin c then clipXmin c else x := by split <;> omega
  have upper : clipYmin c ≤ if y < clipYmin c then clipYmin c else y := by split <;> omega
  have right : (if x + w > clipXmax c then clipXmax c else x + w) ≤ clipXmax c := by split <;> omega
  have lower : (if y + h > clipYmax c then clipYmax c else y + h) ≤ clipYmax c := by split <;> omega
  rw [paintClipped]
  generalize (if x < clipXmin c then clipXmin c else x) = x0 at left ⊢
  generalize (if y < clipYmin c then clipYmin c else y) = y0 at upper ⊢
  generalize (if x + w > clipXmax c then clipXmax c else x + w) = x1 at right ⊢
  generalize (if y + h > clipYmax c then clipYmax c else y + h) = y1 at lower ⊢
  split
  next => exact Within.refl _ c
  next =>
    apply paint_within
    intro x' y' fromX toX fromY toY
    exact ⟨by omega, by omega, by omega, by omega⟩

theorem rdPixel_paints (x y : Int) (color : UInt32) : Paints P (rdPixel x y color) := by
  rintro c rfl
  rw [rdPixel]
  split
  next => exact Within.refl _ c
  next column =>
    split
    next => exact Within.refl _ c
    next row =>
      apply Within.store
      exact ⟨x, y, ⟨by omega, by omega, by omega, by omega⟩, rfl⟩

theorem rdRect_paints (x y w h : Int) (color : UInt32) : Paints P (rdRect x y w h color) :=
  paintClipped_paints _ x y w h

theorem rdBlendRect_paints (x y w h : Int) (color : UInt32) (alpha : UInt8) : Paints P (rdBlendRect x y w h color alpha) :=
  Paints.id.ite ((paintClipped_paints _ x y w h).ite (paintClipped_paints _ x y w h))

theorem rdRectOutline_paints (x y w h : Int) (color : UInt32) : Paints P (rdRectOutline x y w h color) :=
  (((rdRect_paints _ _ _ _ color).comp (rdRect_paints _ _ _ _ color)).comp (rdRect_paints _ _ _ _ color)).comp
    (rdRect_paints _ _ _ _ color)

theorem rdGradientV_paints (x y w h : Int) (top bot : UInt32) : Paints P (rdGradientV x y w h top bot) :=
  Paints.forEach (fun _ => rdRect_paints _ _ _ _ _) 0 h.toNat

theorem rdGradientH_paints (x y w h : Int) (left right : UInt32) : Paints P (rdGradientH x y w h left right) :=
  Paints.forEach (fun _ => rdRect_paints _ _ _ _ _) 0 w.toNat

theorem corners_paints (x y w h r dx dy : Int) {dot : Int → Int → Canvas → Canvas} (each : ∀ px py, Paints P (dot px py)) :
    Paints P (corners x y w h r dx dy dot) :=
  ((((each _ _).ite Paints.id).comp ((each _ _).ite Paints.id)).comp ((each _ _).ite Paints.id)).comp
    ((each _ _).ite Paints.id)

theorem cornerDiscs_paints (x y w h r : Int) {inner outer : Int → Int → Canvas → Canvas}
    (eachInner : ∀ px py, Paints P (inner px py)) (eachOuter : ∀ px py, Paints P (outer px py)) :
    Paints P (cornerDiscs x y w h r inner outer) := by
  apply Paints.forEach
  intro dy
  apply Paints.forEach
  intro dx
  exact (corners_paints x y w h r dx dy eachInner).ite ((corners_paints x y w h r dx dy eachOuter).ite Paints.id)

theorem rdRounded_paints (x y w h r : Int) (color : UInt32) : Paints P (rdRounded x y w h r color) := by
  have bands : ∀ r', Paints P fun c => rdRect (x + r') (y + h - r') (w - 2 * r') r' color
      (rdRect (x + r') y (w - 2 * r') r' color (rdRect x (y + r') w (h - 2 * r') color c)) := fun r' =>
    ((rdRect_paints _ _ _ _ color).comp (rdRect_paints _ _ _ _ color)).comp (rdRect_paints _ _ _ _ color)
  have discs := fun r' => cornerDiscs_paints (P := P) x y w h r' (fun px py => rdPixel_paints px py color)
    fun px py => rdBlendRect_paints px py 1 1 color 160
  exact (rdRect_paints x y w h color).ite ((bands _).comp (discs _))

theorem rdRoundedOutline_paints (x y w h r : Int) (color : UInt32) : Paints P (rdRoundedOutline x y w h r color) := by
  have lines : ∀ r', Paints P fun c => rdRect (x + w - 1) (y + r') 1 (h - 2 * r') color
      (rdRect x (y + r') 1 (h - 2 * r') color (rdRect (x + r') (y + h - 1) (w - 2 * r') 1 color
        (rdRect (x + r') y (w - 2 * r') 1 color c))) := fun r' =>
    (((rdRect_paints _ _ _ _ color).comp (rdRect_paints _ _ _ _ color)).comp (rdRect_paints _ _ _ _ color)).comp
      (rdRect_paints _ _ _ _ color)
  apply (rdRectOutline_paints x y w h color).ite
  apply (lines _).comp
  apply Paints.forEach
  intro dy
  apply Paints.forEach
  intro dx
  apply Paints.ite _ Paints.id
  exact (((rdPixel_paints _ _ color).comp (rdPixel_paints _ _ color)).comp (rdPixel_paints _ _ color)).comp
    (rdPixel_paints _ _ color)

theorem rdBlendRounded_paints (x y w h r : Int) (color : UInt32) (alpha : UInt8) :
    Paints P (rdBlendRounded x y w h r color alpha) := by
  have bands : ∀ r', Paints P fun c => rdBlendRect (x + r') (y + h - r') (w - 2 * r') r' color alpha
      (rdBlendRect (x + r') y (w - 2 * r') r' color alpha (rdBlendRect x (y + r') w (h - 2 * r') color alpha c)) := fun r' =>
    ((rdBlendRect_paints _ _ _ _ color alpha).comp (rdBlendRect_paints _ _ _ _ color alpha)).comp
      (rdBlendRect_paints _ _ _ _ color alpha)
  have discs := fun r' edge => cornerDiscs_paints (P := P) x y w h r' (fun px py => rdBlendRect_paints px py 1 1 color alpha)
    fun px py => rdBlendRect_paints px py 1 1 color edge
  exact Paints.id.ite ((rdBlendRect_paints x y w h color alpha).ite ((bands _).comp (discs _ _)))

theorem rdShadow_paints (x y w h r spread : Int) : Paints P (rdShadow x y w h r spread) := by
  have layers : ∀ n s, Paints P (shadowLayers x y w h r spread s n) := by
    intro n
    induction n with
    | zero => exact fun s => Paints.id
    | succ n ih =>
      intro s
      exact Paints.ite ((rdBlendRounded_paints _ _ _ _ _ _ _).comp (ih (s - 2))) Paints.id
  exact Paints.id.ite (layers _ _)

theorem rdCircleFill_paints (cx cy r : Int) (color : UInt32) : Paints P (rdCircleFill cx cy r color) := by
  apply Paints.forEach
  intro dy
  apply Paints.forEach
  intro dx
  exact (rdPixel_paints _ _ color).ite Paints.id

theorem rdLine_paints (fuel : Nat) (x0 y0 x1 y1 : Int) (color : UInt32) : Paints P (rdLine fuel x0 y0 x1 y1 color) := by
  have loop : ∀ adx ady sx sy err x y, Paints P (lineLoop x1 y1 adx ady sx sy color fuel err x y) := by
    intro adx ady sx sy
    induction fuel with
    | zero => exact fun err x y => Paints.id
    | succ fuel ih =>
      intro err x y
      exact (rdPixel_paints x y color).comp (Paints.id.ite (ih _ _ _))
  exact loop _ _ _ _ _ _ _

theorem draw_paints (d : Draw) : Paints P fun c => d.apply c := by
  cases d with
  | pixel x y color => exact rdPixel_paints x y color
  | rect x y w h color => exact rdRect_paints x y w h color
  | rectOutline x y w h color => exact rdRectOutline_paints x y w h color
  | blendRect x y w h color alpha => exact rdBlendRect_paints x y w h color alpha
  | gradientV x y w h top bot => exact rdGradientV_paints x y w h top bot
  | gradientH x y w h left right => exact rdGradientH_paints x y w h left right
  | rounded x y w h r color => exact rdRounded_paints x y w h r color
  | roundedOutline x y w h r color => exact rdRoundedOutline_paints x y w h r color
  | blendRounded x y w h r color alpha => exact rdBlendRounded_paints x y w h r color alpha
  | shadow x y w h r spread => exact rdShadow_paints x y w h r spread
  | circleFill cx cy r color => exact rdCircleFill_paints cx cy r color
  | line fuel x0 y0 x1 y1 color => exact rdLine_paints fuel x0 y0 x1 y1 color

/-- A clip begins neither left of the screen nor above it, unless nothing of it is drawn at all. -/
def Canvas.Fits (c : Canvas) : Prop :=
  ∀ r, c.clip = some r → 0 ≤ r.x ∧ 0 ≤ r.y ∨ clipXmax c ≤ r.x ∨ clipYmax c ≤ r.y

theorem area_inside (fits : c.Fits) {i : Int} (here : c.area i) : c.Inside i := by
  obtain ⟨x, y, ⟨left, right, upper, lower⟩, rfl⟩ := here
  cases clip : c.clip with
  | none =>
    simp only [clipXmin, clipXmax, clipYmin, clipYmax, clip] at left right upper lower
    refine ⟨x, y, left, right, upper, lower, ?_, rfl⟩
    intro r some_
    rw [clip] at some_
    cases some_
  | some r =>
    have edges := fits r clip
    simp only [clipXmin, clipXmax, clipYmin, clipYmax, clip] at left right upper lower edges
    split at right <;> split at lower <;>
    · refine ⟨x, y, by omega, by omega, by omega, by omega, ?_, rfl⟩
      intro r' same
      rw [clip] at same
      cases same
      refine ⟨left, ?_, upper, ?_⟩ <;> omega

theorem corner_outside {r : Clip} (clip : c.clip = some r) (wide : r.x < clipXmax c)
    (inside : c.Inside (c.place r.x r.y)) : 0 ≤ r.x ∧ 0 ≤ r.y := by
  obtain ⟨x, y, left, _, upper, _, inClip, same⟩ := inside
  obtain ⟨fromX, _, fromY, _⟩ := inClip r clip
  have onScreen : r.x < c.screen.w := by
    simp only [clipXmax, clip] at wide
    split at wide <;> omega
  rw [Canvas.place, Canvas.place] at same
  have rows : r.y * c.screen.w ≤ y * c.screen.w := Int.mul_le_mul_of_nonneg_right fromY (Int.natCast_nonneg _)
  by_contra outside
  rcases Int.lt_or_le r.x 0 with negative | left'
  · omega
  · -- the row is above the screen
    have above : r.y ≤ -1 := by omega
    have beyond := Int.mul_le_mul_of_nonneg_right above (Int.natCast_nonneg c.screen.w)
    have below := Int.mul_nonneg upper (Int.natCast_nonneg c.screen.w)
    omega

/-- All primitives write to elements of the buffer that lie in the clip, whatever their arguments
are, exactly if the clip fits. -/
theorem drawing_inside (c : Canvas) : (∀ d : Draw, Within c.Inside c (d.apply c)) ↔ c.Fits := by
  constructor
  · intro all r clip
    by_contra unfit
    rw [not_or, not_or, Int.not_le, Int.not_le] at unfit
    obtain ⟨outside, wide, high⟩ := unfit
    obtain ⟨new, writes, inside⟩ := (all (.pixel r.x r.y 0)).writes
    have drawn : (rdPixel r.x r.y 0 c).writes = c.writes ++ [c.place r.x r.y] := by
      have left : clipXmin c = r.x := by rw [clipXmin, clip]
      have upper : clipYmin c = r.y := by rw [clipYmin, clip]
      rw [rdPixel, if_neg (by omega), if_neg (by omega)]
      rfl
    rw [Draw.apply, drawn] at writes
    have same := List.append_cancel_left writes
    exact outside (corner_outside clip wide (inside _ (same ▸ List.mem_singleton_self _)))
  · intro fits d
    exact (draw_paints d c rfl).mono fun i here => area_inside fits here

/-- A window is opened, taken by its title bar and dragged by its own width less 80 pixels. -/
def dragLeft : List Call :=
  [.open (some terminalApp) 1, .input ⟨120, 120, true, true⟩, .input ⟨0, 120, true, false⟩]

theorem dragged_draws_outside :
    ¬ ∀ g s l i back, ∀ r ∈ [titlebarClip ((calls g (wmInit s) l).pool i), wmContentRect ((calls g (wmInit s) l).pool i)],
      ∀ d : Draw, Within (Canvas.Inside ⟨g, some r, back, []⟩) ⟨g, some r, back, []⟩ (d.apply ⟨g, some r, back, []⟩) := by
  intro all
  have clip : wmContentRect ((calls screen (wmInit bootWm) dragLeft).pool 0) = ⟨-11, 150, 638, 387⟩ := by decide +kernel
  have drawn := all screen bootWm dragLeft 0 (fun _ => 0) ⟨-11, 150, 638, 387⟩ (clip ▸ List.mem_cons_of_mem _ List.mem_cons_self)
    (.pixel (-1) 150 0)
  obtain ⟨new, writes, inside⟩ := drawn.writes
  have same : [150 * 1024 + -1] = new := writes
  obtain ⟨x, y, left, right, upper, lower, inClip, place⟩ := inside _ (same ▸ List.mem_singleton_self _)
  have below := (inClip _ rfl).2.2.1
  simp only [Canvas.place, screen] at *
  omega

end RexOs.Desktop
