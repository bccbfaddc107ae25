import RexOs.Desktop.Font
import RexOs.Desktop.Render
import Mathlib.Data.List.Nodup

/-! The glyph cache of the font module (`user/font.c`).

The font, which `stb_truetype` reads, is a parameter that gives the shape of a glyph at a height.
A bitmap is known by the number of its allocation. Whether `malloc` finds memory is told to each
call, and freeing what is not allocated is a failure of the run.
-/

set_option autoImplicit false

namespace RexOs.Desktop.Font

open RexOs.Library

def glyphCacheSlots : Nat := 256

/-- What is drawn for a character; `alpha` has a byte for each pixel of the box. -/
structure Glyph where
  w : Int
  h : Int
  xoff : Int
  yoff : Int
  advance : Int
  alpha : List UInt8
  deriving DecidableEq

/-- The font: glyph 0 stands for a character without a glyph, and a box has its left, upper, right and lower edge. -/
structure Face where
  glyphIndex : Int → Nat
  box : Nat → Int → Int × Int × Int × Int
  advance : Nat → Int → Int
  bitmap : Nat → Int → List UInt8

structure GlyphEntry where
  valid : Bool
  codepoint : Int
  pixelHeight : Int
  w : Int
  h : Int
  xoff : Int
  yoff : Int
  advance : Int
  bitmap : Option Nat

/-- `s_cache`, `s_cache_age` and `s_cache_clock`, with the heap. -/
structure GlyphCache where
  entries : Nat → GlyphEntry
  ages : Nat → UInt32
  clock : UInt32
  live : List Nat
  contents : Nat → List UInt8
  next : Nat

def GlyphCache.empty : GlyphCache := ⟨fun _ => ⟨false, 0, 0, 0, 0, 0, 0, 0, none⟩, fun _ => 0, 0, [], fun _ => [], 0⟩

/-- The slot of the smallest age among the first `n`. -/
def oldest (ages : Nat → UInt32) : Nat → Nat
  | 0 => 0
  | n + 1 => if ages n < ages (oldest ages n) then n else oldest ages n

/-- `free`, unless the pointer is NULL. -/
def GlyphCache.free (c : GlyphCache) : Option Nat → Option GlyphCache
  | none => some c
  | some p => if p ∈ c.live then some { c with live := c.live.erase p } else none

def findEvictSlot (c : GlyphCache) : Option (Nat × GlyphCache) :=
  match (List.range glyphCacheSlots).find? fun i => !(c.entries i).valid with
  | some i => some (i, c)
  | none =>
      let slot := oldest c.ages glyphCacheSlots
      (c.free (c.entries slot).bitmap).map fun c =>
        (slot, { c with entries := Function.update c.entries slot { c.entries slot with bitmap := none, valid := false } })

def cacheLookup (c : GlyphCache) (codepoint pixelHeight : Int) : Option Nat :=
  (List.range glyphCacheSlots).find? fun i =>
    (c.entries i).valid && (c.entries i).codepoint == codepoint && (c.entries i).pixelHeight == pixelHeight

/-- `s_cache_age[i] = ++s_cache_clock`. -/
def GlyphCache.touch (c : GlyphCache) (i : Nat) : GlyphCache :=
  { c with ages := Function.update c.ages i (c.clock + 1), clock := c.clock + 1 }

/-- The glyph `gi` at a height; a box of negative size is empty. -/
def Face.shape (face : Face) (gi : Nat) (pixelHeight : Int) : Glyph :=
  let (x0, y0, x1, y1) := face.box gi pixelHeight
  let w := if x1 - x0 < 0 then 0 else x1 - x0
  let h := if y1 - y0 < 0 then 0 else y1 - y0
  ⟨w, h, x0, y0, face.advance gi pixelHeight, if w > 0 ∧ h > 0 then face.bitmap gi pixelHeight else []⟩

def GlyphCache.fill (c : GlyphCache) (slot : Nat) (codepoint pixelHeight : Int) (g : Glyph) (bitmap : Option Nat) : GlyphCache :=
  let entry := ⟨true, codepoint, pixelHeight, g.w, g.h, g.xoff, g.yoff, g.advance, bitmap⟩
  GlyphCache.touch { c with entries := Function.update c.entries slot entry } slot

def GlyphCache.malloc (c : GlyphCache) (bytes : List UInt8) : GlyphCache :=
  { c with live := c.next :: c.live, contents := Function.update c.contents c.next bytes, next := c.next + 1 }

/-- `cache_get` for a character that is not in the cache. -/
def cacheMiss (face : Face) (room : Bool) (c : GlyphCache) (slot : Nat) (codepoint pixelHeight : Int) : Option Nat × GlyphCache :=
  let g := face.shape (face.glyphIndex codepoint) pixelHeight
  if g.w > 0 ∧ g.h > 0 then
    if room then (some slot, (c.malloc g.alpha).fill slot codepoint pixelHeight g (some c.next))
    else (none, { c with entries := Function.update c.entries slot { c.entries slot with valid := false } })
  else (some slot, c.fill slot codepoint pixelHeight g none)

/-- `cache_get`, which calls itself once at most: `?` (63) stands for characters without a glyph. The slot
of the entry is returned; without a result an allocation was freed that there was not. -/
def cacheGetLoop (face : Face) (room : Bool) (pixelHeight : Int) : Nat → GlyphCache → Int → Option (Option Nat × GlyphCache)
  | 0, _, _ => none
  | fuel + 1, c, codepoint =>
      match cacheLookup c codepoint pixelHeight with
      | some i => some (some i, c.touch i)
      | none =>
          match findEvictSlot c with
          | none => none
          | some (slot, c) =>
              if face.glyphIndex codepoint = 0 ∧ codepoint ≠ 63 then cacheGetLoop face room pixelHeight fuel c 63
              else some (cacheMiss face room c slot codepoint pixelHeight)

def cacheGet (face : Face) (room : Bool) (c : GlyphCache) (codepoint pixelHeight : Int) : Option (Option Nat × GlyphCache) :=
  cacheGetLoop face room pixelHeight 2 c codepoint

def GlyphCache.glyph (c : GlyphCache) (i : Nat) : Glyph :=
  let g := c.entries i
  ⟨g.w, g.h, g.xoff, g.yoff, g.advance, (g.bitmap.map c.contents).getD []⟩

def Face.render (face : Face) (codepoint pixelHeight : Int) : Glyph :=
  face.shape (if face.glyphIndex codepoint = 0 then face.glyphIndex 63 else face.glyphIndex codepoint) pixelHeight

def blendPixel (dst srcColor : UInt32) (alpha : UInt8) : UInt32 :=
  if alpha = 0 then dst
  else if alpha = 255 then srcColor
  else
    let a := alpha.toUInt32
    let mix (shift : UInt32) : UInt32 := (channel srcColor shift * a + channel dst shift * (255 - a)) / 255
    (mix 16 <<< 16) ||| (mix 8 <<< 8) ||| mix 0

/-- The loops of `font_draw_char`. Nothing is drawn outside of the destination, or where `alpha` is 0. -/
def drawGlyph (g : Glyph) (dstW dstH x y : Int) (color : UInt32) (dst : Int → UInt32) : Int → UInt32 :=
  (List.range g.h.toNat).foldl (fun dst (yy : Nat) =>
    let dy := y + g.yoff + yy
    if dy < 0 ∨ dy ≥ dstH then dst
    else (List.range g.w.toNat).foldl (fun dst (xx : Nat) =>
      let dx := x + g.xoff + xx
      let a := g.alpha.getD (yy * g.w.toNat + xx) 0
      if dx < 0 ∨ dx ≥ dstW ∨ a = 0 then dst
      else Function.update dst (dy * dstW + dx) (blendPixel (dst (dy * dstW + dx)) color a)) dst) dst

structure Pen where
  dstW : Int
  dstH : Int
  y : Int
  pixelHeight : Int
  color : UInt32

/-- `font_draw_char`; the cache is none when its run has failed. -/
def fontDrawChar (face : Face) (room : Bool) (pen : Pen) (x codepoint : Int) (dst : (Int → UInt32) × Option GlyphCache) :
    Int × (Int → UInt32) × Option GlyphCache :=
  match dst.2.bind fun c => cacheGet face room c codepoint pen.pixelHeight with
  | none => (0, dst.1, none)
  | some (none, c) => (0, dst.1, some c)
  | some (some i, c) => ((c.glyph i).advance, drawGlyph (c.glyph i) pen.dstW pen.dstH x pen.y pen.color dst.1, some c)

/-- `font_draw_char` without a cache. -/
def drawRendered (face : Face) (pen : Pen) (x codepoint : Int) (dst : Int → UInt32) : Int × (Int → UInt32) :=
  let g := face.render codepoint pen.pixelHeight
  (g.advance, drawGlyph g pen.dstW pen.dstH x pen.y pen.color dst)

/-- Calls of `cache_get`, each with whether there is memory. -/
def serve (face : Face) : List (Bool × Int × Int) → GlyphCache → Option (List (Option Glyph) × GlyphCache)
  | [], c => some ([], c)
  | (room, codepoint, pixelHeight) :: rest, c =>
      (cacheGet face room c codepoint pixelHeight).bind fun r =>
        (serve face rest r.2).map fun rs => (r.1.map r.2.glyph :: rs.1, rs.2)

def Owns (entries : Nat → GlyphEntry) (i p : Nat) : Prop :=
  i < glyphCacheSlots ∧ (entries i).valid ∧ (entries i).bitmap = some p

structure CacheOk (face : Face) (c : GlyphCache) : Prop where
  right : ∀ i < glyphCacheSlots, (c.entries i).valid → c.glyph i = face.render (c.entries i).codepoint (c.entries i).pixelHeight
  once : c.live.Nodup
  owned : ∀ p, p ∈ c.live ↔ ∃ i, Owns c.entries i p
  single : ∀ i j p, Owns c.entries i p → Owns c.entries j p → i = j
  fresh : ∀ p ∈ c.live, p < c.next

section
variable {face : Face} {c c' : GlyphCache} {i j n p slot : Nat} {codepoint pixelHeight : Int}

theorem oldest_lt (ages : Nat → UInt32) (positive : 0 < n) : oldest ages n < n := by
  induction n with
  | zero => exact absurd positive (Nat.lt_irrefl 0)
  | succ n ih =>
    unfold oldest
    split
    · exact Nat.lt_succ_self n
    · cases n with
      | zero => exact Nat.zero_lt_one
      | succ n => exact Nat.lt_succ_of_lt (ih (Nat.succ_pos n))

theorem cacheOk_empty : CacheOk face .empty where
  right _ _ valid := absurd valid Bool.false_ne_true
  once := List.nodup_nil
  owned p := by simp [GlyphCache.empty, Owns]
  single i j p owns := absurd owns.2.1 Bool.false_ne_true
  fresh p member := absurd member List.not_mem_nil

theorem CacheOk.touch (ok : CacheOk face c) (i : Nat) : CacheOk face (c.touch i) :=
  ⟨ok.right, ok.once, ok.owned, ok.single, ok.fresh⟩

theorem owns_update (entries : Nat → GlyphEntry) (slot : Nat) (e : GlyphEntry) (i p : Nat) :
    Owns (Function.update entries slot e) i p ↔
      i = slot ∧ slot < glyphCacheSlots ∧ e.valid ∧ e.bitmap = some p ∨ i ≠ slot ∧ Owns entries i p := by
  unfold Owns
  by_cases here : i = slot
  · subst here
    simp
  · simp [here]

theorem CacheOk.update (ok : CacheOk face c) {e : GlyphEntry} (entries : c'.entries = Function.update c.entries slot e)
    (right : e.valid → c'.glyph slot = face.render e.codepoint e.pixelHeight)
    (kept : ∀ i p, i ≠ slot → Owns c.entries i p → c'.contents p = c.contents p) (once : c'.live.Nodup)
    (owned : ∀ p, p ∈ c'.live ↔ slot < glyphCacheSlots ∧ e.valid ∧ e.bitmap = some p ∨ ∃ i, i ≠ slot ∧ Owns c.entries i p)
    (single : ∀ i p, e.valid → e.bitmap = some p → i ≠ slot → ¬ Owns c.entries i p)
    (fresh : ∀ p ∈ c'.live, p < c'.next) : CacheOk face c' := by
  refine ⟨?_, once, ?_, ?_, fresh⟩
  · intro i inside valid
    by_cases here : i = slot
    · subst here
      rw [entries, Function.update_self] at valid ⊢
      exact right valid
    · rw [entries, Function.update_of_ne here] at valid ⊢
      rw [← ok.right i inside valid]
      simp only [GlyphCache.glyph, entries, Function.update_of_ne here]
      cases own : (c.entries i).bitmap with
      | none => rfl
      | some p => rw [Option.map_some, Option.map_some, kept i p here ⟨inside, valid, own⟩]
  · intro p
    simp only [entries, owns_update, owned, exists_or, exists_eq_left]
  · intro i j p owns owns'
    rw [entries, owns_update] at owns owns'
    rcases owns with ⟨rfl, _, valid, bitmap⟩ | ⟨other, owns⟩ <;> rcases owns' with ⟨rfl, _, valid', bitmap'⟩ | ⟨other', owns'⟩
    · rfl
    · exact absurd owns' (single j p valid bitmap other')
    · exact absurd owns (single i p valid' bitmap' other)
    · exact ok.single i j p owns owns'

theorem CacheOk.vacate (ok : CacheOk face c) (small : slot < glyphCacheSlots) (valid : (c.entries slot).valid) :
    ∃ c₁, c.free (c.entries slot).bitmap = some c₁ ∧ CacheOk face { c₁ with entries := Function.update c₁.entries slot { c₁.entries slot with bitmap := none, valid := false } } := by
  cases own : (c.entries slot).bitmap with
  | none =>
    refine ⟨c, rfl, ok.update rfl (fun used => absurd used Bool.false_ne_true) (fun _ _ _ _ => rfl) ok.once ?_
      (fun _ _ used => absurd used Bool.false_ne_true) ok.fresh⟩
    intro p
    rw [ok.owned]
    constructor
    · rintro ⟨i, owns⟩
      refine Or.inr ⟨i, ?_, owns⟩
      rintro rfl
      rw [Owns, own] at owns
      cases owns.2.2
    · rintro (used | ⟨i, _, owns⟩)
      · exact absurd used.2.1 Bool.false_ne_true
      · exact ⟨i, owns⟩
  | some q =>
    have mine : Owns c.entries slot q := ⟨small, valid, own⟩
    have here : q ∈ c.live := (ok.owned q).mpr ⟨slot, mine⟩
    refine ⟨{ c with live := c.live.erase q }, if_pos here, ok.update rfl (fun used => absurd used Bool.false_ne_true)
      (fun _ _ _ _ => rfl) (ok.once.erase q) ?_ (fun _ _ used => absurd used Bool.false_ne_true)
      fun p member => ok.fresh p (List.mem_of_mem_erase member)⟩
    intro p
    rw [ok.once.mem_erase_iff, ok.owned]
    constructor
    · rintro ⟨other, i, owns⟩
      refine Or.inr ⟨i, ?_, owns⟩
      rintro rfl
      rw [Owns, own] at owns
      exact other (Option.some.inj owns.2.2).symm
    · rintro (used | ⟨i, apart, owns⟩)
      · exact absurd used.2.1 Bool.false_ne_true
      · refine ⟨?_, i, owns⟩
        rintro rfl
        exact apart (ok.single i slot p owns mine)

theorem CacheOk.evict (ok : CacheOk face c) : ∃ slot c₁, findEvictSlot c = some (slot, c₁) ∧ slot < glyphCacheSlots ∧
    (c₁.entries slot).valid = false ∧ CacheOk face c₁ := by
  unfold findEvictSlot
  cases found : (List.range glyphCacheSlots).find? fun i => !(c.entries i).valid with
  | some i =>
    have unused := List.find?_some found
    exact ⟨i, c, rfl, List.mem_range.mp (List.mem_of_find?_eq_some found), by simpa using unused, ok⟩
  | none =>
    have small := oldest_lt c.ages (n := glyphCacheSlots) (by decide)
    have valid := List.find?_eq_none.mp found _ (List.mem_range.mpr small)
    obtain ⟨c₁, freed, ok⟩ := ok.vacate small (by simpa using valid)
    exact ⟨_, _, by simp only [freed, Option.map_some], small, by simp only [Function.update_self], ok⟩

theorem Face.shape_blank {face : Face} {gi : Nat} (blank : ¬ ((face.shape gi pixelHeight).w > 0 ∧ (face.shape gi pixelHeight).h > 0)) :
    (face.shape gi pixelHeight).alpha = [] := if_neg blank

theorem CacheOk.miss (ok : CacheOk face c) (room : Bool) (small : slot < glyphCacheSlots) (free : (c.entries slot).valid = false)
    (known : face.glyphIndex codepoint ≠ 0 ∨ codepoint = 63) {r : Option Nat}
    (result : cacheMiss face room c slot codepoint pixelHeight = (r, c')) :
    CacheOk face c' ∧ (r.map c'.glyph = some (face.render codepoint pixelHeight) ∨ room = false ∧ r = none) := by
  have shape : face.shape (face.glyphIndex codepoint) pixelHeight = face.render codepoint pixelHeight := by
    unfold Face.render
    rcases known with some_ | rfl
    · rw [if_neg some_]
    · rw [ite_self]
  have others {i p : Nat} (owns : Owns c.entries i p) : i ≠ slot := by
    rintro rfl
    rw [Owns, free] at owns
    exact Bool.false_ne_true owns.2.1
  have owned (p : Nat) : p ∈ c.live ↔ ∃ i, i ≠ slot ∧ Owns c.entries i p := by
    rw [ok.owned]
    exact exists_congr fun i => (and_iff_right_of_imp others).symm
  unfold cacheMiss at result
  rw [shape] at result
  dsimp only at result
  split at result
  · cases room with
    | true =>
      obtain ⟨rfl, rfl⟩ := Prod.mk.inj result
      have glyph : ((c.malloc (face.render codepoint pixelHeight).alpha).fill slot codepoint pixelHeight
          (face.render codepoint pixelHeight) (some c.next)).glyph slot = face.render codepoint pixelHeight := by
        simp [GlyphCache.glyph, GlyphCache.fill, GlyphCache.touch, GlyphCache.malloc]
      have unowned {i : Nat} : ¬ Owns c.entries i c.next := fun owns =>
        Nat.lt_irrefl _ (ok.fresh _ ((ok.owned _).mpr ⟨i, owns⟩))
      refine ⟨ok.update rfl (fun _ => glyph) ?_ ?_ ?_ ?_ ?_, Or.inl (congrArg some glyph)⟩
      · intro i p _ owns
        refine Function.update_of_ne ?_ _ _
        rintro rfl
        exact unowned owns
      · exact List.nodup_cons.mpr ⟨fun member => Nat.lt_irrefl _ (ok.fresh _ member), ok.once⟩
      · intro p
        show p ∈ c.next :: c.live ↔ _
        rw [List.mem_cons, owned]
        simp [small, eq_comm]
      · rintro i p _ same _ owns
        cases same
        exact unowned owns
      · intro p member
        rcases List.mem_cons.mp member with rfl | member
        · exact Nat.lt_succ_self _
        · exact Nat.lt_succ_of_lt (ok.fresh p member)
    | false =>
      obtain ⟨rfl, rfl⟩ := Prod.mk.inj result
      refine ⟨ok.update rfl (fun used => absurd used Bool.false_ne_true) (fun _ _ _ _ => rfl) ok.once ?_
        (fun _ _ used => absurd used Bool.false_ne_true) ok.fresh, Or.inr ⟨rfl, rfl⟩⟩
      simpa using owned
  · rename_i blank
    obtain ⟨rfl, rfl⟩ := Prod.mk.inj result
    have glyph : (c.fill slot codepoint pixelHeight (face.render codepoint pixelHeight) none).glyph slot =
        face.render codepoint pixelHeight := by
      have none_ : (face.render codepoint pixelHeight).alpha = [] := Face.shape_blank blank
      simp [GlyphCache.glyph, GlyphCache.fill, GlyphCache.touch, ← none_]
    refine ⟨ok.update rfl (fun _ => glyph) (fun _ _ _ _ => rfl) ok.once ?_ ?_ ok.fresh, Or.inl (congrArg some glyph)⟩
    · simpa [GlyphCache.fill, GlyphCache.touch] using owned
    · rintro i p _ same
      cases same

theorem CacheOk.get (ok : CacheOk face c) (room : Bool) (codepoint pixelHeight : Int) :
    ∃ r c', cacheGet face room c codepoint pixelHeight = some (r, c') ∧ CacheOk face c' ∧
      (r.map c'.glyph = some (face.render codepoint pixelHeight) ∨ room = false ∧ r = none) := by
  have hit {c : GlyphCache} (ok : CacheOk face c) {cp : Int} {i : Nat} (found : cacheLookup c cp pixelHeight = some i) :
      CacheOk face (c.touch i) ∧ (c.touch i).glyph i = face.render cp pixelHeight := by
    have same := List.find?_some found
    have inside := List.mem_range.mp (List.mem_of_find?_eq_some found)
    simp only [Bool.and_eq_true, beq_iff_eq] at same
    have right := ok.right i inside same.1.1
    rw [same.1.2, same.2] at right
    exact ⟨ok.touch i, right⟩
  unfold cacheGet cacheGetLoop
  cases found : cacheLookup c codepoint pixelHeight with
  | some i => exact ⟨_, _, rfl, (hit ok found).1, Or.inl (congrArg some (hit ok found).2)⟩
  | none =>
    obtain ⟨slot, c₁, evicted, small, free, ok₁⟩ := ok.evict
    simp only [evicted]
    by_cases missing : face.glyphIndex codepoint = 0 ∧ codepoint ≠ 63
    · have same : face.render codepoint pixelHeight = face.render 63 pixelHeight := by
        simp [Face.render, missing.1]
      rw [if_pos missing, same]
      unfold cacheGetLoop
      cases found : cacheLookup c₁ 63 pixelHeight with
      | some i => exact ⟨_, _, rfl, (hit ok₁ found).1, Or.inl (congrArg some (hit ok₁ found).2)⟩
      | none =>
        obtain ⟨slot, c₂, evicted, small, free, ok₂⟩ := ok₁.evict
        simp only [evicted, ne_eq, not_true_eq_false, and_false, if_false]
        exact ⟨_, _, rfl, ok₂.miss room small free (Or.inr rfl) rfl⟩
    · rw [if_neg missing]
      exact ⟨_, _, rfl, ok₁.miss room small free (not_and_or.mp missing |>.imp_right not_not.mp) rfl⟩

theorem CacheOk.serve (ok : CacheOk face c) (requests : List (Bool × Int × Int)) :
    ∃ answers c', serve face requests c = some (answers, c') ∧ CacheOk face c' ∧ answers.length = requests.length ∧
      ∀ r ∈ requests.zip answers, r.2 = some (face.render r.1.2.1 r.1.2.2) ∨ r.1.1 = false ∧ r.2 = none := by
  induction requests generalizing c with
  | nil => exact ⟨[], c, rfl, ok, rfl, fun _ member => absurd member List.not_mem_nil⟩
  | cons request requests ih =>
    obtain ⟨room, codepoint, pixelHeight⟩ := request
    obtain ⟨r, c₁, got, ok₁, answer⟩ := ok.get room codepoint pixelHeight
    obtain ⟨answers, c₂, served, ok₂, length, all⟩ := ih ok₁
    refine ⟨r.map c₁.glyph :: answers, c₂, by simp [Font.serve, got, served], ok₂, by simp [length], ?_⟩
    rw [List.zip_cons_cons, List.forall_mem_cons]
    refine ⟨?_, all⟩
    rcases answer with right | ⟨full, rfl⟩
    · exact Or.inl right
    · exact Or.inr ⟨full, rfl⟩

/-- However often the cache was used and ran out of memory, every call gives the glyph that the font has for the
character, or nothing when there is no memory for it. Nothing is freed twice, and no bitmap is lost or shared. -/
theorem glyphs_cached (face : Face) (requests : List (Bool × Int × Int)) :
    ∃ answers c, serve face requests .empty = some (answers, c) ∧ answers.length = requests.length ∧
      (∀ r ∈ requests.zip answers, r.2 = some (face.render r.1.2.1 r.1.2.2) ∨ r.1.1 = false ∧ r.2 = none) ∧
      c.live.Nodup ∧ (∀ p, p ∈ c.live ↔ ∃ i, Owns c.entries i p) ∧
      ∀ i j p, Owns c.entries i p → Owns c.entries j p → i = j := by
  obtain ⟨answers, c, served, ok, length, all⟩ := cacheOk_empty.serve requests
  exact ⟨answers, c, served, length, all, ok.once, ok.owned, ok.single⟩

theorem CacheOk.draw (ok : CacheOk face c) (pen : Pen) (x codepoint : Int) (dst : Int → UInt32) :
    ∃ c', CacheOk face c' ∧ fontDrawChar face true pen x codepoint (dst, some c) =
      ((drawRendered face pen x codepoint dst).1, (drawRendered face pen x codepoint dst).2, some c') := by
  obtain ⟨r, c', got, ok', right | ⟨full, _⟩⟩ := ok.get true codepoint pen.pixelHeight
  · cases r with
    | none => cases right
    | some i =>
      refine ⟨c', ok', ?_⟩
      simp only [Option.map_some, Option.some.injEq] at right
      simp only [fontDrawChar, Option.bind_some, got, right, drawRendered]
  · cases full

theorem CacheOk.drawAll (ok : CacheOk face c) (pen : Pen) (cps : List Int) (x : Int) (dst : Int → UInt32) :
    ∃ c', CacheOk face c' ∧
      cps.foldl (fun r cp => (wrapInt (r.1 + (fontDrawChar face true pen r.1 cp r.2).1), (fontDrawChar face true pen r.1 cp r.2).2)) (x, dst, some c) =
        let r := cps.foldl (fun r cp => (wrapInt (r.1 + (drawRendered face pen r.1 cp r.2).1), (drawRendered face pen r.1 cp r.2).2)) (x, dst)
        (r.1, r.2, some c') := by
  induction cps generalizing c x dst with
  | nil => exact ⟨c, ok, rfl⟩
  | cons cp cps ih =>
    obtain ⟨c₁, ok₁, drawn⟩ := ok.draw pen x cp dst
    rw [List.foldl_cons, List.foldl_cons]
    simp only [drawn]
    exact ih ok₁ _ _

/-- A text that is drawn with the cache looks as without it, after any use of the cache, as long as there is memory. -/
theorem text_cached (face : Face) (requests : List (Bool × Int × Int)) :
    ∃ answers c, serve face requests .empty = some (answers, c) ∧ ∀ (pen : Pen) (x : Int) (s : List UInt8) (dst : Int → UInt32),
      ∃ c', fontDrawText (fontDrawChar face true pen) x s (dst, some c) =
        (fontDrawText (drawRendered face pen) x s dst).map fun r => (r.1, r.2, some c') := by
  obtain ⟨answers, c, served, ok, _⟩ := cacheOk_empty.serve requests
  refine ⟨answers, c, served, fun pen x s dst => ?_⟩
  unfold fontDrawText
  rw [visitText_codePoints, visitText_codePoints]
  cases codePoints s with
  | error e => exact ⟨c, rfl⟩
  | ok r =>
    obtain ⟨c', _, drawn⟩ := ok.drawAll pen r.1 x dst
    refine ⟨c', ?_⟩
    simp only [bind, Except.bind, drawn]
    rfl

end

end RexOs.Desktop.Font
