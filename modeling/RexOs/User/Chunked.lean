import Mathlib.Data.List.Chain
import RexOs.Library.CInt
import RexOs.Library.CString
import RexOs.Library.Safe

/-! Chunked transfer encoding: `h_decode_chunked` of `user/http.c`.

Positions and sizes are C ints. A read in front of the body or behind it and a write behind
the buffer end in a `Fault`.
-/

set_option autoImplicit false

namespace RexOs.User.Http

open RexOs.Library

inductive Fault where
  | read
  | write
  | hang
  deriving DecidableEq, Repr

/-- `body[i]`. -/
def readAt (body : List UInt8) (i : Int) : Except Fault UInt8 :=
  if i < 0 then .error .read
  else
    match body[i.toNat]? with
    | some c => .ok c
    | none => .error .read

/-- `out[written++] = c`; `out` is what was written so far. -/
def put (outMax : Nat) (out : List UInt8) (c : UInt8) : Except Fault (List UInt8) :=
  if out.length < outMax then .ok (out ++ [c]) else .error .write

def hHexValue (c : UInt8) : Int :=
  if 48 ≤ c ∧ c ≤ 57 then c.toNat - 48
  else if 97 ≤ c ∧ c ≤ 102 then c.toNat - 97 + 10
  else if 65 ≤ c ∧ c ≤ 70 then c.toNat - 65 + 10
  else -1

/-- The variables of the decoder; `truncated` is that of the response, if there is one. -/
structure Dechunk where
  pos : Int
  out : List UInt8
  truncated : Option Bool
  /-- the values of `pos`, for reference -/
  trail : List Int
  deriving DecidableEq, Repr

def Dechunk.goto (s : Dechunk) (pos : Int) : Dechunk := { s with pos := pos, trail := s.trail ++ [pos] }

def Dechunk.truncate (s : Dechunk) : Dechunk := { s with truncated := s.truncated.map fun _ => true }

section
variable (body : List UInt8) (outMax : Nat)

def roundsFrom (pos : Int) : Nat := ((body.length : Int) - pos).toNat + 1

def sizeLoop : Nat → Int → Int → Bool → Except Fault (Int × Int × Bool)
  | 0, _, _, _ => .error .hang
  | fuel + 1, pos, chunkLen, sawDigit =>
      if pos < body.length then do
        let c ← readAt body pos
        if c ≠ 13 ∧ c ≠ 10 ∧ c ≠ 59 then
          let hv := hHexValue c
          if hv < 0 then .ok (pos, chunkLen, sawDigit) else sizeLoop fuel (pos + 1) (wrapInt (chunkLen * 16 + hv)) true
        else .ok (pos, chunkLen, sawDigit)
      else .ok (pos, chunkLen, sawDigit)

/-- `while (pos < body_len && body[pos] != '\n') pos++`. -/
def lineLoop : Nat → Int → Except Fault Int
  | 0, _ => .error .hang
  | fuel + 1, pos =>
      if pos < body.length then do
        let c ← readAt body pos
        if c ≠ 10 then lineLoop fuel (pos + 1) else .ok pos
      else .ok pos

/-- The rounds of the copy from `body[i]` on: how many bytes are copied, and all that is written then. -/
def copyLoop : Nat → Int → List UInt8 → Except Fault (Int × List UInt8)
  | 0, _, out => .ok (0, out)
  | rounds + 1, i, out =>
      if out.length + 1 < outMax then do
        let c ← readAt body i
        let out ← put outMax out c
        let (copied, out) ← copyLoop rounds (i + 1) out
        .ok (copied + 1, out)
      else .ok (0, out)

/-- `if (pos < body_len && body[pos] == c) pos++`. -/
def skipChar (c : UInt8) (s : Dechunk) : Except Fault Dechunk :=
  if s.pos < body.length then do
    let b ← readAt body s.pos
    if b = c then .ok (s.goto (s.pos + 1)) else .ok s
  else .ok s

def clip (s : Dechunk) (chunkLen : Int) : Dechunk × Int :=
  if wrapInt (s.pos + chunkLen) > body.length then (s.truncate, wrapInt (body.length - s.pos)) else (s, chunkLen)

def takeChunk (s : Dechunk) (chunkLen : Int) : Except Fault Dechunk := do
  let (s, chunkLen) := clip body s chunkLen
  let (copied, out) ← copyLoop body outMax chunkLen.toNat s.pos s.out
  let s := if copied < chunkLen then s.truncate else s
  let s := { s with out := out }
  let s := s.goto (wrapInt (s.pos + chunkLen))
  let s ← skipChar body 13 s
  skipChar body 10 s

def decodeLoop : Nat → Dechunk → Except Fault Dechunk
  | 0, _ => .error .hang
  | fuel + 1, s =>
      if s.pos < body.length then do
        let (pos, chunkLen, sawDigit) ← sizeLoop body (roundsFrom body s.pos) s.pos 0 false
        let s := s.goto pos
        let pos ← lineLoop body (roundsFrom body s.pos) s.pos
        let s := s.goto pos
        let s := if s.pos < body.length then s.goto (s.pos + 1) else s
        if sawDigit = false then .ok s
        else if chunkLen = 0 then .ok s
        else do
          let s ← takeChunk body outMax s chunkLen
          decodeLoop fuel s
      else .ok s

structure Decoded where
  value : Int
  out : List UInt8
  truncated : Option Bool
  trail : List Int
  deriving DecidableEq, Repr

def hDecodeChunked (truncated : Option Bool) (fuel : Nat) : Except Fault Decoded :=
  if outMax = 0 then .ok ⟨0, [], truncated, []⟩
  else do
    let s ← decodeLoop body outMax fuel ⟨0, [], truncated, [0]⟩
    let out ← put outMax s.out 0
    .ok ⟨wrapInt s.out.length, out, s.truncated, s.trail⟩

end

def sizeDigits (rest : List UInt8) : List UInt8 := rest.takeWhile fun c => 0 ≤ hHexValue c

def sizeField (rest : List UInt8) : Int := readInt hHexValue 16 0 (sizeDigits rest)

def behindLine (rest : List UInt8) : List UInt8 := (rest.dropWhile (· ≠ 10)).tail

def dropChar (c : UInt8) : List UInt8 → List UInt8
  | [] => []
  | b :: rest => if b = c then rest else b :: rest

def behindChunk (rest : List UInt8) : List UInt8 := dropChar 10 (dropChar 13 ((behindLine rest).drop (sizeField rest).toNat))

/-- Every size line that is come to has a size that is not negative as an int and ends below `2 ^ 31`; the
body has `total` bytes. -/
inductive SizesFit (total : Nat) : List UInt8 → Prop where
  | last {rest : List UInt8} : sizeField rest = 0 → SizesFit total rest
  | chunk {rest : List UInt8} : 0 < sizeField rest →
      ((total - (behindLine rest).length : Nat) : Int) + sizeField rest < 2 ^ 31 → SizesFit total (behindChunk rest) →
      SizesFit total rest

structure DecodedSafely (outMax : Nat) (r : Decoded) : Prop where
  forward : r.trail.IsChain (· ≤ ·)
  room : r.out.length ≤ outMax
  counted : r.value + 1 = r.out.length

variable {body rest : List UInt8} {outMax p q fuel : Nat} {s s' : Dechunk} {c : UInt8} {pos : Int}

theorem readAt_drop (here : body.drop p = c :: rest) : readAt body p = .ok c := by
  have byte : body[p]? = some c := by rw [← List.head?_drop, here, List.head?_cons]
  rw [readAt, if_neg (by omega), Int.toNat_natCast, byte]

theorem drop_inside (here : body.drop p = c :: rest) : (p : Int) < body.length := by
  have length := congrArg List.length here
  rw [List.length_drop, List.length_cons] at length
  omega

theorem drop_end (here : body.drop p = []) : ¬ (p : Int) < body.length := by
  rw [List.drop_eq_nil_iff] at here
  omega

theorem drop_next (here : body.drop p = c :: rest) : body.drop (p + 1) = rest := by
  rw [← List.drop_drop, here, List.drop_one, List.tail_cons]

theorem sizeLoop_eq (here : body.drop p = rest) (enough : rest.length < fuel) (len : Int) (saw : Bool) :
    sizeLoop body fuel p len saw =
      .ok (((p + (sizeDigits rest).length : Nat) : Int), readInt hHexValue 16 len (sizeDigits rest),
        saw || !(sizeDigits rest).isEmpty) := by
  induction rest generalizing p len saw fuel with
  | nil =>
    obtain ⟨fuel, rfl⟩ := Nat.exists_eq_add_one_of_ne_zero (by omega : fuel ≠ 0)
    rw [sizeLoop, if_neg (drop_end here)]
    simp [sizeDigits, readInt]
  | cons c rest ih =>
    obtain ⟨fuel, rfl⟩ := Nat.exists_eq_add_one_of_ne_zero (by omega : fuel ≠ 0)
    have step : sizeLoop body (fuel + 1) p len saw =
        if c ≠ 13 ∧ c ≠ 10 ∧ c ≠ 59 then
          if hHexValue c < 0 then .ok ((p : Int), len, saw)
          else sizeLoop body fuel ((p : Int) + 1) (wrapInt (len * 16 + hHexValue c)) true
        else .ok ((p : Int), len, saw) := by
      rw [sizeLoop, if_pos (drop_inside here), readAt_drop here]
      rfl
    rw [step]
    by_cases digit : 0 ≤ hHexValue c
    · have other : c ≠ 13 ∧ c ≠ 10 ∧ c ≠ 59 := by
        refine ⟨?_, ?_, ?_⟩ <;> rintro rfl <;> exact absurd digit (by decide)
      have digits : sizeDigits (c :: rest) = c :: sizeDigits rest := List.takeWhile_cons_of_pos (by simpa using digit)
      rw [if_pos other, if_neg (by omega), digits]
      have next := ih (drop_next here) (by simpa using enough) (wrapInt (len * 16 + hHexValue c)) true
      rw [Nat.cast_succ] at next
      rw [next, List.length_cons, Nat.add_right_comm, Nat.add_assoc]
      simp [readInt]
    · have digits : sizeDigits (c :: rest) = [] := List.takeWhile_cons_of_neg (by simpa using digit)
      rw [digits]
      have stop : hHexValue c < 0 := by omega
      rw [if_pos stop, ite_self]
      simp [readInt]

theorem lineLoop_eq (here : body.drop p = rest) (enough : rest.length < fuel) :
    lineLoop body fuel p = .ok ((p + (rest.takeWhile (· ≠ 10)).length : Nat) : Int) := by
  induction rest generalizing p fuel with
  | nil =>
    obtain ⟨fuel, rfl⟩ := Nat.exists_eq_add_one_of_ne_zero (by omega : fuel ≠ 0)
    rw [lineLoop, if_neg (drop_end here)]
    rfl
  | cons c rest ih =>
    obtain ⟨fuel, rfl⟩ := Nat.exists_eq_add_one_of_ne_zero (by omega : fuel ≠ 0)
    have step : lineLoop body (fuel + 1) p = if c ≠ 10 then lineLoop body fuel ((p : Int) + 1) else .ok (p : Int) := by
      rw [lineLoop, if_pos (drop_inside here), readAt_drop here]
      rfl
    rw [step]
    by_cases newline : c = 10
    · rw [if_neg (not_not.mpr newline), List.takeWhile_cons_of_neg (by simpa using newline)]
      rfl
    · have next := ih (drop_next here) (by simpa using enough)
      rw [Nat.cast_succ] at next
      rw [if_pos newline, next, List.takeWhile_cons_of_pos (by simpa using newline), List.length_cons, Nat.add_right_comm,
        Nat.add_assoc]

theorem copyLoop_eq {out : List UInt8} (rounds : Nat) (here : body.drop p = rest) (inside : rounds ≤ rest.length)
    (room : out.length < outMax) :
    copyLoop body outMax rounds p out =
      .ok (((min rounds (outMax - 1 - out.length) : Nat) : Int), out ++ rest.take (min rounds (outMax - 1 - out.length))) := by
  induction rounds generalizing p out rest with
  | zero => simp [copyLoop]
  | succ rounds ih =>
    rw [copyLoop]
    split
    · rename_i more
      cases rest with
      | nil => exact absurd inside (by simp)
      | cons c rest =>
        have putIs : put outMax out c = .ok (out ++ [c]) := if_pos room
        have length : (out ++ [c]).length = out.length + 1 := List.length_append
        have shorter : (out ++ [c]).length < outMax := by omega
        have next := ih (drop_next here) (by simpa using inside) shorter
        rw [Nat.cast_succ] at next
        have count : min (rounds + 1) (outMax - 1 - out.length) = min rounds (outMax - 1 - (out ++ [c]).length) + 1 := by omega
        rw [readAt_drop here]
        change (put outMax out c >>= _) = _
        rw [putIs]
        change (copyLoop body outMax rounds ((p : Int) + 1) (out ++ [c]) >>= _) = _
        rw [next, count, List.take_succ_cons, List.append_assoc]
        rfl
    · have full : min (rounds + 1) (outMax - 1 - out.length) = 0 := by omega
      rw [full, List.take_zero, List.append_nil]
      rfl

structure Dechunk.Forward (s : Dechunk) : Prop where
  chain : s.trail.IsChain (· ≤ ·)
  last : s.trail.getLast? = some s.pos

theorem Dechunk.Forward.goto (forward : s.Forward) (ahead : s.pos ≤ pos) : (s.goto pos).Forward := by
  refine ⟨?_, List.getLast?_concat⟩
  rw [Dechunk.goto, List.isChain_append]
  refine ⟨forward.chain, List.isChain_singleton _, ?_⟩
  intro x last y head
  rw [forward.last] at last
  cases last
  cases head
  exact ahead

theorem Dechunk.Forward.back (forward : s.Forward) (chain : (s.goto pos).trail.IsChain (· ≤ ·)) : s.pos ≤ pos := by
  rw [Dechunk.goto, List.isChain_append] at chain
  exact chain.2.2 s.pos forward.last pos rfl

/-- From `s` to `s'` the decoder has moved forward to where `rest` stands. -/
structure Moved (body rest : List UInt8) (s s' : Dechunk) : Prop where
  place : ∃ q : Nat, s'.pos = q ∧ q ≤ body.length ∧ body.drop q = rest
  trail : s.trail <+: s'.trail
  forward : s.Forward → s'.Forward

theorem Moved.trans {rest' : List UInt8} {s₁ s₂ : Dechunk} (first : Moved body rest s s₁) (second : Moved body rest' s₁ s₂) :
    Moved body rest' s s₂ :=
  ⟨second.place, first.trail.trans second.trail, fun forward => second.forward (first.forward forward)⟩

theorem Moved.goto (place : s.pos = p) (ahead : p ≤ q) (inside : q ≤ body.length) (here : body.drop q = rest) :
    Moved body rest s (s.goto q) :=
  ⟨⟨q, rfl, inside, here⟩, List.prefix_append .., fun forward => forward.goto (by rw [place]; exact Int.ofNat_le.mpr ahead)⟩

theorem Moved.stay (place : s.pos = p) (inside : p ≤ body.length) (here : body.drop p = rest) : Moved body rest s s :=
  ⟨⟨p, place, inside, here⟩, List.prefix_refl _, id⟩

theorem Moved.from {s₁ : Dechunk} (moved : Moved body rest s₁ s') (place : s₁.pos = s.pos) (trail : s₁.trail = s.trail) :
    Moved body rest s s' := by
  obtain ⟨there, more, forward⟩ := moved
  rw [trail] at more
  refine ⟨there, more, fun before => forward ⟨?_, ?_⟩⟩
  · rw [trail]
    exact before.chain
  · rw [trail, place]
    exact before.last

theorem skipChar_moved (c : UInt8) (place : s.pos = p) (inside : p ≤ body.length) (here : body.drop p = rest) :
    ∃ s', skipChar body c s = .ok s' ∧ Moved body (dropChar c rest) s s' ∧ s'.out = s.out ∧ s'.truncated = s.truncated := by
  cases rest with
  | nil =>
    have stays : skipChar body c s = .ok s := by rw [skipChar, place, if_neg (drop_end here)]
    exact ⟨s, stays, Moved.stay place inside here, rfl, rfl⟩
  | cons b rest =>
    have within := drop_inside here
    have step : skipChar body c s = if b = c then .ok (s.goto ((p : Int) + 1)) else .ok s := by
      rw [skipChar, place, if_pos within, readAt_drop here]
      rfl
    rw [step, dropChar]
    split
    · refine ⟨_, rfl, ?_, rfl, rfl⟩
      rw [← Nat.cast_succ]
      exact Moved.goto place (Nat.le_succ p) (by omega) (drop_next here)
    · exact ⟨s, rfl, Moved.stay place inside here, rfl, rfl⟩

variable (outMax) in
theorem takeChunk_moved {n : Int} (small : body.length < 2 ^ 31) (place : s.pos = p) (inside : p ≤ body.length)
    (here : body.drop p = rest) (positive : 0 < n) (fits : (p : Int) + n < 2 ^ 31) (room : s.out.length < outMax) :
    ∃ s', takeChunk body outMax s n = .ok s' ∧ Moved body (dropChar 10 (dropChar 13 (rest.drop n.toNat))) s s' ∧
      s'.out = s.out ++ (rest.take n.toNat).take (outMax - 1 - s.out.length) ∧
      (n ≤ rest.length → s.out.length + n < outMax → s'.truncated = s.truncated) := by
  have length : rest.length = body.length - p := by rw [← here, List.length_drop]
  -- what there is of the chunk
  obtain ⟨k, count⟩ : ∃ k : Nat, k = min n.toNat rest.length := ⟨_, rfl⟩
  obtain ⟨s₁, clipped, place₁, out₁, trail₁, truncated₁⟩ : ∃ s₁, clip body s n = (s₁, (k : Int)) ∧ s₁.pos = p ∧
      s₁.out = s.out ∧ s₁.trail = s.trail ∧ (n ≤ rest.length → s₁.truncated = s.truncated) := by
    rw [clip, place, wrapInt_of_fits (by omega) fits]
    split
    · refine ⟨s.truncate, ?_, place, rfl, rfl, fun short => by omega⟩
      rw [wrapInt_of_fits (by omega) (by omega)]
      exact congrArg (Prod.mk s.truncate) (by omega)
    · exact ⟨s, congrArg (Prod.mk s) (by omega), place, rfl, rfl, fun _ => rfl⟩
  have copied := copyLoop_eq k here (by omega) room
  rw [← out₁, ← place₁] at copied
  obtain ⟨s₂, noted, place₂, trail₂, truncated₂⟩ : ∃ s₂ : Dechunk,
      (if ((min k (outMax - 1 - s₁.out.length) : Nat) : Int) < k then s₁.truncate else s₁) = s₂ ∧ s₂.pos = p ∧
        s₂.trail = s.trail ∧ (n ≤ rest.length → s.out.length + n < outMax → s₂.truncated = s.truncated) := by
    rw [out₁]
    split
    · exact ⟨_, rfl, place₁, trail₁, fun short fits => by omega⟩
    · exact ⟨_, rfl, place₁, trail₁, fun short _ => truncated₁ short⟩
  obtain ⟨s₃, grown, place₃, trail₃, out₃, truncated₃⟩ : ∃ s₃ : Dechunk,
      { s₂ with out := s₁.out ++ rest.take (min k (outMax - 1 - s₁.out.length)) } = s₃ ∧ s₃.pos = p ∧ s₃.trail = s.trail ∧
        s₃.out = s.out ++ rest.take (min k (outMax - 1 - s₁.out.length)) ∧ s₃.truncated = s₂.truncated :=
    ⟨_, rfl, place₂, trail₂, congrArg (· ++ _) out₁, rfl⟩
  have step : takeChunk body outMax s n =
      (skipChar body 13 (s₃.goto (p + k : Nat)) >>= skipChar body 10) := by
    have target : wrapInt (s₂.pos + k) = (p + k : Nat) := by
      rw [place₂, wrapInt_of_fits (by omega) (by omega), Nat.cast_add]
    rw [takeChunk, clipped]
    change (copyLoop body outMax (k : Int).toNat s₁.pos s₁.out >>= _) = _
    rw [Int.toNat_natCast, copied, ← grown, ← target, ← noted]
    rfl
  have behind : body.drop (p + k) = rest.drop n.toNat := by
    rw [← List.drop_drop, here, List.drop_eq_drop_iff]
    omega
  have taken : rest.take (min k (outMax - 1 - s₁.out.length)) = (rest.take n.toNat).take (outMax - 1 - s.out.length) := by
    rw [List.take_take, List.take_eq_take_iff, out₁]
    omega
  have moved : Moved body (rest.drop n.toNat) s (s₃.goto (p + k : Nat)) :=
    (Moved.goto place₃ (Nat.le_add_right p k) (by omega) behind).from (place₃.trans place.symm) trail₃
  obtain ⟨q, place', inside', here'⟩ := moved.place
  obtain ⟨s₄, first, moved₄, out₄, truncated₄⟩ := skipChar_moved 13 place' inside' here'
  obtain ⟨q', place'', inside'', here''⟩ := moved₄.place
  obtain ⟨s₅, second, moved₅, out₅, truncated₅⟩ := skipChar_moved 10 place'' inside'' here''
  refine ⟨s₅, ?_, (moved.trans moved₄).trans moved₅, ?_, ?_⟩
  · rw [step, first]
    exact second
  · rw [out₅, out₄, ← taken]
    exact out₃
  · intro short fits
    rw [truncated₅, truncated₄]
    exact truncated₃.trans (truncated₂ short fits)

theorem skipChar_trail (returned : skipChar body c s = .ok s') : s.trail <+: s'.trail := by
  rw [skipChar] at returned
  split at returned
  · obtain ⟨b, -, returned⟩ := bind_returns returned
    split at returned
    · cases returned
      exact List.prefix_append ..
    · cases returned
      exact List.prefix_refl _
  · cases returned
    exact List.prefix_refl _

theorem takeChunk_back {n : Int} (place : s.pos = p) (inside : p ≤ body.length) (small : body.length < 2 ^ 31)
    (low : -2 ^ 31 ≤ n) (high : n < 2 ^ 31) (bad : n < 0 ∨ 2 ^ 31 ≤ (p : Int) + n)
    (returned : takeChunk body outMax s n = .ok s') : ∃ pos < s.pos, s.trail ++ [pos] <+: s'.trail := by
  have lower : wrapInt (s.pos + n) < s.pos := by
    rw [place]
    rcases bad with negative | beyond
    · rw [wrapInt_of_fits (by omega) (by omega)]
      omega
    · have moved : wrapInt ((p : Int) + n) = wrapInt (p + n - 2 ^ 32) := wrapInt_congr (by omega)
      rw [moved, wrapInt_of_fits (by omega) (by omega)]
      omega
  have kept : clip body s n = (s, n) := by
    rw [clip, if_neg]
    omega
  rw [takeChunk, kept] at returned
  obtain ⟨⟨copied, out⟩, -, returned⟩ := bind_returns returned
  obtain ⟨s₁, first, second⟩ := bind_returns returned
  have more := (skipChar_trail first).trans (skipChar_trail second)
  refine ⟨_, lower, ?_⟩
  simp only [Dechunk.goto] at more
  split at more
  · exact more
  · exact more

end RexOs.User.Http
