import RexOs.Library.Listing
import RexOs.Library.Safe
import Mathlib.Data.List.Infix
import Mathlib.Data.List.TakeWhile

/-! `realpath` of `user/newlib-glue/posix_extra.c`.

The path is built in a buffer of `PATH_MAX` bytes, whose first `ti` bytes are in use. A C string is
the list of its characters in front of the terminating zero.
-/

set_option autoImplicit false

namespace RexOs.User.Glue

open RexOs.Library

def pathMax : Nat := 1024

inductive Errno where
  | einval
  | enametoolong
  | enomem
  deriving DecidableEq, Repr

inductive PathFault where
  /-- A write behind the buffer. -/
  | overflow
  | hang
  deriving DecidableEq, Repr

structure PathBuf where
  tmp : Nat → UInt8
  ti : Nat

namespace PathBuf

def put (b : PathBuf) (c : UInt8) : Except PathFault PathBuf :=
  if b.ti < pathMax then .ok ⟨Function.update b.tmp b.ti c, b.ti + 1⟩ else .error .overflow

/-- `memcpy(tmp + ti, seg, sl); ti += sl`. -/
def append (b : PathBuf) (seg : List UInt8) : Except PathFault PathBuf := seg.foldlM put b

def separate (b : PathBuf) : Except PathFault PathBuf := if b.ti > 1 then b.put 47 else .ok b

/-- Back over the slashes, and over the name in front of them. -/
def up (b : PathBuf) : PathBuf := { b with ti := backWhile (· ≠ 47) b.tmp (backWhile (· = 47) b.tmp b.ti) }

end PathBuf

def dot : List UInt8 := [46]
def dotDot : List UInt8 := [46, 46]

def segment (b : PathBuf) (seg : List UInt8) : Except PathFault (Except Errno PathBuf) :=
  if seg = dot then .ok (.ok b)
  else if seg = dotDot then .ok (.ok b.up)
  else do
    let b ← b.separate
    if b.ti + seg.length ≥ pathMax - 1 then .ok (.error .enametoolong)
    else (b.append seg).map .ok

def segments : Nat → List UInt8 → PathBuf → Except PathFault (Except Errno PathBuf)
  | 0, _, _ => .error .hang
  | fuel + 1, p, b =>
      if p = [] then .ok (.ok b)
      else
        let p := p.dropWhile (· = 47)
        if p = [] then .ok (.ok b)
        else do
          match ← segment b (p.takeWhile (· ≠ 47)) with
          | .error e => .ok (.error e)
          | .ok b => segments fuel (p.dropWhile (· ≠ 47)) b

/-- There is `memory` if the caller gives a buffer or `malloc` does. At first the buffer holds `junk`. -/
def realpath (junk : Nat → UInt8) (memory : Bool) (path : Option (List UInt8)) : Except PathFault (Except Errno (List UInt8)) :=
  match path with
  | none => .ok (.error .einval)
  | some path => do
      let b ← PathBuf.put ⟨junk, 0⟩ 47
      match ← segments (path.length + 1) path b with
      | .error e => .ok (.error e)
      | .ok b => do
          let closed ← b.put 0
          if memory then .ok (.ok (listing closed.tmp b.ti)) else .ok (.error .enomem)

def stackStep (stack : List (List UInt8)) (name : List UInt8) : List (List UInt8) :=
  if name = [] ∨ name = dot then stack else if name = dotDot then stack.tail else name :: stack

def resolve (path : List UInt8) : List (List UInt8) := (path.splitOn 47).foldl stackStep []

def render (stack : List (List UInt8)) : List UInt8 := if stack = [] then [47] else stack.reverse.flatMap (47 :: ·)

structure Canonicalised (path r : List UInt8) : Prop where
  absolute : r.head? = some 47
  plain : r = [47] ∨ ∀ name ∈ r.tail.splitOn 47, name ≠ [] ∧ name ≠ dot ∧ name ≠ dotDot
  resolved : r = render (resolve path)
  again : ∀ junk, realpath junk true (some r) = .ok (.ok r)

/-- The last `..` leads to the root, if there is one. -/
def UpsReachRoot (path : List UInt8) : Prop :=
  ∀ front back, path.splitOn 47 = front ++ dotDot :: back → dotDot ∉ back → (front ++ [dotDot]).foldl stackStep [] = []

/-! The buffer holds names, each with the slashes that stand behind it (`Buffered`). A name comes
behind one more slash, and `..` takes the slashes behind the last name but not those in front of
it. So the function is a fold over the segments of the path (`realpath_eq`).
-/

/-- Names and the numbers of slashes behind them, the last name first. -/
abbrev Stack := List (List UInt8 × Nat)

def written : Stack → List UInt8
  | [] => []
  | (name, n) :: rest => written rest ++ (name ++ List.replicate n 47)

def slashed : Stack → Stack
  | [] => []
  | (name, n) :: rest => (name, n + 1) :: rest

def push (st : Stack) (name : List UInt8) : Stack := (name, 0) :: slashed st

/-- A segment is ignored, takes the last name away, or is pushed as long as there is room. -/
def stackPut (st : Stack) (seg : List UInt8) : Option Stack :=
  if seg = [] ∨ seg = dot then some st
  else if seg = dotDot then some st.tail
  else if (written (push st seg)).length + 1 < pathMax - 1 then some (push st seg)
  else none

structure Named (name : List UInt8) : Prop where
  filled : name ≠ []
  not_dot : name ≠ dot
  not_up : name ≠ dotDot
  plain : 47 ∉ name

structure Spaced (st : Stack) : Prop where
  names : ∀ x ∈ st, Named x.1
  apart : ∀ x ∈ st.tail, 1 ≤ x.2

section
variable {st : Stack} {name : List UInt8}

theorem written_slashed (some_ : st ≠ []) : written (slashed st) = written st ++ [47] := by
  cases st with
  | nil => exact absurd rfl some_
  | cons x rest =>
    obtain ⟨name, n⟩ := x
    simp only [slashed, written, List.replicate_succ', List.append_assoc]

theorem spaced_nil : Spaced [] := ⟨fun _ none_ => absurd none_ List.not_mem_nil, fun _ none_ => absurd none_ List.not_mem_nil⟩

theorem written_tail (st : Stack) : (written st.tail).length ≤ (written st).length := by
  cases st with
  | nil => exact Nat.le_refl _
  | cons x rest =>
    rw [List.tail_cons, written, List.length_append]
    exact Nat.le_add_right _ _

theorem Spaced.tail (spaced : Spaced st) : Spaced st.tail :=
  ⟨fun x member => spaced.names x (List.mem_of_mem_tail member), fun x member => spaced.apart x (List.mem_of_mem_tail member)⟩

theorem Spaced.push (spaced : Spaced st) (named : Named name) : Spaced (push st name) := by
  cases st with
  | nil =>
    constructor
    case names => exact List.forall_mem_singleton.mpr named
    case apart =>
      intro x none_
      cases none_
  | cons x rest =>
    have names := spaced.names
    rw [List.forall_mem_cons] at names
    constructor
    case names => exact List.forall_mem_cons.mpr ⟨named, List.forall_mem_cons.mpr names⟩
    case apart => exact List.forall_mem_cons.mpr ⟨Nat.le_add_left 1 x.2, spaced.apart⟩

theorem Spaced.ends {n : Nat} {rest : Stack} (spaced : Spaced ((name, n) :: rest)) : ∀ c ∈ (written rest).getLast?, c = 47 := by
  intro c last
  cases rest with
  | nil => cases last
  | cons x rest =>
    obtain ⟨name', k⟩ := x
    have slash : 1 ≤ k := spaced.apart (name', k) (List.mem_cons_self ..)
    obtain ⟨k, rfl⟩ := Nat.exists_eq_add_of_le' slash
    rw [written, List.replicate_succ', ← List.append_assoc, ← List.append_assoc, List.getLast?_concat] at last
    exact (Option.some.inj last).symm

end

structure Buffered (b : PathBuf) (st : Stack) : Prop where
  view : listing b.tmp b.ti = 47 :: written st
  room : b.ti + 2 ≤ pathMax
  spaced : Spaced st

section
variable {b : PathBuf} {st : Stack} {seg : List UInt8}

theorem view_length {l : List UInt8} (view : listing b.tmp b.ti = l) : b.ti = l.length := by
  rw [← view, listing_length]

theorem put_view {c : UInt8} (room : b.ti < pathMax) :
    Safe (b.put c) fun b' => listing b'.tmp b'.ti = listing b.tmp b.ti ++ [c] := by
  rw [PathBuf.put, if_pos room]
  exact Safe.ok (listing_push b.tmp b.ti c)

theorem append_view (room : b.ti + seg.length ≤ pathMax) :
    Safe (b.append seg) fun b' => listing b'.tmp b'.ti = listing b.tmp b.ti ++ seg := by
  unfold PathBuf.append
  induction seg generalizing b with
  | nil => exact Safe.ok (List.append_nil _).symm
  | cons c seg ih =>
    rw [List.length_cons] at room
    rw [List.foldlM_cons]
    apply Safe.bind (put_view (c := c) (by omega))
    intro b₁ first
    have length := view_length first
    rw [List.length_append, listing_length, List.length_singleton] at length
    apply (ih (b := b₁) (by omega)).mono
    intro b' rest
    rw [rest, first, List.append_assoc, List.singleton_append]

theorem Buffered.up (buffered : Buffered b st) : Buffered b.up st.tail := by
  have view := buffered.view
  have room := buffered.room
  have spaced := buffered.spaced
  have length := view_length view
  have view' : listing b.up.tmp b.up.ti = 47 :: written st.tail := by
    cases st with
    | nil =>
      have one : b.ti = 1 := length
      have still : b.up = b := by rw [PathBuf.up, one, backWhile_one, backWhile_one, ← one]
      rw [still]
      exact view
    | cons x rest =>
      obtain ⟨name, n⟩ := x
      have named := spaced.names (name, n) (List.mem_cons_self ..)
      rw [written, ← List.append_assoc] at view
      have slashes : ∀ c ∈ List.replicate n (47 : UInt8), decide (c = 47) = true := fun c member =>
        decide_eq_true (List.eq_of_mem_replicate member)
      have letters : ∀ c ∈ name, decide (c ≠ 47) = true := fun c member =>
        decide_eq_true fun same => named.plain (same ▸ member)
      have last : ∀ c ∈ (written rest ++ name).getLast?, decide (c = 47) = false := by
        intro c last
        rw [List.getLast?_append_of_ne_nil _ named.filled] at last
        exact decide_eq_false fun same => named.plain (same ▸ List.mem_of_getLast? last)
      have first := listing_backWhile view slashes last
      refine listing_backWhile first letters fun c end_ => decide_eq_false ?_
      exact not_not.mpr (spaced.ends c end_)
  refine ⟨view', ?_, spaced.tail⟩
  have length' := view_length view'
  have shorter := written_tail st
  rw [List.length_cons] at length length'
  omega

theorem Buffered.separate (buffered : Buffered b st) :
    Safe b.separate fun b' => listing b'.tmp b'.ti = 47 :: written (slashed st) := by
  have view := buffered.view
  have room := buffered.room
  have length := view_length view
  unfold PathBuf.separate
  cases st with
  | nil =>
    have one : b.ti = 1 := length
    rw [if_neg (by omega)]
    exact Safe.ok view
  | cons x rest =>
    have filled : ¬ x.1 = [] := (buffered.spaced.names x (List.mem_cons_self ..)).filled
    have long := List.length_pos_iff.mpr filled
    rw [List.length_cons, written, List.length_append, List.length_append] at length
    rw [if_pos (by omega)]
    apply (put_view (by omega)).mono
    intro b' pushed
    rw [pushed, view, written_slashed (List.cons_ne_nil _ _)]
    rfl

def Leads (e : Except Errno PathBuf) : Option Stack → Prop
  | some st => ∃ b, e = .ok b ∧ Buffered b st
  | none => e = .error .enametoolong

theorem segment_leads (buffered : Buffered b st) (some_ : seg ≠ []) (plain : 47 ∉ seg) :
    Safe (segment b seg) fun e => Leads e (stackPut st seg) := by
  have view := buffered.view
  have room := buffered.room
  have length := view_length view
  unfold segment stackPut
  by_cases isDot : seg = dot
  · rw [if_pos isDot, if_pos (Or.inr isDot)]
    exact Safe.ok ⟨b, rfl, buffered⟩
  by_cases isUp : seg = dotDot
  · rw [if_neg isDot, if_pos isUp, if_neg (not_or.mpr ⟨some_, isDot⟩), if_pos isUp]
    exact Safe.ok ⟨b.up, rfl, buffered.up⟩
  rw [if_neg isDot, if_neg isUp, if_neg (not_or.mpr ⟨some_, isDot⟩), if_neg isUp]
  apply Safe.bind buffered.separate
  intro b₁ view₁
  have length₁ := view_length view₁
  have total : (written (push st seg)).length + 1 = b₁.ti + seg.length := by
    rw [push, written, List.replicate_zero, List.append_nil, List.length_append, length₁, List.length_cons]
    omega
  rw [total]
  by_cases fits : b₁.ti + seg.length < pathMax - 1
  · rw [if_neg (by omega), if_pos fits]
    have fits' : b₁.ti + seg.length ≤ pathMax := by omega
    obtain ⟨b', appended, view'⟩ := append_view fits'
    rw [appended]
    refine Safe.ok ⟨b', rfl, ?_, ?_, buffered.spaced.push ⟨some_, isDot, isUp, plain⟩⟩
    · rw [view', view₁, push, written, List.replicate_zero, List.append_nil]
      rfl
    · have length' := view_length view'
      rw [List.length_append, listing_length] at length'
      omega
  · rw [if_pos (by omega), if_neg fits]
    exact Safe.ok rfl

end

section
variable {p seg rest : List UInt8} {st : Stack}

def putAll (st : Stack) (p : List UInt8) : Option Stack := (p.splitOn 47).foldlM stackPut st

theorem putAll_slash (st : Stack) (p : List UInt8) : putAll st (47 :: p) = putAll st p := by
  have split_ : (47 :: p).splitOn 47 = [] :: p.splitOn 47 := List.splitOn_append_cons_self_of_not_mem (List.not_mem_nil) p
  rw [putAll, split_]
  rfl

theorem putAll_skip (st : Stack) (p : List UInt8) : putAll st (p.dropWhile (· = 47)) = putAll st p := by
  induction p with
  | nil => rfl
  | cons c p ih =>
    rw [List.dropWhile_cons]
    split
    · rename_i slash
      rw [ih, of_decide_eq_true slash, putAll_slash]
    · rfl

theorem putAll_segment (plain : 47 ∉ seg) (ends : ∀ c ∈ rest.head?, c = 47) :
    putAll st (seg ++ rest) = stackPut st seg >>= fun st => putAll st rest := by
  cases rest with
  | nil =>
    rw [List.append_nil, putAll, List.splitOn_eq_singleton plain, List.foldlM_cons]
    rfl
  | cons c rest =>
    simp only [ends c rfl, putAll_slash]
    rw [putAll, List.splitOn_append_cons_self_of_not_mem plain, List.foldlM_cons]
    rfl

theorem segments_leads {fuel : Nat} {b : PathBuf} (enough : p.length < fuel) (buffered : Buffered b st) :
    Safe (segments fuel p b) fun e => Leads e (putAll st p) := by
  induction fuel generalizing p b st with
  | zero => exact absurd enough (Nat.not_lt_zero _)
  | succ fuel ih =>
    unfold segments
    by_cases end_ : p = []
    · rw [if_pos end_, end_]
      exact Safe.ok ⟨b, rfl, buffered⟩
    rw [if_neg end_, ← putAll_skip]
    have shorter := (List.dropWhile_suffix (fun c : UInt8 => decide (c = 47)) (l := p)).length_le
    have first : ∀ c ∈ (p.dropWhile (· = 47)).head?, c ≠ 47 := by
      intro c head
      have fails := List.head?_dropWhile_not (fun c : UInt8 => decide (c = 47)) p
      rw [head] at fails
      exact of_decide_eq_false fails
    dsimp only
    generalize p.dropWhile (· = 47) = q at shorter first
    by_cases none_ : q = []
    · rw [if_pos none_, none_]
      exact Safe.ok ⟨b, rfl, buffered⟩
    rw [if_neg none_]
    obtain ⟨seg, segIs⟩ : ∃ seg, seg = q.takeWhile (· ≠ 47) := ⟨_, rfl⟩
    obtain ⟨rest, restIs⟩ : ∃ rest, rest = q.dropWhile (· ≠ 47) := ⟨_, rfl⟩
    have whole : q = seg ++ rest := by rw [segIs, restIs, List.takeWhile_append_dropWhile]
    have some_ : seg ≠ [] := by
      cases q with
      | nil => exact absurd rfl none_
      | cons c q =>
        rw [segIs, List.takeWhile_cons, if_pos (decide_eq_true (first c rfl))]
        exact List.cons_ne_nil _ _
    have plain : 47 ∉ seg := by
      intro member
      rw [segIs] at member
      have other : decide ((47 : UInt8) ≠ 47) = true := List.mem_takeWhile_imp (p := fun c : UInt8 => decide (c ≠ 47)) member
      exact of_decide_eq_true other rfl
    have ends : ∀ c ∈ rest.head?, c = 47 := by
      intro c head
      have fails := List.head?_dropWhile_not (fun c : UInt8 => decide (c ≠ 47)) q
      rw [← restIs, head] at fails
      exact not_not.mp (of_decide_eq_false fails)
    have long := List.length_pos_iff.mpr some_
    have length := congrArg List.length whole
    rw [List.length_append] at length
    rw [← segIs, ← restIs, whole, putAll_segment plain ends]
    apply Safe.bind (segment_leads buffered some_ plain)
    intro e leads
    cases put : stackPut st seg with
    | none =>
      rw [put] at leads
      have failed : e = .error .enametoolong := leads
      rw [failed]
      exact Safe.ok rfl
    | some st' =>
      rw [put] at leads
      obtain ⟨b', rfl, buffered'⟩ := leads
      exact ih (by omega) buffered'

def answer (memory : Bool) : Option Stack → Except Errno (List UInt8)
  | none => .error .enametoolong
  | some st => if memory then .ok (47 :: written st) else .error .enomem

theorem realpath_eq (junk : Nat → UInt8) (memory : Bool) (path : List UInt8) :
    realpath junk memory (some path) = .ok (answer memory (putAll [] path)) := by
  have started : Buffered ⟨Function.update junk 0 47, 1⟩ [] :=
    ⟨listing_push junk 0 47, show 1 + 2 ≤ pathMax by decide, spaced_nil⟩
  obtain ⟨e, returned, leads⟩ := segments_leads (Nat.lt_succ_self path.length) started
  have first : PathBuf.put ⟨junk, 0⟩ 47 = .ok ⟨Function.update junk 0 47, 1⟩ := rfl
  rw [realpath, first]
  change (segments (path.length + 1) path _ >>= _) = _
  rw [returned]
  cases put : putAll [] path with
  | none =>
    rw [put] at leads
    have failed : e = .error .enametoolong := leads
    rw [failed]
    rfl
  | some st =>
    rw [put] at leads
    obtain ⟨b, rfl, buffered⟩ := leads
    have room := buffered.room
    have closed : b.put 0 = .ok ⟨Function.update b.tmp b.ti 0, b.ti + 1⟩ := if_pos (by omega)
    have kept : listing (Function.update b.tmp b.ti 0) b.ti = 47 :: written st := by
      rw [← buffered.view]
      exact listing_congr fun i small => Function.update_of_ne (Nat.ne_of_lt small) _ _
    change (b.put 0 >>= _) = _
    rw [closed]
    cases memory with
    | false => rfl
    | true => exact congrArg (fun l => Except.ok (Except.ok l)) kept

end

end RexOs.User.Glue
