import RexOs.User.Realpath

/-! When the result of `realpath` is canonical.

The stack of the buffer is the plain stack of names, with slashes. It is written as it should be
when there is no slash too many (`Clean`): a push keeps that, and `..` spoils it unless it leads
to the root.
-/

set_option autoImplicit false

namespace RexOs.User.Glue

open RexOs.Library

/-- There is one slash behind all names but the last one, and none behind that. -/
structure Clean (st : Stack) : Prop where
  top : ∀ x ∈ st.head?, x.2 = 0
  rest : ∀ x ∈ st.tail, x.2 = 1

def namesOf (st : Stack) : List (List UInt8) := st.map Prod.fst

section
variable {st st' : Stack} {seg name : List UInt8} {segs : List (List UInt8)}

theorem clean_nil : Clean [] := ⟨fun _ none_ => absurd none_ (Option.not_mem_none _), fun _ none_ => absurd none_ List.not_mem_nil⟩

theorem clean_cons {n : Nat} {rest : Stack} : Clean ((name, n) :: rest) ↔ n = 0 ∧ ∀ x ∈ rest, x.2 = 1 := by
  constructor
  · intro clean
    exact ⟨clean.top _ rfl, clean.rest⟩
  · rintro ⟨none_, below⟩
    refine ⟨fun x head => ?_, below⟩
    cases head
    exact none_

theorem clean_push : Clean (push st name) ↔ Clean st := by
  rw [push, clean_cons]
  cases st with
  | nil => exact ⟨fun _ => clean_nil, fun _ => ⟨rfl, fun _ none_ => absurd none_ List.not_mem_nil⟩⟩
  | cons x rest =>
    obtain ⟨name', n⟩ := x
    rw [clean_cons, slashed, List.forall_mem_cons, Nat.add_eq_right]
    exact ⟨fun clean => clean.2, fun clean => ⟨rfl, clean⟩⟩

theorem clean_tail (spaced : Spaced st) : Clean st.tail ↔ st.tail = [] := by
  constructor
  · intro clean
    cases below : st.tail with
    | nil => rfl
    | cons x rest =>
      have slash := spaced.apart x (by rw [below]; exact List.mem_cons_self ..)
      have none_ := clean.top x (by rw [below]; rfl)
      omega
  · intro none_
    rw [none_]
    exact clean_nil

theorem stackPut_cases (put : stackPut st seg = some st') :
    ((seg = [] ∨ seg = dot) ∧ st' = st) ∨ (seg = dotDot ∧ st' = st.tail) ∨
      (seg ≠ [] ∧ seg ≠ dot ∧ seg ≠ dotDot ∧ (written (push st seg)).length + 1 < pathMax - 1 ∧ st' = push st seg) := by
  rw [stackPut] at put
  by_cases skipped : seg = [] ∨ seg = dot
  · rw [if_pos skipped] at put
    exact Or.inl ⟨skipped, (Option.some.inj put).symm⟩
  rw [if_neg skipped] at put
  by_cases up : seg = dotDot
  · rw [if_pos up] at put
    exact Or.inr (Or.inl ⟨up, (Option.some.inj put).symm⟩)
  rw [if_neg up] at put
  by_cases fits : (written (push st seg)).length + 1 < pathMax - 1
  · rw [if_pos fits] at put
    rw [not_or] at skipped
    exact Or.inr (Or.inr ⟨skipped.1, skipped.2, up, fits, (Option.some.inj put).symm⟩)
  · rw [if_neg fits] at put
    cases put

theorem namesOf_push : namesOf (push st name) = name :: namesOf st := by
  cases st with
  | nil => rfl
  | cons x rest => rfl

theorem stackPut_names (put : stackPut st seg = some st') : namesOf st' = stackStep (namesOf st) seg := by
  rw [stackStep]
  rcases stackPut_cases put with ⟨skipped, rfl⟩ | ⟨rfl, rfl⟩ | ⟨filled, not_dot, not_up, -, rfl⟩
  · rw [if_pos skipped]
  · rw [if_neg (by decide), if_pos rfl, namesOf, namesOf, List.map_tail]
  · rw [if_neg (not_or.mpr ⟨filled, not_dot⟩), if_neg not_up, namesOf_push]

theorem stackPut_spaced (spaced : Spaced st) (plain : 47 ∉ seg) (put : stackPut st seg = some st') : Spaced st' := by
  rcases stackPut_cases put with ⟨-, rfl⟩ | ⟨-, rfl⟩ | ⟨filled, not_dot, not_up, -, rfl⟩
  · exact spaced
  · exact spaced.tail
  · exact spaced.push ⟨filled, not_dot, not_up, plain⟩

theorem stackPut_clean (name : seg ≠ dotDot) (put : stackPut st seg = some st') : Clean st' ↔ Clean st := by
  rcases stackPut_cases put with ⟨-, rfl⟩ | ⟨up, -⟩ | ⟨-, -, -, -, rfl⟩
  · exact Iff.rfl
  · exact absurd up name
  · exact clean_push

theorem foldlM_names (all : segs.foldlM stackPut st = some st') : namesOf st' = segs.foldl stackStep (namesOf st) := by
  induction segs generalizing st with
  | nil =>
    cases all
    rfl
  | cons seg segs ih =>
    rw [List.foldlM_cons] at all
    obtain ⟨st₁, first, rest⟩ := Option.bind_eq_some_iff.mp all
    rw [ih rest, stackPut_names first]
    rfl

theorem foldlM_kept (Inv : Stack → Prop) (initial : Inv st)
    (kept : ∀ seg ∈ segs, ∀ st st', Inv st → stackPut st seg = some st' → Inv st') (all : segs.foldlM stackPut st = some st') :
    Inv st' := by
  induction segs generalizing st with
  | nil =>
    cases all
    exact initial
  | cons seg segs ih =>
    rw [List.foldlM_cons] at all
    obtain ⟨st₁, first, rest⟩ := Option.bind_eq_some_iff.mp all
    rw [List.forall_mem_cons] at kept
    exact ih (kept.1 st st₁ initial first) kept.2 rest

theorem foldlM_spaced (plain : ∀ seg ∈ segs, 47 ∉ seg) (all : segs.foldlM stackPut [] = some st) : Spaced st :=
  foldlM_kept Spaced spaced_nil (fun seg member _ _ spaced put => stackPut_spaced spaced (plain seg member) put) all

theorem foldlM_clean (down : dotDot ∉ segs) (all : segs.foldlM stackPut st = some st') : Clean st' ↔ Clean st := by
  refine foldlM_kept (fun st' => Clean st' ↔ Clean st) Iff.rfl (fun seg member st₁ st₂ same put => ?_) all
  have name : seg ≠ dotDot := by
    rintro rfl
    exact down member
  exact (stackPut_clean name put).trans same

theorem clean_of_split {front back : List (List UInt8)} (plain : ∀ seg ∈ front, 47 ∉ seg) (down : dotDot ∉ back)
    (all : (front ++ dotDot :: back).foldlM stackPut [] = some st) :
    Clean st ↔ (front ++ [dotDot]).foldl stackStep [] = [] := by
  rw [List.foldlM_append] at all
  obtain ⟨st₁, first, rest⟩ := Option.bind_eq_some_iff.mp all
  have up : stackPut st₁ dotDot = some st₁.tail := rfl
  rw [List.foldlM_cons, up] at rest
  have rest : back.foldlM stackPut st₁.tail = some st := rest
  have spaced := foldlM_spaced plain first
  have names : (front ++ [dotDot]).foldl stackStep [] = namesOf st₁.tail := by
    have before := foldlM_names first
    rw [List.foldl_append, stackPut_names up, before]
    rfl
  rw [foldlM_clean down rest, clean_tail spaced, names, namesOf, List.map_eq_nil_iff]

end

theorem not_mem_splitOn {p seg : List UInt8} (member : seg ∈ p.splitOn 47) : 47 ∉ seg := by
  induction p generalizing seg with
  | nil =>
    rw [List.splitOn_nil, List.mem_singleton] at member
    rw [member]
    exact List.not_mem_nil
  | cons c p ih =>
    rw [List.splitOn_cons_eq_if_modifyHead] at member
    split at member
    · rcases List.mem_cons.mp member with rfl | later
      · exact List.not_mem_nil
      · exact ih later
    · rename_i other
      have other : ¬ c = 47 := fun same => other (beq_iff_eq.mpr same)
      cases parts : p.splitOn 47 with
      | nil => exact absurd parts (List.splitOn_ne_nil 47 p)
      | cons first rest =>
        rw [parts, List.modifyHead_cons, List.mem_cons] at member
        rcases member with rfl | later
        · rw [List.mem_cons, not_or]
          exact ⟨fun same => other same.symm, ih (by rw [parts]; exact List.mem_cons_self ..)⟩
        · exact ih (by rw [parts]; exact List.mem_cons_of_mem _ later)

section
variable {st : Stack} {path : List UInt8}

theorem putAll_spaced (put : putAll [] path = some st) : Spaced st := foldlM_spaced (fun _ member => not_mem_splitOn member) put

theorem putAll_names (put : putAll [] path = some st) : namesOf st = resolve path := foldlM_names put

theorem putAll_room (put : putAll [] path = some st) : (47 :: written st).length < pathMax - 1 := by
  refine foldlM_kept (fun st => (47 :: written st).length < pathMax - 1) (by decide) (fun seg _ st st' room put => ?_) put
  rcases stackPut_cases put with ⟨-, rfl⟩ | ⟨-, rfl⟩ | ⟨-, -, -, fits, rfl⟩
  · exact room
  · exact Nat.lt_of_le_of_lt (Nat.succ_le_succ (written_tail st)) room
  · exact fits

theorem putAll_clean (put : putAll [] path = some st) : Clean st ↔ UpsReachRoot path := by
  have plain : ∀ front back, path.splitOn 47 = front ++ dotDot :: back → ∀ seg ∈ front, 47 ∉ seg := by
    intro front back split_ seg member
    apply not_mem_splitOn (p := path)
    rw [split_]
    exact List.mem_append_left _ member
  constructor
  · intro clean front back split_ down
    rw [putAll, split_] at put
    exact (clean_of_split (plain front back split_) down put).mp clean
  · intro ups
    by_cases up : dotDot ∈ path.splitOn 47
    · obtain ⟨back, front, split_, down⟩ := List.eq_append_cons_of_mem (List.mem_reverse.mpr up)
      rw [List.reverse_eq_iff, List.reverse_append, List.reverse_cons, List.append_assoc, List.singleton_append] at split_
      have down : dotDot ∉ back.reverse := fun member => down (List.mem_reverse.mp member)
      have root := ups _ _ split_ down
      have plain := plain _ _ split_
      rw [putAll, split_] at put
      exact (clean_of_split plain down put).mpr root
    · exact (foldlM_clean up put).mpr clean_nil

end

section
variable {st : Stack} {names : List (List UInt8)}

@[simp] theorem namesOf_cons (name : List UInt8) (n : Nat) (st : Stack) : namesOf ((name, n) :: st) = name :: namesOf st := rfl

@[simp] theorem flatMap_reverse_cons (name : List UInt8) (names : List (List UInt8)) :
    (name :: names).reverse.flatMap (47 :: ·) = names.reverse.flatMap (47 :: ·) ++ 47 :: name := by
  rw [List.reverse_cons, List.flatMap_append, List.flatMap_singleton]

theorem render_cons (name : List UInt8) (names : List (List UInt8)) :
    render (name :: names) = names.reverse.flatMap (47 :: ·) ++ 47 :: name := by
  rw [render, if_neg (List.cons_ne_nil _ _), flatMap_reverse_cons]

theorem flatMap_slash (some_ : names ≠ []) : names.flatMap (47 :: ·) = 47 :: [47].intercalate names := by
  induction names with
  | nil => exact absurd rfl some_
  | cons name rest ih =>
    cases rest with
    | nil => simp
    | cons next rest =>
      rw [List.flatMap_cons, ih (List.cons_ne_nil _ _), List.intercalate_cons_cons]
      simp

theorem written_single (single : ∀ x ∈ st, x.2 = 1) :
    47 :: written st = (namesOf st).reverse.flatMap (47 :: ·) ++ [47] := by
  induction st with
  | nil => rfl
  | cons x rest ih =>
    obtain ⟨name, n⟩ := x
    obtain ⟨one, below⟩ := List.forall_mem_cons.mp single
    have one : n = 1 := one
    have before := ih below
    have text : 47 :: written ((name, n) :: rest) = (47 :: written rest) ++ (name ++ [47]) := by
      rw [written, one]
      rfl
    rw [text, before, namesOf_cons, flatMap_reverse_cons]
    simp only [List.append_assoc, List.cons_append, List.nil_append]

theorem clean_written (clean : Clean st) : 47 :: written st = render (namesOf st) := by
  cases st with
  | nil => rfl
  | cons x rest =>
    obtain ⟨name, n⟩ := x
    obtain ⟨none_, below⟩ := clean_cons.mp clean
    have text : 47 :: written ((name, n) :: rest) = (47 :: written rest) ++ name := by
      rw [written, none_, List.replicate_zero, List.append_nil]
      rfl
    rw [text, written_single below, namesOf_cons, render_cons, List.append_assoc, List.singleton_append]

theorem written_length (many : ∀ x ∈ st, 1 ≤ x.2) :
    ((namesOf st).reverse.flatMap (47 :: ·)).length ≤ (written st).length ∧
      ((written st).length ≤ ((namesOf st).reverse.flatMap (47 :: ·)).length → ∀ x ∈ st, x.2 = 1) := by
  induction st with
  | nil => exact ⟨Nat.le_refl _, fun _ _ none_ => absurd none_ List.not_mem_nil⟩
  | cons x rest ih =>
    obtain ⟨name, n⟩ := x
    obtain ⟨one, below⟩ := List.forall_mem_cons.mp many
    have one : 1 ≤ n := one
    obtain ⟨fewer, exact_⟩ := ih below
    have left : ((namesOf ((name, n) :: rest)).reverse.flatMap (47 :: ·)).length =
        ((namesOf rest).reverse.flatMap (47 :: ·)).length + (name.length + 1) := by
      rw [namesOf_cons, flatMap_reverse_cons, List.length_append, List.length_cons]
    have right : (written ((name, n) :: rest)).length = (written rest).length + (name.length + n) := by
      rw [written, List.length_append, List.length_append, List.length_replicate]
    rw [left, right]
    refine ⟨by omega, fun equal => List.forall_mem_cons.mpr ⟨?_, exact_ (by omega)⟩⟩
    show n = 1
    omega

theorem written_clean (spaced : Spaced st) (text : 47 :: written st = render (namesOf st)) : Clean st := by
  cases st with
  | nil => exact clean_nil
  | cons x rest =>
    obtain ⟨name, n⟩ := x
    obtain ⟨fewer, exact_⟩ := written_length spaced.apart
    have lengths := congrArg List.length text
    rw [namesOf_cons, render_cons] at lengths
    simp only [List.length_append, List.length_cons, written, List.length_replicate] at lengths
    rw [List.tail_cons] at fewer exact_
    exact clean_cons.mpr ⟨by omega, exact_ (by omega)⟩

end

section
variable {st : Stack} {names : List (List UInt8)}

theorem pushAll_names (names : List (List UInt8)) (st : Stack) : namesOf (names.foldl push st) = names.reverse ++ namesOf st := by
  induction names generalizing st with
  | nil => rfl
  | cons name rest ih =>
    rw [List.foldl_cons, ih, namesOf_push, List.reverse_cons, List.append_assoc, List.singleton_append]

theorem pushAll_clean (clean : Clean st) (names : List (List UInt8)) : Clean (names.foldl push st) := by
  induction names generalizing st with
  | nil => exact clean
  | cons name rest ih => exact ih (clean_push.mpr clean)

theorem pushAll_longer (names : List (List UInt8)) (st : Stack) : (written st).length ≤ (written (names.foldl push st)).length := by
  induction names generalizing st with
  | nil => exact Nat.le_refl _
  | cons name rest ih =>
    refine Nat.le_trans ?_ (ih (push st name))
    cases st with
    | nil => exact Nat.zero_le _
    | cons x st =>
      have text : written (push (x :: st) name) = written (slashed (x :: st)) ++ (name ++ []) := rfl
      rw [text, written_slashed (List.cons_ne_nil _ _), List.append_assoc, List.length_append]
      exact Nat.le_add_right _ _

theorem foldlM_push (named : ∀ name ∈ names, Named name) (room : (written (names.foldl push st)).length + 1 < pathMax - 1) :
    names.foldlM stackPut st = some (names.foldl push st) := by
  induction names generalizing st with
  | nil => rfl
  | cons name rest ih =>
    obtain ⟨here, later⟩ := List.forall_mem_cons.mp named
    have longer := pushAll_longer rest (push st name)
    rw [List.foldl_cons] at room
    have first : stackPut st name = some (push st name) := by
      rw [stackPut, if_neg (not_or.mpr ⟨here.filled, here.not_dot⟩), if_neg here.not_up, if_pos (by omega)]
    rw [List.foldlM_cons, first]
    exact ih later room

theorem render_splitOn (some_ : names ≠ []) (named : ∀ name ∈ names, Named name) :
    ∃ rest, render names = 47 :: rest ∧ rest.splitOn 47 = names.reverse := by
  have some_' : names.reverse ≠ [] := fun none_ => some_ (List.reverse_eq_nil_iff.mp none_)
  refine ⟨[47].intercalate names.reverse, ?_, ?_⟩
  · rw [render, if_neg some_, flatMap_slash some_']
  · exact List.splitOn_intercalate 47 (fun name member => (named name (List.mem_reverse.mp member)).plain) some_'

theorem putAll_render (named : ∀ name ∈ names, Named name) (room : (render names).length < pathMax - 1) :
    ∃ st, putAll [] (render names) = some st ∧ 47 :: written st = render names := by
  have clean := pushAll_clean clean_nil names.reverse
  have same : namesOf (names.reverse.foldl push []) = names := by
    rw [pushAll_names, List.reverse_reverse]
    exact List.append_nil _
  have text := clean_written clean
  rw [same] at text
  refine ⟨names.reverse.foldl push [], ?_, text⟩
  rcases List.eq_nil_or_concat names with rfl | ⟨_, _, whole⟩
  · rfl
  · have some_ : names ≠ [] := by
      rw [whole, List.concat_eq_append]
      exact List.append_ne_nil_of_right_ne_nil _ (List.cons_ne_nil _ _)
    obtain ⟨rest, split_, parts⟩ := render_splitOn some_ named
    rw [split_, putAll_slash, putAll, parts]
    apply foldlM_push fun name member => named name (List.mem_reverse.mp member)
    rw [← text, List.length_cons] at room
    exact room

end

theorem canonicalised_iff {path : List UInt8} {st : Stack} (put : putAll [] path = some st)
    (room : (47 :: written st).length < pathMax - 1) : Canonicalised path (47 :: written st) ↔ UpsReachRoot path := by
  have spaced := putAll_spaced put
  have names := putAll_names put
  have named : ∀ name ∈ namesOf st, Named name := by
    intro name member
    obtain ⟨x, inside, rfl⟩ := List.mem_map.mp member
    exact spaced.names x inside
  rw [← putAll_clean put]
  constructor
  · intro canonical
    apply written_clean spaced
    rw [names]
    exact canonical.resolved
  · intro clean
    have text := clean_written clean
    constructor
    case absolute => rfl
    case plain =>
      cases some_ : namesOf st with
      | nil =>
        left
        rw [text, some_]
        rfl
      | cons name rest =>
        right
        obtain ⟨rest', split_, parts⟩ := render_splitOn (by rw [some_]; exact List.cons_ne_nil _ _) named
        intro name member
        rw [text, split_, List.tail_cons, parts, List.mem_reverse] at member
        exact ⟨(named name member).filled, (named name member).not_dot, (named name member).not_up⟩
    case resolved => rw [text, names]
    case again =>
      intro junk
      rw [text] at room ⊢
      obtain ⟨st', again, same⟩ := putAll_render named room
      rw [realpath_eq, again, ← same]
      rfl

/-- `realpath` returns and stays inside its buffer. A path that it accepts is canonicalised if and only if its last `..` leads
to the root. -/
theorem realpath_canonicalises (junk : Nat → UInt8) (memory : Bool) (path : List UInt8) :
    Safe (realpath junk memory (some path)) fun e => ∀ r, e = .ok r → r.length < pathMax ∧ (Canonicalised path r ↔ UpsReachRoot path) := by
  rw [realpath_eq]
  refine Safe.ok fun r accepted => ?_
  cases put : putAll [] path with
  | none =>
    rw [put] at accepted
    cases accepted
  | some st =>
    rw [put] at accepted
    cases memory with
    | false => cases accepted
    | true =>
      cases accepted
      have room := putAll_room put
      exact ⟨by omega, canonicalised_iff put room⟩

theorem realpath_slash : realpath (fun _ => 0) true (some [47, 97, 47, 98, 47, 46, 46]) = .ok (.ok [47, 97, 47]) ∧
    ¬ Canonicalised [47, 97, 47, 98, 47, 46, 46] [47, 97, 47] := by
  refine ⟨by rfl, fun canonical => ?_⟩
  rcases canonical.plain with root | names
  · cases root
  · exact (names [] (by decide)).1 rfl

end RexOs.User.Glue
