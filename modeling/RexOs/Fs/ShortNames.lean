import RexOs.Fs.Fat32Dir
import Mathlib.Data.List.GetD
import Mathlib.Data.List.TakeWhile

/-! The 8.3 form of a name, in both directions. -/

set_option autoImplicit false

namespace RexOs.Fs

/-- A byte that a field of an 8.3 name can hold. -/
def Kept (c : UInt8) : Prop := c ≠ space ∧ c ≠ dot ∧ c ≠ 0

instance (c : UInt8) : Decidable (Kept c) := inferInstanceAs (Decidable (_ ∧ _))

def Upper (c : UInt8) : Prop := 65 ≤ c ∧ c ≤ 90
def Lower (c : UInt8) : Prop := 97 ≤ c ∧ c ≤ 122

instance (c : UInt8) : Decidable (Upper c) := inferInstanceAs (Decidable (_ ∧ _))
instance (c : UInt8) : Decidable (Lower c) := inferInstanceAs (Decidable (_ ∧ _))

def ShortPart (n : Nat) (part : List UInt8) : Prop :=
  1 ≤ part.length ∧ part.length ≤ n ∧ ∀ c ∈ part, Kept c ∧ ¬Upper c

inductive ShortName : List UInt8 → Prop where
  | base {base : List UInt8} : ShortPart 8 base → ShortName base
  | ext {base ext : List UInt8} : ShortPart 8 base → ShortPart 3 ext → ShortName (base ++ dot :: ext)

def Padded (field : List UInt8) : Prop :=
  ∃ part n, field = part ++ List.replicate n space ∧ ∀ c ∈ part, c ≠ space

structure RawName (raw : List UInt8) : Prop where
  length : raw.length = 11
  base : Padded (raw.take 8)
  ext : Padded (raw.drop 8)
  nonempty : raw.head? ≠ some space
  plain : ∀ c ∈ raw, ¬Lower c ∧ c ≠ dot ∧ c ≠ 0

theorem toLower_toUpper {c : UInt8} (upper : ¬Upper c) : toLower (toUpper c) = c := by
  have all : ∀ n : Fin 256, ¬Upper (UInt8.ofFin n) → toLower (toUpper (UInt8.ofFin n)) = UInt8.ofFin n := by
    decide +kernel
  exact all c.toFin upper

theorem toUpper_toLower {c : UInt8} (lower : ¬Lower c) : toUpper (toLower c) = c := by
  have all : ∀ n : Fin 256, ¬Lower (UInt8.ofFin n) → toUpper (toLower (UInt8.ofFin n)) = UInt8.ofFin n := by
    decide +kernel
  exact all c.toFin lower

theorem toUpper_ne_space {c : UInt8} (kept : c ≠ space) : toUpper c ≠ space := by
  have all : ∀ n : Fin 256, UInt8.ofFin n ≠ space → toUpper (UInt8.ofFin n) ≠ space := by decide +kernel
  exact all c.toFin kept

theorem toLower_ne_dot {c : UInt8} (kept : c ≠ dot) : toLower c ≠ dot := by
  have all : ∀ n : Fin 256, UInt8.ofFin n ≠ dot → toLower (UInt8.ofFin n) ≠ dot := by decide +kernel
  exact all c.toFin kept

theorem map_toLower_toUpper {part : List UInt8} (plain : ∀ c ∈ part, ¬Upper c) :
    (part.map toUpper).map toLower = part := by
  rw [List.map_map]
  exact (List.map_congr_left fun c hc => toLower_toUpper (plain c hc)).trans (List.map_id _)

theorem map_toUpper_toLower {part : List UInt8} (plain : ∀ c ∈ part, ¬Lower c) :
    (part.map toLower).map toUpper = part := by
  rw [List.map_map]
  exact (List.map_congr_left fun c hc => toUpper_toLower (plain c hc)).trans (List.map_id _)

theorem padTo_length (n : Nat) (part : List UInt8) : (padTo n part).length = n := by
  simp [padTo]
  omega

theorem padTo_of_le {n : Nat} {part : List UInt8} (fits : part.length ≤ n) :
    padTo n part = part ++ List.replicate (n - part.length) space := by
  rw [padTo, List.take_of_length_le fits]

theorem takeWhile_padded {part : List UInt8} (n : Nat) (kept : ∀ c ∈ part, c ≠ space) :
    (part ++ List.replicate n space).takeWhile (· ≠ space) = part := by
  rw [List.takeWhile_append_of_pos (by simpa using kept)]
  cases n with
  | zero => simp
  | succ n => simp [List.replicate_succ]

theorem Padded.eq_padTo {field : List UInt8} {n : Nat} (padded : Padded field) (length : field.length = n) :
    field = padTo n (field.takeWhile (· ≠ space)) := by
  obtain ⟨part, k, eq, kept⟩ := padded
  have lengths : part.length + k = n := by
    rw [← length, eq]
    simp
  rw [eq, takeWhile_padded k kept, padTo_of_le (by omega)]
  congr 2
  omega

theorem takeWhile_base {base : List UInt8} (ext : List UInt8) (kept : ∀ c ∈ base, c ≠ dot) :
    (base ++ dot :: ext).takeWhile (· ≠ dot) = base ∧ (base ++ dot :: ext).dropWhile (· ≠ dot) = dot :: ext := by
  have all : ∀ c ∈ base, decide (c ≠ dot) = true := by simpa using kept
  rw [List.takeWhile_append_of_pos all, List.dropWhile_append_of_pos all]
  simp

theorem nameTo83_base {base : List UInt8} (kept : ∀ c ∈ base, c ≠ dot) :
    nameTo83 base = padTo 8 (base.map toUpper) ++ padTo 3 [] := by
  have all : ∀ c ∈ base, decide (c ≠ dot) = true := by simpa using kept
  rw [nameTo83, List.takeWhile_eq_self_iff.mpr all, List.dropWhile_eq_nil_iff.mpr all]
  rfl

theorem nameTo83_ext {base : List UInt8} (ext : List UInt8) (kept : ∀ c ∈ base, c ≠ dot) :
    nameTo83 (base ++ dot :: ext) = padTo 8 (base.map toUpper) ++ padTo 3 (ext.map toUpper) := by
  obtain ⟨before, after⟩ := takeWhile_base ext kept
  rw [nameTo83, before, after]
  rfl

theorem name83ToString_fields {base ext : List UInt8} (baseFits : base.length ≤ 8) (extFits : ext.length ≤ 3)
    (baseKept : ∀ c ∈ base, c ≠ space) (extKept : ∀ c ∈ ext, c ≠ space) :
    name83ToString (padTo 8 base ++ padTo 3 ext) =
      if ext = [] then base.map toLower else base.map toLower ++ dot :: ext.map toLower := by
  have length := padTo_length 8 base
  have first : (padTo 8 base ++ padTo 3 ext).take 8 = padTo 8 base := List.take_left' length
  have second : (padTo 8 base ++ padTo 3 ext).drop 8 = padTo 3 ext := List.drop_left' length
  have head : (padTo 8 base ++ padTo 3 ext).getD 8 0 = (padTo 3 ext).getD 0 0 := by
    rw [List.getD_append_right _ _ _ _ (by omega), length]
  rw [name83ToString, first, second, head, List.take_of_length_le (by rw [padTo_length]), padTo_of_le baseFits,
    padTo_of_le extFits, takeWhile_padded _ baseKept, takeWhile_padded _ extKept]
  cases ext with
  | nil => rfl
  | cons c rest =>
    have other : c ≠ space := extKept c List.mem_cons_self
    simp [other]

theorem ShortPart.mapped {n : Nat} {part : List UInt8} (short : ShortPart n part) :
    (part.map toUpper).length ≤ n ∧ ∀ c ∈ part.map toUpper, c ≠ space := by
  obtain ⟨-, fits, plain⟩ := short
  refine ⟨by simpa using fits, fun c hc => ?_⟩
  obtain ⟨b, hb, rfl⟩ := List.mem_map.mp hc
  exact toUpper_ne_space (plain b hb).1.1

theorem ShortPart.restored {n : Nat} {part : List UInt8} (short : ShortPart n part) :
    (part.map toUpper).map toLower = part :=
  map_toLower_toUpper fun c hc => (short.2.2 c hc).2

theorem ShortName.round_trip {name : List UInt8} (short : ShortName name) : name83ToString (nameTo83 name) = name := by
  cases short with
  | base base =>
    rw [nameTo83_base fun c hc => (base.2.2 c hc).1.2.1,
      name83ToString_fields base.mapped.1 (by simp) base.mapped.2 (by simp), if_pos rfl, base.restored]
  | @ext part rest base ext =>
    have some : rest.map toUpper ≠ [] := by
      intro none
      have empty : rest = [] := List.map_eq_nil_iff.mp none
      have := ext.1
      simp [empty] at this
    rw [nameTo83_ext rest fun c hc => (base.2.2 c hc).1.2.1,
      name83ToString_fields base.mapped.1 ext.mapped.1 base.mapped.2 ext.mapped.2, if_neg some, base.restored,
      ext.restored]

theorem RawName.round_trip {raw : List UInt8} (name : RawName raw) : nameTo83 (name83ToString raw) = raw := by
  obtain ⟨length, base, ext, -, plain⟩ := name
  have firstEq := base.eq_padTo (n := 8) (by simp [length])
  have secondEq := ext.eq_padTo (n := 3) (by simp [length])
  have firstMem : ∀ c ∈ (raw.take 8).takeWhile (· ≠ space), c ∈ raw := fun c hc =>
    List.mem_of_mem_take ((List.takeWhile_sublist _).subset hc)
  have secondMem : ∀ c ∈ (raw.drop 8).takeWhile (· ≠ space), c ∈ raw := fun c hc =>
    List.mem_of_mem_drop ((List.takeWhile_sublist _).subset hc)
  have firstFits : ((raw.take 8).takeWhile (· ≠ space)).length ≤ 8 :=
    (List.takeWhile_sublist _).length_le.trans (List.length_take_le 8 raw)
  have secondFits : ((raw.drop 8).takeWhile (· ≠ space)).length ≤ 3 := by
    refine (List.takeWhile_sublist _).length_le.trans ?_
    simp [length]
  have firstKept : ∀ c ∈ (raw.take 8).takeWhile (· ≠ space), c ≠ space := fun c hc => by
    simpa using List.mem_takeWhile_imp hc
  have secondKept : ∀ c ∈ (raw.drop 8).takeWhile (· ≠ space), c ≠ space := fun c hc => by
    simpa using List.mem_takeWhile_imp hc
  generalize (raw.take 8).takeWhile (· ≠ space) = first at *
  generalize (raw.drop 8).takeWhile (· ≠ space) = second at *
  have fields : raw = padTo 8 first ++ padTo 3 second := by
    rw [← firstEq, ← secondEq, List.take_append_drop]
  have noDot : ∀ c ∈ first.map toLower, c ≠ dot := by
    intro c hc
    obtain ⟨b, hb, rfl⟩ := List.mem_map.mp hc
    exact toLower_ne_dot (plain b (firstMem b hb)).2.1
  have firstBack := map_toUpper_toLower fun c hc => (plain c (firstMem c hc)).1
  have secondBack := map_toUpper_toLower fun c hc => (plain c (secondMem c hc)).1
  have read := name83ToString_fields firstFits secondFits firstKept secondKept
  rw [← fields] at read
  rw [read]
  split
  · rename_i none
    rw [nameTo83_base noDot, firstBack, ← none, ← fields]
  · rw [nameTo83_ext _ noDot, firstBack, secondBack, ← fields]

/-- What `name_to_83` writes is read back as it was, and what `name_8_3_to_string` reads is
written again as it was. -/
theorem short_names_round_trip :
    (∀ name, ShortName name → name83ToString (nameTo83 name) = name) ∧
      ∀ raw, RawName raw → nameTo83 (name83ToString raw) = raw :=
  ⟨fun _ => ShortName.round_trip, fun _ => RawName.round_trip⟩

/-- The name `a.b` and its 8.3 form. -/
theorem short_names_round_trip_a_b :
    name83ToString (nameTo83 ([97] ++ dot :: [98])) = [97] ++ dot :: [98] ∧
      nameTo83 (name83ToString (padTo 8 [65] ++ padTo 3 [66])) = padTo 8 [65] ++ padTo 3 [66] := by
  refine ⟨short_names_round_trip.1 _ (.ext ⟨by decide +kernel, by decide +kernel, by decide +kernel⟩ ⟨by decide +kernel, by decide +kernel, by decide +kernel⟩),
    short_names_round_trip.2 _ ⟨rfl, ⟨[65], 7, rfl, by decide +kernel⟩, ⟨[66], 2, rfl, by decide +kernel⟩, by decide +kernel, by decide +kernel⟩⟩

end RexOs.Fs
