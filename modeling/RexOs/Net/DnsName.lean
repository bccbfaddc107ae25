import Mathlib.Data.List.TakeWhile
import RexOs.Net.Dns

/-! Names on the wire (`dns_encode_name` in `kernel/net/dns.c`).

`encodeName` works on the caller's buffer, as the source does, and `encodeLoop` is what it comes
to. A name is cut at its dots into labels, where one dot at the end does not count.
-/

set_option autoImplicit false

namespace RexOs.Net

variable {hostname label rest acc : List UInt8} {outMax total : UInt32} {out : Nat → UInt8}

/-- `for (i = 0; i < len; i++) out[total++] = hostname[i]`. -/
def copyLabel : List UInt8 → UInt32 → (Nat → UInt8) → UInt32 × (Nat → UInt8)
  | [], total, out => (total, out)
  | c :: rest, total, out => copyLabel rest (total + 1) (Function.update out total.toNat c)

/-- The value returned, and the memory from `out` on. -/
def encodeNameLoop (outMax : UInt32) :
    Nat → List UInt8 → UInt32 → (Nat → UInt8) → Except NetFault (UInt32 × (Nat → UInt8))
  | 0, _, _, _ => .error .hang
  | fuel + 1, hostname, total, out =>
      if hostname = [] then
        if total = 0 ∨ total + 1 > outMax then .ok (0, out)
        else .ok (total + 1, Function.update out total.toNat 0)
      else
        let label := hostname.takeWhile (· ≠ 0x2E)
        let len := UInt32.ofNat label.length
        if len = 0 ∨ len > 63 then .ok (0, out)
        else if total + 1 + len + 1 > outMax then .ok (0, out)
        else
          let (total, out) := copyLabel label (total + 1) (Function.update out total.toNat len.toUInt8)
          encodeNameLoop outMax fuel (hostname.drop (label.length + 1)) total out

def encodeName (hostname : List UInt8) (out : Nat → UInt8) (outMax : UInt32) : Except NetFault (UInt32 × (Nat → UInt8)) :=
  encodeNameLoop outMax (hostname.length + 1) hostname 0 out

def written (out : Nat → UInt8) (n : Nat) : List UInt8 := (List.range n).map out

@[simp] theorem written_length (out : Nat → UInt8) (n : Nat) : (written out n).length = n := by
  rw [written, List.length_map, List.length_range]

theorem written_update (out : Nat → UInt8) (n : Nat) (b : UInt8) :
    written (Function.update out n b) (n + 1) = written out n ++ [b] := by
  have before : (List.range n).map (Function.update out n b) = (List.range n).map out := by
    apply List.map_congr_left
    intro i member
    exact Function.update_of_ne (Nat.ne_of_lt (List.mem_range.mp member)) b out
  rw [written, List.range_succ, List.map_append, before]
  simp only [List.map_cons, List.map_nil, Function.update_self]
  rfl

theorem next_toNat (total : UInt32) (room : total.toNat + 1 < 2 ^ 32) : (total + 1).toNat = total.toNat + 1 := by
  rw [UInt32.toNat_add]
  exact Nat.mod_eq_of_lt room

theorem copyLabel_spec (label : List UInt8) : ∀ (total : UInt32) (out : Nat → UInt8),
    total.toNat + label.length < 2 ^ 32 →
    (copyLabel label total out).1.toNat = total.toNat + label.length ∧
      written (copyLabel label total out).2 (total.toNat + label.length) = written out total.toNat ++ label ∧
      ∀ i, total.toNat + label.length ≤ i → (copyLabel label total out).2 i = out i := by
  induction label with
  | nil =>
    intro total out _
    exact ⟨rfl, (List.append_nil _).symm, fun _ _ => rfl⟩
  | cons c rest ih =>
    intro total out room
    rw [List.length_cons] at room ⊢
    have next := next_toNat total (by omega)
    obtain ⟨count, bytes, frame⟩ := ih (total + 1) (Function.update out total.toNat c) (by omega)
    have place : total.toNat + 1 + rest.length = total.toNat + (rest.length + 1) := by omega
    rw [next, place] at count bytes frame
    refine ⟨count, ?_, ?_⟩
    · rw [copyLabel, bytes, written_update, List.append_assoc]
      rfl
    · intro i beyond
      rw [copyLabel, frame i beyond]
      exact Function.update_of_ne (show i ≠ total.toNat by omega) c out

/-- How a call that ended in the buffer matches the bytes of `encodeLoop`. -/
structure Encoded (result : Option (List UInt8)) (n : UInt32) (out : Nat → UInt8) : Prop where
  failed : result = none → n = 0
  wrote : ∀ bytes, result = some bytes → n ≠ 0 ∧ written out n.toNat = bytes

theorem Encoded.none (out : Nat → UInt8) : Encoded none 0 out := ⟨fun _ => rfl, fun _ found => by cases found⟩

theorem encodeRoot_spec (outMax total : UInt32) (out : Nat → UInt8) (next : total.toNat + 1 < 2 ^ 32) :
    ∃ n out', (if total = 0 ∨ total + 1 > outMax then .ok (0, out)
        else .ok (total + 1, Function.update out total.toNat 0) : Except NetFault (UInt32 × (Nat → UInt8))) = .ok (n, out') ∧
      (∀ i, outMax.toNat ≤ i → out' i = out i) ∧
      Encoded (if total.toNat = 0 ∨ total.toNat + 1 > outMax.toNat then none else some (written out total.toNat ++ [0])) n out' := by
  have next := next_toNat total next
  have same : total = 0 ∨ total + 1 > outMax ↔ total.toNat = 0 ∨ total.toNat + 1 > outMax.toNat := by
    rw [← UInt32.toNat_inj, gt_iff_lt, gt_iff_lt, UInt32.lt_iff_toNat_lt, next]
    rfl
  by_cases bad : total = 0 ∨ total + 1 > outMax
  · rw [if_pos bad, if_pos (same.mp bad)]
    exact ⟨0, out, rfl, fun _ _ => rfl, Encoded.none out⟩
  · rw [if_neg bad, if_neg fun wrong => bad (same.mpr wrong)]
    obtain ⟨some_, fits⟩ := not_or.mp fun wrong => bad (same.mpr wrong)
    refine ⟨_, _, rfl, ?_, ?_, fun bytes found => ?_⟩
    · intro i beyond
      exact Function.update_of_ne (by omega) 0 out
    · intro none
      cases none
    · cases found
      refine ⟨?_, ?_⟩
      · intro zero
        rw [zero] at next
        exact absurd next (Nat.succ_ne_zero _).symm
      · rw [next, written_update]

theorem copyLabel_prefixed (label : List UInt8) (total : UInt32) (out : Nat → UInt8) (room : total.toNat + 1 + label.length < 2 ^ 32) :
    ∃ total' out', copyLabel label (total + 1) (Function.update out total.toNat (UInt8.ofNat label.length)) = (total', out') ∧
      total'.toNat = total.toNat + 1 + label.length ∧
      written out' total'.toNat = written out total.toNat ++ UInt8.ofNat label.length :: label ∧
      ∀ i, total'.toNat ≤ i → out' i = out i := by
  obtain ⟨count, bytes, frame⟩ := copyLabel_spec label (total + 1)
    (Function.update out total.toNat (UInt8.ofNat label.length)) (by rw [next_toNat total (by omega)]; exact room)
  rw [next_toNat total (by omega)] at count bytes frame
  refine ⟨_, _, rfl, count, ?_, ?_⟩
  · rw [count, bytes, written_update, List.append_assoc]
    rfl
  · intro i beyond
    rw [frame i (by omega)]
    exact Function.update_of_ne (by omega) _ out

theorem encodeNameLoop_spec (outMax : UInt32) (fuel : Nat) : ∀ (hostname : List UInt8) (total : UInt32) (out : Nat → UInt8),
    hostname.length < fuel → (hostname ≠ [] → total.toNat + hostname.length + 2 < 2 ^ 32) → total.toNat + 1 < 2 ^ 32 →
    total ≤ outMax →
    ∃ n out', encodeNameLoop outMax fuel hostname total out = .ok (n, out') ∧ (∀ i, outMax.toNat ≤ i → out' i = out i) ∧
      Encoded (encodeLoop outMax.toNat fuel hostname (written out total.toNat)) n out' := by
  induction fuel with
  | zero =>
    intro hostname total out enough
    exact absurd enough (Nat.not_lt_zero _)
  | succ fuel ih =>
    intro hostname total out enough room next low
    rw [encodeNameLoop, encodeLoop, written_length]
    by_cases empty : hostname = []
    · rw [if_pos empty, if_pos empty]
      exact encodeRoot_spec outMax total out next
    rw [if_neg empty, if_neg empty]
    have room := room empty
    obtain ⟨label, cut⟩ : ∃ label, label = hostname.takeWhile (· ≠ 0x2E) := ⟨_, rfl⟩
    simp only [← cut]
    have part : label.length ≤ hostname.length := by
      rw [cut]
      exact (List.takeWhile_prefix _).length_le
    -- the source's bounds on 32-bit words are the ones on lengths, as nothing wraps
    have size : (UInt32.ofNat label.length).toNat = label.length :=
      UInt32.toNat_ofNat_of_lt' (by simp only [UInt32.size]; omega)
    have bounds : (UInt32.ofNat label.length = 0 ∨ UInt32.ofNat label.length > 63) ↔ (label.length = 0 ∨ label.length > 63) := by
      rw [← UInt32.toNat_inj, gt_iff_lt, UInt32.lt_iff_toNat_lt, size]
      rfl
    have exceeds : total + 1 + UInt32.ofNat label.length + 1 > outMax ↔ total.toNat + 1 + label.length + 1 > outMax.toNat := by
      have ends : (total + 1 + UInt32.ofNat label.length + 1).toNat = total.toNat + 1 + label.length + 1 := by
        simp only [UInt32.toNat_add, size, UInt32.reduceToNat]
        omega
      rw [gt_iff_lt, gt_iff_lt, UInt32.lt_iff_toNat_lt, ends]
    have byte : (UInt32.ofNat label.length).toUInt8 = UInt8.ofNat label.length := by
      rw [← UInt8.toNat_inj, UInt32.toNat_toUInt8, size, UInt8.toNat_ofNat']
    by_cases bad : label.length = 0 ∨ label.length > 63
    · rw [if_pos (bounds.mpr bad), if_pos bad]
      exact ⟨0, out, rfl, fun _ _ => rfl, Encoded.none out⟩
    rw [if_neg fun wrong => bad (bounds.mp wrong), if_neg bad]
    by_cases long : total.toNat + 1 + label.length + 1 > outMax.toNat
    · rw [if_pos (exceeds.mpr long), if_pos long]
      exact ⟨0, out, rfl, fun _ _ => rfl, Encoded.none out⟩
    rw [if_neg fun wrong => long (exceeds.mp wrong), if_neg long, byte]
    -- one label is written, and the rest of the name is shorter
    obtain ⟨total', out', copied, count, bytes, frame⟩ := copyLabel_prefixed label total out (show _ < _ by omega)
    rw [copied, ← bytes]
    have left : (hostname.drop (label.length + 1)).length = hostname.length - (label.length + 1) := List.length_drop
    have again : hostname.drop (label.length + 1) ≠ [] →
        total'.toNat + (hostname.drop (label.length + 1)).length + 2 < 2 ^ 32 := by
      intro more
      have some_ := List.length_pos_iff.mpr more
      omega
    obtain ⟨n, last, returned, untouched, encoded⟩ := ih (hostname.drop (label.length + 1)) total' out' (by omega) again
      (by have := outMax.toNat_lt; omega) (UInt32.le_iff_toNat_le.mpr (by omega))
    refine ⟨n, last, returned, ?_, encoded⟩
    intro i beyond
    rw [untouched i beyond, frame i (by omega)]

def stem (hostname : List UInt8) : List UInt8 :=
  if hostname.getLast? = some 0x2E then hostname.dropLast else hostname

def labels (hostname : List UInt8) : List (List UInt8) := if hostname = [] then [] else (stem hostname).splitOn 0x2E

def wireLabels (ls : List (List UInt8)) : List UInt8 := ls.flatMap fun l => UInt8.ofNat l.length :: l

def wire (ls : List (List UInt8)) : List UInt8 := wireLabels ls ++ [0]

def Proper (ls : List (List UInt8)) : Prop := ∀ l ∈ ls, l ≠ [] ∧ l.length ≤ 63

def decodeLabels : Nat → List UInt8 → Option (List (List UInt8))
  | 0, _ => none
  | _ + 1, [] => none
  | fuel + 1, len :: rest =>
      if len = 0 then some []
      else if rest.length < len.toNat then none
      else (decodeLabels fuel (rest.drop len.toNat)).map (rest.take len.toNat :: ·)

theorem decodeLabels_wire (ls : List (List UInt8)) (rest : List UInt8) : ∀ fuel, ls.length < fuel → Proper ls →
    decodeLabels fuel (wire ls ++ rest) = some ls := by
  induction ls with
  | nil =>
    intro fuel enough _
    obtain ⟨fuel, rfl⟩ := Nat.exists_eq_add_of_le' enough
    rfl
  | cons label ls ih =>
    intro fuel enough proper
    obtain ⟨fuel, rfl⟩ := Nat.exists_eq_add_of_le' enough
    obtain ⟨nonempty, short⟩ := proper label List.mem_cons_self
    have some_ := List.length_pos_iff.mpr nonempty
    have size : (UInt8.ofNat label.length).toNat = label.length :=
      UInt8.toNat_ofNat_of_lt' (by simp only [UInt8.size]; omega)
    have one : ¬ UInt8.ofNat label.length = 0 := by
      intro zero
      rw [zero] at size
      exact absurd size (Nat.ne_of_lt some_)
    have shape : wire (label :: ls) ++ rest = UInt8.ofNat label.length :: (label ++ (wire ls ++ rest)) := by
      simp only [wire, wireLabels, List.flatMap_cons, List.cons_append, List.append_assoc]
    rw [shape]
    show decodeLabels (fuel + ls.length + 1 + 1) _ = _
    rw [decodeLabels, if_neg one, size, if_neg (by rw [List.length_append]; omega), List.drop_left, List.take_left,
      ih _ (by omega) fun l member => proper l (List.mem_cons_of_mem _ member)]
    rfl

theorem takeWhile_plain (plain : 0x2E ∉ label) : label.takeWhile (· ≠ 0x2E) = label := by
  rw [List.takeWhile_eq_self_iff]
  intro c member
  exact decide_eq_true fun same => plain (same ▸ member)

theorem takeWhile_dot (plain : 0x2E ∉ label) (rest : List UInt8) :
    (label ++ 0x2E :: rest).takeWhile (· ≠ 0x2E) = label := by
  rw [List.takeWhile_append_of_pos, List.takeWhile_cons_of_neg (by decide), List.append_nil]
  intro c member
  exact decide_eq_true fun same => plain (same ▸ member)

theorem labels_cons (named : hostname ≠ []) :
    labels hostname = hostname.takeWhile (· ≠ 0x2E) ::
      labels (hostname.drop ((hostname.takeWhile (· ≠ 0x2E)).length + 1)) := by
  by_cases dotted : 0x2E ∈ hostname
  · obtain ⟨label, rest, rfl, plain⟩ := List.eq_append_cons_of_mem dotted
    rw [takeWhile_dot plain, ← List.drop_drop, List.drop_left, List.drop_one, List.tail_cons]
    by_cases ends : rest = []
    · rw [ends, labels, labels, if_neg (by simp), if_pos rfl, stem, if_pos List.getLast?_concat, List.dropLast_concat,
        List.splitOn_eq_singleton plain]
    · have last : (label ++ 0x2E :: rest).getLast? = rest.getLast? := by
        rw [List.getLast?_append, List.getLast?_cons_of_ne_nil ends, List.getLast?_eq_some_getLast ends, Option.some_or]
      have cut : stem (label ++ 0x2E :: rest) = label ++ 0x2E :: stem rest := by
        rw [stem, stem, last]
        split
        · rw [List.dropLast_append_cons, List.dropLast_cons_of_ne_nil ends]
        · rfl
      rw [labels, labels, if_neg (by simp), if_neg ends, cut, List.splitOn_append_cons_self_of_not_mem plain]
  · have last : ¬ hostname.getLast? = some 0x2E := fun dot => dotted (List.mem_of_getLast? dot)
    rw [takeWhile_plain dotted, List.drop_eq_nil_of_le (Nat.le_succ _), labels, labels, if_neg named, if_pos rfl, stem,
      if_neg last, List.splitOn_eq_singleton dotted]

theorem wire_cons (label : List UInt8) (ls : List (List UInt8)) :
    wire (label :: ls) = (UInt8.ofNat label.length :: label) ++ wire ls := by
  rw [wire, wireLabels, List.flatMap_cons, List.append_assoc]
  rfl

theorem wire_length (ls : List (List UInt8)) : ls.length < (wire ls).length := by
  induction ls with
  | nil => exact Nat.zero_lt_one
  | cons label ls ih =>
    rw [wire_cons, List.length_append, List.length_cons, List.length_cons]
    omega

structure Continues (outMax : Nat) (acc hostname : List UInt8) : Prop where
  named : acc ≠ [] ∨ hostname ≠ []
  proper : Proper (labels hostname)
  fits : (acc ++ wire (labels hostname)).length ≤ outMax

theorem continues_nil (outMax : Nat) (acc : List UInt8) :
    Continues outMax acc [] ↔ ¬ (acc.length = 0 ∨ acc.length + 1 > outMax) := by
  have size : (acc ++ wire (labels [])).length = acc.length + 1 := List.length_append
  constructor
  · rintro ⟨named, _, fits⟩
    have some_ := List.length_pos_iff.mpr (named.resolve_right fun other => other rfl)
    omega
  · intro fine
    obtain ⟨some_, fits⟩ := not_or.mp fine
    refine ⟨Or.inl (List.ne_nil_of_length_pos (Nat.pos_of_ne_zero some_)), fun l member => ?_, by omega⟩
    cases member

theorem wire_labels (named : hostname ≠ []) (acc : List UInt8) (first : label = hostname.takeWhile (· ≠ 0x2E)) :
    acc ++ wire (labels hostname) =
      (acc ++ UInt8.ofNat label.length :: label) ++ wire (labels (hostname.drop (label.length + 1))) := by
  rw [labels_cons named, wire_cons, ← first, List.append_assoc]

theorem continues_cons (named : hostname ≠ []) (outMax : Nat) (acc : List UInt8) (first : label = hostname.takeWhile (· ≠ 0x2E)) :
    Continues outMax acc hostname ↔ (label.length ≠ 0 ∧ label.length ≤ 63) ∧
      Continues outMax (acc ++ UInt8.ofNat label.length :: label) (hostname.drop (label.length + 1)) := by
  have shape := wire_labels named acc first
  have cut := labels_cons named
  rw [← first] at cut
  constructor
  · rintro ⟨_, proper, fits⟩
    rw [cut] at proper
    obtain ⟨nonempty, short⟩ := proper label List.mem_cons_self
    refine ⟨⟨fun none => nonempty (List.eq_nil_of_length_eq_zero none), short⟩, Or.inl (by simp),
      fun l member => proper l (List.mem_cons_of_mem _ member), ?_⟩
    rw [← shape]
    exact fits
  · rintro ⟨⟨nonempty, short⟩, _, proper, fits⟩
    refine ⟨Or.inr named, ?_, ?_⟩
    · rw [cut]
      intro l member
      rcases List.mem_cons.mp member with rfl | member
      · exact ⟨fun none => nonempty (by rw [none]; rfl), short⟩
      · exact proper l member
    · rw [shape]
      exact fits

theorem Continues.first {outMax : Nat} (continues : Continues outMax acc hostname) (named : hostname ≠ [])
    (first : label = hostname.takeWhile (· ≠ 0x2E)) : acc.length + 1 + label.length + 1 ≤ outMax := by
  have fits := continues.fits
  have root := wire_length (labels (hostname.drop (label.length + 1)))
  rw [wire_labels named acc first, List.length_append, List.length_append, List.length_cons] at fits
  omega

theorem encodeLoop_eq (outMax fuel : Nat) : ∀ hostname acc : List UInt8, hostname.length < fuel →
    (Continues outMax acc hostname → encodeLoop outMax fuel hostname acc = some (acc ++ wire (labels hostname))) ∧
      (¬ Continues outMax acc hostname → encodeLoop outMax fuel hostname acc = none) := by
  induction fuel with
  | zero =>
    intro hostname acc enough
    exact absurd enough (Nat.not_lt_zero _)
  | succ fuel ih =>
    intro hostname acc enough
    rw [encodeLoop]
    by_cases empty : hostname = []
    · rw [if_pos empty, empty, continues_nil, not_not]
      exact ⟨fun fine => if_neg fine, fun wrong => if_pos wrong⟩
    rw [if_neg empty]
    obtain ⟨label, first⟩ : ∃ label, label = hostname.takeWhile (· ≠ 0x2E) := ⟨_, rfl⟩
    simp only [← first]
    have same := continues_cons empty outMax acc first
    by_cases bad : label.length = 0 ∨ label.length > 63
    · rw [if_pos bad]
      exact ⟨fun fine => absurd (same.mp fine).1 (by omega), fun _ => rfl⟩
    rw [if_neg bad]
    by_cases long : acc.length + 1 + label.length + 1 > outMax
    · rw [if_pos long]
      exact ⟨fun fine => absurd (fine.first empty first) (by omega), fun _ => rfl⟩
    rw [if_neg long, wire_labels empty acc first]
    have left : (hostname.drop (label.length + 1)).length = hostname.length - (label.length + 1) := List.length_drop
    have some_ := List.length_pos_iff.mpr empty
    obtain ⟨goes, stops⟩ := ih (hostname.drop (label.length + 1)) (acc ++ UInt8.ofNat label.length :: label) (by omega)
    exact ⟨fun fine => goes (same.mp fine).2, fun wrong => stops fun fine => wrong (same.mpr ⟨by omega, fine⟩)⟩

/-- Names that have an encoding of at most `outMax` bytes. -/
structure Encodable (hostname : List UInt8) (outMax : UInt32) : Prop where
  named : hostname ≠ []
  proper : Proper (labels hostname)
  fits : (wire (labels hostname)).length ≤ outMax.toNat

theorem join_labels (named : hostname ≠ []) : [0x2E].intercalate (labels hostname) = stem hostname := by
  rw [labels, if_neg named]
  exact List.intercalate_splitOn 0x2E

/-- A hostname is encoded inside the buffer, or refused, and the encoding tells the name. `dns_resolve` passes on
at most 253 characters, so the lengths do not wrap. -/
theorem dns_name_encoding (out : Nat → UInt8) (outMax : UInt32) (short : hostname.length + 2 < 2 ^ 32) :
    ∃ n out', encodeName hostname out outMax = .ok (n, out') ∧ (∀ i, outMax.toNat ≤ i → out' i = out i) ∧
      (n = 0 ↔ ¬ Encodable hostname outMax) ∧
      (n ≠ 0 → n.toNat = (wire (labels hostname)).length ∧ written out' n.toNat = wire (labels hostname) ∧
        ∃ ls, decodeLabels n.toNat (written out' n.toNat) = some ls ∧ [0x2E].intercalate ls = stem hostname) := by
  obtain ⟨n, out', returned, frame, encoded⟩ := encodeNameLoop_spec outMax (hostname.length + 1) hostname 0 out
    (Nat.lt_succ_self _) (fun _ => by rw [UInt32.toNat_zero]; omega) (by decide) UInt32.zero_le
  obtain ⟨goes, stops⟩ := encodeLoop_eq outMax.toNat (hostname.length + 1) hostname [] (Nat.lt_succ_self _)
  have start : written out (0 : UInt32).toNat = [] := rfl
  rw [start] at encoded
  have same : Continues outMax.toNat [] hostname ↔ Encodable hostname outMax := by
    constructor
    · rintro ⟨named, proper, fits⟩
      exact ⟨named.resolve_left fun other => other rfl, proper, fits⟩
    · rintro ⟨named, proper, fits⟩
      exact ⟨Or.inr named, proper, fits⟩
  refine ⟨n, out', returned, frame, ?_, ?_⟩
  · constructor
    · intro zero fine
      exact (encoded.wrote _ (goes (same.mpr fine))).1 zero
    · intro wrong
      exact encoded.failed (stops fun fine => wrong (same.mp fine))
  · intro nonzero
    have fine : Encodable hostname outMax := by
      by_contra wrong
      exact nonzero (encoded.failed (stops fun fine => wrong (same.mp fine)))
    obtain ⟨_, bytes⟩ := encoded.wrote _ (goes (same.mpr fine))
    rw [List.nil_append] at bytes
    have size : n.toNat = (wire (labels hostname)).length := by rw [← bytes, written_length]
    refine ⟨size, bytes, labels hostname, ?_, join_labels fine.named⟩
    rw [bytes, size, ← List.append_nil (wire (labels hostname))]
    exact decodeLabels_wire _ [] _ (by rw [List.append_nil]; exact wire_length _) fine.proper

/-- The name `a.b.`, into the space of a query. -/
theorem dns_name_encoding_ab : ([97, 0x2E, 98, 0x2E] : List UInt8).length + 2 < 2 ^ 32 ∧
    ∃ n out', encodeName [97, 0x2E, 98, 0x2E] (fun _ => 0) 496 = .ok (n, out') ∧ (∀ i, 496 ≤ i → out' i = 0) ∧
      (n = 0 ↔ ¬ Encodable [97, 0x2E, 98, 0x2E] 496) ∧
      (n ≠ 0 → n.toNat = (wire (labels [97, 0x2E, 98, 0x2E])).length ∧
        written out' n.toNat = wire (labels [97, 0x2E, 98, 0x2E]) ∧
        ∃ ls, decodeLabels n.toNat (written out' n.toNat) = some ls ∧
          [0x2E].intercalate ls = stem [97, 0x2E, 98, 0x2E]) :=
  ⟨by decide, dns_name_encoding (fun _ => 0) 496 (by decide)⟩

end RexOs.Net
