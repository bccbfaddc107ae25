import RexOs.User.InflateSafe

/-! gzip and zlib headers in front of a DEFLATE stream.

A header is followed through an input that ends anywhere: as long as the input reaches,
`rex_gunzip` stands where the field ends, and from then on it stands behind the input.
-/

set_option autoImplicit false

namespace RexOs.User

open RexOs.Library

def extraBytes : Option (List UInt8) → List UInt8
  | none => []
  | some bytes => UInt8.ofNat (bytes.length % 256) :: UInt8.ofNat (bytes.length / 256) :: bytes

def textBytes : Option (List UInt8) → List UInt8
  | none => []
  | some text => text ++ [0]

def crcBytes : Option (UInt8 × UInt8) → List UInt8
  | none => []
  | some crc => [crc.1, crc.2]

/-- The header of a gzip member; `times` are the bytes from MTIME to OS. -/
structure GzipHeader where
  method : UInt8
  flg : UInt8
  times : List UInt8
  extra : Option (List UInt8)
  name : Option (List UInt8)
  comment : Option (List UInt8)
  hcrc : Option (UInt8 × UInt8)
  times_length : times.length = 6
  extra_flag : decide (flg.toNat &&& 0x04 ≠ 0) = extra.isSome
  name_flag : decide (flg.toNat &&& 0x08 ≠ 0) = name.isSome
  comment_flag : decide (flg.toNat &&& 0x10 ≠ 0) = comment.isSome
  hcrc_flag : decide (flg.toNat &&& 0x02 ≠ 0) = hcrc.isSome
  extra_fits : ∀ bytes ∈ extra, bytes.length < 2 ^ 16
  name_text : ∀ text ∈ name, 0 ∉ text
  comment_text : ∀ text ∈ comment, 0 ∉ text

def GzipHeader.fields (h : GzipHeader) : List UInt8 :=
  extraBytes h.extra ++ (textBytes h.name ++ (textBytes h.comment ++ crcBytes h.hcrc))

def GzipHeader.bytes (h : GzipHeader) : List UInt8 := 0x1f :: 0x8b :: h.method :: h.flg :: (h.times ++ h.fields)

structure ZlibHeader where
  cmf : UInt8
  flg : UInt8
  method : cmf.toNat &&& 0x0f = 8
  check : (cmf.toNat * 256 + flg.toNat) % 31 = 0
  no_dictionary : flg.toNat &&& 0x20 = 0

def ZlibHeader.bytes (h : ZlibHeader) : List UInt8 := [h.cmf, h.flg]

variable {whole rest text : List UInt8} {n pos off fuel destlen : Nat}

/-- In an input of `n` bytes the place `pos` is found, or one that is behind the input like it. -/
structure Standing (n pos off : Nat) : Prop where
  inside : pos < n → off = pos
  behind : n ≤ pos → n ≤ off

theorem Standing.refl (n pos : Nat) : Standing n pos pos := ⟨fun _ => rfl, id⟩

theorem Standing.add (standing : Standing n pos off) (k : Nat) : Standing n (pos + k) (off + k) := by
  rcases Nat.lt_or_ge pos n with inside | behind
  · rw [standing.inside inside]
    exact Standing.refl ..
  · have := standing.behind behind
    exact ⟨fun _ => by omega, fun _ => by omega⟩

theorem byteAt_take {b : UInt8} (here : whole.drop pos = b :: rest) (inside : pos < n) :
    byteAt (whole.take n) pos = .ok b.toNat := by
  have byte : (whole.take n)[pos]? = some b := by
    rw [List.getElem?_take_of_lt inside, ← List.head?_drop, here, List.head?_cons]
  rw [byteAt, byte]

theorem drop_next {b : UInt8} (here : whole.drop pos = b :: rest) : whole.drop (pos + 1) = rest := by
  rw [← List.drop_drop, here, List.drop_one, List.tail_cons]

theorem drop_behind (here : whole.drop pos = text ++ rest) : whole.drop (pos + text.length) = rest := by
  rw [← List.drop_drop, here, List.drop_left]

theorem zeroLoop_text (long : n ≤ whole.length) (here : whole.drop pos = text ++ 0 :: rest) (plain : 0 ∉ text)
    (enough : n ≤ pos + fuel) :
    ∃ off, zeroLoop (whole.take n) (fuel + 1) pos = .ok off ∧ Standing n (pos + text.length) off := by
  have length : (whole.take n).length = n := List.length_take_of_le long
  induction text generalizing pos fuel with
  | nil =>
    refine ⟨pos, ?_, Standing.refl ..⟩
    rw [zeroLoop, length]
    split
    · rename_i inside
      rw [byteAt_take here inside]
      rfl
    · rfl
  | cons b text ih =>
    rw [List.mem_cons, not_or] at plain
    rw [zeroLoop, length]
    split
    · rename_i inside
      obtain ⟨fuel, rfl⟩ := Nat.exists_eq_add_one_of_ne_zero (by omega : fuel ≠ 0)
      have enough : n ≤ pos + 1 + fuel := by omega
      obtain ⟨off, found, standing⟩ := ih (drop_next here) plain.2 enough
      have nonzero : b.toNat ≠ 0 := fun zero => plain.1 (UInt8.toNat_inj.mp zero.symm)
      refine ⟨off, ?_, ?_⟩
      · rw [byteAt_take here inside]
        exact (if_pos nonzero).trans found
      · rw [List.length_cons, Nat.add_comm text.length, ← Nat.add_assoc]
        exact standing
    · exact ⟨pos, rfl, fun _ => by omega, fun _ => by omega⟩

theorem skipField_stands (long : n ≤ whole.length) {field : Option (List UInt8)} (plain : ∀ text ∈ field, 0 ∉ text)
    (here : whole.drop pos = textBytes field ++ rest) (standing : Standing n pos off) :
    ∃ off', skipField (whole.take n) field.isSome off = .ok off' ∧ Standing n (pos + (textBytes field).length) off' := by
  have length : (whole.take n).length = n := List.length_take_of_le long
  cases field with
  | none => exact ⟨off, rfl, standing⟩
  | some text =>
    have size : (textBytes (some text)).length = text.length + 1 := List.length_append
    have here : whole.drop pos = text ++ 0 :: rest := by rw [here, textBytes, List.append_assoc, List.singleton_append]
    rw [skipField, Option.isSome_some, if_pos rfl, length, size, ← Nat.add_assoc]
    rcases Nat.lt_or_ge pos n with inside | behind
    · rw [standing.inside inside]
      obtain ⟨off', found, standing'⟩ := zeroLoop_text long here (plain text rfl) (Nat.le_add_left n pos)
      rw [found]
      exact ⟨off' + 1, rfl, standing'.add 1⟩
    · have beyond := standing.behind behind
      have stays : zeroLoop (whole.take n) (n + 1) off = .ok off := by rw [zeroLoop, if_neg (by omega)]
      rw [stays]
      exact ⟨off + 1, rfl, fun _ => by omega, fun _ => by omega⟩

theorem extraLength (k : Nat) (fits : k < 2 ^ 16) :
    (UInt8.ofNat (k % 256)).toNat ||| (UInt8.ofNat (k / 256)).toNat <<< 8 = k := by
  rw [UInt8.toNat_ofNat', UInt8.toNat_ofNat', Nat.mod_mod, Nat.mod_eq_of_lt (by omega : k / 256 < 256), Nat.or_comm,
    ← Nat.shiftLeft_add_eq_or_of_lt (Nat.mod_lt k (by decide)), Nat.shiftLeft_eq]
  omega

theorem skipExtra_stands {field : Option (List UInt8)} (fits : ∀ bytes ∈ field, bytes.length < 2 ^ 16)
    (here : whole.drop pos = extraBytes field ++ rest) (room : field.isSome = true → pos + 2 ≤ n) :
    skipExtra (whole.take n) field.isSome pos = .ok (pos + (extraBytes field).length) := by
  cases field with
  | none => rfl
  | some bytes =>
    have room := room rfl
    have first := byteAt_take (n := n) here (by omega)
    have second := byteAt_take (n := n) (drop_next here) (by omega)
    simp only [skipExtra, Option.isSome_some, if_true, first, second]
    refine congrArg Except.ok (congrArg (pos + ·) ?_)
    rw [extraLength _ (fits bytes rfl), extraBytes, List.length_cons, List.length_cons]
    omega

def inflated (d : List UInt8) (destlen : Nat) : Except Fault (Int × Option (List UInt8)) := do
  let (err, out) ← rexInflate d destlen
  .ok (err, some out)

theorem inflateFrom_behind (front d : List UInt8) (destlen : Nat) :
    inflateFrom (front ++ d) destlen front.length = inflated d destlen := by
  rw [inflateFrom, List.drop_left]
  rfl

theorem rexGunzip_gzip (h : GzipHeader) (d : List UInt8) (destlen : Nat) {n : Nat} (two : 2 ≤ n)
    (long : n ≤ (h.bytes ++ d).length) :
    rexGunzip ((h.bytes ++ d).take n) destlen =
      if h.bytes.length < n then inflateFrom ((h.bytes ++ d).take n) destlen h.bytes.length else .ok (-20, none) := by
  generalize whole_ : h.bytes ++ d = whole at long ⊢
  have length : (whole.take n).length = n := List.length_take_of_le long
  have size : h.bytes.length = 10 + h.fields.length := by
    simp only [GzipHeader.bytes, List.length_cons, List.length_append, h.times_length]
    omega
  have start : whole.drop 0 = 0x1f :: 0x8b :: h.method :: h.flg :: (h.times ++ (h.fields ++ d)) := by
    rw [← whole_, List.drop_zero, GzipHeader.bytes]
    simp only [List.cons_append, List.append_assoc]
  have b0 := byteAt_take (n := n) start (by omega)
  have b1 := byteAt_take (n := n) (drop_next start) (by omega)
  rw [rexGunzip, length, if_neg (by omega), b0, b1]
  change (if n < 10 then _ else _) = _
  by_cases ten : n < 10
  · rw [if_pos ten, if_neg (by omega)]
  rw [if_neg ten]
  have flags : whole.drop 3 = h.flg :: (h.times ++ (h.fields ++ d)) := drop_next (drop_next (drop_next start))
  have b3 := byteAt_take (n := n) flags (by omega)
  have at10 : whole.drop 10 = extraBytes h.extra ++ (textBytes h.name ++ (textBytes h.comment ++ (crcBytes h.hcrc ++ d))) := by
    have behind := drop_behind (drop_next flags)
    rw [h.times_length] at behind
    rw [behind, GzipHeader.fields]
    simp only [List.append_assoc]
  have fields : h.fields.length =
      (extraBytes h.extra).length + ((textBytes h.name).length + ((textBytes h.comment).length + (crcBytes h.hcrc).length)) := by
    simp only [GzipHeader.fields, List.length_append]
  rw [b3]
  change (if _ then _ else _) = _
  split
  · rename_i short
    obtain ⟨there, short⟩ := short
    have some_ : h.extra.isSome = true := by rw [← h.extra_flag, decide_eq_true_iff]; exact there
    obtain ⟨bytes, extra⟩ := Option.isSome_iff_exists.mp some_
    have two : 2 ≤ (extraBytes h.extra).length := by
      rw [extra, extraBytes, List.length_cons, List.length_cons]
      omega
    rw [if_neg (by omega)]
  · rename_i room
    rw [h.extra_flag, h.name_flag, h.comment_flag]
    have room : h.extra.isSome = true → 10 + 2 ≤ n := by
      intro some_
      rw [← h.extra_flag, decide_eq_true_iff] at some_
      by_contra short
      exact room ⟨some_, by omega⟩
    rw [skipExtra_stands h.extra_fits at10 room]
    have at1 := drop_behind at10
    obtain ⟨off₁, name, standing₁⟩ := skipField_stands long h.name_text at1 (Standing.refl ..)
    obtain ⟨off₂, comment, standing₂⟩ := skipField_stands long h.comment_text (drop_behind at1) standing₁
    change (skipField _ _ _ >>= _) = _
    rw [name]
    change (skipField _ _ _ >>= _) = _
    rw [comment]
    -- the checksum is skipped without a look
    have standing₃ : Standing n h.bytes.length (if h.flg.toNat &&& 0x02 ≠ 0 then off₂ + 2 else off₂) := by
      have end_ : h.bytes.length = 10 + (extraBytes h.extra).length + (textBytes h.name).length +
          (textBytes h.comment).length + (crcBytes h.hcrc).length := by omega
      rw [end_]
      have flag := h.hcrc_flag
      cases crc : h.hcrc with
      | none =>
        rw [crc, Option.isSome_none, decide_eq_false_iff_not] at flag
        rw [if_neg flag]
        exact standing₂
      | some bytes =>
        rw [crc, Option.isSome_some, decide_eq_true_iff] at flag
        rw [if_pos flag]
        exact standing₂.add 2
    change (if _ then _ else _) = _
    generalize (if h.flg.toNat &&& 0x02 ≠ 0 then off₂ + 2 else off₂) = off at standing₃
    by_cases inside : h.bytes.length < n
    · rw [standing₃.inside inside, if_neg (by omega), if_pos inside]
    · have := standing₃.behind (by omega)
      rw [if_pos (by omega), if_neg inside]

theorem rexGunzip_zlib (h : ZlibHeader) (d : List UInt8) (destlen : Nat) :
    rexGunzip (h.bytes ++ d) destlen = inflated d destlen := by
  have check : (h.cmf.toNat <<< 8 ||| h.flg.toNat) % 31 = 0 := by
    rw [← Nat.shiftLeft_add_eq_or_of_lt h.flg.toNat_lt, Nat.shiftLeft_eq]
    exact h.check
  have notGzip : ¬ (h.cmf.toNat = 0x1f ∧ h.flg.toNat = 0x8b) := by
    rintro ⟨magic, -⟩
    have method := h.method
    rw [magic] at method
    cases method
  rw [rexGunzip, if_neg (by simp [ZlibHeader.bytes])]
  change (if h.cmf.toNat = 0x1f ∧ h.flg.toNat = 0x8b then _ else
    if h.cmf.toNat &&& 0x0f = 8 ∧ (h.cmf.toNat <<< 8 ||| h.flg.toNat) % 31 = 0 then _ else _) = _
  rw [if_neg notGzip, if_pos ⟨h.method, check⟩]
  exact inflateFrom_behind h.bytes d destlen

/-- Behind a complete header the data are inflated, and a header that is cut off is refused. -/
theorem gunzip_unwraps (destlen : Nat) :
    (∀ (h : GzipHeader) (d : List UInt8), d ≠ [] → rexGunzip (h.bytes ++ d) destlen = inflated d destlen) ∧
    (∀ (h : ZlibHeader) (d : List UInt8), rexGunzip (h.bytes ++ d) destlen = inflated d destlen) ∧
    (∀ (h : GzipHeader) (n : Nat), 2 ≤ n → n ≤ h.bytes.length → rexGunzip (h.bytes.take n) destlen = .ok (-20, none)) := by
  refine ⟨?_, fun h d => rexGunzip_zlib h d destlen, ?_⟩
  · intro h d some_
    have more := List.length_pos_iff.mpr some_
    have length : (h.bytes ++ d).length = h.bytes.length + d.length := List.length_append
    have two : 2 ≤ h.bytes.length := by simp [GzipHeader.bytes]
    have whole := rexGunzip_gzip h d destlen (n := (h.bytes ++ d).length) (by omega) (Nat.le_refl _)
    rw [List.take_length, if_pos (by omega)] at whole
    rw [whole, inflateFrom_behind]
  · intro h n two short
    have cut := rexGunzip_gzip h [] destlen two (by rw [List.append_nil]; exact short)
    rw [List.append_nil, if_neg (by omega)] at cut
    exact cut

def namedHeader : GzipHeader :=
  { method := 8, flg := 8, times := [0, 0, 0, 0, 0, 3], extra := none, name := some [97], comment := none, hcrc := none
    times_length := rfl, extra_flag := rfl, name_flag := rfl, comment_flag := rfl, hcrc_flag := rfl
    extra_fits := by decide, name_text := by decide, comment_text := by decide }

/-- An empty file with its name, and the same with the input ending in the name. -/
theorem gunzip_unwraps_named :
    rexGunzip (namedHeader.bytes ++ [3, 0]) 10 = inflated [3, 0] 10 ∧
      rexGunzip (namedHeader.bytes.take 11) 10 = .ok (-20, none) :=
  ⟨(gunzip_unwraps 10).1 namedHeader [3, 0] (by decide), (gunzip_unwraps 10).2.2 namedHeader 11 (by decide) (by decide)⟩

end RexOs.User
