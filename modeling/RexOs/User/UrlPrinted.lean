import RexOs.Library.Safe
import RexOs.User.Url

/-! Printed URLs are parsed back.

What `h_parse_url` accepts is `WellFormed`. The site and the path of a well-formed URL, printed
one behind the other, are parsed to that URL again; so a normalised URL is its own normal form,
and a redirect to a path stays at the site.
-/

set_option autoImplicit false

namespace RexOs.User.Http

open RexOs.Library

section
variable {dst src out : List UInt8} {max : Nat}

theorem hStrcatLimit_done (done : (hStrcatLimit dst src max).2 = true) :
    (hStrcatLimit dst src max).1 = dst ++ src ∧ (dst ++ src).length < max := by
  unfold hStrcatLimit at done ⊢
  split at done
  · cases done
  · rename_i room
    rw [decide_eq_true_eq, List.isEmpty_iff, List.drop_eq_nil_iff] at done
    rw [if_neg room, List.take_of_length_le done, List.length_append]
    exact ⟨rfl, by omega⟩

theorem hStrcatLimit_fits (fits : (dst ++ src).length < max) : hStrcatLimit dst src max = (dst ++ src, true) := by
  rw [List.length_append] at fits
  have room : ¬ dst.length ≥ max := by omega
  have all : src.length ≤ max - 1 - dst.length := by omega
  rw [hStrcatLimit, if_neg room, List.take_of_length_le all, List.drop_eq_nil_iff.mpr all]
  rfl

theorem appendChars_done (done : (appendChars max src dst).2 = true) : (appendChars max src dst).1 = dst ++ src := by
  induction src generalizing dst with
  | nil => rw [appendChars, List.append_nil]
  | cons c rest ih =>
    simp only [appendChars] at done ⊢
    split at done
    · rename_i one
      rw [if_pos one, ih done, (hStrcatLimit_done one).1, List.append_assoc, List.singleton_append]
    · cases done

theorem appendChars_fits (fits : (dst ++ src).length < max) : appendChars max src dst = (dst ++ src, true) := by
  induction src generalizing dst with
  | nil => rw [appendChars, List.append_nil]
  | cons c rest ih =>
    have split_ : dst ++ c :: rest = dst ++ [c] ++ rest := by rw [List.append_assoc, List.singleton_append]
    rw [split_] at fits ⊢
    have one : (dst ++ [c]).length < max := by
      rw [List.length_append] at fits
      omega
    simp only [appendChars, hStrcatLimit_fits one, if_true]
    exact ih fits

def digitsOf (value : Nat) : List UInt8 := (digitsBackward 16 value).reverse

theorem hAppendIntLimit_done {value : Nat} (positive : 0 < value) (done : (hAppendIntLimit dst value max).2 = true) :
    (hAppendIntLimit dst value max).1 = dst ++ digitsOf value := by
  rw [hAppendIntLimit, if_neg (by omega)] at done ⊢
  exact appendChars_done done

theorem hAppendIntLimit_fits {value : Nat} (positive : 0 < value) (fits : (dst ++ digitsOf value).length < max) :
    hAppendIntLimit dst value max = (dst ++ digitsOf value, true) := by
  rw [hAppendIntLimit, if_neg (by omega)]
  exact appendChars_fits fits

theorem cat_ok (appended : cat dst src = .ok out) : out = dst ++ src ∧ out.length < httpUrlMax := by
  simp only [cat] at appended
  split at appended
  · rename_i done
    obtain ⟨whole, fits⟩ := hStrcatLimit_done done
    have same := Except.ok.inj appended
    rw [whole] at same
    rw [← same]
    exact ⟨rfl, fits⟩
  · cases appended

theorem cat_fits (fits : (dst ++ src).length < httpUrlMax) : cat dst src = .ok (dst ++ src) := by
  simp only [cat, hStrcatLimit_fits fits, if_true]

end

theorem digitsBackward_decimal (room value : Nat) : ∀ c ∈ digitsBackward room value, isDecimal c = true := by
  induction room generalizing value with
  | zero => exact fun _ member => absurd member List.not_mem_nil
  | succ room ih =>
    rw [digitsBackward]
    split
    · intro c member
      rcases List.mem_cons.mp member with rfl | later
      · have digit : ∀ d < 10, isDecimal (UInt8.ofNat (48 + d)) = true := by decide
        exact digit _ (Nat.mod_lt _ (by decide))
      · exact ih _ c later
    · exact fun _ member => absurd member List.not_mem_nil

theorem digitsOf_decimal (value : Nat) : ∀ c ∈ digitsOf value, isDecimal c = true := fun c member =>
  digitsBackward_decimal 16 value c (List.mem_reverse.mp member)

theorem digitsBackward_value {room value : Nat} (fits : value < 10 ^ room) :
    (digitsBackward room value).foldr (fun c n => n * 10 + decimalValue c) 0 = (value : Int) := by
  induction room generalizing value with
  | zero =>
    have zero : value = 0 := by omega
    rw [zero]
    rfl
  | succ room ih =>
    rw [digitsBackward]
    split
    · have digit : ∀ d < 10, decimalValue (UInt8.ofNat (48 + d)) = d := by decide
      have less : value / 10 < 10 ^ room := by
        rw [Nat.pow_succ] at fits
        omega
      rw [List.foldr_cons, ih less, digit _ (Nat.mod_lt _ (by decide))]
      omega
    · rw [List.foldr_nil]
      omega

section
variable {digits tail : List UInt8}

theorem takeWhile_digits (decimals : ∀ c ∈ digits, isDecimal c = true) (stop : ∀ c ∈ tail.head?, isDecimal c = false) :
    (digits ++ tail).takeWhile isDecimal = digits := by
  rw [List.takeWhile_append_of_pos decimals]
  cases tail with
  | nil => exact List.append_nil _
  | cons c tail => rw [List.takeWhile_cons_of_neg (by rw [stop c rfl]; exact Bool.false_ne_true), List.append_nil]

theorem dropWhile_digits (decimals : ∀ c ∈ digits, isDecimal c = true) (stop : ∀ c ∈ tail.head?, isDecimal c = false) :
    (digits ++ tail).dropWhile isDecimal = tail := by
  rw [List.dropWhile_append_of_pos decimals]
  cases tail with
  | nil => rfl
  | cons c tail => exact List.dropWhile_cons_of_neg (by rw [stop c rfl]; exact Bool.false_ne_true)

end

theorem hAtoi_digitsOf (value : Nat) (fits : value < 2 ^ 31) {tail : List UInt8}
    (stop : ∀ c ∈ tail.head?, isDecimal c = false) : hAtoi (digitsOf value ++ tail) = value := by
  have read : readNumber decimalValue 10 0 (digitsOf value) = value := by
    rw [readNumber, digitsOf, List.foldl_reverse]
    exact digitsBackward_value (by omega)
  have wrapped := readInt_eq decimalValue 10 0 (digitsOf value)
  rw [read, wrapInt_of_fits (x := 0) (by decide) (by decide), wrapInt_of_fits (by omega) (by omega)] at wrapped
  rw [hAtoi, takeWhile_digits (digitsOf_decimal value) stop, wrapped]

structure WellFormed (u : HttpUrl) : Prop where
  host_some : u.host ≠ []
  host_short : u.host.length ≤ httpHostMax - 1
  host_plain : ∀ c ∈ u.host, c ≠ 47 ∧ c ≠ 58
  port_low : 0 < u.port
  port_high : u.port ≤ 65535
  path_slash : u.path.head? = some 47
  path_short : u.path.length ≤ httpPathMax - 1

def EndsHost (p : List UInt8) : Prop := p = [] ∨ p.head? = some 47 ∨ p.head? = some 58

theorem hostLoop_short (room : Nat) (p : List UInt8) : (hostLoop room p).1.length ≤ room := by
  induction room, p using hostLoop.induct with
  | case1 p => exact Nat.le_refl 0
  | case2 room => exact Nat.zero_le _
  | case3 room c p stop =>
    rw [hostLoop, if_pos stop]
    exact Nat.zero_le _
  | case4 room c p go _ _ _ ih =>
    rw [hostLoop, if_neg go]
    exact Nat.succ_le_succ ih

theorem hostLoop_plain (room : Nat) (p : List UInt8) : ∀ c ∈ (hostLoop room p).1, c ≠ 47 ∧ c ≠ 58 := by
  induction room, p using hostLoop.induct with
  | case1 p => exact fun _ member => absurd member List.not_mem_nil
  | case2 room => exact fun _ member => absurd member List.not_mem_nil
  | case3 room c p stop =>
    rw [hostLoop, if_pos stop]
    exact fun _ member => absurd member List.not_mem_nil
  | case4 room c p go _ _ _ ih =>
    rw [hostLoop, if_neg go]
    intro d member
    rcases List.mem_cons.mp member with rfl | later
    · exact not_or.mp go
    · exact ih d later

theorem hostLoop_append {host : List UInt8} (tail : List UInt8) {room : Nat} (short : host.length ≤ room)
    (plain : ∀ c ∈ host, c ≠ 47 ∧ c ≠ 58) (ends : EndsHost tail) : hostLoop room (host ++ tail) = (host, tail) := by
  induction host generalizing room with
  | nil =>
    rw [List.nil_append]
    rcases ends with rfl | slash | colon
    · cases room <;> rfl
    all_goals
      cases room with
      | zero => rfl
      | succ room =>
        cases tail with
        | nil => rfl
        | cons c tail =>
          rw [hostLoop, if_pos]
          simp_all
  | cons c host ih =>
    cases room with
    | zero => exact absurd short (Nat.not_succ_le_zero _)
    | succ room =>
      have here := plain c (List.mem_cons_self ..)
      have rest := ih (Nat.le_of_succ_le_succ short) fun d member => plain d (List.mem_cons_of_mem _ member)
      rw [List.cons_append, hostLoop, if_neg (not_or.mpr here), rest]

theorem parsePort_range {isTls : Bool} {p rest : List UInt8} {port : Nat} (parsed : parsePort isTls p = .ok (port, rest)) :
    0 < port ∧ port ≤ 65535 := by
  unfold parsePort at parsed
  split at parsed
  · simp only at parsed
    split at parsed
    · cases parsed
    · have same := congrArg Prod.fst (Except.ok.inj parsed)
      simp only at same
      omega
  · have same : defaultPort isTls = port := congrArg Prod.fst (Except.ok.inj parsed)
    rw [← same, defaultPort]
    split <;> decide

theorem parsePath_form {p path : List UInt8} (parsed : parsePath p = .ok path) :
    path.head? = some 47 ∧ path.length ≤ httpPathMax - 1 := by
  unfold parsePath at parsed
  split at parsed
  · rename_i slash
    split at parsed
    · cases parsed
    · rw [← Except.ok.inj parsed]
      refine ⟨?_, List.length_take_le _ _⟩
      rw [List.head?_take]
      exact slash
  · rw [← Except.ok.inj parsed]
    exact ⟨rfl, by decide⟩

theorem parsePath_same {path : List UInt8} (slash : path.head? = some 47) :
    parsePath path = if path.length ≤ httpPathMax - 1 then .ok path else .error httpErrBadUrl := by
  rw [parsePath, if_pos slash]
  split
  · rename_i long
    rw [if_neg]
    exact fun short => long (List.drop_eq_nil_iff.mpr short)
  · rename_i short
    have short := List.drop_eq_nil_iff.mp (not_not.mp short)
    rw [if_pos short, List.take_of_length_le short]

def portText (u : HttpUrl) : List UInt8 := if u.port ≠ defaultPort u.isTls then text ":" ++ digitsOf u.port else []

def site (u : HttpUrl) : List UInt8 := schemeText u.isTls ++ u.host ++ portText u

theorem printSite_ok {u : HttpUrl} (positive : 0 < u.port) {out : List UInt8} (printed : printSite u = .ok out) :
    out = site u := by
  obtain ⟨scheme, first, printed⟩ := bind_returns printed
  obtain ⟨host, second, printed⟩ := bind_returns printed
  obtain ⟨rfl, -⟩ := cat_ok first
  obtain ⟨rfl, -⟩ := cat_ok second
  rw [site, portText]
  split at printed
  · rename_i other
    obtain ⟨colon, third, printed⟩ := bind_returns printed
    obtain ⟨rfl, -⟩ := cat_ok third
    simp only at printed
    split at printed
    · rename_i done
      rw [← Except.ok.inj printed, hAppendIntLimit_done positive done, if_pos other]
      simp only [List.nil_append, List.append_assoc]
    · cases printed
  · rename_i same
    rw [← Except.ok.inj printed, if_neg same, List.nil_append, List.append_nil]

theorem printSite_fits {u : HttpUrl} (positive : 0 < u.port) (fits : (site u).length < httpUrlMax) :
    printSite u = .ok (site u) := by
  rw [site, List.length_append] at fits
  have scheme : cat [] (schemeText u.isTls) = .ok (schemeText u.isTls) := by
    apply cat_fits
    rw [List.nil_append]
    rw [List.length_append] at fits
    omega
  have host : cat (schemeText u.isTls) u.host = .ok (schemeText u.isTls ++ u.host) := cat_fits (by omega)
  rw [printSite, scheme]
  show (cat (schemeText u.isTls) u.host >>= _) = _
  rw [host, site]
  unfold portText at fits ⊢
  split at fits
  · rename_i other
    rw [← List.length_append, ← List.append_assoc] at fits
    have colon : cat (schemeText u.isTls ++ u.host) (text ":") = .ok (schemeText u.isTls ++ u.host ++ text ":") := by
      apply cat_fits
      rw [List.length_append] at fits
      omega
    have number := hAppendIntLimit_fits positive fits
    show (if _ then _ else _) = _
    rw [if_pos other, if_pos other, colon]
    show (if (hAppendIntLimit _ _ _).2 then Except.ok (hAppendIntLimit _ _ _).1 else .error httpErrBadUrl) = _
    rw [number]
    simp only [if_true, List.append_assoc]
  · rename_i same
    show (if _ then _ else _) = _
    rw [if_neg same, if_neg same, List.append_nil]

theorem splitScheme_schemeText (isTls : Bool) (rest : List UInt8) : splitScheme (schemeText isTls ++ rest) = (isTls, rest) := by
  cases isTls <;> rfl

theorem portText_ends (u : HttpUrl) {path : List UInt8} (slash : path.head? = some 47) : EndsHost (portText u ++ path) := by
  rw [portText]
  split
  · exact .inr (.inr rfl)
  · exact .inr (.inl slash)

theorem parsePort_portText {u : HttpUrl} (low : 0 < u.port) (high : u.port ≤ 65535) {path : List UInt8}
    (slash : path.head? = some 47) : parsePort u.isTls (portText u ++ path) = .ok (u.port, path) := by
  have stop : ∀ c ∈ path.head?, isDecimal c = false := by
    intro c head
    rw [slash] at head
    rw [← Option.some.inj head]
    rfl
  rw [portText]
  split
  · have value := hAtoi_digitsOf u.port (by omega) stop
    have colon : (text ":" ++ digitsOf u.port ++ path).head? = some 58 := rfl
    have behind : (text ":" ++ digitsOf u.port ++ path).tail = digitsOf u.port ++ path := rfl
    have valid : ¬ ((u.port : Int) ≤ 0 ∨ (u.port : Int) > 65535) := by omega
    simp only [parsePort, if_pos colon, behind, value, if_neg valid, dropWhile_digits (digitsOf_decimal u.port) stop, Int.toNat_natCast]
  · rename_i same
    have other : ¬ ([] ++ path).head? = some 58 := by
      rw [List.nil_append, slash]
      decide
    rw [parsePort, if_neg other, ← not_not.mp same]
    rfl

theorem hParseUrl_site {u : HttpUrl} (good : WellFormed u) {path : List UInt8} (slash : path.head? = some 47) :
    hParseUrl (site u ++ path) false =
      if path.length ≤ httpPathMax - 1 then .ok ({ u with path := path }, []) else .error httpErrBadUrl := by
  have scheme : splitScheme (site u ++ path) = (u.isTls, u.host ++ (portText u ++ path)) := by
    rw [site, List.append_assoc, List.append_assoc]
    exact splitScheme_schemeText u.isTls _
  have ends := portText_ends u slash
  have host := hostLoop_append _ good.host_short good.host_plain ends
  have some_ : ¬ u.host ++ (portText u ++ path) = [] := fun none_ => good.host_some (List.append_eq_nil_iff.mp none_).1
  have stops : ¬ (u.host = [] ∨ (portText u ++ path ≠ [] ∧ (portText u ++ path).head? ≠ some 47 ∧
      (portText u ++ path).head? ≠ some 58)) := by
    rintro (none_ | ⟨rest, other, colon⟩)
    · exact good.host_some none_
    · rcases ends with none_ | slash | colon'
      · exact rest none_
      · exact other slash
      · exact colon colon'
  simp only [hParseUrl, scheme, some_, if_false, host, stops]
  rw [parsePort_portText good.port_low good.port_high slash]
  show (parsePath path >>= _) = _
  rw [parsePath_same slash]
  split
  · rfl
  · rfl

theorem hParseUrl_wanted (url : List UInt8) :
    hParseUrl url true = (do
      let (u, _) ← hParseUrl url false
      let out ← printSite u
      let out ← cat out u.path
      .ok (u, out)) := by
  unfold hParseUrl
  rcases scheme : splitScheme url with ⟨isTls, p⟩
  rcases loop : hostLoop (httpHostMax - 1) p with ⟨host, p'⟩
  simp only [loop]
  split
  · rfl
  · split
    · rfl
    · cases parsePort isTls p' with
      | error fault => rfl
      | ok port =>
        rcases port with ⟨port, rest⟩
        show (parsePath rest >>= _) = (parsePath rest >>= _) >>= _
        cases parsePath rest <;> rfl

theorem hParseUrl_parts {url : List UInt8} {wanted : Bool} {u : HttpUrl} {norm : List UInt8}
    (parsed : hParseUrl url wanted = .ok (u, norm)) : ∃ out, hParseUrl url false = .ok (u, out) := by
  cases wanted with
  | false => exact ⟨norm, parsed⟩
  | true =>
    rw [hParseUrl_wanted] at parsed
    obtain ⟨⟨u', out⟩, first, parsed⟩ := bind_returns parsed
    obtain ⟨_, _, parsed⟩ := bind_returns parsed
    obtain ⟨_, _, parsed⟩ := bind_returns parsed
    have same : u' = u := congrArg Prod.fst (Except.ok.inj parsed)
    rw [← same]
    exact ⟨out, first⟩

theorem hParseUrl_wellFormed {url : List UInt8} {u : HttpUrl} {out : List UInt8} (parsed : hParseUrl url false = .ok (u, out)) :
    WellFormed u := by
  unfold hParseUrl at parsed
  rcases scheme : splitScheme url with ⟨isTls, p⟩
  have short := hostLoop_short (httpHostMax - 1) p
  have plain := hostLoop_plain (httpHostMax - 1) p
  rcases loop : hostLoop (httpHostMax - 1) p with ⟨host, p'⟩
  rw [loop] at short plain
  simp only [scheme, loop] at parsed
  split at parsed
  · cases parsed
  · split at parsed
    · cases parsed
    · rename_i stops
      obtain ⟨⟨port, rest⟩, portParsed, parsed⟩ := bind_returns parsed
      obtain ⟨path, pathParsed, parsed⟩ := bind_returns parsed
      have same := congrArg Prod.fst (Except.ok.inj parsed)
      simp only at same
      obtain ⟨low, high⟩ := parsePort_range portParsed
      obtain ⟨slash, fits⟩ := parsePath_form pathParsed
      rw [← same]
      exact ⟨fun none_ => stops (.inl none_), short, plain, low, high, slash, fits⟩

theorem hParseUrl_normalized {url : List UInt8} {u : HttpUrl} {norm : List UInt8} (parsed : hParseUrl url true = .ok (u, norm)) :
    WellFormed u ∧ norm = site u ++ u.path ∧ norm.length < httpUrlMax := by
  rw [hParseUrl_wanted] at parsed
  obtain ⟨⟨u', out⟩, first, parsed⟩ := bind_returns parsed
  obtain ⟨out, printed, parsed⟩ := bind_returns parsed
  obtain ⟨out', appended, parsed⟩ := bind_returns parsed
  have good := hParseUrl_wellFormed first
  have same := Except.ok.inj parsed
  rw [Prod.mk.injEq] at same
  obtain ⟨rfl, rfl⟩ := same
  have whole := printSite_ok good.port_low printed
  have fits := cat_ok appended
  rw [whole] at fits
  exact ⟨good, fits⟩

theorem hParseUrl_again {u : HttpUrl} (good : WellFormed u) (fits : (site u ++ u.path).length < httpUrlMax) :
    hParseUrl (site u ++ u.path) true = .ok (u, site u ++ u.path) := by
  have short : (site u).length < httpUrlMax := by
    rw [List.length_append] at fits
    omega
  rw [hParseUrl_wanted, hParseUrl_site good good.path_slash, if_pos good.path_short]
  show (printSite u >>= _) = _
  rw [printSite_fits good.port_low short]
  show (cat (site u) u.path >>= _) = _
  rw [cat_fits fits]
  rfl

theorem hMakeAbsoluteUrl_slash {baseUrl location target out : List UInt8} {base : HttpUrl}
    (parsed : hParseUrl baseUrl false = .ok (base, out)) (slash : location.head? = some 47)
    (made : hMakeAbsoluteUrl baseUrl location = .ok target) : target = site base ++ location := by
  have relative : ¬ (hStrncmp location (text "http://") 7 = 0 ∨ hStrncmp location (text "https://") 8 = 0) := by
    cases location with
    | nil => cases slash
    | cons c location =>
      rw [Option.some.inj slash]
      rintro (same | same) <;> cases same
  rw [hMakeAbsoluteUrl, if_neg relative] at made
  obtain ⟨parts, same, made⟩ := bind_returns made
  rw [parsed] at same
  rw [← Except.ok.inj same] at made
  obtain ⟨printed, first, made⟩ := bind_returns made
  rw [if_pos slash] at made
  rw [(cat_ok made).1, printSite_ok (hParseUrl_wellFormed parsed).port_low first]

theorem urls_normalize :
    (∀ url u norm, hParseUrl url true = .ok (u, norm) → hParseUrl norm true = .ok (u, norm)) ∧
      ∀ baseUrl base norm location target u norm' wanted wanted', hParseUrl baseUrl wanted = .ok (base, norm) →
        location.head? = some 47 → hMakeAbsoluteUrl baseUrl location = .ok target →
        hParseUrl target wanted' = .ok (u, norm') → u = { base with path := location } := by
  refine ⟨?_, ?_⟩
  · intro url u norm parsed
    obtain ⟨good, rfl, fits⟩ := hParseUrl_normalized parsed
    exact hParseUrl_again good fits
  · intro baseUrl base norm location target u norm' wanted wanted' parsed slash made accepted
    obtain ⟨_, parsed⟩ := hParseUrl_parts parsed
    obtain ⟨_, accepted⟩ := hParseUrl_parts accepted
    rw [hMakeAbsoluteUrl_slash parsed slash made, hParseUrl_site (hParseUrl_wellFormed parsed) slash] at accepted
    split at accepted
    · exact (congrArg Prod.fst (Except.ok.inj accepted)).symm
    · cases accepted

/-- The default port is left out, and what stands behind the port is dropped. -/
theorem urls_normalize_port :
    hParseUrl (text "http://h/") true = .ok (⟨text "h", text "/", 80, false⟩, text "http://h/") ∧
      (⟨text "h", text "/x", 8080, true⟩ : HttpUrl) = { (⟨text "h", text "/", 8080, true⟩ : HttpUrl) with path := text "/x" } :=
  ⟨urls_normalize.1 (text "h:80x/y") ⟨text "h", text "/", 80, false⟩ (text "http://h/") (by decide),
    urls_normalize.2 (text "https://h:8080") ⟨text "h", text "/", 8080, true⟩ [] (text "/x") (text "https://h:8080/x")
      ⟨text "h", text "/x", 8080, true⟩ (text "https://h:8080/x") false true (by decide) (by decide) (by decide) (by decide)⟩

end RexOs.User.Http
