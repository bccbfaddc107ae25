import RexOs.Desktop.EntityRight
import RexOs.Desktop.Html

/-! `parse_html` on every page.

Every step of the loop leaves the buffers in order (`Page.Sound`), goes on behind where it was,
and reads nothing behind the NUL of the page.
-/

set_option autoImplicit false

namespace RexOs.Desktop.Browser

open RexOs.Library

section
variable {read read' : Reader} {max : Int}

theorem ciEq_congr (name : List UInt8) (i : Nat) (alike : ∀ k, k < i + name.length → read k = read' k) : ciEq read i name = ciEq read' i name := by
  induction name generalizing i with
  | nil => rfl
  | cons c name ih =>
    rw [List.length_cons] at alike
    rw [ciEq, ciEq, alike i (by omega), ih (i + 1) fun k small => alike k (by omega)]

theorem matchNamed_congr (names : List Named) (bounds : ∀ e ∈ names, (e.name.length : Int) ≤ e.bound)
    (alike : ∀ k : Nat, (k : Int) ≤ max → read k = read' k) : matchNamed read max names = matchNamed read' max names := by
  induction names with
  | nil => rfl
  | cons e names ih =>
    rw [List.forall_mem_cons] at bounds
    rw [matchNamed, matchNamed, ih bounds.2]
    by_cases small : e.bound ≤ max
    · rw [if_pos small, if_pos small, ciEq_congr e.name 0 fun k before => alike k (by omega)]
    · rw [if_neg small, if_neg small]

theorem numberLoop_congr (hex : Bool) (alike : ∀ k : Nat, (k : Int) ≤ max → read k = read' k) (fuel i : Nat) (code : Int) (count : Nat) :
    numberLoop read hex max fuel i code count = numberLoop read' hex max fuel i code count := by
  induction fuel generalizing i code count with
  | zero => rfl
  | succ fuel ih =>
    rw [numberLoop, numberLoop]
    by_cases inside : (i : Int) < max
    · simp only [if_pos inside, alike i (Int.le_of_lt inside), ih]
    · rw [if_neg inside, if_neg inside]

theorem decodeNumeric_congr (alike : ∀ k : Nat, (k : Int) ≤ max → read k = read' k) : decodeNumeric read max = decodeNumeric read' max := by
  have mark : hexMark read max = hexMark read' max := by
    rw [hexMark, hexMark]
    by_cases inside : 2 < max
    · rw [if_pos inside, if_pos inside, alike 2 (Int.le_of_lt inside)]
    · rw [if_neg inside, if_neg inside]
  rw [decodeNumeric, decodeNumeric, mark]
  refine congrArg _ (funext fun hex => ?_)
  rw [numberLoop_congr hex alike]
  refine congrArg _ (funext fun r => ?_)
  obtain ⟨i, code, digits⟩ := r
  by_cases found : 0 < digits ∧ (i : Int) < max
  · simp only [if_pos found, alike i (Int.le_of_lt found.2)]
  · simp only [if_neg found]

theorem decodeEntity_congr (some_ : 1 ≤ max) (alike : ∀ k : Nat, (k : Int) ≤ max → read k = read' k) :
    decodeEntity read max = decodeEntity read' max := by
  have named : matchNamed read max namedEntities = matchNamed read' max namedEntities := by
    refine matchNamed_congr namedEntities (fun e member => ?_) alike
    obtain ⟨consumed, -, bound, -⟩ := namedEntities_row e member
    rw [← consumed]
    exact bound
  rw [decodeEntity, decodeEntity, alike 0 (by omega), alike 1 some_, named, decodeNumeric_congr alike]

theorem utf8Encode_length (cp : Int) : (utf8Encode cp).length ≤ entityMax := by
  unfold utf8Encode
  dsimp only
  split_ifs <;> simp [entityMax]

theorem decodeEntity_within (s : Mem) (max : Int) (some_ : 0 ≤ max) :
    Safe (decodeEntity (memory s) max) fun r => (r.1 : Int) ≤ max ∧ r.2.length ≤ entityMax := by
  rcases decodeEntity_cases s max with ⟨e, member, -, small, decoded⟩ | ⟨hex, digits, -, small, decoded⟩ | decoded
  · obtain ⟨-, -, bound, -⟩ := namedEntities_row e member
    exact ⟨_, decoded, Int.le_trans bound small, utf8Encode_length e.cp⟩
  · refine ⟨_, decoded, ?_⟩
    dsimp only
    exact ⟨small, utf8Encode_length _⟩
  · exact ⟨_, decoded, some_, Nat.zero_le _⟩

end

section
variable {html : Reader} {len i : Nat}

def Readable (html : Reader) (len : Nat) : Prop := ∀ k, k ≤ len → ∃ c, html k = .ok c

theorem Readable.read (readable : Readable html len) {k : Nat} (le : k ≤ len) : Safe (html k) fun _ => True := by
  obtain ⟨c, read⟩ := readable k le
  exact ⟨c, read, trivial⟩

theorem pageReader_readable (html : List UInt8) : Readable (pageReader html) html.length := by
  intro k le
  have inside : k < (html ++ [0]).length := by
    rw [List.length_append, List.length_singleton]
    omega
  exact ⟨_, readByte_ok inside⟩

theorem skipUntil_safe (readable : Readable html len) (ends : UInt8 → Bool) (fuel j : Nat) (le : j ≤ len) (enough : len - j < fuel) :
    Safe (skipUntil ends html len fuel j) fun stop => j ≤ stop ∧ stop ≤ len := by
  induction fuel generalizing j with
  | zero => omega
  | succ fuel ih =>
    rw [skipUntil]
    refine Safe.ite (fun inside => (readable.read le).bind fun c _ => ?_) fun _ => Safe.ok ⟨Nat.le_refl j, le⟩
    refine Safe.ite (fun _ => Safe.ok ⟨Nat.le_refl j, le⟩) fun _ => ?_
    exact (ih (j + 1) inside (by omega)).mono fun stop between => ⟨by omega, between.2⟩

theorem isClosing_safe (readable : Readable html len) (j : Nat) : Safe (isClosing html len j) fun closing => closing = true → j < len :=
  Safe.ite (fun inside => (readable.read (Nat.le_of_lt inside)).bind fun _ _ => Safe.ok fun _ => inside) fun _ => Safe.ok fun no => by cases no

theorem parseTag_safe (readable : Readable html len) (inside : i < len) :
    Safe (parseTag html len i) fun r => r.1.start + r.1.length ≤ len ∧ i < r.2 ∧ r.2 ≤ len := by
  refine (isClosing_safe readable (i + 1)).bind fun closing more => ?_
  have start : i + 1 ≤ (if closing then i + 2 else i + 1) ∧ (if closing then i + 2 else i + 1) ≤ len := by
    cases closing with
    | true => exact ⟨Nat.le_succ _, more rfl⟩
    | false => exact ⟨Nat.le_refl _, inside⟩
  refine (skipUntil_safe readable endsName (len + 1) _ start.2 (by omega)).bind fun stop name => ?_
  refine (skipUntil_safe readable endsTag (len + 1) stop name.2 (by omega)).bind fun tagEnd rest => Safe.ok ?_
  dsimp only
  by_cases more : tagEnd < len
  · rw [if_pos more]
    omega
  · rw [if_neg more]
    omega

theorem ciEq_safe (readable : Readable html len) (name : List UInt8) (start : Nat) (fits : start + name.length ≤ len) :
    Safe (ciEq html start name) fun _ => True := by
  induction name generalizing start with
  | nil => exact Safe.ok trivial
  | cons c name ih =>
    rw [List.length_cons] at fits
    refine (readable.read (by omega)).bind fun ca _ => ?_
    exact Safe.ite (fun _ => Safe.ok trivial) fun _ => ih (start + 1) (by omega)

theorem ciEqAny_safe (readable : Readable html len) (start : Nat) (names : List (List UInt8)) (fits : ∀ name ∈ names, start + name.length ≤ len) :
    Safe (ciEqAny html start names) fun _ => True := by
  induction names with
  | nil => exact Safe.ok trivial
  | cons name names ih =>
    rw [List.forall_mem_cons] at fits
    refine (ciEq_safe readable name start fits.1).bind fun same _ => ?_
    exact Safe.ite (fun _ => Safe.ok trivial) fun _ => ih fits.2

theorem tagRules_length : ∀ rule ∈ tagRules, ∀ name ∈ rule.names, name.length ≤ rule.length := by decide +kernel

theorem matchTag_safe (readable : Readable html len) {tag : Tag} (fits : tag.start + tag.length ≤ len) (rules : List TagRule)
    (lengths : ∀ rule ∈ rules, ∀ name ∈ rule.names, name.length ≤ rule.length) : Safe (matchTag html tag rules) fun _ => True := by
  induction rules with
  | nil => exact Safe.ok trivial
  | cons rule rules ih =>
    rw [List.forall_mem_cons] at lengths
    rw [matchTag]
    refine Safe.ite (fun applies => ?_) fun _ => ih lengths.2
    refine (ciEqAny_safe readable tag.start rule.names fun name member => ?_).bind fun same _ => ?_
    · have := lengths.1 name member
      have := applies.2
      omega
    · exact Safe.ite (fun _ => Safe.ok trivial) fun _ => ih lengths.2

theorem tagAction_safe (readable : Readable html len) {tag : Tag} (fits : tag.start + tag.length ≤ len) :
    Safe (tagAction html tag) fun action => action ≠ none → tag.start < len := by
  refine Safe.ite (fun some_ => ?_) fun _ => Safe.ok fun other => absurd rfl other
  have named : tag.start < len := by omega
  refine (matchTag_safe readable fits tagRules tagRules_length).bind fun action _ => ?_
  cases action with
  | some action => exact Safe.ok fun _ => named
  | none =>
    refine Safe.ite (fun _ => ?_) fun _ => Safe.ok fun _ => named
    exact (readable.read (Nat.le_of_lt named)).bind fun c _ => Safe.ok fun _ => named

end

structure Page.Sound (titleMax : Nat) (page : Page) : Prop where
  table : page.table.Sound
  buf : page.buf.length = blockTextMax
  bi : page.bi < blockTextMax
  title : page.title.length = titleMax
  zero : 0 ∈ page.title

section
variable {titleMax : Nat} {page : Page}

theorem pushText_safe (sound : page.Sound titleMax) : Safe (pushText page) (Page.Sound titleMax) := by
  have room : page.bi < page.buf.length := by
    rw [sound.buf]
    exact sound.bi
  obtain ⟨s, text⟩ := exists_text (List.mem_set room 0)
  rw [pushText, writeByte_ok room]
  refine (cleanText_text text).bind fun buf cleaned_ => ?_
  have size : buf.length = blockTextMax := by rw [cleaned_.1, List.length_set, sound.buf]
  have read : Safe (readByte Fault.read buf 0) fun _ => True := ⟨_, cleaned_.2.read Fault.read (Nat.zero_le _), trivial⟩
  refine read.bind fun c _ => Safe.ite (fun _ => ?_) fun _ => Safe.ok ⟨sound.table, size, sound.bi, sound.title, sound.zero⟩
  have small := cleaned_.2.length_lt
  refine (blocksPush_sound sound.table page.currentKind cleaned_.2 (cleaned_tidy s) (by omega)).bind fun table pushed => ?_
  exact Safe.ok ⟨pushed, size, sound.bi, sound.title, sound.zero⟩

theorem pushEmpty_safe (sound : page.Sound titleMax) (kind : Int) : Safe (pushEmpty page kind) (Page.Sound titleMax) := by
  have text : Text emptyText [] := ⟨List.forall_mem_nil _, [], rfl⟩
  refine (blocksPush_sound sound.table kind text Tidy.nil (by decide)).bind fun table pushed => ?_
  exact Safe.ok ⟨pushed, sound.buf, sound.bi, sound.title, sound.zero⟩

theorem Page.Sound.restart (sound : page.Sound titleMax) : Page.Sound titleMax { page with bi := 0 } :=
  ⟨sound.table, sound.buf, Nat.zero_lt_of_lt sound.bi, sound.title, sound.zero⟩

theorem flushText_safe (sound : page.Sound titleMax) : Safe (flushText page) (Page.Sound titleMax) :=
  Safe.ite (fun _ => (pushText_safe sound).bind fun _ pushed => Safe.ok pushed.restart) fun _ => Safe.ok sound.restart

theorem applyAction_safe {html : Reader} {len : Nat} (readable : Readable html len) {tag : Tag} (named : tag.start < len)
    (sound : page.Sound titleMax) (action : Action) : Safe (applyAction html tag page action) (Page.Sound titleMax) := by
  have whole := sound
  obtain ⟨table, buf, bi, title, zero⟩ := sound
  cases action with
  | script _ | style _ | title _ | kind _ | pre | endPre => exact Safe.ok ⟨table, buf, bi, title, zero⟩
  | heading => exact (readable.read named).bind fun c _ => Safe.ok ⟨table, buf, bi, title, zero⟩
  | lineBreak =>
    refine Safe.ite (fun _ => ?_) fun _ => pushEmpty_safe whole 0
    exact (pushText_safe whole).bind fun page' pushed => pushEmpty_safe pushed.restart 0
  | ruler => exact pushEmpty_safe whole 5

theorem textEnd_eq {t : List UInt8} (s rest : List UInt8) (fuel tl : Nat) (nonzero : ∀ c ∈ s, c ≠ 0) (here : t.drop tl = s ++ 0 :: rest)
    (enough : s.length < fuel) : textEnd t fuel tl = .ok (tl + s.length) := by
  induction s generalizing fuel tl with
  | nil =>
    obtain ⟨fuel, rfl⟩ := Nat.exists_eq_add_of_lt enough
    rw [List.length_nil, Nat.zero_add, textEnd, readByte_drop here]
    rfl
  | cons c s ih =>
    obtain ⟨fuel, rfl⟩ := Nat.exists_eq_succ_of_ne_zero (Nat.ne_of_gt (Nat.zero_lt_of_lt enough))
    rw [List.forall_mem_cons] at nonzero
    rw [List.cons_append] at here
    rw [textEnd, readByte_drop here]
    show (if c ≠ 0 then _ else _) = _
    rw [if_pos nonzero.1, ih fuel (tl + 1) nonzero.2 (drop_next here).2 (Nat.lt_of_succ_lt_succ enough), List.length_cons, Nat.add_assoc,
      Nat.add_comm 1]

theorem textEnd_safe {t : List UInt8} (zero : 0 ∈ t) : Safe (textEnd t (t.length + 1) 0) fun tl => tl < t.length := by
  obtain ⟨s, text⟩ := exists_text zero
  obtain ⟨rest, whole⟩ := text.stored
  have room := text.length_lt
  refine ⟨0 + s.length, textEnd_eq s rest (t.length + 1) 0 text.nonzero whole (by omega), ?_⟩
  rw [Nat.zero_add]
  exact room

theorem putBytes_safe (limit : Nat) (eb out : List UInt8) (pos : Nat) (before : pos ≤ limit) (room : limit < out.length) :
    Safe (putBytes limit eb out pos) fun r => r.1.length = out.length ∧ r.2 ≤ limit := by
  induction eb generalizing out pos with
  | nil => exact Safe.ok ⟨rfl, before⟩
  | cons c eb ih =>
    rw [putBytes]
    refine Safe.ite (fun more => ?_) fun _ => Safe.ok ⟨rfl, before⟩
    rw [writeByte_ok (by omega)]
    have rest := ih (out.set pos c) (pos + 1) more (by rw [List.length_set]; exact room)
    rw [List.length_set] at rest
    exact rest

theorem putEntity_safe (sound : page.Sound titleMax) (eb : List UInt8) : Safe (putEntity titleMax page eb) (Page.Sound titleMax) := by
  obtain ⟨table, buf, bi, title, zero⟩ := sound
  refine Safe.ite (fun _ => ?_) fun _ => Safe.ite (fun _ => ?_) fun _ => Safe.ok ⟨table, buf, bi, title, zero⟩
  · refine (textEnd_safe zero).bind fun tl inside => ?_
    refine (putBytes_safe (titleMax - 1) eb page.title tl (by omega) (by omega)).bind fun r after => ?_
    have room : r.2 < r.1.length := by omega
    show Safe (writeByte Fault.write r.1 r.2 0 >>= _) _
    rw [writeByte_ok room]
    exact Safe.ok ⟨table, buf, bi, by rw [List.length_set, after.1, title], List.mem_set room 0⟩
  · refine (putBytes_safe (blockTextMax - 1) eb page.buf page.bi (by omega) (by omega)).bind fun r after => ?_
    exact Safe.ok ⟨table, after.1.trans buf, Nat.lt_of_le_of_lt after.2 (by decide), title, zero⟩

theorem putChar_safe (sound : page.Sound titleMax) (c : UInt8) : Safe (putChar titleMax page c) (Page.Sound titleMax) := by
  have same := sound
  obtain ⟨table, buf, bi, title, zero⟩ := sound
  refine Safe.ite (fun _ => ?_) fun _ => Safe.ite (fun _ => ?_) fun _ => Safe.ok same
  · refine (textEnd_safe zero).bind fun tl inside => Safe.ite (fun small => ?_) fun _ => Safe.ok same
    have room : tl + 1 < (page.title.set tl c).length := by
      rw [List.length_set]
      omega
    rw [writeByte_ok inside]
    show Safe (writeByte Fault.write (page.title.set tl c) (tl + 1) 0 >>= _) _
    rw [writeByte_ok room]
    exact Safe.ok ⟨table, buf, bi, by rw [List.length_set, List.length_set, title], List.mem_set room 0⟩
  · refine Safe.ite (fun small => ?_) fun _ => Safe.ok same
    rw [writeByte_ok (by omega)]
    exact Safe.ok ⟨table, by rw [List.length_set, buf], Nat.add_lt_of_lt_sub small, title, zero⟩

end

section
variable {html : Reader} {len titleMax i : Nat} {page : Page}

theorem entityAt_safe (readable : Readable html len) (inside : i < len) : Safe (entityAt html len i) fun r => i + r.1 ≤ len := by
  choose bytes read using readable
  have alike (k : Nat) (le : (k : Int) ≤ (len : Int) - i) :
      html (i + k) = memory (fun k => if le : i + k ≤ len then bytes (i + k) le else 0) k := by
    have le' : i + k ≤ len := by omega
    rw [read (i + k) le', memory, dif_pos le']
  have decoded := decodeEntity_within (fun k => if le : i + k ≤ len then bytes (i + k) le else 0) ((len : Int) - i) (by omega)
  rw [← decodeEntity_congr (by omega) alike] at decoded
  refine decoded.bind fun r within => ?_
  exact Safe.pos within.2 (Safe.ok (by dsimp only; omega))

theorem tagStep_safe (readable : Readable html len) (inside : i < len) (sound : page.Sound titleMax) :
    Safe (tagStep html len page i) fun r => r.1.Sound titleMax ∧ i < r.2 ∧ r.2 ≤ len := by
  refine (flushText_safe sound).bind fun page flushed => ?_
  refine (parseTag_safe readable inside).bind fun r parsed => ?_
  refine (tagAction_safe readable parsed.1).bind fun action named => ?_
  cases action with
  | none => exact Safe.ok ⟨flushed, parsed.2⟩
  | some action =>
    refine (applyAction_safe readable (named (Option.some_ne_none action)) flushed action).bind fun page applied => ?_
    exact Safe.ok ⟨applied, parsed.2⟩

theorem textStep_safe (readable : Readable html len) (inside : i < len) (sound : page.Sound titleMax) (c : UInt8) :
    Safe (textStep html len titleMax page i c) fun r => r.1.Sound titleMax ∧ i < r.2 ∧ r.2 ≤ len := by
  have entity : Safe (nextEntity html len i c) fun r => i + r.1 ≤ len :=
    Safe.ite (fun _ => entityAt_safe readable inside) fun _ => Safe.ok (Nat.le_of_lt inside)
  refine entity.bind fun r fits => Safe.ite (fun some_ => ?_) fun _ => ?_
  · refine (putEntity_safe sound r.2).bind fun page put => Safe.ok ⟨put, ?_, fits⟩
    exact Nat.lt_add_of_pos_right some_
  · exact (putChar_safe sound c).bind fun page put => Safe.ok ⟨put, Nat.lt_succ_self i, inside⟩

theorem pageStep_safe (readable : Readable html len) (inside : i < len) (sound : page.Sound titleMax) :
    Safe (pageStep html len titleMax page i) fun r => r.1.Sound titleMax ∧ i < r.2 ∧ r.2 ≤ len := by
  refine (readable.read (Nat.le_of_lt inside)).bind fun c _ => ?_
  exact Safe.ite (fun _ => tagStep_safe readable inside sound) fun _ => textStep_safe readable inside sound c

theorem parseLoop_safe (readable : Readable html len) (fuel : Nat) (sound : page.Sound titleMax) (le : i ≤ len) (enough : len - i < fuel) :
    Safe (parseLoop html len titleMax fuel page i) (Page.Sound titleMax) := by
  induction fuel generalizing page i with
  | zero => omega
  | succ fuel ih =>
    rw [parseLoop]
    refine Safe.ite (fun inside => ?_) fun _ => Safe.ok sound
    exact (pageStep_safe readable inside sound).bind fun r after => ih after.1 after.2.2 (by omega)

end

structure Parsed (titleMax : Nat) (page : Page) : Prop where
  count : page.table.used.length ≤ blockMax
  blocks : ∀ b ∈ page.table.used, ∃ s, Text b.text s ∧ Tidy s
  title : page.title.length = titleMax ∧ ∃ s, Text page.title s ∧ Tidy s

theorem finish_safe {titleMax : Nat} {page : Page} (sound : page.Sound titleMax) :
    Safe (do
      let title ← cleanText page.title
      .ok { page with title := title } : Except Fault Page) (Parsed titleMax) := by
  obtain ⟨s, text⟩ := exists_text sound.zero
  refine (cleanText_text text).bind fun title cleaned_ => Safe.ok ⟨?_, sound.table.tidy, ?_, cleaned s, cleaned_.2, cleaned_tidy s⟩
  · exact (List.length_take_le _ _).trans sound.table.count
  · exact cleaned_.1.trans sound.title

/-- Every page is parsed, in buffers of the right sizes, whatever is in them; and a tidy text stays as it is. -/
theorem parseHtml_safe (html title : List UInt8) (titleMax : Nat) (buf : List UInt8) (table : BlockTable) (some_ : 1 ≤ titleMax)
    (size : title.length = titleMax) (bufSize : buf.length = blockTextMax) (blocks : table.blocks.length = blockMax)
    (texts : ∀ b ∈ table.blocks, b.text.length = blockTextMax) :
    Safe (parseHtml html title titleMax buf table) (Parsed titleMax) ∧ ∀ t, 0 ∈ t → Safe (cleanText t) fun t' => cleanText t' = .ok t' := by
  refine ⟨?_, fun t zero => cleanText_again zero⟩
  have room : 0 < title.length := by omega
  have start : Page.Sound titleMax ⟨blocksReset table, title.set 0 0, buf, 0, 0, false, false, false, 0⟩ :=
    ⟨blocksReset_sound blocks texts, bufSize, Nat.zero_lt_succ _, by rw [List.length_set, size], List.mem_set room 0⟩
  rw [parseHtml, writeByte_ok room]
  refine (parseLoop_safe (pageReader_readable html) (html.length + 1) start (Nat.zero_le _) (by omega)).bind fun page parsed => ?_
  refine Safe.ite (fun _ => ?_) fun _ => finish_safe parsed
  exact (pushText_safe parsed).bind fun page pushed => finish_safe pushed

/-- The text `<p` in a page of two bytes. -/
theorem parseHtml_safe_tag :
    Safe (parseHtml [60, 112] [7] 1 (List.replicate blockTextMax 7) ⟨List.replicate blockMax ⟨0, List.replicate blockTextMax 7⟩, 3⟩) (Parsed 1) ∧
      ∀ t, 0 ∈ t → Safe (cleanText t) fun t' => cleanText t' = .ok t' :=
  parseHtml_safe [60, 112] [7] 1 (List.replicate blockTextMax 7) ⟨List.replicate blockMax ⟨0, List.replicate blockTextMax 7⟩, 3⟩ (Nat.le_refl 1)
    rfl List.length_replicate List.length_replicate fun b member => by
      rw [List.eq_of_mem_replicate member]
      exact List.length_replicate

end RexOs.Desktop.Browser
