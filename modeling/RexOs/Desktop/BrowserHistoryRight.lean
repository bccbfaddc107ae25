import RexOs.Desktop.BrowserHistory

/-! The history of the browser is a bounded history with a position.

What a click or a key does to the history is one of three actions, and each of them loads the URL
at the new position.
-/

set_option autoImplicit false

namespace RexOs.Desktop.BrowserHistory

open RexOs.Library
open RexOs.Desktop.Browser (Fault)

inductive Action where
  | navigate (u : Url)
  | back
  | forward
  deriving DecidableEq, Repr

structure Turn where
  action : Action
  memory : Bool
  deriving DecidableEq, Repr

theorem brHistoryMax_neZero : @NeZero Nat Zero.ofOfNat0 brHistoryMax := ⟨by decide⟩

attribute [local instance] brHistoryMax_neZero

structure Session where
  history : History Url brHistoryMax
  loaded : List Url

namespace Session

def start : Session := ⟨History.empty Url brHistoryMax, []⟩

def load (s : Session) (memory : Bool) : Session := if memory then { s with loaded := s.loaded ++ s.history.current.toList } else s

def turn (s : Session) (t : Turn) : Session :=
  match t.action with
  | .navigate u => load { s with history := s.history.visit u } t.memory
  | .back => if 0 < s.history.pos then load { s with history := s.history.back } t.memory else s
  | .forward => if s.history.pos + 1 < s.history.entries.length then load { s with history := s.history.forward } t.memory else s

def turns (s : Session) (ts : List Turn) : Session := ts.foldl turn s

end Session

def HasScheme (u : Url) : Prop := https <+: u ∨ http <+: u

instance (u : Url) : Decidable (HasScheme u) := inferInstanceAs (Decidable (_ ∨ _))

def address (u : Url) : Url := if HasScheme u then u else (https ++ u).take (brUrlMax - 1)

def actionOf (st : BrState) : Event → Option Action
  | .click .back _ => some .back
  | .click .forward _ => some .forward
  | .click .reload _ => some (.navigate (address st.url))
  | .click .home _ => some (.navigate brHome)
  | .click _ _ => none
  | .key c _ =>
      if st.urlFocused then if c = 10 ∨ c = 13 then some (.navigate (address st.urlInput)) else none
      else if c = 114 ∨ c = 82 then some (.navigate (address st.url)) else none
  | .clamp _ => none

def Event.memory : Event → Bool
  | .click _ reply => reply.memory
  | .key _ reply => reply.memory
  | .clamp _ => true

def turnOf (st : BrState) (e : Event) : List Turn := ((actionOf st e).map fun action => ⟨action, e.memory⟩).toList

def turnsOf (b : Browsing) : List Event → Except Fault (List Turn)
  | [] => .ok []
  | e :: events => do
      let b' ← handle b e
      let later ← turnsOf b' events
      .ok (turnOf b.st e ++ later)

structure HistoryRight (ts : List Turn) (b : Browsing) : Prop where
  low : 0 ≤ b.st.histPos
  few : b.st.histCount ≤ brHistoryMax
  visited : (∃ t ∈ ts, ∃ u, t.action = .navigate u) → b.st.histPos < b.st.histCount
  entries : b.st.history.take b.st.histCount.toNat = (Session.start.turns ts).history.entries
  count : b.st.histCount = (Session.start.turns ts).history.entries.length
  pos : b.st.histPos = (Session.start.turns ts).history.pos
  loaded : b.loaded = (Session.start.turns ts).loaded

section
variable {u : Url} {st : BrState}

theorem dStrncmp_eq (p u : List UInt8) (nonzero : ∀ c ∈ p, c ≠ 0) : dStrncmp u p p.length = 0 ↔ p <+: u := by
  have differ : ∀ x y : UInt8, x ≠ y → ((x.toNat : Int) - y.toNat) ≠ 0 := by
    intro x y other same
    exact other (UInt8.toNat_inj.mp (by omega))
  induction p generalizing u with
  | nil => exact iff_of_true rfl List.nil_prefix
  | cons c p ih =>
    rw [List.forall_mem_cons] at nonzero
    cases u with
    | nil =>
      have ends : dStrncmp [] (c :: p) (p.length + 1) = ((0 : UInt8).toNat : Int) - c.toNat := if_pos nonzero.1.symm
      rw [List.length_cons, ends]
      exact iff_of_false (differ 0 c nonzero.1.symm) (by simp)
    | cons x u =>
      rw [List.cons_prefix_cons, List.length_cons]
      by_cases same : x = c
      · subst same
        have next : dStrncmp (x :: u) (x :: p) (p.length + 1) = dStrncmp u p p.length := by
          simp [dStrncmp, nonzero.1]
        rw [next]
        exact (ih u nonzero.2).trans (and_iff_right rfl).symm
      · have stops : dStrncmp (x :: u) (c :: p) (p.length + 1) = (x.toNat : Int) - c.toNat := if_pos same
        rw [stops]
        exact iff_of_false (differ x c same) fun both => same both.1.symm

theorem https_nonzero : ∀ c ∈ https, c ≠ 0 := by
  have all : https.all (· ≠ 0) = true := by decide
  simpa using all

theorem http_nonzero : ∀ c ∈ http, c ≠ 0 := by
  have all : http.all (· ≠ 0) = true := by decide
  simpa using all

theorem address_of_scheme (scheme : HasScheme u) : address u = u := if_pos scheme

theorem address_scheme (u : Url) : HasScheme (address u) := by
  by_cases scheme : HasScheme u
  · rw [address_of_scheme scheme]
    exact scheme
  · have start : https <+: (https ++ u).take (brUrlMax - 1) := by
      rw [List.prefix_take_iff]
      exact ⟨List.prefix_append _ _, by decide⟩
    unfold address
    rw [if_neg scheme]
    exact Or.inl start

structure Fields (st : BrState) : Prop where
  url : st.url.length ≤ 255
  typed : st.urlInput.length ≤ 255
  len : st.urlLen = st.urlInput.length

theorem brUrlSet_fields (st : BrState) (u : Url) : Fields (brUrlSet st u) := ⟨List.length_take_le _ _, List.length_take_le _ _, rfl⟩

theorem dStrcat_https (u : Url) : (dStrcat (dStrcpy https brUrlMax) u brUrlMax).take (brUrlMax - 1) = (https ++ u).take (brUrlMax - 1) := by
  have start : https.take (brUrlMax - 1) = https := by decide
  unfold dStrcat dStrcpy
  rw [start, List.take_append, List.take_append, start, List.take_take, Nat.min_self]

def begun (st : BrState) : BrState := { st with body := false, loading := true, err := 0, scroll := 0 }

theorem detectHttps_eq (fields : Fields st) : Fields (detectHttps st) ∧ (detectHttps st).url = address st.url ∧
    (detectHttps st).history = st.history ∧ (detectHttps st).histCount = st.histCount ∧ (detectHttps st).histPos = st.histPos := by
  have secure := dStrncmp_eq https st.url https_nonzero
  have plain := dStrncmp_eq http st.url http_nonzero
  have lengths : https.length = 8 ∧ http.length = 7 := by decide
  rw [lengths.1] at secure
  rw [lengths.2] at plain
  unfold detectHttps
  by_cases tls : https <+: st.url
  · rw [if_pos (secure.mpr tls)]
    exact ⟨⟨fields.url, fields.typed, fields.len⟩, (address_of_scheme (Or.inl tls)).symm, rfl, rfl, rfl⟩
  · rw [if_neg fun same => tls (secure.mp same)]
    by_cases tcp : http <+: st.url
    · rw [if_neg (not_not_intro (plain.mpr tcp))]
      exact ⟨⟨fields.url, fields.typed, fields.len⟩, (address_of_scheme (Or.inr tcp)).symm, rfl, rfl, rfl⟩
    · rw [if_pos fun same => tcp (plain.mp same)]
      have other : ¬ HasScheme st.url := fun scheme => scheme.elim tls tcp
      have set_ := brUrlSet_fields st (dStrcat (dStrcpy https brUrlMax) st.url brUrlMax)
      refine ⟨⟨set_.url, set_.typed, set_.len⟩, ?_, rfl, rfl, rfl⟩
      unfold address
      rw [if_neg other]
      exact dStrcat_https st.url

end

section
variable {history : List Url} {i : Nat} {u : Url}

theorem readSlot_ok (inside : i < history.length) : readSlot history i = .ok history[i] := by
  unfold readSlot
  rw [if_pos (Int.natCast_nonneg i), Int.toNat_natCast, List.getElem?_eq_getElem inside]
  rfl

theorem writeSlot_ok (inside : i < history.length) (short : u.length ≤ 255) : writeSlot history i u = .ok (history.set i u) := by
  unfold writeSlot dStrcpy
  rw [if_pos ⟨Int.natCast_nonneg i, by omega⟩, Int.toNat_natCast, List.take_of_length_le (show u.length ≤ brUrlMax - 1 from short)]

theorem shiftLoop_eq (fuel : Nat) (history : List Url) (i : Nat) (size : history.length = 16) (short : ∀ u ∈ history, u.length ≤ 255)
    (le : i ≤ 15) (enough : 15 < fuel + i) : shiftLoop fuel history i = .ok (history.take i ++ history.drop (i + 1) ++ history.drop 15) := by
  induction fuel generalizing history i with
  | zero => omega
  | succ fuel ih =>
    unfold shiftLoop
    by_cases more : i < 15
    · have next : i + 1 < history.length := by omega
      have here : i < history.length := by omega
      have read : readSlot history ((i : Int) + 1) = .ok history[i + 1] := readSlot_ok next
      have test : (i : Int) < (brHistoryMax : Int) - 1 := Int.lt_of_lt_of_le (Int.ofNat_lt.mpr more) (by decide)
      rw [if_pos test, read]
      show (writeSlot history i history[i + 1] >>= fun history => shiftLoop fuel history ((i + 1 : Nat) : Int)) = _
      rw [writeSlot_ok here (short _ (List.getElem_mem next))]
      have short' : ∀ u ∈ history.set i history[i + 1], u.length ≤ 255 := by
        intro u mem
        rcases List.mem_or_eq_of_mem_set mem with old | rfl
        · exact short u old
        · exact short _ (List.getElem_mem next)
      show shiftLoop fuel (history.set i history[i + 1]) ((i + 1 : Nat) : Int) = _
      rw [ih (history.set i history[i + 1]) (i + 1) (by rw [List.length_set, size]) short' more (by omega), List.drop_set_of_lt (by omega),
        List.drop_set_of_lt (by omega), List.drop_eq_getElem_cons next, List.take_add_one]
      simp only [List.take_set_of_le (Nat.le_refl i), List.getElem?_set_self here, Option.toList_some, List.append_assoc, List.singleton_append]
    · have last : i = 15 := by omega
      subst last
      rw [if_neg (by decide), List.drop_of_length_le (by omega), List.append_nil, List.take_append_drop]

end

structure Shows (st : BrState) (h : History Url brHistoryMax) : Prop where
  slots : st.history.length = 16
  count : st.histCount = h.entries.length
  pos : st.histPos = h.pos
  entries : st.history.take h.entries.length = h.entries
  addressed : ∀ u ∈ h.entries, HasScheme u ∧ u.length ≤ 255

section
variable {st : BrState} {h : History Url brHistoryMax}

def keptOf (h : History Url brHistoryMax) : List Url := h.entries.take (h.pos + 1)

theorem dropForward_eq (shows_ : Shows st h) :
    (if st.histPos < st.histCount - 1 then { st with histCount := st.histPos + 1 } else st) = { st with histCount := (keptOf h).length } := by
  have count := shows_.count
  have pos := shows_.pos
  have inside := h.pos_le
  unfold keptOf
  rw [List.length_take]
  by_cases ahead : st.histPos < st.histCount - 1
  · rw [if_pos ahead]
    congr 1
    omega
  · rw [if_neg ahead]
    have same : ((min (h.pos + 1) h.entries.length : Nat) : Int) = st.histCount := by
      by_cases none_ : h.entries = []
      · rw [none_, List.length_nil] at count ⊢
        omega
      · have := h.inside none_
        omega
    rw [same]

theorem makeRoom_eq (st : BrState) {kept : List Url} (slots : st.history.length = 16) (count : st.histCount = kept.length) (few : kept.length ≤ 16)
    (stored : st.history.take kept.length = kept) (short : ∀ u ∈ kept, u.length ≤ 255) :
    ∃ history, makeRoom st = .ok { st with history := history, histCount := (if kept.length = 16 then kept.tail else kept).length } ∧
      history.length = 16 ∧ history.take (if kept.length = 16 then kept.tail else kept).length = if kept.length = 16 then kept.tail else kept := by
  unfold makeRoom
  by_cases full : kept.length = 16
  · have whole : st.history = kept := by
      rw [full, ← slots, List.take_length] at stored
      exact stored
    have tail : kept.tail.length = 15 := by rw [List.length_tail, full]
    have shifted := shiftLoop_eq brHistoryMax kept 0 full short (Nat.zero_le _) (by decide)
    have reached : st.histCount ≥ (brHistoryMax : Int) := by
      rw [count, full]
    refine ⟨kept.tail ++ kept.drop 15, ?_, ?_, ?_⟩
    · rw [if_pos reached, if_pos full, whole, show (0 : Int) = ((0 : Nat) : Int) from rfl, shifted, tail, List.take_zero, List.nil_append, List.drop_one]
      rfl
    · rw [List.length_append, tail, List.length_drop, full]
    · rw [if_pos full, List.take_left]
  · have room : ¬ st.histCount ≥ (brHistoryMax : Int) := by
      rw [count]
      exact Int.not_le.mpr (Int.ofNat_lt.mpr (show kept.length < 16 by omega))
    refine ⟨st.history, ?_, slots, ?_⟩
    · rw [if_neg room, if_neg full, ← count]
    · rw [if_neg full]
      exact stored

theorem pushHistory_shows (shows_ : Shows st h) (fields : Fields st) (scheme : HasScheme st.url) :
    Safe (pushHistory st) fun st' => Shows st' (h.visit st.url) ∧ Fields st' ∧ st'.url = st.url := by
  have few : (keptOf h).length ≤ 16 := (List.length_take_le' _ _).trans h.bounded
  have cut : h.entries.take (keptOf h).length = keptOf h := by
    unfold keptOf
    rw [List.length_take]
    exact List.take_eq_take_min.symm
  have stored : st.history.take (keptOf h).length = keptOf h := by
    have below : (keptOf h).length ≤ h.entries.length := List.length_take_le' _ _
    rw [← Nat.min_eq_left below, ← List.take_take, shows_.entries, cut]
  have kept : ∀ u ∈ keptOf h, HasScheme u ∧ u.length ≤ 255 := fun u mem => shows_.addressed u (List.mem_of_mem_take mem)
  obtain ⟨history, made, size, left⟩ := makeRoom_eq { st with histCount := (keptOf h).length } shows_.slots rfl few stored fun u mem => (kept u mem).2
  have visited : h.visited st.url = (if (keptOf h).length = 16 then (keptOf h).tail else keptOf h) ++ [st.url] := h.visited_eq st.url
  have older : ∀ u ∈ (if (keptOf h).length = 16 then (keptOf h).tail else keptOf h), u ∈ keptOf h := by
    intro u mem
    split at mem
    · exact List.mem_of_mem_tail mem
    · exact mem
  have room : (if (keptOf h).length = 16 then (keptOf h).tail else keptOf h).length < 16 := by
    split
    · rw [List.length_tail]
      omega
    · omega
  generalize (if (keptOf h).length = 16 then (keptOf h).tail else keptOf h) = entries at made left visited older room
  have inside : entries.length < history.length := by omega
  unfold pushHistory
  dsimp only
  rw [dropForward_eq shows_, made]
  show Safe (writeSlot history (entries.length : Int) st.url >>= fun history =>
    .ok { st with history := history, histPos := entries.length, histCount := (entries.length : Int) + 1 }) _
  rw [writeSlot_ok inside fields.url]
  have length : (h.visited st.url).length = entries.length + 1 := by rw [visited, List.length_append, List.length_singleton]
  refine Safe.ok ⟨⟨?_, ?_, ?_, ?_, ?_⟩, ⟨fields.url, fields.typed, fields.len⟩, rfl⟩
  · rw [List.length_set, size]
  · show ((entries.length : Int) + 1) = ((h.visited st.url).length : Int)
    rw [length]
    rfl
  · show (entries.length : Int) = ((h.visited st.url).length - 1 : Nat)
    rw [length, Nat.add_sub_cancel]
  · show (history.set entries.length st.url).take (h.visited st.url).length = h.visited st.url
    rw [length, visited, List.take_add_one, List.take_set_of_le (Nat.le_refl _), left, List.getElem?_set_self inside]
    rfl
  · intro u mem
    have mem : u ∈ h.visited st.url := mem
    rw [visited, List.mem_append, List.mem_singleton] at mem
    rcases mem with old | rfl
    · exact kept u (older u old)
    · exact ⟨scheme, fields.url⟩

end

/-- From the session `s`, a click or a key leads to `s'`. -/
structure Reaches (s : Session) (r : BrState × List Url) (s' : Session) : Prop where
  shows_ : Shows r.1 s'.history
  fields : Fields r.1
  loaded : s'.loaded = s.loaded ++ r.2

section
variable {st st' : BrState} {h : History Url brHistoryMax} {s : Session} {reply : Reply}

theorem Shows.of_same (shows_ : Shows st h) (history : st'.history = st.history) (count : st'.histCount = st.histCount)
    (pos : st'.histPos = st.histPos) : Shows st' h :=
  ⟨by rw [history, shows_.slots], by rw [count, shows_.count], by rw [pos, shows_.pos], by rw [history, shows_.entries], shows_.addressed⟩

theorem finishFetch_reaches (shows_ : Shows st h) (fields : Fields st) (current : h.current = some st.url) :
    Reaches s (finishFetch st reply) (Session.load ⟨h, s.loaded⟩ reply.memory) := by
  have url : h.current.toList = [st.url] := by
    rw [current]
    rfl
  unfold finishFetch Session.load
  dsimp only
  rw [url]
  cases reply.memory with
  | false => exact ⟨shows_.of_same rfl rfl rfl, ⟨fields.url, fields.typed, fields.len⟩, (List.append_nil _).symm⟩
  | true =>
    by_cases failed : reply.rc < 0
    · rw [if_neg (by decide), if_pos failed]
      exact ⟨shows_.of_same rfl rfl rfl, ⟨fields.url, fields.typed, fields.len⟩, rfl⟩
    · rw [if_neg (by decide), if_neg failed]
      by_cases final : reply.finalUrl ≠ []
      · rw [if_pos final]
        have set_ := brUrlSet_fields st reply.finalUrl
        exact ⟨shows_.of_same rfl rfl rfl, ⟨set_.url, set_.typed, set_.len⟩, rfl⟩
      · rw [if_neg final]
        exact ⟨shows_.of_same rfl rfl rfl, ⟨fields.url, fields.typed, fields.len⟩, rfl⟩

theorem brFetch_reaches (shows_ : Shows st s.history) (fields : Fields st) (reply : Reply) :
    Safe (brFetch st reply) fun r => Reaches s r (s.turn ⟨.navigate (address st.url), reply.memory⟩) := by
  have start : Fields (begun st) := ⟨fields.url, fields.typed, fields.len⟩
  obtain ⟨fields', url, history, count, pos⟩ := detectHttps_eq start
  have scheme : HasScheme (detectHttps (begun st)).url := by
    rw [url]
    exact address_scheme _
  refine (pushHistory_shows (shows_.of_same history count pos) fields' scheme).bind fun st' pushed => Safe.ok ?_
  rw [url] at pushed
  have current : (s.history.visit (address st.url)).current = some st'.url := by
    rw [pushed.2.2]
    exact History.visit_current _ _
  exact finishFetch_reaches pushed.1 pushed.2.1 current

theorem loadCurrent_reaches (shows_ : Shows st h) (some_ : h.entries ≠ []) (reply : Reply) :
    Safe (readSlot st.history st.histPos >>= fun u => brFetchEx (brUrlSet st u) false reply) fun r =>
      Reaches s r (Session.load ⟨h, s.loaded⟩ reply.memory) := by
  have inside := h.inside some_
  have slot : h.pos < st.history.length := by
    have slots := shows_.slots
    have bounded : h.entries.length ≤ 16 := h.bounded
    omega
  have entry : st.history[h.pos] = h.entries[h.pos] := by
    apply Option.some.inj
    rw [← List.getElem?_eq_getElem slot, ← List.getElem?_eq_getElem inside, ← List.getElem?_take_of_lt inside, shows_.entries]
  rw [shows_.pos, readSlot_ok slot, entry]
  have addressed := shows_.addressed _ (List.getElem_mem inside)
  have url : (brUrlSet st h.entries[h.pos]).url = h.entries[h.pos] := List.take_of_length_le addressed.2
  have set_ := brUrlSet_fields st h.entries[h.pos]
  have start : Fields (begun (brUrlSet st h.entries[h.pos])) := ⟨set_.url, set_.typed, set_.len⟩
  obtain ⟨fields, url', history, count, pos⟩ := detectHttps_eq start
  refine Safe.ok (finishFetch_reaches (shows_.of_same history count pos) fields ?_)
  show h.current = some (detectHttps (begun (brUrlSet st h.entries[h.pos]))).url
  rw [url']
  show h.current = some (address (brUrlSet st h.entries[h.pos]).url)
  rw [url, address_of_scheme addressed.1]
  exact List.getElem?_eq_getElem inside

end

section
variable {st : BrState} {s : Session}

theorem goBack_reaches (shows_ : Shows st s.history) (fields : Fields st) (reply : Reply) :
    Safe (goBack st reply) fun r => Reaches s r (s.turn ⟨.back, reply.memory⟩) := by
  have pos := shows_.pos
  unfold goBack Session.turn
  dsimp only
  by_cases ahead : 0 < s.history.pos
  · have some_ : s.history.back.entries ≠ [] := fun none_ => by
      have start := s.history.unvisited none_
      omega
    have moved : Shows { st with histPos := st.histPos - 1 } s.history.back := by
      refine ⟨shows_.slots, shows_.count, ?_, shows_.entries, shows_.addressed⟩
      show st.histPos - 1 = ((s.history.pos - 1 : Nat) : Int)
      omega
    rw [if_pos (by omega), if_pos ahead]
    exact loadCurrent_reaches moved some_ reply
  · rw [if_neg (by omega), if_neg ahead]
    exact Safe.ok ⟨shows_, fields, (List.append_nil _).symm⟩

theorem goForward_reaches (shows_ : Shows st s.history) (fields : Fields st) (reply : Reply) :
    Safe (goForward st reply) fun r => Reaches s r (s.turn ⟨.forward, reply.memory⟩) := by
  have pos := shows_.pos
  have count := shows_.count
  unfold goForward Session.turn
  dsimp only
  by_cases behind : s.history.pos + 1 < s.history.entries.length
  · have some_ : s.history.forward.entries ≠ [] := List.ne_nil_of_length_pos (show 0 < s.history.entries.length by omega)
    have moved : Shows { st with histPos := st.histPos + 1 } s.history.forward := by
      refine ⟨shows_.slots, shows_.count, ?_, shows_.entries, shows_.addressed⟩
      show st.histPos + 1 = ((if s.history.pos + 1 < s.history.entries.length then s.history.pos + 1 else s.history.pos : Nat) : Int)
      rw [if_pos behind, pos]
      rfl
    rw [if_pos (by omega), if_pos behind]
    exact loadCurrent_reaches moved some_ reply
  · rw [if_neg (by omega), if_neg behind]
    exact Safe.ok ⟨shows_, fields, (List.append_nil _).symm⟩

theorem stays {st' : BrState} (shows_ : Shows st s.history) (history : st'.history = st.history) (count : st'.histCount = st.histCount)
    (pos : st'.histPos = st.histPos) (fields : Fields st') : Safe (.ok (st', []) : Except Fault (BrState × List Url)) fun r => Reaches s r s :=
  Safe.ok ⟨shows_.of_same history count pos, fields, (List.append_nil _).symm⟩

theorem startEdit_fields (fields : Fields st) (focused : Bool) : Fields (startEdit st focused) := ⟨fields.url, List.length_take_le _ _, rfl⟩

theorem click_reaches (shows_ : Shows st s.history) (fields : Fields st) (button : Button) (reply : Reply) :
    Safe (click st button reply) fun r => Reaches s r (s.turns (turnOf st (.click button reply))) := by
  cases button with
  | back => exact goBack_reaches shows_ fields reply
  | forward => exact goForward_reaches shows_ fields reply
  | reload => exact brFetch_reaches shows_ fields reply
  | home =>
    have set_ : Shows (brUrlSet st brHome) s.history := shows_.of_same rfl rfl rfl
    have home := brFetch_reaches set_ (brUrlSet_fields st brHome) reply
    have same : address (brHome.take (brUrlMax - 1)) = brHome := by decide
    rw [show (brUrlSet st brHome).url = brHome.take (brUrlMax - 1) from rfl, same] at home
    exact home
  | urlBar => exact stays shows_ rfl rfl rfl (startEdit_fields fields true)
  | content => exact stays shows_ rfl rfl rfl ⟨fields.url, fields.typed, fields.len⟩

theorem brUrlApply_eq (fields : Fields st) : (brUrlApply st).url = st.urlInput := by
  have typed := fields.typed
  have len := fields.len
  have whole : (min st.urlLen ((brUrlMax : Int) - 1)).toNat = st.urlInput.length := by
    show (min st.urlLen (256 - 1)).toNat = _
    omega
  show st.urlInput.take (min st.urlLen ((brUrlMax : Int) - 1)).toNat = st.urlInput
  rw [whole, List.take_length]

theorem typeKey_reaches (shows_ : Shows st s.history) (fields : Fields st) (c : UInt8) (reply : Reply) :
    Safe (typeKey st c reply) fun r => Reaches s r (if c = 10 ∨ c = 13 then s.turn ⟨.navigate (address st.urlInput), reply.memory⟩ else s) := by
  have url := fields.url
  have typed := fields.typed
  have len := fields.len
  unfold typeKey
  by_cases enter : c = 10 ∨ c = 13
  · have applied := brUrlApply_eq fields
    rw [if_pos enter, if_pos enter]
    have set_ : Shows { brUrlApply st with urlFocused := false } s.history := shows_.of_same rfl rfl rfl
    have fetched := brFetch_reaches set_ ⟨by rw [applied]; exact typed, typed, len⟩ reply
    rw [applied] at fetched
    exact fetched
  rw [if_neg enter, if_neg enter]
  refine Safe.ite (fun _ => ?_) fun _ => Safe.ite (fun _ => ?_) fun _ => Safe.ite (fun printable => ?_) fun _ => ?_
  · split
    · refine stays shows_ rfl rfl rfl ⟨url, (List.length_take_le' _ _).trans typed, ?_⟩
      show st.urlLen - 1 = ((st.urlInput.take (st.urlLen - 1).toNat).length : Int)
      rw [List.length_take]
      omega
    · exact stays shows_ rfl rfl rfl fields
  · exact stays shows_ rfl rfl rfl (startEdit_fields fields false)
  · have room : st.urlLen < 256 - 1 := printable.2.2
    have length : (st.urlInput.take st.urlLen.toNat ++ [c]).length = st.urlInput.length + 1 := by
      rw [List.length_append, List.length_take, List.length_singleton]
      omega
    refine stays shows_ rfl rfl rfl ⟨url, ?_, ?_⟩
    · show (st.urlInput.take st.urlLen.toNat ++ [c]).length ≤ 255
      omega
    · show st.urlLen + 1 = ((st.urlInput.take st.urlLen.toNat ++ [c]).length : Int)
      omega
  · exact stays shows_ rfl rfl rfl fields

theorem pageKey_reaches (shows_ : Shows st s.history) (fields : Fields st) (c : UInt8) (reply : Reply) :
    Safe (pageKey st c reply) fun r => Reaches s r (if c = 114 ∨ c = 82 then s.turn ⟨.navigate (address st.url), reply.memory⟩ else s) := by
  have scrolled : ∀ scroll, Safe (.ok ({ st with scroll := scroll }, []) : Except Fault (BrState × List Url)) fun r => Reaches s r s :=
    fun scroll => stays shows_ rfl rfl rfl ⟨fields.url, fields.typed, fields.len⟩
  unfold pageKey
  by_cases reload : c = 114 ∨ c = 82
  · rw [if_pos reload, if_pos reload]
    exact brFetch_reaches shows_ fields reply
  · rw [if_neg reload, if_neg reload]
    exact Safe.ite (fun _ => scrolled _) fun _ => Safe.ite (fun _ => scrolled _) fun _ => Safe.ite (fun _ => scrolled _) fun _ =>
      Safe.ite (fun _ => scrolled _) fun _ => stays shows_ rfl rfl rfl fields

theorem react_reaches (shows_ : Shows st s.history) (fields : Fields st) (e : Event) :
    Safe (react st e) fun r => Reaches s r (s.turns (turnOf st e)) := by
  cases e with
  | click button reply => exact click_reaches shows_ fields button reply
  | key c reply =>
    have typed := typeKey_reaches shows_ fields c reply
    have paged := pageKey_reaches shows_ fields c reply
    unfold react key turnOf actionOf
    cases st.urlFocused with
    | false =>
      by_cases reload : c = 114 ∨ c = 82
      · simpa [reload, Event.memory, Session.turns] using paged
      · simpa [reload, Session.turns] using paged
    | true =>
      by_cases enter : c = 10 ∨ c = 13
      · simpa [enter, Event.memory, Session.turns] using typed
      · simpa [enter, Session.turns] using typed
  | clamp maxScroll => exact stays shows_ rfl rfl rfl ⟨fields.url, fields.typed, fields.len⟩

end

structure Follows (b : Browsing) (s : Session) : Prop where
  shows_ : Shows b.st s.history
  fields : Fields b.st
  loaded : b.loaded = s.loaded

theorem handle_follows {b : Browsing} {s : Session} (follows : Follows b s) (e : Event) :
    Safe (handle b e) fun b' => Follows b' (s.turns (turnOf b.st e)) :=
  (react_reaches follows.shows_ follows.fields e).bind fun r reaches =>
    Safe.ok ⟨reaches.shows_, reaches.fields, by rw [reaches.loaded, follows.loaded]⟩

theorem handleAll_follows {b : Browsing} {s : Session} (follows : Follows b s) (events : List Event) :
    ∃ b' ts, handleAll b events = .ok b' ∧ turnsOf b events = .ok ts ∧ Follows b' (s.turns ts) := by
  induction events generalizing b s with
  | nil => exact ⟨b, [], rfl, rfl, follows⟩
  | cons e events ih =>
    obtain ⟨b₁, first, follows₁⟩ := handle_follows follows e
    obtain ⟨b', ts, run, turns, follows'⟩ := ih follows₁
    refine ⟨b', turnOf b.st e ++ ts, ?_, ?_, ?_⟩
    · rw [handleAll, first]
      exact run
    · rw [turnsOf, first]
      show (turnsOf b₁ events >>= fun later => .ok (turnOf b.st e ++ later)) = _
      rw [turns]
      rfl
    · unfold Session.turns at follows' ⊢
      rw [List.foldl_append]
      exact follows'

theorem handleAll_append (b : Browsing) (events later : List Event) :
    handleAll b (events ++ later) = (handleAll b events >>= fun b => handleAll b later) := by
  induction events generalizing b with
  | nil => rfl
  | cons e events ih =>
    rw [List.cons_append, handleAll, handleAll]
    cases handle b e with
    | error fault => rfl
    | ok b => exact ih b

theorem browse_eq (b : Browsing) (inputs : List Input) : browse b inputs = handleAll b (inputs.flatMap Input.events) := by
  induction inputs generalizing b with
  | nil => rfl
  | cons input inputs ih =>
    rw [List.flatMap_cons, handleAll_append, browse, brEvent]
    congr 1
    funext b
    exact ih b

theorem load_history (s : Session) (memory : Bool) : (s.load memory).history = s.history := by
  unfold Session.load
  split <;> rfl

theorem turn_entries (s : Session) (t : Turn) (some_ : s.history.entries ≠ [] ∨ ∃ u, t.action = .navigate u) : (s.turn t).history.entries ≠ [] := by
  unfold Session.turn
  cases action : t.action with
  | navigate u =>
    dsimp only
    rw [load_history]
    exact s.history.visited_ne_nil u
  | back | forward =>
    have some_ := some_.resolve_right fun navigates => by
      obtain ⟨u, same⟩ := navigates
      rw [action] at same
      cases same
    dsimp only
    split
    · rw [load_history]
      exact some_
    · exact some_

theorem turns_entries (s : Session) (ts : List Turn) (some_ : s.history.entries ≠ [] ∨ ∃ t ∈ ts, ∃ u, t.action = .navigate u) :
    (s.turns ts).history.entries ≠ [] := by
  induction ts generalizing s with
  | nil =>
    refine some_.resolve_right fun navigates => ?_
    obtain ⟨t, mem, -⟩ := navigates
    cases mem
  | cons t ts ih =>
    refine ih (s.turn t) ?_
    rcases some_ with some_ | ⟨t', mem, navigates⟩
    · exact Or.inl (turn_entries s t (Or.inl some_))
    · rcases List.mem_cons.mp mem with rfl | later
      · exact Or.inl (turn_entries s t' (Or.inr navigates))
      · exact Or.inr ⟨t', later, navigates⟩

theorem brOpen_follows : Follows brOpen Session.start :=
  ⟨⟨List.length_replicate, rfl, rfl, rfl, fun _ mem => absurd mem List.not_mem_nil⟩, brUrlSet_fields _ _, rfl⟩

/-- Whatever is clicked and typed, and whatever the replies are, the stored history is that of the turns. -/
theorem browse_right (inputs : List Input) : ∃ b ts, browse brOpen inputs = .ok b ∧
    turnsOf brOpen (inputs.flatMap Input.events) = .ok ts ∧ HistoryRight ts b := by
  obtain ⟨b, ts, run, turns, follows⟩ := handleAll_follows brOpen_follows (inputs.flatMap Input.events)
  have pos := follows.shows_.pos
  have count := follows.shows_.count
  refine ⟨b, ts, (browse_eq brOpen inputs).trans run, turns, ?_⟩
  constructor
  case low =>
    rw [pos]
    exact Int.natCast_nonneg _
  case few =>
    rw [count]
    exact Int.ofNat_le.mpr (Session.start.turns ts).history.bounded
  case visited =>
    intro navigates
    have inside := (Session.start.turns ts).history.inside (turns_entries Session.start ts (Or.inr navigates))
    omega
  case entries =>
    rw [count, Int.toNat_natCast]
    exact follows.shows_.entries
  case count => exact count
  case pos => exact pos
  case loaded => exact follows.loaded

end RexOs.Desktop.BrowserHistory
