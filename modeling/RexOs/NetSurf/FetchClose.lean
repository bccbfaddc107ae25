import RexOs.NetSurf.FetchOutcome

/-! Bodies that end with their connection.

On plain TCP the answer of SYS_NET_RECV is handed on as it is: 0 says that nothing has come in
time, and -2 that the connection is closed and drained. The fetcher takes every negative number
for an error. So a body without a length is finished only by a pause that comes behind its last
byte and before the end of the connection.
-/

set_option autoImplicit false

namespace RexOs.NetSurf

open RexOs.Library

variable {Z : Type}

def netRecvEof : Int := -2

/-- The answer when the waiting is over: `rx` is what has come and was not received yet. -/
def sysNetRecv (max : Nat) (rx : List UInt8) (established : Bool) : Int × List UInt8 :=
  if rx = [] then (if established then 0 else netRecvEof, []) else ((rx.take max).length, rx.take max)

/-- What the loops make of an answer of `rconn_recv`. -/
def Got.ofAnswer (answer : Int × List UInt8) : Got :=
  if answer.1 < 0 then .failed else if answer.1 = 0 then .nothing false else .bytes answer.2

/-- Up to `n + 1` more bytes have come by the time of a receive call, or it waits in vain. -/
inductive Wait where
  | bytes (n : Nat)
  | pause
  deriving DecidableEq, Repr

theorem answer_bytes {max : Nat} (room : 0 < max) {unread : List UInt8} (some_ : unread ≠ []) (n : Nat) (memory established : Bool) :
    Got.ofAnswer (sysNetRecv max (unread.take (n + 1)) established) = (rconnRecv max unread (.read n memory)).1 := by
  cases unread with
  | nil => exact absurd rfl some_
  | cons c rest =>
    have more : (c :: rest).take (n + 1) ≠ [] := by
      rw [List.take_succ_cons]
      exact List.cons_ne_nil _ _
    have count : ((c :: rest).take (n + 1)).take max ≠ [] := by
      cases max with
      | zero => exact absurd room (Nat.lt_irrefl 0)
      | succ max => exact List.cons_ne_nil _ _
    have positive := List.length_pos_iff.mpr count
    rw [sysNetRecv, if_neg more, rconnRecv, if_neg some_, Got.ofAnswer]
    dsimp only
    rw [if_neg (by omega), if_neg (by omega), List.take_take, Nat.min_comm]

theorem answer_pause (max : Nat) (unread : List UInt8) :
    Got.ofAnswer (sysNetRecv max [] true) = (rconnRecv max unread .silence).1 := rfl

theorem answer_end (max : Nat) : Got.ofAnswer (sysNetRecv max [] false) = (rconnRecv max [] .error).1 := rfl

/-- What the receive calls for the body come to: after the waits the server has sent everything and closes. -/
def plainCuts : List Wait → List UInt8 → List Cut
  | [], unread => List.replicate ((unread.length + (recvBuf - 1)) / recvBuf) (.read recvBuf true) ++ [.error]
  | .pause :: waits, unread => .silence :: plainCuts waits unread
  | .bytes n :: waits, unread =>
      if unread = [] then plainCuts waits [] else .read n true :: plainCuts waits (unread.drop (min (n + 1) recvBuf))

def unreadAtPause : List Wait → List UInt8 → Option (List UInt8)
  | [], _ => none
  | .pause :: _, unread => some unread
  | .bytes n :: waits, unread => unreadAtPause waits (unread.drop (min (n + 1) recvBuf))

structure CloseDelimited (s : BodyPhase Z) (waits : List Wait) : Prop where
  tcp : s.site.isTls = false
  whole : s.fr.chunked = false
  unknown : s.fr.contentLength < 0
  identity : s.fr.gzipped = false
  cuts : s.cuts = plainCuts waits (s.world.wire s.conn).unread

def Completes (s : BodyPhase Z) (f : Fetch) : Prop :=
  ∃ parts : List (List UInt8), parts.flatten = s.body0 ++ (s.world.wire s.conn).unread ∧
    f.msgs = s.start.fetch.msgs ++ parts.map .data ++ [.finished]

structure Open (b : Body Z) : Prop where
  whole : b.dec.chunked = false
  unknown : b.dec.contentLength < 0
  going : b.dec.done = false
  identity : b.gz = false
  fine : b.sinkErr = false
  kept : b.fetch.aborted = false

theorem round_open {b : Body Z} (open_ : Open b) (pending : List UInt8) :
    round b.dec pending = ⟨pending, [], { b.dec with bodyReceived := b.dec.bodyReceived + pending.length, done := false }, false⟩ := by
  have unknown := open_.unknown
  have no_length : ¬ (0 ≤ b.dec.contentLength ∧ (pending.length : Int) > b.dec.contentLength - b.dec.bodyReceived) := by omega
  have endless : ¬ (0 ≤ b.dec.contentLength ∧ b.dec.bodyReceived + pending.length ≥ b.dec.contentLength) := by omega
  unfold round
  rw [if_pos open_.whole, if_neg no_length]
  dsimp only
  rw [List.take_length, List.drop_length, decide_eq_false endless]

section
variable {zlib : Inflate Z} {b : Body Z} {abortAt : Nat → Bool}

theorem bodyInner_nil (fuel : Nat) (b : Body Z) : bodyInner abortAt zlib fuel b [] = (b, []) := by
  cases fuel with
  | zero => rfl
  | succ fuel =>
    have stops : Stops b [] := Or.inl rfl
    rw [bodyInner, if_pos stops]

theorem bodyInner_open (open_ : Open b) (c : UInt8) (rest : List UInt8) :
    bodyInner abortAt zlib (c :: rest).length b (c :: rest) =
      ({ b with
        dec := { b.dec with bodyReceived := b.dec.bodyReceived + (c :: rest).length, done := false }
        trailerClean := b.trailerClean || false
        fetch := sendCb abortAt b.fetch (.data (c :: rest)) }, []) := by
  have goes : ¬ Stops b (c :: rest) := by
    rintro (none_ | done | aborted | failed)
    · cases none_
    · rw [open_.going] at done
      cases done
    · rw [open_.kept] at aborted
      cases aborted
    · rw [open_.fine] at failed
      cases failed
  have sent : sinkEmit abortAt zlib b (c :: rest) = { b with fetch := sendCb abortAt b.fetch (.data (c :: rest)) } := by
    rw [sinkEmit, if_neg (List.cons_ne_nil c rest), if_pos open_.identity]
  have fine : ¬ b.sinkErr = true := by
    rw [open_.fine]
    exact Bool.false_ne_true
  rw [List.length_cons, bodyInner, if_neg goes, bodyStep, round_open open_]
  dsimp only
  rw [sent]
  dsimp only
  rw [if_neg fine]
  exact bodyInner_nil _ _

variable (never : ∀ n, abortAt n = false)
include never

variable (zlib) in
theorem consume_open (open_ : Open b) (bytes : List UInt8) :
    Open (consume abortAt zlib b bytes).1 ∧ ∃ parts : List (List UInt8), parts.flatten = bytes ∧
      (consume abortAt zlib b bytes).1.fetch.msgs = b.fetch.msgs ++ parts.map .data := by
  have noted : Open { b with pendingLen := bytes.length, received := b.received ++ bytes } :=
    ⟨open_.whole, open_.unknown, open_.going, open_.identity, open_.fine, open_.kept⟩
  unfold consume
  cases bytes with
  | nil => exact ⟨noted, [], rfl, (List.append_nil _).symm⟩
  | cons c rest =>
    have kept : (b.fetch.aborted || abortAt b.fetch.msgs.length) = false := by rw [open_.kept, never, Bool.or_false]
    rw [bodyInner_open noted c rest]
    exact ⟨⟨open_.whole, open_.unknown, rfl, open_.identity, open_.fine, kept⟩, [c :: rest], List.append_nil _, rfl⟩

omit never in
theorem noteReceive_open (open_ : Open b) : Open b.noteReceive :=
  ⟨open_.whole, open_.unknown, open_.going, open_.identity, open_.fine, open_.kept⟩

theorem bodyLoop_read (open_ : Open b) {unread : List UInt8} (some_ : unread ≠ []) (n empties : Nat) (cuts : List Cut) :
    bodyLoop abortAt zlib (.read n true :: cuts) empties unread b =
      bodyLoop abortAt zlib cuts 0 (unread.drop (min (n + 1) recvBuf))
        (consume abortAt zlib b.noteReceive (unread.take (min (n + 1) recvBuf))).1 := by
  obtain ⟨after, -⟩ := consume_open zlib never (noteReceive_open open_) (unread.take (min (n + 1) recvBuf))
  have fine : ¬ (consume abortAt zlib b.noteReceive (unread.take (min (n + 1) recvBuf))).1.sinkErr = true := by
    rw [after.fine]
    exact Bool.false_ne_true
  have goes : ¬ ((consume abortAt zlib b.noteReceive (unread.take (min (n + 1) recvBuf))).1.dec.done ||
      (consume abortAt zlib b.noteReceive (unread.take (min (n + 1) recvBuf))).1.fetch.aborted) = true := by
    rw [after.going, after.kept]
    exact Bool.false_ne_true
  have memory : ∀ k : Nat, ¬ (k > b.noteReceive.pendingLen ∧ (Cut.read n true).room = false) := fun k short => by cases short.2
  rw [bodyLoop, rconnRecv, if_neg some_]
  dsimp only
  rw [if_neg (memory _), Body.ended, if_neg fine, if_neg goes]

omit never in
theorem bodyLoop_pause (open_ : Open b) (unread : List UInt8) (empties : Nat) (cuts : List Cut) :
    bodyLoop abortAt zlib (.silence :: cuts) empties unread b = ⟨b.noteReceive, [], unread, .dry false⟩ := by
  have unknown := open_.unknown
  have nothing : ¬ (expectingMore b.noteReceive.dec = true ∧ empties < maxEmpty) := by
    have none_ : expectingMore b.dec = false := by
      rw [expectingMore, open_.whole, decide_eq_false (by omega)]
      rfl
    rintro ⟨more, -⟩
    exact absurd (none_.symm.trans more) Bool.false_ne_true
  rw [bodyLoop, rconnRecv]
  dsimp only
  rw [if_neg nothing]

/-- How the loop was left: at a pause with the bytes `left` not received, or with an error. -/
def LeavesAt (left : Option (List UInt8)) (unread : List UInt8) (b : Body Z) (e : BodyEnd Z) : Prop :=
  e.body.fetch.aborted = false ∧ ∃ parts : List (List UInt8), e.body.fetch.msgs = b.fetch.msgs ++ parts.map .data ∧
    match left with
    | some left => e.ending = .dry false ∧ parts.flatten ++ left = unread
    | none => e.ending = .lost

omit never in
theorem LeavesAt.after {left : Option (List UInt8)} {unread bytes : List UInt8} {b' : Body Z} {e : BodyEnd Z} {parts : List (List UInt8)}
    (leaves : LeavesAt left unread b' e) (whole : parts.flatten = bytes) (sent : b'.fetch.msgs = b.fetch.msgs ++ parts.map .data) :
    LeavesAt left (bytes ++ unread) b e := by
  obtain ⟨kept, parts', msgs, ending⟩ := leaves
  refine ⟨kept, parts ++ parts', ?_, ?_⟩
  · rw [msgs, sent, List.map_append, List.append_assoc]
  · cases left with
    | none => exact ending
    | some left => exact ⟨ending.1, by rw [List.flatten_append, whole, List.append_assoc, ending.2]⟩

theorem bodyLoop_read_leaves (open_ : Open b) {unread : List UInt8} (some_ : unread ≠ []) (n empties : Nat) (cuts : List Cut)
    {left : Option (List UInt8)}
    (rest : ∀ b' : Body Z, Open b' → LeavesAt left (unread.drop (min (n + 1) recvBuf)) b'
      (bodyLoop abortAt zlib cuts 0 (unread.drop (min (n + 1) recvBuf)) b')) :
    LeavesAt left unread b (bodyLoop abortAt zlib (.read n true :: cuts) empties unread b) := by
  obtain ⟨after, parts, whole, sent⟩ :=
    consume_open zlib never (noteReceive_open open_) (unread.take (min (n + 1) recvBuf))
  rw [bodyLoop_read never open_ some_]
  have leaves := (rest _ after).after whole sent
  rw [List.take_append_drop] at leaves
  exact leaves

theorem bodyLoop_close (open_ : Open b) (empties reads : Nat) {unread : List UInt8}
    (all : (unread.length + (recvBuf - 1)) / recvBuf = reads) :
    LeavesAt none unread b (bodyLoop abortAt zlib (List.replicate reads (.read recvBuf true) ++ [.error]) empties unread b) := by
  induction reads generalizing b empties unread with
  | zero => exact ⟨open_.kept, [], (List.append_nil _).symm, rfl⟩
  | succ reads ih =>
    have size : recvBuf = 8192 := rfl
    rw [size] at all
    rw [List.replicate_succ, List.cons_append]
    apply bodyLoop_read_leaves never open_
    · rintro rfl
      rw [List.length_nil] at all
      omega
    · intro b' open'
      apply ih open'
      rw [List.length_drop, size]
      omega

theorem bodyLoop_leaves (open_ : Open b) (waits : List Wait) (empties : Nat) (unread : List UInt8) :
    LeavesAt (unreadAtPause waits unread) unread b (bodyLoop abortAt zlib (plainCuts waits unread) empties unread b) := by
  induction waits generalizing empties unread b with
  | nil => exact bodyLoop_close never open_ empties _ rfl
  | cons wait waits ih =>
    cases wait with
    | pause =>
      rw [plainCuts, bodyLoop_pause open_]
      exact ⟨open_.kept, [], (List.append_nil _).symm, rfl, rfl⟩
    | bytes n =>
      rw [plainCuts, unreadAtPause]
      split
      · rename_i none_
        subst none_
        rw [List.drop_nil]
        exact ih open_ empties []
      · rename_i some_
        exact bodyLoop_read_leaves never open_ some_ n empties _ fun b' open' => ih open' 0 _

variable (zlib) in
theorem bodyPhase_leaves (open_ : Open b) (waits : List Wait) (unread body0 : List UInt8) :
    LeavesAt (unreadAtPause waits unread) (body0 ++ unread) b (bodyPhase abortAt zlib (plainCuts waits unread) unread b body0) := by
  obtain ⟨after, parts, whole, sent⟩ := consume_open zlib never open_ body0
  have fine : ¬ (consume abortAt zlib b body0).1.sinkErr = true := by
    rw [after.fine]
    exact Bool.false_ne_true
  have goes : ¬ ((consume abortAt zlib b body0).1.dec.done || (consume abortAt zlib b body0).1.fetch.aborted) = true := by
    rw [after.going, after.kept]
    exact Bool.false_ne_true
  rw [bodyPhase, Body.ended, if_neg fine, if_neg goes]
  exact (bodyLoop_leaves never after waits 0 unread).after whole sent

end

section
variable {env : FetchEnv Z} (never : ∀ n, env.abortAt n = false)
include never

theorem forwardHeaders_kept (fr : Framing) (hdr : List UInt8) (code : Option Int) :
    (forwardHeaders env.abortAt fr hdr ⟨[], false, code⟩).aborted = false := by
  have step : ∀ f line, Fetch.aborted f = false → (forwardLine env.abortAt fr f line).aborted = false := by
    intro f line kept
    unfold forwardLine
    split
    · exact kept
    · show (f.aborted || env.abortAt f.msgs.length) = false
      rw [kept, never, Bool.or_false]
  exact foldl_invariant (fun f => Fetch.aborted f = false) step rfl

omit never in
variable (env) in
def Unaborted : FetchEnd Z ⊕ BodyPhase Z → Prop
  | .inl _ => True
  | .inr s => ∃ f, s.start = bodyStart env.zlib s.fr f ∧ f.aborted = false

theorem untilBody_unaborted (r : FetchRequest) (w : World) : Unaborted env (untilBody env r w) := by
  unfold untilBody
  dsimp only
  split
  · trivial
  split
  · trivial
  split
  · trivial
  unfold fetchResponse
  dsimp only
  split
  · trivial
  split
  · split <;> trivial
  split
  · trivial
  split
  · trivial
  · exact ⟨_, rfl, forwardHeaders_kept never _ _ _⟩

/-- A body that ends with its connection is delivered with its end exactly if a pause comes first, behind the last byte. -/
theorem close_delimited {r : FetchRequest} {w : World} {s : BodyPhase Z} (body : untilBody env r w = .inr s) {waits : List Wait}
    (delimited : CloseDelimited s waits) :
    Completes s (fetchProcess env r w).fetch ↔ unreadAtPause waits (s.world.wire s.conn).unread = some [] := by
  have start := untilBody_unaborted never r w
  rw [body] at start
  obtain ⟨f, start, kept⟩ := start
  have open_ : Open s.start := by
    rw [start]
    exact ⟨delimited.whole, delimited.unknown, rfl, delimited.identity, rfl, kept⟩
  have leaves := bodyPhase_leaves env.zlib never open_ waits (s.world.wire s.conn).unread s.body0
  rw [fetchProcess, body, conclude, BodyPhase.run, delimited.cuts]
  generalize bodyPhase env.abortAt env.zlib (plainCuts waits (s.world.wire s.conn).unread) (s.world.wire s.conn).unread s.start s.body0 =
    e at leaves
  obtain ⟨unaborted, parts, msgs, ending⟩ := leaves
  cases at_ : unreadAtPause waits (s.world.wire s.conn).unread with
  | none =>
    rw [at_] at ending
    apply iff_of_false
    · rintro ⟨parts', -, msgs'⟩
      simp only [finish, ending, giveUp, sendCb] at msgs'
      have last := (List.append_inj' msgs' rfl).2
      cases last
    · exact fun same => by cases same
  | some left =>
    rw [at_] at ending
    obtain ⟨dry, whole⟩ := ending
    have sent : (finish env s e).fetch.msgs = s.start.fetch.msgs ++ parts.map .data ++ [.finished] := by
      simp only [finish, dry]
      rw [unaborted, if_neg Bool.false_ne_true, sendCb, msgs]
    rw [Option.some.injEq]
    constructor
    · rintro ⟨parts', whole', msgs'⟩
      rw [sent] at msgs'
      have same := List.append_cancel_left (List.append_cancel_right msgs')
      have same : parts = parts' := List.map_injective_iff.mpr (fun x y same => FetchMsg.data.inj same) same
      rw [← same, ← whole] at whole'
      exact (List.self_eq_append_right.mp whole')
    · rintro rfl
      rw [List.append_nil] at whole
      exact ⟨parts, whole, sent⟩

end

/-- A page without a length, with what the receive calls behind its header come to. -/
def closedPage (waits : List Wait) : FetchLabel Unit :=
  pageFetch "a" "HTTP/1.0 200 OK\r\n\r\nhi" (.read 99 true :: plainCuts waits [])

structure BodyFacts where
  site : Site
  fr : Framing
  cuts : List Cut
  unread : List UInt8
  deriving DecidableEq

def BodyPhase.facts (s : BodyPhase Z) : BodyFacts := ⟨s.site, s.fr, s.cuts, (s.world.wire s.conn).unread⟩

theorem closedPage_body (waits : List Wait) (facts : (untilBody (closedPage waits).env (closedPage waits).request worldStart).getRight?.map
    BodyPhase.facts = some ⟨⟨ascii "a", 80, false⟩, ⟨false, false, false, -1, none⟩, plainCuts waits [], []⟩) :
    ∃ s, untilBody (closedPage waits).env (closedPage waits).request worldStart = .inr s ∧ CloseDelimited s waits ∧
      (s.world.wire s.conn).unread = [] := by
  obtain ⟨s, body, same⟩ := Option.map_eq_some_iff.mp facts
  rw [BodyPhase.facts, BodyFacts.mk.injEq] at same
  obtain ⟨site, fr, cuts, unread⟩ := same
  refine ⟨s, Sum.getRight?_eq_some_iff.mp body, ⟨?_, ?_, ?_, ?_, ?_⟩, unread⟩
  · rw [site]
  · rw [fr]
  · rw [fr]
    decide
  · rw [fr]
  · rw [cuts, unread]

theorem close_delimited_pause : ∃ s, untilBody (closedPage [.pause]).env (closedPage [.pause]).request worldStart = .inr s ∧
    (Completes s (fetchProcess (closedPage [.pause]).env (closedPage [.pause]).request worldStart).fetch ↔
      unreadAtPause [.pause] (s.world.wire s.conn).unread = some []) := by
  obtain ⟨s, body, delimited, -⟩ := closedPage_body [.pause] (by decide +kernel)
  exact ⟨s, body, close_delimited (fun _ => rfl) body delimited⟩

/-- Without a pause the end of the connection is taken for its loss. -/
theorem close_lost : ¬ ∀ (l : FetchLabel Unit) (s : BodyPhase Unit) (waits : List Wait), (∀ n, l.env.abortAt n = false) →
    untilBody l.env l.request worldStart = .inr s → CloseDelimited s waits → .pause ∉ waits →
    Completes s (fetchProcess l.env l.request worldStart).fetch := by
  intro claim
  obtain ⟨s, body, delimited, -⟩ := closedPage_body [] (by decide +kernel)
  obtain ⟨parts, -, msgs⟩ := claim (closedPage []) s [] (fun _ => rfl) body delimited List.not_mem_nil
  have unfinished : .finished ∉ (fetchProcess (closedPage []).env (closedPage []).request worldStart).fetch.msgs := by decide +kernel
  apply unfinished
  rw [msgs]
  exact List.mem_append_right _ (List.mem_singleton_self _)

end RexOs.NetSurf
