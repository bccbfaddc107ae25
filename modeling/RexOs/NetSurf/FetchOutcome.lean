import RexOs.NetSurf.FetchDecode
import RexOs.NetSurf.FetchOwned

/-! How a fetch ends: its last message, and when `FETCH_FINISHED` is sent.

A body that stays incomplete is reported as finished when its connection falls silent.
-/

set_option autoImplicit false

namespace RexOs.NetSurf

open RexOs.Library

variable {Z : Type}

def FetchMsg.terminal : FetchMsg → Bool
  | .redirect _ | .error _ | .finished => true
  | .header _ | .data _ => false

def Fetch.terminals (f : Fetch) : Nat := f.msgs.countP FetchMsg.terminal

theorem sendCb_terminals {abortAt : Nat → Bool} {f : Fetch} {msg : FetchMsg} :
    (sendCb abortAt f msg).terminals = f.terminals + if msg.terminal then 1 else 0 := by
  rw [Fetch.terminals, sendCb, List.countP_append, List.countP_singleton]
  rfl

theorem ended_body {received : Body Z × List UInt8} {unread : List UInt8} {e : BodyEnd Z} (ended : Body.ended received unread = some e) :
    e.body = received.1 := by
  unfold Body.ended at ended
  split at ended
  · cases ended
    rfl
  split at ended
  · cases ended
    rfl
  · cases ended

section
variable {abortAt : Nat → Bool} (zlib : Inflate Z) {Inv : Fetch → Prop}
  (kept : ∀ f bytes, Inv f → Inv (sendCb abortAt f (.data bytes)))
include kept

theorem inflateLoop_kept {fuel : Nat} {z : Z} {input : List UInt8} {f : Fetch} (before : Inv f) :
    Inv (inflateLoop abortAt zlib fuel z input f).2 := by
  induction fuel generalizing z input f with
  | zero => exact before
  | succ fuel ih =>
    rw [inflateLoop]
    split
    · exact before
    dsimp only
    split
    · exact before
    have sent : Inv (if (zlib.call z input).out = [] then f else sendCb abortAt f (.data (zlib.call z input).out)) := by
      split
      · exact before
      · exact kept f _ before
    split
    · exact sent
    split
    · exact sent
    · exact ih sent

theorem sinkEmit_kept {b : Body Z} {bytes : List UInt8} (before : Inv b.fetch) : Inv (sinkEmit abortAt zlib b bytes).fetch := by
  unfold sinkEmit
  split
  · exact before
  split
  · exact kept b.fetch bytes before
  · have sent : Inv (inflateLoop abortAt zlib (zlib.calls b.zs bytes + 1) b.zs bytes b.fetch).2 := inflateLoop_kept zlib kept before
    split
    · rename_i result
      rw [result] at sent
      exact sent
    · rename_i result
      rw [result] at sent
      exact sent

theorem bodyStep_kept {b : Body Z} {pending : List UInt8} (before : Inv b.fetch) :
    Inv (bodyStep abortAt zlib b pending).1.fetch := by
  have sent : Inv (sinkEmit abortAt zlib b (round b.dec pending).bytes).fetch := sinkEmit_kept zlib kept before
  unfold bodyStep
  dsimp only
  split <;> exact sent

theorem bodyInner_kept {fuel : Nat} {b : Body Z} {pending : List UInt8} (before : Inv b.fetch) :
    Inv (bodyInner abortAt zlib fuel b pending).1.fetch := by
  induction fuel generalizing b pending with
  | zero => exact before
  | succ fuel ih =>
    rw [bodyInner]
    split
    · exact before
    · exact ih (bodyStep_kept zlib kept before)

theorem consume_kept {b : Body Z} {bytes : List UInt8} (before : Inv b.fetch) : Inv (consume abortAt zlib b bytes).1.fetch :=
  bodyInner_kept zlib kept before

theorem bodyLoop_kept {cuts : List Cut} {empties : Nat} {unread : List UInt8} {b : Body Z} (before : Inv b.fetch) :
    Inv (bodyLoop abortAt zlib cuts empties unread b).body.fetch := by
  induction cuts generalizing empties unread b with
  | nil => exact before
  | cons cut cuts ih =>
    have noted : Inv b.noteReceive.fetch := before
    unfold bodyLoop
    dsimp only
    split
    · exact before
    · split
      · exact ih noted
      · exact before
    · split
      · exact before
      · rename_i bytes unread' _ _
        have received : Inv (consume abortAt zlib b.noteReceive bytes).1.fetch := consume_kept zlib kept noted
        split
        · rename_i e ended
          rw [ended_body ended]
          exact received
        · exact ih received

theorem bodyPhase_kept {cuts : List Cut} {unread body0 : List UInt8} {b : Body Z} (before : Inv b.fetch) :
    Inv (bodyPhase abortAt zlib cuts unread b body0).body.fetch := by
  have received : Inv (consume abortAt zlib b body0).1.fetch := consume_kept zlib kept before
  unfold bodyPhase
  dsimp only
  split
  · rename_i e ended
    rw [ended_body ended]
    exact received
  · exact bodyLoop_kept zlib kept received

end

def isHexByte (c : UInt8) : Bool :=
  match digitValue c with
  | some v => decide (v < 16)
  | none => false

def zeroLine (line : List UInt8) : Bool :=
  let digits := (line.filter (· ≠ 13)).takeWhile isHexByte
  !digits.isEmpty && digits.all (· = 48)

def lastLine (taken : List UInt8) : List UInt8 := (taken.dropLast.reverse.takeWhile (· ≠ 10)).reverse

def ZeroChunk (fr : Framing) (received : List UInt8) : Prop :=
  (decode fr.decoder received).state.done = true ∧
    zeroLine (lastLine (received.take (received.length - (decode fr.decoder received).rest.length))) = true

def Received (fr : Framing) (e : BodyEnd Z) : Prop :=
  if fr.chunked then ZeroChunk fr e.body.received
  else if 0 ≤ fr.contentLength then fr.contentLength ≤ e.body.received.length
  else e.ending = .dry true

def EndsHonestly (fr : Framing) (b : Body Z) (left : List UInt8) : Prop :=
  fr.chunked = true → zeroLine (lastLine (b.received.take (b.received.length - left.length))) = true

variable {abortAt : Nat → Bool} {zlib : Inflate Z} {fr : Framing} {b : Body Z} {stream unread : List UInt8}

theorem reads_framing (reads : b.Reads fr.decoder) : b.dec.chunked = fr.chunked ∧ b.dec.contentLength = fr.contentLength ∧
    (fr.chunked = false → b.dec.bodyReceived = b.received.length) ∧ (fr.decoder.isOver = false → b.dec.isOver = b.dec.done) := by
  obtain ⟨out, decoded⟩ := reads
  have framing := decode_framing fr.decoder b.received
  rw [decoded] at framing
  refine ⟨framing.1, framing.2, ?_, ?_⟩
  · intro plain
    have counts := decode_counts (d := fr.decoder) plain b.received
    rw [decoded] at counts
    simpa [Framing.decoder] using counts
  · intro going
    have noticed := decode_noticed (d := fr.decoder) going b.received
    rw [decoded] at noticed
    exact noticed

theorem received_dry {left : List UInt8} {closed : Bool} (going : b.Going fr.decoder stream unread) :
    Received fr ⟨b, left, unread, .dry closed⟩ ↔
      expectingMore b.dec = false ∧ (fr.chunked = false → fr.contentLength < 0 → closed = true) := by
  obtain ⟨chunked, length, counts, _⟩ := reads_framing going.reads
  obtain ⟨out, decoded⟩ := going.reads
  have open_ := going.going
  cases framing : fr.chunked with
  | true =>
    have unfinished : ¬ ZeroChunk fr b.received := by
      rintro ⟨done, _⟩
      rw [decoded] at done
      rw [done] at open_
      cases open_
    simp [Received, framing, unfinished, expectingMore, chunked, open_]
  | false =>
    have count := counts framing
    by_cases framed : 0 ≤ fr.contentLength
    · simp [Received, framing, framed, expectingMore, chunked, length, count]
    · simp [Received, framing, framed, expectingMore, chunked, length]
      omega

theorem received_stopped {e : BodyEnd Z} (complete : Complete fr.decoder stream e) : Received fr e ↔ EndsHonestly fr e.body e.left := by
  obtain ⟨⟨s, out, decoded, isOver, stands⟩, done, _, _⟩ := complete
  cases framing : fr.chunked with
  | true =>
    have chunked : s.chunked = true := by
      have kept := (decode_framing fr.decoder e.body.received).1
      rw [decoded] at kept
      exact kept.trans framing
    have noticed : s.done = true := (over_chunked chunked).symm.trans isOver
    simp [Received, EndsHonestly, ZeroChunk, framing, decoded, noticed]
  | false =>
    have reached := decode_reached (d := fr.decoder) framing rfl e.body.received (by rw [decoded]; exact isOver)
    have counts := decode_counts (d := fr.decoder) framing e.body.received
    rw [decoded] at reached counts
    have framed : 0 ≤ fr.contentLength := reached.1
    have enough : fr.contentLength ≤ s.bodyReceived := reached.2
    have counted : s.bodyReceived + e.left.length = 0 + e.body.received.length := counts
    simp only [Received, EndsHonestly, framing, Bool.false_eq_true, if_false, if_pos framed, false_imp_iff, iff_true]
    omega

section
variable (abortAt : Nat → Bool) (zlib : Inflate Z) (fr : Framing)

/-- The loop does not give up on a body that is still expected, does not take silence for the end of the
connection, and does not take another size line for the zero chunk. -/
def Sustained : List Cut → Nat → List UInt8 → Body Z → Prop
  | [], _, _, b => expectingMore b.dec = false
  | cut :: cuts, empties, unread, b =>
      let b := b.noteReceive
      match rconnRecv recvBuf unread cut with
      | (.failed, _) => True
      | (.nothing closed, unread) =>
          if expectingMore b.dec then empties < maxEmpty ∧ Sustained cuts (empties + 1) unread b
          else fr.chunked = false → fr.contentLength < 0 → closed = true
      | (.bytes bytes, unread) =>
          if bytes.length > b.pendingLen ∧ cut.room = false then True
          else
            let received := consume abortAt zlib b bytes
            if received.1.sinkErr ∨ received.1.fetch.aborted then True
            else if received.1.dec.done then EndsHonestly fr received.1 received.2
            else Sustained cuts 0 unread received.1

def GoesWell (cuts : List Cut) (unread : List UInt8) (b : Body Z) (body0 : List UInt8) : Prop :=
  ¬ (fr.chunked = false ∧ fr.contentLength = 0 ∧ body0 = [] ∧ b.fetch.aborted = false) ∧
    let received := consume abortAt zlib b body0
    if received.1.sinkErr ∨ received.1.fetch.aborted then True
    else if received.1.dec.done then EndsHonestly fr received.1 received.2
    else Sustained abortAt zlib fr cuts 0 unread received.1

end

def Rightly (fr : Framing) (e : BodyEnd Z) : Prop :=
  (e.ending = .stopped ∨ ∃ closed, e.ending = .dry closed) → e.body.fetch.aborted = false → Received fr e

def Body.Unhurried (fr : Framing) (b : Body Z) : Prop :=
  fr.chunked = false → 0 ≤ fr.contentLength → ∀ n ∈ b.receives, n < fr.contentLength

theorem rightly_dry {left : List UInt8} {closed : Bool} (going : b.Going fr.decoder stream unread) :
    Rightly fr ⟨b, left, unread, .dry closed⟩ ↔
      expectingMore b.dec = false ∧ (fr.chunked = false → fr.contentLength < 0 → closed = true) := by
  rw [← received_dry going]
  constructor
  · intro rightly
    apply rightly (Or.inr ⟨closed, rfl⟩)
    exact Bool.eq_false_iff.mpr fun aborted => going.fine (Or.inl aborted)
  · exact fun received _ _ => received

theorem rightly_ended {result : Body Z × List UInt8} {later : BodyEnd Z} {Later : Prop}
    (sound : match Body.ended result unread with
      | some e => e.Sound fr.decoder stream
      | none => result.1.Going fr.decoder stream unread)
    (goes : result.1.Going fr.decoder stream unread → (Rightly fr later ↔ Later)) :
    Rightly fr (match Body.ended result unread with
      | some e => e
      | none => later) ↔
      if result.1.sinkErr ∨ result.1.fetch.aborted then True
      else if result.1.dec.done then EndsHonestly fr result.1 result.2
      else Later := by
  unfold Body.ended at sound ⊢
  by_cases failed : result.1.sinkErr = true
  · rw [if_pos failed, if_pos (Or.inl failed), iff_true]
    rintro (stopped | ⟨closed, dry⟩)
    · cases stopped
    · cases dry
  rw [if_neg failed] at sound ⊢
  by_cases aborted : result.1.fetch.aborted = true
  · rw [aborted, Bool.or_true, if_pos rfl, if_pos (Or.inr rfl), iff_true]
    intro _ kept
    rw [aborted] at kept
    cases kept
  rw [Bool.not_eq_true] at aborted
  have fine : ¬ (result.1.sinkErr = true ∨ result.1.fetch.aborted = true) := by
    rw [aborted]
    simpa using failed
  rw [if_neg fine]
  cases done : result.1.dec.done with
  | true =>
    rw [done, Bool.true_or, if_pos rfl] at sound
    rw [Bool.true_or, if_pos rfl, if_pos rfl]
    have received := received_stopped (sound.stopped rfl aborted)
    dsimp only at received
    rw [← received]
    constructor
    · exact fun rightly => rightly (Or.inl rfl) aborted
    · exact fun received _ _ => received
  | false =>
    rw [done, aborted, Bool.or_self, if_neg Bool.false_ne_true] at sound
    rw [aborted, Bool.or_self, if_neg Bool.false_ne_true, if_neg Bool.false_ne_true]
    exact goes sound

theorem bodyLoop_rightly {cuts : List Cut} {empties : Nat} (going : b.Going fr.decoder stream unread) :
    Rightly fr (bodyLoop abortAt zlib cuts empties unread b) ↔ Sustained abortAt zlib fr cuts empties unread b := by
  induction cuts generalizing empties unread b with
  | nil =>
    have noted : b.noteReceive.Going fr.decoder stream unread := ⟨going.reads, going.going, going.fine, going.clean, going.whole⟩
    rw [bodyLoop, rightly_dry noted, Sustained]
    simp only [implies_true, and_true]
    rfl
  | cons cut cuts ih =>
    have noted : b.noteReceive.Going fr.decoder stream unread := ⟨going.reads, going.going, going.fine, going.clean, going.whole⟩
    unfold bodyLoop Sustained
    dsimp only
    cases got : rconnRecv recvBuf unread cut with
    | mk result unread' =>
      cases result with
      | failed =>
        simp only [iff_true]
        rintro (stopped | ⟨closed, dry⟩)
        · cases stopped
        · cases dry
      | nothing closed =>
        have same := rconnRecv_keeps got nofun
        subst same
        dsimp only
        cases more : expectingMore b.noteReceive.dec with
        | false =>
          rw [if_neg (by simp), if_neg Bool.false_ne_true, rightly_dry noted, more]
          simp only [true_and]
        | true =>
          by_cases early : empties < maxEmpty
          · rw [if_pos ⟨rfl, early⟩, if_pos rfl, ih noted, and_iff_right early]
          · rw [if_neg (fun both => early both.2), if_pos rfl, rightly_dry noted, more]
            simp [early]
      | bytes bytes =>
        dsimp only
        by_cases full : bytes.length > b.noteReceive.pendingLen ∧ cut.room = false
        · rw [if_pos full, if_pos full, iff_true]
          rintro (stopped | ⟨closed, dry⟩)
          · cases stopped
          · cases dry
        · rw [if_neg full, if_neg full]
          have whole : stream = b.noteReceive.received ++ (bytes ++ unread') := by
            rw [rconnRecv_splits got]
            exact noted.whole
          have sound := consume_sound abortAt zlib noted.reads noted.clean whole
          exact rightly_ended sound fun going' => ih going'

theorem bodyPhase_rightly {cuts : List Cut} {body0 : List UInt8} (fresh : b.received = []) (clean : b.trailerClean = false)
    (start : b.dec = fr.decoder) :
    Rightly fr (bodyPhase abortAt zlib cuts unread b body0) ↔
      (let received := consume abortAt zlib b body0
      if received.1.sinkErr ∨ received.1.fetch.aborted then True
      else if received.1.dec.done then EndsHonestly fr received.1 received.2
      else Sustained abortAt zlib fr cuts 0 unread received.1) := by
  have reads : b.Reads fr.decoder := ⟨[], by rw [fresh, start]; rfl⟩
  have whole : body0 ++ unread = b.received ++ (body0 ++ unread) := by rw [fresh, List.nil_append]
  have sound := consume_sound abortAt zlib reads clean whole
  exact rightly_ended sound fun going => bodyLoop_rightly going

theorem bodyInner_receives {fuel : Nat} {pending : List UInt8} : (bodyInner abortAt zlib fuel b pending).1.receives = b.receives := by
  induction fuel generalizing b pending with
  | zero => rfl
  | succ fuel ih =>
    rw [bodyInner]
    split
    · rfl
    · have same := (sinkEmit_same abortAt zlib b (round b.dec pending).bytes).receives
      have step : (bodyStep abortAt zlib b pending).1.receives = b.receives := by
        unfold bodyStep
        dsimp only
        split <;> exact same
      exact ih.trans step

theorem consume_receives {bytes : List UInt8} : (consume abortAt zlib b bytes).1.receives = b.receives := bodyInner_receives

theorem Body.Unhurried.note (unhurried : b.Unhurried fr) (going : b.Going fr.decoder stream unread) (open_ : fr.decoder.isOver = false) :
    b.noteReceive.Unhurried fr := by
  intro plain framed n member
  rcases List.mem_append.mp member with before | now
  · exact unhurried plain framed n before
  · obtain ⟨chunked, length, _, noticed⟩ := reads_framing going.reads
    rw [List.mem_singleton] at now
    subst now
    have short := noticed open_
    rw [going.going] at short
    by_contra late
    rw [(over_plain (chunked.trans plain) going.going).mpr (by rw [length]; omega)] at short
    cases short

theorem bodyLoop_unhurried {cuts : List Cut} {empties : Nat} (going : b.Going fr.decoder stream unread)
    (open_ : fr.decoder.isOver = false) (unhurried : b.Unhurried fr) :
    (bodyLoop abortAt zlib cuts empties unread b).body.Unhurried fr := by
  induction cuts generalizing empties unread b with
  | nil => exact unhurried.note going open_
  | cons cut cuts ih =>
    have noted : b.noteReceive.Going fr.decoder stream unread := ⟨going.reads, going.going, going.fine, going.clean, going.whole⟩
    have still := unhurried.note going open_
    unfold bodyLoop
    dsimp only
    split
    · exact still
    · rename_i got
      rw [rconnRecv_keeps got nofun]
      split
      · exact ih noted still
      · exact still
    · rename_i bytes unread' got
      split
      · exact still
      · have whole : stream = b.noteReceive.received ++ (bytes ++ unread') := by
          rw [rconnRecv_splits got]
          exact noted.whole
        have sound := consume_sound abortAt zlib noted.reads noted.clean whole
        have after : (consume abortAt zlib b.noteReceive bytes).1.Unhurried fr := by
          rw [Body.Unhurried, consume_receives]
          exact still
        cases ended : Body.ended (consume abortAt zlib b.noteReceive bytes) unread' with
        | some e =>
          dsimp only
          rw [ended_body ended]
          exact after
        | none =>
          rw [ended] at sound
          exact ih sound after

theorem bodyLoop_receives {cuts : List Cut} {empties : Nat} :
    b.receives ++ [b.dec.bodyReceived] <+: (bodyLoop abortAt zlib cuts empties unread b).body.receives := by
  induction cuts generalizing empties unread b with
  | nil => exact List.prefix_rfl
  | cons cut cuts ih =>
    have here : b.receives ++ [b.dec.bodyReceived] <+: b.noteReceive.receives := List.prefix_rfl
    have later : ∀ (b' : Body Z) (unread' : List UInt8) (n : Nat), b'.receives = b.noteReceive.receives →
        b.receives ++ [b.dec.bodyReceived] <+: (bodyLoop abortAt zlib cuts n unread' b').body.receives := by
      intro b' unread' n same
      have grown : b'.receives <+: b'.receives ++ [b'.dec.bodyReceived] := List.prefix_append _ _
      rw [same] at grown
      have more : b'.receives ++ [b'.dec.bodyReceived] <+: (bodyLoop abortAt zlib cuts n unread' b').body.receives := ih
      rw [same] at more
      exact here.trans (grown.trans more)
    unfold bodyLoop
    dsimp only
    split
    · exact here
    · split
      · exact later _ _ _ rfl
      · exact here
    · split
      · exact here
      · rename_i bytes unread' _ _
        have same : (consume abortAt zlib b.noteReceive bytes).1.receives = b.noteReceive.receives := consume_receives
        cases ended : Body.ended (consume abortAt zlib b.noteReceive bytes) unread' with
        | some e =>
          dsimp only
          rw [ended_body ended, same]
          exact here
        | none => exact later _ _ _ same

theorem bodyPhase_unhurried {cuts : List Cut} {body0 : List UInt8} (fresh : b.received = []) (clean : b.trailerClean = false)
    (start : b.dec = fr.decoder) (none_ : b.receives = []) (fine : b.sinkErr = false) :
    (bodyPhase abortAt zlib cuts unread b body0).body.Unhurried fr ↔
      ¬ (fr.chunked = false ∧ fr.contentLength = 0 ∧ body0 = [] ∧ b.fetch.aborted = false) := by
  have reads : b.Reads fr.decoder := ⟨[], by rw [fresh, start]; rfl⟩
  have whole : body0 ++ unread = b.received ++ (body0 ++ unread) := by rw [fresh, List.nil_append]
  have sound := consume_sound abortAt zlib reads clean whole
  have quiet : (consume abortAt zlib b body0).1.Unhurried fr := by
    intro _ _ n member
    rw [consume_receives, none_] at member
    cases member
  unfold bodyPhase
  dsimp only
  cases ended : Body.ended (consume abortAt zlib b body0) unread with
  | some e =>
    dsimp only
    rw [ended_body ended]
    apply iff_of_true quiet
    rintro ⟨_, _, rfl, kept⟩
    -- without bytes nothing is worked through
    have same : consume abortAt zlib b [] = ({ b with pendingLen := 0, received := b.received ++ [] }, []) := rfl
    rw [same, Body.ended] at ended
    simp [fine, kept, start, Framing.decoder] at ended
  | none =>
    rw [ended] at sound
    dsimp only
    cases full : fr.decoder.isOver with
    | false =>
      apply iff_of_true (bodyLoop_unhurried sound full quiet)
      rintro ⟨plain, zero, _⟩
      rw [Bool.eq_false_iff] at full
      apply full
      rw [over_plain (d := fr.decoder) plain rfl]
      exact ⟨Int.le_of_eq zero.symm, Int.le_of_eq zero⟩
    | true =>
      obtain ⟨out, decoded⟩ := sound.reads
      have fed : decode fr.decoder (consume abortAt zlib b body0).1.received = ⟨fr.decoder, [], _⟩ := feedUntil_over full _
      rw [fed] at decoded
      injection decoded with same _ empty
      have plain : fr.chunked = false := by
        apply Bool.eq_false_iff.mpr
        intro chunked
        rw [over_chunked (d := fr.decoder) chunked] at full
        cases full
      obtain ⟨framed, reached⟩ := (over_plain (d := fr.decoder) plain rfl).mp full
      have zero : fr.contentLength = 0 := Int.le_antisymm reached framed
      apply iff_of_false
      · intro unhurried
        have grown : (consume abortAt zlib b body0).1.receives ++ [(consume abortAt zlib b body0).1.dec.bodyReceived] <+:
            (bodyLoop abortAt zlib cuts 0 unread (consume abortAt zlib b body0).1).body.receives := bodyLoop_receives
        have first := grown.subset (List.mem_append_right _ (List.mem_singleton_self _))
        have short := unhurried plain framed _ first
        rw [← same] at short
        exact absurd short (by rw [zero]; exact Int.lt_irrefl 0)
      · intro waits
        have stood := consume_stood abortAt zlib body0 reads clean sound.fine
        rw [stood.received, fresh, List.nil_append] at empty
        apply waits
        refine ⟨plain, zero, empty, ?_⟩
        have kept : ¬ (consume abortAt zlib b body0).1.Flagged := sound.fine
        rw [empty] at kept
        exact Bool.eq_false_iff.mpr fun aborted => kept (Or.inl aborted)

structure OutcomeRight (e : FetchEnd Z) : Prop where
  once : e.fetch.aborted = false → e.fetch.terminals = 1
  atMost : e.fetch.terminals ≤ 1
  complete : .finished ∈ e.fetch.msgs → ∃ fr b, e.body = some (fr, b) ∧ Received fr b
  unhurried : ∀ fr b, e.body = some (fr, b) → b.body.Unhurried fr

theorem terminals_none {f : Fetch} (none_ : f.terminals = 0) : .finished ∉ f.msgs := by
  intro member
  rw [Fetch.terminals, List.countP_eq_zero] at none_
  exact none_ _ member rfl

variable {env : FetchEnv Z}

theorem outcome_early {w : World} {f : Fetch} {msg : FetchMsg} (none_ : f.terminals = 0) (terminal : msg.terminal = true)
    (other : msg ≠ .finished) : OutcomeRight (Z := Z) ⟨w, sendCb env.abortAt f msg, none⟩ := by
  have one : (sendCb env.abortAt f msg).terminals = 1 := by
    rw [sendCb_terminals, none_, if_pos terminal]
  constructor
  · exact fun _ => one
  · exact Nat.le_of_eq one
  · intro finished
    rcases List.mem_append.mp finished with before | last
    · exact absurd before (terminals_none none_)
    · exact absurd (List.mem_singleton.mp last).symm other
  · intro fr b some_
    cases some_

theorem forwardHeaders_terminals {hdr : List UInt8} {f : Fetch} (none_ : f.terminals = 0) :
    (forwardHeaders env.abortAt fr hdr f).terminals = 0 := by
  unfold forwardHeaders
  induction lineStarts hdr generalizing f with
  | nil => exact none_
  | cons line lines ih =>
    rw [List.foldl_cons]
    apply ih
    unfold forwardLine
    split
    · exact none_
    · rw [sendCb_terminals, none_]
      rfl

structure BodyPhase.Begins (env : FetchEnv Z) (s : BodyPhase Z) : Prop where
  start : ∃ f, s.start = bodyStart env.zlib s.fr f ∧ f.terminals = 0

def BodyPhase.Well (env : FetchEnv Z) (s : BodyPhase Z) : Prop :=
  GoesWell env.abortAt env.zlib s.fr s.cuts (s.world.wire s.conn).unread s.start s.body0

theorem finish_outcome {s : BodyPhase Z} (begins : s.Begins env) : OutcomeRight (finish env s (s.run env)) ↔ s.Well env := by
  obtain ⟨f, start, none_⟩ := begins.start
  have fresh : s.start.received = [] ∧ s.start.trailerClean = false ∧ s.start.dec = s.fr.decoder ∧ s.start.receives = [] ∧
      s.start.sinkErr = false := by
    rw [start]
    exact ⟨rfl, rfl, rfl, rfl, rfl⟩
  obtain ⟨received, clean, first, receives, fine⟩ := fresh
  have rightly : Rightly s.fr (bodyPhase env.abortAt env.zlib s.cuts (s.world.wire s.conn).unread s.start s.body0) ↔ _ :=
    bodyPhase_rightly received clean first
  have unhurried : (bodyPhase env.abortAt env.zlib s.cuts (s.world.wire s.conn).unread s.start s.body0).body.Unhurried s.fr ↔ _ :=
    bodyPhase_unhurried received clean first receives fine
  have headers : s.start.fetch.terminals = 0 := by
    rw [start]
    exact none_
  have kept : ∀ (f : Fetch) bytes, f.terminals = 0 → (sendCb env.abortAt f (.data bytes)).terminals = 0 := by
    intro f bytes none_
    rw [sendCb_terminals, none_]
    rfl
  have quiet : (s.run env).body.fetch.terminals = 0 := bodyPhase_kept env.zlib kept headers
  unfold BodyPhase.Well GoesWell
  rw [← unhurried, ← rightly]
  have run : bodyPhase env.abortAt env.zlib s.cuts (s.world.wire s.conn).unread s.start s.body0 = s.run env := rfl
  rw [run]
  generalize s.run env = e at quiet
  have failed : ∀ (w : World) (text : String), (∀ closed, e.ending ≠ .dry closed) → e.ending ≠ .stopped →
      (OutcomeRight (giveUp env w e.body.fetch text (some (s.fr, e))) ↔ e.body.Unhurried s.fr ∧ Rightly s.fr e) := by
    intro w text notDry notStopped
    have one : (sendCb env.abortAt e.body.fetch (.error text)).terminals = 1 := by
      rw [sendCb_terminals, quiet]
      rfl
    constructor
    · intro right
      refine ⟨right.unhurried s.fr e rfl, ?_⟩
      rintro (stopped | ⟨closed, dry⟩)
      · exact absurd stopped notStopped
      · exact absurd dry (notDry closed)
    · rintro ⟨unhurried, _⟩
      constructor
      · exact fun _ => one
      · exact Nat.le_of_eq one
      · intro finished
        rcases List.mem_append.mp finished with before | last
        · exact absurd before (terminals_none quiet)
        · cases List.mem_singleton.mp last
      · intro fr b some_
        cases some_
        exact unhurried
  have finished : ∀ w : World, (e.ending = .stopped ∨ ∃ closed, e.ending = .dry closed) →
      (OutcomeRight ⟨w, if e.body.fetch.aborted then e.body.fetch else sendCb env.abortAt e.body.fetch .finished, some (s.fr, e)⟩ ↔
        e.body.Unhurried s.fr ∧ Rightly s.fr e) := by
    intro w ends
    cases aborted : e.body.fetch.aborted with
    | true =>
      rw [if_pos rfl]
      constructor
      · intro right
        refine ⟨right.unhurried s.fr e rfl, ?_⟩
        intro _ going
        rw [aborted] at going
        cases going
      · rintro ⟨unhurried, _⟩
        constructor
        · intro going
          dsimp only at going
          rw [aborted] at going
          cases going
        · exact Nat.le_trans (Nat.le_of_eq quiet) (Nat.zero_le 1)
        · intro finished
          exact absurd finished (terminals_none quiet)
        · intro fr b some_
          cases some_
          exact unhurried
    | false =>
      rw [if_neg Bool.false_ne_true]
      have one : (sendCb env.abortAt e.body.fetch .finished).terminals = 1 := by
        rw [sendCb_terminals, quiet]
        rfl
      constructor
      · intro right
        refine ⟨right.unhurried s.fr e rfl, ?_⟩
        intro _ _
        obtain ⟨fr, b, same, received⟩ := right.complete (List.mem_append_right _ (List.mem_singleton_self _))
        cases same
        exact received
      · rintro ⟨unhurried, rightly⟩
        constructor
        · exact fun _ => one
        · exact Nat.le_of_eq one
        · exact fun _ => ⟨s.fr, e, rfl, rightly ends aborted⟩
        · intro fr b some_
          cases some_
          exact unhurried
  unfold finish
  dsimp only
  cases ending : e.ending with
  | lost => exact failed _ _ (by rw [ending]; exact fun _ => nofun) (by rw [ending]; exact nofun)
  | noMemory => exact failed _ _ (by rw [ending]; exact fun _ => nofun) (by rw [ending]; exact nofun)
  | sinkErr => exact failed _ _ (by rw [ending]; exact fun _ => nofun) (by rw [ending]; exact nofun)
  | stopped => exact finished _ (Or.inl ending)
  | dry closed => exact finished _ (Or.inr ⟨closed, ending⟩)

def Prepared (env : FetchEnv Z) : FetchEnd Z ⊕ BodyPhase Z → Prop
  | .inl early => OutcomeRight early
  | .inr s => s.Begins env

theorem fetchResponse_prepared {site : Site} {conn : Nat} {hdr body0 : List UInt8} {cuts : List Cut} {w : World} :
    Prepared env (fetchResponse env site conn hdr body0 cuts w) := by
  have headers : (forwardHeaders env.abortAt (scanHeaders env.memory hdr) hdr ⟨[], false, some (statusCode hdr)⟩).terminals = 0 :=
    forwardHeaders_terminals rfl
  unfold fetchResponse giveUp
  dsimp only
  split
  · exact outcome_early rfl rfl nofun
  split
  · split <;> exact outcome_early headers rfl nofun
  split
  · exact outcome_early headers rfl nofun
  split
  · exact outcome_early headers rfl nofun
  · exact ⟨_, rfl, headers⟩

theorem untilBody_prepared (r : FetchRequest) (w : World) : Prepared env (untilBody env r w) := by
  unfold untilBody
  dsimp only
  split
  · exact outcome_early rfl rfl nofun
  split
  · exact outcome_early rfl rfl nofun
  split
  · exact outcome_early rfl rfl nofun
  · exact fetchResponse_prepared

def BodyWell (env : FetchEnv Z) (r : FetchRequest) (w : World) : Prop := ∀ s, untilBody env r w = .inr s → s.Well env

/-- Every fetch ends with one message, and only an incomplete body that is given up, a size line that is none,
or a body of length zero spoils the outcome. -/
theorem outcome_right (env : FetchEnv Z) (r : FetchRequest) (w : World) : OutcomeRight (fetchProcess env r w) ↔ BodyWell env r w := by
  have prepared : Prepared env (untilBody env r w) := untilBody_prepared r w
  unfold fetchProcess BodyWell
  cases result : untilBody env r w with
  | inl early =>
    rw [result] at prepared
    apply iff_of_true prepared
    intro s same
    cases same
  | inr s =>
    rw [result] at prepared
    rw [conclude, finish_outcome prepared]
    constructor
    · rintro well _ same
      cases same
      exact well
    · exact fun well => well s rfl

def cutPage : FetchLabel Unit :=
  pageFetch "a" "HTTP/1.1 200 OK\r\nContent-Length: 5\r\n\r\nab" [.read 99 true, .closed, .closed, .closed, .closed]

/-- Two of five bytes, and then the connection is closed: the page is reported as finished. -/
theorem truncated_finished : .finished ∈ (fetchProcess cutPage.env cutPage.request worldStart).fetch.msgs ∧
    ¬ OutcomeRight (fetchProcess cutPage.env cutPage.request worldStart) := by
  have finished : .finished ∈ (fetchProcess cutPage.env cutPage.request worldStart).fetch.msgs := by decide +kernel
  have short : (fetchProcess cutPage.env cutPage.request worldStart).body.map
      (fun p => (p.1.chunked, p.1.contentLength, p.2.body.received.length)) = some (false, 5, 2) := by decide +kernel
  refine ⟨finished, ?_⟩
  intro right
  obtain ⟨fr, b, body, received⟩ := right.complete finished
  rw [body, Option.map_some, Option.some.injEq, Prod.mk.injEq, Prod.mk.injEq] at short
  obtain ⟨plain, length, two⟩ := short
  dsimp only at plain length two
  rw [Received, plain, length, two, if_neg Bool.false_ne_true, if_pos (by decide)] at received
  exact absurd received (by decide)

end RexOs.NetSurf
