import RexOs.NetSurf.FetchFraming
import RexOs.NetSurf.FetchOwned

/-! The data of a page does not depend on the packets in which it comes.

`Awaits` says what the bytes that are still to come make of the data sent so far.
-/

set_option autoImplicit false

namespace RexOs.NetSurf

open RexOs.Library

variable {Z : Type}

def Fetch.payload (f : Fetch) : List UInt8 :=
  f.msgs.flatMap fun msg =>
    match msg with
    | .data bytes => bytes
    | _ => []

theorem sendCb_data {abortAt : Nat → Bool} {f : Fetch} {bytes : List UInt8} :
    (sendCb abortAt f (.data bytes)).payload = f.payload ++ bytes := by
  simp only [Fetch.payload, sendCb, List.flatMap_append, List.flatMap_singleton]

/-- `inflate` decodes a stream in pieces: `decodes z rest plain` when from state `z` the bytes `rest`, up to the end of
the stream, decompress to `plain`. With input and room it makes progress, and it ends with the stream's last byte,
when all data has been put out. -/
structure Streaming (zlib : Inflate Z) (decodes : Z → List UInt8 → List UInt8 → Prop) : Prop where
  step : ∀ z piece later plain, piece ≠ [] → decodes z (piece ++ later) plain →
    ((zlib.call z piece).code = .ok ∨
      (zlib.call z piece).code = .streamEnd ∧ (zlib.call z piece).used = piece.length ∧ later = []) ∧
    ∃ plain', plain = (zlib.call z piece).out ++ plain' ∧
      decodes (zlib.call z piece).state (piece.drop (zlib.call z piece).used ++ later) plain'
  done : ∀ z plain, decodes z [] plain → plain = []

variable {zlib : Inflate Z} {decodes : Z → List UInt8 → List UInt8 → Prop} {abortAt : Nat → Bool}

variable (abortAt) in
theorem inflateLoop_streams (streaming : Streaming zlib decodes) {fuel : Nat} {z : Z} {input later plain : List UInt8} {f : Fetch}
    (enough : zlib.calls z input < fuel) (decoded : decodes z (input ++ later) plain) :
    ∃ z' f' plain', inflateLoop abortAt zlib fuel z input f = (some z', f') ∧ decodes z' later plain' ∧
      f.payload ++ plain = f'.payload ++ plain' := by
  induction fuel generalizing z input plain f with
  | zero => exact absurd enough (Nat.not_lt_zero _)
  | succ fuel ih =>
    rw [inflateLoop]
    by_cases empty : input = []
    · subst empty
      exact ⟨z, f, plain, if_pos rfl, decoded, rfl⟩
    rw [if_neg empty]
    dsimp only
    obtain ⟨code, plain', whole, next⟩ := streaming.step z input later plain empty decoded
    have going := zlib.progress z input empty
    generalize zlib.call z input = a at code whole next going
    have sent : (if a.out = [] then f else sendCb abortAt f (.data a.out)).payload = f.payload ++ a.out := by
      split
      · rename_i nothing
        rw [nothing, List.append_nil]
      · exact sendCb_data
    have same : f.payload ++ plain = (if a.out = [] then f else sendCb abortAt f (.data a.out)).payload ++ plain' := by
      rw [sent, whole, List.append_assoc]
    rcases code with ok | ⟨ended, used, rfl⟩
    · have left : zlib.calls a.state (input.drop a.used) < fuel := by
        have fewer := going (Or.inl ok)
        omega
      obtain ⟨z', f', plain'', loop, decoded', rest⟩ := ih left next
      rw [ok, if_neg nofun, if_neg nofun, if_neg (fun both => nomatch both.1)]
      exact ⟨z', f', plain'', loop, decoded', same.trans rest⟩
    · rw [ended, if_neg nofun, if_pos rfl]
      rw [used, List.drop_length] at next
      exact ⟨_, _, plain', rfl, next, same⟩

def Drains (decodes : Z → List UInt8 → List UInt8 → Prop) (b : Body Z) (rest plain : List UInt8) : Prop :=
  if b.gz then decodes b.zs rest plain else rest = plain

variable (abortAt) in
theorem sinkEmit_drains (streaming : Streaming zlib decodes) {b : Body Z} {bytes later plain : List UInt8} (fine : b.sinkErr = false)
    (drains : Drains decodes b (bytes ++ later) plain) :
    (sinkEmit abortAt zlib b bytes).sinkErr = false ∧ ∃ plain', Drains decodes (sinkEmit abortAt zlib b bytes) later plain' ∧
      b.fetch.payload ++ plain = (sinkEmit abortAt zlib b bytes).fetch.payload ++ plain' := by
  unfold sinkEmit
  by_cases empty : bytes = []
  · subst empty
    rw [if_pos rfl]
    exact ⟨fine, plain, drains, rfl⟩
  rw [if_neg empty]
  unfold Drains at drains ⊢
  cases gz : b.gz with
  | false =>
    rw [gz, if_neg Bool.false_ne_true] at drains
    rw [if_pos rfl]
    refine ⟨fine, later, ?_, ?_⟩
    · dsimp only
      rw [if_neg Bool.false_ne_true]
    · rw [← drains, sendCb_data, List.append_assoc]
  | true =>
    rw [gz, if_pos rfl] at drains
    rw [if_neg (by decide)]
    obtain ⟨z', f', plain', loop, decoded, same⟩ := inflateLoop_streams abortAt (f := b.fetch) streaming
      (Nat.lt_succ_self (zlib.calls b.zs bytes)) drains
    rw [loop]
    refine ⟨fine, plain', ?_, same⟩
    dsimp only
    rw [if_pos rfl]
    exact decoded

theorem round_decode_later {d : Decoder} {pending : List UInt8} (going : d.isOver = false) (some_ : pending ≠ []) (later : List UInt8) :
    decode d (pending ++ later) = ⟨(decode (round d pending).dec ((round d pending).rest ++ later)).state,
      (round d pending).bytes ++ (decode (round d pending).dec ((round d pending).rest ++ later)).out,
      (decode (round d pending).dec ((round d pending).rest ++ later)).rest⟩ := by
  have fed := round_decode going some_
  unfold decode at fed ⊢
  rw [feedUntil_append, feedUntil_append, fed]
  simp only [List.append_assoc]

/-- With the bytes `rest` still to come, up to the end of the body and `tail` behind it, the data will be `page`. -/
structure Awaits (decodes : Z → List UInt8 → List UInt8 → Prop) (page tail : List UInt8) (b : Body Z) (rest : List UInt8) : Prop where
  ends : ∃ s out plain, decode b.dec rest = ⟨s, out, tail⟩ ∧ s.isOver = true ∧ Drains decodes b out plain ∧ page = b.fetch.payload ++ plain
  noticed : b.dec.isOver = b.dec.done
  fine : b.sinkErr = false

variable {page tail : List UInt8} {b : Body Z}

variable (abortAt) in
theorem Awaits.step (streaming : Streaming zlib decodes) {pending later : List UInt8} (awaits : Awaits decodes page tail b (pending ++ later))
    (some_ : pending ≠ []) (going : b.dec.done = false) :
    Awaits decodes page tail (bodyStep abortAt zlib b pending).1 ((bodyStep abortAt zlib b pending).2 ++ later) ∧
      (bodyStep abortAt zlib b pending).2.length < pending.length := by
  obtain ⟨s, out, plain, decoded, isOver, drains, whole⟩ := awaits.ends
  have open_ : b.dec.isOver = false := awaits.noticed.trans going
  rw [round_decode_later open_ some_ later] at decoded
  injection decoded with state data rest
  rw [← data] at drains
  obtain ⟨fine, plain', drains', same⟩ := sinkEmit_drains abortAt streaming awaits.fine drains
  have step : bodyStep abortAt zlib b pending = ({ sinkEmit abortAt zlib b (round b.dec pending).bytes with
      dec := (round b.dec pending).dec
      trailerClean := (sinkEmit abortAt zlib b (round b.dec pending).bytes).trailerClean || (round b.dec pending).clean },
      (round b.dec pending).rest) := by
    unfold bodyStep
    dsimp only
    rw [if_neg (by rw [fine]; exact Bool.false_ne_true)]
  rw [step]
  constructor
  · constructor
    · refine ⟨s, _, plain', ?_, isOver, drains', whole.trans same⟩
      dsimp only
      rw [← state, ← rest]
    · exact round_noticed some_
    · exact fine
  · exact round_shorter open_ some_

variable (abortAt) in
theorem bodyInner_awaits (streaming : Streaming zlib decodes) {fuel : Nat} {pending later : List UInt8} (enough : pending.length ≤ fuel)
    (awaits : Awaits decodes page tail b (pending ++ later)) :
    Awaits decodes page tail (bodyInner abortAt zlib fuel b pending).1 ((bodyInner abortAt zlib fuel b pending).2 ++ later) ∧
      ((bodyInner abortAt zlib fuel b pending).2 = [] ∨ (bodyInner abortAt zlib fuel b pending).1.dec.done = true ∨
        (bodyInner abortAt zlib fuel b pending).1.fetch.aborted = true) := by
  induction fuel generalizing b pending with
  | zero => exact ⟨awaits, Or.inl (List.eq_nil_of_length_eq_zero (Nat.le_zero.mp enough))⟩
  | succ fuel ih =>
    by_cases stops : Stops b pending
    · rw [bodyInner_stops stops]
      refine ⟨awaits, ?_⟩
      rcases stops with empty | done | aborted | failed
      · exact Or.inl empty
      · exact Or.inr (Or.inl done)
      · exact Or.inr (Or.inr aborted)
      · rw [awaits.fine] at failed
        cases failed
    · rw [bodyInner_going stops]
      have some_ : pending ≠ [] := fun empty => stops (Or.inl empty)
      have going : b.dec.done = false := Bool.eq_false_iff.mpr fun done => stops (Or.inr (Or.inl done))
      obtain ⟨next, shorter⟩ := awaits.step abortAt streaming some_ going
      exact ih (by omega) next

theorem Awaits.complete (streaming : Streaming zlib decodes) {rest : List UInt8} (awaits : Awaits decodes page tail b rest)
    (done : b.dec.done = true) : b.fetch.payload = page := by
  obtain ⟨s, out, plain, decoded, _, drains, whole⟩ := awaits.ends
  have isOver : b.dec.isOver = true := awaits.noticed.trans done
  have fed : decode b.dec rest = ⟨b.dec, [], rest⟩ := feedUntil_over isOver rest
  rw [fed] at decoded
  injection decoded with _ nothing _
  subst nothing
  have empty : plain = [] := by
    unfold Drains at drains
    split at drains
    · exact streaming.done _ _ drains
    · exact drains.symm
  rw [whole, empty, List.append_nil]

theorem Awaits.more {rest : List UInt8} (awaits : Awaits decodes page tail b rest) (going : b.dec.done = false) : rest ≠ [] := by
  rintro rfl
  obtain ⟨s, out, plain, decoded, isOver, _, _⟩ := awaits.ends
  have nothing : decode b.dec [] = ⟨b.dec, [], []⟩ := rfl
  rw [nothing] at decoded
  injection decoded with same _ _
  rw [← same, awaits.noticed, going] at isOver
  cases isOver

structure BodyEnd.Full (page : List UInt8) (e : BodyEnd Z) : Prop where
  stopped : e.ending = .stopped
  full : e.body.fetch.aborted = false → e.body.fetch.payload = page

def Reading (cuts : List Cut) (unread : List UInt8) : Prop := (∀ cut ∈ cuts, ∃ n, cut = .read n true) ∧ unread.length ≤ cuts.length

theorem Reading.next {cuts : List Cut} {unread : List UInt8} (reading : Reading cuts unread) (some_ : unread ≠ []) :
    ∃ n rest, cuts = .read n true :: rest ∧ ∀ max, 0 < max → Reading rest (unread.drop (min (n + 1) max)) := by
  obtain ⟨reads, enough⟩ := reading
  cases cuts with
  | nil => exact absurd (List.eq_nil_of_length_eq_zero (Nat.le_zero.mp enough)) some_
  | cons cut cuts =>
    obtain ⟨n, rfl⟩ := reads cut (List.mem_cons_self ..)
    refine ⟨n, cuts, rfl, ?_⟩
    intro max positive
    constructor
    · exact fun x member => reads x (List.mem_cons_of_mem _ member)
    · rw [List.length_cons] at enough
      rw [List.length_drop]
      omega

variable (abortAt) in
theorem consume_awaits (streaming : Streaming zlib decodes) {bytes unread : List UInt8} (awaits : Awaits decodes page tail b (bytes ++ unread)) :
    match Body.ended (consume abortAt zlib b bytes) unread with
    | some e => e.Full page
    | none => Awaits decodes page tail (consume abortAt zlib b bytes).1 unread ∧ (consume abortAt zlib b bytes).1.dec.done = false := by
  have start : Awaits decodes page tail { b with pendingLen := bytes.length, received := b.received ++ bytes } (bytes ++ unread) :=
    ⟨awaits.ends, awaits.noticed, awaits.fine⟩
  obtain ⟨after, why⟩ := bodyInner_awaits abortAt streaming (Nat.le_refl bytes.length) start
  have same : consume abortAt zlib b bytes =
      bodyInner abortAt zlib bytes.length { b with pendingLen := bytes.length, received := b.received ++ bytes } bytes := rfl
  rw [← same] at after why
  generalize consume abortAt zlib b bytes = result at after why
  unfold Body.ended
  rw [after.fine, if_neg Bool.false_ne_true]
  cases done : result.1.dec.done with
  | true => exact ⟨rfl, fun _ => after.complete streaming done⟩
  | false =>
    cases aborted : result.1.fetch.aborted with
    | true =>
      refine ⟨rfl, ?_⟩
      intro kept
      dsimp only at kept
      rw [aborted] at kept
      cases kept
    | false =>
      rw [Bool.or_self, if_neg Bool.false_ne_true]
      have empty : result.2 = [] := by
        rcases why with empty | more | more
        · exact empty
        · rw [done] at more
          cases more
        · rw [aborted] at more
          cases more
      rw [empty] at after
      exact ⟨after, rfl⟩

theorem bodyLoop_full (streaming : Streaming zlib decodes) {cuts : List Cut} {empties : Nat} {unread : List UInt8}
    (awaits : Awaits decodes page tail b unread) (going : b.dec.done = false) (reading : Reading cuts unread) :
    (bodyLoop abortAt zlib cuts empties unread b).Full page := by
  induction cuts generalizing empties unread b with
  | nil => exact absurd (List.eq_nil_of_length_eq_zero (Nat.le_zero.mp reading.2)) (awaits.more going)
  | cons cut cuts ih =>
    obtain ⟨n, rest, whole, later⟩ := reading.next (awaits.more going)
    obtain ⟨rfl, rfl⟩ := List.cons.inj whole
    unfold bodyLoop
    rw [rconnRecv, if_neg (awaits.more going)]
    dsimp only
    rw [if_neg (fun full => Bool.false_ne_true full.2.symm)]
    have noted : Awaits decodes page tail b.noteReceive (unread.take (min (n + 1) recvBuf) ++ unread.drop (min (n + 1) recvBuf)) := by
      rw [List.take_append_drop]
      exact ⟨awaits.ends, awaits.noticed, awaits.fine⟩
    have after := consume_awaits abortAt streaming noted
    cases ended : Body.ended (consume abortAt zlib b.noteReceive (unread.take (min (n + 1) recvBuf))) (unread.drop (min (n + 1) recvBuf)) with
    | some e =>
      rw [ended] at after
      exact after
    | none =>
      rw [ended] at after
      exact ih after.1 after.2 (later recvBuf (by decide))

variable (abortAt) in
theorem bodyPhase_full (streaming : Streaming zlib decodes) {cuts : List Cut} {unread body0 : List UInt8}
    (awaits : Awaits decodes page tail b (body0 ++ unread)) (reading : Reading cuts unread) :
    (bodyPhase abortAt zlib cuts unread b body0).Full page := by
  have after := consume_awaits abortAt streaming awaits
  unfold bodyPhase
  dsimp only
  cases ended : Body.ended (consume abortAt zlib b body0) unread with
  | some e =>
    rw [ended] at after
    exact after
  | none =>
    rw [ended] at after
    exact bodyLoop_full streaming after.1 after.2 reading

def crlfCrlf : List UInt8 := [13, 10, 13, 10]

structure HeaderBlock (hdr : List UInt8) : Prop where
  text : 0 ∉ hdr
  first : strstr crlfCrlf (hdr ++ crlfCrlf) = some hdr.length
  fits : (hdr ++ crlfCrlf).length ≤ hdrMax - 1

theorem strstr_eq_firstAt {needle s : List UInt8} (text : 0 ∉ s) : strstr needle s = firstAt needle s := by
  rw [strstr, List.takeWhile_eq_self_iff.mpr]
  intro c member
  apply decide_eq_true
  rintro rfl
  exact text member

theorem recvHeader_block {hdr body : List UInt8} (block : HeaderBlock hdr) {cuts : List Cut} {unread got : List UInt8}
    (whole : got ++ unread = (hdr ++ crlfCrlf) ++ body) (short : got.length < (hdr ++ crlfCrlf).length) (reading : Reading cuts unread) :
    ∃ body0 unread' cuts', recvHeader cuts unread got = ⟨(hdr ++ crlfCrlf) ++ body0, some hdr.length, unread', cuts'⟩ ∧
      body0 ++ unread' = body ∧ Reading cuts' unread' := by
  have some_ : ∀ got unread : List UInt8, got ++ unread = (hdr ++ crlfCrlf) ++ body → got.length < (hdr ++ crlfCrlf).length → unread ≠ [] := by
    rintro got unread whole short rfl
    have lengths := congrArg List.length whole
    rw [List.length_append, List.length_append] at lengths
    simp only [List.length_nil] at lengths
    omega
  have text : 0 ∉ hdr ++ crlfCrlf := by
    rw [List.mem_append, not_or]
    exact ⟨block.text, by decide⟩
  induction cuts generalizing unread got with
  | nil => exact absurd (List.eq_nil_of_length_eq_zero (Nat.le_zero.mp reading.2)) (some_ _ _ whole short)
  | cons cut cuts ih =>
    obtain ⟨n, rest, whole_, later⟩ := reading.next (some_ _ _ whole short)
    obtain ⟨rfl, rfl⟩ := List.cons.inj whole_
    have room : got.length < hdrMax - 1 := Nat.lt_of_lt_of_le short block.fits
    have next := later (hdrMax - 1 - got.length) (by omega)
    rw [recvHeader, if_pos room, rconnRecv, if_neg (some_ _ _ whole short)]
    dsimp only
    generalize cut : min (n + 1) (hdrMax - 1 - got.length) = m at next ⊢
    have split_ : (got ++ unread.take m) ++ unread.drop m = (hdr ++ crlfCrlf) ++ body := by
      rw [List.append_assoc, List.take_append_drop]
      exact whole
    by_cases still : (got ++ unread.take m).length < (hdr ++ crlfCrlf).length
    · -- not all of the headers yet
      have missing : strstr [13, 10, 13, 10] (got ++ unread.take m) = none := by
        have prefix_ : got ++ unread.take m <+: hdr ++ crlfCrlf := by
          apply List.prefix_of_prefix_length_le (List.prefix_append _ (unread.drop m)) _ (Nat.le_of_lt still)
          rw [split_]
          exact List.prefix_append _ _
        obtain ⟨t, top⟩ := prefix_
        have clear : 0 ∉ got ++ unread.take m := fun member => text (top ▸ List.mem_append_left t member)
        have found := block.first
        rw [strstr_eq_firstAt text, ← top] at found
        rw [strstr_eq_firstAt clear]
        have length : (hdr ++ crlfCrlf).length = hdr.length + crlfCrlf.length := List.length_append
        rw [length] at still
        exact firstAt_none found still
      rw [missing]
      exact ih split_ still next
    · have enough : (hdr ++ crlfCrlf).length ≤ (got ++ unread.take m).length := Nat.le_of_not_lt still
      obtain ⟨body0, top⟩ : hdr ++ crlfCrlf <+: got ++ unread.take m := by
        apply List.prefix_of_prefix_length_le (List.prefix_append _ body) _ enough
        rw [← split_]
        exact List.prefix_append _ _
      rw [← top, List.append_assoc] at split_
      have found : strstr [13, 10, 13, 10] (got ++ unread.take m) = some hdr.length := by
        have kept := strstr_kept block.first body0
        have all : (hdr ++ crlfCrlf).take (hdr.length + crlfCrlf.length) = hdr ++ crlfCrlf := by
          rw [← List.length_append, List.take_length]
        rw [all, top] at kept
        exact kept
      rw [found]
      refine ⟨body0, unread.drop m, cuts, ?_, List.append_cancel_left split_, next⟩
      rw [top]

structure Attempt.Delivers (a : Attempt) (response : List UInt8) : Prop where
  opens : a.opening = .opened
  sends : a.sends = true
  answer : a.answer = response
  reading : Reading a.cuts response

/-- Nothing waits to be received on the connections that a fetch of this site may get. -/
structure World.Quiet (w : World) (site : Site) : Prop where
  fresh : ∀ x, w.conns.opened ≤ x → (w.wire x).unread = []
  cached : ∀ i, (w.conns.cache i).Matches site → (w.wire (w.conns.cache i).conn).unread = []

/-- The response comes at the first attempt, or at the second when the first was made on a dead connection. -/
def Delivered (env : FetchEnv Z) (site : Site) (w : World) (response : List UInt8) : Prop :=
  (env.attempt 0).Delivers response ∨
    ∃ i, w.conns.hit site = some i ∧ env.Dead 0 (w.wire (w.conns.cache i).conn).unread ∧ (env.attempt 1).Delivers response

def Arrives (hdr body : List UInt8) (result : World × ConnectEnd) : Prop :=
  ∃ conn body0 cuts, result.2 = .ready conn hdr body0 cuts ∧ body0 ++ (result.1.wire conn).unread = body ∧
    Reading cuts (result.1.wire conn).unread

variable {env : FetchEnv Z} {site : Site} {request hdr body : List UInt8} {w : World} {n k conn : Nat}

theorem tryRequest_arrives {fromCache : Bool} {again : World → World × ConnectEnd} (block : HeaderBlock hdr) (memory : env.memory.header = true)
    (delivers : (env.attempt k).Delivers ((hdr ++ crlfCrlf) ++ body)) (quiet : (w.wire conn).unread = []) :
    Arrives hdr body (tryRequest env request (env.attempt k) fromCache conn again w) := by
  have served : ((w.serve conn request (env.attempt k).answer).wire conn).unread = (hdr ++ crlfCrlf) ++ body := by
    simp only [World.serve, World.setWire, Function.update_self, quiet, List.nil_append, delivers.answer]
  have short : ([] : List UInt8).length < (hdr ++ crlfCrlf).length := by
    rw [List.length_append]
    exact Nat.lt_of_lt_of_le (by decide : 0 < crlfCrlf.length) (Nat.le_add_left _ _)
  obtain ⟨body0, unread', cuts', received, split_, reading⟩ := recvHeader_block block (List.nil_append _) short delivers.reading
  have top : (hdr ++ crlfCrlf ++ body0).take hdr.length = hdr := by
    rw [List.append_assoc, List.take_left]
  have rest : (hdr ++ crlfCrlf ++ body0).drop (hdr.length + 4) = body0 := by
    have length : (hdr ++ crlfCrlf).length = hdr.length + 4 := List.length_append
    rw [← length, List.drop_left]
  unfold tryRequest
  rw [if_neg (by rw [delivers.sends]; decide), if_neg (by rw [memory]; decide)]
  dsimp only
  rw [served, received]
  dsimp only
  rw [top, rest]
  refine ⟨conn, body0, cuts', rfl, ?_, ?_⟩
  · simp only [World.setWire, Function.update_self]
    exact split_
  · simp only [World.setWire, Function.update_self]
    exact reading

theorem connect_arrives (block : HeaderBlock hdr) (memory : env.memory.header = true) (idle : w.conns.running = none) (quiet : w.Quiet site)
    (delivers : (env.attempt k).Delivers ((hdr ++ crlfCrlf) ++ body)) :
    Arrives hdr body (connect env site request (n + 1) k w) := by
  cases found : w.conns.hit site with
  | some i =>
    rw [connect_hit found]
    apply tryRequest_arrives block memory delivers
    unfold Conns.hit at found
    have yes := List.find?_some found
    exact quiet.cached i (of_decide_eq_true yes)
  | none =>
    have missed : (w.perform (.take site)).conns = w.conns := by
      simp only [World.perform, ConnOp.apply, Conns.cacheTake, found]
    have opened : ((w.perform (.take site)).perform (.connect (env.attempt k).opening)).conns.running = some w.conns.opened := by
      rw [delivers.opens]
      simp only [World.perform, ConnOp.apply, Conns.cacheTake, found, Conns.rconnOpen]
    unfold connect
    dsimp only
    rw [missed, idle]
    rw [Option.isSome_none, if_neg Bool.false_ne_true, opened]
    dsimp only
    exact tryRequest_arrives block memory delivers (quiet.fresh _ (Nat.le_refl _))

variable (request) in
theorem delivered_arrives (block : HeaderBlock hdr) (memory : env.memory.header = true) (idle : w.Idle) (quiet : w.Quiet site)
    (delivered : Delivered env site w ((hdr ++ crlfCrlf) ++ body)) : Arrives hdr body (connect env site request 2 0 w) := by
  rcases delivered with first | ⟨i, found, dead, second⟩
  · exact connect_arrives block memory idle.2.2 quiet first
  · obtain ⟨w', again, conns, _, others⟩ := connect_dead request (n := 1) found dead
    have below : (w.conns.cache i).conn < w.conns.opened := by
      unfold Conns.hit at found
      have yes := List.find?_some found
      have used := (of_decide_eq_true yes).1
      apply idle.1.owned.below (some i)
      rw [connSlot, if_pos used]
    have free := (idle.2.1.take site).2
    have opened : w'.conns.opened = w.conns.opened := by
      rw [conns]
      unfold Conns.cacheTake
      rw [found]
      rfl
    rw [again]
    apply connect_arrives block memory _ _ second
    · rw [conns]
      rfl
    · constructor
      · intro x fresh
        rw [opened] at fresh
        rw [others x (by omega)]
        exact quiet.fresh x fresh
      · intro j matches_
        rw [conns] at matches_
        exact absurd matches_ (free j)

theorem forwardHeaders_payload {fr : Framing} {f : Fetch} : (forwardHeaders abortAt fr hdr f).payload = f.payload := by
  unfold forwardHeaders
  induction lineStarts hdr generalizing f with
  | nil => rfl
  | cons line lines ih =>
    rw [List.foldl_cons, ih]
    unfold forwardLine
    split
    · rfl
    · simp only [Fetch.payload, sendCb, List.flatMap_append, List.flatMap_singleton, List.append_nil]

def Redirects (env : FetchEnv Z) (hdr : List UInt8) : Prop :=
  300 ≤ statusCode hdr ∧ statusCode hdr < 400 ∧ (scanHeaders env.memory hdr).location.isSome

def Page (env : FetchEnv Z) (decodes : Z → List UInt8 → List UInt8 → Prop) (fr : Framing) (data page : List UInt8) : Prop :=
  if fr.gzipped then decodes env.zlib.start data page else data = page

def allMemory : Memory := ⟨true, true, true, true, true⟩

theorem fetchResponse_page {data bytes body0 : List UInt8} {cuts : List Cut} (memory : env.memory = allMemory) (status : statusCode hdr ≠ 0)
    (stays : ¬ Redirects env hdr) (framed : Framed (scanHeaders env.memory hdr) data bytes) (streaming : Streaming env.zlib decodes)
    (means : Page env decodes (scanHeaders env.memory hdr) data page) (whole : body0 ++ (w.wire conn).unread = bytes ++ tail)
    (reading : Reading cuts (w.wire conn).unread)
    (kept : (conclude env (fetchResponse env site conn hdr body0 cuts w)).fetch.aborted = false) :
    (conclude env (fetchResponse env site conn hdr body0 cuts w)).fetch.payload = page := by
  unfold fetchResponse at kept ⊢
  dsimp only at kept ⊢
  rw [if_neg status] at kept ⊢
  have here : ∀ f : Fetch, ¬ (300 ≤ statusCode hdr ∧ statusCode hdr < 400 ∧ (scanHeaders env.memory hdr).location.isSome = true ∧ f.aborted = false) :=
    fun f all => stays ⟨all.1, all.2.1, all.2.2.1⟩
  have inflates : ¬ ((scanHeaders env.memory hdr).gzipped = true ∧ env.memory.inflate = false) := by
    rw [memory]
    exact fun both => nomatch both.2
  have buffers : ¬ env.memory.buffers = false := by
    rw [memory]
    exact nofun
  rw [if_neg (here _), if_neg inflates, if_neg buffers] at kept ⊢
  generalize headers : forwardHeaders env.abortAt (scanHeaders env.memory hdr) hdr ⟨[], false, some (statusCode hdr)⟩ = f at kept ⊢
  have nothing : f.payload = [] := by
    rw [← headers, forwardHeaders_payload]
    rfl
  generalize scanHeaders env.memory hdr = fr at framed means kept ⊢
  obtain ⟨s, decoded, isOver⟩ := framed_decoded framed tail
  have awaits : Awaits decodes page tail (bodyStart env.zlib fr f) (body0 ++ (w.wire conn).unread) := by
    constructor
    · refine ⟨s, data, page, ?_, isOver, means, ?_⟩
      · rw [whole]
        exact decoded
      · exact (congrArg (· ++ page) nothing).symm
    · exact framed_open framed
    · rfl
  have full := bodyPhase_full env.abortAt streaming awaits reading
  unfold conclude finish BodyPhase.run at kept ⊢
  dsimp only at kept ⊢
  generalize bodyPhase env.abortAt env.zlib cuts (w.wire conn).unread (bodyStart env.zlib fr f) body0 = e at full kept ⊢
  rw [full.stopped] at kept ⊢
  dsimp only at kept ⊢
  cases aborted : e.body.fetch.aborted with
  | true =>
    rw [aborted, if_pos rfl] at kept
    rw [aborted] at kept
    cases kept
  | false =>
    rw [if_neg Bool.false_ne_true]
    have same : (sendCb env.abortAt e.body.fetch .finished).payload = e.body.fetch.payload := by
      simp only [Fetch.payload, sendCb, List.flatMap_append, List.flatMap_singleton, List.append_nil]
    rw [same]
    exact full.full aborted

/-- However the response is split into packets, the data that NetSurf gets is the page. -/
theorem page_received {r : FetchRequest} {host data bytes : List UInt8} (idle : w.Idle)
    (quiet : w.Quiet ⟨host, r.url.portNumber, r.url.isTls⟩) (named : r.url.host = some host) (memory : env.memory = allMemory)
    (block : HeaderBlock hdr) (status : statusCode hdr ≠ 0) (stays : ¬ Redirects env hdr)
    (framed : Framed (scanHeaders env.memory hdr) data bytes) (streaming : Streaming env.zlib decodes)
    (means : Page env decodes (scanHeaders env.memory hdr) data page)
    (delivered : Delivered env ⟨host, r.url.portNumber, r.url.isTls⟩ w ((hdr ++ crlfCrlf) ++ (bytes ++ tail)))
    (kept : (fetchProcess env r w).fetch.aborted = false) : (fetchProcess env r w).fetch.payload = page := by
  have header : env.memory.header = true := by
    rw [memory]
    rfl
  have request_ : ¬ env.memory.request = false := by
    rw [memory]
    exact nofun
  have arrives := delivered_arrives (r.text host) block header idle quiet delivered
  unfold fetchProcess untilBody at kept ⊢
  dsimp only at kept ⊢
  rw [named] at kept ⊢
  dsimp only at kept ⊢
  rw [if_neg request_] at kept ⊢
  cases connected : connect env ⟨host, r.url.portNumber, r.url.isTls⟩ (r.text host) 2 0 w with
  | mk w' result =>
    rw [connected] at arrives kept
    obtain ⟨conn, body0, cuts, ready, whole, reading⟩ := arrives
    dsimp only at ready whole reading
    subst ready
    exact fetchResponse_page memory status stays framed streaming means whole reading kept

def gzipHello : List UInt8 :=
  [31, 139, 8, 0, 0, 0, 0, 0, 0, 255] ++ [1, 5, 0, 250, 255] ++ ascii "hello" ++ [134, 166, 16, 54, 5, 0, 0, 0]

/-- `inflate` on this stream: the state counts the bytes that were taken, and the data starts at byte 15. -/
def helloInflate : Inflate Nat :=
  { start := 0
    call := fun n input =>
      let used := min input.length (28 - n)
      if 0 < used ∧ input.take used = (gzipHello.drop n).take used then
        ⟨if n + used = 28 then .streamEnd else .ok, used, ((ascii "hello").take (n + used - 15)).drop (n - 15), n + used⟩
      else ⟨.other, 0, [], n⟩
    calls := fun _ input => input.length
    progress := by
      intro n input some_ goesOn
      dsimp only at goesOn ⊢
      split at goesOn
      · rename_i taken
        rw [if_pos taken, List.length_drop]
        have positive := List.length_pos_iff.mpr some_
        have used := taken.1
        dsimp only
        omega
      · rcases goesOn with more | ⟨more, _⟩ <;> cases more }

def helloDecodes (n : Nat) (rest plain : List UInt8) : Prop := n ≤ 28 ∧ rest = gzipHello.drop n ∧ plain = (ascii "hello").drop (n - 15)

theorem helloInflate_streaming : Streaming helloInflate helloDecodes := by
  have length : gzipHello.length = 28 := by decide
  constructor
  · rintro n piece later plain some_ ⟨small, rest, rfl⟩
    have positive := List.length_pos_iff.mpr some_
    have lengths := congrArg List.length rest
    rw [List.length_append, List.length_drop, length] at lengths
    have used : min piece.length (28 - n) = piece.length := Nat.min_eq_left (by omega)
    have same : piece.take piece.length = (gzipHello.drop n).take piece.length := by
      rw [← rest, List.take_left, List.take_length]
    have behind : later = gzipHello.drop (n + piece.length) := by
      rw [← List.drop_drop, ← rest, List.drop_left]
    have call : helloInflate.call n piece = ⟨if n + piece.length = 28 then .streamEnd else .ok, piece.length,
        ((ascii "hello").take (n + piece.length - 15)).drop (n - 15), n + piece.length⟩ := by
      unfold helloInflate
      dsimp only
      rw [used, if_pos ⟨positive, same⟩]
    rw [call]
    dsimp only
    constructor
    · by_cases last : n + piece.length = 28
      · right
        rw [if_pos last]
        refine ⟨rfl, rfl, ?_⟩
        apply List.eq_nil_of_length_eq_zero
        omega
      · left
        exact if_neg last
    · refine ⟨(ascii "hello").drop (n + piece.length - 15), ?_, by omega, ?_, rfl⟩
      · have more : n - 15 ≤ n + piece.length - 15 := by omega
        have rest_ : (ascii "hello").drop (n + piece.length - 15) =
            ((ascii "hello").drop (n - 15)).drop (n + piece.length - 15 - (n - 15)) := by
          rw [List.drop_drop, Nat.add_sub_cancel' more]
        rw [rest_, List.drop_take, List.take_append_drop]
      · rw [List.drop_length, List.nil_append]
        exact behind
  · rintro n plain ⟨small, rest, rfl⟩
    have lengths := congrArg List.length rest
    rw [List.length_drop, length, List.length_nil] at lengths
    have last : n = 28 := by omega
    subst last
    decide

def sizeTen : SizeLine :=
  { digits := ascii "a", ext := [], some_ := by decide, hex := by decide +kernel, delimited := nofun, line := nofun, short := by decide
    fits := by decide }

def sizeEighteen : SizeLine :=
  { digits := ascii "12", ext := ascii ";x=1", some_ := by decide, hex := by decide +kernel, delimited := by decide +kernel
    line := by decide +kernel
    short := by decide, fits := by decide }

def sizeZero : SizeLine :=
  { digits := ascii "0", ext := [], some_ := by decide, hex := by decide +kernel, delimited := nofun, line := nofun, short := by decide
    fits := by decide }

def helloBody : ChunkedBody :=
  { chunks := [⟨sizeTen, gzipHello.take 10, by decide, by decide⟩, ⟨sizeEighteen, gzipHello.drop 10, by decide, by decide⟩]
    last := sizeZero, zero := by decide }

def helloHeaders : List UInt8 := ascii "HTTP/1.1 200 OK\r\nTransfer-Encoding: chunked\r\nContent-Encoding: gzip"

def helloEnv : FetchEnv Nat :=
  { attempt := fun _ => ⟨.opened, true, (helloHeaders ++ crlfCrlf) ++ (helloBody.bytes ++ [13, 10]), List.replicate 200 (.read 2 true)⟩
    memory := allMemory, abortAt := fun _ => false, zlib := helloInflate, join := some, now := 0 }

theorem worldStart_quiet (site : Site) : worldStart.Quiet site := ⟨fun _ _ => rfl, fun _ _ => rfl⟩

theorem reading_replicate {n k : Nat} {unread : List UInt8} (enough : unread.length ≤ k) : Reading (List.replicate k (.read n true)) unread := by
  constructor
  · exact fun cut member => ⟨n, List.eq_of_mem_replicate member⟩
  · rw [List.length_replicate]
    exact enough

def helloRequest : FetchRequest := ⟨⟨some (ascii "http"), some (ascii "a"), none, none, none⟩, none⟩

theorem page_received_hello : (fetchProcess helloEnv helloRequest worldStart).fetch.payload = ascii "hello" := by
  have block : HeaderBlock helloHeaders := by
    constructor
    · decide +kernel
    · decide +kernel
    · decide +kernel
  have scanned : (scanHeaders helloEnv.memory helloHeaders).location = none ∧
      (scanHeaders helloEnv.memory helloHeaders).chunked = true ∧ (scanHeaders helloEnv.memory helloHeaders).gzipped = true := by
    decide +kernel
  obtain ⟨nowhere, chunked, gzipped⟩ := scanned
  have stays : ¬ Redirects helloEnv helloHeaders := by
    rintro ⟨_, _, located⟩
    rw [nowhere] at located
    cases located
  have framed : Framed (scanHeaders helloEnv.memory helloHeaders) helloBody.data helloBody.bytes := .chunked helloBody chunked
  have means : Page helloEnv helloDecodes (scanHeaders helloEnv.memory helloHeaders) helloBody.data (ascii "hello") := by
    rw [Page, if_pos gzipped]
    exact ⟨by decide, by decide, by decide⟩
  have delivers : (helloEnv.attempt 0).Delivers ((helloHeaders ++ crlfCrlf) ++ (helloBody.bytes ++ [13, 10])) :=
    ⟨rfl, rfl, rfl, reading_replicate (by decide +kernel)⟩
  have kept : (fetchProcess helloEnv helloRequest worldStart).fetch.aborted = false := by decide +kernel
  exact page_received worldStart_idle (worldStart_quiet _) rfl rfl block (by decide +kernel) stays framed helloInflate_streaming means
    (Or.inl delivers) kept

def okHeaders : List UInt8 := ascii "HTTP/1.1 200 OK\r\nContent-Length: 5"

def movedHeaders : List UInt8 := ascii "HTTP/1.1 302 Found\r\nLocation: /b\r\nContent-Length: 5"

def fiveEnv (headers : List UInt8) (memory : Memory) (abortAt : Nat → Bool) : FetchEnv Unit :=
  { attempt := fun _ => ⟨.opened, true, (headers ++ crlfCrlf) ++ ascii "hello", List.replicate 80 (.read 0 true)⟩
    memory := memory, abortAt := abortAt, zlib := noInflate, join := some, now := 0 }

/-- A redirect is followed instead of reading its body, and an aborted fetch or one without memory does not
come to the end of it. -/
theorem page_not_received :
    (HeaderBlock okHeaders ∧ Framed (scanHeaders allMemory okHeaders) (ascii "hello") (ascii "hello")) ∧
      (HeaderBlock movedHeaders ∧ Framed (scanHeaders allMemory movedHeaders) (ascii "hello") (ascii "hello")) ∧
      (fetchProcess (fiveEnv movedHeaders allMemory fun _ => false) helloRequest worldStart).fetch.payload = [] ∧
      (fetchProcess (fiveEnv okHeaders allMemory fun n => decide (n = 1)) helloRequest worldStart).fetch.payload = ascii "h" ∧
      (fetchProcess (fiveEnv okHeaders { allMemory with buffers := false } fun _ => false) helloRequest worldStart).fetch.payload = [] := by
  refine ⟨⟨⟨?_, ?_, ?_⟩, .plain _ ?_ ?_ ?_⟩, ⟨⟨?_, ?_, ?_⟩, .plain _ ?_ ?_ ?_⟩, ?_, ?_, ?_⟩
  all_goals decide +kernel

end RexOs.NetSurf
