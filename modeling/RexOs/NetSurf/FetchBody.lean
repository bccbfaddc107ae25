import RexOs.Library.CString

/-! The body of a response (`user/netsurf/fetch_rexos.c`): `sink_emit`, the decoder and the loop that receives.

zlib's `inflate` is a parameter. A connection is the list of bytes that the server has sent and
the fetcher has not received, and a list of what its next receive calls come to.
-/

set_option autoImplicit false

namespace RexOs.NetSurf

open RexOs.Library

inductive FetchMsg where
  | header (line : List UInt8)
  | data (bytes : List UInt8)
  | redirect (url : List UInt8)
  | error (text : String)
  | finished
  deriving DecidableEq, Repr

structure Fetch where
  msgs : List FetchMsg
  aborted : Bool
  httpCode : Option Int
  deriving DecidableEq, Repr

/-- `abortAt` tells at which of its callbacks the fetch is aborted. -/
def sendCb (abortAt : Nat → Bool) (f : Fetch) (msg : FetchMsg) : Fetch :=
  { f with msgs := f.msgs ++ [msg], aborted := f.aborted || abortAt f.msgs.length }

variable {Z : Type}

inductive ZCode where
  | ok
  | streamEnd
  | bufError
  | other
  deriving DecidableEq, Repr

structure ZAnswer (Z : Type) where
  code : ZCode
  used : Nat
  out : List UInt8
  state : Z

/-- Whether the loop of `sink_emit` calls again. -/
def ZAnswer.GoesOn (a : ZAnswer Z) : Prop := a.code = .ok ∨ a.code = .bufError ∧ a.out ≠ []

/-- `inflate` on input that is not empty, with room for 16384 bytes. It goes on only so often before
it needs more input, at most `calls` times. -/
structure Inflate (Z : Type) where
  start : Z
  call : Z → List UInt8 → ZAnswer Z
  calls : Z → List UInt8 → Nat
  progress : ∀ z input, input ≠ [] → (call z input).GoesOn →
    calls (call z input).state (input.drop (call z input).used) < calls z input

/-- The loop of `sink_emit`; no state is left after a decoding error. -/
def inflateLoop (abortAt : Nat → Bool) (zlib : Inflate Z) : Nat → Z → List UInt8 → Fetch → Option Z × Fetch
  | 0, z, _, f => (some z, f)
  | fuel + 1, z, input, f =>
      if input = [] then (some z, f)
      else
        let a := zlib.call z input
        if a.code = .other then (none, f)
        else
          let f := if a.out = [] then f else sendCb abortAt f (.data a.out)
          if a.code = .streamEnd then (some a.state, f)
          else if a.code = .bufError ∧ a.out = [] then (some a.state, f)
          else inflateLoop abortAt zlib fuel a.state (input.drop a.used) f

/-- The variables of the loop over the body. `chunkRemaining` is -1 while a size line is read and -2 behind a chunk. -/
structure Decoder where
  chunked : Bool
  contentLength : Int
  chunkRemaining : Int
  szline : List UInt8
  bodyReceived : Int
  done : Bool
  deriving DecidableEq, Repr

structure Body (Z : Type) where
  dec : Decoder
  gz : Bool
  zs : Z
  sinkErr : Bool
  trailerClean : Bool
  pendingLen : Nat
  fetch : Fetch
  /-- all bytes of the body so far, for reference -/
  received : List UInt8
  /-- `bodyReceived` at each receive call, likewise -/
  receives : List Int

def szlineMax : Nat := 31

def recvBuf : Nat := 8192

def expectingMore (d : Decoder) : Bool :=
  (!d.chunked && decide (0 ≤ d.contentLength) && decide (d.bodyReceived < d.contentLength)) || (d.chunked && !d.done)

/-- A byte that is not data: behind a chunk everything up to a newline is skipped, else a size line is read. -/
def Decoder.lineByte (d : Decoder) (ch : UInt8) : Decoder :=
  if d.chunkRemaining = -2 then { d with chunkRemaining := if ch = 10 then -1 else -2 }
  else if ch = 10 then
    let sz := strtol 16 d.szline
    if sz = 0 then { d with szline := [], done := true } else { d with szline := [], chunkRemaining := sz }
  else if ch ≠ 13 ∧ d.szline.length < szlineMax then { d with szline := d.szline ++ [ch] }
  else d

/-- One round of the inner loop, on the bytes from `off`: what goes to the sink and what is left. -/
structure Round where
  bytes : List UInt8
  rest : List UInt8
  dec : Decoder
  clean : Bool

def round (d : Decoder) (pending : List UInt8) : Round :=
  if d.chunked = false then
    -- not beyond Content-Length
    let n := if 0 ≤ d.contentLength ∧ (pending.length : Int) > d.contentLength - d.bodyReceived
      then (d.contentLength - d.bodyReceived).toNat else pending.length
    let received := d.bodyReceived + n
    ⟨pending.take n, pending.drop n,
      { d with bodyReceived := received, done := decide (0 ≤ d.contentLength ∧ received ≥ d.contentLength) }, false⟩
  else if d.chunkRemaining > 0 then
    let n := if (pending.length : Int) > d.chunkRemaining then d.chunkRemaining.toNat else pending.length
    let remaining := d.chunkRemaining - n
    ⟨pending.take n, pending.drop n, { d with chunkRemaining := if remaining = 0 then -2 else remaining }, false⟩
  else
    match pending with
    | [] => ⟨[], [], d, false⟩
    -- the closing CRLF counts only when it has come already
    | ch :: rest => ⟨[], rest, d.lineByte ch, (d.lineByte ch).done && decide (rest.take 2 = [13, 10])⟩

section
variable (abortAt : Nat → Bool) (zlib : Inflate Z)

def sinkEmit (b : Body Z) (bytes : List UInt8) : Body Z :=
  if bytes = [] then b
  else if b.gz = false then { b with fetch := sendCb abortAt b.fetch (.data bytes) }
  else
    match inflateLoop abortAt zlib (zlib.calls b.zs bytes + 1) b.zs bytes b.fetch with
    | (some z, f) => { b with zs := z, fetch := f }
    | (none, f) => { b with sinkErr := true, fetch := f }

def bodyStep (b : Body Z) (pending : List UInt8) : Body Z × List UInt8 :=
  let r := round b.dec pending
  let b := sinkEmit abortAt zlib b r.bytes
  if b.sinkErr then (b, r.rest) else ({ b with dec := r.dec, trailerClean := b.trailerClean || r.clean }, r.rest)

def Stops (b : Body Z) (pending : List UInt8) : Prop :=
  pending = [] ∨ b.dec.done = true ∨ b.fetch.aborted = true ∨ b.sinkErr = true

instance (b : Body Z) (pending : List UInt8) : Decidable (Stops b pending) := by
  unfold Stops
  infer_instance

def bodyInner : Nat → Body Z → List UInt8 → Body Z × List UInt8
  | 0, b, pending => (b, pending)
  | fuel + 1, b, pending =>
      if Stops b pending then (b, pending)
      else
        let (b, pending) := bodyStep abortAt zlib b pending
        bodyInner fuel b pending

def consume (b : Body Z) (bytes : List UInt8) : Body Z × List UInt8 :=
  bodyInner abortAt zlib bytes.length { b with pendingLen := bytes.length, received := b.received ++ bytes } bytes

end

/-- What one receive call comes to: at most `n + 1` of the bytes that are there (and whether there is
memory for them), nothing in time, the end of the connection, or an error. -/
inductive Cut where
  | read (n : Nat) (room : Bool)
  | silence
  | closed
  | error
  deriving DecidableEq, Repr

def Cut.room : Cut → Bool
  | .read _ room => room
  | _ => true

inductive Got where
  | bytes (bytes : List UInt8)
  | nothing (closed : Bool)
  | failed
  deriving DecidableEq, Repr

/-- `rconn_recv` for at most `max` bytes; what is not received yet is given back. -/
def rconnRecv (max : Nat) (unread : List UInt8) : Cut → Got × List UInt8
  | .read n _ =>
      if unread = [] then (.nothing false, [])
      else (.bytes (unread.take (min (n + 1) max)), unread.drop (min (n + 1) max))
  | .silence => (.nothing false, unread)
  | .closed => (.nothing true, unread)
  | .error => (.failed, unread)

theorem rconnRecv_splits {max : Nat} {unread unread' bytes : List UInt8} {cut : Cut}
    (got : rconnRecv max unread cut = (.bytes bytes, unread')) : bytes ++ unread' = unread := by
  cases cut with
  | read n room =>
    rw [rconnRecv] at got
    split at got
    · cases got
    · cases got
      exact List.take_append_drop _ _
  | silence => cases got
  | closed => cases got
  | error => cases got

theorem rconnRecv_keeps {max : Nat} {unread unread' : List UInt8} {cut : Cut} {got : Got}
    (result : rconnRecv max unread cut = (got, unread')) (none_ : ∀ bytes, got ≠ .bytes bytes) : unread' = unread := by
  cases cut with
  | read n room =>
    rw [rconnRecv] at result
    split at result
    · rename_i empty
      cases result
      exact empty.symm
    · cases result
      exact absurd rfl (none_ _)
  | silence => cases result; rfl
  | closed => cases result; rfl
  | error => cases result; rfl

inductive Ending where
  | stopped
  | dry (closed : Bool)
  | lost
  | noMemory
  | sinkErr
  deriving DecidableEq, Repr

structure BodyEnd (Z : Type) where
  body : Body Z
  left : List UInt8
  unread : List UInt8
  ending : Ending

def maxEmpty : Nat := 3

section
variable (abortAt : Nat → Bool) (zlib : Inflate Z)

/-- `received` is what the inner loop made of the last bytes. -/
def Body.ended (received : Body Z × List UInt8) (unread : List UInt8) : Option (BodyEnd Z) :=
  if received.1.sinkErr then some ⟨received.1, received.2, unread, .sinkErr⟩
  else if received.1.dec.done || received.1.fetch.aborted then some ⟨received.1, received.2, unread, .stopped⟩
  else none

def Body.noteReceive (b : Body Z) : Body Z := { b with receives := b.receives ++ [b.dec.bodyReceived] }

/-- The outer loop from its receive call on. `empties` counts the calls that gave nothing in a row; behind
the list of cuts the connection is closed. -/
def bodyLoop : List Cut → Nat → List UInt8 → Body Z → BodyEnd Z
  | [], _, unread, b => ⟨b.noteReceive, [], unread, .dry true⟩
  | cut :: cuts, empties, unread, b =>
      let b := b.noteReceive
      match rconnRecv recvBuf unread cut with
      | (.failed, unread) => ⟨b, [], unread, .lost⟩
      | (.nothing closed, unread) =>
          if expectingMore b.dec ∧ empties < maxEmpty then bodyLoop cuts (empties + 1) unread b
          else ⟨b, [], unread, .dry closed⟩
      | (.bytes bytes, unread) =>
          if bytes.length > b.pendingLen ∧ cut.room = false then ⟨b, [], unread, .noMemory⟩
          else
            let received := consume abortAt zlib b bytes
            match Body.ended received unread with
            | some e => e
            | none => bodyLoop cuts 0 unread received.1

def bodyPhase (cuts : List Cut) (unread : List UInt8) (b : Body Z) (body0 : List UInt8) : BodyEnd Z :=
  let received := consume abortAt zlib b body0
  match Body.ended received unread with
  | some e => e
  | none => bodyLoop abortAt zlib cuts 0 unread received.1

end

end RexOs.NetSurf
