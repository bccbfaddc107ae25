import RexOs.NetSurf.FetchBody
import RexOs.NetSurf.FetchConns

/-! One HTTP transaction: `fetch_rexos_process` of `user/netsurf/fetch_rexos.c`.

What the machine and NetSurf answer is in `FetchEnv`. The server's bytes are numbered by the
request they follow: `answer` is all that it sends on a connection until the next request there.
-/

set_option autoImplicit false

namespace RexOs.NetSurf

open RexOs.Library

def ascii (s : String) : List UInt8 := s.toList.map fun c => c.toNat.toUInt8

def hdrMax : Nat := 16384

structure Memory where
  request : Bool
  header : Bool
  location : Bool
  inflate : Bool
  buffers : Bool
  deriving DecidableEq, Repr

variable {Z : Type}

structure Attempt where
  opening : Opening
  sends : Bool
  answer : List UInt8
  cuts : List Cut
  deriving DecidableEq, Repr

/-- `join` is `nsurl_join` with the URL of the fetch, and `now` the time of `cache_put`. -/
structure FetchEnv (Z : Type) where
  attempt : Nat → Attempt
  memory : Memory
  abortAt : Nat → Bool
  zlib : Inflate Z
  join : List UInt8 → Option (List UInt8)
  now : Nat

structure Url where
  scheme : Option (List UInt8)
  host : Option (List UInt8)
  port : Option (List UInt8)
  path : Option (List UInt8)
  query : Option (List UInt8)
  deriving DecidableEq, Repr

def Url.isTls (url : Url) : Bool := url.scheme = some (ascii "https")

def Url.portNumber (url : Url) : UInt16 :=
  match url.port with
  | some port => UInt16.ofInt (atoi port)
  | none => if url.isTls then 443 else 80

structure FetchRequest where
  url : Url
  postUrlenc : Option (List UInt8)
  deriving DecidableEq, Repr

def FetchRequest.text (r : FetchRequest) (host : List UInt8) : List UInt8 :=
  let query := match r.url.query with
    | some query => ascii "?" ++ query
    | none => []
  let first := ascii (if r.postUrlenc.isSome then "POST " else "GET ") ++ r.url.path.getD (ascii "/") ++ query ++
    ascii " HTTP/1.1\r\nHost: " ++ host ++
    ascii "\r\nUser-Agent: NetSurf/3.11 (RexOS; x86_64)\r\nAccept: */*\r\nAccept-Encoding: gzip\r\nConnection: keep-alive\r\n"
  match r.postUrlenc with
  | some post => first ++ ascii "Content-Type: application/x-www-form-urlencoded\r\nContent-Length: " ++
      ascii (toString post.length) ++ ascii "\r\n\r\n" ++ post
  | none => first ++ ascii "\r\n"

/-- A connection: the requests on it, what the server has sent and no fetch has received, and what a fetch
has received behind the end of its response. -/
structure Wire where
  requests : List (List UInt8)
  unread : List UInt8
  lost : List UInt8

structure World where
  conns : Conns
  trace : List ConnOp
  wire : Nat → Wire

namespace World
variable (w : World)

def perform (op : ConnOp) : World := { w with conns := op.apply w.conns, trace := w.trace ++ [op] }

def setWire (conn : Nat) (wire : Wire) : World := { w with wire := Function.update w.wire conn wire }

def serve (conn : Nat) (request answer : List UInt8) : World :=
  w.setWire conn
    { w.wire conn with requests := (w.wire conn).requests ++ [request], unread := (w.wire conn).unread ++ answer }

end World

def worldStart : World := { conns := connsStart, trace := [], wire := fun _ => ⟨[], [], []⟩ }

structure HeaderEnd where
  hdr : List UInt8
  found : Option Nat
  unread : List UInt8
  cuts : List Cut

def recvHeader : List Cut → List UInt8 → List UInt8 → HeaderEnd
  | [], unread, hdr => ⟨hdr, none, unread, []⟩
  | cut :: cuts, unread, hdr =>
      if hdr.length < hdrMax - 1 then
        match rconnRecv (hdrMax - 1 - hdr.length) unread cut with
        | (.bytes bytes, unread) =>
            match strstr [13, 10, 13, 10] (hdr ++ bytes) with
            | some pos => ⟨hdr ++ bytes, some pos, unread, cuts⟩
            | none => recvHeader cuts unread (hdr ++ bytes)
        | (_, unread) => ⟨hdr, none, unread, cuts⟩
      else ⟨hdr, none, unread, cut :: cuts⟩

theorem recvHeader_splits (cuts : List Cut) (unread hdr : List UInt8) :
    ∃ more, (recvHeader cuts unread hdr).hdr = hdr ++ more ∧ unread = more ++ (recvHeader cuts unread hdr).unread := by
  induction cuts generalizing unread hdr with
  | nil => exact ⟨[], (List.append_nil _).symm, rfl⟩
  | cons cut cuts ih =>
    rw [recvHeader]
    split
    · cases got : rconnRecv (hdrMax - 1 - hdr.length) unread cut with
      | mk result unread' =>
        cases result with
        | bytes bytes =>
          have split_ := rconnRecv_splits got
          dsimp only
          split
          · exact ⟨bytes, rfl, split_.symm⟩
          · obtain ⟨more, grown, rest⟩ := ih unread' (hdr ++ bytes)
            exact ⟨bytes ++ more, by rw [grown, List.append_assoc], by rw [List.append_assoc, ← rest, split_]⟩
        | nothing closed => exact ⟨[], (List.append_nil _).symm, (rconnRecv_keeps got nofun).symm⟩
        | failed => exact ⟨[], (List.append_nil _).symm, (rconnRecv_keeps got nofun).symm⟩
    · exact ⟨[], (List.append_nil _).symm, rfl⟩

theorem recvHeader_found {cuts : List Cut} {unread hdr : List UInt8} {pos : Nat} (found : (recvHeader cuts unread hdr).found = some pos) :
    strstr [13, 10, 13, 10] (recvHeader cuts unread hdr).hdr = some pos := by
  induction cuts generalizing unread hdr with
  | nil => cases found
  | cons cut cuts ih =>
    rw [recvHeader] at found ⊢
    split at found
    · rename_i room
      rw [if_pos room]
      cases got : rconnRecv (hdrMax - 1 - hdr.length) unread cut with
      | mk result unread' =>
        simp only [got] at found ⊢
        cases result with
        | bytes bytes =>
          dsimp only at found ⊢
          cases here : strstr [13, 10, 13, 10] (hdr ++ bytes) with
          | some pos' =>
            simp only [here] at found ⊢
            exact found
          | none =>
            simp only [here] at found ⊢
            exact ih found
        | nothing closed => cases found
        | failed => cases found
    · cases found

def statusCode (hdr : List UInt8) : Int :=
  match hdr.dropWhile (· ≠ 32) with
  | [] => 0
  | _ :: rest => atoi rest

/-- What stands behind every newline, up to the end of the headers. -/
def lineStarts : List UInt8 → List (List UInt8)
  | [] => []
  | c :: rest => if c = 10 ∧ rest ≠ [] then rest :: lineStarts rest else lineStarts rest

def lineText (line : List UInt8) : List UInt8 := ((line.takeWhile (· ≠ 10)).reverse.dropWhile (· = 13)).reverse

structure Framing where
  chunked : Bool
  gzipped : Bool
  srvClose : Bool
  contentLength : Int
  location : Option (List UInt8)
  deriving DecidableEq, Repr

def scanLine (memory : Memory) (fr : Framing) (line : List UInt8) : Framing :=
  if lineText line = [] then fr
  else if startsNoCase (ascii "Transfer-Encoding:") line ∧ hasNoCase (ascii "chunked") (line.drop 18) then
    { fr with chunked := true }
  else if startsNoCase (ascii "Content-Length:") line then { fr with contentLength := atol (line.drop 15) }
  else if startsNoCase (ascii "Content-Encoding:") line ∧ hasNoCase (ascii "gzip") (line.drop 17) then
    { fr with gzipped := true }
  else if startsNoCase (ascii "Connection:") line ∧ hasNoCase (ascii "close") (line.drop 11) then
    { fr with srvClose := true }
  else if startsNoCase (ascii "Location:") line then
    { fr with location := if memory.location then some (((lineText line).drop 9).dropWhile (· = 32)) else none }
  else fr

def scanHeaders (memory : Memory) (hdr : List UInt8) : Framing :=
  (lineStarts hdr).foldl (scanLine memory) ⟨false, false, false, -1, none⟩

def suppressed (fr : Framing) (line : List UInt8) : Bool :=
  fr.gzipped && (startsNoCase (ascii "Content-Encoding:") line || startsNoCase (ascii "Content-Length:") line)

def forwardLine (abortAt : Nat → Bool) (fr : Framing) (f : Fetch) (line : List UInt8) : Fetch :=
  if f.aborted ∨ lineText line = [] ∨ suppressed fr line then f else sendCb abortAt f (.header (lineText line))

def forwardHeaders (abortAt : Nat → Bool) (fr : Framing) (hdr : List UInt8) (f : Fetch) : Fetch :=
  (lineStarts hdr).foldl (forwardLine abortAt fr) f

inductive ConnectEnd where
  | failed (text : String)
  | ready (conn : Nat) (hdr body0 : List UInt8) (cuts : List Cut)

def openFailure (site : Site) : String := if site.isTls then "TLS connection failed" else "Connection failed"

/-- The request is sent and the headers are received; `again` is the next attempt. -/
def tryRequest (env : FetchEnv Z) (request : List UInt8) (a : Attempt) (fromCache : Bool) (conn : Nat)
    (again : World → World × ConnectEnd) (w : World) : World × ConnectEnd :=
  if a.sends = false then
    let w := w.perform (.close fromCache)
    if fromCache then again w else (w, .failed "Failed to send request")
  else
    let w := w.serve conn request a.answer
    if env.memory.header = false then (w.perform (.close false), .failed "Out of memory")
    else
      let h := recvHeader a.cuts (w.wire conn).unread []
      let w := w.setWire conn { w.wire conn with unread := h.unread }
      match h.found with
      | some pos => (w, .ready conn (h.hdr.take pos) (h.hdr.drop (pos + 4)) h.cuts)
      | none =>
          let stale := fromCache && h.hdr.isEmpty
          let w := w.perform (.close stale)
          if stale then again w else (w, .failed "Malformed HTTP response")

def connect (env : FetchEnv Z) (site : Site) (request : List UInt8) : Nat → Nat → World → World × ConnectEnd
  | 0, _, w => (w, .failed "Connection failed")
  | attempts + 1, k, w =>
      let a := env.attempt k
      let w := w.perform (.take site)
      let fromCache := w.conns.running.isSome
      let w := if fromCache then w else w.perform (.connect a.opening)
      match w.conns.running with
      | none => (w, .failed (openFailure site))
      | some conn => tryRequest env request a fromCache conn (fun w => connect env site request attempts (k + 1) w) w

def bodyStart (zlib : Inflate Z) (fr : Framing) (f : Fetch) : Body Z :=
  { dec := ⟨fr.chunked, fr.contentLength, -1, [], 0, false⟩, gz := fr.gzipped, zs := zlib.start, sinkErr := false
    trailerClean := false, pendingLen := 0, fetch := f, received := [], receives := [] }

structure FetchEnd (Z : Type) where
  world : World
  fetch : Fetch
  body : Option (Framing × BodyEnd Z)

def Ending.isDry : Ending → Bool
  | .dry _ => true
  | _ => false

def reusable (fr : Framing) (e : BodyEnd Z) : Bool :=
  !(fr.srvClose || e.ending.isDry) && !e.body.fetch.aborted && (e.body.dec.done || e.ending.isDry) &&
    ((fr.chunked && e.body.trailerClean) ||
      (!fr.chunked && decide (0 ≤ fr.contentLength) && decide (e.body.dec.bodyReceived = fr.contentLength)))

/-- What was received behind the response; the closing CRLF of a chunked one belongs to it. -/
def leftOver (fr : Framing) (e : BodyEnd Z) : List UInt8 := if fr.chunked then e.left.drop 2 else e.left

def giveUp (env : FetchEnv Z) (w : World) (f : Fetch) (text : String) (body : Option (Framing × BodyEnd Z)) :
    FetchEnd Z :=
  ⟨w.perform (.close false), sendCb env.abortAt f (.error text), body⟩

structure BodyPhase (Z : Type) where
  site : Site
  conn : Nat
  world : World
  fr : Framing
  start : Body Z
  body0 : List UInt8
  cuts : List Cut

def BodyPhase.run (env : FetchEnv Z) (s : BodyPhase Z) : BodyEnd Z :=
  bodyPhase env.abortAt env.zlib s.cuts (s.world.wire s.conn).unread s.start s.body0

def finish (env : FetchEnv Z) (s : BodyPhase Z) (e : BodyEnd Z) : FetchEnd Z :=
  let wire := s.world.wire s.conn
  let w := s.world.setWire s.conn { wire with unread := e.unread, lost := wire.lost ++ leftOver s.fr e }
  let f := e.body.fetch
  match e.ending with
  | .lost => giveUp env w f "Connection lost while reading body" (some (s.fr, e))
  | .noMemory => giveUp env w f "Out of memory" (some (s.fr, e))
  | .sinkErr => giveUp env w f "gzip decode error" (some (s.fr, e))
  | .stopped | .dry _ =>
      let w := if reusable s.fr e then w.perform (.put s.site env.now) else w.perform (.close false)
      ⟨w, if f.aborted then f else sendCb env.abortAt f .finished, some (s.fr, e)⟩

def fetchResponse (env : FetchEnv Z) (site : Site) (conn : Nat) (hdr body0 : List UInt8) (cuts : List Cut) (w : World) :
    FetchEnd Z ⊕ BodyPhase Z :=
  let code := statusCode hdr
  if code = 0 then .inl (giveUp env w ⟨[], false, none⟩ "Bad HTTP status line" none)
  else
    let fr := scanHeaders env.memory hdr
    let f := forwardHeaders env.abortAt fr hdr ⟨[], false, some code⟩
    if 300 ≤ code ∧ code < 400 ∧ fr.location.isSome ∧ f.aborted = false then
      match fr.location.bind env.join with
      | some url => .inl ⟨w.perform (.close false), sendCb env.abortAt f (.redirect url), none⟩
      | none => .inl (giveUp env w f "Bad redirect location" none)
    else if fr.gzipped ∧ env.memory.inflate = false then .inl (giveUp env w f "Out of memory (inflate)" none)
    else if env.memory.buffers = false then .inl (giveUp env w f "Out of memory" none)
    else .inr ⟨site, conn, w, fr, bodyStart env.zlib fr f, body0, cuts⟩

def untilBody (env : FetchEnv Z) (r : FetchRequest) (w : World) : FetchEnd Z ⊕ BodyPhase Z :=
  let failed (w : World) (text : String) : FetchEnd Z := ⟨w, sendCb env.abortAt ⟨[], false, none⟩ (.error text), none⟩
  match r.url.host with
  | none => .inl (failed w "Missing host in URL")
  | some host =>
      if env.memory.request = false then .inl (failed w "Out of memory")
      else
        let site := ⟨host, r.url.portNumber, r.url.isTls⟩
        match connect env site (r.text host) 2 0 w with
        | (w, .failed text) => .inl (failed w text)
        | (w, .ready conn hdr body0 cuts) => fetchResponse env site conn hdr body0 cuts w

def conclude (env : FetchEnv Z) : FetchEnd Z ⊕ BodyPhase Z → FetchEnd Z
  | .inl isOver => isOver
  | .inr s => finish env s (s.run env)

def fetchProcess (env : FetchEnv Z) (r : FetchRequest) (w : World) : FetchEnd Z := conclude env (untilBody env r w)

structure FetchLabel (Z : Type) where
  env : FetchEnv Z
  request : FetchRequest

def FetchStep (w : World) (l : FetchLabel Z) (w' : World) : Prop := w' = (fetchProcess l.env l.request w).world

end RexOs.NetSurf
