import Mathlib.Logic.Function.Basic
import Mathlib.Algebra.Group.Nat.Defs

/-! TCP (`kernel/net/tcp.c`).

A function that sends returns the segments it hands to `ipv4_send`, in order,
next to the new state. `rxBuf` and `txBuf` are the valid prefixes of the source's
buffers, so `rx_len` and `tx_len` are their lengths; the callbacks of a socket
are never set in the kernel and are left out. Sequence numbers are 32-bit words.
-/

set_option autoImplicit false

namespace RexOs.Net

def tcpRxBufSize : Nat := 32768
def tcpTxBufSize : Nat := 8192
def tcpDefaultMss : Nat := 536
def tcpOurMss : Nat := 1460
def tcpRtoBaseTicks : Nat := 30
def tcpMaxRetries : Nat := 6

def tcpFin : UInt8 := 1
def tcpSyn : UInt8 := 2
def tcpRst : UInt8 := 4
def tcpPsh : UInt8 := 8
def tcpAck : UInt8 := 16

inductive TcpState where
  | closed
  | synSent
  | synReceived
  | established
  | finWait1
  | finWait2
  | closeWait
  | closing
  | lastAck
  | timeWait
  deriving DecidableEq, Repr

structure Ip4Addr where
  b0 : UInt8
  b1 : UInt8
  b2 : UInt8
  b3 : UInt8
  deriving DecidableEq, Repr

def Ip4Addr.bytes (a : Ip4Addr) : List UInt8 := [a.b0, a.b1, a.b2, a.b3]

theorem fourBits_neZero : @NeZero Nat Zero.ofOfNat0 16 := ⟨by decide⟩

/-- `tcp_header_t` with the bytes that follow it, numbers in host order. The
checksum is kept as the source stores it, without a byte swap. -/
structure TcpHeader where
  srcPort : UInt16
  destPort : UInt16
  seq : UInt32
  ack : UInt32
  reserved : Fin 16
  dataOffset : Fin 16
  flags : UInt8
  windowSize : UInt16
  checksum : UInt16
  urgentPtr : UInt16
  optionsAndPayload : List UInt8
  deriving DecidableEq, Repr

/-- `sizeof(tcp_header_t)`. -/
def tcpHeaderSize : Nat := 20

def htons (v : UInt16) : List UInt8 := [(v >>> 8).toUInt8, v.toUInt8]

def htonl (v : UInt32) : List UInt8 :=
  [(v >>> 24).toUInt8, (v >>> 16).toUInt8, (v >>> 8).toUInt8, v.toUInt8]

def TcpHeader.toBytes (h : TcpHeader) : List UInt8 :=
  htons h.srcPort ++ htons h.destPort ++ htonl h.seq ++ htonl h.ack ++
  [UInt8.ofNat (h.dataOffset.val * 16 + h.reserved.val), h.flags] ++ htons h.windowSize ++
  [h.checksum.toUInt8, (h.checksum >>> 8).toUInt8] ++ htons h.urgentPtr ++ h.optionsAndPayload

/-- A segment as handed to `ipv4_send`. -/
structure Sent where
  dest : Ip4Addr
  segment : TcpHeader
  deriving DecidableEq, Repr

structure Socket where
  /-- The socket's address. -/
  id : Nat
  state : TcpState
  devIp : Ip4Addr
  remoteIp : Ip4Addr
  localPort : UInt16
  remotePort : UInt16
  iss : UInt32
  seq : UInt32
  sndUna : UInt32
  ack : UInt32
  peerMss : UInt16
  rxBuf : List UInt8
  txBuf : List UInt8
  rtoDeadline : Nat
  rtoTries : Nat
  deriving DecidableEq, Repr

structure Tcp where
  sockets : List Socket
  nextPort : UInt16
  deriving DecidableEq, Repr

def tcpPortInUse (sockets : List Socket) (port : UInt16) : Bool := sockets.any fun s => s.localPort == port

/-- `tcp_alloc_port`'s loop: the port and the next `s_next_port`. -/
def tcpAllocPort (sockets : List Socket) : Nat → UInt16 → UInt16 × UInt16
  | 0, next => (49152, next)
  | guard + 1, next =>
      let p := if next < 49152 then 49152 else next
      if tcpPortInUse sockets p then tcpAllocPort sockets guard (p + 1) else (p, p + 1)

def Socket.matches (s : Socket) (remoteIp : Ip4Addr) (remotePort localPort : UInt16) : Bool :=
  s.remotePort == remotePort && s.localPort == localPort && s.remoteIp == remoteIp

def tcpFindSocket (sockets : List Socket) (remoteIp : Ip4Addr) (remotePort localPort : UInt16) : Option Socket :=
  sockets.find? fun s => s.matches remoteIp remotePort localPort

/-- The socket at an address; none if `tcp_socket_is_valid` fails there. -/
def Tcp.socketAt (t : Tcp) (id : Nat) : Option Socket := t.sockets.find? fun s => s.id == id

def Tcp.put (t : Tcp) (s : Socket) : Tcp :=
  { t with sockets := t.sockets.map fun old => if old.id = s.id then s else old }

/-- The 16-bit words as the little-endian machine reads them; an odd last byte counts alone. -/
def wordSum : List UInt8 → UInt32
  | [] => 0
  | [b] => b.toUInt32
  | lo :: hi :: rest => lo.toUInt32 + 256 * hi.toUInt32 + wordSum rest

def foldCarry (sum : UInt32) : UInt32 :=
  (sum &&& (0xFFFF : UInt32)) + (sum >>> (16 : UInt32))

/-- After two rounds a 32-bit sum has no carry left, so the source's loop ends there. -/
def tcpChecksum (src dst : Ip4Addr) (segment : List UInt8) : UInt16 :=
  let len := segment.length
  let pseudo := src.bytes ++ dst.bytes ++ [0, 6, UInt8.ofNat (len / 256), UInt8.ofNat len]
  ~~~ (foldCarry (foldCarry (wordSum pseudo + wordSum segment))).toUInt16

def tcpFreeWindow (s : Socket) : UInt16 :=
  let free := if s.rxBuf.length ≥ tcpRxBufSize then 0 else tcpRxBufSize - s.rxBuf.length
  UInt16.ofNat (if free > 0xFFFF then 0xFFFF else free)

def mssOption : List UInt8 := [2, 4, UInt8.ofNat (tcpOurMss / 256), UInt8.ofNat tcpOurMss]

def tcpOutput (s : Socket) (flags : UInt8) (seq : UInt32) (data : List UInt8) : List Sent :=
  let opt := if flags &&& tcpSyn ≠ 0 then mssOption else []
  if tcpHeaderSize + opt.length + data.length > 2048 then []
  else
    let hdr : TcpHeader :=
      { srcPort := s.localPort
        destPort := s.remotePort
        seq := seq
        ack := if flags &&& tcpAck ≠ 0 then s.ack else 0
        reserved := 0
        dataOffset := if flags &&& tcpSyn ≠ 0 then 6 else 5
        flags := flags
        windowSize := tcpFreeWindow s
        checksum := 0
        urgentPtr := 0
        optionsAndPayload := opt ++ data }
    [⟨s.remoteIp, { hdr with checksum := tcpChecksum s.devIp s.remoteIp hdr.toBytes }⟩]

def tcpSendSegment (s : Socket) (flags : UInt8) (data : List UInt8) : List Sent :=
  tcpOutput s flags s.seq data

def tcpSendRst (srcIp destIp : Ip4Addr) (tcp : TcpHeader) (dataLen : Nat) : List Sent :=
  let segAck := tcp.seq + UInt32.ofNat dataLen + (if tcp.flags &&& tcpSyn ≠ 0 then 1 else 0) +
    (if tcp.flags &&& tcpFin ≠ 0 then 1 else 0)
  let acked := tcp.flags &&& tcpAck ≠ 0
  let rst : TcpHeader :=
    { srcPort := tcp.destPort
      destPort := tcp.srcPort
      seq := if acked then tcp.ack else 0
      ack := if acked then 0 else segAck
      reserved := 0
      dataOffset := 5
      flags := if acked then tcpRst else tcpRst ||| tcpAck
      windowSize := 0
      checksum := 0
      urgentPtr := 0
      optionsAndPayload := [] }
  [⟨srcIp, { rst with checksum := tcpChecksum destIp srcIp rst.toBytes }⟩]

/-- The option walk; `opt` is what is left of the header. -/
def parseOptionsLoop (peerMss : UInt16) : Nat → List UInt8 → UInt16
  | 0, _ => peerMss
  | _, [] => peerMss
  | fuel + 1, kind :: rest =>
      if kind = 0 then peerMss
      else if kind = 1 then parseOptionsLoop peerMss fuel rest
      else
        match rest with
        | [] => peerMss
        | olen :: body =>
            if olen < 2 ∨ olen.toNat > body.length + 2 then peerMss
            else
              let mss := (body.getD 0 0).toNat * 256 + (body.getD 1 0).toNat
              let peerMss :=
                if kind = 2 ∧ olen = 4 then
                  UInt16.ofNat (if mss ≥ 64 ∧ mss ≤ tcpOurMss then mss else tcpOurMss)
                else peerMss
              parseOptionsLoop peerMss fuel (body.drop (olen.toNat - 2))

/-- `tcp->data_offset * 4`. -/
def TcpHeader.hdrLen (tcp : TcpHeader) : Nat := tcp.dataOffset.val * 4

def TcpHeader.data (tcp : TcpHeader) : List UInt8 := tcp.optionsAndPayload.drop (tcp.hdrLen - tcpHeaderSize)

def tcpParseOptions (s : Socket) (tcp : TcpHeader) : Socket :=
  let opt := tcp.optionsAndPayload.take (tcp.hdrLen - tcpHeaderSize)
  { s with peerMss := parseOptionsLoop s.peerMss opt.length opt }

def tcpHandleAck (s : Socket) (remoteAck : UInt32) (now : Nat) : Socket :=
  let outstanding := s.seq - s.sndUna
  let acked := remoteAck - s.sndUna
  if acked = 0 ∨ acked > outstanding then s
  else
    let fromBuf := if acked.toNat > s.txBuf.length then s.txBuf.length else acked.toNat
    let txBuf := s.txBuf.drop fromBuf
    { s with
      txBuf := txBuf
      sndUna := s.sndUna + acked
      rtoTries := 0
      rtoDeadline := if txBuf.length ≠ 0 then now + tcpRtoBaseTicks else 0 }

/-- `tcp_connect` once `kmalloc` has returned `id`; `tsc` is the time stamp counter. -/
def tcpConnect (t : Tcp) (id : Nat) (devIp destIp : Ip4Addr) (destPort : UInt16) (tsc : UInt64) (now : Nat) :
    Tcp × List Sent :=
  let (port, nextPort) := tcpAllocPort t.sockets 65536 t.nextPort
  let iss := (tsc ^^^ (tsc >>> 17) ^^^ (destPort.toUInt64 <<< 20)).toUInt32
  let s : Socket :=
    { id := id, state := .synSent, devIp := devIp, remoteIp := destIp, localPort := port, remotePort := destPort
      iss := iss, seq := iss, sndUna := iss, ack := 0, peerMss := 0, rxBuf := [], txBuf := []
      rtoDeadline := 0, rtoTries := 0 }
  let sent := tcpOutput s tcpSyn s.iss []
  let s := { s with seq := s.seq + 1, rtoDeadline := now + tcpRtoBaseTicks }
  ({ t with sockets := s :: t.sockets, nextPort := nextPort }, sent)

/-- `s->peer_mss ? s->peer_mss : TCP_DEFAULT_MSS`. -/
def Socket.mss (s : Socket) : Nat := if s.peerMss ≠ 0 then s.peerMss.toNat else tcpDefaultMss

def sendLoop (mss : Nat) : Nat → Socket → List UInt8 → Socket × List Sent
  | 0, s, _ => (s, [])
  | fuel + 1, s, data =>
      if data = [] then (s, [])
      else
        let chunk := data.take mss
        let sent := tcpSendSegment s (tcpAck ||| (if chunk.length = data.length then tcpPsh else 0)) chunk
        let (s, more) := sendLoop mss fuel { s with seq := s.seq + UInt32.ofNat chunk.length } (data.drop mss)
        (s, sent ++ more)

def tcpSendData (s : Socket) (data : List UInt8) (now : Nat) : Socket × List Sent :=
  if data = [] then (s, [])
  else if s.state ≠ .established then (s, [])
  else
    let mss := if s.mss > tcpOurMss then tcpOurMss else s.mss
    let space := tcpTxBufSize - s.txBuf.length
    let s := { s with txBuf := s.txBuf ++ data.take space }
    let (s, sent) := sendLoop mss data.length s data
    let s := if s.rtoDeadline = 0 then { s with rtoTries := 0, rtoDeadline := now + tcpRtoBaseTicks } else s
    (s, sent)

def resendLoop (s : Socket) (mss : Nat) : Nat → Nat → List Sent
  | 0, _ => []
  | fuel + 1, off =>
      if off < s.txBuf.length then
        let chunk := if s.txBuf.length - off > mss then mss else s.txBuf.length - off
        let flags := tcpAck ||| (if off + chunk = s.txBuf.length then tcpPsh else 0)
        tcpOutput s flags (s.sndUna + UInt32.ofNat off) ((s.txBuf.drop off).take chunk) ++
          resendLoop s mss fuel (off + chunk)
      else []

def pollSocket (now : Nat) (s : Socket) : Socket × List Sent :=
  if s.rtoDeadline = 0 ∨ now < s.rtoDeadline then (s, [])
  else if s.rtoTries ≥ tcpMaxRetries then ({ s with state := .closed, rtoDeadline := 0 }, [])
  else
    let tries := s.rtoTries + 1
    let s := { s with rtoTries := tries, rtoDeadline := now + tcpRtoBaseTicks * 2 ^ tries }
    if s.state = .synSent then (s, tcpOutput s tcpSyn s.iss [])
    else if s.state = .established ∧ s.txBuf.length > 0 then
      (s, resendLoop s s.mss s.txBuf.length 0)
    else ({ s with rtoDeadline := 0 }, [])

def tcpPoll (t : Tcp) (now : Nat) : Tcp × List Sent :=
  ({ t with sockets := t.sockets.map fun s => (pollSocket now s).1 },
    t.sockets.flatMap fun s => (pollSocket now s).2)

def tcpSendWindowUpdate (s : Socket) : List Sent :=
  if s.state ≠ .established then [] else tcpSendSegment s tcpAck []

def tcpClose (s : Socket) : Socket × List Sent :=
  if s.state = .closed then (s, [])
  else ({ s with seq := s.seq + 1, state := .finWait1 }, tcpSendSegment s (tcpFin ||| tcpAck) [])

/-- The socket at `id` leaves the table and its memory is freed. -/
def tcpRelease (t : Tcp) (id : Nat) : Tcp × List Sent :=
  match t.socketAt id with
  | none => (t, [])
  | some s =>
      let sent :=
        if s.state = .established ∨ s.state = .closeWait then tcpSendSegment s (tcpFin ||| tcpAck) [] else []
      ({ t with sockets := t.sockets.eraseP fun s => s.id == id }, sent)

/-- The critical section of `SYS_NET_RECV`, which its wait loop leads to. -/
inductive RecvResult where
  | eof
  | bytes (data : List UInt8)
  deriving DecidableEq, Repr

def sysNetRecv (s : Socket) (maxLen : Nat) : RecvResult × Socket × List Sent :=
  let avail := s.rxBuf.length
  if avail = 0 then
    if s.state ≠ .established ∧ s.state ≠ .synSent then (.eof, s, []) else (.bytes [], s, [])
  else
    let copy := if avail > maxLen % 2 ^ 32 then maxLen % 2 ^ 32 else avail
    let choked : Bool := tcpRxBufSize - avail < 2048
    let out := s.rxBuf.take copy
    let s := { s with rxBuf := s.rxBuf.drop copy }
    (.bytes out, s, if choked then tcpSendWindowUpdate s else [])

/-- The overlap cut: the socket, the rest of the segment with its number, whether
data was taken, and the answer. -/
structure Cut where
  socket : Socket
  remoteSeq : UInt32
  data : List UInt8
  consumed : Bool
  sent : List Sent

def takeData (s : Socket) (remoteSeq : UInt32) (data : List UInt8) : Cut :=
  if data.length = 0 then ⟨s, remoteSeq, data, false, []⟩
  else
    let have_ := s.ack - remoteSeq
    if have_ < 0x80000000 ∧ have_ < UInt32.ofNat data.length then
      let data := data.drop have_.toNat
      let remoteSeq := remoteSeq + have_
      if UInt32.ofNat s.rxBuf.length + UInt32.ofNat data.length ≤ UInt32.ofNat tcpRxBufSize then
        let s := { s with rxBuf := s.rxBuf ++ data, ack := s.ack + UInt32.ofNat data.length }
        ⟨s, remoteSeq, data, true, []⟩
      else ⟨s, remoteSeq, data, false, tcpSendSegment s tcpAck []⟩
    else ⟨s, remoteSeq, data, false, tcpSendSegment s tcpAck []⟩

def receiveEstablished (s : Socket) (flags : UInt8) (remoteSeq remoteAck : UInt32) (data : List UInt8)
    (now : Nat) : Socket × List Sent :=
  let s := if flags &&& tcpAck ≠ 0 then tcpHandleAck s remoteAck now else s
  let cut := takeData s remoteSeq data
  let s := cut.socket
  if flags &&& tcpFin ≠ 0 then
    if cut.remoteSeq + UInt32.ofNat cut.data.length = s.ack then
      let s := { s with ack := s.ack + 1 }
      let acked := tcpSendSegment s tcpAck []
      let fin := tcpSendSegment { s with state := .closeWait } (tcpFin ||| tcpAck) []
      ({ s with seq := s.seq + 1, state := .lastAck }, cut.sent ++ acked ++ fin)
    else (s, cut.sent)
  else if cut.consumed then (s, cut.sent ++ tcpSendSegment s tcpAck [])
  else (s, cut.sent)

def receiveSocket (s : Socket) (tcp : TcpHeader) (now : Nat) : Socket × List Sent :=
  let flags := tcp.flags
  let data := tcp.data
  if flags &&& tcpRst ≠ 0 then ({ s with state := .closed, rtoDeadline := 0 }, [])
  else
    match s.state with
    | .synSent =>
        if flags &&& (tcpSyn ||| tcpAck) = tcpSyn ||| tcpAck then
          let s := tcpParseOptions s tcp
          let s := if s.peerMss = 0 then { s with peerMss := UInt16.ofNat tcpDefaultMss } else s
          let s := tcpHandleAck s tcp.ack now
          let s := { s with ack := tcp.seq + 1, state := .established, rtoDeadline := 0 }
          (s, tcpSendSegment s tcpAck [])
        else (s, [])
    | .established => receiveEstablished s flags tcp.seq tcp.ack data now
    | .lastAck =>
        if flags &&& tcpAck ≠ 0 ∧ tcp.ack = s.seq then ({ s with state := .closed, rtoDeadline := 0 }, [])
        else (s, [])
    | .finWait1 =>
        let s :=
          if flags &&& tcpAck ≠ 0 then
            let s := tcpHandleAck s tcp.ack now
            if tcp.ack = s.seq then { s with state := .finWait2 } else s
          else s
        if flags &&& tcpFin ≠ 0 then
          let s := { s with ack := tcp.seq + UInt32.ofNat data.length + 1 }
          ({ s with state := .closed }, tcpSendSegment s tcpAck [])
        else (s, [])
    | .finWait2 =>
        if flags &&& tcpFin ≠ 0 then
          let s := { s with ack := tcp.seq + UInt32.ofNat data.length + 1 }
          ({ s with state := .closed }, tcpSendSegment s tcpAck [])
        else (s, [])
    | _ => (s, [])

/-- `ipv4_receive` passes only segments with a whole header, so the segment's length
is 20 and the bytes after it. -/
def tcpReceive (t : Tcp) (srcIp destIp : Ip4Addr) (tcp : TcpHeader) (now : Nat) : Tcp × List Sent :=
  let len := tcpHeaderSize + tcp.optionsAndPayload.length
  if tcp.hdrLen < tcpHeaderSize ∨ len < tcp.hdrLen then (t, [])
  else if tcpChecksum srcIp destIp tcp.toBytes ≠ 0 then (t, [])
  else
    match tcpFindSocket t.sockets srcIp tcp.srcPort tcp.destPort with
    | none =>
        if tcp.flags &&& tcpRst = 0 then (t, tcpSendRst srcIp destIp tcp (len - tcp.hdrLen)) else (t, [])
    | some s =>
        let (s', sent) := receiveSocket s tcp now
        (t.put s', sent)

end RexOs.Net
