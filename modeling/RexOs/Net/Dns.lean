import RexOs.Net.Frame

/-! The DNS client (`kernel/net/dns.c`).

`dnsReceive` runs at interrupt time, on a datagram that lies in the frame at a pointer.
A host name is the list of its characters, without the terminating NUL.
-/

set_option autoImplicit false

namespace RexOs.Net

open RexOs.Library

def dnsPort : UInt16 := 53
def dnsLocalPort : UInt16 := 1053
def dnsNameMax : Nat := 253

/-- `sizeof(dns_header_t)`. -/
def dnsHeaderSize : Nat := 12

/-- `s_resolved_ip`, `s_resolved`, `s_query_id` and `s_query_server`. -/
structure Dns where
  resolvedIp : Ip4Addr
  resolved : Bool
  queryId : UInt16
  queryServer : Ip4Addr
  deriving DecidableEq, Repr

def dnsServerForDevice (dev : NetDevice) : Ip4Addr :=
  if dev.dnsServer ≠ .zero then dev.dnsServer else ⟨8, 8, 8, 8⟩

/-- `lo` and `hi` are the halves of the time stamp counter. -/
def dnsNewQueryId (lo hi : UInt32) : UInt16 :=
  let id := (lo ^^^ (lo >>> 16) ^^^ hi).toUInt16
  if id = 0 then 0x1234 else id

/-- The source's loop over the labels; each round takes at least one character. -/
def encodeLoop (outMax : Nat) : Nat → List UInt8 → List UInt8 → Option (List UInt8)
  | 0, _, _ => none
  | fuel + 1, hostname, out =>
      if hostname = [] then
        if out.length = 0 ∨ out.length + 1 > outMax then none else some (out ++ [0])
      else
        let label := hostname.takeWhile (· ≠ 0x2E)
        let len := label.length
        if len = 0 ∨ len > 63 then none
        else if out.length + 1 + len + 1 > outMax then none
        else encodeLoop outMax fuel (hostname.drop (len + 1)) (out ++ UInt8.ofNat len :: label)

def dnsEncodeName (hostname : List UInt8) (outMax : Nat) : Option (List UInt8) :=
  encodeLoop outMax (hostname.length + 1) hostname []

/-- The packet that `dns_send_query` builds in its 512 bytes, if the name is valid. -/
def dnsQuery (id : UInt16) (hostname : List UInt8) : Option (List UInt8) :=
  match dnsEncodeName hostname (512 - dnsHeaderSize - 4) with
  | none => none
  | some name =>
      some (htons id ++ htons 0x0100 ++ htons 1 ++ htons 0 ++ htons 0 ++ htons 0 ++ name ++ [0, 1, 0, 1])

def skipLabels (p : Ptr) (len : UInt32) : Nat → UInt32 → Except NetFault UInt32
  | 0, _ => .error .hang
  | fuel + 1, pos =>
      if pos < len then do
        let label ← p.read pos.toNat
        let pos := pos + 1
        if label = 0 then .ok pos
        else if label &&& 0xC0 = 0xC0 then .ok (pos + 1)
        else skipLabels p len fuel (pos + label.toUInt32)
      else .ok pos

def skipQuestions (p : Ptr) (len : UInt32) (fuel : Nat) : Nat → UInt32 → Except NetFault UInt32
  | 0, pos => .ok pos
  | questions + 1, pos =>
      if pos < len then do
        let pos ← skipLabels p len fuel pos
        skipQuestions p len fuel questions (pos + 4)
      else .ok pos

def skipName (p : Ptr) (len : UInt32) : Nat → UInt32 → Except NetFault UInt32
  | 0, _ => .error .hang
  | fuel + 1, pos =>
      if pos < len then do
        let label ← p.read pos.toNat
        if label = 0 then .ok pos else skipName p len fuel (pos + (label.toUInt32 + 1))
      else .ok pos

def answerStart (p : Ptr) (len : UInt32) (fuel : Nat) (pos : UInt32) : Except NetFault UInt32 := do
  let first ← p.read pos.toNat
  if first &&& 0xC0 = 0xC0 then .ok (pos + 2)
  else
    let pos ← skipName p len fuel pos
    .ok (pos + 1)

def answerLoop (p : Ptr) (len : UInt32) (fuel : Nat) : Nat → UInt32 → Except NetFault (Option Ip4Addr)
  | 0, _ => .ok none
  | answers + 1, pos =>
      if pos < len then do
        let pos ← answerStart p len fuel pos
        if pos + 10 > len then .ok none
        else
          let rtype ← p.read16 pos.toNat
          let rdlen ← p.read16 (pos + 8).toNat
          let pos := pos + 10
          if rtype = 1 ∧ rdlen = 4 ∧ pos + 4 ≤ len then
            let ip ← p.readIp pos.toNat
            .ok (some ip)
          else answerLoop p len fuel answers (pos + rdlen.toUInt32)
      else .ok none

/-- What `dns_receive` finds in a datagram while it waits for an answer from `server`
to the query `queryId`. -/
def dnsAnswer (fuel : Nat) (server : Ip4Addr) (queryId : UInt16) (srcIp : Ip4Addr) (p : Ptr) (len : UInt32)
    (srcPort : UInt16) : Except NetFault (Option Ip4Addr) :=
  if srcPort ≠ dnsPort then .ok none
  else if len < UInt32.ofNat dnsHeaderSize then .ok none
  else if srcIp ≠ server then .ok none
  else do
    let id ← p.read16 0
    if id ≠ queryId then .ok none
    else
      let flags ← p.read16 2
      let ancount ← p.read16 6
      if flags &&& 0x8000 = 0 then .ok none
      else if flags &&& 0x000F ≠ 0 then .ok none
      else if ancount = 0 then .ok none
      else
        let qdcount ← p.read16 4
        let pos ← skipQuestions p len fuel qdcount.toNat (UInt32.ofNat dnsHeaderSize)
        answerLoop p len fuel ancount.toNat pos

def dnsReceive (fuel : Nat) (s : Dns) (srcIp : Ip4Addr) (p : Ptr) (len : UInt32) (srcPort : UInt16) :
    Except NetFault Dns := do
  let answer ← dnsAnswer fuel s.queryServer s.queryId srcIp p len srcPort
  match answer with
  | none => .ok s
  | some ip => .ok { s with resolvedIp := ip, resolved := true }

/-- A response with the given identifier that has an A record for `ip`. -/
structure Answers (p : Ptr) (id : UInt16) (ip : Ip4Addr) : Prop where
  ident : p.read16 0 = .ok id
  response : ∃ flags, p.read16 2 = .ok flags ∧ flags &&& 0x8000 ≠ 0 ∧ flags &&& 0x000F = 0
  address : ∃ pos, p.read16 pos = .ok 1 ∧ p.read16 (pos + 8) = .ok 4 ∧ p.readIp (pos + 10) = .ok ip

section
variable {p : Ptr} {len : UInt32}

/-- A loop that advances by labels stops at most 255 bytes after the end. -/
def Near (len pos : UInt32) : Prop := pos.toNat ≤ len.toNat + 255

theorem Near.label {pos : UInt32} (short : len.toNat < 2 ^ 16) (inside : pos < len) (label : UInt8) :
    (pos + 1 + label.toUInt32).toNat = pos.toNat + 1 + label.toNat ∧ Near len (pos + 1 + label.toUInt32) := by
  have small := label.toNat_lt
  rw [UInt32.lt_iff_toNat_lt] at inside
  unfold Near
  simp only [UInt32.toNat_add, UInt8.toNat_toUInt32, UInt32.reduceToNat]
  omega

theorem skipLabels_safe (holds : p.Holds len.toNat) (short : len.toNat < 2 ^ 16) (fuel : Nat) (pos : UInt32)
    (near : Near len pos) (enough : len.toNat ≤ pos.toNat + fuel) :
    Safe (skipLabels p len (fuel + 1) pos) (Near len) := by
  induction fuel generalizing pos with
  | zero =>
    have outside : ¬ pos < len := by
      rw [UInt32.lt_iff_toNat_lt]
      omega
    exact Safe.neg outside (Safe.ok near)
  | succ fuel ih =>
    unfold skipLabels
    refine Safe.ite (fun inside => ?_) fun _ => Safe.ok near
    have bound : pos.toNat < len.toNat := UInt32.lt_iff_toNat_lt.mp inside
    apply Safe.bind (Ptr.read_safe holds bound)
    intro label _
    refine Safe.ite (fun _ => Safe.ok ?_) fun _ => Safe.ite (fun _ => Safe.ok ?_) fun _ => ?_
    · simpa using (Near.label short inside 0).2
    · exact (Near.label short inside 1).2
    · obtain ⟨moved, near'⟩ := Near.label short inside label
      exact ih _ near' (by omega)

theorem skipQuestions_safe (holds : p.Holds len.toNat) (short : len.toNat < 2 ^ 16) (fuel : Nat)
    (enough : len.toNat ≤ fuel) (questions : Nat) (pos : UInt32) :
    Safe (skipQuestions p len (fuel + 1) questions pos) fun _ => True := by
  induction questions generalizing pos with
  | zero => exact Safe.ok trivial
  | succ questions ih =>
    unfold skipQuestions
    refine Safe.ite (fun inside => ?_) fun _ => Safe.ok trivial
    have near : Near len pos := by
      rw [UInt32.lt_iff_toNat_lt] at inside
      unfold Near
      omega
    apply Safe.bind (skipLabels_safe holds short fuel pos near (by omega))
    intro pos' _
    exact ih _

theorem skipName_safe (holds : p.Holds len.toNat) (short : len.toNat < 2 ^ 16) (fuel : Nat) (pos : UInt32)
    (near : Near len pos) (enough : len.toNat ≤ pos.toNat + fuel) :
    Safe (skipName p len (fuel + 1) pos) (Near len) := by
  induction fuel generalizing pos with
  | zero =>
    have outside : ¬ pos < len := by
      rw [UInt32.lt_iff_toNat_lt]
      omega
    exact Safe.neg outside (Safe.ok near)
  | succ fuel ih =>
    unfold skipName
    refine Safe.ite (fun inside => ?_) fun _ => Safe.ok near
    have bound : pos.toNat < len.toNat := UInt32.lt_iff_toNat_lt.mp inside
    apply Safe.bind (Ptr.read_safe holds bound)
    intro label _
    refine Safe.ite (fun _ => Safe.ok near) fun _ => ?_
    obtain ⟨moved, near'⟩ := Near.label short inside label
    have same : pos + (label.toUInt32 + 1) = pos + 1 + label.toUInt32 := by
      rw [UInt32.add_comm label.toUInt32, UInt32.add_assoc]
    rw [same]
    exact ih _ near' (by omega)

theorem answerStart_safe (holds : p.Holds len.toNat) (short : len.toNat < 2 ^ 16) (fuel : Nat)
    (enough : len.toNat ≤ fuel) (pos : UInt32) (inside : pos < len) :
    Safe (answerStart p len (fuel + 1) pos) fun pos' => pos'.toNat ≤ len.toNat + 256 := by
  have bound : pos.toNat < len.toNat := UInt32.lt_iff_toNat_lt.mp inside
  have near : Near len pos := by
    unfold Near
    omega
  apply Safe.bind (Ptr.read_safe holds bound)
  intro first _
  refine Safe.ite (fun _ => Safe.ok ?_) fun _ => ?_
  · simp only [UInt32.toNat_add, UInt32.reduceToNat]
    omega
  · apply Safe.bind (skipName_safe holds short fuel pos near (by omega))
    intro pos' near'
    unfold Near at near'
    apply Safe.ok
    simp only [UInt32.toNat_add, UInt32.reduceToNat]
    omega

theorem answerLoop_safe (holds : p.Holds len.toNat) (short : len.toNat < 2 ^ 16) (fuel : Nat)
    (enough : len.toNat ≤ fuel) (answers : Nat) (pos : UInt32) :
    Safe (answerLoop p len (fuel + 1) answers pos) fun answer => ∀ ip, answer = some ip →
      ∃ pos, p.read16 pos = .ok 1 ∧ p.read16 (pos + 8) = .ok 4 ∧ p.readIp (pos + 10) = .ok ip := by
  induction answers generalizing pos with
  | zero => exact Safe.ok nofun
  | succ answers ih =>
    unfold answerLoop
    refine Safe.ite (fun inside => ?_) fun _ => Safe.ok nofun
    apply Safe.bind (answerStart_safe holds short fuel enough pos inside)
    intro pos low
    have place (k : UInt32) (small : k.toNat ≤ 14) : (pos + k).toNat = pos.toNat + k.toNat := by
      rw [UInt32.toNat_add]
      omega
    refine Safe.ite (fun _ => Safe.ok nofun) fun fixed => ?_
    rw [gt_iff_lt, UInt32.lt_iff_toNat_lt, place 10 (by decide)] at fixed
    have ten : (10 : UInt32).toNat = 10 := rfl
    apply Safe.bind (Ptr.read16_safe holds (by omega))
    intro rtype typeAt
    rw [place 8 (by decide)]
    have eight : (8 : UInt32).toNat = 8 := rfl
    apply Safe.bind (Ptr.read16_safe holds (by omega))
    intro rdlen lenAt
    refine Safe.ite (fun found => ?_) fun _ => ih _
    obtain ⟨rfl, rfl, room⟩ := found
    have four : (4 : UInt32).toNat = 4 := rfl
    have ends : (pos + 10 + 4).toNat = pos.toNat + 14 := by
      rw [UInt32.add_assoc]
      exact place 14 (by decide)
    rw [UInt32.le_iff_toNat_le, ends] at room
    rw [place 10 (by decide)]
    apply Safe.bind (Ptr.readIp_safe holds (by omega))
    intro ip ipAt
    apply Safe.ok
    intro ip' same
    cases same
    exact ⟨pos.toNat, typeAt, lenAt, ipAt⟩

theorem dnsAnswer_safe (holds : p.Holds len.toNat) (short : len.toNat < 2 ^ 16) (fuel : Nat)
    (enough : len.toNat ≤ fuel) (server srcIp : Ip4Addr) (queryId srcPort : UInt16) :
    Safe (dnsAnswer (fuel + 1) server queryId srcIp p len srcPort) fun answer => ∀ ip, answer = some ip →
      srcIp = server ∧ Answers p queryId ip := by
  unfold dnsAnswer
  refine Safe.ite (fun _ => Safe.ok nofun) fun _ => ?_
  refine Safe.ite (fun _ => Safe.ok nofun) fun large => ?_
  have header : 12 ≤ len.toNat := by
    rw [UInt32.lt_iff_toNat_lt, Nat.not_lt] at large
    exact large
  refine Safe.ite (fun _ => Safe.ok nofun) fun asked => ?_
  rw [ne_eq, not_not] at asked
  apply Safe.bind (Ptr.read16_safe holds (by omega))
  intro id idAt
  refine Safe.ite (fun _ => Safe.ok nofun) fun ours => ?_
  rw [ne_eq, not_not] at ours
  subst ours
  apply Safe.bind (Ptr.read16_safe holds (by omega))
  intro flags flagsAt
  apply Safe.bind (Ptr.read16_safe holds (by omega))
  intro ancount _
  refine Safe.ite (fun _ => Safe.ok nofun) fun response => ?_
  refine Safe.ite (fun _ => Safe.ok nofun) fun noError => ?_
  rw [ne_eq, not_not] at noError
  refine Safe.ite (fun _ => Safe.ok nofun) fun _ => ?_
  apply Safe.bind (Ptr.read16_safe holds (by omega))
  intro qdcount _
  apply Safe.bind (skipQuestions_safe holds short fuel enough _ _)
  intro pos _
  apply Safe.mono (answerLoop_safe holds short fuel enough _ pos)
  intro answer found ip taken
  exact ⟨asked, idAt, ⟨flags, flagsAt, response, noError⟩, found ip taken⟩

theorem dnsReceive_safe (holds : p.Holds len.toNat) (short : len.toNat < 2 ^ 16) (fuel : Nat)
    (enough : len.toNat ≤ fuel) (s : Dns) (srcIp : Ip4Addr) (srcPort : UInt16) :
    Safe (dnsReceive (fuel + 1) s srcIp p len srcPort) fun _ => True := by
  apply Safe.bind (dnsAnswer_safe holds short fuel enough s.queryServer srcIp s.queryId srcPort)
  intro answer _
  cases answer with
  | none => exact Safe.ok trivial
  | some ip => exact Safe.ok trivial

end

end RexOs.Net
