import RexOs.Arch.Syscall
import RexOs.Net.Eth

/-! The host of `SYS_NET_CONNECT` (`kernel/arch/x86_64/syscall.c`).

A host whose first character is a digit is read as an address, by four loops that check neither
the numbers nor the dots; every other one goes to `dns_resolve`. A string is the list of its
characters, without the terminating NUL.
-/

set_option autoImplicit false

namespace RexOs.Arch

open RexOs.Net

variable {hostname digits rest : List UInt8} {acc : UInt8} {ip : Ip4Addr}

def isDigit (c : UInt8) : Bool := 48 ≤ c && c ≤ 57

/-- `while (*p >= '0' && *p <= '9') a = a * 10 + (*p++ - '0')`: the number, and what is left. -/
def readOctet : List UInt8 → UInt8 → UInt8 × List UInt8
  | [], a => (a, [])
  | c :: rest, a => if isDigit c then readOctet rest (a * 10 + (c - 48)) else (a, c :: rest)

/-- `if (*p == '.') p++`. -/
def skipDot : List UInt8 → List UInt8
  | [] => []
  | c :: rest => if c = 0x2E then rest else c :: rest

def readAddress (hostname : List UInt8) : Ip4Addr :=
  let (a, p) := readOctet hostname 0
  let (b, p) := readOctet (skipDot p) 0
  let (c, p) := readOctet (skipDot p) 0
  let (d, _) := readOctet (skipDot p) 0
  ⟨a, b, c, d⟩

inductive Target where
  | literal (ip : Ip4Addr)
  | resolved
  deriving DecidableEq, Repr

def startsWithDigit (hostname : List UInt8) : Bool := hostname.head?.any isDigit

def hostTarget (hostname : List UInt8) : Target :=
  if startsWithDigit hostname then .literal (readAddress hostname) else .resolved

/-- The address of a host, where `dnsResolve` gives the answers of `dns_resolve`. -/
def hostAddress (dnsResolve : List UInt8 → Option Ip4Addr) (hostname : List UInt8) : Option Ip4Addr :=
  match hostTarget hostname with
  | .literal ip => some ip
  | .resolved => dnsResolve hostname

/-- The address that `tcp_connect` is called for, if the call gets there. `dev` is the default device after the wait for
DHCP. -/
def sysNetConnect (space : UserSpace) (dev : Option NetDevice) (dnsResolve : List UInt8 → Option Ip4Addr) (arg1 : Nat) :
    Option Ip4Addr :=
  match (copyUserString space arg1 254).1 with
  | none => none
  | some hostname =>
      match dev with
      | none => none
      | some d => if d.ip.b0 = 0 then none else hostAddress dnsResolve hostname

def decimal (digits : List UInt8) : Nat := digits.foldl (fun v c => v * 10 + (c.toNat - 48)) 0

structure IsOctet (digits : List UInt8) : Prop where
  some : digits ≠ []
  all : ∀ c ∈ digits, isDigit c = true
  small : decimal digits ≤ 255

def IsLiteral (hostname : List UInt8) (ip : Ip4Addr) : Prop :=
  ∃ a b c d, hostname.splitOn 0x2E = [a, b, c, d] ∧ (∀ part ∈ [a, b, c, d], IsOctet part) ∧
    ip = ⟨UInt8.ofNat (decimal a), UInt8.ofNat (decimal b), UInt8.ofNat (decimal c), UInt8.ofNat (decimal d)⟩

theorem digit_toNat {c : UInt8} (digit : isDigit c = true) : (c - 48).toNat = c.toNat - 48 := by
  rw [isDigit, Bool.and_eq_true, decide_eq_true_iff, decide_eq_true_iff] at digit
  exact UInt8.toNat_sub_of_le _ _ digit.1

theorem readOctet_digits (digits : List UInt8) (rest : List UInt8) (stop : rest.head?.any isDigit = false) :
    (∀ c ∈ digits, isDigit c = true) → ∀ v : Nat, readOctet (digits ++ rest) (UInt8.ofNat v) =
      (UInt8.ofNat (digits.foldl (fun v c => v * 10 + (c.toNat - 48)) v), rest) := by
  induction digits with
  | nil =>
    intro _ v
    cases rest with
    | nil => rfl
    | cons c rest =>
      have other : ¬ isDigit c = true := by simpa using stop
      rw [List.nil_append, readOctet, if_neg other]
      rfl
  | cons c digits ih =>
    intro all v
    have digit := all c List.mem_cons_self
    -- the accumulator is a byte, so only the number modulo 256 is kept
    have next : UInt8.ofNat v * 10 + (c - 48) = UInt8.ofNat (v * 10 + (c.toNat - 48)) := by
      rw [← UInt8.toNat_inj, UInt8.toNat_add, UInt8.toNat_mul, digit_toNat digit]
      simp only [UInt8.toNat_ofNat']
      have ten : (10 : UInt8).toNat = 10 := rfl
      rw [ten]
      omega
    rw [List.cons_append, readOctet, if_pos digit, next, ih (fun c member => all c (List.mem_cons_of_mem _ member))]
    rfl

theorem readOctet_part (all : ∀ c ∈ digits, isDigit c = true) (rest : List UInt8) :
    readOctet (digits ++ 0x2E :: rest) 0 = (UInt8.ofNat (decimal digits), 0x2E :: rest) :=
  readOctet_digits digits (0x2E :: rest) rfl all 0

theorem readOctet_last (all : ∀ c ∈ digits, isDigit c = true) : readOctet digits 0 = (UInt8.ofNat (decimal digits), []) := by
  have read := readOctet_digits digits [] rfl all 0
  rw [List.append_nil] at read
  exact read

theorem readAddress_literal (literal : IsLiteral hostname ip) : readAddress hostname = ip := by
  obtain ⟨a, b, c, d, parts, octets, rfl⟩ := literal
  have shape : hostname = a ++ 0x2E :: (b ++ 0x2E :: (c ++ 0x2E :: d)) := by
    have joined : [0x2E].intercalate (hostname.splitOn 0x2E) = hostname := List.intercalate_splitOn 0x2E
    rw [parts] at joined
    rw [← joined]
    simp [List.intercalate, List.intersperse]
  have digits : ∀ part ∈ [a, b, c, d], ∀ x ∈ part, isDigit x = true := fun part member => (octets part member).all
  rw [readAddress, shape, readOctet_part (digits a (by simp))]
  simp only [skipDot, if_true]
  rw [readOctet_part (digits b (by simp))]
  simp only [if_true]
  rw [readOctet_part (digits c (by simp))]
  simp only [if_true]
  rw [readOctet_last (digits d (by simp))]

theorem startsWithDigit_literal (literal : IsLiteral hostname ip) : startsWithDigit hostname = true := by
  obtain ⟨a, b, c, d, parts, octets, -⟩ := literal
  have joined : [0x2E].intercalate (hostname.splitOn 0x2E) = hostname := List.intercalate_splitOn 0x2E
  have octet := octets a List.mem_cons_self
  cases a with
  | nil => exact absurd rfl octet.some
  | cons x a =>
    rw [parts] at joined
    rw [← joined]
    exact octet.all x List.mem_cons_self

def TellsLiterals (hostname : List UInt8) : Prop := ∀ ip, hostTarget hostname = .literal ip ↔ IsLiteral hostname ip

theorem tellsLiterals_iff (hostname : List UInt8) :
    TellsLiterals hostname ↔ (startsWithDigit hostname = true → ∃ ip, IsLiteral hostname ip) := by
  constructor
  · intro tells digit
    exact ⟨readAddress hostname, (tells _).mp (if_pos digit)⟩
  · intro only ip
    rw [hostTarget]
    constructor
    · intro taken
      split at taken
      · rename_i digit
        obtain ⟨ip', literal⟩ := only digit
        cases taken
        rw [readAddress_literal literal]
        exact literal
      · cases taken
    · intro literal
      rw [if_pos (startsWithDigit_literal literal), readAddress_literal literal]

theorem sysNetConnect_eq {space : UserSpace} {arg1 : Nat} (copied : (copyUserString space arg1 254).1 = some hostname)
    {d : NetDevice} (configured : d.ip.b0 ≠ 0) (dnsResolve : List UInt8 → Option Ip4Addr) :
    sysNetConnect space (some d) dnsResolve arg1 = hostAddress dnsResolve hostname := by
  rw [sysNetConnect, copied]
  exact if_neg configured

def stringSpace (text : List UInt8) : UserSpace where
  translate := fun _ => 4096
  byte := fun addr => text.getD (addr - 4096) 0

/-- `300.1.1.1` -/
def largeHost : List UInt8 := [51, 48, 48, 46, 49, 46, 49, 46, 49]

/-- `1.2.3.4.example.com` -/
def numericHost : List UInt8 := [49, 46, 50, 46, 51, 46, 52, 46, 101, 120, 97, 109, 112, 108, 101, 46, 99, 111, 109]

/-- Both are connected to at addresses that they are not, and `dns_resolve` is not asked. -/
theorem host_truncated :
    sysNetConnect (stringSpace largeHost) (some ⟨.broadcast, ⟨10, 0, 2, 15⟩, .zero, .zero, .zero⟩) (fun _ => none) 4096 =
        some ⟨44, 1, 1, 1⟩ ∧
      ¬ TellsLiterals largeHost ∧
    sysNetConnect (stringSpace numericHost) (some ⟨.broadcast, ⟨10, 0, 2, 15⟩, .zero, .zero, .zero⟩) (fun _ => none) 4096 =
        some ⟨1, 2, 3, 4⟩ ∧
      ¬ TellsLiterals numericHost := by
  refine ⟨by decide, ?_, by decide, ?_⟩
  · intro tells
    obtain ⟨ip, a, b, c, d, parts, octets, -⟩ := (tellsLiterals_iff largeHost).mp tells rfl
    -- 300 is no octet
    have first : a = [51, 48, 48] := (List.cons.inj parts).1.symm
    exact absurd (octets a List.mem_cons_self).small (by rw [first]; decide)
  · intro tells
    obtain ⟨ip, a, b, c, d, parts, -⟩ := (tellsLiterals_iff numericHost).mp tells rfl
    -- six parts, of which the loops read four
    have count : (numericHost.splitOn 0x2E).length = 6 := by decide
    rw [parts] at count
    exact absurd count (show (4 : Nat) ≠ 6 by decide)

/-- The first character has to be no digit, or that of a literal. -/
theorem host_literal (hostname : List UInt8) :
    (∀ (space : UserSpace) (arg1 : Nat) (d : NetDevice) (dnsResolve : List UInt8 → Option Ip4Addr),
      (copyUserString space arg1 254).1 = some hostname → d.ip.b0 ≠ 0 →
      sysNetConnect space (some d) dnsResolve arg1 = hostAddress dnsResolve hostname) ∧
    (TellsLiterals hostname ↔ (startsWithDigit hostname = true → ∃ ip, IsLiteral hostname ip)) :=
  ⟨fun _ _ _ dnsResolve copied configured => sysNetConnect_eq copied configured dnsResolve, tellsLiterals_iff hostname⟩

/-- `10.0.2.2` -/
def gatewayHost : List UInt8 := [49, 48, 46, 48, 46, 50, 46, 50]

theorem host_literal_gateway :
    sysNetConnect (stringSpace gatewayHost) (some ⟨.broadcast, ⟨10, 0, 2, 15⟩, .zero, .zero, .zero⟩) (fun _ => none) 4096 =
        hostAddress (fun _ => none) gatewayHost ∧
    (TellsLiterals gatewayHost ↔ (startsWithDigit gatewayHost = true → ∃ ip, IsLiteral gatewayHost ip)) :=
  ⟨(host_literal gatewayHost).1 (stringSpace gatewayHost) 4096 _ (fun _ => none) (by decide) (by decide),
    (host_literal gatewayHost).2⟩

end RexOs.Arch
