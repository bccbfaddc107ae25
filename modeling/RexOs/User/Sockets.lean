import RexOs.Library.CString
import RexOs.Library.SlotRing

/-! The sockets and the name table of `user/newlib-glue/rexos_sock.c`.

A string is the list of its bytes, without the NUL. The answers of the kernel to
`RSYS_NET_CONNECT` come with the calls.
-/

set_option autoImplicit false

namespace RexOs.User.Sockets

open RexOs.Library

abbrev maxSock : Nat := 32

abbrev maxNames : Nat := 32

abbrev nameMaxL : Nat := 255

abbrev nameMagic : Nat := 0xF04D0000

abbrev sockFdBase : Int := 1000

abbrev afInet : Nat := 2

abbrev sockStream : Nat := 1

abbrev ipprotoTcp : Nat := 6

/-- `sizeof(struct sockaddr_in)`. -/
abbrev sockaddrInSize : Nat := 16

structure Rsock where
  used : Bool
  handle : Nat
  deriving DecidableEq, Repr

/-- `s_socks`, `s_names` and `s_name_next`. -/
structure State where
  socks : Nat → Rsock
  names : Nat → List UInt8
  nameNext : Nat

def initial : State := ⟨fun _ => ⟨false, 0⟩, fun _ => [], 0⟩

structure SockAddr where
  family : Nat
  port : Nat
  addr : Nat
  deriving DecidableEq, Repr

/-- The bytes of a `uint32_t` in the other order. -/
def htonl (x : Nat) : Nat := x % 2 ^ 8 * 2 ^ 24 + x / 2 ^ 8 % 2 ^ 8 * 2 ^ 16 + x / 2 ^ 16 % 2 ^ 8 * 2 ^ 8 + x / 2 ^ 24 % 2 ^ 8

def ntohl (x : Nat) : Nat := htonl x

def htons (x : Nat) : Nat := x % 2 ^ 8 * 2 ^ 8 + x / 2 ^ 8 % 2 ^ 8

def ntohs (x : Nat) : Nat := htons x

def nameStore (s : State) (name : List UInt8) : Nat × State :=
  (nameMagic ||| s.nameNext,
    { s with names := Function.update s.names s.nameNext (name.take nameMaxL), nameNext := (s.nameNext + 1) % maxNames })

def nameLookup (s : State) (hostOrderAddr : Nat) : Option (List UInt8) :=
  if hostOrderAddr &&& 0xFFFF0000 ≠ nameMagic then none
  else if hostOrderAddr &&& 0xFFFF ≥ maxNames then none
  else some (s.names (hostOrderAddr &&& 0xFFFF))

/-- `%u` of `sscanf`: what `strtoul` reads, cut to 32 bits, and what is left. -/
def scanUnsigned (s : List UInt8) : Option (Nat × List UInt8) :=
  let (negative, rest) := splitSign (s.dropWhile isSpaceByte)
  let digits := rest.takeWhile fun c => decide (IsDigit 10 c)
  let value := readDigits 10 0 digits
  let long := if 2 ^ 64 ≤ value then 2 ^ 64 - 1 else if negative then (2 ^ 64 - value) % 2 ^ 64 else value
  if digits = [] then none else some (long % 2 ^ 32, rest.dropWhile fun c => decide (IsDigit 10 c))

def scanDot : List UInt8 → Option (List UInt8)
  | [] => none
  | c :: rest => if c = 46 then some rest else none

/-- The address if `sscanf(cp, "%u.%u.%u.%u", ...)` reads all four numbers and none is too large. -/
def inetAton (cp : List UInt8) : Option Nat := do
  let (a, s) ← scanUnsigned cp
  let (b, s) ← (scanDot s).bind scanUnsigned
  let (c, s) ← (scanDot s).bind scanUnsigned
  let (d, _) ← (scanDot s).bind scanUnsigned
  if a > 255 ∨ b > 255 ∨ c > 255 ∨ d > 255 then none else some (htonl (a <<< 24 ||| b <<< 16 ||| c <<< 8 ||| d))

/-- `%u` of `printf`. -/
def printed (n : Nat) : List UInt8 := (Nat.toDigits 10 n).map fun c => UInt8.ofNat c.toNat

def inetNtoa (addr : Nat) : List UInt8 :=
  let v := ntohl addr
  printed (v >>> 24 &&& 0xFF) ++ 46 :: printed (v >>> 16 &&& 0xFF) ++ 46 :: printed (v >>> 8 &&& 0xFF) ++
    46 :: printed (v &&& 0xFF)

structure Hostent where
  name : List UInt8
  addrtype : Nat
  addr : Nat
  deriving DecidableEq, Repr

def gethostbyname (s : State) (name : List UInt8) : Hostent × State :=
  match inetAton name with
  | some addr => (⟨name.take nameMaxL, afInet, addr⟩, s)
  | none => (⟨name.take nameMaxL, afInet, htonl (nameStore s name).1⟩, (nameStore s name).2)

structure AddrInfo where
  family : Nat
  socktype : Nat
  protocol : Nat
  addr : SockAddr
  deriving DecidableEq, Repr

inductive Eai where
  | noname
  | memory
  deriving DecidableEq, Repr

/-- `memory` tells whether both `calloc` succeed. -/
def getaddrinfo (s : State) (node service : Option (List UInt8)) (memory : Bool) : Except Eai AddrInfo × State :=
  match node with
  | none => (.error .noname, s)
  | some node =>
      if memory then
        let port := htons ((service.elim 0 atoi % 2 ^ 16).toNat)
        match inetAton node with
        | some addr => (.ok ⟨afInet, sockStream, ipprotoTcp, afInet, port, addr⟩, s)
        | none => (.ok ⟨afInet, sockStream, ipprotoTcp, afInet, port, htonl (nameStore s node).1⟩, (nameStore s node).2)
      else (.error .memory, s)

inductive Errno where
  | ebadf
  | einval
  | econnrefused
  | eafnosupport
  | emfile
  deriving DecidableEq, Repr

def sockOf (s : State) (fd : Int) : Option Nat :=
  let idx := fd - sockFdBase
  if idx < 0 ∨ idx ≥ maxSock ∨ (s.socks idx.toNat).used = false then none else some idx.toNat

/-- `for (int i = 0; i < MAX_SOCK; i++)`. -/
def freeSock (s : State) : Option Nat := (List.range maxSock).find? fun i => !(s.socks i).used

def socket (s : State) (domain type : Nat) : Except Errno Int × State :=
  if domain ≠ afInet ∨ type ≠ sockStream then (.error .eafnosupport, s)
  else
    match freeSock s with
    | none => (.error .emfile, s)
    | some i => (.ok (sockFdBase + i), { s with socks := Function.update s.socks i ⟨true, 0⟩ })

/-- What `connect` gives back, and what it asks the kernel for: a host and a port. -/
structure Connected where
  result : Except Errno Unit
  asked : Option (List UInt8 × Nat)
  state : State

/-- `answer` is the handle that the kernel gives, or `none` for -1. -/
def connect (s : State) (fd : Int) (addr : Option SockAddr) (len : Nat) (answer : Option Nat) : Connected :=
  match sockOf s fd with
  | none => ⟨.error .ebadf, none, s⟩
  | some i =>
      match addr with
      | none => ⟨.error .einval, none, s⟩
      | some sin =>
          if len < sockaddrInSize ∨ sin.family ≠ afInet then ⟨.error .einval, none, s⟩
          else
            let port := ntohs sin.port
            let host := (nameLookup s (ntohl sin.addr)).getD (inetNtoa sin.addr)
            match answer with
            | none => ⟨.error .econnrefused, some (host, port), s⟩
            | some handle => ⟨.ok (), some (host, port), { s with socks := Function.update s.socks i { s.socks i with handle } }⟩

def sockClose (s : State) (fd : Int) : Int × Option Nat × State :=
  match sockOf s fd with
  | none => (-1, none, s)
  | some i => (0, if (s.socks i).handle = 0 then none else some (s.socks i).handle, { s with socks := Function.update s.socks i ⟨false, 0⟩ })

inductive Call where
  | gethostbyname (name : List UInt8)
  | getaddrinfo (node service : Option (List UInt8)) (memory : Bool)
  | socket (domain type : Nat)
  | connect (fd : Int) (addr : Option SockAddr) (len : Nat) (answer : Option Nat)
  | close (fd : Int)

def step (s : State) : Call → State
  | .gethostbyname name => (gethostbyname s name).2
  | .getaddrinfo node service memory => (getaddrinfo s node service memory).2
  | .socket domain type => (socket s domain type).2
  | .connect fd addr len answer => (connect s fd addr len answer).state
  | .close fd => (sockClose s fd).2.2

def run (calls : List Call) : State := calls.foldl step initial

/-! The address of a name is a place in the name table, and the places are taken in turn. So it
stands for the name until the place is taken by another one.
-/

def Call.stores : Call → Option (List UInt8)
  | .gethostbyname name => if inetAton name = none then some (name.take nameMaxL) else none
  | .getaddrinfo node _ memory => node.bind fun node => if memory ∧ inetAton node = none then some (node.take nameMaxL) else none
  | _ => none

def stored (calls : List Call) : List (List UInt8) := (calls.filterMap Call.stores).reverse

section
variable {s : State} {before between calls : List Call} {call : Call} {name : List UInt8}

theorem step_names (s : State) (call : Call) :
    (call.stores = none → (step s call).names = s.names ∧ (step s call).nameNext = s.nameNext) ∧
    ∀ entry, call.stores = some entry → (step s call).names = Function.update s.names s.nameNext entry ∧
      (step s call).nameNext = (s.nameNext + 1) % maxNames := by
  cases call with
  | gethostbyname name =>
    simp only [Call.stores, step, gethostbyname]
    cases inetAton name with
    | none => exact ⟨fun other => absurd other (Option.some_ne_none _), fun entry same => by cases same; exact ⟨rfl, rfl⟩⟩
    | some addr => exact ⟨fun _ => ⟨rfl, rfl⟩, fun entry same => by cases same⟩
  | getaddrinfo node service memory =>
    simp only [Call.stores, step, getaddrinfo]
    cases node with
    | none => exact ⟨fun _ => ⟨rfl, rfl⟩, fun entry same => by cases same⟩
    | some node =>
      cases memory with
      | false => exact ⟨fun _ => ⟨rfl, rfl⟩, fun entry same => by cases same⟩
      | true =>
        simp only [Option.bind_some, if_true, true_and]
        cases inetAton node with
        | none => exact ⟨fun other => absurd other (Option.some_ne_none _), fun entry same => by cases same; exact ⟨rfl, rfl⟩⟩
        | some addr => exact ⟨fun _ => ⟨rfl, rfl⟩, fun entry same => by cases same⟩
  | socket domain type =>
    refine ⟨fun _ => ?_, fun entry same => by cases same⟩
    simp only [step, socket]
    split
    · exact ⟨rfl, rfl⟩
    · split <;> exact ⟨rfl, rfl⟩
  | connect fd addr len answer =>
    refine ⟨fun _ => ?_, fun entry same => by cases same⟩
    simp only [step, connect]
    split
    · exact ⟨rfl, rfl⟩
    split
    · exact ⟨rfl, rfl⟩
    split
    · exact ⟨rfl, rfl⟩
    · split <;> exact ⟨rfl, rfl⟩
  | close fd =>
    refine ⟨fun _ => ?_, fun entry same => by cases same⟩
    simp only [step, sockClose]
    split <;> exact ⟨rfl, rfl⟩

theorem run_snoc (calls : List Call) (call : Call) : run (calls ++ [call]) = step (run calls) call := by
  rw [run, List.foldl_append]
  rfl

theorem stored_append (before between : List Call) : stored (before ++ between) = stored between ++ stored before := by
  rw [stored, List.filterMap_append, List.reverse_append]
  rfl

theorem stored_cons (call : Call) (between : List Call) : stored (call :: between) = stored between ++ call.stores.toList := by
  rw [stored, List.filterMap_cons]
  cases call.stores with
  | none => rw [Option.toList_none, List.append_nil]; rfl
  | some entry => rw [List.reverse_cons]; rfl

theorem run_cyclic (calls : List Call) : Cyclic maxNames [] (run calls).names (run calls).nameNext (stored calls) := by
  induction calls using List.reverseRecOn with
  | nil => exact Cyclic.empty maxNames []
  | append_singleton calls call ih =>
    rw [run_snoc, stored_append, stored_cons]
    have names := step_names (run calls) call
    cases stores : call.stores with
    | none =>
      rw [(names.1 stores).1, (names.1 stores).2]
      exact ih
    | some entry =>
      rw [(names.2 entry stores).1, (names.2 entry stores).2]
      exact ih.put entry

end

/-- Four decimal numbers up to 255 between dots, and nothing else. -/
def IsNumber (s : List UInt8) : Prop := s ≠ [] ∧ (∀ c ∈ s, IsDigit 10 c) ∧ digitsValue 10 s ≤ 255

instance (s : List UInt8) : Decidable (IsNumber s) :=
  have : Decidable (∀ c ∈ s, IsDigit 10 c) := List.decidableBAll _ s
  inferInstanceAs (Decidable (_ ∧ _ ∧ _))

def IpLiteral (name : List UInt8) : Prop :=
  ∃ a b c d, IsNumber a ∧ IsNumber b ∧ IsNumber c ∧ IsNumber d ∧ name = a ++ 46 :: b ++ 46 :: c ++ 46 :: d

inductive Obtains (s : State) (name : List UInt8) : Call → Nat → Prop where
  | gethostbyname : Obtains s name (.gethostbyname name) (gethostbyname s name).1.addr
  | getaddrinfo {service : Option (List UInt8)} {info : AddrInfo} :
      (getaddrinfo s (some name) service true).1 = .ok info → Obtains s name (.getaddrinfo (some name) service true) info.addr.addr

/-- The place in the name table that the address of a name denotes: the next one, or, for a text that `inet_aton` takes for
an address, the one that such an address happens to denote. -/
def place (before : List Call) (name : List UInt8) : Option Nat :=
  match inetAton name with
  | none => some ((stored before).length % maxNames)
  | some addr =>
      if ntohl addr &&& 0xFFFF0000 = nameMagic ∧ ntohl addr &&& 0xFFFF < maxNames then some (ntohl addr &&& 0xFFFF) else none

def Kept (before : List Call) (name : List UInt8) (after : List Call) : Prop :=
  ∃ i, place before name = some i ∧ lastIn maxNames i (stored (before ++ after)) = some name

section
variable {s : State} {name : List UInt8} {call : Call} {addr : Nat}

theorem printed_number (n : Nat) : IsNumber (printed (n &&& 0xFF)) := by
  have all : ∀ k, k < 256 → IsNumber (printed k) := by decide +kernel
  exact all (n &&& 0xFF) (Nat.lt_succ_of_le Nat.and_le_right)

theorem inetNtoa_literal (addr : Nat) : IpLiteral (inetNtoa addr) :=
  ⟨_, _, _, _, printed_number _, printed_number _, printed_number _, printed_number _, rfl⟩

theorem noLiteral_of_last {c : UInt8} (last : name.getLast? = some c) (letter : ¬ IsDigit 10 c) : ¬ IpLiteral name := by
  rintro ⟨_, _, _, d, _, _, _, ⟨some_, digits, _⟩, rfl⟩
  rw [List.getLast?_append_of_ne_nil _ (List.cons_ne_nil _ _), List.getLast?_cons, List.getLast?_eq_some_getLast some_] at last
  cases last
  exact letter (digits _ (List.getLast_mem some_))

theorem htonl_bytes {a b c d : Nat} (one : a < 2 ^ 8) (two : b < 2 ^ 8) (three : c < 2 ^ 8) (four : d < 2 ^ 8) :
    htonl (a * 2 ^ 24 + b * 2 ^ 16 + c * 2 ^ 8 + d) = d * 2 ^ 24 + c * 2 ^ 16 + b * 2 ^ 8 + a := by
  have last : (a * 2 ^ 24 + b * 2 ^ 16 + c * 2 ^ 8 + d) % 2 ^ 8 = d := by omega
  have third : (a * 2 ^ 24 + b * 2 ^ 16 + c * 2 ^ 8 + d) / 2 ^ 8 % 2 ^ 8 = c := by omega
  have second : (a * 2 ^ 24 + b * 2 ^ 16 + c * 2 ^ 8 + d) / 2 ^ 16 % 2 ^ 8 = b := by omega
  have first : (a * 2 ^ 24 + b * 2 ^ 16 + c * 2 ^ 8 + d) / 2 ^ 24 % 2 ^ 8 = a := by omega
  rw [htonl, first, second, third, last]

theorem ntohl_htonl {x : Nat} (fits : x < 2 ^ 32) : ntohl (htonl x) = x := by
  rw [ntohl, htonl.eq_def x, htonl_bytes (by omega) (by omega) (by omega) (by omega)]
  omega

theorem nameLookup_place (s : State) {i : Nat} (small : i < maxNames) :
    nameLookup s (ntohl (htonl (nameMagic ||| i))) = some (s.names i) := by
  have all : ∀ k : Fin 32, (nameMagic ||| k.val) < 2 ^ 32 ∧ (nameMagic ||| k.val) &&& 0xFFFF0000 = nameMagic ∧
      (nameMagic ||| k.val) &&& 0xFFFF = k.val := by decide
  obtain ⟨fits, magic, index⟩ := all ⟨i, small⟩
  dsimp only at fits magic index
  rw [ntohl_htonl fits, nameLookup, if_neg (not_not.mpr magic), index, if_neg (by omega)]

theorem Obtains.spec (obtains : Obtains s name call addr) :
    addr = (inetAton name).getD (htonl (nameMagic ||| s.nameNext)) ∧
      call.stores = if inetAton name = none then some (name.take nameMaxL) else none := by
  cases obtains with
  | gethostbyname =>
    simp only [Sockets.gethostbyname, Call.stores]
    cases inetAton name <;> exact ⟨rfl, trivial⟩
  | getaddrinfo found =>
    simp only [Sockets.getaddrinfo, Call.stores, if_true, Option.bind_some, true_and] at found ⊢
    cases literal : inetAton name with
    | none =>
      rw [literal] at found
      cases found
      exact ⟨rfl, trivial⟩
    | some addr =>
      rw [literal] at found
      cases found
      exact ⟨rfl, trivial⟩

theorem connect_asked {fd : Int} {port len : Nat} (answer : Option Nat) (opened : sockOf s fd ≠ none) (long : sockaddrInSize ≤ len) :
    (connect s fd (some ⟨afInet, port, addr⟩) len answer).asked =
      some ((nameLookup s (ntohl addr)).getD (inetNtoa addr), ntohs port) := by
  unfold connect
  cases found : sockOf s fd with
  | none => exact absurd found opened
  | some i =>
    dsimp only
    rw [if_neg (by omega)]
    cases answer <;> rfl

end

section
variable {before after : List Call} {name : List UInt8} {i : Nat}

theorem place_lt (found : place before name = some i) : i < maxNames := by
  unfold place at found
  split at found
  · cases found
    exact Nat.mod_lt _ (by decide)
  · split at found
    · rename_i _ _ _ table
      cases found
      exact table.2
    · cases found

theorem nameLookup_eq (before : List Call) (name : List UInt8) (s : State) :
    nameLookup s (ntohl ((inetAton name).getD (htonl (nameMagic ||| (run before).nameNext)))) = (place before name).map s.names := by
  unfold place
  cases inetAton name with
  | none =>
    rw [Option.getD_none, (run_cyclic before).turn]
    exact nameLookup_place s (Nat.mod_lt _ (by decide))
  | some addr =>
    rw [Option.getD_some, nameLookup]
    dsimp only
    by_cases magic : ntohl addr &&& 0xFFFF0000 = nameMagic
    · rw [if_neg (not_not.mpr magic)]
      by_cases small : ntohl addr &&& 0xFFFF < maxNames
      · rw [if_neg (Nat.not_le.mpr small), if_pos ⟨magic, small⟩]
        rfl
      · rw [if_pos (Nat.not_lt.mp small), if_neg fun both => small both.2]
        rfl
    · rw [if_pos magic, if_neg fun both => magic both.1]
      rfl

theorem place_taken {call : Call} (between : List Call) (found : place before name = some i)
    (stores : call.stores = if inetAton name = none then some (name.take nameMaxL) else none) :
    lastIn maxNames i (stored (before ++ call :: between)) ≠ none ∨ name ≠ [] := by
  unfold place at found
  cases literal : inetAton name with
  | none =>
    rw [literal] at found stores
    cases found
    rw [stored_append, stored_cons, stores, if_pos rfl, Option.toList_some, List.append_assoc, List.singleton_append]
    obtain ⟨last, taken⟩ := lastIn_taken maxNames (name.take nameMaxL) (stored between) (stored before)
    exact Or.inl (by rw [taken]; exact Option.some_ne_none last)
  | some addr =>
    have empty : inetAton [] = none := by decide
    refine Or.inr ?_
    rintro rfl
    rw [empty] at literal
    cases literal

theorem kept_of_few {call : Call} {between : List Call} (noAddress : inetAton name = none) (short : name.length ≤ nameMaxL)
    (stores : call.stores = some (name.take nameMaxL)) (few : (stored between).length < maxNames) : Kept before name (call :: between) := by
  have here : place before name = some ((stored before).length % maxNames) := by
    unfold place
    rw [noAddress]
  refine ⟨(stored before).length % maxNames, here, ?_⟩
  rw [stored_append, stored_cons, stores, Option.toList_some, List.append_assoc, List.singleton_append, lastIn_kept few,
    List.take_of_length_le short]

end

/-- Whatever was looked up in between, a connection to the address of a name asks the kernel for that name, if and only if
the place of the address in the name table was last taken by the name. -/
theorem connect_asks (before between : List Call) (name : List UInt8) (noLiteral : ¬ IpLiteral name) (call : Call) (addr : Nat)
    (obtains : Obtains (run before) name call addr) (fd : Int) (port len : Nat) (answer : Option Nat)
    (opened : sockOf (run (before ++ call :: between)) fd ≠ none) (long : sockaddrInSize ≤ len) :
    ((connect (run (before ++ call :: between)) fd (some ⟨afInet, port, addr⟩) len answer).asked = some (name, ntohs port) ↔
      Kept before name (call :: between)) ∧
    (inetAton name = none → name.length ≤ nameMaxL → (stored between).length < maxNames → Kept before name (call :: between)) := by
  obtain ⟨rfl, stores⟩ := obtains.spec
  refine ⟨?_, fun noAddress short few => kept_of_few noAddress short (stores.trans (if_pos noAddress)) few⟩
  rw [connect_asked answer opened long, nameLookup_eq]
  unfold Kept
  cases found : place before name with
  | none =>
    rw [Option.map_none, Option.getD_none]
    constructor
    · intro asked
      have same := (Prod.mk.inj (Option.some.inj asked)).1
      have literal := inetNtoa_literal ((inetAton name).getD (htonl (nameMagic ||| (run before).nameNext)))
      rw [same] at literal
      exact absurd literal noLiteral
    · rintro ⟨i, none_, -⟩
      cases none_
  | some i =>
    rw [Option.map_some, Option.getD_some, (run_cyclic (before ++ call :: between)).holds i (place_lt found)]
    constructor
    · intro asked
      have same := (Prod.mk.inj (Option.some.inj asked)).1
      refine ⟨i, rfl, ?_⟩
      cases last : lastIn maxNames i (stored (before ++ call :: between)) with
      | none =>
        rw [last] at same
        rcases place_taken between found stores with taken | some_
        · exact absurd last taken
        · exact absurd same.symm some_
      | some entry =>
        rw [last] at same
        exact congrArg some same
    · rintro ⟨_, ⟨rfl⟩, kept⟩
      rw [kept, Option.getD_some]

/-- A socket is opened, `a` is looked up, `b` is looked up `n` times, and the socket is connected to the address of `a`. -/
def lookupsBetween (n : Nat) : List Call :=
  [.socket afInet sockStream] ++ .getaddrinfo (some [97]) none true :: List.replicate n (.gethostbyname [98])

theorem connect_asks_few : (connect (run (lookupsBetween 31)) 1000 (some ⟨afInet, 0, 0x4DF0⟩) 16 (some 1)).asked = some ([97], 0) := by
  have asks := connect_asks [.socket afInet sockStream] (List.replicate 31 (.gethostbyname [98])) [97]
    (noLiteral_of_last (c := 97) rfl (by decide)) (.getaddrinfo (some [97]) none true) 0x4DF0 (.getaddrinfo (rfl : (getaddrinfo _ _ _ true).1 = .ok ⟨afInet, sockStream, ipprotoTcp, afInet, 0, 0x4DF0⟩))
    1000 0 16 (some 1) (by decide) (by decide)
  exact asks.1.mpr (asks.2 (by decide) (by decide) (by decide))

/-- `1.2.3.4.a`. -/
def addressInFront : List UInt8 := [49, 46, 50, 46, 51, 46, 52, 46, 97]

/-- After 32 other lookups the address of `a` stands for `b`. And a name that begins with four numbers is taken for an
address, whatever follows them. -/
theorem name_overwritten :
    (¬ IpLiteral [97] ∧ ∃ info, (getaddrinfo (run [.socket afInet sockStream]) (some [97]) none true).1 = .ok info ∧
      (connect (run (lookupsBetween 32)) 1000 (some info.addr) 16 (some 1)).asked = some ([98], 0)) ∧
    ¬ IpLiteral addressInFront ∧ (connect (run [.socket afInet sockStream, .gethostbyname addressInFront]) 1000
      (some ⟨afInet, 0, (gethostbyname (run [.socket afInet sockStream]) addressInFront).1.addr⟩) 16
      (some 1)).asked = some ([49, 46, 50, 46, 51, 46, 52], 0) := by
  refine ⟨⟨noLiteral_of_last (c := 97) rfl (by decide), ⟨afInet, sockStream, ipprotoTcp, afInet, 0, 0x4DF0⟩, by rfl, ?_⟩,
    noLiteral_of_last (c := 97) rfl (by decide), ?_⟩
  · decide +kernel
  · decide +kernel

end RexOs.User.Sockets
