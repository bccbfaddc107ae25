import RexOs.Library.Log
import RexOs.Net.Arp

/-! Histories of the ARP cache and of the packets that wait for an address.

The log of a history tells which address was learned last (`macOf`) and which packet
each slot of the queue holds (`waiting`). `ArpOk` says that the state agrees with the
log and that the log itself is in order: a packet is sent only while it waits, and only
to the address learned for its next hop.
-/

set_option autoImplicit false

namespace RexOs.Net

open RexOs.Library

def ArpEvent.mac (ip : Ip4Addr) : ArpEvent → Option (Option MacAddr)
  | .learned ip' mac => if ip' = ip then some (some mac) else none
  | .evicted ip' => if ip' = ip then some none else none
  | _ => none

def ArpEvent.slot (i : Fin arpPendingSize) : ArpEvent → Option (Option ArpPending)
  | .accepted j p => if j = i then some (some p) else none
  | .flushed j _ => if j = i then some none else none
  | _ => none

def macOf (log : List ArpEvent) (ip : Ip4Addr) : Option MacAddr := Log.latest (ArpEvent.mac ip) log

def waiting (log : List ArpEvent) (i : Fin arpPendingSize) : Option ArpPending := Log.latest (ArpEvent.slot i) log

structure CarriesPacket (frame : EthFrame) (p : ArpPending) (mac : MacAddr) : Prop where
  dev : frame.dev = p.dev
  dest : frame.dest = mac
  ethertype : frame.ethertype = ethertypeIpv4
  payload : frame.payload = p.packet

/-- The queue takes a packet only into a free slot, and sends a packet only while it
waits, to the MAC learned for its next hop. -/
def ArpEvent.InOrder (before : List ArpEvent) : ArpEvent → Prop
  | .accepted i _ => waiting before i = none
  | .flushed i frame => ∃ p mac, waiting before i = some p ∧ macOf before p.nextHop = some mac ∧
      CarriesPacket frame p mac
  | _ => True

def Distinct (cache : Fin arpCacheSize → ArpEntry) : Prop :=
  ∀ i j, (cache i).valid = true → (cache j).valid = true → (cache i).ip = (cache j).ip → i = j

/-- The search of `arp_resolve`. -/
def lookup (cache : Fin arpCacheSize → ArpEntry) (ip : Ip4Addr) : Option MacAddr :=
  (findEntry cache ip).map fun i => (cache i).mac

section
variable {cache : Fin arpCacheSize → ArpEntry} {ip ip' : Ip4Addr} {mac : MacAddr} {i : Fin arpCacheSize}

theorem findEntry_some (found : findEntry cache ip = some i) : (cache i).valid = true ∧ (cache i).ip = ip := by
  have hit := List.find?_some found
  simpa using hit

theorem findEntry_none : findEntry cache ip = none ↔ ∀ i, (cache i).valid = true → (cache i).ip ≠ ip := by
  simp [findEntry, List.find?_eq_none, List.mem_finRange]

theorem lookup_none : lookup cache ip = none ↔ ∀ i, (cache i).valid = true → (cache i).ip ≠ ip := by
  rw [lookup, Option.map_eq_none_iff]
  exact findEntry_none

theorem lookup_some (distinct : Distinct cache) (valid : (cache i).valid = true) :
    lookup cache (cache i).ip = some (cache i).mac := by
  unfold lookup
  cases found : findEntry cache (cache i).ip with
  | none => exact absurd rfl (findEntry_none.mp found i valid)
  | some j =>
    obtain ⟨valid', same⟩ := findEntry_some found
    rw [distinct j i valid' valid same]
    rfl

def Alone (cache : Fin arpCacheSize → ArpEntry) (ip : Ip4Addr) (i : Fin arpCacheSize) : Prop :=
  ∀ j, j ≠ i → (cache j).valid = true → (cache j).ip ≠ ip

theorem distinct_store (mac : MacAddr) (distinct : Distinct cache) (alone : Alone cache ip i) :
    Distinct (Function.update cache i ⟨ip, mac, true⟩) := by
  intro j k validJ validK same
  by_cases atJ : j = i <;> by_cases atK : k = i
  · rw [atJ, atK]
  · subst atJ
    rw [Function.update_of_ne atK] at validK same
    rw [Function.update_self] at same
    exact absurd same.symm (alone k atK validK)
  · subst atK
    rw [Function.update_of_ne atJ] at validJ same
    rw [Function.update_self] at same
    exact absurd same (alone j atJ validJ)
  · rw [Function.update_of_ne atJ] at validJ same
    rw [Function.update_of_ne atK] at validK same
    exact distinct j k validJ validK same

theorem lookup_store (distinct : Distinct cache) (alone : Alone cache ip i) :
    lookup (Function.update cache i ⟨ip, mac, true⟩) ip = some mac := by
  have found := lookup_some (distinct_store mac distinct alone) (i := i) (by rw [Function.update_self])
  rwa [Function.update_self] at found

theorem lookup_store_of_ne (distinct : Distinct cache) (alone : Alone cache ip i) (other : ip' ≠ ip) :
    lookup (Function.update cache i ⟨ip, mac, true⟩) ip' =
      if (cache i).valid = true ∧ (cache i).ip = ip' then none else lookup cache ip' := by
  split
  · rename_i here
    rw [lookup_none]
    intro j valid same
    by_cases atJ : j = i
    · subst atJ
      rw [Function.update_self] at same
      exact other same.symm
    · rw [Function.update_of_ne atJ] at valid same
      exact atJ (distinct j i valid here.1 (by rw [same, here.2]))
  · rename_i elsewhere
    cases found : lookup cache ip' with
    | none =>
      rw [lookup_none] at found ⊢
      intro j valid same
      by_cases atJ : j = i
      · subst atJ
        rw [Function.update_self] at same
        exact other same.symm
      · rw [Function.update_of_ne atJ] at valid same
        exact found j valid same
    | some old =>
      obtain ⟨j, atEntry, rfl⟩ := Option.map_eq_some_iff.mp found
      obtain ⟨valid, same⟩ := findEntry_some atEntry
      have apart : j ≠ i := by
        intro atJ
        subst atJ
        exact elsewhere ⟨valid, same⟩
      have kept := lookup_some (distinct_store mac distinct alone) (i := j)
        (by rw [Function.update_of_ne apart]; exact valid)
      rwa [Function.update_of_ne apart, same] at kept

end

def Arp.held (s : Arp) (i : Fin arpPendingSize) : Option ArpPending :=
  if (s.pending i).valid = true then some (s.pending i) else none

structure ArpCore (log : List ArpEvent) (s : Arp) : Prop where
  distinct : Distinct s.cache
  cached : ∀ ip, lookup s.cache ip = macOf log ip
  queued : ∀ i, s.held i = waiting log i
  fits : ∀ i, (s.pending i).valid = true → (s.pending i).packet.length ≤ arpPendingPacketMax
  ordered : Log.Each ArpEvent.InOrder log

def Unresolved (s : Arp) : Prop :=
  ∀ i, (s.pending i).valid = true → (s.pending i).nextHop ≠ .broadcast ∧ lookup s.cache (s.pending i).nextHop = none

structure ArpOk (log : List ArpEvent) (s : Arp) : Prop extends ArpCore log s where
  unresolved : Unresolved s

section
variable {devices : Devices} {log : List ArpEvent} {s : Arp} {ip : Ip4Addr} {mac : MacAddr}

theorem ArpCore.sent (ok : ArpCore log s) (frame : EthFrame) : ArpCore (log ++ [.sent frame]) s where
  distinct := ok.distinct
  cached ip := by
    rw [macOf, Log.latest_snoc]
    exact ok.cached ip
  queued i := by
    rw [waiting, Log.latest_snoc]
    exact ok.queued i
  fits := ok.fits
  ordered := ok.ordered.snoc trivial

theorem ethSend_cases (dev : Nat) (ethertype : UInt16) (payload : List UInt8) :
    ethSend devices dev mac ethertype payload = [] ∨ ∃ frame, ethSend devices dev mac ethertype payload = [frame] := by
  unfold ethSend
  split
  · exact Or.inl rfl
  · exact Or.inr ⟨_, rfl⟩

theorem ArpOk.ethSend (ok : ArpOk log s) (dev : Nat) (ethertype : UInt16) (payload : List UInt8) :
    ArpOk (log ++ (ethSend devices dev mac ethertype payload).map .sent) s := by
  rcases ethSend_cases dev ethertype payload with none | ⟨frame, one⟩
  · rw [none, List.map_nil, List.append_nil]
    exact ok
  · rw [one]
    exact ⟨ok.toArpCore.sent frame, ok.unresolved⟩

theorem ArpCore.flush (devices : Devices) {i : Fin arpPendingSize} (ok : ArpCore log s) (valid : (s.pending i).valid = true)
    (known : macOf log (s.pending i).nextHop = some mac) :
    ArpCore (log ++ (Net.ethSend devices (s.pending i).dev mac ethertypeIpv4 (s.pending i).packet).map (.flushed i))
      { s with pending := Function.update s.pending i { s.pending i with valid := false } } := by
  have short := ok.fits i valid
  -- a packet of the queue is short enough for `eth_send`
  have one : Net.ethSend devices (s.pending i).dev mac ethertypeIpv4 (s.pending i).packet =
      [⟨(s.pending i).dev, mac, (devices (s.pending i).dev).mac, ethertypeIpv4, (s.pending i).packet⟩] := by
    unfold Net.ethSend
    rw [if_neg]
    simp only [arpPendingPacketMax, ethHeaderSize] at short ⊢
    omega
  rw [one]
  constructor
  · exact ok.distinct
  · intro ip
    rw [macOf, List.map_singleton, Log.latest_snoc]
    exact ok.cached ip
  · intro j
    rw [waiting, List.map_singleton, Log.latest_snoc]
    by_cases here : j = i
    · subst here
      simp [Arp.held, ArpEvent.slot]
    · have other : i ≠ j := fun same => here same.symm
      simp only [Arp.held, Function.update_of_ne here, ArpEvent.slot, if_neg other, Option.getD_none]
      exact ok.queued j
  · intro j valid'
    by_cases here : j = i
    · subst here
      simp at valid'
    · simp only [Function.update_of_ne here] at valid' ⊢
      exact ok.fits j valid'
  · apply ok.ordered.snoc
    have held : waiting log i = some (s.pending i) := by
      rw [← ok.queued i, Arp.held, if_pos valid]
    exact ⟨_, mac, held, known, rfl, rfl, rfl, rfl⟩

structure Flushed (s s' : Arp) (ip : Ip4Addr) (slots : List (Fin arpPendingSize)) : Prop where
  cache : s'.cache = s.cache
  kept : ∀ i, (s'.pending i).valid = true → s'.pending i = s.pending i
  gone : ∀ i ∈ slots, (s'.pending i).valid = true → (s'.pending i).nextHop ≠ ip

theorem flushLoop_ok (devices : Devices) (slots : List (Fin arpPendingSize)) (log : List ArpEvent) (s : Arp) (ok : ArpCore log s)
    (known : macOf log ip = some mac) :
    ArpCore (log ++ (flushLoop devices ip mac slots s).2) (flushLoop devices ip mac slots s).1 ∧
      Flushed s (flushLoop devices ip mac slots s).1 ip slots := by
  induction slots generalizing log s with
  | nil =>
    constructor
    · rw [flushLoop, List.append_nil]
      exact ok
    · exact ⟨rfl, fun _ _ => rfl, by simp⟩
  | cons i rest ih =>
    -- a slot that is skipped holds no packet for `ip`, and later rounds only empty slots
    have skip (idle : (s.pending i).valid = true → (s.pending i).nextHop ≠ ip) :
        ArpCore (log ++ (flushLoop devices ip mac rest s).2) (flushLoop devices ip mac rest s).1 ∧
          Flushed s (flushLoop devices ip mac rest s).1 ip (i :: rest) := by
      obtain ⟨core, flushed⟩ := ih log s ok known
      refine ⟨core, flushed.cache, flushed.kept, ?_⟩
      intro j member valid
      rcases List.mem_cons.mp member with rfl | later
      · have same := flushed.kept j valid
        rw [same] at valid ⊢
        exact idle valid
      · exact flushed.gone j later valid
    unfold flushLoop
    split
    · rename_i invalid
      exact skip fun valid => absurd valid invalid
    split
    · rename_i other
      exact skip fun _ => other
    · rename_i valid here
      rw [ne_eq, not_not] at here
      rw [not_not] at valid
      have known' : macOf log (s.pending i).nextHop = some mac := by rw [here]; exact known
      have emptied := ok.flush devices valid known'
      have still : macOf (log ++ (Net.ethSend devices (s.pending i).dev mac ethertypeIpv4
          (s.pending i).packet).map (.flushed i)) ip = some mac := by
        rw [← emptied.cached, ← known, ← ok.cached]
      obtain ⟨core, flushed⟩ := ih _ _ emptied still
      rw [List.append_assoc] at core
      refine ⟨core, flushed.cache, ?_, ?_⟩
      · intro j valid'
        have same := flushed.kept j valid'
        by_cases atJ : j = i
        · subst atJ
          rw [same] at valid'
          simp at valid'
        · rw [same]
          exact Function.update_of_ne atJ _ _
      · intro j member valid'
        rcases List.mem_cons.mp member with rfl | later
        · rw [flushed.kept j valid'] at valid'
          simp at valid'
        · exact flushed.gone j later valid'

def storeEvents (cache : Fin arpCacheSize → ArpEntry) (i : Fin arpCacheSize) (ip : Ip4Addr) (mac : MacAddr) :
    List ArpEvent :=
  if (cache i).valid = true ∧ (cache i).ip ≠ ip then [.evicted (cache i).ip, .learned ip mac] else [.learned ip mac]

theorem storeEvents_macOf (cache : Fin arpCacheSize → ArpEntry) (i : Fin arpCacheSize) (ip' : Ip4Addr) :
    macOf (log ++ storeEvents cache i ip mac) ip' =
      if ip' = ip then some mac
      else if (cache i).valid = true ∧ (cache i).ip = ip' then none else macOf log ip' := by
  unfold storeEvents macOf
  by_cases here : ip' = ip
  · subst here
    rw [if_pos rfl]
    split <;> simp [Log.latest, ArpEvent.mac]
  · have other : ip ≠ ip' := fun same => here same.symm
    rw [if_neg here]
    split
    · rename_i replaced
      by_cases victim : (cache i).ip = ip'
      · simp [Log.latest, ArpEvent.mac, other, victim, replaced.1]
      · simp [Log.latest, ArpEvent.mac, other, victim]
    · rename_i kept
      have still : ¬ ((cache i).valid = true ∧ (cache i).ip = ip') := by
        rintro ⟨valid, same⟩
        exact kept ⟨valid, by rw [same]; exact here⟩
      simp [ArpEvent.mac, other, still]

theorem ArpCore.store (ok : ArpCore log s) {i : Fin arpCacheSize} (mac : MacAddr) (alone : Alone s.cache ip i) :
    ArpCore (log ++ storeEvents s.cache i ip mac)
      { s with cache := Function.update s.cache i ⟨ip, mac, true⟩ } where
  distinct := distinct_store mac ok.distinct alone
  cached ip' := by
    rw [storeEvents_macOf]
    split
    · rename_i here
      subst here
      exact lookup_store ok.distinct alone
    · rename_i other
      rw [lookup_store_of_ne ok.distinct alone other, ok.cached]
  queued j := by
    have silent : waiting (log ++ storeEvents s.cache i ip mac) j = waiting log j := by
      unfold storeEvents waiting
      split
      · simp [Log.latest, ArpEvent.slot]
      · simp [Log.latest, ArpEvent.slot]
    rw [silent]
    exact ok.queued j
  fits := ok.fits
  ordered := by
    unfold storeEvents
    split
    · have first : Log.Each ArpEvent.InOrder (log ++ [.evicted (s.cache i).ip]) := ok.ordered.snoc trivial
      have second : Log.Each ArpEvent.InOrder (log ++ [.evicted (s.cache i).ip] ++ [.learned ip mac]) := first.snoc trivial
      simpa using second
    · exact ok.ordered.snoc trivial

theorem arpCacheUpdate_eq (devices : Devices) (mac : MacAddr) (distinct : Distinct s.cache) :
    ∃ i r, Alone s.cache ip i ∧
      arpFlushPending devices { s with cache := Function.update s.cache i ⟨ip, mac, true⟩ } ip mac = r ∧
      arpCacheUpdate devices s ip mac = (r.1, storeEvents s.cache i ip mac ++ r.2) := by
  unfold arpCacheUpdate storeEvents
  cases found : findEntry s.cache ip with
  | some i =>
    obtain ⟨valid, same⟩ := findEntry_some found
    refine ⟨i, _, ?_, rfl, ?_⟩
    · intro j apart valid' same'
      exact apart (distinct j i valid' valid (by rw [same', same]))
    · simp only [valid, same, ne_eq, not_true_eq_false, and_false, if_false, List.singleton_append]
  | none =>
    have absent := findEntry_none.mp found
    cases free : (List.finRange arpCacheSize).find? fun i => !(s.cache i).valid with
    | some i =>
      have invalid : (s.cache i).valid = false := by simpa using List.find?_some free
      refine ⟨i, _, fun j _ valid => absent j valid, rfl, ?_⟩
      simp only [invalid, Bool.false_eq_true, false_and, if_false, List.singleton_append]
    | none =>
      have valid : (s.cache firstEntry).valid = true := by
        have full := List.find?_eq_none.mp free firstEntry (List.mem_finRange _)
        simpa using full
      refine ⟨firstEntry, _, fun j _ valid => absent j valid, rfl, ?_⟩
      rw [if_pos ⟨valid, absent _ valid⟩]
      rfl

theorem ArpOk.cacheUpdate (ok : ArpOk log s) (devices : Devices) (ip : Ip4Addr) (mac : MacAddr) :
    ArpOk (log ++ (arpCacheUpdate devices s ip mac).2) (arpCacheUpdate devices s ip mac).1 := by
  obtain ⟨i, r, alone, flush, whole⟩ := arpCacheUpdate_eq devices mac ok.distinct
  rw [whole]
  have known : macOf (log ++ storeEvents s.cache i ip mac) ip = some mac := by
    rw [storeEvents_macOf, if_pos rfl]
  obtain ⟨core, flushed⟩ := flushLoop_ok devices (List.finRange arpPendingSize) _ _ (ok.toArpCore.store mac alone) known
  rw [arpFlushPending] at flush
  rw [flush, List.append_assoc] at core
  rw [flush] at flushed
  refine ⟨core, ?_⟩
  -- a packet that still waits is for an address other than the one just stored
  intro j valid
  have same := flushed.kept j valid
  have other := flushed.gone j (List.mem_finRange j) valid
  rw [flushed.cache, same]
  rw [same] at valid other
  obtain ⟨limited, missing⟩ := ok.unresolved j valid
  refine ⟨limited, ?_⟩
  rw [lookup_store_of_ne ok.distinct alone other, missing, ite_self]

theorem ArpOk.receive (ok : ArpOk log s) (devices : Devices) (dev : Nat) (arp : ArpHeader) :
    ArpOk (log ++ (arpReceive devices s dev arp).2) (arpReceive devices s dev arp).1 := by
  have idle : ArpOk (log ++ []) s := by rwa [List.append_nil]
  unfold arpReceive
  split
  · exact idle
  split
  · exact idle
  split
  · have updated := ok.cacheUpdate devices arp.srcIp arp.srcMac
    simp only
    split
    · rw [← List.append_assoc]
      exact updated.ethSend dev _ _
    · exact updated
  split
  · exact ok.cacheUpdate devices arp.srcIp arp.srcMac
  · exact idle

theorem arpResolve_none : arpResolve s ip = none ↔ ip ≠ .broadcast ∧ lookup s.cache ip = none := by
  unfold arpResolve lookup
  split
  · rename_i limited
    simp [limited]
  · rename_i other
    simp [other]

theorem ArpOk.queue (ok : ArpOk log s) (dev : Nat) (data : List UInt8) (missing : arpResolve s ip = none) :
    ArpOk (log ++ (arpQueueIpv4 s dev ip data).2) (arpQueueIpv4 s dev ip data).1 := by
  have idle : ArpOk (log ++ []) s := by rwa [List.append_nil]
  unfold arpQueueIpv4
  split
  · exact idle
  rename_i short
  rw [Nat.not_lt] at short
  cases free : (List.finRange arpPendingSize).find? fun i => !(s.pending i).valid with
  | none => exact idle
  | some i =>
    have invalid : (s.pending i).valid = false := by simpa using List.find?_some free
    have empty : waiting log i = none := by
      rw [← ok.queued i, Arp.held, invalid]
      rfl
    refine ⟨⟨ok.distinct, ?_, ?_, ?_, ok.ordered.snoc empty⟩, ?_⟩
    · intro ip
      rw [macOf, Log.latest_snoc]
      exact ok.cached ip
    · intro j
      rw [waiting, Log.latest_snoc]
      by_cases here : j = i
      · subst here
        simp [Arp.held, ArpEvent.slot]
      · have other : i ≠ j := fun same => here same.symm
        simp only [Arp.held, Function.update_of_ne here, ArpEvent.slot, if_neg other, Option.getD_none]
        exact ok.queued j
    · intro j valid
      by_cases here : j = i
      · subst here
        simpa using short
      · simp only [Function.update_of_ne here] at valid ⊢
        exact ok.fits j valid
    · intro j valid
      by_cases here : j = i
      · subst here
        simpa using arpResolve_none.mp missing
      · simp only [Function.update_of_ne here] at valid ⊢
        exact ok.unresolved j valid

theorem ArpOk.count (ok : ArpOk log s) (ipId : UInt16) : ArpOk log { s with ipId := ipId } :=
  ⟨⟨ok.distinct, ok.cached, ok.queued, ok.fits, ok.ordered⟩, ok.unresolved⟩

theorem ArpOk.send (ok : ArpOk log s) (devices : Devices) (dev : Nat) (destIp : Ip4Addr) (protocol : UInt8)
    (payload : List UInt8) :
    ArpOk (log ++ (ipv4Send devices s dev destIp protocol payload).2) (ipv4Send devices s dev destIp protocol payload).1 := by
  unfold ipv4Send
  simp only
  split
  · rwa [List.append_nil]
  have counted := ok.count (s.ipId + 1)
  split
  · exact counted.ethSend dev _ _
  split
  · exact counted.ethSend dev _ _
  · rename_i missing
    rw [← List.append_assoc]
    exact (counted.queue dev _ missing).ethSend dev _ _

end

/-- A call from outside; the fields of the devices are those at the time of the call. -/
inductive ArpOp where
  | receive (devices : Devices) (dev : Nat) (arp : ArpHeader)
  | resolve (ip : Ip4Addr)
  | send (devices : Devices) (dev : Nat) (destIp : Ip4Addr) (protocol : UInt8) (payload : List UInt8)

def ArpOp.apply (s : Arp) : ArpOp → Arp × List ArpEvent
  | .receive devices dev arp => arpReceive devices s dev arp
  -- `arp_resolve` only reads the cache
  | .resolve _ => (s, [])
  | .send devices dev destIp protocol payload => ipv4Send devices s dev destIp protocol payload

def runArp : List ArpOp → Arp → List ArpEvent → Arp × List ArpEvent
  | [], s, log => (s, log)
  | op :: rest, s, log => runArp rest (op.apply s).1 (log ++ (op.apply s).2)

def bootArp : Arp where
  cache _ := ⟨⟨0, 0, 0, 0⟩, ⟨0, 0, 0, 0, 0, 0⟩, false⟩
  pending _ := ⟨0, ⟨0, 0, 0, 0⟩, [], false⟩
  ipId := 0

theorem bootArp_ok : ArpOk [] bootArp where
  distinct i j valid := by cases valid
  cached ip := by
    rw [macOf, Log.latest_nil, lookup_none]
    intro i valid
    cases valid
  queued i := rfl
  fits i valid := by cases valid
  ordered := Log.each_nil
  unresolved i valid := by cases valid

theorem runArp_ok (ops : List ArpOp) (s : Arp) (log : List ArpEvent) (ok : ArpOk log s) :
    ArpOk (runArp ops s log).2 (runArp ops s log).1 := by
  induction ops generalizing s log with
  | nil => exact ok
  | cons op rest ih =>
    apply ih
    cases op with
    | receive devices dev arp => exact ok.receive devices dev arp
    | resolve ip => simpa [ArpOp.apply] using ok
    | send devices dev destIp protocol payload => exact ok.send devices dev destIp protocol payload

structure ArpHistory (log : List ArpEvent) (s : Arp) : Prop where
  unique : ∀ i j, (s.cache i).valid = true → (s.cache j).valid = true → (s.cache i).ip = (s.cache j).ip → i = j
  resolves : ∀ ip, ip ≠ .broadcast → arpResolve s ip = macOf log ip
  stored : ∀ before i p after, log = before ++ .accepted i p :: after → waiting before i = none
  addressed : ∀ before i frame after, log = before ++ .flushed i frame :: after →
    ∃ p mac, waiting before i = some p ∧ macOf before p.nextHop = some mac ∧ CarriesPacket frame p mac
  once : ∀ before i frame between frame' after,
    log = before ++ .flushed i frame :: between ++ .flushed i frame' :: after → ∃ p, .accepted i p ∈ between
  unresolved : ∀ i, (s.pending i).valid = true → arpResolve s (s.pending i).nextHop = none

theorem arp_histories (ops : List ArpOp) : ArpHistory (runArp ops bootArp []).2 (runArp ops bootArp []).1 := by
  have ok := runArp_ok ops bootArp [] bootArp_ok
  constructor
  · exact ok.distinct
  · intro ip other
    rw [← ok.cached, arpResolve, if_neg other]
    rfl
  · intro before i p after whole
    exact ok.ordered before _ after whole
  · intro before i frame after whole
    exact ok.ordered before _ after whole
  · intro before i frame between frame' after whole
    obtain ⟨p, mac, held, _, _⟩ := ok.ordered _ _ _ whole
    -- after the first transmission the slot is empty, so something was accepted since
    have split_ : before ++ ArpEvent.flushed i frame :: between = (before ++ [.flushed i frame]) ++ between := by simp
    rw [waiting, split_] at held
    rcases Log.latest_append_some held with early | ⟨event, member, sets⟩
    · rw [Log.latest_snoc] at early
      simp [ArpEvent.slot] at early
    · cases event with
      | accepted j p' =>
        rw [ArpEvent.slot] at sets
        split at sets
        · rename_i same
          subst same
          exact ⟨p', member⟩
        · cases sets
      | flushed j _ =>
        rw [ArpEvent.slot] at sets
        split at sets <;> cases sets
      | learned _ _ => cases sets
      | evicted _ => cases sets
      | sent _ => cases sets
  · intro i valid
    exact arpResolve_none.mpr (ok.unresolved i valid)

end RexOs.Net
