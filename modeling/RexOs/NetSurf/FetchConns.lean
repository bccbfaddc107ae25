import Mathlib.Data.List.FinRange
import RexOs.Library.Run
import RexOs.Library.Slots

/-! The connections of the fetcher and its keep-alive cache (`user/netsurf/fetch_rexos.c`).

Connections are numbered in the order in which they are opened. `running` is the local variable
`conn` of the fetch that runs.
-/

set_option autoImplicit false

namespace RexOs.NetSurf

open RexOs.Library

def connCacheSize : Nat := 4

def connHostMax : Nat := 128

structure CacheEnt where
  used : Bool
  host : List UInt8
  port : UInt16
  isTls : Bool
  conn : Nat
  lastUsedTick : Nat
  deriving DecidableEq, Repr

structure Conns where
  cache : Fin connCacheSize → CacheEnt
  running : Option Nat
  opened : Nat
  closed : List Nat

/-- What `rconn_open` comes to; a handshake that fails closes its socket again. -/
inductive Opening where
  | refused
  | handshakeFailed
  | opened
  deriving DecidableEq, Repr

structure Site where
  host : List UInt8
  port : UInt16
  isTls : Bool
  deriving DecidableEq, Repr

def CacheEnt.Matches (e : CacheEnt) (site : Site) : Prop :=
  e.used = true ∧ e.port = site.port ∧ e.isTls = site.isTls ∧ e.host = site.host

instance (e : CacheEnt) (site : Site) : Decidable (e.Matches site) := by
  unfold CacheEnt.Matches
  infer_instance

namespace Conns
variable (c : Conns)

def setEnt (i : Fin connCacheSize) (e : CacheEnt) : Conns := { c with cache := Function.update c.cache i e }

/-- The entry that `cache_take` finds. -/
def hit (site : Site) : Option (Fin connCacheSize) :=
  (List.finRange connCacheSize).find? fun i => decide ((c.cache i).Matches site)

def cacheTake (site : Site) : Conns :=
  match c.hit site with
  | some i => { c.setEnt i { c.cache i with used := false } with running := some (c.cache i).conn }
  | none => c

def rconnOpen : Opening → Conns
  | .refused => c
  | .handshakeFailed => { c with opened := c.opened + 1, closed := c.closed ++ [c.opened] }
  | .opened => { c with opened := c.opened + 1, running := some c.opened }

def rconnClose : Conns := { c with running := none, closed := c.closed ++ c.running.toList }

def oldest : Fin connCacheSize :=
  (List.finRange connCacheSize).foldl
    (fun slot i => if (c.cache i).lastUsedTick < (c.cache slot).lastUsedTick then i else slot) ⟨0, by decide⟩

def store (i : Fin connCacheSize) (site : Site) (conn now : Nat) : Conns :=
  { c.setEnt i ⟨true, site.host, site.port, site.isTls, conn, now⟩ with running := none }

def cachePut (site : Site) (conn now : Nat) : Conns :=
  if connHostMax ≤ site.host.length then c.rconnClose
  else
    match (List.finRange connCacheSize).find? fun i => (c.cache i).used = false with
    | some i => c.store i site conn now
    | none => { c with closed := c.closed ++ [(c.cache c.oldest).conn] }.store c.oldest site conn now

end Conns

/-- `stale` marks a connection of the cache that failed before any byte of a response came. -/
inductive ConnOp where
  | take (site : Site)
  | connect (answer : Opening)
  | close (stale : Bool)
  | put (site : Site) (now : Nat)
  deriving DecidableEq, Repr

def ConnOp.apply (c : Conns) : ConnOp → Conns
  | .take site => c.cacheTake site
  | .connect answer => c.rconnOpen answer
  | .close _ => c.rconnClose
  | .put site now =>
      match c.running with
      | some conn => c.cachePut site conn now
      | none => c

def ConnOp.Allowed (c : Conns) : ConnOp → Prop
  | .take _ | .connect _ => c.running = none
  | .close _ | .put _ _ => c.running ≠ none

def ConnStep (c : Conns) (op : ConnOp) (c' : Conns) : Prop := op.Allowed c ∧ c' = op.apply c

def connsStart : Conns := { cache := fun _ => ⟨false, [], 0, false, 0, 0⟩, running := none, opened := 0, closed := [] }

def connSlot (c : Conns) : Option (Fin connCacheSize) → Option Nat
  | some i => if (c.cache i).used then some (c.cache i).conn else none
  | none => c.running

def Owned (c : Conns) : Prop := Accounted (connSlot c) c.closed c.opened

theorem connsStart_owned : Owned connsStart := by
  have nothing : connSlot connsStart = fun _ => none := by
    funext i
    cases i <;> rfl
  rw [Owned, nothing]
  exact Accounted.empty

variable {c : Conns}

theorem connSlot_setEnt {i j : Fin connCacheSize} {e : CacheEnt} (other : j ≠ i) :
    connSlot (c.setEnt i e) (some j) = connSlot c (some j) := by
  simp only [connSlot, Conns.setEnt, Function.update_of_ne other]

theorem Owned.take (owned : Owned c) (idle : c.running = none) (site : Site) : Owned (c.cacheTake site) := by
  unfold Conns.cacheTake
  split
  · rename_i i found
    unfold Conns.hit at found
    have yes := List.find?_some found
    have matches_ := of_decide_eq_true yes
    have apart : (some i : Option (Fin connCacheSize)) ≠ none := nofun
    apply owned.move apart idle
    · simp only [connSlot, Conns.setEnt, Function.update_self, Bool.false_eq_true, if_false]
    · simp only [connSlot, matches_.1, if_true]
    · intro k notHere notRunning
      cases k with
      | none => exact absurd rfl notRunning
      | some j =>
        exact connSlot_setEnt fun same => notHere (congrArg some same)
  · exact owned

theorem Owned.close (owned : Owned c) : Owned c.rconnClose := by
  apply owned.free (i := none)
  · rfl
  · intro k other
    cases k with
    | none => exact absurd rfl other
    | some j => rfl

theorem Owned.opens (owned : Owned c) (idle : c.running = none) (answer : Opening) : Owned (c.rconnOpen answer) := by
  have made : Owned (c.rconnOpen .opened) := by
    apply owned.give (i := none) idle rfl
    intro k other
    cases k with
    | none => exact absurd rfl other
    | some j => rfl
  cases answer with
  | refused => exact owned
  | opened => exact made
  | handshakeFailed =>
    -- as if it had been opened and closed
    have closed := made.close
    have same : (c.rconnOpen .opened).rconnClose = c.rconnOpen .handshakeFailed := by
      simp only [Conns.rconnOpen, Conns.rconnClose, Option.toList_some, idle]
    rw [same] at closed
    exact closed

theorem Owned.store (owned : Owned c) {i : Fin connCacheSize} {conn : Nat} (running : c.running = some conn)
    (free : connSlot c (some i) = none) (site : Site) (now : Nat) : Owned (c.store i site conn now) := by
  have apart : (none : Option (Fin connCacheSize)) ≠ some i := nofun
  apply owned.move apart free
  · rfl
  · simp only [connSlot, Conns.store, Conns.setEnt, Function.update_self, if_true, running]
  · intro k notRunning notHere
    cases k with
    | none => exact absurd rfl notRunning
    | some j => exact connSlot_setEnt fun same => notHere (congrArg some same)

theorem Owned.put (owned : Owned c) {conn : Nat} (running : c.running = some conn) (site : Site) (now : Nat) :
    Owned (c.cachePut site conn now) := by
  unfold Conns.cachePut
  split
  · exact owned.close
  split
  · rename_i i found
    have yes := List.find?_some found
    have unused := of_decide_eq_true yes
    apply owned.store running
    simp only [connSlot, unused, Bool.false_eq_true, if_false]
  · rename_i full
    have used : (c.cache c.oldest).used = true := by
      have all := List.find?_eq_none.mp full c.oldest (List.mem_finRange _)
      simpa using all
    -- the oldest entry is closed, and the connection takes its place
    have evicted : Owned ({ c with closed := c.closed ++ [(c.cache c.oldest).conn] }.setEnt c.oldest
        { c.cache c.oldest with used := false }) := by
      have slot : connSlot c (some c.oldest) = some (c.cache c.oldest).conn := by
        simp only [connSlot, used, if_true]
      have freed : ∀ s : Option (Fin connCacheSize) → Option Nat, s (some c.oldest) = none →
          (∀ k, k ≠ some c.oldest → s k = connSlot c k) → Accounted s (c.closed ++ [(c.cache c.oldest).conn]) c.opened := by
        intro s left there
        have all := owned.free left there
        rw [slot] at all
        exact all
      apply freed
      · simp only [connSlot, Conns.setEnt, Function.update_self, Bool.false_eq_true, if_false]
      · intro k other
        cases k with
        | none => rfl
        | some j => exact connSlot_setEnt (c := { c with closed := _ }) fun same => other (congrArg some same)
    have free : connSlot ({ c with closed := c.closed ++ [(c.cache c.oldest).conn] }.setEnt c.oldest
        { c.cache c.oldest with used := false }) (some c.oldest) = none := by
      simp only [connSlot, Conns.setEnt, Function.update_self, Bool.false_eq_true, if_false]
    have stored := evicted.store running free site now
    simp only [Conns.store, Conns.setEnt, Function.update_idem] at stored ⊢
    exact stored

theorem Owned.step {op : ConnOp} {c' : Conns} (owned : Owned c) (step : ConnStep c op c') : Owned c' := by
  obtain ⟨allowed, rfl⟩ := step
  cases op with
  | take site => exact owned.take allowed site
  | connect answer => exact owned.opens allowed answer
  | close stale => exact owned.close
  | put site now =>
    obtain ⟨conn, running⟩ := Option.ne_none_iff_exists'.mp allowed
    simp only [ConnOp.apply, running]
    exact owned.put running site now

end RexOs.NetSurf
