import RexOs.NetSurf.FetchProcess

/-! Every connection has one owner, and when a request is repeated on a fresh one.

The trace of the connection operations is a run of `ConnStep`, so `Owned` holds between any two of
them.
-/

set_option autoImplicit false

namespace RexOs.NetSurf

open RexOs.Library

def World.Traced (w : World) : Prop := Run ConnStep connsStart w.trace w.conns

variable {Z : Type} {w : World}

theorem World.Traced.perform (traced : w.Traced) {op : ConnOp} (allowed : op.Allowed w.conns) : (w.perform op).Traced :=
  traced.snoc ⟨allowed, rfl⟩

theorem World.Traced.owned (traced : w.Traced) : Owned w.conns := by
  apply Run.invariant Owned connsStart_owned _ traced
  intro _ _ _ owned step
  exact owned.step step

theorem cachePut_running (c : Conns) (site : Site) (conn now : Nat) : (c.cachePut site conn now).running = none := by
  unfold Conns.cachePut
  split
  · rfl
  · split <;> rfl

theorem put_running (c : Conns) (site : Site) (now : Nat) : ((ConnOp.put site now).apply c).running = none := by
  unfold ConnOp.apply
  cases running : c.running with
  | none => exact running
  | some conn => exact cachePut_running c site conn now

theorem recvHeader_nothing (cuts : List Cut) (unread : List UInt8) :
    (recvHeader cuts unread []).hdr = [] ↔ ∀ n room, cuts.head? = some (.read n room) → unread = [] := by
  cases cuts with
  | nil => exact iff_of_true rfl (by rintro _ _ ⟨⟩)
  | cons cut cuts =>
    rw [recvHeader, if_pos (by decide)]
    cases cut with
    | read n room =>
      by_cases empty : unread = []
      · subst empty
        exact ⟨fun _ _ _ _ => rfl, fun _ => rfl⟩
      · rw [rconnRecv, if_neg empty]
        have some_ : unread.take (min (n + 1) (hdrMax - 1 - ([] : List UInt8).length)) ≠ [] := by
          rw [ne_eq, List.take_eq_nil_iff]
          rintro (zero | nil)
          · rw [Nat.min_eq_zero_iff] at zero
            rcases zero with zero | zero <;> cases zero
          · exact empty nil
        constructor
        · intro nothing
          exfalso
          dsimp only at nothing
          split at nothing
          · exact some_ nothing
          · obtain ⟨more, grown, _⟩ := recvHeader_splits cuts (unread.drop (min (n + 1) (hdrMax - 1 - ([] : List UInt8).length)))
              ([] ++ unread.take (min (n + 1) (hdrMax - 1 - ([] : List UInt8).length)))
            rw [grown, List.append_assoc, List.nil_append, List.append_eq_nil_iff] at nothing
            exact some_ nothing.1
        · intro none_
          exact absurd (none_ n room rfl) empty
    | silence => exact iff_of_true rfl (by rintro _ _ ⟨⟩)
    | closed => exact iff_of_true rfl (by rintro _ _ ⟨⟩)
    | error => exact iff_of_true rfl (by rintro _ _ ⟨⟩)

/-- No byte of a response comes on a connection that has these bytes still to be received. -/
def FetchEnv.Dead (env : FetchEnv Z) (k : Nat) (unread : List UInt8) : Prop :=
  (env.attempt k).sends = false ∨
    env.memory.header = true ∧ ∀ n room, (env.attempt k).cuts.head? = some (.read n room) → unread ++ (env.attempt k).answer = []

variable {env : FetchEnv Z} {site : Site} {request : List UInt8} {again : World → World × ConnectEnd} {conn k n : Nat}

variable (env request again) in
theorem tryRequest_dead (dead : env.Dead k (w.wire conn).unread) : ∃ w', tryRequest env request (env.attempt k) true conn again w = again w' ∧
    w'.conns = w.conns.rconnClose ∧ w'.trace = w.trace ++ [.close true] ∧ ∀ x, x ≠ conn → w'.wire x = w.wire x := by
  unfold tryRequest
  rcases dead with unsent | ⟨memory, nothing⟩
  · rw [if_pos unsent, if_pos rfl]
    exact ⟨_, rfl, rfl, rfl, fun _ _ => rfl⟩
  · by_cases unsent : (env.attempt k).sends = false
    · rw [if_pos unsent, if_pos rfl]
      exact ⟨_, rfl, rfl, rfl, fun _ _ => rfl⟩
    · have served : ((w.serve conn request (env.attempt k).answer).wire conn).unread = (w.wire conn).unread ++ (env.attempt k).answer := by
        simp only [World.serve, World.setWire, Function.update_self]
      have empty := (recvHeader_nothing (env.attempt k).cuts ((w.wire conn).unread ++ (env.attempt k).answer)).mpr nothing
      have missing : (recvHeader (env.attempt k).cuts ((w.wire conn).unread ++ (env.attempt k).answer) []).found = none := by
        rw [Option.eq_none_iff_forall_ne_some]
        intro pos found
        have here := recvHeader_found found
        rw [empty] at here
        cases here
      rw [if_neg unsent, memory, if_neg Bool.noConfusion]
      simp only [served, missing, empty]
      refine ⟨_, rfl, rfl, rfl, ?_⟩
      intro x other
      exact (Function.update_of_ne other _ _).trans (Function.update_of_ne other _ _)

variable (env request again) in
theorem tryRequest_alive (k conn : Nat) {fromCache : Bool} (alive : fromCache = true → ¬ env.Dead k (w.wire conn).unread) :
    ∃ rest, (tryRequest env request (env.attempt k) fromCache conn again w).1.trace = w.trace ++ rest ∧
      (rest = [] ∨ rest = [.close false]) := by
  unfold tryRequest
  have closed : ∀ w' : World, w'.trace = w.trace → ∃ rest, (w'.perform (.close false)).trace = w.trace ++ rest ∧
      (rest = [] ∨ rest = [.close false]) := by
    intro w' same
    exact ⟨[.close false], by rw [← same]; rfl, Or.inr rfl⟩
  split
  · rename_i unsent
    cases fromCache with
    | false => exact closed w rfl
    | true => exact absurd (Or.inl unsent) (alive rfl)
  split
  · exact closed _ rfl
  rename_i memory
  dsimp only
  have served : ((w.serve conn request (env.attempt k).answer).wire conn).unread = (w.wire conn).unread ++ (env.attempt k).answer := by
    simp only [World.serve, World.setWire, Function.update_self]
  rw [served]
  split
  · exact ⟨[], (List.append_nil _).symm, Or.inl rfl⟩
  · have some_ : (fromCache && (recvHeader (env.attempt k).cuts ((w.wire conn).unread ++ (env.attempt k).answer) []).hdr.isEmpty) = false := by
      cases fromCache with
      | false => rfl
      | true =>
        rw [Bool.true_and, List.isEmpty_eq_false_iff]
        intro nothing
        apply alive rfl
        right
        exact ⟨by simpa using memory, (recvHeader_nothing _ _).mp nothing⟩
    simp only [some_, Bool.false_eq_true, if_false]
    exact closed _ rfl

variable (env request) in
theorem connect_miss (idle : w.conns.running = none) (missing : w.conns.hit site = none) :
    ∃ rest, (connect env site request (n + 1) k w).1.trace = w.trace ++ .take site :: .connect (env.attempt k).opening :: rest ∧
      (rest = [] ∨ rest = [.close false]) := by
  have taken : (w.perform (.take site)).conns = w.conns := by
    simp only [World.perform, ConnOp.apply, Conns.cacheTake, missing]
  unfold connect
  simp only [taken, idle, Option.isSome_none, Bool.false_eq_true, if_false]
  split
  · exact ⟨[], by simp only [World.perform, List.append_assoc]; rfl, Or.inl rfl⟩
  · rename_i conn running
    obtain ⟨rest, trace, shape⟩ := tryRequest_alive env request (fun w => connect env site request n (k + 1) w)
      (w := (w.perform (.take site)).perform (.connect (env.attempt k).opening)) k conn (Bool.noConfusion : false = true → _)
    refine ⟨rest, ?_, shape⟩
    rw [trace]
    simp only [World.perform, List.append_assoc]
    rfl

theorem connect_hit {i : Fin connCacheSize} (found : w.conns.hit site = some i) :
    connect env site request (n + 1) k w =
      tryRequest env request (env.attempt k) true (w.conns.cache i).conn (fun w => connect env site request n (k + 1) w)
        (w.perform (.take site)) := by
  have running : (w.perform (.take site)).conns.running = some (w.conns.cache i).conn := by
    simp only [World.perform, ConnOp.apply, Conns.cacheTake, found]
  rw [connect]
  simp only [running, Option.isSome_some, if_true]

variable (request) in
theorem connect_dead {i : Fin connCacheSize} (found : w.conns.hit site = some i)
    (dead : env.Dead k (w.wire (w.conns.cache i).conn).unread) :
    ∃ w', connect env site request (n + 1) k w = connect env site request n (k + 1) w' ∧
      w'.conns = (w.conns.cacheTake site).rconnClose ∧ w'.trace = w.trace ++ [.take site, .close true] ∧
      ∀ x, x ≠ (w.conns.cache i).conn → w'.wire x = w.wire x := by
  rw [connect_hit found]
  obtain ⟨w', again, conns, trace, others⟩ := tryRequest_dead env request (fun w => connect env site request n (k + 1) w)
    (w := w.perform (.take site)) dead
  refine ⟨w', again, conns, ?_, others⟩
  rw [trace]
  simp only [World.perform, List.append_assoc]
  rfl

variable (request) in
theorem connect_alive {i : Fin connCacheSize} (found : w.conns.hit site = some i)
    (alive : ¬ env.Dead k (w.wire (w.conns.cache i).conn).unread) :
    ∃ rest, (connect env site request (n + 1) k w).1.trace = w.trace ++ .take site :: rest ∧
      (rest = [] ∨ rest = [.close false]) := by
  rw [connect_hit found]
  obtain ⟨rest, trace, shape⟩ := tryRequest_alive env request (fun w => connect env site request n (k + 1) w)
    (w := w.perform (.take site)) k (w.conns.cache i).conn fun _ : true = true => alive
  refine ⟨rest, ?_, shape⟩
  rw [trace]
  simp only [World.perform, List.append_assoc]
  rfl

def Conns.Free (c : Conns) (site : Site) : Prop := ∀ i, ¬ (c.cache i).Matches site

def Conns.Single (c : Conns) : Prop := ∀ site i j, (c.cache i).Matches site → (c.cache j).Matches site → i = j

theorem hit_eq_none {c : Conns} : c.hit site = none ↔ c.Free site := by
  rw [Conns.hit, List.find?_eq_none]
  constructor
  · intro none_ i found
    exact none_ i (List.mem_finRange i) (decide_eq_true found)
  · intro free i _ found
    exact free i (of_decide_eq_true found)

theorem Conns.Single.take {c : Conns} (single : c.Single) (site : Site) : (c.cacheTake site).Single ∧ (c.cacheTake site).Free site := by
  unfold Conns.cacheTake
  cases found : c.hit site with
  | none => exact ⟨single, hit_eq_none.mp found⟩
  | some i =>
    unfold Conns.hit at found
    have yes := List.find?_some found
    have here := of_decide_eq_true yes
    -- entry `i` is no longer used
    have before : ∀ j site', ((c.setEnt i { c.cache i with used := false }).cache j).Matches site' → j ≠ i ∧ (c.cache j).Matches site' := by
      intro j site' matches_
      by_cases same : j = i
      · subst same
        simp only [Conns.setEnt, Function.update_self] at matches_
        exact absurd matches_.1 Bool.false_ne_true
      · simp only [Conns.setEnt, Function.update_of_ne same] at matches_
        exact ⟨same, matches_⟩
    constructor
    · intro site' j k left right
      exact single site' j k (before j site' left).2 (before k site' right).2
    · intro j matches_
      obtain ⟨other, matches_⟩ := before j site matches_
      exact other (single site j i matches_ here)

theorem Conns.Single.store {c : Conns} (single : c.Single) (free : c.Free site) (i : Fin connCacheSize) (conn now : Nat) :
    (c.store i site conn now).Single := by
  have before : ∀ j site', ((c.store i site conn now).cache j).Matches site' → j = i ∧ site' = site ∨ j ≠ i ∧ (c.cache j).Matches site' := by
    intro j site' matches_
    by_cases same : j = i
    · subst same
      simp only [Conns.store, Conns.setEnt, Function.update_self] at matches_
      obtain ⟨_, port, tls, host⟩ := matches_
      left
      cases site
      cases site'
      simp only at port tls host
      rw [port, tls, host]
      exact ⟨rfl, rfl⟩
    · simp only [Conns.store, Conns.setEnt, Function.update_of_ne same] at matches_
      exact Or.inr ⟨same, matches_⟩
  intro site' j k left right
  rcases before j site' left with ⟨rfl, rfl⟩ | ⟨_, left'⟩ <;> rcases before k _ right with ⟨rfl, same⟩ | ⟨_, right'⟩
  · rfl
  · exact absurd right' (free k)
  · subst same
    exact absurd left' (free j)
  · exact single site' j k left' right'

theorem Conns.Single.put {c : Conns} (single : c.Single) (free : c.Free site) (conn now : Nat) :
    (c.cachePut site conn now).Single := by
  unfold Conns.cachePut
  split
  · exact single
  · split
    · exact single.store free _ conn now
    · exact Conns.Single.store (c := { c with closed := _ }) single free _ conn now

def FreshAfterStale (ops : List ConnOp) : Prop :=
  ∀ before after, ops = before ++ .close true :: after → ∃ answer, .connect answer ∈ after

theorem freshAfterStale_none {ops : List ConnOp} (none_ : .close true ∉ ops) : FreshAfterStale ops := by
  rintro before after rfl
  exact absurd (List.mem_append_right before (List.mem_cons_self ..)) none_

variable (env site request) in
theorem connect_fresh (idle : w.conns.running = none) (single : w.conns.Single) :
    ∃ ops, (connect env site request 2 0 w).1.trace = w.trace ++ ops ∧ FreshAfterStale ops := by
  have quiet : ∀ rest : List ConnOp, (rest = [] ∨ rest = [.close false]) → .close true ∉ rest := by
    rintro rest (rfl | rfl) <;> simp
  cases first : w.conns.hit site with
  | none =>
    obtain ⟨rest, trace, closed⟩ := connect_miss env request (k := 0) (n := 1) idle first
    refine ⟨_, trace, freshAfterStale_none ?_⟩
    simp [quiet rest closed]
  | some i =>
    by_cases dead : env.Dead 0 (w.wire (w.conns.cache i).conn).unread
    · obtain ⟨w', again, conns, trace, _⟩ := connect_dead request (n := 1) first dead
      have idle' : w'.conns.running = none := by
        rw [conns]
        rfl
      have second : w'.conns.hit site = none := by
        rw [conns, hit_eq_none]
        exact (single.take site).2
      rw [again]
      obtain ⟨rest, trace', closed⟩ := connect_miss env request (w := w') (k := 1) (n := 0) idle' second
      refine ⟨_, by rw [trace', trace, List.append_assoc], ?_⟩
      intro before after same
      -- only the second operation closes a dead connection
      rcases before with _ | ⟨_, _ | ⟨_, before⟩⟩
      · cases same
      · cases same
        exact ⟨_, List.mem_cons_of_mem _ (List.mem_cons_self ..)⟩
      · have member : .close true ∈ ConnOp.take site :: .connect (env.attempt 1).opening :: rest := by
          have tails : ConnOp.take site :: .connect (env.attempt 1).opening :: rest = before ++ .close true :: after :=
            (List.cons.inj (List.cons.inj same).2).2
          rw [tails]
          exact List.mem_append_right before (List.mem_cons_self ..)
        simp [quiet rest closed] at member
    · obtain ⟨rest, trace, closed⟩ := connect_alive request (n := 1) first dead
      refine ⟨_, trace, freshAfterStale_none ?_⟩
      simp [quiet rest closed]

def ConnectEnd.Leaves (site : Site) (c : Conns) : ConnectEnd → Prop
  | .failed _ => c.running = none
  | .ready conn _ _ _ => c.running = some conn ∧ c.Free site

def Connected (site : Site) (result : World × ConnectEnd) : Prop :=
  result.1.Traced ∧ result.1.conns.Single ∧ result.2.Leaves site result.1.conns

def World.Idle (w : World) : Prop := w.Traced ∧ w.conns.Single ∧ w.conns.running = none

theorem World.Traced.close (traced : w.Traced) (running : w.conns.running = some conn) (single : w.conns.Single) (stale : Bool) :
    (w.perform (.close stale)).Idle := by
  refine ⟨?_, single, rfl⟩
  apply traced.perform
  intro none_
  rw [running] at none_
  cases none_

theorem World.Idle.failed (idle : w.Idle) (text : String) : Connected site (w, .failed text) := idle

theorem tryRequest_connected {a : Attempt} {fromCache : Bool} (traced : w.Traced) (running : w.conns.running = some conn)
    (single : w.conns.Single) (free : w.conns.Free site) (next : ∀ w' : World, w'.Idle → Connected site (again w')) :
    Connected site (tryRequest env request a fromCache conn again w) := by
  unfold tryRequest
  split
  · have closed := traced.close running single fromCache
    dsimp only
    split
    · exact next _ closed
    · exact closed.failed _
  split
  · have served : (w.serve conn request a.answer).Traced := traced
    exact (served.close running single false).failed _
  dsimp only
  split
  · exact ⟨traced, single, running, free⟩
  · generalize (fromCache && _) = stale
    have closed : ∀ wire, (((w.serve conn request a.answer).setWire conn wire).perform (.close stale)).Idle := by
      intro wire
      have served : ((w.serve conn request a.answer).setWire conn wire).Traced := traced
      exact served.close running single stale
    split
    · exact next _ (closed _)
    · exact (closed _).failed _

/-- What `connect` does in round `k` with the connection that it has taken from the cache or opened. -/
def onConnection (env : FetchEnv Z) (site : Site) (request : List UInt8) (n k : Nat) (reused : Bool) (w : World) : World × ConnectEnd :=
  match w.conns.running with
  | none => (w, .failed (openFailure site))
  | some conn => tryRequest env request (env.attempt k) reused conn (fun w => connect env site request n (k + 1) w) w

variable (env site request) in
theorem connect_connected (idle : w.Idle) : Connected site (connect env site request n k w) := by
  induction n generalizing k w with
  | zero => exact idle.failed _
  | succ n ih =>
    obtain ⟨traced, single, none_⟩ := idle
    have taken : (w.perform (.take site)).Traced := traced.perform none_
    obtain ⟨single', free⟩ := single.take site
    unfold connect
    dsimp only
    -- a connection is taken or opened
    have opened : ∀ w' : World, w'.Traced → w'.conns.Single → w'.conns.Free site →
        Connected site (onConnection env site request n k (w.perform (.take site)).conns.running.isSome w') := by
      intro w' traced' single' free'
      unfold onConnection
      split
      · rename_i missing
        exact World.Idle.failed ⟨traced', single', missing⟩ _
      · rename_i conn running
        exact tryRequest_connected traced' running single' free' fun w' => ih
    cases cached : (w.perform (.take site)).conns.running.isSome with
    | true =>
      rw [cached] at opened
      exact opened _ taken single' free
    | false =>
      have none' : (w.perform (.take site)).conns.running = none := Option.isNone_iff_eq_none.mp (Option.isSome_eq_false_iff.mp cached)
      have connected : ((w.perform (.take site)).perform (.connect (env.attempt k).opening)).Traced := taken.perform none'
      have same : ((w.perform (.take site)).perform (.connect (env.attempt k).opening)).conns.cache = (w.conns.cacheTake site).cache := by
        simp only [World.perform, ConnOp.apply]
        cases (env.attempt k).opening <;> rfl
      rw [cached] at opened
      apply opened _ connected
      · intro site' i j left right
        rw [same] at left right
        exact single' site' i j left right
      · intro i found
        rw [same] at found
        exact free i found

theorem fetchResponse_last (env : FetchEnv Z) (site : Site) (conn : Nat) (hdr body0 : List UInt8) (cuts : List Cut) (w : World) :
    ∃ (w' : World) (op : ConnOp), (conclude env (fetchResponse env site conn hdr body0 cuts w)).world = w'.perform op ∧
    w'.conns = w.conns ∧ w'.trace = w.trace ∧ (op = .close false ∨ op = .put site env.now) := by
  unfold fetchResponse giveUp
  dsimp only
  split
  · exact ⟨w, _, rfl, rfl, rfl, Or.inl rfl⟩
  split
  · split <;> exact ⟨w, _, rfl, rfl, rfl, Or.inl rfl⟩
  split
  · exact ⟨w, _, rfl, rfl, rfl, Or.inl rfl⟩
  split
  · exact ⟨w, _, rfl, rfl, rfl, Or.inl rfl⟩
  unfold conclude finish giveUp
  dsimp only
  split
  · exact ⟨_, _, rfl, rfl, rfl, Or.inl rfl⟩
  · exact ⟨_, _, rfl, rfl, rfl, Or.inl rfl⟩
  · exact ⟨_, _, rfl, rfl, rfl, Or.inl rfl⟩
  all_goals
    split
    · exact ⟨_, _, rfl, rfl, rfl, Or.inr rfl⟩
    · exact ⟨_, _, rfl, rfl, rfl, Or.inl rfl⟩

theorem fetchProcess_idle (idle : w.Idle) (env : FetchEnv Z) (r : FetchRequest) : (fetchProcess env r w).world.Idle := by
  unfold fetchProcess untilBody
  dsimp only
  split
  · exact idle
  split
  · exact idle
  rename_i host _ _
  have connected := connect_connected env ⟨host, r.url.portNumber, r.url.isTls⟩ (r.text host) (n := 2) (k := 0) idle
  split
  · rename_i w' text result
    rw [result] at connected
    exact connected
  · rename_i w' conn hdr body0 cuts result
    rw [result] at connected
    obtain ⟨traced, single, running, free⟩ := connected
    obtain ⟨w'', op, world, conns, trace, last⟩ := fetchResponse_last env ⟨host, r.url.portNumber, r.url.isTls⟩ conn hdr
      body0 cuts w'
    rw [world]
    have traced' : w''.Traced := by
      unfold World.Traced
      rw [trace, conns]
      exact traced
    rw [← conns] at single running free
    rcases last with rfl | rfl
    · exact traced'.close running single false
    · refine ⟨traced'.perform ?_, ?_, put_running _ _ _⟩
      · intro none_
        rw [running] at none_
        cases none_
      · simp only [World.perform, ConnOp.apply, running]
        exact single.put free conn env.now

theorem worldStart_idle : worldStart.Idle := by
  refine ⟨Run.nil, ?_, rfl⟩
  intro site i j used
  exact absurd used.1 Bool.false_ne_true

theorem fetches_idle {ls : List (FetchLabel Z)} (run : Run FetchStep worldStart ls w) : w.Idle := by
  apply run.invariant World.Idle worldStart_idle
  rintro w l _ idle rfl
  exact fetchProcess_idle idle l.env l.request

theorem fetchProcess_trace (idle : w.Idle) (env : FetchEnv Z) (r : FetchRequest) :
    ∃ ops last, (fetchProcess env r w).world.trace = w.trace ++ (ops ++ last) ∧ FreshAfterStale ops ∧ .close true ∉ last := by
  unfold fetchProcess untilBody
  dsimp only
  split
  · exact ⟨[], [], (List.append_nil _).symm, freshAfterStale_none nofun, nofun⟩
  split
  · exact ⟨[], [], (List.append_nil _).symm, freshAfterStale_none nofun, nofun⟩
  rename_i host _ memory
  obtain ⟨ops, trace, fresh⟩ := connect_fresh env ⟨host, r.url.portNumber, r.url.isTls⟩ (r.text host)
    idle.2.2 idle.2.1
  split
  · rename_i w' text result
    rw [result] at trace
    exact ⟨ops, [], by rw [List.append_nil]; exact trace, fresh, nofun⟩
  · rename_i w' conn hdr body0 cuts result
    rw [result] at trace
    have connected : w'.trace = w.trace ++ ops := trace
    obtain ⟨w'', op, world, _, trace', last⟩ := fetchResponse_last env ⟨host, r.url.portNumber, r.url.isTls⟩ conn hdr
      body0 cuts w'
    refine ⟨ops, [op], ?_, fresh, ?_⟩
    · rw [world]
      simp only [World.perform, trace', connected, List.append_assoc]
    · rcases last with rfl | rfl <;> simp

def newOps (env : FetchEnv Z) (r : FetchRequest) (w : World) : List ConnOp :=
  (fetchProcess env r w).world.trace.drop w.trace.length

theorem newOps_fresh (idle : w.Idle) (env : FetchEnv Z) (r : FetchRequest) : FreshAfterStale (newOps env r w) := by
  obtain ⟨ops, last, trace, fresh, none_⟩ := fetchProcess_trace idle env r
  have new : newOps env r w = ops ++ last := by
    rw [newOps, trace, List.drop_left]
  rw [new]
  intro before after same
  rcases List.append_eq_append_iff.mp same with ⟨more, _, late⟩ | ⟨more, early, rest⟩
  · rw [late] at none_
    exact absurd (List.mem_append_right more (List.mem_cons_self ..)) none_
  · cases more with
    | nil =>
      rw [List.nil_append] at rest
      rw [← rest] at none_
      exact absurd (List.mem_cons_self ..) none_
    | cons op more =>
      obtain ⟨rfl, rfl⟩ := List.cons.inj rest
      obtain ⟨answer, tried⟩ := fresh before more early
      exact ⟨answer, List.mem_append_left _ tried⟩

/-- Between any two operations every connection that was opened has one owner or was closed once; and no
fetch gives up on a dead connection of the cache without a fresh one. -/
theorem connections_owned {ls : List (FetchLabel Z)} (run : Run FetchStep worldStart ls w) :
    (∀ ops, ops <+: w.trace → ∃ c, Run ConnStep connsStart ops c ∧ ∀ x < c.opened, Traced (connSlot c) c.closed x) ∧
      Run ConnStep connsStart w.trace w.conns ∧ w.conns.running = none ∧
      ∀ (env : FetchEnv Z) (r : FetchRequest), FreshAfterStale (newOps env r w) := by
  have idle := fetches_idle run
  refine ⟨?_, idle.1, idle.2.2, newOps_fresh idle⟩
  rintro ops ⟨rest, whole⟩
  have traced := idle.1
  unfold World.Traced at traced
  rw [← whole] at traced
  obtain ⟨c, before, _⟩ := traced.split
  have owned := before.invariant Owned connsStart_owned fun _ _ _ owned step => owned.step step
  exact ⟨c, before, fun x small => owned.traced small⟩

def noInflate : Inflate Unit :=
  { start := (), call := fun _ _ => ⟨.other, 0, [], ()⟩, calls := fun _ _ => 0
    progress := by
      rintro _ _ _ (more | ⟨more, _⟩) <;> cases more }

def pageFetch (host answer : String) (cuts : List Cut) : FetchLabel Unit :=
  { env :=
      { attempt := fun _ => ⟨.opened, true, ascii answer, cuts⟩, memory := ⟨true, true, true, true, true⟩, abortAt := fun _ => false
        zlib := noInflate, join := some, now := 0 }
    request := ⟨⟨some (ascii "http"), some (ascii host), none, none, none⟩, none⟩ }

def shortPage : FetchLabel Unit := pageFetch "a" "HTTP/1.1 200 OK\r\nContent-Length: 5\r\n\r\nhello" [.read 40 true, .read 99 true]

def FetchLabel.after (l : FetchLabel Z) (w : World) : World := (fetchProcess l.env l.request w).world

/-- The second fetch of a page finds its cached connection dead. -/
theorem connections_owned_stale :
    newOps (pageFetch "a" "" []).env (pageFetch "a" "" []).request (shortPage.after worldStart) =
        [.take ⟨ascii "a", 80, false⟩, .close true, .take ⟨ascii "a", 80, false⟩, .connect .opened, .close false] ∧
      FreshAfterStale (newOps (pageFetch "a" "" []).env (pageFetch "a" "" []).request (shortPage.after worldStart)) := by
  have run : Run FetchStep worldStart [shortPage] (shortPage.after worldStart) := Run.nil.snoc rfl
  constructor
  · decide +kernel
  · exact (connections_owned run).2.2.2 _ _

end RexOs.NetSurf
