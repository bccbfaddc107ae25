import RexOs.NetSurf.FetchDecode
import RexOs.NetSurf.FetchOwned

/-! What is still on a connection of the cache.

When no server sends anything behind a complete response, nothing is: the loop over the body stops
at the end of the response, and what it has received by then is all there was.
-/

set_option autoImplicit false

namespace RexOs.NetSurf

open RexOs.Library

variable {Z : Type}

def Conns.Rests (c : Conns) (conn : Nat) : Prop := c.opened ≤ conn ∨ ∃ i, connSlot c (some i) = some conn

variable {c : Conns} {site : Site} {x : Nat}

theorem connSlot_used {i : Fin connCacheSize} : connSlot c (some i) = some x ↔ (c.cache i).used = true ∧ (c.cache i).conn = x := by
  unfold connSlot
  cases used : (c.cache i).used <;> simp [used]

theorem rests_take (rests : (c.cacheTake site).Rests x) : c.Rests x := by
  unfold Conns.cacheTake at rests
  split at rests
  · rename_i i found
    rcases rests with fresh | ⟨j, held⟩
    · exact Or.inl fresh
    · by_cases same : j = i
      · subst same
        simp [connSlot, Conns.setEnt] at held
      · exact Or.inr ⟨j, (connSlot_setEnt same).symm.trans held⟩
  · exact rests

theorem rests_open {answer : Opening} (rests : (c.rconnOpen answer).Rests x) : c.Rests x := by
  cases answer with
  | refused => exact rests
  | handshakeFailed =>
    rcases rests with fresh | ⟨i, held⟩
    · exact Or.inl (Nat.le_of_succ_le fresh)
    · exact Or.inr ⟨i, held⟩
  | opened =>
    rcases rests with fresh | ⟨i, held⟩
    · exact Or.inl (Nat.le_of_succ_le fresh)
    · exact Or.inr ⟨i, held⟩

theorem rests_store {i : Fin connCacheSize} {conn now : Nat} (rests : (c.store i site conn now).Rests x) : c.Rests x ∨ x = conn := by
  rcases rests with fresh | ⟨j, held⟩
  · exact Or.inl (Or.inl fresh)
  · by_cases same : j = i
    · subst same
      right
      simp only [connSlot, Conns.store, Conns.setEnt, Function.update_self, if_true, Option.some.injEq] at held
      exact held.symm
    · exact Or.inl (Or.inr ⟨j, (connSlot_setEnt same).symm.trans held⟩)

theorem rests_put {conn now : Nat} (rests : (c.cachePut site conn now).Rests x) : c.Rests x ∨ x = conn := by
  unfold Conns.cachePut at rests
  split at rests
  · exact Or.inl rests
  split at rests
  · exact rests_store rests
  · exact rests_store rests

theorem take_rests (idle : c.running = none) (running : (c.cacheTake site).running = some x) : c.Rests x := by
  unfold Conns.cacheTake at running
  split at running
  · rename_i i found
    unfold Conns.hit at found
    have yes := List.find?_some found
    have used := (of_decide_eq_true yes).1
    exact Or.inr ⟨i, connSlot_used.mpr ⟨used, Option.some.inj running⟩⟩
  · rw [idle] at running
    cases running

theorem open_rests {answer : Opening} (idle : c.running = none) (running : (c.rconnOpen answer).running = some x) : c.Rests x := by
  cases answer with
  | refused =>
    have nothing : c.running = some x := running
    rw [idle] at nothing
    cases nothing
  | handshakeFailed =>
    have nothing : c.running = some x := running
    rw [idle] at nothing
    cases nothing
  | opened => exact Or.inl (Nat.le_of_eq (Option.some.inj running))

theorem Owned.busy (owned : Owned c) (running : c.running = some x) : ¬ c.Rests x := by
  rintro (fresh | ⟨i, held⟩)
  · exact absurd (owned.below none x running) (Nat.not_lt.mpr fresh)
  · have same := owned.alone (some i) none x held running
    cases same

variable {w : World} {env : FetchEnv Z} {conn : Nat}

def Wire.Clean (wire : Wire) : Prop := wire.unread = [] ∧ wire.lost = []

def World.Settled (w : World) : Prop := ∀ conn, w.conns.Rests conn → (w.wire conn).Clean

theorem World.Settled.perform (settled : w.Settled) {op : ConnOp} (rested : ∀ x, (op.apply w.conns).Rests x → w.conns.Rests x) :
    (w.perform op).Settled := fun x rests => settled x (rested x rests)

theorem World.Settled.setWire (settled : w.Settled) (busy : ¬ w.conns.Rests conn) (wire : Wire) : (w.setWire conn wire).Settled := by
  intro x rests
  have other : x ≠ conn := by
    rintro rfl
    exact busy rests
  have same : (w.setWire conn wire).wire x = w.wire x := Function.update_of_ne other _ _
  rw [same]
  exact settled x rests

/-- The fetch has received the headers, and what came with them, from the first byte of an answer on. -/
def ConnectEnd.Reads (env : FetchEnv Z) (w : World) : ConnectEnd → Prop
  | .failed _ => True
  | .ready conn hdr body0 _ => (w.wire conn).lost = [] ∧ ∃ k got pos, (env.attempt k).answer = got ++ (w.wire conn).unread ∧
      strstr [13, 10, 13, 10] got = some pos ∧ hdr = got.take pos ∧ body0 = got.drop (pos + 4)

def Fetching (env : FetchEnv Z) (result : World × ConnectEnd) : Prop := result.1.Settled ∧ result.2.Reads env result.1

theorem tryRequest_fetching {request : List UInt8} {k : Nat} {fromCache : Bool} {again : World → World × ConnectEnd}
    (traced : w.Traced) (running : w.conns.running = some conn) (single : w.conns.Single) (settled : w.Settled) (clean : (w.wire conn).Clean)
    (next : ∀ w' : World, w'.Idle → w'.Settled → Fetching env (again w')) :
    Fetching env (tryRequest env request (env.attempt k) fromCache conn again w) := by
  have busy : ¬ w.conns.Rests conn := traced.owned.busy running
  have closes : ∀ w' : World, w'.Settled → ∀ stale, (w'.perform (.close stale)).Settled := fun w' settled' stale =>
    settled'.perform fun x rests => rests
  unfold tryRequest
  split
  · have closed := closes w settled fromCache
    dsimp only
    split
    · exact next _ (traced.close running single fromCache) closed
    · exact ⟨closed, trivial⟩
  have served : (w.serve conn request (env.attempt k).answer).Settled := settled.setWire busy _
  split
  · exact ⟨closes _ served false, trivial⟩
  dsimp only
  -- the connection was clean, so the answer is all there is
  have answer : ((w.serve conn request (env.attempt k).answer).wire conn) =
      { w.wire conn with requests := (w.wire conn).requests ++ [request], unread := (env.attempt k).answer } := by
    simp only [World.serve, World.setWire, Function.update_self, clean.1, List.nil_append]
  rw [answer]
  dsimp only
  obtain ⟨more, grown, rest⟩ := recvHeader_splits (env.attempt k).cuts (env.attempt k).answer []
  rw [List.nil_append] at grown
  rw [← grown] at rest
  split
  · rename_i pos found
    refine ⟨served.setWire busy _, ?_⟩
    have here : ∀ wire, ((w.serve conn request (env.attempt k).answer).setWire conn wire).wire conn = wire := fun wire =>
      Function.update_self ..
    unfold ConnectEnd.Reads
    dsimp only
    rw [here]
    exact ⟨clean.2, k, _, pos, rest, recvHeader_found found, rfl, rfl⟩
  · have closed := fun wire => closes _ (served.setWire busy wire)
    have idle : ∀ wire stale, (((w.serve conn request (env.attempt k).answer).setWire conn wire).perform (.close stale)).Idle := by
      intro wire stale
      have same : ((w.serve conn request (env.attempt k).answer).setWire conn wire).Traced := traced
      exact same.close running single stale
    split
    · exact next _ (idle _ _) (closed _ _)
    · exact ⟨closed _ _, trivial⟩

theorem connect_fetching (env : FetchEnv Z) (site : Site) (request : List UInt8) {k n : Nat} (idle : w.Idle) (settled : w.Settled) :
    Fetching env (connect env site request n k w) := by
  induction n generalizing k w with
  | zero => exact ⟨settled, trivial⟩
  | succ n ih =>
    obtain ⟨traced, single, none_⟩ := idle
    have taken : (w.perform (.take site)).Traced := traced.perform none_
    have single' : (w.perform (.take site)).conns.Single := (single.take site).1
    have settled' : (w.perform (.take site)).Settled := settled.perform fun x => rests_take
    unfold connect
    dsimp only
    -- a connection is taken or opened
    have got : ∀ w' : World, w'.Traced → w'.conns.Single → w'.Settled → (∀ conn, w'.conns.running = some conn → (w'.wire conn).Clean) →
        Fetching env (onConnection env site request n k (w.perform (.take site)).conns.running.isSome w') := by
      intro w' traced' single' settled' clean
      unfold onConnection
      split
      · exact ⟨settled', trivial⟩
      · rename_i conn running
        exact tryRequest_fetching traced' running single' settled' (clean conn running) fun w' => ih
    cases cached : (w.perform (.take site)).conns.running.isSome with
    | true =>
      rw [cached] at got
      apply got _ taken single' settled'
      intro conn running
      exact settled conn (take_rests none_ running)
    | false =>
      rw [cached] at got
      have idle' : (w.perform (.take site)).conns.running = none := Option.isNone_iff_eq_none.mp (Option.isSome_eq_false_iff.mp cached)
      have single'' : ((w.perform (.take site)).perform (.connect (env.attempt k).opening)).conns.Single := by
        simp only [World.perform, ConnOp.apply] at single' ⊢
        cases (env.attempt k).opening <;> exact single'
      have opened : ((w.perform (.take site)).perform (.connect (env.attempt k).opening)).Traced := taken.perform idle'
      apply got _ opened single''
      · exact settled'.perform fun x => rests_open
      · intro conn running
        exact settled' conn (open_rests idle' running)

/-- These bytes are a response from its first byte to its last, and it leaves its connection open. The
closing CRLF of a chunked body belongs to it. -/
def WholeResponse (memory : Memory) (bytes : List UInt8) : Prop :=
  ∃ pos, strstr [13, 10, 13, 10] bytes = some pos ∧
    let fr := scanHeaders memory (bytes.take pos)
    let body := decode fr.decoder (bytes.drop (pos + 4))
    fr.srvClose = false ∧ body.state.isOver = true ∧ body.rest = if fr.chunked then [13, 10] else []

instance (memory : Memory) (bytes : List UInt8) : Decidable (WholeResponse memory bytes) :=
  inferInstanceAs (Decidable (∃ pos ∈ strstr [13, 10, 13, 10] bytes,
    (scanHeaders memory (bytes.take pos)).srvClose = false ∧
      (decode (scanHeaders memory (bytes.take pos)).decoder (bytes.drop (pos + 4))).state.isOver = true ∧
      (decode (scanHeaders memory (bytes.take pos)).decoder (bytes.drop (pos + 4))).rest =
        if (scanHeaders memory (bytes.take pos)).chunked then [13, 10] else []))

def NothingBehind (memory : Memory) (answer : List UInt8) : Prop :=
  ∀ response behind, answer = response ++ behind → WholeResponse memory response → behind = []

theorem nothingBehind_of_lengths {memory : Memory} {answer : List UInt8}
    (short : ∀ n < answer.length, ¬ WholeResponse memory (answer.take n)) : NothingBehind memory answer := by
  rintro response behind rfl whole
  by_contra some_
  apply short response.length
  · have positive := List.length_pos_iff.mpr some_
    rw [List.length_append]
    omega
  · rw [List.take_left]
    exact whole

def FetchLabel.Kept (l : FetchLabel Z) : Prop := ∀ k, NothingBehind l.env.memory (l.env.attempt k).answer

def KeptFetch (w : World) (l : FetchLabel Z) (w' : World) : Prop := l.Kept ∧ FetchStep w l w'

theorem decode_taken {d s : Decoder} {xs out left : List UInt8} (decoded : decode d xs = ⟨s, out, left⟩) (complete : s.isOver = true) :
    ∃ taken, xs = taken ++ left ∧ ∀ ys, decode d (taken ++ ys) = ⟨s, out, ys⟩ := by
  have parts : ∃ taken, xs = taken ++ (decode d xs).rest ∧ decode d taken = ⟨(decode d xs).state, (decode d xs).out, []⟩ :=
    feedUntil_taken d xs
  rw [decoded] at parts
  obtain ⟨taken, whole, same⟩ := parts
  refine ⟨taken, whole, ?_⟩
  intro ys
  unfold decode at same ⊢
  rw [feedUntil_append, same]
  dsimp only
  rw [feedUntil_over complete, List.nil_append, List.append_nil]

theorem reusable_clean {memory : Memory} {answer got unread : List UInt8} {pos : Nat} {e : BodyEnd Z} (kept : NothingBehind memory answer)
    (whole : answer = got ++ unread) (found : strstr [13, 10, 13, 10] got = some pos)
    (sound : e.Sound (scanHeaders memory (got.take pos)).decoder (got.drop (pos + 4) ++ unread)) (stopped : e.ending = .stopped)
    (put : reusable (scanHeaders memory (got.take pos)) e = true) :
    leftOver (scanHeaders memory (got.take pos)) e = [] ∧ e.unread = [] := by
  generalize framing : scanHeaders memory (got.take pos) = fr at sound put
  simp only [reusable, Bool.and_eq_true, Bool.not_eq_true', Bool.or_eq_false_iff] at put
  obtain ⟨⟨⟨⟨open_, _⟩, kept_⟩, _⟩, framed⟩ := put
  obtain ⟨⟨s, out, decoded, complete, _⟩, _, crlf, stream⟩ := sound.stopped stopped kept_
  obtain ⟨taken, received, same⟩ := decode_taken decoded complete
  -- what was received behind the response has its closing CRLF in front
  have left_ : e.left = (if fr.chunked then [13, 10] else []) ++ leftOver fr e := by
    unfold leftOver
    cases chunked : fr.chunked with
    | false => rfl
    | true =>
      rw [chunked] at framed
      have clean : e.body.trailerClean = true := by simpa using framed
      rw [if_pos rfl, if_pos rfl, ← crlf clean, List.take_append_drop]
  have fits := strstr_fits found
  have length : (got.take (pos + 4)).length = pos + 4 := take_length fits
  have response : WholeResponse memory (got.take (pos + 4) ++ (taken ++ if fr.chunked then [13, 10] else [])) := by
    refine ⟨pos, strstr_kept found _, ?_⟩
    have headers : (got.take (pos + 4) ++ (taken ++ if fr.chunked then [13, 10] else [])).take pos = got.take pos := by
      rw [List.take_append_of_le_length (by omega), List.take_take, Nat.min_eq_left (Nat.le_add_right ..)]
    have body : (got.take (pos + 4) ++ (taken ++ if fr.chunked then [13, 10] else [])).drop (pos + 4) =
        taken ++ if fr.chunked then [13, 10] else [] := List.drop_left' length
    rw [headers, body, framing]
    dsimp only
    rw [same]
    exact ⟨open_, complete, rfl⟩
  have split_ : answer = (got.take (pos + 4) ++ (taken ++ if fr.chunked then [13, 10] else [])) ++ (leftOver fr e ++ e.unread) := by
    calc answer = got.take (pos + 4) ++ (got.drop (pos + 4) ++ unread) := by
          rw [whole, ← List.append_assoc, List.take_append_drop]
      _ = got.take (pos + 4) ++ (taken ++ e.left ++ e.unread) := by rw [stream, received]
      _ = _ := by
        rw [left_]
        simp only [List.append_assoc]
  have nothing := kept _ _ split_ response
  exact List.append_eq_nil_iff.mp nothing

theorem World.Settled.put (settled : w.Settled) (running : w.conns.running = some conn) (clean : (w.wire conn).Clean) (now : Nat) :
    (w.perform (.put site now)).Settled := by
  intro x rests
  simp only [World.perform, ConnOp.apply, running] at rests
  rcases rests_put rests with before | rfl
  · exact settled x before
  · exact clean

theorem fetchResponse_settled {hdr body0 : List UInt8} {cuts : List Cut} (traced : w.Traced) (running : w.conns.running = some conn)
    (settled : w.Settled) (reads : (ConnectEnd.ready conn hdr body0 cuts).Reads env w)
    (kept : ∀ k, NothingBehind env.memory (env.attempt k).answer) :
    (conclude env (fetchResponse env site conn hdr body0 cuts w)).world.Settled := by
  have busy : ¬ w.conns.Rests conn := traced.owned.busy running
  have closes : ∀ w' : World, w'.Settled → (w'.perform (.close false)).Settled := fun w' settled' => settled'.perform fun x rests => rests
  unfold fetchResponse giveUp
  dsimp only
  split
  · exact closes w settled
  split
  · split <;> exact closes w settled
  split
  · exact closes w settled
  split
  · exact closes w settled
  obtain ⟨lost, k, got, pos, answer, found, rfl, rfl⟩ := reads
  generalize forwardHeaders env.abortAt (scanHeaders env.memory (got.take pos)) (got.take pos) ⟨[], false, some (statusCode (got.take pos))⟩ = f
  have sound : BodyEnd.Sound (scanHeaders env.memory (got.take pos)).decoder (got.drop (pos + 4) ++ (w.wire conn).unread)
      (bodyPhase env.abortAt env.zlib cuts (w.wire conn).unread (bodyStart env.zlib (scanHeaders env.memory (got.take pos)) f)
        (got.drop (pos + 4))) := bodyPhase_sound rfl rfl rfl
  unfold conclude finish giveUp
  dsimp only
  unfold BodyPhase.run
  dsimp only
  generalize bodyPhase env.abortAt env.zlib cuts (w.wire conn).unread _ (got.drop (pos + 4)) = e at sound
  have settled' := fun wire => settled.setWire busy wire
  split
  · exact closes _ (settled' _)
  · exact closes _ (settled' _)
  · exact closes _ (settled' _)
  · rename_i stopped
    split
    · rename_i put
      apply (settled' _).put running
      have here : ∀ wire, (w.setWire conn wire).wire conn = wire := fun wire => Function.update_self ..
      rw [here]
      obtain ⟨nothing, empty⟩ := reusable_clean (kept k) answer found sound stopped put
      constructor
      · exact empty
      · dsimp only
        rw [lost, nothing]
        rfl
    · exact closes _ (settled' _)
  · rename_i dry
    have closed : reusable (scanHeaders env.memory (got.take pos)) e = false := by
      simp [reusable, dry, Ending.isDry]
    rw [closed, if_neg Bool.false_ne_true]
    exact closes _ (settled' _)

theorem fetchProcess_settled (idle : w.Idle) (settled : w.Settled) (env : FetchEnv Z) (r : FetchRequest)
    (kept : ∀ k, NothingBehind env.memory (env.attempt k).answer) : (fetchProcess env r w).world.Settled := by
  unfold fetchProcess untilBody
  dsimp only
  split
  · exact settled
  split
  · exact settled
  rename_i host _ _
  have connected := connect_connected env ⟨host, r.url.portNumber, r.url.isTls⟩ (r.text host) (n := 2) (k := 0) idle
  have fetching := connect_fetching env ⟨host, r.url.portNumber, r.url.isTls⟩ (r.text host) (n := 2) (k := 0) idle settled
  split
  · rename_i w' text result
    rw [result] at fetching
    exact fetching.1
  · rename_i w' conn hdr body0 cuts result
    rw [result] at connected fetching
    exact fetchResponse_settled connected.1 connected.2.2.1 fetching.1 fetching.2 kept

/-- Nothing is left of an earlier response on a connection of the cache: no byte that was received behind it, and
none that the next fetch would receive first. -/
def World.Clean (w : World) : Prop := ∀ i conn, connSlot w.conns (some i) = some conn → (w.wire conn).Clean

theorem worldStart_settled : worldStart.Settled := fun _ _ => ⟨rfl, rfl⟩

theorem cached_clean {ls : List (FetchLabel Z)} (run : Run KeptFetch worldStart ls w) : w.Clean := by
  have both := run.invariant (fun w => w.Idle ∧ w.Settled) ⟨worldStart_idle, worldStart_settled⟩ (by
    rintro w l _ ⟨idle, settled⟩ ⟨kept, rfl⟩
    exact ⟨fetchProcess_idle idle l.env l.request, fetchProcess_settled idle settled l.env l.request kept⟩)
  intro i conn held
  exact both.2 conn (Or.inr ⟨i, held⟩)

theorem cached_clean_short : (shortPage.after worldStart).Clean := by
  have alone : NothingBehind shortPage.env.memory (shortPage.env.attempt 0).answer := nothingBehind_of_lengths (by decide +kernel)
  have kept : shortPage.Kept := fun _ => alone
  have run : Run KeptFetch worldStart [shortPage] (shortPage.after worldStart) := Run.nil.snoc ⟨kept, rfl⟩
  exact cached_clean run

def longPage : FetchLabel Unit :=
  pageFetch "a" "HTTP/1.1 200 OK\r\nContent-Length: 5\r\n\r\nhelloHTTP/1.1 404 No" [.read 49 true]

/-- What comes behind the length that was announced is thrown away when it is received with the body, and
left for the next fetch when it is not. -/
theorem left_over_cached : Run FetchStep worldStart [longPage] (longPage.after worldStart) ∧
    ((longPage.after worldStart).wire 0).lost = ascii "HTTP/1." ∧ ((longPage.after worldStart).wire 0).unread = ascii "1 404 No" ∧
    ¬ (longPage.after worldStart).Clean := by
  have cached : connSlot (longPage.after worldStart).conns (some ⟨0, by decide⟩) = some 0 := by decide +kernel
  have lost : ((longPage.after worldStart).wire 0).lost = ascii "HTTP/1." := by decide +kernel
  refine ⟨Run.nil.snoc rfl, lost, by decide +kernel, ?_⟩
  intro clean
  have nothing := (clean _ 0 cached).2
  rw [lost] at nothing
  cases nothing

end RexOs.NetSurf
