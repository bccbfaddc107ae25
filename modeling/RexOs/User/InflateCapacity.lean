import RexOs.Library.Lockstep
import RexOs.User.InflateSafe

/-! Inflating into a smaller buffer.

Two runs of the decoder on one source, with capacities `m` and at least `m`, do the same until the
first is full. From then on the second only adds to what it has written.
-/

set_option autoImplicit false

namespace RexOs.User

open RexOs.Library

variable {m : Nat} {s s₁ s₂ t₁ t₂ : Inf} {r r' : Int × Inf}

def Inf.cap (s : Inf) (m : Nat) : Inf := { s with outlen := m }

/-- From `s` on both runs have read the same, and nothing was written. -/
structure Capped (m : Nat) (s s₁ t₁ : Inf) : Prop where
  state : t₁ = s₁.cap m
  out : s₁.out = s.out
  outlen : s₁.outlen = s.outlen

theorem Capped.trans (first : Capped m s s₁ t₁) (second : Capped m s₁ s₂ t₂) : Capped m s s₂ t₂ :=
  ⟨second.state, second.out.trans first.out, second.outlen.trans first.outlen⟩

def Reads (m : Nat) (s : Inf) {α : Type} (r r' : α × Inf) : Prop := r'.1 = r.1 ∧ Capped m s r.2 r'.2

theorem Reads.after {α : Type} {r r' : α × Inf} (first : Capped m s s₁ t₁) (second : Reads m s₁ r r') : Reads m s r r' :=
  ⟨second.1, first.trans second.2⟩

theorem Reads.ok {α : Type} (v : α) (out : s₁.out = s.out) (outlen : s₁.outlen = s.outlen) :
    Follows (Reads m s) (.ok (v, s₁) : Except Fault (α × Inf)) (.ok (v, s₁.cap m)) := Follows.ok ⟨rfl, rfl, out, outlen⟩

theorem Reads.bind {α β γ : Type} {Q : β → γ → Prop} {x y : Except Fault (α × Inf)} {f : α × Inf → Except Fault β}
    {g : α × Inf → Except Fault γ} (first : Follows (Reads m s) x y)
    (rest : ∀ v s₁, s₁.out = s.out → s₁.outlen = s.outlen → Follows Q (f (v, s₁)) (g (v, s₁.cap m))) :
    Follows Q (x >>= f) (y >>= g) := by
  refine Follows.bind first ?_
  rintro ⟨v, s₁⟩ ⟨v', t₁⟩ ⟨value, state, out, outlen⟩
  simp only at value state
  rw [value, state]
  exact rest v s₁ out outlen

theorem nextByte_capped (m : Nat) (s : Inf) : Follows (Reads m s) (nextByte s) (nextByte (s.cap m)) := by
  rw [nextByte, nextByte]
  simp only [Inf.cap]
  cases s.src[s.incnt]? with
  | none => exact Follows.error
  | some b => exact Reads.ok b rfl rfl

theorem skip_capped (m n : Nat) (s : Inf) : Follows (Capped m s) (skip s n) (skip (s.cap m) n) :=
  Follows.ite Iff.rfl (fun _ => Follows.ok ⟨rfl, rfl, rfl⟩) fun _ => Follows.error

theorem infBitsLoop_capped (m need : Nat) : ∀ (fuel : Nat) (s : Inf) (val : Nat),
    Follows (Reads m s) (infBitsLoop need fuel s val) (infBitsLoop need fuel (s.cap m) val) := by
  intro fuel
  induction fuel with
  | zero =>
    intro s val
    exact Follows.error
  | succ fuel ih =>
    intro s val
    rw [infBitsLoop, infBitsLoop]
    refine Follows.ite Iff.rfl (fun _ => Follows.ite Iff.rfl (fun _ => ?_) fun _ => ?_) fun _ => ?_
    · exact Reads.ok 0 rfl rfl
    · refine Reads.bind (nextByte_capped m s) fun byte s₁ out outlen => ?_
      have step : Capped m s { s₁ with bitcnt := s₁.bitcnt + 8 } { s₁.cap m with bitcnt := s₁.bitcnt + 8 } :=
        ⟨rfl, out, outlen⟩
      exact (ih { s₁ with bitcnt := s₁.bitcnt + 8 } _).mono fun _ _ reads => Reads.after step reads
    · exact Reads.ok _ rfl rfl

theorem infBits_capped (m need : Nat) (s : Inf) : Follows (Reads m s) (infBits s need) (infBits (s.cap m) need) :=
  infBitsLoop_capped m need (need + 1) s s.bitbuf

theorem decodeLoop_capped (m : Nat) (h : Huffman) : ∀ (rounds len code first index : Nat) (s : Inf),
    Follows (Reads m s) (decodeLoop h rounds len code first index s) (decodeLoop h rounds len code first index (s.cap m)) := by
  intro rounds
  induction rounds with
  | zero =>
    intro len code first index s
    exact Reads.ok _ rfl rfl
  | succ rounds ih =>
    intro len code first index s
    rw [decodeLoop, decodeLoop]
    refine Reads.bind (infBits_capped m 1 s) fun bit s₁ out outlen => ?_
    refine Follows.ite Iff.rfl (fun _ => Reads.ok _ out outlen) fun _ => ?_
    refine Follows.same fun count => ?_
    refine Follows.ite Iff.rfl (fun _ => ?_) fun _ => ?_
    · refine Follows.same fun symbol => ?_
      exact Reads.ok _ out outlen
    · exact (ih _ _ _ _ s₁).mono fun _ _ reads => Reads.after ⟨rfl, out, outlen⟩ reads

theorem infDecode_capped (m : Nat) (s : Inf) (h : Huffman) :
    Follows (Reads m s) (infDecode s h) (infDecode (s.cap m) h) := decodeLoop_capped m h maxBits 1 0 0 0 s

theorem orderLoop_capped (m ncode : Nat) : ∀ (rounds index : Nat) (lengths : List Nat) (s : Inf),
    Follows (Reads m s) (orderLoop ncode rounds index lengths s) (orderLoop ncode rounds index lengths (s.cap m)) := by
  intro rounds
  induction rounds with
  | zero =>
    intro index lengths s
    exact Reads.ok _ rfl rfl
  | succ rounds ih =>
    intro index lengths s
    rw [orderLoop, orderLoop]
    refine Follows.ite Iff.rfl (fun _ => ?_) fun _ => ?_
    · refine Reads.bind (infBits_capped m 3 s) fun v s₁ out outlen => ?_
      refine Follows.same fun place => ?_
      refine Follows.same fun lengths => ?_
      exact (ih _ _ s₁).mono fun _ _ reads => Reads.after ⟨rfl, out, outlen⟩ reads
    · refine Follows.same fun place => ?_
      refine Follows.same fun lengths => ?_
      exact ih _ _ s

def ReadsLengths (m : Nat) (s : Inf) (r r' : Int × List Nat × Inf) : Prop := r'.1 = r.1 ∧ Reads m s r.2 r'.2

theorem lengthsLoop_capped (m : Nat) (h : Huffman) (total : Nat) : ∀ (fuel index : Nat) (lengths : List Nat) (s : Inf),
    Follows (ReadsLengths m s) (lengthsLoop h total fuel index lengths s)
      (lengthsLoop h total fuel index lengths (s.cap m)) := by
  intro fuel
  induction fuel with
  | zero =>
    intro index lengths s
    exact Follows.error
  | succ fuel ih =>
    intro index lengths s
    rw [lengthsLoop, lengthsLoop]
    refine Follows.ite Iff.rfl (fun _ => ?_) fun _ => Follows.ok ⟨rfl, rfl, rfl, rfl, rfl⟩
    refine Reads.bind (infDecode_capped m s h) fun symbol s₁ out outlen => ?_
    have stop : ∀ (err : Int), Follows (ReadsLengths m s) (.ok (err, lengths, s₁) : Except Fault _)
        (.ok (err, lengths, s₁.cap m)) := fun err => Follows.ok ⟨rfl, rfl, rfl, out, outlen⟩
    refine Follows.ite Iff.rfl (fun _ => stop symbol) fun _ => ?_
    refine Follows.ite Iff.rfl (fun _ => ?_) fun _ => ?_
    · refine Follows.same fun lengths => ?_
      exact (ih _ _ s₁).mono fun _ _ reads => ⟨reads.1, Reads.after ⟨rfl, out, outlen⟩ reads.2⟩
    refine Follows.ite Iff.rfl (fun _ => stop (-5)) fun _ => ?_
    refine Follows.same fun len => ?_
    refine Reads.bind (infBits_capped m _ s₁) fun extra s₂ out' outlen' => ?_
    have later : Capped m s s₂ (s₂.cap m) := ⟨rfl, out'.trans out, outlen'.trans outlen⟩
    refine Follows.ite Iff.rfl (fun _ => Follows.ok ⟨rfl, rfl, later⟩) fun _ => ?_
    refine Follows.ite Iff.rfl (fun _ => Follows.ok ⟨rfl, rfl, later⟩) fun _ => ?_
    refine Follows.same fun lengths => ?_
    exact (ih _ _ s₂).mono fun _ _ reads => ⟨reads.1, Reads.after later reads.2⟩

/-- The output of the run with capacity `m` is that of the other one, cut to `m` bytes. -/
structure Cut (m : Nat) (s : Inf) (r r' : Int × Inf) : Prop where
  grows : s.out <+: r.2.out
  outlen : r.2.outlen = s.outlen
  room : r.2.out.length ≤ r.2.outlen
  same : r.2.out.length ≤ m → r' = (r.1, r.2.cap m)
  full : m < r.2.out.length → r'.1 = 1 ∧ r'.2.out = r.2.out.take m

structure Within (m : Nat) (s : Inf) : Prop where
  out : s.out.length ≤ m
  outlen : m ≤ s.outlen

def Cuts (f : Inf → Except Fault (Int × Inf)) : Prop := ∀ m s, Within m s → Follows (Cut m s) (f s) (f (s.cap m))

theorem Within.moved (within : Within m s) (out : s₁.out = s.out) (outlen : s₁.outlen = s.outlen) : Within m s₁ := by
  refine ⟨?_, ?_⟩
  · rw [out]
    exact within.out
  · rw [outlen]
    exact within.outlen

theorem Cut.after (cut : Cut m s₁ r r') (grows : s.out <+: s₁.out) (outlen : s₁.outlen = s.outlen) : Cut m s r r' :=
  ⟨grows.trans cut.grows, cut.outlen.trans outlen, cut.room, cut.same, cut.full⟩

theorem Cut.moved (cut : Cut m s₁ r r') (out : s₁.out = s.out) (outlen : s₁.outlen = s.outlen) : Cut m s r r' :=
  cut.after (out ▸ List.prefix_rfl) outlen

theorem Cut.ends (within : Within m s) (err : Int) (out : s₁.out = s.out) (outlen : s₁.outlen = s.outlen) :
    Follows (Cut m s) (.ok (err, s₁) : Except Fault (Int × Inf)) (.ok (err, s₁.cap m)) := by
  have here := within.moved out outlen
  refine Follows.ok ⟨out ▸ List.prefix_rfl, outlen, Nat.le_trans here.out here.outlen, fun _ => rfl, fun more => ?_⟩
  exact absurd here.out (Nat.not_le.mpr more)

theorem Reads.cut {α : Type} {x y : Except Fault (α × Inf)} {f : α × Inf → Except Fault (Int × Inf)} (within : Within m s)
    (first : Follows (Reads m s) x y)
    (rest : ∀ v s₁, Within m s₁ → s₁.out = s.out → Follows (Cut m s₁) (f (v, s₁)) (f (v, s₁.cap m))) :
    Follows (Cut m s) (x >>= f) (y >>= f) :=
  Reads.bind first fun v s₁ out outlen => (rest v s₁ (within.moved out outlen) out).mono fun _ _ cut => cut.moved out outlen

theorem Cuts.emit {f : Inf → Except Fault (Int × Inf)} (rest : Cuts f) (b : UInt8) (room : s.out.length < m)
    (le : m ≤ s.outlen) :
    Follows (fun r r' => Cut m s r r' ∧ s.out.length < r.2.out.length) (User.emit s b >>= f)
      (User.emit (s.cap m) b >>= f) := by
  have first : User.emit s b = .ok { s with out := s.out ++ [b] } := if_pos (Nat.lt_of_lt_of_le room le)
  have second : User.emit (s.cap m) b = .ok (Inf.cap { s with out := s.out ++ [b] } m) := if_pos room
  rw [first, second]
  have within : Within m { s with out := s.out ++ [b] } := ⟨by simp only [List.length_append, List.length_singleton]; omega, le⟩
  refine (rest m _ within).mono fun r r' cut => ⟨cut.after (List.prefix_append _ _) rfl, ?_⟩
  have longer := cut.grows.length_le
  simp only [List.length_append, List.length_singleton] at longer
  exact longer

theorem Cut.past {x : Except Fault (Int × Inf)} (grows : s.out <+: s₁.out) (full : s₁.out.length = m)
    (outlen : s₁.outlen = s.outlen)
    (more : ∀ r, x = .ok r → Cut s₁.outlen s₁ r r ∧ m < r.2.out.length) : Follows (Cut m s) x (.ok (1, s₁.cap m)) := by
  intro r returned
  obtain ⟨cut, longer⟩ := more r returned
  refine ⟨_, rfl, grows.trans cut.grows, cut.outlen.trans outlen, cut.room, fun few => ?_, fun _ => ⟨rfl, ?_⟩⟩
  · exact absurd few (Nat.not_le.mpr longer)
  · rw [← full]
    exact List.prefix_iff_eq_take.mp cut.grows

theorem Cut.whole (cut : Cut s.outlen s r r') : Cut s.outlen s r r := by
  have room := cut.room
  rw [cut.outlen] at room
  refine ⟨cut.grows, cut.outlen, cut.room, fun _ => ?_, fun more => absurd room (Nat.not_le.mpr more)⟩
  have same : r.2.cap s.outlen = r.2 := by rw [← cut.outlen, Inf.cap]
  rw [same]

theorem Cut.unlessFull (within : Within m s) {x : Except Fault (Int × Inf)} {y : Nat → Except Fault (Int × Inf)}
    (go : ∀ k, s.out.length < k → k ≤ s.outlen →
      Follows (fun r r' => Cut k s r r' ∧ s.out.length < r.2.out.length) x (y k)) :
    Follows (Cut m s) (if s.out.length = s.outlen then .ok (1, s) else x)
      (if (s.cap m).out.length = (s.cap m).outlen then .ok (1, s.cap m) else y m) := by
  have out := within.out
  have outlen := within.outlen
  -- the smaller destination is full, with the other one or alone, or both have room
  by_cases full : s.out.length = m
  · rw [if_pos (show (s.cap m).out.length = (s.cap m).outlen from full)]
    by_cases both : s.out.length = s.outlen
    · rw [if_pos both]
      exact Cut.ends within 1 rfl rfl
    · rw [if_neg both]
      refine Cut.past List.prefix_rfl full rfl fun r returned => ?_
      obtain ⟨_, _, cut, more⟩ := go s.outlen (by omega) (Nat.le_refl _) r returned
      exact ⟨cut.whole, by omega⟩
  · rw [if_neg (show ¬ (s.cap m).out.length = (s.cap m).outlen from full), if_neg (by omega)]
    exact (go m (by omega) outlen).mono fun _ _ both => both.1

theorem storedLoop_cuts : ∀ len : Nat, Cuts (storedLoop len) := by
  intro len
  induction len with
  | zero =>
    intro m s within
    exact Cut.ends within 0 rfl rfl
  | succ len ih =>
    intro m s within
    refine Cut.unlessFull within
      (y := fun k => nextByte (s.cap k) >>= fun read => User.emit read.2 read.1 >>= storedLoop len) fun k room le => ?_
    refine Reads.bind (nextByte_capped k s) fun b s₁ out outlen => ?_
    refine (ih.emit b (by rw [out]; exact room) (by rw [outlen]; exact le)).mono ?_
    rintro r r' ⟨cut, more⟩
    rw [out] at more
    exact ⟨cut.moved out outlen, more⟩

theorem infStored_cuts : Cuts infStored := by
  intro m s within
  -- a stored block begins at a whole byte
  have empty : Within m { s with bitbuf := 0, bitcnt := 0 } := ⟨within.out, within.outlen⟩
  rw [infStored, infStored]
  refine Follows.ite Iff.rfl (fun _ => Cut.ends within 2 rfl rfl) fun _ => ?_
  refine (Reads.cut empty (nextByte_capped m _) fun lo s₁ within₁ out₁ => ?_).mono fun _ _ cut => cut.moved rfl rfl
  refine Reads.cut within₁ (nextByte_capped m s₁) fun hi s₂ within₂ out₂ => ?_
  refine Follows.bind (skip_capped m 2 s₂) ?_
  rintro s₃ t₃ ⟨rfl, out, outlen⟩
  have within₃ := within₂.moved out outlen
  refine Follows.ite Iff.rfl (fun _ => Cut.ends within₂ 2 out outlen) fun _ => ?_
  exact (storedLoop_cuts _ m s₃ within₃).mono fun _ _ cut => cut.moved out outlen

theorem copyLoop_add (dist a b : Nat) : ∀ s : Inf, copyLoop dist (a + b) s = copyLoop dist a s >>= copyLoop dist b := by
  induction a with
  | zero =>
    intro s
    rw [Nat.zero_add]
    rfl
  | succ a ih =>
    intro s
    rw [Nat.succ_add, copyLoop, copyLoop]
    split
    · rfl
    · split
      · rfl
      · rename_i byte _
        cases User.emit s byte with
        | error fault => rfl
        | ok s₁ => exact ih s₁

/-- `n` bytes were copied, with both capacities. -/
structure Copied (m n : Nat) (s s₁ t₁ : Inf) : Prop where
  state : t₁ = s₁.cap m
  grows : s.out <+: s₁.out
  length : s₁.out.length = s.out.length + n
  outlen : s₁.outlen = s.outlen

theorem copyLoop_capped (m dist : Nat) : ∀ (n : Nat) (s : Inf), s.out.length + n ≤ m → m ≤ s.outlen →
    Follows (Copied m n s) (copyLoop dist n s) (copyLoop dist n (s.cap m)) := by
  intro n
  induction n with
  | zero =>
    intro s _ _
    exact Follows.ok ⟨rfl, List.prefix_rfl, rfl, rfl⟩
  | succ n ih =>
    intro s room le
    rw [copyLoop, copyLoop]
    refine Follows.ite Iff.rfl (fun _ => Follows.error) fun _ => ?_
    have same : (s.cap m).out[(s.cap m).out.length - dist]? = s.out[s.out.length - dist]? := rfl
    rw [same]
    cases s.out[s.out.length - dist]? with
    | none => exact Follows.error
    | some b =>
      have first : User.emit s b = .ok { s with out := s.out ++ [b] } := if_pos (by omega)
      have second : User.emit (s.cap m) b = .ok (Inf.cap { s with out := s.out ++ [b] } m) := if_pos (by simp only [Inf.cap]; omega)
      simp only [first, second]
      refine (ih { s with out := s.out ++ [b] } (by simp only [List.length_append, List.length_singleton]; omega) le).mono ?_
      rintro s₁ t₁ ⟨state, grows, length, outlen⟩
      refine ⟨state, (List.prefix_append _ _).trans grows, ?_, outlen⟩
      rw [length, List.length_append, List.length_singleton]
      omega

theorem Cuts.copy {f : Inf → Except Fault (Int × Inf)} (rest : Cuts f) (dist len : Nat) (within : Within m s) :
    Follows (Cut m s)
      (if s.out.length + len > s.outlen then do
        let s ← copyLoop dist (s.outlen - s.out.length) s
        .ok (1, s)
      else do
        let s ← copyLoop dist len s
        f s)
      (if s.out.length + len > m then do
        let s ← copyLoop dist (m - s.out.length) (s.cap m)
        .ok (1, s)
      else do
        let s ← copyLoop dist len (s.cap m)
        f s) := by
  have out := within.out
  have outlen := within.outlen
  by_cases fits : s.out.length + len ≤ m
  · rw [if_neg (by omega), if_neg (by omega)]
    refine Follows.bind (copyLoop_capped m dist len s fits outlen) ?_
    rintro s₁ t₁ ⟨rfl, grows, length, same⟩
    exact (rest m s₁ ⟨by omega, by omega⟩).mono fun _ _ cut => cut.after grows same
  rw [if_pos (show s.out.length + len > m by omega)]
  -- both runs copy the `n` bytes that fit in the smaller destination, where one of them ends
  obtain ⟨n, size⟩ : ∃ n, n = m - s.out.length := ⟨_, rfl⟩
  rw [← size]
  have start := copyLoop_capped m dist n s (by omega) outlen
  have parts {k : Nat} (le : n ≤ k) (g : Inf → Except Fault (Int × Inf)) : copyLoop dist k s >>= g =
      copyLoop dist n s >>= fun s₁ => copyLoop dist (k - n) s₁ >>= g := by
    have whole : k = n + (k - n) := by omega
    conv_lhs => rw [whole, copyLoop_add]
    exact bind_assoc (copyLoop dist n s) (copyLoop dist (k - n)) g
  by_cases beyond : s.out.length + len > s.outlen
  · rw [if_pos beyond, parts (by omega)]
    refine Follows.bind start ?_
    rintro s₁ t₁ ⟨rfl, grows, length, same⟩
    have full : s₁.out.length = m := by omega
    by_cases both : m = s.outlen
    · have done : s.outlen - s.out.length - n = 0 := by omega
      rw [done]
      exact Follows.ok ⟨grows, same, by simp only; omega, fun _ => rfl, fun more => absurd more (by simp only; omega)⟩
    · refine Cut.past grows full same fun r returned => ?_
      obtain ⟨s₂, copied, returned⟩ := bind_returns returned
      cases returned
      obtain ⟨_, _, _, grows', length', same'⟩ := copyLoop_capped s₁.outlen dist _ s₁ (by omega) (Nat.le_refl _) s₂ copied
      have cut : Cut s₁.outlen s₁ (1, s₂) (1, s₂.cap s₁.outlen) :=
        ⟨grows', same', by simp only; omega, fun _ => rfl, fun more => absurd more (by simp only; omega)⟩
      exact ⟨cut.whole, by simp only; omega⟩
  · rw [if_neg beyond, parts (by omega)]
    refine Follows.bind start ?_
    rintro s₁ t₁ ⟨rfl, grows, length, same⟩
    have full : s₁.out.length = m := by omega
    refine Cut.past grows full same fun r returned => ?_
    obtain ⟨s₂, copied, returned⟩ := bind_returns returned
    obtain ⟨_, _, _, grows', length', same'⟩ := copyLoop_capped s₁.outlen dist _ s₁ (by omega) (Nat.le_refl _) s₂ copied
    obtain ⟨_, _, cut⟩ := rest s₂.outlen s₂ ⟨by omega, Nat.le_refl _⟩ r returned
    have longer := cut.grows.length_le
    rw [same'] at cut
    exact ⟨Cut.whole (cut.after grows' same'), by omega⟩

theorem codesLoop_cuts (lencode distcode : Huffman) : ∀ fuel : Nat, Cuts (codesLoop lencode distcode fuel) := by
  intro fuel
  induction fuel with
  | zero =>
    intro m s _
    exact Follows.error
  | succ fuel ih =>
    intro m s within
    rw [codesLoop, codesLoop]
    refine Reads.cut within (infDecode_capped m s lencode) fun symbol s₁ within₁ _ => ?_
    refine Follows.ite Iff.rfl (fun _ => Cut.ends within₁ symbol rfl rfl) fun _ => ?_
    refine Follows.ite Iff.rfl (fun _ => ?_) fun _ => ?_
    · exact Cut.unlessFull within₁ (y := fun k => do
        let s ← User.emit (s₁.cap k) (UInt8.ofNat symbol.toNat)
        codesLoop lencode distcode fuel s) fun _ room le => ih.emit _ room le
    refine Follows.ite Iff.rfl (fun _ => ?_) fun _ => Cut.ends within₁ 0 rfl rfl
    refine Follows.ite Iff.rfl (fun _ => Cut.ends within₁ (-10) rfl rfl) fun _ => ?_
    refine Follows.same fun base => ?_
    refine Follows.same fun ext => ?_
    refine Reads.cut within₁ (infBits_capped m ext s₁) fun extra s₂ within₂ _ => ?_
    refine Follows.ite Iff.rfl (fun _ => Cut.ends within₂ (-99) rfl rfl) fun _ => ?_
    refine Reads.cut within₂ (infDecode_capped m s₂ distcode) fun symbol s₃ within₃ _ => ?_
    refine Follows.ite Iff.rfl (fun _ => Cut.ends within₃ symbol rfl rfl) fun _ => ?_
    refine Follows.ite Iff.rfl (fun _ => Cut.ends within₃ (-11) rfl rfl) fun _ => ?_
    refine Follows.same fun dbase => ?_
    refine Follows.same fun dext => ?_
    refine Reads.cut within₃ (infBits_capped m dext s₃) fun dextra s₄ within₄ _ => ?_
    refine Follows.ite Iff.rfl (fun _ => Cut.ends within₄ (-99) rfl rfl) fun _ => ?_
    refine Follows.ite Iff.rfl (fun _ => Cut.ends within₄ (-12) rfl rfl) fun _ => ?_
    exact ih.copy _ _ within₄

theorem infCodes_cuts (lencode distcode : Huffman) : Cuts (fun s => infCodes s lencode distcode) := by
  intro m s within
  exact codesLoop_cuts lencode distcode (s.avail + 1) m s within

theorem infFixed_cuts : Cuts infFixed := by
  intro m s within
  refine Follows.same fun first => ?_
  refine Follows.same fun second => ?_
  exact infCodes_cuts first.2 second.2 m s within

theorem infDynamic_cuts : Cuts infDynamic := by
  intro m s within
  refine Reads.cut within (infBits_capped m 5 s) fun v s₁ within₁ _ => ?_
  refine Reads.cut within₁ (infBits_capped m 5 s₁) fun w s₂ within₂ _ => ?_
  refine Reads.cut within₂ (infBits_capped m 4 s₂) fun u s₃ within₃ _ => ?_
  refine Follows.ite Iff.rfl (fun _ => Cut.ends within₃ (-99) rfl rfl) fun _ => ?_
  refine Follows.ite Iff.rfl (fun _ => Cut.ends within₃ (-3) rfl rfl) fun _ => ?_
  refine Reads.cut within₃ (orderLoop_capped m (u + 4) 19 0 _ s₃) fun lengths s₄ within₄ _ => ?_
  refine Follows.ite Iff.rfl (fun _ => Cut.ends within₄ (-99) rfl rfl) fun _ => ?_
  refine Follows.same fun code => ?_
  refine Follows.ite Iff.rfl (fun _ => Cut.ends within₄ (-4) rfl rfl) fun _ => ?_
  refine Follows.bind (lengthsLoop_capped m code.2 _ _ 0 lengths s₄) ?_
  rintro ⟨err, lengths, s₅⟩ ⟨err', lengths', t₅⟩ ⟨code, table, state, out, outlen⟩
  simp only at code table state out outlen
  rw [code, table, state]
  have within₅ := within₄.moved out outlen
  -- the tables are built from the same lengths, so from here on the runs differ only in what they write
  have back : ∀ {r r' : Int × Inf}, Cut m s₅ r r' → Cut m s₄ r r' := fun cut => cut.moved out outlen
  refine Follows.mono ?_ fun _ _ => back
  refine Follows.ite Iff.rfl (fun _ => Cut.ends within₅ err rfl rfl) fun _ => ?_
  refine Follows.same fun endOfBlock => ?_
  refine Follows.ite Iff.rfl (fun _ => Cut.ends within₅ (-9) rfl rfl) fun _ => ?_
  refine Follows.same fun lencode => ?_
  refine Follows.same fun none => ?_
  refine Follows.ite Iff.rfl (fun _ => Cut.ends within₅ (-7) rfl rfl) fun _ => ?_
  refine Follows.same fun distcode => ?_
  refine Follows.same fun none => ?_
  refine Follows.ite Iff.rfl (fun _ => Cut.ends within₅ (-8) rfl rfl) fun _ => ?_
  exact infCodes_cuts lencode.2 distcode.2 m s₅ within₅

theorem infBlock_cuts (type : Nat) : Cuts (infBlock type) := by
  intro m s within
  refine Follows.ite Iff.rfl (fun _ => infStored_cuts m s within) fun _ => ?_
  refine Follows.ite Iff.rfl (fun _ => infFixed_cuts m s within) fun _ => ?_
  refine Follows.ite Iff.rfl (fun _ => infDynamic_cuts m s within) fun _ => ?_
  exact Cut.ends within (-1) rfl rfl

theorem Cuts.returned {f : Inf → Except Fault (Int × Inf)} (cuts : Cuts f) (room : s.out.length ≤ s.outlen) {r : Int × Inf}
    (ran : f s = .ok r) : Cut s.outlen s r r := by
  obtain ⟨_, _, cut⟩ := cuts s.outlen s ⟨room, Nat.le_refl _⟩ r ran
  exact cut.whole

theorem inflateLoop_cuts : ∀ fuel : Nat, Cuts (inflateLoop fuel) := by
  intro fuel
  induction fuel with
  | zero =>
    intro m s _
    exact Follows.error
  | succ fuel ih =>
    intro m s within
    rw [inflateLoop, inflateLoop]
    refine Reads.cut within (infBits_capped m 1 s) fun last s₁ within₁ _ => ?_
    refine Reads.cut within₁ (infBits_capped m 2 s₁) fun type s₂ within₂ _ => ?_
    refine Follows.ite Iff.rfl (fun _ => Cut.ends within₂ 2 rfl rfl) fun _ => ?_
    refine Follows.bind (infBlock_cuts type m s₂ within₂) ?_
    intro r r' cut
    have rest : Cuts fun s => if r.1 ≠ 0 then .ok (r.1, s) else if last = 0 then inflateLoop fuel s else .ok (0, s) := by
      intro k t room
      refine Follows.ite Iff.rfl (fun _ => Cut.ends room r.1 rfl rfl) fun _ => ?_
      exact Follows.ite Iff.rfl (fun _ => ih k t room) fun _ => Cut.ends room 0 rfl rfl
    by_cases few : r.2.out.length ≤ m
    · -- the block fits, so both runs go on alike
      have within₃ : Within m r.2 := ⟨few, by rw [cut.outlen]; exact within₂.outlen⟩
      rw [cut.same few]
      exact (rest m r.2 within₃).mono fun _ _ later => later.after cut.grows cut.outlen
    · -- the smaller run ended in the block; the other one keeps what it has written
      obtain ⟨stopped, out⟩ := cut.full (by omega)
      intro q returned
      have later := rest.returned cut.room returned
      have longer := later.grows.length_le
      refine ⟨(r'.1, r'.2), if_pos (by omega), cut.grows.trans later.grows, later.outlen.trans cut.outlen, later.room,
        fun fits => by omega, fun _ => ⟨stopped, ?_⟩⟩
      rw [out]
      obtain ⟨added, more⟩ := later.grows
      rw [← more, List.take_append_of_le_length (by omega)]

/-- With a smaller capacity the output is cut, and only that changes the result. -/
theorem inflate_capacity (src : List UInt8) {m n : Nat} (le : m ≤ n) :
    ∃ code out code', rexInflate src n = .ok (code, out) ∧ rexInflate src m = .ok (code', out.take m) ∧
      (code = 0 → code' = if out.length ≤ m then 0 else 1) := by
  obtain ⟨⟨code, out⟩, done, short⟩ := rexInflate_safe src n
  obtain ⟨r, ran, result⟩ := bind_returns done
  cases result
  have start : Within m ⟨src, 0, [], n, 0, 0, false⟩ := ⟨Nat.zero_le _, le⟩
  obtain ⟨r', ran', cut⟩ := inflateLoop_cuts _ m _ start r ran
  have other : rexInflate src m = .ok (r'.1, r'.2.out) :=
    congrArg (fun x => x >>= fun r : Int × Inf => Except.ok (r.1, r.2.out)) ran'
  refine ⟨r.1, r.2.out, r'.1, done, ?_, fun good => ?_⟩
  · rw [other]
    by_cases few : r.2.out.length ≤ m
    · rw [cut.same few, List.take_of_length_le few]
      rfl
    · rw [(cut.full (by omega)).2]
  · by_cases few : r.2.out.length ≤ m
    · rw [if_pos few, cut.same few, good]
    · rw [if_neg few, (cut.full (by omega)).1]

/-- Three stored bytes, cut to two. -/
theorem inflate_capacity_stored : (2 ≤ 3) ∧
    ∃ code out code', rexInflate [1, 3, 0, 252, 255, 7, 8, 9] 3 = .ok (code, out) ∧
      rexInflate [1, 3, 0, 252, 255, 7, 8, 9] 2 = .ok (code', out.take 2) ∧
      (code = 0 → code' = if out.length ≤ 2 then 0 else 1) :=
  ⟨by decide, inflate_capacity [1, 3, 0, 252, 255, 7, 8, 9] (by decide)⟩

end RexOs.User
