import RexOs.Library.Run
import RexOs.User.Descriptors

/-! The library's copy of the offset and the offset in the kernel.

`lseek` and the transfers look at results of system calls as an `int`. The offsets agree as
long as no such result has bit 31 set.
-/

set_option autoImplicit false

namespace RexOs.User

open Arch (minusOne taskFdMax)
open RexOs.Library

theorem cInt_of_lt {x : Nat} (small : x < 2 ^ 31) : cInt x = x := by
  rw [cInt, if_pos (by omega)]
  omega

theorem cInt_neg_iff (x : Nat) : cInt x < 0 ↔ 2 ^ 31 ≤ x % 2 ^ 32 := by
  rw [cInt]
  split <;> omega

theorem toU64_of_nonneg {x : Int} (low : 0 ≤ x) (high : x < 2 ^ 64) : toU64 x = x.toNat := by
  rw [toU64, Int.emod_eq_of_lt low high]

theorem toU64_lt (x : Int) : toU64 x < 2 ^ 64 := by
  unfold toU64
  omega

theorem cInt_toU64 {fd : Int} (low : 0 ≤ fd) (high : fd < 2 ^ 31) : cInt (toU64 fd) = fd := by
  rw [toU64_of_nonneg low (by omega), cInt_of_lt (by omega)]
  omega

theorem cLong_ne {x : Nat} (positive : ¬ cInt x < 0) : cLong x ≠ -1 := by
  rw [cInt_neg_iff] at positive
  rw [cLong]
  split <;> omega

variable {σ Node : Type}

/-- The copy of the library is the offset of the kernel, for every open descriptor. -/
def Process.Agree (s : Process σ Node) : Prop := ∀ i, (s.fdTable i).isSome → s.sOffset i = s.fdOffset i

structure Process.Valid (s : Process σ Node) : Prop where
  agree : s.Agree
  inside : ∀ i, (s.fdTable i).isSome → 3 ≤ i ∧ i < taskFdMax
  small : ∀ i, s.fdOffset i < 2 ^ 64

def processStart (outside : σ) : Process σ Node :=
  { fdTable := fun _ => none, fdOffset := fun _ => 0, sOffset := fun _ => 0, errno := .noError, outside := outside }

theorem processStart_valid (outside : σ) : (processStart outside : Process σ Node).Valid :=
  ⟨nofun, nofun, fun _ => Nat.two_pow_pos 64⟩

variable {o : Outside σ Node} {s : Process σ Node}

theorem Process.Valid.same (valid : s.Valid) {t : Process σ Node} (table : t.fdTable = s.fdTable)
    (offsets : t.fdOffset = s.fdOffset) (copy : t.sOffset = s.sOffset) : t.Valid := by
  obtain ⟨agree, inside, small⟩ := valid
  constructor
  · intro i opened
    rw [table] at opened
    rw [offsets, copy]
    exact agree i opened
  · rw [table]
    exact inside
  · rw [offsets]
    exact small

theorem Process.Valid.put (valid : s.Valid) {t : Process σ Node} {i x y : Nat} {entry : Option Node}
    (table : t.fdTable = Function.update s.fdTable i entry) (offsets : t.fdOffset = Function.update s.fdOffset i x)
    (copy : t.sOffset = Function.update s.sOffset i y) (small : x < 2 ^ 64)
    (both : entry.isSome → (3 ≤ i ∧ i < taskFdMax) ∧ y = x) : t.Valid := by
  obtain ⟨agree, inside, bounds⟩ := valid
  constructor
  · intro j opened
    rw [table] at opened
    rw [offsets, copy]
    by_cases same : j = i
    · subst same
      rw [Function.update_self] at opened
      rw [Function.update_self, Function.update_self, (both opened).2]
    · rw [Function.update_of_ne same] at opened
      rw [Function.update_of_ne same, Function.update_of_ne same, agree j opened]
  · intro j opened
    rw [table] at opened
    by_cases same : j = i
    · subst same
      rw [Function.update_self] at opened
      exact (both opened).1
    · rw [Function.update_of_ne same] at opened
      exact inside j opened
  · intro j
    rw [offsets]
    by_cases same : j = i
    · subst same
      rw [Function.update_self]
      exact small
    · rw [Function.update_of_ne same]
      exact bounds j

theorem Process.Valid.set (valid : s.Valid) {t : Process σ Node} {i x y : Nat} (table : t.fdTable = s.fdTable)
    (offsets : t.fdOffset = Function.update s.fdOffset i x) (copy : t.sOffset = Function.update s.sOffset i y)
    (both : (s.fdTable i).isSome → y = x) (small : x < 2 ^ 64) : t.Valid := by
  have entry : t.fdTable = Function.update s.fdTable i (s.fdTable i) := by rw [Function.update_eq_self, table]
  exact valid.put entry offsets copy small fun opened => ⟨valid.inside i opened, both opened⟩

/-- What a transfer did to the descriptor; what it moved fits into an `int`. -/
def Moved (s : Process σ Node) (i : Nat) (p : Nat × Process σ Node) : Prop :=
  p.2.fdTable = s.fdTable ∧ p.2.sOffset = s.sOffset ∧
    (cInt p.1 ≤ 0 ∧ p.2.fdOffset = s.fdOffset ∨
      (0 < p.1 ∧ p.1 < 2 ^ 31) ∧ p.2.fdOffset = Function.update s.fdOffset i ((s.fdOffset i + p.1) % 2 ^ 64))

theorem transfer_moved (valid : s.Valid) {move : σ → Node → Nat → Nat → Nat → Nat × σ} {closed : Nat} (idle : cInt closed ≤ 0)
    {i size buf : Nat}
    (tame : ∀ node, s.fdTable i = some node → (move s.outside node (s.fdOffset i) size buf).1 < 2 ^ 31) :
    Moved s i (transfer o move closed s i buf size) := by
  have failed : cInt minusOne ≤ 0 := by decide
  rw [transfer]
  split
  · exact ⟨rfl, rfl, Or.inl ⟨failed, rfl⟩⟩
  · cases opened : s.fdTable i with
    | none => exact ⟨rfl, rfl, Or.inl ⟨idle, rfl⟩⟩
    | some node =>
      have small := tame node opened
      refine ⟨rfl, rfl, ?_⟩
      by_cases some_ : 0 < (move s.outside node (s.fdOffset i) size buf).1
      · exact Or.inr ⟨⟨some_, small⟩, rfl⟩
      · have nothing := Nat.eq_zero_of_not_pos some_
        refine Or.inl ⟨?_, ?_⟩
        · show cInt (move s.outside node (s.fdOffset i) size buf).1 ≤ 0
          rw [nothing]
          decide
        · show Function.update s.fdOffset i ((s.fdOffset i + (move s.outside node (s.fdOffset i) size buf).1) % 2 ^ 64) = _
          rw [nothing, Nat.add_zero, Nat.mod_eq_of_lt (valid.small i), Function.update_eq_self]

theorem Process.Valid.follow (valid : s.Valid) {fd : Int} {p : Nat × Process σ Node} (moved : Moved s fd.toNat p) :
    (if cInt p.1 > 0 then p.2.advance fd (cInt p.1) else p.2).Valid := by
  obtain ⟨table, copy, ⟨nothing, offsets⟩ | ⟨⟨some_, small⟩, offsets⟩⟩ := moved
  · rw [if_neg (not_lt.mpr nothing)]
    exact valid.same table offsets copy
  · rw [cInt_of_lt small, if_pos (Int.natCast_pos.mpr some_)]
    have copied : (p.2.advance fd p.1).sOffset =
        Function.update s.sOffset fd.toNat ((s.sOffset fd.toNat + p.1) % 2 ^ 64) := by
      rw [Process.advance, toU64_of_nonneg (Int.natCast_nonneg _) (by omega), copy]
      rfl
    apply Process.Valid.set (t := p.2.advance fd p.1) valid table offsets copied
    · intro opened
      rw [valid.agree _ opened]
    · exact Nat.mod_lt _ (Nat.two_pow_pos 64)

/-- The kernel moves fewer than `2 ^ 31` bytes for the descriptor. -/
def Tame (move : σ → Node → Nat → Nat → Nat → Nat × σ) (s : Process σ Node) (fd : Int) (buf count : Nat) : Prop :=
  ∀ node, fdNode s fd = some node → (move s.outside node (s.fdOffset fd.toNat) count buf).1 < 2 ^ 31

theorem fdNode_inside (s : Process σ Node) {fd : Int} (low : 3 ≤ fd) (high : fd < taskFdMax) :
    fdNode s fd = s.fdTable fd.toNat := if_pos ⟨low, high⟩

theorem file_iff (fd : Int32) : (3 ≤ toU64 fd.toInt ∧ toU64 fd.toInt < taskFdMax) ↔ 3 ≤ fd.toInt ∧ fd.toInt < maxFd := by
  have low := fd.le_toInt
  have high := fd.toInt_lt
  unfold toU64 taskFdMax maxFd
  omega

theorem transfer_file (valid : s.Valid) {move : σ → Node → Nat → Nat → Nat → Nat × σ} {closed : Nat}
    (idle : cInt closed ≤ 0) {fd : Int} (low : 3 ≤ fd) (high : fd < maxFd) {buf count : Nat} (tame : Tame move s fd buf count) :
    Moved s fd.toNat (transfer o move closed s (toU64 fd) buf count) := by
  have index : toU64 fd = fd.toNat := toU64_of_nonneg (by omega) (by unfold maxFd at high; omega)
  rw [index]
  apply transfer_moved valid idle
  intro node opened
  apply tame node
  rw [fdNode_inside s low high, opened]

theorem Process.Valid.read (valid : s.Valid) (fd : Int32) (buf count : Nat)
    (tame : Tame o.vfsRead s fd.toInt buf count) : (read o s fd.toInt buf count).2.Valid := by
  rw [User.read]
  by_cases stdin : fd.toInt = 0
  · have typed : (sysRead o s 0 buf 1).2.Valid := by
      rw [sysRead, if_pos rfl]
      split
      · exact valid
      · exact valid.same rfl rfl rfl
    rw [if_pos stdin]
    split
    · exact valid
    · exact typed
  · have notZero : toU64 fd.toInt ≠ 0 := by
      have low := fd.le_toInt
      have high := fd.toInt_lt
      unfold toU64
      omega
    rw [if_neg stdin, sysRead, if_neg notZero]
    by_cases file : 3 ≤ fd.toInt ∧ fd.toInt < maxFd
    · rw [if_pos ((file_iff fd).mpr file)]
      simp only [file.2, and_true]
      exact valid.follow (transfer_file valid (by decide) file.1 file.2 tame)
    · rw [if_neg (mt (file_iff fd).mp file)]
      exact valid

theorem Process.Valid.write (valid : s.Valid) (fd : Int32) (buf count : Nat)
    (tame : Tame o.vfsWrite s fd.toInt buf count) : (write o s fd.toInt buf count).2.Valid := by
  rw [User.write, sysWrite]
  by_cases file : 3 ≤ fd.toInt ∧ fd.toInt < maxFd
  · have kernel := (file_iff fd).mpr file
    rw [if_neg (by omega), if_pos kernel]
    simp only [file.1, file.2, and_true]
    exact valid.follow (transfer_file valid (by decide) file.1 file.2 tame)
  · rw [if_neg (mt (file_iff fd).mp file)]
    have not_ : ∀ r : Int, ¬ (r > 0 ∧ fd.toInt ≥ 3 ∧ fd.toInt < maxFd) := fun r both => file both.2
    simp only [not_, if_false]
    split
    · split
      · exact valid
      · exact valid.same rfl rfl rfl
    · exact valid

/-- A target that reaches an open descriptor has bit 31 clear, or is where the descriptor stands. -/
def SeekTame (o : Outside σ Node) (s : Process σ Node) (fd offset whence : Int) : Prop :=
  ∀ target, seekTarget o s fd offset whence = .ok target → (fdNode s fd).isSome →
    target % 2 ^ 32 < 2 ^ 31 ∨ target = s.sOffset fd.toNat

theorem seekTarget_lt {fd offset whence : Int} {target : Nat} (aim : seekTarget o s fd offset whence = .ok target) :
    target < 2 ^ 64 := by
  rw [seekTarget] at aim
  split at aim
  · obtain rfl := Except.ok.inj aim
    exact toU64_lt offset
  · split at aim
    · obtain rfl := Except.ok.inj aim
      exact Nat.mod_lt _ (Nat.two_pow_pos 64)
    · split at aim
      · split at aim
        · cases aim
        · obtain rfl := Except.ok.inj aim
          exact Nat.mod_lt _ (Nat.two_pow_pos 64)
      · cases aim

def Kept (s : Process σ Node) (p : Int × Process σ Node) : Prop :=
  p.1 = -1 → p.2.sOffset = s.sOffset ∧ p.2.fdOffset = s.fdOffset

theorem Process.Valid.lseek (valid : s.Valid) (fd offset whence : Int) (tame : SeekTame o s fd offset whence) :
    (lseek o s fd offset whence).2.Valid ∧ Kept s (lseek o s fd offset whence) := by
  rw [User.lseek]
  by_cases outside : fd < 3 ∨ fd ≥ maxFd
  · rw [if_pos outside]
    exact ⟨valid.same rfl rfl rfl, fun _ => ⟨rfl, rfl⟩⟩
  · rw [if_neg outside]
    have inside : 3 ≤ fd ∧ fd < taskFdMax := by
      unfold maxFd at outside
      unfold taskFdMax
      omega
    cases aim : seekTarget o s fd offset whence with
    | error e => exact ⟨valid.same rfl rfl rfl, fun _ => ⟨rfl, rfl⟩⟩
    | ok target =>
      have argument : cInt (toU64 fd) = fd := cInt_toU64 (by omega) (by unfold taskFdMax at inside; omega)
      simp only [sysSeek, argument]
      cases opened : fdNode s fd with
      | none =>
        have failed : cInt minusOne < 0 := by decide
        simp only [failed, if_true]
        exact ⟨valid.same rfl rfl rfl, fun _ => ⟨rfl, rfl⟩⟩
      | some node =>
        have known : (fdNode s fd).isSome := by rw [opened]; rfl
        by_cases negative : cInt target < 0
        · -- the kernel has moved, but only to where the descriptor stands
          have here : target = s.fdOffset fd.toNat := by
            rw [cInt_neg_iff] at negative
            rcases tame target aim known with clear | same
            · omega
            · rw [same]
              rw [fdNode_inside s inside.1 inside.2] at known
              exact valid.agree _ known
          have still : Function.update s.fdOffset fd.toNat target = s.fdOffset := by
            rw [here, Function.update_eq_self]
          simp only [negative, if_true, still]
          exact ⟨valid.same rfl rfl rfl, fun _ => ⟨rfl, rfl⟩⟩
        · simp only [negative, if_false]
          exact ⟨valid.set rfl rfl rfl (fun _ => rfl) (seekTarget_lt aim), fun failed => absurd failed (cLong_ne negative)⟩

theorem freeFd_free {fdTable : Nat → Option Node} {i n fd : Nat} (free : freeFd fdTable i n = some fd) :
    i ≤ fd ∧ fd < i + n ∧ fdTable fd = none := by
  induction n generalizing i with
  | zero => cases free
  | succ n ih =>
    rw [freeFd] at free
    split at free
    · rename_i none_
      obtain rfl := Option.some.inj free
      exact ⟨Nat.le_refl _, Nat.lt_add_of_pos_right (Nat.succ_pos n), Option.isNone_iff_eq_none.mp none_⟩
    · obtain ⟨low, high, none_⟩ := ih free
      exact ⟨Nat.le_of_succ_le low, by omega, none_⟩

theorem sysFstat_some {arg1 arg2 length : Nat} (stat : sysFstat o s arg1 arg2 = some length) :
    ∃ node, fdNode s (cInt arg1) = some node ∧ (o.length s.outside node).toNat = length := by
  rw [sysFstat] at stat
  split at stat
  · cases stat
  · exact Option.map_eq_some_iff.mp stat

theorem Process.Valid.openFile (valid : s.Valid) (name flags : Nat) : (openFile o s name flags).2.Valid := by
  rw [User.openFile, sysOpen]
  generalize (if flags &&& oCreat ≠ 0 then rsysOCreat else 0) = kflags
  rcases found : o.lookup s.outside name kflags with ⟨_ | node, outside⟩
  · exact valid.same rfl rfl rfl
  · cases free : freeFd s.fdTable 3 (taskFdMax - 3) with
    | none => exact valid.same rfl rfl rfl
    | some i =>
      obtain ⟨low, high, _⟩ := freeFd_free free
      have inside : 3 ≤ i ∧ i < taskFdMax := ⟨low, high⟩
      have result : cInt i = i := cInt_of_lt (by unfold taskFdMax at high; omega)
      have argument : cInt (toU64 i) = i := cInt_toU64 (Int.natCast_nonneg i) (by unfold taskFdMax at high; omega)
      have plain : { s with
          fdTable := Function.update s.fdTable i (some node), fdOffset := Function.update s.fdOffset i 0
          sOffset := Function.update s.sOffset i 0, outside := outside : Process σ Node }.Valid :=
        valid.put rfl rfl rfl (Nat.two_pow_pos 64) fun _ => ⟨inside, rfl⟩
      have fits : ¬ (i : Int) < 0 ∧ (i : Int) < maxFd := ⟨not_lt.mpr (Int.natCast_nonneg i), Int.ofNat_lt.mpr high⟩
      simp only [result, fits, if_false, if_true, Int.toNat_natCast]
      split
      · split
        · exact plain
        · -- the end of the file, on both sides
          rename_i length aim
          obtain ⟨_, _, rfl⟩ := sysFstat_some aim
          rw [sysSeek, argument, fdNode_inside _ (Int.ofNat_le.mpr low) (Int.ofNat_lt.mpr high), Int.toNat_natCast]
          simp only [Function.update_self]
          exact plain.set rfl rfl rfl (fun _ => rfl) (UInt64.toNat_lt _)
      · exact plain

theorem Process.Valid.close (valid : s.Valid) (fd : Int) : (close o s fd).2.Valid := by
  rw [User.close]
  split
  · exact valid.same rfl rfl rfl
  · split
    · exact valid
    · rw [sysClose]
      cases opened : fdNode s (cInt (toU64 fd)) with
      | none => exact valid
      | some node => exact valid.put rfl rfl (Function.update_eq_self _ _).symm (Nat.two_pow_pos 64) nofun

inductive LoopTame (o : Outside σ Node) (fd : Int) (buf len : Nat) : Nat → Process σ Node → Prop where
  | done {got : Nat} {s : Process σ Node} : len ≤ got → LoopTame o fd buf len got s
  | stop {got : Nat} {s : Process σ Node} : got < len → Tame o.vfsRead s fd (buf + got) (len - got) →
      (read o s fd (buf + got) (len - got)).1 ≤ 0 → LoopTame o fd buf len got s
  | next {got : Nat} {s : Process σ Node} : got < len → Tame o.vfsRead s fd (buf + got) (len - got) →
      LoopTame o fd buf len (got + (read o s fd (buf + got) (len - got)).1.toNat)
        (read o s fd (buf + got) (len - got)).2 → LoopTame o fd buf len got s

theorem Process.Valid.mmapLoop (valid : s.Valid) {fd : Int32} {buf len got : Nat}
    (tame : LoopTame o fd.toInt buf len got s) : (mmapLoop o fd.toInt buf len got s).2.Valid := by
  induction tame with
  | done full =>
    rw [User.mmapLoop, if_neg (Nat.not_lt.mpr full)]
    exact valid
  | stop more tame last =>
    rw [User.mmapLoop, if_pos more]
    simp only [last, if_true]
    exact valid.read fd _ _ tame
  | @next got s more tame _ ih =>
    have after := valid.read fd _ _ tame
    rw [User.mmapLoop, if_pos more]
    by_cases last : (User.read o s fd.toInt (buf + got) (len - got)).1 ≤ 0
    · simp only [last, if_true]
      exact after
    · simp only [last, if_false]
      exact ih after

def MmapTame (o : Outside σ Node) (s : Process σ Node) (len flags : Nat) (fd off : Int) : Prop :=
  ∀ buf outside, o.malloc s.outside len = (some buf, outside) → flags &&& mapAnon = 0 →
    let first := lseek o { s with outside := outside } fd 0 1
    let second := lseek o first.2 fd off 0
    let loop := mmapLoop o fd buf len 0 second.2
    SeekTame o { s with outside := outside } fd 0 1 ∧ SeekTame o first.2 fd off 0 ∧
      (second.1 ≠ -1 → LoopTame o fd buf len 0 second.2 ∧ SeekTame o loop.2 fd (cLong (toU64 first.1)) 0)

theorem Process.Valid.mmap (valid : s.Valid) {len flags : Nat} {fd : Int32} {off : Int}
    (tame : MmapTame o s len flags fd.toInt off) : (mmap o s len flags fd.toInt off).2.Valid := by
  rw [User.mmap]
  split
  · exact valid.same rfl rfl rfl
  · rcases gave : o.malloc s.outside len with ⟨_ | buf, outside⟩
    · exact valid.same rfl rfl rfl
    · have start : { s with outside := outside }.Valid := valid.same rfl rfl rfl
      by_cases anon : flags &&& mapAnon = 0
      · obtain ⟨tame1, tame2, rest⟩ := tame buf outside gave anon
        have first := (start.lseek _ _ _ tame1).1
        have second := (first.lseek _ _ _ tame2).1
        simp only [anon, ne_eq, not_true_eq_false, if_false]
        split
        · exact second.same rfl rfl rfl
        · rename_i moved
          obtain ⟨tame3, tame4⟩ := rest moved
          have third := ((second.mmapLoop tame3).lseek _ _ _ tame4).1
          dsimp only
          split
          · exact third.same rfl rfl rfl
          · exact third
      · simp only [anon, ne_eq, not_false_eq_true, if_true]
        exact valid.same rfl rfl rfl

inductive GlueCall (σ : Type) where
  | openFile (name flags : Nat)
  | close (fd : Int32)
  | read (fd : Int32) (buf count : Nat)
  | write (fd : Int32) (buf count : Nat)
  | lseek (fd : Int32) (offset whence : Int)
  | mmap (len flags : Nat) (fd : Int32) (off : Int)
  | elsewhere (outside : σ)

def GlueCall.after (o : Outside σ Node) (s : Process σ Node) : GlueCall σ → Process σ Node
  | .openFile name flags => (User.openFile o s name flags).2
  | .close fd => (User.close o s fd.toInt).2
  | .read fd buf count => (User.read o s fd.toInt buf count).2
  | .write fd buf count => (User.write o s fd.toInt buf count).2
  | .lseek fd offset whence => (User.lseek o s fd.toInt offset whence).2
  | .mmap len flags fd off => (User.mmap o s len flags fd.toInt off).2
  | .elsewhere outside => { s with outside := outside }

/-- No transfer of the call moves `2 ^ 31` bytes or more, and no seek goes to a target with bit 31 set. -/
def GlueCall.Tame (o : Outside σ Node) (s : Process σ Node) : GlueCall σ → Prop
  | .read fd buf count => User.Tame o.vfsRead s fd.toInt buf count
  | .write fd buf count => User.Tame o.vfsWrite s fd.toInt buf count
  | .lseek fd offset whence => SeekTame o s fd.toInt offset whence
  | .mmap len flags fd off => MmapTame o s len flags fd.toInt off
  | _ => True

def GlueStep (o : Outside σ Node) (s : Process σ Node) (c : GlueCall σ) (t : Process σ Node) : Prop := t = c.after o s

def TameStep (o : Outside σ Node) (s : Process σ Node) (c : GlueCall σ) (t : Process σ Node) : Prop :=
  c.Tame o s ∧ GlueStep o s c t

theorem Process.Valid.step (valid : s.Valid) {c : GlueCall σ} {t : Process σ Node} (step : TameStep o s c t) : t.Valid := by
  obtain ⟨tame, rfl⟩ := step
  cases c with
  | openFile name flags => exact valid.openFile name flags
  | close fd => exact valid.close fd.toInt
  | read fd buf count => exact valid.read fd buf count tame
  | write fd buf count => exact valid.write fd buf count tame
  | lseek fd offset whence => exact (valid.lseek fd.toInt offset whence tame).1
  | mmap len flags fd off => exact valid.mmap tame
  | elsewhere outside => exact valid.same rfl rfl rfl

theorem offsets_agree {outside : σ} {calls : List (GlueCall σ)} (run : Run (TameStep o) (processStart outside) calls s) :
    s.Agree ∧ ∀ (fd : Int32) offset whence, SeekTame o s fd.toInt offset whence →
      Kept s (lseek o s fd.toInt offset whence) := by
  have valid := run.invariant Process.Valid (processStart_valid outside) fun _ _ _ valid step => valid.step step
  exact ⟨valid.agree, fun fd offset whence tame => (valid.lseek fd.toInt offset whence tame).2⟩

def emptyFile : Outside Unit Unit where
  space _ := ⟨fun _ => 1, fun _ => 0⟩
  lookup _ _ _ := (some (), ())
  vfsRead _ _ _ _ _ := (0, ())
  vfsWrite _ _ _ _ _ := (0, ())
  vfsClose _ _ := ()
  length _ _ := 0
  keyboard _ _ _ := ()
  kprintf _ _ _ := ()
  sockClose _ _ := (-1, ())
  malloc _ _ := (some 0x10000, ())
  free _ _ := ()
  memset _ _ _ := ()
  stat _ := 0x7fff0000

theorem offsets_agree_seek : ∃ (s : Process Unit Unit) (calls : List (GlueCall Unit)),
    Run (TameStep emptyFile) (processStart ()) calls s ∧ s.fdOffset 3 = 100 ∧ s.Agree := by
  have opened : TameStep emptyFile (processStart ()) (.openFile 4096 0) _ := ⟨trivial, rfl⟩
  have tame : SeekTame emptyFile (openFile emptyFile (processStart ()) 4096 0).2 (3 : Int32).toInt 100 0 := by
    intro target aim _
    obtain rfl := Except.ok.inj aim
    exact Or.inl (by decide)
  have sought : TameStep emptyFile (openFile emptyFile (processStart ()) 4096 0).2 (.lseek 3 100 0) _ := ⟨tame, rfl⟩
  have run := (Run.nil.snoc opened).snoc sought
  exact ⟨_, _, run, by decide, (offsets_agree run).1⟩

theorem failed_lseek_moves : ¬ ∀ (calls : List (GlueCall Unit)) (s : Process Unit Unit),
    Run (GlueStep emptyFile) (processStart ()) calls s →
      s.Agree ∧ ∀ (fd : Int32) offset whence, Kept s (lseek emptyFile s fd.toInt offset whence) := by
  intro agree
  have opened : GlueStep emptyFile (processStart ()) (.openFile 4096 0) _ := rfl
  obtain ⟨_, kept⟩ := agree _ _ (Run.nil.snoc opened)
  have moved := congrFun (kept 3 (2 ^ 31) 0 (by decide)).2 3
  exact absurd moved (by decide)

end RexOs.User
