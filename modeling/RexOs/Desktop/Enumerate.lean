import RexOs.User.Offsets

/-! How the desktop lists a directory (`user/desktop/apps.c`).

`sys_getdents` answers 1 with an entry and 0 behind the last one. Both loops of the desktop go on
while the answer is 0.
-/

set_option autoImplicit false

namespace RexOs.Desktop

open RexOs.Arch (uptrMapped minusOne taskFdMax)
open RexOs.User (Outside Process cInt toU64 sysOpen sysClose)

structure Dirent where
  name : List UInt8
  ino : Nat
  deriving DecidableEq, Repr

/-- `sizeof(dirent_t)`. -/
def direntSize : Nat := 132

def text (s : String) : List UInt8 := s.toList.map fun c => c.toNat.toUInt8

section
variable {σ Node : Type} (o : Outside σ Node) (vfsReaddir : σ → Node → Nat → Option Dirent × σ)

/-- With the entry that is stored at `arg2`. -/
def sysGetdents (s : Process σ Node) (arg1 arg2 : Nat) : Nat × Option Dirent × Process σ Node :=
  if uptrMapped (o.space s.outside) arg2 direntSize = false then (minusOne, none, s)
  else if 3 ≤ arg1 ∧ arg1 < taskFdMax then
    match s.fdTable arg1 with
    | none => (0, none, s)
    | some node =>
        match vfsReaddir s.outside node (s.fdOffset arg1 % 2 ^ 32) with
        | (none, outside) => (0, none, { s with outside := outside })
        | (some d, outside) =>
            (1, some d, { s with
              fdOffset := Function.update s.fdOffset arg1 ((s.fdOffset arg1 + 1) % 2 ^ 64), outside := outside })
  else (0, none, s)

def getdents (s : Process σ Node) (fd : Int) (dir : Nat) : Int × Option Dirent × Process σ Node :=
  let (ret, written, s) := sysGetdents o vfsReaddir s (toU64 fd) dir
  (cInt ret, written, s)

/-- `while (getdents(fd, &e) == 0)`, with the lines that are printed; `none` while it goes on. -/
def lsLoop (fd : Int) (dir : Nat) : Nat → Dirent → List (List UInt8) → Process σ Node →
    Option (List (List UInt8) × Process σ Node)
  | 0, _, _, _ => none
  | fuel + 1, e, lines, s =>
      let (ret, written, s) := getdents o vfsReaddir s fd dir
      let e := written.getD e
      if ret = 0 then lsLoop fd dir fuel e (lines ++ [e.name]) s else some (lines, s)

/-- The command `ls`; `e` is what the stack holds at `dir`, and `flags` the register that `open` leaves alone. -/
def terminalLs (fuel : Nat) (s : Process σ Node) (path flags dir : Nat) (e : Dirent) :
    Option (List (List UInt8) × Process σ Node) :=
  let (ret, s) := sysOpen o s path flags
  let fd := cInt ret
  if fd < 0 then some ([text "ls: cannot open path"], s)
  else
    match lsLoop o vfsReaddir fd dir fuel e [] s with
    | none => none
    | some (lines, s) => some (lines, (sysClose o s (toU64 fd)).2)

def filesCapacity : Nat := 64

structure Row where
  entry : List UInt8
  isDir : Bool
  deriving DecidableEq, Repr

/-- The name is copied into 96 bytes; directories are those without a dot. -/
def Row.of (e : Dirent) : Row :=
  ⟨e.name.take 95, !e.name.contains '.'.toNat.toUInt8 || e.name == text "mnt" || e.name == text "initrd"⟩

/-- `while (st->count < 64 && getdents(fd, &e) == 0)`; there is room for `n` more. -/
def filesLoop (fd : Int) (dir : Nat) : Nat → Dirent → List Row → Process σ Node → List Row × Process σ Node
  | 0, _, rows, s => (rows, s)
  | n + 1, e, rows, s =>
      let (ret, written, s) := getdents o vfsReaddir s fd dir
      let e := written.getD e
      if ret = 0 then filesLoop fd dir n e (rows ++ [Row.of e]) s else (rows, s)

def parentRow (cwd : List UInt8) : List Row := if cwd ≠ text "/" then [⟨text "..", true⟩] else []

def filesRefresh (s : Process σ Node) (cwd : List UInt8) (path flags dir : Nat) (e : Dirent) : List Row × Process σ Node :=
  let (ret, s) := sysOpen o s path flags
  let fd := cInt ret
  if fd < 0 then ([⟨text "(cannot open)", false⟩], s)
  else
    let rows := parentRow cwd
    let (rows, s) := filesLoop o vfsReaddir fd dir (filesCapacity - rows.length) e rows s
    (rows, (sysClose o s (toU64 fd)).2)

/-- The entries that `sys_getdents` yields from here on, one call after the other. -/
inductive Yields (fd : Int) (dir : Nat) : Process σ Node → List Dirent → Prop where
  | done {s s' : Process σ Node} : sysGetdents o vfsReaddir s (toU64 fd) dir = (0, none, s') → Yields fd dir s []
  | entry {s s' : Process σ Node} {d : Dirent} {rest : List Dirent} :
      sysGetdents o vfsReaddir s (toU64 fd) dir = (1, some d, s') → Yields fd dir s' rest → Yields fd dir s (d :: rest)

/-- `ls` ends and has printed each entry once, in order. -/
def LsLists (s : Process σ Node) (path flags dir : Nat) (e : Dirent) (es : List Dirent) : Prop :=
  ∃ fuel s', terminalLs o vfsReaddir fuel s path flags dir e = some (es.map Dirent.name, s')

/-- The window shows each entry once, in order, as far as there is room. -/
def FilesLists (s : Process σ Node) (cwd : List UInt8) (path flags dir : Nat) (e : Dirent) (es : List Dirent) : Prop :=
  (filesRefresh o vfsReaddir s cwd path flags dir e).1
    = parentRow cwd ++ (es.take (filesCapacity - (parentRow cwd).length)).map Row.of

end

section
variable {σ Node : Type} {o : Outside σ Node} {vfsReaddir : σ → Node → Nat → Option Dirent × σ}
variable {s s' : Process σ Node} {fd : Int} {path flags dir : Nat} {e d : Dirent} {es : List Dirent}

theorem getdents_entry (entry : sysGetdents o vfsReaddir s (toU64 fd) dir = (1, some d, s')) :
    getdents o vfsReaddir s fd dir = (1, some d, s') := by
  rw [getdents, entry]
  rfl

theorem getdents_done (done : sysGetdents o vfsReaddir s (toU64 fd) dir = (0, none, s')) :
    getdents o vfsReaddir s fd dir = (0, none, s') := by
  rw [getdents, done]
  rfl

theorem lsLoop_extends {fuel : Nat} {lines lines' : List (List UInt8)}
    (ends : lsLoop o vfsReaddir fd dir fuel e lines s = some (lines', s')) : lines <+: lines' := by
  induction fuel generalizing e lines s with
  | zero => cases ends
  | succ fuel ih =>
    rw [lsLoop] at ends
    dsimp only at ends
    split at ends
    next => exact (List.prefix_append _ _).trans (ih ends)
    next =>
      cases ends
      exact List.prefix_refl _

theorem lsLoop_misses (yields : Yields o vfsReaddir fd dir s es) (fuel : Nat) (s' : Process σ Node) :
    lsLoop o vfsReaddir fd dir fuel e [] s ≠ some (es.map Dirent.name, s') := by
  intro ends
  cases fuel with
  | zero => cases ends
  | succ fuel =>
    rw [lsLoop] at ends
    cases yields with
    | done done =>
      -- the end of the directory looks like an entry
      rw [getdents_done done] at ends
      have printed := (lsLoop_extends ends).length_le
      cases printed
    | entry entry =>
      rw [getdents_entry entry] at ends
      cases ends

theorem filesLoop_extends (n : Nat) (e : Dirent) (rows : List Row) (s : Process σ Node) :
    rows <+: (filesLoop o vfsReaddir fd dir n e rows s).1 := by
  induction n generalizing e rows s with
  | zero => exact List.prefix_refl _
  | succ n ih =>
    rw [filesLoop]
    dsimp only
    split
    next => exact (List.prefix_append _ _).trans (ih _ _ _)
    next => exact List.prefix_refl _

theorem filesLoop_misses (yields : Yields o vfsReaddir fd dir s es) (n : Nat) (rows : List Row) :
    (filesLoop o vfsReaddir fd dir (n + 1) e rows s).1 ≠ rows ++ (es.take (n + 1)).map Row.of := by
  rw [filesLoop]
  cases yields with
  | done done =>
    rw [getdents_done done]
    dsimp only
    rw [if_pos rfl]
    intro same
    have shown : rows ++ [Row.of e] <+: rows ++ (([] : List Dirent).take (n + 1)).map Row.of :=
      same ▸ filesLoop_extends n e (rows ++ [Row.of e]) _
    have length := shown.length_le
    simp only [List.take_nil, List.map_nil, List.append_nil, List.length_append, List.length_singleton] at length
    exact absurd length (Nat.not_succ_le_self _)
  | entry entry =>
    rw [getdents_entry entry]
    intro same
    have shown := congrArg List.length same
    simp at shown

theorem parentRow_length (cwd : List UInt8) : (parentRow cwd).length ≤ 1 := by
  rw [parentRow]
  split <;> decide

/-- Whatever directory is opened and whatever it has, neither loop lists it. -/
theorem directories_unlisted {r : Nat} {cwd : List UInt8} (opened : sysOpen o s path flags = (r, s'))
    (valid : 0 ≤ cInt r) (yields : Yields o vfsReaddir (cInt r) dir s' es) :
    ¬ LsLists o vfsReaddir s path flags dir e es ∧ ¬ FilesLists o vfsReaddir s cwd path flags dir e es := by
  constructor
  · rintro ⟨fuel, final, lists⟩
    rw [terminalLs, opened] at lists
    dsimp only at lists
    rw [if_neg (Int.not_lt.mpr valid)] at lists
    cases ends : lsLoop o vfsReaddir (cInt r) dir fuel e [] s' with
    | none =>
      rw [ends] at lists
      cases lists
    | some shown =>
      rw [ends] at lists
      obtain ⟨lines, after⟩ := shown
      cases lists
      exact lsLoop_misses yields fuel after ends
  · intro lists
    rw [FilesLists, filesRefresh, opened] at lists
    dsimp only at lists
    rw [if_neg (Int.not_lt.mpr valid)] at lists
    obtain ⟨n, room⟩ : ∃ n, filesCapacity - (parentRow cwd).length = n + 1 := by
      have short := parentRow_length cwd
      exact ⟨filesCapacity - (parentRow cwd).length - 1, by rw [filesCapacity]; omega⟩
    rw [room] at lists
    exact filesLoop_misses yields n (parentRow cwd) lists

end

open RexOs.User (emptyFile processStart)

def twoFiles : List Dirent := [⟨text "a.txt", 1⟩, ⟨text "b.txt", 2⟩]

def readTwoFiles (_ : Unit) (_ : Unit) (index : Nat) : Option Dirent × Unit := (twoFiles[index]?, ())

def readNothing (_ : Unit) (_ : Unit) (_ : Nat) : Option Dirent × Unit := (none, ())

theorem twoFiles_yields : Yields emptyFile readTwoFiles 3 0x400000 (sysOpen emptyFile (processStart ()) 0 0).2 twoFiles := by
  apply Yields.entry
  · rfl
  apply Yields.entry
  · rfl
  apply Yields.done
  rfl

theorem directories_unlisted_twoFiles :
    ¬ LsLists emptyFile readTwoFiles (processStart ()) 0 0 0x400000 ⟨[], 0⟩ twoFiles ∧
      ¬ FilesLists emptyFile readTwoFiles (processStart ()) (text "/") 0 0 0x400000 ⟨[], 0⟩ twoFiles :=
  directories_unlisted (r := 3) rfl (by decide) twoFiles_yields

theorem lsLoop_readNothing (fuel : Nat) (lines : List (List UInt8)) (s : Process Unit Unit) (open_ : s.fdTable 3 = some ()) :
    lsLoop emptyFile readNothing 3 0x400000 fuel ⟨[], 0⟩ lines s = none := by
  induction fuel generalizing lines s with
  | zero => rfl
  | succ fuel ih =>
    have done : sysGetdents emptyFile readNothing s (toU64 3) 0x400000 = (0, none, { s with outside := () }) := by
      have here : s.fdTable (toU64 3) = some () := open_
      have mapped : uptrMapped (emptyFile.space s.outside) 0x400000 direntSize = true := rfl
      rw [sysGetdents, if_neg (by rw [mapped]; decide), if_pos (by decide), here]
      rfl
    rw [lsLoop, getdents_done done]
    exact ih _ _ open_

/-- Both loops stop before the first of two entries, and `ls` of an empty directory never stops. -/
theorem two_entries_unseen :
    (Yields emptyFile readTwoFiles 3 0x400000 (sysOpen emptyFile (processStart ()) 0 0).2 twoFiles ∧
      (∀ fuel, (terminalLs emptyFile readTwoFiles (fuel + 1) (processStart ()) 0 0 0x400000 ⟨[], 0⟩).map Prod.fst = some []) ∧
      (filesRefresh emptyFile readTwoFiles (processStart ()) (text "/") 0 0 0x400000 ⟨[], 0⟩).1 = []) ∧
      Yields emptyFile readNothing 3 0x400000 (sysOpen emptyFile (processStart ()) 0 0).2 [] ∧
      ∀ fuel, terminalLs emptyFile readNothing fuel (processStart ()) 0 0 0x400000 ⟨[], 0⟩ = none := by
  refine ⟨⟨twoFiles_yields, fun fuel => rfl, rfl⟩, Yields.done rfl, fun fuel => ?_⟩
  have opened : sysOpen emptyFile (processStart ()) 0 0 = (3, (sysOpen emptyFile (processStart ()) 0 0).2) := rfl
  rw [terminalLs, opened]
  dsimp only
  rw [if_neg (by decide), show cInt 3 = 3 from rfl, lsLoop_readNothing fuel [] _ rfl]

end RexOs.Desktop
