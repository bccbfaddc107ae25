import RexOs.Arch.Syscall
import RexOs.Fs.Vfs
import RexOs.Fs.FatUnique

/-! The system calls that open, make and remove files (`kernel/arch/x86_64/syscall.c`). -/

set_option autoImplicit false

namespace RexOs.Fs

open RexOs.Arch (UserSpace copyUserString minusOne taskFdMax)

structure Fd where
  node : Option VfsNode
  offset : Nat

structure FileState where
  fs : State
  fds : Nat → Nat → Fd

/-- The last `/` of the path; `q` bytes are in front of it. -/
def lastSlash : List UInt8 → Nat → Option Nat → Option Nat
  | [], _, last => last
  | c :: rest, q, last => lastSlash rest (q + 1) (if c = slash then some q else last)

/-- What stands behind the last `/`. -/
def nameOfPath (path : List UInt8) : List UInt8 :=
  match lastSlash path 0 none with
  | some q => path.drop (q + 1)
  | none => path

/-- The first free descriptor from `i` on; `rounds` are left. -/
def installLoop (node : VfsNode) : Nat → Nat → (Nat → Fd) → Nat × (Nat → Fd)
  | 0, _, fds => (minusOne, fds)
  | rounds + 1, i, fds =>
      if (fds i).node.isNone then (i, Function.update fds i ⟨some node, 0⟩) else installLoop node rounds (i + 1) fds

def oCreat : Nat := 0x40
def pathMax : Nat := 128

section
variable (dev : Device) (v : Volume) (initrd : Option (List TarNode))

/-- The directory in front of the last `/`, and the root when there is none of this name. -/
def parentOfPath (fuel : Nat) (fs : State) (path : List UInt8) : Except Fault (Option VfsNode × State) :=
  match lastSlash path 0 none with
  | none => .ok (fsRoot initrd, fs)
  | some q =>
      if q = 0 ∨ q ≥ 127 then .ok (fsRoot initrd, fs)
      else do
        match ← vfsLookup dev v initrd fuel fs (path.take q) with
        | (none, fs) => .ok (fsRoot initrd, fs)
        | (some parent, fs) => .ok (some parent, fs)

/-- The node of the path: one that does not begin with `/` is a name in the root. -/
def nodeOfPath (fuel : Nat) (fs : State) (path : List UInt8) : Except Fault (Option VfsNode × State) :=
  if path.head? = some slash then vfsLookup dev v initrd fuel fs path
  else vfsFinddir dev v initrd fuel fs (fsRoot initrd) path

/-- The file that `O_CREAT` makes. -/
def createPath (fuel : Nat) (fs : State) (path : List UInt8) : Except Fault (Option VfsNode × State) := do
  let (parent, fs) ← parentOfPath dev v initrd fuel fs path
  if nameOfPath path ≠ [] then vfsCreate dev v fuel fs parent (nameOfPath path) else .ok (none, fs)

def openPath (fuel : Nat) (fs : State) (path : List UInt8) (flags : Nat) : Except Fault (Option VfsNode × State) := do
  match ← nodeOfPath dev v initrd fuel fs path with
  | (some node, fs) => .ok (some node, fs)
  | (none, fs) => if flags &&& oCreat ≠ 0 then createPath dev v initrd fuel fs path else .ok (none, fs)

def sysOpen (space : UserSpace) (task fuel : Nat) (s : FileState) (arg1 arg2 : Nat) : Except Fault (Nat × FileState) :=
  match (copyUserString space arg1 pathMax).1 with
  | none => .ok (minusOne, s)
  | some path => do
      match ← openPath dev v initrd fuel s.fs path arg2 with
      | (none, fs) => .ok (minusOne, { s with fs := fs })
      | (some node, fs) =>
          let (fd, fds) := installLoop node (taskFdMax - 3) 3 (s.fds task)
          .ok (fd, { s with fs := fs, fds := Function.update s.fds task fds })

def sysMkdir (space : UserSpace) (fuel : Nat) (s : FileState) (arg1 : Nat) : Except Fault (Nat × FileState) :=
  match (copyUserString space arg1 pathMax).1 with
  | none => .ok (minusOne, s)
  | some path => do
      let (parent, fs) ← parentOfPath dev v initrd fuel s.fs path
      if nameOfPath path ≠ [] then do
        let (made, fs) ← vfsMkdirNode dev v fuel fs parent (nameOfPath path)
        .ok (if made then 0 else minusOne, { s with fs := fs })
      else .ok (minusOne, { s with fs := fs })

def sysUnlink (space : UserSpace) (fuel : Nat) (s : FileState) (arg1 : Nat) : Except Fault (Nat × FileState) :=
  match (copyUserString space arg1 pathMax).1 with
  | none => .ok (minusOne, s)
  | some path => do
      let (parent, fs) ← parentOfPath dev v initrd fuel s.fs path
      if nameOfPath path ≠ [] then do
        let (removed, fs) ← vfsUnlink dev v fuel fs parent (nameOfPath path)
        .ok (if removed then 0 else minusOne, { s with fs := fs })
      else .ok (minusOne, { s with fs := fs })

end

/-! Whether a name exists is decided by comparing names of nodes, and not always. So two
entries of a directory can get the same 8.3 name, unless every new entry has one that no
live entry of its directory has.
-/

open RexOs.Library

inductive FileCall where
  | open (space : UserSpace) (task arg1 arg2 : Nat)
  | mkdir (space : UserSpace) (arg1 : Nat)
  | unlink (space : UserSpace) (arg1 : Nat)

section
variable (dev : Device) (v : Volume) (initrd : Option (List TarNode))

def FileCall.run (fuel : Nat) (s : FileState) : FileCall → Except Fault (Nat × FileState)
  | .open space task arg1 arg2 => sysOpen dev v initrd space task fuel s arg1 arg2
  | .mkdir space arg1 => sysMkdir dev v initrd space fuel s arg1
  | .unlink space arg1 => sysUnlink dev v initrd space fuel s arg1

def FileStep (s : FileState) (call : FileCall) (s' : FileState) : Prop :=
  ∃ fuel result, call.run dev v initrd fuel s = .ok (result, s')

/-- The call is about to make an entry for `name` in the directory of the node `dp`. -/
inductive Makes (s : FileState) : FileCall → Node → List UInt8 → Prop where
  | open {space : UserSpace} {task arg1 arg2 fuel d : Nat} {path : List UInt8} {fs₁ fs₂ : State} {dp : Node} :
      (copyUserString space arg1 pathMax).1 = some path → arg2 &&& oCreat ≠ 0 →
      nodeOfPath dev v initrd fuel s.fs path = .ok (none, fs₁) →
      parentOfPath dev v initrd fuel fs₁ path = .ok (some (.fat d), fs₂) → fs₂.nodes[d]? = some dp →
      nameOfPath path ≠ [] → Makes s (.open space task arg1 arg2) dp (nameOfPath path)
  | mkdir {space : UserSpace} {arg1 fuel d : Nat} {path : List UInt8} {fs₁ : State} {dp : Node} :
      (copyUserString space arg1 pathMax).1 = some path →
      parentOfPath dev v initrd fuel s.fs path = .ok (some (.fat d), fs₁) → fs₁.nodes[d]? = some dp →
      nameOfPath path ≠ [] → Makes s (.mkdir space arg1) dp (nameOfPath path)

/-- Whenever the call makes an entry, the directory does not have its 8.3 name yet. -/
def NameIsNew (s : FileState) (call : FileCall) : Prop :=
  ∀ dp name, Makes dev v initrd s call dp name →
    FreeName v s.fs.disk (chain v s.fs.disk dp.startCluster) (nameTo83 name)

end

variable {dev : Device} {v : Volume} {initrd : Option (List TarNode)} {clusters : Nat} {kind : Nat → Option Bool}
variable {cs : Nat → List Nat} {fs fs' : State} {s s' : FileState} {fuel : Nat} {path name : List UInt8}

def Held (kids : Nat → List Nat) (node : Option VfsNode) : Prop := ∀ i, node = some (.fat i) → Reach kids 0 i

theorem fsRoot_held (initrd : Option (List TarNode)) (kids : Nat → List Nat) : Held kids (fsRoot initrd) := by
  intro i same
  cases initrd with
  | none => cases same
  | some nodes => cases same

section

variable (ok : Reliable dev) (geo : Geometry v clusters)

include ok geo in
theorem vfsFinddir_looked {node found : Option VfsNode} (sound : Sound v clusters kind cs fs) (held : Held fs.kids node)
    (returned : vfsFinddir dev v initrd fuel fs node name = .ok (found, fs')) :
    Looked v clusters kind cs fs fs' ∧ Held fs'.kids found := by
  unfold vfsFinddir at returned
  split at returned
  · cases returned
    exact ⟨Looked.refl sound, nofun⟩
  · split at returned
    · rename_i mount here
      cases returned
      refine ⟨Looked.refl sound, ?_⟩
      intro i same
      have member := List.mem_of_find?_eq_some here
      rw [mounts, List.mem_singleton] at member
      rw [member] at same
      cases same
      exact Reach.refl _ _
    · cases returned
      refine ⟨Looked.refl sound, ?_⟩
      intro i same
      rw [tarfsFinddir, Option.map_eq_some_iff] at same
      obtain ⟨_, _, other⟩ := same
      cases other
  · split at returned
    · cases returned
      exact ⟨Looked.refl sound, nofun⟩
    · cases returned
      refine ⟨Looked.refl sound, ?_⟩
      intro i same
      split at same
      · rw [tarfsDirFinddir] at same
        split at same
        · cases same
        · rw [tarfsFinddir, Option.map_eq_some_iff] at same
          obtain ⟨_, _, other⟩ := same
          cases other
      · cases same
  · rename_i d
    obtain ⟨⟨child, fs₁⟩, search, returned⟩ := bind_returns returned
    cases returned
    have reach := held d rfl
    rcases fat32Finddir_opens ok geo sound reach search with ⟨rfl, rfl⟩ | ⟨dp, here, isDir, opened, children⟩
    · exact ⟨Looked.refl sound, nofun⟩
    · have looked := opened.looked sound geo reach here isDir
      refine ⟨looked, ?_⟩
      intro i same
      obtain ⟨j, given, other⟩ := Option.map_eq_some_iff.mp same
      cases other
      exact (looked.more d reach).child (children i given)

include ok geo in
theorem lookupLoop_looked : ∀ {rounds : Nat} {current : VfsNode} {path : List UInt8} {fs : State} {found : Option VfsNode},
    Sound v clusters kind cs fs → Held fs.kids (some current) →
    lookupLoop dev v initrd fuel rounds current path fs = .ok (found, fs') →
    Looked v clusters kind cs fs fs' ∧ Held fs'.kids found := by
  intro rounds
  induction rounds with
  | zero =>
    intro current path fs found sound held returned
    cases returned
    exact ⟨Looked.refl sound, held⟩
  | succ rounds ih =>
    intro current path fs found sound held returned
    rw [lookupLoop] at returned
    split at returned
    · cases returned
      exact ⟨Looked.refl sound, held⟩
    simp only at returned
    split at returned
    · exact ih sound held returned
    obtain ⟨⟨next, fs₁⟩, search, returned⟩ := bind_returns returned
    obtain ⟨looked, there⟩ := vfsFinddir_looked ok geo sound held search
    cases next with
    | none =>
      cases returned
      exact ⟨looked, nofun⟩
    | some next =>
      obtain ⟨later, found⟩ := ih looked.sound there returned
      exact ⟨looked.trans later, found⟩

include ok geo in
theorem vfsLookup_looked {found : Option VfsNode} (sound : Sound v clusters kind cs fs)
    (returned : vfsLookup dev v initrd fuel fs path = .ok (found, fs')) :
    Looked v clusters kind cs fs fs' ∧ Held fs'.kids found := by
  have held := fsRoot_held initrd
  unfold vfsLookup at returned
  split at returned
  · cases returned
    exact ⟨Looked.refl sound, nofun⟩
  rename_i top root
  rw [root] at held
  split at returned
  · cases returned
    exact ⟨Looked.refl sound, held _⟩
  obtain ⟨⟨flat, fs₁⟩, search, returned⟩ := bind_returns returned
  obtain ⟨looked, there⟩ := vfsFinddir_looked ok geo sound (held _) search
  cases flat with
  | some flat =>
    cases returned
    exact ⟨looked, there⟩
  | none =>
    obtain ⟨later, found⟩ := lookupLoop_looked ok geo looked.sound (held _) returned
    exact ⟨looked.trans later, found⟩

include ok geo in
theorem nodeOfPath_looked {found : Option VfsNode} (sound : Sound v clusters kind cs fs)
    (returned : nodeOfPath dev v initrd fuel fs path = .ok (found, fs')) :
    Looked v clusters kind cs fs fs' ∧ Held fs'.kids found := by
  unfold nodeOfPath at returned
  split at returned
  · exact vfsLookup_looked ok geo sound returned
  · exact vfsFinddir_looked ok geo sound (fsRoot_held _ _) returned

include ok geo in
theorem parentOfPath_looked {found : Option VfsNode} (sound : Sound v clusters kind cs fs)
    (returned : parentOfPath dev v initrd fuel fs path = .ok (found, fs')) :
    Looked v clusters kind cs fs fs' ∧ Held fs'.kids found := by
  have root := fsRoot_held initrd
  unfold parentOfPath at returned
  split at returned
  · cases returned
    exact ⟨Looked.refl sound, root _⟩
  split at returned
  · cases returned
    exact ⟨Looked.refl sound, root _⟩
  obtain ⟨⟨parent, fs₁⟩, search, returned⟩ := bind_returns returned
  obtain ⟨looked, held⟩ := vfsLookup_looked ok geo sound search
  cases parent with
  | none =>
    cases returned
    exact ⟨looked, root _⟩
  | some parent =>
    cases returned
    exact ⟨looked, held⟩

end

def InOrder (v : Volume) (clusters : Nat) (fs : State) : Prop :=
  ∃ kind cs, Sound v clusters kind cs fs ∧ Unique v kind cs fs.disk

theorem Looked.inOrder (looked : Looked v clusters kind cs fs fs') (unique : Unique v kind cs fs.disk) :
    InOrder v clusters fs' := by
  refine ⟨kind, cs, looked.sound, ?_⟩
  rw [looked.disk]
  exact unique

section

variable {d : Nat} {dp : Node} {isDir : Bool}

theorem inOrder_of_placed (geo : Geometry v clusters) (sound : Sound v clusters kind cs fs) (unique : Unique v kind cs fs.disk)
    (reach : Reach fs.kids 0 d) (dir : kind dp.startCluster = some true) (isDirectory : dp.isDir = true)
    (free : FreeName v fs.disk (chain v fs.disk dp.startCluster) (nameTo83 name))
    (effect : Unchanged v clusters kind cs fs fs' ∨
      ∃ c a m₁, Placed v clusters kind cs fs d dp isDir (nameTo83 name) c a m₁ fs') : InOrder v clusters fs' := by
  rcases effect with same | ⟨c, a, m₁, made⟩
  · exact ⟨kind, cs, sound.unchanged same, unique.quiet same.quiet⟩
  · rw [(sound.tree.chains _ _ dir).chain_eq geo] at free
    exact ⟨_, _, Sound.placed made sound geo reach isDirectory (nameTo83_plain name),
      unique.placed made sound geo dir free⟩

variable (ok : Reliable dev) (geo : Geometry v clusters)

include ok geo in
theorem fat32CreateImpl_inOrder {child : Option Nat} (sound : Sound v clusters kind cs fs) (unique : Unique v kind cs fs.disk)
    (reach : Reach fs.kids 0 d)
    (free : ∀ dp, fs.nodes[d]? = some dp → FreeName v fs.disk (chain v fs.disk dp.startCluster) (nameTo83 name))
    (returned : fat32CreateImpl dev v fuel fs d name = .ok (child, fs')) : InOrder v clusters fs' := by
  rcases node_or_other fs d true with ⟨dp, found, isDir⟩ | other
  · have dir := sound.dir reach found isDir
    exact inOrder_of_placed geo sound unique reach dir isDir (free dp found)
      (fat32CreateImpl_effect ok geo sound.tree found dir returned)
  · rw [fat32CreateImpl_other other] at returned
    cases returned
    exact ⟨kind, cs, sound, unique⟩

include ok geo in
theorem fat32MkdirImpl_inOrder {done : Bool} (sound : Sound v clusters kind cs fs) (unique : Unique v kind cs fs.disk)
    (reach : Reach fs.kids 0 d)
    (free : ∀ dp, fs.nodes[d]? = some dp → FreeName v fs.disk (chain v fs.disk dp.startCluster) (nameTo83 name))
    (returned : fat32MkdirImpl dev v fuel fs d name = .ok (done, fs')) : InOrder v clusters fs' := by
  rcases node_or_other fs d true with ⟨dp, found, isDir⟩ | other
  · have dir := sound.dir reach found isDir
    exact inOrder_of_placed geo sound unique reach dir isDir (free dp found)
      (fat32MkdirImpl_effect ok geo sound.tree found dir returned)
  · rw [fat32MkdirImpl_other other] at returned
    cases returned
    exact ⟨kind, cs, sound, unique⟩

include ok geo in
theorem fat32UnlinkImpl_inOrder {done : Bool} (sound : Sound v clusters kind cs fs) (unique : Unique v kind cs fs.disk)
    (reach : Reach fs.kids 0 d) (returned : fat32UnlinkImpl dev v fuel fs d name = .ok (done, fs')) :
    InOrder v clusters fs' := by
  rcases fat32UnlinkImpl_effect ok geo sound reach returned with rfl | ⟨dp, fs₁, found, isDir, opened, rest⟩
  · exact ⟨kind, cs, sound, unique⟩
  have looked := opened.looked sound geo reach found isDir
  rcases rest with rfl | ⟨i, e, m₁, gone⟩
  · exact looked.inOrder unique
  · have reach₁ := looked.more d reach
    rw [← looked.disk] at unique
    exact ⟨_, cs, Sound.removed gone looked.sound geo reach₁, unique.removed gone looked.sound geo reach₁⟩

end

section

variable (ok : Reliable dev) (geo : Geometry v clusters)

include ok geo in
theorem sysOpen_inOrder {space : UserSpace} {task arg1 arg2 result : Nat} (inOrder : InOrder v clusters s.fs)
    (free : NameIsNew dev v initrd s (.open space task arg1 arg2))
    (returned : sysOpen dev v initrd space task fuel s arg1 arg2 = .ok (result, s')) : InOrder v clusters s'.fs := by
  obtain ⟨kind, cs, sound, unique⟩ := inOrder
  unfold sysOpen at returned
  split at returned
  · cases returned
    exact ⟨kind, cs, sound, unique⟩
  rename_i path copied
  obtain ⟨⟨node, fs₁⟩, opening, returned⟩ := bind_returns returned
  have kept : InOrder v clusters fs₁ := by
    unfold openPath at opening
    obtain ⟨⟨found, fs₂⟩, search, opening⟩ := bind_returns opening
    obtain ⟨looked₁, -⟩ := nodeOfPath_looked ok geo sound search
    cases found with
    | some found =>
      cases opening
      exact looked₁.inOrder unique
    | none =>
      dsimp only at opening
      split at opening
      rotate_left
      · cases opening
        exact looked₁.inOrder unique
      rename_i flag
      unfold createPath at opening
      obtain ⟨⟨parent, fs₃⟩, above, opening⟩ := bind_returns opening
      obtain ⟨looked₂, held⟩ := parentOfPath_looked ok geo looked₁.sound above
      have looked := looked₁.trans looked₂
      dsimp only at opening
      split at opening
      rotate_left
      · cases opening
        exact looked.inOrder unique
      rename_i named
      unfold vfsCreate at opening
      split at opening
      rotate_left
      · cases opening
        exact looked.inOrder unique
      rename_i d
      obtain ⟨⟨child, fs₄⟩, made, opening⟩ := bind_returns opening
      cases opening
      rw [← looked.disk] at unique
      apply fat32CreateImpl_inOrder ok geo looked.sound unique (held d rfl) _ made
      intro dp here
      rw [looked.disk]
      exact free dp _ (.open copied flag search above here named)
  cases node with
  | none =>
    cases returned
    exact kept
  | some node =>
    cases returned
    exact kept

include ok geo in
theorem sysMkdir_inOrder {space : UserSpace} {arg1 result : Nat} (inOrder : InOrder v clusters s.fs)
    (free : NameIsNew dev v initrd s (.mkdir space arg1))
    (returned : sysMkdir dev v initrd space fuel s arg1 = .ok (result, s')) : InOrder v clusters s'.fs := by
  obtain ⟨kind, cs, sound, unique⟩ := inOrder
  unfold sysMkdir at returned
  split at returned
  · cases returned
    exact ⟨kind, cs, sound, unique⟩
  rename_i path copied
  obtain ⟨⟨parent, fs₁⟩, above, returned⟩ := bind_returns returned
  obtain ⟨looked, held⟩ := parentOfPath_looked ok geo sound above
  dsimp only at returned
  split at returned
  rotate_left
  · cases returned
    exact looked.inOrder unique
  rename_i named
  obtain ⟨⟨made, fs₂⟩, making, returned⟩ := bind_returns returned
  cases returned
  unfold vfsMkdirNode at making
  split at making
  rotate_left
  · cases making
    exact looked.inOrder unique
  rename_i d
  rw [← looked.disk] at unique
  apply fat32MkdirImpl_inOrder ok geo looked.sound unique (held d rfl) _ making
  intro dp found
  rw [looked.disk]
  exact free dp _ (.mkdir copied above found named)

include ok geo in
theorem sysUnlink_inOrder {space : UserSpace} {arg1 result : Nat} (inOrder : InOrder v clusters s.fs)
    (returned : sysUnlink dev v initrd space fuel s arg1 = .ok (result, s')) : InOrder v clusters s'.fs := by
  obtain ⟨kind, cs, sound, unique⟩ := inOrder
  unfold sysUnlink at returned
  split at returned
  · cases returned
    exact ⟨kind, cs, sound, unique⟩
  obtain ⟨⟨parent, fs₁⟩, above, returned⟩ := bind_returns returned
  obtain ⟨looked, held⟩ := parentOfPath_looked ok geo sound above
  dsimp only at returned
  split at returned
  rotate_left
  · cases returned
    exact looked.inOrder unique
  obtain ⟨⟨gone, fs₂⟩, removal, returned⟩ := bind_returns returned
  cases returned
  unfold vfsUnlink at removal
  split at removal
  rotate_left
  · cases removal
    exact looked.inOrder unique
  rename_i d
  rw [← looked.disk] at unique
  exact fat32UnlinkImpl_inOrder ok geo looked.sound unique (held d rfl) removal

end

def NewNameStep (dev : Device) (v : Volume) (initrd : Option (List TarNode)) (s : FileState) (call : FileCall)
    (s' : FileState) : Prop := NameIsNew dev v initrd s call ∧ FileStep dev v initrd s call s'

theorem newNameStep_inOrder (ok : Reliable dev) (geo : Geometry v clusters) {call : FileCall} (inOrder : InOrder v clusters s.fs)
    (step : NewNameStep dev v initrd s call s') : InOrder v clusters s'.fs := by
  obtain ⟨free, fuel, result, returned⟩ := step
  cases call with
  | «open» space task arg1 arg2 => exact sysOpen_inOrder ok geo inOrder free returned
  | mkdir space arg1 => exact sysMkdir_inOrder ok geo inOrder free returned
  | unlink space arg1 => exact sysUnlink_inOrder ok geo inOrder returned

/-- As long as every new name is a new one in its 8.3 form, no directory ever has a name twice. -/
theorem names_stay_unique (ok : Reliable dev) (geo : Geometry v clusters) {start : FileState} {calls : List FileCall}
    (mounted : Mounted v start.fs) (tree : Tree v clusters kind cs start.fs.disk) (unique : UniqueNames v start.fs.disk)
    (run : Run (NewNameStep dev v initrd) start calls s) : UniqueNames v s.fs.disk := by
  have initial : InOrder v clusters start.fs :=
    ⟨_, cs, mounted.sound (tree.found geo), unique.unique tree geo⟩
  obtain ⟨_, _, sound, unique⟩ := run.invariant (fun s => InOrder v clusters s.fs) initial
    fun _ _ _ inOrder step => newNameStep_inOrder ok geo inOrder step
  exact unique.names sound.tree geo

/-- A path in the memory of a task, at `0x1000`. -/
def textSpace (text : List UInt8) : UserSpace := ⟨fun _ => 1, fun a => text.getD (a - 0x1000) 0⟩

def freshFiles : FileState := ⟨freshVolume, fun _ _ => ⟨none, 0⟩⟩

/-- `/mnt/a`. -/
def lowerPath : List UInt8 := [47, 109, 110, 116, 47, 97]

/-- `/mnt/A`. -/
def upperPath : List UInt8 := [47, 109, 110, 116, 47, 65]

def openNew (path : List UInt8) : FileCall := .open (textSpace path) 1 0x1000 oCreat

theorem freshFiles_names : UniqueNames smallVolume freshFiles.fs.disk := by
  have unique : Unique smallVolume rootKind rootChain smallDisk := by
    intro _ _ x slot _ _ live
    exact absurd live.1 (smallDisk_unused slot)
  exact unique.names smallDisk_tree smallVolume_geometry

/-- A file is made on the fresh volume. -/
theorem names_stay_unique_open : ∃ s, Run (NewNameStep reliable smallVolume (some [])) freshFiles [openNew lowerPath] s ∧
    UniqueNames smallVolume s.fs.disk := by
  cases result : (openNew lowerPath).run reliable smallVolume (some []) 10 freshFiles with
  | error fault =>
    have returns : ((openNew lowerPath).run reliable smallVolume (some []) 10 freshFiles).isOk = true := by decide +kernel
    rw [result] at returns
    cases returns
  | ok answer =>
    have free : NameIsNew reliable smallVolume (some []) freshFiles (openNew lowerPath) := by
      intro dp name _ x slot live
      exact absurd live.1 (smallDisk_unused slot)
    have run : Run (NewNameStep reliable smallVolume (some [])) freshFiles [openNew lowerPath] answer.2 :=
      Run.nil.snoc ⟨free, 10, answer.1, result⟩
    exact ⟨_, run, names_stay_unique reliable_ok smallVolume_geometry freshVolume_mounted smallDisk_tree freshFiles_names run⟩

def bothOpens : Except Fault (Nat × FileState) := do
  let (_, s) ← (openNew lowerPath).run reliable smallVolume (some []) 10 freshFiles
  (openNew upperPath).run reliable smallVolume (some []) 10 s

def Doubled (m : Mem) : Prop :=
  1536 ∈ dirSlots smallVolume (chain smallVolume m 2) ∧ 1568 ∈ dirSlots smallVolume (chain smallVolume m 2) ∧
    LiveAt m 1536 ∧ LiveAt m 1568 ∧ rawName m 1536 = rawName m 1568

instance (m : Mem) : Decidable (Doubled m) := inferInstanceAs (Decidable (_ ∧ _))

/-- The second file gets the 8.3 name of the first. -/
theorem same_name_made : ¬ ∀ dev v clusters kind cs initrd start calls s, Reliable dev → Geometry v clusters →
    Mounted v start.fs → Tree v clusters kind cs start.fs.disk → UniqueNames v start.fs.disk →
    Run (FileStep dev v initrd) start calls s → UniqueNames v s.fs.disk := by
  intro claim
  have doubled : (bothOpens.toOption.map fun answer => decide (Doubled answer.2.fs.disk)) = some true := by decide +kernel
  cases result : bothOpens with
  | error fault =>
    rw [result] at doubled
    cases doubled
  | ok answer =>
    rw [result] at doubled
    obtain ⟨first, second, live, live', equal⟩ := of_decide_eq_true (Option.some.inj doubled)
    obtain ⟨⟨_, s⟩, lower, upper⟩ := bind_returns result
    have run : Run (FileStep reliable smallVolume (some [])) freshFiles [openNew lowerPath, openNew upperPath] answer.2 :=
      (Run.nil.snoc ⟨10, _, lower⟩).snoc ⟨10, answer.1, upper⟩
    have unique := claim _ _ _ _ _ _ _ _ _ reliable_ok smallVolume_geometry freshVolume_mounted smallDisk_tree
      freshFiles_names run
    exact absurd (unique 2 OnDisk.root _ first _ second live live' equal) (by decide)

end RexOs.Fs
