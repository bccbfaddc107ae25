import RexOs.Fs.Fat32Dir

/-! Paths and the directories of all file systems (`kernel/fs/vfs.c`, `kernel/fs/tarfs.c`).

The initial file system is a list of files and directories by their whole path, and does
not change. The FAT32 volume is mounted in its root. `none` is the null pointer.
-/

set_option autoImplicit false

namespace RexOs.Fs

def slash : UInt8 := 47

structure TarNode where
  name : List UInt8
  isDir : Bool
  deriving DecidableEq, Repr

inductive VfsNode where
  | root
  | tar (i : Nat)
  | fat (i : Nat)
  deriving DecidableEq, Repr

def mountName : List UInt8 := [109, 110, 116]

/-- `s_mounts` after `vfs_mount("/mnt", fat_root)`; the root of the volume is its node 0. -/
def mounts : List (List UInt8 × VfsNode) := [(mountName, .fat 0)]

section
variable (dev : Device) (v : Volume) (initrd : Option (List TarNode))

def fsRoot : Option VfsNode := initrd.map fun _ => .root

def tarfsFinddir (nodes : List TarNode) (name : List UInt8) : Option VfsNode :=
  (nodes.findIdx? fun node => node.name = name).map .tar

def tarfsDirFinddir (nodes : List TarNode) (dir : TarNode) (name : List UInt8) : Option VfsNode :=
  if dir.name.length + 1 + name.length ≥ 128 then none else tarfsFinddir nodes (dir.name ++ slash :: name)

def vfsFinddir (fuel : Nat) (fs : State) (node : Option VfsNode) (name : List UInt8) :
    Except Fault (Option VfsNode × State) :=
  match node with
  | none => .ok (none, fs)
  | some .root =>
      match mounts.find? fun mount => mount.1 = name with
      | some mount => .ok (some mount.2, fs)
      | none => .ok (tarfsFinddir (initrd.getD []) name, fs)
  | some (.tar i) =>
      match (initrd.getD [])[i]? with
      | none => .ok (none, fs)
      | some dir => .ok (if dir.isDir then tarfsDirFinddir (initrd.getD []) dir name else none, fs)
  | some (.fat i) => do
      let (child, fs) ← fat32Finddir dev v fuel fs i name
      .ok (child.map .fat, fs)

def vfsCreate (fuel : Nat) (fs : State) (dir : Option VfsNode) (name : List UInt8) :
    Except Fault (Option VfsNode × State) :=
  match dir with
  | some (.fat d) => do
      let (child, fs) ← fat32CreateImpl dev v fuel fs d name
      .ok (child.map .fat, fs)
  | _ => .ok (none, fs)

def vfsMkdirNode (fuel : Nat) (fs : State) (dir : Option VfsNode) (name : List UInt8) : Except Fault (Bool × State) :=
  match dir with
  | some (.fat d) => fat32MkdirImpl dev v fuel fs d name
  | _ => .ok (false, fs)

def vfsUnlink (fuel : Nat) (fs : State) (dir : Option VfsNode) (name : List UInt8) : Except Fault (Bool × State) :=
  match dir with
  | some (.fat d) => fat32UnlinkImpl dev v fuel fs d name
  | _ => .ok (false, fs)

def lookupLoop (fuel : Nat) : Nat → VfsNode → List UInt8 → State → Except Fault (Option VfsNode × State)
  | 0, current, _, fs => .ok (some current, fs)
  | rounds + 1, current, path, fs =>
      if path = [] then .ok (some current, fs)
      else
        let component := (path.takeWhile (· ≠ slash)).take 127
        let rest := (path.drop component.length).dropWhile (· = slash)
        if component = [] then lookupLoop fuel rounds current rest fs
        else do
          match ← vfsFinddir dev v initrd fuel fs (some current) component with
          | (none, fs) => .ok (none, fs)
          | (some next, fs) => lookupLoop fuel rounds next rest fs

def vfsLookup (fuel : Nat) (fs : State) (path : List UInt8) : Except Fault (Option VfsNode × State) :=
  match fsRoot initrd with
  | none => .ok (none, fs)
  | some top =>
      if path = [] ∨ path = [slash] then .ok (some top, fs)
      else do
        let path := if path.head? = some slash then path.drop 1 else path
        -- the initial file system has whole paths in its root
        match ← vfsFinddir dev v initrd fuel fs (some top) path with
        | (some flat, fs) => .ok (some flat, fs)
        | (none, fs) => lookupLoop dev v initrd fuel path.length top path fs

end

end RexOs.Fs
