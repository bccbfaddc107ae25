import RexOs.Fs.Fat32

/-! The FAT32 driver: names, directories and the creation and removal of files.

A C string is the list of its bytes without the terminating zero.
-/

set_option autoImplicit false

namespace RexOs.Fs

open RexOs.Library

def space : UInt8 := 32
def dot : UInt8 := 46

def toLower (c : UInt8) : UInt8 := if 65 ≤ c ∧ c ≤ 90 then c + 32 else c
def toUpper (c : UInt8) : UInt8 := if 97 ≤ c ∧ c ≤ 122 then c - 32 else c

def cString (bytes : List UInt8) : List UInt8 := bytes.takeWhile (· ≠ 0)

def name83ToString (raw : List UInt8) : List UInt8 :=
  let base := ((raw.take 8).takeWhile (· ≠ space)).map toLower
  let ext := (((raw.drop 8).take 3).takeWhile (· ≠ space)).map toLower
  if raw.getD 8 0 ≠ space then base ++ dot :: ext else base

/-- Exactly `n` bytes: cut, or filled up with spaces. -/
def padTo (n : Nat) (bytes : List UInt8) : List UInt8 := bytes.take n ++ List.replicate (n - bytes.length) space

def nameTo83 (name : List UInt8) : List UInt8 :=
  let base := name.takeWhile (· ≠ dot)
  let ext := (name.dropWhile (· ≠ dot)).drop 1
  padTo 8 (base.map toUpper) ++ padTo 3 (ext.map toUpper)

section
variable (dev : Device) (v : Volume)

def createFat32Node (fs : State) (name : List UInt8) (isDir : Bool) (cluster size : Nat) : Option Nat × State :=
  match heapAlloc dev fs with
  | (false, fs) => (none, fs)
  | (true, fs) =>
      match heapAlloc dev fs with
      | (false, fs) => (none, fs)
      | (true, fs) =>
          let n : Node :=
            { isDir := isDir, startCluster := cluster, size := size, direntSector := 0, direntOff := 0
              name := name.take 127, length := size, children := [], childrenCap := 0, childrenLoaded := false }
          (some fs.nodes.length, { fs with nodes := fs.nodes ++ [n] })

def State.setDirent (fs : State) (i sector off : Nat) : State :=
  fs.setNode i fun p => { p with direntSector := sector, direntOff := off }

/-- A new child; it is lost when the array is full and cannot be enlarged. -/
def dirAddChild (fs : State) (d child : Nat) : State :=
  match fs.nodes[d]? with
  | none => fs
  | some dp =>
      if dp.children.length = dp.childrenCap then
        match heapAlloc dev fs with
        | (false, fs) => fs
        | (true, fs) => fs.setNode d fun dp =>
            { dp with
              childrenCap := if dp.childrenCap ≠ 0 then dp.childrenCap * 2 else 8
              children := dp.children ++ [child] }
      else fs.setNode d fun dp => { dp with children := dp.children ++ [child] }

def attrVolumeId : Nat := 0x08
def attrDirectory : Nat := 0x10
def attrArchive : Nat := 0x20
def attrLfn : Nat := 0x0F

/-- The first free entry of a sector from entry `e` on. -/
def freeDirentLoop (buf : Mem) : Nat → Nat → Option Nat
  | 0, _ => none
  | rounds + 1, e =>
      let first := buf (e * 32)
      if first = 0x00 ∨ first = 0xE5 then some (e * 32) else freeDirentLoop buf rounds (e + 1)

def freeSectorLoop (baseLba : Nat) : Nat → Nat → State → Option (Nat × Nat) × State
  | 0, _, fs => (none, fs)
  | rounds + 1, s, fs =>
      match readBlocks dev fs (u32 (baseLba + s)) 1 with
      | (none, fs) => freeSectorLoop baseLba rounds (s + 1) fs
      | (some buf, fs) =>
          match freeDirentLoop buf (sectorSize / 32) 0 with
          | some off => (some (u32 (baseLba + s), off), fs)
          | none => freeSectorLoop baseLba rounds (s + 1) fs

def fat32FindFreeDirent : Nat → State → Nat → Except Fault (Option (Nat × Nat) × State)
  | 0, _, _ => .error .hang
  | fuel + 1, fs, cluster =>
      if 2 ≤ cluster ∧ cluster < clusterEndMark then
        match freeSectorLoop dev (clusterToLba v cluster) v.sectorsPerCluster 0 fs with
        | (some place, fs) => .ok (some place, fs)
        | (none, fs) =>
            let (next, fs) := fatNextCluster dev v fs cluster
            fat32FindFreeDirent fuel fs next
      else .ok (none, fs)

def storeBytes (m : Mem) (a : Nat) (bytes : List UInt8) : Mem := paste m a bytes.length fun i => bytes.getD i 0

/-- The 8.3 entry at `off`: zeros, then the name, the attributes and the cluster. -/
def putDirent (buf : Mem) (off : Nat) (name : List UInt8) (attr cluster : Nat) : Mem :=
  let buf := storeBytes (fill buf off 32 0) off name
  let buf := store buf (off + 11) 1 attr
  store (store buf (off + 20) 2 (cluster >>> 16)) (off + 26) 2 (cluster &&& 0xFFFF)

def undoAlloc (fs : State) (clust : Nat) : State := if clust ≠ 0 then fatSetEntry dev v fs clust 0 else fs

def fat32CreateImpl (fuel : Nat) (fs : State) (d : Nat) (name : List UInt8) : Except Fault (Option Nat × State) :=
  match fs.nodes[d]? with
  | none => .ok (none, fs)
  | some dp =>
      if dp.isDir then do
        let (clust, fs) := fatAllocCluster dev v fs
        match ← fat32FindFreeDirent dev v fuel fs dp.startCluster with
        | (none, fs) => .ok (none, undoAlloc dev v fs clust)
        | (some (ds, doff), fs) =>
            match readBlocks dev fs ds 1 with
            | (none, fs) => .ok (none, undoAlloc dev v fs clust)
            | (some buf, fs) =>
                let (_, fs) := writeBlocks dev fs ds 1 (putDirent buf doff (nameTo83 name) attrArchive clust)
                match createFat32Node dev fs name false clust 0 with
                | (none, fs) => .ok (none, undoAlloc dev v fs clust)
                | (some child, fs) => .ok (some child, dirAddChild dev (fs.setDirent child ds doff) d child)
      else .ok (none, fs)

end

/-! They are read from the disk when they are first needed. `fat32_readdir` and
`fat32_finddir` search them, `fat32_mkdir_impl` adds to them and `fat32_unlink_impl`
removes from them.
-/

def lfnExtract (cbuf : Mem) (e : Nat) : List UInt8 :=
  [1, 3, 5, 7, 9, 14, 16, 18, 20, 22, 24, 28, 30].map fun p =>
    let c := load cbuf (e + p) 2
    if c < 256 then UInt8.ofNat c else 63

/-- The locals of `fat32_dir_load_children` that outlive an entry. -/
structure Loading where
  kids : List Nat
  kidsCap : Nat
  lfnBuf : List UInt8
  lfnHave : Bool

/-- `lfn_buf` has 260 bytes. -/
def noName : List UInt8 := List.replicate 260 0

def loadLfn (cbuf : Mem) (e : Nat) (ld : Loading) : Except Fault Loading :=
  let order := (cbuf e).toNat
  let ord := order &&& 0x1F
  let ld := if order &&& 0x40 ≠ 0 then { ld with lfnBuf := noName, lfnHave := true } else ld
  let target := (ord - 1) * 13
  -- the order is not checked: 0 writes before the buffer, and more than 20 behind it
  if ord = 0 ∨ target + 13 > 260 then .error .overflow
  else .ok { ld with lfnBuf := ld.lfnBuf.take target ++ lfnExtract cbuf e ++ ld.lfnBuf.drop (target + 13) }

def entryName (cbuf : Mem) (e : Nat) (ld : Loading) : Except Fault (List UInt8) :=
  if ld.lfnHave then
    let name := cString (ld.lfnBuf.take 256)
    if name.length = 256 then .error .overflow else .ok name
  else .ok (cString (name83ToString ((List.range 11).map fun i => cbuf (e + i))))

section
variable (dev : Device) (v : Volume)

/-- A new child in the temporary array; the search ends when it cannot be enlarged. -/
def addKid (ld : Loading) (child : Nat) (fs : State) : Bool × Loading × State :=
  if ld.kids.length = ld.kidsCap then
    match heapAlloc dev fs with
    | (false, fs) => (false, ld, fs)
    | (true, fs) =>
        let cap := if ld.kidsCap ≠ 0 then ld.kidsCap * 2 else 8
        (true, { ld with kids := ld.kids ++ [child], kidsCap := cap }, fs)
  else (true, { ld with kids := ld.kids ++ [child] }, fs)

/-- One entry of the cluster in `cbuf`, and whether there are more. -/
def loadEntry (baseLba : Nat) (cbuf : Mem) (i : Nat) (ld : Loading) (fs : State) :
    Except Fault (Bool × Loading × State) :=
  let e := i * 32
  if cbuf e = 0x00 then .ok (false, ld, fs)
  else if cbuf e = 0xE5 then .ok (true, { ld with lfnHave := false }, fs)
  else
    let attr := (cbuf (e + 11)).toNat
    if attr &&& attrLfn = attrLfn then do
      let ld ← loadLfn cbuf e ld
      .ok (true, ld, fs)
    else if attr &&& attrVolumeId ≠ 0 then .ok (true, { ld with lfnHave := false }, fs)
    else do
      let name ← entryName cbuf e ld
      let ld := { ld with lfnHave := false }
      if name = [dot] ∨ name = [dot, dot] ∨ name = [] then .ok (true, ld, fs)
      else
        let firstCluster := load cbuf (e + 20) 2 <<< 16 ||| load cbuf (e + 26) 2
        let isDir := decide (attr &&& attrDirectory ≠ 0)
        let size := if isDir then 0 else load cbuf (e + 28) 4
        match createFat32Node dev fs name isDir firstCluster size with
        | (none, fs) => .ok (true, ld, fs)
        | (some child, fs) =>
            .ok (addKid dev ld child (fs.setDirent child (u32 (baseLba + e / sectorSize)) (e % sectorSize)))

def entryLoop (baseLba : Nat) (cbuf : Mem) :
    Nat → Nat → Loading → State → Except Fault (Bool × Loading × State)
  | 0, _, ld, fs => .ok (true, ld, fs)
  | rounds + 1, i, ld, fs => do
      match ← loadEntry dev baseLba cbuf i ld fs with
      | (false, ld, fs) => .ok (false, ld, fs)
      | (true, ld, fs) => entryLoop baseLba cbuf rounds (i + 1) ld fs

def clusterLoop : Nat → Nat → Loading → State → Except Fault (Loading × State)
  | 0, _, _, _ => .error .hang
  | fuel + 1, cluster, ld, fs =>
      if cluster < clusterEndMark ∧ 2 ≤ cluster then
        match readCluster dev v fs cluster with
        | (none, fs) => .ok (ld, fs)
        | (some cbuf, fs) => do
            match ← entryLoop dev (clusterToLba v cluster) cbuf (v.bytesPerCluster / 32) 0 ld fs with
            | (false, ld, fs) => .ok (ld, fs)
            | (true, ld, fs) =>
                let (next, fs) := fatNextCluster dev v fs cluster
                clusterLoop fuel next ld fs
      else .ok (ld, fs)

def fat32DirLoadChildren (fuel : Nat) (fs : State) (d : Nat) : Except Fault State :=
  match fs.nodes[d]? with
  | none => .ok fs
  | some dp =>
      if dp.childrenLoaded then .ok fs
      else
        let fs := fs.setNode d fun dp => { dp with childrenLoaded := true }
        if dp.startCluster < 2 ∨ dp.startCluster ≥ clusterEndMark then .ok fs
        else do
          let (ld, fs) ← clusterLoop dev v fuel dp.startCluster ⟨[], 0, noName, false⟩ fs
          .ok (fs.setNode d fun dp => { dp with children := ld.kids, childrenCap := ld.kidsCap })

def State.nameOf (fs : State) (i : Nat) : Option (List UInt8) := (fs.nodes[i]?).map Node.name

def State.childrenOf (fs : State) (d : Nat) : List Nat :=
  match fs.nodes[d]? with
  | none => []
  | some dp => dp.children

def fat32Readdir (fuel : Nat) (fs : State) (d index : Nat) : Except Fault (Option (List UInt8) × State) :=
  match fs.nodes[d]? with
  | none => .ok (none, fs)
  | some dp =>
      if dp.isDir then do
        let fs ← fat32DirLoadChildren dev v fuel fs d
        .ok ((fs.childrenOf d)[index]?.bind fs.nameOf, fs)
      else .ok (none, fs)

def fat32Finddir (fuel : Nat) (fs : State) (d : Nat) (name : List UInt8) : Except Fault (Option Nat × State) :=
  match fs.nodes[d]? with
  | none => .ok (none, fs)
  | some dp =>
      if dp.isDir then do
        let fs ← fat32DirLoadChildren dev v fuel fs d
        .ok ((fs.childrenOf d).find? fun i => fs.nameOf i = some name, fs)
      else .ok (none, fs)

/-- The first two entries of a new directory; the rest of its cluster is zero. -/
def dotEntries (clust parent : Nat) : Mem :=
  putDirent (putDirent (fun _ => 0) 0 (padTo 11 [dot]) attrDirectory clust) 32 (padTo 11 [dot, dot]) attrDirectory parent

def fat32MkdirImpl (fuel : Nat) (fs : State) (d : Nat) (name : List UInt8) : Except Fault (Bool × State) :=
  match fs.nodes[d]? with
  | none => .ok (false, fs)
  | some dp =>
      if dp.isDir then
        let (clust, fs) := fatAllocCluster dev v fs
        if clust = 0 then .ok (false, fs)
        else
          match heapAlloc dev fs with
          | (false, fs) => .ok (false, fatSetEntry dev v fs clust 0)
          | (true, fs) => do
              let (_, fs) := fatWriteCluster dev v fs clust (dotEntries clust dp.startCluster)
              match ← fat32FindFreeDirent dev v fuel fs dp.startCluster with
              | (none, fs) => .ok (false, fatSetEntry dev v fs clust 0)
              | (some (ds, doff), fs) =>
                  match readBlocks dev fs ds 1 with
                  | (none, fs) => .ok (false, fatSetEntry dev v fs clust 0)
                  | (some buf, fs) =>
                      let (_, fs) := writeBlocks dev fs ds 1 (putDirent buf doff (nameTo83 name) attrDirectory clust)
                      match createFat32Node dev fs name true clust 0 with
                      | (none, fs) => .ok (true, fs)
                      | (some child, fs) => .ok (true, dirAddChild dev (fs.setDirent child ds doff) d child)
      else .ok (false, fs)

def eraseDirent (fs : State) (fp : Node) : State :=
  if fp.direntSector ≠ 0 then
    match readBlocks dev fs fp.direntSector 1 with
    | (none, fs) => fs
    | (some buf, fs) => (writeBlocks dev fs fp.direntSector 1 (fill buf fp.direntOff 1 0xE5)).2
  else fs

def fat32UnlinkImpl (fuel : Nat) (fs : State) (d : Nat) (name : List UInt8) : Except Fault (Bool × State) :=
  match fs.nodes[d]? with
  | none => .ok (false, fs)
  | some dp =>
      if dp.isDir then do
        let fs ← fat32DirLoadChildren dev v fuel fs d
        match (fs.childrenOf d).findIdx? fun i => fs.nameOf i = some name with
        | none => .ok (false, fs)
        | some idx =>
            match (fs.childrenOf d)[idx]?.bind fun i => fs.nodes[i]? with
            | none => .ok (false, fs)
            | some fp => do
                let fs := eraseDirent dev fs fp
                let fs ← if fp.startCluster ≥ 2 then fatFreeChain dev v fuel fs fp.startCluster else .ok fs
                .ok (true, fs.setNode d fun dp => { dp with children := dp.children.eraseIdx idx })
      else .ok (false, fs)

end

section
variable {dev : Device} {v : Volume} {fs : State} {fuel d : Nat}

theorem fat32CreateImpl_other (other : ∀ dp, fs.nodes[d]? = some dp → dp.isDir = false) (name : List UInt8) :
    fat32CreateImpl dev v fuel fs d name = .ok (none, fs) := by
  rw [fat32CreateImpl]
  cases found : fs.nodes[d]? with
  | none => rfl
  | some dp => exact if_neg (Bool.not_eq_true _ ▸ other dp found)

theorem fat32MkdirImpl_other (other : ∀ dp, fs.nodes[d]? = some dp → dp.isDir = false) (name : List UInt8) :
    fat32MkdirImpl dev v fuel fs d name = .ok (false, fs) := by
  rw [fat32MkdirImpl]
  cases found : fs.nodes[d]? with
  | none => rfl
  | some dp => exact if_neg (Bool.not_eq_true _ ▸ other dp found)

theorem fat32UnlinkImpl_other (other : ∀ dp, fs.nodes[d]? = some dp → dp.isDir = false) (name : List UInt8) :
    fat32UnlinkImpl dev v fuel fs d name = .ok (false, fs) := by
  rw [fat32UnlinkImpl]
  cases found : fs.nodes[d]? with
  | none => rfl
  | some dp => exact if_neg (Bool.not_eq_true _ ▸ other dp found)

end

end RexOs.Fs
