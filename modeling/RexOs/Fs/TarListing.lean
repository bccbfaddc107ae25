import RexOs.Library.Listing
import RexOs.Fs.PathLookup

/-! Listing directories (`tarfs_readdir` and `tarfs_dir_readdir` in `kernel/fs/tarfs.c`, `vfs_readdir` in
`kernel/fs/vfs.c`).

The nodes of the archive are one flat list. A directory lists the nodes whose name is its own, a
slash and one more component. The root lists all nodes, and then the mounts.
-/

set_option autoImplicit false

namespace RexOs.Fs

open RexOs.Library

structure Dirent where
  name : List UInt8
  ino : Nat
  deriving DecidableEq, Repr

/-- A `vfs_mount_t` as it is listed; its name has 64 bytes with the terminating NUL. -/
structure VfsMount where
  name : List UInt8
  used : Bool
  short : name.length < 64

def vfsMaxMounts : Nat := 4

structure MountTable where
  slots : List VfsMount
  size : slots.length = vfsMaxMounts

def tarfsReaddir (nodes : List TarfsNode) (index : UInt32) : Option Dirent :=
  (nodes[index.toNat]?).map fun node => ⟨node.name.take 127, node.inode⟩

/-- The loop of `tarfs_dir_readdir`; `seen` children were passed over. -/
def dirReaddirLoop (dir : TarfsNode) (index : UInt32) : List TarfsNode → UInt32 → Option Dirent
  | [], _ => none
  | node :: nodes, seen =>
      -- `kstrncmp(nm, dir->name, dl) != 0 || nm[dl] != '/'`
      if ¬ dir.name <+: node.name ∨ node.name[dir.name.length]? ≠ some slash then dirReaddirLoop dir index nodes seen
      else
        let rest := node.name.drop (dir.name.length + 1)
        if slash ∈ rest then dirReaddirLoop dir index nodes seen
        else if seen = index then some ⟨rest.take 127, node.inode⟩
        else dirReaddirLoop dir index nodes (seen + 1)

def tarfsDirReaddir (nodes : List TarfsNode) (dir : TarfsNode) (index : UInt32) : Option Dirent :=
  dirReaddirLoop dir index nodes 0

/-- `while (node->readdir(node, bc) != NULL) bc++`; `none` is a loop that is still running. -/
def countEntries (readdir : UInt32 → Option Dirent) : Nat → UInt32 → Option UInt32
  | 0, _ => none
  | fuel + 1, bc => if (readdir bc).isSome then countEntries readdir fuel (bc + 1) else some bc

/-- The loop over the mounts, from slot `i` on. -/
def mountReaddir (mi : UInt32) : Nat → List VfsMount → UInt32 → Option Dirent
  | _, [], _ => none
  | i, mount :: rest, seen =>
      if mount.used then
        if seen = mi then some ⟨mount.name.take 127, 1000 + i⟩ else mountReaddir mi (i + 1) rest (seen + 1)
      else mountReaddir mi (i + 1) rest seen

/-- `s_root_base_count` before the first call. -/
def uncounted : UInt32 := 0xFFFFFFFF

def rootBaseCount (readdir : UInt32 → Option Dirent) (fuel : Nat) (count : UInt32) : Option UInt32 :=
  if count = uncounted then countEntries readdir fuel 0 else some count

def vfsReaddirRoot (readdir : UInt32 → Option Dirent) (fuel : Nat) (table : MountTable) (count index : UInt32) :
    Option (Option Dirent × UInt32) := do
  let count ← rootBaseCount readdir fuel count
  if index < count then some (readdir index, count) else some (mountReaddir (index - count) 0 table.slots 0, count)

def readdirCalls (readdir : UInt32 → Option Dirent) (fuel : Nat) :
    UInt32 → List (MountTable × UInt32) → Option (List (Option Dirent))
  | _, [] => some []
  | count, (table, index) :: calls => do
      let (entry, count) ← vfsReaddirRoot readdir fuel table count index
      let entries ← readdirCalls readdir fuel count calls
      some (entry :: entries)

structure Child where
  place : Nat
  node : TarfsNode
  name : List UInt8

def Child.dirent (c : Child) : Dirent := ⟨c.name, c.node.inode⟩

structure IsChild (nodes : List TarfsNode) (dir : TarfsNode) (c : Child) : Prop where
  here : nodes[c.place]? = some c.node
  path : c.node.name = dir.name ++ slash :: c.name
  single : slash ∉ c.name

/-- The listing of a directory: each child once, and nothing behind the last one. Its names are those that are found. -/
structure Lists (nodes : List TarfsNode) (dir : TarfsNode) (children : List Child) : Prop where
  once : children.Nodup
  exact : ∀ c, c ∈ children ↔ IsChild nodes dir c
  listed : ∀ index : UInt32, tarfsDirReaddir nodes dir index = (children[index.toNat]?).map Child.dirent
  found : ∀ name, slash ∉ name → ∀ node, tarfsDirFinddir (nodes.map TarfsNode.entry) dir.entry name = some node ↔
    ∃ c ∈ children, c.name = name ∧ node = .tar c.place

def mountEntries (table : MountTable) : List Dirent :=
  passing (fun i mount => if mount.used then some ⟨mount.name, 1000 + i⟩ else none) 0 table.slots

def rootEntries (nodes : List TarfsNode) (table : MountTable) : List Dirent :=
  nodes.map (fun node => ⟨node.name, node.inode⟩) ++ mountEntries table

section
variable {nodes : List TarfsNode} {dir : TarfsNode} {name rest : List UInt8}

def childName (dir : TarfsNode) (name : List UInt8) : Option (List UInt8) :=
  if ¬ dir.name <+: name ∨ name[dir.name.length]? ≠ some slash then none
  else if slash ∈ name.drop (dir.name.length + 1) then none
  else some (name.drop (dir.name.length + 1))

theorem childName_iff : childName dir name = some rest ↔ name = dir.name ++ slash :: rest ∧ slash ∉ rest := by
  constructor
  · intro found
    rw [childName] at found
    by_cases other : ¬ dir.name <+: name ∨ name[dir.name.length]? ≠ some slash
    · rw [if_pos other] at found
      cases found
    rw [if_neg other] at found
    obtain ⟨begins, there⟩ := not_or.mp other
    obtain ⟨tail, rfl⟩ := not_not.mp begins
    rw [not_not, List.getElem?_append_right (Nat.le_refl _), Nat.sub_self] at there
    cases tail with
    | nil => cases there
    | cons c tail =>
      have slashed : c = slash := Option.some.inj there
      rw [slashed] at found ⊢
      have behind : (dir.name ++ slash :: tail).drop (dir.name.length + 1) = tail := by
        rw [← List.drop_drop, List.drop_left]
        rfl
      rw [behind] at found
      by_cases nested : slash ∈ tail
      · rw [if_pos nested] at found
        cases found
      · rw [if_neg nested] at found
        cases found
        exact ⟨rfl, nested⟩
  · rintro ⟨rfl, single⟩
    have behind : (dir.name ++ slash :: rest).drop (dir.name.length + 1) = rest := by
      rw [← List.drop_drop, List.drop_left]
      rfl
    have there : (dir.name ++ slash :: rest)[dir.name.length]? = some slash := by
      rw [List.getElem?_append_right (Nat.le_refl _), Nat.sub_self]
      rfl
    -- both tests of the loop pass
    have passes : ¬ (¬ dir.name <+: dir.name ++ slash :: rest ∨ (dir.name ++ slash :: rest)[dir.name.length]? ≠ some slash) := by
      rintro (wrong | wrong)
      · exact wrong (List.prefix_append _ _)
      · exact wrong there
    rw [childName, if_neg passes, behind, if_neg single]

def childAt (dir : TarfsNode) (i : Nat) (node : TarfsNode) : Option Child :=
  (childName dir node.name).map fun rest => ⟨i, node, rest⟩

def children (nodes : List TarfsNode) (dir : TarfsNode) : List Child := passing (childAt dir) 0 nodes

theorem childAt_iff {i : Nat} {node : TarfsNode} {c : Child} : childAt dir i node = some c ↔
    c.place = i ∧ c.node = node ∧ c.node.name = dir.name ++ slash :: c.name ∧ slash ∉ c.name := by
  rw [childAt, Option.map_eq_some_iff]
  constructor
  · rintro ⟨rest, found, rfl⟩
    exact ⟨rfl, rfl, childName_iff.mp found⟩
  · rintro ⟨rfl, rfl, path⟩
    exact ⟨c.name, childName_iff.mpr path, rfl⟩

theorem mem_children {c : Child} : c ∈ children nodes dir ↔ IsChild nodes dir c := by
  rw [children, mem_passing]
  constructor
  · rintro ⟨j, node, found, gives⟩
    obtain ⟨place, same, path, single⟩ := childAt_iff.mp gives
    rw [Nat.zero_add] at place
    refine ⟨?_, path, single⟩
    rw [place, found, same]
  · rintro ⟨here, path, single⟩
    exact ⟨c.place, c.node, here, childAt_iff.mpr ⟨(Nat.zero_add _).symm, rfl, path, single⟩⟩

theorem children_nodup (nodes : List TarfsNode) (dir : TarfsNode) : (children nodes dir).Nodup := by
  refine passing_nodup Child.place ?_ nodes 0
  intro i node c gives
  exact (childAt_iff.mp gives).1

theorem dirReaddirLoop_eq (index : UInt32) (nodes : List TarfsNode) : ∀ (i : Nat) (seen : UInt32),
    (∀ node ∈ nodes, node.name.length ≤ 127) →
    dirReaddirLoop dir index nodes seen = (nthPassing (childAt dir) index i nodes seen).map Child.dirent := by
  induction nodes with
  | nil =>
    intro i seen _
    rfl
  | cons node nodes ih =>
    intro i seen short
    have later : ∀ node ∈ nodes, node.name.length ≤ 127 := fun node member => short node (List.mem_cons_of_mem _ member)
    have whole : (node.name.drop (dir.name.length + 1)).take 127 = node.name.drop (dir.name.length + 1) := by
      refine List.take_of_length_le ?_
      have bound := short node List.mem_cons_self
      rw [List.length_drop]
      omega
    rw [dirReaddirLoop, nthPassing, childAt, childName]
    by_cases other : ¬ dir.name <+: node.name ∨ node.name[dir.name.length]? ≠ some slash
    · rw [if_pos other, if_pos other]
      exact ih (i + 1) seen later
    rw [if_neg other, if_neg other]
    simp only
    by_cases nested : slash ∈ node.name.drop (dir.name.length + 1)
    · rw [if_pos nested, if_pos nested]
      exact ih (i + 1) seen later
    rw [if_neg nested, if_neg nested]
    simp only [Option.map_some]
    by_cases here : seen = index
    · rw [if_pos here, if_pos here, whole]
      rfl
    · rw [if_neg here, if_neg here]
      exact ih (i + 1) (seen + 1) later

theorem tarfsFinddir_iff (distinct : (nodes.map TarfsNode.name).Nodup) {found : VfsNode} :
    tarfsFinddir (nodes.map TarfsNode.entry) name = some found ↔
      ∃ i node, nodes[i]? = some node ∧ node.name = name ∧ found = .tar i := by
  rw [tarfsFinddir, Option.map_eq_some_iff]
  constructor
  · rintro ⟨i, search, rfl⟩
    obtain ⟨inside, same, _⟩ := List.findIdx?_eq_some_iff_getElem.mp search
    rw [List.length_map] at inside
    rw [List.getElem_map] at same
    exact ⟨i, nodes[i], List.getElem?_eq_getElem inside, of_decide_eq_true same, rfl⟩
  · rintro ⟨i, node, here, named, rfl⟩
    obtain ⟨inside, there⟩ := List.getElem?_eq_some_iff.mp here
    refine ⟨i, List.findIdx?_eq_some_iff_getElem.mpr ⟨by rwa [List.length_map], ?_, ?_⟩, rfl⟩
    · rw [List.getElem_map, there]
      exact decide_eq_true named
    · -- an earlier node with the name would be a second one
      intro j before same
      rw [List.getElem_map] at same
      have later : i < (nodes.map TarfsNode.name).length := by rwa [List.length_map]
      have earlier : j < (nodes.map TarfsNode.name).length := Nat.lt_trans before later
      have twice : (nodes.map TarfsNode.name)[j] = (nodes.map TarfsNode.name)[i] := by
        rw [List.getElem_map, List.getElem_map, there, named]
        exact of_decide_eq_true same
      exact absurd (distinct.getElem_inj_iff.mp twice) (by omega)

theorem children_listed (short : ∀ node ∈ nodes, node.name.length ≤ 127) (few : nodes.length ≤ tarfsMaxNodes)
    (distinct : (nodes.map TarfsNode.name).Nodup) (dir : TarfsNode) : Lists nodes dir (children nodes dir) := by
  rw [tarfsMaxNodes] at few
  refine ⟨children_nodup nodes dir, fun c => mem_children, ?_, ?_⟩
  · intro index
    have start : (0 : UInt32).toNat + nodes.length < 2 ^ 32 := by
      simp only [UInt32.reduceToNat]
      omega
    rw [tarfsDirReaddir, dirReaddirLoop_eq index nodes 0 0 short, nthPassing_eq index nodes 0 0 UInt32.zero_le start]
    rfl
  · intro name single found
    rw [tarfsDirFinddir]
    constructor
    · intro search
      split at search
      · cases search
      obtain ⟨i, node, here, named, rfl⟩ := (tarfsFinddir_iff distinct).mp search
      exact ⟨⟨i, node, name⟩, mem_children.mpr ⟨here, named, single⟩, rfl, rfl⟩
    · rintro ⟨c, member, rfl, rfl⟩
      obtain ⟨here, path, _⟩ := mem_children.mp member
      -- the path of a node fits into the buffer of `tarfs_dir_finddir`
      have bound := short c.node (List.mem_of_getElem? here)
      rw [path, List.length_append, List.length_cons] at bound
      have fits : ¬ dir.entry.name.length + 1 + c.name.length ≥ 128 := by
        have same : dir.entry.name = dir.name := rfl
        rw [same]
        omega
      rw [if_neg fits]
      exact (tarfsFinddir_iff distinct).mpr ⟨c.place, c.node, here, path, rfl⟩

end

/-- The table is not overfull, and its names fit into 128 bytes with their NUL. -/
structure Bounded (s : Tarfs) : Prop where
  few : s.nodes.length ≤ tarfsMaxNodes
  short : ∀ node ∈ s.nodes, node.name.length ≤ 127

section
variable {granted : Nat → Bool} {m : Mem} {s : Tarfs}

theorem Bounded.push (bounded : Bounded s) (room : s.nodes.length < tarfsMaxNodes) {node : TarfsNode}
    (short : node.name.length ≤ 127) (allocs : Nat) : Bounded ⟨s.nodes ++ [node], allocs⟩ := by
  refine ⟨?_, ?_⟩
  · rw [List.length_append]
    exact room
  · intro other member
    rcases List.mem_append.mp member with before | new
    · exact bounded.short other before
    · rw [List.mem_singleton.mp new]
      exact short

theorem tarfsEnsureDir_bounded (bounded : Bounded s) (path : List UInt8) : Bounded (tarfsEnsureDir granted s path) := by
  unfold tarfsEnsureDir
  split
  · exact bounded
  split
  · exact bounded
  split
  · exact bounded
  rename_i room
  split
  · exact ⟨bounded.few, bounded.short⟩
  · refine bounded.push (Nat.lt_of_not_le room) ?_ _
    rw [List.length_take]
    exact Nat.min_le_left _ _

theorem tarfsEntry_bounded (bounded : Bounded s) (header : Nat) : Bounded (tarfsEntry granted m s header).2 := by
  unfold tarfsEntry
  split
  · simp only
    split
    · exact tarfsEnsureDir_bounded bounded _
    · exact bounded
  split
  · split
    · exact ⟨bounded.few, bounded.short⟩
    have parents : Bounded (tarfsEnsureParents granted { s with allocs := s.allocs + 1 }
        (cString (fieldBytes m (nameAt m header) 127))) :=
      tarfsEnsureParents_induct Bounded _ (fun _ _ _ _ before => tarfsEnsureDir_bounded before _)
        ⟨bounded.few, bounded.short⟩
    simp only
    split
    · rename_i room
      refine parents.push room ?_ _
      have part := (List.takeWhile_prefix (l := fieldBytes m (nameAt m header) 127) (· ≠ 0)).length_le
      rw [fieldBytes_length] at part
      exact part
    · exact parents
  · exact bounded

theorem tarfsInit_bounded {fuel address size : Nat} (built : tarfsInit granted m fuel address size = some (some s)) :
    Bounded s := by
  rw [tarfsInit] at built
  split at built
  · cases built
  · obtain ⟨last, ended, same⟩ := Option.map_eq_some_iff.mp built
    cases same
    exact tarfsLoop_induct Bounded (fun _ _ _ bounded => tarfsEntry_bounded bounded _) ended
      ⟨Nat.zero_le _, fun node member => by cases member⟩

end

section
variable {nodes : List TarfsNode} {fuel : Nat}

theorem tarfsReaddir_eq (short : ∀ node ∈ nodes, node.name.length ≤ 127) (index : UInt32) :
    tarfsReaddir nodes index = (nodes.map fun node => (⟨node.name, node.inode⟩ : Dirent))[index.toNat]? := by
  rw [tarfsReaddir, List.getElem?_map]
  cases here : nodes[index.toNat]? with
  | none => rfl
  | some node =>
    rw [Option.map_some, Option.map_some, List.take_of_length_le (short node (List.mem_of_getElem? here))]

theorem countEntries_eq (few : nodes.length ≤ tarfsMaxNodes) : ∀ (fuel : Nat) (bc : UInt32), bc.toNat ≤ nodes.length →
    nodes.length < bc.toNat + fuel → countEntries (tarfsReaddir nodes) fuel bc = some (UInt32.ofNat nodes.length) := by
  rw [tarfsMaxNodes] at few
  intro fuel
  induction fuel with
  | zero =>
    intro bc low enough
    omega
  | succ fuel ih =>
    intro bc low enough
    rw [countEntries, tarfsReaddir, Option.isSome_map]
    by_cases last : bc.toNat = nodes.length
    · rw [last, List.getElem?_eq_none (Nat.le_refl _), ← last, UInt32.ofNat_toNat]
      rfl
    · have next : (bc + 1).toNat = bc.toNat + 1 := by
        rw [UInt32.toNat_add]
        exact Nat.mod_eq_of_lt (by simp only [UInt32.reduceToNat]; omega)
      rw [List.getElem?_eq_getElem (show bc.toNat < nodes.length by omega), Option.isSome_some, if_pos rfl]
      exact ih (bc + 1) (by omega) (by omega)

def mountAt (i : Nat) (mount : VfsMount) : Option Dirent := if mount.used then some ⟨mount.name, 1000 + i⟩ else none

theorem mountReaddir_eq (mi : UInt32) (slots : List VfsMount) : ∀ (i : Nat) (seen : UInt32),
    mountReaddir mi i slots seen = nthPassing mountAt mi i slots seen := by
  induction slots with
  | nil =>
    intro i seen
    rfl
  | cons mount slots ih =>
    intro i seen
    have whole : mount.name.take 127 = mount.name := by
      have short := mount.short
      exact List.take_of_length_le (by omega)
    rw [mountReaddir, nthPassing, mountAt]
    by_cases used : mount.used
    · rw [if_pos used, if_pos used, whole, ih (i + 1) (seen + 1)]
    · rw [if_neg used, if_neg used, ih (i + 1) seen]

theorem vfsReaddirRoot_eq (short : ∀ node ∈ nodes, node.name.length ≤ 127) (few : nodes.length ≤ tarfsMaxNodes)
    (enough : nodes.length < fuel) (table : MountTable) {count : UInt32}
    (counted : count = uncounted ∨ count = UInt32.ofNat nodes.length) (index : UInt32) :
    vfsReaddirRoot (tarfsReaddir nodes) fuel table count index =
      some ((rootEntries nodes table)[index.toNat]?, UInt32.ofNat nodes.length) := by
  have total : rootBaseCount (tarfsReaddir nodes) fuel count = some (UInt32.ofNat nodes.length) := by
    rw [rootBaseCount]
    by_cases first : count = uncounted
    · rw [if_pos first]
      exact countEntries_eq few fuel 0 (Nat.zero_le _) (by rw [UInt32.toNat_zero]; omega)
    · rw [if_neg first, counted.resolve_left first]
  rw [tarfsMaxNodes] at few
  have size : (UInt32.ofNat nodes.length).toNat = nodes.length :=
    UInt32.toNat_ofNat_of_lt' (by simp only [UInt32.size]; omega)
  rw [vfsReaddirRoot, total, Option.bind_eq_bind, Option.bind_some, rootEntries]
  by_cases inside : index < UInt32.ofNat nodes.length
  · rw [if_pos inside, tarfsReaddir_eq short]
    rw [UInt32.lt_iff_toNat_lt, size] at inside
    rw [List.getElem?_append_left (by rw [List.length_map]; exact inside)]
  · -- behind the nodes the index counts the mounts in use
    rw [if_neg inside, mountReaddir_eq]
    have behind : UInt32.ofNat nodes.length ≤ index := UInt32.not_lt.mp inside
    have place : (index - UInt32.ofNat nodes.length).toNat = index.toNat - nodes.length := by
      rw [UInt32.toNat_sub_of_le _ _ behind, size]
    have slots : (0 : UInt32).toNat + table.slots.length < 2 ^ 32 := by
      rw [table.size]
      decide
    rw [UInt32.le_iff_toNat_le, size] at behind
    rw [nthPassing_eq _ _ 0 0 UInt32.zero_le slots, place, UInt32.toNat_zero, Nat.sub_zero,
      List.getElem?_append_right (by rw [List.length_map]; exact behind), List.length_map]
    rfl

theorem readdirCalls_eq (short : ∀ node ∈ nodes, node.name.length ≤ 127) (few : nodes.length ≤ tarfsMaxNodes)
    (enough : nodes.length < fuel) (calls : List (MountTable × UInt32)) : ∀ count : UInt32,
    count = uncounted ∨ count = UInt32.ofNat nodes.length →
    readdirCalls (tarfsReaddir nodes) fuel count calls =
      some (calls.map fun call => (rootEntries nodes call.1)[call.2.toNat]?) := by
  induction calls with
  | nil =>
    intro count _
    rfl
  | cons call calls ih =>
    intro count counted
    have rest := ih (UInt32.ofNat nodes.length) (Or.inr rfl)
    obtain ⟨table, index⟩ := call
    rw [readdirCalls, vfsReaddirRoot_eq short few enough table counted index]
    simp only [Option.bind_eq_bind, Option.bind_some, rest]
    rfl

theorem mountEntries_exact (table : MountTable) : (mountEntries table).Nodup ∧ ∀ entry, entry ∈ mountEntries table ↔
    ∃ (i : Nat) (mount : VfsMount), table.slots[i]? = some mount ∧ mount.used = true ∧ entry = ⟨mount.name, 1000 + i⟩ := by
  constructor
  · refine passing_nodup (fun entry => entry.ino - 1000) ?_ table.slots 0
    intro i mount entry gives
    split at gives
    · cases gives
      exact Nat.add_sub_cancel_left 1000 i
    · cases gives
  · intro entry
    rw [mountEntries, mem_passing]
    constructor
    · rintro ⟨i, mount, here, gives⟩
      split at gives
      · rename_i used
        cases gives
        exact ⟨i, mount, here, used, by rw [Nat.zero_add]⟩
      · cases gives
    · rintro ⟨i, mount, here, used, rfl⟩
      exact ⟨i, mount, here, by rw [if_pos used, Nat.zero_add]⟩

end

/-- The directories of an archive are listed exactly, and so is the root with its mounts, in any sequence of calls. -/
theorem directory_listing {granted : Nat → Bool} {m : Mem} {fuel address size : Nat} {s : Tarfs}
    (built : tarfsInit granted m fuel address size = some (some s)) (distinct : (s.nodes.map TarfsNode.name).Nodup) :
    (∀ dir ∈ s.nodes, dir.isDir = true → ∃ children, Lists s.nodes dir children) ∧
    (∀ (rounds : Nat) (calls : List (MountTable × UInt32)), s.nodes.length < rounds →
      readdirCalls (tarfsReaddir s.nodes) rounds uncounted calls =
        some (calls.map fun call => (rootEntries s.nodes call.1)[call.2.toNat]?)) ∧
    ∀ table, (mountEntries table).Nodup ∧ ∀ entry, entry ∈ mountEntries table ↔
      ∃ (i : Nat) (mount : VfsMount), table.slots[i]? = some mount ∧ mount.used = true ∧ entry = ⟨mount.name, 1000 + i⟩ := by
  obtain ⟨few, short⟩ := tarfsInit_bounded built
  refine ⟨fun dir _ _ => ⟨children s.nodes dir, children_listed short few distinct dir⟩, ?_, mountEntries_exact⟩
  intro rounds calls enough
  exact readdirCalls_eq short few enough calls uncounted (Or.inl rfl)

/-- The archive of `a/b`, where `a` was not listed. -/
def abTable : Tarfs := ⟨[⟨[97], true, 0, 0, 0⟩, ⟨[97, slash, 98], false, 0, 0, 512⟩], 3⟩

theorem directory_listing_ab : tarfsInit (fun _ => true) (emptyEntryMem [97, slash, 98]) 2 0 512 = some (some abTable) ∧
    (abTable.nodes.map TarfsNode.name).Nodup ∧ (∃ children, Lists abTable.nodes ⟨[97], true, 0, 0, 0⟩ children) ∧
    ∀ table, readdirCalls (tarfsReaddir abTable.nodes) 3 uncounted [(table, 1)] = some [some ⟨[97, slash, 98], 0⟩] := by
  have built : tarfsInit (fun _ => true) (emptyEntryMem [97, slash, 98]) 2 0 512 = some (some abTable) := rfl
  have distinct : (abTable.nodes.map TarfsNode.name).Nodup := by decide
  obtain ⟨directories, calls, _⟩ := directory_listing built distinct
  exact ⟨built, distinct, directories _ List.mem_cons_self rfl, fun table => calls 3 [(table, 1)] (by decide)⟩

end RexOs.Fs
