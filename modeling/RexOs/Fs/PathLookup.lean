import RexOs.Fs.TarComplete

/-! Path lookup over any mount table, and resolution component by component.

`vfs_lookup` looks for the whole path in the root before it goes from component to component. What
the directories of mounted file systems answer is computed in a monad `M`, since they may read the
device.
-/

set_option autoImplicit false

namespace RexOs.Fs

open RexOs.Library

/-- The root, a node of the archive by its place in the list, or a node of a mounted file system. -/
inductive PathNode (Mounted : Type) where
  | root
  | tar (i : Nat)
  | mounted (node : Mounted)
  deriving DecidableEq, Repr

/-- `fs_root` with the nodes of the archive, the mounts in use, and the nodes of mounted file systems:
`isDir` is in their flags, and `finddir` their callback. -/
structure NameSpace (M : Type → Type) (Mounted : Type) where
  initrd : Option (List TarNode)
  mounts : List (List UInt8 × PathNode Mounted)
  isDir : Mounted → Bool
  finddir : Mounted → Option (List UInt8 → M (Option (PathNode Mounted)))

def TarfsNode.entry (node : TarfsNode) : TarNode := ⟨node.name, node.isDir⟩

def tarIndex (nodes : List TarNode) (name : List UInt8) : Option Nat := nodes.findIdx? fun node => node.name = name

def components (path : List UInt8) : List (List UInt8) := (path.splitOnP (· = slash)).filter (· ≠ [])

def relative (path : List UInt8) : List UInt8 := if path.head? = some slash then path.drop 1 else path

namespace NameSpace

variable {M : Type → Type} {Mounted : Type}

section
variable [Monad M] (s : NameSpace M Mounted)

def nodes : List TarNode := s.initrd.getD []

def rootFinddir (name : List UInt8) : Option (PathNode Mounted) :=
  match s.mounts.find? fun mount => mount.1 = name with
  | some mount => some mount.2
  | none => (tarIndex s.nodes name).map .tar

def vfsFinddir (node : PathNode Mounted) (name : List UInt8) : M (Option (PathNode Mounted)) :=
  match node with
  | .root => pure (s.rootFinddir name)
  | .tar i =>
      match s.nodes[i]? with
      | none => pure none
      | some dir =>
          if dir.isDir = false then pure none
          -- `full[128]`
          else if dir.name.length + 1 + name.length ≥ 128 then pure none
          else pure ((tarIndex s.nodes (dir.name ++ slash :: name)).map .tar)
  | .mounted node =>
      if s.isDir node = false then pure none
      else
        match s.finddir node with
        | none => pure none
        | some finddir => finddir name

/-- `while (*path)`; every round takes at least one byte of the path. -/
def lookupLoop : Nat → PathNode Mounted → List UInt8 → M (Option (PathNode Mounted))
  | 0, current, _ => pure (some current)
  | rounds + 1, current, path =>
      if path = [] then pure (some current)
      else
        -- `component[128]`
        let component := (path.takeWhile (· ≠ slash)).take 127
        let rest := (path.drop component.length).dropWhile (· = slash)
        if component = [] then lookupLoop rounds current rest
        else do
          match ← s.vfsFinddir current component with
          | none => pure none
          | some next => lookupLoop rounds next rest

def vfsLookup (path : List UInt8) : M (Option (PathNode Mounted)) :=
  if s.initrd.isNone then pure none
  else if path = [] ∨ path = [slash] then pure (some .root)
  else do
    let path := relative path
    match ← s.vfsFinddir .root path with
    | some flat => pure (some flat)
    | none => s.lookupLoop path.length .root path

/-- `NULL` as soon as a component has no node. -/
def resolve : PathNode Mounted → List (List UInt8) → M (Option (PathNode Mounted))
  | node, [] => pure (some node)
  | node, component :: rest => do
      match ← s.vfsFinddir node component with
      | none => pure none
      | some next => resolve next rest

def resolvePath (path : List UInt8) : M (Option (PathNode Mounted)) :=
  if s.initrd.isNone then pure none else s.resolve .root (components path)

def wholePath (path : List UInt8) : Option (PathNode Mounted) :=
  if s.initrd.isNone ∨ path = [] ∨ path = [slash] then none else s.rootFinddir (relative path)

end

end NameSpace

theorem components_append_slash (first rest : List UInt8) :
    components (first ++ slash :: rest) = components first ++ components rest := by
  rw [components, List.splitOnP_append_cons _ _ (by simp), List.filter_append, components, components]

@[simp] theorem components_nil : components [] = [] := rfl

@[simp] theorem components_slash (rest : List UInt8) : components (slash :: rest) = components rest :=
  components_append_slash [] rest

theorem components_plain {text : List UInt8} (plain : slash ∉ text) (nonempty : text ≠ []) : components text = [text] := by
  have other : ∀ c ∈ text, decide (c = slash) = false := fun c member => by
    rw [decide_eq_false_iff_not]
    rintro rfl
    exact plain member
  rw [components, List.splitOnP_eq_singleton other]
  simp [nonempty]

theorem components_dropWhile (path : List UInt8) : components (path.dropWhile (· = slash)) = components path := by
  induction path with
  | nil => rfl
  | cons c path ih =>
    by_cases here : c = slash
    · subst here
      rw [List.dropWhile_cons_of_pos (by simp), ih, components_slash]
    · rw [List.dropWhile_cons_of_neg (by simpa using here)]

theorem components_relative (path : List UInt8) : components (relative path) = components path := by
  cases path with
  | nil => rfl
  | cons c path =>
    by_cases here : c = slash
    · subst here
      simp [relative]
    · simp [relative, here]

theorem path_cut (path : List UInt8) : ∃ rest, path = path.takeWhile (· ≠ slash) ++ rest ∧
    (rest = [] ∨ ∃ tail, rest = slash :: tail) ∧ components path = components (path.takeWhile (· ≠ slash)) ++ components rest := by
  have whole : path.takeWhile (· ≠ slash) ++ path.dropWhile (· ≠ slash) = path := List.takeWhile_append_dropWhile
  have behind := List.head?_dropWhile_not (fun c => decide (c ≠ slash)) path
  refine ⟨path.dropWhile (· ≠ slash), whole.symm, ?_⟩
  conv => rhs; lhs; rw [← whole]
  generalize path.dropWhile (· ≠ slash) = rest at behind ⊢
  cases rest with
  | nil => exact ⟨Or.inl rfl, by simp⟩
  | cons c rest =>
    obtain rfl : c = slash := by simpa using behind
    exact ⟨Or.inr ⟨rest, rfl⟩, by rw [components_append_slash, components_slash]⟩

namespace NameSpace

variable {M : Type → Type} [Monad M] {Mounted : Type} {s : NameSpace M Mounted}

theorem lookupLoop_resolve {path : List UInt8} {rounds : Nat} (short : ∀ c ∈ components path, c.length ≤ 127)
    (enough : path.length ≤ rounds) (current : PathNode Mounted) :
    s.lookupLoop rounds current path = s.resolve current (components path) := by
  induction rounds generalizing path current with
  | zero =>
    rw [List.eq_nil_of_length_eq_zero (Nat.le_zero.mp enough)]
    rfl
  | succ rounds ih =>
    rw [lookupLoop]
    by_cases done : path = []
    · rw [if_pos done, done]
      rfl
    rw [if_neg done]
    obtain ⟨rest, cut, shape, split⟩ := path_cut path
    have plain : slash ∉ path.takeWhile (· ≠ slash) := fun member => by simpa using List.mem_takeWhile_imp member
    generalize path.takeWhile (· ≠ slash) = text at *
    subst cut
    rw [split, ← components_dropWhile rest] at short ⊢
    have later := fun c member => short c (List.mem_append_right _ member)
    have shorter : (rest.dropWhile (· = slash)).length ≤ rest.length := List.length_dropWhile_le _ _
    by_cases empty : text = []
    · subst empty
      have less : (rest.dropWhile (· = slash)).length < rest.length := by
        rcases shape with none | ⟨tail, rfl⟩
        · exact absurd none done
        · rw [List.dropWhile_cons_of_pos (by simp), List.length_cons]
          exact Nat.lt_succ_of_le (List.length_dropWhile_le _ _)
      exact ih later (by simp at enough; omega) current
    · have first : components text = [text] := components_plain plain empty
      have fits : text.take 127 = text := List.take_of_length_le (short text (by simp [first]))
      have some := List.length_pos_of_ne_nil empty
      dsimp only
      rw [fits, if_neg empty, List.drop_left' rfl, first, List.singleton_append, resolve]
      congr 1
      funext next
      cases next with
      | none => rfl
      | some next => exact ih later (by rw [List.length_append] at enough; omega) next

section
variable {path : List UInt8}

theorem vfsLookup_whole [LawfulMonad M] {node : PathNode Mounted} (whole : s.wholePath path = some node) :
    s.vfsLookup path = pure (some node) := by
  rw [wholePath] at whole
  split at whole
  · cases whole
  · rename_i named
    rw [not_or] at named
    rw [vfsLookup, if_neg named.1, if_neg named.2]
    dsimp only
    rw [vfsFinddir, whole, pure_bind]

theorem vfsLookup_components [LawfulMonad M] (short : ∀ c ∈ components path, c.length ≤ 127) (none : s.wholePath path = none) :
    s.vfsLookup path = s.resolvePath path := by
  rw [vfsLookup, resolvePath]
  by_cases root : s.initrd.isNone
  · rw [if_pos root, if_pos root]
  rw [if_neg root, if_neg root]
  by_cases top : path = [] ∨ path = [slash]
  · rw [if_pos top]
    rcases top with rfl | rfl <;> rfl
  · rw [wholePath, if_neg (by tauto)] at none
    rw [if_neg top]
    dsimp only
    rw [vfsFinddir, none, pure_bind]
    dsimp only
    rw [lookupLoop_resolve (by rwa [components_relative]) (Nat.le_refl _), components_relative]

def IsDirectory (nodes : List TarNode) (name : List UInt8) : Prop :=
  ∃ i dir, tarIndex nodes name = some i ∧ nodes[i]? = some dir ∧ dir.isDir = true

theorem tarIndex_name {nodes : List TarNode} {name : List UInt8} {i : Nat} {node : TarNode} (found : tarIndex nodes name = some i)
    (at_ : nodes[i]? = some node) : node.name = name := by
  obtain ⟨inside, same, -⟩ := List.findIdx?_eq_some_iff_getElem.mp found
  rw [List.getElem?_eq_getElem inside] at at_
  cases at_
  simpa using same

def joined (components : List (List UInt8)) : List UInt8 := [slash].intercalate components

theorem joined_append {done rest : List (List UInt8)} (begun : done ≠ []) (more : rest ≠ []) :
    joined (done ++ rest) = joined done ++ slash :: joined rest := by
  induction done with
  | nil => exact absurd rfl begun
  | cons first done ih =>
    cases done with
    | nil =>
      obtain ⟨second, rest, rfl⟩ := List.exists_cons_of_ne_nil more
      simp [joined, List.intercalate_cons_cons]
    | cons second done =>
      have later := ih (by simp)
      simp only [joined, List.cons_append, List.intercalate_cons_cons] at later ⊢
      rw [later]
      simp only [List.append_assoc]

@[simp] theorem joined_singleton (component : List UInt8) : joined [component] = component := List.intercalate_singleton

theorem joined_push {done : List (List UInt8)} (begun : done ≠ []) (component : List UInt8) :
    joined (done ++ [component]) = joined done ++ slash :: component := by
  rw [joined_append begun (by simp), joined_singleton]

/-- The path has no empty component, neither it nor its first component is a mount, and what stands before
a slash is a directory of the archive. -/
structure Walkable (s : NameSpace M Mounted) (path : List UInt8) : Prop where
  plain : joined (components path) = relative path
  names : ∀ node ∈ s.nodes, node.name.length ≤ 127
  first : ∀ c rest, components path = c :: rest → s.mounts.find? (fun mount => mount.1 = c) = none
  whole : s.mounts.find? (fun mount => mount.1 = relative path) = none
  parents : ∀ done rest, components path = done ++ rest → done ≠ [] → rest ≠ [] → IsDirectory s.nodes (joined done)

theorem resolve_tar [LawfulMonad M] (done : List (List UInt8)) {rest : List (List UInt8)} {i j : Nat} (begun : done ≠ [])
    (names : ∀ node ∈ s.nodes, node.name.length ≤ 127)
    (parents : ∀ front back, done ++ rest = front ++ back → front ≠ [] → back ≠ [] → IsDirectory s.nodes (joined front))
    (here : tarIndex s.nodes (joined done) = some j) (whole : tarIndex s.nodes (joined (done ++ rest)) = some i) :
    s.resolve (.tar j) rest = pure (some (.tar i)) := by
  induction rest generalizing done j with
  | nil =>
    rw [List.append_nil, here] at whole
    cases whole
    rfl
  | cons c rest ih =>
    obtain ⟨j', dir, found, at_, isDir⟩ := parents done (c :: rest) rfl begun (by simp)
    rw [here] at found
    cases found
    have shift : done ++ c :: rest = done ++ [c] ++ rest := by simp
    rw [shift] at whole parents
    have next : ∃ k, tarIndex s.nodes (joined (done ++ [c])) = some k := by
      cases rest with
      | nil => exact ⟨i, by rwa [List.append_nil] at whole⟩
      | cons c' rest =>
        obtain ⟨k, -, found, -⟩ := parents (done ++ [c]) (c' :: rest) rfl (by simp) (by simp)
        exact ⟨k, found⟩
    obtain ⟨k, next⟩ := next
    have name := tarIndex_name here at_
    have fits : ¬dir.name.length + 1 + c.length ≥ 128 := by
      obtain ⟨inside, same, -⟩ := List.findIdx?_eq_some_iff_getElem.mp next
      have bound := names _ (List.getElem_mem inside)
      rw [decide_eq_true_eq.mp same, joined_push begun, ← name, List.length_append, List.length_cons] at bound
      omega
    have found : s.vfsFinddir (.tar j) c = pure (some (.tar k)) := by
      rw [joined_push begun, ← name] at next
      rw [vfsFinddir, at_]
      dsimp only
      rw [isDir, if_neg (by simp), if_neg fits, next]
      rfl
    rw [resolve, found, pure_bind]
    exact ih (done ++ [c]) (by simp) parents next whole

theorem resolvePath_tar [LawfulMonad M] {i : Nat} (walkable : s.Walkable path) (whole : s.wholePath path = some (.tar i)) :
    s.resolvePath path = pure (some (.tar i)) := by
  obtain ⟨plain, names, first, unmounted, parents⟩ := walkable
  rw [wholePath] at whole
  split at whole
  · cases whole
  rename_i named
  rw [not_or] at named
  have entry : tarIndex s.nodes (joined (components path)) = some i := by
    rw [rootFinddir, unmounted] at whole
    simpa [plain] using whole
  rw [resolvePath, if_neg named.1]
  cases shape : components path with
  | nil =>
    rw [shape] at plain
    have short : relative path = [] := plain.symm
    cases path with
    | nil => exact absurd (Or.inl rfl) named.2
    | cons c path =>
      rw [relative] at short
      split at short
      · rename_i leading
        obtain rfl : c = slash := by simpa using leading
        exact absurd (Or.inr (by simpa using short)) named.2
      · cases short
  | cons c rest =>
    rw [shape] at entry parents
    have begin_ : ∃ j, tarIndex s.nodes (joined [c]) = some j := by
      cases rest with
      | nil => exact ⟨i, entry⟩
      | cons c' rest =>
        obtain ⟨j, -, found, -⟩ := parents [c] (c' :: rest) rfl (by simp) (by simp)
        exact ⟨j, found⟩
    obtain ⟨j, begin_⟩ := begin_
    have found : s.vfsFinddir .root c = pure (some (.tar j)) := by
      rw [joined_singleton] at begin_
      rw [vfsFinddir, rootFinddir, first c rest shape]
      dsimp only
      rw [begin_]
      rfl
    rw [resolve, found, pure_bind]
    exact resolve_tar [c] (by simp) names parents begin_ entry

/-- `vfs_lookup` gives the node with the whole path as its name, if there is one, and else resolves the
components. Both agree on paths of the archive that can be walked. -/
theorem vfsLookup_resolves [LawfulMonad M] (s : NameSpace M Mounted) (path : List UInt8) :
    (∀ node, s.wholePath path = some node → s.vfsLookup path = pure (some node)) ∧
      (s.wholePath path = none → (∀ c ∈ components path, c.length ≤ 127) → s.vfsLookup path = s.resolvePath path) ∧
      ∀ i, s.wholePath path = some (.tar i) → s.Walkable path → s.vfsLookup path = s.resolvePath path := by
  refine ⟨fun node => vfsLookup_whole, fun none short => vfsLookup_components short none, fun i whole walkable => ?_⟩
  rw [vfsLookup_whole whole, resolvePath_tar walkable whole]

end

def inMnt : List UInt8 := mountName ++ [slash, 120]

/-- The nodes of an archive with the file `mnt/x`, and perhaps a mount at `mnt` that looks nothing up. -/
def withMnt (mounted : Bool) : NameSpace Id Unit where
  initrd := some [⟨mountName, true⟩, ⟨inMnt, false⟩]
  mounts := if mounted then [(mountName, .mounted ())] else []
  isDir _ := true
  finddir _ := none

theorem withMnt_walkable : (withMnt false).Walkable inMnt := by
  have parts : components inMnt = [mountName, [120]] := by decide +kernel
  refine ⟨by decide +kernel, by decide +kernel, fun _ _ _ => rfl, rfl, fun done rest split begun more => ?_⟩
  rw [parts] at split
  have one : done = [mountName] := by
    obtain ⟨first, done, rfl⟩ := List.exists_cons_of_ne_nil begun
    obtain ⟨last, rest, rfl⟩ := List.exists_cons_of_ne_nil more
    rw [List.cons_append, List.cons.injEq] at split
    cases done with
    | nil => rw [split.1]
    | cons second done =>
      have count := congrArg List.length split.2
      simp at count
  rw [one]
  exact ⟨0, _, by decide +kernel, rfl, rfl⟩

/-- The file behind the mount is found, an empty component is skipped, and without the mount both ways agree. -/
theorem vfsLookup_resolves_mnt : (withMnt true).vfsLookup inMnt = some (.tar 1) ∧
    (withMnt true).vfsLookup (mountName ++ [slash, slash, 120]) = (withMnt true).resolvePath (mountName ++ [slash, slash, 120]) ∧
    (withMnt false).vfsLookup inMnt = (withMnt false).resolvePath inMnt :=
  ⟨(vfsLookup_resolves (withMnt true) inMnt).1 (.tar 1) (by decide +kernel),
    (vfsLookup_resolves (withMnt true) _).2.1 (by decide +kernel) (by decide +kernel),
    (vfsLookup_resolves (withMnt false) inMnt).2.2 1 (by decide +kernel) withMnt_walkable⟩

/-- The archive's file is found by its whole path, though the mount hides its directory. -/
theorem lookup_behind_mount :
    (∃ t, tarfsInit (fun _ => true) (emptyEntryMem inMnt) 2 0 512 = some (some t) ∧
      (withMnt true).initrd = some (t.nodes.map TarfsNode.entry)) ∧
    (withMnt true).vfsLookup inMnt ≠ (withMnt true).resolvePath inMnt := by
  refine ⟨⟨⟨[⟨mountName, true, 0, 0, 0⟩, ⟨inMnt, false, 0, 0, 512⟩], 3⟩, ?_, rfl⟩, ?_⟩
  · rfl
  · have found : (withMnt true).vfsLookup inMnt = some (.tar 1) := rfl
    have lost : (withMnt true).resolvePath inMnt = none := rfl
    rw [found, lost]
    exact Option.some_ne_none _

end NameSpace

section
variable {address : Nat} {entries : List TarEntry} {nodes : List TarfsNode}

theorem Indexed.file_entry (indexed : Indexed address entries nodes) {node : TarfsNode} (member : node ∈ nodes)
    (file : node.isDir = false) : ∃ e ∈ entries, e.isDir = false ∧ e.path = node.name := by
  have kept : node.file ∈ (fileNodes nodes).map TarfsNode.file :=
    List.mem_map_of_mem (List.mem_filter.mpr ⟨member, by simp [file]⟩)
  rw [indexed.files] at kept
  obtain ⟨p, inside, same⟩ := List.mem_map.mp kept
  obtain ⟨inside, isFile⟩ := List.mem_filter.mp inside
  have entry : p.2 ∈ entries := by
    rw [← map_placed address 0 entries]
    exact List.mem_map_of_mem inside
  exact ⟨p.2, entry, by simpa using isFile, congrArg Prod.fst same⟩

theorem Indexed.directory (indexed : Indexed address entries nodes) (distinct : DistinctPaths entries) {dir : List UInt8}
    (required : Required entries dir) : NameSpace.IsDirectory (nodes.map TarfsNode.entry) dir := by
  obtain ⟨node, member, name⟩ := List.mem_map.mp ((indexed.dirs dir).mpr required)
  have found : (tarIndex (nodes.map TarfsNode.entry) dir).isSome := by
    rw [tarIndex, List.findIdx?_isSome]
    exact List.any_eq_true.mpr ⟨node.entry, List.mem_map_of_mem (List.mem_of_mem_filter member), by simp [TarfsNode.entry, name]⟩
  obtain ⟨i, found⟩ := Option.isSome_iff_exists.mp found
  obtain ⟨below, same, -⟩ := List.findIdx?_eq_some_iff_getElem.mp found
  refine ⟨i, _, found, List.getElem?_eq_getElem below, ?_⟩
  rw [List.length_map] at below
  rw [List.getElem_map, decide_eq_true_eq] at same
  rw [List.getElem_map]
  by_contra file
  obtain ⟨e, entry, isFile, path⟩ := indexed.file_entry (List.getElem_mem below) (Bool.eq_false_iff.mpr file)
  exact distinct.not_file required entry isFile (path.trans same)

theorem Indexed.names (indexed : Indexed address entries nodes) (short : ∀ e ∈ entries, e.path.length ≤ 127) :
    ∀ node ∈ nodes.map TarfsNode.entry, node.name.length ≤ 127 := by
  intro entry member
  obtain ⟨node, inside, rfl⟩ := List.mem_map.mp member
  rw [TarfsNode.entry]
  cases isDir : node.isDir with
  | true =>
    have listed : node.name ∈ dirNames nodes := List.mem_map_of_mem (List.mem_filter.mpr ⟨inside, isDir⟩)
    rcases (indexed.dirs _).mp listed with ⟨-, e, member, -, path⟩ | ⟨e, member, -, rest, path⟩
    · rw [← path]
      exact short e member
    · have bound := short e member
      rw [path, List.length_append] at bound
      exact Nat.le_trans (Nat.le_add_right _ _) bound
  | false =>
    obtain ⟨e, member, -, path⟩ := indexed.file_entry inside isDir
    rw [← path]
    exact short e member

theorem Indexed.walkable {M : Type → Type} [Monad M] {Mounted : Type} {s : NameSpace M Mounted}
    (indexed : Indexed address entries nodes) (distinct : DistinctPaths entries) (short : ∀ e ∈ entries, e.path.length ≤ 127)
    (registered : s.initrd = some (nodes.map TarfsNode.entry)) {path : List UInt8} {e : TarEntry} (member : e ∈ entries)
    (listed : relative path = e.path) (plain : NameSpace.joined (components path) = relative path)
    (first : ∀ c rest, components path = c :: rest → s.mounts.find? (fun mount => mount.1 = c) = none)
    (whole : s.mounts.find? (fun mount => mount.1 = relative path) = none) : s.Walkable path := by
  have nodes_ : s.nodes = nodes.map TarfsNode.entry := by rw [NameSpace.nodes, registered, Option.getD_some]
  refine ⟨plain, by rw [nodes_]; exact indexed.names short, first, whole, fun done rest split begun more => ?_⟩
  rw [nodes_]
  refine indexed.directory distinct (Or.inr ⟨e, member, ?_, NameSpace.joined rest, ?_⟩)
  · obtain ⟨c, done, rfl⟩ := List.exists_cons_of_ne_nil begun
    have some : c ≠ [] := by
      have listed : c ∈ components path := by simp [split]
      simpa using (List.mem_filter.mp listed).2
    cases done with
    | nil => rwa [NameSpace.joined_singleton]
    | cons c' done =>
      rw [← List.singleton_append, NameSpace.joined_append (by simp) (by simp)]
      simp
  · rw [← listed, ← plain, split, NameSpace.joined_append begun more]

end

section
variable (dev : Device) (v : Volume) (initrd : Option (List TarNode))

def PathNode.toVfs : PathNode Nat → VfsNode
  | .root => .root
  | .tar i => .tar i
  | .mounted i => .fat i

def kernelSpace (fuel : Nat) : NameSpace (StateT State (Except Fault)) Nat where
  initrd := initrd
  mounts := [(mountName, .mounted 0)]
  isDir _ := true
  finddir i := some fun name fs => do
    let (child, fs) ← fat32Finddir dev v fuel fs i name
    .ok (child.map .mounted, fs)

def translated (out : Except Fault (Option (PathNode Nat) × State)) : Except Fault (Option VfsNode × State) :=
  out.map fun found => (found.1.map PathNode.toVfs, found.2)

variable {dev v initrd} {fuel : Nat} {fs : State}

theorem vfsFinddir_kernelSpace (node : PathNode Nat) (name : List UInt8) :
    vfsFinddir dev v initrd fuel fs (some node.toVfs) name =
      translated ((kernelSpace dev v initrd fuel).vfsFinddir node name fs) := by
  cases node with
  | root =>
    rw [NameSpace.vfsFinddir, NameSpace.rootFinddir]
    simp only [PathNode.toVfs, vfsFinddir, mounts, kernelSpace, List.find?_cons]
    cases decide (mountName = name) with
    | true => rfl
    | false =>
      simp only [List.find?_nil, tarfsFinddir, NameSpace.nodes, tarIndex]
      cases List.findIdx? (fun node => decide (node.name = name)) (initrd.getD []) <;> rfl
  | tar i =>
    simp only [PathNode.toVfs, vfsFinddir, NameSpace.vfsFinddir, NameSpace.nodes, kernelSpace]
    cases (initrd.getD [])[i]? with
    | none => rfl
    | some dir =>
      dsimp only
      cases dir.isDir with
      | false => rfl
      | true =>
        simp only [if_true, Bool.true_eq_false, if_false, tarfsDirFinddir, tarfsFinddir, tarIndex]
        split
        · rfl
        · cases List.findIdx? _ (initrd.getD []) <;> rfl
  | mounted i =>
    have callback : (kernelSpace dev v initrd fuel).vfsFinddir (.mounted i) name fs =
        (fat32Finddir dev v fuel fs i name).bind fun found => .ok (found.1.map .mounted, found.2) := rfl
    rw [callback]
    show (fat32Finddir dev v fuel fs i name).bind _ = _
    cases fat32Finddir dev v fuel fs i name with
    | error fault => rfl
    | ok found =>
      obtain ⟨child, fs⟩ := found
      cases child <;> rfl

theorem state_bind {α β : Type} (first : StateT State (Except Fault) α) (next : α → StateT State (Except Fault) β) :
    (first >>= next) fs = (first fs).bind fun out => next out.1 out.2 := rfl

theorem lookupLoop_kernelSpace (rounds : Nat) (node : PathNode Nat) (path : List UInt8) :
    lookupLoop dev v initrd fuel rounds node.toVfs path fs =
      translated ((kernelSpace dev v initrd fuel).lookupLoop rounds node path fs) := by
  induction rounds generalizing node path fs with
  | zero => rfl
  | succ rounds ih =>
    rw [lookupLoop, NameSpace.lookupLoop]
    split
    · rfl
    dsimp only
    split
    · exact ih node _
    · rw [vfsFinddir_kernelSpace, state_bind]
      cases (kernelSpace dev v initrd fuel).vfsFinddir node _ fs with
      | error fault => rfl
      | ok found =>
        obtain ⟨next, fs⟩ := found
        cases next with
        | none => rfl
        | some next => exact ih next _

theorem vfsLookup_kernelSpace (path : List UInt8) :
    vfsLookup dev v initrd fuel fs path = translated ((kernelSpace dev v initrd fuel).vfsLookup path fs) := by
  rw [vfsLookup, NameSpace.vfsLookup]
  cases initrd with
  | none => rfl
  | some nodes =>
    have present : ¬(kernelSpace dev v (some nodes) fuel).initrd.isNone := by simp [kernelSpace]
    rw [if_neg present]
    dsimp only [fsRoot, Option.map_some]
    split
    · rfl
    · have same : (if path.head? = some slash then path.drop 1 else path) = relative path := rfl
      rw [same]
      have flat : vfsFinddir dev v (some nodes) fuel fs (some .root) (relative path) =
          translated ((kernelSpace dev v (some nodes) fuel).vfsFinddir .root (relative path) fs) :=
        vfsFinddir_kernelSpace .root (relative path)
      rw [flat]
      generalize relative path = path
      rw [state_bind]
      cases (kernelSpace dev v (some nodes) fuel).vfsFinddir .root path fs with
      | error fault => rfl
      | ok found =>
        obtain ⟨node, fs⟩ := found
        cases node with
        | none => exact lookupLoop_kernelSpace _ .root _
        | some node => rfl

end

end RexOs.Fs
