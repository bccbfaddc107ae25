import RexOs.Fs.Tarfs

/-! What `tarfs_init` registers of an archive, and what its files read.

Files are registered in the order of the archive. The directories are those that are listed and the
parents of files; the parents of a listed directory are not.
-/

set_option autoImplicit false

namespace RexOs.Fs

open RexOs.Library

def fileNodes (nodes : List TarfsNode) : List TarfsNode := nodes.filter fun node => !node.isDir
def dirNames (nodes : List TarfsNode) : List (List UInt8) := (nodes.filter fun node => node.isDir).map TarfsNode.name

def TarfsNode.file (node : TarfsNode) : List UInt8 × Nat × Nat := (node.name, node.length, node.ptr)

def filesOf (entries : List (Nat × TarEntry)) : List (Nat × TarEntry) := entries.filter fun p => !p.2.isDir

/-- One node for each regular file with its path, size and data, in the order of the archive, and one
for each directory that is listed or a parent. -/
structure Indexed (address : Nat) (entries : List TarEntry) (nodes : List TarfsNode) : Prop where
  files : (fileNodes nodes).map TarfsNode.file =
    (filesOf (placed address 0 entries)).map fun p => (p.2.path, p.2.size, p.1 + 512)
  once : (dirNames nodes).Nodup
  dirs : ∀ dir, dir ∈ dirNames nodes ↔ Required entries dir

def InLimit (entries : List TarEntry) : Prop :=
  ∃ dirs : List (List UInt8), (∀ dir, Required entries dir → dir ∈ dirs) ∧
    (entries.filter fun e => !e.isDir).length + dirs.length ≤ tarfsMaxNodes

def ParentsCovered (entries : List TarEntry) : Prop :=
  ∀ e ∈ entries, e.isDir = true → ∀ dir, Parent dir e.path →
    (∃ d ∈ entries, d.isDir = true ∧ d.path = dir) ∨ ∃ f ∈ entries, f.isDir = false ∧ Parent dir f.path

section
variable {nodes : List TarfsNode} {node : TarfsNode}

theorem fileNodes_push (nodes : List TarfsNode) (node : TarfsNode) :
    fileNodes (nodes ++ [node]) = fileNodes nodes ++ if node.isDir then [] else [node] := by
  rw [fileNodes, List.filter_append]
  cases isDir : node.isDir <;> simp [isDir, fileNodes]

theorem dirNames_push (nodes : List TarfsNode) (node : TarfsNode) :
    dirNames (nodes ++ [node]) = dirNames nodes ++ if node.isDir then [node.name] else [] := by
  rw [dirNames, List.filter_append, List.map_append]
  cases isDir : node.isDir <;> simp [isDir, dirNames]

theorem length_nodes (nodes : List TarfsNode) : nodes.length = (fileNodes nodes).length + (dirNames nodes).length := by
  induction nodes with
  | nil => rfl
  | cons node nodes ih =>
    simp only [fileNodes, dirNames, List.length_map] at *
    cases isDir : node.isDir <;> simp [isDir] <;> omega

theorem any_name {name : List UInt8} : (nodes.any fun node => node.name = name) = true ↔
    name ∈ dirNames nodes ∨ ∃ node ∈ fileNodes nodes, node.name = name := by
  simp only [List.any_eq_true, decide_eq_true_eq, dirNames, fileNodes, List.mem_map, List.mem_filter, Bool.not_eq_true']
  constructor
  · rintro ⟨node, member, same⟩
    cases isDir : node.isDir with
    | true => exact Or.inl ⟨node, ⟨member, isDir⟩, same⟩
    | false => exact Or.inr ⟨node, ⟨member, isDir⟩, same⟩
  · rintro (⟨node, ⟨member, -⟩, same⟩ | ⟨node, ⟨member, -⟩, same⟩)
    · exact ⟨node, member, same⟩
    · exact ⟨node, member, same⟩

end

section
variable {granted : Nat → Bool} {m : Mem} {s : Tarfs}

theorem tarfsEnsureDir_files (path : List UInt8) : fileNodes (tarfsEnsureDir granted s path).nodes = fileNodes s.nodes := by
  unfold tarfsEnsureDir
  split
  · rfl
  split
  · rfl
  split
  · rfl
  split
  · rfl
  · rw [fileNodes_push]
    simp

theorem tarfsEnsureParents_induct (Inv : Tarfs → Prop) (name : List UInt8)
    (step : ∀ s i, i < min name.length 127 → name.getD i 0 = slash → Inv s → Inv (tarfsEnsureDir granted s (name.take i)))
    (start : Inv s) : Inv (tarfsEnsureParents granted s name) := by
  unfold tarfsEnsureParents
  have all : ∀ i ∈ List.range (min name.length 127), i < min name.length 127 := fun i member => List.mem_range.mp member
  generalize List.range (min name.length 127) = places at all
  induction places generalizing s with
  | nil => exact start
  | cons i places ih =>
    rw [List.foldl_cons]
    refine ih ?_ fun j member => all j (List.mem_cons_of_mem _ member)
    split
    · rename_i here
      exact step s i (all i List.mem_cons_self) here start
    · exact start

theorem tarfsLoop_induct {address size fuel offset : Nat} {last : Tarfs} (Inv : Tarfs → Prop)
    (step : ∀ s header, m header ≠ 0 → Inv s → Inv (tarfsEntry granted m s header).2)
    (ended : tarfsLoop granted m address size fuel offset s = some last) (start : Inv s) : Inv last := by
  induction fuel generalizing offset s with
  | zero => cases ended
  | succ fuel ih =>
    rw [tarfsLoop] at ended
    by_cases below : offset < size
    · rw [if_pos below] at ended
      by_cases stop : m (address + offset) = 0
      · rw [if_pos stop] at ended
        cases ended
        exact start
      rw [if_neg stop] at ended
      have next := step s (address + offset) stop start
      cases entry : tarfsEntry granted m s (address + offset) with
      | mk more s' =>
        rw [entry] at ended next
        cases more with
        | false =>
          cases ended
          exact next
        | true => exact ih ended next
    · rw [if_neg below] at ended
      cases ended
      exact start

theorem tarfsEnsureParents_files (name : List UInt8) :
    fileNodes (tarfsEnsureParents granted s name).nodes = fileNodes s.nodes :=
  tarfsEnsureParents_induct (fun s' => fileNodes s'.nodes = fileNodes s.nodes) name
    (fun _ _ _ _ same => (tarfsEnsureDir_files _).trans same) rfl

def readFile (m : Mem) (p : Nat × TarEntry) : List UInt8 × Nat × Nat :=
  (cString (fieldBytes m (nameAt m p.1) 127), p.2.size, p.1 + 512)

theorem HeaderAt.file_flag {off : Nat} {e : TarEntry} (header : HeaderAt m off e) (file : e.isDir = false) :
    m (off + 156) ≠ 53 ∧ (m (off + 156) = 48 ∨ m (off + 156) = 0) := by
  have flag := header.flag
  rw [file, if_neg (by simp)] at flag
  refine ⟨?_, flag⟩
  rcases flag with one | two
  · rw [one]; decide
  · rw [two]; decide

theorem tarfsEntry_files {p : Nat × TarEntry} (memory : ∀ n, granted n = true) (header : HeaderAt m p.1 p.2) :
    (fileNodes (tarfsEntry granted m s p.1).2.nodes).map TarfsNode.file = (fileNodes s.nodes).map TarfsNode.file ++
      (if p.2.isDir then [] else [readFile m p]) ∨
    (p.2.isDir = false ∧ fileNodes (tarfsEntry granted m s p.1).2.nodes = fileNodes s.nodes) := by
  unfold tarfsEntry typeflag
  cases isDir : p.2.isDir with
  | true =>
    have flag := header.flag
    rw [isDir, if_pos rfl] at flag
    refine Or.inl ?_
    rw [if_pos flag]
    dsimp only
    split
    · rw [tarfsEnsureDir_files]
      simp
    · simp
  | false =>
    obtain ⟨other, flag⟩ := header.file_flag isDir
    simp only [if_neg other, if_pos flag, memory, Bool.true_eq_false, if_false]
    -- the parents are made first, so the last free node may have gone to one of them
    split
    · refine Or.inl ?_
      rw [fileNodes_push, tarfsEnsureParents_files, List.map_append]
      simp [TarfsNode.file, readFile, header.dataSize]
    · exact Or.inr ⟨trivial, tarfsEnsureParents_files _⟩

theorem files_in_order {entries : List (Nat × TarEntry)} (memory : ∀ n, granted n = true)
    (headers : ∀ p ∈ entries, HeaderAt m p.1 p.2) (s : Tarfs) :
    ((fileNodes (entries.foldl (fun s p => (tarfsEntry granted m s p.1).2) s).nodes).map TarfsNode.file).Sublist
      ((fileNodes s.nodes).map TarfsNode.file ++ (filesOf entries).map (readFile m)) := by
  induction entries generalizing s with
  | nil => simp [filesOf]
  | cons p entries ih =>
    have rest := ih (fun q member => headers q (List.mem_cons_of_mem _ member)) (tarfsEntry granted m s p.1).2
    have shape : (filesOf (p :: entries)).map (readFile m) =
        (if p.2.isDir then [] else [readFile m p]) ++ (filesOf entries).map (readFile m) := by
      cases isDir : p.2.isDir <;> simp [filesOf, isDir]
    rw [List.foldl_cons, shape, ← List.append_assoc]
    rcases tarfsEntry_files (s := s) memory (headers p List.mem_cons_self) with added | ⟨-, kept⟩
    · rw [added] at rest
      exact rest
    · rw [kept] at rest
      exact rest.trans (List.Sublist.append_right (List.sublist_append_left _ _) _)

end

structure Tracks (files : List (List UInt8 × Nat × Nat)) (Dirs : List UInt8 → Prop) (nodes : List TarfsNode) : Prop where
  files : (fileNodes nodes).map TarfsNode.file = files
  once : (dirNames nodes).Nodup
  dirs : ∀ dir, dir ∈ dirNames nodes ↔ Dirs dir

theorem Tracks.congr {files : List (List UInt8 × Nat × Nat)} {Dirs Dirs' : List UInt8 → Prop} {nodes : List TarfsNode}
    (tracks : Tracks files Dirs nodes) (same : ∀ dir, Dirs dir ↔ Dirs' dir) : Tracks files Dirs' nodes :=
  ⟨tracks.files, tracks.once, fun dir => (tracks.dirs dir).trans (same dir)⟩

structure Roomy (entries : List TarEntry) (files : List (List UInt8 × Nat × Nat)) (Dirs : List UInt8 → Prop) : Prop where
  distinct : DistinctPaths entries
  within : InLimit entries
  few : files.length ≤ (entries.filter fun e => !e.isDir).length
  paths : ∀ file ∈ files, ∃ f ∈ entries, f.isDir = false ∧ f.path = file.1
  needed : ∀ dir, Dirs dir → Required entries dir

section
variable {granted : Nat → Bool} {m : Mem} {s : Tarfs} {entries : List TarEntry} {files : List (List UInt8 × Nat × Nat)}
  {Dirs : List UInt8 → Prop}

theorem DistinctPaths.not_file (distinct : DistinctPaths entries) {dir : List UInt8} (required : Required entries dir)
    {f : TarEntry} (member : f ∈ entries) (file : f.isDir = false) : f.path ≠ dir := by
  rintro rfl
  rcases required with ⟨-, e, listed, isDir, same⟩ | ⟨e, listed, parent⟩
  · have equal : e = f := (List.inj_on_of_nodup_map distinct.nodup) listed member same
    rw [equal, file] at isDir
    cases isDir
  · exact distinct.files f member file e listed parent

theorem Roomy.fits (roomy : Roomy entries files Dirs) {dirs : List (List UInt8)} (once : dirs.Nodup)
    (required : ∀ dir ∈ dirs, Required entries dir) :
    (entries.filter fun e => !e.isDir).length + dirs.length ≤ tarfsMaxNodes := by
  obtain ⟨all, holds, bound⟩ := roomy.within
  have few := (once.subperm fun dir member => holds dir (required dir member)).length_le
  omega

theorem Tracks.length {nodes : List TarfsNode} (tracks : Tracks files Dirs nodes) :
    nodes.length = files.length + (dirNames nodes).length := by
  rw [length_nodes, ← tracks.files, List.length_map]

theorem Roomy.room (roomy : Roomy entries files Dirs) {nodes : List TarfsNode} (tracks : Tracks files Dirs nodes)
    {dir : List UInt8} (required : Required entries dir) (fresh : dir ∉ dirNames nodes) : nodes.length < tarfsMaxNodes := by
  have fits := roomy.fits (List.nodup_cons.mpr ⟨fresh, tracks.once⟩) fun d member => by
    rcases List.mem_cons.mp member with rfl | member
    · exact required
    · exact roomy.needed d ((tracks.dirs d).mp member)
  have few := roomy.few
  rw [tracks.length]
  simp only [List.length_cons] at fits
  omega

theorem tarfsEnsureDir_tracks (memory : ∀ n, granted n = true) (roomy : Roomy entries files Dirs)
    (tracks : Tracks files Dirs s.nodes) {dir : List UInt8} (required : Required entries dir) (nonempty : dir ≠ [])
    (short : dir.length ≤ 127) : Tracks files (fun d => Dirs d ∨ d = dir) (tarfsEnsureDir granted s dir).nodes := by
  unfold tarfsEnsureDir
  rw [if_neg nonempty]
  by_cases known : dir ∈ dirNames s.nodes
  · rw [if_pos (any_name.mpr (Or.inl known))]
    refine tracks.congr fun d => ⟨Or.inl, fun either => either.elim id fun same => ?_⟩
    rw [same]
    exact (tracks.dirs dir).mp known
  · -- a node of that name would be a file, and then the path is listed twice
    have unnamed : ¬(s.nodes.any fun node => node.name = dir) = true := by
      rw [any_name]
      rintro (listed | ⟨node, member, same⟩)
      · exact known listed
      · have listed : node.file ∈ files := by
          rw [← tracks.files]
          exact List.mem_map_of_mem member
        obtain ⟨f, inside, file, path⟩ := roomy.paths _ listed
        exact roomy.distinct.not_file required inside file (path.trans same)
    rw [if_neg unnamed, if_neg (Nat.not_le.mpr (roomy.room tracks required known)), if_neg (by simp [memory])]
    refine ⟨?_, ?_, fun d => ?_⟩
    · rw [fileNodes_push]
      simpa using tracks.files
    · rw [dirNames_push]
      simp only [if_true, List.take_of_length_le short]
      exact List.nodup_append.mpr ⟨tracks.once, List.nodup_singleton dir, fun d member d' same => by
        rw [List.mem_singleton.mp same]
        exact fun equal => known (equal ▸ member)⟩
    · rw [dirNames_push]
      simp [List.take_of_length_le short, tracks.dirs]

theorem Roomy.add (roomy : Roomy entries files Dirs) {dir : List UInt8} (required : Required entries dir) :
    Roomy entries files fun d => Dirs d ∨ d = dir :=
  ⟨roomy.distinct, roomy.within, roomy.few, roomy.paths, fun d either => either.elim (roomy.needed d) fun same => same ▸ required⟩

theorem parent_iff {dir name : List UInt8} :
    Parent dir name ↔ dir ≠ [] ∧ ∃ i, i < name.length ∧ name.getD i 0 = slash ∧ name.take i = dir := by
  refine and_congr_right fun _ => ?_
  constructor
  · rintro ⟨rest, rfl⟩
    exact ⟨dir.length, by simp, by simp, by simp⟩
  · rintro ⟨i, inside, here, rfl⟩
    refine ⟨name.drop (i + 1), ?_⟩
    have get : name[i] = slash := by simpa [List.getD_eq_getElem?_getD, inside] using here
    rw [← get, List.getElem_cons_drop, List.take_append_drop]

theorem tarfsEnsureParents_tracks (memory : ∀ n, granted n = true) (roomy : Roomy entries files Dirs)
    (tracks : Tracks files Dirs s.nodes) {name : List UInt8} (short : name.length ≤ 127)
    (required : ∀ dir, Parent dir name → Required entries dir) :
    Tracks files (fun d => Dirs d ∨ Parent d name) (tarfsEnsureParents granted s name).nodes := by
  have below : ∀ i ∈ List.range (min name.length 127), i < name.length := fun i member => by
    have := List.mem_range.mp member
    omega
  have all : ∀ d, (Dirs d ∨ Parent d name) ↔
      (Dirs d ∨ d ≠ [] ∧ ∃ i ∈ List.range (min name.length 127), name.getD i 0 = slash ∧ name.take i = d) := by
    intro d
    rw [parent_iff]
    refine or_congr_right (and_congr_right fun _ => exists_congr fun i => ?_)
    rw [List.mem_range, Nat.min_eq_left short]
  refine Tracks.congr ?_ fun d => (all d).symm
  unfold tarfsEnsureParents
  clear all
  generalize List.range (min name.length 127) = places at below
  induction places generalizing s Dirs with
  | nil => exact tracks.congr fun d => by simp
  | cons i places ih =>
    rw [List.foldl_cons]
    have later := fun j member => below j (List.mem_cons_of_mem i member)
    by_cases here : name.getD i 0 = slash ∧ name.take i ≠ []
    · have inside := below i List.mem_cons_self
      have needed : Required entries (name.take i) := required _ (parent_iff.mpr ⟨here.2, i, inside, here.1, rfl⟩)
      have step := tarfsEnsureDir_tracks memory roomy tracks needed here.2 (by rw [List.length_take]; omega)
      rw [if_pos here.1]
      refine (ih (roomy.add needed) step later).congr fun d => ?_
      simp only [List.exists_mem_cons_iff, or_assoc]
      refine or_congr_right ⟨?_, ?_⟩
      · rintro (rfl | ⟨nonempty, rest⟩)
        · exact ⟨here.2, Or.inl ⟨here.1, rfl⟩⟩
        · exact ⟨nonempty, Or.inr rest⟩
      · rintro ⟨nonempty, ⟨-, same⟩ | rest⟩
        · exact Or.inl same.symm
        · exact Or.inr ⟨nonempty, rest⟩
    · -- no slash here, or a leading one: `tarfs_ensure_dir` does nothing for the empty path
      have kept : (if name.getD i 0 = slash then tarfsEnsureDir granted s (name.take i) else s) = s := by
        split
        · rename_i slash_
          have empty : name.take i = [] := by
            by_contra nonempty
            exact here ⟨slash_, nonempty⟩
          rw [tarfsEnsureDir, if_pos empty]
        · rfl
      rw [kept]
      refine (ih roomy tracks later).congr fun d => or_congr_right ?_
      simp only [List.exists_mem_cons_iff]
      refine and_congr_right fun nonempty => ⟨Or.inr, fun either => either.resolve_left ?_⟩
      rintro ⟨slash_, rfl⟩
      exact here ⟨slash_, nonempty⟩

theorem tarfsEntry_tracks (memory : ∀ n, granted n = true) (roomy : Roomy entries files Dirs)
    (tracks : Tracks files Dirs s.nodes) {p : Nat × TarEntry} (header : HeaderAt m p.1 p.2) (short : p.2.Short)
    (listed : p.2 ∈ entries)
    (room : p.2.isDir = false → files.length < (entries.filter fun e => !e.isDir).length) :
    Tracks (files ++ if p.2.isDir then [] else [readFile m p])
      (fun d => Dirs d ∨ (d ≠ [] ∧ p.2.isDir = true ∧ p.2.path = d) ∨ (p.2.isDir = false ∧ Parent d p.2.path))
      (tarfsEntry granted m s p.1).2.nodes := by
  cases isDir : p.2.isDir with
  | true =>
    have flag := header.flag
    rw [isDir, if_pos rfl] at flag
    have entered : tarfsEntry granted m s p.1 = (true,
        if 0 < (cString (fieldBytes m (nameAt m p.1) 128)).length ∧ (cString (fieldBytes m (nameAt m p.1) 128)).length < 128 then
          tarfsEnsureDir granted s (withoutSlash (cString (fieldBytes m (nameAt m p.1) 128))) else s) := by
      unfold tarfsEntry typeflag
      rw [if_pos flag]
    obtain ⟨below, named, root⟩ := header.dir_name short (by decide : 100 < 128) (by decide)
    rw [entered]
    simp only [if_true, List.append_nil]
    by_cases empty : p.2.path = []
    · rw [if_neg (by rw [root empty]; simp)]
      refine tracks.congr fun d => ⟨Or.inl, fun either => either.resolve_right ?_⟩
      rintro (⟨nonempty, -, same⟩ | ⟨file, -⟩)
      · exact nonempty (same.symm.trans empty)
      · cases file
    · obtain ⟨some, path⟩ := named empty
      rw [if_pos ⟨List.length_pos_of_ne_nil some, by omega⟩, path]
      have needed : Required entries p.2.path := Or.inl ⟨empty, p.2, listed, isDir, rfl⟩
      have length : p.2.path.length ≤ 127 := by
        rw [← path, withoutSlash]
        split
        · rw [List.length_dropLast]
          omega
        · omega
      refine (tarfsEnsureDir_tracks memory roomy tracks needed empty length).congr fun d => or_congr_right ?_
      constructor
      · rintro rfl
        exact Or.inl ⟨empty, trivial, rfl⟩
      · rintro (⟨-, -, same⟩ | ⟨file, -⟩)
        · exact same.symm
        · cases file
  | false =>
    obtain ⟨other, flag⟩ := header.file_flag isDir
    have path : cString (fieldBytes m (nameAt m p.1) 127) = p.2.path :=
      (header.file_name isDir (by decide : 100 < 127) (by decide)).mpr short
    have length : p.2.path.length ≤ 127 := by
      rw [← path, cString]
      exact (List.takeWhile_sublist _).length_le.trans (by simp)
    have parents := tarfsEnsureParents_tracks (s := { s with allocs := s.allocs + 1 }) memory roomy tracks length
      fun dir parent => Or.inr ⟨p.2, listed, parent⟩
    -- `roomy` counts the parents of this file already, so its own node is the only new demand
    have after : (tarfsEnsureParents granted { s with allocs := s.allocs + 1 } p.2.path).nodes.length < tarfsMaxNodes := by
      have fits := roomy.fits parents.once fun d member => ((parents.dirs d).mp member).elim (roomy.needed d)
        fun parent => Or.inr ⟨p.2, listed, parent⟩
      have some := room isDir
      rw [parents.length]
      omega
    unfold tarfsEntry typeflag
    simp only [if_neg other, if_pos flag, memory, Bool.true_eq_false, if_false, path]
    rw [if_pos after]
    refine ⟨?_, ?_, fun d => ?_⟩
    · rw [fileNodes_push]
      simp [TarfsNode.file, readFile, header.dataSize, path, parents.files]
    · rw [dirNames_push]
      simpa using parents.once
    · rw [dirNames_push]
      simp [parents.dirs]

end

def Registered (entries : List TarEntry) (dir : List UInt8) : Prop :=
  (dir ≠ [] ∧ ∃ e ∈ entries, e.isDir = true ∧ e.path = dir) ∨ ∃ f ∈ entries, f.isDir = false ∧ Parent dir f.path

theorem Registered.required {entries all : List TarEntry} {dir : List UInt8} (registered : Registered entries dir)
    (among : ∀ e ∈ entries, e ∈ all) : Required all dir := by
  rcases registered with ⟨nonempty, e, member, isDir, path⟩ | ⟨f, member, -, parent⟩
  · exact Or.inl ⟨nonempty, e, among e member, isDir, path⟩
  · exact Or.inr ⟨f, among f member, parent⟩

theorem registered_push (done : List TarEntry) (e : TarEntry) (dir : List UInt8) :
    Registered (done ++ [e]) dir ↔
      Registered done dir ∨ (dir ≠ [] ∧ e.isDir = true ∧ e.path = dir) ∨ (e.isDir = false ∧ Parent dir e.path) := by
  simp only [Registered, List.mem_append, List.mem_singleton]
  constructor
  · rintro (⟨nonempty, e', member | rfl, isDir, path⟩ | ⟨f, member | rfl, file, parent⟩)
    · exact Or.inl (Or.inl ⟨nonempty, e', member, isDir, path⟩)
    · exact Or.inr (Or.inl ⟨nonempty, isDir, path⟩)
    · exact Or.inl (Or.inr ⟨f, member, file, parent⟩)
    · exact Or.inr (Or.inr ⟨file, parent⟩)
  · rintro ((⟨nonempty, e', member, isDir, path⟩ | ⟨f, member, file, parent⟩) | ⟨nonempty, isDir, path⟩ | ⟨file, parent⟩)
    · exact Or.inl ⟨nonempty, e', Or.inl member, isDir, path⟩
    · exact Or.inr ⟨f, Or.inl member, file, parent⟩
    · exact Or.inl ⟨nonempty, e, Or.inr rfl, isDir, path⟩
    · exact Or.inr ⟨e, Or.inr rfl, file, parent⟩

theorem registered_iff {entries : List TarEntry} :
    (∀ dir, Registered entries dir ↔ Required entries dir) ↔ ParentsCovered entries := by
  constructor
  · intro same e member isDir dir parent
    rcases (same dir).mpr (Or.inr ⟨e, member, parent⟩) with ⟨-, listed⟩ | covered
    · exact Or.inl listed
    · exact Or.inr covered
  · intro covered dir
    refine ⟨fun registered => registered.required fun e member => member, ?_⟩
    rintro (listed | ⟨e, member, parent⟩)
    · exact Or.inl listed
    · cases isDir : e.isDir with
      | false => exact Or.inr ⟨e, member, isDir, parent⟩
      | true => exact (covered e member isDir dir parent).imp_left fun listed => ⟨parent.1, listed⟩

section
variable {granted : Nat → Bool} {m : Mem} {s : Tarfs}

theorem filesOf_map (entries : List (Nat × TarEntry)) :
    (filesOf entries).map Prod.snd = (entries.map Prod.snd).filter fun e => !e.isDir := by
  rw [filesOf, List.filter_map]
  rfl

theorem archive_tracks {all done rest : List (Nat × TarEntry)} (memory : ∀ n, granted n = true)
    (headers : ∀ p ∈ all, HeaderAt m p.1 p.2) (short : ∀ p ∈ all, p.2.Short) (distinct : DistinctPaths (all.map Prod.snd))
    (within : InLimit (all.map Prod.snd)) (split : all = done ++ rest)
    (tracks : Tracks ((filesOf done).map (readFile m)) (Registered (done.map Prod.snd)) s.nodes) :
    Tracks ((filesOf all).map (readFile m)) (Registered (all.map Prod.snd))
      (rest.foldl (fun s p => (tarfsEntry granted m s p.1).2) s).nodes := by
  -- `done` are the entries before; `Tracks` of them is the invariant
  induction rest generalizing done s with
  | nil =>
    rw [List.append_nil] at split
    rw [split]
    exact tracks
  | cons p rest ih =>
    have inside : p ∈ all := by simp [split]
    have among : ∀ q ∈ done, q ∈ all := fun q member => by simp [split, member]
    have counted : ((all.map Prod.snd).filter fun e => !e.isDir).length = (filesOf all).length := by
      rw [← filesOf_map, List.length_map]
    have parts : filesOf all = filesOf done ++ filesOf (p :: rest) := by rw [split, filesOf, List.filter_append, filesOf, filesOf]
    have roomy : Roomy (all.map Prod.snd) ((filesOf done).map (readFile m)) (Registered (done.map Prod.snd)) := by
      refine ⟨distinct, within, ?_, fun file member => ?_, fun dir registered => ?_⟩
      · rw [counted, parts, List.length_map, List.length_append]
        omega
      · obtain ⟨q, listed, rfl⟩ := List.mem_map.mp member
        obtain ⟨earlier, file⟩ := List.mem_filter.mp listed
        have file : q.2.isDir = false := by simpa using file
        have q_in := among q earlier
        refine ⟨q.2, List.mem_map_of_mem q_in, file, ?_⟩
        exact (((headers q q_in).file_name file (by decide : 100 < 127) (by decide)).mpr (short q q_in)).symm
      · refine registered.required fun e member => ?_
        obtain ⟨q, earlier, rfl⟩ := List.mem_map.mp member
        exact List.mem_map_of_mem (among q earlier)
    have step := tarfsEntry_tracks memory roomy tracks (headers p inside) (short p inside) (List.mem_map_of_mem inside)
      fun file => by
        rw [counted, parts, List.length_map, List.length_append]
        simp [filesOf, file]
    rw [List.foldl_cons]
    refine @ih _ (done ++ [p]) (by simp [split]) ?_
    have files : (filesOf (done ++ [p])).map (readFile m) =
        (filesOf done).map (readFile m) ++ if p.2.isDir then [] else [readFile m p] := by
      rw [filesOf, List.filter_append, List.map_append]
      cases isDir : p.2.isDir <;> simp [isDir, filesOf]
    rw [files]
    refine step.congr fun dir => ?_
    rw [List.map_append, List.map_singleton, registered_push]

end

end RexOs.Fs
