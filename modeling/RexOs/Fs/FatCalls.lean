import RexOs.Fs.FatFiles

/-! `fat32_read` and `fat32_write` on a well-formed volume.

Both return. A write changes its own file as if it were an array of bytes, and
no other file.
-/

set_option autoImplicit false

namespace RexOs.Fs

open RexOs.Library

/-- A volume in which every file and directory has a chain of its own; `closed` are those
that have no node. -/
structure WellFormed (v : Volume) (clusters : Nat) (closed : List Entry) (fs : State) : Prop where
  geometry : Geometry v clusters
  owned : ∃ cs, Owns v clusters (objects fs.nodes closed) cs fs.disk

def splice (old : List UInt8) (offset : Nat) (new : List UInt8) : List UInt8 :=
  old.take offset ++ new ++ old.drop (offset + new.length)

variable {dev : Device} {v : Volume} {clusters : Nat} {closed : List Entry} {fs : State} {m m' : Mem}
variable {cs : Object → List Nat} {i : Nat} {p p' : Node}

theorem objects_node (found : fs.nodes[i]? = some p) (closed : List Entry) :
    objects fs.nodes closed (.inl i) = some p.toEntry := by simp [objects, found]

theorem objects_set {nodes : List Node} (inside : i < nodes.length) (closed : List Entry) (p' : Node) :
    objects (nodes.set i p') closed = Function.update (objects nodes closed) (.inl i) (some p'.toEntry) := by
  funext o
  rcases o with k | j
  · by_cases same : k = i
    · subst same
      simp [objects, inside]
    · have apart : ¬ i = k := fun equal => same equal.symm
      simp [objects, same, apart]
  · simp [objects]

theorem setNode_nodes (found : fs.nodes[i]? = some p) (f : Node → Node) :
    (fs.setNode i f).nodes = fs.nodes.set i (f p) := by
  obtain ⟨inside, rfl⟩ := List.getElem?_eq_some_iff.mp found
  refine List.ext_getElem? fun k => ?_
  by_cases same : i = k
  · subst same
    simp [State.setNode, inside]
  · simp [State.setNode, same]

theorem fields_agreeOff (buf : Mem) (off newSize newCluster : Nat) :
    AgreeOff (setClusterField (setSizeField buf off newSize) off newCluster) buf off 32 := by
  have size : AgreeOff (setSizeField buf off newSize) buf off 32 := by
    rw [setSizeField]
    split
    · exact store_agreeOff (by omega) (by omega)
    · exact fun _ _ => rfl
  refine size.trans ?_
  rw [setClusterField]
  split
  · exact (store_agreeOff (by omega) (by omega)).trans (store_agreeOff (by omega) (by omega))
  · exact fun _ _ => rfl

theorem fat32UpdateDirent_eq (ok : Reliable dev) (found : fs.nodes[i]? = some p) (real : p.direntSector ≠ 0)
    (newSize newCluster : Nat) :
    fat32UpdateDirent dev fs i newSize newCluster =
      fs.after (paste fs.disk (p.direntSector * sectorSize) (1 * sectorSize) (setClusterField
        (setSizeField (fun k => fs.disk (p.direntSector * sectorSize + k)) p.direntOff newSize) p.direntOff newCluster))
        (fs.clock + 2) := by
  simp only [fat32UpdateDirent, found, if_neg real, readBlocks_ok ok, writeBlocks_ok ok, after_disk, after_after, after_clock]

theorem fat32UpdateDirent_ok (ok : Reliable dev) (geo : Geometry v clusters)
    (own : Owns v clusters (objects fs.nodes closed) cs fs.disk) (found : fs.nodes[i]? = some p)
    (file : p.isDir = false) (newSize newCluster : Nat) :
    ∃ m t, fat32UpdateDirent dev fs i newSize newCluster = fs.after m t ∧
      Owns v clusters (objects fs.nodes closed) cs m ∧ Keeps v (objects fs.nodes closed) none fs.disk m ∧
      ∀ c ∈ cs (.inl i), ∀ k < v.bytesPerCluster, m (clusterAddr v c + k) = fs.disk (clusterAddr v c + k) := by
  by_cases real : p.direntSector = 0
  · refine ⟨fs.disk, fs.clock, ?_, own, Keeps.refl .., fun _ _ _ _ => rfl⟩
    simp only [fat32UpdateDirent, found, if_pos real]
    rfl
  · rw [fat32UpdateDirent_eq ok found real]
    have node := objects_node found closed
    obtain ⟨o, d, dir, isDir, slot⟩ := own.homes i _ node file real
    have changed : AgreeOff (paste fs.disk (p.direntSector * sectorSize) (1 * sectorSize) (setClusterField
        (setSizeField (fun a => fs.disk (p.direntSector * sectorSize + a)) p.direntOff newSize) p.direntOff newCluster))
        fs.disk (slotAddr p.toEntry) 32 := paste_agreeOff (fields_agreeOff _ _ _ _)
    obtain ⟨own', keeps⟩ := own.dirent geo dir isDir slot changed fun j e other real' =>
      ((own.used j e other real').2.2.2 i _ node file).symm
    exact ⟨_, _, rfl, own', keeps, own.dirent_data geo dir isDir slot changed node file⟩

theorem Keeps.weaken {obj : Object → Option Entry} {o : Option Object} (keeps : Keeps v obj none m m') :
    Keeps v obj o m m' :=
  ⟨fun o' e found file _ => keeps.files o' e found file nofun, keeps.dirents⟩

theorem Allocates.begins (geo : Geometry v clusters) (free : FreeInside v clusters m) {c : Nat}
    (inside : InVolume clusters c) (zero : entry v m c = 0) (marked : SetsEntry v m c 0x0FFFFFFF m')
    (g : Nat → UInt8) :
    Writes v clusters c m [] (paste m' (clusterAddr v c) v.bytesPerCluster fun _ => 0) [c] 0 0 g := by
  have entries : ∀ c' < v.fatSize * entriesPerSec,
      entry v (paste m' (clusterAddr v c) v.bytesPerCluster fun _ => 0) c' =
        if c' = c then 0x0FFFFFFF else entry v m c' := by
    intro c' listed
    rw [entry_paste geo _ _ listed (clusterAddr_ge v c)]
    split
    · rename_i same
      rw [same, marked.here]
    · rename_i other
      exact marked.there c' listed other
  refine ⟨⟨⟨[c], rfl⟩, ?_, ?_, ?_⟩, ?_, ?_, ?_⟩
  · intro c' member _
    rw [List.mem_singleton.mp member]
    exact zero
  · intro c' listed out
    rw [entries c' listed, if_neg (by simpa using out)]
  · intro c' within out k small
    rw [cluster_paste geo within inside (by simpa using out) _ small]
    exact marked.data _ (Nat.le_trans (clusterAddr_ge v c') (Nat.le_add_right _ _))
  · refine IsChain.single ?_ inside
    rw [entries c (inside.listed geo), if_pos rfl]
    decide
  · refine free.congr fun c' listed empty => ?_
    rw [entries c' listed] at empty
    split at empty
    · cases empty
    · exact empty
  · intro b within
    rw [if_neg (by omega)]
    have none : ∀ c ∈ ([] : List Nat), InVolume clusters c := nofun
    exact zeroed_bytes geo none inside (by simp) nofun b within

/-- A part of a call that works on the node `i`, which becomes `p'`. -/
structure Phase (v : Volume) (clusters : Nat) (closed : List Entry) (fs : State) (i : Nat) (p' : Node) (fs' : State)
    (cs' : Object → List Nat) : Prop where
  inside : i < fs.nodes.length
  file : p'.isDir = false
  nodes : fs'.nodes = fs.nodes.set i p'
  own : Owns v clusters (objects fs'.nodes closed) cs' fs'.disk
  keeps : Keeps v (objects fs.nodes closed) (some (.inl i)) fs.disk fs'.disk

namespace Phase

variable {fs' : State} {cs' : Object → List Nat}

theorem refl (own : Owns v clusters (objects fs.nodes closed) cs fs.disk) (found : fs.nodes[i]? = some p)
    (file : p.isDir = false) (t : Nat) : Phase v clusters closed fs i p (fs.after fs.disk t) cs := by
  obtain ⟨inside, rfl⟩ := List.getElem?_eq_some_iff.mp found
  exact ⟨inside, file, (List.set_getElem_self inside).symm, own, Keeps.refl ..⟩

theorem node (phase : Phase v clusters closed fs i p' fs' cs') : fs'.nodes[i]? = some p' := by
  rw [phase.nodes, List.getElem?_set_self phase.inside]

theorem objects_eq (phase : Phase v clusters closed fs i p' fs' cs') :
    objects fs'.nodes closed = Function.update (objects fs.nodes closed) (.inl i) (some p'.toEntry) := by
  rw [phase.nodes, objects_set phase.inside]

theorem entry (phase : Phase v clusters closed fs i p' fs' cs') :
    objects fs'.nodes closed (.inl i) = some p'.toEntry := objects_node phase.node closed

theorem chain (phase : Phase v clusters closed fs i p' fs' cs') :
    IsChain v clusters fs'.disk p'.startCluster (cs' (.inl i)) := phase.own.chains _ _ phase.entry

theorem extend (phase : Phase v clusters closed fs i p' fs' cs')
    (keeps' : Keeps v (objects fs'.nodes closed) (some (.inl i)) fs'.disk m) :
    Keeps v (objects fs.nodes closed) (some (.inl i)) fs.disk m := by
  refine phase.keeps.trans keeps' (fun o other => ?_) fun j => ?_
  · rw [phase.objects_eq, Function.update_of_ne fun same => other (by rw [same])]
  · rw [phase.objects_eq, Function.update_of_ne (by simp)]

theorem write (geo : Geometry v clusters) (phase : Phase v clusters closed fs i p' fs' cs') {start a b : Nat}
    {ds : List Nat} {g : Nat → UInt8} (writes : Writes v clusters start fs'.disk (cs' (.inl i)) m ds a b g)
    (p'' : Node) (fs'' : State) (kept : p''.toEntry = { p'.toEntry with startCluster := start, size := p''.size })
    (size : p''.size ≤ ds.length * v.bytesPerCluster) (small : p''.size < 2 ^ 32)
    (nodes : fs''.nodes = fs'.nodes.set i p'') (disk : fs''.disk = m) :
    Phase v clusters closed fs i p'' fs'' (Function.update cs' (.inl i) ds) := by
  obtain ⟨own, keeps⟩ := phase.own.write geo phase.entry phase.file writes kept size small
  have inside : i < fs'.nodes.length := by rw [phase.nodes, List.length_set]; exact phase.inside
  refine ⟨phase.inside, ?_, ?_, ?_, ?_⟩
  · have := congrArg Entry.isDir kept
    exact this.trans phase.file
  · rw [nodes, phase.nodes, List.set_set]
  · rw [nodes, objects_set inside, disk]
    exact own
  · rw [disk]
    exact phase.extend keeps

theorem updateDirent (ok : Reliable dev) (geo : Geometry v clusters)
    (phase : Phase v clusters closed fs i p' fs' cs') (newSize newCluster : Nat) :
    Phase v clusters closed fs i p' (fat32UpdateDirent dev fs' i newSize newCluster) cs' ∧
      ∀ x < (cs' (.inl i)).length * v.bytesPerCluster,
        fileByte v (fat32UpdateDirent dev fs' i newSize newCluster).disk (cs' (.inl i)) x =
          fileByte v fs'.disk (cs' (.inl i)) x := by
  obtain ⟨m, t, updated, own, keeps, data⟩ := fat32UpdateDirent_ok ok geo phase.own phase.node phase.file newSize newCluster
  rw [updated]
  refine ⟨⟨phase.inside, phase.file, phase.nodes, own, phase.extend keeps.weaken⟩, ?_⟩
  exact fun x within => fileByte_congr geo data within

theorem contents_chain (geo : Geometry v clusters) (phase : Phase v clusters closed fs i p' fs' cs') :
    contents v fs'.disk p'.toEntry = (List.range p'.size).map (fileByte v fs'.disk (cs' (.inl i))) := by
  rw [contents, phase.chain.chain_eq geo]

end Phase

theorem Owns.empty {obj : Object → Option Entry} {o : Object} {e : Entry} (own : Owns v clusters obj cs m)
    (found : obj o = some e) (none : e.startCluster < 2) (file : e.isDir = false) : cs o = [] ∧ e.size = 0 := by
  have noCluster : cs o = [] := by
    cases same : cs o with
    | nil => rfl
    | cons x rest =>
      obtain ⟨last, path, _⟩ := (own.chains o e found).path
      rw [same] at path
      have := ((own.chains o e found).inside x (by rw [same]; simp)).1
      have start : e.startCluster = x := path.1
      omega
  refine ⟨noCluster, ?_⟩
  have := (own.covers o e found file).1
  rw [noCluster] at this
  simpa using this

theorem firstCluster_steps (ok : Reliable dev) (geo : Geometry v clusters) (free : FreeInside v clusters fs.disk)
    (i start : Nat) (g : Nat → UInt8) :
    2 ≤ start ∧ firstCluster dev v fs i start = (some start, fs) ∨
      start < 2 ∧ ((∃ t, firstCluster dev v fs i start = (none, fs.after fs.disk t) ∧ Full dev v fs.disk) ∨
        ∃ c m t, firstCluster dev v fs i start = (some c,
            fat32UpdateDirent dev ((fs.setNode i fun p => { p with startCluster := c }).after m t) i keepField c) ∧
          InVolume clusters c ∧ Writes v clusters c fs.disk [] m [c] 0 0 g) := by
  rw [firstCluster]
  split
  · rename_i none
    refine Or.inr ⟨none, ?_⟩
    obtain ⟨c, m, t, allocated, ⟨full, same⟩ | ⟨inside, zero, marked⟩⟩ := fatAllocCluster_ok ok geo fs free
    · refine Or.inl ⟨t, ?_, fs, rfl, by rw [allocated, full]⟩
      simp only [allocated, full, same, if_true]
    · have positive : c ≠ 0 := by have := inside.1; omega
      obtain ⟨t', cleared⟩ := zeroCluster_ok ok geo ((fs.after m t).setNode i fun p => { p with startCluster := c }) inside
      refine Or.inr ⟨c, _, t', ?_, inside, Allocates.begins geo free inside zero marked g⟩
      simp only [allocated, positive, if_false, cleared]
      rfl
  · rename_i some
    exact Or.inl ⟨Nat.not_lt.mp some, rfl⟩

structure Begins (dev : Device) (v : Volume) (clusters : Nat) (closed : List Entry) (fs : State) (i : Nat) (p : Node)
    (cs : Object → List Nat) (start : Nat) (fs' : State) (cs' : Object → List Nat) : Prop where
  first : firstCluster dev v fs i p.startCluster = (some start, fs')
  high : 2 ≤ start
  phase : Phase v clusters closed fs i { p with startCluster := start } fs' cs'
  longer : (cs (.inl i)).length ≤ (cs' (.inl i)).length
  bytes : ∀ x < (cs' (.inl i)).length * v.bytesPerCluster, fileByte v fs'.disk (cs' (.inl i)) x =
    if x < (cs (.inl i)).length * v.bytesPerCluster then fileByte v fs.disk (cs (.inl i)) x else 0

theorem firstCluster_ok (ok : Reliable dev) (geo : Geometry v clusters)
    (own : Owns v clusters (objects fs.nodes closed) cs fs.disk) (found : fs.nodes[i]? = some p)
    (file : p.isDir = false) :
    (∃ t, firstCluster dev v fs i p.startCluster = (none, fs.after fs.disk t) ∧ p.startCluster < 2 ∧ Full dev v fs.disk) ∨
      ∃ start fs' cs', Begins dev v clusters closed fs i p cs start fs' cs' := by
  have node := objects_node found closed
  obtain ⟨some, first⟩ | ⟨none, ⟨t, first, full⟩ | ⟨c, m, t, first, inside, writes⟩⟩ :=
    firstCluster_steps ok geo own.free i p.startCluster fun _ => 0
  · refine Or.inr ⟨_, _, cs, first, some, Phase.refl own found file fs.clock, Nat.le_refl _, ?_⟩
    intro x within
    rw [if_pos within]
  · exact Or.inl ⟨t, first, none, full⟩
  · obtain ⟨noCluster, noBytes⟩ := own.empty node none file
    have writes : Writes v clusters c fs.disk (cs (.inl i)) m [c] 0 0 fun _ => 0 := by rwa [noCluster]
    have nodes : (fs.setNode i fun p => { p with startCluster := c }).nodes = fs.nodes.set i { p with startCluster := c } :=
      setNode_nodes found _
    have grown := (Phase.refl own found file fs.clock).write geo writes { p with startCluster := c }
      ((fs.setNode i fun p => { p with startCluster := c }).after m t) rfl (by simp [noBytes]) (by simp [noBytes]) nodes rfl
    obtain ⟨phase, kept⟩ := grown.updateDirent ok geo keepField c
    refine Or.inr ⟨c, _, _, first, inside.1, phase, by simp [noCluster], ?_⟩
    intro x within
    rw [kept x within]
    rw [Function.update_self] at within ⊢
    rw [after_disk, writes.bytes x within, if_neg (by omega)]

theorem firstCluster_contents (geo : Geometry v clusters) {cs₁ : Object → List Nat} {fs₁ : State} {start : Nat}
    (own : Owns v clusters (objects fs.nodes closed) cs fs.disk) (found : fs.nodes[i]? = some p) (file : p.isDir = false)
    (phase : Phase v clusters closed fs i { p with startCluster := start } fs₁ cs₁)
    (bytes : ∀ x < (cs₁ (.inl i)).length * v.bytesPerCluster, fileByte v fs₁.disk (cs₁ (.inl i)) x =
      if x < (cs (.inl i)).length * v.bytesPerCluster then fileByte v fs.disk (cs (.inl i)) x else 0) :
    contents v fs₁.disk { p.toEntry with startCluster := start } = contents v fs.disk p.toEntry := by
  have node := objects_node found closed
  refine contents_eq geo (own.chains _ _ node) phase.chain rfl fun x inside => ?_
  have after := Nat.lt_of_lt_of_le inside (phase.own.covers _ _ phase.entry phase.file).1
  have before := Nat.lt_of_lt_of_le inside (own.covers _ _ node file).1
  rw [bytes x after, if_pos before]

theorem splice_range {f h : Nat → UInt8} {size offset n : Nat} {buffer : List UInt8} (le : offset ≤ size)
    (fits : n ≤ buffer.length)
    (bytes : ∀ x < max size (offset + n), f x =
      if offset ≤ x ∧ x < offset + n then buffer.getD (x - offset) 0 else h x) :
    (List.range (max size (offset + n))).map f = splice ((List.range size).map h) offset (buffer.take n) := by
  refine List.ext_getElem ?_ fun x low high => ?_
  · simp only [splice, List.length_map, List.length_range, List.length_append, List.length_take, List.length_drop]
    omega
  · have below : x < max size (offset + n) := by simpa using low
    have first : (List.take offset ((List.range size).map h)).length = offset := by simp [le]
    have second : (buffer.take n).length = n := by simp [fits]
    simp only [List.getElem_map, List.getElem_range, bytes x below, splice, List.getElem_append, List.length_append,
      first, second, List.getElem_take, List.getElem_drop]
    by_cases before : x < offset
    · rw [if_neg (by omega), dif_pos (by omega), dif_pos before]
    · by_cases inside : x < offset + n
      · have index : x - offset < buffer.length := by omega
        rw [if_pos (by omega), dif_pos (by omega), dif_neg before, List.getD, List.getElem?_eq_getElem index,
          Option.getD_some]
      · rw [if_neg (by omega), dif_neg (by omega)]
        congr 1
        omega

section
variable {fs₁ : State} {p₁ : Node} {cs₁ : Object → List Nat} {ds : List Nat} {offset n : Nat} {buffer : List UInt8}

theorem Phase.extended (geo : Geometry v clusters) (phase : Phase v clusters closed fs i p₁ fs₁ cs₁) {g : Nat → UInt8}
    (writes : Writes v clusters p₁.startCluster fs₁.disk (cs₁ (.inl i)) m ds 0 0 g) (t : Nat) :
    Phase v clusters closed fs i p₁ (fs₁.after m t) (Function.update cs₁ (.inl i) ds) ∧
      contents v m p₁.toEntry = contents v fs₁.disk p₁.toEntry := by
  obtain ⟨room, small⟩ := phase.own.covers _ _ phase.entry phase.file
  have longer := Nat.mul_le_mul_right v.bytesPerCluster writes.grows.length_le
  refine ⟨phase.write geo writes p₁ (fs₁.after m t) rfl (Nat.le_trans room longer) small ?_ rfl, ?_⟩
  · rw [after_nodes, phase.nodes, List.set_set]
  · refine contents_eq geo phase.chain writes.chain rfl fun x inside => ?_
    have within := Nat.lt_of_lt_of_le inside room
    rw [writes.bytes x (Nat.lt_of_lt_of_le within longer), if_neg (by omega), if_pos within]

theorem Phase.grown (ok : Reliable dev) (geo : Geometry v clusters)
    (phase : Phase v clusters closed fs i p₁ fs₁ cs₁) {a b : Nat} {g : Nat → UInt8}
    (writes : Writes v clusters p₁.startCluster fs₁.disk (cs₁ (.inl i)) m ds a b g) (grows : offset > p₁.size)
    (reach : offset ≤ ds.length * v.bytesPerCluster) (t : Nat) :
    ∃ cs', Phase v clusters closed fs i { p₁ with size := u32 offset, length := offset }
        (recordSize dev (fs₁.after m t) i p₁.size offset) cs' ∧ cs' (.inl i) = ds ∧
      ∀ x < ds.length * v.bytesPerCluster,
        fileByte v (recordSize dev (fs₁.after m t) i p₁.size offset).disk ds x = fileByte v m ds x := by
  rw [recordSize, if_pos grows]
  have nodes : ((fs₁.after m t).setNode i fun p => { p with size := u32 offset, length := offset }).nodes =
      fs₁.nodes.set i { p₁ with size := u32 offset, length := offset } := setNode_nodes phase.node _
  have changed := phase.write geo writes { p₁ with size := u32 offset, length := offset }
    ((fs₁.after m t).setNode i fun p => { p with size := u32 offset, length := offset }) rfl
    (Nat.le_trans (Nat.mod_le _ _) reach) (Nat.mod_lt _ (by decide)) nodes rfl
  obtain ⟨final, same⟩ := changed.updateDirent ok geo (u32 offset) keepField
  rw [Function.update_self] at same
  exact ⟨_, final, Function.update_self .., same⟩

theorem Phase.recorded (ok : Reliable dev) (geo : Geometry v clusters)
    (phase : Phase v clusters closed fs i p₁ fs₁ cs₁)
    (writes : Writes v clusters p₁.startCluster fs₁.disk (cs₁ (.inl i)) m ds offset (offset + n)
      fun x => buffer.getD (x - offset) 0)
    (le : offset ≤ p₁.size) (fits : n ≤ buffer.length) (reach : offset + n ≤ ds.length * v.bytesPerCluster)
    (bound : offset + n < 2 ^ 32) (t : Nat) :
    ∃ p' cs', Phase v clusters closed fs i p' (recordSize dev (fs₁.after m t) i p₁.size (offset + n)) cs' ∧
      contents v (recordSize dev (fs₁.after m t) i p₁.size (offset + n)).disk p'.toEntry =
        splice (contents v fs₁.disk p₁.toEntry) offset (buffer.take n) := by
  obtain ⟨room, small⟩ := phase.own.covers _ _ phase.entry phase.file
  have longer := Nat.mul_le_mul_right v.bytesPerCluster writes.grows.length_le
  have within : max p₁.size (offset + n) ≤ ds.length * v.bytesPerCluster := by omega
  have bytes : (List.range (max p₁.size (offset + n))).map (fileByte v m ds) =
      splice (contents v fs₁.disk p₁.toEntry) offset (buffer.take n) := by
    rw [contents, phase.chain.chain_eq geo]
    refine splice_range le fits fun x below => ?_
    rw [writes.bytes x (Nat.lt_of_lt_of_le below within)]
    split
    · rfl
    · rw [if_pos (by omega)]
  by_cases grows : offset + n > p₁.size
  · have whole : u32 (offset + n) = offset + n := Nat.mod_eq_of_lt bound
    have all : max p₁.size (offset + n) = offset + n := by omega
    obtain ⟨cs', final, clusters_, same⟩ := phase.grown ok geo writes grows reach t
    refine ⟨_, cs', final, ?_⟩
    rw [final.contents_chain geo, ← bytes, all, whole, clusters_]
    exact List.map_congr_left fun x member => same x (Nat.lt_of_lt_of_le (List.mem_range.mp member) reach)
  · rw [recordSize, if_neg grows]
    have all : max p₁.size (offset + n) = p₁.size := by omega
    refine ⟨p₁, _, phase.write geo writes p₁ (fs₁.after m t) rfl (by omega) small ?_ rfl, ?_⟩
    · rw [after_nodes, phase.nodes, List.set_set]
    · rw [← bytes, all, contents, after_disk, writes.chain.chain_eq geo]

/-- How `fat32_write` ends for a file that has the clusters `ds₁`: before the offset, as no cluster is free, or
with bytes written at the offset. -/
inductive WriteTail (dev : Device) (v : Volume) (clusters start : Nat) (fs₁ : State) (i size : Nat) (ds₁ : List Nat)
    (offset : Nat) (buffer : List UInt8) : Nat × State → Prop where
  | unreached {m : Mem} {ds : List Nat} (t : Nat)
      (extended : Writes v clusters start fs₁.disk ds₁ m ds 0 0 fun x => buffer.getD (x - offset) 0)
      (short : ds.length * v.bytesPerCluster ≤ offset) (full : Full dev v m) :
      WriteTail dev v clusters start fs₁ i size ds₁ offset buffer (0, fs₁.after m t)
  | written {m : Mem} {ds : List Nat} {n : Nat} (t : Nat)
      (writes : Writes v clusters start fs₁.disk ds₁ m ds offset (offset + n) fun x => buffer.getD (x - offset) 0)
      (some : 0 < n) (fits : n ≤ buffer.length) (reach : offset + n ≤ ds.length * v.bytesPerCluster)
      (short : n < buffer.length → offset + n = ds.length * v.bytesPerCluster ∧ Full dev v m) :
      WriteTail dev v clusters start fs₁ i size ds₁ offset buffer
        (n, recordSize dev (fs₁.after m t) i size (offset + n))

theorem fat32Write_tail (ok : Reliable dev) (geo : Geometry v clusters) (found : fs.nodes[i]? = some p)
    (file : p.isDir = false) (some : buffer.length ≠ 0) {start : Nat}
    (first : firstCluster dev v fs i p.startCluster = (.some start, fs₁)) (high : 2 ≤ start)
    (free : FreeInside v clusters fs₁.disk) (ch : IsChain v clusters fs₁.disk start ds) {fuel : Nat}
    (enough : offset + buffer.length < fuel) :
    Safe (fat32Write dev v fuel fs i offset buffer) (WriteTail dev v clusters start fs₁ i p.size ds offset buffer) := by
  rw [fat32Write]
  simp only [found, file, Bool.false_eq_true, if_false, some, first]
  obtain ⟨rest, chain⟩ := ch.head high
  refine Safe.bind (seekLoop_ok ok geo offset (fun x => buffer.getD (x - offset) 0) fuel 0 ⟨start, 0, 0⟩
    free ch (by rw [chain]; rfl) (by simp) (Nat.zero_le _)
    (by have := Nat.div_le_self offset v.bytesPerCluster; omega)) ?_
  rintro ⟨at_, fs₂⟩ ⟨m₂, cs₂, t₂, rfl, extended, cursor, short⟩
  cases at_ with
  | none =>
    obtain ⟨before, full⟩ := short rfl
    exact Safe.ok (.unreached t₂ extended before full)
  | some at_ =>
    have place := cursor at_ rfl
    have reached : offset < cs₂.length * v.bytesPerCluster :=
      (Nat.div_lt_iff_lt_mul (bytes_pos geo)).mp (lt_of_some place.2)
    refine Safe.bind (writeLoop_ok ok geo buffer fuel extended.free extended.chain (Nat.zero_le _)
      (by rw [Nat.add_zero]; omega) (fun _ => ⟨Or.inl place, fun first => absurd first (Nat.lt_irrefl 0)⟩) (by omega)) ?_
    rintro ⟨n, fs₃⟩ ⟨m₃, cs₃, t₃, rfl, _, fits, reach, short, written⟩
    simp only at fits reach short written
    have writes := (extended.move offset).trans geo written (Nat.le_refl _) (by omega) (by omega)
    have longer := Nat.mul_le_mul_right v.bytesPerCluster written.grows.length_le
    have some : 0 < n := by
      by_contra none
      have := short (by omega)
      omega
    exact Safe.ok (@WriteTail.written dev v clusters start fs₁ i p.size ds offset buffer m₃ cs₃ n t₃ writes some fits reach
      short)

/-- How `fat32_write` ends: without data or a first cluster, before the offset as no cluster is free, or
with bytes written at the offset. -/
inductive WriteEffect (dev : Device) (v : Volume) (clusters : Nat) (closed : List Entry) (fs : State) (i : Nat) (p : Node)
    (cs : Object → List Nat) (offset : Nat) (buffer : List UInt8) : Nat × State → Prop where
  | empty (none : buffer.length = 0) : WriteEffect dev v clusters closed fs i p cs offset buffer (0, fs)
  | unplaced (t : Nat) (none : p.startCluster < 2) (full : Full dev v fs.disk) :
      WriteEffect dev v clusters closed fs i p cs offset buffer (0, fs.after fs.disk t)
  | unreached {start : Nat} {fs₁ : State} {cs₁ : Object → List Nat} {m : Mem} {ds : List Nat} (t : Nat)
      (begins : Begins dev v clusters closed fs i p cs start fs₁ cs₁)
      (extended : Writes v clusters start fs₁.disk (cs₁ (.inl i)) m ds 0 0 fun x => buffer.getD (x - offset) 0)
      (short : ds.length * v.bytesPerCluster ≤ offset) (full : Full dev v m) :
      WriteEffect dev v clusters closed fs i p cs offset buffer (0, fs₁.after m t)
  | written {start : Nat} {fs₁ : State} {cs₁ : Object → List Nat} {m : Mem} {ds : List Nat} {n : Nat} (t : Nat)
      (begins : Begins dev v clusters closed fs i p cs start fs₁ cs₁)
      (writes : Writes v clusters start fs₁.disk (cs₁ (.inl i)) m ds offset (offset + n)
        fun x => buffer.getD (x - offset) 0)
      (some : 0 < n) (fits : n ≤ buffer.length) (reach : offset + n ≤ ds.length * v.bytesPerCluster)
      (short : n < buffer.length → offset + n = ds.length * v.bytesPerCluster ∧ Full dev v m) :
      WriteEffect dev v clusters closed fs i p cs offset buffer
        (n, recordSize dev (fs₁.after m t) i p.size (offset + n))

theorem fat32Write_effect (ok : Reliable dev) (geo : Geometry v clusters)
    (own : Owns v clusters (objects fs.nodes closed) cs fs.disk) (found : fs.nodes[i]? = some p) (file : p.isDir = false)
    {fuel : Nat} (enough : offset + buffer.length < fuel) :
    Safe (fat32Write dev v fuel fs i offset buffer) (WriteEffect dev v clusters closed fs i p cs offset buffer) := by
  by_cases none : buffer.length = 0
  · rw [fat32Write]
    simp only [found, file, Bool.false_eq_true, if_false, none, if_true]
    exact Safe.ok (.empty none)
  obtain ⟨t, first, low, full⟩ | ⟨start, fs₁, cs₁, begins⟩ := firstCluster_ok ok geo own found file
  · rw [fat32Write]
    simp only [found, file, Bool.false_eq_true, if_false, none, first]
    exact Safe.ok (.unplaced t low full)
  · have phase := begins.phase
    refine (fat32Write_tail ok geo found file none begins.first begins.high phase.own.free phase.chain enough).mono ?_
    intro r tail
    cases tail with
    | unreached t extended short full => exact .unreached t begins extended short full
    | written t writes some fits reach short => exact .written t begins writes some fits reach short

theorem fat32Write_ok (ok : Reliable dev) (formed : WellFormed v clusters closed fs) (found : fs.nodes[i]? = some p)
    (file : p.isDir = false) {fuel : Nat} (le : offset ≤ p.size) (bound : offset + buffer.length < 2 ^ 32)
    (enough : offset + buffer.length < fuel) :
    Safe (fat32Write dev v fuel fs i offset buffer) fun r => r.1 ≤ buffer.length ∧ ∃ p' cs',
      Phase v clusters closed fs i p' r.2 cs' ∧
      contents v r.2.disk p'.toEntry = splice (contents v fs.disk p.toEntry) offset (buffer.take r.1) := by
  obtain ⟨geo, cs, own⟩ := formed
  have nothing : splice (contents v fs.disk p.toEntry) offset (buffer.take 0) = contents v fs.disk p.toEntry := by
    simp [splice]
  refine (fat32Write_effect ok geo own found file enough).mono fun r effect => ?_
  cases effect with
  | empty none => exact ⟨Nat.zero_le _, p, cs, Phase.refl own found file fs.clock, nothing.symm⟩
  | unplaced t none full => exact ⟨Nat.zero_le _, p, cs, Phase.refl own found file t, nothing.symm⟩
  | unreached t begins extended short full =>
    have unchanged := firstCluster_contents geo own found file begins.phase begins.bytes
    obtain ⟨longer, kept⟩ := begins.phase.extended geo extended t
    exact ⟨Nat.zero_le _, _, _, longer, kept.trans (unchanged.trans nothing.symm)⟩
  | @written start fs₁ cs₁ m ds n t begins writes some fits reach short =>
    have unchanged := firstCluster_contents geo own found file begins.phase begins.bytes
    obtain ⟨p', cs', final, equal⟩ := begins.phase.recorded ok geo writes le fits reach (by omega) t
    have old := congrArg (fun old => splice old offset (buffer.take n)) unchanged
    exact ⟨fits, p', cs', final, equal.trans old⟩

end

theorem contents_range (geo : Geometry v clusters) {e : Entry} {ds : List Nat}
    (ch : IsChain v clusters m e.startCluster ds) (offset size : Nat) :
    ((contents v m e).drop offset).take size = fileBytes v m ds offset (min size (e.size - offset)) := by
  rw [contents, ch.chain_eq geo]
  refine List.ext_getElem ?_ fun k low high => ?_
  · simp only [List.length_take, List.length_drop, List.length_map, List.length_range, fileBytes]
  · simp only [List.getElem_take, List.getElem_drop, List.getElem_map, List.getElem_range, fileBytes]

theorem fat32Read_ok (ok : Reliable dev) (formed : WellFormed v clusters closed fs) (found : fs.nodes[i]? = some p)
    (file : p.isDir = false) {offset size fuel : Nat} (bound : offset + size < 2 ^ 64) (enough : p.size < fuel) :
    Safe (fat32Read dev v fuel fs i offset size) fun r => ∃ t,
      r = (((contents v fs.disk p.toEntry).drop offset).take size, fs.after fs.disk t) := by
  obtain ⟨geo, cs, own⟩ := formed
  have node := objects_node found closed
  have ch := own.chains _ _ node
  obtain ⟨room, small⟩ := own.covers _ _ node file
  have clamp : (if u64 (offset + size) > p.size then p.size - offset else size) = min size (p.size - offset) ∨
      offset ≥ p.size := by
    rw [u64, Nat.mod_eq_of_lt bound]
    split <;> omega
  rw [fat32Read, contents_range geo ch]
  simp only [found, file, Bool.false_eq_true, if_false]
  refine Safe.ite (fun beyond => Safe.ok ⟨fs.clock, ?_⟩) fun before => ?_
  · have none : min size (p.size - offset) = 0 := by omega
    rw [none]
    rfl
  rw [clamp.resolve_right before]
  have high : 2 ≤ p.startCluster := by
    by_contra low
    have := (own.empty node (by omega) file).2
    omega
  obtain ⟨rest, chain⟩ := ch.head high
  have begins : (cs (.inl i))[0]? = some p.startCluster := by rw [chain]; rfl
  have divided := Nat.div_le_self offset v.bytesPerCluster
  have skip := skipLoop_ok ok geo offset (by omega) (by omega) fuel 0 fs ch begins (Nat.zero_le _) (by omega)
  rw [Nat.zero_mul] at skip
  refine Safe.bind skip ?_
  rintro _ ⟨c, t, rfl, here⟩
  refine (readLoop_ok ok geo (by omega) fuel 0 (fs.after fs.disk t) ch (Nat.zero_le _) (fun _ => ?_) (by omega)).mono ?_
  · exact ⟨rfl, here, fun large => absurd large (Nat.lt_irrefl 0)⟩
  · rintro _ ⟨t', rfl⟩
    exact ⟨t', rfl⟩

end RexOs.Fs
