import RexOs.Fs.FatCoherent

/-! The nodes as a cache of the directory entries, in every history of calls.

A file is known by the place of its directory entry. When a file or directory is removed, its
node and those below it are left behind: they are for nothing any more.
-/

set_option autoImplicit false

namespace RexOs.Fs

open RexOs.Library

inductive CacheCall where
  | create (d : Nat) (name : List UInt8)
  | mkdir (d : Nat) (name : List UInt8)
  | unlink (d : Nat) (name : List UInt8)
  | write (i offset : Nat) (buffer : List UInt8)
  | readdir (d index : Nat)
  | finddir (d : Nat) (name : List UInt8)

structure NodeCache where
  fs : State
  gone : Set Nat

/-- No two nodes are for one file or directory, and a file among the children of a directory has the length, the size
and the first cluster that its entry on the disk says. -/
structure CacheCoherent (s : NodeCache) : Prop where
  single : ∀ i j p q, i ∉ s.gone → j ∉ s.gone → s.fs.nodes[i]? = some p → s.fs.nodes[j]? = some q →
    slotAddr p.toEntry = slotAddr q.toEntry → i = j
  children : ∀ d i p, d ∉ s.gone → i ∈ s.fs.kids d → s.fs.nodes[i]? = some p → p.isDir = false →
    p.length = p.size ∧ sizeField s.fs.disk (slotAddr p.toEntry) = p.size ∧
      clusterField s.fs.disk (slotAddr p.toEntry) = p.startCluster

namespace CacheCall

def node : CacheCall → Nat
  | .create d _ => d
  | .mkdir d _ => d
  | .unlink d _ => d
  | .write i _ _ => i
  | .readdir d _ => d
  | .finddir d _ => d

def run (dev : Device) (v : Volume) (fuel : Nat) (fs : State) : CacheCall → Except Fault State
  | .create d name => do
      let r ← fat32CreateImpl dev v fuel fs d name
      .ok r.2
  | .mkdir d name => do
      let r ← fat32MkdirImpl dev v fuel fs d name
      .ok r.2
  | .unlink d name => do
      let r ← fat32UnlinkImpl dev v fuel fs d name
      .ok r.2
  | .write i offset buffer => do
      let r ← fat32Write dev v fuel fs i offset buffer
      .ok r.2
  | .readdir d index => do
      let r ← fat32Readdir dev v fuel fs d index
      .ok r.2
  | .finddir d name => do
      let r ← fat32Finddir dev v fuel fs d name
      .ok r.2

def removes (fs fs' : State) : CacheCall → Set Nat
  | .unlink d _ => {i | ∃ r, (r ∈ fs.kids d ∨ fs.nodes.length ≤ r ∧ r < fs'.nodes.length) ∧ r ∉ fs'.kids d ∧ Reach fs.kids r i}
  | _ => ∅

/-- An entry is only made in a directory that was loaded, under a name that does not begin like a deleted one, and a
file does not outgrow the size field of its entry. -/
def Fitting (v : Volume) (clusters : Nat) (m : Mem) (p : Node) : CacheCall → Prop
  | .create _ name => p.isDir = true → p.childrenLoaded = true ∧ Usable (nameTo83 name)
  | .mkdir _ name => p.isDir = true → p.childrenLoaded = true ∧ Usable (nameTo83 name)
  | .write _ offset buffer => p.isDir = false → SizeFits v clusters m p.toEntry offset buffer.length
  | _ => True

end CacheCall

section
variable (dev : Device) (v : Volume)

def CacheStep (s : NodeCache) (call : CacheCall) (s' : NodeCache) : Prop :=
  (∃ fuel, call.run dev v fuel s.fs = .ok s'.fs) ∧ s'.gone = s.gone ∪ call.removes s.fs s'.fs

def CarefulStep (clusters : Nat) (s : NodeCache) (call : CacheCall) (s' : NodeCache) : Prop :=
  (call.node ∉ s.gone ∧ ∀ p, s.fs.nodes[call.node]? = some p → call.Fitting v clusters s.fs.disk p) ∧
    CacheStep dev v s call s'

end

variable {dev : Device} {v : Volume} {clusters : Nat} {kind : Nat → Option Bool} {cs : Nat → List Nat}
variable {fs fs' : State} {s s' : NodeCache} {gone gone' : Set Nat} {d i fuel : Nat} {dp : Node} {name : List UInt8}
variable {isDir : Bool} {call : CacheCall}

structure Cached (v : Volume) (clusters : Nat) (fs : State) (gone : Set Nat) : Prop where
  coherent : ∃ kind cs, Coherent v clusters kind cs fs
  reached : ∀ i < fs.nodes.length, i ∉ gone → Reach fs.kids 0 i

theorem Cached.more (cached : Cached v clusters fs gone) (more : gone ⊆ gone') : Cached v clusters fs gone' :=
  ⟨cached.coherent, fun i inside kept => cached.reached i inside fun old => kept (more old)⟩

theorem reached_grafted {dp' : Node} {new : List Node} (reached : ∀ i < fs.nodes.length, i ∉ gone → Reach fs.kids 0 i)
    (reach : Reach fs.kids 0 d) (appends : Appends fs d dp dp' new fs')
    (grafted : Grafted fs.kids d (List.range' fs.nodes.length new.length) fs'.kids) :
    ∀ i < fs'.nodes.length, i ∉ gone → Reach fs'.kids 0 i := by
  intro i inside kept
  rw [appends.nodes, List.length_set, List.length_append] at inside
  rcases Nat.lt_or_ge i fs.nodes.length with old | fresh
  · exact grafted.reach (reached i old kept)
  · apply (grafted.reach reach).child
    rw [grafted.here]
    exact List.mem_append_right _ (List.mem_range'_1.mpr ⟨fresh, inside⟩)

theorem Coherent.openedCached (coherent : Coherent v clusters kind cs fs)
    (reached : ∀ i < fs.nodes.length, i ∉ gone → Reach fs.kids 0 i) (geo : Geometry v clusters) (reach : Reach fs.kids 0 d)
    (found : fs.nodes[d]? = some dp) (isDir : dp.isDir = true) (opened : Opened v (cs dp.startCluster) fs d dp fs') :
    Coherent v clusters kind cs fs' ∧ ∀ i < fs'.nodes.length, i ∉ gone → Reach fs'.kids 0 i := by
  refine ⟨coherent.opened geo reach found isDir opened, ?_⟩
  rcases opened with ⟨rfl, -⟩ | loaded
  · exact reached
  · obtain ⟨new, cap, -, appends, grafted⟩ := loaded.grafts
    exact reached_grafted reached reach appends grafted

theorem Coherent.entered (coherent : Coherent v clusters kind cs fs)
    (reached : ∀ i < fs.nodes.length, i ∉ gone → Reach fs.kids 0 i) (geo : Geometry v clusters) (reach : Reach fs.kids 0 d)
    (isDirectory : dp.isDir = true) (loaded : dp.childrenLoaded = true) (usable : Usable (nameTo83 name))
    (effect : Unchanged v clusters kind cs fs fs' ∨
      ∃ c a m₁, Placed v clusters kind cs fs d dp isDir (nameTo83 name) c a m₁ fs') : Cached v clusters fs' gone := by
  rcases effect with same | ⟨c, a, m₁, made⟩
  · refine ⟨⟨kind, cs, coherent.unchanged same⟩, ?_⟩
    have kids : fs'.kids = fs.kids := by
      funext i
      rw [State.kids, same.nodes, State.kids]
    rw [same.nodes, kids]
    exact reached
  · refine ⟨⟨_, _, coherent.placed geo made reach isDirectory loaded (nameTo83_plain name) usable⟩, ?_⟩
    obtain ⟨n, cap, -, -, -, -, -, -, appends⟩ := made.node
    have grafted := appends.grafted loaded (by rw [kids_some appends.found, loaded]; rfl)
    exact reached_grafted reached reach appends grafted

theorem CacheCall.run_none (missing : fs.nodes[call.node]? = none) (returned : call.run dev v fuel fs = .ok fs') : fs' = fs := by
  cases call
  all_goals
    simp only [node] at missing
    simp only [run, fat32CreateImpl, fat32MkdirImpl, fat32UnlinkImpl, fat32Write, fat32Readdir, fat32Finddir, missing] at returned
    cases returned
    rfl

theorem Removed.length {e : Entry} {m₁ : Mem} (gone : Removed v cs fs d i e m₁ fs') : fs'.nodes.length = fs.nodes.length := by
  have same : fs'.nodes.map Node.length = fs.nodes.map Node.length := by
    apply List.ext_getElem?
    intro j
    rw [List.getElem?_map, List.getElem?_map]
    exact gone.lengths j
  have length := congrArg List.length same
  rwa [List.length_map, List.length_map] at length

theorem Coherent.unlinked (ok : Reliable dev) (geo : Geometry v clusters) (coherent : Coherent v clusters kind cs fs)
    (reached : ∀ i < fs.nodes.length, i ∉ gone → Reach fs.kids 0 i) (reach : Reach fs.kids 0 d) {done : Bool}
    (returned : fat32UnlinkImpl dev v fuel fs d name = .ok (done, fs')) :
    Cached v clusters fs' (gone ∪ (CacheCall.unlink d name).removes fs fs') := by
  rcases fat32UnlinkImpl_effect ok geo coherent.sound reach returned with rfl | ⟨dp, fs₁, found, isDir, opened, rest⟩
  · exact Cached.more ⟨⟨kind, cs, coherent⟩, reached⟩ Set.subset_union_left
  obtain ⟨coherent₁, reached₁⟩ := coherent.openedCached reached geo reach found isDir opened
  have reach₁ := (opened.looked coherent.sound geo reach found isDir).more d reach
  rcases rest with rfl | ⟨r, e, m₁, taken⟩
  · exact Cached.more ⟨⟨kind, cs, coherent₁⟩, reached₁⟩ Set.subset_union_left
  refine ⟨⟨_, _, coherent₁.removed geo taken reach₁⟩, ?_⟩
  have pruned := taken.pruned
  have away : r ∉ fs'.kids d := fun member => ((pruned.here r).mp member).2 rfl
  intro i inside kept
  rw [taken.length] at inside
  rcases pruned.below (reached₁ i inside fun old => kept (Or.inl old)) with still | below
  · exact still
  apply absurd (Or.inr _) kept
  have member := pruned.member
  rcases opened with ⟨rfl, -⟩ | loaded
  · exact ⟨r, Or.inl member, away, below⟩
  · -- the directory is read by the call: the node is new, and nothing is below it
    obtain ⟨new, cap, -, appends, grafted⟩ := loaded.grafts
    have none : fs.kids d = [] := by
      rw [kids_some found, loaded.before]
      rfl
    have fresh : r ∈ List.range' fs.nodes.length new.length := by
      rwa [grafted.here, none, List.nil_append] at member
    have within : r < fs'.nodes.length := by
      rw [taken.length]
      exact coherent₁.sound.inside (reach₁.child member)
    rw [below.childless (grafted.childless r fresh)]
    exact ⟨r, Or.inr ⟨(List.mem_range'_1.mp fresh).1, within⟩, away, Reach.refl _ _⟩

theorem CacheCall.run_cached (ok : Reliable dev) (geo : Geometry v clusters) (cached : Cached v clusters fs gone)
    (present : call.node ∉ gone) (fitting : ∀ p, fs.nodes[call.node]? = some p → call.Fitting v clusters fs.disk p)
    (returned : call.run dev v fuel fs = .ok fs') : Cached v clusters fs' (gone ∪ call.removes fs fs') := by
  cases found : fs.nodes[call.node]? with
  | none =>
    rw [run_none found returned]
    exact cached.more Set.subset_union_left
  | some dp =>
    have fits := fitting dp found
    have kept := cached
    obtain ⟨⟨kind, cs, coherent⟩, reached⟩ := cached
    have sound := coherent.sound
    have reach := reached call.node (List.getElem?_eq_some_iff.mp found).1 present
    cases call with
    | create d name =>
      have found : fs.nodes[d]? = some dp := found
      obtain ⟨⟨child, fs'⟩, made, rest⟩ := bind_returns returned
      cases rest
      apply Cached.more _ Set.subset_union_left
      cases isDir : dp.isDir with
      | false =>
        simp only [fat32CreateImpl, found, isDir, Bool.false_eq_true, if_false] at made
        cases made
        exact kept
      | true =>
        obtain ⟨loaded, usable⟩ := fits isDir
        exact coherent.entered reached geo reach isDir loaded usable
          (fat32CreateImpl_effect ok geo sound.tree found (sound.dir reach found isDir) made)
    | mkdir d name =>
      have found : fs.nodes[d]? = some dp := found
      obtain ⟨⟨done, fs'⟩, made, rest⟩ := bind_returns returned
      cases rest
      apply Cached.more _ Set.subset_union_left
      cases isDir : dp.isDir with
      | false =>
        simp only [fat32MkdirImpl, found, isDir, Bool.false_eq_true, if_false] at made
        cases made
        exact kept
      | true =>
        obtain ⟨loaded, usable⟩ := fits isDir
        exact coherent.entered reached geo reach isDir loaded usable
          (fat32MkdirImpl_effect ok geo sound.tree found (sound.dir reach found isDir) made)
    | unlink d name =>
      obtain ⟨⟨done, fs'⟩, removed, rest⟩ := bind_returns returned
      cases rest
      exact coherent.unlinked ok geo reached reach removed
    | write i offset buffer =>
      obtain ⟨⟨n, fs'⟩, written, rest⟩ := bind_returns returned
      cases rest
      apply Cached.more _ Set.subset_union_left
      obtain ⟨after, kids, length⟩ := fat32Write_coherent ok geo coherent reach fitting written
      refine ⟨after, ?_⟩
      rw [kids, length]
      exact reached
    | readdir d index =>
      obtain ⟨⟨answer, fs'⟩, read, rest⟩ := bind_returns returned
      cases rest
      apply Cached.more _ Set.subset_union_left
      rcases fat32Readdir_opens ok geo sound reach read with rfl | ⟨dp, known, isDir, opened⟩
      · exact kept
      · obtain ⟨coherent', reached'⟩ := coherent.openedCached reached geo reach known isDir opened
        exact ⟨⟨kind, cs, coherent'⟩, reached'⟩
    | finddir d name =>
      obtain ⟨⟨answer, fs'⟩, search, rest⟩ := bind_returns returned
      cases rest
      apply Cached.more _ Set.subset_union_left
      rcases fat32Finddir_opens ok geo sound reach search with ⟨rfl, -⟩ | ⟨dp, known, isDir, opened, -⟩
      · exact kept
      · obtain ⟨coherent', reached'⟩ := coherent.openedCached reached geo reach known isDir opened
        exact ⟨⟨kind, cs, coherent'⟩, reached'⟩

theorem carefulStep_cached (ok : Reliable dev) (geo : Geometry v clusters) (cached : Cached v clusters s.fs s.gone)
    (step : CarefulStep dev v clusters s call s') : Cached v clusters s'.fs s'.gone := by
  obtain ⟨⟨present, fitting⟩, ⟨fuel, returned⟩, gone⟩ := step
  rw [gone]
  exact CacheCall.run_cached ok geo cached present fitting returned

theorem Mounted.cached (mounted : Mounted v fs) (tree : Tree v clusters kind cs fs.disk) (gone : Set Nat) :
    Cached v clusters fs gone := by
  refine ⟨⟨kind, cs, mounted.sound tree, ?_, ?_⟩, ?_⟩
  · exact fun i p reach child => absurd (mounted.reach reach) child
  · intro i j _ _ reach reach' _ _ _
    rw [mounted.reach reach, mounted.reach reach']
  · intro i inside _
    obtain ⟨r, nodes, -⟩ := mounted.root
    rw [nodes, List.length_singleton, Nat.lt_one_iff] at inside
    rw [inside]
    exact Reach.refl _ _

theorem Cached.cacheCoherent (cached : Cached v clusters s.fs s.gone) : CacheCoherent s := by
  obtain ⟨⟨kind, cs, coherent⟩, reached⟩ := cached
  have inside : ∀ {i : Nat} {p : Node}, s.fs.nodes[i]? = some p → i < s.fs.nodes.length :=
    fun found => (List.getElem?_eq_some_iff.mp found).1
  constructor
  · exact fun i j p q kept kept' found found' =>
      coherent.places i j p q (reached i (inside found) kept) (reached j (inside found') kept') found found'
  · intro d i p kept member found file
    have reach : Reach s.fs.kids 0 d := by
      apply reached d _ kept
      by_contra outside
      rw [State.kids, List.getElem?_eq_none (Nat.not_lt.mp outside)] at member
      cases member
    have agrees := coherent.agrees i p (reach.child member) (coherent.sound.file_child found file) found
    exact ⟨agrees.length file, agrees.size file, agrees.cluster⟩

/-- As long as every call is careful, the nodes agree with the disk. -/
theorem cache_stays_coherent (ok : Reliable dev) (geo : Geometry v clusters) {start : NodeCache} {calls : List CacheCall}
    (mounted : Mounted v start.fs) (tree : Tree v clusters kind cs start.fs.disk)
    (run : Run (CarefulStep dev v clusters) start calls s) : CacheCoherent s := by
  have cached := run.invariant (fun s => Cached v clusters s.fs s.gone) (mounted.cached tree _)
    fun _ _ _ cached step => carefulStep_cached ok geo cached step
  exact cached.cacheCoherent

def freshCache : NodeCache := ⟨freshVolume, ∅⟩

def saveNew : Except Fault (State × State × State) := do
  let fs₁ ← (CacheCall.readdir 0 0).run reliable smallVolume 10 freshVolume
  let fs₂ ← (CacheCall.create 0 [97]).run reliable smallVolume 10 fs₁
  let fs₃ ← (CacheCall.write 1 0 [7]).run reliable smallVolume 10 fs₂
  .ok (fs₁, fs₂, fs₃)

theorem cache_stays_coherent_save : ∃ s, Run (CarefulStep reliable smallVolume 4) freshCache
    [.readdir 0 0, .create 0 [97], .write 1 0 [7]] s ∧ CacheCoherent s := by
  have root : (saveNew.toOption.bind fun r => r.1.nodes[0]?.map Node.childrenLoaded) = some true := by decide +kernel
  cases result : saveNew with
  | error fault =>
    rw [result] at root
    cases root
  | ok r =>
    rw [result] at root
    have root : (r.1.nodes[0]?.map Node.childrenLoaded) = some true := root
    obtain ⟨fs₁, read, result⟩ := bind_returns result
    obtain ⟨fs₂, made, result⟩ := bind_returns result
    obtain ⟨fs₃, written, result⟩ := bind_returns result
    cases result
    obtain ⟨p, found, loaded⟩ := Option.map_eq_some_iff.mp root
    have run₁ : Run (CarefulStep reliable smallVolume 4) freshCache [.readdir 0 0] ⟨fs₁, ∅⟩ :=
      Run.nil.snoc ⟨⟨fun none => none, fun _ _ => trivial⟩, ⟨10, read⟩, (Set.union_empty _).symm⟩
    have run₂ : Run (CarefulStep reliable smallVolume 4) freshCache [.readdir 0 0, .create 0 [97]] ⟨fs₂, ∅⟩ := by
      refine run₁.snoc ⟨⟨fun none => none, fun q known _ => ⟨?_, by decide⟩⟩, ⟨10, made⟩, (Set.union_empty _).symm⟩
      obtain rfl := Option.some.inj (found.symm.trans known)
      exact loaded
    have run₃ : Run (CarefulStep reliable smallVolume 4) freshCache [.readdir 0 0, .create 0 [97], .write 1 0 [7]] ⟨fs₃, ∅⟩ := by
      refine run₂.snoc ⟨⟨fun none => none, fun q _ _ => Or.inr (Or.inr ?_)⟩, ⟨10, written⟩, (Set.union_empty _).symm⟩
      have few : writable smallVolume 4 fs₂.disk q.startCluster 0 1 ≤ 1 := Nat.min_le_left _ _
      exact Nat.lt_of_le_of_lt (Nat.add_le_add_left few 0) (by decide)
    exact ⟨_, run₃, cache_stays_coherent reliable_ok smallVolume_geometry freshVolume_mounted smallDisk_tree run₃⟩

def lookupNew : Except Fault State := do
  let fs ← (CacheCall.create 0 [97]).run reliable smallVolume 10 freshVolume
  (CacheCall.finddir 0 [97]).run reliable smallVolume 10 fs

theorem file_gets_two_nodes : ¬ ∀ dev v clusters kind cs start calls s, Reliable dev → Geometry v clusters →
    Mounted v start.fs → Tree v clusters kind cs start.fs.disk → start.gone = ∅ → Run (CacheStep dev v) start calls s →
    CacheCoherent s := by
  intro claim
  have twice : (lookupNew.toOption.bind fun fs => fs.nodes[1]?.bind fun p => fs.nodes[2]?.map fun q =>
      decide (slotAddr p.toEntry = slotAddr q.toEntry)) = some true := by decide +kernel
  cases result : lookupNew with
  | error fault =>
    rw [result] at twice
    cases twice
  | ok fs =>
    rw [result] at twice
    have twice : (fs.nodes[1]?.bind fun p => fs.nodes[2]?.map fun q =>
      decide (slotAddr p.toEntry = slotAddr q.toEntry)) = some true := twice
    obtain ⟨p, first, rest⟩ := Option.bind_eq_some_iff.mp twice
    obtain ⟨q, second, same⟩ := Option.map_eq_some_iff.mp rest
    obtain ⟨fs₁, made, found⟩ := bind_returns result
    have run₁ : Run (CacheStep reliable smallVolume) freshCache [.create 0 [97]] ⟨fs₁, ∅⟩ :=
      Run.nil.snoc ⟨⟨10, made⟩, (Set.union_empty _).symm⟩
    have run₂ : Run (CacheStep reliable smallVolume) freshCache [.create 0 [97], .finddir 0 [97]] ⟨fs, ∅⟩ :=
      run₁.snoc ⟨⟨10, found⟩, (Set.union_empty _).symm⟩
    have coherent := claim _ _ _ _ _ _ _ _ reliable_ok smallVolume_geometry freshVolume_mounted smallDisk_tree rfl run₂
    exact absurd (coherent.single 1 2 p q (fun none => none) (fun none => none) first second (of_decide_eq_true same)) (by decide)

end RexOs.Fs
