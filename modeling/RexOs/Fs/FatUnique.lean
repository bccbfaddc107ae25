import RexOs.Fs.FatSound

/-! The names in the directories of a volume.

`UniqueNames` is about the directories that are found on the disk from the root on; `Unique` is
about those of a tree.
-/

set_option autoImplicit false

namespace RexOs.Fs

open RexOs.Library

inductive OnDisk (v : Volume) (m : Mem) : Nat → Prop where
  | root : OnDisk v m v.rootCluster
  | sub {d a : Nat} : OnDisk v m d → a ∈ dirSlots v (chain v m d) → Named m a → dirField m a = true →
      OnDisk v m (clusterField m a)

def UniqueNames (v : Volume) (m : Mem) : Prop :=
  ∀ d, OnDisk v m d → ∀ x ∈ dirSlots v (chain v m d), ∀ y ∈ dirSlots v (chain v m d), LiveAt m x → LiveAt m y →
    rawName m x = rawName m y → x = y

def Unique (v : Volume) (kind : Nat → Option Bool) (cs : Nat → List Nat) (m : Mem) : Prop :=
  ∀ d, kind d = some true → ∀ x ∈ dirSlots v (cs d), ∀ y ∈ dirSlots v (cs d), LiveAt m x → LiveAt m y →
    rawName m x = rawName m y → x = y

/-- No live entry of the directory with the clusters `ds` has the name `raw`. -/
def FreeName (v : Volume) (m : Mem) (ds : List Nat) (raw : List UInt8) : Prop :=
  ∀ x ∈ dirSlots v ds, LiveAt m x → rawName m x ≠ raw

variable {v : Volume} {clusters : Nat} {kind kind' : Nat → Option Bool} {cs : Nat → List Nat} {m m' m₁ : Mem}
variable {fs fs' : State} {a c d i : Nat} {dp : Node} {e : Entry} {raw : List UInt8} {isDir b : Bool}

theorem Tree.onDisk (tree : Tree v clusters kind cs m) (geo : Geometry v clusters) (found : OnDisk v m d) :
    kind d = some true := by
  induction found with
  | root => exact tree.root
  | @sub d a _ slot named isDir ih =>
    rw [(tree.chains d _ ih).chain_eq geo] at slot
    rcases (tree.leads a ⟨named, d, ih, slot⟩).1 with known | ⟨file, -⟩
    · rw [known, isDir]
    · rw [isDir] at file
      cases file

open Classical in
noncomputable def foundKind (v : Volume) (m : Mem) (kind : Nat → Option Bool) (c : Nat) : Option Bool :=
  if kind c = some true ∧ ¬ OnDisk v m c then none else kind c

theorem foundKind_some (known : foundKind v m kind c = some b) : kind c = some b ∧ (b = true → OnDisk v m c) := by
  unfold foundKind at known
  split at known
  · cases known
  · rename_i kept
    refine ⟨known, ?_⟩
    rintro rfl
    by_contra missing
    exact kept ⟨known, missing⟩

theorem foundKind_kept (known : kind c = some b) (found : b = true → OnDisk v m c) : foundKind v m kind c = some b := by
  unfold foundKind
  rw [if_neg, known]
  rintro ⟨dir, missing⟩
  rw [known] at dir
  cases dir
  exact missing (found rfl)

theorem Tree.found (tree : Tree v clusters kind cs m) (geo : Geometry v clusters) :
    Tree v clusters (foundKind v m kind) cs m := by
  have old : ∀ {k b}, foundKind v m kind k = some b → kind k = some b := fun known => (foundKind_some known).1
  have less : ∀ {x}, IsEntry v (foundKind v m kind) cs m x → IsEntry v kind cs m x := by
    rintro x ⟨named, d, dir, slot⟩
    exact ⟨named, d, old dir, slot⟩
  constructor
  · exact tree.free
  · exact fun k b known => tree.high k b (old known)
  · exact fun k b known => tree.chains k b (old known)
  · exact fun k k' b b' known known' => tree.apart k k' b b' (old known) (old known')
  · exact foundKind_kept tree.root fun _ => OnDisk.root
  · exact fun d dir => tree.calm d (old dir)
  · intro x is
    obtain ⟨leads, notRoot⟩ := tree.leads x (less is)
    refine ⟨leads.imp_left fun known => foundKind_kept known fun isDir => ?_, notRoot⟩
    obtain ⟨named, d, dir, slot⟩ := is
    obtain ⟨dir, found⟩ := foundKind_some dir
    rw [← (tree.chains d _ dir).chain_eq geo] at slot
    exact OnDisk.sub (found rfl) slot named isDir
  · exact fun x y is is' => tree.once x y (less is) (less is')

theorem Unique.names (unique : Unique v kind cs m) (tree : Tree v clusters kind cs m) (geo : Geometry v clusters) :
    UniqueNames v m := by
  intro d found
  have dir := tree.onDisk geo found
  rw [(tree.chains d _ dir).chain_eq geo]
  exact unique d dir

theorem UniqueNames.unique (unique : UniqueNames v m) (tree : Tree v clusters kind cs m) (geo : Geometry v clusters) :
    Unique v (foundKind v m kind) cs m := by
  intro d dir
  obtain ⟨dir, found⟩ := foundKind_some dir
  rw [← (tree.chains d _ dir).chain_eq geo]
  exact unique d (found rfl)

theorem Unique.quiet (unique : Unique v kind cs m) (quiet : Quiet v kind cs m m') : Unique v kind cs m' := by
  intro d dir x here y there live live' equal
  have same := quiet.entries d dir x here
  have same' := quiet.entries d dir y there
  rw [same.live] at live
  rw [same'.live] at live'
  rw [same.raw, same'.raw] at equal
  exact unique d dir x here y there live live' equal

theorem FreeName.quiet (free : FreeName v m (cs d) raw) (quiet : Quiet v kind cs m m') (dir : kind d = some true) :
    FreeName v m' (cs d) raw := by
  intro x here live
  have same := quiet.entries d dir x here
  rw [same.raw]
  exact free x here (same.live.mp live)

theorem Unique.puts (unique : Unique v kind cs m) (puts : Puts v kind cs m a m')
    (free : ∀ d, kind d = some true → a ∈ dirSlots v (cs d) → LiveAt m' a → FreeName v m (cs d) (rawName m' a)) :
    Unique v kind cs m' := by
  intro d dir x here y there live live' equal
  -- Only the slot that is written can have a new name.
  by_cases first : x = a
  · subst first
    by_contra second
    have same := puts.others d dir y there (Ne.symm second)
    rw [same.raw] at equal
    exact free d dir here live y there (same.live.mp live') equal.symm
  · have same := puts.others d dir x here first
    by_cases second : y = a
    · subst second
      rw [same.raw] at equal
      exact absurd equal (free d dir there live' x here (same.live.mp live))
    · have same' := puts.others d dir y there second
      rw [same.raw, same'.raw] at equal
      exact unique d dir x here y there (same.live.mp live) (same'.live.mp live') equal

theorem Unique.less (unique : Unique v kind cs m) (less : ∀ k, kind' k = some true → kind k = some true) :
    Unique v kind' cs m := fun d dir => unique d (less d dir)

theorem Unique.adopt (unique : Unique v kind cs m) (unknown : kind c = none) (bare : isDir = true → c ≠ 0 → Bare v m c) :
    Unique v (addKind kind c isDir) (addChain cs c) m := by
  intro d dir
  by_cases new : d = c
  · subst new
    by_cases none_ : d = 0
    · rw [addKind, if_pos none_, unknown] at dir
      cases dir
    · rw [addKind_new none_] at dir
      cases dir
      rw [addChain, if_neg none_, Function.update_self, dirSlots, List.flatMap_singleton]
      exact (bare rfl none_).unique
  · have old : kind d = some true := by
      rw [addKind] at dir
      split at dir
      · exact dir
      · rwa [Function.update_of_ne new] at dir
    rw [addChain_old unknown old]
    exact unique d old

theorem Unique.placed (unique : Unique v kind cs fs.disk) (made : Placed v clusters kind cs fs d dp isDir raw c a m₁ fs')
    (sound : Sound v clusters kind cs fs) (geo : Geometry v clusters) (dir : kind dp.startCluster = some true)
    (free : FreeName v fs.disk (cs dp.startCluster) raw) :
    Unique v (addKind kind c isDir) (addChain cs c) fs'.disk := by
  -- First the cluster is reserved and adopted, then the entry is put in its slot.
  obtain ⟨adopts, quiet⟩ := made.adopts sound.tree
  obtain ⟨puts, -⟩ := made.puts sound geo
  have adopted : Unique v (addKind kind c isDir) (addChain cs c) m₁ := by
    apply (unique.quiet quiet).adopt adopts.unknown
    intro isDirectory real
    rcases made.reserved with ⟨none_, -⟩ | reserves
    · exact absurd none_ real
    · exact reserves.bare isDirectory
  apply adopted.puts puts
  intro d' dir' slot _
  have kept : addChain cs c dp.startCluster = cs dp.startCluster := addChain_old adopts.unknown dir
  have here := made.slot
  rw [← kept] at here
  obtain rfl := adopts.tree.same_dir geo (addKind_old adopts.unknown dir) dir' here slot
  rw [kept, made.entered.raw]
  exact free.quiet quiet dir

theorem Unique.removed (unique : Unique v kind cs fs.disk) (gone : Removed v cs fs d i e m₁ fs')
    (sound : Sound v clusters kind cs fs) (geo : Geometry v clusters) (reach : Reach fs.kids 0 d) :
    Unique v (Function.update kind e.startCluster none) cs fs'.disk := by
  -- First the entry is erased, then the chain is freed, if it has one.
  obtain ⟨puts, tree, -⟩ := gone.puts sound geo reach
  have erased : Unique v kind cs m₁ := by
    apply unique.puts puts
    intro _ _ _ live
    exact absurd live.1 gone.erased.free.1
  have less : ∀ k, Function.update kind e.startCluster none k = some true → kind k = some true := by
    intro k known
    by_cases here : k = e.startCluster
    · rw [here, Function.update_self] at known
      cases known
    · rwa [Function.update_of_ne here] at known
  have fewer := erased.less less
  rcases gone.chain with ⟨-, disk⟩ | ⟨high, freed⟩
  · rw [disk]
    exact fewer
  · intro k dir x here y there
    have same : ∀ x ∈ dirSlots v (cs k), SameEntry m₁ x fs'.disk x := fun x slot b _ =>
      freed.data _ (Nat.le_trans (dirSlots_above slot) (Nat.le_add_right _ _))
    rw [(same x here).live, (same y there).live, (same x here).raw, (same y there).raw]
    exact fewer k dir x here y there

end RexOs.Fs
