import RexOs.Fs.FatDirent
import RexOs.Library.Reach

/-! The directories of a volume as a tree, and the nodes that show it.

A file or directory with clusters is known by the first of them: `kind` says which
clusters begin one, and whether it is a directory, and `cs` gives its chain. `Tree`
is about the disk alone. `Linked` says how the nodes that can be reached from the
root through loaded directories stand to it: they may lag behind the disk, but no
two of them are for one chain.
-/

set_option autoImplicit false

namespace RexOs.Fs

open RexOs.Library

def IsEntry (v : Volume) (kind : Nat → Option Bool) (cs : Nat → List Nat) (m : Mem) (a : Nat) : Prop :=
  Named m a ∧ ∃ d, kind d = some true ∧ a ∈ dirSlots v (cs d)

/-- The entry leads to a file or directory of its kind, or to an empty file, and not to the root. -/
def Leads (v : Volume) (kind : Nat → Option Bool) (m : Mem) (a : Nat) : Prop :=
  (kind (clusterField m a) = some (dirField m a) ∨ dirField m a = false ∧ clusterField m a < 2) ∧
    clusterField m a ≠ v.rootCluster

structure Tree (v : Volume) (clusters : Nat) (kind : Nat → Option Bool) (cs : Nat → List Nat) (m : Mem) : Prop where
  free : FreeInside v clusters m
  high : ∀ c b, kind c = some b → 2 ≤ c
  chains : ∀ c b, kind c = some b → IsChain v clusters m c (cs c)
  apart : ∀ c c' b b', kind c = some b → kind c' = some b' → c ≠ c' → ∀ x ∈ cs c, x ∉ cs c'
  root : kind v.rootCluster = some true
  calm : ∀ d, kind d = some true → List.IsChain (Calm m) (dirSlots v (cs d))
  leads : ∀ a, IsEntry v kind cs m a → Leads v kind m a
  once : ∀ a a', IsEntry v kind cs m a → IsEntry v kind cs m a' → clusterField m a = clusterField m a' →
    2 ≤ clusterField m a → a = a'

section
variable {v : Volume} {clusters : Nat} {kind : Nat → Option Bool} {cs : Nat → List Nat} {m m' : Mem}
variable {a c d x : Nat} {b : Bool}

namespace Tree

theorem member (tree : Tree v clusters kind cs m) (known : kind c = some b) : c ∈ cs c := by
  obtain ⟨rest, same⟩ := (tree.chains c b known).head (tree.high c b known)
  rw [same]
  exact List.mem_cons_self

theorem unknown (tree : Tree v clusters kind cs m) (unowned : ∀ k b, kind k = some b → c ∉ cs k) : kind c = none := by
  cases known : kind c with
  | none => rfl
  | some b => exact absurd (tree.member known) (unowned c b known)

theorem same_dir (tree : Tree v clusters kind cs m) (geo : Geometry v clusters) {d' : Nat} (dir : kind d = some true)
    (dir' : kind d' = some true) (here : a ∈ dirSlots v (cs d)) (there : a ∈ dirSlots v (cs d')) : d = d' := by
  by_contra other
  exact dirSlots_apart geo (tree.chains d _ dir).inside (tree.chains d' _ dir').inside
    (tree.apart d d' _ _ dir dir' other) here there

theorem unowned (tree : Tree v clusters kind cs m) (zero : entry v m c = 0) : ∀ k b, kind k = some b → c ∉ cs k :=
  fun k b known member => (tree.chains k b known).nonzero member zero

end Tree

/-- The chains stay, and so do all entries but the one at `a`. -/
structure Puts (v : Volume) (kind : Nat → Option Bool) (cs : Nat → List Nat) (m : Mem) (a : Nat) (m' : Mem) : Prop where
  table : ∀ c b, kind c = some b → ∀ x ∈ cs c, entry v m' x = entry v m x
  others : ∀ d, kind d = some true → ∀ x ∈ dirSlots v (cs d), x ≠ a → SameEntry m x m' x

structure Quiet (v : Volume) (kind : Nat → Option Bool) (cs : Nat → List Nat) (m m' : Mem) : Prop where
  table : ∀ c b, kind c = some b → ∀ x ∈ cs c, entry v m' x = entry v m x
  entries : ∀ d, kind d = some true → ∀ x ∈ dirSlots v (cs d), SameEntry m x m' x

theorem Quiet.isEntry (quiet : Quiet v kind cs m m') : IsEntry v kind cs m' a ↔ IsEntry v kind cs m a := by
  constructor
  · rintro ⟨named, d, dir, slot⟩
    exact ⟨(quiet.entries d dir a slot).named.mp named, d, dir, slot⟩
  · rintro ⟨named, d, dir, slot⟩
    exact ⟨(quiet.entries d dir a slot).named.mpr named, d, dir, slot⟩

theorem Quiet.same (quiet : Quiet v kind cs m m') (is : IsEntry v kind cs m a) : SameEntry m a m' a := by
  obtain ⟨_, d, dir, slot⟩ := is
  exact quiet.entries d dir a slot

theorem Tree.quiet (tree : Tree v clusters kind cs m) (quiet : Quiet v kind cs m m') (free : FreeInside v clusters m') :
    Tree v clusters kind cs m' := by
  refine ⟨free, tree.high, ?_, tree.apart, tree.root, ?_, ?_, ?_⟩
  · intro c b known
    exact (tree.chains c b known).congr (quiet.table c b known)
  · intro d dir
    apply (tree.calm d dir).imp_of_mem_imp
    intro x y member member' calm long
    rw [(quiet.entries d dir x member).long] at long
    rw [(quiet.entries d dir y member').dots]
    exact calm long
  · intro a is
    have is := quiet.isEntry.mp is
    have same := quiet.same is
    rw [Leads, same.cluster, same.dir]
    exact tree.leads a is
  · intro a a' is is' equal high
    have is := quiet.isEntry.mp is
    have is' := quiet.isEntry.mp is'
    rw [(quiet.same is).cluster] at equal high
    rw [(quiet.same is').cluster] at equal
    exact tree.once a a' is is' equal high

theorem Puts.isEntry (puts : Puts v kind cs m a m') (other : x ≠ a) :
    IsEntry v kind cs m' x ↔ IsEntry v kind cs m x := by
  constructor
  · rintro ⟨named, d, dir, slot⟩
    exact ⟨(puts.others d dir x slot other).named.mp named, d, dir, slot⟩
  · rintro ⟨named, d, dir, slot⟩
    exact ⟨(puts.others d dir x slot other).named.mpr named, d, dir, slot⟩

theorem Puts.same (puts : Puts v kind cs m a m') (other : x ≠ a) (is : IsEntry v kind cs m x) : SameEntry m x m' x := by
  obtain ⟨_, d, dir, slot⟩ := is
  exact puts.others d dir x slot other

theorem Tree.puts (tree : Tree v clusters kind cs m) (puts : Puts v kind cs m a m') (free : FreeInside v clusters m')
    (long : ¬ LongAt m' a) (dots : ¬ Dots m' a) (leads : Named m' a → Leads v kind m' a)
    (fresh : Named m' a → 2 ≤ clusterField m' a → ∀ x, x ≠ a → IsEntry v kind cs m x →
      clusterField m x ≠ clusterField m' a) : Tree v clusters kind cs m' := by
  refine ⟨free, tree.high, ?_, tree.apart, tree.root, ?_, ?_, ?_⟩
  · intro c b known
    exact (tree.chains c b known).congr (puts.table c b known)
  · intro d dir
    apply (tree.calm d dir).imp_of_mem_imp
    intro x y member member' calm
    by_cases first : x = a
    · subst first
      exact fun isLong => absurd isLong long
    by_cases second : y = a
    · subst second
      exact fun _ => dots
    intro isLong
    rw [(puts.others d dir x member first).long] at isLong
    rw [(puts.others d dir y member' second).dots]
    exact calm isLong
  · intro x is
    by_cases here : x = a
    · subst here
      exact leads is.1
    · have is := (puts.isEntry here).mp is
      have same := puts.same here is
      rw [Leads, same.cluster, same.dir]
      exact tree.leads x is
  · intro x y is is' equal high
    by_cases first : x = a
    · subst first
      by_contra second
      have is' := (puts.isEntry (Ne.symm second)).mp is'
      rw [(puts.same (Ne.symm second) is').cluster] at equal
      exact fresh is.1 high y (Ne.symm second) is' equal.symm
    · have old := (puts.isEntry first).mp is
      have cluster := (puts.same first old).cluster
      by_cases second : y = a
      · subst second
        rw [cluster] at equal high
        exact absurd equal (fresh is'.1 (by omega) x first old)
      · have old' := (puts.isEntry second).mp is'
        rw [cluster] at equal high
        rw [(puts.same second old').cluster] at equal
        exact tree.once x y old old' equal high

theorem Tree.adopt (tree : Tree v clusters kind cs m) (inside : InVolume clusters c)
    (mark : clusterEndMark ≤ entry v m c) (unowned : ∀ k b, kind k = some b → c ∉ cs k)
    (bare : b = true → (∀ x ∈ slotsOf v c, ¬ Named m x) ∧ List.IsChain (Calm m) (slotsOf v c)) :
    Tree v clusters (Function.update kind c (some b)) (Function.update cs c [c]) m ∧
      ∀ x, IsEntry v (Function.update kind c (some b)) (Function.update cs c [c]) m x ↔ IsEntry v kind cs m x := by
  have unknown := tree.unknown unowned
  have other : ∀ {k b'}, kind k = some b' → k ≠ c := by
    rintro k b' known rfl
    rw [unknown] at known
    cases known
  have slots : dirSlots v [c] = slotsOf v c := by simp [dirSlots]
  have same : ∀ x, IsEntry v (Function.update kind c (some b)) (Function.update cs c [c]) m x ↔ IsEntry v kind cs m x := by
    intro x
    constructor
    · rintro ⟨named, d, dir, slot⟩
      by_cases new : d = c
      · subst new
        rw [Function.update_self] at dir slot
        rw [slots] at slot
        cases dir
        exact absurd named ((bare rfl).1 x slot)
      · rw [Function.update_of_ne new] at dir slot
        exact ⟨named, d, dir, slot⟩
    · rintro ⟨named, d, dir, slot⟩
      refine ⟨named, d, ?_, ?_⟩
      · rw [Function.update_of_ne (other dir)]
        exact dir
      · rw [Function.update_of_ne (other dir)]
        exact slot
  refine ⟨⟨tree.free, ?_, ?_, ?_, ?_, ?_, ?_, ?_⟩, same⟩
  · intro k b' known
    by_cases new : k = c
    · rw [new]
      exact inside.1
    · rw [Function.update_of_ne new] at known
      exact tree.high k b' known
  · intro k b' known
    by_cases new : k = c
    · subst new
      rw [Function.update_self]
      exact IsChain.single mark inside
    · rw [Function.update_of_ne new] at known ⊢
      exact tree.chains k b' known
  · intro k k' b₁ b₂ known known' ne y member
    by_cases first : k = c
    · subst first
      rw [Function.update_self] at member
      rw [Function.update_of_ne ne.symm] at known' ⊢
      rw [List.mem_singleton.mp member]
      exact unowned k' b₂ known'
    · rw [Function.update_of_ne first] at known member
      by_cases second : k' = c
      · subst second
        rw [Function.update_self, List.mem_singleton]
        rintro rfl
        exact unowned k b₁ known member
      · rw [Function.update_of_ne second] at known' ⊢
        exact tree.apart k k' b₁ b₂ known known' ne y member
  · rw [Function.update_of_ne (other tree.root)]
    exact tree.root
  · intro d dir
    by_cases new : d = c
    · subst new
      rw [Function.update_self] at dir ⊢
      cases dir
      rw [slots]
      exact (bare rfl).2
    · rw [Function.update_of_ne new] at dir ⊢
      exact tree.calm d dir
  · intro x is
    obtain ⟨leads, notRoot⟩ := tree.leads x ((same x).mp is)
    refine ⟨leads.imp_left fun known => ?_, notRoot⟩
    rw [Function.update_of_ne (other known)]
    exact known
  · intro x y is is' equal high
    exact tree.once x y ((same x).mp is) ((same y).mp is') equal high

theorem Tree.drop (tree : Tree v clusters kind cs m) (notRoot : c ≠ v.rootCluster)
    (unled : ∀ x, IsEntry v kind cs m x → clusterField m x ≠ c) :
    Tree v clusters (Function.update kind c none) cs m ∧
      ∀ x, IsEntry v (Function.update kind c none) cs m x → IsEntry v kind cs m x := by
  have old : ∀ {k b'}, Function.update kind c none k = some b' → k ≠ c ∧ kind k = some b' := by
    intro k b' known
    by_cases here : k = c
    · subst here
      rw [Function.update_self] at known
      cases known
    · rw [Function.update_of_ne here] at known
      exact ⟨here, known⟩
  have less : ∀ x, IsEntry v (Function.update kind c none) cs m x → IsEntry v kind cs m x := by
    rintro x ⟨named, d, dir, slot⟩
    exact ⟨named, d, (old dir).2, slot⟩
  refine ⟨⟨tree.free, ?_, ?_, ?_, ?_, ?_, ?_, ?_⟩, less⟩
  · exact fun k b' known => tree.high k b' (old known).2
  · exact fun k b' known => tree.chains k b' (old known).2
  · exact fun k k' b₁ b₂ known known' => tree.apart k k' b₁ b₂ (old known).2 (old known').2
  · rw [Function.update_of_ne notRoot.symm]
    exact tree.root
  · exact fun d dir => tree.calm d (old dir).2
  · intro x is
    obtain ⟨leads, notRoot⟩ := tree.leads x (less x is)
    refine ⟨leads.imp_left fun known => ?_, notRoot⟩
    rw [Function.update_of_ne (unled x (less x is))]
    exact known
  · exact fun x y is is' => tree.once x y (less x is) (less y is')

end

/-! `ents` gives for a node what it says of its file or directory, and `kids` the
children of a loaded directory. `Linked` is about the nodes that can be reached from
the root, node 0, along `kids`.
-/

def State.entryOf (fs : State) (i : Nat) : Option Entry := (fs.nodes[i]?).map Node.toEntry

/-- The children of a directory that has been loaded; the others are loaded before they are used. -/
def State.kids (fs : State) (d : Nat) : List Nat :=
  match fs.nodes[d]? with
  | none => []
  | some dp => if dp.childrenLoaded then dp.children else []

structure Housed (v : Volume) (cs : Nat → List Nat) (m : Mem) (p e : Entry) : Prop where
  slot : slotAddr e ∈ dirSlots v (cs p.startCluster)
  small : e.direntOff < sectorSize
  plain : ¬ Dots m (slotAddr e)

def Fits (kind : Nat → Option Bool) (e : Entry) : Prop :=
  kind e.startCluster = some e.isDir ∨ e.isDir = false ∧ e.startCluster < 2

def Sole (v : Volume) (kind : Nat → Option Bool) (cs : Nat → List Nat) (m : Mem) (e : Entry) : Prop :=
  2 ≤ e.startCluster → ∀ a, IsEntry v kind cs m a → clusterField m a = e.startCluster → a = slotAddr e

structure Linked (v : Volume) (kind : Nat → Option Bool) (cs : Nat → List Nat) (m : Mem) (ents : Nat → Option Entry)
    (kids : Nat → List Nat) : Prop where
  root : ∃ e, ents 0 = some e ∧ e.isDir = true ∧ e.startCluster = v.rootCluster ∧ slotAddr e = 0
  nodup : ∀ d, Reach kids 0 d → (kids d).Nodup
  home : ∀ d i, Reach kids 0 d → i ∈ kids d →
    ∃ p e, ents d = some p ∧ p.isDir = true ∧ ents i = some e ∧ Housed v cs m p e
  fits : ∀ i e, Reach kids 0 i → ents i = some e → Fits kind e
  sole : ∀ i e, Reach kids 0 i → ents i = some e → Sole v kind cs m e
  distinct : ∀ i j e e', Reach kids 0 i → Reach kids 0 j → ents i = some e → ents j = some e' →
    e.startCluster = e'.startCluster → 2 ≤ e.startCluster → i = j

variable {v : Volume} {clusters : Nat} {kind kind' : Nat → Option Bool} {cs cs' : Nat → List Nat} {m m' : Mem}
variable {ents ents' : Nat → Option Entry} {kids kids' : Nat → List Nat} {a c d i j : Nat} {b : Bool} {e e' p : Entry}

theorem Fits.dir (fits : Fits kind p) (isDir : p.isDir = true) : kind p.startCluster = some true := by
  rcases fits with known | ⟨file, -⟩
  · rw [known, isDir]
  · rw [isDir] at file
    cases file

theorem Fits.known (fits : Fits kind e) (high : 2 ≤ e.startCluster) : kind e.startCluster = some e.isDir := by
  rcases fits with known | ⟨-, low⟩
  · exact known
  · omega

namespace Linked

theorem known (linked : Linked v kind cs m ents kids) (reach : Reach kids 0 i) : ∃ e, ents i = some e := by
  rcases reach.cases with rfl | ⟨d, before, member⟩
  · obtain ⟨e, root, -⟩ := linked.root
    exact ⟨e, root⟩
  · obtain ⟨_, e, _, _, found, _⟩ := linked.home d i before member
    exact ⟨e, found⟩

theorem dir (linked : Linked v kind cs m ents kids) (reach : Reach kids 0 d) (found : ents d = some p)
    (isDir : p.isDir = true) : kind p.startCluster = some true := (linked.fits d p reach found).dir isDir

theorem parent (linked : Linked v kind cs m ents kids) (tree : Tree v clusters kind cs m) (geo : Geometry v clusters)
    {d' : Nat} (reach : Reach kids 0 d) (reach' : Reach kids 0 d') (member : i ∈ kids d) (member' : i ∈ kids d') :
    d' = d := by
  obtain ⟨p, e, found, isDir, child, housed⟩ := linked.home d i reach member
  obtain ⟨p', e', found', isDir', child', housed'⟩ := linked.home d' i reach' member'
  rw [child] at child'
  cases child'
  have dir := linked.dir reach found isDir
  have same := tree.same_dir geo dir (linked.dir reach' found' isDir') housed.slot housed'.slot
  exact linked.distinct d' d p' p reach' reach found' found same.symm (same ▸ tree.high _ _ dir)

theorem root_orphan (linked : Linked v kind cs m ents kids) (geo : Geometry v clusters) (reach : Reach kids 0 d) :
    0 ∉ kids d := by
  intro member
  obtain ⟨_, e, _, _, child, housed⟩ := linked.home d 0 reach member
  obtain ⟨r, root, -, -, place⟩ := linked.root
  rw [child] at root
  cases root
  have above := dirSlots_above housed.slot
  have copies := geo.copies
  have table := geo.table
  rw [place, sectorSize] at above
  omega

theorem rebase (linked : Linked v kind cs m ents kids)
    (chains : ∀ c b, kind c = some b → (∃ i e, Reach kids 0 i ∧ ents i = some e ∧ e.startCluster = c) →
      kind' c = some b ∧ (b = true → cs' c = cs c))
    (plain : ∀ d a, kind d = some true → a ∈ dirSlots v (cs d) → ¬ Dots m a → ¬ Dots m' a)
    (sole : ∀ i e, Reach kids 0 i → ents i = some e → Sole v kind' cs' m' e) : Linked v kind' cs' m' ents kids := by
  refine ⟨linked.root, linked.nodup, ?_, ?_, sole, linked.distinct⟩
  · intro d i reach member
    obtain ⟨p, e, found, isDir, child, housed⟩ := linked.home d i reach member
    have dir := linked.dir reach found isDir
    refine ⟨p, e, found, isDir, child, ?_, housed.small, plain _ _ dir housed.slot housed.plain⟩
    rw [(chains _ _ dir ⟨d, p, reach, found, rfl⟩).2 rfl]
    exact housed.slot
  · intro i e reach found
    rcases linked.fits i e reach found with known | low
    · exact Or.inl (chains _ _ known ⟨i, e, reach, found, rfl⟩).1
    · exact Or.inr low

theorem quiet (linked : Linked v kind cs m ents kids) (quiet : Quiet v kind cs m m') :
    Linked v kind cs m' ents kids := by
  apply linked.rebase
  · exact fun c b known _ => ⟨known, fun _ => rfl⟩
  · intro d a dir slot plain
    rw [(quiet.entries d dir a slot).dots]
    exact plain
  · intro i e reach found high a is cluster
    have is := quiet.isEntry.mp is
    rw [(quiet.same is).cluster] at cluster
    exact linked.sole i e reach found high a is cluster

theorem puts (linked : Linked v kind cs m ents kids) (puts : Puts v kind cs m a m') (plain : ¬ Dots m' a)
    (own : ∀ i e, Reach kids 0 i → ents i = some e → 2 ≤ e.startCluster → Named m' a →
      clusterField m' a = e.startCluster → a = slotAddr e) : Linked v kind cs m' ents kids := by
  apply linked.rebase
  · exact fun c b known _ => ⟨known, fun _ => rfl⟩
  · intro d x dir slot old
    by_cases here : x = a
    · rw [here]
      exact plain
    · rw [(puts.others d dir x slot here).dots]
      exact old
  · intro i e reach found high x is cluster
    by_cases here : x = a
    · subst here
      exact own i e reach found high is.1 cluster
    · have is := (puts.isEntry here).mp is
      rw [(puts.same here is).cluster] at cluster
      exact linked.sole i e reach found high x is cluster

theorem adopt (linked : Linked v kind cs m ents kids) (unknown : kind c = none) (ds : List Nat)
    (same : ∀ x, IsEntry v (Function.update kind c (some b)) (Function.update cs c ds) m x → IsEntry v kind cs m x) :
    Linked v (Function.update kind c (some b)) (Function.update cs c ds) m ents kids := by
  apply linked.rebase
  · intro k b' known _
    have other : k ≠ c := by
      rintro rfl
      rw [unknown] at known
      cases known
    rw [Function.update_of_ne other, Function.update_of_ne other]
    exact ⟨known, fun _ => rfl⟩
  · exact fun _ _ _ _ plain => plain
  · exact fun i e reach found high x is => linked.sole i e reach found high x (same x is)

theorem drop (linked : Linked v kind cs m ents kids)
    (nodeless : ∀ i e, Reach kids 0 i → ents i = some e → e.startCluster ≠ c)
    (less : ∀ x, IsEntry v (Function.update kind c none) cs m x → IsEntry v kind cs m x) :
    Linked v (Function.update kind c none) cs m ents kids := by
  apply linked.rebase
  · rintro k b' known ⟨i, e, reach, found, rfl⟩
    rw [Function.update_of_ne (nodeless i e reach found)]
    exact ⟨known, fun _ => rfl⟩
  · exact fun _ _ _ _ plain => plain
  · exact fun i e reach found high x is => linked.sole i e reach found high x (less x is)

theorem extend (linked : Linked v kind cs m ents kids) (old : ∀ i, Reach kids 0 i → ents' i = ents i) :
    Linked v kind cs m ents' kids := by
  refine ⟨?_, linked.nodup, ?_, ?_, ?_, ?_⟩
  · rw [old 0 (Reach.refl _ _)]
    exact linked.root
  · intro d i reach member
    rw [old d reach, old i (reach.child member)]
    exact linked.home d i reach member
  · intro i e reach found
    rw [old i reach] at found
    exact linked.fits i e reach found
  · intro i e reach found
    rw [old i reach] at found
    exact linked.sole i e reach found
  · intro i j e e' reach reach' found found'
    rw [old i reach] at found
    rw [old j reach'] at found'
    exact linked.distinct i j e e' reach reach' found found'

/-- What is asked of new children `new` of the directory `p`. -/
structure Welcome (v : Volume) (kind : Nat → Option Bool) (cs : Nat → List Nat) (m : Mem) (ents : Nat → Option Entry)
    (kids : Nat → List Nat) (p : Entry) (new : List Nat) (ents' : Nat → Option Entry) : Prop where
  nodup : new.Nodup
  unreached : ∀ i ∈ new, ¬ Reach kids 0 i
  nodes : ∀ i ∈ new, ∃ e, ents' i = some e ∧ Housed v cs m p e ∧ Fits kind e ∧ Sole v kind cs m e
  apart : ∀ i ∈ new, ∀ e, ents' i = some e → 2 ≤ e.startCluster → ∀ j e', Reach kids 0 j → ents j = some e' →
    e'.startCluster ≠ e.startCluster
  distinct : ∀ i ∈ new, ∀ j ∈ new, ∀ e e', ents' i = some e → ents' j = some e' →
    e.startCluster = e'.startCluster → 2 ≤ e.startCluster → i = j

theorem graft (linked : Linked v kind cs m ents kids) {new : List Nat} (grafted : Grafted kids d new kids')
    (reach : Reach kids 0 d) (found : ents d = some p) (isDir : p.isDir = true)
    (old : ∀ i, Reach kids 0 i → ents' i = ents i) (welcome : Welcome v kind cs m ents kids p new ents') :
    Linked v kind cs m ents' kids' := by
  have split : ∀ {i}, Reach kids' 0 i → Reach kids 0 i ∨ i ∈ new :=
    fun reached => (grafted.reached reached).imp_right And.right
  -- the parent of a child that was there was there as well
  have parent : ∀ {d' i}, Reach kids' 0 d' → i ∈ kids' d' → Reach kids 0 d' ∧ (i ∈ kids d' ∨ d' = d ∧ i ∈ new) := by
    intro d' i reached member
    rcases split reached with before | fresh
    · exact ⟨before, grafted.member member⟩
    · rw [grafted.childless d' fresh] at member
      cases member
  refine ⟨?_, ?_, ?_, ?_, ?_, ?_⟩
  · rw [old 0 (Reach.refl _ _)]
    exact linked.root
  · intro d' reached
    rcases split reached with before | fresh
    · by_cases here : d' = d
      · subst here
        rw [grafted.here]
        apply List.nodup_append.mpr
        refine ⟨linked.nodup d' before, welcome.nodup, ?_⟩
        rintro i member _ fresh rfl
        exact welcome.unreached i fresh (before.child member)
      · rw [grafted.there d' here]
        exact linked.nodup d' before
    · rw [grafted.childless d' fresh]
      exact List.nodup_nil
  · intro d' i reached member
    obtain ⟨before, member | ⟨rfl, fresh⟩⟩ := parent reached member
    · rw [old d' before, old i (before.child member)]
      exact linked.home d' i before member
    · obtain ⟨e, child, housed, _⟩ := welcome.nodes i fresh
      rw [old d' before]
      exact ⟨p, e, found, isDir, child, housed⟩
  · intro i e reached child
    rcases split reached with before | fresh
    · rw [old i before] at child
      exact linked.fits i e before child
    · obtain ⟨e', child', _, fits, _⟩ := welcome.nodes i fresh
      rw [child] at child'
      cases child'
      exact fits
  · intro i e reached child
    rcases split reached with before | fresh
    · rw [old i before] at child
      exact linked.sole i e before child
    · obtain ⟨e', child', _, _, sole⟩ := welcome.nodes i fresh
      rw [child] at child'
      cases child'
      exact sole
  · intro i j e e' reached reached' child child' equal high
    rcases split reached with before | fresh
    · rw [old i before] at child
      rcases split reached' with before' | fresh'
      · rw [old j before'] at child'
        exact linked.distinct i j e e' before before' child child' equal high
      · exact absurd equal (welcome.apart j fresh' e' child' (by omega) i e before child)
    · rcases split reached' with before' | fresh'
      · rw [old j before'] at child'
        exact absurd equal.symm (welcome.apart i fresh e child high j e' before' child')
      · exact welcome.distinct i fresh j fresh' e e' child child' equal high

theorem prune (linked : Linked v kind cs m ents kids) (pruned : Pruned kids d i kids')
    (sub : (kids' d).Sublist (kids d)) : Linked v kind cs m ents kids' := by
  refine ⟨linked.root, ?_, ?_, ?_, ?_, ?_⟩
  · intro d' reached
    have before := linked.nodup d' (pruned.reached reached)
    by_cases here : d' = d
    · subst here
      exact before.sublist sub
    · rw [pruned.there d' here]
      exact before
  · exact fun d' j reached member => linked.home d' j (pruned.reached reached) (pruned.less d' member)
  · exact fun j e reached => linked.fits j e (pruned.reached reached)
  · exact fun j e reached => linked.sole j e (pruned.reached reached)
  · exact fun j k e e' reached reached' => linked.distinct j k e e' (pruned.reached reached) (pruned.reached reached')

end Linked

end RexOs.Fs
