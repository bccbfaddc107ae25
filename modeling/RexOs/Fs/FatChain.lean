import RexOs.Fs.FatTable
import RexOs.Library.Path
import Mathlib.Data.List.Perm.Subperm

/-! Chains of clusters and the bytes on them.

`IsChain` says which clusters follow a start cluster in the table. A file grows
by free clusters (`Grows`): chains that have no cluster of it stay as they are.
-/

set_option autoImplicit false

namespace RexOs.Fs

open RexOs.Library

def follow (v : Volume) (m : Mem) : Nat → Nat → List Nat
  | 0, _ => []
  | fuel + 1, c => if 2 ≤ c ∧ c < clusterEndMark then c :: follow v m fuel (entry v m c) else []

def chain (v : Volume) (m : Mem) (start : Nat) : List Nat := follow v m (v.fatSize * entriesPerSec) start

def fileByte (v : Volume) (m : Mem) (cs : List Nat) (p : Nat) : UInt8 :=
  m (clusterAddr v (cs.getD (p / v.bytesPerCluster) 0) + p % v.bytesPerCluster)

def contents (v : Volume) (m : Mem) (e : Entry) : List UInt8 :=
  (List.range e.size).map (fileByte v m (chain v m e.startCluster))

structure IsChain (v : Volume) (clusters : Nat) (m : Mem) (start : Nat) (cs : List Nat) : Prop where
  path : ∃ last, Path (entry v m) start cs last ∧ (cs = [] ∧ last < 2 ∨ cs ≠ [] ∧ clusterEndMark ≤ last)
  inside : ∀ c ∈ cs, InVolume clusters c
  nodup : cs.Nodup

variable {v : Volume} {clusters start : Nat} {m m' m'' : Mem} {cs cs' cs'' ds : List Nat} {c l nc p : Nat}

theorem InVolume.listed (geo : Geometry v clusters) (inside : InVolume clusters c) :
    c < v.fatSize * entriesPerSec := Nat.lt_of_lt_of_le inside.2 geo.covered

theorem InVolume.below (geo : Geometry v clusters) (inside : InVolume clusters c) : c < clusterEndMark :=
  Nat.lt_of_lt_of_le inside.2 geo.marks

theorem InVolume.small (geo : Geometry v clusters) (inside : InVolume clusters c) : c < 2 ^ 28 :=
  Nat.lt_trans (inside.below geo) (by decide)

namespace IsChain

theorem start_lt (ch : IsChain v clusters m start []) : start < 2 := by
  obtain ⟨last, rfl, ⟨-, low⟩ | ⟨some, -⟩⟩ := ch.path
  · exact low
  · exact absurd rfl some

theorem head (ch : IsChain v clusters m start cs) (high : 2 ≤ start) : ∃ rest, cs = start :: rest := by
  cases cs with
  | nil =>
    have := ch.start_lt
    omega
  | cons x rest =>
    obtain ⟨_, ⟨here, _⟩, _⟩ := ch.path
    exact ⟨rest, by rw [here]⟩

theorem next (ch : IsChain v clusters m start cs) {k : Nat} (here : cs[k]? = some c) (more : k + 1 < cs.length) :
    cs[k + 1]? = some (entry v m c) := by
  obtain ⟨last, path, -⟩ := ch.path
  clear ch
  induction cs generalizing start k with
  | nil => simp at here
  | cons x rest ih =>
    obtain ⟨-, tail⟩ := path
    cases k with
    | zero =>
      cases rest with
      | nil => simp at more
      | cons y rest =>
        simp only [List.getElem?_cons_zero, Option.some.injEq] at here
        simp [← here, tail.1]
    | succ k => exact ih (by simpa using here) (by simpa using more) tail

theorem last (ch : IsChain v clusters m start cs) (here : cs[cs.length - 1]? = some c) :
    clusterEndMark ≤ entry v m c := by
  obtain ⟨last, path, ⟨rfl, _⟩ | ⟨_, mark⟩⟩ := ch.path
  · simp at here
  · obtain ⟨first, x, rfl⟩ : ∃ first x, cs = first ++ [x] := by
      rcases List.eq_nil_or_concat cs with rfl | ⟨first, x, rfl⟩
      · simp at here
      · exact ⟨first, x, List.concat_eq_append⟩
    obtain ⟨_, _, _, link⟩ := path_append.mp path
    simp only [List.length_append, List.length_singleton, Nat.add_sub_cancel, List.getElem?_append_right (Nat.le_refl _),
      Nat.sub_self, List.getElem?_cons_zero, Option.some.injEq] at here
    rw [← here, link]
    exact mark

theorem nonzero (ch : IsChain v clusters m start cs) (member : c ∈ cs) : entry v m c ≠ 0 := by
  obtain ⟨k, inside, here⟩ := List.getElem_of_mem member
  have here : cs[k]? = some c := by rw [List.getElem?_eq_getElem inside, here]
  rcases Nat.lt_or_ge (k + 1) cs.length with more | done
  · obtain ⟨_, nextMember⟩ := List.getElem?_eq_some_iff.mp (ch.next here more)
    have := (ch.inside _ (nextMember ▸ List.getElem_mem _)).1
    omega
  · have place : k = cs.length - 1 := by omega
    have := ch.last (place ▸ here)
    simp only [clusterEndMark] at this
    omega

theorem congr (ch : IsChain v clusters m start cs) (same : ∀ c ∈ cs, entry v m' c = entry v m c) :
    IsChain v clusters m' start cs := by
  obtain ⟨last, path, ends⟩ := ch.path
  exact ⟨⟨last, path.congr same, ends⟩, ch.inside, ch.nodup⟩

theorem snoc (ch : IsChain v clusters m start (cs ++ [l])) (link : entry v m' l = nc)
    (mark : clusterEndMark ≤ entry v m' nc) (same : ∀ c ∈ cs, entry v m' c = entry v m c)
    (fresh : nc ∉ cs ++ [l]) (inside : InVolume clusters nc) : IsChain v clusters m' start (cs ++ [l] ++ [nc]) := by
  obtain ⟨last, path, _⟩ := ch.path
  obtain ⟨mid, before, here, _⟩ := path_append.mp path
  refine ⟨⟨entry v m' nc, ?_, Or.inr ⟨by simp, mark⟩⟩, ?_, ?_⟩
  · refine path_append.mpr ⟨nc, path_append.mpr ⟨mid, before.congr same, here, link⟩, rfl, rfl⟩
  · intro c member
    rcases List.mem_append.mp member with old | new
    · exact ch.inside c old
    · rw [List.mem_singleton.mp new]
      exact inside
  · exact List.nodup_append.mpr ⟨ch.nodup, by simp, by
      rintro a member b single rfl
      rw [List.mem_singleton.mp single] at member
      exact fresh member⟩

theorem single (mark : clusterEndMark ≤ entry v m c) (inside : InVolume clusters c) : IsChain v clusters m c [c] :=
  ⟨⟨entry v m c, ⟨rfl, rfl⟩, Or.inr ⟨by simp, mark⟩⟩, by simpa using inside, by simp⟩

theorem length_le (ch : IsChain v clusters m start cs) (geo : Geometry v clusters) :
    cs.length ≤ v.fatSize * entriesPerSec := by
  have subset : cs ⊆ List.range (v.fatSize * entriesPerSec) := by
    intro c member
    exact List.mem_range.mpr ((ch.inside c member).listed geo)
  have := (List.subperm_of_subset ch.nodup subset).length_le
  rwa [List.length_range] at this

theorem bytes_lt (ch : IsChain v clusters m start cs) (geo : Geometry v clusters) :
    cs.length * v.bytesPerCluster < 2 ^ 64 := by
  have subset : cs ⊆ List.range' 2 clusters := by
    intro c member
    obtain ⟨low, high⟩ := ch.inside c member
    exact List.mem_range'_1.mpr ⟨low, by omega⟩
  have few := (List.subperm_of_subset ch.nodup subset).length_le
  rw [List.length_range'] at few
  have sectors := Nat.mul_le_mul_right v.sectorsPerCluster few
  have addressable := geo.addressable
  rw [geo.bytes, sectorSize, ← Nat.mul_assoc]
  omega

theorem chain_eq (ch : IsChain v clusters m start cs) (geo : Geometry v clusters) : chain v m start = cs := by
  have follows : ∀ {start : Nat} {cs : List Nat} {fuel last : Nat}, Path (entry v m) start cs last →
      (∀ c ∈ cs, InVolume clusters c) → (last < 2 ∨ clusterEndMark ≤ last) → cs.length ≤ fuel →
      follow v m fuel start = cs := by
    intro start cs
    induction cs generalizing start with
    | nil =>
      rintro fuel last rfl _ ends _
      cases fuel with
      | zero => rfl
      | succ fuel => rw [follow, if_neg (by omega)]
    | cons x rest ih =>
      rintro fuel last ⟨rfl, tail⟩ inside ends enough
      obtain ⟨fuel, rfl⟩ := Nat.exists_eq_succ_of_ne_zero (by rw [List.length_cons] at enough; omega : fuel ≠ 0)
      have here := inside start (by simp)
      rw [follow, if_pos ⟨here.1, here.below geo⟩,
        ih tail (fun c member => inside c (by simp [member])) ends (by simpa using enough)]
  obtain ⟨last, path, ends⟩ := ch.path
  exact follows path ch.inside (ends.imp And.right And.right) (ch.length_le geo)

end IsChain

theorem clusterAddr_apart (geo : Geometry v clusters) (inside : InVolume clusters c) {c' : Nat}
    (inside' : InVolume clusters c') (other : c ≠ c') :
    clusterAddr v c + v.bytesPerCluster ≤ clusterAddr v c' ∨
      clusterAddr v c' + v.bytesPerCluster ≤ clusterAddr v c := by
  have step : ∀ {a b : Nat}, 2 ≤ a → a < b → clusterAddr v a + v.bytesPerCluster ≤ clusterAddr v b := by
    intro a b two less
    rw [clusterAddr, clusterAddr, geo.bytes, ← Nat.add_mul]
    refine Nat.mul_le_mul_right _ ?_
    have : (a - 2) * v.sectorsPerCluster + v.sectorsPerCluster ≤ (b - 2) * v.sectorsPerCluster := by
      rw [← Nat.succ_mul]
      exact Nat.mul_le_mul_right _ (by omega)
    omega
  rcases Nat.lt_or_gt_of_ne other with less | more
  · exact Or.inl (step inside.1 less)
  · exact Or.inr (step inside'.1 more)

theorem clusterAddr_ge (v : Volume) (c : Nat) : v.clusterBeginLba * sectorSize ≤ clusterAddr v c :=
  Nat.mul_le_mul_right _ (Nat.le_add_right _ _)

theorem entry_congr (geo : Geometry v clusters) (same : ∀ a < v.clusterBeginLba * sectorSize, m' a = m a)
    (listed : c < v.fatSize * entriesPerSec) : entry v m' c = entry v m c := by
  have copies := geo.copies
  have agree : AgreeOn m' m (entryAddr v c) 4 := by
    intro a _ high
    have row : c < v.fatSize * 128 := listed
    refine same a (Nat.lt_of_lt_of_le high ?_)
    rw [copies, entryAddr, sectorSize]
    clear listed high
    omega
  rw [entry, entry, load_congr agree]

theorem entry_paste (geo : Geometry v clusters) (data : Mem) (n : Nat) (listed : c < v.fatSize * entriesPerSec)
    {a : Nat} (behind : v.clusterBeginLba * sectorSize ≤ a) : entry v (paste m a n data) c = entry v m c :=
  entry_congr geo (fun _ _ => paste_outside _ (by omega)) listed

theorem cluster_paste (geo : Geometry v clusters) (inside : InVolume clusters c) (inside' : InVolume clusters nc)
    (other : c ≠ nc) (data : Mem) {i : Nat} (small : i < v.bytesPerCluster) :
    paste m (clusterAddr v nc) v.bytesPerCluster data (clusterAddr v c + i) = m (clusterAddr v c + i) :=
  paste_outside _ (by have := clusterAddr_apart geo inside inside' other; omega)

end RexOs.Fs
