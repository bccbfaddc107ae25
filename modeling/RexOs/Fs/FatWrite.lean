import RexOs.Fs.FatChain
import RexOs.Library.Safe

/-! What `fat32_write` does to the chain and the bytes of a file.

`Writes` relates a file before and after a part of the call: clusters that were
free are put behind its chain, the bytes of a range are those of `g`, the other
bytes stay and new ones are zero.
-/

set_option autoImplicit false

namespace RexOs.Fs

open RexOs.Library

variable {dev : Device} {v : Volume} {clusters start : Nat} {m m' m'' : Mem} {cs cs' cs'' ds : List Nat}
variable {c k l nc p a b : Nat} {g : Nat → UInt8} {fs : State}

theorem getD_mem (inside : k < cs.length) : cs.getD k 0 ∈ cs := by
  simp only [List.getD, List.getElem?_eq_getElem inside, Option.getD_some]
  exact List.getElem_mem inside

theorem getD_of_some (here : cs[k]? = some c) : cs.getD k 0 = c := by rw [List.getD, here, Option.getD_some]

theorem lt_of_some (here : cs[k]? = some c) : k < cs.length := (List.getElem?_eq_some_iff.mp here).1

theorem mem_of_some (here : cs[k]? = some c) : c ∈ cs := List.mem_of_getElem? here

theorem bytes_pos (geo : Geometry v clusters) : 0 < v.bytesPerCluster := by
  rw [geo.bytes]
  exact Nat.mul_pos geo.sectors (by decide)

theorem place_lt (inside : p < cs.length * v.bytesPerCluster) : p / v.bytesPerCluster < cs.length :=
  Nat.div_lt_of_lt_mul (by rwa [Nat.mul_comm] at inside)

theorem fileByte_congr (geo : Geometry v clusters)
    (same : ∀ c ∈ cs, ∀ i < v.bytesPerCluster, m' (clusterAddr v c + i) = m (clusterAddr v c + i))
    (inside : p < cs.length * v.bytesPerCluster) : fileByte v m' cs p = fileByte v m cs p :=
  same _ (getD_mem (place_lt inside)) _ (Nat.mod_lt _ (bytes_pos geo))

theorem fileByte_append (inside : p < cs.length * v.bytesPerCluster) :
    fileByte v m (cs ++ ds) p = fileByte v m cs p := by
  rw [fileByte, fileByte, List.getD_append _ _ _ _ (place_lt inside)]

structure Grows (v : Volume) (clusters : Nat) (m : Mem) (cs : List Nat) (m' : Mem) (cs' : List Nat) : Prop where
  more : ∃ new, cs' = cs ++ new
  fresh : ∀ c ∈ cs', c ∉ cs → entry v m c = 0
  entries : ∀ c < v.fatSize * entriesPerSec, c ∉ cs' → entry v m' c = entry v m c
  data : ∀ c, InVolume clusters c → c ∉ cs' →
    ∀ i < v.bytesPerCluster, m' (clusterAddr v c + i) = m (clusterAddr v c + i)

namespace Grows

theorem refl (v : Volume) (clusters : Nat) (m : Mem) (cs : List Nat) : Grows v clusters m cs m cs :=
  ⟨⟨[], (List.append_nil cs).symm⟩, fun _ member out => absurd member out, fun _ _ _ => rfl, fun _ _ _ _ _ => rfl⟩

theorem mem (grows : Grows v clusters m cs m' cs') (member : c ∈ cs) : c ∈ cs' := by
  obtain ⟨new, rfl⟩ := grows.more
  exact List.mem_append_left new member

theorem length_le (grows : Grows v clusters m cs m' cs') : cs.length ≤ cs'.length := by
  obtain ⟨new, rfl⟩ := grows.more
  rw [List.length_append]
  omega

theorem trans (first : Grows v clusters m cs m' cs') (second : Grows v clusters m' cs' m'' cs'')
    (listed : ∀ c ∈ cs'', c < v.fatSize * entriesPerSec) : Grows v clusters m cs m'' cs'' := by
  refine ⟨?_, ?_, ?_, ?_⟩
  · obtain ⟨new, rfl⟩ := first.more
    obtain ⟨new', rfl⟩ := second.more
    exact ⟨new ++ new', List.append_assoc ..⟩
  · intro c member out
    by_cases early : c ∈ cs'
    · exact first.fresh c early out
    · rw [← first.entries c (listed c member) early]
      exact second.fresh c member early
  · intro c small out
    rw [second.entries c small out, first.entries c small fun early => out (second.mem early)]
  · intro c inside out i small
    rw [second.data c inside out i small, first.data c inside (fun early => out (second.mem early)) i small]

theorem apart (grows : Grows v clusters m cs m' cs') (ch : IsChain v clusters m start ds)
    (disjoint : ∀ c ∈ ds, c ∉ cs) : ∀ c ∈ ds, c ∉ cs' :=
  fun c member new => ch.nonzero member (grows.fresh c new (disjoint c member))

theorem chain (grows : Grows v clusters m cs m' cs') (geo : Geometry v clusters)
    (ch : IsChain v clusters m start ds) (disjoint : ∀ c ∈ ds, c ∉ cs) : IsChain v clusters m' start ds :=
  ch.congr fun c member => grows.entries c ((ch.inside c member).listed geo) (grows.apart ch disjoint c member)

theorem bytes (grows : Grows v clusters m cs m' cs') (geo : Geometry v clusters)
    (ch : IsChain v clusters m start ds) (disjoint : ∀ c ∈ ds, c ∉ cs) (inside : p < ds.length * v.bytesPerCluster) :
    fileByte v m' ds p = fileByte v m ds p :=
  fileByte_congr geo (fun c member => grows.data c (ch.inside c member) (grows.apart ch disjoint c member)) inside

end Grows

/-- The file grows from `cs` to `cs'`; its bytes from `a` to `b` become those of `g`. -/
structure Writes (v : Volume) (clusters start : Nat) (m : Mem) (cs : List Nat) (m' : Mem) (cs' : List Nat) (a b : Nat)
    (g : Nat → UInt8) : Prop where
  grows : Grows v clusters m cs m' cs'
  chain : IsChain v clusters m' start cs'
  free : FreeInside v clusters m'
  bytes : ∀ p < cs'.length * v.bytesPerCluster, fileByte v m' cs' p =
    if a ≤ p ∧ p < b then g p else if p < cs.length * v.bytesPerCluster then fileByte v m cs p else 0

namespace Writes

theorem refl (ch : IsChain v clusters m start cs) (free : FreeInside v clusters m) (a : Nat) (g : Nat → UInt8) :
    Writes v clusters start m cs m cs a a g :=
  ⟨Grows.refl v clusters m cs, ch, free, fun p inside => by rw [if_neg (by omega), if_pos inside]⟩

theorem trans {b' : Nat} (geo : Geometry v clusters) (first : Writes v clusters start m cs m' cs' a b g)
    (second : Writes v clusters start m' cs' m'' cs'' b b' g) (le : a ≤ b) (le' : b ≤ b')
    (reach : b ≤ cs'.length * v.bytesPerCluster) : Writes v clusters start m cs m'' cs'' a b' g := by
  refine ⟨first.grows.trans second.grows fun c member => (second.chain.inside c member).listed geo, second.chain,
    second.free, fun p inside => ?_⟩
  have shorter := Nat.mul_le_mul_right v.bytesPerCluster first.grows.length_le
  rw [second.bytes p inside]
  by_cases late : b ≤ p ∧ p < b'
  · rw [if_pos late, if_pos (by omega)]
  · rw [if_neg late]
    by_cases old : p < cs'.length * v.bytesPerCluster
    · rw [if_pos old, first.bytes p old]
      by_cases early : a ≤ p ∧ p < b
      · rw [if_pos early, if_pos (by omega)]
      · rw [if_neg early, if_neg (by omega : ¬ (a ≤ p ∧ p < b'))]
    · rw [if_neg old, if_neg (by omega), if_neg (by omega)]

theorem move (first : Writes v clusters start m cs m' cs' a a g) (b : Nat) :
    Writes v clusters start m cs m' cs' b b g :=
  ⟨first.grows, first.chain, first.free, fun p inside => by
    rw [first.bytes p inside, if_neg (by omega), if_neg (by omega : ¬ (b ≤ p ∧ p < b))]⟩

end Writes

theorem FreeInside.congr (free : FreeInside v clusters m)
    (same : ∀ c < v.fatSize * entriesPerSec, entry v m' c = 0 → entry v m c = 0) : FreeInside v clusters m' :=
  fun c two listed zero => free c two listed (same c listed zero)

theorem zeroed_bytes (geo : Geometry v clusters) (inside : ∀ c ∈ cs, InVolume clusters c) (new : InVolume clusters nc)
    (out : nc ∉ cs) (same : ∀ c ∈ cs, ∀ i < v.bytesPerCluster, m' (clusterAddr v c + i) = m (clusterAddr v c + i)) :
    ∀ p < (cs ++ [nc]).length * v.bytesPerCluster,
      fileByte v (paste m' (clusterAddr v nc) v.bytesPerCluster fun _ => 0) (cs ++ [nc]) p =
        if p < cs.length * v.bytesPerCluster then fileByte v m cs p else 0 := by
  intro p within
  have few := Nat.mod_lt p (bytes_pos geo)
  split
  · rename_i old
    rw [fileByte_append old, fileByte_congr geo _ old]
    intro c member i small
    rw [cluster_paste geo (inside c member) new (fun same => out (same ▸ member)) _ small, same c member i small]
  · rename_i fresh
    have place : p / v.bytesPerCluster = cs.length := by
      rw [List.length_append, List.length_singleton] at within
      have low := (Nat.le_div_iff_mul_le (bytes_pos geo)).mpr (Nat.not_lt.mp fresh)
      have high := Nat.div_lt_of_lt_mul (by rwa [Nat.mul_comm] at within)
      omega
    have last : (cs ++ [nc]).getD cs.length 0 = nc := by simp [List.getD]
    rw [fileByte, place, last, paste_inside _ (by omega) (by omega)]

theorem extend_ok (ok : Reliable dev) (geo : Geometry v clusters) (fs : State) (free : FreeInside v clusters fs.disk)
    (ch : IsChain v clusters fs.disk start (cs ++ [l])) :
    ∃ nc m t, fatAllocCluster dev v fs = (nc, fs.after m t) ∧
      (nc = 0 ∧ m = fs.disk ∨ nc ≠ 0 ∧ ∃ m' t',
        zeroCluster dev v (fatSetEntry dev v (fs.after m t) l nc) nc = fs.after m' t' ∧
          Writes v clusters start fs.disk (cs ++ [l]) m' (cs ++ [l] ++ [nc]) 0 0 g) := by
  obtain ⟨nc, m, t, allocated, none | ⟨inside, zero, marked⟩⟩ := fatAllocCluster_ok ok geo fs free
  · exact ⟨nc, m, t, allocated, Or.inl none⟩
  refine ⟨nc, m, t, allocated, Or.inr ⟨by have := inside.1; omega, ?_⟩⟩
  have lastInside := ch.inside l (by simp)
  have out : nc ∉ cs ++ [l] := fun member => ch.nonzero member zero
  have other : nc ≠ l := fun same => out (by simp [same])
  obtain ⟨m₁, t₁, linked, link⟩ := fatSetEntry_ok ok geo (fs.after m t) (lastInside.listed geo)
    (lastInside.small geo) (inside.small geo)
  obtain ⟨t₂, cleared⟩ := zeroCluster_ok ok geo ((fs.after m t).after m₁ t₁) inside
  refine ⟨_, t₂, by rw [linked, cleared]; rfl, ?_⟩
  rw [after_after, after_disk]
  rw [after_disk] at link
  -- the entries: `l` is linked to `nc`, `nc` ends the chain, the others stay
  have entries : ∀ c < v.fatSize * entriesPerSec,
      entry v (paste m₁ (clusterAddr v nc) v.bytesPerCluster fun _ => 0) c =
        if c = l then nc else if c = nc then 0x0FFFFFFF else entry v fs.disk c := by
    intro c listed
    rw [entry_paste geo _ _ listed (clusterAddr_ge v nc)]
    split
    · rename_i same
      rw [same, link.here]
    · rename_i notLast
      rw [link.there c listed notLast]
      split
      · rename_i same
        rw [same, marked.here]
      · rename_i notNew
        rw [marked.there c listed notNew]
  have kept : ∀ c, InVolume clusters c → ∀ i, m₁ (clusterAddr v c + i) = fs.disk (clusterAddr v c + i) := by
    intro c _ i
    have behind : v.clusterBeginLba * sectorSize ≤ clusterAddr v c + i :=
      Nat.le_trans (clusterAddr_ge v c) (Nat.le_add_right _ _)
    rw [link.data _ behind, marked.data _ behind]
  have first : ∀ c ∈ cs, c ≠ l ∧ c ≠ nc := by
    intro c member
    refine ⟨fun same => ?_, fun same => out (by simp [← same, member])⟩
    exact (List.nodup_append.mp ch.nodup).2.2 c member l (by simp) same
  refine ⟨⟨⟨[nc], rfl⟩, ?_, ?_, ?_⟩, ?_, ?_, ?_⟩
  · intro c member notOld
    rcases List.mem_append.mp member with old | new
    · exact absurd old notOld
    · rw [List.mem_singleton.mp new]
      exact zero
  · intro c listed notMember
    simp only [List.mem_append, List.mem_singleton, not_or] at notMember
    rw [entries c listed, if_neg notMember.1.2, if_neg notMember.2]
  · intro c within notMember i small
    simp only [List.mem_append, List.mem_singleton, not_or] at notMember
    rw [cluster_paste geo within inside notMember.2 _ small, kept c within]
  · refine ch.snoc ?_ ?_ ?_ out inside
    · rw [entries l (lastInside.listed geo), if_pos rfl]
    · rw [entries nc (inside.listed geo), if_neg other, if_pos rfl]
      decide
    · intro c member
      have listed := (ch.inside c (by simp [member])).listed geo
      rw [entries c listed, if_neg (first c member).1, if_neg (first c member).2]
  · refine free.congr fun c listed empty => ?_
    rw [entries c listed] at empty
    split at empty
    · have := inside.1
      omega
    · split at empty
      · cases empty
      · exact empty
  · intro p within
    rw [if_neg (by omega)]
    exact zeroed_bytes geo ch.inside inside out (fun c member i _ => kept c (ch.inside c member) i) p within

theorem split_last (here : cs[k]? = some c) (last : k + 1 = cs.length) : ∃ first, cs = first ++ [c] := by
  rcases List.eq_nil_or_concat cs with rfl | ⟨first, x, rfl⟩
  · cases last
  · rw [List.concat_eq_append] at *
    have place : k = first.length := by
      rw [List.length_append, List.length_singleton] at last
      omega
    have same : x = c := by simpa [place] using here
    exact ⟨first, by rw [same]⟩

def Cursor.At (v : Volume) (cs : List Nat) (p : Nat) (at_ : Cursor) : Prop :=
  at_.clusterOffset = p / v.bytesPerCluster * v.bytesPerCluster ∧ cs[p / v.bytesPerCluster]? = some at_.cluster

def Full (dev : Device) (v : Volume) (m : Mem) : Prop := ∃ fs : State, fs.disk = m ∧ (fatAllocCluster dev v fs).1 = 0

theorem seekLoop_ok (ok : Reliable dev) (geo : Geometry v clusters) (offset : Nat)
    (g : Nat → UInt8) : ∀ (fuel k : Nat) {cs : List Nat} (at_ : Cursor) {fs : State},
      FreeInside v clusters fs.disk → IsChain v clusters fs.disk start cs → cs[k]? = some at_.cluster →
      at_.clusterOffset = k * v.bytesPerCluster → k ≤ offset / v.bytesPerCluster →
      offset / v.bytesPerCluster < k + fuel →
      Safe (seekLoop dev v offset fuel at_ fs) fun r => ∃ m cs' t, r.2 = fs.after m t ∧
        Writes v clusters start fs.disk cs m cs' 0 0 g ∧ (∀ at', r.1 = some at' → at'.At v cs' offset) ∧
          (r.1 = none → cs'.length * v.bytesPerCluster ≤ offset ∧ Full dev v m) := by
  intro fuel
  induction fuel with
  | zero =>
    intro k cs at_ fs _ _ _ _ low high
    omega
  | succ fuel ih =>
    intro k cs at_ fs free ch here place low high
    have inside := ch.inside at_.cluster (mem_of_some here)
    have within := lt_of_some here
    -- the chain is too short for its offsets to wrap
    have next : u64 (at_.clusterOffset + v.bytesPerCluster) = (k + 1) * v.bytesPerCluster := by
      rw [place, ← Nat.succ_mul]
      exact Nat.mod_eq_of_lt (Nat.lt_of_le_of_lt (Nat.mul_le_mul_right _ within) (ch.bytes_lt geo))
    simp only [seekLoop, next, fatNextCluster_ok ok geo fs (inside.listed geo) (inside.small geo)]
    refine Safe.ite (fun more => ?_) fun done => ?_
    · have further : k + 1 ≤ offset / v.bytesPerCluster := (Nat.le_div_iff_mul_le (bytes_pos geo)).mpr more
      rcases Nat.lt_or_ge (k + 1) cs.length with linked | ends
      · -- the chain goes on
        have link := ch.next here linked
        have range := ch.inside _ (mem_of_some link)
        have below := range.below geo
        refine Safe.neg (by have := range.1; omega) ?_
        exact ih (k + 1) ⟨_, _, _⟩ free ch link rfl further (by omega)
      · -- the chain ends and is extended
        obtain ⟨first, rfl⟩ := split_last here (by omega)
        have mark : clusterEndMark ≤ entry v fs.disk at_.cluster := ch.last (by simp)
        refine Safe.pos (Or.inl mark) ?_
        obtain ⟨nc, m, t, allocated, ⟨none, same⟩ | ⟨some, m', t', linked, writes⟩⟩ :=
          extend_ok (g := g) ok geo (fs.after fs.disk (fs.clock + 1)) free ch
        · rw [allocated]
          refine Safe.pos none (Safe.ok ⟨m, first ++ [at_.cluster], t, rfl, ?_, by rintro c ⟨⟩, fun _ => ?_⟩)
          · rw [same]
            exact Writes.refl ch free 0 g
          · have length : k + 1 = (first ++ [at_.cluster]).length := by omega
            exact ⟨by rwa [← length], _, same.symm, by rw [allocated, none]⟩
        · rw [allocated]
          refine Safe.neg some ?_
          rw [linked]
          have fresh : (first ++ [at_.cluster] ++ [nc])[k + 1]? = Option.some nc := by
            have length : k + 1 = (first ++ [at_.cluster]).length := by omega
            rw [length, List.getElem?_append_right (Nat.le_refl _), Nat.sub_self]
            rfl
          refine (ih (k + 1) ⟨_, _, _⟩ writes.free writes.chain fresh rfl further (by omega)).mono ?_
          rintro ⟨result, final⟩ ⟨m'', cs', t'', rfl, later, found⟩
          exact ⟨m'', cs', t'', rfl, writes.trans geo later (Nat.le_refl _) (Nat.le_refl _) (Nat.zero_le _), found⟩
    · have exact_ : k = offset / v.bytesPerCluster := by
        have := Nat.div_lt_of_lt_mul (by rw [Nat.mul_comm]; exact Nat.not_le.mp done)
        omega
      refine Safe.ok ⟨fs.disk, cs, fs.clock, rfl, Writes.refl ch free 0 g, ?_, by rintro ⟨⟩⟩
      rintro at' ⟨rfl⟩
      exact ⟨by rw [place, exact_], by rw [← exact_]; exact here⟩

/-- The cursor of the write loop: at the cluster of byte `p`, or behind the end of the chain. -/
def Cursor.Next (v : Volume) (cs : List Nat) (p : Nat) (at_ : Cursor) : Prop :=
  at_.At v cs p ∨ at_.clusterOffset = p ∧ p = cs.length * v.bytesPerCluster ∧ clusterEndMark ≤ at_.cluster ∧
    cs[cs.length - 1]? = some at_.prevCluster

theorem writeTarget_ok (ok : Reliable dev) (geo : Geometry v clusters) {at_ : Cursor} (fs : State)
    (free : FreeInside v clusters fs.disk) (ch : IsChain v clusters fs.disk start cs) (next : at_.Next v cs p)
    (g : Nat → UInt8) :
    ∃ target m t, writeTarget dev v start at_ fs = (target, fs.after m t) ∧
      (target = none ∧ m = fs.disk ∧ p = cs.length * v.bytesPerCluster ∧ Full dev v fs.disk ∨
        ∃ c cs', target = some c ∧ cs'[p / v.bytesPerCluster]? = some c ∧
        at_.clusterOffset = p / v.bytesPerCluster * v.bytesPerCluster ∧
        Writes v clusters start fs.disk cs m cs' p p g) := by
  rcases next with ⟨place, here⟩ | ⟨place, ends, mark, last⟩
  · have inside := ch.inside _ (mem_of_some here)
    have below := inside.below geo
    refine ⟨some at_.cluster, fs.disk, fs.clock, ?_, Or.inr ⟨_, cs, rfl, here, place, Writes.refl ch free p g⟩⟩
    rw [writeTarget, if_neg (by have := inside.1; omega)]
    rfl
  · obtain ⟨first, rfl⟩ := split_last last (by have := lt_of_some last; omega)
    have inside := ch.inside _ (mem_of_some last)
    have previous : at_.prevCluster ≠ 0 := by have := inside.1; omega
    have quotient : p / v.bytesPerCluster = (first ++ [at_.prevCluster]).length := by
      rw [ends, Nat.mul_div_cancel _ (bytes_pos geo)]
    rw [writeTarget, if_pos (Or.inr mark), if_pos previous]
    obtain ⟨nc, m, t, allocated, ⟨full, same⟩ | ⟨found, m', t', linked, writes⟩⟩ := extend_ok (g := g) ok geo fs free ch
    · exact ⟨none, m, t, by simp only [allocated, full, if_true],
        Or.inl ⟨rfl, same, ends, fs, rfl, by rw [allocated, full]⟩⟩
    · refine ⟨some nc, m', t', by simp only [allocated, found, if_false, linked], Or.inr ?_⟩
      refine ⟨nc, _, rfl, ?_, by rw [place, quotient, ends], writes.move p⟩
      rw [quotient, List.getElem?_append_right (Nat.le_refl _), Nat.sub_self]
      rfl

theorem rewrite_ok (geo : Geometry v clusters) (free : FreeInside v clusters m) (ch : IsChain v clusters m start cs)
    (here : cs[k]? = some c) {buf : Mem} (low : k * v.bytesPerCluster ≤ a) (high : b ≤ (k + 1) * v.bytesPerCluster)
    (changed : ∀ i < v.bytesPerCluster, buf i =
      if a ≤ k * v.bytesPerCluster + i ∧ k * v.bytesPerCluster + i < b then g (k * v.bytesPerCluster + i)
      else m (clusterAddr v c + i)) :
    Writes v clusters start m cs (paste m (clusterAddr v c) v.bytesPerCluster buf) cs a b g := by
  have inside := ch.inside c (mem_of_some here)
  have entries : ∀ c' < v.fatSize * entriesPerSec,
      entry v (paste m (clusterAddr v c) v.bytesPerCluster buf) c' = entry v m c' :=
    fun c' listed => entry_paste geo _ _ listed (clusterAddr_ge v c)
  refine ⟨⟨⟨[], (List.append_nil cs).symm⟩, fun _ member out => absurd member out, fun c' listed _ => entries c' listed,
    ?_⟩, ?_, ?_, ?_⟩
  · intro c' within out i small
    exact cluster_paste geo within inside (fun same => out (same ▸ mem_of_some here)) _ small
  · exact ch.congr fun c' member => entries c' ((ch.inside c' member).listed geo)
  · exact free.congr fun c' listed empty => by rwa [entries c' listed] at empty
  · intro p within
    have few := Nat.mod_lt p (bytes_pos geo)
    have split := Nat.div_add_mod p v.bytesPerCluster
    rw [Nat.mul_comm] at split
    rw [if_pos within]
    by_cases same : p / v.bytesPerCluster = k
    · rw [same] at split
      rw [fileByte, fileByte, same, getD_of_some here, paste_inside _ (by omega) (by omega), Nat.add_sub_cancel_left,
        changed _ few, split]
    · -- another cluster of the chain
      have apart : cs.getD (p / v.bytesPerCluster) 0 ≠ c := by
        intro equal
        have there := List.getElem?_eq_getElem (place_lt within)
        rw [List.getD, there, Option.getD_some] at equal
        rw [equal] at there
        exact same ((List.getElem?_inj (place_lt within) ch.nodup).mp (there.trans here.symm))
      have outside : ¬ (a ≤ p ∧ p < b) := by
        intro range
        have below := Nat.div_lt_of_lt_mul (by rw [Nat.mul_comm]; exact Nat.lt_of_lt_of_le range.2 high)
        have above := (Nat.le_div_iff_mul_le (bytes_pos geo)).mpr (Nat.le_trans low range.1)
        omega
      rw [if_neg outside, fileByte, fileByte,
        cluster_paste geo (ch.inside _ (getD_mem (place_lt within))) inside apart _ few]

theorem copyRange_eq {offset size clusterOffset outPos : Nat}
    (place : clusterOffset = (offset + outPos) / v.bytesPerCluster * v.bytesPerCluster)
    (aligned : 0 < outPos → (offset + outPos) % v.bytesPerCluster = 0) :
    copyRange v offset size clusterOffset outPos = ((offset + outPos) % v.bytesPerCluster,
      min (v.bytesPerCluster - (offset + outPos) % v.bytesPerCluster) (size - outPos)) := by
  have split := Nat.div_add_mod (offset + outPos) v.bytesPerCluster
  rw [Nat.mul_comm, ← place] at split
  have first : (if outPos = 0 then offset - clusterOffset else 0) = (offset + outPos) % v.bytesPerCluster := by
    split
    · omega
    · rw [aligned (by omega)]
  simp only [copyRange, first]
  congr 1
  split <;> omega

theorem Cursor.Next.advance (geo : Geometry v clusters) (ch : IsChain v clusters m start cs) (here : cs[k]? = some c) :
    (⟨entry v m c, (k + 1) * v.bytesPerCluster, c⟩ : Cursor).Next v cs ((k + 1) * v.bytesPerCluster) := by
  have quotient : (k + 1) * v.bytesPerCluster / v.bytesPerCluster = k + 1 := Nat.mul_div_cancel _ (bytes_pos geo)
  have within := lt_of_some here
  rcases Nat.lt_or_ge (k + 1) cs.length with linked | ends
  · exact Or.inl ⟨by rw [quotient], by rw [quotient]; exact ch.next here linked⟩
  · have last : k + 1 = cs.length := by omega
    have place : cs[cs.length - 1]? = some c := by rw [← last, Nat.add_sub_cancel]; exact here
    exact Or.inr ⟨rfl, by rw [last], ch.last place, place⟩

theorem writeLoop_ok (ok : Reliable dev) (geo : Geometry v clusters) {offset : Nat} (buffer : List UInt8) :
    ∀ (fuel : Nat) {cs : List Nat} {at_ : Cursor} {outPos : Nat} {fs : State},
      FreeInside v clusters fs.disk → IsChain v clusters fs.disk start cs → outPos ≤ buffer.length →
      offset + outPos ≤ cs.length * v.bytesPerCluster →
      (outPos < buffer.length → at_.Next v cs (offset + outPos) ∧
        (0 < outPos → (offset + outPos) % v.bytesPerCluster = 0)) →
      buffer.length < outPos + fuel →
      Safe (writeLoop dev v start offset buffer fuel at_ outPos fs) fun r => ∃ m cs' t, r.2 = fs.after m t ∧
        outPos ≤ r.1 ∧ r.1 ≤ buffer.length ∧ offset + r.1 ≤ cs'.length * v.bytesPerCluster ∧
        (r.1 < buffer.length → offset + r.1 = cs'.length * v.bytesPerCluster ∧ Full dev v m) ∧
        Writes v clusters start fs.disk cs m cs' (offset + outPos) (offset + r.1)
          fun p => buffer.getD (p - offset) 0 := by
  intro fuel
  induction fuel with
  | zero =>
    intro cs at_ outPos fs _ _ le _ _ enough
    omega
  | succ fuel ih =>
    intro cs at_ outPos fs free ch le reach cursor enough
    have stop : ∀ t, (outPos < buffer.length → offset + outPos = cs.length * v.bytesPerCluster ∧ Full dev v fs.disk) →
        Safe (.ok (outPos, fs.after fs.disk t) : Except Fault (Nat × State)) fun r =>
        ∃ m cs' t, r.2 = fs.after m t ∧ outPos ≤ r.1 ∧ r.1 ≤ buffer.length ∧
          offset + r.1 ≤ cs'.length * v.bytesPerCluster ∧
          (r.1 < buffer.length → offset + r.1 = cs'.length * v.bytesPerCluster ∧ Full dev v m) ∧
          Writes v clusters start fs.disk cs m cs' (offset + outPos) (offset + r.1)
            fun p => buffer.getD (p - offset) 0 := fun t short =>
      Safe.ok ⟨fs.disk, cs, t, rfl, Nat.le_refl _, le, reach, short, Writes.refl ch free _ _⟩
    rw [writeLoop]
    refine Safe.ite (fun more => ?_) fun done => stop fs.clock fun more => absurd more done
    obtain ⟨next, aligned⟩ := cursor more
    obtain ⟨target, m, t, goal, ⟨none, same, ends, full⟩ | ⟨c, cs₁, found, here, place, grown⟩⟩ :=
      writeTarget_ok ok geo fs free ch next fun p => buffer.getD (p - offset) 0
    · simp only [goal, none, same]
      exact stop t fun _ => ⟨ends, full⟩
    have inside := grown.chain.inside c (mem_of_some here)
    obtain ⟨cbuf, t₁, read, bytes⟩ := readCluster_ok ok geo (fs.after m t) inside
    rw [after_disk] at bytes
    simp only [goal, found, read, copyRange_eq place aligned, after_after, after_disk]
    -- the round writes the bytes from `q` to `q + n`, all in cluster number `k`
    generalize quotient : (offset + outPos) / v.bytesPerCluster = k at *
    generalize rest : (offset + outPos) % v.bytesPerCluster = r at *
    have split : k * v.bytesPerCluster + r = offset + outPos := by
      rw [← quotient, ← rest, Nat.mul_comm, Nat.div_add_mod]
    have few : r < v.bytesPerCluster := by
      rw [← rest]
      exact Nat.mod_lt _ (bytes_pos geo)
    generalize number : min (v.bytesPerCluster - r) (buffer.length - outPos) = n
    have positive : 0 < n ∧ outPos + n ≤ buffer.length ∧ r + n ≤ v.bytesPerCluster ∧
        (outPos + n < buffer.length → r + n = v.bytesPerCluster) := by omega
    obtain ⟨t₂, wrote⟩ := fatWriteCluster_ok ok geo (fs.after m t₁)
      (paste cbuf r n fun i => buffer.getD (outPos + i) 0) inside
    have longer : (k + 1) * v.bytesPerCluster ≤ cs₁.length * v.bytesPerCluster :=
      Nat.mul_le_mul_right _ (lt_of_some here)
    have whole : (k + 1) * v.bytesPerCluster = k * v.bytesPerCluster + v.bytesPerCluster := Nat.succ_mul _ _
    have written : Writes v clusters start m cs₁
        (paste m (clusterAddr v c) v.bytesPerCluster (paste cbuf r n fun i => buffer.getD (outPos + i) 0)) cs₁
        (offset + outPos) (offset + (outPos + n)) fun p => buffer.getD (p - offset) 0 := by
      refine rewrite_ok geo grown.free grown.chain here (by omega) (by omega) fun i small => ?_
      by_cases range : r ≤ i ∧ i < r + n
      · have index : outPos + (i - r) = k * v.bytesPerCluster + i - offset := by omega
        rw [paste_inside _ range.1 range.2, if_pos (by omega), index]
      · rw [paste_outside _ (by omega), if_neg (by omega), bytes i small]
    simp only [wrote, after_after, after_disk, fatNextCluster_ok ok geo _ (inside.listed geo) (inside.small geo), place]
    have later := @ih cs₁ ⟨entry v (paste m (clusterAddr v c) v.bytesPerCluster
        (paste cbuf r n fun i => buffer.getD (outPos + i) 0)) c, k * v.bytesPerCluster + v.bytesPerCluster, c⟩
      (outPos + n) (fs.after _ (t₂ + 1)) written.free written.chain positive.2.1 (by omega) ?_ (by omega)
    · refine later.mono ?_
      rintro ⟨result, final⟩ ⟨m', cs', t', rfl, low, high, reach', short, rest'⟩
      exact ⟨m', cs', t', rfl, by omega, high, reach', short, (grown.trans geo written (Nat.le_refl _) (by omega)
        (by omega)).trans geo rest' (by omega) (by omega) (by omega)⟩
    · intro unfinished
      have filled : offset + (outPos + n) = (k + 1) * v.bytesPerCluster := by
        have := positive.2.2.2 unfinished
        omega
      rw [filled, ← whole]
      exact ⟨Cursor.Next.advance geo written.chain here, fun _ => Nat.mul_mod_left _ _⟩

end RexOs.Fs
