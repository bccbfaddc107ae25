import RexOs.Fs.FatWrite
import RexOs.Fs.Fat32Dir

/-! What `fat32_read` returns: the bytes of the file from the offset on. -/

set_option autoImplicit false

namespace RexOs.Fs

open RexOs.Library

section
variable {dev : Device} {v : Volume} {clusters start : Nat} {m : Mem} {cs : List Nat} {c k p : Nat}

theorem skipLoop_ok (ok : Reliable dev) (geo : Geometry v clusters) (offset : Nat) (small : offset < 2 ^ 32)
    (inside : offset < cs.length * v.bytesPerCluster) :
    ∀ (fuel k : Nat) {cluster : Nat} (fs : State), IsChain v clusters fs.disk start cs → cs[k]? = some cluster →
      k ≤ offset / v.bytesPerCluster → offset / v.bytesPerCluster < k + fuel →
      Safe (skipLoop dev v offset fuel cluster (k * v.bytesPerCluster) fs) fun r => ∃ c t,
        r = (some (c, offset / v.bytesPerCluster * v.bytesPerCluster), fs.after fs.disk t) ∧
          cs[offset / v.bytesPerCluster]? = some c := by
  have short : v.bytesPerCluster < 2 ^ 32 := by
    have := geo.small
    rw [geo.bytes, sectorSize]
    omega
  intro fuel
  induction fuel with
  | zero =>
    intro k cluster fs _ _ low high
    omega
  | succ fuel ih =>
    intro k cluster fs ch here low high
    have whole : k * v.bytesPerCluster ≤ offset := (Nat.le_div_iff_mul_le (bytes_pos geo)).mp low
    have next : u64 (k * v.bytesPerCluster + v.bytesPerCluster) = (k + 1) * v.bytesPerCluster := by
      rw [← Nat.succ_mul]
      exact Nat.mod_eq_of_lt (by rw [Nat.succ_mul]; omega)
    have member := ch.inside cluster (mem_of_some here)
    simp only [skipLoop, next, fatNextCluster_ok ok geo fs (member.listed geo) (member.small geo)]
    refine Safe.ite (fun more => ?_) fun done => ?_
    · have further : k + 1 ≤ offset / v.bytesPerCluster := (Nat.le_div_iff_mul_le (bytes_pos geo)).mpr more
      have linked : k + 1 < cs.length := Nat.lt_of_le_of_lt further (place_lt inside)
      have link := ch.next here linked
      have range := ch.inside _ (mem_of_some link)
      have below := range.below geo
      refine Safe.neg (by have := range.1; omega) ?_
      exact ih (k + 1) (fs.after fs.disk (fs.clock + 1)) ch link further (by omega)
    · have exact_ : k = offset / v.bytesPerCluster := by
        have := Nat.div_lt_of_lt_mul (by rw [Nat.mul_comm]; exact Nat.not_le.mp done)
        omega
      exact Safe.ok ⟨cluster, fs.clock, by rw [exact_]; rfl, by rw [← exact_]; exact here⟩

def fileBytes (v : Volume) (m : Mem) (cs : List Nat) (offset n : Nat) : List UInt8 :=
  (List.range n).map fun i => fileByte v m cs (offset + i)

theorem fileBytes_length (v : Volume) (m : Mem) (cs : List Nat) (offset n : Nat) :
    (fileBytes v m cs offset n).length = n := by simp [fileBytes]

theorem fileBytes_append (v : Volume) (m : Mem) (cs : List Nat) (offset n n' : Nat) :
    fileBytes v m cs offset n ++ fileBytes v m cs (offset + n) n' = fileBytes v m cs offset (n + n') := by
  simp only [fileBytes, List.range_add, List.map_append, List.map_map, Nat.add_assoc]
  rfl

theorem fileBytes_cluster {buf : Mem} (here : cs[k]? = some c) {r n : Nat} (fits : r + n ≤ v.bytesPerCluster)
    (bytes : ∀ i < v.bytesPerCluster, buf i = m (clusterAddr v c + i)) :
    (List.range n).map (fun i => buf (r + i)) = fileBytes v m cs (k * v.bytesPerCluster + r) n := by
  refine List.map_congr_left fun i member => ?_
  have small : r + i < v.bytesPerCluster := by
    have := List.mem_range.mp member
    omega
  have quotient : (k * v.bytesPerCluster + r + i) / v.bytesPerCluster = k := by
    rw [Nat.add_assoc, Nat.add_comm, Nat.add_mul_div_right _ _ (by omega), Nat.div_eq_of_lt small, Nat.zero_add]
  have rest : (k * v.bytesPerCluster + r + i) % v.bytesPerCluster = r + i := by
    rw [Nat.add_assoc, Nat.add_comm, Nat.add_mul_mod_self_right, Nat.mod_eq_of_lt small]
  rw [fileByte, quotient, rest, getD_of_some here, bytes _ small]

theorem readLoop_ok (ok : Reliable dev) (geo : Geometry v clusters) {offset size : Nat}
    (reach : offset + size ≤ cs.length * v.bytesPerCluster) :
    ∀ (fuel n : Nat) {cluster clusterOffset : Nat} (fs : State), IsChain v clusters fs.disk start cs → n ≤ size →
      (n < size → clusterOffset = (offset + n) / v.bytesPerCluster * v.bytesPerCluster ∧
        cs[(offset + n) / v.bytesPerCluster]? = some cluster ∧
        (0 < n → (offset + n) % v.bytesPerCluster = 0)) →
      size < n + fuel →
      Safe (readLoop dev v offset size fuel cluster clusterOffset (fileBytes v fs.disk cs offset n) fs)
        fun r => ∃ t, r = (fileBytes v fs.disk cs offset size, fs.after fs.disk t) := by
  intro fuel
  induction fuel with
  | zero =>
    intro n cluster clusterOffset fs _ le _ enough
    omega
  | succ fuel ih =>
    intro n cluster clusterOffset fs ch le cursor enough
    rw [readLoop, fileBytes_length]
    by_cases more : n < size
    · obtain ⟨place, here, aligned⟩ := cursor more
      have member := ch.inside cluster (mem_of_some here)
      refine Safe.pos ⟨more, member.below geo, member.1⟩ ?_
      obtain ⟨cbuf, t, read, bytes⟩ := readCluster_ok ok geo fs member
      simp only [read, copyRange_eq place aligned]
      -- the round reads the bytes from `q` to `q + len`, all in cluster number `k`
      generalize quotient : (offset + n) / v.bytesPerCluster = k at *
      generalize rest : (offset + n) % v.bytesPerCluster = r at *
      have split : k * v.bytesPerCluster + r = offset + n := by
        rw [← quotient, ← rest, Nat.mul_comm, Nat.div_add_mod]
      have few : r < v.bytesPerCluster := by
        rw [← rest]
        exact Nat.mod_lt _ (bytes_pos geo)
      generalize number : min (v.bytesPerCluster - r) (size - n) = len
      have positive : 0 < len ∧ n + len ≤ size ∧ r + len ≤ v.bytesPerCluster ∧
          (n + len < size → r + len = v.bytesPerCluster) := by omega
      rw [fileBytes_cluster here positive.2.2.1 bytes, split, fileBytes_append]
      simp only [fatNextCluster_ok ok geo _ (member.listed geo) (member.small geo), after_after, after_disk, place]
      refine (ih (n + len) (fs.after fs.disk (t + 1)) ch positive.2.1 ?_ (by omega)).mono ?_
      · intro unfinished
        have filled : offset + (n + len) = (k + 1) * v.bytesPerCluster := by
          have := positive.2.2.2 unfinished
          rw [Nat.succ_mul]
          omega
        have linked : k + 1 < cs.length := by
          have below : (k + 1) * v.bytesPerCluster < cs.length * v.bytesPerCluster := by omega
          exact Nat.lt_of_mul_lt_mul_right below
        rw [filled, Nat.mul_div_cancel _ (bytes_pos geo), Nat.succ_mul]
        exact ⟨rfl, ch.next here linked, fun _ => by rw [← Nat.succ_mul]; exact Nat.mul_mod_left _ _⟩
      · rintro result ⟨t', rfl⟩
        exact ⟨t', rfl⟩
    · have all : n = size := by omega
      refine Safe.neg (fun going => more going.1) (Safe.ok ⟨fs.clock, ?_⟩)
      rw [all]
      rfl

end

/-! A file is open when it has a node; the others are known by their directory
entries. `Owns` gives every file and directory its chain: no cluster is on two of
them, a file's chain covers its size, and directory entries are in the clusters
of directories.
-/

abbrev Object := Nat ⊕ Nat

def objects (nodes : List Node) (closed : List Entry) : Object → Option Entry
  | .inl i => (nodes[i]?).map Node.toEntry
  | .inr j => closed[j]?

def slotAddr (e : Entry) : Nat := e.direntSector * sectorSize + e.direntOff

def Slot (v : Volume) (cs : List Nat) (e : Entry) : Prop :=
  ∃ c ∈ cs, ∃ s < v.sectorsPerCluster, ∃ k < 16,
    e.direntSector = v.clusterBeginLba + (c - 2) * v.sectorsPerCluster + s ∧ e.direntOff = 32 * k

structure Owns (v : Volume) (clusters : Nat) (obj : Object → Option Entry) (cs : Object → List Nat) (m : Mem) :
    Prop where
  free : FreeInside v clusters m
  chains : ∀ o e, obj o = some e → IsChain v clusters m e.startCluster (cs o)
  covers : ∀ o e, obj o = some e → e.isDir = false → e.size ≤ (cs o).length * v.bytesPerCluster ∧ e.size < 2 ^ 32
  apart : ∀ o o' e e', obj o = some e → obj o' = some e' → o ≠ o' → ∀ c ∈ cs o, c ∉ cs o'
  homes : ∀ i e, obj (.inl i) = some e → e.isDir = false → e.direntSector ≠ 0 →
    ∃ o d, obj o = some d ∧ d.isDir = true ∧ Slot v (cs o) e
  used : ∀ j e, obj (.inr j) = some e → e.direntSector ≠ 0 →
    (∃ o d, obj o = some d ∧ d.isDir = true ∧ Slot v (cs o) e) ∧ m (slotAddr e) ≠ 0 ∧ m (slotAddr e) ≠ 0xE5 ∧
      ∀ i e', obj (.inl i) = some e' → e'.isDir = false → slotAddr e' ≠ slotAddr e

variable {dev : Device} {v : Volume} {clusters : Nat} {obj : Object → Option Entry} {cs : Object → List Nat}
variable {m m' m'' : Mem} {o : Object} {e e' : Entry} {a b : Nat} {g : Nat → UInt8}

theorem Slot.inside (geo : Geometry v clusters) {ds : List Nat} (slot : Slot v ds e) :
    ∃ c ∈ ds, ∃ i, slotAddr e = clusterAddr v c + 32 * i ∧ 32 * i + 32 ≤ v.bytesPerCluster := by
  obtain ⟨c, member, s, small, k, few, sector, off⟩ := slot
  refine ⟨c, member, 16 * s + k, ?_, ?_⟩
  · rw [slotAddr, clusterAddr, sector, off, sectorSize, Nat.add_mul _ s]
    omega
  · rw [geo.bytes, sectorSize]
    omega

theorem Slot.aligned {ds : List Nat} (slot : Slot v ds e) : slotAddr e % 32 = 0 := by
  obtain ⟨_, _, _, _, k, _, _, off⟩ := slot
  rw [slotAddr, off, sectorSize]
  omega

/-- Everything but the object `o` stays: the contents of files, and the directory entries of
what has no node. -/
structure Keeps (v : Volume) (obj : Object → Option Entry) (o : Option Object) (m m' : Mem) : Prop where
  files : ∀ o' e, obj o' = some e → e.isDir = false → some o' ≠ o → contents v m' e = contents v m e
  dirents : ∀ j e, obj (.inr j) = some e → e.direntSector ≠ 0 →
    ∀ b < 32, m' (slotAddr e + b) = m (slotAddr e + b)

theorem Keeps.refl (v : Volume) (obj : Object → Option Entry) (o : Option Object) (m : Mem) : Keeps v obj o m m :=
  ⟨fun _ _ _ _ _ => rfl, fun _ _ _ _ _ _ => rfl⟩

theorem Keeps.trans {o : Option Object} {obj' : Object → Option Entry} (first : Keeps v obj o m m')
    (second : Keeps v obj' o m' m'') (same : ∀ o', some o' ≠ o → obj' o' = obj o')
    (closed : ∀ j, obj' (.inr j) = obj (.inr j)) : Keeps v obj o m m'' := by
  refine ⟨fun o' e found file other => ?_, fun j e found real b small => ?_⟩
  · rw [second.files o' e (by rw [same o' other]; exact found) file other, first.files o' e found file other]
  · rw [second.dirents j e (by rw [closed]; exact found) real b small, first.dirents j e found real b small]

theorem contents_eq (geo : Geometry v clusters) {ds ds' : List Nat} (ch : IsChain v clusters m e.startCluster ds)
    (ch' : IsChain v clusters m' e'.startCluster ds') (size : e'.size = e.size)
    (bytes : ∀ p < e.size, fileByte v m' ds' p = fileByte v m ds p) : contents v m' e' = contents v m e := by
  rw [contents, contents, ch.chain_eq geo, ch'.chain_eq geo, size]
  exact List.map_congr_left fun p member => bytes p (List.mem_range.mp member)

section
variable {k : Object} {ds : List Nat}

theorem forall_update {P : Object → Entry → List Nat → Prop} (here : P k e ds)
    (others : ∀ o x, o ≠ k → obj o = some x → P o x (cs o)) :
    ∀ o x, Function.update obj k (some e) o = some x → P o x (Function.update cs k ds o) := by
  intro o x found
  by_cases same : o = k
  · subst same
    rw [Function.update_self] at found ⊢
    cases found
    exact here
  · rw [Function.update_of_ne same] at found ⊢
    exact others o x same found

theorem apart_update (apart : ∀ o o' x y, obj o = some x → obj o' = some y → o ≠ o' → ∀ c ∈ cs o, c ∉ cs o')
    (new : ∀ o x, o ≠ k → obj o = some x → ∀ c ∈ cs o, c ∉ ds) :
    ∀ o o' x y, Function.update obj k (some e) o = some x → Function.update obj k (some e) o' = some y → o ≠ o' →
      ∀ c ∈ Function.update cs k ds o, c ∉ Function.update cs k ds o' := by
  intro o₁ o₂ x y found₁ found₂ ne c member
  by_cases first : o₁ = k
  · subst first
    rw [Function.update_self] at member
    rw [Function.update_of_ne ne.symm] at found₂ ⊢
    exact fun member' => new o₂ y ne.symm found₂ c member' member
  · rw [Function.update_of_ne first] at found₁ member
    by_cases second : o₂ = k
    · subst second
      rw [Function.update_self]
      exact new o₁ x first found₁ c member
    · rw [Function.update_of_ne second] at found₂ ⊢
      exact apart o₁ o₂ x y found₁ found₂ ne c member

theorem home_update {x : Entry} (noDir : ∀ d, obj k = some d → d.isDir = false)
    (home : ∃ o d, obj o = some d ∧ d.isDir = true ∧ Slot v (cs o) x) :
    ∃ o d, Function.update obj k (some e) o = some d ∧ d.isDir = true ∧ Slot v (Function.update cs k ds o) x := by
  obtain ⟨o, d, dir, isDir, slot⟩ := home
  have ne : o ≠ k := by
    rintro rfl
    rw [noDir d dir] at isDir
    cases isDir
  refine ⟨o, d, ?_, isDir, ?_⟩
  · rw [Function.update_of_ne ne]
    exact dir
  · rw [Function.update_of_ne ne]
    exact slot

end

namespace Owns

theorem member_apart (own : Owns v clusters obj cs m) {d : Entry} {o' : Object} (found : obj o = some e)
    (file : e.isDir = false) (dir : obj o' = some d) (isDir : d.isDir = true) : ∀ c ∈ cs o', c ∉ cs o := by
  refine own.apart o' o d e dir found ?_
  rintro rfl
  rw [dir] at found
  cases found
  rw [isDir] at file
  cases file

theorem home_kept (own : Owns v clusters obj cs m) (geo : Geometry v clusters) {i : Nat} (found : obj (.inl i) = some e)
    (file : e.isDir = false) {cs' : List Nat} {start : Nat} (writes : Writes v clusters start m (cs (.inl i)) m' cs' a b g)
    {x : Entry} (home : ∃ o d, obj o = some d ∧ d.isDir = true ∧ Slot v (cs o) x) :
    ∀ b < 32, m' (slotAddr x + b) = m (slotAddr x + b) := by
  obtain ⟨o', d, dir, isDir, slot⟩ := home
  obtain ⟨c, member, k, addr, room⟩ := slot.inside geo
  intro b few
  have ch := own.chains _ _ dir
  rw [addr, Nat.add_assoc]
  exact writes.grows.data c (ch.inside c member)
    (writes.grows.apart ch (own.member_apart found file dir isDir) c member) _ (by omega)

theorem write (own : Owns v clusters obj cs m) (geo : Geometry v clusters) {i : Nat} (found : obj (.inl i) = some e)
    (file : e.isDir = false) {cs' : List Nat} {start : Nat} (writes : Writes v clusters start m (cs (.inl i)) m' cs' a b g)
    (kept : e' = { e with startCluster := start, size := e'.size }) (size : e'.size ≤ cs'.length * v.bytesPerCluster)
    (small : e'.size < 2 ^ 32) :
    Owns v clusters (Function.update obj (.inl i) (some e')) (Function.update cs (.inl i) cs') m' ∧
      Keeps v obj (some (.inl i)) m m' := by
  have start_ : e'.startCluster = start := by rw [kept]
  have slot : slotAddr e' = slotAddr e := by rw [kept]; rfl
  have place : e'.direntSector = e.direntSector ∧ e'.direntOff = e.direntOff := by rw [kept]; exact ⟨rfl, rfl⟩
  have noDir : ∀ d, obj (.inl i) = some d → d.isDir = false := by
    intro d dir
    rw [found] at dir
    cases dir
    exact file
  -- another object keeps its chain
  have distinct : ∀ {o' x}, o' ≠ .inl i → obj o' = some x → ∀ c ∈ cs o', c ∉ cs (.inl i) :=
    fun ne found' => own.apart _ _ _ _ found' found ne
  have outside : ∀ {o' x}, o' ≠ .inl i → obj o' = some x → ∀ c ∈ cs o', c ∉ cs' :=
    fun ne found' => writes.grows.apart (own.chains _ _ found') (distinct ne found')
  have bytes : ∀ {x}, (∃ o d, obj o = some d ∧ d.isDir = true ∧ Slot v (cs o) x) →
      ∀ b < 32, m' (slotAddr x + b) = m (slotAddr x + b) := own.home_kept geo found file writes
  refine ⟨⟨writes.free, ?_, ?_, ?_, ?_, ?_⟩, ?_, ?_⟩
  · apply forall_update (P := fun _ x ds => IsChain v clusters m' x.startCluster ds)
    · rw [start_]
      exact writes.chain
    · intro o' x ne found'
      exact writes.grows.chain geo (own.chains _ _ found') (distinct ne found')
  · apply forall_update (P := fun _ x ds => x.isDir = false → x.size ≤ ds.length * v.bytesPerCluster ∧ x.size < 2 ^ 32)
    · exact fun _ => ⟨size, small⟩
    · exact fun o' x _ found' => own.covers o' x found'
  · exact apart_update own.apart fun o' x => outside
  · intro i' x found' isFile' real
    apply home_update noDir
    by_cases same : (Sum.inl i' : Object) = .inl i
    · rw [same, Function.update_self] at found'
      cases found'
      simp only [Slot, place.1, place.2]
      exact own.homes i e found file (by rw [← place.1]; exact real)
    · rw [Function.update_of_ne same] at found'
      exact own.homes i' x found' isFile' real
  · intro j x found' real
    rw [Function.update_of_ne (by simp)] at found'
    obtain ⟨home, first, second, other'⟩ := own.used j x found' real
    have byte := bytes home 0 (by decide)
    rw [Nat.add_zero] at byte
    rw [byte]
    refine ⟨home_update noDir home, first, second, fun i' y found'' => ?_⟩
    by_cases node : (Sum.inl i' : Object) = .inl i
    · rw [node, Function.update_self] at found''
      cases found''
      rw [slot]
      exact fun _ => other' i e found file
    · rw [Function.update_of_ne node] at found''
      exact other' i' y found''
  · intro o' x found' isFile' ne
    have ne : o' ≠ .inl i := fun same => ne (by rw [same])
    have ch := own.chains _ _ found'
    refine contents_eq geo ch (writes.grows.chain geo ch (distinct ne found')) rfl fun p inside => ?_
    exact writes.grows.bytes geo ch (distinct ne found') (Nat.lt_of_lt_of_le inside (own.covers _ _ found' isFile').1)
  · intro j x found' real
    exact bytes (own.used j x found' real).1

theorem entry (own : Owns v clusters obj cs m) (geo : Geometry v clusters) {c x : Nat} (sets : SetsEntry v m c x m')
    (unowned : ∀ o e, obj o = some e → c ∉ cs o) (inside : x = 0 → c < clusters + 2) :
    Owns v clusters obj cs m' ∧ Keeps v obj none m m' := by
  have chains : ∀ o e, obj o = some e → IsChain v clusters m' e.startCluster (cs o) := by
    intro o e found
    refine (own.chains o e found).congr fun c' member => ?_
    refine sets.there c' (((own.chains o e found).inside c' member).listed geo) ?_
    rintro rfl
    exact unowned o e found member
  have bytes : ∀ c' i, m' (clusterAddr v c' + i) = m (clusterAddr v c' + i) :=
    fun c' i => sets.data _ (Nat.le_trans (clusterAddr_ge v c') (Nat.le_add_right _ _))
  have slots : ∀ {ds : List Nat} {e : Entry}, Slot v ds e → ∀ b, m' (slotAddr e + b) = m (slotAddr e + b) := by
    intro ds e slot b
    obtain ⟨c', _, i, addr, _⟩ := slot.inside geo
    rw [addr, Nat.add_assoc, bytes]
  refine ⟨⟨?_, chains, own.covers, own.apart, own.homes, ?_⟩, ?_, ?_⟩
  · intro c' two listed zero
    by_cases same : c' = c
    · rw [same, sets.here] at zero
      rw [same]
      exact inside zero
    · exact own.free c' two listed (by rwa [sets.there c' listed same] at zero)
  · intro j e found real
    obtain ⟨⟨o', d, dir, isDir, slot⟩, first, second, other⟩ := own.used j e found real
    have byte := slots slot 0
    rw [Nat.add_zero] at byte
    rw [byte]
    exact ⟨⟨o', d, dir, isDir, slot⟩, first, second, other⟩
  · intro o e found _ _
    exact contents_eq geo (own.chains o e found) (chains o e found) rfl fun p _ => bytes _ _
  · intro j e found real b _
    obtain ⟨⟨_, _, _, _, slot⟩, _⟩ := own.used j e found real
    exact slots slot b

theorem dirent_data (own : Owns v clusters obj cs m) (geo : Geometry v clusters) {d x : Entry} {o' : Object}
    (dir : obj o = some d) (isDir : d.isDir = true) (slot : Slot v (cs o) x) (changed : AgreeOff m' m (slotAddr x) 32)
    (found : obj o' = some e) (file : e.isDir = false) :
    ∀ c ∈ cs o', ∀ k < v.bytesPerCluster, m' (clusterAddr v c + k) = m (clusterAddr v c + k) := by
  obtain ⟨c, member, i, addr, room⟩ := slot.inside geo
  intro c' member' k small
  apply changed
  have other : c' ≠ c := by
    rintro rfl
    exact own.member_apart found file dir isDir c' member member'
  have := clusterAddr_apart geo ((own.chains o' e found).inside c' member') ((own.chains o d dir).inside c member) other
  omega

theorem dirent (own : Owns v clusters obj cs m) (geo : Geometry v clusters) {d x : Entry} (dir : obj o = some d)
    (isDir : d.isDir = true) (slot : Slot v (cs o) x) (changed : AgreeOff m' m (slotAddr x) 32)
    (free : ∀ j e, obj (.inr j) = some e → e.direntSector ≠ 0 → slotAddr e ≠ slotAddr x) :
    Owns v clusters obj cs m' ∧ Keeps v obj none m m' := by
  obtain ⟨c, member, i, addr, room⟩ := slot.inside geo
  have entries : ∀ c' < v.fatSize * entriesPerSec, Fs.entry v m' c' = Fs.entry v m c' := by
    intro c' listed
    refine entry_congr geo (fun a below => changed a (Or.inl ?_)) listed
    have := clusterAddr_ge v c
    omega
  have chains : ∀ o e, obj o = some e → IsChain v clusters m' e.startCluster (cs o) := fun o e found =>
    (own.chains o e found).congr fun c' member' => entries c' (((own.chains o e found).inside c' member').listed geo)
  have apart : ∀ {o' o'' e d'}, obj (.inr o') = some e → e.direntSector ≠ 0 → obj o'' = some d' →
      Slot v (cs o'') e → ∀ b < 32, m' (slotAddr e + b) = m (slotAddr e + b) := by
    intro o' o'' e d' found real _ slot' b few
    have ne := free o' e found real
    have aligned := slot.aligned
    have aligned' := slot'.aligned
    exact changed _ (by omega)
  refine ⟨⟨?_, chains, own.covers, own.apart, own.homes, ?_⟩, ?_, ?_⟩
  · exact own.free.congr fun c' listed zero => by rwa [entries c' listed] at zero
  · intro j e found real
    obtain ⟨⟨o', d', dir', isDir', slot'⟩, first, second, other⟩ := own.used j e found real
    have byte := apart found real dir' slot' 0 (by decide)
    rw [Nat.add_zero] at byte
    rw [byte]
    exact ⟨⟨o', d', dir', isDir', slot'⟩, first, second, other⟩
  · -- the cluster of the entry is on the chain of no file
    intro o' e found file _
    refine contents_eq geo (own.chains o' e found) (chains o' e found) rfl fun p within => ?_
    exact fileByte_congr geo (own.dirent_data geo dir isDir slot changed found file)
      (Nat.lt_of_lt_of_le within (own.covers o' e found file).1)
  · intro j e found real b few
    obtain ⟨⟨o', d', dir', _, slot'⟩, _⟩ := own.used j e found real
    exact apart found real dir' slot' b few

theorem insert (own : Owns v clusters obj cs m) {i : Nat} {ds : List Nat} (fresh : obj (.inl i) = none)
    (ch : IsChain v clusters m e.startCluster ds) (unowned : ∀ c ∈ ds, ∀ o e', obj o = some e' → c ∉ cs o)
    (covers : e.isDir = false → e.size ≤ ds.length * v.bytesPerCluster ∧ e.size < 2 ^ 32)
    (home : ∃ o d, obj o = some d ∧ d.isDir = true ∧ Slot v (cs o) e)
    (free : ∀ j e', obj (.inr j) = some e' → e'.direntSector ≠ 0 → slotAddr e' ≠ slotAddr e) :
    Owns v clusters (Function.update obj (.inl i) (some e)) (Function.update cs (.inl i) ds) m := by
  have noDir : ∀ d, obj (.inl i) = some d → d.isDir = false := by
    intro d dir
    rw [fresh] at dir
    cases dir
  refine ⟨own.free, ?_, ?_, ?_, ?_, ?_⟩
  · apply forall_update (P := fun _ x ds => IsChain v clusters m x.startCluster ds) ch
    exact fun o x _ found => own.chains o x found
  · apply forall_update (P := fun _ x ds => x.isDir = false → x.size ≤ ds.length * v.bytesPerCluster ∧ x.size < 2 ^ 32)
    · exact covers
    · exact fun o x _ found => own.covers o x found
  · exact apart_update own.apart fun o x _ found c member member' => unowned c member' o x found member
  · intro i' x found file real
    apply home_update noDir
    by_cases same : (Sum.inl i' : Object) = .inl i
    · rw [same, Function.update_self] at found
      cases found
      exact home
    · rw [Function.update_of_ne same] at found
      exact own.homes i' x found file real
  · intro j x found real
    rw [Function.update_of_ne (by simp)] at found
    obtain ⟨place, first, second, apart⟩ := own.used j x found real
    refine ⟨home_update noDir place, first, second, fun i' y found' isFile => ?_⟩
    by_cases same : (Sum.inl i' : Object) = .inl i
    · rw [same, Function.update_self] at found'
      cases found'
      exact (free j x found real).symm
    · rw [Function.update_of_ne same] at found'
      exact apart i' y found' isFile

end Owns

end RexOs.Fs
