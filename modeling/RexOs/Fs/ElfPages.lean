import RexOs.Arch.SyscallSafe
import RexOs.Fs.ElfConfined

/-! The pages that the ELF loader maps and writes.

`Backed` says that some pages of an address space lie in frames of their own, which are taken and
are no tables.
-/

set_option autoImplicit false

namespace RexOs.Fs

open RexOs.Library RexOs.Mm RexOs.Arch

structure UserHalf (cr3 : Nat) (s : Machine) : Prop where
  tree : TreeOk s cr3
  noHuge : ∀ v, LowAddress v → NoHuge s.mem cr3 (pathOf v)

/-- The pages with the numbers in `P` have frames of their own. -/
structure Backed (cr3 : Nat) (s : Machine) (P : Nat → Prop) (frame : Nat → Nat) : Prop where
  space : UserHalf cr3 s
  low : ∀ n, P n → LowAddress (n * pageSize)
  translate : ∀ v, P (v / pageSize) → vmmTranslatePml4 s.mem cr3 v = frame (v / pageSize) * pageSize + v % pageSize
  nonzero : ∀ n, P n → frame n ≠ 0
  held : ∀ n, P n → HeldFrame cr3 s (frame n)
  apart : ∀ n n', P n → P n' → frame n = frame n' → n = n'

def userByte (cr3 : Nat) (m : Mem) (v : Nat) : UInt8 := m (vmmTranslatePml4 m cr3 v)

section
variable {cr3 flags page n k : Nat} {s s₁ s₂ : Machine} {m : Mem} {P : Nat → Prop} {frame : Nat → Nat}

theorem Backed.byte (backed : Backed cr3 s P frame) {v : Nat} (inside : P (v / pageSize)) :
    userByte cr3 s.mem v = s.mem (frame (v / pageSize) * pageSize + v % pageSize) := by
  rw [userByte, backed.translate v inside]

theorem in_frame (k v : Nat) : k * pageSize ≤ k * pageSize + v % pageSize ∧
    k * pageSize + v % pageSize < k * pageSize + pageSize :=
  ⟨Nat.le_add_right _ _, Nat.add_lt_add_left (Nat.mod_lt v (by decide)) _⟩

theorem low_of_page {v : Nat} (low : LowAddress (v / pageSize * pageSize)) : LowAddress v := by
  simp only [LowAddress, pageSize] at *
  omega

theorem UserHalf.backed (space : UserHalf cr3 s) : Backed cr3 s (fun _ => False) fun _ => 0 :=
  ⟨space, fun _ none => none.elim, fun _ none => none.elim, fun _ none => none.elim, fun _ none => none.elim,
    fun _ _ none => none.elim⟩

theorem Backed.write (backed : Backed cr3 s P frame) (inside : P n) (changed : AgreeOff m s.mem (frame n * pageSize) pageSize) :
    Backed cr3 { s with mem := m } P frame := by
  have held := backed.held n inside
  have root := backed.space.tree.root
  have aligned : pageSize ∣ frame n * pageSize := Nat.dvd_mul_left _ _
  have tables : ∀ q : List (Fin 512), q.length ≤ 3 → tableOf m cr3 q = tableOf s.mem cr3 q :=
    fun q short => off_tables changed root aligned held.noTable short
  refine ⟨⟨off_treeOk changed backed.space.tree aligned held.noTable, fun v low => ?_⟩, backed.low, fun v there => ?_,
    backed.nonzero, fun j there => ⟨(backed.held j there).taken, fun q short => ?_⟩, backed.apart⟩
  · exact off_noHuge changed root aligned held.noTable (Nat.le_of_eq (pathOf_length v)) (backed.space.noHuge v low)
  · rw [off_translate changed root aligned held.noTable]
    exact backed.translate v there
  · rw [tables q short]
    exact (backed.held j there).noTable q short

theorem Backed.write_other (backed : Backed cr3 s P frame) (inside : P n)
    (changed : AgreeOff m s.mem (frame n * pageSize) pageSize) {v : Nat} (there : P (v / pageSize)) (other : v / pageSize ≠ n) :
    userByte cr3 m v = userByte cr3 s.mem v := by
  have apart : frame (v / pageSize) ≠ frame n := fun same => other (backed.apart _ _ there inside same)
  obtain ⟨low, high⟩ := in_frame (frame (v / pageSize)) v
  rw [(backed.write inside changed).byte (s := { s with mem := m }) there, backed.byte there]
  apply changed
  simp only [pageSize] at *
  omega

structure MapsNew (cr3 page k : Nat) (s s' : Machine) (P : Nat → Prop) (frame : Nat → Nat) : Prop where
  backed : Backed cr3 s' (fun q => P q ∨ q = page) (Function.update frame page k)
  others : ∀ v, P (v / pageSize) → v / pageSize ≠ page → userByte cr3 s'.mem v = userByte cr3 s.mem v
  zero : ∀ v, v / pageSize = page → userByte cr3 s'.mem v = 0

theorem Backed.add (backed : Backed cr3 s P frame) (low : LowAddress (page * pageSize)) (mem : s₁.mem = s.mem)
    (pmm : Mm.Allocates s.pmm s₁.pmm) (clear : s.pmm.bmTest k = false) (nonzero : k ≠ 0) (held : HeldFrame cr3 s₁ k)
    (tree : TreeOk s₂ cr3) (maps : MapsPage cr3 (page * pageSize) (k * pageSize) s₁ s₂) :
    Backed cr3 s₂ (fun q => P q ∨ q = page) (Function.update frame page k) ∧
      ∀ v, P (v / pageSize) → v / pageSize ≠ page → userByte cr3 s₂.mem v = userByte cr3 s.mem v := by
  have aligned : pageSize ∣ k * pageSize := Nat.dvd_mul_left _ _
  obtain ⟨noTable, -⟩ := maps.apart k held.taken held.noTable
  have canonical : ∀ {v}, LowAddress v → Canonical v := fun low => Or.inl low
  -- where an address leads to now
  have here : ∀ v, v / pageSize = page → vmmTranslatePml4 s₂.mem cr3 v = k * pageSize + v % pageSize := by
    intro v same
    have lowV : LowAddress v := low_of_page (by rw [same]; exact low)
    have place : placeOf v = placeOf (page * pageSize) :=
      (placeOf_canonical (canonical lowV) (canonical low)).mpr (by rw [same, Nat.mul_div_cancel _ (by decide)])
    rw [maps.here v place, frame_offset aligned]
  have other : ∀ v, P (v / pageSize) → v / pageSize ≠ page →
      vmmTranslatePml4 s₂.mem cr3 v = frame (v / pageSize) * pageSize + v % pageSize := by
    intro v there apart
    have lowV := low_of_page (backed.low _ there)
    rw [maps.others v fun same => apart ?_, mem, backed.translate v there]
    rw [(placeOf_canonical (canonical lowV) (canonical low)).mp same, Nat.mul_div_cancel _ (by decide)]
  have distinct : ∀ q, P q → frame q ≠ k := by
    rintro q there rfl
    rw [(backed.held q there).taken] at clear
    cases clear
  -- a frame that was there before is still no table, and keeps its bytes
  have kept : ∀ q, P q → (∀ p, p.length ≤ 3 → tableOf s₂.mem cr3 p ≠ some (frame q * pageSize)) ∧
      AgreeOn s₂.mem s.mem (frame q * pageSize) pageSize := by
    intro q there
    obtain ⟨noTable', agree⟩ := maps.apart (frame q) (pmm.taken _ (backed.held q there).taken)
      (by rw [mem]; exact (backed.held q there).noTable)
    refine ⟨noTable', fun x first last => ?_⟩
    rw [← mem, ← agree x first last]
  refine ⟨⟨⟨tree, fun v lowV => ?_⟩, ?_, fun v there => ?_, ?_, ?_, ?_⟩, fun v there apart => ?_⟩
  · apply maps.noHuge _ (Nat.le_of_eq (pathOf_length v))
    rw [mem]
    exact backed.space.noHuge v lowV
  · rintro q (there | rfl)
    · exact backed.low q there
    · exact low
  · by_cases same : v / pageSize = page
    · rw [here v same, same, Function.update_self]
    · rw [Function.update_of_ne same]
      exact other v (there.resolve_right same) same
  · rintro q there
    by_cases same : q = page
    · rw [same, Function.update_self]
      exact nonzero
    · rw [Function.update_of_ne same]
      exact backed.nonzero q (there.resolve_right same)
  · rintro q there
    by_cases same : q = page
    · rw [same, Function.update_self]
      exact ⟨maps.pmm.taken k held.taken, noTable⟩
    · rw [Function.update_of_ne same]
      have before := there.resolve_right same
      exact ⟨maps.pmm.taken _ (pmm.taken _ (backed.held q before).taken), (kept q before).1⟩
  · intro q q' there there' equal
    by_cases same : q = page <;> by_cases same' : q' = page
    · rw [same, same']
    · rw [same, Function.update_self, Function.update_of_ne same'] at equal
      exact absurd equal.symm (distinct q' (there'.resolve_right same'))
    · rw [same', Function.update_self, Function.update_of_ne same] at equal
      exact absurd equal (distinct q (there.resolve_right same))
    · rw [Function.update_of_ne same, Function.update_of_ne same'] at equal
      exact backed.apart q q' (there.resolve_right same) (there'.resolve_right same') equal
  · obtain ⟨first, last⟩ := in_frame (frame (v / pageSize)) v
    rw [userByte, other v there apart, backed.byte there]
    exact (kept _ there).2 _ first last

theorem Backed.mapped (backed : Backed cr3 s P frame) (low : LowAddress (page * pageSize)) (mem : s₁.mem = s.mem)
    (pmm : Mm.Allocates s.pmm s₁.pmm) (clear : s.pmm.bmTest k = false) (nonzero : k ≠ 0) (held : HeldFrame cr3 s₁ k)
    (tree : TreeOk s₂ cr3) (maps : MapsPage cr3 (page * pageSize) (k * pageSize) s₁ s₂) :
    MapsNew cr3 page k s { s₂ with mem := fill s₂.mem (k * pageSize) pageSize 0 } P frame := by
  obtain ⟨added, kept⟩ := backed.add low mem pmm clear nonzero held tree maps
  have new : P page ∨ page = page := Or.inr rfl
  have place : Function.update frame page k page = k := Function.update_self ..
  have changed : AgreeOff (fill s₂.mem (k * pageSize) pageSize 0) s₂.mem (Function.update frame page k page * pageSize) pageSize := by
    rw [place]
    exact fill_agreeOff s₂.mem (k * pageSize) pageSize 0
  have cleared := added.write new changed
  refine ⟨cleared, fun v there apart => ?_, fun v same => ?_⟩
  · exact (added.write_other new changed (Or.inl there) apart).trans (kept v there apart)
  · obtain ⟨first, last⟩ := in_frame k v
    refine (cleared.byte (Or.inr same)).trans ?_
    rw [same, place]
    exact if_pos ⟨first, last⟩

theorem Backed.map (backed : Backed cr3 s P frame) (plenty : Plenty s.pmm (n + 4)) (low : LowAddress (page * pageSize))
    (flagged : PageFlags flags) :
    ∃ k s₂, (allocFrame (fun _ => false) s).1 = k * pageSize ∧
      vmmMapPagePml4 (fun _ => false) (allocFrame (fun _ => false) s).2 cr3 (page * pageSize) (k * pageSize) flags = .ok (true, s₂) ∧
      MapsNew cr3 page k s { s₂ with mem := fill s₂.mem (k * pageSize) pageSize 0 } P frame ∧ Plenty s₂.pmm n := by
  obtain ⟨k, nonzero, got, left⟩ := Plenty.supply.alloc (n := n + 3) plenty
  have alloc : allocFrame (fun _ => false) s = (k * pageSize, { s with pmm := takeFrame s.pmm k, clock := s.clock + 1 }) := by
    rw [allocFrame, if_neg Bool.false_ne_true, got]
  obtain ⟨s₁, mem, pmm, hint, result⟩ := allocFrame_cases (fun _ => false) backed.space.tree.hint
  rcases result with failed | ⟨k', got', inside, clear, used⟩
  · rw [alloc] at failed
    exact absurd (congrArg Prod.fst failed) nonzero
  rw [alloc] at got'
  obtain ⟨same, rfl⟩ := Prod.mk.inj got'
  obtain rfl := Nat.eq_of_mul_eq_mul_right (by decide) same
  rw [alloc]
  have tree₁ := backed.space.tree.alloc mem pmm hint
  have noHuge₁ := backed.space.noHuge _ low
  obtain ⟨done, s₂, run⟩ := vmmMapPagePml4_total (fun _ => false) (k * pageSize) flags tree₁ noHuge₁
  obtain ⟨rfl, left₂⟩ := vmmMapPagePml4_supply Plenty.supply left run
  obtain ⟨tree₂, success, -⟩ := vmmMapPagePml4_spec tree₁ flagged run
  have maps := success rfl
  rw [show k * pageSize &&& addrMask4k = k * pageSize from tree₁.isFrame inside] at maps
  have held : HeldFrame cr3 { s with pmm := takeFrame s.pmm k, clock := s.clock + 1 } k :=
    ⟨used, backed.space.tree.free k inside clear⟩
  refine ⟨k, s₂, rfl, run, backed.mapped low mem pmm clear ?_ held tree₂ maps, left₂⟩
  rintro rfl
  exact nonzero (Nat.zero_mul _)

end

section
variable {cr3 flags page n : Nat} {s s' : Machine} {P : Nat → Prop} {frame : Nat → Nat}

structure MapsRun (cr3 page count : Nat) (s s' : Machine) (P : Nat → Prop) (frame : Nat → Nat) : Prop where
  backed : Backed cr3 s' (fun q => P q ∨ page ≤ q ∧ q < page + count) frame
  others : ∀ q, P q → ¬(page ≤ q ∧ q < page + count) → ∀ v, v / pageSize = q → userByte cr3 s'.mem v = userByte cr3 s.mem v
  zero : ∀ q, page ≤ q → q < page + count → ∀ v, v / pageSize = q → userByte cr3 s'.mem v = 0

theorem Backed.congr {P' : Nat → Prop} (backed : Backed cr3 s P frame) (same : ∀ q, P q ↔ P' q) : Backed cr3 s P' frame := by
  obtain rfl : P = P' := funext fun q => propext (same q)
  exact backed

theorem Backed.mapRun {count : Nat} (backed : Backed cr3 s P frame) (plenty : Plenty s.pmm (n + 4 * count))
    (low : ∀ q, page ≤ q → q < page + count → LowAddress (q * pageSize)) (flagged : PageFlags flags) :
    ∃ s' frame', mapNewPages (fun _ => false) cr3 flags s (page * pageSize) count = .ok s' ∧
      MapsRun cr3 page count s s' P frame' ∧ Plenty s'.pmm n := by
  induction count generalizing s page P frame with
  | zero =>
    refine ⟨s, frame, rfl, ⟨backed.congr fun q => ?_, fun _ _ _ _ _ => rfl, fun q first last => ?_⟩, plenty⟩
    · constructor
      · exact Or.inl
      · rintro (there | ⟨first, last⟩)
        · exact there
        · omega
    · omega
  | succ count ih =>
    obtain ⟨k, s₂, alloc, run, maps, left⟩ := backed.map (n := n + 4 * count) plenty (low page (Nat.le_refl _) (by omega)) flagged
    have later : ∀ q, page + 1 ≤ q → q < page + 1 + count → LowAddress (q * pageSize) :=
      fun q first last => low q (by omega) (by omega)
    obtain ⟨s', frame', rest, ⟨backed', others, zero⟩, left'⟩ := ih maps.backed left later
    refine ⟨s', frame', ?_, ⟨backed'.congr fun q => ?_, fun q there outside v at_ => ?_, fun q first last v at_ => ?_⟩, left'⟩
    · have next : page * pageSize + 0x1000 = (page + 1) * pageSize := by
        simp only [pageSize]
        omega
      rw [mapNewPages_succ, alloc, run, next]
      exact rest
    · constructor
      · rintro ((there | rfl) | inside)
        · exact Or.inl there
        · exact Or.inr ⟨Nat.le_refl _, by omega⟩
        · exact Or.inr ⟨by omega, by omega⟩
      · rintro (there | ⟨first, last⟩)
        · exact Or.inl (Or.inl there)
        · by_cases here : q = page
          · exact Or.inl (Or.inr here)
          · exact Or.inr ⟨by omega, by omega⟩
    · have other : q ≠ page := fun same => outside ⟨by omega, by omega⟩
      rw [others q (Or.inl there) (by omega) v at_, maps.others v (by rwa [at_]) (by rwa [at_])]
    · by_cases here : q = page
      · rw [others q (Or.inr here) (by omega) v at_, maps.zero v (at_.trans here)]
      · exact zero q (by omega) (by omega) v at_

def Reads (file : ElfFile) (content : List UInt8) : Prop :=
  ∀ offset size, offset + size < 2 ^ 64 → file.read offset size = (content.drop offset).take size

theorem bytesAt_taken (content : List UInt8) {src chunk i : Nat} (inside : i < chunk) :
    bytesAt ((content.drop src).take chunk) i = content.getD (src + i) 0 := by
  rw [bytesAt, List.getD_eq_getElem?_getD, List.getElem?_take_of_lt inside, List.getElem?_drop, List.getD_eq_getElem?_getD]

theorem Backed.readChunk {file : ElfFile} {content : List UInt8} {dst src chunk : Nat} (backed : Backed cr3 s P frame)
    (reads : Reads file content) (there : P (dst / pageSize)) (inPage : dst % 0x1000 + chunk ≤ 0x1000)
    (inside : src + chunk ≤ content.length) (small : content.length < 2 ^ 64) :
    Backed cr3 { s with mem := readChunk file s.mem (frame (dst / pageSize) * pageSize) dst src chunk } P frame ∧
      ∀ v, P (v / pageSize) → userByte cr3 (readChunk file s.mem (frame (dst / pageSize) * pageSize) dst src chunk) v =
        if dst ≤ v ∧ v < dst + chunk then content.getD (src + (v - dst)) 0 else userByte cr3 s.mem v := by
  have changed := readChunk_agree file s.mem (frame (dst / pageSize) * pageSize) src inPage
  have backed' := backed.write there changed
  refine ⟨backed', fun v at_ => ?_⟩
  by_cases same : v / pageSize = dst / pageSize
  · have length : ((content.drop src).take chunk).length = chunk := by
      rw [List.length_take, List.length_drop]
      omega
    rw [backed'.byte (s := { s with mem := _ }) at_, backed.byte at_, same]
    show Fs.readChunk file s.mem _ dst src chunk _ = _
    rw [Fs.readChunk, reads src chunk (by omega), length, pageOff_eq]
    have split := Nat.div_add_mod v pageSize
    have split' := Nat.div_add_mod dst pageSize
    rw [same] at split
    simp only [pageSize] at *
    by_cases between : dst ≤ v ∧ v < dst + chunk
    · rw [if_pos between, paste_inside _ (by omega) (by omega), bytesAt_taken content (by omega)]
      congr 2
      omega
    · rw [if_neg between, paste_outside _ (by omega)]
  · rw [backed.write_other there changed at_ same, if_neg]
    simp only [pageSize] at same
    omega

theorem Backed.read {file : ElfFile} {content : List UInt8} {dst src remaining fuel : Nat} (backed : Backed cr3 s P frame)
    (reads : Reads file content) (there : ∀ v, dst ≤ v → v < dst + remaining → P (v / pageSize))
    (inside : src + remaining ≤ content.length) (small : content.length < 2 ^ 64) (low : dst + remaining ≤ 2 ^ 47)
    (enough : remaining ≤ fuel) :
    ∃ m, readPages file cr3 s.mem dst src remaining fuel = (true, m) ∧ Backed cr3 { s with mem := m } P frame ∧
      ∀ v, P (v / pageSize) → userByte cr3 m v =
        if dst ≤ v ∧ v < dst + remaining then content.getD (src + (v - dst)) 0 else userByte cr3 s.mem v := by
  induction fuel generalizing s dst src remaining with
  | zero =>
    obtain rfl : remaining = 0 := by omega
    exact ⟨s.mem, rfl, backed, fun v _ => by rw [if_neg (by omega)]⟩
  | succ fuel ih =>
    rw [readPages]
    by_cases done : remaining = 0
    · subst done
      exact ⟨s.mem, rfl, backed, fun v _ => by rw [if_neg (by omega)]⟩
    rw [if_neg done]
    obtain ⟨some_, most, inPage⟩ := chunkAt_bounds dst done
    have here := there dst (Nat.le_refl _) (by omega)
    have page : vmmTranslatePml4 s.mem cr3 (pageOf dst) = frame (dst / pageSize) * pageSize := by
      have start : pageOf dst = dst / pageSize * pageSize := pageOf_eq (by omega)
      have number : dst / pageSize * pageSize / pageSize = dst / pageSize := Nat.mul_div_cancel _ (by decide)
      rw [start, backed.translate _ (by rwa [number]), number, Nat.mul_mod_left, Nat.add_zero]
    rw [page, if_neg (Nat.mul_ne_zero (backed.nonzero _ here) (by decide))]
    dsimp only
    generalize chunkAt dst remaining = chunk at *
    have first : src + chunk ≤ content.length := by omega
    obtain ⟨backed₁, bytes₁⟩ := backed.readChunk reads here inPage first small
    have later : ∀ v, dst + chunk ≤ v → v < dst + chunk + (remaining - chunk) → P (v / pageSize) :=
      fun v first last => there v (by omega) (by omega)
    have inside' : src + chunk + (remaining - chunk) ≤ content.length := by omega
    have low' : dst + chunk + (remaining - chunk) ≤ 2 ^ 47 := by omega
    obtain ⟨m, run, backed₂, bytes₂⟩ := ih backed₁ later inside' low' (by omega)
    have dst' : (dst + chunk) % 2 ^ 64 = dst + chunk := Nat.mod_eq_of_lt (by omega)
    have src' : (src + chunk) % 2 ^ 64 = src + chunk := Nat.mod_eq_of_lt (by omega)
    rw [dst', src']
    refine ⟨m, run, backed₂, fun v at_ => ?_⟩
    rw [bytes₂ v at_, bytes₁ v at_]
    by_cases later : dst + chunk ≤ v ∧ v < dst + chunk + (remaining - chunk)
    · rw [if_pos later, if_pos (by omega)]
      congr 1
      omega
    · rw [if_neg later]
      by_cases now : dst ≤ v ∧ v < dst + chunk
      · rw [if_pos now, if_pos (by omega)]
      · rw [if_neg now, if_neg (by omega)]

end

end RexOs.Fs
