import RexOs.Arch.Brk

/-! The program break over whole runs.

`Grown` relates the address space before and after some growth: mapped pages keep their frames, and
new pages have frames of zeros that are taken and are no tables.
-/

set_option autoImplicit false

namespace RexOs.Arch

open RexOs.Library RexOs.Mm

/-- Frame `k` is taken and holds no table of the address space. -/
structure HeldFrame (cr3 : Nat) (s : Machine) (k : Nat) : Prop where
  taken : s.pmm.bmTest k = true
  noTable : ∀ q, q.length ≤ 3 → tableOf s.mem cr3 q ≠ some (k * pageSize)

structure SpaceOk (cr3 : Nat) (s : Machine) : Prop where
  tree : TreeOk s cr3
  noHuge : ∀ v, v < heapCap → NoHuge s.mem cr3 (pathOf v)

structure Grown (cr3 : Nat) (s s' : Machine) : Prop where
  kept : ∀ v, Canonical v → pageSize ∣ v → vmmTranslatePml4 s.mem cr3 v ≠ 0 →
    vmmTranslatePml4 s'.mem cr3 v = vmmTranslatePml4 s.mem cr3 v
  fresh : ∀ v, Canonical v → pageSize ∣ v → vmmTranslatePml4 s.mem cr3 v = 0 → vmmTranslatePml4 s'.mem cr3 v ≠ 0 →
    ∃ k, vmmTranslatePml4 s'.mem cr3 v = k * pageSize ∧ HeldFrame cr3 s' k ∧
      ∀ x, k * pageSize ≤ x → x < k * pageSize + pageSize → s'.mem x = 0
  held : ∀ k, HeldFrame cr3 s k → HeldFrame cr3 s' k ∧ AgreeOn s'.mem s.mem (k * pageSize) pageSize

section
variable {cr3 : Nat} {s s' s'' : Machine}

theorem Grown.refl (mem : s'.mem = s.mem) (pmm : Allocates s.pmm s'.pmm) : Grown cr3 s s' := by
  constructor
  case kept => rw [mem]; exact fun _ _ _ _ => rfl
  case fresh => rw [mem]; exact fun _ _ _ unmapped mapped => absurd unmapped mapped
  case held =>
    intro k before
    refine ⟨⟨pmm.taken k before.taken, ?_⟩, ?_⟩
    · rw [mem]
      exact before.noTable
    · rw [mem]
      exact fun _ _ _ => rfl

theorem Grown.trans (first : Grown cr3 s s') (second : Grown cr3 s' s'') : Grown cr3 s s'' := by
  constructor
  case kept =>
    intro v canonical aligned mapped
    have same := first.kept v canonical aligned mapped
    rw [second.kept v canonical aligned (by rw [same]; exact mapped), same]
  case fresh =>
    intro v canonical aligned unmapped mapped
    by_cases middle : vmmTranslatePml4 s'.mem cr3 v = 0
    · exact second.fresh v canonical aligned middle mapped
    · obtain ⟨k, frame, before, zero⟩ := first.fresh v canonical aligned unmapped middle
      obtain ⟨after, agree⟩ := second.held k before
      refine ⟨k, (second.kept v canonical aligned middle).trans frame, after, ?_⟩
      intro x low high
      rw [agree x low high]
      exact zero x low high
  case held =>
    intro k before
    obtain ⟨middle, agree⟩ := first.held k before
    obtain ⟨after, agree'⟩ := second.held k middle
    exact ⟨after, fun x low high => (agree' x low high).trans (agree x low high)⟩

end

theorem canonical_of_low {v : Nat} (low : v < heapCap) : Canonical v := by
  left
  simp only [heapCap] at low
  omega

theorem placeOf_aligned {v w : Nat} (canonical : Canonical v) (canonical' : Canonical w) (aligned : pageSize ∣ v)
    (aligned' : pageSize ∣ w) (same : placeOf v = placeOf w) : v = w := by
  have page := (placeOf_canonical canonical canonical').mp same
  rw [← Nat.div_mul_cancel aligned, ← Nat.div_mul_cancel aligned', page]

theorem or_offset4k {phys v : Nat} (aligned : pageSize ∣ v) : phys ||| v &&& pageOff4k = phys := by
  have mask : pageOff4k = 2 ^ 12 - 1 := by decide
  have page : pageSize = 2 ^ 12 := rfl
  rw [page] at aligned
  rw [mask, Nat.and_two_pow_sub_one_eq_mod, Nat.mod_eq_zero_of_dvd aligned]
  exact Nat.or_zero phys

section
variable {cr3 page k : Nat} {s s₁ s₂ : Machine}

theorem fresh_page (ok : SpaceOk cr3 s) (low : page < heapCap) (aligned : pageSize ∣ page)
    (unmapped : vmmTranslatePml4 s.mem cr3 page = 0) (mem : s₁.mem = s.mem) (pmm : Allocates s.pmm s₁.pmm)
    (clear : s.pmm.bmTest k = false) (held : HeldFrame cr3 s₁ k) (tree : TreeOk s₂ cr3)
    (maps : MapsPage cr3 page (k * pageSize) s₁ s₂) :
    SpaceOk cr3 { s₂ with mem := fill s₂.mem (k * pageSize) pageSize 0 } ∧
      Grown cr3 s { s₂ with mem := fill s₂.mem (k * pageSize) pageSize 0 } ∧
      vmmTranslatePml4 (fill s₂.mem (k * pageSize) pageSize 0) cr3 page = k * pageSize := by
  have frame : pageSize ∣ k * pageSize := Nat.dvd_mul_left _ _
  obtain ⟨noTable, _⟩ := maps.apart k held.taken held.noTable
  have changed := fill_agreeOff s₂.mem (k * pageSize) pageSize 0
  have translate : ∀ v, vmmTranslatePml4 (fill s₂.mem (k * pageSize) pageSize 0) cr3 v = vmmTranslatePml4 s₂.mem cr3 v :=
    off_translate changed tree.root frame noTable
  have tables : ∀ q : List (Fin 512), q.length ≤ 3 →
      tableOf (fill s₂.mem (k * pageSize) pageSize 0) cr3 q = tableOf s₂.mem cr3 q :=
    fun q short => off_tables changed tree.root frame noTable short
  have here : vmmTranslatePml4 s₂.mem cr3 page = k * pageSize := by
    rw [maps.here page rfl, or_offset4k aligned]
  have others : ∀ v, Canonical v → pageSize ∣ v → v ≠ page → vmmTranslatePml4 s₂.mem cr3 v = vmmTranslatePml4 s.mem cr3 v := by
    intro v canonical alignedV other
    rw [maps.others v fun same => other (placeOf_aligned canonical (canonical_of_low low) alignedV aligned same), mem]
  refine ⟨⟨off_treeOk changed tree frame noTable, ?_⟩, ?_, by rw [translate, here]⟩
  · intro v below
    have inside := Nat.le_of_eq (pathOf_length v)
    apply off_noHuge changed tree.root frame noTable inside
    apply maps.noHuge _ inside
    rw [mem]
    exact ok.noHuge v below
  constructor
  case kept =>
    intro v canonical alignedV mapped
    rw [translate]
    apply others v canonical alignedV
    rintro rfl
    exact mapped unmapped
  case fresh =>
    intro v canonical alignedV before after
    have same : v = page := by
      by_contra other
      rw [translate, others v canonical alignedV other] at after
      exact after before
    refine ⟨k, ?_, ⟨maps.pmm.taken k held.taken, ?_⟩, ?_⟩
    · rw [translate, same, here]
    · intro q short
      rw [tables q short]
      exact noTable q short
    · exact fun x first last => if_pos ⟨first, last⟩
  case held =>
    intro j before
    have other : j ≠ k := by
      rintro rfl
      rw [before.taken] at clear
      cases clear
    have noTableJ : ∀ q, q.length ≤ 3 → tableOf s₁.mem cr3 q ≠ some (j * pageSize) := by
      rw [mem]
      exact before.noTable
    obtain ⟨noTableJ', agree⟩ := maps.apart j (pmm.taken j before.taken) noTableJ
    refine ⟨⟨maps.pmm.taken j (pmm.taken j before.taken), ?_⟩, ?_⟩
    · intro q short
      rw [tables q short]
      exact noTableJ' q short
    · intro x first last
      have apart : ¬ (k * pageSize ≤ x ∧ x < k * pageSize + pageSize) := by
        simp only [pageSize] at *
        omega
      rw [← mem, ← agree x first last]
      exact if_neg apart

end

section
variable {fails : Nat → Bool} {cr3 : Nat} {s s' : Machine}

theorem getOrCreateTables_granted {table : Nat} {path : List (Fin 512)} {r : Option Nat}
    (run : getOrCreateTables fails userFlags s table path = .ok (r, s')) : r ≠ none ↔ TablesGranted fails s table path := by
  induction path generalizing s table with
  | nil =>
    cases run
    exact ⟨fun _ => trivial, fun _ => nofun⟩
  | cons i path ih =>
    rw [getOrCreateTables] at run
    split at run
    · cases run
    · rename_i s₁ got
      cases run
      have failed := (getOrCreateTable_none fails got).mp rfl
      exact ⟨fun other => absurd rfl other, fun granted => absurd failed.2 (granted.1 failed.1)⟩
    · rename_i next s₁ got
      rw [ih run, TablesGranted]
      constructor
      · intro rest
        refine ⟨fun missing zero => ?_, fun next' s₂ got' => ?_⟩
        · exact absurd ((getOrCreateTable_none fails got).mpr ⟨missing, zero⟩) nofun
        · rw [got] at got'
          cases got'
          exact rest
      · exact fun granted => granted.2 next s₁ got

theorem vmmMapPagePml4_granted {page phys flags : Nat} {done : Bool}
    (run : vmmMapPagePml4 fails s cr3 page phys flags = .ok (done, s')) :
    done = true ↔ TablesGranted fails s cr3 (pathOf page) := by
  rw [vmmMapPagePml4] at run
  split at run
  · cases run
  · rename_i got
    cases run
    exact ⟨fun done => absurd done Bool.false_ne_true, fun granted => absurd rfl ((getOrCreateTables_granted got).mpr granted)⟩
  · rename_i got
    cases run
    exact ⟨fun _ => (getOrCreateTables_granted got).mp (Option.some_ne_none _), fun _ => rfl⟩

theorem userFlags_page : PageFlags userFlags := by
  constructor <;> decide

theorem growHeap_spec {page n : Nat} (ok : SpaceOk cr3 s) (aligned : pageSize ∣ page) (inside : page + n * pageSize ≤ heapCap)
    (granted : HeapGranted fails cr3 s page n) :
    ∃ done s', growHeap fails cr3 s page n = .ok (done, s') ∧ SpaceOk cr3 s' ∧ Grown cr3 s s' ∧
      (done = true → ∀ v, pageSize ∣ v → page ≤ v → v < page + n * pageSize → vmmTranslatePml4 s'.mem cr3 v ≠ 0) := by
  induction n generalizing s page with
  | zero =>
    refine ⟨true, s, rfl, ok, Grown.refl rfl (Allocates.refl _), ?_⟩
    intro _ v _ first last
    omega
  | succ n ih =>
    have step : page + (n + 1) * pageSize = page + 0x1000 + n * pageSize := by
      simp only [pageSize]
      omega
    have next : pageSize ∣ page + 0x1000 := Nat.dvd_add aligned (Nat.dvd_refl _)
    have low : page < heapCap := by
      simp only [pageSize] at inside
      omega
    have canonical := canonical_of_low low
    -- a page of the range is the first one or one of the rest
    have first : ∀ v, pageSize ∣ v → page ≤ v → v = page ∨ page + 0x1000 ≤ v := by
      intro v alignedV above
      obtain ⟨a, rfl⟩ := aligned
      obtain ⟨b, rfl⟩ := alignedV
      simp only [pageSize] at *
      omega
    rw [step] at inside ⊢
    by_cases mapped : vmmTranslatePml4 s.mem cr3 page ≠ 0
    · rw [HeapGranted, if_pos mapped] at granted
      rw [growHeap, if_pos mapped]
      obtain ⟨done, s', run, ok', grown, all⟩ := ih ok next inside granted
      refine ⟨done, s', run, ok', grown, ?_⟩
      intro finished v alignedV above below
      rcases first v alignedV above with rfl | beyond
      · rw [grown.kept v canonical aligned mapped]
        exact mapped
      · exact all finished v alignedV beyond below
    · rw [HeapGranted, if_neg mapped] at granted
      rw [growHeap, if_neg mapped]
      obtain ⟨s₁, mem, pmm, hint, result⟩ := allocFrame_cases fails ok.tree.hint
      have ok₁ : SpaceOk cr3 s₁ := ⟨ok.tree.alloc mem pmm hint, by rw [mem]; exact ok.noHuge⟩
      rcases result with failed | ⟨k, got, bound, clear, used⟩
      · rw [failed]
        exact ⟨false, s₁, rfl, ok₁, Grown.refl mem pmm, fun finished => absurd finished Bool.false_ne_true⟩
      · rw [got] at granted ⊢
        dsimp only at granted ⊢
        by_cases zero : k * pageSize = 0
        · rw [if_pos zero]
          exact ⟨false, s₁, rfl, ok₁, Grown.refl mem pmm, fun finished => absurd finished Bool.false_ne_true⟩
        · rw [if_neg zero]
          obtain ⟨tables, rest⟩ := granted.resolve_left zero
          obtain ⟨done, s₂, run⟩ := vmmMapPagePml4_total fails (k * pageSize) userFlags ok₁.tree (ok₁.noHuge page low)
          obtain ⟨tree, success, _⟩ := vmmMapPagePml4_spec ok₁.tree userFlags_page run
          have maps := success ((vmmMapPagePml4_granted run).mpr tables)
          rw [show k * pageSize &&& addrMask4k = k * pageSize from ok.tree.isFrame bound] at maps
          have held : HeldFrame cr3 s₁ k := by
            refine ⟨used, ?_⟩
            rw [mem]
            exact ok.tree.free k bound clear
          have unmapped := Classical.not_not.mp mapped
          obtain ⟨ok₃, grown₃, here⟩ := fresh_page ok low aligned unmapped mem pmm clear held tree maps
          have loop := ih ok₃ next inside (rest done s₂ run)
          obtain ⟨done', s', run', ok', grown, all⟩ := loop
          rw [run]
          refine ⟨done', s', run', ok', grown₃.trans grown, ?_⟩
          intro finished v alignedV above below
          rcases first v alignedV above with rfl | beyond
          · rw [grown.kept v canonical aligned (by rw [here]; exact zero), here]
            exact zero
          · exact all finished v alignedV beyond below

end

structure BrkState where
  machine : Machine
  task : Task

structure BrkSafe (st : BrkState) : Prop where
  above : st.task.brkStart ≤ st.task.brkCurrent
  capped : st.task.brkCurrent ≤ heapCap
  aligned : pageSize ∣ st.task.brkCurrent
  mapped : ∀ page, pageSize ∣ page → st.task.brkStart ≤ page → page < st.task.brkCurrent →
    vmmTranslatePml4 st.machine.mem st.task.cr3 page ≠ 0

def BrkStep (fails : Nat → Bool) (st : BrkState) (arg1 : Nat) (st' : BrkState) : Prop :=
  ∃ result, sysBrk fails st.machine st.task arg1 = .ok (result, st'.task, st'.machine)

def GrantedStep (fails : Nat → Bool) (st : BrkState) (arg1 : Nat) (st' : BrkState) : Prop :=
  CallGranted fails st.machine st.task arg1 ∧ BrkStep fails st arg1 st'

structure BrkSince (first st : BrkState) : Prop where
  safe : BrkSafe st
  space : SpaceOk st.task.cr3 st.machine
  cr3 : st.task.cr3 = first.task.cr3
  start : st.task.brkStart = first.task.brkStart
  grown : Grown first.task.cr3 first.machine st.machine

section
variable {fails : Nat → Bool} {st st' : BrkState} {arg1 : Nat}

theorem sysBrk_spec (safe : BrkSafe st) (space : SpaceOk st.task.cr3 st.machine)
    (granted : CallGranted fails st.machine st.task arg1) :
    ∃ st', BrkStep fails st arg1 st' ∧ BrkSince st st' := by
  have same : BrkSince st st := ⟨safe, space, rfl, rfl, Grown.refl rfl (Allocates.refl _)⟩
  have stays : ∀ s, SpaceOk st.task.cr3 s → Grown st.task.cr3 st.machine s → BrkSince st ⟨s, st.task⟩ := by
    intro s space' grown
    refine ⟨⟨safe.above, safe.capped, safe.aligned, ?_⟩, space', rfl, rfl, grown⟩
    intro page aligned above below
    have canonical := canonical_of_low (Nat.lt_of_lt_of_le below safe.capped)
    rw [grown.kept page canonical aligned (safe.mapped page aligned above below)]
    exact safe.mapped page aligned above below
  by_cases query : arg1 = 0
  · exact ⟨st, ⟨_, by rw [sysBrk, if_pos query]⟩, same⟩
  by_cases below : pageUp arg1 < st.task.brkStart
  · exact ⟨st, ⟨_, by rw [sysBrk, if_neg query, if_pos below]⟩, same⟩
  by_cases beyond : pageUp arg1 > heapCap
  · exact ⟨st, ⟨_, by rw [sysBrk, if_neg query, if_neg below, if_pos beyond]⟩, same⟩
  have capped : pageUp arg1 ≤ heapCap := Nat.le_of_not_lt beyond
  have old : pageUp st.task.brkCurrent = st.task.brkCurrent := pageUp_of_aligned safe.aligned safe.capped
  have pages : st.task.brkCurrent + newPages st.task (pageUp arg1) * pageSize = max st.task.brkCurrent (pageUp arg1) := by
    obtain ⟨a, first⟩ := safe.aligned
    obtain ⟨b, last⟩ := pageUp_aligned arg1
    rw [newPages, old, first, last]
    simp only [pageSize]
    omega
  have enough := granted capped
  rw [old] at enough
  have loop := growHeap_spec space safe.aligned (by rw [pages]; exact max_le safe.capped capped) enough
  obtain ⟨done, s', run, space', grown, all⟩ := loop
  have unfolded : sysBrk fails st.machine st.task arg1 =
      if done then .ok (pageUp arg1, { st.task with brkCurrent := pageUp arg1 }, s')
      else .ok (st.task.brkCurrent, st.task, s') := by
    rw [sysBrk, if_neg query, if_neg below, if_neg beyond, old, run]
    cases done <;> rfl
  cases done with
  | false => exact ⟨⟨s', st.task⟩, ⟨_, unfolded⟩, stays s' space' grown⟩
  | true =>
    refine ⟨⟨s', { st.task with brkCurrent := pageUp arg1 }⟩, ⟨_, unfolded⟩,
      ⟨Nat.le_of_not_lt below, capped, pageUp_aligned arg1, ?_⟩, space', rfl, rfl, grown⟩
    intro page aligned above inside
    rcases Nat.lt_or_ge page st.task.brkCurrent with before | after
    · exact (stays s' space' grown).safe.mapped page aligned above before
    · apply all rfl page aligned after
      rw [pages]
      exact Nat.lt_of_lt_of_le inside (le_max_right _ _)

theorem brk_since {first : BrkState} (since : BrkSince first st) (step : GrantedStep fails st arg1 st') :
    BrkSince first st' := by
  obtain ⟨granted, result, run⟩ := step
  obtain ⟨next, ⟨result', run'⟩, after⟩ := sysBrk_spec since.safe since.space granted
  rw [run] at run'
  have same : st' = next := by
    cases st'
    cases next
    cases run'
    rfl
  subst same
  refine ⟨after.safe, after.space, after.cr3.trans since.cr3, after.start.trans since.start, ?_⟩
  have grown := after.grown
  rw [since.cr3] at grown
  exact since.grown.trans grown

/-- The program break is safe in every run in which no frame of a page table is missing. -/
theorem brk_histories (fails : Nat → Bool) {start : BrkState} (aligned : pageSize ∣ start.task.brkStart)
    (capped : start.task.brkStart ≤ heapCap) (initial : start.task.brkCurrent = start.task.brkStart)
    (space : SpaceOk start.task.cr3 start.machine) :
    ∀ calls st, Run (GrantedStep fails) start calls st →
      (BrkSafe st ∧ st.task.brkStart = start.task.brkStart) ∧
      (∀ arg1, CallGranted fails st.machine st.task arg1 → ∃ st', BrkStep fails st arg1 st') ∧
      (∀ more st', Run (GrantedStep fails) st more st' → ∀ page, Canonical page → pageSize ∣ page →
        vmmTranslatePml4 st.machine.mem st.task.cr3 page ≠ 0 →
        vmmTranslatePml4 st'.machine.mem st'.task.cr3 page = vmmTranslatePml4 st.machine.mem st.task.cr3 page) ∧
      (∀ arg1 st', GrantedStep fails st arg1 st' → ∀ page, Canonical page → pageSize ∣ page →
        vmmTranslatePml4 st.machine.mem st.task.cr3 page = 0 → vmmTranslatePml4 st'.machine.mem st'.task.cr3 page ≠ 0 →
        ∀ i, i < pageSize → st'.machine.mem (vmmTranslatePml4 st'.machine.mem st'.task.cr3 page + i) = 0) := by
  intro calls st run
  have safe : BrkSafe start := by
    refine ⟨by omega, by omega, by rw [initial]; exact aligned, ?_⟩
    intro page _ above below
    omega
  have since : BrkSince start st :=
    run.invariant (BrkSince start) ⟨safe, space, rfl, rfl, Grown.refl rfl (Allocates.refl _)⟩
      fun _ _ _ before step => brk_since before step
  have here : BrkSince st st := ⟨since.safe, since.space, rfl, rfl, Grown.refl rfl (Allocates.refl _)⟩
  refine ⟨⟨since.safe, since.start⟩, ?_, ?_, ?_⟩
  · intro arg1 granted
    obtain ⟨st', step, _⟩ := sysBrk_spec since.safe since.space granted
    exact ⟨st', step⟩
  · intro more st' later page canonical alignedP mapped
    have after : BrkSince st st' := later.invariant (BrkSince st) here fun _ _ _ before step => brk_since before step
    rw [after.cr3]
    exact after.grown.kept page canonical alignedP mapped
  · intro arg1 st' step page canonical alignedP unmapped mapped i below
    have after := brk_since here step
    rw [after.cr3] at mapped ⊢
    obtain ⟨k, frame, _, zero⟩ := after.grown.fresh page canonical alignedP unmapped mapped
    rw [frame]
    exact zero _ (Nat.le_add_right _ _) (Nat.add_lt_add_left below _)

def lastFrame : Machine := { smallMachine with pmm := { smallMachine.pmm with bitmap := fun _ => 251 } }

def smallTask : Task := ⟨1 * pageSize, 0x400000, 0x400000⟩

theorem smallMachine_space : SpaceOk smallTask.cr3 smallMachine :=
  ⟨smallMachine_ok, fun v _ => smallMachine_noHuge (pathOf v)⟩

theorem lastFrame_space : SpaceOk smallTask.cr3 lastFrame :=
  ⟨TreeOk.empty (smallMachine_entry _) rfl (by decide) (by decide), fun v _ => smallMachine_noHuge (pathOf v)⟩

/-- The frame goes to the page, none is left for a table, and the break moves. -/
theorem break_over_unmapped :
    ¬ ∀ (fails : Nat → Bool) (start : BrkState), pageSize ∣ start.task.brkStart → start.task.brkStart ≤ heapCap →
      start.task.brkCurrent = start.task.brkStart → SpaceOk start.task.cr3 start.machine →
      ∀ calls st, Run (BrkStep fails) start calls st → BrkSafe st := by
  intro claim
  cases run : sysBrk (fun _ => false) lastFrame smallTask 0x401000 with
  | error e =>
    have moved : (sysBrk (fun _ => false) lastFrame smallTask 0x401000).isOk = true := by decide +kernel
    rw [run] at moved
    cases moved
  | ok r =>
    have moved : (sysBrk (fun _ => false) lastFrame smallTask 0x401000).map
        (fun r => (r.2.1, vmmTranslatePml4 r.2.2.mem (1 * pageSize) 0x400000)) =
        .ok (⟨1 * pageSize, 0x400000, 0x401000⟩, 0) := by decide +kernel
    rw [run] at moved
    obtain ⟨task, unmapped⟩ := Prod.mk.inj (Except.ok.inj moved)
    have safe := claim (fun _ => false) ⟨lastFrame, smallTask⟩ (by decide) (by decide) rfl lastFrame_space [0x401000]
      ⟨r.2.2, r.2.1⟩ (Run.snoc Run.nil ⟨r.1, run⟩)
    have mapped := safe.mapped 0x400000 (by decide)
    dsimp only at task unmapped mapped
    rw [task] at mapped
    exact mapped (by decide) (by decide) unmapped

theorem tablesGranted_ahead {s : Machine} {n table : Nat} {path : List (Fin 512)} (ahead : Ahead s.pmm (n + path.length)) :
    TablesGranted (fun _ => false) s table path := by
  induction path generalizing s table with
  | nil => trivial
  | cons i path ih =>
    have more : Ahead s.pmm (n + path.length + 1) := ahead
    constructor
    · intro _
      obtain ⟨k, nonzero, got, _⟩ := more.alloc
      simp only [allocFrame, got, Bool.false_eq_true, if_false]
      exact nonzero
    · intro next s' got
      exact ih (getOrCreateTable_supply Ahead.supply more got).2

theorem heapGranted_ahead {s : Machine} {cr3 page n : Nat} (ahead : Ahead s.pmm (4 * n)) :
    HeapGranted (fun _ => false) cr3 s page n := by
  induction n generalizing s page with
  | zero => trivial
  | succ n ih =>
    have more : Ahead s.pmm (4 * n + 3 + 1) := ahead
    rw [HeapGranted]
    split
    · exact ih (more.mono (by omega))
    · obtain ⟨k, _, got, left⟩ := more.alloc
      simp only [allocFrame, got, Bool.false_eq_true, if_false]
      right
      constructor
      · exact tablesGranted_ahead (n := 4 * n) left
      · intro done s' run
        let s₁ : Machine := { s with pmm := takeFrame s.pmm k, clock := s.clock + 1 }
        have rest : Ahead s'.pmm (4 * n) := (vmmMapPagePml4_supply (s := s₁) Ahead.supply left run).2
        exact ih rest

theorem brk_histories_small :
    ∃ st, Run (GrantedStep (fun _ => false)) ⟨smallMachine, smallTask⟩ [0x401000] st ∧ BrkSafe st ∧
      st.task.brkCurrent = 0x401000 := by
  have ahead : Ahead smallMachine.pmm (4 * 1) := ⟨by decide, 2, by decide, by decide, by decide⟩
  have granted : CallGranted (fun _ => false) smallMachine smallTask 0x401000 := fun _ => heapGranted_ahead ahead
  have histories := @brk_histories (fun _ => false) ⟨smallMachine, smallTask⟩ (by decide) (by decide) rfl smallMachine_space
  obtain ⟨st, result, run⟩ := (histories [] _ Run.nil).2.1 0x401000 granted
  have moved : (sysBrk (fun _ => false) smallMachine smallTask 0x401000).map (fun r => r.2.1.brkCurrent) = .ok 0x401000 := by
    decide +kernel
  rw [run] at moved
  have step : Run (GrantedStep (fun _ => false)) ⟨smallMachine, smallTask⟩ [0x401000] st :=
    Run.snoc Run.nil ⟨granted, result, run⟩
  exact ⟨st, step, (histories _ _ step).1.1, Except.ok.inj moved⟩

end

end RexOs.Arch
