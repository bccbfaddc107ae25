import RexOs.Fs.Fat32
import RexOs.Library.Lockstep
import RexOs.Library.Safe

/-! A call of the driver depends on the device only while it runs. -/

set_option autoImplicit false

namespace RexOs.Fs

open RexOs.Library

def AlikeAt (dev dev' : Device) (t : Nat) : Prop :=
  dev'.readOk t = dev.readOk t ∧ dev'.writeOk t = dev.writeOk t ∧ dev'.allocOk t = dev.allocOk t

abbrev Timed {α : Type} (dev dev' : Device) (fs : State) (r r' : α × State) : Prop :=
  Lockstep (AlikeAt dev dev') fs.clock r r' r.2.clock

abbrev TimedState (dev dev' : Device) (fs fs₁ fs₁' : State) : Prop :=
  Lockstep (AlikeAt dev dev') fs.clock fs₁ fs₁' fs₁.clock

def TimedCall {α : Type} (dev dev' : Device) (t : Nat) (x x' : Except Fault (α × State)) : Prop :=
  ∀ r, x = .ok r → Lockstep (AlikeAt dev dev') t x x' r.2.clock

namespace TimedCall

variable {α β : Type} {dev dev' : Device} {t t₁ : Nat}

theorem ok (r : α × State) : TimedCall dev dev' r.2.clock (.ok r) (.ok r) := by
  rintro _ ⟨rfl⟩
  exact .refl ..

theorem error (t : Nat) (fault : Fault) (x' : Except Fault (α × State)) : TimedCall dev dev' t (.error fault) x' := by
  intro r returned
  cases returned

theorem step {y y' : β} {x : Except Fault (α × State)} {f : β → Except Fault (α × State)}
    (first : Lockstep (AlikeAt dev dev') t y y' t₁) (rest : TimedCall dev dev' t₁ x (f y)) : TimedCall dev dev' t x (f y') :=
  fun r returned => first.step (rest r returned)

theorem bind {x x' : Except Fault (β × State)} {f f' : β × State → Except Fault (α × State)}
    (first : TimedCall dev dev' t x x') (rest : ∀ r, TimedCall dev dev' r.2.clock (f r) (f' r)) :
    TimedCall dev dev' t (x >>= f) (x' >>= f') := by
  intro r returned
  obtain ⟨r₁, got, returned'⟩ := bind_returns returned
  have first := first r₁ got
  rw [got] at first returned ⊢
  -- the second computation starts where the first one has returned
  apply first.step
  exact rest r₁ r returned

end TimedCall

variable (dev dev' : Device) (v : Volume)

theorem readBlocks_timed (fs : State) (lba n : Nat) : Timed dev dev' fs (readBlocks dev fs lba n) (readBlocks dev' fs lba n) :=
  Lockstep.tick fun alike => by rw [readBlocks, readBlocks, alike.1]

theorem writeBlocks_clock (fs : State) (lba n : Nat) (buf : Mem) : (writeBlocks dev fs lba n buf).2.clock = fs.clock + 1 := by
  rw [writeBlocks]
  split <;> rfl

theorem writeBlocks_timed (fs : State) (lba n : Nat) (buf : Mem) :
    Timed dev dev' fs (writeBlocks dev fs lba n buf) (writeBlocks dev' fs lba n buf) := by
  rw [Timed, writeBlocks_clock]
  exact Lockstep.tick fun alike => by rw [writeBlocks, writeBlocks, alike.2.1]

theorem heapAlloc_timed (fs : State) : Timed dev dev' fs (heapAlloc dev fs) (heapAlloc dev' fs) :=
  Lockstep.tick fun alike => by rw [heapAlloc, heapAlloc, alike.2.2]

theorem fatNextCluster_timed (fs : State) (c : Nat) :
    Timed dev dev' fs (fatNextCluster dev v fs c) (fatNextCluster dev' v fs c) := by
  rw [fatNextCluster, fatNextCluster]
  have read := readBlocks_timed dev dev' fs (fatSectorOf v c) 1
  generalize readBlocks dev fs _ 1 = r, readBlocks dev' fs _ 1 = r' at read ⊢
  apply read.step
  obtain ⟨_ | buf, fs₁⟩ := r
  · exact .refl ..
  · exact .refl ..

theorem setEntryLoop_timed (c x : Nat) : ∀ (rounds fi : Nat) (fs : State),
    TimedState dev dev' fs (setEntryLoop dev v c x rounds fi fs) (setEntryLoop dev' v c x rounds fi fs) := by
  intro rounds
  induction rounds with
  | zero => exact fun fi fs => .refl ..
  | succ rounds ih =>
    intro fi fs
    rw [setEntryLoop, setEntryLoop]
    dsimp only
    generalize u32 (fatSectorOf v c + fi * v.fatSize) = sec
    have read := readBlocks_timed dev dev' fs sec 1
    generalize readBlocks dev fs sec 1 = r, readBlocks dev' fs sec 1 = r' at read ⊢
    apply read.step
    obtain ⟨_ | buf, fs₁⟩ := r
    · exact .refl ..
    · dsimp only
      generalize store buf _ 4 _ = buf'
      have wrote := writeBlocks_timed dev dev' fs₁ sec 1 buf'
      generalize writeBlocks dev fs₁ sec 1 buf' = r, writeBlocks dev' fs₁ sec 1 buf' = r' at wrote ⊢
      apply wrote.step
      exact ih _ _

theorem fatSetEntry_timed (fs : State) (c x : Nat) :
    TimedState dev dev' fs (fatSetEntry dev v fs c x) (fatSetEntry dev' v fs c x) := setEntryLoop_timed dev dev' v c x _ 0 fs

theorem markSecond_timed (fs : State) (sec j : Nat) :
    TimedState dev dev' fs (markSecond dev v fs sec j) (markSecond dev' v fs sec j) := by
  rw [markSecond, markSecond]
  generalize u32 (v.fatStartLba + v.fatSize + sec) = lba
  split
  · have read := readBlocks_timed dev dev' fs lba 1
    generalize readBlocks dev fs lba 1 = r, readBlocks dev' fs lba 1 = r' at read ⊢
    apply read.step
    obtain ⟨_ | buf, fs₁⟩ := r
    · exact .refl ..
    · exact (writeBlocks_timed dev dev' fs₁ lba 1 (markEntry buf j)).map Prod.snd
  · exact .refl ..

theorem allocLoop_timed : ∀ (rounds sec : Nat) (fs : State),
    Timed dev dev' fs (allocLoop dev v rounds sec fs) (allocLoop dev' v rounds sec fs) := by
  intro rounds
  induction rounds with
  | zero => exact fun sec fs => .refl ..
  | succ rounds ih =>
    intro sec fs
    rw [allocLoop, allocLoop]
    generalize u32 (v.fatStartLba + sec) = lba
    have read := readBlocks_timed dev dev' fs lba 1
    generalize readBlocks dev fs lba 1 = r, readBlocks dev' fs lba 1 = r' at read ⊢
    apply read.step
    obtain ⟨_ | buf, fs₁⟩ := r
    · exact ih (sec + 1) fs₁
    dsimp only
    -- what was read decides alike on both sides
    cases freeEntryLoop buf sec entriesPerSec 0 with
    | none => exact ih (sec + 1) fs₁
    | some j =>
      dsimp only
      have wrote := writeBlocks_timed dev dev' fs₁ lba 1 (markEntry buf j)
      generalize writeBlocks dev fs₁ lba 1 (markEntry buf j) = r, writeBlocks dev' fs₁ lba 1 (markEntry buf j) = r' at wrote ⊢
      apply wrote.step
      exact (markSecond_timed dev dev' v r.2 sec j).map fun fs => (u32 (sec * entriesPerSec + j), fs)

theorem fatAllocCluster_timed (fs : State) :
    Timed dev dev' fs (fatAllocCluster dev v fs) (fatAllocCluster dev' v fs) := allocLoop_timed dev dev' v v.fatSize 0 fs

theorem writeChunks_timed (data : Mem) : ∀ (rounds lba p remaining : Nat) (fs : State),
    Timed dev dev' fs (writeChunks dev data rounds lba p remaining fs) (writeChunks dev' data rounds lba p remaining fs) := by
  intro rounds
  induction rounds with
  | zero => exact fun lba p remaining fs => .refl ..
  | succ rounds ih =>
    intro lba p remaining fs
    rw [writeChunks, writeChunks]
    generalize (if remaining > 32 then 32 else remaining) = chunk
    dsimp only
    split
    · have wrote := writeBlocks_timed dev dev' fs lba chunk fun i => data (p + i)
      generalize (writeBlocks dev fs lba chunk fun i => data (p + i)) = r,
        (writeBlocks dev' fs lba chunk fun i => data (p + i)) = r' at wrote ⊢
      apply wrote.step
      obtain ⟨_ | _, fs₁⟩ := r
      · exact .refl ..
      · exact ih _ _ _ fs₁
    · exact .refl ..

theorem fatWriteCluster_timed (fs : State) (c : Nat) (data : Mem) :
    Timed dev dev' fs (fatWriteCluster dev v fs c data) (fatWriteCluster dev' v fs c data) :=
  writeChunks_timed dev dev' data _ _ _ _ fs

theorem readChunks_timed : ∀ (rounds lba p remaining : Nat) (buf : Mem) (fs : State),
    Timed dev dev' fs (readChunks dev rounds lba p remaining buf fs) (readChunks dev' rounds lba p remaining buf fs) := by
  intro rounds
  induction rounds with
  | zero => exact fun lba p remaining buf fs => .refl ..
  | succ rounds ih =>
    intro lba p remaining buf fs
    rw [readChunks, readChunks]
    generalize (if remaining > 32 then 32 else remaining) = chunk
    dsimp only
    split
    · have read := readBlocks_timed dev dev' fs lba chunk
      generalize readBlocks dev fs lba chunk = r, readBlocks dev' fs lba chunk = r' at read ⊢
      apply read.step
      obtain ⟨_ | data, fs₁⟩ := r
      · exact .refl ..
      · exact ih _ _ _ _ fs₁
    · exact .refl ..

theorem readCluster_timed (fs : State) (c : Nat) : Timed dev dev' fs (readCluster dev v fs c) (readCluster dev' v fs c) := by
  rw [readCluster, readCluster]
  have got := heapAlloc_timed dev dev' fs
  generalize heapAlloc dev fs = r, heapAlloc dev' fs = r' at got ⊢
  apply got.step
  obtain ⟨_ | _, fs₁⟩ := r
  · exact .refl ..
  · exact readChunks_timed dev dev' _ _ _ _ _ fs₁

theorem zeroCluster_timed (fs : State) (c : Nat) : TimedState dev dev' fs (zeroCluster dev v fs c) (zeroCluster dev' v fs c) := by
  rw [zeroCluster, zeroCluster]
  have got := heapAlloc_timed dev dev' fs
  generalize heapAlloc dev fs = r, heapAlloc dev' fs = r' at got ⊢
  apply got.step
  obtain ⟨_ | _, fs₁⟩ := r
  · exact .refl ..
  · exact (fatWriteCluster_timed dev dev' v fs₁ c fun _ => 0).map Prod.snd

theorem fat32UpdateDirent_timed (fs : State) (i newSize newCluster : Nat) :
    TimedState dev dev' fs (fat32UpdateDirent dev fs i newSize newCluster) (fat32UpdateDirent dev' fs i newSize newCluster) := by
  rw [fat32UpdateDirent, fat32UpdateDirent]
  cases fs.nodes[i]? with
  | none => exact .refl ..
  | some p =>
    dsimp only
    split
    · exact .refl ..
    · have read := readBlocks_timed dev dev' fs p.direntSector 1
      generalize readBlocks dev fs p.direntSector 1 = r, readBlocks dev' fs p.direntSector 1 = r' at read ⊢
      apply read.step
      obtain ⟨_ | buf, fs₁⟩ := r
      · exact .refl ..
      · exact (writeBlocks_timed dev dev' fs₁ p.direntSector 1 _).map Prod.snd

theorem link_timed (fs : State) (c nc : Nat) :
    TimedState dev dev' fs (zeroCluster dev v (fatSetEntry dev v fs c nc) nc) (zeroCluster dev' v (fatSetEntry dev' v fs c nc) nc) := by
  have linked := fatSetEntry_timed dev dev' v fs c nc
  generalize fatSetEntry dev v fs c nc = fs₁, fatSetEntry dev' v fs c nc = fs₁' at linked ⊢
  apply linked.step
  exact zeroCluster_timed dev dev' v fs₁ nc

theorem seekLoop_timed (offset : Nat) : ∀ (fuel : Nat) (at_ : Cursor) (fs : State),
    TimedCall dev dev' fs.clock (seekLoop dev v offset fuel at_ fs) (seekLoop dev' v offset fuel at_ fs) := by
  intro fuel
  induction fuel with
  | zero => exact fun at_ fs => TimedCall.error _ _ _
  | succ fuel ih =>
    intro at_ fs
    rw [seekLoop, seekLoop]
    generalize u64 (at_.clusterOffset + v.bytesPerCluster) = further
    dsimp only
    split
    · have read := fatNextCluster_timed dev dev' v fs at_.cluster
      generalize fatNextCluster dev v fs at_.cluster = r, fatNextCluster dev' v fs at_.cluster = r' at read ⊢
      apply TimedCall.step read
      split
      · have got := fatAllocCluster_timed dev dev' v r.2
        generalize fatAllocCluster dev v r.2 = r₁, fatAllocCluster dev' v r.2 = r' at got ⊢
        apply TimedCall.step got
        split
        · exact .ok (none, r₁.2)
        · have linked := link_timed dev dev' v r₁.2 at_.cluster r₁.1
          generalize zeroCluster dev v _ _ = fs₂, zeroCluster dev' v _ _ = fs₂' at linked ⊢
          apply TimedCall.step linked
          exact ih _ fs₂
      · exact ih _ r.2
    · exact .ok (some at_, fs)

theorem writeTarget_timed (start : Nat) (at_ : Cursor) (fs : State) :
    Timed dev dev' fs (writeTarget dev v start at_ fs) (writeTarget dev' v start at_ fs) := by
  rw [writeTarget, writeTarget]
  dsimp only
  split
  · have got := fatAllocCluster_timed dev dev' v fs
    generalize fatAllocCluster dev v fs = r, fatAllocCluster dev' v fs = r' at got ⊢
    apply got.step
    split
    · exact .refl ..
    · exact (link_timed dev dev' v r.2 _ r.1).map fun fs => (some r.1, fs)
  · exact .refl ..

theorem writeLoop_timed (start offset : Nat) (buffer : List UInt8) : ∀ (fuel : Nat) (at_ : Cursor) (outPos : Nat) (fs : State),
    TimedCall dev dev' fs.clock (writeLoop dev v start offset buffer fuel at_ outPos fs)
      (writeLoop dev' v start offset buffer fuel at_ outPos fs) := by
  intro fuel
  induction fuel with
  | zero => exact fun at_ outPos fs => TimedCall.error _ _ _
  | succ fuel ih =>
    intro at_ outPos fs
    rw [writeLoop, writeLoop]
    split
    · have target := writeTarget_timed dev dev' v start at_ fs
      generalize writeTarget dev v start at_ fs = r, writeTarget dev' v start at_ fs = r' at target ⊢
      apply TimedCall.step target
      obtain ⟨_ | c, fs₁⟩ := r
      · exact .ok (outPos, fs₁)
      dsimp only
      have read := readCluster_timed dev dev' v fs₁ c
      generalize readCluster dev v fs₁ c = r₁, readCluster dev' v fs₁ c = r' at read ⊢
      apply TimedCall.step read
      obtain ⟨_ | cbuf, fs₂⟩ := r₁
      · exact .ok (outPos, fs₂)
      dsimp only
      generalize paste cbuf _ _ _ = data
      have wrote := fatWriteCluster_timed dev dev' v fs₂ c data
      generalize fatWriteCluster dev v fs₂ c data = r₂, fatWriteCluster dev' v fs₂ c data = r' at wrote ⊢
      apply TimedCall.step wrote
      have next := fatNextCluster_timed dev dev' v r₂.2 c
      generalize fatNextCluster dev v r₂.2 c = r₃, fatNextCluster dev' v r₂.2 c = r' at next ⊢
      apply TimedCall.step next
      exact ih _ _ r₃.2
    · exact .ok (outPos, fs)

theorem firstCluster_timed (fs : State) (i start : Nat) :
    Timed dev dev' fs (firstCluster dev v fs i start) (firstCluster dev' v fs i start) := by
  rw [firstCluster, firstCluster]
  dsimp only
  split
  · have got := fatAllocCluster_timed dev dev' v fs
    generalize fatAllocCluster dev v fs = r, fatAllocCluster dev' v fs = r' at got ⊢
    apply got.step
    split
    · exact .refl ..
    · have cleared := zeroCluster_timed dev dev' v (r.2.setNode i fun p => { p with startCluster := r.1 }) r.1
      generalize zeroCluster dev v _ _ = fs₁, zeroCluster dev' v _ _ = fs₁' at cleared ⊢
      apply cleared.step
      exact (fat32UpdateDirent_timed dev dev' fs₁ i keepField r.1).map fun fs => (some r.1, fs)
  · exact .refl ..

theorem recordSize_timed (fs : State) (i size newEnd : Nat) :
    TimedState dev dev' fs (recordSize dev fs i size newEnd) (recordSize dev' fs i size newEnd) := by
  rw [recordSize, recordSize]
  split
  · exact fat32UpdateDirent_timed dev dev' (fs.setNode i fun p => { p with size := u32 newEnd, length := newEnd }) i _ _
  · exact .refl ..

theorem fat32Write_timed (fuel i offset : Nat) (buffer : List UInt8) (fs : State) :
    TimedCall dev dev' fs.clock (fat32Write dev v fuel fs i offset buffer) (fat32Write dev' v fuel fs i offset buffer) := by
  rw [fat32Write, fat32Write]
  cases fs.nodes[i]? with
  | none => exact .ok (0, fs)
  | some p =>
    dsimp only
    split
    · exact .ok (0, fs)
    split
    · exact .ok (0, fs)
    have first := firstCluster_timed dev dev' v fs i p.startCluster
    generalize firstCluster dev v fs i p.startCluster = r, firstCluster dev' v fs i p.startCluster = r' at first ⊢
    apply TimedCall.step first
    obtain ⟨_ | start, fs₁⟩ := r
    · exact .ok (0, fs₁)
    apply TimedCall.bind (seekLoop_timed dev dev' v offset fuel ⟨start, 0, 0⟩ fs₁)
    rintro ⟨_ | at_, fs₂⟩
    · exact .ok (0, fs₂)
    apply TimedCall.bind (writeLoop_timed dev dev' v start offset buffer fuel at_ 0 fs₂)
    rintro ⟨n, fs₃⟩
    dsimp only
    have recorded := recordSize_timed dev dev' fs₃ i p.size (offset + n)
    generalize recordSize dev fs₃ _ _ _ = fs₄, recordSize dev' fs₃ _ _ _ = fs₄' at recorded ⊢
    apply TimedCall.step recorded
    exact .ok (n, fs₄)

end RexOs.Fs
