import Aesd.LoopChecks

/-!
The fields `in_offs`, `out_offs` and `full` as the header describes them. A read stores an
absolute index in `out_offs` and clears `full` when it goes on to another entry, so what it
does to the ring depends on where it starts and on how far it gets.
-/

namespace Aesd

open MachineInt Offsets

structure FieldsMeaningful (buffer : CircularBuffer) : Prop where
  inOffs : buffer.inOffs < 10
  outOffs : buffer.outOffs < 10
  full : buffer.full = true ↔ buffer.wAbs - buffer.startAbs = 10

/-- A read that finishes the entry it starts in has started in the newest one. Any other read
leaves the index it started at in `out_offs`, and eight bits of it are a slot number. -/
def ReadKeeps (buffer : CircularBuffer) (len : UInt64) (found : Nat × Nat) : Prop :=
  let index := buffer.startAbs.toNat + found.1
  let size : Int := ((slotSizes buffer).getD (index % 10) 0 : Nat)
  if found.1 < 10 ∧ toUnsigned 64 (size - found.2) ≤ len.toNat then found.1 = 9
  else index % 256 < 10

/-- The tenth command is completed while `out_offs` is 0, and a read of ten commands stays in
its first entry or starts in the last. -/
def KeepsFields (buffer : CircularBuffer) : BufferCall → Prop
  | .add chunk => endsCommand chunk → buffer.wAbs.toNat = 9 → buffer.outOffs = 0
  | .read _ len fPos => 10 ≤ buffer.wAbs.toNat → InWindow buffer fPos →
      ReadKeeps buffer len
        (locate (slotSizes buffer) (fPos - buffer.startCharAbs.toNat).toNat)

/-! `out_offs` and `full` in the copy loop. -/

theorem nextOutOffs_lt (outOffs : UInt8) : nextOutOffs outOffs < 10 := by
  rw [nextOutOffs]
  split
  · decide
  next below => exact UInt8.not_le.mp below

theorem nextOutOffs_toNat {outOffs : UInt8} (below : outOffs.toNat < 9) :
    (nextOutOffs outOffs).toNat = outOffs.toNat + 1 := by
  have ten : (10 : UInt8).toNat = 10 := rfl
  have one : (1 : UInt8).toNat = 1 := rfl
  have stays : ¬ outOffs + 1 ≥ 10 := by
    rw [ge_iff_le, UInt8.le_iff_toNat_le, UInt8.toNat_add, ten, one]
    omega
  rw [nextOutOffs, if_neg stays, UInt8.toNat_add, one]
  omega

theorem ofNat_lt_ten (index : Nat) : UInt8.ofNat (toUnsigned 8 index) < 10 ↔ index % 256 < 10 := by
  have ten : (10 : UInt8).toNat = 10 := rfl
  have low : toUnsigned 8 index = index % 256 := by
    unfold toUnsigned
    omega
  rw [UInt8.lt_iff_toNat_lt, UInt8.toNat_ofNat', ten, low]
  omega

variable {buffer : CircularBuffer} {len index : Nat} {state final : CopyState}

/-- With fewer than ten commands the absolute index is the slot number. -/
theorem Head.early {copyStart startByteOfs : Nat} (few : buffer.wAbs.toNat < 10) :
    ∀ (fuel index : Nat) (state : CopyState), Head buffer len index state →
      state.outOffs.toNat = index → state.full = false →
      copyFrom buffer len copyStart startByteOfs fuel state = some final →
      final.outOffs.toNat ≤ buffer.wAbs.toNat ∧ final.full = false := by
  intro fuel
  induction fuel with
  | zero => intro _ _ _ _ _ impossible; cases impossible
  | succ fuel ih =>
      intro index state head outOffs notFull ended
      have below := head.below
      obtain ⟨made, count, looked, outcome⟩ := head.cases copyStart startByteOfs
      rw [copyFrom] at ended
      have moved (full : Bool) :
          ((state.recorded made count).movedOn full).outOffs.toNat = index + 1 := by
        change (nextOutOffs state.outOffs).toNat = index + 1
        rw [nextOutOffs_toNat (by omega), outOffs]
      rcases outcome with stops | ⟨-, stops⟩ | ⟨more, stops | continues⟩
      · rw [stops] at ended
        cases ended
        exact ⟨outOffs ▸ Nat.le_of_lt below, notFull⟩
      · rw [stops] at ended
        cases ended
        exact ⟨(moved _).trans_le below, notFull⟩
      · rw [stops] at ended
        cases ended
        exact ⟨(moved _).trans_le below, rfl⟩
      · rw [continues] at ended
        exact ih (index + 1) _ (head.movedOn looked more) (moved _) rfl ended

theorem advanceEntry_notFull (buffer : CircularBuffer) (len : Nat) {state : CopyState}
    (notFull : state.full = false) : (advanceEntry buffer len state).state.full = false := by
  rw [advanceEntry_eq]
  split
  · exact notFull
  · split <;> rfl

theorem copyFrom_notFull {copyStart startByteOfs fuel : Nat} (lenBound : len < 2 ^ 64)
    (ended : copyFrom buffer len copyStart startByteOfs fuel state = some final)
    (within : state.readLen ≤ len) (notFull : state.full = false) : final.full = false := by
  have both := copyFrom_preserves (fun state => state.readLen ≤ len ∧ state.full = false) ?_
    fuel state final ended ⟨within, notFull⟩
  · exact both.2
  · rintro state ⟨within, notFull⟩
    refine ⟨(copyStep_adds buffer copyStart startByteOfs lenBound within).2, ?_⟩
    obtain ⟨made, count, -, stops | advances⟩ :=
      copyStep_cases buffer copyStart startByteOfs lenBound (Nat.lt_of_le_of_lt within lenBound)
    · rw [stops]
      exact notFull
    · rw [advances]
      exact advanceEntry_notFull buffer len notFull

/-- Of ten commands, a read that leaves its first entry has cleared `full` unless the entry is
the newest. -/
theorem Head.fields_iff {size copyStart startByteOfs fuel : Nat} {piece : Bytes}
    (head : Head buffer len index state)
    (found : buffer.entry[index % 10]? = some ⟨.block piece, size⟩) (fresh : state.readLen = 0)
    (outOffs : state.outOffs = UInt8.ofNat (toUnsigned 8 index)) (full : state.full = true)
    (ended : copyFrom buffer len copyStart startByteOfs fuel state = some final) :
    final.outOffs < 10 ∧ final.full = true ↔
      if toUnsigned 64 (toInt (size - ofsInEntry startByteOfs state)) ≤ len then
        index + 1 = buffer.wAbs.toNat
      else index % 256 < 10 := by
  obtain ⟨fuel, rfl⟩ : ∃ rest, fuel = rest + 1 := by
    cases fuel with
    | zero => cases ended
    | succ fuel => exact ⟨fuel, rfl⟩
  have within := (copyStep_adds buffer copyStart startByteOfs head.lenBound head.readLen).2
  have step := copyStep_first head.startp found fresh head.lenBound copyStart startByteOfs
  rw [step] at within
  rw [copyFrom, step] at ended
  by_cases leaves : toUnsigned 64 (toInt (size - ofsInEntry startByteOfs state)) ≤ len
  · rw [if_pos leaves, CopyState.tookFirst] at ended within
    rw [if_pos leaves]
    rcases head.advance _ _ with ⟨last, stops⟩ | ⟨more, stops | continues⟩
    · rw [stops] at ended
      cases ended
      exact iff_of_true ⟨nextOutOffs_lt _, full⟩ last
    · rw [stops] at ended
      cases ended
      refine iff_of_false ?_ (Nat.ne_of_lt more)
      rintro ⟨-, cleared⟩
      cases cleared
    · rw [continues] at ended within
      have cleared := copyFrom_notFull head.lenBound ended within rfl
      refine iff_of_false ?_ (Nat.ne_of_lt more)
      rintro ⟨-, still⟩
      rw [cleared] at still
      cases still
  · rw [if_neg leaves] at ended ⊢
    cases ended
    rw [← ofNat_lt_ten, ← outOffs]
    exact and_iff_left full

/-! One call. -/

/-- Of the buffer alone: with fewer than ten commands nothing is full, and `out_offs` is at
most their number. -/
def Early (buffer : CircularBuffer) : Prop :=
  buffer.wAbs.toNat < 10 → buffer.outOffs.toNat ≤ buffer.wAbs.toNat ∧ buffer.full = false

theorem live_iff (count : Nat) :
    UInt32.ofNat count - UInt32.ofNat (count - 10) = 10 ↔ 10 ≤ count := by
  have ten : (10 : UInt32).toNat = 10 := rfl
  rw [← UInt32.toNat_inj, UInt32.toNat_sub, UInt32.toNat_ofNat', UInt32.toNat_ofNat', ten]
  omega

theorem Represents.fieldsMeaningful_iff {state : BufferState} {commands : List Bytes}
    {pending : Bytes} (represents : Represents state commands pending) :
    FieldsMeaningful state.buffer ↔
      state.buffer.outOffs < 10 ∧ (state.buffer.full = true ↔ 10 ≤ commands.length) := by
  have inOffs : state.buffer.inOffs < 10 := by
    have ten : (10 : UInt8).toNat = 10 := rfl
    rw [represents.inOffs, UInt8.lt_iff_toNat_lt, UInt8.toNat_ofNat', ten]
    omega
  have live := live_iff commands.length
  rw [← represents.wAbs, ← represents.startAbs] at live
  constructor
  · intro fields
    exact ⟨fields.outOffs, fields.full.trans live⟩
  · rintro ⟨outOffs, full⟩
    exact ⟨inOffs, outOffs, full.trans live.symm⟩

theorem located_outOffs (buffer : CircularBuffer) {index : Nat} (small : index < 10) :
    (buffer.located index).outOffs.toNat = index := by
  change (UInt8.ofNat (toUnsigned 8 index)).toNat = index
  rw [toUnsigned_natCast (by omega), UInt8.toNat_ofNat', Nat.mod_eq_of_lt (by omega)]

variable {commands : List Bytes} {resultBuf : Bytes} {fPos : Int} {read : Raed}

theorem Unwrapped.read_early (unwrapped : Unwrapped buffer commands) (early : Early buffer)
    {len : UInt64} (called : aesdCircularBufferRaed buffer resultBuf len fPos = some read) :
    Early read.buffer := by
  by_cases window : InWindow buffer fPos
  · obtain ⟨index, startByteOfs, visited, ends, lower, upper, set⟩ :=
      unwrapped.lookupEnds (toUnsigned_lt 64 (fPos - buffer.startCharAbs.toNat))
    by_cases before : index < buffer.wAbs.toNat
    · obtain ⟨offset, rfl⟩ := set before
      obtain ⟨final, copyEnds⟩ :=
        unwrapped.enters lower before len (strlen resultBuf) offset visited
      rw [copyEnds.raed window ends.called before] at called
      cases called
      intro few
      have few : (buffer.located index).wAbs.toNat < 10 := few
      have small : index < 10 := Nat.lt_trans before few
      obtain ⟨outOffs, notFull⟩ := Head.early few _ index _
        (unwrapped.head before len (strlen resultBuf) visited) (located_outOffs buffer small)
        (early few).2 copyEnds.steps
      exact ⟨outOffs, notFull⟩
    · rw [raed_of_past resultBuf len window ends.called (by omega)] at called
      cases called
      intro few
      change buffer.wAbs.toNat < 10 at few
      have outOffs := located_outOffs buffer (show index < 10 by omega)
      exact ⟨outOffs.trans_le upper, (early few).2⟩
  · rw [raed_outside window] at called
    cases called
    exact early

theorem Unwrapped.slotSizes_eq (unwrapped : Unwrapped buffer commands)
    (many : 10 ≤ commands.length) : slotSizes buffer = sizesOf (slotsOf commands) := by
  have length : (slotsOf commands).length = 10 := by
    rw [slotsOf_length]
    omega
  apply List.ext_getElem
  · simp [slotSizes, length]
  · intro target below bound
    rw [sizesOf_length] at bound
    have size := slotSizes_getD (unwrapped.slot bound)
    rw [List.getD_eq_getElem?_getD, List.getElem?_eq_getElem below, Option.getD_some] at size
    rw [size]
    simp [sizesOf]

/-- A read that finds its first byte in one of ten live commands. -/
theorem Unwrapped.readKeeps_iff_of_inside (unwrapped : Unwrapped buffer commands)
    (many : 10 ≤ commands.length) (full : buffer.full = true) {position : Nat}
    (upper : chargedChars commands + position ≤ commands.flatten.length)
    (inside : position < (liveOf commands).flatten.length) {len : UInt64}
    (called : aesdCircularBufferRaed buffer resultBuf len (chargedChars commands + position : Nat) =
      some read) :
    read.buffer.outOffs < 10 ∧ read.buffer.full = true ↔
      ReadKeeps buffer len (locate (slotSizes buffer) position) := by
  have wAbs := unwrapped.wAbs
  have startAbs := unwrapped.startAbs
  have chars := unwrapped.chars
  have held := liveChars_le commands
  obtain ⟨visited, -, live, found⟩ := unwrapped.lookup upper inside
  have split := locate_position (sizesOf (slotsOf commands)) position
  rw [unwrapped.slotSizes_eq many]
  generalize locate (sizesOf (slotsOf commands)) position = located at live split found ⊢
  obtain ⟨age, offset⟩ := located
  dsimp only at live split found
  have first : age < 10 := by
    rw [liveOf_length] at live
    omega
  have small : offset < 2 ^ 31 := by omega
  have entry := unwrapped.age live
  have sizes := (unwrapped.cursor (Nat.zero_le _)).small _ (List.getElem_mem live)
  rw [← startAbs] at found entry
  have before : buffer.startAbs.toNat + age < buffer.wAbs.toNat := by omega
  obtain ⟨final, copyEnds⟩ := unwrapped.enters (Nat.le_add_right _ age) before len
    (strlen resultBuf) offset visited
  rw [copyEnds.raed (unwrapped.inWindow upper) found before] at called
  cases called
  have kept := (unwrapped.head before len (strlen resultBuf) visited).fields_iff entry rfl rfl full
    copyEnds.steps
  have start : ofsInEntry offset (CopyState.enter buffer (buffer.startAbs.toNat + age)
      (strlen resultBuf) visited) = offset := by
    rw [ofsInEntry, CopyState.enter, if_pos rfl, toInt_natCast small]
  have newest : buffer.startAbs.toNat + age + 1 = buffer.wAbs.toNat ↔ age = 9 := by omega
  rw [start, toInt_natCast_sub sizes small] at kept
  simp only [ReadKeeps, slotSizes_getD entry, first, true_and, ← newest]
  exact kept

theorem Unwrapped.readKeeps_iff_of_past (unwrapped : Unwrapped buffer commands)
    (many : 10 ≤ commands.length) (full : buffer.full = true) {position : Nat}
    (upper : chargedChars commands + position ≤ commands.flatten.length)
    (past : (liveOf commands).flatten.length ≤ position) {len : UInt64}
    (called : aesdCircularBufferRaed buffer resultBuf len (chargedChars commands + position : Nat) =
      some read) :
    read.buffer.outOffs < 10 ∧ read.buffer.full = true ↔
      ReadKeeps buffer len (locate (slotSizes buffer) position) := by
  obtain ⟨startByteOfs, visited, -, found⟩ := unwrapped.lookup_past upper past
  have slots : (slotSizes buffer).length = 10 := by simp [slotSizes]
  have beyond : (slotSizes buffer).sum ≤ position := by
    rw [unwrapped.slotSizes_eq many, slots_flatten_length]
    exact past
  have last : buffer.startAbs.toNat + 10 = commands.length := by
    rw [unwrapped.startAbs]
    omega
  rw [raed_of_past resultBuf len (unwrapped.inWindow upper) found unwrapped.wAbs.symm] at called
  cases called
  rw [locate_of_sum_le beyond, slots, ReadKeeps, last, if_neg (by simp), ← ofNat_lt_ten]
  exact and_iff_left full

theorem Unwrapped.readKeeps_iff (unwrapped : Unwrapped buffer commands)
    (many : 10 ≤ commands.length) (full : buffer.full = true) (window : InWindow buffer fPos)
    {len : UInt64} (called : aesdCircularBufferRaed buffer resultBuf len fPos = some read) :
    read.buffer.outOffs < 10 ∧ read.buffer.full = true ↔
      ReadKeeps buffer len
        (locate (slotSizes buffer) (fPos - buffer.startCharAbs.toNat).toNat) := by
  obtain ⟨position, rfl, upper⟩ := unwrapped.window_position window
  have offset : ((chargedChars commands + position : Nat) -
      (buffer.startCharAbs.toNat : Int)).toNat = position := by
    rw [unwrapped.startCharAbs]
    omega
  rw [offset]
  by_cases inside : position < (liveOf commands).flatten.length
  · exact unwrapped.readKeeps_iff_of_inside many full upper inside called
  · exact unwrapped.readKeeps_iff_of_past many full upper (Nat.le_of_not_lt inside) called

variable {chunks : List Bytes} {next : BufferState}

theorem Represents.store_full {pending : Bytes} {before : BufferState}
    (represents : Represents before commands pending) (command : Bytes) :
    (before.buffer.store command).full =
      if UInt8.ofNat ((commands.length + 1) % 10) = before.buffer.outOffs then true
      else before.buffer.full := by
  have inOffs : (before.buffer.store command).inOffs = UInt8.ofNat ((commands.length + 1) % 10) := by
    have after := (represents.store command).inOffs
    rwa [List.length_append, List.length_singleton] at after
  rw [← inOffs]
  rfl

theorem Represents.store_wAbs {pending : Bytes} {before : BufferState}
    (represents : Represents before commands pending) (count : commands.length < 2 ^ 31)
    (command : Bytes) : (before.buffer.store command).wAbs.toNat = commands.length + 1 := by
  have after := (represents.store command).wAbs
  rw [List.length_append, List.length_singleton] at after
  rw [after, toNat_ofNat (by omega)]

theorem Represents.store_early {pending : Bytes} {before : BufferState}
    (represents : Represents before commands pending)
    (unwrapped : Unwrapped before.buffer commands) (early : Early before.buffer)
    (command : Bytes) : Early (before.buffer.store command) := by
  intro few
  rw [represents.store_wAbs unwrapped.count] at few ⊢
  obtain ⟨outOffs, notFull⟩ := early (by rw [unwrapped.wAbs]; omega)
  rw [unwrapped.wAbs] at outOffs
  have unmet : UInt8.ofNat ((commands.length + 1) % 10) ≠ before.buffer.outOffs := by
    intro met
    rw [← met, UInt8.toNat_ofNat'] at outOffs
    omega
  refine ⟨Nat.le_succ_of_le outOffs, ?_⟩
  rw [represents.store_full, if_neg unmet]
  exact notFull

theorem Represents.store_fields_iff {pending : Bytes} {before : BufferState}
    (represents : Represents before commands pending)
    (unwrapped : Unwrapped before.buffer commands) (early : Early before.buffer)
    (fields : FieldsMeaningful before.buffer) (command : Bytes) :
    FieldsMeaningful (before.buffer.store command) ↔
      (before.buffer.wAbs.toNat = 9 → before.buffer.outOffs = 0) := by
  have kept := represents.store_early unwrapped early command
  rw [Early, represents.store_wAbs unwrapped.count] at kept
  obtain ⟨outOffs, full⟩ := represents.fieldsMeaningful_iff.mp fields
  have same : (before.buffer.store command).outOffs = before.buffer.outOffs := rfl
  rw [(represents.store command).fieldsMeaningful_iff, List.length_append, List.length_singleton,
    same, unwrapped.wAbs, and_iff_right outOffs]
  rcases Nat.lt_trichotomy commands.length 9 with few | nine | many
  · obtain ⟨-, notFull⟩ := kept (by omega)
    rw [notFull]
    exact iff_of_true (iff_of_false (by decide) (by omega)) (by omega)
  · obtain ⟨-, notFull⟩ := early (by rw [unwrapped.wAbs]; omega)
    have zero : UInt8.ofNat ((9 + 1) % 10) = 0 := rfl
    rw [represents.store_full, nine, notFull, zero]
    simp [eq_comm]
  · rw [represents.store_full, full.mpr many, ite_self]
    exact iff_of_true (iff_of_true rfl (by omega)) (by omega)

theorem Follows.read_fields_iff {before : BufferState} (follows : Follows before chunks)
    (unwrapped : Unwrapped before.buffer (commandsOf chunks)) (early : Early before.buffer)
    (fields : FieldsMeaningful before.buffer) {len : UInt64}
    (called : aesdCircularBufferRaed before.buffer resultBuf len fPos = some read) :
    FieldsMeaningful read.buffer ↔ KeepsFields before.buffer (.read resultBuf len fPos) := by
  have after := (follows.read called).fieldsMeaningful_iff
  have kept := unwrapped.read_early early called
  have same : read.buffer.wAbs = before.buffer.wAbs := by rw [raed_buffer called]
  rw [Early, same, unwrapped.wAbs] at kept
  obtain ⟨-, full⟩ := follows.fieldsMeaningful_iff.mp fields
  rw [after, KeepsFields, unwrapped.wAbs]
  dsimp only
  by_cases few : (commandsOf chunks).length < 10
  · obtain ⟨outOffs, notFull⟩ := kept few
    have ten : (10 : UInt8).toNat = 10 := rfl
    rw [notFull, UInt8.lt_iff_toNat_lt, ten]
    exact iff_of_true ⟨by omega, iff_of_false (by decide) (by omega)⟩ (by omega)
  · have many : 10 ≤ (commandsOf chunks).length := Nat.le_of_not_lt few
    simp only [many, iff_true, true_imp_iff]
    by_cases window : InWindow before.buffer fPos
    · rw [unwrapped.readKeeps_iff many (full.mpr many) window called]
      exact ⟨fun keeps _ => keeps, fun keeps => keeps window⟩
    · rw [raed_outside window] at called
      cases called
      exact iff_of_true ⟨fields.outOffs, full.mpr many⟩ fun inside => absurd inside window

theorem Follows.step_fields {before : BufferState} (follows : Follows before chunks)
    (unwrapped : Unwrapped before.buffer (commandsOf chunks)) (early : Early before.buffer)
    {call : BufferCall} (nonempty : call ≠ .add []) (stepped : before.step call = .ok next) :
    Early next.buffer ∧
      (FieldsMeaningful before.buffer →
        (FieldsMeaningful next.buffer ↔ KeepsFields before.buffer call)) := by
  cases call with
  | add chunk =>
      have written : chunk ≠ [] := fun empty => nonempty (by rw [empty])
      rw [BufferState.step, follows.addEntry written, Except.ok.injEq] at stepped
      subst stepped
      by_cases ended : endsCommand chunk
      · simp only [KeepsFields, ended, true_imp_iff]
        exact ⟨follows.store_early unwrapped early _, fun fields =>
          follows.store_fields_iff unwrapped early fields _⟩
      · rw [if_neg ended]
        exact ⟨early, fun fields => iff_of_true fields fun closing => absurd closing ended⟩
  | read resultBuf len fPos =>
      obtain ⟨read, called⟩ := raed_ends before.buffer resultBuf len fPos
      rw [BufferState.step, called, Except.ok.injEq] at stepped
      subst stepped
      exact ⟨unwrapped.read_early early called, fun fields =>
        follows.read_fields_iff unwrapped early fields called⟩

/-! Whole runs. -/

/-- The induction over a run: what holds at the start holds after every prefix exactly when
every call keeps it. -/
theorem prefixes_iff {α : Type} {good : List α → Prop} {keeps : List α → α → Prop}
    {whole : List α} (start : good [])
    (step : ∀ before call, before ++ [call] <+: whole → good before →
      (good (before ++ [call]) ↔ keeps before call)) :
    (∀ before, before <+: whole → good before) ↔
      ∀ before call, before ++ [call] <+: whole → keeps before call := by
  constructor
  · intro all before call part
    exact (step before call part (all before ((List.prefix_append _ _).trans part))).mp
      (all _ part)
  · intro each before
    induction before using List.reverseRecOn with
    | nil => exact fun _ => start
    | append_singleton before call ih =>
        intro part
        have earlier := ih ((List.prefix_append _ _).trans part)
        exact (step before call part earlier).mpr (each before call part)

theorem NoWrap.before {calls before : List BufferCall}
    (noWrap : NoWrap (commandsOf (addedChunks calls))) (part : before <+: calls) :
    NoWrap (commandsOf (addedChunks before)) := by
  obtain ⟨rest, rfl⟩ := part
  have earlier := commandsOf_prefix (addedChunks before) (addedChunks rest)
  rw [addedChunks, List.filterMap_append] at noWrap
  exact ⟨Nat.lt_of_le_of_lt earlier.length_le noWrap.count,
    Nat.lt_of_le_of_lt earlier.flatten.length_le noWrap.chars⟩

theorem runBuffer_early {calls : List BufferCall} (nonempty : BufferCall.add [] ∉ calls)
    (noWrap : NoWrap (commandsOf (addedChunks calls))) :
    ∃ state, runBuffer calls = .ok state ∧ Follows state (addedChunks calls) ∧
      Unwrapped state.buffer (commandsOf (addedChunks calls)) ∧ Early state.buffer := by
  induction calls using List.reverseRecOn with
  | nil =>
      obtain ⟨state, ran, unwrapped⟩ := runBuffer_unwrapped nonempty noWrap
      cases ran
      exact ⟨_, rfl, represents_boot, unwrapped, fun _ => ⟨Nat.le_refl 0, rfl⟩⟩
  | append_singleton calls call ih =>
      have other := nonempty
      simp only [List.mem_append, List.mem_singleton, not_or] at other
      obtain ⟨state, ran, follows, unwrapped, early⟩ :=
        ih other.1 (noWrap.before (List.prefix_append _ _))
      obtain ⟨next, stepped, followed⟩ := follows.step (Ne.symm other.2)
      have reached : runBuffer (calls ++ [call]) = .ok next := by
        rw [runBuffer_concat, ran, ok_bind, stepped]
      obtain ⟨_, again, grown⟩ := runBuffer_unwrapped nonempty noWrap
      rw [reached, Except.ok.injEq] at again
      subst again
      obtain ⟨kept, -⟩ := follows.step_fields unwrapped early (Ne.symm other.2) stepped
      exact ⟨next, reached, by simpa [addedChunks] using followed, grown, kept⟩

/-- The fields are meaningful after every call exactly when every call meets the condition. -/
theorem runBuffer_fieldsMeaningful_iff (calls : List BufferCall)
    (nonempty : BufferCall.add [] ∉ calls) (noWrap : NoWrap (commandsOf (addedChunks calls))) :
    (∀ before, before <+: calls →
        ∃ state, runBuffer before = .ok state ∧ FieldsMeaningful state.buffer) ↔
      ∀ before call, before ++ [call] <+: calls →
        ∃ state, runBuffer before = .ok state ∧ KeepsFields state.buffer call := by
  have fresh : FieldsMeaningful zeroedBuffer := ⟨by decide, by decide, by decide⟩
  refine prefixes_iff ⟨_, rfl, fresh⟩ ?_
  intro before call part
  have inside : ∀ earlier ∈ before ++ [call], earlier ≠ .add [] := by
    intro earlier member empty
    exact nonempty (part.subset (empty ▸ member))
  obtain ⟨state, ran, follows, unwrapped, early⟩ := runBuffer_early
    (fun member => inside _ (List.mem_append_left _ member) rfl)
    (noWrap.before ((List.prefix_append _ _).trans part))
  have written : call ≠ .add [] := inside call (by simp)
  obtain ⟨next, stepped, -⟩ := follows.step written
  have reached : runBuffer (before ++ [call]) = .ok next := by
    rw [runBuffer_concat, ran, ok_bind, stepped]
  obtain ⟨-, kept⟩ := follows.step_fields unwrapped early written stepped
  simpa only [ran, reached, Except.ok.injEq, exists_eq_left'] using kept

def readThenFill : List BufferCall :=
  .add [10] :: .read [0] 1 0 :: List.replicate 9 (.add [10])

theorem runBuffer_fieldsMeaningful_iff_filled :
    (∀ before, before <+: readThenFill →
        ∃ state, runBuffer before = .ok state ∧ FieldsMeaningful state.buffer) ↔
      ∀ before call, before ++ [call] <+: readThenFill →
        ∃ state, runBuffer before = .ok state ∧ KeepsFields state.buffer call :=
  runBuffer_fieldsMeaningful_iff readThenFill (by decide) ⟨by decide, by decide⟩

/-- The read of the first command leaves `out_offs` at 1, and the tenth command does not meet
it. -/
theorem fieldsMeaningful_fails_filled :
    ∃ state, runBuffer readThenFill = .ok state ∧
      state.buffer.wAbs = 10 ∧ state.buffer.startAbs = 0 ∧ state.buffer.inOffs = 0 ∧
      state.buffer.outOffs = 1 ∧ state.buffer.full = false ∧ ¬ FieldsMeaningful state.buffer := by
  have evaluated : (runBuffer readThenFill).toOption.map (fun state =>
      (state.buffer.wAbs, state.buffer.startAbs, state.buffer.inOffs, state.buffer.outOffs,
        state.buffer.full)) = some (10, 0, 0, 1, false) := by
    decide +kernel
  obtain ⟨state, ran, seen⟩ := ok_of_toOption_map evaluated
  simp only [Prod.mk.injEq] at seen
  obtain ⟨wAbs, startAbs, inOffs, outOffs, full⟩ := seen
  refine ⟨state, ran, wAbs, startAbs, inOffs, outOffs, full, fun fields => ?_⟩
  have live : state.buffer.wAbs - state.buffer.startAbs = 10 := by
    rw [wAbs, startAbs]
    rfl
  rw [fields.full.mpr live] at full
  cases full

end Aesd
