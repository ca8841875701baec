import Aesd.ReadChecks

/-!
How many iterations the two loops of a read take, and what holds in every one of them, at any
position and for any number of bytes.
-/

namespace Aesd

open MachineInt Offsets

/-- The states that an iteration of the copy loop starts in. -/
inductive Iterates (buffer : CircularBuffer) (len copyStart startByteOfs : Nat)
    (start : CopyState) : CopyState → Prop
  | enter : Iterates buffer len copyStart startByteOfs start start
  | again {state next : CopyState} : Iterates buffer len copyStart startByteOfs start state →
      copyStep buffer len copyStart startByteOfs state = .next next →
      Iterates buffer len copyStart startByteOfs start next

structure LookupEnds (buffer : CircularBuffer) (charOffset : Nat) (found : Found) : Prop where
  called : aesdCircularBufferFindEntryOffsetAndIndexForFpos buffer charOffset = some found
  steps : findIndexFrom buffer charOffset (max 1 (buffer.wAbs.toNat - buffer.startAbs.toNat))
    (toInt buffer.startAbs.toNat) 0 [] = some found
  once : found.accesses.Nodup
  slots : SlotReads found.accesses

structure CopyEnds (buffer : CircularBuffer) (len copyStart startByteOfs index : Nat)
    (start final : CopyState) : Prop where
  steps : copyFrom buffer len copyStart startByteOfs (buffer.wAbs.toNat - index) start = some final
  startp : ∀ state, Iterates buffer len copyStart startByteOfs start state →
    (copyStep buffer len copyStart startByteOfs state).state.startp ≤ buffer.wAbs.toNat
  readLen : ∀ state, Iterates buffer len copyStart startByteOfs start state →
    (copyStep buffer len copyStart startByteOfs state).state.readLen ≤ len
  once : ∃ made, final.accesses = start.accesses ++ made ∧ (slotsRead made).Nodup ∧
    .unset ∉ made

/-- The lookup ends for any position. When it does not return `w_abs` it has set
`start_byte_ofs`, and the copy loop that starts at its index ends. -/
def ReadEnds (buffer : CircularBuffer) (resultBuf : Bytes) (len : UInt64) (fPos : Int) : Prop :=
  ∃ (index : Nat) (startByteOfs : Option Nat) (visited : List Access) (read : Raed),
    LookupEnds buffer (toUnsigned 64 (fPos - buffer.startCharAbs.toNat))
      ⟨index, startByteOfs, visited⟩ ∧
    index ≤ buffer.wAbs.toNat ∧
    aesdCircularBufferRaed buffer resultBuf len fPos = some read ∧ .unset ∉ read.accesses ∧
    (index < buffer.wAbs.toNat → ∃ offset final, startByteOfs = some offset ∧
      CopyEnds (buffer.located index) len.toNat (strlen resultBuf) offset index
        (CopyState.enter buffer index (strlen resultBuf) visited) final ∧
      (InWindow buffer fPos → read.ret = final.readLen ∧ read.accesses = final.accesses))

/-! One iteration of the copy loop. -/

structure Head (buffer : CircularBuffer) (len index : Nat) (state : CopyState) : Prop where
  startp : state.startp = index
  below : index < buffer.wAbs.toNat
  small : buffer.wAbs.toNat < 2 ^ 31
  readLen : state.readLen ≤ len
  lenBound : len < 2 ^ 64

theorem slotsRead_append (first second : List Access) :
    slotsRead (first ++ second) = slotsRead first ++ slotsRead second :=
  List.filterMap_append

variable {buffer : CircularBuffer} {len index : Nat} {state : CopyState}

/-- The buffer stays full only when the entry that the loop leaves is the last one. -/
theorem Head.advance (head : Head buffer len index state) (made : List Access) (count : Nat) :
    index + 1 = buffer.wAbs.toNat ∧ advanceEntry buffer len (state.recorded made count) =
        .stop ((state.recorded made count).movedOn state.full) ∨
      index + 1 < buffer.wAbs.toNat ∧
        (advanceEntry buffer len (state.recorded made count) =
            .stop ((state.recorded made count).movedOn false) ∨
          advanceEntry buffer len (state.recorded made count) =
            .next ((state.recorded made count).movedOn false)) := by
  have below := head.below
  have small := head.small
  have startp : (state.recorded made count).startp = index := head.startp
  have moved : toInt ((index : Int) + 1) = (index + 1 : Nat) := by
    rw [← Nat.cast_succ, toInt_natCast (by omega)]
  rw [advanceEntry_eq, startp, moved, toUnsigned_natCast (by omega)]
  split
  next last => exact Or.inl ⟨last, rfl⟩
  next unmet =>
    refine Or.inr ⟨by omega, ?_⟩
    split
    · exact Or.inl rfl
    · exact Or.inr rfl

theorem Head.cases (head : Head buffer len index state) (copyStart startByteOfs : Nat) :
    ∃ made count, Looked len state made count ∧
      (copyStep buffer len copyStart startByteOfs state = .stop (state.recorded made count) ∨
        index + 1 = buffer.wAbs.toNat ∧ copyStep buffer len copyStart startByteOfs state =
          .stop ((state.recorded made count).movedOn state.full) ∨
        index + 1 < buffer.wAbs.toNat ∧
          (copyStep buffer len copyStart startByteOfs state =
              .stop ((state.recorded made count).movedOn false) ∨
            copyStep buffer len copyStart startByteOfs state =
              .next ((state.recorded made count).movedOn false))) := by
  obtain ⟨made, count, looked, stops | advances⟩ := copyStep_cases buffer copyStart startByteOfs
    head.lenBound (Nat.lt_of_le_of_lt head.readLen head.lenBound)
  · exact ⟨made, count, looked, Or.inl stops⟩
  · rw [advances]
    exact ⟨made, count, looked, Or.inr (head.advance made count)⟩

theorem Head.movedOn {made : List Access} {count : Nat} (head : Head buffer len index state)
    (looked : Looked len state made count) (more : index + 1 < buffer.wAbs.toNat) :
    Head buffer len (index + 1) ((state.recorded made count).movedOn false) := by
  have small := head.small
  have startp : (state.recorded made count).startp = index := head.startp
  exact ⟨CopyState.movedOn_startp startp (by omega) _, more, small, looked.within head.readLen,
    head.lenBound⟩

theorem Head.step (head : Head buffer len index state) (copyStart startByteOfs : Nat) :
    ∃ made, slotsRead made = [index % 10] ∧ .unset ∉ made ∧
      (copyStep buffer len copyStart startByteOfs state).state.accesses = state.accesses ++ made ∧
      (copyStep buffer len copyStart startByteOfs state).state.readLen ≤ len ∧
      (copyStep buffer len copyStart startByteOfs state).state.startp ≤ buffer.wAbs.toNat := by
  have below := head.below
  have small := head.small
  obtain ⟨made, count, looked, outcome⟩ := head.cases copyStart startByteOfs
  have slot := looked.slot
  have within := looked.within head.readLen
  have startp : (state.recorded made count).startp = index := head.startp
  have moved (full : Bool) :
      ((state.recorded made count).movedOn full).startp ≤ buffer.wAbs.toNat := by
    rw [CopyState.movedOn_startp startp (by omega)]
    omega
  rw [head.startp, toUnsigned_tmod_ten] at slot
  refine ⟨made, slot, looked.set, ?_⟩
  rcases outcome with stops | ⟨-, stops⟩ | ⟨-, stops | continues⟩
  · rw [stops]
    refine ⟨rfl, within, ?_⟩
    rw [Flow.state, startp]
    omega
  · rw [stops]
    exact ⟨rfl, within, moved _⟩
  · rw [stops]
    exact ⟨rfl, within, moved _⟩
  · rw [continues]
    exact ⟨rfl, within, moved _⟩

theorem Head.next {copyStart startByteOfs : Nat} {next : CopyState}
    (head : Head buffer len index state)
    (continues : copyStep buffer len copyStart startByteOfs state = .next next) :
    Head buffer len (index + 1) next := by
  obtain ⟨made, count, looked, stops | ⟨-, stops⟩ | ⟨more, stops | goesOn⟩⟩ :=
    head.cases copyStart startByteOfs
  · rw [stops] at continues
    cases continues
  · rw [stops] at continues
    cases continues
  · rw [stops] at continues
    cases continues
  · rw [goesOn] at continues
    cases continues
    exact head.movedOn looked more

/-! The whole loop. -/

theorem Iterates.head {copyStart startByteOfs : Nat} {start : CopyState}
    (head : Head buffer len index start)
    (iterates : Iterates buffer len copyStart startByteOfs start state) :
    ∃ reached, Head buffer len reached state := by
  induction iterates with
  | enter => exact ⟨index, head⟩
  | again _ continues ih =>
      obtain ⟨reached, here⟩ := ih
      exact ⟨reached + 1, here.next continues⟩

/-- The slots are those from `index` on, each taken once. -/
theorem Head.run (copyStart startByteOfs : Nat) : ∀ (fuel index : Nat) (state : CopyState),
    Head buffer len index state → buffer.wAbs.toNat ≤ index + fuel →
    ∃ final made count, copyFrom buffer len copyStart startByteOfs fuel state = some final ∧
      final.accesses = state.accesses ++ made ∧ .unset ∉ made ∧ count ≤ fuel ∧
      slotsRead made = (List.range' index count).map (· % 10) := by
  intro fuel
  induction fuel with
  | zero =>
      intro index state head enough
      have below := head.below
      omega
  | succ fuel ih =>
      intro index state head enough
      obtain ⟨made, slot, set, added, -⟩ := head.step copyStart startByteOfs
      rw [copyFrom]
      split
      next last stopped =>
        rw [stopped] at added
        exact ⟨last, made, 1, rfl, added, set, by omega, slot⟩
      next next continues =>
        rw [continues] at added
        obtain ⟨final, later, count, ended, accesses, unread, bound, slots⟩ :=
          ih (index + 1) next (head.next continues) (by omega)
        refine ⟨final, made ++ later, count + 1, ended, ?_, ?_, by omega, ?_⟩
        · rw [accesses, ← List.append_assoc, ← added, Flow.state]
        · simp [set, unread]
        · rw [slotsRead_append, slot, slots, List.range'_succ, List.map_cons, List.singleton_append]

theorem copyFrom_mono {copyStart startByteOfs : Nat} {final : CopyState} :
    ∀ {fuel : Nat} {state : CopyState},
      copyFrom buffer len copyStart startByteOfs fuel state = some final → ∀ {more : Nat},
        fuel ≤ more → copyFrom buffer len copyStart startByteOfs more state = some final := by
  intro fuel
  induction fuel with
  | zero => intro _ impossible; cases impossible
  | succ fuel ih =>
      intro state ended more within
      obtain ⟨more, rfl⟩ : ∃ rest, more = rest + 1 := ⟨more - 1, by omega⟩
      rw [copyFrom] at ended ⊢
      split at ended
      · exact ended
      · exact ih ended (by omega)

theorem nodup_slots {count : Nat} (few : count ≤ 10) (index : Nat) :
    ((List.range' index count).map (· % 10)).Nodup := by
  refine List.Nodup.map_on ?_ (List.nodup_range' 1)
  intro first one second other same
  have lower := List.mem_range'_1.mp one
  have upper := List.mem_range'_1.mp other
  omega

theorem Head.copyEnds (copyStart startByteOfs : Nat) (head : Head buffer len index state)
    (window : buffer.wAbs.toNat ≤ index + 10) :
    ∃ final, CopyEnds buffer len copyStart startByteOfs index state final := by
  obtain ⟨final, made, count, ended, accesses, set, bound, slots⟩ :=
    Head.run copyStart startByteOfs (buffer.wAbs.toNat - index) index state head (by omega)
  refine ⟨final, ended, ?_, ?_, made, accesses, ?_, set⟩
  · intro later iterates
    obtain ⟨reached, here⟩ := iterates.head head
    obtain ⟨-, -, -, -, -, startp⟩ := here.step copyStart startByteOfs
    exact startp
  · intro later iterates
    obtain ⟨reached, here⟩ := iterates.head head
    obtain ⟨-, -, -, -, readLen, -⟩ := here.step copyStart startByteOfs
    exact readLen
  · rw [slots]
    exact nodup_slots (by omega) index

/-! The lookup, and a whole read. -/

theorem slotRange_nodup (first count : Nat) : (slotRange first count).Nodup :=
  List.Nodup.map (fun _ _ same => Access.slot.inj same) (List.nodup_range' 1)

theorem Unwrapped.lookupEnds {commands : List Bytes} (unwrapped : Unwrapped buffer commands)
    {charOffset : Nat} (small : charOffset < 2 ^ 64) :
    ∃ (index : Nat) (startByteOfs : Option Nat) (visited : List Access),
      LookupEnds buffer charOffset ⟨index, startByteOfs, visited⟩ ∧
      buffer.startAbs.toNat ≤ index ∧ index ≤ buffer.wAbs.toNat ∧
      (index < buffer.wAbs.toNat → ∃ offset, startByteOfs = some offset) := by
  have steps : indexSteps = (2 ^ 32 - 1) + 1 := rfl
  have wAbs := unwrapped.wAbs
  have startAbs := unwrapped.startAbs
  by_cases empty : commands = []
  · subst commands
    have once : max 1 (buffer.wAbs.toNat - buffer.startAbs.toNat) = 0 + 1 := by
      rw [wAbs, startAbs]
      rfl
    refine ⟨0, some (toUnsigned 64 charOffset), [.slot 0],
      ⟨unwrapped.find_empty charOffset, ?_, ?_, ?_⟩, by omega, Nat.zero_le _, fun _ => ⟨_, rfl⟩⟩
    · rw [once]
      exact unwrapped.findIndex_empty charOffset 0
    · exact List.nodup_singleton _
    · exact SlotReads.cons (by omega) (by simp [SlotReads])
  · have index := locate_le (sizesOf (slotsOf commands)) charOffset
    rw [sizesOf_length, slotsOf_length] at index
    refine ⟨_, _, _, ⟨unwrapped.findIndex_within empty small (by rw [steps]; omega),
      unwrapped.findIndex_within empty small (by omega), slotRange_nodup _ _, slotReads_range ?_⟩,
      ?_, ?_, ?_⟩
    · rw [slotsOf_length]
      omega
    · omega
    · omega
    · intro before
      rw [if_pos (by rw [slotsOf_length]; omega)]
      exact ⟨_, rfl⟩

theorem SlotReads.unset {accesses : List Access} (reads : SlotReads accesses) :
    .unset ∉ accesses := by
  intro member
  obtain ⟨_, _, impossible⟩ := reads _ member
  cases impossible

theorem Unwrapped.head {commands : List Bytes} (unwrapped : Unwrapped buffer commands) {index : Nat}
    (before : index < buffer.wAbs.toNat) (len : UInt64) (copyStart : Nat) (visited : List Access) :
    Head (buffer.located index) len.toNat index (CopyState.enter buffer index copyStart visited) :=
  ⟨rfl, before, unwrapped.wAbs ▸ unwrapped.count, Nat.zero_le _, len.toNat_lt⟩

theorem Unwrapped.enters {commands : List Bytes} (unwrapped : Unwrapped buffer commands)
    {index : Nat} (lower : buffer.startAbs.toNat ≤ index) (before : index < buffer.wAbs.toNat)
    (len : UInt64) (copyStart startByteOfs : Nat) (visited : List Access) :
    ∃ final, CopyEnds (buffer.located index) len.toNat copyStart startByteOfs index
      (CopyState.enter buffer index copyStart visited) final := by
  have wAbs := unwrapped.wAbs
  have startAbs := unwrapped.startAbs
  have window : (buffer.located index).wAbs.toNat ≤ index + 10 := by
    change buffer.wAbs.toNat ≤ index + 10
    omega
  exact (unwrapped.head before len copyStart visited).copyEnds copyStart startByteOfs window

theorem CopyEnds.raed {resultBuf : Bytes} {len : UInt64} {fPos : Int} {offset : Nat}
    {visited : List Access} {final : CopyState}
    (ends : CopyEnds (buffer.located index) len.toNat (strlen resultBuf) offset index
      (CopyState.enter buffer index (strlen resultBuf) visited) final)
    (window : InWindow buffer fPos)
    (found : aesdCircularBufferFindEntryOffsetAndIndexForFpos buffer
      (toUnsigned 64 (fPos - buffer.startCharAbs.toNat)) = some ⟨index, some offset, visited⟩)
    (before : index < buffer.wAbs.toNat) :
    aesdCircularBufferRaed buffer resultBuf len fPos =
      some ⟨final.readLen, toLong (fPos + final.readLen),
        { buffer with outOffs := final.outOffs, full := final.full }, final.accesses⟩ := by
  have few : buffer.wAbs.toNat - index ≤ indexSteps := by
    have width := buffer.wAbs.toNat_lt
    rw [indexSteps]
    omega
  exact raed_of_entered window found before (copyFrom_mono ends.steps few)

theorem Unwrapped.readEnds {commands : List Bytes} (unwrapped : Unwrapped buffer commands)
    (resultBuf : Bytes) (len : UInt64) (fPos : Int) : ReadEnds buffer resultBuf len fPos := by
  obtain ⟨index, startByteOfs, visited, ends, lower, upper, set⟩ :=
    unwrapped.lookupEnds (toUnsigned_lt 64 (fPos - buffer.startCharAbs.toNat))
  by_cases before : index < buffer.wAbs.toNat
  · obtain ⟨offset, rfl⟩ := set before
    obtain ⟨final, copyEnds⟩ :=
      unwrapped.enters lower before len (strlen resultBuf) offset visited
    by_cases window : InWindow buffer fPos
    · have called := copyEnds.raed window ends.called before
      refine ⟨index, _, visited, _, ends, upper, called, ?_, fun _ =>
        ⟨offset, final, rfl, copyEnds, fun _ => ⟨rfl, rfl⟩⟩⟩
      obtain ⟨made, accesses, -, unset⟩ := copyEnds.once
      simp [accesses, CopyState.enter, unset, ends.slots.unset]
    · have called := raed_outside window resultBuf len
      exact ⟨index, _, visited, _, ends, upper, called, by simp, fun _ =>
        ⟨offset, final, rfl, copyEnds, fun inside => absurd inside window⟩⟩
  · obtain ⟨read, called⟩ := raed_ends buffer resultBuf len fPos
    refine ⟨index, startByteOfs, visited, read, ends, upper, called, ?_, fun early =>
      absurd early before⟩
    by_cases window : InWindow buffer fPos
    · rw [raed_of_past resultBuf len window ends.called (by omega)] at called
      cases called
      exact ends.slots.unset
    · rw [raed_outside window] at called
      cases called
      exact List.not_mem_nil

theorem runBuffer_readEnds (calls : List BufferCall) (nonempty : BufferCall.add [] ∉ calls)
    (noWrap : NoWrap (commandsOf (addedChunks calls))) (resultBuf : Bytes) (len : UInt64)
    (fPos : Int) :
    ∃ state, runBuffer calls = .ok state ∧ ReadEnds state.buffer resultBuf len fPos := by
  obtain ⟨state, ran, unwrapped⟩ := runBuffer_unwrapped nonempty noWrap
  exact ⟨state, ran, unwrapped.readEnds resultBuf len fPos⟩

-- byte 2 is found in the third byte of slot 0, and the copy starts in slot 1, which has one byte
def overrunCalls : List BufferCall := List.replicate 10 (.add [10]) ++ [.add [97, 97, 10]]

theorem runBuffer_readEnds_overrun :
    ∃ state, runBuffer overrunCalls = .ok state ∧ ReadEnds state.buffer [0, 0] 2 3 :=
  runBuffer_readEnds overrunCalls (by decide) ⟨by decide, by decide⟩ [0, 0] 2 3

end Aesd
