import Aesd.ReadChecks

/-!
The index that the lookup of a read returns, against the live commands in age order. The
loop picks its slots by their distance from `start_abs`, and a read maps the index back
modulo ten.
-/

namespace Aesd

open MachineInt Offsets

/-- The sizes of the live commands, oldest first: command `j` is in slot `j % 10`. -/
def liveSizes (buffer : CircularBuffer) : List Nat :=
  (List.range (buffer.wAbs.toNat - buffer.startAbs.toNat)).map fun age =>
    ((buffer.entry[(buffer.startAbs.toNat + age) % 10]?).getD emptyEntry).size

/-- The index is that of the live command that byte `charOffset` is in, with the offset in
it, or `w_abs` when there is no such byte. -/
structure FoundAt (buffer : CircularBuffer) (charOffset : Nat) (found : Found) : Prop where
  slots : SlotReads found.accesses
  inside : charOffset < (liveSizes buffer).sum →
    ∃ age < buffer.wAbs.toNat - buffer.startAbs.toNat,
      found.index = (buffer.startAbs.toNat + age : Nat) ∧
      before (liveSizes buffer) age ≤ charOffset ∧
      found.entryOffsetByte = some (charOffset - before (liveSizes buffer) age) ∧
      charOffset - before (liveSizes buffer) age < (liveSizes buffer).getD age 0
  past : (liveSizes buffer).sum ≤ charOffset → found.index = buffer.wAbs.toNat

def IndexLaw (buffer : CircularBuffer) (charOffset : UInt64) : Prop :=
  ∃ found, aesdCircularBufferFindEntryOffsetAndIndexForFpos buffer charOffset.toNat = some found ∧
    FoundAt buffer charOffset.toNat found

theorem Holds.liveSizes_eq {buffer : CircularBuffer} {commands : List Bytes}
    (holds : Holds buffer commands) : liveSizes buffer = sizesOf (liveOf commands) := by
  rw [liveSizes, holds.wAbs, holds.startAbs, holds.live_sum]

theorem Unwrapped.indexLaw_empty {buffer : CircularBuffer} (unwrapped : Unwrapped buffer [])
    (charOffset : UInt64) : IndexLaw buffer charOffset := by
  have none : liveSizes buffer = [] := unwrapped.liveSizes_eq
  have reads : SlotReads [.slot 0] := SlotReads.cons (by omega) (by simp [SlotReads])
  refine ⟨_, unwrapped.find_empty _, reads, ?_, ?_⟩
  · intro inside
    rw [none] at inside
    cases inside
  · intro _
    exact congrArg Nat.cast unwrapped.wAbs.symm

theorem Unwrapped.window_length {buffer : CircularBuffer} {commands : List Bytes}
    (unwrapped : Unwrapped buffer commands) :
    buffer.wAbs.toNat - buffer.startAbs.toNat = (sizesOf (liveOf commands)).length := by
  rw [unwrapped.wAbs, unwrapped.startAbs, sizesOf_length, liveOf_length]
  omega

theorem Unwrapped.indexLaw_iff_of_inside {buffer : CircularBuffer} {commands : List Bytes}
    (unwrapped : Unwrapped buffer commands) (present : commands ≠ []) (charOffset : UInt64)
    (inside : charOffset.toNat < (sizesOf (liveOf commands)).sum) :
    IndexLaw buffer charOffset ↔
      locate (sizesOf (slotsOf commands)) charOffset.toNat =
        locate (sizesOf (liveOf commands)) charOffset.toNat := by
  have live := unwrapped.liveSizes_eq
  have window := unwrapped.window_length
  obtain ⟨visited, reads, found⟩ :=
    unwrapped.findIndex present charOffset.toNat charOffset.toNat_lt
  obtain ⟨bound, -⟩ := locate_lt ((slots_sum commands).symm ▸ inside)
  rw [sizesOf_length] at bound
  rw [if_pos bound] at found
  constructor
  · rintro ⟨_, again, law⟩
    rw [found, Option.some.injEq] at again
    subst again
    obtain ⟨age, -, index, lower, offset, below⟩ := law.inside (live ▸ inside)
    rw [live] at lower offset below
    simp only [unwrapped.startAbs, Nat.cast_inj, Nat.add_left_cancel_iff] at index
    rw [eq_comm, locate_eq_iff inside, index, Option.some.inj offset]
    exact ⟨below, by omega⟩
  · intro same
    obtain ⟨below, position⟩ := (locate_eq_iff inside).mp same.symm
    obtain ⟨age, -⟩ := bound_of_lt_getD below
    refine ⟨_, found, reads, fun _ => ?_, fun past => absurd inside (live ▸ not_lt.mpr past)⟩
    rw [live, window, unwrapped.startAbs]
    refine ⟨_, age, rfl, by omega, ?_, by omega⟩
    rw [Option.some.injEq]
    omega

/-- Past the total both orders end at the same place, and the lookup returns `w_abs`. -/
theorem Unwrapped.indexLaw_iff_of_past {buffer : CircularBuffer} {commands : List Bytes}
    (unwrapped : Unwrapped buffer commands) (present : commands ≠ []) (charOffset : UInt64)
    (past : (sizesOf (liveOf commands)).sum ≤ charOffset.toNat) :
    IndexLaw buffer charOffset ↔
      locate (sizesOf (slotsOf commands)) charOffset.toNat =
        locate (sizesOf (liveOf commands)) charOffset.toNat := by
  have live := unwrapped.liveSizes_eq
  have total := slots_sum commands
  have located := locate_of_sum_le (total.symm ▸ past)
  obtain ⟨visited, reads, found⟩ :=
    unwrapped.findIndex present charOffset.toNat charOffset.toNat_lt
  rw [located] at found
  refine iff_of_true ⟨_, found, reads, fun below => absurd (live ▸ below) (not_lt.mpr past),
    fun _ => ?_⟩ ?_
  · rw [unwrapped.wAbs, sizesOf_length, slotsOf_length]
    dsimp only
    omega
  · rw [located, locate_of_sum_le past, total, sizesOf_length, sizesOf_length, slotsOf_length,
      liveOf_length]

/-- The byte is in the same command, at the same offset, whether the slots are laid end to end
or the live commands are. -/
theorem Unwrapped.indexLaw_iff {buffer : CircularBuffer} {commands : List Bytes}
    (unwrapped : Unwrapped buffer commands) (charOffset : UInt64) :
    IndexLaw buffer charOffset ↔
      locate (sizesOf (slotsOf commands)) charOffset.toNat =
        locate (sizesOf (liveOf commands)) charOffset.toNat := by
  by_cases empty : commands = []
  · subst commands
    exact iff_of_true (unwrapped.indexLaw_empty charOffset) rfl
  · by_cases inside : charOffset.toNat < (sizesOf (liveOf commands)).sum
    · exact unwrapped.indexLaw_iff_of_inside empty charOffset inside
    · exact unwrapped.indexLaw_iff_of_past empty charOffset (Nat.le_of_not_lt inside)

theorem runBuffer_indexLaw_iff (calls : List BufferCall) (nonempty : BufferCall.add [] ∉ calls)
    (noWrap : NoWrap (commandsOf (addedChunks calls))) (charOffset : UInt64) :
    ∃ state, runBuffer calls = .ok state ∧
      (IndexLaw state.buffer charOffset ↔
        locate (sizesOf (slotsOf (commandsOf (addedChunks calls)))) charOffset.toNat =
          locate (sizesOf (liveOf (commandsOf (addedChunks calls)))) charOffset.toNat) := by
  obtain ⟨state, ran, unwrapped⟩ := runBuffer_unwrapped nonempty noWrap
  exact ⟨state, ran, unwrapped.indexLaw_iff charOffset⟩

theorem runBuffer_indexLaw_iff_unequal :
    ∃ state, runBuffer unequalCalls = .ok state ∧
      (IndexLaw state.buffer 1 ↔
        locate [1, 2, 1, 1, 1, 1, 1, 1, 1, 1] 1 = locate [2, 1, 1, 1, 1, 1, 1, 1, 1, 1] 1) :=
  runBuffer_indexLaw_iff unequalCalls (by decide) ⟨by decide, by decide⟩ 1

/-- The oldest live command has two bytes, and byte 1 is looked up in the command after it. -/
theorem indexLaw_fails_unequal :
    ∃ state, runBuffer unequalCalls = .ok state ∧
      liveSizes state.buffer = [2, 1, 1, 1, 1, 1, 1, 1, 1, 1] ∧
      (aesdCircularBufferFindEntryOffsetAndIndexForFpos state.buffer 1).map
        (fun found => (found.index, found.entryOffsetByte)) = some (2, some 0) ∧
      state.buffer.startAbs = 1 ∧ ¬ IndexLaw state.buffer 1 := by
  have evaluated : (runBuffer unequalCalls).toOption.map (fun state =>
      (liveSizes state.buffer, state.buffer.startAbs,
        (aesdCircularBufferFindEntryOffsetAndIndexForFpos state.buffer 1).map
          fun found => (found.index, found.entryOffsetByte))) =
        some ([2, 1, 1, 1, 1, 1, 1, 1, 1, 1], 1, some (2, some 0)) := by
    decide +kernel
  obtain ⟨state, ran, seen⟩ := ok_of_toOption_map evaluated
  obtain ⟨sizes, rest⟩ := Prod.mk.inj seen
  obtain ⟨start, looked⟩ := Prod.mk.inj rest
  refine ⟨state, ran, sizes, looked, start, ?_⟩
  rintro ⟨found, called, law⟩
  have one : (1 : UInt64).toNat = 1 := rfl
  rw [one] at called law
  rw [called, Option.map_some, Option.some.injEq] at looked
  obtain ⟨index, offset⟩ := Prod.mk.inj looked
  obtain ⟨age, -, named, lower, -⟩ := law.inside (by rw [sizes]; decide)
  have first : (1 : UInt32).toNat = 1 := rfl
  rw [index, start, first] at named
  obtain rfl : age = 1 := by omega
  rw [sizes] at lower
  exact absurd lower (by decide)

end Aesd
