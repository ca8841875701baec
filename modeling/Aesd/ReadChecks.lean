import Aesd.HistoryChecks
import Aesd.WindowReads

/-!
When a read returns the right bytes. The lookup sums slot sizes in array order and the copy
goes on in age order, so a read is right when the two orders have the same sizes.
-/

namespace Aesd

open MachineInt Records Offsets

/-- Every read from a position that is still held returns the bytes at that position in the
concatenation of all commands. -/
def ExactReads (buffer : CircularBuffer) (commands : List Bytes) : Prop :=
  ∀ position, evictedChars commands ≤ position → position ≤ commands.flatten.length →
    ∀ len : UInt64, 0 < len.toNat →
      Delivers buffer len (position : Nat) ((commands.flatten.drop position).take len.toNat)

theorem drop_evicted (commands : List Bytes) (position : Nat) :
    commands.flatten.drop (evictedChars commands + position) =
      (liveOf commands).flatten.drop position := by
  have split : commands.flatten =
      (commands.take (commands.length - 10)).flatten ++ (liveOf commands).flatten := by
    rw [liveOf, ← List.flatten_append, List.take_append_drop]
  rw [split, evictedChars, List.drop_append, List.drop_eq_nil_of_le (Nat.le_add_right _ _)]
  simp

theorem Unwrapped.delivers_aligned {buffer : CircularBuffer} {commands : List Bytes}
    (unwrapped : Unwrapped buffer commands)
    (aligned : sizesOf (slotsOf commands) = sizesOf (liveOf commands)) {position : Nat}
    (upper : chargedChars commands + position ≤ commands.flatten.length) {len : UInt64}
    (asked : 0 < len.toNat) :
    Delivers buffer len (chargedChars commands + position : Nat)
      (((liveOf commands).flatten.drop position).take len.toNat) := by
  by_cases inside : position < (liveOf commands).flatten.length
  · have below : position < (sizesOf (liveOf commands)).sum := by rwa [sizesOf_sum]
    obtain ⟨bound, offset⟩ := locate_lt below
    have located : locate (sizesOf (slotsOf commands)) position =
        ((locate (sizesOf (liveOf commands)) position).1,
          (locate (sizesOf (liveOf commands)) position).2) := by rw [aligned]
    have fits : (locate (sizesOf (liveOf commands)) position).2 ≤
        (sizesOf (liveOf commands)).getD (locate (sizesOf (liveOf commands)) position).1 0 := by
      rw [List.getD_eq_getElem?_getD, List.getElem?_eq_getElem bound, Option.getD_some]
      exact Nat.le_of_lt offset
    rw [drop_flatten_locate]
    exact (unwrapped.cleanRead upper inside located fits asked).delivers
  · have past : (liveOf commands).flatten.length ≤ position := Nat.le_of_not_lt inside
    rw [List.drop_eq_nil_of_le past]
    simpa using (unwrapped.cleanRead_nil upper past len).delivers

theorem Unwrapped.not_delivers_outside {buffer : CircularBuffer} {commands : List Bytes}
    (unwrapped : Unwrapped buffer commands) {fPos : Int} {len : UInt64} {data : Bytes}
    (outside : fPos < chargedChars commands ∨ (commands.flatten.length : Int) < fPos)
    (short : data.length < 2 ^ 63) : ¬ Delivers buffer len fPos data := by
  rintro ⟨read, called, ret, -⟩
  rw [unwrapped.outside outside, Option.some.injEq] at called
  subst called
  have minus : toUnsigned 64 (-1) = 2 ^ 64 - 1 := rfl
  simp only [minus] at ret
  omega

theorem Unwrapped.start_of_exact {buffer : CircularBuffer} {commands : List Bytes}
    (unwrapped : Unwrapped buffer commands) (exactReads : ExactReads buffer commands)
    (present : commands ≠ []) : chargedChars commands = evictedChars commands := by
  have total := totalChars_eq commands
  have positive := liveOf_flatten_pos unwrapped.nonempty present
  have one : (1 : UInt64).toNat = 1 := rfl
  have first := exactReads (evictedChars commands) (Nat.le_refl _) (by omega) 1 (by decide)
  have lower : chargedChars commands ≤ evictedChars commands := by
    by_contra above
    refine unwrapped.not_delivers_outside (Or.inl (by omega)) ?_ first
    rw [one, List.length_take]
    omega
  have last := exactReads (commands.flatten.length - 1) (by omega) (by omega) 1 (by decide)
  by_contra different
  obtain ⟨position, end_⟩ : ∃ position, commands.flatten.length - 1 =
      chargedChars commands + position := Nat.exists_eq_add_of_le (by omega)
  rw [end_] at last
  have past := (unwrapped.cleanRead_nil (by omega : chargedChars commands + position ≤ _)
    (by omega) 1).delivers
  have nothing := congrArg List.length (last.unique past)
  simp only [one, List.length_take, List.length_drop, List.length_nil] at nothing
  omega

theorem Unwrapped.aligned_of_exact {buffer : CircularBuffer} {commands : List Bytes}
    (unwrapped : Unwrapped buffer commands) (exactReads : ExactReads buffer commands)
    (start : chargedChars commands = evictedChars commands) :
    sizesOf (slotsOf commands) = sizesOf (liveOf commands) := by
  have total := totalChars_eq commands
  have chars := unwrapped.chars
  have large : (4294967296 : UInt64).toNat = 2 ^ 32 := rfl
  apply eq_of_before_eq (by simp)
  intro age bound
  have live := length_flatten_drop (liveOf commands) age
  rcases Nat.lt_or_eq_of_le bound with below | last
  · have size : 0 < (sizesOf (slotsOf commands))[age] :=
      unwrapped.scan.positive _ (List.getElem_mem below)
    have next := before_succ below
    have sum := before_le_sum (sizesOf (slotsOf commands)) (age + 1)
    have located := locate_before_add below size
    rw [Nat.add_zero] at located
    rw [slots_flatten_length] at sum
    have delivered := (unwrapped.cleanRead (by omega) (by omega) located (Nat.zero_le _)
      (show 0 < (4294967296 : UInt64).toNat by decide)).delivers
    have expected := exactReads (evictedChars commands + before (sizesOf (slotsOf commands)) age)
      (by omega) (by omega) 4294967296 (by decide)
    rw [start] at delivered
    rw [drop_evicted] at expected
    have lengths := congrArg List.length (delivered.unique expected)
    simp only [large, List.length_take, List.length_drop] at lengths
    change _ = before ((liveOf commands).map List.length) age
    omega
  · rw [last, before_length, slots_sum]
    rw [show (sizesOf (slotsOf commands)).length = (sizesOf (liveOf commands)).length by simp,
      before_length]

/-- Reads are exact exactly when the window starts at the right byte and the slots have the
same sizes in array order and in age order. -/
theorem Unwrapped.exactReads_iff {buffer : CircularBuffer} {commands : List Bytes}
    (unwrapped : Unwrapped buffer commands) :
    ExactReads buffer commands ↔
      commandSize commands (commands.length - 10) = commandSize commands 0 ∧
        sizesOf (slotsOf commands) = sizesOf (liveOf commands) := by
  have count := unwrapped.count
  have charged : chargedChars commands + commandSize commands 0 =
      evictedChars commands + commandSize commands (commands.length - 10) :=
    charged_add_first (by omega)
  constructor
  · intro exactReads
    by_cases empty : commands = []
    · subst commands
      exact ⟨rfl, rfl⟩
    · have start := unwrapped.start_of_exact exactReads empty
      exact ⟨by omega, unwrapped.aligned_of_exact exactReads start⟩
  · rintro ⟨same, aligned⟩ position lower upper len asked
    have start : chargedChars commands = evictedChars commands := by omega
    obtain ⟨offset, rfl⟩ := Nat.exists_eq_add_of_le lower
    rw [drop_evicted]
    rw [← start] at upper ⊢
    exact unwrapped.delivers_aligned aligned upper asked

theorem runBuffer_unwrapped {calls : List BufferCall} (nonempty : BufferCall.add [] ∉ calls)
    (noWrap : NoWrap (commandsOf (addedChunks calls))) :
    ∃ state, runBuffer calls = .ok state ∧
      Unwrapped state.buffer (commandsOf (addedChunks calls)) := by
  have count := noWrap.count
  have chars := noWrap.chars
  obtain ⟨state, ran, holds⟩ := runBuffer_holds nonempty (by omega) (by omega)
  exact ⟨state, ran, holds, noWrap, collect_records_nonempty _ (addedChunks_nonempty nonempty)⟩

theorem runBuffer_exactReads_iff (calls : List BufferCall) (nonempty : BufferCall.add [] ∉ calls)
    (noWrap : NoWrap (commandsOf (addedChunks calls))) :
    ∃ state, runBuffer calls = .ok state ∧
      (ExactReads state.buffer (commandsOf (addedChunks calls)) ↔
        commandSize (commandsOf (addedChunks calls))
              ((commandsOf (addedChunks calls)).length - 10) =
            commandSize (commandsOf (addedChunks calls)) 0 ∧
          sizesOf (slotsOf (commandsOf (addedChunks calls))) =
            sizesOf (liveOf (commandsOf (addedChunks calls)))) := by
  obtain ⟨state, ran, unwrapped⟩ := runBuffer_unwrapped nonempty noWrap
  exact ⟨state, ran, unwrapped.exactReads_iff⟩

theorem runBuffer_exactReads_iff_unequal :
    ∃ state, runBuffer unequalCalls = .ok state ∧
      (ExactReads state.buffer (commandsOf (addedChunks unequalCalls)) ↔
        2 = 1 ∧ [1, 2, 1, 1, 1, 1, 1, 1, 1, 1] = [2, 1, 1, 1, 1, 1, 1, 1, 1, 1]) :=
  runBuffer_exactReads_iff unequalCalls (by decide) ⟨by decide, by decide⟩

theorem exactReads_fails_unequal :
    ∃ state, runBuffer unequalCalls = .ok state ∧
      evictedChars (commandsOf (addedChunks unequalCalls)) = 1 ∧
      (aesdCircularBufferRaed state.buffer [0] 1 1).map Raed.ret = some (2 ^ 64 - 1) ∧
      ¬ ExactReads state.buffer (commandsOf (addedChunks unequalCalls)) := by
  have evaluated : (runBuffer unequalCalls).toOption.map
      (fun state => (aesdCircularBufferRaed state.buffer [0] 1 1).map Raed.ret) =
        some (some (2 ^ 64 - 1)) := by
    decide +kernel
  obtain ⟨state, ran, refused⟩ := ok_of_toOption_map evaluated
  have evicted : evictedChars (commandsOf (addedChunks unequalCalls)) = 1 := by decide
  refine ⟨state, ran, evicted, refused, fun exactReads => ?_⟩
  obtain ⟨read, called, ret, -⟩ := exactReads 1 (by rw [evicted]) (by decide) 1 (by decide)
  have zeroed : List.replicate (1 : UInt64).toNat (0 : UInt8) = [0] := rfl
  rw [zeroed] at called
  rw [Nat.cast_one] at called
  rw [called, Option.map_some, Option.some.injEq, ret] at refused
  have short : (((commandsOf (addedChunks unequalCalls)).flatten.drop 1).take
      (1 : UInt64).toNat).length ≤ 1 := List.length_take_le _ _
  omega

end Aesd
