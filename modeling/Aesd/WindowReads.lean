import Aesd.ReadSpec

/-!
Reads of a buffer whose counters have not wrapped, at a position counted from
`start_char_abs`. The slot is found in array order; the bytes come in age order.
-/

namespace Aesd

open MachineInt Offsets

variable {buffer : CircularBuffer} {commands : List Bytes}

theorem Unwrapped.inWindow_iff (unwrapped : Unwrapped buffer commands) (fPos : Int) :
    InWindow buffer fPos ↔
      (chargedChars commands : Int) ≤ fPos ∧ fPos ≤ commands.flatten.length := by
  rw [InWindow, unwrapped.startCharAbs, unwrapped.wCharAbs]

theorem Unwrapped.inWindow (unwrapped : Unwrapped buffer commands) {position : Nat}
    (upper : chargedChars commands + position ≤ commands.flatten.length) :
    InWindow buffer (chargedChars commands + position : Nat) := by
  rw [unwrapped.inWindow_iff]
  omega

theorem Unwrapped.window_position (unwrapped : Unwrapped buffer commands) {fPos : Int}
    (window : InWindow buffer fPos) :
    ∃ position, fPos = (chargedChars commands + position : Nat) ∧
      chargedChars commands + position ≤ commands.flatten.length := by
  obtain ⟨lower, upper⟩ := (unwrapped.inWindow_iff fPos).mp window
  exact ⟨(fPos - chargedChars commands).toNat, by omega, by omega⟩

theorem Unwrapped.charOffset (unwrapped : Unwrapped buffer commands) {position : Nat}
    (upper : chargedChars commands + position ≤ commands.flatten.length) :
    toUnsigned 64 ((chargedChars commands + position : Nat) - buffer.startCharAbs.toNat) =
      position := by
  have chars := unwrapped.chars
  rw [unwrapped.startCharAbs, Nat.cast_add, add_sub_cancel_left,
    toUnsigned_natCast (by omega)]

theorem Unwrapped.cursor (unwrapped : Unwrapped buffer commands) {age : Nat}
    (bound : age ≤ (liveOf commands).length) :
    Cursor buffer (commands.length - 10 + age) ((liveOf commands).drop age) := by
  have count := unwrapped.count
  have chars := unwrapped.chars
  have live := liveChars_le commands
  have whole : Cursor buffer (commands.length - 10) (liveOf commands) := by
    refine ⟨fun offset inside => unwrapped.age inside, ?_, ?_, ?_⟩
    · intro piece member
      have part := List.Sublist.length_le (List.sublist_flatten_of_mem member)
      omega
    · rw [unwrapped.wAbs, liveOf_length]
      omega
    · rw [liveOf_length]
      omega
  exact whole.drop bound

theorem slots_flatten_length (commands : List Bytes) :
    (sizesOf (slotsOf commands)).sum = (liveOf commands).flatten.length := by
  rw [slots_sum, sizesOf_sum]

theorem Unwrapped.lookup_past (unwrapped : Unwrapped buffer commands) {position : Nat}
    (upper : chargedChars commands + position ≤ commands.flatten.length)
    (past : (liveOf commands).flatten.length ≤ position) :
    ∃ startByteOfs visited, SlotReads visited ∧
      aesdCircularBufferFindEntryOffsetAndIndexForFpos buffer (toUnsigned 64
          ((chargedChars commands + position : Nat) - buffer.startCharAbs.toNat)) =
        some ⟨(commands.length : Nat), startByteOfs, visited⟩ := by
  by_cases empty : commands = []
  · subst commands
    exact ⟨_, _, SlotReads.cons (by omega) (by simp [SlotReads]), unwrapped.find_empty _⟩
  · have chars := unwrapped.chars
    obtain ⟨visited, reads, found⟩ := unwrapped.findIndex empty position (by omega)
    have located : locate (sizesOf (slotsOf commands)) position =
        ((sizesOf (slotsOf commands)).length, position - (sizesOf (slotsOf commands)).sum) :=
      locate_of_sum_le (by rw [slots_flatten_length]; exact past)
    have last : commands.length - 10 + (sizesOf (slotsOf commands)).length = commands.length := by
      rw [sizesOf_length, slotsOf_length]
      omega
    rw [located, last, ← unwrapped.charOffset upper] at found
    exact ⟨_, visited, reads, found⟩

theorem Unwrapped.cleanRead_nil (unwrapped : Unwrapped buffer commands) {position : Nat}
    (upper : chargedChars commands + position ≤ commands.flatten.length)
    (past : (liveOf commands).flatten.length ≤ position) (len : UInt64) :
    CleanRead buffer len (chargedChars commands + position : Nat) [] := by
  obtain ⟨startByteOfs, visited, reads, found⟩ := unwrapped.lookup_past upper past
  exact cleanRead_of_past (unwrapped.inWindow upper) found reads unwrapped.wAbs.symm

/-- Inside the live bytes, the offset that was found in array order is used on the slot of
the same number in age order. -/
theorem Unwrapped.lookup (unwrapped : Unwrapped buffer commands) {position : Nat}
    (upper : chargedChars commands + position ≤ commands.flatten.length)
    (inside : position < (liveOf commands).flatten.length) :
    ∃ visited, SlotReads visited ∧
      (locate (sizesOf (slotsOf commands)) position).1 < (liveOf commands).length ∧
      aesdCircularBufferFindEntryOffsetAndIndexForFpos buffer (toUnsigned 64
          ((chargedChars commands + position : Nat) - buffer.startCharAbs.toNat)) =
        some ⟨(commands.length - 10 + (locate (sizesOf (slotsOf commands)) position).1 : Nat),
          some (locate (sizesOf (slotsOf commands)) position).2, visited⟩ := by
  have chars := unwrapped.chars
  have live := liveChars_le commands
  have present : commands ≠ [] := by
    intro empty
    simp [empty, liveOf] at inside
  rw [← slots_flatten_length] at inside
  obtain ⟨bound, -⟩ := locate_lt inside
  rw [sizesOf_length] at bound
  obtain ⟨visited, reads, found⟩ := unwrapped.findIndex present position (by omega)
  rw [if_pos bound] at found
  refine ⟨visited, reads, by simpa using bound, ?_⟩
  rw [unwrapped.charOffset upper]
  exact found

theorem Unwrapped.cleanRead (unwrapped : Unwrapped buffer commands) {position age offset : Nat}
    (upper : chargedChars commands + position ≤ commands.flatten.length)
    (inside : position < (liveOf commands).flatten.length)
    (located : locate (sizesOf (slotsOf commands)) position = (age, offset))
    (fits : offset ≤ (sizesOf (liveOf commands)).getD age 0) {len : UInt64}
    (asked : 0 < len.toNat) :
    CleanRead buffer len (chargedChars commands + position : Nat)
      ((((liveOf commands).drop age).flatten.drop offset).take len.toNat) := by
  obtain ⟨visited, reads, bound, found⟩ := unwrapped.lookup upper inside
  rw [located] at bound found
  have chars := unwrapped.chars
  have live := liveChars_le commands
  have part : ((liveOf commands).drop age).flatten.length ≤ (liveOf commands).flatten.length :=
    (List.drop_sublist age _).flatten.length_le
  have present : (liveOf commands).drop age ≠ [] := by
    intro none
    have := List.drop_eq_nil_iff.mp none
    omega
  refine cleanRead_of_found (unwrapped.inWindow upper) found reads
    (unwrapped.cursor (Nat.le_of_lt bound)) present ?_ asked (by omega)
  rw [sizesOf_getD bound] at fits
  simpa [List.head_drop] using fits

theorem Unwrapped.not_inBounds (unwrapped : Unwrapped buffer commands)
    {position age offset : Nat}
    (upper : chargedChars commands + position ≤ commands.flatten.length)
    (inside : position < (liveOf commands).flatten.length)
    (located : locate (sizesOf (slotsOf commands)) position = (age, offset))
    (misfits : (sizesOf (liveOf commands)).getD age 0 < offset) (len : UInt64) :
    ¬ InBounds buffer len (chargedChars commands + position : Nat) := by
  obtain ⟨visited, -, bound, found⟩ := unwrapped.lookup upper inside
  have position_eq := locate_position (sizesOf (slotsOf commands)) position
  rw [located] at bound found position_eq
  have chars := unwrapped.chars
  have live := liveChars_le commands
  have below : commands.length - 10 + age < buffer.wAbs.toNat := by
    rw [unwrapped.wAbs]
    rw [liveOf_length] at bound
    omega
  refine not_inBounds_of_found (unwrapped.inWindow upper) found below (unwrapped.age bound) ?_
    (by omega)
  rwa [sizesOf_getD bound] at misfits

theorem Unwrapped.outside (unwrapped : Unwrapped buffer commands) {fPos : Int}
    (outside : fPos < chargedChars commands ∨ (commands.flatten.length : Int) < fPos)
    (resultBuf : Bytes) (len : UInt64) :
    aesdCircularBufferRaed buffer resultBuf len fPos =
      some ⟨toUnsigned 64 (-1), fPos, buffer, []⟩ := by
  apply raed_outside
  rw [unwrapped.inWindow_iff]
  omega

end Aesd
