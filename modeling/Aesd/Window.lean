import Aesd.History
import Aesd.Offsets
import Mathlib.Data.List.Rotate

/-!
The live window of a history whose counters have not wrapped: which commands are live, in
which slots they are, and what the two byte counters have become.
-/

namespace Aesd

open SlotLog Offsets

def liveOf (commands : List Bytes) : List Bytes := commands.drop (commands.length - 10)

/-- The number of the command in slot `target` once `count` commands have been stored. -/
def slotIndex (count target : Nat) : Nat := count - 1 - (count - 1 - target) % 10

def slotsOf (commands : List Bytes) : List Bytes :=
  (List.range (min commands.length 10)).map fun target =>
    commands.getD (slotIndex commands.length target) []

def sizesOf (pieces : List Bytes) : List Nat := pieces.map List.length

def slotSizes (buffer : CircularBuffer) : List Nat := buffer.entry.toList.map (·.size)

def commandSize (commands : List Bytes) (index : Nat) : Nat := (commands.getD index []).length

def evictedChars (commands : List Bytes) : Nat :=
  (commands.take (commands.length - 10)).flatten.length

@[simp] theorem liveOf_length (commands : List Bytes) :
    (liveOf commands).length = min commands.length 10 := by
  simp only [liveOf, List.length_drop]
  omega

theorem liveOf_flatten_pos {commands : List Bytes}
    (nonempty : ∀ command ∈ commands, command ≠ []) (present : commands ≠ []) :
    0 < (liveOf commands).flatten.length := by
  have filled : 0 < commands.length := List.length_pos_iff.mpr present
  obtain ⟨first, member⟩ := List.exists_mem_of_length_pos
    (show 0 < (liveOf commands).length by rw [liveOf_length]; omega)
  have part := List.Sublist.length_le (List.sublist_flatten_of_mem member)
  have size := List.length_pos_iff.mpr (nonempty first (List.mem_of_mem_drop member))
  omega

@[simp] theorem slotsOf_length (commands : List Bytes) :
    (slotsOf commands).length = min commands.length 10 := by
  simp [slotsOf]

@[simp] theorem sizesOf_length (pieces : List Bytes) : (sizesOf pieces).length = pieces.length :=
  List.length_map _

theorem sizesOf_getD {pieces : List Bytes} {index : Nat} (bound : index < pieces.length) :
    (sizesOf pieces).getD index 0 = pieces[index].length := by
  simp [sizesOf, List.getElem?_eq_getElem bound]

theorem sizesOf_sum (pieces : List Bytes) : (sizesOf pieces).sum = pieces.flatten.length := by
  simp [sizesOf, List.length_flatten]

theorem slotSizes_getD {buffer : CircularBuffer} {slot : Nat} {entry : BufferEntry}
    (found : buffer.entry[slot]? = some entry) : (slotSizes buffer).getD slot 0 = entry.size := by
  have listed : buffer.entry.toList[slot]? = some entry := by
    rw [Vector.getElem?_toList, found]
  rw [slotSizes, List.getD_eq_getElem?_getD, List.getElem?_map, listed]
  rfl

theorem slotIndex_lt {count target : Nat} (bound : target < min count 10) :
    slotIndex count target < count := by
  unfold slotIndex
  omega

theorem slotIndex_recent (count target : Nat) : count ≤ slotIndex count target + 10 := by
  unfold slotIndex
  omega

theorem slotIndex_mod {count target : Nat} (bound : target < min count 10) :
    slotIndex count target % 10 = target := by
  unfold slotIndex
  omega

theorem liveOf_eq_rotate (commands : List Bytes) :
    liveOf commands = (slotsOf commands).rotate ((commands.length - 10) % 10) := by
  apply List.ext_getElem
  · simp
  · intro age below _
    simp only [liveOf_length] at below
    simp only [liveOf, List.getElem_drop, List.getElem_rotate, slotsOf, List.getElem_map,
      List.getElem_range, List.length_map, List.length_range]
    have index : slotIndex commands.length
        ((age + (commands.length - 10) % 10) % min commands.length 10) =
          commands.length - 10 + age := by
      unfold slotIndex
      by_cases few : commands.length ≤ 10
      · have none : commands.length - 10 = 0 := by omega
        have same : age % commands.length = age := Nat.mod_eq_of_lt (by omega)
        rw [none, Nat.min_eq_left few, Nat.zero_mod, Nat.add_zero, same]
        omega
      · rw [Nat.min_eq_right (by omega)]
        omega
    have inside : commands.length - 10 + age < commands.length := by omega
    rw [index, List.getD_eq_getElem?_getD, List.getElem?_eq_getElem inside, Option.getD_some]

theorem slots_sum (commands : List Bytes) :
    (sizesOf (slotsOf commands)).sum = (sizesOf (liveOf commands)).sum := by
  rw [liveOf_eq_rotate]
  exact ((List.rotate_perm (slotsOf commands) _).map List.length).sum_eq.symm

theorem totalChars_eq (commands : List Bytes) :
    commands.flatten.length = evictedChars commands + (liveOf commands).flatten.length := by
  rw [evictedChars, liveOf, ← List.length_append, ← List.flatten_append, List.take_append_drop]

theorem slotEntry_of_unbroken {commands : List Bytes}
    (unbroken : commands.length ≤ 10 ∨ 10 ≤ commands.length % 2 ^ 32) {index : Nat}
    (bound : index < commands.length) (recent : commands.length ≤ index + 10) :
    slotEntry commands (commandSlot index) = ⟨.block commands[index], commands[index].length⟩ := by
  have same : index / 2 ^ 32 = (commands.length - 1) / 2 ^ 32 := by omega
  have found : lastIndex commandSlot commands.length (commandSlot index) = some index :=
    lastIndex_wrapped bound recent same
  simp [slotEntry, found, bound]

theorem slotEntry_of_recent {commands : List Bytes} {index : Nat}
    (unwrapped : commands.length ≤ 2 ^ 32) (bound : index < commands.length)
    (recent : commands.length ≤ index + 10) :
    slotEntry commands (index % 10) = ⟨.block commands[index], commands[index].length⟩ := by
  have slot : commandSlot index = index % 10 := wrappedSlot_of_lt (by omega)
  have found : lastIndex commandSlot commands.length (index % 10) = some index := by
    rw [← slot]
    refine lastIndex_wrapped bound recent ?_
    rw [Nat.div_eq_of_lt (by omega), Nat.div_eq_of_lt (by omega)]
  simp [slotEntry, found, bound]

theorem slotEntry_unused {commands : List Bytes} {target : Nat} (few : commands.length ≤ target)
    (slot : target < 10) : slotEntry commands target = emptyEntry := by
  have unused : ∀ index < commands.length, commandSlot index ≠ target := by
    intro index bound
    rw [commandSlot, wrappedSlot_of_lt (by omega)]
    omega
  rw [slotEntry, lastIndex_eq_none commandSlot unused]

/-- Without wrapping, every eviction charges the size of the command after the evicted one. -/
theorem chargedChars_eq {commands : List Bytes} (unwrapped : commands.length ≤ 2 ^ 32) :
    chargedChars commands = (commands.tail.take (commands.length - 10)).flatten.length := by
  have charged : ∀ evicted ∈ List.range (commands.length - 10),
      (slotEntry (commands.take (evicted + 11)) (commandSlot (evicted + 1))).size =
        (commands.getD (evicted + 1) []).length := by
    intro evicted member
    have bound := List.mem_range.mp member
    have size : (commands.take (evicted + 11)).length = evicted + 11 := by
      rw [List.length_take]
      omega
    have slot : commandSlot (evicted + 1) = (evicted + 1) % 10 := wrappedSlot_of_lt (by omega)
    rw [slot, slotEntry_of_recent (by omega) (by omega) (by omega)]
    simp [show evicted + 1 < commands.length by omega]
  have taken : commands.tail.take (commands.length - 10) =
      (List.range (commands.length - 10)).map fun evicted => commands.getD (evicted + 1) [] := by
    apply List.ext_getElem
    · simp only [List.length_take, List.length_tail, List.length_map, List.length_range]
      omega
    · intro evicted below _
      simp only [List.length_take, List.length_tail] at below
      simp [show evicted + 1 < commands.length by omega]
  rw [chargedChars, List.map_congr_left charged, taken, List.length_flatten, List.map_map]
  rfl

/-- The byte counter of the window start is off by the difference between the oldest live
command and the first command ever stored. -/
theorem charged_add_first {commands : List Bytes} (unwrapped : commands.length ≤ 2 ^ 32) :
    chargedChars commands + commandSize commands 0 =
      evictedChars commands + commandSize commands (commands.length - 10) := by
  rw [chargedChars_eq unwrapped, evictedChars]
  cases commands with
  | nil => rfl
  | cons first later =>
      have inside : (first :: later).length - 10 < (first :: later).length := by
        simp only [List.length_cons]
        omega
      generalize (first :: later).length - 10 = oldest at inside ⊢
      have head : commandSize (first :: later) 0 = first.length := rfl
      have split : (first :: later).take (oldest + 1) =
          (first :: later).take oldest ++ [(first :: later)[oldest]] :=
        List.take_succ_eq_append_getElem inside
      have sizes := congrArg (fun pieces : List Bytes => pieces.flatten.length) split
      simp only [List.take_succ_cons, List.flatten_cons, List.length_append, List.flatten_append,
        List.flatten_nil, List.append_nil] at sizes
      rw [head]
      simp only [commandSize, List.tail_cons, List.getD_eq_getElem?_getD,
        List.getElem?_eq_getElem inside, Option.getD_some]
      omega

/-! What the fields of a buffer are worth while no counter has wrapped. -/

/-- Fewer than 2^31 commands and fewer than 2^31 bytes have been committed. -/
structure NoWrap (commands : List Bytes) : Prop where
  count : commands.length < 2 ^ 31
  chars : commands.flatten.length < 2 ^ 31

theorem chargedChars_le {commands : List Bytes} (unwrapped : commands.length ≤ 2 ^ 32) :
    chargedChars commands ≤ commands.flatten.length := by
  have split : commands.tail.flatten.length =
      (commands.tail.take (commands.length - 10)).flatten.length +
        (commands.tail.drop (commands.length - 10)).flatten.length := by
    rw [← List.length_append, ← List.flatten_append, List.take_append_drop]
  have tail : commands.tail.flatten.length ≤ commands.flatten.length := by
    cases commands <;> simp
  rw [chargedChars_eq unwrapped]
  omega

theorem toNat_ofNat {value : Nat} (bound : value < 2 ^ 32) : (UInt32.ofNat value).toNat = value := by
  rw [UInt32.toNat_ofNat', Nat.mod_eq_of_lt bound]

structure Holds (buffer : CircularBuffer) (commands : List Bytes) : Prop where
  wAbs : buffer.wAbs.toNat = commands.length
  startAbs : buffer.startAbs.toNat = commands.length - 10
  wCharAbs : buffer.wCharAbs.toNat = commands.flatten.length
  startCharAbs : buffer.startCharAbs.toNat = chargedChars commands
  live : ∀ index (bound : index < commands.length), commands.length ≤ index + 10 →
    buffer.entry[index % 10]? = some ⟨.block commands[index], commands[index].length⟩
  unused : ∀ target, commands.length ≤ target → target < 10 →
    buffer.entry[target]? = some emptyEntry

theorem Represents.holds {state : BufferState} {commands : List Bytes} {pending : Bytes}
    (represents : Represents state commands pending) (count : commands.length < 2 ^ 32)
    (chars : commands.flatten.length < 2 ^ 32) : Holds state.buffer commands where
  wAbs := by rw [represents.wAbs, toNat_ofNat count]
  startAbs := by rw [represents.startAbs, toNat_ofNat (by omega)]
  wCharAbs := by rw [represents.wCharAbs, toNat_ofNat chars]
  startCharAbs := by
    have bound : chargedChars commands ≤ _ := chargedChars_le (by omega)
    rw [represents.startCharAbs, toNat_ofNat (by omega)]
  live := by
    intro index bound recent
    rw [represents.entry _ (by omega), slotEntry_of_recent (by omega) bound recent]
  unused := by
    intro target few slot
    rw [represents.entry _ slot, slotEntry_unused few slot]

theorem Holds.slot {buffer : CircularBuffer} {commands : List Bytes} (holds : Holds buffer commands)
    {target : Nat} (bound : target < (slotsOf commands).length) :
    buffer.entry[target]? =
      some ⟨.block (slotsOf commands)[target], (slotsOf commands)[target].length⟩ := by
  have inside : target < min commands.length 10 := by simpa using bound
  have found := holds.live _ (slotIndex_lt inside) (slotIndex_recent _ _)
  rw [slotIndex_mod inside] at found
  simpa [slotsOf, slotIndex_lt inside] using found

theorem Holds.age {buffer : CircularBuffer} {commands : List Bytes} (holds : Holds buffer commands)
    {age : Nat} (bound : age < (liveOf commands).length) :
    buffer.entry[(commands.length - 10 + age) % 10]? =
      some ⟨.block (liveOf commands)[age], (liveOf commands)[age].length⟩ := by
  have inside : age < min commands.length 10 := by simpa using bound
  have found := holds.live (commands.length - 10 + age) (by omega) (by omega)
  simpa [liveOf] using found

/-- What every read relies on: the fields are worth the history, and no command is empty. -/
structure Unwrapped (buffer : CircularBuffer) (commands : List Bytes) : Prop extends
    Holds buffer commands, NoWrap commands where
  nonempty : ∀ command ∈ commands, command ≠ []

theorem liveChars_le (commands : List Bytes) :
    (liveOf commands).flatten.length ≤ commands.flatten.length := by
  have total := totalChars_eq commands
  omega

end Aesd
