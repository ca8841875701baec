import Aesd.ReadTotal
import Aesd.Window

/-!
What the lookup of a read computes while no counter has wrapped: the slot, in array order,
that a position falls in.
-/

namespace Aesd

open MachineInt Offsets

/-- A lookup touches slots inside the array and nothing else. -/
def SlotReads (accesses : List Access) : Prop := ∀ access ∈ accesses, ∃ index < 10, access = .slot index

theorem SlotReads.cons {index : Nat} {accesses : List Access} (bound : index < 10)
    (rest : SlotReads accesses) : SlotReads (.slot index :: accesses) := by
  intro access member
  rcases List.mem_cons.mp member with rfl | later
  · exact ⟨index, bound, rfl⟩
  · exact rest access later

def slotRange (first count : Nat) : List Access := (List.range' first count).map .slot

theorem slotRange_succ (first count : Nat) :
    slotRange first (count + 1) = .slot first :: slotRange (first + 1) count := by
  rw [slotRange, List.range'_succ, List.map_cons, slotRange]

theorem slotReads_range {first count : Nat} (bound : first + count ≤ 10) :
    SlotReads (slotRange first count) := by
  intro access member
  obtain ⟨index, inside, rfl⟩ := List.mem_map.mp member
  have upper := (List.mem_range'_1.mp inside).2
  exact ⟨index, by omega, rfl⟩

/-- The slots from `first` on have the given sizes, and with the last of them the index
meets `w_abs`. -/
structure Scan (buffer : CircularBuffer) (first : Nat) (sizes : List Nat) : Prop where
  entry : ∀ offset (bound : offset < sizes.length), ∃ entry,
    buffer.entry[first + offset]? = some entry ∧ entry.size = sizes[offset]
  positive : ∀ size ∈ sizes, 0 < size
  last : buffer.startAbs.toNat + first + sizes.length = buffer.wAbs.toNat
  bound : buffer.wAbs.toNat < 2 ^ 31

theorem Scan.tail {buffer : CircularBuffer} {first size : Nat} {sizes : List Nat}
    (scan : Scan buffer first (size :: sizes)) : Scan buffer (first + 1) sizes where
  entry := by
    intro offset bound
    have found := scan.entry (offset + 1) (by simpa using bound)
    simpa [Nat.add_assoc, Nat.add_comm 1 offset] using found
  positive := fun other member => scan.positive other (List.mem_cons_of_mem _ member)
  last := by
    have last := scan.last
    simp only [List.length_cons] at last
    omega
  bound := scan.bound

theorem getElem?_slot_lt {buffer : CircularBuffer} {slot : Nat} {entry : BufferEntry}
    (found : buffer.entry[slot]? = some entry) : slot < 10 := by
  by_contra outside
  rw [Vector.getElem?_eq_none (by omega)] at found
  cases found

theorem findIndexFrom_step {buffer : CircularBuffer} {first size total position fuel : Nat}
    {accesses : List Access} {entry : BufferEntry} (found : buffer.entry[first]? = some entry)
    (entrySize : entry.size = size) (positive : 0 < size) (bytes : total + size < 2 ^ 31)
    (far : position < 2 ^ 64) (indexBound : buffer.startAbs.toNat + first + 1 < 2 ^ 31) :
    findIndexFrom buffer (total + position) (fuel + 1) (buffer.startAbs.toNat + first : Nat) total
        accesses =
      if position < size then
        some ⟨(buffer.startAbs.toNat + first : Nat), some position, accesses ++ [.slot first]⟩
      else if buffer.wAbs.toNat ≤ buffer.startAbs.toNat + first + 1 then
        some ⟨(buffer.startAbs.toNat + first + 1 : Nat), none, accesses ++ [.slot first]⟩
      else
        findIndexFrom buffer (total + position) fuel (buffer.startAbs.toNat + first + 1 : Nat)
          (total + size : Nat) (accesses ++ [.slot first]) := by
  have slotBound := getElem?_slot_lt found
  have slot : toUnsigned 32
      (((buffer.startAbs.toNat + first : Nat) : Int) - buffer.startAbs.toNat) = first := by
    rw [show ((buffer.startAbs.toNat + first : Nat) : Int) - buffer.startAbs.toNat =
      (first : Int) by omega, toUnsigned_natCast (by omega)]
  have nextTotal : toUnsigned 64 ((total : Int) + size) = total + size := by
    rw [← Nat.cast_add, toUnsigned_natCast (by omega)]
  have offset : toUnsigned 64 (((total + position : Nat) : Int) - total) = position := by
    rw [show ((total + position : Nat) : Int) - total = (position : Int) by omega,
      toUnsigned_natCast (by omega)]
  have next : toInt (((buffer.startAbs.toNat + first : Nat) : Int) + 1) =
      (buffer.startAbs.toNat + first + 1 : Nat) := by
    rw [← Nat.cast_succ, toInt_natCast indexBound]
  have unsignedNext : toUnsigned 32 ((buffer.startAbs.toNat + first + 1 : Nat) : Int) =
      buffer.startAbs.toNat + first + 1 := toUnsigned_natCast (by omega)
  have carried : toInt ((total : Int) + size) = (total + size : Nat) := by
    rw [← Nat.cast_add, toInt_natCast bytes]
  have condition : (total + position < total + size ∨ size = 0) ↔ position < size := by
    rw [Nat.add_lt_add_iff_left, or_iff_left (Nat.ne_of_gt positive)]
  simp only [findIndexFrom, slot, found, entrySize, nextTotal, offset, next, unsignedNext, carried,
    condition]

/-- The loop walks the slots in array order until the position is inside one of them. -/
theorem findIndexFrom_eq {buffer : CircularBuffer} :
    ∀ (sizes : List Nat) (fuel first total position : Nat) (accesses : List Access),
      position < 2 ^ 64 → Scan buffer first sizes → sizes ≠ [] → sizes.length ≤ fuel →
      total + sizes.sum < 2 ^ 31 →
      findIndexFrom buffer (total + position) fuel (buffer.startAbs.toNat + first : Nat) total
          accesses =
        some ⟨(buffer.startAbs.toNat + first + (locate sizes position).1 : Nat),
          if (locate sizes position).1 < sizes.length then some (locate sizes position).2
          else none,
          accesses ++ slotRange first (min ((locate sizes position).1 + 1) sizes.length)⟩ := by
  intro sizes
  induction sizes with
  | nil => intro _ _ _ _ _ _ _ nonempty; exact absurd rfl nonempty
  | cons size sizes ih =>
      intro fuel first total position accesses far scan _ enough bytes
      obtain ⟨entry, found, entrySize⟩ := scan.entry 0 (by simp)
      rw [Nat.add_zero] at found
      have last := scan.last
      have indexBound := scan.bound
      simp only [List.length_cons] at last enough
      simp only [List.sum_cons] at bytes
      obtain ⟨fuel, rfl⟩ : ∃ rest, fuel = rest + 1 := ⟨fuel - 1, by omega⟩
      have sizeOk : entry.size = size := by simpa using entrySize
      have one : slotRange first 1 = [.slot first] := rfl
      rw [findIndexFrom_step found sizeOk (scan.positive size (by simp)) (by omega) far
        (by omega)]
      by_cases inside : position < size
      · rw [if_pos inside, locate, if_pos inside, List.length_cons, Nat.zero_add,
          Nat.min_eq_left (by omega), if_pos (by omega), one]
        rfl
      · simp only [locate, if_neg inside, List.length_cons]
        by_cases ended : sizes = []
        · subst sizes
          simp only [List.length_nil] at last
          rw [if_pos (by omega)]
          simp [locate, one, Nat.add_assoc]
        · have more : 0 < sizes.length := List.length_pos_iff.mpr ended
          rw [if_neg (by omega)]
          have rest := ih fuel (first + 1) (total + size) (position - size)
            (accesses ++ [.slot first]) (by omega) scan.tail ended (by omega) (by omega)
          have sought : total + size + (position - size) = total + position := by omega
          have index : buffer.startAbs.toNat + (first + 1) + (locate sizes (position - size)).1 =
              buffer.startAbs.toNat + first + ((locate sizes (position - size)).1 + 1) := by omega
          rw [sought, index, ← Nat.add_assoc buffer.startAbs.toNat first 1] at rest
          rw [rest, Nat.add_min_add_right, slotRange_succ]
          simp

theorem Unwrapped.scan {buffer : CircularBuffer} {commands : List Bytes}
    (unwrapped : Unwrapped buffer commands) :
    Scan buffer 0 (sizesOf (slotsOf commands)) where
  entry := by
    intro offset bound
    have inside : offset < (slotsOf commands).length := by simpa using bound
    exact ⟨_, by rw [Nat.zero_add]; exact unwrapped.slot inside, by simp [sizesOf]⟩
  positive := by
    intro size member
    simp only [sizesOf, slotsOf, List.mem_map, List.mem_range] at member
    obtain ⟨_, ⟨target, bound, rfl⟩, rfl⟩ := member
    have inside := slotIndex_lt bound
    apply List.length_pos_iff.mpr
    rw [List.getD_eq_getElem?_getD, List.getElem?_eq_getElem inside, Option.getD_some]
    exact unwrapped.nonempty _ (List.getElem_mem inside)
  last := by
    rw [unwrapped.startAbs, unwrapped.wAbs, sizesOf_length, slotsOf_length]
    omega
  bound := by
    rw [unwrapped.wAbs]
    exact unwrapped.count

theorem Unwrapped.findIndex_within {buffer : CircularBuffer} {commands : List Bytes}
    (unwrapped : Unwrapped buffer commands) (present : commands ≠ []) {position : Nat}
    (small : position < 2 ^ 64) {fuel : Nat} (enough : min commands.length 10 ≤ fuel) :
    findIndexFrom buffer position fuel (toInt buffer.startAbs.toNat) 0 [] =
      some ⟨(commands.length - 10 + (locate (sizesOf (slotsOf commands)) position).1 : Nat),
        if (locate (sizesOf (slotsOf commands)) position).1 < (slotsOf commands).length then
          some (locate (sizesOf (slotsOf commands)) position).2
        else none,
        slotRange 0 (min ((locate (sizesOf (slotsOf commands)) position).1 + 1)
          (slotsOf commands).length)⟩ := by
  have filled : 0 < commands.length := List.length_pos_iff.mpr present
  have length : (sizesOf (slotsOf commands)).length = min commands.length 10 := by simp
  have used : sizesOf (slotsOf commands) ≠ [] := List.length_pos_iff.mp (by omega)
  have bytes : (sizesOf (slotsOf commands)).sum < 2 ^ 31 := by
    have whole := totalChars_eq commands
    have chars := unwrapped.chars
    rw [slots_sum, sizesOf_sum]
    omega
  have found := findIndexFrom_eq _ fuel 0 0 position [] small unwrapped.scan used
    (by rw [length]; exact enough) (by omega)
  have start : toInt buffer.startAbs.toNat = (buffer.startAbs.toNat + 0 : Nat) := by
    have count := unwrapped.count
    rw [Nat.add_zero, toInt_natCast (by rw [unwrapped.startAbs]; omega)]
  rw [start]
  rw [Nat.zero_add] at found
  simpa [unwrapped.startAbs] using found

theorem Unwrapped.findIndex_empty {buffer : CircularBuffer} (unwrapped : Unwrapped buffer [])
    (position fuel : Nat) :
    findIndexFrom buffer position (fuel + 1) (toInt buffer.startAbs.toNat) 0 [] =
      some ⟨(0 : Nat), some (toUnsigned 64 position), [.slot 0]⟩ := by
  have unused : buffer.entry[0]? = some emptyEntry := unwrapped.unused 0 (by simp) (by omega)
  have start : buffer.startAbs.toNat = 0 := unwrapped.startAbs
  have slot : toUnsigned 32 (toInt ((0 : Nat) : Int) - ((0 : Nat) : Int)) = 0 := rfl
  rw [findIndexFrom, start]
  simp only [slot, unused, emptyEntry, or_true, if_true, Int.sub_zero]
  rfl

theorem Unwrapped.find_empty {buffer : CircularBuffer} (unwrapped : Unwrapped buffer [])
    (position : Nat) :
    aesdCircularBufferFindEntryOffsetAndIndexForFpos buffer position =
      some ⟨(0 : Nat), some (toUnsigned 64 position), [.slot 0]⟩ := by
  have steps : indexSteps = (2 ^ 32 - 1) + 1 := rfl
  rw [aesdCircularBufferFindEntryOffsetAndIndexForFpos, steps]
  exact unwrapped.findIndex_empty position _

theorem Unwrapped.findIndex {buffer : CircularBuffer} {commands : List Bytes}
    (unwrapped : Unwrapped buffer commands) (present : commands ≠ []) (position : Nat)
    (small : position < 2 ^ 64) :
    ∃ visited, SlotReads visited ∧
      aesdCircularBufferFindEntryOffsetAndIndexForFpos buffer position =
        some ⟨(commands.length - 10 + (locate (sizesOf (slotsOf commands)) position).1 : Nat),
          if (locate (sizesOf (slotsOf commands)) position).1 < (slotsOf commands).length then
            some (locate (sizesOf (slotsOf commands)) position).2
          else none, visited⟩ := by
  have enough : min commands.length 10 ≤ indexSteps := by
    rw [indexSteps]
    omega
  refine ⟨_, slotReads_range ?_, unwrapped.findIndex_within present small enough⟩
  rw [slotsOf_length]
  omega

end Aesd
