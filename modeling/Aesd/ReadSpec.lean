import Aesd.LookupSpec
import Aesd.CopySpec

/-!
What a read returns. The lookup finds its slot in array order and the copy loop starts in
age order, so the result depends on how the two orders meet.
-/

namespace Aesd

open MachineInt Offsets

/-- A read of `len` bytes at `fPos` into a zeroed result buffer returns the size of `data`,
leaves `data` at the front of the buffer and moves `f_pos` past it. -/
def Delivers (buffer : CircularBuffer) (len : UInt64) (fPos : Int) (data : Bytes) : Prop :=
  ∃ read, aesdCircularBufferRaed buffer (List.replicate len.toNat 0) len fPos = some read ∧
    read.ret = data.length ∧ read.fPos = fPos + data.length ∧
    read.result buffer (List.replicate len.toNat 0) =
      some (data ++ List.replicate (len.toNat - data.length) 0)

def InBounds (buffer : CircularBuffer) (len : UInt64) (fPos : Int) : Prop :=
  ∃ read, aesdCircularBufferRaed buffer (List.replicate len.toNat 0) len fPos = some read ∧
    read.accesses.all (Access.inBounds buffer len.toNat) = true

/-- In addition, `remain_in_entry` is never negative. -/
def StaysInside (buffer : CircularBuffer) (len : UInt64) (fPos : Int) : Prop :=
  ∃ read, aesdCircularBufferRaed buffer (List.replicate len.toNat 0) len fPos = some read ∧
    read.accesses.all (Access.inBounds buffer len.toNat) = true ∧
    read.accesses.all Access.remains = true

theorem StaysInside.inBounds {buffer : CircularBuffer} {len : UInt64} {fPos : Int}
    (stays : StaysInside buffer len fPos) : InBounds buffer len fPos := by
  obtain ⟨read, called, inBounds, -⟩ := stays
  exact ⟨read, called, inBounds⟩

structure CleanRead (buffer : CircularBuffer) (len : UInt64) (fPos : Int) (data : Bytes) :
    Prop where
  delivers : Delivers buffer len fPos data
  staysInside : StaysInside buffer len fPos

theorem Delivers.unique {buffer : CircularBuffer} {len : UInt64} {fPos : Int}
    {first second : Bytes} (one : Delivers buffer len fPos first)
    (other : Delivers buffer len fPos second) : first = second := by
  obtain ⟨read, called, firstRet, -, firstResult⟩ := one
  obtain ⟨_, again, secondRet, -, secondResult⟩ := other
  rw [called, Option.some.injEq] at again
  subst again
  rw [firstResult, Option.some.injEq] at secondResult
  exact (List.append_inj secondResult (firstRet.symm.trans secondRet)).1

theorem strlen_zeros (count : Nat) : strlen (List.replicate count 0) = 0 := by
  cases count <;> simp [strlen, List.replicate_succ]

theorem SlotReads.inBounds {accesses : List Access} (reads : SlotReads accesses)
    (buffer : CircularBuffer) (len : Nat) : accesses.all (Access.inBounds buffer len) = true := by
  rw [List.all_eq_true]
  intro access member
  obtain ⟨index, bound, rfl⟩ := reads access member
  simpa [Access.inBounds] using bound

theorem SlotReads.remains {accesses : List Access} (reads : SlotReads accesses) :
    accesses.all Access.remains = true := by
  rw [List.all_eq_true]
  intro access member
  obtain ⟨index, -, rfl⟩ := reads access member
  rfl

theorem SlotReads.apply {accesses : List Access} (reads : SlotReads accesses)
    (buffer : CircularBuffer) (resultBuf : Bytes) :
    accesses.foldl (Access.apply buffer) resultBuf = resultBuf := by
  induction accesses with
  | nil => rfl
  | cons access accesses ih =>
      obtain ⟨index, -, rfl⟩ := reads _ List.mem_cons_self
      exact ih (fun later member => reads later (List.mem_cons_of_mem _ member))

/-- The position is one that the check at the start of a read lets through. -/
def InWindow (buffer : CircularBuffer) (fPos : Int) : Prop :=
  (buffer.startCharAbs.toNat : Int) ≤ fPos ∧ fPos ≤ buffer.wCharAbs.toNat

theorem raed_outside {buffer : CircularBuffer} {fPos : Int} (outside : ¬ InWindow buffer fPos)
    (resultBuf : Bytes) (len : UInt64) :
    aesdCircularBufferRaed buffer resultBuf len fPos =
      some ⟨toUnsigned 64 (-1), fPos, buffer, []⟩ := by
  rw [aesdCircularBufferRaed, if_pos]
  simp only [InWindow] at outside
  omega

theorem InWindow.not_outside {buffer : CircularBuffer} {fPos : Int} (window : InWindow buffer fPos) :
    ¬ (fPos < buffer.startCharAbs.toNat ∨ (buffer.wCharAbs.toNat : Int) < fPos) := by
  simp only [InWindow] at window
  omega

/-- A read that returns bytes is in the window, returns `len` bytes at most and moves the
position by what it returns. -/
theorem raed_progress {buffer : CircularBuffer} {resultBuf : Bytes} {len : UInt64} {fPos : Int}
    {read : Raed} (called : aesdCircularBufferRaed buffer resultBuf len fPos = some read)
    (positive : 0 < toLong read.ret) :
    InWindow buffer fPos ∧ read.ret ≤ len.toNat ∧ read.fPos = toLong (fPos + read.ret) := by
  by_cases window : InWindow buffer fPos
  · have zero : ¬ 0 < toLong (0 : Nat) := by decide
    rw [aesdCircularBufferRaed, if_neg window.not_outside] at called
    obtain ⟨found, -, called⟩ := Option.bind_eq_some_iff.mp called
    dsimp only at called
    split at called
    · cases called
      exact absurd positive zero
    · split at called
      · cases called
        exact absurd positive zero
      · split at called
        · cases called
          exact absurd positive zero
        · obtain ⟨final, copied, called⟩ := Option.bind_eq_some_iff.mp called
          cases called
          exact ⟨window, copyFrom_readLen len.toNat_lt _ _ _ copied (Nat.zero_le _), rfl⟩
  · have minusOne : ¬ 0 < toLong (toUnsigned 64 (-1) : Nat) := by decide
    rw [raed_outside window] at called
    cases called
    exact absurd positive minusOne

def CircularBuffer.located (buffer : CircularBuffer) (index : Nat) : CircularBuffer :=
  { buffer with outOffs := UInt8.ofNat (toUnsigned 8 index) }

def CopyState.enter (buffer : CircularBuffer) (index copyStart : Nat) (visited : List Access) :
    CopyState :=
  ⟨index, 0, true, (buffer.located index).outOffs, buffer.full, visited ++ [.strlen copyStart]⟩

def CopyState.start (buffer : CircularBuffer) (index : Nat) (visited : List Access) : CopyState :=
  CopyState.enter buffer index 0 visited

theorem raed_of_past {buffer : CircularBuffer} {fPos : Int} {index : Nat}
    {entryOffsetByte : Option Nat} {visited : List Access} (resultBuf : Bytes) (len : UInt64)
    (window : InWindow buffer fPos)
    (found : aesdCircularBufferFindEntryOffsetAndIndexForFpos buffer
      (toUnsigned 64 (fPos - buffer.startCharAbs.toNat)) =
        some ⟨index, entryOffsetByte, visited⟩)
    (past : index = buffer.wAbs.toNat) :
    aesdCircularBufferRaed buffer resultBuf len fPos =
      some ⟨0, fPos, buffer.located index, visited⟩ := by
  have met : toUnsigned 32 (index : Int) = buffer.wAbs.toNat := by
    rw [past, toUnsigned_natCast buffer.wAbs.toNat_lt]
  have unsigned : ¬ (index : Int) < 0 := by omega
  rw [aesdCircularBufferRaed, if_neg window.not_outside, found]
  simp [unsigned, met, CircularBuffer.located]

theorem raed_of_entered {buffer : CircularBuffer} {resultBuf : Bytes} {len : UInt64} {fPos : Int}
    {index offset : Nat} {visited : List Access} {final : CopyState} (window : InWindow buffer fPos)
    (found : aesdCircularBufferFindEntryOffsetAndIndexForFpos buffer
      (toUnsigned 64 (fPos - buffer.startCharAbs.toNat)) = some ⟨index, some offset, visited⟩)
    (before : index < buffer.wAbs.toNat)
    (copied : copyFrom (buffer.located index) len.toNat (strlen resultBuf) offset indexSteps
      (CopyState.enter buffer index (strlen resultBuf) visited) = some final) :
    aesdCircularBufferRaed buffer resultBuf len fPos =
      some ⟨final.readLen, toLong (fPos + final.readLen),
        { buffer with outOffs := final.outOffs, full := final.full }, final.accesses⟩ := by
  have width := buffer.wAbs.toNat_lt
  have unmet : toUnsigned 32 (index : Int) ≠ buffer.wAbs.toNat := by
    rw [toUnsigned_natCast (by omega)]
    omega
  have unsigned : ¬ (index : Int) < 0 := by omega
  rw [CopyState.enter, CircularBuffer.located] at copied
  rw [aesdCircularBufferRaed, if_neg window.not_outside, found]
  simp [unsigned, unmet, copied]

/-- An index that has wrapped below zero counts as one that was not found. -/
theorem raed_of_negative {buffer : CircularBuffer} {fPos index : Int}
    {entryOffsetByte : Option Nat} {visited : List Access} (resultBuf : Bytes) (len : UInt64)
    (window : InWindow buffer fPos)
    (found : aesdCircularBufferFindEntryOffsetAndIndexForFpos buffer
      (toUnsigned 64 (fPos - buffer.startCharAbs.toNat)) =
        some ⟨index, entryOffsetByte, visited⟩)
    (negative : index < 0) :
    aesdCircularBufferRaed buffer resultBuf len fPos = some ⟨0, fPos, buffer, visited⟩ := by
  rw [aesdCircularBufferRaed, if_neg window.not_outside, found]
  simp [negative]

/-- Into a zeroed buffer the copy starts at its front. -/
theorem raed_of_copied {buffer : CircularBuffer} {len : UInt64} {fPos : Int} {index offset : Nat}
    {visited : List Access} {final : CopyState} (window : InWindow buffer fPos)
    (found : aesdCircularBufferFindEntryOffsetAndIndexForFpos buffer
      (toUnsigned 64 (fPos - buffer.startCharAbs.toNat)) = some ⟨index, some offset, visited⟩)
    (before : index < buffer.wAbs.toNat)
    (copied : copyFrom (buffer.located index) len.toNat 0 offset indexSteps
      (CopyState.start buffer index visited) = some final) :
    aesdCircularBufferRaed buffer (List.replicate len.toNat 0) len fPos =
      some ⟨final.readLen, toLong (fPos + final.readLen),
        { buffer with outOffs := final.outOffs, full := final.full }, final.accesses⟩ :=
  raed_of_entered window found before (by rw [strlen_zeros]; exact copied)

theorem cleanRead_of_past {buffer : CircularBuffer} {len : UInt64} {fPos : Int} {index : Nat}
    {entryOffsetByte : Option Nat} {visited : List Access} (window : InWindow buffer fPos)
    (found : aesdCircularBufferFindEntryOffsetAndIndexForFpos buffer
      (toUnsigned 64 (fPos - buffer.startCharAbs.toNat)) =
        some ⟨index, entryOffsetByte, visited⟩)
    (reads : SlotReads visited) (past : index = buffer.wAbs.toNat) :
    CleanRead buffer len fPos [] := by
  have called := raed_of_past (List.replicate len.toNat 0) len window found past
  refine ⟨⟨_, called, rfl, by simp, ?_⟩, _, called, reads.inBounds _ _, reads.remains⟩
  rw [Raed.result, if_pos (reads.inBounds _ _), reads.apply]
  simp

theorem Filled.start {buffer : CircularBuffer} {len : Nat} {visited : List Access}
    (reads : SlotReads visited) (asked : 0 < len) :
    Filled buffer len (visited ++ [.strlen 0]) [] where
  inBounds := by
    have strlen : Access.inBounds buffer len (.strlen 0) = true := by
      simpa [Access.inBounds] using asked
    rw [List.all_append, reads.inBounds, List.all_cons, strlen]
    rfl
  remains := by
    rw [List.all_append, reads.remains]
    rfl
  bytes := by
    rw [List.foldl_append, reads.apply]
    rfl
  length := Nat.zero_le _

theorem cleanRead_of_found {buffer : CircularBuffer} {len : UInt64} {fPos : Int}
    {index offset : Nat} {visited : List Access} {pieces : List Bytes}
    (window : InWindow buffer fPos)
    (found : aesdCircularBufferFindEntryOffsetAndIndexForFpos buffer
      (toUnsigned 64 (fPos - buffer.startCharAbs.toNat)) = some ⟨index, some offset, visited⟩)
    (reads : SlotReads visited) (cursor : Cursor buffer index pieces) (present : pieces ≠ [])
    (inside : offset ≤ (pieces.head present).length) (asked : 0 < len.toNat)
    (room : pieces.flatten.length < 2 ^ 62) :
    CleanRead buffer len fPos ((pieces.flatten.drop offset).take len.toNat) := by
  have filled : 0 < pieces.length := List.length_pos_iff.mpr present
  have small : (pieces.head present).length < 2 ^ 31 := cursor.small _ (List.head_mem present)
  have last := cursor.last
  have bound := cursor.bound
  have few : pieces.length ≤ indexSteps := by
    rw [indexSteps]
    omega
  have here : AtPiece index offset offset (CopyState.start buffer index visited) :=
    ⟨rfl, by rw [ofsInEntry, CopyState.start, CopyState.enter, if_pos rfl, toInt_natCast (by omega)]⟩
  have cursor' : Cursor (buffer.located index) index pieces :=
    ⟨cursor.entry, cursor.small, cursor.last, cursor.bound⟩
  obtain ⟨final, copied, filled, readLen⟩ := copyFrom_eq len.toNat_lt pieces indexSteps index
    offset _ [] present cursor' few here inside (Filled.start reads asked) rfl asked
    (by simp only [List.length_nil]; omega)
  rw [List.nil_append, List.length_nil, Nat.sub_zero] at filled readLen
  have inBounds : final.accesses.all (Access.inBounds buffer len.toNat) = true := filled.inBounds
  have bytes : final.accesses.foldl (Access.apply buffer) (List.replicate len.toNat 0) = _ :=
    filled.bytes
  have short : final.readLen < 2 ^ 62 := by
    rw [readLen, List.length_take, List.length_drop]
    omega
  have called := raed_of_copied window found (by omega) copied
  refine ⟨⟨_, called, readLen, ?_, ?_⟩, _, called, inBounds, filled.remains⟩
  · have upper := window.2
    have lower := window.1
    have width := buffer.wCharAbs.toNat_lt
    rw [toLong_of_bounds (by omega) (by omega), readLen]
  · rw [Raed.result, List.length_replicate, if_pos inBounds, bytes]

theorem CopyState.start_copying {buffer : CircularBuffer} {index : Nat}
    (before : index < buffer.wAbs.toNat) (len : UInt64) (visited : List Access) :
    Copying (buffer.located index) len.toNat (CopyState.start buffer index visited) := by
  have width := buffer.wAbs.toNat_lt
  refine ⟨?_, by simp [CopyState.start, CopyState.enter], len.toNat_lt⟩
  rw [CopyState.start, CopyState.enter, toUnsigned_natCast (by omega), CircularBuffer.located]
  exact Nat.ne_of_lt before

theorem not_inBounds_of_found {buffer : CircularBuffer} {len : UInt64} {fPos : Int}
    {index offset : Nat} {visited : List Access} {piece : Bytes}
    (window : InWindow buffer fPos)
    (found : aesdCircularBufferFindEntryOffsetAndIndexForFpos buffer
      (toUnsigned 64 (fPos - buffer.startCharAbs.toNat)) = some ⟨index, some offset, visited⟩)
    (before : index < buffer.wAbs.toNat)
    (entry : buffer.entry[index % 10]? = some ⟨.block piece, piece.length⟩)
    (past : piece.length < offset) (small : offset < 2 ^ 31) :
    ¬ InBounds buffer len fPos := by
  obtain ⟨final, copied⟩ :=
    copyFrom_indexSteps (CopyState.start_copying before len visited) 0 offset
  have here : AtPiece index offset offset (CopyState.start buffer index visited) :=
    ⟨rfl, by rw [ofsInEntry, CopyState.start, CopyState.enter, if_pos rfl, toInt_natCast small]⟩
  have entry' : (buffer.located index).entry[index % 10]? = some ⟨.block piece, piece.length⟩ :=
    entry
  obtain ⟨remainInEntry, copyLen, destination, member⟩ := copyStep_past_end here entry' past small
  have made := (copyFrom_accesses len.toNat_lt _ _ _ copied (Nat.zero_le _)).subset member
  rintro ⟨read, called, inBounds⟩
  rw [raed_of_copied window found before copied, Option.some.injEq] at called
  subst called
  have inside := List.all_eq_true.mp inBounds _ made
  simp only [Access.inBounds, CircularBuffer.holdsRange, entry, Bool.and_eq_true,
    decide_eq_true_eq] at inside
  omega

end Aesd
