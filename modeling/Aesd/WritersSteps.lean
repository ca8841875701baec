import Aesd.HeapChecks
import Aesd.WritersCore

/-!
One statement of `aesd_write` in a memory that it shares with other calls: what a call owns by
itself, and what of the driver's it has in its hands inside `aesd_circular_buffer_add_entry`.
-/

namespace Aesd

open MachineInt Records Cells

/-! Inside `aesd_circular_buffer_add_entry`. -/

section

variable (buffer : CircularBuffer) (pending chunk : Bytes) (pointers : PointerBuffer)
  (tmpEntry : PointerEntry) (tmp own : List (Cell UInt8))

/-- Nobody is inside: the slots and `tmp_entry` own their blocks. -/
def Between : Prop :=
  ∃ table, Mirrors pointers buffer table ∧ OwnsTmp tmpEntry pending tmp ∧ own = table.flatten ++ tmp

/-- `tmp_entry` has a new block; the one it had is still there. -/
def Grown (size : Nat) (content : Bytes) : Prop :=
  ∃ table address, Mirrors pointers buffer table ∧ tmpEntry = ⟨some address, size⟩ ∧
    own = ⟨address, content⟩ :: (table.flatten ++ tmp)

/-- The block of slot `wi` is freed. -/
def Emptied (command : Bytes) (wi : Nat) : Prop :=
  ∃ table address, Mirrors pointers buffer table ∧ tmpEntry = ⟨some address, command.length⟩ ∧
    own = ⟨address, command⟩ :: ((table.eraseIdx wi).flatten ++ tmp)

/-- Slot `wi` points to a new block. -/
def Replaced (command : Bytes) (wi : Nat) (content : Bytes) : Prop :=
  ∃ before table address target size, Mirrors before buffer table ∧
    tmpEntry = ⟨some address, command.length⟩ ∧ pointers = before.setTarget wi ⟨some target, size⟩ ∧
    own = ⟨target, content⟩ :: ⟨address, command⟩ :: ((table.eraseIdx wi).flatten ++ tmp)

/-- Somebody is inside, with `chunk`. -/
def Amid : AddPlace → Prop
  | .saveCurrent => False
  | .allocTmp currentStr newSize =>
      currentStr = tmpEntry.buffptr ∧ newSize = (pending ++ chunk).length ∧
        Between buffer pending pointers tmpEntry tmp own
  | .clearTmp currentStr newSize =>
      newSize = (pending ++ chunk).length ∧ OwnsTmp ⟨currentStr, pending.length⟩ pending tmp ∧
        ∃ filling : Bytes, filling.length = newSize ∧
          Grown buffer pointers tmpEntry tmp own pending.length filling
  | .copyCurrent currentStr newSize =>
      newSize = (pending ++ chunk).length ∧ OwnsTmp ⟨currentStr, pending.length⟩ pending tmp ∧
        Grown buffer pointers tmpEntry tmp own pending.length
          (List.replicate (pending.length + chunk.length) 0)
  | .copyEntry newSize =>
      newSize = (pending ++ chunk).length ∧ Grown buffer pointers tmpEntry tmp own pending.length
        (pending ++ List.replicate chunk.length 0)
  | .setSize newSize =>
      newSize = (pending ++ chunk).length ∧
        Grown buffer pointers tmpEntry tmp own pending.length (pending ++ chunk)
  | .testLast =>
      Grown buffer pointers tmpEntry tmp own (pending ++ chunk).length (pending ++ chunk)
  | .freeTarget =>
      endsCommand chunk = true ∧
        Grown buffer pointers tmpEntry tmp own (pending ++ chunk).length (pending ++ chunk)
  | .allocTarget wi =>
      endsCommand chunk = true ∧ wi = slotOf buffer.wAbs ∧
        Emptied buffer pointers tmpEntry tmp own (pending ++ chunk) wi
  | .copyTarget wi =>
      endsCommand chunk = true ∧ wi = slotOf buffer.wAbs ∧
        ∃ filling : Bytes, filling.length = (pending ++ chunk).length ∧
          Replaced buffer pointers tmpEntry tmp own (pending ++ chunk) wi filling
  | .sizeTarget wi =>
      endsCommand chunk = true ∧ wi = slotOf buffer.wAbs ∧
        Replaced buffer pointers tmpEntry tmp own (pending ++ chunk) wi (pending ++ chunk)
  | .advance =>
      endsCommand chunk = true ∧
        Grown { buffer with
            entry := buffer.entry.setIfInBounds (slotOf buffer.wAbs)
              ⟨.block (pending ++ chunk), (pending ++ chunk).length⟩ }
          pointers tmpEntry tmp own (pending ++ chunk).length (pending ++ chunk)
  | .initTmp =>
      endsCommand chunk = true ∧ Grown (buffer.store (pending ++ chunk)) pointers tmpEntry tmp own
        (pending ++ chunk).length (pending ++ chunk)

end

/-- A statement is followed by another one, or the function returns and what was pending before
is nobody's. -/
inductive StepsOn (buffer : CircularBuffer) (pending chunk : Bytes)
    (tmp rest : List (Cell UInt8)) : Except Fault (Option AddPlace × HeapState) → Prop
  | on {place : AddPlace} {state : HeapState} {own : List (Cell UInt8)}
      (amid : Amid buffer pending chunk state.buffer state.tmpEntry tmp own place)
      (splits : Splits state.memory (own ++ rest)) :
      StepsOn buffer pending chunk tmp rest (.ok (some place, state))
  | off {state : HeapState} {own after : List (Cell UInt8)}
      (between : Between (if endsCommand chunk then buffer.store (pending ++ chunk) else buffer)
        (if endsCommand chunk then [] else pending ++ chunk) state.buffer state.tmpEntry after own)
      (splits : Splits state.memory (own ++ tmp ++ rest)) :
      StepsOn buffer pending chunk tmp rest (.ok (none, state))

section

variable {buffer : CircularBuffer} {pending chunk : Bytes} {state : HeapState} {kbuf : Nat}
  {tmp own rest : List (Cell UInt8)} {alloc : Allocations} (allocator : Allocator UInt8)

theorem addStep_enters (between : Between buffer pending state.buffer state.tmpEntry tmp own)
    (splits : Splits state.memory (own ++ rest)) :
    StepsOn buffer pending chunk tmp rest
      (state.addStep allocator alloc ⟨some kbuf, chunk.length⟩ .saveCurrent) := by
  have size : state.tmpEntry.size = pending.length := by
    obtain ⟨table, mirrors, owns, rfl⟩ := between
    exact owns.size
  exact .on ⟨rfl, by rw [size, List.length_append], between⟩ splits

theorem addStep_allocTmp (got : alloc.tmp = true) {currentStr : Pointer} {newSize : Nat}
    (amid : Amid buffer pending chunk state.buffer state.tmpEntry tmp own
      (.allocTmp currentStr newSize))
    (splits : Splits state.memory (own ++ rest)) :
    StepsOn buffer pending chunk tmp rest
      (state.addStep allocator alloc ⟨some kbuf, chunk.length⟩ (.allocTmp currentStr newSize)) := by
  obtain ⟨rfl, rfl, table, mirrors, owns, rfl⟩ := amid
  obtain ⟨address, filling, next, called, sized, splits⟩ :=
    Memory.kmalloc_splits splits allocator (pending ++ chunk).length
  rw [HeapState.addStep, got, called]
  have grown : Grown buffer state.buffer ⟨some address, state.tmpEntry.size⟩ tmp
      (⟨address, filling⟩ :: (table.flatten ++ tmp)) pending.length filling :=
    ⟨table, address, mirrors, by rw [owns.size], rfl⟩
  exact .on ⟨rfl, ⟨rfl, owns.cells⟩, filling, sized, grown⟩ splits

theorem addStep_clearTmp {currentStr : Pointer} {newSize : Nat}
    (amid : Amid buffer pending chunk state.buffer state.tmpEntry tmp own
      (.clearTmp currentStr newSize))
    (splits : Splits state.memory (own ++ rest)) :
    StepsOn buffer pending chunk tmp rest
      (state.addStep allocator alloc ⟨some kbuf, chunk.length⟩ (.clearTmp currentStr newSize)) := by
  obtain ⟨rfl, owns, filling, sized, table, address, mirrors, pointer, rfl⟩ := amid
  obtain ⟨next, stored, splits⟩ := Memory.fill_splits splits
    (List.replicate (pending ++ chunk).length 0) (by rw [List.length_replicate, sized])
  rw [HeapState.addStep, pointer, stored, ok_bind]
  rw [List.length_append] at splits
  exact .on ⟨rfl, owns, table, address, mirrors, rfl, rfl⟩ splits

theorem addStep_copyCurrent {currentStr : Pointer} {newSize : Nat}
    (amid : Amid buffer pending chunk state.buffer state.tmpEntry tmp own
      (.copyCurrent currentStr newSize))
    (splits : Splits state.memory (own ++ rest)) :
    StepsOn buffer pending chunk tmp rest
      (state.addStep allocator alloc ⟨some kbuf, chunk.length⟩
        (.copyCurrent currentStr newSize)) := by
  obtain ⟨rfl, owns, table, address, mirrors, pointer, rfl⟩ := amid
  obtain ⟨next, carried, splits⟩ := owns.carry splits fun cell member => by simp [member]
  rw [HeapState.addStep, pointer, carried, ok_bind]
  exact .on ⟨rfl, table, address, mirrors, rfl, rfl⟩ splits

theorem addStep_copyEntry (given : ⟨kbuf, chunk⟩ ∈ rest) {newSize : Nat}
    (amid : Amid buffer pending chunk state.buffer state.tmpEntry tmp own (.copyEntry newSize))
    (splits : Splits state.memory (own ++ rest)) :
    StepsOn buffer pending chunk tmp rest
      (state.addStep allocator alloc ⟨some kbuf, chunk.length⟩ (.copyEntry newSize)) := by
  obtain ⟨rfl, table, address, mirrors, pointer, rfl⟩ := amid
  have source : ⟨kbuf, chunk⟩ ∈ table.flatten ++ tmp ++ rest := List.mem_append_right _ given
  have joined : overwrite (pending ++ List.replicate chunk.length 0) pending.length chunk =
      pending ++ chunk := by simp [overwrite_append]
  obtain ⟨next, copied, splits⟩ := Memory.memcpy_splits splits source
    (show pending.length + chunk.length ≤ _ by simp)
  rw [HeapState.addStep, pointer, copied, ok_bind]
  rw [joined] at splits
  exact .on ⟨rfl, table, address, mirrors, rfl, rfl⟩ splits

theorem addStep_setSize {newSize : Nat}
    (amid : Amid buffer pending chunk state.buffer state.tmpEntry tmp own (.setSize newSize))
    (splits : Splits state.memory (own ++ rest)) :
    StepsOn buffer pending chunk tmp rest
      (state.addStep allocator alloc ⟨some kbuf, chunk.length⟩ (.setSize newSize)) := by
  obtain ⟨rfl, table, address, mirrors, pointer, rfl⟩ := amid
  rw [HeapState.addStep, pointer]
  exact .on ⟨table, address, mirrors, rfl, rfl⟩ splits

theorem addStep_testLast (given : ⟨kbuf, chunk⟩ ∈ rest) (nonempty : chunk ≠ [])
    (amid : Amid buffer pending chunk state.buffer state.tmpEntry tmp own .testLast)
    (splits : Splits state.memory (own ++ rest)) :
    StepsOn buffer pending chunk tmp rest
      (state.addStep allocator alloc ⟨some kbuf, chunk.length⟩ .testLast) := by
  have last := Memory.loadLast_splits splits (List.mem_append_right _ given) nonempty
  rw [HeapState.addStep, last, ok_bind]
  by_cases ended : endsCommand chunk = true
  · rw [if_pos ((endsCommand_iff nonempty).mp ended)]
    exact .on ⟨ended, amid⟩ splits
  · rw [if_neg (fun last => ended ((endsCommand_iff nonempty).mpr last))]
    obtain ⟨table, address, mirrors, pointer, rfl⟩ := amid
    have regrouped : Splits state.memory
        (table.flatten ++ [⟨address, pending ++ chunk⟩] ++ tmp ++ rest) :=
      splits.regroup fun cell => by
        simp only [List.count_append, List.count_cons, List.count_nil]
        omega
    refine .off ⟨table, ?_, ?_, rfl⟩ regrouped
    · rw [if_neg ended]
      exact mirrors
    · rw [if_neg ended, pointer]
      exact ⟨rfl, .inr ⟨by simp [nonempty], address, rfl, rfl⟩⟩

/-! The slot is filled. -/

theorem PointerBuffer.target_eq (pointers : PointerBuffer) {wi : Nat} (bound : wi < 10) :
    pointers.target wi = pointers.entry[wi] := by
  rw [PointerBuffer.target, Vector.getElem?_eq_getElem bound, Option.getD_some]

theorem PointerBuffer.target_setTarget (pointers : PointerBuffer) {wi : Nat} (bound : wi < 10)
    (entry : PointerEntry) : (pointers.setTarget wi entry).target wi = entry := by
  rw [PointerBuffer.target_eq _ bound]
  simp [PointerBuffer.setTarget]

theorem PointerBuffer.setTarget_setTarget (pointers : PointerBuffer) (wi : Nat)
    (first second : PointerEntry) :
    (pointers.setTarget wi first).setTarget wi second = pointers.setTarget wi second := by
  simp [PointerBuffer.setTarget]

theorem addStep_freeTarget
    (amid : Amid buffer pending chunk state.buffer state.tmpEntry tmp own .freeTarget)
    (splits : Splits state.memory (own ++ rest)) :
    StepsOn buffer pending chunk tmp rest
      (state.addStep allocator alloc ⟨some kbuf, chunk.length⟩ .freeTarget) := by
  obtain ⟨ended, table, address, mirrors, pointer, rfl⟩ := amid
  have regrouped : Splits state.memory
      (table.flatten ++ (⟨address, pending ++ chunk⟩ :: (tmp ++ rest))) :=
    splits.regroup fun cell => by
      simp only [List.count_append, List.count_cons]
      omega
  have bound := slotOf_lt buffer.wAbs
  obtain ⟨next, released, splits⟩ := mirrors.kfree bound regrouped
  rw [HeapState.addStep, mirrors.wAbs, PointerBuffer.target_eq _ bound, released, ok_bind]
  have after : Splits next (⟨address, pending ++ chunk⟩ ::
      ((table.eraseIdx (slotOf buffer.wAbs)).flatten ++ tmp) ++ rest) :=
    splits.regroup fun cell => by
      simp only [List.count_append, List.count_cons]
      omega
  exact .on ⟨ended, rfl, table, address, mirrors, pointer, rfl⟩ after

theorem addStep_allocTarget (suffice : alloc.Suffice chunk) {wi : Nat}
    (amid : Amid buffer pending chunk state.buffer state.tmpEntry tmp own (.allocTarget wi))
    (splits : Splits state.memory (own ++ rest)) :
    StepsOn buffer pending chunk tmp rest
      (state.addStep allocator alloc ⟨some kbuf, chunk.length⟩ (.allocTarget wi)) := by
  obtain ⟨ended, rfl, table, address, mirrors, pointer, rfl⟩ := amid
  obtain ⟨target, filling, next, called, sized, splits⟩ :=
    Memory.kmalloc_splits splits allocator (pending ++ chunk).length
  rw [HeapState.addStep, suffice.2 ended, pointer, called]
  exact .on ⟨ended, rfl, filling, sized, state.buffer, table, address, target, _, mirrors, rfl, rfl,
    rfl⟩ splits

theorem addStep_copyTarget {wi : Nat}
    (amid : Amid buffer pending chunk state.buffer state.tmpEntry tmp own (.copyTarget wi))
    (splits : Splits state.memory (own ++ rest)) :
    StepsOn buffer pending chunk tmp rest
      (state.addStep allocator alloc ⟨some kbuf, chunk.length⟩ (.copyTarget wi)) := by
  obtain ⟨ended, rfl, filling, sized, before, table, address, target, size, mirrors, pointer,
    replaced, rfl⟩ := amid
  obtain ⟨next, copied, splits⟩ := Memory.memcpy_splits splits List.mem_cons_self
    (show 0 + (pending ++ chunk).length ≤ filling.length by omega)
  rw [overwrite_all _ _ sized.symm] at splits
  rw [HeapState.addStep, replaced, PointerBuffer.target_setTarget _ (slotOf_lt _), pointer, copied,
    ok_bind]
  exact .on ⟨ended, rfl, before, table, address, target, size, mirrors, rfl, rfl, rfl⟩ splits

theorem addStep_sizeTarget {wi : Nat}
    (amid : Amid buffer pending chunk state.buffer state.tmpEntry tmp own (.sizeTarget wi))
    (splits : Splits state.memory (own ++ rest)) :
    StepsOn buffer pending chunk tmp rest
      (state.addStep allocator alloc ⟨some kbuf, chunk.length⟩ (.sizeTarget wi)) := by
  obtain ⟨ended, rfl, before, table, address, target, size, mirrors, pointer, replaced, rfl⟩ := amid
  have bound := slotOf_lt buffer.wAbs
  have inside : slotOf buffer.wAbs < table.length := by rw [mirrors.length]; exact bound
  rw [HeapState.addStep, replaced, PointerBuffer.target_setTarget _ bound,
    PointerBuffer.setTarget_setTarget, pointer]
  have filled := flatten_perm_set inside [⟨target, pending ++ chunk⟩]
  have after : Splits state.memory (⟨address, pending ++ chunk⟩ ::
      ((table.set (slotOf buffer.wAbs) [⟨target, pending ++ chunk⟩]).flatten ++ tmp) ++ rest) :=
    (splits.reorder (List.Perm.swap _ _ _)).reorder
      (.cons _ ((filled.symm.append_right _).append_right _))
  exact .on ⟨ended, _, address, mirrors.set bound target (pending ++ chunk), rfl, rfl⟩ after

theorem addStep_advance
    (amid : Amid buffer pending chunk state.buffer state.tmpEntry tmp own .advance)
    (splits : Splits state.memory (own ++ rest)) :
    StepsOn buffer pending chunk tmp rest
      (state.addStep allocator alloc ⟨some kbuf, chunk.length⟩ .advance) := by
  obtain ⟨ended, table, address, mirrors, pointer, rfl⟩ := amid
  rw [HeapState.addStep, pointer]
  exact .on ⟨ended, table, address, mirrors.advance _, rfl, rfl⟩ splits

theorem addStep_initTmp
    (amid : Amid buffer pending chunk state.buffer state.tmpEntry tmp own .initTmp)
    (splits : Splits state.memory (own ++ rest)) :
    StepsOn buffer pending chunk tmp rest
      (state.addStep allocator alloc ⟨some kbuf, chunk.length⟩ .initTmp) := by
  obtain ⟨ended, table, address, mirrors, pointer, rfl⟩ := amid
  obtain ⟨next, released, splits⟩ := Memory.kfree_splits splits
  rw [HeapState.addStep, pointer, PointerEntry.init, released]
  refine .off ⟨table, ?_, ?_, (List.append_nil _).symm⟩ splits
  · rw [if_pos ended]
    exact mirrors
  · rw [if_pos ended]
    exact ⟨rfl, .inl ⟨rfl, rfl⟩⟩

/-- Each statement, of a chunk that a block outside holds. -/
theorem Amid.addStep (suffice : alloc.Suffice chunk) (given : ⟨kbuf, chunk⟩ ∈ rest)
    (nonempty : chunk ≠ []) {place : AddPlace}
    (amid : Amid buffer pending chunk state.buffer state.tmpEntry tmp own place)
    (splits : Splits state.memory (own ++ rest)) :
    StepsOn buffer pending chunk tmp rest
      (state.addStep allocator alloc ⟨some kbuf, chunk.length⟩ place) := by
  cases place with
  | saveCurrent => exact amid.elim
  | allocTmp => exact addStep_allocTmp allocator suffice.1 amid splits
  | clearTmp => exact addStep_clearTmp allocator amid splits
  | copyCurrent => exact addStep_copyCurrent allocator amid splits
  | copyEntry => exact addStep_copyEntry allocator given amid splits
  | setSize => exact addStep_setSize allocator amid splits
  | testLast => exact addStep_testLast allocator given nonempty amid splits
  | freeTarget => exact addStep_freeTarget allocator amid splits
  | allocTarget => exact addStep_allocTarget allocator suffice amid splits
  | copyTarget => exact addStep_copyTarget allocator amid splits
  | sizeTarget => exact addStep_sizeTarget allocator amid splits
  | advance => exact addStep_advance allocator amid splits
  | initTmp => exact addStep_initTmp allocator amid splits

end

end Aesd
