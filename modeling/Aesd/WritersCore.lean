import Aesd.HeapCore
import Aesd.Interleaving

/-!
Any number of calls of `aesd_write` at once, statement by statement. Its lock is commented out, so
any call may go on at any time; `aesd_circular_buffer_add_entry` leaves the locking to its callers.
-/

namespace Aesd

open Cells

/-- The next statement of `aesd_circular_buffer_add_entry`, with the local variables that it and
those after it use. -/
inductive AddPlace where
  | saveCurrent
  | allocTmp (currentStr : Pointer) (newSize : Nat)
  | clearTmp (currentStr : Pointer) (newSize : Nat)
  | copyCurrent (currentStr : Pointer) (newSize : Nat)
  | copyEntry (newSize : Nat)
  | setSize (newSize : Nat)
  | testLast
  | freeTarget
  | allocTarget (wi : Nat)
  | copyTarget (wi : Nat)
  | sizeTarget (wi : Nat)
  | advance
  | initTmp
  deriving DecidableEq, Repr

def PointerBuffer.target (buffer : PointerBuffer) (wi : Nat) : PointerEntry :=
  (buffer.entry[wi]?).getD ⟨none, 0⟩

def PointerBuffer.setTarget (buffer : PointerBuffer) (wi : Nat) (entry : PointerEntry) :
    PointerBuffer :=
  { buffer with entry := buffer.entry.setIfInBounds wi entry }

/-- One statement, and the next one, if the function has not returned. -/
def HeapState.addStep (allocator : Allocator UInt8) (alloc : Allocations) (addEntry : PointerEntry)
    (state : HeapState) : AddPlace → Except Fault (Option AddPlace × HeapState)
  | .saveCurrent =>
      .ok (some (.allocTmp state.tmpEntry.buffptr (state.tmpEntry.size + addEntry.size)), state)
  | .allocTmp currentStr newSize =>
      let (buffptr, memory) := state.memory.kmalloc allocator alloc.tmp newSize
      .ok (some (.clearTmp currentStr newSize),
        { state with memory, tmpEntry := ⟨buffptr, state.tmpEntry.size⟩ })
  | .clearTmp currentStr newSize => do
      let memory ← state.memory.store state.tmpEntry.buffptr 0 (List.replicate newSize 0)
      return (some (.copyCurrent currentStr newSize), { state with memory })
  | .copyCurrent currentStr newSize => do
      let memory ← PointerEntry.carryOver state.tmpEntry.buffptr
        ⟨currentStr, state.tmpEntry.size⟩ state.memory
      return (some (.copyEntry newSize), { state with memory })
  | .copyEntry newSize => do
      let memory ← state.memory.memcpy state.tmpEntry.buffptr state.tmpEntry.size
        addEntry.buffptr addEntry.size
      return (some (.setSize newSize), { state with memory })
  | .setSize newSize =>
      .ok (some .testLast, { state with tmpEntry := ⟨state.tmpEntry.buffptr, newSize⟩ })
  | .testLast => do
      let lastChar ← state.memory.loadLast addEntry.buffptr addEntry.size
      return (if lastChar = newline then some .freeTarget else none, state)
  | .freeTarget => do
      let wi := slotOf state.buffer.wAbs
      let memory ← state.memory.kfree (state.buffer.target wi).buffptr
      return (some (.allocTarget wi), { state with memory })
  | .allocTarget wi =>
      let (buffptr, memory) := state.memory.kmalloc allocator alloc.target state.tmpEntry.size
      let buffer := state.buffer.setTarget wi ⟨buffptr, (state.buffer.target wi).size⟩
      .ok (some (.copyTarget wi), { state with memory, buffer })
  | .copyTarget wi => do
      let memory ← state.memory.memcpy (state.buffer.target wi).buffptr 0 state.tmpEntry.buffptr
        state.tmpEntry.size
      return (some (.sizeTarget wi), { state with memory })
  | .sizeTarget wi =>
      let buffer := state.buffer.setTarget wi
        ⟨(state.buffer.target wi).buffptr, state.tmpEntry.size⟩
      .ok (some .advance, { state with buffer })
  | .advance =>
      let buffer := state.buffer.advanceCounters state.tmpEntry.size
      .ok (some .initTmp, { state with buffer })
  | .initTmp => do
      let (tmpEntry, memory) ← state.tmpEntry.init state.memory
      return (none, { state with memory, tmpEntry })

/-- The next statement of `aesd_write`. -/
inductive Stage where
  | begin
  | check (kbuf : Pointer)
  | clear (kbuf : Pointer)
  | copy (kbuf : Pointer)
  | add (kbuf : Pointer) (place : AddPlace)
  | release (kbuf : Pointer)
  | returned (ret : Int)
  | faulted (reason : Fault)
  deriving DecidableEq, Repr

structure Writer where
  file : Nat
  buf : Bytes
  outcomes : WriteOutcomes := {}
  stage : Stage := .begin
  deriving DecidableEq, Repr

def HeapSys.addStep (allocator : Allocator UInt8) (writer : Writer) (kbuf : Pointer)
    (place : AddPlace) (sys : HeapSys) : Except Fault (Stage × HeapSys) :=
  match sys.buffer with
  | none => .error .nullAccess
  | some (address, buffer) => do
      let (next, state) ← HeapState.addStep allocator writer.outcomes.alloc
        ⟨kbuf, writer.buf.length⟩ ⟨sys.memory, buffer, sys.tmpEntry⟩ place
      return (next.elim (.release kbuf) (.add kbuf),
        { sys with
          memory := state.memory, buffer := some (address, state.buffer),
          tmpEntry := state.tmpEntry })

/-- One statement of `aesd_write`; a call that has returned has none. -/
def Writer.run (allocator : Allocator UInt8) (sys : HeapSys) (writer : Writer) :
    Option (Except Fault (Stage × HeapSys)) :=
  match writer.stage with
  | .begin => some <|
      if (sys.files writer.file).privateData = false then .ok (.returned (-enomem), sys)
      else if sys.buffer = none then .ok (.returned (-enomem), sys)
      else
        let (kbuf, memory) :=
          sys.memory.kmalloc allocator writer.outcomes.kmalloc writer.buf.length
        if kbuf = none then .ok (.returned (-enomem), sys)
        else .ok (.check kbuf, { sys with memory })
  | .check kbuf => some do
      let _ ← loadLast (.block writer.buf) writer.buf.length
      if writer.outcomes.accessOk = false then
        let memory ← sys.memory.kfree kbuf
        return (.returned (-efault), { sys with memory })
      else return (.clear kbuf, sys)
  | .clear kbuf => some do
      let memory ← sys.memory.store kbuf 0 (List.replicate writer.buf.length 0)
      return (.copy kbuf, { sys with memory })
  | .copy kbuf => some <|
      if writer.outcomes.copyFromUser = false then do
        let memory ← sys.memory.kfree kbuf
        return (.returned (-enomem), { sys with memory })
      else do
        let memory ← sys.memory.store kbuf 0 writer.buf
        return (.add kbuf .saveCurrent, { sys with memory })
  | .add kbuf place => some (sys.addStep allocator writer kbuf place)
  | .release kbuf => some do
      let memory ← sys.memory.kfree kbuf
      return (.returned writer.buf.length, { sys with memory })
  | .returned _ => none
  | .faulted _ => none

def Stage.inside : Stage → Bool
  | .add _ place => place ≠ .saveCurrent
  | _ => false

def Stage.enters : Stage → Bool
  | .add _ place => place = .saveCurrent
  | _ => false

/-- The driver and the calls. `left` is the order in which the calls have left
`aesd_circular_buffer_add_entry`; no step looks at it. -/
structure Writers where
  sys : HeapSys
  writers : List Writer
  left : List Nat

def Writers.advance (all : Writers) (index : Nat) (writer : Writer) :
    Except Fault (Stage × HeapSys) → Writers
  | .ok (stage, sys) =>
      { sys
        writers := all.writers.set index { writer with stage }
        left := if writer.stage.inside && !stage.inside then all.left ++ [index] else all.left }
  | .error reason =>
      { all with writers := all.writers.set index { writer with stage := .faulted reason } }

def Writers.step (allocator : Allocator UInt8) (all : Writers) (index : Nat) : Option Writers := do
  let writer ← all.writers[index]?
  let result ← writer.run allocator all.sys
  return all.advance index writer result

/-- As the callers of `aesd_circular_buffer_add_entry` have to see to it: nobody enters while
somebody is inside. -/
def Writers.lockedStep (allocator : Allocator UInt8) (all : Writers) (index : Nat) :
    Option Writers :=
  if (all.writers[index]?).any (·.stage.enters) && all.writers.any (·.stage.inside) then none
  else all.step allocator index

end Aesd
