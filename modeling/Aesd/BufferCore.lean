import Mathlib.Tactic

/-!
Data model and operations of `aesd-circular-buffer.c`. Ten slots hold the most
recent commands, the global `tmp_entry` collects a command that is not finished,
and every counter has the width it has in the source. A definition that carries a C name in
camelCase is that function or structure. `PDEBUG` output is left out.
-/

namespace Aesd

abbrev Bytes := List UInt8

def newline : UInt8 := 10

/-! Kernel memory. Each block has one owning pointer, so a pointer carries what it owns. -/

inductive Buffptr where
  | null
  | freed
  | block (bytes : Bytes)
  deriving DecidableEq, Repr

/-- Steps of the C program that have no defined outcome. -/
inductive Fault where
  | nullAccess
  | useAfterFree
  | doubleFree
  | outOfBounds
  | endless
  deriving DecidableEq, Repr

def kmalloc (succeeds : Bool) (size : Nat) : Buffptr :=
  if succeeds then .block (List.replicate size 0) else .null

def kfree : Buffptr → Except Fault Unit
  | .null => .ok ()
  | .freed => .error .doubleFree
  | .block _ => .ok ()

def overwrite (bytes : Bytes) (offset : Nat) (values : Bytes) : Bytes :=
  bytes.take offset ++ values ++ bytes.drop (offset + values.length)

def loadBytes (pointer : Buffptr) (offset count : Nat) : Except Fault Bytes :=
  if count = 0 then .ok [] else
    match pointer with
    | .null => .error .nullAccess
    | .freed => .error .useAfterFree
    | .block bytes =>
        if offset + count ≤ bytes.length then .ok ((bytes.drop offset).take count)
        else .error .outOfBounds

def storeBytes (pointer : Buffptr) (offset : Nat) (values : Bytes) : Except Fault Buffptr :=
  if values.length = 0 then .ok pointer else
    match pointer with
    | .null => .error .nullAccess
    | .freed => .error .useAfterFree
    | .block bytes =>
        if offset + values.length ≤ bytes.length then .ok (.block (overwrite bytes offset values))
        else .error .outOfBounds

def memcpy (destination : Buffptr) (offset : Nat) (source : Buffptr) (count : Nat) :
    Except Fault Buffptr := do
  let values ← loadBytes source 0 count
  storeBytes destination offset values

/-- `pointer[size - 1]`. For an empty range the index wraps to 2^64 - 1, past every block. -/
def loadLast (pointer : Buffptr) (size : Nat) : Except Fault UInt8 :=
  if size = 0 then .error .outOfBounds
  else do
    let values ← loadBytes pointer (size - 1) 1
    return values.headD 0

/-! The structures of `aesd-circular-buffer.h`. -/

structure BufferEntry where
  buffptr : Buffptr
  size : Nat
  deriving DecidableEq, Repr

/-- `struct aesd_circular_buffer`, with `AESDCHAR_MAX_WRITE_OPERATIONS_SUPPORTED` = 10. -/
structure CircularBuffer where
  entry : Vector BufferEntry 10
  inOffs : UInt8
  outOffs : UInt8
  full : Bool
  wAbs : UInt32
  startAbs : UInt32
  wCharAbs : UInt32
  startCharAbs : UInt32
  deriving DecidableEq, Repr

structure BufferState where
  buffer : CircularBuffer
  tmpEntry : BufferEntry
  deriving DecidableEq, Repr

def emptyEntry : BufferEntry := ⟨.null, 0⟩

def zeroedBuffer : CircularBuffer where
  entry := Vector.replicate 10 emptyEntry
  inOffs := 0
  outOffs := 0
  full := false
  wAbs := 0
  startAbs := 0
  wCharAbs := 0
  startCharAbs := 0

/-- `aesd_init_entry`: the block is released, the pointer itself is not reset. -/
def aesdInitEntry (entry : BufferEntry) : Except Fault BufferEntry := do
  kfree entry.buffptr
  return ⟨if entry.buffptr = .null then .null else .freed, 0⟩

def aesdCircularBufferInit (tmpEntry : BufferEntry) : Except Fault BufferState := do
  let tmpEntry ← aesdInitEntry tmpEntry
  return ⟨zeroedBuffer, tmpEntry⟩

/-! `aesd_circular_buffer_add_entry`. -/

structure Allocations where
  tmp : Bool := true
  target : Bool := true
  deriving DecidableEq, Repr

def carryOver (fresh : Buffptr) (tmpEntry : BufferEntry) : Except Fault Buffptr :=
  if tmpEntry.buffptr = .null then .ok fresh else memcpy fresh 0 tmpEntry.buffptr tmpEntry.size

/-- The first half: `tmp_entry` becomes a new block with the old bytes and the added ones.
The old block is never released. -/
def appendToTmp (alloc : Allocations) (tmpEntry addEntry : BufferEntry) :
    Except Fault BufferEntry := do
  let newSize := tmpEntry.size + addEntry.size
  let cleared ← storeBytes (kmalloc alloc.tmp newSize) 0 (List.replicate newSize 0)
  let carried ← carryOver cleared tmpEntry
  let joined ← memcpy carried tmpEntry.size addEntry.buffptr addEntry.size
  return ⟨joined, newSize⟩

def slotOf (absolute : UInt32) : Nat := absolute.toNat % 10

def advanceCounters (buffer : CircularBuffer) (size : Nat) : CircularBuffer :=
  let inOffs := buffer.inOffs + 1
  let evicts := buffer.wAbs - buffer.startAbs ≥ 10
  let startAbs := if evicts then buffer.startAbs + 1 else buffer.startAbs
  -- the slot is chosen with the index that was just incremented
  let oldest := (buffer.entry[slotOf startAbs]?).getD emptyEntry
  let startCharAbs :=
    if evicts then buffer.startCharAbs + UInt32.ofNat oldest.size else buffer.startCharAbs
  let inOffs := if inOffs ≥ 10 then 0 else inOffs
  { buffer with
    inOffs
    startAbs
    startCharAbs
    wAbs := buffer.wAbs + 1
    wCharAbs := buffer.wCharAbs + UInt32.ofNat size
    full := if inOffs = buffer.outOffs then true else buffer.full }

def storeCommand (alloc : Allocations) (buffer : CircularBuffer) (tmpEntry : BufferEntry) :
    Except Fault CircularBuffer := do
  let wi := slotOf buffer.wAbs
  let target := (buffer.entry[wi]?).getD emptyEntry
  kfree target.buffptr
  let stored ← memcpy (kmalloc alloc.target tmpEntry.size) 0 tmpEntry.buffptr tmpEntry.size
  let entry := buffer.entry.setIfInBounds wi ⟨stored, tmpEntry.size⟩
  return advanceCounters { buffer with entry } tmpEntry.size

def aesdCircularBufferAddEntry (alloc : Allocations) (state : BufferState)
    (addEntry : BufferEntry) : Except Fault BufferState := do
  let tmpEntry ← appendToTmp alloc state.tmpEntry addEntry
  let lastChar ← loadLast addEntry.buffptr addEntry.size
  if lastChar = newline then
    let buffer ← storeCommand alloc state.buffer tmpEntry
    let tmpEntry ← aesdInitEntry tmpEntry
    return ⟨buffer, tmpEntry⟩
  else
    return ⟨state.buffer, tmpEntry⟩

/-! `aesd_circular_buffer_free`. -/

def BufferEntry.released (entry : BufferEntry) : BufferEntry :=
  { entry with buffptr := if entry.buffptr = .null then .null else .freed }

/-- The loop over the slots, from slot `i` on. No pointer is reset. -/
def freeSlotsFrom : Nat → Nat → Vector BufferEntry 10 → Except Fault (Vector BufferEntry 10)
  | 0, _, entry => .ok entry
  | remaining + 1, i, entry =>
      match entry[i]? with
      | none => .error .outOfBounds
      | some slot => do
          kfree slot.buffptr
          freeSlotsFrom remaining (i + 1) (entry.setIfInBounds i slot.released)

def aesdCircularBufferFree (buffer : CircularBuffer) : Except Fault CircularBuffer := do
  let entry ← freeSlotsFrom 10 0 buffer.entry
  return { buffer with
    entry
    inOffs := 0
    outOffs := 0
    wAbs := 0
    startAbs := 0
    wCharAbs := 0
    startCharAbs := 0 }

end Aesd
