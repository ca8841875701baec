import Aesd.Cells
import Aesd.DriverCore

/-!
The driver over kernel memory with addresses: `aesd_circular_buffer_add_entry`, `aesd_write` and
`aesd_read` with each pointer an address that may be freed, reused or lost, and loading and
unloading the module. The structure `aesd_device.buffer` points to is a block as well; its
fields are kept beside its address.
-/

namespace Aesd

open MachineInt Cells

abbrev Memory := Heap UInt8

abbrev Pointer := Option Nat

structure PointerEntry where
  buffptr : Pointer
  size : Nat
  deriving DecidableEq, Repr

/-- `struct aesd_circular_buffer`. -/
structure PointerBuffer where
  entry : Vector PointerEntry 10
  inOffs : UInt8
  outOffs : UInt8
  full : Bool
  wAbs : UInt32
  startAbs : UInt32
  wCharAbs : UInt32
  startCharAbs : UInt32
  deriving DecidableEq, Repr

/-! Accesses. -/

def Memory.kmalloc (allocator : Allocator UInt8) (succeeds : Bool) (size : Nat) (memory : Memory) :
    Pointer × Memory :=
  if succeeds then (some (allocator.place memory size), allocate allocator memory size)
  else (none, memory)

def Memory.kfree (pointer : Pointer) (memory : Memory) : Except Fault Memory :=
  match pointer with
  | none => .ok memory
  | some address =>
      if address ∈ memory then .ok (memory.erase address) else .error .doubleFree

def Memory.load (pointer : Pointer) (offset count : Nat) (memory : Memory) : Except Fault Bytes :=
  if count = 0 then .ok [] else
    match pointer with
    | none => .error .nullAccess
    | some address =>
        match memory.lookup address with
        | none => .error .useAfterFree
        | some bytes =>
            if offset + count ≤ bytes.length then .ok ((bytes.drop offset).take count)
            else .error .outOfBounds

def Memory.store (pointer : Pointer) (offset : Nat) (values : Bytes) (memory : Memory) :
    Except Fault Memory :=
  if values.length = 0 then .ok memory else
    match pointer with
    | none => .error .nullAccess
    | some address =>
        match memory.lookup address with
        | none => .error .useAfterFree
        | some bytes =>
            if offset + values.length ≤ bytes.length then
              .ok (memory.insert address (overwrite bytes offset values))
            else .error .outOfBounds

def Memory.memcpy (destination : Pointer) (offset : Nat) (source : Pointer) (count : Nat)
    (memory : Memory) : Except Fault Memory := do
  let values ← memory.load source 0 count
  memory.store destination offset values

def Memory.loadLast (pointer : Pointer) (size : Nat) (memory : Memory) : Except Fault UInt8 :=
  if size = 0 then .error .outOfBounds
  else do
    let values ← memory.load pointer (size - 1) 1
    return values.headD 0

/-! `aesd_circular_buffer_add_entry` and what it calls. -/

def PointerEntry.init (entry : PointerEntry) (memory : Memory) :
    Except Fault (PointerEntry × Memory) := do
  let memory ← memory.kfree entry.buffptr
  return (⟨entry.buffptr, 0⟩, memory)

def PointerEntry.carryOver (fresh : Pointer) (tmpEntry : PointerEntry) (memory : Memory) :
    Except Fault Memory :=
  if tmpEntry.buffptr = none then .ok memory
  else memory.memcpy fresh 0 tmpEntry.buffptr tmpEntry.size

def PointerEntry.appendToTmp (allocator : Allocator UInt8) (alloc : Allocations)
    (tmpEntry addEntry : PointerEntry) (memory : Memory) :
    Except Fault (PointerEntry × Memory) := do
  let newSize := tmpEntry.size + addEntry.size
  let (buffptr, memory) := memory.kmalloc allocator alloc.tmp newSize
  let memory ← memory.store buffptr 0 (List.replicate newSize 0)
  let memory ← tmpEntry.carryOver buffptr memory
  let memory ← memory.memcpy buffptr tmpEntry.size addEntry.buffptr addEntry.size
  return (⟨buffptr, newSize⟩, memory)

def PointerBuffer.advanceCounters (buffer : PointerBuffer) (size : Nat) : PointerBuffer :=
  let inOffs := buffer.inOffs + 1
  let evicts := buffer.wAbs - buffer.startAbs ≥ 10
  let startAbs := if evicts then buffer.startAbs + 1 else buffer.startAbs
  let oldest := (buffer.entry[slotOf startAbs]?).getD ⟨none, 0⟩
  let startCharAbs :=
    if evicts then buffer.startCharAbs + UInt32.ofNat oldest.size else buffer.startCharAbs
  let inOffs := if inOffs ≥ 10 then 0 else inOffs
  { buffer with
    inOffs
    startAbs
    startCharAbs
    wAbs := buffer.wAbs + 1
    wCharAbs := buffer.wCharAbs + UInt32.ofNat size
    full := if inOffs = buffer.outOffs then true else buffer.full }

def PointerBuffer.storeCommand (allocator : Allocator UInt8) (alloc : Allocations)
    (buffer : PointerBuffer) (tmpEntry : PointerEntry) (memory : Memory) :
    Except Fault (PointerBuffer × Memory) := do
  let wi := slotOf buffer.wAbs
  let target := (buffer.entry[wi]?).getD ⟨none, 0⟩
  let memory ← memory.kfree target.buffptr
  let (buffptr, memory) := memory.kmalloc allocator alloc.target tmpEntry.size
  let memory ← memory.memcpy buffptr 0 tmpEntry.buffptr tmpEntry.size
  let entry := buffer.entry.setIfInBounds wi ⟨buffptr, tmpEntry.size⟩
  return ({ buffer with entry }.advanceCounters tmpEntry.size, memory)

structure HeapState where
  memory : Memory
  buffer : PointerBuffer
  tmpEntry : PointerEntry

def HeapState.addEntry (allocator : Allocator UInt8) (alloc : Allocations) (state : HeapState)
    (addEntry : PointerEntry) : Except Fault HeapState := do
  let (tmpEntry, memory) ← state.tmpEntry.appendToTmp allocator alloc addEntry state.memory
  let lastChar ← memory.loadLast addEntry.buffptr addEntry.size
  if lastChar = newline then
    let (buffer, memory) ← state.buffer.storeCommand allocator alloc tmpEntry memory
    let (tmpEntry, memory) ← tmpEntry.init memory
    return ⟨memory, buffer, tmpEntry⟩
  else
    return ⟨memory, state.buffer, tmpEntry⟩

/-! The buffer as its pointers see it: a pointer owns the block at its address. -/

def PointerEntry.view (entry : PointerEntry) (memory : Memory) : BufferEntry :=
  match entry.buffptr with
  | none => ⟨.null, entry.size⟩
  | some address =>
      match memory.lookup address with
      | none => ⟨.freed, entry.size⟩
      | some bytes => ⟨.block bytes, entry.size⟩

def PointerBuffer.view (buffer : PointerBuffer) (memory : Memory) : CircularBuffer where
  entry := buffer.entry.map fun entry => entry.view memory
  inOffs := buffer.inOffs
  outOffs := buffer.outOffs
  full := buffer.full
  wAbs := buffer.wAbs
  startAbs := buffer.startAbs
  wCharAbs := buffer.wCharAbs
  startCharAbs := buffer.startCharAbs

/-- The counters that a read has moved. -/
def PointerBuffer.adopt (buffer : PointerBuffer) (read : CircularBuffer) : PointerBuffer :=
  { buffer with outOffs := read.outOffs, full := read.full }

/-! The file operations. A step without a defined outcome leaves the memory as it was. -/

structure HeapSys where
  memory : Memory
  /-- `aesd_device.buffer`: the address and, beside it, the fields -/
  buffer : Option (Nat × PointerBuffer)
  tmpEntry : PointerEntry
  files : Nat → File

def HeapSys.view (sys : HeapSys) : AesdDev :=
  ⟨sys.buffer.map fun (_, buffer) => buffer.view sys.memory, sys.tmpEntry.view sys.memory⟩

def HeapSys.setFile (sys : HeapSys) (file : Nat) (filp : File) : HeapSys :=
  { sys with files := Function.update sys.files file filp }

def HeapSys.fill (allocator : Allocator UInt8) (outcomes : WriteOutcomes) (sys : HeapSys)
    (address : Nat) (buffer : PointerBuffer) (buf : Bytes) : Except Fault (Int × HeapSys) := do
  let (kbuf, memory) := sys.memory.kmalloc allocator outcomes.kmalloc buf.length
  if kbuf = none then return (-enomem, sys)
  else do
    let _ ← loadLast (.block buf) buf.length
    if outcomes.accessOk = false then
      let memory ← memory.kfree kbuf
      return (-efault, { sys with memory })
    else do
      let memory ← memory.store kbuf 0 (List.replicate buf.length 0)
      if outcomes.copyFromUser = false then
        let memory ← memory.kfree kbuf
        return (-enomem, { sys with memory })
      else do
        let memory ← memory.store kbuf 0 buf
        let state ← HeapState.addEntry allocator outcomes.alloc ⟨memory, buffer, sys.tmpEntry⟩
          ⟨kbuf, buf.length⟩
        let memory ← state.memory.kfree kbuf
        return (buf.length,
          { sys with memory, buffer := some (address, state.buffer), tmpEntry := state.tmpEntry })

/-- `aesd_write`. -/
def HeapSys.write (allocator : Allocator UInt8) (outcomes : WriteOutcomes) (sys : HeapSys)
    (filp : File) (buf : Bytes) : Reply × HeapSys :=
  if filp.privateData = false then (.ret (-enomem) [], sys)
  else match sys.buffer with
  | none => (.ret (-enomem) [], sys)
  | some (address, buffer) =>
      match sys.fill allocator outcomes address buffer buf with
      | .error reason => (.fault reason, sys)
      | .ok (ret, sys) => (.ret ret [], sys)

/-- The copy out of `kbuf`, once the loops have filled it. -/
def Memory.copyOut (outcomes : ReadOutcomes) (kbuf : Pointer) (filled : Bytes) (ret : Nat)
    (memory : Memory) : Except Fault (Reply × Memory) := do
  let memory ← memory.store kbuf 0 filled
  let retval := toLong ret
  if 0 < retval then
    let bytes ← memory.load kbuf 0 ret
    let memory ← memory.kfree kbuf
    return (if outcomes.copyToUser then .ret retval bytes else .ret (-enomem) [], memory)
  else
    let memory ← memory.kfree kbuf
    return (.ret retval [], memory)

/-- `aesd_read`. -/
def HeapSys.read (allocator : Allocator UInt8) (outcomes : ReadOutcomes) (sys : HeapSys)
    (filp : File) (count : UInt64) : Reply × HeapSys × File :=
  if filp.privateData = false then (.fault .nullAccess, sys, filp)
  else match sys.buffer with
  | none => (.ret (-enomem) [], sys, filp)
  | some (address, buffer) =>
      let (kbuf, memory) := sys.memory.kmalloc allocator outcomes.kmalloc count.toNat
      if kbuf = none then (.ret (-enomem) [], sys, filp)
      else
        let zeros := List.replicate count.toNat 0
        match memory.store kbuf 0 zeros with
        | .error reason => (.fault reason, sys, filp)
        | .ok memory =>
            let shown := buffer.view memory
            match aesdCircularBufferRaed shown zeros count filp.fPos with
            | none => (.fault .endless, sys, filp)
            | some read =>
                let filp := { filp with fPos := read.fPos }
                let sys := { sys with buffer := some (address, buffer.adopt read.buffer) }
                match read.result shown zeros with
                | none => (.fault .outOfBounds, sys, filp)
                | some filled =>
                    match memory.copyOut outcomes kbuf filled read.ret with
                    | .error reason => (.fault reason, sys, filp)
                    | .ok (reply, memory) => (reply, { sys with memory }, filp)

def HeapSys.attempt (allocator : Allocator UInt8) (sys : HeapSys) (attempt : Attempt) :
    Reply × HeapSys :=
  match attempt.call with
  | .openFile file => (.ret 0 [], sys.setFile file (aesdOpen ⟨false, 0⟩))
  | .write file buf => sys.write allocator attempt.writes (sys.files file) buf
  | .read file count =>
      let (reply, sys, filp) := sys.read allocator attempt.reads (sys.files file) count
      (reply, sys.setFile file filp)
  | .llseek file off whence =>
      let (reply, filp) := aesdLlseek sys.view (sys.files file) off whence
      (reply, sys.setFile file filp)
  | .ioctl file cmd seekto =>
      let (reply, filp) := aesdUnlockedIoctl sys.view (sys.files file) cmd seekto
      (reply, sys.setFile file filp)

/-! Loading and unloading. -/

structure InitOutcomes where
  allocRegion : Bool := true
  kmalloc : Bool := true
  cdevAdd : Bool := true
  deriving DecidableEq, Repr

/-- `sizeof(struct aesd_circular_buffer)` -/
def bufferBytes : Nat := 184

def zeroedPointers : PointerBuffer where
  entry := Vector.replicate 10 ⟨none, 0⟩
  inOffs := 0
  outOffs := 0
  full := false
  wAbs := 0
  startAbs := 0
  wCharAbs := 0
  startCharAbs := 0

/-- The memory and the module's data, which count while it is loaded, and how many regions of
device numbers have been taken and not given back. -/
structure Kernel where
  sys : HeapSys
  regions : Nat
  loaded : Bool

/-- The module's data as it is loaded into the kernel, before `aesd_init_module`. -/
def HeapSys.fresh (memory : Memory) : HeapSys := ⟨memory, none, ⟨none, 0⟩, fun _ => ⟨false, 0⟩⟩

/-- `aesd_init_module`, from the allocation on: whether it succeeds, and the regions it keeps. -/
def HeapSys.initDevice (allocator : Allocator UInt8) (outcomes : InitOutcomes) (sys : HeapSys) :
    Except Fault (Bool × Nat × HeapSys) :=
  match sys.memory.kmalloc allocator outcomes.kmalloc bufferBytes with
  | (none, _) => .ok (false, 1, sys)
  | (some address, memory) => do
      let memory ← memory.store (some address) 0 (List.replicate bufferBytes 0)
      let (tmpEntry, memory) ← sys.tmpEntry.init memory
      let sys := { sys with memory, buffer := some (address, zeroedPointers), tmpEntry }
      -- the buffer is not released when the device cannot be added
      return (outcomes.cdevAdd, if outcomes.cdevAdd then 1 else 0, sys)

inductive KernelEvent where
  | insmod (outcomes : InitOutcomes)
  | rmmod
  | call (attempt : Attempt)
  deriving DecidableEq, Repr

def Kernel.boot (memory : Memory) : Kernel := ⟨HeapSys.fresh memory, 0, false⟩

def Kernel.insmod (allocator : Allocator UInt8) (outcomes : InitOutcomes) (kernel : Kernel) :
    Except Fault Kernel :=
  if outcomes.allocRegion = false then .ok kernel
  else do
    let (loaded, kept, sys) ←
      (HeapSys.fresh kernel.sys.memory).initDevice allocator outcomes
    return ⟨sys, kernel.regions + kept, loaded⟩

/-- `aesd_cleanup_module`. Nobody has the device open, or the kernel would not unload it. -/
def Kernel.rmmod (kernel : Kernel) : Except Fault Kernel := do
  let memory ← kernel.sys.memory.kfree (kernel.sys.buffer.map (·.1))
  return ⟨HeapSys.fresh memory, kernel.regions - 1, false⟩

/-- Loading a module that is loaded and unloading one that is not are refused; without the
module no call reaches it. -/
def Kernel.step (allocator : Allocator UInt8) (kernel : Kernel) (event : KernelEvent) :
    Except Fault Kernel :=
  match event, kernel.loaded with
  | .insmod outcomes, false => kernel.insmod allocator outcomes
  | .rmmod, true => kernel.rmmod
  | .call attempt, true => .ok { kernel with sys := (kernel.sys.attempt allocator attempt).2 }
  | _, _ => .ok kernel

def Kernel.run (allocator : Allocator UInt8) (kernel : Kernel) (events : List KernelEvent) :
    Except Fault Kernel :=
  events.foldlM (Kernel.step allocator) kernel

end Aesd
