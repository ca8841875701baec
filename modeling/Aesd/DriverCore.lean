import Aesd.ReadCore

/-!
The file operations of `main.c` over one `aesd_device`, and runs of calls on any
number of open files. A call is atomic; `kmalloc`, `access_ok` and the user copies
have the outcomes a call is given. Device numbers and `cdev` registration are left out.
-/

namespace Aesd

open MachineInt

def enomem : Int := 12
def efault : Int := 14
def einval : Int := 22

structure AesdDev where
  buffer : Option CircularBuffer
  tmpEntry : BufferEntry
  deriving DecidableEq, Repr

structure File where
  privateData : Bool
  fPos : Int
  deriving DecidableEq, Repr

inductive Reply where
  | ret (value : Int) (bytes : Bytes)
  | fault (reason : Fault)
  deriving DecidableEq, Repr

/-- The device after `aesd_init_module`; `tmp_entry` starts as zeroed static storage. -/
def aesdInitModule : AesdDev :=
  match aesdCircularBufferInit emptyEntry with
  | .ok state => ⟨some state.buffer, state.tmpEntry⟩
  | .error _ => ⟨none, emptyEntry⟩

def aesdOpen (filp : File) : File := { filp with privateData := true }

structure ReadOutcomes where
  kmalloc : Bool := true
  copyToUser : Bool := true
  deriving DecidableEq, Repr

def aesdRead (outcomes : ReadOutcomes) (dev : AesdDev) (filp : File) (count : UInt64) :
    Reply × AesdDev × File :=
  if filp.privateData = false then (.fault .nullAccess, dev, filp)
  else match dev.buffer with
  | none => (.ret (-enomem) [], dev, filp)
  | some buffer =>
      if outcomes.kmalloc = false then (.ret (-enomem) [], dev, filp)
      else
        let kbuf := List.replicate count.toNat 0
        match aesdCircularBufferRaed buffer kbuf count filp.fPos with
        | none => (.fault .endless, dev, filp)
        | some read =>
            let dev := { dev with buffer := some read.buffer }
            let filp := { filp with fPos := read.fPos }
            let retval := toLong read.ret
            match read.result buffer kbuf with
            | none => (.fault .outOfBounds, dev, filp)
            | some kbuf =>
                if 0 < retval then
                  if outcomes.copyToUser then (.ret retval (kbuf.take read.ret), dev, filp)
                  else (.ret (-enomem) [], dev, filp)
                else (.ret retval [], dev, filp)

structure WriteOutcomes where
  kmalloc : Bool := true
  accessOk : Bool := true
  copyFromUser : Bool := true
  alloc : Allocations := {}
  deriving DecidableEq, Repr

/-- `aesd_write`. The user's last byte is read before any check of the pointer. -/
def aesdWrite (outcomes : WriteOutcomes) (dev : AesdDev) (filp : File) (buf : Bytes) :
    Reply × AesdDev :=
  if filp.privateData = false then (.ret (-enomem) [], dev)
  else match dev.buffer with
  | none => (.ret (-enomem) [], dev)
  | some buffer =>
      if outcomes.kmalloc = false then (.ret (-enomem) [], dev)
      else match loadLast (.block buf) buf.length with
      | .error reason => (.fault reason, dev)
      | .ok _ =>
          if outcomes.accessOk = false then (.ret (-efault) [], dev)
          else if outcomes.copyFromUser = false then (.ret (-enomem) [], dev)
          else match aesdCircularBufferAddEntry outcomes.alloc ⟨buffer, dev.tmpEntry⟩
              ⟨.block buf, buf.length⟩ with
          | .error reason => (.fault reason, dev)
          | .ok state => (.ret buf.length [], ⟨some state.buffer, state.tmpEntry⟩)

def seekSet : Int := 0
def seekCur : Int := 1
def seekEnd : Int := 2

def aesdLlseek (dev : AesdDev) (filp : File) (off whence : Int) : Reply × File :=
  if filp.privateData = false then (.ret (-enomem) [], filp)
  else match dev.buffer with
  | none => (.ret (-enomem) [], filp)
  | some buffer =>
      let seek (newpos : Int) : Reply × File := (.ret newpos [], { filp with fPos := newpos })
      if whence = seekSet then seek (toLong (buffer.startCharAbs.toNat + off))
      else if whence = seekCur then seek (toLong (filp.fPos + off))
      else if whence = seekEnd then seek (toLong (buffer.wCharAbs.toNat + off))
      else (.ret (-einval) [], filp)

structure AesdSeekto where
  writeCmd : UInt32
  writeCmdOffset : UInt32
  deriving DecidableEq, Repr

def aesdIocMagic : UInt32 := 0x16
def aesdcharIocMaxnr : UInt32 := 1

/-- `_IOWR(AESD_IOC_MAGIC, 1, struct aesd_seekto)`. -/
def aesdcharIocseekto : UInt32 :=
  (3 : UInt32) <<< 30 ||| (8 : UInt32) <<< 16 ||| aesdIocMagic <<< 8 ||| 1

def iocType (cmd : UInt32) : UInt32 := (cmd >>> 8) &&& 0xff
def iocNr (cmd : UInt32) : UInt32 := cmd &&& 0xff

def aesdUnlockedIoctl (dev : AesdDev) (filp : File) (cmd : UInt32) (seekto : AesdSeekto) :
    Reply × File :=
  if filp.privateData = false then (.ret (-enomem) [], filp)
  else match dev.buffer with
  | none => (.ret (-enomem) [], filp)
  | some buffer =>
      if iocType cmd ≠ aesdIocMagic then (.ret (-einval) [], filp)
      else if aesdcharIocMaxnr < iocNr cmd then (.ret (-einval) [], filp)
      else if cmd = aesdcharIocseekto then
        match aesdCircularBufferGetBytesToOfs buffer seekto.writeCmd seekto.writeCmdOffset with
        | .error reason => (.fault reason, filp)
        | .ok bytes =>
            (.ret 0 [], { filp with fPos := ((bytes + buffer.startCharAbs).toNat : Int) })
      else (.ret (-einval) [], filp)

/-! Runs of calls. -/

structure Sys where
  dev : AesdDev
  files : Nat → File

def Sys.boot : Sys := ⟨aesdInitModule, fun _ => ⟨false, 0⟩⟩

inductive Call where
  | openFile (file : Nat)
  | write (file : Nat) (buf : Bytes)
  | read (file : Nat) (count : UInt64)
  | llseek (file : Nat) (off whence : Int)
  | ioctl (file : Nat) (cmd : UInt32) (seekto : AesdSeekto)
  deriving DecidableEq, Repr

def Call.file : Call → Nat
  | .openFile file => file
  | .write file _ => file
  | .read file _ => file
  | .llseek file _ _ => file
  | .ioctl file _ _ => file

def Sys.setFile (sys : Sys) (file : Nat) (filp : File) : Sys :=
  { sys with files := Function.update sys.files file filp }

/-- One call in which every allocation and user copy succeeds. -/
def Sys.step (sys : Sys) : Call → Reply × Sys
  | .openFile file => (.ret 0 [], sys.setFile file (aesdOpen ⟨false, 0⟩))
  | .write file buf =>
      let (reply, dev) := aesdWrite {} sys.dev (sys.files file) buf
      (reply, { sys with dev })
  | .read file count =>
      let (reply, dev, filp) := aesdRead {} sys.dev (sys.files file) count
      (reply, { sys with dev }.setFile file filp)
  | .llseek file off whence =>
      let (reply, filp) := aesdLlseek sys.dev (sys.files file) off whence
      (reply, sys.setFile file filp)
  | .ioctl file cmd seekto =>
      let (reply, filp) := aesdUnlockedIoctl sys.dev (sys.files file) cmd seekto
      (reply, sys.setFile file filp)

/-- A call and the outcomes of what it calls. -/
structure Attempt where
  call : Call
  reads : ReadOutcomes := {}
  writes : WriteOutcomes := {}
  deriving DecidableEq, Repr

def Sys.attempt (sys : Sys) (attempt : Attempt) : Reply × Sys :=
  match attempt.call with
  | .write file buf =>
      let (reply, dev) := aesdWrite attempt.writes sys.dev (sys.files file) buf
      (reply, { sys with dev })
  | .read file count =>
      let (reply, dev, filp) := aesdRead attempt.reads sys.dev (sys.files file) count
      (reply, { sys with dev }.setFile file filp)
  | call => sys.step call

def Sys.run (sys : Sys) (calls : List Call) : Sys :=
  calls.foldl (fun sys call => (sys.step call).2) sys

def Call.chunk (sys : Sys) : Call → List Bytes
  | .write file buf => if (sys.files file).privateData then [buf] else []
  | _ => []

def Sys.chunks (sys : Sys) : List Call → List Bytes
  | [] => []
  | call :: calls => call.chunk sys ++ (sys.step call).2.chunks calls

/-- The command that a write stored: the one in the slot `w_abs` named before it moved. -/
def storedCommand (before after : AesdDev) : List Bytes :=
  match before.buffer, after.buffer with
  | some before, some after =>
      if before.wAbs = after.wAbs then []
      else match after.entry[slotOf before.wAbs]? with
      | some ⟨.block bytes, _⟩ => [bytes]
      | _ => []
  | _, _ => []

/-- The commands that the device stores during a run; it keeps the last ten. -/
def Sys.stored (sys : Sys) : List Call → List Bytes
  | [] => []
  | call :: calls =>
      storedCommand sys.dev (sys.step call).2.dev ++ (sys.step call).2.stored calls

def AesdDev.pending (dev : AesdDev) : Bytes :=
  match dev.tmpEntry.buffptr with
  | .block bytes => bytes.take dev.tmpEntry.size
  | _ => []

def NonemptyWrites (calls : List Call) : Prop := ∀ file, Call.write file [] ∉ calls

/-! Runs of the circular buffer alone. -/

inductive BufferCall where
  | add (chunk : Bytes)
  | read (resultBuf : Bytes) (len : UInt64) (fPos : Int)
  deriving DecidableEq, Repr

def BufferState.step (state : BufferState) : BufferCall → Except Fault BufferState
  | .add chunk => aesdCircularBufferAddEntry {} state ⟨.block chunk, chunk.length⟩
  | .read resultBuf len fPos =>
      match aesdCircularBufferRaed state.buffer resultBuf len fPos with
      | none => .error .endless
      | some read => .ok { state with buffer := read.buffer }

def runBuffer (calls : List BufferCall) : Except Fault BufferState := do
  let state ← aesdCircularBufferInit emptyEntry
  calls.foldlM BufferState.step state

def addedChunks (calls : List BufferCall) : List Bytes :=
  calls.filterMap fun
    | .add chunk => some chunk
    | .read _ _ _ => none

end Aesd
