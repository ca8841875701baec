import Aesd.DriverCore
import Aesd.Simulation
import Aesd.Window

/-!
What the device is for: a log of commands of which the last ten are kept. A position counts
bytes from the first command ever, so it names the same byte for as long as that is kept.
-/

namespace Aesd

open MachineInt Offsets Simulation

structure LogDevice where
  commands : List Bytes
  pending : Bytes
  files : Nat → File

def LogDevice.boot : LogDevice := ⟨[], [], fun _ => ⟨false, 0⟩⟩

/-- All that was ever committed. -/
def LogDevice.stream (device : LogDevice) : Bytes := device.commands.flatten

def LogDevice.start (device : LogDevice) : Nat := evictedChars device.commands

def LogDevice.setFile (device : LogDevice) (file : Nat) (filp : File) : LogDevice :=
  { device with files := Function.update device.files file filp }

def LogDevice.append (device : LogDevice) (buf : Bytes) : LogDevice :=
  if endsCommand buf then
    { device with commands := device.commands ++ [device.pending ++ buf], pending := [] }
  else { device with pending := device.pending ++ buf }

def LogDevice.Keeps (device : LogDevice) (position : Int) : Prop :=
  (device.start : Int) ≤ position ∧ position ≤ device.stream.length

instance (device : LogDevice) (position : Int) : Decidable (device.Keeps position) :=
  inferInstanceAs (Decidable (_ ∧ _))

def LogDevice.bytesAt (device : LogDevice) (position : Int) (count : UInt64) : Bytes :=
  (device.stream.drop position.toNat).take count.toNat

def LogDevice.base (device : LogDevice) (filp : File) (whence : Int) : Option Int :=
  if whence = seekSet then some device.start
  else if whence = seekCur then some filp.fPos
  else if whence = seekEnd then some device.stream.length
  else none

/-- The position of a byte of a live command. -/
def seekPosition (commands : List Bytes) (seekto : AesdSeekto) : Nat :=
  (before (sizesOf (liveOf commands)) seekto.writeCmd.toNat +
    seekto.writeCmdOffset.toNat + evictedChars commands) % 2 ^ 32

/-- A call on a file that is open. A command number past ten has no defined outcome. -/
def LogDevice.serve (device : LogDevice) (filp : File) : Call → Reply × LogDevice
  | .openFile file => (.ret 0 [], device.setFile file ⟨true, 0⟩)
  | .write _ buf => (.ret buf.length [], device.append buf)
  | .read file count =>
      if device.Keeps filp.fPos then
        (.ret (device.bytesAt filp.fPos count).length (device.bytesAt filp.fPos count),
          device.setFile file
            { filp with fPos := filp.fPos + (device.bytesAt filp.fPos count).length })
      else (.ret (-1) [], device)
  | .llseek file off whence =>
      match device.base filp whence with
      | some base =>
          (.ret (toLong (base + off)) [],
            device.setFile file { filp with fPos := toLong (base + off) })
      | none => (.ret (-einval) [], device)
  | .ioctl file cmd seekto =>
      if cmd ≠ aesdcharIocseekto then (.ret (-einval) [], device)
      else if 10 < seekto.writeCmd.toNat then (.fault .outOfBounds, device)
      else (.ret 0 [], device.setFile file { filp with fPos := seekPosition device.commands seekto })

def LogDevice.refuse : Call → Reply
  | .read _ _ => .fault .nullAccess
  | _ => .ret (-enomem) []

def LogDevice.step (device : LogDevice) (call : Call) : Reply × LogDevice :=
  if call = .openFile call.file ∨ (device.files call.file).privateData = true then
    device.serve (device.files call.file) call
  else (LogDevice.refuse call, device)

def LogDevice.replies (device : LogDevice) (calls : List Call) : List Reply :=
  Simulation.replies LogDevice.step device calls

def LogDevice.run (device : LogDevice) (calls : List Call) : LogDevice :=
  after LogDevice.step device calls

def Sys.replies (sys : Sys) (calls : List Call) : List Reply :=
  Simulation.replies Sys.step sys calls

/-! One reader among any other calls. -/

/-- The bytes that the reads of one file return. -/
def received (file : Nat) : List Call → List Reply → Bytes
  | .read target _ :: calls, .ret _ bytes :: replies =>
      if target = file then bytes ++ received file calls replies else received file calls replies
  | _ :: calls, _ :: replies => received file calls replies
  | _, _ => []

end Aesd
