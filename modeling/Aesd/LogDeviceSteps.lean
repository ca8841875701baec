import Aesd.LogDevice
import Aesd.PositionChecks
import Aesd.ReadChecks
import Aesd.SeekChecks

/-!
The driver against the log it is meant to be. The two answer alike for as long as the window
starts at the right byte and the slots have the sizes of the live commands, in this order.
-/

namespace Aesd

open MachineInt Records Offsets Simulation

/-! What the seek sums, for any command number. -/

theorem sumSizesFrom_slotSizes (buffer : CircularBuffer) {count : Nat} (bound : count ≤ 10) :
    sumSizesFrom buffer count 0 0 = .ok (UInt32.ofNat (before (slotSizes buffer) count)) := by
  have length : ((slotSizes buffer).take count).length = count := by
    simp [slotSizes, bound]
  have entries : ∀ offset (inside : offset < ((slotSizes buffer).take count).length), ∃ entry,
      buffer.entry[0 + offset]? = some entry ∧
        entry.size = ((slotSizes buffer).take count)[offset] := by
    intro offset inside
    have slot : offset < 10 := by omega
    refine ⟨buffer.entry[offset], by simp [slot], ?_⟩
    simp [slotSizes]
  have summed := sumSizesFrom_eq _ 0 0 entries
  rw [length, UInt32.zero_add] at summed
  exact summed

theorem sumSizesFrom_past (buffer : CircularBuffer) :
    ∀ (remaining i : Nat) (byteLen : UInt32), i ≤ 10 → 10 < i + remaining →
      sumSizesFrom buffer remaining i byteLen = .error .outOfBounds := by
  intro remaining
  induction remaining with
  | zero => intro i _ within past; omega
  | succ remaining ih =>
      intro i byteLen within past
      rw [sumSizesFrom]
      split
      · rfl
      next entry found =>
        have bound := getElem?_slot_lt found
        exact ih (i + 1) _ (by omega) (by omega)

theorem Unwrapped.before_slotSizes {buffer : CircularBuffer} {commands : List Bytes}
    (unwrapped : Unwrapped buffer commands) {count : Nat} (bound : count ≤ 10) :
    before (slotSizes buffer) count = before (sizesOf (slotsOf commands)) count := by
  induction count with
  | zero => rfl
  | succ count ih =>
      rw [← before_add_getD, ← before_add_getD, ih (by omega)]
      congr 1
      by_cases used : count < (slotsOf commands).length
      · rw [slotSizes_getD (unwrapped.slot used), sizesOf_getD used]
      · have few : commands.length ≤ count := by
          rw [slotsOf_length] at used
          omega
        rw [slotSizes_getD (unwrapped.unused count few (by omega)),
          List.getD_eq_default _ _ (by rw [sizesOf_length]; omega)]
        rfl

theorem Unwrapped.getBytes_within {buffer : CircularBuffer} {commands : List Bytes}
    (unwrapped : Unwrapped buffer commands) {elemInd : UInt32} (bound : elemInd.toNat ≤ 10)
    (ofsInElem : UInt32) :
    aesdCircularBufferGetBytesToOfs buffer elemInd ofsInElem =
      .ok (UInt32.ofNat (before (sizesOf (slotsOf commands)) elemInd.toNat) + ofsInElem) := by
  rw [aesdCircularBufferGetBytesToOfs, sumSizesFrom_slotSizes buffer bound, ok_bind,
    unwrapped.before_slotSizes bound]
  rfl

theorem getBytes_past (buffer : CircularBuffer) {elemInd : UInt32} (past : 10 < elemInd.toNat)
    (ofsInElem : UInt32) :
    aesdCircularBufferGetBytesToOfs buffer elemInd ofsInElem = .error .outOfBounds := by
  rw [aesdCircularBufferGetBytesToOfs, sumSizesFrom_past buffer _ 0 0 (Nat.zero_le _) (by omega)]
  rfl

/-! The relation. -/

/-- The window of a history starts at its oldest live byte, and the slots, in array order, have
the sizes of the live commands, oldest first. -/
structure InStep (commands : List Bytes) : Prop where
  start : commandSize commands (commands.length - 10) = commandSize commands 0
  sizes : sizesOf (slotsOf commands) = sizesOf (liveOf commands)

theorem InStep.charged {commands : List Bytes} (inStep : InStep commands)
    (count : commands.length < 2 ^ 31) : chargedChars commands = evictedChars commands := by
  have charged : chargedChars commands + commandSize commands 0 =
      evictedChars commands + commandSize commands (commands.length - 10) :=
    charged_add_first (by omega)
  have start := inStep.start
  omega

structure Tracks (sys : Sys) (device : LogDevice) : Prop where
  history : ∃ chunks buffer, sys.Follows chunks buffer ∧ (∀ chunk ∈ chunks, chunk ≠ []) ∧
    commandsOf chunks = device.commands ∧ pendingOf chunks = device.pending
  files : sys.files = device.files

structure Proper (call : Call) : Prop where
  write : ∀ file, call ≠ .write file []
  read : ∀ file, call ≠ .read file 0

theorem proper_iff (call : Call) :
    Proper call ↔ (∀ file, call ≠ .write file []) ∧ ∀ file, call ≠ .read file 0 :=
  ⟨fun proper => ⟨proper.write, proper.read⟩, fun ⟨write, read⟩ => ⟨write, read⟩⟩

/-- What a call needs to be answered as the log answers it. -/
structure Answerable (device : LogDevice) (call : Call) : Prop where
  proper : Proper call
  noWrap : NoWrap device.commands
  inStep : InStep device.commands

theorem Tracks.boot : Tracks Sys.boot LogDevice.boot :=
  ⟨⟨[], zeroedBuffer, Sys.boot_follows, by simp, rfl, rfl⟩, rfl⟩

theorem LogDevice.setFile_files (device : LogDevice) (file : Nat) (filp : File) :
    (device.setFile file filp).files = Function.update device.files file filp := rfl

theorem LogDevice.setFile_same (device : LogDevice) (file : Nat) :
    device.setFile file (device.files file) = device := by
  rw [LogDevice.setFile, Function.update_eq_self]

theorem LogDevice.step_closed {device : LogDevice} {call : Call} (other : call ≠ .openFile call.file)
    (closed : (device.files call.file).privateData = false) :
    device.step call = (LogDevice.refuse call, device) :=
  if_neg (by simp [other, closed])

section

variable {sys : Sys} {device : LogDevice} {call : Call}

theorem Tracks.serve (tracks : Tracks sys device) (call : Call)
    (opened : (sys.files call.file).privateData = true) :
    device.step call = device.serve (sys.files call.file) call := by
  rw [tracks.files] at opened ⊢
  exact if_pos (Or.inr opened)

theorem Tracks.unwrapped (tracks : Tracks sys device) (noWrap : NoWrap device.commands) :
    ∃ chunks buffer, sys.Follows chunks buffer ∧ Unwrapped buffer device.commands := by
  obtain ⟨chunks, buffer, follows, nonempty, commands, -⟩ := tracks.history
  rw [← commands] at noWrap ⊢
  exact ⟨chunks, buffer, follows, follows.unwrapped nonempty noWrap⟩

theorem Tracks.moved (tracks : Tracks sys device) (call : Call) {filp : File} (unwritten : call.chunk sys = [])
    (files : (sys.step call).2.files = Function.update sys.files call.file filp) :
    Tracks (sys.step call).2 (device.setFile call.file filp) := by
  obtain ⟨chunks, buffer, follows, nonempty, commands, pending⟩ := tracks.history
  obtain ⟨after, stepped⟩ := follows.step call
  rw [unwritten, List.append_nil] at stepped
  refine ⟨⟨chunks, after, stepped, nonempty, commands, pending⟩, ?_⟩
  rw [files, tracks.files]
  rfl

theorem Tracks.unmoved (tracks : Tracks sys device) (call : Call) (unwritten : call.chunk sys = [])
    (files : (sys.step call).2.files = Function.update sys.files call.file (sys.files call.file)) :
    Tracks (sys.step call).2 device := by
  have moved := tracks.moved call unwritten files
  rwa [tracks.files, device.setFile_same] at moved

def AnswersAlike (sys : Sys) (device : LogDevice) (call : Call) : Prop :=
  (sys.step call).1 = (device.step call).1 ∧ Tracks (sys.step call).2 (device.step call).2

theorem Tracks.openFile (tracks : Tracks sys device) (file : Nat) :
    AnswersAlike sys device (.openFile file) := by
  have step : device.step (.openFile file) = (.ret 0 [], device.setFile file ⟨true, 0⟩) :=
    if_pos (Or.inl rfl)
  rw [AnswersAlike, step]
  exact ⟨rfl, tracks.moved (.openFile file) rfl rfl⟩

theorem Tracks.closed (tracks : Tracks sys device) (other : call ≠ .openFile call.file)
    (closed : (sys.files call.file).privateData = false) : AnswersAlike sys device call := by
  have same : (device.files call.file).privateData = false := by rw [← tracks.files, closed]
  rw [AnswersAlike, LogDevice.step_closed other same]
  cases call with
  | openFile file => exact absurd rfl other
  | write file buf =>
      have refused : aesdWrite {} sys.dev (sys.files file) buf = (.ret (-enomem) [], sys.dev) := by
        rw [aesdWrite]
        exact if_pos closed
      simp only [Sys.step, refused]
      exact ⟨rfl, tracks⟩
  | read file count =>
      have refused : aesdRead {} sys.dev (sys.files file) count =
          (.fault .nullAccess, sys.dev, sys.files file) := by
        rw [aesdRead]
        exact if_pos closed
      refine ⟨by simp only [Sys.step, refused, LogDevice.refuse], tracks.unmoved _ rfl ?_⟩
      simp only [Sys.step, refused, Sys.setFile, Call.file]
  | llseek file off whence =>
      have refused : aesdLlseek sys.dev (sys.files file) off whence =
          (.ret (-enomem) [], sys.files file) := by
        rw [aesdLlseek]
        exact if_pos closed
      refine ⟨by simp only [Sys.step, refused, LogDevice.refuse], tracks.unmoved _ rfl ?_⟩
      simp only [Sys.step, refused, Sys.setFile, Call.file]
  | ioctl file cmd seekto =>
      have refused : aesdUnlockedIoctl sys.dev (sys.files file) cmd seekto =
          (.ret (-enomem) [], sys.files file) := by
        rw [aesdUnlockedIoctl]
        exact if_pos closed
      refine ⟨by simp only [Sys.step, refused, LogDevice.refuse], tracks.unmoved _ rfl ?_⟩
      simp only [Sys.step, refused, Sys.setFile, Call.file]

theorem Tracks.write (tracks : Tracks sys device) {file : Nat} {buf : Bytes}
    (opened : (sys.files file).privateData = true) (nonempty : buf ≠ []) :
    AnswersAlike sys device (.write file buf) := by
  obtain ⟨chunks, buffer, follows, chunksNonempty, commands, pending⟩ := tracks.history
  obtain ⟨state, -, wrote, followed⟩ := aesdWrite_follows follows opened nonempty
  rw [AnswersAlike, tracks.serve (.write file buf) opened]
  simp only [Sys.step, wrote, LogDevice.serve, true_and]
  refine ⟨⟨chunks ++ [buf], state.buffer, ⟨rfl, followed⟩, ?_, ?_, ?_⟩, ?_⟩
  · intro chunk member
    rcases List.mem_append.mp member with old | new
    · exact chunksNonempty chunk old
    · rwa [List.mem_singleton.mp new]
  · rw [commandsOf_concat, commands, pending, LogDevice.append]
    split <;> rfl
  · rw [pendingOf_concat, pending, LogDevice.append]
    split <;> rfl
  · rw [LogDevice.append]
    split <;> exact tracks.files

theorem aesdRead_refused {dev : AesdDev} {filp : File} {buffer : CircularBuffer}
    (opened : filp.privateData = true) (present : dev.buffer = some buffer)
    (outside : ¬ InWindow buffer filp.fPos) (count : UInt64) :
    aesdRead {} dev filp count = (.ret (-1) [], dev, filp) := by
  have reply : (aesdRead {} dev filp count).1 = .ret (-1) [] :=
    aesdRead_outside opened present outside
  have called := aesdRead_eq opened present
    (raed_outside outside (List.replicate count.toNat 0) count)
  rw [called] at reply ⊢
  dsimp only at reply ⊢
  rw [reply, ← present]

theorem Answerable.keeps_iff (answerable : Answerable device call) {buffer : CircularBuffer}
    (unwrapped : Unwrapped buffer device.commands) (position : Int) :
    device.Keeps position ↔ InWindow buffer position := by
  rw [unwrapped.inWindow_iff, answerable.inStep.charged answerable.noWrap.count]
  rfl

theorem Tracks.read (tracks : Tracks sys device) {file : Nat} {count : UInt64}
    (opened : (sys.files file).privateData = true)
    (answerable : Answerable device (.read file count)) :
    AnswersAlike sys device (.read file count) := by
  obtain ⟨chunks, buffer, follows, unwrapped⟩ := tracks.unwrapped answerable.noWrap
  have asked : 0 < count.toNat := by
    refine Nat.pos_of_ne_zero fun zero => answerable.proper.read file ?_
    rw [UInt64.toNat_inj.mp (show count.toNat = (0 : UInt64).toNat from zero)]
  have served : device.step (.read file count) = device.serve (sys.files file) (.read file count) :=
    tracks.serve _ opened
  rw [AnswersAlike, served, LogDevice.serve]
  by_cases keeps : device.Keeps (sys.files file).fPos
  · obtain ⟨lower, upper⟩ := keeps
    obtain ⟨position, fPos⟩ : ∃ position : Nat, (sys.files file).fPos = position :=
      ⟨(sys.files file).fPos.toNat, by omega⟩
    have exactReads : ExactReads buffer device.commands :=
      unwrapped.exactReads_iff.mpr ⟨answerable.inStep.start, answerable.inStep.sizes⟩
    rw [fPos] at lower upper
    have delivers := exactReads position (by exact_mod_cast lower) (by exact_mod_cast upper) count asked
    have chars := unwrapped.chars
    have short : ((device.commands.flatten.drop position).take count.toNat).length < 2 ^ 63 := by
      rw [List.length_take, List.length_drop]
      omega
    rw [← fPos] at delivers
    obtain ⟨reply, filp⟩ := aesdRead_of_delivers opened follows.present delivers short
    have bytes : device.bytesAt (sys.files file).fPos count =
        (device.commands.flatten.drop position).take count.toNat := by
      rw [LogDevice.bytesAt, fPos, Int.toNat_natCast]
      rfl
    rw [if_pos ⟨by rw [fPos]; exact lower, by rw [fPos]; exact upper⟩, bytes]
    refine ⟨reply, tracks.moved (.read file count) rfl ?_⟩
    simp only [Sys.step, Sys.setFile, filp, Call.file, opened]
  · rw [answerable.keeps_iff unwrapped] at keeps
    have refused := aesdRead_refused opened follows.present keeps count
    rw [if_neg ((answerable.keeps_iff unwrapped _).not.mpr keeps)]
    refine ⟨by simp only [Sys.step, refused], tracks.unmoved (.read file count) rfl ?_⟩
    simp only [Sys.step, refused, Sys.setFile, Call.file]

theorem Tracks.llseek (tracks : Tracks sys device) {file : Nat} {off whence : Int}
    (opened : (sys.files file).privateData = true)
    (answerable : Answerable device (.llseek file off whence)) :
    AnswersAlike sys device (.llseek file off whence) := by
  obtain ⟨chunks, buffer, follows, unwrapped⟩ := tracks.unwrapped answerable.noWrap
  have base : device.base (sys.files file) whence = seekBase buffer (sys.files file) whence := by
    rw [seekBase, unwrapped.startCharAbs, unwrapped.wCharAbs,
      answerable.inStep.charged answerable.noWrap.count]
    rfl
  have sought := aesdLlseek_eq opened follows.present off whence
  have served : device.step (.llseek file off whence) = device.serve (sys.files file) (.llseek file off whence) :=
    tracks.serve _ opened
  rw [AnswersAlike, served, LogDevice.serve, base]
  cases selected : seekBase buffer (sys.files file) whence with
  | some from_ =>
      rw [selected] at sought
      refine ⟨by simp only [Sys.step, sought], tracks.moved (.llseek file off whence) rfl ?_⟩
      simp only [Sys.step, sought, Sys.setFile, Call.file]
  | none =>
      rw [selected] at sought
      refine ⟨by simp only [Sys.step, sought],
        tracks.unmoved (.llseek file off whence) rfl ?_⟩
      simp only [Sys.step, sought, Sys.setFile, Call.file]

theorem aesdUnlockedIoctl_other {dev : AesdDev} {filp : File} {buffer : CircularBuffer}
    (opened : filp.privateData = true) (present : dev.buffer = some buffer) {cmd : UInt32}
    (other : cmd ≠ aesdcharIocseekto) (seekto : AesdSeekto) :
    aesdUnlockedIoctl dev filp cmd seekto = (.ret (-einval) [], filp) := by
  have notClosed : ¬ filp.privateData = false := by simp [opened]
  rw [aesdUnlockedIoctl, if_neg notClosed, present]
  simp only [if_neg other]
  split
  · rfl
  · split
    · rfl
    · rfl

theorem aesdUnlockedIoctl_seekto {dev : AesdDev} {filp : File} {buffer : CircularBuffer}
    (opened : filp.privateData = true) (present : dev.buffer = some buffer) (seekto : AesdSeekto) :
    aesdUnlockedIoctl dev filp aesdcharIocseekto seekto =
      match aesdCircularBufferGetBytesToOfs buffer seekto.writeCmd seekto.writeCmdOffset with
      | .error reason => (.fault reason, filp)
      | .ok bytes =>
          (.ret 0 [], { filp with fPos := ((bytes + buffer.startCharAbs).toNat : Int) }) := by
  have notClosed : ¬ filp.privateData = false := by simp [opened]
  have magic : ¬ iocType aesdcharIocseekto ≠ aesdIocMagic := by decide
  have number : ¬ aesdcharIocMaxnr < iocNr aesdcharIocseekto := by decide
  rw [aesdUnlockedIoctl, if_neg notClosed, present]
  dsimp only
  cases aesdCircularBufferGetBytesToOfs buffer seekto.writeCmd seekto.writeCmdOffset <;>
    simp only [if_neg magic, if_neg number, if_true]

theorem Tracks.ioctl (tracks : Tracks sys device) {file : Nat} {cmd : UInt32} {seekto : AesdSeekto}
    (opened : (sys.files file).privateData = true)
    (answerable : Answerable device (.ioctl file cmd seekto)) :
    AnswersAlike sys device (.ioctl file cmd seekto) := by
  obtain ⟨chunks, buffer, follows, unwrapped⟩ := tracks.unwrapped answerable.noWrap
  have stays (reply : Reply)
      (result : aesdUnlockedIoctl sys.dev (sys.files file) cmd seekto = (reply, sys.files file)) :
      (sys.step (.ioctl file cmd seekto)).1 = reply ∧
        Tracks (sys.step (.ioctl file cmd seekto)).2 device := by
    refine ⟨by simp only [Sys.step, result], tracks.unmoved (.ioctl file cmd seekto) rfl ?_⟩
    simp only [Sys.step, result, Sys.setFile, Call.file]
  have served : device.step (.ioctl file cmd seekto) = device.serve (sys.files file) (.ioctl file cmd seekto) :=
    tracks.serve _ opened
  rw [AnswersAlike, served, LogDevice.serve]
  by_cases known : cmd = aesdcharIocseekto
  · subst cmd
    have sought := aesdUnlockedIoctl_seekto opened follows.present seekto
    rw [if_neg (not_not.mpr rfl)]
    by_cases past : 10 < seekto.writeCmd.toNat
    · rw [getBytes_past buffer past] at sought
      rw [if_pos past]
      exact stays _ sought
    · rw [unwrapped.getBytes_within (Nat.le_of_not_lt past)] at sought
      have position : (UInt32.ofNat (before (sizesOf (slotsOf device.commands))
          seekto.writeCmd.toNat) + seekto.writeCmdOffset + buffer.startCharAbs).toNat =
            seekPosition device.commands seekto := by
        rw [UInt32.toNat_add, UInt32.toNat_add, UInt32.toNat_ofNat', unwrapped.startCharAbs,
          answerable.inStep.sizes, answerable.inStep.charged answerable.noWrap.count,
          seekPosition]
        omega
      rw [if_neg past]
      dsimp only at sought
      rw [position] at sought
      refine ⟨by simp only [Sys.step, sought],
        tracks.moved (.ioctl file aesdcharIocseekto seekto) rfl ?_⟩
      simp only [Sys.step, sought, Sys.setFile, Call.file]
  · rw [if_pos known]
    exact stays _ (aesdUnlockedIoctl_other opened follows.present known seekto)

theorem Tracks.step (tracks : Tracks sys device) (answerable : Answerable device call) :
    AnswersAlike sys device call := by
  by_cases opening : call = .openFile call.file
  · rw [opening]
    exact tracks.openFile call.file
  · by_cases opened : (sys.files call.file).privateData = true
    · cases call with
      | openFile file => exact tracks.openFile file
      | write file buf =>
          refine tracks.write opened fun empty => answerable.proper.write file ?_
          rw [empty]
      | read file count => exact tracks.read opened answerable
      | llseek file off whence => exact tracks.llseek opened answerable
      | ioctl file cmd seekto => exact tracks.ioctl opened answerable
    · exact tracks.closed opening (by simpa using opened)

end

theorem tracks_simulates : Simulates Sys.step LogDevice.step Tracks Answerable where
  reply := fun _ _ _ tracks answerable => (tracks.step answerable).1
  next := fun _ _ _ tracks answerable => (tracks.step answerable).2

end Aesd
