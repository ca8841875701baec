import Aesd.Interference

/-!
Positions that a caller asks for: the pair of `AESDCHAR_IOCSEEKTO`, and the offset of
`aesd_llseek`, which is added to a base that `whence` selects.
-/

namespace Aesd

open MachineInt

/-! Pairs that name no byte of a live command. -/

def Missing (commands : List Bytes) (seekto : AesdSeekto) : Prop :=
  (liveOf commands).length ≤ seekto.writeCmd.toNat ∨
    ((liveOf commands).getD seekto.writeCmd.toNat []).length ≤ seekto.writeCmdOffset.toNat

/-- A negative error, and neither the file nor the device has changed. A slot past the ten is
not read, since that would be a fault and not a returned value. -/
def Rejects (sys : Sys) (file : Nat) (seekto : AesdSeekto) : Prop :=
  ∃ error < 0, sys.step (.ioctl file aesdcharIocseekto seekto) = (.ret error [], sys)

theorem aesdUnlockedIoctl_reply {dev : AesdDev} {filp : File} {buffer : CircularBuffer}
    (opened : filp.privateData = true) (present : dev.buffer = some buffer) (seekto : AesdSeekto) :
    (aesdUnlockedIoctl dev filp aesdcharIocseekto seekto).1 =
      match aesdCircularBufferGetBytesToOfs buffer seekto.writeCmd seekto.writeCmdOffset with
      | .error reason => .fault reason
      | .ok _ => .ret 0 [] := by
  have magic : iocType aesdcharIocseekto = aesdIocMagic := by decide
  have number : ¬ aesdcharIocMaxnr < iocNr aesdcharIocseekto := by decide
  simp only [aesdUnlockedIoctl, opened, present, magic, number]
  simp only [Bool.true_eq_false, if_false, ne_eq, not_true_eq_false, if_true]
  cases aesdCircularBufferGetBytesToOfs buffer seekto.writeCmd seekto.writeCmdOffset <;> rfl

theorem rejects_iff {sys : Sys} {buffer : CircularBuffer} (present : sys.dev.buffer = some buffer)
    (file : Nat) (seekto : AesdSeekto) :
    Rejects sys file seekto ↔ (sys.files file).privateData = false := by
  constructor
  · rintro ⟨error, negative, rejected⟩
    by_contra unset
    have opened : (sys.files file).privateData = true := by simpa using unset
    have reply := congrArg Prod.fst rejected
    rw [Sys.step, aesdUnlockedIoctl_reply opened present] at reply
    split at reply
    · cases reply
    · cases reply
      omega
  · intro closed
    refine ⟨-enomem, by decide, ?_⟩
    have refused : aesdUnlockedIoctl sys.dev (sys.files file) aesdcharIocseekto seekto =
        (.ret (-enomem) [], sys.files file) := by simp [aesdUnlockedIoctl, closed]
    simp only [Sys.step, refused, Sys.setFile, Function.update_eq_self]

theorem boot_run_rejects_iff (calls : List Call) (file : Nat) (seekto : AesdSeekto) :
    Missing (commandsIn calls) seekto →
      (Rejects (Sys.boot.run calls) file seekto ↔
        ((Sys.boot.run calls).files file).privateData = false) := by
  intro _
  obtain ⟨buffer, follows⟩ := boot_run_follows calls
  exact rejects_iff follows.present file seekto

def oneCommandCalls : List Call := [.openFile 0, .write 0 [97, 10]]

theorem boot_run_rejects_iff_oneCommand :
    Rejects (Sys.boot.run oneCommandCalls) 0 ⟨1, 0⟩ ↔
      ((Sys.boot.run oneCommandCalls).files 0).privateData = false :=
  boot_run_rejects_iff oneCommandCalls 0 ⟨1, 0⟩ (Or.inl (by decide))

/-- One command is live. Command 1 does not exist and the ioctl returns 0; command 11 does not
either and the sum reads slot 10. -/
theorem rejects_fails_oneCommand :
    ((Sys.boot.run oneCommandCalls).step (.ioctl 0 aesdcharIocseekto ⟨1, 0⟩)).1 = .ret 0 [] ∧
      ((Sys.boot.run oneCommandCalls).step (.ioctl 0 aesdcharIocseekto ⟨11, 0⟩)).1 =
        .fault .outOfBounds ∧
      Missing (commandsIn oneCommandCalls) ⟨1, 0⟩ ∧
      ¬ Rejects (Sys.boot.run oneCommandCalls) 0 ⟨1, 0⟩ := by
  have accepted : ((Sys.boot.run oneCommandCalls).step (.ioctl 0 aesdcharIocseekto ⟨1, 0⟩)).1 =
      .ret 0 [] := by decide +kernel
  refine ⟨accepted, by decide +kernel, Or.inl (by decide), ?_⟩
  rintro ⟨error, negative, rejected⟩
  rw [rejected] at accepted
  cases accepted
  omega

/-! Where `aesd_llseek` lands. -/

def seekBase (buffer : CircularBuffer) (filp : File) (whence : Int) : Option Int :=
  if whence = seekSet then some buffer.startCharAbs.toNat
  else if whence = seekCur then some filp.fPos
  else if whence = seekEnd then some buffer.wCharAbs.toNat
  else none

theorem seekBase_set (buffer : CircularBuffer) (filp : File) :
    seekBase buffer filp seekSet = some (buffer.startCharAbs.toNat : Int) := rfl

theorem seekBase_cur (buffer : CircularBuffer) (filp : File) :
    seekBase buffer filp seekCur = some filp.fPos := rfl

theorem seekBase_end (buffer : CircularBuffer) (filp : File) :
    seekBase buffer filp seekEnd = some (buffer.wCharAbs.toNat : Int) := rfl

theorem aesdLlseek_eq {dev : AesdDev} {filp : File} {buffer : CircularBuffer}
    (opened : filp.privateData = true) (present : dev.buffer = some buffer) (off whence : Int) :
    aesdLlseek dev filp off whence =
      match seekBase buffer filp whence with
      | some base => (.ret (toLong (base + off)) [], { filp with fPos := toLong (base + off) })
      | none => (.ret (-einval) [], filp) := by
  have notClosed : ¬ filp.privateData = false := by simp [opened]
  rw [aesdLlseek, if_neg notClosed, present]
  simp only [seekBase]
  by_cases set : whence = seekSet
  · simp only [if_pos set]
  · simp only [if_neg set]
    by_cases current : whence = seekCur
    · simp only [if_pos current]
    · simp only [if_neg current]
      by_cases final : whence = seekEnd
      · simp only [if_pos final]
      · simp only [if_neg final]

def LandsOrFails (dev : AesdDev) (buffer : CircularBuffer) (filp : File) (off whence : Int) :
    Prop :=
  (∃ error < 0, aesdLlseek dev filp off whence = (.ret error [], filp)) ∨
    ∃ newpos : Int,
      aesdLlseek dev filp off whence = (.ret newpos [], { filp with fPos := newpos }) ∧
      (buffer.startCharAbs.toNat : Int) ≤ newpos ∧ newpos ≤ (buffer.wCharAbs.toNat : Int) ∧
      ∀ base, seekBase buffer filp whence = some base → newpos = base + off

def OffsetFits (buffer : CircularBuffer) (filp : File) (off whence : Int) : Prop :=
  ∀ base, seekBase buffer filp whence = some base →
    ((buffer.startCharAbs.toNat : Int) ≤ base + off ∧
        base + off ≤ (buffer.wCharAbs.toNat : Int)) ∨
      (filp.fPos < 0 ∧ off = toLong (filp.fPos - base))

theorem toLong_add_toLong (base value : Int) : toLong (base + toLong value) = toLong (base + value) :=
  Int.add_bmod_bmod

theorem landsOrFails_iff {dev : AesdDev} {filp : File} {buffer : CircularBuffer} {off : Int}
    (opened : filp.privateData = true) (present : dev.buffer = some buffer)
    (position : -2 ^ 63 ≤ filp.fPos ∧ filp.fPos < 2 ^ 63) (offset : -2 ^ 63 ≤ off ∧ off < 2 ^ 63)
    (whence : Int) :
    LandsOrFails dev buffer filp off whence ↔ OffsetFits buffer filp off whence := by
  have startWidth := buffer.startCharAbs.toNat_lt
  have width := buffer.wCharAbs.toNat_lt
  unfold LandsOrFails OffsetFits
  rw [aesdLlseek_eq opened present]
  cases seekBase buffer filp whence with
  | none =>
      constructor
      · rintro - base impossible
        cases impossible
      · intro _
        exact Or.inl ⟨-einval, by decide, rfl⟩
  | some base =>
      simp only [Prod.mk.injEq, Reply.ret.injEq, and_true, Option.some.injEq, forall_eq']
      constructor
      · rintro (⟨error, negative, rfl, same⟩ | ⟨newpos, ⟨landed, -⟩, lower, upper, exact⟩)
        · have stayed : toLong (base + off) = filp.fPos := congrArg File.fPos same
          refine Or.inr ⟨by omega, ?_⟩
          have back : toLong (filp.fPos - base) = toLong off := by
            rw [← stayed, sub_eq_neg_add, toLong_add_toLong]
            congr 1
            omega
          rw [back, toLong_of_bounds offset.1 offset.2]
        · exact Or.inl ⟨by omega, by omega⟩
      · rintro (⟨lower, upper⟩ | ⟨negative, difference⟩)
        · have landed : toLong (base + off) = base + off := toLong_of_bounds (by omega) (by omega)
          exact Or.inr ⟨base + off, ⟨landed, by rw [landed]⟩, lower, upper, rfl⟩
        · have stays : toLong (base + off) = filp.fPos := by
            rw [difference, toLong_add_toLong, add_sub_cancel,
              toLong_of_bounds position.1 position.2]
          exact Or.inl ⟨filp.fPos, negative, stays, by rw [stays]⟩

theorem boot_run_landsOrFails_iff (calls : List Call) (filp : File) (opened : filp.privateData = true)
    (position : -2 ^ 63 ≤ filp.fPos ∧ filp.fPos < 2 ^ 63) (off whence : Int)
    (offset : -2 ^ 63 ≤ off ∧ off < 2 ^ 63) :
    ∃ buffer, (Sys.boot.run calls).dev.buffer = some buffer ∧
      (LandsOrFails (Sys.boot.run calls).dev buffer filp off whence ↔
        OffsetFits buffer filp off whence) := by
  obtain ⟨buffer, follows⟩ := boot_run_follows calls
  exact ⟨buffer, follows.present, landsOrFails_iff opened follows.present position offset whence⟩

theorem boot_run_landsOrFails_iff_oneCommand :
    ∃ buffer, (Sys.boot.run oneCommandCalls).dev.buffer = some buffer ∧
      (LandsOrFails (Sys.boot.run oneCommandCalls).dev buffer ⟨true, 1⟩ 1 seekCur ↔
        OffsetFits buffer ⟨true, 1⟩ 1 seekCur) :=
  boot_run_landsOrFails_iff oneCommandCalls ⟨true, 1⟩ rfl (by decide) 1 seekCur (by decide)

theorem landsOrFails_fails_empty :
    aesdLlseek aesdInitModule ⟨true, 0⟩ 5 seekSet = (.ret 5 [], ⟨true, 5⟩) ∧
      aesdLlseek aesdInitModule ⟨true, 0⟩ (-1) seekSet = (.ret (-1) [], ⟨true, -1⟩) ∧
      ¬ LandsOrFails aesdInitModule zeroedBuffer ⟨true, 0⟩ 5 seekSet ∧
      ¬ LandsOrFails aesdInitModule zeroedBuffer ⟨true, 0⟩ (-1) seekSet := by
  have past : aesdLlseek aesdInitModule ⟨true, 0⟩ 5 seekSet = (.ret 5 [], ⟨true, 5⟩) := by
    decide +kernel
  have before : aesdLlseek aesdInitModule ⟨true, 0⟩ (-1) seekSet = (.ret (-1) [], ⟨true, -1⟩) := by
    decide +kernel
  have zero : zeroedBuffer.wCharAbs.toNat = 0 := rfl
  have start : zeroedBuffer.startCharAbs.toNat = 0 := rfl
  refine ⟨past, before, ?_, ?_⟩
  · rintro (⟨error, negative, failed⟩ | ⟨newpos, landed, lower, upper, -⟩)
    · rw [past] at failed
      cases failed
    · rw [past] at landed
      cases landed
      omega
  · rintro (⟨error, negative, failed⟩ | ⟨newpos, landed, lower, upper, -⟩)
    · rw [before] at failed
      cases failed
    · rw [before] at landed
      cases landed
      omega

/-! Positions that are handed back. -/

/-- A position that `SEEK_CUR` tells is one that `SEEK_SET` restores, and a position that a
seek has returned is one that `SEEK_SET` returns again. -/
structure TellSeek (sys : Sys) (buffer : CircularBuffer) (file : Nat) : Prop where
  restores : ∀ position : Int, (buffer.startCharAbs.toNat : Int) ≤ position →
    position ≤ (buffer.wCharAbs.toNat : Int) →
    ∀ between : List Call, (∀ call ∈ between, call.reads = true) →
      ∃ told after, (sys.setFile file ⟨true, position⟩).step (.llseek file 0 seekCur) =
          (.ret told [], after) ∧
        (((after.run between).step (.llseek file told seekSet)).2.files file).fPos = position
  repeats : ∀ off whence, whence = seekSet ∨ whence = seekEnd →
    ∃ returned after, sys.step (.llseek file off whence) = (.ret returned [], after) ∧
      ((after.step (.llseek file returned seekSet)).2.files file).fPos = (after.files file).fPos

theorem reads_step_privateData (sys : Sys) {call : Call} (reading : call.reads = true)
    (file : Nat) : ((sys.step call).2.files file).privateData = (sys.files file).privateData := by
  have moved (target : Nat) (filp : File)
      (same : filp.privateData = (sys.files target).privateData) :
      (Function.update sys.files target filp file).privateData = (sys.files file).privateData := by
    by_cases here : file = target
    · rw [here, Function.update_self, same]
    · rw [Function.update_of_ne here]
  cases call with
  | openFile target => cases reading
  | write target buf => cases reading
  | read target count => exact moved target _ (aesdRead_privateData sys.dev _ count)
  | llseek target off whence => exact moved target _ (aesdLlseek_privateData sys.dev _ off whence)
  | ioctl target cmd seekto =>
      exact moved target _ (aesdUnlockedIoctl_privateData sys.dev _ cmd seekto)

theorem reads_step_follows {sys : Sys} {chunks : List Bytes} {buffer : CircularBuffer}
    (follows : sys.Follows chunks buffer) {call : Call} (reading : call.reads = true) :
    ∃ after, (sys.step call).2.Follows chunks after := by
  have none : call.chunk sys = [] := by
    cases call with
    | write target buf => cases reading
    | _ => rfl
  obtain ⟨after, stepped⟩ := follows.step call
  rw [none, List.append_nil] at stepped
  exact ⟨after, stepped⟩

theorem reads_run_follows {between : List Call} (reading : ∀ call ∈ between, call.reads = true)
    (file : Nat) {chunks : List Bytes} :
    ∀ {sys : Sys} {buffer : CircularBuffer}, sys.Follows chunks buffer →
      (sys.files file).privateData = true →
      ∃ after, (sys.run between).Follows chunks after ∧
        ((sys.run between).files file).privateData = true := by
  induction between with
  | nil =>
      intro sys buffer follows opened
      exact ⟨buffer, follows, opened⟩
  | cons call between ih =>
      intro sys buffer follows opened
      have first := reading call List.mem_cons_self
      obtain ⟨next, stepped⟩ := reads_step_follows follows first
      exact ih (fun other member => reading other (List.mem_cons_of_mem _ member)) stepped
        ((reads_step_privateData sys first file).trans opened)

theorem Sys.Follows.llseek {sys : Sys} {chunks : List Bytes} {buffer : CircularBuffer}
    (follows : sys.Follows chunks buffer) {file : Nat}
    (opened : (sys.files file).privateData = true) {off whence base : Int}
    (selected : seekBase buffer (sys.files file) whence = some base) :
    sys.step (.llseek file off whence) =
      (.ret (toLong (base + off)) [], sys.setFile file ⟨true, toLong (base + off)⟩) := by
  simp only [Sys.step, aesdLlseek_eq opened follows.present, selected, opened]

theorem Sys.Follows.startCharAbs_eq {sys later : Sys} {chunks : List Bytes}
    {buffer after : CircularBuffer} (follows : sys.Follows chunks buffer)
    (followed : later.Follows chunks after) : after.startCharAbs = buffer.startCharAbs := by
  rw [followed.history.startCharAbs, follows.history.startCharAbs]

theorem Sys.Follows.setFile {sys : Sys} {chunks : List Bytes} {buffer : CircularBuffer}
    (follows : sys.Follows chunks buffer) (file : Nat) (filp : File) :
    (sys.setFile file filp).Follows chunks buffer :=
  ⟨follows.present, follows.history⟩

theorem Sys.Follows.fPos_seekSet {sys : Sys} {chunks : List Bytes} {buffer : CircularBuffer}
    (follows : sys.Follows chunks buffer) {file : Nat}
    (opened : (sys.files file).privateData = true) (off : Int) :
    ((sys.step (.llseek file off seekSet)).2.files file).fPos =
      toLong (buffer.startCharAbs.toNat + off) := by
  rw [follows.llseek opened (seekBase_set buffer _)]
  simp [Sys.setFile]

theorem toLong_toLong (value : Int) : toLong (toLong value) = toLong value := Int.bmod_bmod

theorem Sys.Follows.restores {sys : Sys} {chunks : List Bytes} {buffer : CircularBuffer}
    (follows : sys.Follows chunks buffer) (unmoved : buffer.startCharAbs = 0) (file : Nat)
    {position : Int} (lower : 0 ≤ position) (upper : position ≤ (buffer.wCharAbs.toNat : Int))
    {between : List Call} (reading : ∀ call ∈ between, call.reads = true) :
    ∃ told after, (sys.setFile file ⟨true, position⟩).step (.llseek file 0 seekCur) =
        (.ret told [], after) ∧
      (((after.run between).step (.llseek file told seekSet)).2.files file).fPos = position := by
  have width := buffer.wCharAbs.toNat_lt
  have placed := follows.setFile file ⟨true, position⟩
  have opened : ((sys.setFile file ⟨true, position⟩).files file).privateData = true := by
    simp [Sys.setFile]
  have same : toLong (position + 0) = position := by
    rw [Int.add_zero, toLong_of_bounds (by omega) (by omega)]
  have told : (sys.setFile file ⟨true, position⟩).step (.llseek file 0 seekCur) = _ :=
    placed.llseek opened (seekBase_cur buffer _)
  have here : ((sys.setFile file ⟨true, position⟩).files file).fPos = position := by
    simp [Sys.setFile]
  rw [here, same] at told
  refine ⟨position, _, told, ?_⟩
  obtain ⟨after, followed, still⟩ := reads_run_follows reading file
    (placed.setFile file ⟨true, position⟩) (by simp [Sys.setFile])
  have start : after.startCharAbs = 0 := by rw [follows.startCharAbs_eq followed, unmoved]
  rw [followed.fPos_seekSet still, start]
  simpa using same

theorem Sys.Follows.repeats {sys : Sys} {chunks : List Bytes} {buffer : CircularBuffer}
    (follows : sys.Follows chunks buffer) (unmoved : buffer.startCharAbs = 0) {file : Nat}
    (opened : (sys.files file).privateData = true) (off : Int) {whence base : Int}
    (selected : seekBase buffer (sys.files file) whence = some base) :
    ∃ returned after, sys.step (.llseek file off whence) = (.ret returned [], after) ∧
      ((after.step (.llseek file returned seekSet)).2.files file).fPos =
        (after.files file).fPos := by
  refine ⟨_, _, follows.llseek opened selected, ?_⟩
  have moved := follows.setFile file ⟨true, toLong (base + off)⟩
  rw [moved.fPos_seekSet (by simp [Sys.setFile]), unmoved]
  simp [Sys.setFile, toLong_toLong]

theorem Sys.Follows.tellSeek_iff {sys : Sys} {chunks : List Bytes} {buffer : CircularBuffer}
    (follows : sys.Follows chunks buffer) {file : Nat}
    (opened : (sys.files file).privateData = true) :
    TellSeek sys buffer file ↔ buffer.startCharAbs = 0 := by
  have width := buffer.startCharAbs.toNat_lt
  constructor
  · intro seeks
    obtain ⟨returned, after, first, second⟩ := seeks.repeats 0 seekSet (Or.inl rfl)
    rw [follows.llseek opened (seekBase_set buffer _)] at first
    obtain ⟨reply, rfl⟩ := Prod.mk.inj first
    obtain ⟨rfl, -⟩ := Reply.ret.inj reply
    have moved := follows.setFile file ⟨true, toLong (buffer.startCharAbs.toNat + 0)⟩
    rw [moved.fPos_seekSet (by simp [Sys.setFile])] at second
    simp only [Sys.setFile, Function.update_self, Int.add_zero, toLong_add_toLong] at second
    rw [toLong_of_bounds (by omega) (by omega), toLong_of_bounds (by omega) (by omega)] at second
    have zero : (0 : UInt32).toNat = 0 := rfl
    exact UInt32.toNat_inj.mp (by omega)
  · intro unmoved
    constructor
    · intro position lower upper between reading
      exact follows.restores unmoved file (by omega) upper reading
    · rintro off whence (rfl | rfl)
      · exact follows.repeats unmoved opened off (seekBase_set buffer _)
      · exact follows.repeats unmoved opened off (seekBase_end buffer _)

theorem boot_run_tellSeek_iff (calls : List Call) (file : Nat)
    (opened : ((Sys.boot.run calls).files file).privateData = true) :
    ∃ buffer, (Sys.boot.run calls).dev.buffer = some buffer ∧
      (TellSeek (Sys.boot.run calls) buffer file ↔ buffer.startCharAbs = 0) := by
  obtain ⟨buffer, follows⟩ := boot_run_follows calls
  exact ⟨buffer, follows.present, follows.tellSeek_iff opened⟩

theorem boot_run_tellSeek_iff_oneCommand :
    ∃ buffer, (Sys.boot.run oneCommandCalls).dev.buffer = some buffer ∧
      (TellSeek (Sys.boot.run oneCommandCalls) buffer 0 ↔ buffer.startCharAbs = 0) :=
  boot_run_tellSeek_iff oneCommandCalls 0 (by decide)

def evictingCalls : List Call := .openFile 0 :: List.replicate 11 (.write 0 [10])

theorem tellSeek_fails_evicting :
    (((Sys.boot.run evictingCalls).setFile 0 ⟨true, 5⟩).step (.llseek 0 0 seekCur)).1 =
        .ret 5 [] ∧
      ((((Sys.boot.run evictingCalls).setFile 0 ⟨true, 5⟩).run
        [.llseek 0 0 seekCur, .llseek 0 5 seekSet]).files 0).fPos = 6 ∧
      ∃ buffer, (Sys.boot.run evictingCalls).dev.buffer = some buffer ∧
        ¬ TellSeek (Sys.boot.run evictingCalls) buffer 0 := by
  have told : (((Sys.boot.run evictingCalls).setFile 0 ⟨true, 5⟩).step (.llseek 0 0 seekCur)).1 =
      .ret 5 [] := by decide +kernel
  have moved : ((((Sys.boot.run evictingCalls).setFile 0 ⟨true, 5⟩).run
      [.llseek 0 0 seekCur, .llseek 0 5 seekSet]).files 0).fPos = 6 := by decide +kernel
  have evaluated : (Sys.boot.run evictingCalls).dev.buffer.map
      (fun buffer => (buffer.startCharAbs.toNat, buffer.wCharAbs.toNat)) = some (1, 11) := by
    decide +kernel
  obtain ⟨buffer, present, window⟩ := Option.map_eq_some_iff.mp evaluated
  obtain ⟨start, written⟩ := Prod.mk.inj window
  refine ⟨told, moved, buffer, present, fun seeks => ?_⟩
  obtain ⟨answer, after, first, second⟩ :=
    seeks.restores 5 (by omega) (by omega) [] (by simp)
  rw [first] at told
  obtain ⟨rfl, -⟩ := Reply.ret.inj told
  have unrolled (sys : Sys) (one two : Call) :
      sys.run [one, two] = ((sys.step one).2.step two).2 := rfl
  rw [unrolled, first] at moved
  exact absurd (moved.symm.trans second) (by decide)

end Aesd
