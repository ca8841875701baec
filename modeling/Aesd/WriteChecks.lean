import Aesd.DriverRuns
import Aesd.Simulation

/-!
`aesd_write` when calls fail. Its own three calls are checked; the two allocations of
`aesd_circular_buffer_add_entry` are not, and a NULL they return is written through.
-/

namespace Aesd

open MachineInt Records

def WriteOutcomes.Refused (outcomes : WriteOutcomes) : Prop :=
  outcomes.kmalloc = false ∨ outcomes.accessOk = false ∨ outcomes.copyFromUser = false

/-- The allocations that a chunk needs succeed: the second is made for a newline at its end. -/
def Allocations.Suffice (alloc : Allocations) (buf : Bytes) : Prop :=
  alloc.tmp = true ∧ (endsCommand buf = true → alloc.target = true)

/-! `aesd_circular_buffer_add_entry` under each pattern. -/

theorem appendToTmp_of_tmp {alloc : Allocations} (tmp : alloc.tmp = true)
    (tmpEntry addEntry : BufferEntry) :
    appendToTmp alloc tmpEntry addEntry = appendToTmp {} tmpEntry addEntry := by
  simp only [appendToTmp, tmp]

theorem addEntry_of_suffice {alloc : Allocations} {buf : Bytes} (suffice : alloc.Suffice buf)
    (nonempty : buf ≠ []) (state : BufferState) :
    aesdCircularBufferAddEntry alloc state ⟨.block buf, buf.length⟩ =
      aesdCircularBufferAddEntry {} state ⟨.block buf, buf.length⟩ := by
  obtain ⟨tmp, target⟩ := suffice
  by_cases ended : endsCommand buf = true
  · have both : alloc = {} := by
      cases alloc
      simp only [Allocations.mk.injEq]
      exact ⟨tmp, target ended⟩
    rw [both]
  · have last : buf.getLast nonempty ≠ newline := fun same =>
      ended ((endsCommand_iff nonempty).mpr same)
    simp only [aesdCircularBufferAddEntry, appendToTmp_of_tmp tmp, loadLast_block nonempty, ok_bind,
      if_neg last]

theorem addEntry_without_tmp {alloc : Allocations} {buf : Bytes} (tmp : alloc.tmp = false)
    (nonempty : buf ≠ []) (state : BufferState) :
    aesdCircularBufferAddEntry alloc state ⟨.block buf, buf.length⟩ = .error .nullAccess := by
  have filled : 0 < buf.length := List.length_pos_iff.mpr nonempty
  have size : state.tmpEntry.size + buf.length ≠ 0 := by omega
  have cleared : storeBytes (kmalloc alloc.tmp (state.tmpEntry.size + buf.length)) 0
      (List.replicate (state.tmpEntry.size + buf.length) 0) = .error .nullAccess := by
    simp [storeBytes, kmalloc, tmp, nonempty]
  simp only [aesdCircularBufferAddEntry, appendToTmp, cleared]
  rfl

theorem storeCommand_without_target {alloc : Allocations} {buffer : CircularBuffer}
    {target : BufferEntry} (found : buffer.entry[slotOf buffer.wAbs]? = some target)
    (owned : target.buffptr ≠ .freed) (failed : alloc.target = false) {command : Bytes}
    (nonempty : command ≠ []) :
    storeCommand alloc buffer ⟨.block command, command.length⟩ = .error .nullAccess := by
  have copied : memcpy (kmalloc alloc.target command.length) 0 (.block command) command.length =
      .error .nullAccess := by
    rw [memcpy, loadBytes_block, ok_bind]
    simp [storeBytes, kmalloc, failed, nonempty]
  simp only [storeCommand, found, Option.getD_some, kfree_of_not_freed owned, ok_bind, copied]
  rfl

theorem Follows.addEntry_without_target {state : BufferState} {chunks : List Bytes}
    (follows : Follows state chunks) {alloc : Allocations} (tmp : alloc.tmp = true)
    (target : alloc.target = false) {buf : Bytes} (nonempty : buf ≠ [])
    (ended : endsCommand buf = true) :
    aesdCircularBufferAddEntry alloc state ⟨.block buf, buf.length⟩ = .error .nullAccess := by
  have slot : slotOf state.buffer.wAbs = commandSlot (commandsOf chunks).length := by
    rw [follows.wAbs, slotOf_ofNat]
  have found := follows.entry _ (commandSlot_lt (commandsOf chunks).length)
  rw [← slot] at found
  have stored := storeCommand_without_target found (slotEntry_not_freed _ _) target
    (List.append_ne_nil_of_right_ne_nil (pendingOf chunks) nonempty)
  rw [aesdCircularBufferAddEntry, appendToTmp_of_tmp tmp, appendToTmp_holds follows.tmpEntry, ok_bind]
  dsimp only
  rw [loadLast_block nonempty, ok_bind, if_pos ((endsCommand_iff nonempty).mp ended), stored]
  rfl

theorem Follows.addEntry_not_suffice {state : BufferState} {chunks : List Bytes}
    (follows : Follows state chunks) {alloc : Allocations} {buf : Bytes} (nonempty : buf ≠ [])
    (short : ¬ alloc.Suffice buf) :
    aesdCircularBufferAddEntry alloc state ⟨.block buf, buf.length⟩ = .error .nullAccess := by
  by_cases tmp : alloc.tmp = true
  · have ended : endsCommand buf = true := by
      by_contra unended
      exact short ⟨tmp, fun impossible => absurd impossible unended⟩
    have target : alloc.target = false := by
      by_contra got
      exact short ⟨tmp, fun _ => by simpa using got⟩
    exact follows.addEntry_without_target tmp target nonempty ended
  · exact addEntry_without_tmp (by simpa using tmp) nonempty state

/-! `aesd_write` under each pattern. -/

def writeReply (count : Nat) (dev : AesdDev) : Except Fault BufferState → Reply × AesdDev
  | .error reason => (.fault reason, dev)
  | .ok state => (.ret count [], ⟨some state.buffer, state.tmpEntry⟩)

section

variable {sys : Sys} {chunks : List Bytes} {buffer : CircularBuffer} {filp : File} {buf : Bytes}
  {outcomes : WriteOutcomes}

theorem aesdWrite_refused (follows : sys.Follows chunks buffer) (nonempty : buf ≠ [])
    (refused : filp.privateData = false ∨ outcomes.Refused) :
    ∃ error < 0, aesdWrite outcomes sys.dev filp buf = (.ret error [], sys.dev) := by
  have loaded := loadLast_block nonempty
  unfold aesdWrite
  split
  · exact ⟨-enomem, by decide, rfl⟩
  next opened =>
    rw [follows.present]
    simp only [loaded]
    split
    · exact ⟨-enomem, by decide, rfl⟩
    next allocated =>
      split
      · exact ⟨-efault, by decide, rfl⟩
      next accessible =>
        split
        · exact ⟨-enomem, by decide, rfl⟩
        next copied =>
          rcases refused with closed | failed | failed | failed
          · exact absurd closed opened
          · exact absurd failed allocated
          · exact absurd failed accessible
          · exact absurd failed copied

theorem aesdWrite_reaches (follows : sys.Follows chunks buffer) (nonempty : buf ≠ [])
    (opened : ¬ filp.privateData = false) (checked : ¬ outcomes.Refused) :
    aesdWrite outcomes sys.dev filp buf =
      writeReply buf.length sys.dev (aesdCircularBufferAddEntry outcomes.alloc
        ⟨buffer, sys.dev.tmpEntry⟩ ⟨.block buf, buf.length⟩) := by
  simp only [WriteOutcomes.Refused, not_or] at checked
  obtain ⟨allocated, accessible, copied⟩ := checked
  rw [aesdWrite, if_neg opened, follows.present]
  simp only [if_neg allocated, loadLast_block nonempty, if_neg accessible, if_neg copied]
  rfl

theorem aesdWrite_appends (follows : sys.Follows chunks buffer) (nonempty : buf ≠ [])
    (opened : ¬ filp.privateData = false) (checked : ¬ outcomes.Refused)
    (suffice : outcomes.alloc.Suffice buf) :
    ∃ state, aesdWrite outcomes sys.dev filp buf =
        (.ret buf.length [], ⟨some state.buffer, state.tmpEntry⟩) ∧
      Aesd.Follows state (chunks ++ [buf]) := by
  obtain ⟨state, added, followed⟩ := follows.history.add nonempty
  refine ⟨state, ?_, followed⟩
  rw [aesdWrite_reaches follows nonempty opened checked, addEntry_of_suffice suffice nonempty,
    added, writeReply]

theorem aesdWrite_faults (follows : sys.Follows chunks buffer) (nonempty : buf ≠ [])
    (opened : ¬ filp.privateData = false) (checked : ¬ outcomes.Refused)
    (short : ¬ outcomes.alloc.Suffice buf) :
    aesdWrite outcomes sys.dev filp buf = (.fault .nullAccess, sys.dev) := by
  rw [aesdWrite_reaches follows nonempty opened checked,
    follows.history.addEntry_not_suffice nonempty short, writeReply]

end

/-! Reachable states. -/

def Attempt.accepted (sys : Sys) (attempt : Attempt) : List Bytes :=
  match attempt.call, (sys.attempt attempt).1 with
  | .write _ buf, .ret value _ => if 0 ≤ value then [buf] else []
  | _, _ => []

/-- The states that calls with any outcomes lead to, with the chunks accepted on the way. -/
inductive Sys.Reachable : Sys → List Bytes → Prop where
  | boot : Sys.Reachable Sys.boot []
  | attempt {sys : Sys} {chunks : List Bytes} (attempt : Attempt) (reached : sys.Reachable chunks) :
      Sys.Reachable (sys.attempt attempt).2 (chunks ++ attempt.accepted sys)

def Sys.attemptAll (sys : Sys) (attempts : List Attempt) : Sys :=
  Simulation.after Sys.attempt sys attempts

def Sys.accepted (sys : Sys) : List Attempt → List Bytes
  | [] => []
  | attempt :: attempts => attempt.accepted sys ++ (sys.attempt attempt).2.accepted attempts

theorem Sys.Reachable.attemptAll (attempts : List Attempt) :
    ∀ {sys : Sys} {chunks : List Bytes}, sys.Reachable chunks →
      (sys.attemptAll attempts).Reachable (chunks ++ sys.accepted attempts) := by
  induction attempts with
  | nil =>
      intro sys chunks reachable
      rwa [Sys.accepted, List.append_nil]
  | cons attempt attempts ih =>
      intro sys chunks reachable
      rw [Sys.accepted, ← List.append_assoc]
      exact ih (reachable.attempt attempt)

theorem Sys.Follows.write_nil {sys : Sys} {chunks : List Bytes} {buffer : CircularBuffer}
    (follows : sys.Follows chunks buffer) (file : Nat) (reads : ReadOutcomes)
    (writes : WriteOutcomes) {buf : Bytes} (empty : buf = []) :
    (sys.attempt ⟨.write file buf, reads, writes⟩).2.Follows
      (chunks ++ (⟨.write file buf, reads, writes⟩ : Attempt).accepted sys) buffer := by
  have negative : ¬ enomem ≤ 0 := by decide
  subst empty
  rcases aesdWrite_nil writes sys.dev (sys.files file) with failed | faulted
  · simpa [Sys.attempt, Attempt.accepted, failed, negative] using
      ⟨follows.present, follows.history⟩
  · simpa [Sys.attempt, Attempt.accepted, faulted] using ⟨follows.present, follows.history⟩

theorem Sys.Follows.attempt_write {sys : Sys} {chunks : List Bytes} {buffer : CircularBuffer}
    (follows : sys.Follows chunks buffer) (file : Nat) (buf : Bytes) (reads : ReadOutcomes)
    (writes : WriteOutcomes) :
    ∃ after, (sys.attempt ⟨.write file buf, reads, writes⟩).2.Follows
      (chunks ++ (⟨.write file buf, reads, writes⟩ : Attempt).accepted sys) after := by
  by_cases empty : buf = []
  · exact ⟨buffer, follows.write_nil file reads writes empty⟩
  by_cases refused : (sys.files file).privateData = false ∨ writes.Refused
  · obtain ⟨error, negative, failed⟩ := aesdWrite_refused follows empty refused
    refine ⟨buffer, ?_⟩
    simpa [Sys.attempt, Attempt.accepted, failed, not_le.mpr negative] using
      ⟨follows.present, follows.history⟩
  · obtain ⟨opened, checked⟩ := not_or.mp refused
    by_cases suffice : writes.alloc.Suffice buf
    · obtain ⟨state, appended, followed⟩ :=
        aesdWrite_appends follows empty opened checked suffice
      refine ⟨state.buffer, ?_, ?_⟩
      · simp only [Sys.attempt, appended]
      · simpa [Sys.attempt, Attempt.accepted, appended] using followed
    · have faulted := aesdWrite_faults follows empty opened checked suffice
      refine ⟨buffer, ?_⟩
      simpa [Sys.attempt, Attempt.accepted, faulted] using ⟨follows.present, follows.history⟩

theorem Sys.Follows.attempt {sys : Sys} {chunks : List Bytes} {buffer : CircularBuffer}
    (follows : sys.Follows chunks buffer) (attempt : Attempt) :
    ∃ after, (sys.attempt attempt).2.Follows (chunks ++ attempt.accepted sys) after := by
  obtain ⟨call, reads, writes⟩ := attempt
  cases call with
  | write file buf => exact follows.attempt_write file buf reads writes
  | read file count =>
      obtain ⟨after, left, followed⟩ := aesdRead_follows follows reads (sys.files file) count
      refine ⟨after, ?_, ?_⟩
      · simp only [Sys.attempt, Sys.setFile, left]
      · simpa only [Sys.attempt, Sys.setFile, left, Attempt.accepted, List.append_nil] using
          followed
  | openFile file =>
      exact ⟨buffer, by simpa [Attempt.accepted] using ⟨follows.present, follows.history⟩⟩
  | llseek file off whence =>
      exact ⟨buffer, by simpa [Attempt.accepted] using ⟨follows.present, follows.history⟩⟩
  | ioctl file cmd seekto =>
      exact ⟨buffer, by simpa [Attempt.accepted] using ⟨follows.present, follows.history⟩⟩

theorem Sys.Reachable.follows {sys : Sys} {chunks : List Bytes} (reachable : sys.Reachable chunks) :
    ∃ buffer, sys.Follows chunks buffer := by
  induction reachable with
  | boot => exact ⟨_, Sys.boot_follows⟩
  | attempt attempt reached ih =>
      obtain ⟨buffer, follows⟩ := ih
      exact follows.attempt attempt

/-! All or nothing. -/

/-- The write returns its count and the device has the chunk appended, or it returns a
negative error and leaves the device as it was. A write through NULL is a fault, which is
neither. -/
def AllOrNothing (chunks : List Bytes) (dev : AesdDev) (filp : File) (buf : Bytes)
    (outcomes : WriteOutcomes) : Prop :=
  (∃ state, aesdWrite outcomes dev filp buf =
      (.ret buf.length [], ⟨some state.buffer, state.tmpEntry⟩) ∧
    Follows state (chunks ++ [buf])) ∨
  ∃ error < 0, aesdWrite outcomes dev filp buf = (.ret error [], dev)

theorem reachable_allOrNothing_iff {sys : Sys} {chunks : List Bytes}
    (reachable : sys.Reachable chunks) (file : Nat) {buf : Bytes} (nonempty : buf ≠ [])
    (outcomes : WriteOutcomes) :
    AllOrNothing chunks sys.dev (sys.files file) buf outcomes ↔
      (sys.files file).privateData = false ∨ outcomes.Refused ∨ outcomes.alloc.Suffice buf := by
  obtain ⟨buffer, follows⟩ := reachable.follows
  constructor
  · intro outcome
    by_contra neither
    simp only [not_or] at neither
    obtain ⟨opened, checked, short⟩ := neither
    have faulted := aesdWrite_faults follows nonempty opened checked short
    rcases outcome with ⟨state, appended, -⟩ | ⟨error, -, failed⟩
    · rw [faulted] at appended
      cases appended
    · rw [faulted] at failed
      cases failed
  · intro condition
    by_cases refused : (sys.files file).privateData = false ∨ outcomes.Refused
    · exact Or.inr (aesdWrite_refused follows nonempty refused)
    · obtain ⟨opened, checked⟩ := not_or.mp refused
      have suffice : outcomes.alloc.Suffice buf := by
        rcases condition with closed | failed | suffice
        · exact absurd closed opened
        · exact absurd failed checked
        · exact suffice
      exact Or.inl (aesdWrite_appends follows nonempty opened checked suffice)

def openedSys : Sys := (Sys.boot.attempt ⟨.openFile 0, {}, {}⟩).2

theorem openedSys_reachable : openedSys.Reachable [] :=
  Sys.Reachable.attempt ⟨.openFile 0, {}, {}⟩ Sys.Reachable.boot

/-- The slots are full and `b` is pending. -/
def fullSys : Sys :=
  openedSys.attemptAll
    (List.replicate 10 ⟨.write 0 [10], {}, {}⟩ ++ [⟨.write 0 [98], {}, {}⟩])

theorem fullSys_reachable : fullSys.Reachable (List.replicate 10 [10] ++ [[98]]) := by
  have accepted : openedSys.accepted
      (List.replicate 10 ⟨.write 0 [10], {}, {}⟩ ++ [⟨.write 0 [98], {}, {}⟩]) =
        List.replicate 10 [10] ++ [[98]] := by
    decide +kernel
  have reachable := openedSys_reachable.attemptAll
    (List.replicate 10 ⟨.write 0 [10], {}, {}⟩ ++ [⟨.write 0 [98], {}, {}⟩])
  rwa [List.nil_append, accepted] at reachable

theorem reachable_allOrNothing_iff_full :
    AllOrNothing (List.replicate 10 [10] ++ [[98]]) fullSys.dev (fullSys.files 0) [97, 10]
        { alloc := { target := false } } ↔
      (fullSys.files 0).privateData = false ∨
        ({ alloc := { target := false } } : WriteOutcomes).Refused ∨
        ({ alloc := { target := false } } : WriteOutcomes).alloc.Suffice [97, 10] :=
  reachable_allOrNothing_iff fullSys_reachable 0 (by decide) { alloc := { target := false } }

theorem allOrNothing_fails_alloc :
    (aesdWrite { alloc := { tmp := false } } openedSys.dev (openedSys.files 0) [97]).1 =
        .fault .nullAccess ∧
      (aesdWrite { alloc := { target := false } } openedSys.dev (openedSys.files 0) [97, 10]).1 =
        .fault .nullAccess ∧
      ¬ AllOrNothing [] openedSys.dev (openedSys.files 0) [97]
        { alloc := { tmp := false } } ∧
      ¬ AllOrNothing [] openedSys.dev (openedSys.files 0) [97, 10]
        { alloc := { target := false } } := by
  have tmp : (aesdWrite { alloc := { tmp := false } } openedSys.dev (openedSys.files 0) [97]).1 =
      .fault .nullAccess := by decide +kernel
  have target : (aesdWrite { alloc := { target := false } } openedSys.dev (openedSys.files 0)
      [97, 10]).1 = .fault .nullAccess := by decide +kernel
  refine ⟨tmp, target, ?_, ?_⟩
  · rintro (⟨state, appended, -⟩ | ⟨error, -, failed⟩)
    · rw [appended] at tmp
      cases tmp
    · rw [failed] at tmp
      cases tmp
  · rintro (⟨state, appended, -⟩ | ⟨error, -, failed⟩)
    · rw [appended] at target
      cases target
    · rw [failed] at target
      cases target

end Aesd
