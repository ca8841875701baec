import Aesd.LogDeviceSteps

/-!
Over whole runs: which runs cannot be told from the log, and what one reader of the device
gets among any other calls.
-/

namespace Aesd

open MachineInt Records Offsets Simulation

/-! The log records every run, in step or not. -/

theorem update_privateData {files : Nat → File} {target : Nat} {filp : File}
    (same : filp.privateData = (files target).privateData) (file : Nat) :
    (Function.update files target filp file).privateData = (files file).privateData := by
  by_cases here : file = target
  · rw [here, Function.update_self, same]
  · rw [Function.update_of_ne here]

theorem Sys.step_privateData (sys : Sys) (call : Call) (file : Nat) :
    ((sys.step call).2.files file).privateData =
      ((sys.files file).privateData || decide (call = .openFile file)) := by
  cases call with
  | openFile target =>
      by_cases here : file = target
      · simp [Sys.step, Sys.setFile, aesdOpen, here]
      · simp [Sys.step, Sys.setFile, Function.update_of_ne here, Ne.symm here]
  | write target buf => simp [Sys.step]
  | read target count =>
      simpa [Sys.step, Sys.setFile] using update_privateData (aesdRead_privateData _ _ _) file
  | llseek target off whence =>
      simpa [Sys.step, Sys.setFile] using update_privateData (aesdLlseek_privateData _ _ _ _) file
  | ioctl target cmd seekto =>
      simpa [Sys.step, Sys.setFile] using
        update_privateData (aesdUnlockedIoctl_privateData _ _ _ _) file

def Call.unlogged (call : Call) (opened : Bool) : Prop :=
  call ≠ .openFile call.file ∧ ∀ buf, call = .write call.file buf → opened = false

theorem LogDevice.step_cases (device : LogDevice) (call : Call) :
    (call = .openFile call.file ∧ (device.step call).2 = device.setFile call.file ⟨true, 0⟩) ∨
      (∃ buf, call = .write call.file buf ∧ (device.files call.file).privateData = true ∧
        (device.step call).2 = device.append buf) ∨
      (call.unlogged (device.files call.file).privateData ∧
        ∃ filp, filp.privateData = (device.files call.file).privateData ∧
          (device.step call).2 = device.setFile call.file filp) := by
  by_cases opening : call = .openFile call.file
  · refine Or.inl ⟨opening, ?_⟩
    rw [LogDevice.step, if_pos (Or.inl opening), opening]
    rfl
  · by_cases opened : (device.files call.file).privateData = true
    · have stays : ∃ filp, filp.privateData = (device.files call.file).privateData ∧
          device = device.setFile call.file filp :=
        ⟨device.files call.file, rfl, (device.setFile_same _).symm⟩
      have moves (fPos : Int) : ∃ filp, filp.privateData = (device.files call.file).privateData ∧
          device.setFile call.file { device.files call.file with fPos } =
            device.setFile call.file filp :=
        ⟨{ device.files call.file with fPos }, rfl, rfl⟩
      rw [LogDevice.step, if_pos (Or.inr opened)]
      cases call with
      | openFile file => exact absurd rfl opening
      | write file buf => exact Or.inr (Or.inl ⟨buf, rfl, opened, rfl⟩)
      | read file count =>
          refine Or.inr (Or.inr ⟨⟨opening, by simp⟩, ?_⟩)
          rw [LogDevice.serve]
          split
          · exact moves _
          · exact stays
      | llseek file off whence =>
          refine Or.inr (Or.inr ⟨⟨opening, by simp⟩, ?_⟩)
          rw [LogDevice.serve]
          split
          · exact moves _
          · exact stays
      | ioctl file cmd seekto =>
          refine Or.inr (Or.inr ⟨⟨opening, by simp⟩, ?_⟩)
          rw [LogDevice.serve]
          split
          · exact stays
          · split
            · exact stays
            · exact moves _
    · refine Or.inr (Or.inr ⟨⟨opening, fun _ _ => by simpa using opened⟩,
        device.files call.file, rfl, ?_⟩)
      rw [LogDevice.step_closed opening (by simpa using opened), device.setFile_same]

structure Logged (sys : Sys) (device : LogDevice) (chunks : List Bytes) : Prop where
  opened : ∀ file, (sys.files file).privateData = (device.files file).privateData
  commands : device.commands = commandsOf chunks
  pending : device.pending = pendingOf chunks

theorem Logged.step {sys : Sys} {device : LogDevice} {chunks : List Bytes}
    (logged : Logged sys device chunks) (call : Call) :
    Logged (sys.step call).2 (device.step call).2 (chunks ++ call.chunk sys) := by
  obtain ⟨opened, commands, pending⟩ := logged
  obtain ⟨opening, stepped⟩ | ⟨buf, writes, served, stepped⟩ | ⟨unlogged, filp, same, stepped⟩ :=
    device.step_cases call
  · have chunk : call.chunk sys = [] := by
      rw [opening]
      rfl
    rw [stepped, chunk, List.append_nil]
    refine ⟨fun file => ?_, commands, pending⟩
    rw [sys.step_privateData, opened, device.setFile_files]
    by_cases here : file = call.file
    · rw [here, Function.update_self, decide_eq_true opening, Bool.or_true]
    · have other : call ≠ .openFile file := by
        rintro rfl
        exact here rfl
      simp [Function.update_of_ne here, other]
  · have chunk : call.chunk sys = [buf] := by
      rw [writes]
      exact if_pos (by rw [opened]; exact served)
    rw [stepped, chunk]
    refine ⟨fun file => ?_, ?_, ?_⟩
    · rw [sys.step_privateData, opened, writes, LogDevice.append]
      split <;> simp
    · rw [commandsOf_concat, ← commands, ← pending, LogDevice.append]
      split <;> rfl
    · rw [pendingOf_concat, ← pending, LogDevice.append]
      split <;> rfl
  · obtain ⟨other, closed⟩ := unlogged
    have chunk : call.chunk sys = [] := by
      cases call with
      | write file buf =>
          have shut : (device.files file).privateData = false := closed buf rfl
          exact if_neg (by rw [opened, shut]; decide)
      | _ => rfl
    rw [stepped, chunk, List.append_nil]
    refine ⟨fun file => ?_, commands, pending⟩
    have notOpened : ¬ call = .openFile file := by
      rintro rfl
      exact other rfl
    rw [sys.step_privateData, opened, device.setFile_files, update_privateData same]
    simp [notOpened]

theorem Logged.run (calls : List Call) :
    ∀ {sys : Sys} {device : LogDevice} {chunks : List Bytes}, Logged sys device chunks →
      Logged (sys.run calls) (device.run calls) (chunks ++ sys.chunks calls) := by
  induction calls with
  | nil =>
      intro sys device chunks logged
      rw [Sys.chunks, List.append_nil]
      exact logged
  | cons call calls ih =>
      intro sys device chunks logged
      simpa [Sys.chunks, Sys.run, LogDevice.run, after] using ih (logged.step call)

theorem LogDevice.boot_run_commands (calls : List Call) :
    (LogDevice.boot.run calls).commands = commandsIn calls := by
  have start : Logged Sys.boot LogDevice.boot [] := ⟨fun _ => rfl, rfl, rfl⟩
  exact (start.run calls).commands

/-! When the device cannot be told from the log. -/

theorem Unwrapped.read_cases {buffer : CircularBuffer} {commands : List Bytes}
    (unwrapped : Unwrapped buffer commands) (fPos : Int) {len : UInt64} (asked : 0 < len.toNat) :
    ¬ InWindow buffer fPos ∨ ¬ InBounds buffer len fPos ∨
      ∃ data, data.length < 2 ^ 63 ∧ Delivers buffer len fPos data := by
  by_cases window : InWindow buffer fPos
  · obtain ⟨position, rfl, upper⟩ := unwrapped.window_position window
    have chars := unwrapped.chars
    have live := liveChars_le commands
    by_cases inside : position < (liveOf commands).flatten.length
    · obtain ⟨age, offset, found, rfl⟩ :=
        exists_locate (by rwa [slots_flatten_length] : position < (sizesOf (slotsOf commands)).sum)
      have located := locate_of_lt_getD found
      by_cases fits : offset ≤ (sizesOf (liveOf commands)).getD age 0
      · refine Or.inr (Or.inr ⟨_, ?_, (unwrapped.cleanRead upper inside located fits asked).delivers⟩)
        have part := (List.drop_sublist age (liveOf commands)).flatten.length_le
        rw [List.length_take, List.length_drop]
        omega
      · exact Or.inr (Or.inl
          (unwrapped.not_inBounds upper inside located (Nat.lt_of_not_le fits) len))
    · exact Or.inr (Or.inr ⟨[], by decide,
        (unwrapped.cleanRead_nil upper (Nat.le_of_not_lt inside) len).delivers⟩)
  · exact Or.inl window

theorem Unwrapped.delivers_of_reply {dev : AesdDev} {buffer : CircularBuffer}
    {commands data : List _} (unwrapped : Unwrapped buffer commands)
    (present : dev.buffer = some buffer) {fPos : Int} {len : UInt64} (asked : 0 < len.toNat)
    (reply : (aesdRead {} dev ⟨true, fPos⟩ len).1 = .ret data.length data) :
    Delivers buffer len fPos data := by
  obtain outside | leaves | ⟨read, short, delivers⟩ := unwrapped.read_cases fPos asked
  · rw [aesdRead_outside rfl present outside] at reply
    injection reply with value
    omega
  · rw [aesdRead_leaves rfl present leaves] at reply
    cases reply
  · rw [(aesdRead_of_delivers rfl present delivers short).1] at reply
    injection reply with _ same
    rwa [← same]

def Call.writes : Call → Bool
  | .write _ _ => true
  | _ => false

/-- After any part of the run, no calls other than writes get a reply that the log would not
have given. -/
def Indistinguishable (calls : List Call) : Prop :=
  ∀ earlier, earlier <+: calls → ∀ probe, (∀ call ∈ probe, Proper call ∧ call.writes = false) →
    Sys.boot.replies (earlier ++ probe) = LogDevice.boot.replies (earlier ++ probe)

theorem Sys.chunks_append (sys : Sys) (first second : List Call) :
    sys.chunks (first ++ second) = sys.chunks first ++ (sys.run first).chunks second := by
  induction first generalizing sys with
  | nil => rfl
  | cons call calls ih =>
      simp only [List.cons_append, Sys.chunks, ih, List.append_assoc, Sys.run, List.foldl_cons]

theorem Sys.chunks_unwritten {calls : List Call} (unwritten : ∀ call ∈ calls, call.writes = false) :
    ∀ sys : Sys, sys.chunks calls = [] := by
  induction calls with
  | nil => exact fun _ => rfl
  | cons call calls ih =>
      intro sys
      have nothing : call.chunk sys = [] := by
        cases call with
        | write file buf => cases unwritten _ List.mem_cons_self
        | _ => rfl
      rw [Sys.chunks, nothing, List.nil_append]
      exact ih (fun other member => unwritten other (List.mem_cons_of_mem _ member)) _

theorem commandsIn_unwritten {probe : List Call} (unwritten : ∀ call ∈ probe, call.writes = false)
    (calls : List Call) : commandsIn (calls ++ probe) = commandsIn calls := by
  rw [commandsIn, Sys.chunks_append, Sys.chunks_unwritten unwritten, List.append_nil, commandsIn]

theorem commandsIn_earlier {earlier calls : List Call} (part : earlier <+: calls) :
    commandsIn earlier <+: commandsIn calls := by
  obtain ⟨rest, rfl⟩ := part
  rw [commandsIn, commandsIn, Sys.chunks_append]
  exact commandsOf_prefix _ _

theorem NoWrap.earlier {earlier calls : List Call} (noWrap : NoWrap (commandsIn calls))
    (part : earlier <+: calls) : NoWrap (commandsIn earlier) := by
  have grown := commandsIn_earlier part
  exact ⟨Nat.lt_of_le_of_lt grown.length_le noWrap.count,
    Nat.lt_of_le_of_lt grown.flatten.length_le noWrap.chars⟩

theorem commandsIn_part {part calls probe : List Call} (within : part <+: calls ++ probe)
    (unwritten : ∀ call ∈ probe, call.writes = false) :
    ∃ earlier, earlier <+: calls ∧ commandsIn part = commandsIn earlier := by
  rcases List.prefix_or_prefix_of_prefix within (List.prefix_append calls probe) with short | long
  · exact ⟨part, short, rfl⟩
  · obtain ⟨taken, rfl⟩ := long
    have probed : taken <+: probe := (List.prefix_append_right_inj calls).mp within
    exact ⟨calls, List.prefix_rfl,
      commandsIn_unwritten (fun call member => unwritten call (probed.subset member)) calls⟩

theorem inStep_answers {calls : List Call} (probe : List Call)
    (proper : ∀ call ∈ calls, Proper call)
    (probed : ∀ call ∈ probe, Proper call ∧ call.writes = false)
    (noWrap : NoWrap (commandsIn calls))
    (inStep : ∀ earlier, earlier <+: calls → InStep (commandsIn earlier)) :
    Sys.boot.replies (calls ++ probe) = LogDevice.boot.replies (calls ++ probe) ∧
      Tracks (Sys.boot.run (calls ++ probe)) (LogDevice.boot.run (calls ++ probe)) := by
  refine tracks_simulates.run (calls ++ probe) Tracks.boot fun part call prefixed => ?_
  obtain ⟨earlier, within, same⟩ := commandsIn_part
    ((List.prefix_append part [call]).trans prefixed) (fun call member => (probed call member).2)
  have commands : (LogDevice.boot.run part).commands = commandsIn earlier := by
    rw [LogDevice.boot_run_commands, same]
  refine ⟨?_, ?_, ?_⟩
  · rcases List.mem_append.mp (prefixed.subset (by simp : call ∈ part ++ [call])) with here | later
    · exact proper call here
    · exact (probed call later).1
  · exact commands ▸ noWrap.earlier within
  · exact commands ▸ inStep earlier within

/-- The probe that tells them apart: open a file, seek from the end and read. -/
def probeAt (off : Int) (count : UInt64) : List Call :=
  [.openFile 0, .llseek 0 off seekEnd, .read 0 count]

theorem probeAt_proper {off : Int} {count : UInt64} (asked : 0 < count.toNat) :
    ∀ call ∈ probeAt off count, Proper call ∧ call.writes = false := by
  have nonzero : count ≠ 0 := by
    rintro rfl
    exact absurd asked (by decide)
  simp [probeAt, proper_iff, Call.writes, nonzero]

theorem Sys.Follows.replies_probeAt {sys : Sys} {chunks : List Bytes} {buffer : CircularBuffer}
    (follows : sys.Follows chunks buffer) (unwrapped : Unwrapped buffer (commandsOf chunks))
    {position : Nat} (upper : position ≤ (commandsOf chunks).flatten.length) {off : Int}
    (target : (commandsOf chunks).flatten.length + off = position) (count : UInt64) :
    sys.replies (probeAt off count) =
      [.ret 0 [], .ret position [], (aesdRead {} sys.dev ⟨true, position⟩ count).1] := by
  have chars := unwrapped.chars
  have moved := aesdLlseek_eq (show (⟨true, 0⟩ : File).privateData = true from rfl)
    follows.present off seekEnd
  rw [seekBase_end buffer ⟨true, 0⟩, unwrapped.wCharAbs] at moved
  dsimp only at moved
  rw [target, toLong_natCast (by omega)] at moved
  simp [Sys.replies, probeAt, Simulation.replies, Sys.step, Sys.setFile, aesdOpen, moved]

theorem LogDevice.replies_probeAt {device : LogDevice} {position : Nat}
    (lower : device.start ≤ position) (upper : position ≤ device.stream.length)
    (short : device.stream.length < 2 ^ 63) {off : Int}
    (target : device.stream.length + off = position) (count : UInt64) :
    device.replies (probeAt off count) =
      [.ret 0 [], .ret position [], .ret (device.bytesAt position count).length
        (device.bytesAt position count)] := by
  have moved : device.step (.openFile 0) = (.ret 0 [], device.setFile 0 ⟨true, 0⟩) :=
    if_pos (Or.inl rfl)
  have opened (fPos : Int) (call : Call) (same : call.file = 0) :
      (device.setFile 0 ⟨true, fPos⟩).step call =
        (device.setFile 0 ⟨true, fPos⟩).serve ⟨true, fPos⟩ call := by
    simp [LogDevice.step, LogDevice.setFile, same]
  have sought : (device.setFile 0 ⟨true, 0⟩).step (.llseek 0 off seekEnd) =
      (.ret position [], device.setFile 0 ⟨true, position⟩) := by
    have base : (device.setFile 0 ⟨true, 0⟩).base ⟨true, 0⟩ seekEnd =
        some (device.stream.length : Int) := rfl
    rw [opened 0 _ rfl, LogDevice.serve, base]
    dsimp only
    rw [target, toLong_natCast (by omega)]
    simp [LogDevice.setFile]
  have read : ((device.setFile 0 ⟨true, position⟩).step (.read 0 count)).1 =
      .ret (device.bytesAt position count).length (device.bytesAt position count) := by
    have keeps : (device.setFile 0 ⟨true, position⟩).Keeps position :=
      ⟨by exact_mod_cast lower, by exact_mod_cast upper⟩
    rw [opened position _ rfl, LogDevice.serve, if_pos keeps]
    rfl
  rw [LogDevice.replies, probeAt, Simulation.replies, moved]
  dsimp only
  rw [Simulation.replies, sought]
  dsimp only
  rw [Simulation.replies, read]
  rfl

theorem Sys.Follows.exactReads_of_probes {sys : Sys} {device : LogDevice} {chunks : List Bytes}
    {buffer : CircularBuffer} (follows : sys.Follows chunks buffer)
    (unwrapped : Unwrapped buffer (commandsOf chunks)) (logged : device.commands = commandsOf chunks)
    (alike : ∀ off count, 0 < count.toNat →
      sys.replies (probeAt off count) = device.replies (probeAt off count)) :
    ExactReads buffer (commandsOf chunks) := by
  have stream : device.stream = (commandsOf chunks).flatten := by rw [LogDevice.stream, logged]
  have start : device.start = evictedChars (commandsOf chunks) := by rw [LogDevice.start, logged]
  have chars := unwrapped.chars
  intro position lower upper len asked
  obtain ⟨off, target⟩ : ∃ off : Int, ((commandsOf chunks).flatten.length : Int) + off = position :=
    ⟨position - (commandsOf chunks).flatten.length, by omega⟩
  have driver := follows.replies_probeAt unwrapped upper target len
  rw [← stream] at target upper
  rw [← start] at lower
  have log := device.replies_probeAt lower upper (by rw [stream]; omega) target len
  have probes := alike off len asked
  rw [driver, log, LogDevice.bytesAt, Int.toNat_natCast, stream] at probes
  simp only [List.cons.injEq, true_and, and_true] at probes
  exact unwrapped.delivers_of_reply follows.present asked probes

/-- A run cannot be told from the log exactly when it is in step after each of its parts. -/
theorem indistinguishable_iff_inStep {calls : List Call} (proper : ∀ call ∈ calls, Proper call)
    (noWrap : NoWrap (commandsIn calls)) :
    Indistinguishable calls ↔ ∀ earlier, earlier <+: calls → InStep (commandsIn earlier) := by
  constructor
  · intro alike earlier part
    obtain ⟨buffer, follows⟩ := boot_run_follows earlier
    have nonempty : NonemptyWrites earlier := fun file member =>
      (proper _ (part.subset member)).write file rfl
    have unwrapped := follows.unwrapped (Sys.chunks_nonempty nonempty _) (noWrap.earlier part)
    have probes : ∀ off count, 0 < count.toNat → (Sys.boot.run earlier).replies (probeAt off count) =
        (LogDevice.boot.run earlier).replies (probeAt off count) := by
      intro off count asked
      have replies := alike earlier part (probeAt off count) (probeAt_proper asked)
      rw [Sys.replies, LogDevice.replies, replies_append, replies_append] at replies
      exact (List.append_inj replies (by simp)).2
    have exactReads := follows.exactReads_of_probes unwrapped
      (LogDevice.boot_run_commands earlier) probes
    obtain ⟨start, sizes⟩ := unwrapped.exactReads_iff.mp exactReads
    exact ⟨start, sizes⟩
  · intro inStep earlier part probe probed
    have within : ∀ shorter, shorter <+: earlier → InStep (commandsIn shorter) :=
      fun shorter short => inStep shorter (short.trans part)
    exact (inStep_answers probe (fun call member => proper call (part.subset member)) probed
      (noWrap.earlier part) within).1

/-- All commands have one size, but for the last of a multiple of ten. -/
def Regular (commands : List Bytes) : Prop :=
  ∀ index < commands.length, commandSize commands index = commandSize commands 0 ∨
    (index + 1 = commands.length ∧ commands.length % 10 = 0)

theorem sizesOf_slotsOf_getD (commands : List Bytes) {target : Nat}
    (bound : target < min commands.length 10) :
    (sizesOf (slotsOf commands)).getD target 0 =
      commandSize commands (slotIndex commands.length target) := by
  rw [sizesOf_getD (by simpa using bound)]
  simp [slotsOf, commandSize]

theorem sizesOf_liveOf_getD (commands : List Bytes) {age : Nat}
    (bound : age < min commands.length 10) :
    (sizesOf (liveOf commands)).getD age 0 = commandSize commands (commands.length - 10 + age) := by
  have inside : commands.length - 10 + age < commands.length := by omega
  rw [sizesOf_getD (by simpa using bound)]
  simp [liveOf, commandSize, List.getElem?_eq_getElem inside]

theorem inStep_iff (commands : List Bytes) :
    InStep commands ↔ commandSize commands (commands.length - 10) = commandSize commands 0 ∧
      ∀ target < min commands.length 10, commandSize commands (slotIndex commands.length target) =
        commandSize commands (commands.length - 10 + target) := by
  constructor
  · rintro ⟨start, sizes⟩
    refine ⟨start, fun target bound => ?_⟩
    rw [← sizesOf_slotsOf_getD commands bound, ← sizesOf_liveOf_getD commands bound, sizes]
  · rintro ⟨start, same⟩
    refine ⟨start, List.ext_getElem (by simp) fun target below other => ?_⟩
    have bound : target < min commands.length 10 := by simpa using below
    have here := same target bound
    rw [← sizesOf_slotsOf_getD commands bound, ← sizesOf_liveOf_getD commands bound,
      List.getD_eq_getElem _ _ below, List.getD_eq_getElem _ _ other] at here
    exact here

theorem commandSize_take (commands : List Bytes) {count index : Nat} (bound : index < count) :
    commandSize (commands.take count) index = commandSize commands index := by
  simp [commandSize, bound]

theorem inStep_take_iff {commands : List Bytes} {count : Nat} (within : count ≤ commands.length) :
    InStep (commands.take count) ↔
      commandSize commands (count - 10) = commandSize commands 0 ∧
        ∀ target < min count 10, commandSize commands (slotIndex count target) =
          commandSize commands (count - 10 + target) := by
  rw [inStep_iff, List.length_take_of_le within]
  rcases Nat.eq_zero_or_pos count with rfl | positive
  · simp [commandSize]
  · rw [commandSize_take _ (by omega), commandSize_take _ positive]
    refine and_congr_right fun _ => forall₂_congr fun target bound => ?_
    have slot := slotIndex_lt bound
    rw [commandSize_take _ slot, commandSize_take _ (by omega)]

/-- The eleventh command is the first to go to a slot out of order. It forces one size on the
commands before it, and each later command but those that fill slot nine is forced by itself;
what fills slot nine is forced by the next. -/
theorem regular_of_inStep {commands : List Bytes} (many : 10 < commands.length)
    (inStep : ∀ count ≤ commands.length, InStep (commands.take count)) : Regular commands := by
  have sizes (count : Nat) (within : count ≤ commands.length) :=
    (inStep_take_iff within).mp (inStep count within)
  have slot (count target : Nat) (within : count ≤ commands.length) (bound : target < 10)
      (full : 10 ≤ count) : commandSize commands (slotIndex count target) =
        commandSize commands (count - 10 + target) :=
    (sizes count within).2 target (by omega)
  intro index
  induction index using Nat.strongRecOn with
  | ind index ih =>
      intro bound
      have first : commandSize commands 1 = commandSize commands 0 := (sizes 11 many).1
      have earlier (other : Nat) (before : other + 1 < index) :
          commandSize commands other = commandSize commands 0 := by
        obtain same | ⟨last, -⟩ := ih other (by omega) (by omega)
        · exact same
        · omega
      rcases Nat.lt_or_ge index 11 with early | late
      · -- slot `target` of the first eleven commands holds the one before the live one
        have step (target : Nat) (low : 0 < target) (high : target < 10) :
            commandSize commands target = commandSize commands (1 + target) := by
          have here := slot 11 target many high (by decide)
          rwa [show slotIndex 11 target = target by unfold slotIndex; omega] at here
        have all : ∀ target < 10, commandSize commands (1 + target) = commandSize commands 0 := by
          intro target high
          induction target with
          | zero => exact first
          | succ target more =>
              rw [← step (target + 1) (by omega) high, Nat.add_comm target 1]
              exact more (by omega)
        rcases index with _ | index
        · exact Or.inl rfl
        · exact Or.inl (by rw [Nat.add_comm]; exact all index (by omega))
      · by_cases ninth : (index + 1) % 10 = 0
        · rcases Nat.lt_or_ge (index + 1) commands.length with more | last
          · have next := slot (index + 2) 9 more (by decide) (by omega)
            have oldest := slot (index + 2) 0 more (by decide) (by omega)
            rw [show slotIndex (index + 2) 9 = index by unfold slotIndex; omega,
              show index + 2 - 10 + 9 = index + 1 by omega] at next
            rw [show slotIndex (index + 2) 0 = index + 1 by unfold slotIndex; omega,
              earlier (index + 2 - 10 + 0) (by omega)] at oldest
            exact Or.inl (next.trans oldest)
          · exact Or.inr ⟨by omega, by omega⟩
        · have here := slot (index + 1) (index % 10) bound (by omega) (by omega)
          rw [show slotIndex (index + 1) (index % 10) = index by unfold slotIndex; omega] at here
          obtain same | ⟨last, -⟩ := ih (index + 1 - 10 + index % 10) (by omega) (by omega)
          · exact Or.inl (here.trans same)
          · omega

theorem inStep_of_regular {commands : List Bytes}
    (regular : commands.length ≤ 10 ∨ Regular commands) {count : Nat}
    (within : count ≤ commands.length) : InStep (commands.take count) := by
  rw [inStep_take_iff within]
  rcases regular with few | regular
  · have none : count - 10 = 0 := by omega
    refine ⟨by rw [none], fun target bound => ?_⟩
    rw [none, Nat.zero_add, show slotIndex count target = target by unfold slotIndex; omega]
  · by_cases whole : count = commands.length ∧ commands.length % 10 = 0
    · have oldest : count - 10 = 0 ∨ count - 10 + 1 < commands.length := by omega
      refine ⟨?_, fun target bound => ?_⟩
      · obtain zero | inside := oldest
        · rw [zero]
        · obtain same | ⟨last, -⟩ := regular (count - 10) (by omega)
          · exact same
          · omega
      · rw [show slotIndex count target = count - 10 + target by unfold slotIndex; omega]
    · have same (index : Nat) (bound : index < count) :
          commandSize commands index = commandSize commands 0 := by
        obtain same | ⟨last, tens⟩ := regular index (by omega)
        · exact same
        · exact absurd ⟨by omega, tens⟩ whole
      refine ⟨?_, fun target bound => ?_⟩
      · rcases Nat.eq_zero_or_pos count with rfl | positive
        · rfl
        · exact same _ (by omega)
      · exact (same _ (slotIndex_lt bound)).trans (same _ (by omega)).symm

theorem Call.chunk_cases (call : Call) (sys : Sys) :
    call.chunk sys = [] ∨ ∃ buf, call.chunk sys = [buf] := by
  cases call with
  | write file buf =>
      rw [Call.chunk]
      split
      · exact Or.inr ⟨buf, rfl⟩
      · exact Or.inl rfl
  | _ => exact Or.inl rfl

theorem commandsIn_reaches (calls : List Call) {count : Nat}
    (within : count ≤ (commandsIn calls).length) :
    ∃ earlier, earlier <+: calls ∧ commandsIn earlier = (commandsIn calls).take count := by
  induction calls using List.reverseRecOn with
  | nil =>
      have none : commandsIn [] = [] := rfl
      exact ⟨[], List.prefix_rfl, by rw [none, List.take_nil]⟩
  | append_singleton calls call ih =>
      have grown := commandsIn_earlier (List.prefix_append calls [call])
      by_cases short : count ≤ (commandsIn calls).length
      · obtain ⟨earlier, part, commands⟩ := ih short
        refine ⟨earlier, part.trans (List.prefix_append _ _), ?_⟩
        obtain ⟨rest, same⟩ := grown
        rw [commands, ← same, List.take_append_of_le_length short]
      · have most : (commandsIn (calls ++ [call])).length ≤ (commandsIn calls).length + 1 := by
          rw [commandsIn, Sys.chunks_append, Sys.chunks, Sys.chunks, List.append_nil]
          obtain none | ⟨buf, one⟩ := call.chunk_cases (Sys.boot.run calls)
          · rw [none, List.append_nil]
            exact Nat.le_succ _
          · rw [one, commandsOf_concat]
            split
            · simp [commandsIn]
            · exact Nat.le_succ _
        exact ⟨_, List.prefix_rfl, (List.take_of_length_le (by omega)).symm⟩

theorem inStep_parts {calls : List Call}
    (regular : (commandsIn calls).length ≤ 10 ∨ Regular (commandsIn calls)) :
    ∀ earlier, earlier <+: calls → InStep (commandsIn earlier) := by
  intro earlier part
  have grown := commandsIn_earlier part
  rw [List.prefix_iff_eq_take.mp grown]
  exact inStep_of_regular regular grown.length_le

/-- No call can tell the device from the log exactly when no command was evicted, or the
commands all have the same size. -/
theorem boot_run_indistinguishable_iff (calls : List Call) (proper : ∀ call ∈ calls, Proper call)
    (noWrap : NoWrap (commandsIn calls)) :
    Indistinguishable calls ↔
      (commandsIn calls).length ≤ 10 ∨ Regular (commandsIn calls) := by
  rw [indistinguishable_iff_inStep proper noWrap]
  constructor
  · intro inStep
    rcases Nat.lt_or_ge 10 (commandsIn calls).length with many | few
    · refine Or.inr (regular_of_inStep many fun count within => ?_)
      obtain ⟨earlier, part, commands⟩ := commandsIn_reaches calls within
      rw [← commands]
      exact inStep earlier part
    · exact Or.inl few
  · exact inStep_parts

def equalCalls : List Call := .openFile 0 :: List.replicate 21 (.write 0 [97, 10])

theorem equalCalls_proper : ∀ call ∈ equalCalls, Proper call := by
  simp [equalCalls, proper_iff]

theorem boot_run_indistinguishable_iff_equal :
    Indistinguishable equalCalls ↔
      (commandsIn equalCalls).length ≤ 10 ∨ Regular (commandsIn equalCalls) :=
  boot_run_indistinguishable_iff equalCalls equalCalls_proper ⟨by decide, by decide⟩

/-! One reader among any other calls. -/

theorem LogDevice.step_stream (device : LogDevice) (call : Call) :
    device.stream <+: (device.step call).2.stream := by
  obtain ⟨-, stepped⟩ | ⟨buf, -, -, stepped⟩ | ⟨-, filp, -, stepped⟩ := device.step_cases call
  · rw [stepped]
    exact List.prefix_rfl
  · rw [stepped, LogDevice.append]
    split
    · simp [LogDevice.stream]
    · exact List.prefix_rfl
  · rw [stepped]
    exact List.prefix_rfl

theorem LogDevice.run_stream (calls : List Call) :
    ∀ device : LogDevice, device.stream <+: (device.run calls).stream := by
  induction calls with
  | nil => exact fun _ => List.prefix_rfl
  | cons call calls ih => exact fun device => (device.step_stream call).trans (ih _)

/-- A call that only reads or writes, if it is on this file. -/
def Call.streams (file : Nat) : Call → Prop
  | .read _ _ => True
  | .write _ _ => True
  | call => call.file ≠ file

theorem LogDevice.step_elsewhere (device : LogDevice) {call : Call} {file : Nat}
    (elsewhere : call.file ≠ file) : (device.step call).2.files file = device.files file := by
  have other : file ≠ call.file := elsewhere.symm
  obtain ⟨-, stepped⟩ | ⟨buf, -, -, stepped⟩ | ⟨-, filp, -, stepped⟩ := device.step_cases call
  · rw [stepped, device.setFile_files, Function.update_of_ne other]
  · rw [stepped, LogDevice.append]
    split <;> rfl
  · rw [stepped, device.setFile_files, Function.update_of_ne other]

theorem received_elsewhere {call : Call} {file : Nat} (elsewhere : call.file ≠ file)
    (calls : List Call) (reply : Reply) (replies : List Reply) :
    received file (call :: calls) (reply :: replies) = received file calls replies := by
  cases call with
  | read target count =>
      cases reply with
      | ret value bytes => exact if_neg elsewhere
      | fault reason => rfl
  | _ => rfl

/-- One call takes the reader of a file from `position` to `next`. -/
structure Advances (file : Nat) (device : LogDevice) (call : Call) (position next : Int) :
    Prop where
  fPos : ((device.step call).2.files file).fPos = next
  within : position ≤ next ∧ (next = position ∨ 0 ≤ position ∧ next ≤ device.stream.length)
  received : ∀ calls replies, received file (call :: calls) ((device.step call).1 :: replies) =
    (device.stream.drop position.toNat).take (next - position).toNat ++
      received file calls replies

theorem Advances.stays {file : Nat} {device : LogDevice} {call : Call} {position : Int}
    (here : ((device.step call).2.files file).fPos = position)
    (silent : ∀ calls replies, Aesd.received file (call :: calls) ((device.step call).1 :: replies) =
      Aesd.received file calls replies) : Advances file device call position position := by
  refine ⟨here, ⟨le_rfl, Or.inl rfl⟩, fun calls replies => ?_⟩
  rw [silent, Int.sub_self, Int.toNat_zero, List.take_zero, List.nil_append]

theorem LogDevice.advances_read {device : LogDevice} {file : Nat} {position : Int} (count : UInt64)
    (here : (device.files file).fPos = position) :
    ∃ next, Advances file device (.read file count) position next := by
  by_cases opened : (device.files file).privateData = true
  · have served : device.step (.read file count) = device.serve (device.files file) (.read file count) :=
      if_pos (Or.inr opened)
    rw [LogDevice.serve] at served
    by_cases keeps : device.Keeps (device.files file).fPos
    · rw [if_pos keeps] at served
      obtain ⟨first, last⟩ := keeps
      have lower : 0 ≤ position := by omega
      have bytes : device.bytesAt (device.files file).fPos count =
          (device.stream.drop position.toNat).take count.toNat := by
        rw [LogDevice.bytesAt, here]
      have size : ((device.stream.drop position.toNat).take count.toNat).length ≤
          device.stream.length - position.toNat := by
        rw [List.length_take, List.length_drop]
        exact Nat.min_le_right _ _
      refine ⟨position + ((device.stream.drop position.toNat).take count.toNat).length, ?_,
        ⟨by omega, Or.inr ⟨lower, by omega⟩⟩, fun calls replies => ?_⟩
      · rw [served, bytes, device.setFile_files, Function.update_self]
        simp [here]
      · have taken : (device.stream.drop position.toNat).take
            ((device.stream.drop position.toNat).take count.toNat).length =
              (device.stream.drop position.toNat).take count.toNat :=
          List.take_eq_take_iff.mpr (by rw [List.length_take]; omega)
        rw [served, bytes, add_sub_cancel_left, Int.toNat_natCast, taken]
        exact if_pos rfl
    · rw [if_neg keeps] at served
      refine ⟨position, Advances.stays (by rw [served]; exact here) fun calls replies => ?_⟩
      rw [served]
      exact (if_pos rfl).trans (List.nil_append _)
  · have unset : (device.files file).privateData = false := by simpa using opened
    have closed : device.step (.read file count) = (.fault .nullAccess, device) :=
      LogDevice.step_closed (by simp) unset
    refine ⟨position, Advances.stays (by rw [closed]; exact here) fun calls replies => ?_⟩
    rw [closed]
    rfl

theorem LogDevice.advances {device : LogDevice} {file : Nat} {call : Call}
    (streams : call.streams file) {position : Int} (here : (device.files file).fPos = position) :
    ∃ next, Advances file device call position next := by
  by_cases elsewhere : call.file ≠ file
  · refine ⟨position, Advances.stays ?_ fun calls replies => received_elsewhere elsewhere calls _ _⟩
    rw [device.step_elsewhere elsewhere, here]
  · cases call with
    | read target count =>
        obtain rfl : target = file := not_not.mp elsewhere
        exact LogDevice.advances_read count here
    | write target buf =>
        refine ⟨position, Advances.stays ?_ fun calls replies => rfl⟩
        have unmoved : (device.step (.write target buf)).2.files = device.files := by
          rw [LogDevice.step]
          split
          · rw [LogDevice.serve, LogDevice.append]
            split <;> rfl
          · rfl
        rw [unmoved, here]
    | openFile target => exact absurd streams elsewhere
    | llseek target off whence => exact absurd streams elsewhere
    | ioctl target cmd seekto => exact absurd streams elsewhere

/-- The reads of a file between its position at the start and its position at the end return
the bytes of the log between the two. -/
theorem LogDevice.run_received {file : Nat} {calls : List Call}
    (streams : ∀ call ∈ calls, call.streams file) :
    ∀ {device : LogDevice} {position : Int}, (device.files file).fPos = position →
      ∃ final : Int, ((device.run calls).files file).fPos = final ∧ position ≤ final ∧
        (final = position ∨ 0 ≤ position ∧ final ≤ (device.run calls).stream.length) ∧
        received file calls (device.replies calls) =
          ((device.run calls).stream.drop position.toNat).take (final - position).toNat := by
  induction calls with
  | nil =>
      intro device position here
      exact ⟨position, here, le_rfl, Or.inl rfl, by simp [received]⟩
  | cons call calls ih =>
      intro device position here
      obtain ⟨next, advances⟩ := LogDevice.advances (streams call List.mem_cons_self) here
      obtain ⟨final, there, later, bound, rest⟩ := ih
        (fun other member => streams other (List.mem_cons_of_mem _ member)) advances.fPos
      obtain ⟨lower, upper⟩ := advances.within
      have kept := (device.step_stream call).trans (LogDevice.run_stream calls _)
      have longer := kept.length_le
      obtain ⟨more, grown⟩ := kept
      have first : (device.stream.drop position.toNat).take (next - position).toNat =
          ((device.run (call :: calls)).stream.drop position.toNat).take
            (next - position).toNat := by
        obtain rfl | inside := upper
        · rw [Int.sub_self, Int.toNat_zero, List.take_zero, List.take_zero]
        · have size : (next - position).toNat ≤ (device.stream.drop position.toNat).length := by
            rw [List.length_drop]
            omega
          rw [LogDevice.run, after, List.foldl_cons, ← after, ← LogDevice.run, ← grown,
            List.drop_append_of_le_length (by omega), List.take_append_of_le_length size]
      have inside : final = position ∨
          0 ≤ position ∧ final ≤ ((device.step call).2.run calls).stream.length := by omega
      refine ⟨final, there, lower.trans later, inside, ?_⟩
      have split : (final - position).toNat =
          (next - position).toNat + (final - next).toNat := by omega
      have reached : position.toNat + (next - position).toNat = next.toNat := by omega
      rw [split, List.take_add, List.drop_drop, reached, ← first]
      exact (advances.received calls _).trans (congrArg _ rest)

theorem boot_run_received (earlier calls : List Call)
    (proper : ∀ call ∈ earlier ++ calls, Proper call)
    (noWrap : NoWrap (commandsIn (earlier ++ calls)))
    (regular : (commandsIn (earlier ++ calls)).length ≤ 10 ∨ Regular (commandsIn (earlier ++ calls)))
    (file : Nat) (position : Int) (streams : ∀ call ∈ calls, call.streams file)
    (here : ((Sys.boot.run earlier).files file).fPos = position) :
    ∃ final : Int, ((Sys.boot.run (earlier ++ calls)).files file).fPos = final ∧
      position ≤ final ∧
      (final = position ∨
        0 ≤ position ∧ final ≤ (commandsIn (earlier ++ calls)).flatten.length) ∧
      received file calls ((Sys.boot.run earlier).replies calls) =
        ((commandsIn (earlier ++ calls)).flatten.drop position.toNat).take
          (final - position).toNat := by
  have inStep := inStep_parts regular
  obtain ⟨replies, final⟩ := inStep_answers [] proper (by simp) noWrap inStep
  obtain ⟨-, start⟩ := inStep_answers []
    (fun call member => proper call (List.mem_append_left _ member)) (by simp)
    (noWrap.earlier (List.prefix_append earlier calls))
    (fun part within => inStep part (within.trans (List.prefix_append earlier calls)))
  rw [List.append_nil] at replies final start
  rw [Sys.replies, LogDevice.replies, replies_append, replies_append] at replies
  have same := (List.append_inj replies (by simp)).2
  rw [start.files] at here
  obtain ⟨reached, there, later, bound, bytes⟩ := LogDevice.run_received streams here
  have whole : LogDevice.boot.run (earlier ++ calls) = (LogDevice.boot.run earlier).run calls :=
    after_append _ _ _ _
  rw [← whole] at there bound bytes
  rw [← final.files] at there
  rw [LogDevice.stream, LogDevice.boot_run_commands] at bound bytes
  exact ⟨reached, there, later, bound, (congrArg (received file calls) same).trans bytes⟩

def sharedStart : List Call := [.openFile 0, .openFile 1, .write 0 [97, 98, 10], .read 1 2]

def sharedRest : List Call :=
  [.write 0 [99], .read 1 9, .llseek 0 0 seekEnd, .write 0 [100, 10], .read 0 5, .read 1 9]

theorem boot_run_received_shared :
    ∃ final : Int, ((Sys.boot.run (sharedStart ++ sharedRest)).files 1).fPos = final ∧
      2 ≤ final ∧
      (final = 2 ∨ (0 : Int) ≤ 2 ∧ final ≤ (commandsIn (sharedStart ++ sharedRest)).flatten.length) ∧
      received 1 sharedRest ((Sys.boot.run sharedStart).replies sharedRest) =
        ((commandsIn (sharedStart ++ sharedRest)).flatten.drop 2).take (final - 2).toNat :=
  boot_run_received sharedStart sharedRest (by simp [sharedStart, sharedRest, proper_iff])
    ⟨by decide, by decide⟩ (Or.inl (by decide)) 1 2
    (by simp [sharedRest, Call.streams, Call.file]) (by decide +kernel)

end Aesd
