import Aesd.HeapSteps
import Aesd.LogDevice

/-!
What the driver does to kernel memory over whole runs: it answers as the owning driver does,
wherever blocks are put, touches no block of anybody else, and never gives back the blocks that
held part of a command.
-/

namespace Aesd

open Records SlotLog Cells

/-! What a history leaves in memory. -/

def partialBlock (pending : Bytes) : List Bytes := if pending = [] then [] else [pending]

/-- What was pending when a chunk came, each time that something was. -/
def lostBlocks (chunks : List Bytes) : List Bytes :=
  (List.range chunks.length).flatMap fun count => partialBlock (pendingOf (chunks.take count))

theorem lostBlocks_concat (chunks : List Bytes) (chunk : Bytes) :
    lostBlocks (chunks ++ [chunk]) = lostBlocks chunks ++ partialBlock (pendingOf chunks) := by
  have earlier : ∀ count ∈ List.range chunks.length,
      partialBlock (pendingOf ((chunks ++ [chunk]).take count)) =
        partialBlock (pendingOf (chunks.take count)) := by
    intro count member
    rw [List.take_append_of_le_length (Nat.le_of_lt (List.mem_range.mp member))]
  simp only [lostBlocks, List.length_append, List.length_singleton, List.range_succ,
    List.flatMap_append, List.flatMap_congr earlier, List.flatMap_singleton,
    List.take_left']

/-- Every chunk is a command's last, is lost with what was pending, or is pending. -/
theorem lostBlocks_length {chunks : List Bytes} (nonempty : ∀ chunk ∈ chunks, chunk ≠ []) :
    (lostBlocks chunks).length + (commandsOf chunks).length +
      (partialBlock (pendingOf chunks)).length = chunks.length := by
  induction chunks using List.reverseRecOn with
  | nil => rfl
  | append_singleton chunks chunk ih =>
      have before := ih fun other member => nonempty other (List.mem_append_left _ member)
      have given := nonempty chunk (by simp)
      rw [lostBlocks_concat, commandsOf_concat, pendingOf_concat]
      split
      · simp [partialBlock] at before ⊢
        omega
      · simp [partialBlock, given] at before ⊢
        omega

/-! One step. -/

/-- The structure that `aesd_device.buffer` points to, as a block. -/
def structCell (address : Nat) : Cell UInt8 := ⟨address, List.replicate bufferBytes 0⟩

/-- The driver over addresses after a history, beside the owning driver: of its memory, the slots
and the pending command own their blocks, what it has lost is still there, and the rest is what
others had. -/
structure Backed (address : Nat) (foreign : List (Cell UInt8)) (chunks : List Bytes)
    (heapSys : HeapSys) (sys : Sys) : Prop where
  files : heapSys.files = sys.files
  nonempty : ∀ chunk ∈ chunks, chunk ≠ []
  held : ∃ buffer table tmp lost, sys.Follows chunks buffer ∧
    Backs heapSys address buffer (pendingOf chunks) table tmp
      (lost ++ structCell address :: foreign) ∧
    lost.map Sigma.snd = lostBlocks chunks

theorem OwnsTmp.contents {tmpEntry : PointerEntry} {pending : Bytes} {tmp : List (Cell UInt8)}
    (owns : OwnsTmp tmpEntry pending tmp) : tmp.map Sigma.snd = partialBlock pending := by
  obtain ⟨rfl, rfl⟩ | ⟨some, address, -, rfl⟩ := owns.cells
  · rfl
  · rw [partialBlock, if_neg some]
    rfl

section

variable {address : Nat} {foreign : List (Cell UInt8)} {chunks : List Bytes} {heapSys : HeapSys}
  {sys : Sys}

/-- What a write needs besides the calls that are checked: a byte, and the allocations that
nothing checks, unless it is refused before them. -/
def Attempt.Sound (attempt : Attempt) : Prop :=
  ∀ file buf, attempt.call = .write file buf →
    buf ≠ [] ∧ (attempt.writes.Refused ∨ attempt.writes.alloc.Suffice buf)

def StepsAlike (allocator : Allocator UInt8) (address : Nat) (foreign : List (Cell UInt8))
    (chunks : List Bytes) (heapSys : HeapSys) (sys : Sys) (attempt : Attempt) : Prop :=
  (heapSys.attempt allocator attempt).1 = (sys.attempt attempt).1 ∧
    Backed address foreign (chunks ++ attempt.accepted sys) (heapSys.attempt allocator attempt).2
      (sys.attempt attempt).2

theorem Backed.write_refused (backed : Backed address foreign chunks heapSys sys) {file : Nat}
    {buf : Bytes} (nonempty : buf ≠ []) (reads : ReadOutcomes) {writes : WriteOutcomes}
    (refused : (sys.files file).privateData = false ∨ writes.Refused)
    (allocator : Allocator UInt8) :
    StepsAlike allocator address foreign chunks heapSys sys ⟨.write file buf, reads, writes⟩ := by
  obtain ⟨buffer, table, tmp, lost, follows, backs, contents⟩ := backed.held
  obtain ⟨error, next, negative, heapFailed, failed, files, after⟩ :=
    backs.write_refused follows.present nonempty refused allocator
  have none : (⟨.write file buf, reads, writes⟩ : Attempt).accepted sys = [] := by
    simp [Attempt.accepted, Sys.attempt, failed, Int.not_le.mpr negative]
  rw [StepsAlike, none, List.append_nil]
  simp only [HeapSys.attempt, Sys.attempt, backed.files, heapFailed, failed, true_and]
  exact ⟨files.trans backed.files, backed.nonempty, buffer, table, tmp, lost,
    ⟨follows.present, follows.history⟩, after, contents⟩

/-- A write that is not refused appends its chunk. -/
theorem Sys.Follows.appends {buffer : CircularBuffer} (follows : sys.Follows chunks buffer)
    {file : Nat} {buf : Bytes} (nonempty : buf ≠ []) (reads : ReadOutcomes) {writes : WriteOutcomes}
    (opened : (sys.files file).privateData = true) (checked : ¬ writes.Refused)
    (suffice : writes.alloc.Suffice buf) :
    ∃ next, sys.attempt ⟨.write file buf, reads, writes⟩ = (.ret buf.length [], next) ∧
      next.files = sys.files ∧ next.Follows (chunks ++ [buf])
        (if endsCommand buf then buffer.store (pendingOf chunks ++ buf) else buffer) ∧
      (⟨.write file buf, reads, writes⟩ : Attempt).accepted sys = [buf] := by
  obtain ⟨state, added, followed⟩ := follows.history.add nonempty
  have wrote : aesdWrite writes sys.dev (sys.files file) buf =
      (.ret buf.length [], ⟨some state.buffer, state.tmpEntry⟩) := by
    rw [aesdWrite_reaches follows nonempty (by simp [opened]) checked,
      addEntry_of_suffice suffice nonempty, added, writeReply]
  rw [follows.history.addEntry nonempty] at added
  have stored : state.buffer =
      if endsCommand buf then buffer.store (pendingOf chunks ++ buf) else buffer := by
    rw [← Except.ok.inj added]
    split <;> rfl
  refine ⟨{ sys with dev := ⟨some state.buffer, state.tmpEntry⟩ }, ?_, rfl, ?_, ?_⟩
  · simp only [Sys.attempt, wrote]
  · rw [← stored]
    exact ⟨rfl, followed⟩
  · simp [Attempt.accepted, Sys.attempt, wrote]

theorem Backed.write_appends (backed : Backed address foreign chunks heapSys sys) {file : Nat}
    {buf : Bytes} (nonempty : buf ≠ []) (reads : ReadOutcomes) {writes : WriteOutcomes}
    (opened : (sys.files file).privateData = true) (checked : ¬ writes.Refused)
    (suffice : writes.alloc.Suffice buf) (allocator : Allocator UInt8) :
    StepsAlike allocator address foreign chunks heapSys sys ⟨.write file buf, reads, writes⟩ := by
  obtain ⟨buffer, table, tmp, lost, follows, backs, contents⟩ := backed.held
  obtain ⟨appended, wrote, same, followed, one⟩ :=
    follows.appends nonempty reads opened checked suffice
  have heapOpened : (heapSys.files file).privateData = true := by rw [backed.files, opened]
  obtain ⟨next, table', tmp', written, files, after⟩ :=
    backs.write heapOpened nonempty checked suffice allocator
  rw [← pendingOf_concat] at after
  rw [StepsAlike, one, wrote]
  simp only [HeapSys.attempt, written, true_and]
  refine ⟨by rw [files, backed.files, same], ?_, _, table', tmp', lost ++ tmp, followed,
    after.regroup ?_, ?_⟩
  · intro other member
    rcases List.mem_append.mp member with earlier | last
    · exact backed.nonempty other earlier
    · rw [List.mem_singleton.mp last]
      exact nonempty
  · rw [List.append_assoc]
    exact List.perm_append_comm_assoc _ _ _
  · rw [List.map_append, contents, backs.tmpEntry.contents, lostBlocks_concat]

theorem Backs.setFile {buffer : CircularBuffer} {pending : Bytes} {table : List (List (Cell UInt8))}
    {tmp others : List (Cell UInt8)} (backs : Backs heapSys address buffer pending table tmp others)
    (file : Nat) (filp : File) :
    Backs (heapSys.setFile file filp) address buffer pending table tmp others :=
  ⟨backs.pointers, backs.tmpEntry, backs.splits⟩

theorem Backed.setFile (backed : Backed address foreign chunks heapSys sys) (file : Nat)
    (filp : File) :
    Backed address foreign chunks (heapSys.setFile file filp) (sys.setFile file filp) := by
  obtain ⟨buffer, table, tmp, lost, follows, backs, contents⟩ := backed.held
  refine ⟨?_, backed.nonempty, buffer, table, tmp, lost, ⟨follows.present, follows.history⟩,
    backs.setFile file filp, contents⟩
  rw [HeapSys.setFile, Sys.setFile, backed.files]

theorem Backed.read (backed : Backed address foreign chunks heapSys sys) (file : Nat)
    (count : UInt64) (reads : ReadOutcomes) (writes : WriteOutcomes)
    (allocator : Allocator UInt8) :
    StepsAlike allocator address foreign chunks heapSys sys ⟨.read file count, reads, writes⟩ := by
  obtain ⟨buffer, table, tmp, lost, follows, backs, contents⟩ := backed.held
  have none : (⟨.read file count, reads, writes⟩ : Attempt).accepted sys = [] := rfl
  rw [StepsAlike, none, List.append_nil]
  by_cases opened : (sys.files file).privateData = true
  · obtain ⟨next, after, read, dev, files, left⟩ :=
      backs.read follows.present opened count reads allocator
    obtain ⟨shown, stepped⟩ := follows.attempt ⟨.read file count, reads, writes⟩
    rw [none, List.append_nil] at stepped
    have same : shown = after := by
      have present := stepped.present
      simp only [Sys.attempt, Sys.setFile, dev, Option.some.injEq] at present
      exact present.symm
    subst shown
    simp only [HeapSys.attempt, backed.files, read]
    refine ⟨rfl, ?_, backed.nonempty, after, table, tmp, lost, stepped, left.setFile _ _, contents⟩
    simp only [HeapSys.setFile, Sys.attempt, Sys.setFile, files, backed.files]
  · have closed : (sys.files file).privateData = false := by simpa using opened
    have refused : aesdRead reads sys.dev (sys.files file) count =
        (.fault .nullAccess, sys.dev, sys.files file) := by simp [aesdRead, closed]
    have heapRefused : heapSys.read allocator reads (heapSys.files file) count =
        (.fault .nullAccess, heapSys, sys.files file) := by
      simp [HeapSys.read, backed.files, closed]
    simp only [HeapSys.attempt, Sys.attempt, refused, heapRefused, true_and]
    exact backed.setFile file _

theorem Backed.attempt (backed : Backed address foreign chunks heapSys sys) {attempt : Attempt}
    (sound : attempt.Sound) (allocator : Allocator UInt8) :
    StepsAlike allocator address foreign chunks heapSys sys attempt := by
  obtain ⟨buffer, table, tmp, lost, follows, backs, contents⟩ := backed.held
  have shown : heapSys.view.buffer = sys.dev.buffer := backs.view.trans follows.present.symm
  obtain ⟨call, reads, writes⟩ := attempt
  cases call with
  | openFile file =>
      rw [StepsAlike, show (Attempt.mk (.openFile file) reads writes).accepted sys = [] from rfl,
        List.append_nil]
      exact ⟨rfl, backed.setFile file _⟩
  | write file buf =>
      obtain ⟨nonempty, served⟩ := sound file buf rfl
      by_cases refused : (sys.files file).privateData = false ∨ writes.Refused
      · exact backed.write_refused nonempty reads refused allocator
      · obtain ⟨opened, checked⟩ := not_or.mp refused
        exact backed.write_appends nonempty reads (by simpa using opened) checked
          (served.resolve_left checked) allocator
  | read file count => exact backed.read file count reads writes allocator
  | llseek file off whence =>
      have sought : aesdLlseek heapSys.view (heapSys.files file) off whence =
          aesdLlseek sys.dev (sys.files file) off whence := by
        simp only [aesdLlseek, shown, backed.files]
      rw [StepsAlike, show (Attempt.mk (.llseek file off whence) reads writes).accepted sys = []
        from rfl, List.append_nil]
      simp only [HeapSys.attempt, Sys.attempt, Sys.step, sought, true_and]
      exact backed.setFile file _
  | ioctl file cmd seekto =>
      have sought : aesdUnlockedIoctl heapSys.view (heapSys.files file) cmd seekto =
          aesdUnlockedIoctl sys.dev (sys.files file) cmd seekto := by
        simp only [aesdUnlockedIoctl, shown, backed.files]
      rw [StepsAlike, show (Attempt.mk (.ioctl file cmd seekto) reads writes).accepted sys = []
        from rfl, List.append_nil]
      simp only [HeapSys.attempt, Sys.attempt, Sys.step, sought, true_and]
      exact backed.setFile file _

end

/-! Runs. -/

def Sys.attemptReplies (sys : Sys) (attempts : List Attempt) : List Reply :=
  Simulation.replies Sys.attempt sys attempts

def HeapSys.replies (allocator : Allocator UInt8) (sys : HeapSys) (attempts : List Attempt) :
    List Reply :=
  Simulation.replies (HeapSys.attempt allocator) sys attempts

def HeapSys.run (allocator : Allocator UInt8) (sys : HeapSys) (attempts : List Attempt) : HeapSys :=
  Simulation.after (HeapSys.attempt allocator) sys attempts

theorem Backed.run {address : Nat} {foreign : List (Cell UInt8)} (allocator : Allocator UInt8)
    {attempts : List Attempt} (sound : ∀ attempt ∈ attempts, attempt.Sound) :
    ∀ {chunks : List Bytes} {heapSys : HeapSys} {sys : Sys},
      Backed address foreign chunks heapSys sys →
      heapSys.replies allocator attempts = sys.attemptReplies attempts ∧
        Backed address foreign (chunks ++ sys.accepted attempts) (heapSys.run allocator attempts)
          (sys.attemptAll attempts) := by
  induction attempts with
  | nil =>
      intro chunks heapSys sys backed
      rw [Sys.accepted, List.append_nil]
      exact ⟨rfl, backed⟩
  | cons attempt attempts ih =>
      intro chunks heapSys sys backed
      obtain ⟨first, later⟩ := List.forall_mem_cons.mp sound
      obtain ⟨reply, stepped⟩ := backed.attempt first allocator
      obtain ⟨replies, final⟩ := ih later stepped
      rw [List.append_assoc] at final
      exact ⟨by rw [HeapSys.replies, Simulation.replies, reply]; exact congrArg _ replies, final⟩

theorem HeapSys.initDevice_backed (allocator : Allocator UInt8) (memory : Memory)
    (outcomes : InitOutcomes) (given : outcomes.kmalloc = true) :
    ∃ start address, (HeapSys.fresh memory).initDevice allocator outcomes =
        .ok (outcomes.cdevAdd, if outcomes.cdevAdd then 1 else 0, start) ∧
      Backed address memory.entries [] start Sys.boot := by
  obtain ⟨address, filling, allocated, called, sized, splits⟩ :=
    Memory.kmalloc_splits (splits_self memory) allocator bufferBytes
  obtain ⟨cleared, stored, splits⟩ := Memory.fill_splits splits (List.replicate bufferBytes 0)
    (by simp [sized])
  refine ⟨⟨cleared, some (address, zeroedPointers), ⟨none, 0⟩, fun _ => ⟨false, 0⟩⟩, address, ?_,
    rfl, by simp, zeroedBuffer, List.replicate 10 [], [], [], Sys.boot_follows,
    ⟨⟨zeroedPointers, rfl, rfl, rfl, ?_⟩, ⟨rfl, Or.inl ⟨rfl, rfl⟩⟩, splits⟩, rfl⟩
  · simp only [HeapSys.initDevice, HeapSys.fresh, given, called, stored, ok_bind,
      PointerEntry.init, Memory.kfree]
    rfl
  · intro slot bound
    have nothing : (List.replicate 10 ([] : List (Cell UInt8))).getD slot [] = [] := by
      rw [List.getD_eq_getElem _ _ (by simpa using bound), List.getElem_replicate]
    have pointer : zeroedPointers.entry[slot] = ⟨none, 0⟩ := by simp [zeroedPointers]
    have entry : zeroedBuffer.entry[slot] = emptyEntry := by simp [zeroedBuffer]
    rw [nothing, pointer, entry]
    exact Owns.null 0

/-! The blocks of the slots. -/

def entryBlocks (entry : BufferEntry) : List Bytes :=
  match entry.buffptr with
  | .block bytes => [bytes]
  | _ => []

theorem Owns.contents {pointer : PointerEntry} {entry : BufferEntry} {owned : List (Cell UInt8)}
    (owns : Owns pointer entry owned) : owned.map Sigma.snd = entryBlocks entry := by
  cases owns <;> rfl

theorem Mirrors.contents {pointers : PointerBuffer} {buffer : CircularBuffer}
    {table : List (List (Cell UInt8))} (mirrors : Mirrors pointers buffer table) :
    table.flatten.map Sigma.snd = buffer.entry.toList.flatMap entryBlocks := by
  have slots : table.map (List.map Sigma.snd) = buffer.entry.toList.map entryBlocks := by
    apply List.ext_getElem
    · simp [mirrors.length]
    · intro slot inside _
      have bound : slot < 10 := by simpa [mirrors.length] using inside
      have within : slot < table.length := by simpa using inside
      have owned := (mirrors.slots slot bound).contents
      rw [List.getD_eq_getElem _ _ within] at owned
      simpa using owned
  rw [List.map_flatten, slots, List.flatMap_def]

theorem entryBlocks_slotEntry_length (commands : List Bytes) {target : Nat} (bound : target < 10) :
    (entryBlocks (slotEntry commands target)).length = if target < commands.length then 1 else 0 := by
  split
  next used =>
    have slot : commandSlot target = target := by
      rw [commandSlot, wrappedSlot_of_lt (by omega), Nat.mod_eq_of_lt bound]
    have stored := lastIndex_ne_none commandSlot used
    rw [slot] at stored
    rw [slotEntry]
    split
    next none => exact absurd none stored
    next => rfl
  next unused => rw [slotEntry_unused (Nat.le_of_not_lt unused) bound, entryBlocks]; rfl

theorem entryBlocks_slotEntry {commands : List Bytes} (count : commands.length ≤ 2 ^ 32)
    {target : Nat} (bound : target < 10) :
    entryBlocks (slotEntry commands target) =
      if target < min commands.length 10 then
        [commands.getD (slotIndex commands.length target) []]
      else [] := by
  split
  next used =>
    have inside := slotIndex_lt used
    have stored := slotEntry_of_recent count inside (slotIndex_recent commands.length target)
    rw [slotIndex_mod used] at stored
    rw [stored, entryBlocks, List.getD_eq_getElem _ _ inside]
  next unused => rw [slotEntry_unused (by omega) bound, entryBlocks]; rfl

theorem flatMap_range_of_lt {α : Type} (element : Nat → α) {count bound : Nat}
    (within : count ≤ bound) :
    ((List.range bound).flatMap fun index => if index < count then [element index] else []) =
      (List.range count).map element := by
  induction bound with
  | zero => rw [Nat.le_zero.mp within]; rfl
  | succ bound ih =>
      rw [List.range_succ, List.flatMap_append, List.flatMap_singleton]
      by_cases all : count = bound + 1
      · subst all
        have earlier : ((List.range bound).flatMap fun index =>
            if index < bound + 1 then [element index] else []) = (List.range bound).map element := by
          rw [List.map_eq_flatMap]
          exact List.flatMap_congr fun index member =>
            if_pos (Nat.lt_succ_of_lt (List.mem_range.mp member))
        rw [earlier, if_pos (Nat.lt_succ_self bound), List.range_succ, List.map_append]
        rfl
      · rw [ih (by omega), if_neg (by omega), List.append_nil]

theorem Represents.entries {state : BufferState} {commands : List Bytes} {pending : Bytes}
    (represents : Represents state commands pending) :
    state.buffer.entry.toList = (List.range 10).map (slotEntry commands) := by
  apply List.ext_getElem
  · simp
  · intro slot inside _
    have bound : slot < 10 := by simpa using inside
    have entry := represents.entry slot bound
    rw [Vector.getElem?_eq_getElem bound, Option.some.injEq] at entry
    simpa using entry

theorem Represents.contents {state : BufferState} {commands : List Bytes} {pending : Bytes}
    (represents : Represents state commands pending) (count : commands.length ≤ 2 ^ 32) :
    state.buffer.entry.toList.flatMap entryBlocks = slotsOf commands := by
  rw [represents.entries, List.flatMap_map, slotsOf,
    List.flatMap_congr fun target member => entryBlocks_slotEntry count (List.mem_range.mp member)]
  exact flatMap_range_of_lt _ (Nat.min_le_right _ _)

theorem sum_range_lt (count bound : Nat) :
    ((List.range bound).map fun index => if index < count then 1 else 0).sum = min count bound := by
  induction bound with
  | zero => simp
  | succ bound ih =>
      rw [List.range_succ, List.map_append, List.sum_append, ih, List.map_singleton,
        List.sum_singleton]
      split <;> omega

theorem Represents.blocks {state : BufferState} {commands : List Bytes} {pending : Bytes}
    (represents : Represents state commands pending) :
    (state.buffer.entry.toList.flatMap entryBlocks).length = min commands.length 10 := by
  rw [represents.entries, List.flatMap_map, List.length_flatMap, ← sum_range_lt]
  exact congrArg List.sum (List.map_congr_left fun target member =>
    entryBlocks_slotEntry_length commands (List.mem_range.mp member))

/-! What the memory consists of. -/

section

variable {address : Nat} {foreign : List (Cell UInt8)} {chunks : List Bytes} {heapSys : HeapSys}
  {sys : Sys}

theorem Backed.untouched (backed : Backed address foreign chunks heapSys sys) {other : Nat}
    {bytes : Bytes} (member : ⟨other, bytes⟩ ∈ foreign) :
    heapSys.memory.lookup other = some bytes := by
  obtain ⟨buffer, table, tmp, lost, -, backs, -⟩ := backed.held
  exact backs.splits.lookup_of_mem (by simp [member])

/-- One block for the buffer, one for each slot in use, one for what is pending, and one for each
chunk that came while something was pending. -/
theorem Backed.count (backed : Backed address foreign chunks heapSys sys) :
    heapSys.memory.entries.length + ((commandsOf chunks).length - 10) =
      foreign.length + 1 + chunks.length := by
  obtain ⟨buffer, table, tmp, lost, follows, backs, contents⟩ := backed.held
  obtain ⟨pointers, -, mirrors⟩ := backs.pointers
  have slots := congrArg List.length mirrors.contents
  have pending := congrArg List.length backs.tmpEntry.contents
  have gone := congrArg List.length contents
  have ledger := lostBlocks_length backed.nonempty
  rw [List.length_map, follows.history.blocks] at slots
  rw [List.length_map] at pending gone
  rw [backs.splits.count]
  simp only [List.length_append, List.length_cons, structCell] at slots ⊢
  omega

theorem Backed.contents (backed : Backed address foreign chunks heapSys sys)
    (count : (commandsOf chunks).length ≤ 2 ^ 32) :
    (heapSys.memory.entries.map Sigma.snd).Perm
      (liveOf (commandsOf chunks) ++ partialBlock (pendingOf chunks) ++ lostBlocks chunks ++
        List.replicate bufferBytes 0 :: foreign.map Sigma.snd) := by
  obtain ⟨buffer, table, tmp, lost, follows, backs, gone⟩ := backed.held
  obtain ⟨pointers, -, mirrors⟩ := backs.pointers
  have slots : (table.flatten.map Sigma.snd).Perm (liveOf (commandsOf chunks)) := by
    rw [mirrors.contents, follows.history.contents count, liveOf_eq_rotate]
    exact (List.rotate_perm _ _).symm
  have blocks := List.Perm.map Sigma.snd backs.splits
  simp only [List.map_append, List.map_cons, backs.tmpEntry.contents, gone] at blocks
  refine blocks.trans ?_
  rw [List.append_assoc _ (lostBlocks chunks)]
  exact (slots.append_right _).append_right _

end

/-- Whichever of the calls that it checks fail, the driver over addresses answers as the owning
driver does, and whatever was in memory before the module came is still there, unchanged. -/
theorem HeapSys.run_answers (allocator : Allocator UInt8) (memory : Memory)
    (attempts : List Attempt) (sound : ∀ attempt ∈ attempts, attempt.Sound) :
    ∃ start, (HeapSys.fresh memory).initDevice allocator {} = .ok (true, 1, start) ∧
      start.replies allocator attempts = Sys.boot.attemptReplies attempts ∧
      (start.run allocator attempts).files = (Sys.boot.attemptAll attempts).files ∧
      ∀ other bytes, memory.lookup other = some bytes →
        (start.run allocator attempts).memory.lookup other = some bytes := by
  obtain ⟨start, address, loaded, backed⟩ := HeapSys.initDevice_backed allocator memory {} rfl
  obtain ⟨replies, final⟩ := Backed.run allocator sound backed
  exact ⟨start, loaded, replies, final.files,
    fun other bytes found => final.untouched (AList.mem_lookup_iff.mp found)⟩

def splitWrites : List Attempt :=
  [{ call := .openFile 0 }, { call := .write 0 [97] },
    { call := .write 0 [100], writes := { copyFromUser := false, alloc := { tmp := false } } },
    { call := .write 0 [98, 10] }, { call := .read 0 5, reads := { copyToUser := false } },
    { call := .write 0 [99], writes := { alloc := { target := false } } }]

theorem splitWrites_sound : ∀ attempt ∈ splitWrites, attempt.Sound := by
  simp [splitWrites, Attempt.Sound, WriteOutcomes.Refused, Allocations.Suffice, endsCommand,
    newline]

def usedMemory : Memory := AList.insert 7 [1, 2] ∅

theorem HeapSys.run_answers_splitWrites :
    ∃ start, (HeapSys.fresh usedMemory).initDevice (.bump 255) {} = .ok (true, 1, start) ∧
      start.replies (.bump 255) splitWrites = Sys.boot.attemptReplies splitWrites ∧
      (start.run (.bump 255) splitWrites).files = (Sys.boot.attemptAll splitWrites).files ∧
      ∀ other bytes, usedMemory.lookup other = some bytes →
        (start.run (.bump 255) splitWrites).memory.lookup other = some bytes :=
  HeapSys.run_answers (.bump 255) usedMemory splitWrites splitWrites_sound

/-- The blocks after a run: the live commands, what is pending, and all that was ever pending
when a chunk was accepted. -/
theorem HeapSys.run_contents (allocator : Allocator UInt8) (memory : Memory)
    (attempts : List Attempt) (sound : ∀ attempt ∈ attempts, attempt.Sound)
    (count : (commandsOf (Sys.boot.accepted attempts)).length ≤ 2 ^ 32) :
    ∃ start, (HeapSys.fresh memory).initDevice allocator {} = .ok (true, 1, start) ∧
      ((start.run allocator attempts).memory.entries.map Sigma.snd).Perm
        (liveOf (commandsOf (Sys.boot.accepted attempts)) ++
          partialBlock (pendingOf (Sys.boot.accepted attempts)) ++
          lostBlocks (Sys.boot.accepted attempts) ++
          List.replicate bufferBytes 0 :: memory.entries.map Sigma.snd) := by
  obtain ⟨start, address, loaded, backed⟩ := HeapSys.initDevice_backed allocator memory {} rfl
  obtain ⟨-, final⟩ := Backed.run allocator sound backed
  exact ⟨start, loaded, final.contents count⟩

theorem HeapSys.run_contents_splitWrites :
    ∃ start, (HeapSys.fresh usedMemory).initDevice (.bump 255) {} = .ok (true, 1, start) ∧
      ((start.run (.bump 255) splitWrites).memory.entries.map Sigma.snd).Perm
        ([[97, 98, 10]] ++ [[99]] ++ [[97]] ++ List.replicate bufferBytes 0 :: [[1, 2]]) :=
  HeapSys.run_contents (.bump 255) usedMemory splitWrites splitWrites_sound (by decide)

theorem partialBlock_eq_nil_iff (pending : Bytes) : partialBlock pending = [] ↔ pending = [] := by
  rw [partialBlock]
  split
  next none => simp [none]
  next some => simp [some]

theorem lostBlocks_eq_nil_iff {chunks : List Bytes} (nonempty : ∀ chunk ∈ chunks, chunk ≠ []) :
    lostBlocks chunks = [] ↔ ∀ chunk ∈ chunks.dropLast, endsCommand chunk = true := by
  induction chunks using List.reverseRecOn with
  | nil => simp [lostBlocks]
  | append_singleton chunks chunk ih =>
      have before : ∀ other ∈ chunks, other ≠ [] :=
        fun other member => nonempty other (List.mem_append_left _ member)
      rw [lostBlocks_concat, List.append_eq_nil_iff, ih before, List.dropLast_concat,
        partialBlock_eq_nil_iff]
      rcases List.eq_nil_or_concat chunks with rfl | ⟨earlier, last, rfl⟩
      · have none : pendingOf ([] : List Bytes) = [] := rfl
        simp [none]
      · rw [List.concat_eq_append] at before ⊢
        have given : last ≠ [] := before last (by simp)
        rw [pendingOf_concat, List.dropLast_concat, List.forall_mem_append]
        refine and_congr_right fun _ => ?_
        by_cases ended : endsCommand last <;> simp [ended, given]

/-- A run leaves no block that nothing points to exactly when every accepted write but the last
ends a command. -/
theorem HeapSys.run_lossless_iff (allocator : Allocator UInt8) (memory : Memory)
    (attempts : List Attempt) (sound : ∀ attempt ∈ attempts, attempt.Sound)
    (count : (commandsOf (Sys.boot.accepted attempts)).length ≤ 2 ^ 32) :
    ∃ start, (HeapSys.fresh memory).initDevice allocator {} = .ok (true, 1, start) ∧
      (((start.run allocator attempts).memory.entries.map Sigma.snd).Perm
          (liveOf (commandsOf (Sys.boot.accepted attempts)) ++
            partialBlock (pendingOf (Sys.boot.accepted attempts)) ++
            List.replicate bufferBytes 0 :: memory.entries.map Sigma.snd) ↔
        ∀ chunk ∈ (Sys.boot.accepted attempts).dropLast, endsCommand chunk = true) := by
  obtain ⟨start, address, loaded, backed⟩ := HeapSys.initDevice_backed allocator memory {} rfl
  obtain ⟨-, final⟩ := Backed.run allocator sound backed
  rw [List.nil_append] at final
  have contents := final.contents count
  refine ⟨start, loaded, ?_⟩
  rw [← lostBlocks_eq_nil_iff final.nonempty]
  constructor
  · intro lossless
    have lengths := (contents.symm.trans lossless).length_eq
    simp only [List.length_append] at lengths
    exact List.length_eq_zero_iff.mp (by omega)
  · intro none
    rw [none, List.append_nil] at contents
    exact contents

theorem HeapSys.run_lossless_iff_splitWrites :
    ∃ start, (HeapSys.fresh usedMemory).initDevice (.bump 255) {} = .ok (true, 1, start) ∧
      (((start.run (.bump 255) splitWrites).memory.entries.map Sigma.snd).Perm
          ([[97, 98, 10]] ++ [[99]] ++ List.replicate bufferBytes 0 :: [[1, 2]]) ↔
        ∀ chunk ∈ (Sys.boot.accepted splitWrites).dropLast, endsCommand chunk = true) :=
  HeapSys.run_lossless_iff (.bump 255) usedMemory splitWrites splitWrites_sound (by decide)

/-! Loading and unloading, any number of times. -/

/-- What a loaded module has been given since it was loaded. -/
structure Session where
  sys : Sys
  chunks : List Bytes

/-- The books of the kernel: the session, the blocks that nothing will ever release, and the
regions of device numbers that are taken. -/
structure Ledger where
  session : Option Session
  abandoned : Nat
  regions : Nat

def Session.blocks (session : Session) : Nat :=
  session.chunks.length - ((commandsOf session.chunks).length - 10)

def Ledger.step (ledger : Ledger) (event : KernelEvent) : Ledger :=
  match event, ledger.session with
  | .insmod outcomes, none =>
      if outcomes.allocRegion = false then ledger
      else if outcomes.kmalloc = false then { ledger with regions := ledger.regions + 1 }
      else if outcomes.cdevAdd = false then { ledger with abandoned := ledger.abandoned + 1 }
      else { ledger with session := some ⟨Sys.boot, []⟩, regions := ledger.regions + 1 }
  | .rmmod, some session =>
      ⟨none, ledger.abandoned + session.blocks, ledger.regions - 1⟩
  | .call attempt, some session =>
      { ledger with
        session := some ⟨(session.sys.attempt attempt).2,
          session.chunks ++ attempt.accepted session.sys⟩ }
  | _, _ => ledger

def Ledger.run (ledger : Ledger) (events : List KernelEvent) : Ledger :=
  events.foldl Ledger.step ledger

def Ledger.blocks (ledger : Ledger) : Nat :=
  ledger.abandoned + (ledger.session.elim 0 fun session => 1 + session.blocks)

/-- The memory besides what others had in it: a session's blocks and those that are abandoned. -/
def Accounted (foreign gone : List (Cell UInt8)) (heapSys : HeapSys) : Option Session → Prop
  | none => Splits heapSys.memory (gone ++ foreign)
  | some session => ∃ address, Backed address (gone ++ foreign) session.chunks heapSys session.sys

structure Balanced (foreign : List (Cell UInt8)) (kernel : Kernel) (ledger : Ledger) : Prop where
  regions : kernel.regions = ledger.regions
  loaded : kernel.loaded = ledger.session.isSome
  memory : ∃ gone, gone.length = ledger.abandoned ∧
    Accounted foreign gone kernel.sys ledger.session

theorem Backed.regroup {address : Nat} {foreign moved : List (Cell UInt8)} {chunks : List Bytes}
    {heapSys : HeapSys} {sys : Sys} (backed : Backed address foreign chunks heapSys sys)
    (perm : foreign.Perm moved) : Backed address moved chunks heapSys sys := by
  obtain ⟨buffer, table, tmp, lost, follows, backs, contents⟩ := backed.held
  exact ⟨backed.files, backed.nonempty, buffer, table, tmp, lost, follows,
    backs.regroup ((perm.cons _).append_left lost), contents⟩

theorem Backed.kfree {address : Nat} {foreign : List (Cell UInt8)} {chunks : List Bytes}
    {heapSys : HeapSys} {sys : Sys} (backed : Backed address foreign chunks heapSys sys) :
    ∃ next kept, heapSys.memory.kfree (heapSys.buffer.map (·.1)) = .ok next ∧
      kept.length = (Session.mk sys chunks).blocks ∧ Splits next (kept ++ foreign) := by
  have count := backed.count
  obtain ⟨buffer, table, tmp, lost, follows, backs, contents⟩ := backed.held
  obtain ⟨pointers, present, mirrors⟩ := backs.pointers
  have splits : Splits heapSys.memory (structCell address :: (table.flatten ++ tmp ++ lost ++ foreign)) := by
    refine backs.splits.regroup fun cell => ?_
    simp only [List.count_append, List.count_cons]
    omega
  have size := splits.count
  obtain ⟨next, released, after⟩ := Memory.kfree_splits splits
  refine ⟨next, table.flatten ++ tmp ++ lost, by rw [present]; exact released, ?_, after⟩
  simp only [List.length_cons, List.length_append] at size ⊢
  rw [Session.blocks]
  dsimp only
  omega

theorem Backed.splits {address : Nat} {foreign : List (Cell UInt8)} {chunks : List Bytes}
    {heapSys : HeapSys} {sys : Sys} (backed : Backed address foreign chunks heapSys sys) :
    ∃ own, own.length = 1 + (Session.mk sys chunks).blocks ∧
      Splits heapSys.memory (own ++ foreign) := by
  have count := backed.count
  obtain ⟨buffer, table, tmp, lost, follows, backs, contents⟩ := backed.held
  have splits : Splits heapSys.memory
      (table.flatten ++ tmp ++ lost ++ [structCell address] ++ foreign) := by
    simpa using backs.splits
  have size := splits.count
  refine ⟨_, ?_, splits⟩
  simp only [List.length_append, List.length_singleton, Session.blocks] at size ⊢
  omega

theorem Balanced.insmod {foreign : List (Cell UInt8)} {kernel : Kernel} {abandoned regions : Nat}
    (balanced : Balanced foreign kernel ⟨none, abandoned, regions⟩) (allocator : Allocator UInt8)
    (outcomes : InitOutcomes) :
    ∃ next, kernel.insmod allocator outcomes = .ok next ∧
      Balanced foreign next ((⟨none, abandoned, regions⟩ : Ledger).step (.insmod outcomes)) := by
  have same : kernel.regions = regions := balanced.regions
  simp only [Kernel.insmod, Ledger.step]
  by_cases refused : outcomes.allocRegion = false
  · rw [if_pos refused, if_pos refused]
    exact ⟨kernel, rfl, balanced⟩
  obtain ⟨gone, length, splits⟩ := balanced.memory
  rw [if_neg refused, if_neg refused]
  by_cases denied : outcomes.kmalloc = false
  · have called : (HeapSys.fresh kernel.sys.memory).initDevice allocator outcomes =
        .ok (false, 1, HeapSys.fresh kernel.sys.memory) := by
      simp [HeapSys.initDevice, Memory.kmalloc, denied]
    rw [called, ok_bind, if_pos denied]
    exact ⟨_, rfl, by rw [same], rfl, gone, length, splits⟩
  obtain ⟨start, address, called, backed⟩ :=
    HeapSys.initDevice_backed allocator kernel.sys.memory _ (Bool.not_eq_false _ ▸ denied)
  replace backed := backed.regroup splits
  rw [called, ok_bind, if_neg denied]
  by_cases failed : outcomes.cdevAdd = false
  · rw [if_pos failed]
    obtain ⟨own, size, splits⟩ := backed.splits
    rw [← List.append_assoc] at splits
    refine ⟨_, rfl, by simp [failed, same], by simp [failed], own ++ gone, ?_, splits⟩
    rw [List.length_append, size, length]
    exact Nat.add_comm _ _
  · rw [if_neg failed]
    exact ⟨_, rfl, by simp [failed, same], by simp [failed], gone, length, address, backed⟩

theorem Balanced.step {foreign : List (Cell UInt8)} {kernel : Kernel} {ledger : Ledger}
    (balanced : Balanced foreign kernel ledger) (allocator : Allocator UInt8) (event : KernelEvent)
    (sound : ∀ attempt, event = .call attempt → attempt.Sound) :
    ∃ next, kernel.step allocator event = .ok next ∧
      Balanced foreign next (ledger.step event) := by
  obtain ⟨session, abandoned, regions⟩ := ledger
  have loaded : kernel.loaded = session.isSome := balanced.loaded
  cases session with
  | none =>
      cases event with
      | insmod outcomes =>
          rw [show kernel.step allocator (.insmod outcomes) = kernel.insmod allocator outcomes by
            simp [Kernel.step, loaded]]
          exact balanced.insmod allocator outcomes
      | rmmod => exact ⟨kernel, by simp [Kernel.step, loaded], balanced⟩
      | call attempt => exact ⟨kernel, by simp [Kernel.step, loaded], balanced⟩
  | some session =>
      cases event with
      | insmod outcomes => exact ⟨kernel, by simp [Kernel.step, loaded], balanced⟩
      | rmmod =>
          obtain ⟨gone, length, address, backed⟩ := balanced.memory
          obtain ⟨next, kept, released, size, splits⟩ := backed.kfree
          refine ⟨⟨HeapSys.fresh next, kernel.regions - 1, false⟩, ?_, ?_, rfl, kept ++ gone, ?_, ?_⟩
          · simp only [Kernel.step, loaded, Option.isSome_some, Kernel.rmmod, released, ok_bind]
            rfl
          · rw [balanced.regions]
            rfl
          · rw [List.length_append, size, length]
            exact Nat.add_comm _ _
          · rw [← List.append_assoc] at splits
            exact splits
      | call attempt =>
          obtain ⟨gone, length, address, backed⟩ := balanced.memory
          obtain ⟨-, stepped⟩ := backed.attempt (sound attempt rfl) allocator
          exact ⟨{ kernel with sys := (kernel.sys.attempt allocator attempt).2 },
            by simp [Kernel.step, loaded], balanced.regions, loaded, gone, length, address, stepped⟩

theorem Balanced.count {foreign : List (Cell UInt8)} {kernel : Kernel} {ledger : Ledger}
    (balanced : Balanced foreign kernel ledger) :
    kernel.sys.memory.entries.length = foreign.length + ledger.blocks := by
  obtain ⟨session, abandoned, regions⟩ := ledger
  obtain ⟨gone, length, splits⟩ := balanced.memory
  dsimp only at length
  cases session with
  | none =>
      rw [Splits.count splits, List.length_append, length]
      exact Nat.add_comm _ _
  | some session =>
      obtain ⟨address, backed⟩ := splits
      obtain ⟨own, size, splits⟩ := backed.splits
      change own.length = 1 + session.blocks at size
      rw [splits.count, List.length_append, List.length_append, size, length]
      simp only [Ledger.blocks, Option.elim_some]
      omega

theorem Balanced.run {foreign : List (Cell UInt8)} (allocator : Allocator UInt8)
    {events : List KernelEvent} (sound : ∀ attempt, .call attempt ∈ events → attempt.Sound) :
    ∀ {kernel : Kernel} {ledger : Ledger}, Balanced foreign kernel ledger →
      ∃ final, kernel.run allocator events = .ok final ∧
        Balanced foreign final (ledger.run events) := by
  induction events with
  | nil =>
      intro kernel ledger balanced
      exact ⟨kernel, rfl, balanced⟩
  | cons event events ih =>
      intro kernel ledger balanced
      obtain ⟨next, stepped, after⟩ := balanced.step allocator event fun attempt same =>
        sound attempt (by rw [same]; exact List.mem_cons_self)
      obtain ⟨final, ran, ended⟩ := ih
        (fun attempt member => sound attempt (List.mem_cons_of_mem _ member)) after
      refine ⟨final, ?_, ended⟩
      rw [Kernel.run, List.foldlM_cons, stepped]
      exact ran

/-- Over any loads, calls and unloads, whichever of them fail, no load or unload releases what is
not allocated, and the memory has grown by what the books say. -/
theorem Kernel.run_ledger (allocator : Allocator UInt8) (memory : Memory) (events : List KernelEvent)
    (sound : ∀ attempt, .call attempt ∈ events → attempt.Sound) :
    ∃ final, (Kernel.boot memory).run allocator events = .ok final ∧
      final.regions = ((⟨none, 0, 0⟩ : Ledger).run events).regions ∧
      final.sys.memory.entries.length =
        memory.entries.length + ((⟨none, 0, 0⟩ : Ledger).run events).blocks := by
  have start : Balanced memory.entries (Kernel.boot memory) ⟨none, 0, 0⟩ :=
    ⟨rfl, rfl, [], rfl, splits_self memory⟩
  obtain ⟨final, ran, balanced⟩ := Balanced.run allocator sound start
  exact ⟨final, ran, balanced.regions, balanced.count⟩

def reloads : List KernelEvent :=
  [.insmod {}, .call { call := .openFile 0 }, .call { call := .write 0 [97] },
    .call { call := .write 0 [99], writes := { accessOk := false } },
    .call { call := .write 0 [98, 10] }, .rmmod, .insmod { cdevAdd := false },
    .insmod { kmalloc := false }, .insmod {}]

theorem reloads_sound : ∀ attempt, .call attempt ∈ reloads → attempt.Sound := by
  simp [reloads, Attempt.Sound, WriteOutcomes.Refused, Allocations.Suffice]

theorem Kernel.run_ledger_reloads :
    ∃ final, (Kernel.boot usedMemory).run (.bump 255) reloads = .ok final ∧
      final.regions = ((⟨none, 0, 0⟩ : Ledger).run reloads).regions ∧
      final.sys.memory.entries.length =
        usedMemory.entries.length + ((⟨none, 0, 0⟩ : Ledger).run reloads).blocks :=
  Kernel.run_ledger (.bump 255) usedMemory reloads reloads_sound

end Aesd
