import Aesd.HistoryChecks
import Aesd.WindowReads

/-!
Runs of the driver. Whatever is called in whatever order, the device follows the history
of the chunks that were written, and a call on a file moves no other file.
-/

namespace Aesd

open MachineInt Records

/-- The device is set up and represents the chunks written so far. -/
structure Sys.Follows (sys : Sys) (chunks : List Bytes) (buffer : CircularBuffer) : Prop where
  present : sys.dev.buffer = some buffer
  history : Aesd.Follows ⟨buffer, sys.dev.tmpEntry⟩ chunks

theorem Sys.boot_follows : Sys.boot.Follows [] zeroedBuffer :=
  ⟨rfl, represents_boot⟩

theorem Sys.Follows.dev {sys : Sys} {chunks : List Bytes} {buffer : CircularBuffer}
    (follows : sys.Follows chunks buffer) : sys.dev = ⟨some buffer, sys.dev.tmpEntry⟩ := by
  rw [← follows.present]

theorem aesdWrite_follows {sys : Sys} {chunks : List Bytes} {buffer : CircularBuffer}
    (follows : sys.Follows chunks buffer) {filp : File} (opened : filp.privateData = true)
    {buf : Bytes} (nonempty : buf ≠ []) :
    ∃ state, aesdCircularBufferAddEntry {} ⟨buffer, sys.dev.tmpEntry⟩ ⟨.block buf, buf.length⟩ =
        .ok state ∧
      aesdWrite {} sys.dev filp buf =
        (.ret buf.length [], ⟨some state.buffer, state.tmpEntry⟩) ∧
      Aesd.Follows state (chunks ++ [buf]) := by
  obtain ⟨state, added, followed⟩ := follows.history.add nonempty
  refine ⟨state, added, ?_, followed⟩
  have last := loadLast_block nonempty
  simp only [aesdWrite, opened, follows.present, last, added]
  simp

/-- A write of no bytes returns an error or reads the byte before the user's buffer. -/
theorem aesdWrite_nil (outcomes : WriteOutcomes) (dev : AesdDev) (filp : File) :
    aesdWrite outcomes dev filp [] = (.ret (-enomem) [], dev) ∨
      aesdWrite outcomes dev filp [] = (.fault .outOfBounds, dev) := by
  have last : loadLast (.block []) ([] : Bytes).length = .error .outOfBounds := rfl
  unfold aesdWrite
  split
  · exact Or.inl rfl
  · split
    · exact Or.inl rfl
    · split
      · exact Or.inl rfl
      · simp only [last]
        exact Or.inr trivial

theorem aesdWrite_nil_dev (outcomes : WriteOutcomes) (dev : AesdDev) (filp : File) :
    (aesdWrite outcomes dev filp []).2 = dev := by
  rcases aesdWrite_nil outcomes dev filp with failed | faulted
  · rw [failed]
  · rw [faulted]

theorem aesdWrite_reply (outcomes : WriteOutcomes) (dev : AesdDev) (filp : File) (buf : Bytes) :
    (aesdWrite outcomes dev filp buf).1 = .ret buf.length [] ∨
      (∃ error < 0, (aesdWrite outcomes dev filp buf).1 = .ret error []) ∨
      ∃ reason, (aesdWrite outcomes dev filp buf).1 = .fault reason := by
  unfold aesdWrite
  split
  · exact Or.inr (Or.inl ⟨-enomem, by decide, rfl⟩)
  · split
    · exact Or.inr (Or.inl ⟨-enomem, by decide, rfl⟩)
    · split
      · exact Or.inr (Or.inl ⟨-enomem, by decide, rfl⟩)
      · split
        · exact Or.inr (Or.inr ⟨_, rfl⟩)
        · split
          · exact Or.inr (Or.inl ⟨-efault, by decide, rfl⟩)
          · split
            · exact Or.inr (Or.inl ⟨-enomem, by decide, rfl⟩)
            · split
              · exact Or.inr (Or.inr ⟨_, rfl⟩)
              · exact Or.inl rfl

def readReply (read : Raed) : Option Bytes → Reply
  | none => .fault .outOfBounds
  | some kbuf =>
      .ret (toLong read.ret) (if 0 < toLong read.ret then kbuf.take read.ret else [])

theorem readReply_ret {read : Raed} {result : Option Bytes} {value : Int} {bytes : Bytes}
    (reply : readReply read result = .ret value bytes) : toLong read.ret = value := by
  cases result with
  | none => cases reply
  | some kbuf =>
      rw [readReply, Reply.ret.injEq] at reply
      exact reply.1

theorem aesdRead_eq {dev : AesdDev} {filp : File} {count : UInt64} {buffer : CircularBuffer}
    {read : Raed} (opened : filp.privateData = true) (present : dev.buffer = some buffer)
    (called : aesdCircularBufferRaed buffer (List.replicate count.toNat 0) count filp.fPos =
      some read) :
    aesdRead {} dev filp count =
      (readReply read (read.result buffer (List.replicate count.toNat 0)),
        { dev with buffer := some read.buffer }, { filp with fPos := read.fPos }) := by
  have notClosed : ¬ filp.privateData = false := by simp [opened]
  rw [aesdRead, if_neg notClosed, present]
  simp only [called]
  cases read.result buffer (List.replicate count.toNat 0) with
  | none => rfl
  | some kbuf => by_cases positive : 0 < toLong read.ret <;> simp [readReply, positive]

theorem aesdRead_follows {sys : Sys} {chunks : List Bytes} {buffer : CircularBuffer}
    (follows : sys.Follows chunks buffer) (outcomes : ReadOutcomes) (filp : File)
    (count : UInt64) :
    ∃ after, (aesdRead outcomes sys.dev filp count).2.1 = ⟨some after, sys.dev.tmpEntry⟩ ∧
      Aesd.Follows ⟨after, sys.dev.tmpEntry⟩ chunks := by
  obtain ⟨read, called⟩ := raed_ends buffer (List.replicate count.toNat 0) count filp.fPos
  unfold aesdRead
  split
  · exact ⟨buffer, follows.dev, follows.history⟩
  · simp only [follows.present]
    split
    · exact ⟨buffer, follows.dev, follows.history⟩
    · refine ⟨read.buffer, ?_, follows.history.read called⟩
      simp only [called]
      cases read.result buffer (List.replicate count.toNat 0) with
      | none => rfl
      | some kbuf =>
          dsimp only
          split
          · split
            · rfl
            · rfl
          · rfl

theorem Sys.Follows.step {sys : Sys} {chunks : List Bytes} {buffer : CircularBuffer}
    (follows : sys.Follows chunks buffer) (call : Call) :
    ∃ after, (sys.step call).2.Follows (chunks ++ call.chunk sys) after := by
  cases call with
  | openFile file => exact ⟨buffer, by simpa [Call.chunk] using ⟨follows.present, follows.history⟩⟩
  | write file buf =>
      by_cases opened : (sys.files file).privateData = true
      · by_cases empty : buf = []
        · subst empty
          have same := aesdWrite_nil_dev {} sys.dev (sys.files file)
          refine ⟨buffer, ?_, ?_⟩
          · simpa only [Sys.step, same] using follows.present
          · simpa only [Sys.step, same, Call.chunk, opened, if_true] using follows.history.nothing
        · obtain ⟨state, -, wrote, followed⟩ := aesdWrite_follows follows opened empty
          refine ⟨state.buffer, ?_, ?_⟩
          · simp only [Sys.step, wrote]
          · simpa only [Sys.step, wrote, Call.chunk, opened, if_true] using followed
      · have closed : (sys.files file).privateData = false := by simpa using opened
        have refused : aesdWrite {} sys.dev (sys.files file) buf = (.ret (-enomem) [], sys.dev) := by
          simp [aesdWrite, closed]
        refine ⟨buffer, ?_, ?_⟩
        · simpa only [Sys.step, refused] using follows.present
        · simpa [Sys.step, refused, Call.chunk, closed] using follows.history
  | read file count =>
      obtain ⟨after, left, followed⟩ := aesdRead_follows follows {} (sys.files file) count
      refine ⟨after, ?_, ?_⟩
      · simp only [Sys.step, Sys.setFile, left]
      · simpa only [Sys.step, Sys.setFile, left, Call.chunk, List.append_nil] using followed
  | llseek file off whence =>
      exact ⟨buffer, by simpa [Call.chunk] using ⟨follows.present, follows.history⟩⟩
  | ioctl file cmd seekto =>
      exact ⟨buffer, by simpa [Call.chunk] using ⟨follows.present, follows.history⟩⟩

theorem NonemptyWrites.of_cons {call : Call} {calls : List Call}
    (nonempty : NonemptyWrites (call :: calls)) :
    call ≠ .write call.file [] ∧ NonemptyWrites calls := by
  constructor
  · intro empty
    exact nonempty call.file (by rw [← empty]; exact List.mem_cons_self)
  · intro file member
    exact nonempty file (List.mem_cons_of_mem _ member)

theorem Sys.Follows.run (calls : List Call) :
    ∀ {sys : Sys} {chunks : List Bytes} {buffer : CircularBuffer}, sys.Follows chunks buffer →
      ∃ after, (sys.run calls).Follows (chunks ++ sys.chunks calls) after := by
  induction calls with
  | nil =>
      intro sys chunks buffer follows
      exact ⟨buffer, by simpa [Sys.chunks, Sys.run] using follows⟩
  | cons call calls ih =>
      intro sys chunks buffer follows
      obtain ⟨next, stepped⟩ := follows.step call
      obtain ⟨after, ran⟩ := ih stepped
      exact ⟨after, by simpa [Sys.chunks, Sys.run] using ran⟩

/-! What the device has stored. -/

theorem storedCommand_eq {before : CircularBuffer} {tmpEntry : BufferEntry}
    {state : BufferState} {chunks : List Bytes} {buf : Bytes}
    (follows : Follows ⟨before, tmpEntry⟩ chunks) (followed : Follows state (chunks ++ [buf])) :
    commandsOf chunks ++
        storedCommand ⟨some before, tmpEntry⟩ ⟨some state.buffer, state.tmpEntry⟩ =
      commandsOf (chunks ++ [buf]) := by
  have wAbs := follows.wAbs
  have after := followed.wAbs
  rw [commandsOf_concat] at after ⊢
  dsimp only at wAbs after
  by_cases ended : endsCommand buf
  · rw [if_pos ended] at after ⊢
    have moved : before.wAbs ≠ state.buffer.wAbs := by
      intro same
      have counts := congrArg UInt32.toNat (wAbs.symm.trans (same.trans after))
      rw [UInt32.toNat_ofNat', UInt32.toNat_ofNat', List.length_append,
        List.length_singleton] at counts
      omega
    have slot := followed.entry _ (commandSlot_lt (commandsOf chunks).length)
    rw [commandsOf_concat, if_pos ended, slotEntry_concat, if_pos rfl, ← slotOf_ofNat,
      ← wAbs] at slot
    rw [storedCommand]
    simp only [if_neg moved, slot]
  · rw [if_neg ended] at after ⊢
    have same : before.wAbs = state.buffer.wAbs := by rw [wAbs, after]
    simp [storedCommand, same]

theorem storedCommand_same {before after : AesdDev} {chunks : List Bytes}
    {first second : CircularBuffer} (present : before.buffer = some first)
    (follows : Aesd.Follows ⟨first, before.tmpEntry⟩ chunks) (kept : after.buffer = some second)
    (followed : Aesd.Follows ⟨second, after.tmpEntry⟩ chunks) : storedCommand before after = [] := by
  have same : first.wAbs = second.wAbs := follows.wAbs.trans followed.wAbs.symm
  simp [storedCommand, present, kept, same]

theorem Sys.Follows.stored_step {sys : Sys} {chunks : List Bytes} {buffer : CircularBuffer}
    (follows : sys.Follows chunks buffer) (call : Call) :
    commandsOf chunks ++ storedCommand sys.dev (sys.step call).2.dev =
      commandsOf (chunks ++ call.chunk sys) := by
  obtain ⟨after, stepped⟩ := follows.step call
  by_cases none : call.chunk sys = []
  · rw [none, List.append_nil] at stepped ⊢
    rw [storedCommand_same follows.present follows.history stepped.present stepped.history,
      List.append_nil]
  · cases call with
    | write file buf =>
        have opened : (sys.files file).privateData = true := by
          by_contra closed
          exact none (by simp [Call.chunk, closed])
        simp only [Call.chunk, opened, if_true]
        by_cases empty : buf = []
        · have unstored :=
            storedCommand_same follows.present follows.history follows.present follows.history
          simp only [empty, Sys.step, aesdWrite_nil_dev, unstored, List.append_nil,
            commandsOf_concat_nil]
        · obtain ⟨state, -, wrote, followed⟩ := aesdWrite_follows follows opened empty
          have stored := storedCommand_eq follows.history followed
          rw [← follows.dev] at stored
          simp only [Sys.step, wrote]
          exact stored
    | _ => exact absurd rfl none

theorem Sys.Follows.stored_run (calls : List Call) :
    ∀ {sys : Sys} {chunks : List Bytes} {buffer : CircularBuffer}, sys.Follows chunks buffer →
      commandsOf chunks ++ sys.stored calls = commandsOf (chunks ++ sys.chunks calls) := by
  induction calls with
  | nil =>
      intro sys chunks buffer _
      simp [Sys.stored, Sys.chunks]
  | cons call calls ih =>
      intro sys chunks buffer follows
      obtain ⟨next, stepped⟩ := follows.step call
      have rest := ih stepped
      rw [← follows.stored_step call] at rest
      simpa [Sys.stored, Sys.chunks] using rest

theorem HoldsPending.bytes_eq {dev : AesdDev} {pending : Bytes}
    (holds : HoldsPending dev.tmpEntry pending) : dev.pending = pending := by
  unfold AesdDev.pending
  by_cases empty : pending = []
  · have size : dev.tmpEntry.size = 0 := by rw [holds.size, empty]; rfl
    split
    · rw [size, List.take_zero, empty]
    · exact empty.symm
  · simp only [holds.bytes empty, holds.size, List.take_length]

/-! Replies of a read on an open file. -/

theorem aesdRead_of_delivers {dev : AesdDev} {filp : File} {count : UInt64}
    {buffer : CircularBuffer} {data : Bytes} (opened : filp.privateData = true)
    (present : dev.buffer = some buffer) (delivers : Delivers buffer count filp.fPos data)
    (short : data.length < 2 ^ 63) :
    (aesdRead {} dev filp count).1 = .ret data.length data ∧
      (aesdRead {} dev filp count).2.2 = ⟨true, filp.fPos + data.length⟩ := by
  obtain ⟨read, called, ret, fPos, result⟩ := delivers
  have value : toLong read.ret = data.length := by rw [ret, toLong_natCast short]
  rw [aesdRead_eq opened present called, result, readReply, value, ret, fPos, opened]
  refine ⟨?_, rfl⟩
  cases data with
  | nil => rfl
  | cons first rest => simp

theorem aesdRead_outside {dev : AesdDev} {filp : File} {count : UInt64} {buffer : CircularBuffer}
    (opened : filp.privateData = true) (present : dev.buffer = some buffer)
    (outside : ¬ InWindow buffer filp.fPos) :
    (aesdRead {} dev filp count).1 = .ret (-1) [] := by
  have minusOne : toLong (toUnsigned 64 (-1) : Nat) = -1 := by decide
  rw [aesdRead_eq opened present (raed_outside outside _ _)]
  simp only [Raed.result, List.all_nil, if_true, readReply, minusOne]
  simp

theorem aesdRead_leaves {dev : AesdDev} {filp : File} {count : UInt64} {buffer : CircularBuffer}
    (opened : filp.privateData = true) (present : dev.buffer = some buffer)
    (leaves : ¬ InBounds buffer count filp.fPos) :
    (aesdRead {} dev filp count).1 = .fault .outOfBounds := by
  obtain ⟨read, called⟩ := raed_ends buffer (List.replicate count.toNat 0) count filp.fPos
  have outside : ¬ read.accesses.all (Access.inBounds buffer count.toNat) = true :=
    fun inBounds => leaves ⟨read, called, inBounds⟩
  rw [aesdRead_eq opened present called, Raed.result, List.length_replicate, if_neg outside]
  rfl

theorem Sys.Follows.read_of_delivers {sys : Sys} {chunks : List Bytes} {buffer : CircularBuffer}
    (follows : sys.Follows chunks buffer) {file : Nat} {count : UInt64} {data : Bytes}
    (opened : (sys.files file).privateData = true)
    (delivers : Delivers buffer count (sys.files file).fPos data) (short : data.length < 2 ^ 63) :
    ∃ next after, sys.step (.read file count) = (.ret data.length data, next) ∧
      next.Follows chunks after ∧
      next.files file = ⟨true, (sys.files file).fPos + data.length⟩ := by
  obtain ⟨reply, filp⟩ := aesdRead_of_delivers opened follows.present delivers short
  obtain ⟨after, stepped⟩ := follows.step (.read file count)
  refine ⟨_, after, Prod.ext reply rfl, by simpa [Call.chunk] using stepped, ?_⟩
  simp [Sys.step, Sys.setFile, filp]

theorem aesdUnlockedIoctl_filp (dev : AesdDev) (filp : File) (cmd : UInt32) (seekto : AesdSeekto) :
    (aesdUnlockedIoctl dev filp cmd seekto).2 = filp ∨
      ∃ position : UInt32,
        (aesdUnlockedIoctl dev filp cmd seekto).2 = { filp with fPos := position.toNat } := by
  unfold aesdUnlockedIoctl
  split
  · exact Or.inl rfl
  · split
    · exact Or.inl rfl
    · split
      · exact Or.inl rfl
      · split
        · exact Or.inl rfl
        · split
          · split
            · exact Or.inl rfl
            · exact Or.inr ⟨_, rfl⟩
          · exact Or.inl rfl

theorem Sys.chunks_nonempty {calls : List Call} (nonempty : NonemptyWrites calls) :
    ∀ (sys : Sys), ∀ chunk ∈ sys.chunks calls, chunk ≠ [] := by
  induction calls with
  | nil => intro sys chunk member; cases member
  | cons call calls ih =>
      intro sys chunk member empty
      obtain ⟨written, later⟩ := nonempty.of_cons
      rcases List.mem_append.mp member with here | after
      · cases call with
        | write file buf =>
            simp only [Call.chunk] at here
            split at here
            · rw [List.mem_singleton.mp here] at empty
              exact written (by rw [empty]; rfl)
            · cases here
        | _ => cases here
      · exact ih later _ chunk after empty

def commandsIn (calls : List Call) : List Bytes := commandsOf (Sys.boot.chunks calls)

theorem boot_run_follows (calls : List Call) :
    ∃ buffer, (Sys.boot.run calls).Follows (Sys.boot.chunks calls) buffer := by
  obtain ⟨buffer, follows⟩ := Sys.boot_follows.run calls
  exact ⟨buffer, by simpa using follows⟩

theorem Sys.Follows.unwrapped {sys : Sys} {chunks : List Bytes} {buffer : CircularBuffer}
    (follows : sys.Follows chunks buffer) (nonempty : ∀ chunk ∈ chunks, chunk ≠ [])
    (noWrap : NoWrap (commandsOf chunks)) : Unwrapped buffer (commandsOf chunks) := by
  have count := noWrap.count
  have chars := noWrap.chars
  exact ⟨follows.history.holds (by omega) (by omega), noWrap,
    collect_records_nonempty _ nonempty⟩

theorem boot_run_unwrapped {calls : List Call} (nonempty : NonemptyWrites calls)
    (noWrap : NoWrap (commandsIn calls)) :
    ∃ buffer, (Sys.boot.run calls).Follows (Sys.boot.chunks calls) buffer ∧
      Unwrapped buffer (commandsIn calls) := by
  obtain ⟨buffer, follows⟩ := boot_run_follows calls
  exact ⟨buffer, follows, follows.unwrapped (Sys.chunks_nonempty nonempty _) noWrap⟩

/-! Runs of writes on one file. -/

def writesOf (chunks : List Bytes) : List Call := .openFile 0 :: chunks.map (.write 0)

theorem Sys.run_writes_files (sys : Sys) (file : Nat) (chunks : List Bytes) :
    (sys.run (chunks.map (.write file))).files = sys.files := by
  induction chunks generalizing sys with
  | nil => rfl
  | cons chunk chunks ih => exact ih (sys.step (.write file chunk)).2

theorem Sys.chunks_writes {sys : Sys} {file : Nat} (opened : (sys.files file).privateData = true)
    (chunks : List Bytes) : sys.chunks (chunks.map (.write file)) = chunks := by
  induction chunks generalizing sys with
  | nil => rfl
  | cons chunk chunks ih =>
      have still : ((sys.step (.write file chunk)).2.files file).privateData = true := opened
      simp only [List.map_cons, Sys.chunks, ih still, Call.chunk, opened, if_true,
        List.singleton_append]

theorem boot_chunks_writesOf (chunks : List Bytes) : Sys.boot.chunks (writesOf chunks) = chunks := by
  have opened : ((Sys.boot.step (.openFile 0)).2.files 0).privateData = true := rfl
  exact Sys.chunks_writes opened chunks

theorem commandsIn_writesOf (chunks : List Bytes) :
    commandsIn (writesOf chunks) = commandsOf chunks := by
  rw [commandsIn, boot_chunks_writesOf]

theorem writesOf_opened (chunks : List Bytes) :
    ((Sys.boot.run (writesOf chunks)).files 0).privateData = true := by
  have files := Sys.run_writes_files (Sys.boot.step (.openFile 0)).2 0 chunks
  rw [writesOf, Sys.run, List.foldl_cons, ← Sys.run, files]
  rfl

end Aesd
