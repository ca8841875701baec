import Aesd.DriverRuns
import Aesd.Unwinding

/-!
Readers do not interfere. A read writes `out_offs` and `full`, and nothing that any call
returns depends on them: every operation gives the same result on a buffer whose two fields
have been reset.
-/

namespace Aesd

open MachineInt Unwinding

/-- The buffer with the two fields reset that reads write. -/
def CircularBuffer.erase (buffer : CircularBuffer) : CircularBuffer :=
  { buffer with outOffs := 0, full := false }

def CopyState.erase (state : CopyState) : CopyState := { state with outOffs := 0, full := false }

def Raed.erase (read : Raed) : Raed := { read with buffer := read.buffer.erase }

def BufferState.erase (state : BufferState) : BufferState :=
  { state with buffer := state.buffer.erase }

def AesdDev.erase (dev : AesdDev) : AesdDev :=
  { dev with buffer := dev.buffer.map CircularBuffer.erase }

def Flow.map {σ τ : Type} (change : σ → τ) : Flow σ → Flow τ
  | .next state => .next (change state)
  | .stop state => .stop (change state)

/-! The read path. -/

theorem findIndexFrom_erase (buffer : CircularBuffer) (charOffset : Nat) :
    ∀ (fuel : Nat) (i totalLen : Int) (accesses : List Access),
      findIndexFrom buffer.erase charOffset fuel i totalLen accesses =
        findIndexFrom buffer charOffset fuel i totalLen accesses := by
  intro fuel
  induction fuel with
  | zero => intros; rfl
  | succ fuel ih =>
      intro i totalLen accesses
      simp only [findIndexFrom, ih]
      rfl

theorem advanceEntry_erase (buffer : CircularBuffer) (len : Nat) (state : CopyState) :
    (advanceEntry buffer.erase len state.erase).map CopyState.erase =
      (advanceEntry buffer len state).map CopyState.erase := by
  by_cases last : toUnsigned 32 (toInt (state.startp + 1)) = buffer.wAbs.toNat
  · simp [advanceEntry, CircularBuffer.erase, CopyState.erase, Flow.map, last]
  · by_cases filled : len ≤ state.readLen <;>
      simp [advanceEntry, CircularBuffer.erase, CopyState.erase, Flow.map, last, filled]

theorem copyStep_erase (buffer : CircularBuffer) (len copyStart startByteOfs : Nat)
    (state : CopyState) :
    (copyStep buffer.erase len copyStart startByteOfs state.erase).map CopyState.erase =
      (copyStep buffer len copyStart startByteOfs state).map CopyState.erase := by
  have entry : buffer.erase.entry = buffer.entry := rfl
  have startp : state.erase.startp = state.startp := rfl
  have offset : ofsInEntry startByteOfs state.erase = ofsInEntry startByteOfs state := rfl
  have readLen : state.erase.readLen = state.readLen := rfl
  have accesses : state.erase.accesses = state.accesses := rfl
  simp only [copyStep, entry, startp, offset, readLen, accesses]
  cases buffer.entry[toUnsigned 8 (state.startp.tmod 10)]? with
  | none => rfl
  | some nextEntry =>
      dsimp only
      by_cases null : nextEntry.buffptr = .null
      · simp only [if_pos null]
        rfl
      · simp only [if_neg null]
        split
        · rw [← advanceEntry_erase buffer len]
          rfl
        · split <;> rfl

theorem copyFrom_erase (buffer : CircularBuffer) (len copyStart startByteOfs : Nat) :
    ∀ (fuel : Nat) (state other : CopyState), state.erase = other.erase →
      (copyFrom buffer.erase len copyStart startByteOfs fuel state).map CopyState.erase =
        (copyFrom buffer len copyStart startByteOfs fuel other).map CopyState.erase := by
  intro fuel
  induction fuel with
  | zero => intros; rfl
  | succ fuel ih =>
      intro state other same
      have step : (copyStep buffer.erase len copyStart startByteOfs state).map CopyState.erase =
          (copyStep buffer len copyStart startByteOfs other).map CopyState.erase := by
        rw [← copyStep_erase buffer, ← same, ← copyStep_erase buffer.erase]
        rfl
      rw [copyFrom, copyFrom]
      cases one : copyStep buffer.erase len copyStart startByteOfs state with
      | next next =>
          cases two : copyStep buffer len copyStart startByteOfs other with
          | next after =>
              rw [one, two] at step
              exact ih next after (Flow.next.inj step)
          | stop after =>
              rw [one, two] at step
              cases step
      | stop next =>
          cases two : copyStep buffer len copyStart startByteOfs other with
          | next after =>
              rw [one, two] at step
              cases step
          | stop after =>
              rw [one, two] at step
              exact congrArg some (Flow.stop.inj step)

theorem copyFrom_same {buffer other : CircularBuffer} (buffers : buffer.erase = other.erase)
    {state after : CopyState} (states : state.erase = after.erase)
    (len copyStart startByteOfs fuel : Nat) :
    (copyFrom buffer len copyStart startByteOfs fuel state).map CopyState.erase =
      (copyFrom other len copyStart startByteOfs fuel after).map CopyState.erase := by
  rw [← copyFrom_erase buffer len copyStart startByteOfs fuel state state rfl, buffers,
    copyFrom_erase other len copyStart startByteOfs fuel state after states]

def CopyState.raed (final : CopyState) (buffer : CircularBuffer) (fPos : Int) : Raed :=
  ⟨final.readLen, toLong (fPos + final.readLen),
    { buffer with outOffs := final.outOffs, full := final.full }, final.accesses⟩

theorem raed_of_copies_same {first second : Option CopyState} {buffer other : CircularBuffer}
    (buffers : buffer.erase = other.erase)
    (copied : first.map CopyState.erase = second.map CopyState.erase) (fPos : Int) :
    (first.map fun final => final.raed buffer fPos).map Raed.erase =
      (second.map fun final => final.raed other fPos).map Raed.erase := by
  have through (final : CopyState) (buffer : CircularBuffer) :
      (final.raed buffer fPos).erase = (final.erase.raed buffer.erase fPos).erase := rfl
  have mapped (copies : Option CopyState) (buffer : CircularBuffer) :
      (copies.map fun final => final.raed buffer fPos).map Raed.erase =
        (copies.map CopyState.erase).map fun final => (final.raed buffer.erase fPos).erase := by
    simp only [Option.map_map]
    rfl
  rw [mapped, mapped, copied, buffers]

theorem raed_erase (buffer : CircularBuffer) (resultBuf : Bytes) (len : UInt64) (fPos : Int) :
    (aesdCircularBufferRaed buffer.erase resultBuf len fPos).map Raed.erase =
      (aesdCircularBufferRaed buffer resultBuf len fPos).map Raed.erase := by
  have lookup (charOffset : Nat) :
      aesdCircularBufferFindEntryOffsetAndIndexForFpos buffer.erase charOffset =
        aesdCircularBufferFindEntryOffsetAndIndexForFpos buffer charOffset :=
    findIndexFrom_erase buffer charOffset _ _ _ _
  have startCharAbs : buffer.erase.startCharAbs = buffer.startCharAbs := rfl
  have wCharAbs : buffer.erase.wCharAbs = buffer.wCharAbs := rfl
  simp only [aesdCircularBufferRaed, lookup, startCharAbs, wCharAbs]
  split
  · rfl
  · cases aesdCircularBufferFindEntryOffsetAndIndexForFpos buffer
        (toUnsigned 64 (fPos - buffer.startCharAbs.toNat)) with
    | none => rfl
    | some found =>
        simp only [Option.bind_eq_bind, Option.bind_some]
        by_cases unsigned : found.index < 0
        · simp only [if_pos unsigned]
          rfl
        · by_cases ended : toUnsigned 32 found.index = buffer.wAbs.toNat
          · simp [unsigned, ended, CircularBuffer.erase, Raed.erase]
          · have unended : toUnsigned 32 found.index ≠ buffer.erase.wAbs.toNat := ended
            cases found.entryOffsetByte with
            | none => simp [unsigned, ended, CircularBuffer.erase, Raed.erase]
            | some startByteOfs =>
                let start (full : Bool) : CopyState :=
                  ⟨found.index, 0, true, UInt8.ofNat (toUnsigned 8 found.index), full,
                    found.accesses ++ [.strlen (strlen resultBuf)]⟩
                have copied : (copyFrom { buffer.erase with
                      outOffs := UInt8.ofNat (toUnsigned 8 found.index) } len.toNat
                      (strlen resultBuf) startByteOfs indexSteps (start false)).map
                        CopyState.erase =
                    (copyFrom { buffer with outOffs := UInt8.ofNat (toUnsigned 8 found.index) }
                      len.toNat (strlen resultBuf) startByteOfs indexSteps
                      (start buffer.full)).map CopyState.erase :=
                  copyFrom_same (by rfl) (by rfl) _ _ _ _
                simp only [if_neg unsigned, if_neg ended, if_neg unended]
                have finals := raed_of_copies_same (rfl : buffer.erase.erase = buffer.erase) copied fPos
                simp only [Option.map_eq_bind] at finals ⊢
                exact finals

theorem raed_same {buffer other : CircularBuffer} (buffers : buffer.erase = other.erase)
    (resultBuf : Bytes) (len : UInt64) (fPos : Int) :
    (aesdCircularBufferRaed buffer resultBuf len fPos).map Raed.erase =
      (aesdCircularBufferRaed other resultBuf len fPos).map Raed.erase := by
  rw [← raed_erase buffer, buffers, raed_erase other]

theorem result_same {buffer other : CircularBuffer} (buffers : buffer.erase = other.erase)
    {read after : Raed} (reads : read.erase = after.erase) (resultBuf : Bytes) :
    read.result buffer resultBuf = after.result other resultBuf := by
  have through (read : Raed) (buffer : CircularBuffer) :
      read.result buffer resultBuf = read.erase.result buffer.erase resultBuf := rfl
  rw [through, through after, buffers, reads]

/-! The write path. -/

theorem bind_map_same {ε α β γ δ : Type} {first second : Except ε α} {change : α → β}
    {finish : γ → δ} (same : first.map change = second.map change) {next after : α → Except ε γ}
    (continues : ∀ one two, change one = change two →
      (next one).map finish = (after two).map finish) :
    (first >>= next).map finish = (second >>= after).map finish := by
  cases first with
  | error reason =>
      cases second with
      | error other => exact congrArg Except.error (Except.error.inj same)
      | ok two => cases same
  | ok one =>
      cases second with
      | error other => cases same
      | ok two => exact continues one two (Except.ok.inj same)

theorem storeCommand_erase (alloc : Allocations) (buffer : CircularBuffer)
    (tmpEntry : BufferEntry) :
    (storeCommand alloc buffer.erase tmpEntry).map CircularBuffer.erase =
      (storeCommand alloc buffer tmpEntry).map CircularBuffer.erase := by
  have entry : buffer.erase.entry = buffer.entry := rfl
  have wAbs : buffer.erase.wAbs = buffer.wAbs := rfl
  simp only [storeCommand, entry, wAbs]
  cases kfree (buffer.entry[slotOf buffer.wAbs]?.getD emptyEntry).buffptr with
  | error reason => rfl
  | ok released =>
      simp only [ok_bind]
      cases memcpy (kmalloc alloc.target tmpEntry.size) 0 tmpEntry.buffptr tmpEntry.size with
      | error reason => rfl
      | ok stored => rfl

theorem addEntry_erase (alloc : Allocations) (buffer : CircularBuffer)
    (tmpEntry addEntry : BufferEntry) :
    (aesdCircularBufferAddEntry alloc ⟨buffer.erase, tmpEntry⟩ addEntry).map BufferState.erase =
      (aesdCircularBufferAddEntry alloc ⟨buffer, tmpEntry⟩ addEntry).map BufferState.erase := by
  simp only [aesdCircularBufferAddEntry]
  cases appendToTmp alloc tmpEntry addEntry with
  | error reason => rfl
  | ok joined =>
      simp only [ok_bind]
      cases loadLast addEntry.buffptr addEntry.size with
      | error reason => rfl
      | ok lastChar =>
          simp only [ok_bind]
          split
          · refine bind_map_same (storeCommand_erase alloc buffer joined) fun one two same => ?_
            cases aesdInitEntry joined with
            | error reason => rfl
            | ok released => exact congrArg Except.ok (congrArg (BufferState.mk · released) same)
          · rfl

theorem addEntry_same {buffer other : CircularBuffer} (buffers : buffer.erase = other.erase)
    (alloc : Allocations) (tmpEntry addEntry : BufferEntry) :
    (aesdCircularBufferAddEntry alloc ⟨buffer, tmpEntry⟩ addEntry).map BufferState.erase =
      (aesdCircularBufferAddEntry alloc ⟨other, tmpEntry⟩ addEntry).map BufferState.erase := by
  rw [← addEntry_erase alloc buffer, buffers, addEntry_erase alloc other]

/-! The file operations on two devices that differ in the two fields only. -/

theorem AesdDev.erase_cases {dev other : AesdDev} (devs : dev.erase = other.erase) :
    dev.tmpEntry = other.tmpEntry ∧
      ((dev.buffer = none ∧ other.buffer = none) ∨
        ∃ buffer after, dev.buffer = some buffer ∧ other.buffer = some after ∧
          buffer.erase = after.erase) := by
  obtain ⟨buffer, tmpEntry⟩ := dev
  obtain ⟨after, otherTmp⟩ := other
  obtain ⟨buffers, entries⟩ := AesdDev.mk.inj devs
  refine ⟨entries, ?_⟩
  cases buffer with
  | none => exact Or.inl ⟨rfl, Option.map_eq_none_iff.mp buffers.symm⟩
  | some buffer =>
      obtain ⟨found, present, same⟩ := Option.map_eq_some_iff.mp buffers.symm
      exact Or.inr ⟨buffer, found, rfl, present, same.symm⟩

theorem aesdRead_same {dev other : AesdDev} (devs : dev.erase = other.erase) (filp : File)
    (count : UInt64) :
    (aesdRead {} dev filp count).1 = (aesdRead {} other filp count).1 ∧
      (aesdRead {} dev filp count).2.1.erase = (aesdRead {} other filp count).2.1.erase ∧
      (aesdRead {} dev filp count).2.2 = (aesdRead {} other filp count).2.2 := by
  obtain ⟨entries, ⟨none, otherNone⟩ | ⟨buffer, after, present, otherPresent, buffers⟩⟩ :=
    AesdDev.erase_cases devs
  · by_cases opened : filp.privateData = true <;> simp [aesdRead, none, otherNone, opened, devs]
  · by_cases opened : filp.privateData = true
    · obtain ⟨read, called⟩ := raed_ends buffer (List.replicate count.toNat 0) count filp.fPos
      obtain ⟨again, otherCalled⟩ := raed_ends after (List.replicate count.toNat 0) count filp.fPos
      have reads := raed_same buffers (List.replicate count.toNat 0) count filp.fPos
      rw [called, otherCalled] at reads
      have same : read.erase = again.erase := Option.some.inj reads
      rw [aesdRead_eq opened present called, aesdRead_eq opened otherPresent otherCalled,
        result_same buffers same]
      obtain ⟨ret, fPos, left, -⟩ := Raed.mk.inj same
      refine ⟨?_, ?_, by rw [fPos]⟩
      · cases again.result after (List.replicate count.toNat 0) with
        | none => rfl
        | some kbuf => simp only [readReply, ret]
      · rw [AesdDev.erase, AesdDev.erase]
        simp only [Option.map_some, left, entries]
    · simp [aesdRead, opened, devs]

theorem aesdWrite_same {dev other : AesdDev} (devs : dev.erase = other.erase) (filp : File)
    (buf : Bytes) :
    (aesdWrite {} dev filp buf).1 = (aesdWrite {} other filp buf).1 ∧
      (aesdWrite {} dev filp buf).2.erase = (aesdWrite {} other filp buf).2.erase := by
  obtain ⟨entries, ⟨none, otherNone⟩ | ⟨buffer, after, present, otherPresent, buffers⟩⟩ :=
    AesdDev.erase_cases devs
  · by_cases opened : filp.privateData = true <;> simp [aesdWrite, none, otherNone, opened, devs]
  · by_cases opened : filp.privateData = true
    · have added := addEntry_same buffers {} other.tmpEntry ⟨.block buf, buf.length⟩
      simp only [aesdWrite, opened, present, otherPresent, entries, Bool.true_eq_false, if_false]
      cases loadLast (.block buf) buf.length with
      | error reason => exact ⟨rfl, devs⟩
      | ok last =>
          cases one : aesdCircularBufferAddEntry {} ⟨buffer, other.tmpEntry⟩
              ⟨.block buf, buf.length⟩ with
          | error reason =>
              cases two : aesdCircularBufferAddEntry {} ⟨after, other.tmpEntry⟩
                  ⟨.block buf, buf.length⟩ with
              | error second =>
                  rw [one, two] at added
                  exact ⟨congrArg Reply.fault (Except.error.inj added), devs⟩
              | ok next =>
                  rw [one, two] at added
                  cases added
          | ok state =>
              cases two : aesdCircularBufferAddEntry {} ⟨after, other.tmpEntry⟩
                  ⟨.block buf, buf.length⟩ with
              | error second =>
                  rw [one, two] at added
                  cases added
              | ok next =>
                  rw [one, two] at added
                  obtain ⟨left, tmp⟩ := BufferState.mk.inj (Except.ok.inj added)
                  refine ⟨rfl, ?_⟩
                  rw [AesdDev.erase, AesdDev.erase]
                  simp only [Option.map_some, left, tmp]
    · simp [aesdWrite, opened, devs]

theorem sumSizesFrom_erase (buffer : CircularBuffer) (remaining i : Nat) (byteLen : UInt32) :
    sumSizesFrom buffer.erase remaining i byteLen = sumSizesFrom buffer remaining i byteLen := by
  induction remaining generalizing i byteLen with
  | zero => rfl
  | succ remaining ih =>
      simp only [sumSizesFrom, ih]
      rfl

theorem aesdLlseek_erase (dev : AesdDev) (filp : File) (off whence : Int) :
    aesdLlseek dev.erase filp off whence = aesdLlseek dev filp off whence := by
  obtain ⟨buffer, tmpEntry⟩ := dev
  cases buffer <;> rfl

theorem aesdUnlockedIoctl_erase (dev : AesdDev) (filp : File) (cmd : UInt32)
    (seekto : AesdSeekto) :
    aesdUnlockedIoctl dev.erase filp cmd seekto = aesdUnlockedIoctl dev filp cmd seekto := by
  obtain ⟨buffer, tmpEntry⟩ := dev
  cases buffer with
  | none => rfl
  | some buffer =>
      have start : buffer.erase.startCharAbs = buffer.startCharAbs := rfl
      simp only [aesdUnlockedIoctl, AesdDev.erase, Option.map_some,
        aesdCircularBufferGetBytesToOfs, sumSizesFrom_erase, start]

theorem aesdRead_privateData (dev : AesdDev) (filp : File) (count : UInt64) :
    (aesdRead {} dev filp count).2.2.privateData = filp.privateData := by
  by_cases opened : filp.privateData = true
  · cases present : dev.buffer with
    | none => simp [aesdRead, opened, present]
    | some buffer =>
        obtain ⟨read, called⟩ := raed_ends buffer (List.replicate count.toNat 0) count filp.fPos
        rw [aesdRead_eq opened present called]
  · simp [aesdRead, opened]

theorem aesdRead_erase_dev (dev : AesdDev) (filp : File) (count : UInt64) :
    (aesdRead {} dev filp count).2.1.erase = dev.erase := by
  by_cases opened : filp.privateData = true
  · cases present : dev.buffer with
    | none => simp [aesdRead, opened, present]
    | some buffer =>
        obtain ⟨read, called⟩ := raed_ends buffer (List.replicate count.toNat 0) count filp.fPos
        rw [aesdRead_eq opened present called]
        simp only [AesdDev.erase, present, Option.map_some]
        rw [raed_buffer called]
        rfl
  · simp [aesdRead, opened]

theorem aesdLlseek_privateData (dev : AesdDev) (filp : File) (off whence : Int) :
    (aesdLlseek dev filp off whence).2.privateData = filp.privateData := by
  unfold aesdLlseek
  split
  · rfl
  · split
    · rfl
    · dsimp only
      split
      · rfl
      · split
        · rfl
        · split <;> rfl

theorem aesdUnlockedIoctl_privateData (dev : AesdDev) (filp : File) (cmd : UInt32)
    (seekto : AesdSeekto) :
    (aesdUnlockedIoctl dev filp cmd seekto).2.privateData = filp.privateData := by
  rcases aesdUnlockedIoctl_filp dev filp cmd seekto with same | ⟨position, moved⟩
  · rw [same]
  · rw [moved]

/-! Runs. -/

def Sys.observe (sys : Sys) (call : Call) : (Reply × Int) × Sys :=
  (((sys.step call).1, ((sys.step call).2.files call.file).fPos), (sys.step call).2)

def Call.reads : Call → Bool
  | .read _ _ => true
  | .llseek _ _ _ => true
  | .ioctl _ _ _ => true
  | _ => false

def ReadsElsewhere (file : Nat) (call : Call) : Prop := call.reads = true ∧ call.file ≠ file

structure View where
  dev : AesdDev
  fPos : Int
  privateData : Nat → Bool

def Sys.view (file : Nat) (sys : Sys) : View :=
  ⟨sys.dev.erase, (sys.files file).fPos, fun other => (sys.files other).privateData⟩

theorem setFile_view (sys : Sys) {file target : Nat} {filp : File} (elsewhere : target ≠ file)
    (same : filp.privateData = (sys.files target).privateData) :
    (sys.setFile target filp).view file = sys.view file := by
  have privateData : (fun other => (Function.update sys.files target filp other).privateData) =
      fun other => (sys.files other).privateData := by
    funext other
    by_cases here : other = target
    · rw [here, Function.update_self, same]
    · rw [Function.update_of_ne here]
  simp only [Sys.view, Sys.setFile, privateData, Function.update_of_ne elsewhere.symm]

theorem reads_view {file : Nat} (sys : Sys) {call : Call} (hidden : ReadsElsewhere file call) :
    (sys.step call).2.view file = sys.view file := by
  obtain ⟨reader, elsewhere⟩ := hidden
  cases call with
  | openFile target => cases reader
  | write target buf => cases reader
  | read target count =>
      have same := aesdRead_privateData sys.dev (sys.files target) count
      let after : Sys := ⟨(aesdRead {} sys.dev (sys.files target) count).2.1, sys.files⟩
      have dev : after.dev.erase = sys.dev.erase := aesdRead_erase_dev _ _ _
      refine (setFile_view after elsewhere same).trans ?_
      simp only [Sys.view, dev]
      rfl
  | llseek target off whence =>
      exact setFile_view sys elsewhere (aesdLlseek_privateData sys.dev (sys.files target) off whence)
  | ioctl target cmd seekto =>
      exact setFile_view sys elsewhere
        (aesdUnlockedIoctl_privateData sys.dev (sys.files target) cmd seekto)

theorem file_of_view {file : Nat} {sys other : Sys} (views : sys.view file = other.view file) :
    sys.files file = other.files file := by
  obtain ⟨-, fPos, privateData⟩ := View.mk.inj views
  have opened := congrFun privateData file
  cases one : sys.files file
  cases two : other.files file
  simp_all

theorem setFile_view_same {file : Nat} {sys other : Sys} (views : sys.view file = other.view file)
    (target : Nat) (filp : File) :
    (sys.setFile target filp).view file = (other.setFile target filp).view file := by
  obtain ⟨dev, fPos, privateData⟩ := View.mk.inj views
  have opened : (fun file => (Function.update sys.files target filp file).privateData) =
      fun file => (Function.update other.files target filp file).privateData := by
    funext here
    by_cases same : here = target
    · rw [same, Function.update_self, Function.update_self]
    · rw [Function.update_of_ne same, Function.update_of_ne same]
      exact congrFun privateData here
  have position : (Function.update sys.files target filp file).fPos =
      (Function.update other.files target filp file).fPos := by
    by_cases same : file = target
    · rw [same, Function.update_self, Function.update_self]
    · rw [Function.update_of_ne same, Function.update_of_ne same, fPos]
  simp only [Sys.view, Sys.setFile, dev, opened, position]

theorem dev_view_same {file : Nat} {sys other : Sys} (views : sys.view file = other.view file)
    {dev after : AesdDev} (devs : dev.erase = after.erase) :
    Sys.view file { sys with dev } = Sys.view file { other with dev := after } := by
  obtain ⟨-, fPos, privateData⟩ := View.mk.inj views
  simp only [Sys.view, devs, fPos, privateData]

theorem aesdWrite_filp (dev : AesdDev) {filp other : File}
    (same : filp.privateData = other.privateData) (buf : Bytes) :
    aesdWrite {} dev filp buf = aesdWrite {} dev other buf := by
  rw [aesdWrite, aesdWrite, same]

theorem step_view_same {file : Nat} {sys other : Sys} (views : sys.view file = other.view file)
    {call : Call} (shown : ¬ ReadsElsewhere file call) :
    (sys.step call).2.view file = (other.step call).2.view file := by
  obtain ⟨devs, -, privateData⟩ := View.mk.inj views
  have files := file_of_view views
  cases call with
  | openFile target => exact setFile_view_same views target _
  | write target buf =>
      have filp := aesdWrite_filp sys.dev (congrFun privateData target) buf
      simp only [Sys.step, filp]
      exact dev_view_same views (aesdWrite_same devs (other.files target) buf).2
  | read target count =>
      have here : target = file := by
        by_contra elsewhere
        exact shown ⟨rfl, elsewhere⟩
      subst here
      obtain ⟨-, left, filp⟩ := aesdRead_same devs (other.files target) count
      simp only [Sys.step, files, filp]
      exact setFile_view_same (dev_view_same views left) target _
  | llseek target off whence =>
      have here : target = file := by
        by_contra elsewhere
        exact shown ⟨rfl, elsewhere⟩
      subst here
      simp only [Sys.step, files, ← aesdLlseek_erase sys.dev, devs, aesdLlseek_erase other.dev]
      exact setFile_view_same views target _
  | ioctl target cmd seekto =>
      have here : target = file := by
        by_contra elsewhere
        exact shown ⟨rfl, elsewhere⟩
      subst here
      simp only [Sys.step, files, ← aesdUnlockedIoctl_erase sys.dev, devs,
        aesdUnlockedIoctl_erase other.dev]
      exact setFile_view_same views target _

theorem reply_same {file : Nat} {sys other : Sys} (views : sys.view file = other.view file)
    {call : Call} (here : call.file = file) : (sys.step call).1 = (other.step call).1 := by
  obtain ⟨devs, -, -⟩ := View.mk.inj views
  have files := file_of_view views
  subst here
  cases call with
  | openFile target => rfl
  | write target buf =>
      simp only [Call.file] at files
      simp only [Sys.step, files]
      exact (aesdWrite_same devs (other.files target) buf).1
  | read target count =>
      simp only [Call.file] at files
      simp only [Sys.step, files]
      exact (aesdRead_same devs (other.files target) count).1
  | llseek target off whence =>
      simp only [Call.file] at files
      simp only [Sys.step, files, ← aesdLlseek_erase sys.dev, devs, aesdLlseek_erase other.dev]
  | ioctl target cmd seekto =>
      simp only [Call.file] at files
      simp only [Sys.step, files, ← aesdUnlockedIoctl_erase sys.dev, devs,
        aesdUnlockedIoctl_erase other.dev]

theorem observe_unwinds (file : Nat) :
    Unwinds Sys.observe (Sys.view file) (fun call => call.file == file)
      (ReadsElsewhere file) where
  hiddenKeepsView := fun sys _ hidden => reads_view sys hidden
  hiddenUnobserved := by
    intro call hidden
    simpa using hidden.2
  viewStep := fun _ _ _ views shown => step_view_same views shown
  observedOutput := by
    intro sys other call views seen
    have here : call.file = file := by simpa using seen
    have shown : ¬ ReadsElsewhere file call := fun hidden => hidden.2 here
    obtain ⟨-, fPos, -⟩ := View.mk.inj (step_view_same views shown)
    simp only [Sys.observe, reply_same views here, here, fPos]

def Sys.contents (sys : Sys) : Option (Vector BufferEntry 10 × UInt32 × UInt32 × UInt32 × UInt32) ×
    BufferEntry :=
  (sys.dev.buffer.map fun buffer =>
    (buffer.entry, buffer.wAbs, buffer.startAbs, buffer.wCharAbs, buffer.startCharAbs),
    sys.dev.tmpEntry)

theorem contents_of_view {file : Nat} {sys other : Sys} (views : sys.view file = other.view file) :
    sys.contents = other.contents := by
  have through (sys : Sys) : sys.contents = (⟨sys.dev.erase, sys.files⟩ : Sys).contents := by
    obtain ⟨⟨buffer, tmpEntry⟩, files⟩ := sys
    cases buffer <;> rfl
  obtain ⟨devs, -, -⟩ := View.mk.inj views
  rw [through, through other, devs]
  rfl

theorem finalState_observe (calls : List Call) :
    ∀ sys : Sys, finalState Sys.observe sys calls = sys.run calls := by
  induction calls with
  | nil => intro sys; rfl
  | cons call calls ih => intro sys; exact ih (sys.step call).2

/-- Deleting reads, seeks and ioctls on other files changes no reply and no position of the
calls on `file`, and nothing that the device holds. -/
theorem readers_do_not_interfere (file : Nat) {full kept : List Call}
    (thin : Thinned (ReadsElsewhere file) full kept) :
    outputs Sys.observe (fun call => call.file == file) Sys.boot full =
        outputs Sys.observe (fun call => call.file == file) Sys.boot kept ∧
      (Sys.boot.run full).contents = (Sys.boot.run kept).contents := by
  obtain ⟨replies, views⟩ := (observe_unwinds file).thinned thin rfl
  rw [finalState_observe, finalState_observe] at views
  exact ⟨replies, contents_of_view views⟩

theorem readers_do_not_interfere_two_files :
    outputs Sys.observe (fun call => call.file == 0) Sys.boot
        [.openFile 0, .openFile 1, .write 0 [97, 10], .read 1 1, .read 0 2] =
      outputs Sys.observe (fun call => call.file == 0) Sys.boot
        [.openFile 0, .openFile 1, .write 0 [97, 10], .read 0 2] ∧
      (Sys.boot.run [.openFile 0, .openFile 1, .write 0 [97, 10], .read 1 1, .read 0 2]).contents =
        (Sys.boot.run [.openFile 0, .openFile 1, .write 0 [97, 10], .read 0 2]).contents :=
  readers_do_not_interfere 0
    (.keep _ (.keep _ (.keep _ (.delete ⟨rfl, by decide⟩ (.keep _ .nil)))))

end Aesd
