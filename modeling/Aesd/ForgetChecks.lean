import Aesd.Interference
import Aesd.LogDevice

/-!
What the device forgets. Of a command that no slot holds any more only the size is left, and of
how the bytes were cut into writes nothing is: runs that agree on the rest answer alike. The
counters may wrap.
-/

namespace Aesd

open MachineInt SlotLog Simulation

/-! What the device keeps of its commands. -/

/-- The commands have the same sizes, and those in the slots are the same. -/
structure KeepAlike (commands others : List Bytes) : Prop where
  sizes : sizesOf commands = sizesOf others
  slots : ∀ target < 10, slotEntry commands target = slotEntry others target

theorem KeepAlike.length {commands others : List Bytes} (alike : KeepAlike commands others) :
    commands.length = others.length := by
  have lengths := congrArg List.length alike.sizes
  simpa [sizesOf] using lengths

theorem KeepAlike.chars {commands others : List Bytes} (alike : KeepAlike commands others) :
    commands.flatten.length = others.flatten.length := by
  rw [List.length_flatten, List.length_flatten, ← sizesOf, ← sizesOf, alike.sizes]

theorem KeepAlike.concat {commands others : List Bytes} (alike : KeepAlike commands others)
    (command : Bytes) : KeepAlike (commands ++ [command]) (others ++ [command]) where
  sizes := by simpa [sizesOf] using alike.sizes
  slots := fun target bound => by
    rw [slotEntry_concat, slotEntry_concat, alike.length, alike.slots target bound]

theorem slotEntry_size (commands : List Bytes) (target : Nat) :
    (slotEntry commands target).size =
      ((lastIndex commandSlot (sizesOf commands).length target).map
        ((sizesOf commands).getD · 0)).getD 0 := by
  rw [slotEntry, sizesOf, List.length_map]
  cases found : lastIndex commandSlot commands.length target with
  | none => rfl
  | some index =>
      have bound := lastIndex_lt commandSlot found
      simp [List.getD_eq_getElem?_getD, bound]

theorem chargedChars_of_sizes {commands others : List Bytes}
    (sizes : sizesOf commands = sizesOf others) : chargedChars commands = chargedChars others := by
  have length : commands.length = others.length := by
    have lengths := congrArg List.length sizes
    simpa [sizesOf] using lengths
  rw [chargedChars, chargedChars, length]
  congr 1
  refine List.map_congr_left fun evicted _ => ?_
  have taken : sizesOf (commands.take (evicted + 11)) = sizesOf (others.take (evicted + 11)) := by
    rw [sizesOf, sizesOf, List.map_take, List.map_take, ← sizesOf, ← sizesOf, sizes]
  rw [slotEntry_size, slotEntry_size, taken]

theorem Represents.erase_same {state after : BufferState} {commands others : List Bytes}
    {pending waiting : Bytes} (represents : Represents state commands pending)
    (other : Represents after others waiting) (alike : KeepAlike commands others) :
    state.buffer.erase = after.buffer.erase := by
  have entries : state.buffer.entry = after.buffer.entry := by
    refine Vector.ext fun target bound => ?_
    have here := represents.entry target bound
    rw [alike.slots target bound, ← other.entry target bound] at here
    simpa [bound] using here
  have wAbs := represents.wAbs.trans (alike.length ▸ other.wAbs.symm)
  have startAbs := represents.startAbs.trans (alike.length ▸ other.startAbs.symm)
  have wCharAbs := represents.wCharAbs.trans (alike.chars ▸ other.wCharAbs.symm)
  have startCharAbs :=
    represents.startCharAbs.trans (chargedChars_of_sizes alike.sizes ▸ other.startCharAbs.symm)
  have inOffs := represents.inOffs.trans (alike.length ▸ other.inOffs.symm)
  simp only [CircularBuffer.erase, entries, wAbs, startAbs, wCharAbs, startCharAbs, inOffs]

/-! Two devices with the same memory. -/

structure RemembersAlike (sys other : Sys) : Prop where
  histories : ∃ chunks others buffer after, sys.Follows chunks buffer ∧
    other.Follows others after ∧ KeepAlike (commandsOf chunks) (commandsOf others) ∧
    pendingOf chunks = pendingOf others
  files : sys.files = other.files

theorem keepAlike_append {chunks others : List Bytes}
    (alike : KeepAlike (commandsOf chunks) (commandsOf others))
    (pending : pendingOf chunks = pendingOf others) (more : List Bytes) :
    KeepAlike (commandsOf (chunks ++ more)) (commandsOf (others ++ more)) ∧
      pendingOf (chunks ++ more) = pendingOf (others ++ more) := by
  induction more using List.reverseRecOn with
  | nil => simpa using ⟨alike, pending⟩
  | append_singleton more chunk ih =>
      obtain ⟨alike, pending⟩ := ih
      rw [← List.append_assoc, ← List.append_assoc, commandsOf_concat, commandsOf_concat,
        pendingOf_concat, pendingOf_concat, pending]
      split
      · exact ⟨alike.concat _, rfl⟩
      · exact ⟨alike, rfl⟩

theorem aesdRead_tmpEntry (dev : AesdDev) (tmpEntry : BufferEntry) (filp : File)
    (count : UInt64) :
    (aesdRead {} { dev with tmpEntry } filp count).1 = (aesdRead {} dev filp count).1 ∧
      (aesdRead {} { dev with tmpEntry } filp count).2.2 = (aesdRead {} dev filp count).2.2 := by
  by_cases opened : filp.privateData = true
  · cases present : dev.buffer with
    | none => simp [aesdRead, opened, present]
    | some buffer =>
        obtain ⟨read, called⟩ := raed_ends buffer (List.replicate count.toNat 0) count filp.fPos
        have changed : (⟨some buffer, tmpEntry⟩ : AesdDev).buffer = some buffer := rfl
        rw [aesdRead_eq opened present called, aesdRead_eq opened changed called]
        exact ⟨rfl, rfl⟩
  · simp [aesdRead, opened]

theorem Sys.Follows.write_reply {sys : Sys} {chunks : List Bytes} {buffer : CircularBuffer}
    (follows : sys.Follows chunks buffer) (filp : File) (buf : Bytes) :
    (aesdWrite {} sys.dev filp buf).1 =
      if filp.privateData = false then .ret (-enomem) []
      else if buf = [] then .fault .outOfBounds
      else .ret buf.length [] := by
  by_cases closed : filp.privateData = false
  · rw [aesdWrite, if_pos closed, if_pos closed]
  · rw [if_neg closed]
    by_cases empty : buf = []
    · rw [if_pos empty, empty, aesdWrite, if_neg closed, follows.present]
      rfl
    · obtain ⟨state, -, wrote, -⟩ := aesdWrite_follows follows (by simpa using closed) empty
      rw [if_neg empty, wrote]

theorem RemembersAlike.devs {sys other : Sys} (alike : RemembersAlike sys other)
    (tmpEntry : BufferEntry) : ({ sys.dev with tmpEntry } : AesdDev).erase =
      ({ other.dev with tmpEntry } : AesdDev).erase := by
  obtain ⟨chunks, others, buffer, after, follows, followed, kept, -⟩ := alike.histories
  have same := follows.history.erase_same followed.history kept
  rw [AesdDev.erase, AesdDev.erase, follows.present, followed.present]
  exact congrArg (fun buffer => (⟨some buffer, tmpEntry⟩ : AesdDev)) same

theorem RemembersAlike.answers {sys other : Sys} (alike : RemembersAlike sys other) (call : Call) :
    (sys.step call).1 = (other.step call).1 ∧
      (sys.step call).2.files = (other.step call).2.files := by
  have devs := alike.devs emptyEntry
  have files := alike.files
  cases call with
  | openFile file => simp [Sys.step, Sys.setFile, files]
  | write file buf =>
      obtain ⟨chunks, others, buffer, after, follows, followed, -, -⟩ := alike.histories
      refine ⟨?_, files⟩
      simp only [Sys.step, files, follows.write_reply, followed.write_reply]
  | read file count =>
      obtain ⟨reply, -, filp⟩ := aesdRead_same devs (other.files file) count
      obtain ⟨first, moved⟩ := aesdRead_tmpEntry sys.dev emptyEntry (other.files file) count
      obtain ⟨second, movedToo⟩ := aesdRead_tmpEntry other.dev emptyEntry (other.files file) count
      rw [first, second] at reply
      rw [moved, movedToo] at filp
      simp only [Sys.step, Sys.setFile, files, reply, filp, and_self]
  | llseek file off whence =>
      have same : aesdLlseek sys.dev (other.files file) off whence =
          aesdLlseek other.dev (other.files file) off whence := by
        have erased := aesdLlseek_erase { sys.dev with tmpEntry := emptyEntry } (other.files file)
          off whence
        rw [devs, aesdLlseek_erase] at erased
        exact erased.symm
      simp only [Sys.step, Sys.setFile, files, same, and_self]
  | ioctl file cmd seekto =>
      have same : aesdUnlockedIoctl sys.dev (other.files file) cmd seekto =
          aesdUnlockedIoctl other.dev (other.files file) cmd seekto := by
        have erased := aesdUnlockedIoctl_erase { sys.dev with tmpEntry := emptyEntry }
          (other.files file) cmd seekto
        rw [devs, aesdUnlockedIoctl_erase] at erased
        exact erased.symm
      simp only [Sys.step, Sys.setFile, files, same, and_self]

theorem RemembersAlike.step {sys other : Sys} (alike : RemembersAlike sys other) (call : Call) :
    RemembersAlike (sys.step call).2 (other.step call).2 := by
  refine ⟨?_, (alike.answers call).2⟩
  obtain ⟨chunks, others, buffer, after, follows, followed, kept, pending⟩ := alike.histories
  have same : call.chunk sys = call.chunk other := by
    cases call <;> simp only [Call.chunk, alike.files]
  obtain ⟨next, stepped⟩ := follows.step call
  obtain ⟨otherNext, otherStepped⟩ := followed.step call
  rw [← same] at otherStepped
  obtain ⟨still, waiting⟩ := keepAlike_append kept pending (call.chunk sys)
  exact ⟨_, _, next, otherNext, stepped, otherStepped, still, waiting⟩

theorem remembersAlike_simulates :
    Simulates Sys.step Sys.step RemembersAlike (fun _ _ => True) where
  reply := fun _ _ call alike _ => (alike.answers call).1
  next := fun _ _ call alike _ => alike.step call

def pendingIn (calls : List Call) : Bytes := pendingOf (Sys.boot.chunks calls)

/-- Two runs that leave the same commands in the slots, after commands of the same sizes, and
the same bytes pending answer every later run of calls alike. -/
theorem boot_run_forgets (calls others : List Call)
    (kept : KeepAlike (commandsIn calls) (commandsIn others))
    (pending : pendingIn calls = pendingIn others)
    (files : (Sys.boot.run calls).files = (Sys.boot.run others).files) (later : List Call) :
    (Sys.boot.run calls).replies later = (Sys.boot.run others).replies later := by
  obtain ⟨buffer, follows⟩ := boot_run_follows calls
  obtain ⟨after, followed⟩ := boot_run_follows others
  have alike : RemembersAlike (Sys.boot.run calls) (Sys.boot.run others) :=
    ⟨⟨_, _, buffer, after, follows, followed, kept, pending⟩, files⟩
  exact (remembersAlike_simulates.run later alike fun _ _ _ => trivial).1

def elevenLines (first : List Bytes) : List Call := writesOf (first ++ List.replicate 10 [97, 10])

/-- The first of eleven lines differs, and one run writes it in two parts. -/
theorem boot_run_forgets_first :
    (Sys.boot.run (elevenLines [[120, 10]])).replies [.llseek 0 2 seekSet, .read 0 64] =
      (Sys.boot.run (elevenLines [[121], [10]])).replies [.llseek 0 2 seekSet, .read 0 64] := by
  have sizes : sizesOf (commandsIn (elevenLines [[120, 10]])) =
      sizesOf (commandsIn (elevenLines [[121], [10]])) := by
    decide +kernel
  have slots : ∀ target < 10, slotEntry (commandsIn (elevenLines [[120, 10]])) target =
      slotEntry (commandsIn (elevenLines [[121], [10]])) target := by
    decide +kernel
  have files (first : List Bytes) : (Sys.boot.run (elevenLines first)).files =
      (Sys.boot.step (.openFile 0)).2.files :=
    Sys.run_writes_files _ 0 _
  exact boot_run_forgets _ _ ⟨sizes, slots⟩ (by decide +kernel)
    ((files [[120, 10]]).trans (files [[121], [10]]).symm) _

end Aesd
