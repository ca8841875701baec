import Aesd.DriverChecks

/-!
`AESDCHAR_IOCSEEKTO`. The ioctl sums slot sizes in array order up to a command that its
caller counts in age order.
-/

namespace Aesd

open MachineInt Records Offsets

def liveFrom (commands : List Bytes) (index offset : Nat) : Bytes :=
  ((liveOf commands).getD index []).drop offset ++ ((liveOf commands).drop (index + 1)).flatten

/-- The ioctl returns 0, and a read after it returns the bytes from the position asked for. -/
def SeeksTo (sys : Sys) (commands : List Bytes) (file : Nat) (seekto : AesdSeekto) : Prop :=
  (sys.step (.ioctl file aesdcharIocseekto seekto)).1 = .ret 0 [] ∧
    ∀ count : UInt64, 0 < count.toNat →
      ((sys.step (.ioctl file aesdcharIocseekto seekto)).2.step (.read file count)).1 =
        .ret ((liveFrom commands seekto.writeCmd.toNat seekto.writeCmdOffset.toNat).take
            count.toNat).length
          ((liveFrom commands seekto.writeCmd.toNat seekto.writeCmdOffset.toNat).take count.toNat)

theorem sumSizesFrom_eq {buffer : CircularBuffer} :
    ∀ (sizes : List Nat) (first : Nat) (byteLen : UInt32),
      (∀ offset (bound : offset < sizes.length), ∃ entry,
        buffer.entry[first + offset]? = some entry ∧ entry.size = sizes[offset]) →
      sumSizesFrom buffer sizes.length first byteLen = .ok (byteLen + UInt32.ofNat sizes.sum) := by
  intro sizes
  induction sizes with
  | nil => intro first byteLen _; simp [sumSizesFrom]
  | cons size sizes ih =>
      intro first byteLen entries
      obtain ⟨entry, found, entrySize⟩ := entries 0 (by simp)
      have sizeOk : entry.size = size := by simpa using entrySize
      have rest := ih (first + 1) (byteLen + UInt32.ofNat size) (by
        intro offset bound
        have next := entries (offset + 1) (by simpa using bound)
        rw [show first + (offset + 1) = first + 1 + offset by omega] at next
        simpa using next)
      rw [Nat.add_zero] at found
      simp only [List.length_cons, sumSizesFrom, found, sizeOk, rest, List.sum_cons,
        UInt32.ofNat_add, UInt32.add_assoc]

theorem Unwrapped.getBytesToOfs {buffer : CircularBuffer} {commands : List Bytes}
    (unwrapped : Unwrapped buffer commands) {elemInd : UInt32}
    (bound : elemInd.toNat ≤ (slotsOf commands).length) (ofsInElem : UInt32) :
    aesdCircularBufferGetBytesToOfs buffer elemInd ofsInElem =
      .ok (UInt32.ofNat (before (sizesOf (slotsOf commands)) elemInd.toNat) + ofsInElem) := by
  have length : ((sizesOf (slotsOf commands)).take elemInd.toNat).length = elemInd.toNat := by
    rw [List.length_take, sizesOf_length]
    omega
  have entries : ∀ offset
      (inside : offset < ((sizesOf (slotsOf commands)).take elemInd.toNat).length), ∃ entry,
        buffer.entry[0 + offset]? = some entry ∧
          entry.size = ((sizesOf (slotsOf commands)).take elemInd.toNat)[offset] := by
    intro offset inside
    obtain ⟨entry, found, size⟩ := unwrapped.scan.entry offset
      (by rw [List.length_take] at inside; omega)
    exact ⟨entry, found, by rw [size, List.getElem_take]⟩
  have summed := sumSizesFrom_eq _ 0 0 entries
  rw [length] at summed
  rw [aesdCircularBufferGetBytesToOfs, summed, ok_bind, UInt32.zero_add]
  rfl

theorem commandSize_oldest (commands : List Bytes) :
    commandSize commands (commands.length - 10) = (sizesOf (liveOf commands)).getD 0 0 := by
  simp only [commandSize, sizesOf, liveOf, List.getD_eq_getElem?_getD, List.getElem?_map,
    List.getElem?_drop, Nat.add_zero]
  cases commands[commands.length - 10]? <;> rfl

/-- The position that the ioctl computes does not wrap: it is at most two windows long. -/
theorem Unwrapped.seek_small {buffer : CircularBuffer} {commands : List Bytes}
    (unwrapped : Unwrapped buffer commands) {index offset : Nat}
    (inside : offset < (sizesOf (liveOf commands)).getD index 0) :
    before (sizesOf (slotsOf commands)) index + offset + chargedChars commands < 2 ^ 32 := by
  have count := unwrapped.count
  have chars := unwrapped.chars
  have total := totalChars_eq commands
  have charged : chargedChars commands + commandSize commands 0 =
      evictedChars commands + commandSize commands (commands.length - 10) :=
    charged_add_first (by omega)
  have slots := before_le_sum (sizesOf (slotsOf commands)) index
  have live := before_le_sum (sizesOf (liveOf commands)) (index + 1)
  have next := before_add_getD (sizesOf (liveOf commands)) index
  rw [slots_flatten_length] at slots
  rw [sizesOf_sum] at live
  rw [commandSize_oldest] at charged
  cases index with
  | zero =>
      rw [before_zero]
      omega
  | succ index =>
      have first := before_add_getD (sizesOf (liveOf commands)) 0
      have order := before_mono (sizesOf (liveOf commands)) (show 0 + 1 ≤ index + 1 by omega)
      rw [before_zero] at first
      omega

theorem Sys.Follows.seek {sys : Sys} {chunks : List Bytes} {buffer : CircularBuffer}
    (follows : sys.Follows chunks buffer) (unwrapped : Unwrapped buffer (commandsOf chunks))
    {file : Nat} (opened : (sys.files file).privateData = true) {seekto : AesdSeekto}
    (inside : seekto.writeCmdOffset.toNat <
      (sizesOf (liveOf (commandsOf chunks))).getD seekto.writeCmd.toNat 0) :
    sys.step (.ioctl file aesdcharIocseekto seekto) =
      (.ret 0 [], sys.setFile file ⟨true, (chargedChars (commandsOf chunks) +
        (before (sizesOf (slotsOf (commandsOf chunks))) seekto.writeCmd.toNat +
          seekto.writeCmdOffset.toNat) : Nat)⟩) := by
  obtain ⟨bound, -⟩ := bound_of_lt_getD inside
  have slot : seekto.writeCmd.toNat ≤ (slotsOf (commandsOf chunks)).length := by
    rw [sizesOf_length, liveOf_length] at bound
    rw [slotsOf_length]
    omega
  have small := unwrapped.seek_small inside
  have position : (UInt32.ofNat (before (sizesOf (slotsOf (commandsOf chunks)))
        seekto.writeCmd.toNat) + seekto.writeCmdOffset + buffer.startCharAbs).toNat =
      chargedChars (commandsOf chunks) +
        (before (sizesOf (slotsOf (commandsOf chunks))) seekto.writeCmd.toNat +
          seekto.writeCmdOffset.toNat) := by
    rw [UInt32.toNat_add, UInt32.toNat_add, toNat_ofNat (by omega), unwrapped.startCharAbs]
    omega
  have magic : iocType aesdcharIocseekto = aesdIocMagic := by decide
  have number : ¬ aesdcharIocMaxnr < iocNr aesdcharIocseekto := by decide
  have sought : aesdUnlockedIoctl sys.dev (sys.files file) aesdcharIocseekto seekto =
      (.ret 0 [], ⟨true, (chargedChars (commandsOf chunks) +
        (before (sizesOf (slotsOf (commandsOf chunks))) seekto.writeCmd.toNat +
          seekto.writeCmdOffset.toNat) : Nat)⟩) := by
    simp only [aesdUnlockedIoctl, opened, follows.present, magic, number,
      unwrapped.getBytesToOfs slot, position]
    simp
  rw [Sys.step, sought]

theorem liveFrom_eq {commands : List Bytes} {index offset : Nat}
    (inside : offset < (sizesOf (liveOf commands)).getD index 0) :
    liveFrom commands index offset = (((liveOf commands).drop index).flatten.drop offset) := by
  obtain ⟨bound, below⟩ := bound_of_lt_getD inside
  simp only [sizesOf, List.length_map, List.getElem_map] at bound below
  rw [liveFrom, List.getD_eq_getElem _ _ bound, List.drop_eq_getElem_cons bound,
    List.flatten_cons, List.drop_append_of_le_length (Nat.le_of_lt below)]

theorem liveFrom_length {commands : List Bytes} {index offset : Nat}
    (inside : offset < (sizesOf (liveOf commands)).getD index 0) :
    before (sizesOf (liveOf commands)) index + offset + (liveFrom commands index offset).length =
      (liveOf commands).flatten.length := by
  have split : before (sizesOf (liveOf commands)) index +
      ((liveOf commands).drop index).flatten.length = (liveOf commands).flatten.length :=
    length_flatten_drop (liveOf commands) index
  have next := before_add_getD (sizesOf (liveOf commands)) index
  have live := before_le_sum (sizesOf (liveOf commands)) (index + 1)
  rw [sizesOf_sum] at live
  rw [liveFrom_eq inside, List.length_drop]
  omega

def slotPosition (commands : List Bytes) (index offset : Nat) : Nat :=
  before (sizesOf (slotsOf commands)) index + offset

/-- A position whose offset is past the slot of that number is read as part of a later piece,
from which fewer bytes are left. -/
theorem Unwrapped.reads_less {buffer : CircularBuffer} {commands : List Bytes}
    (unwrapped : Unwrapped buffer commands) {index offset : Nat}
    (inside : offset < (sizesOf (liveOf commands)).getD index 0)
    (past : (sizesOf (slotsOf commands)).getD index 0 ≤ offset)
    (upper : chargedChars commands + slotPosition commands index offset ≤
      commands.flatten.length) {count : UInt64} (asked : 0 < count.toNat) :
    ¬ InBounds buffer count (chargedChars commands + slotPosition commands index offset : Nat) ∨
      ∃ data, data.length < (liveFrom commands index offset).length ∧
        Delivers buffer count (chargedChars commands + slotPosition commands index offset : Nat)
          data := by
  have live := slots_flatten_length commands
  have left := liveFrom_length inside
  have liveNext := before_add_getD (sizesOf (liveOf commands)) index
  have whole := before_le_sum (sizesOf (liveOf commands)) (index + 1)
  rw [sizesOf_sum] at whole
  by_cases more : slotPosition commands index offset < (liveOf commands).flatten.length
  · obtain ⟨age, byte, found, same⟩ :=
      exists_locate (show slotPosition commands index offset < _ by rw [live]; exact more)
    have located := locate_of_lt_getD found
    rw [← same] at located
    have later : index + 1 ≤ age := by
      by_contra earlier
      have order := before_mono (sizesOf (slotsOf commands)) (show age + 1 ≤ index + 1 by omega)
      have next := before_add_getD (sizesOf (slotsOf commands)) age
      have here := before_add_getD (sizesOf (slotsOf commands)) index
      rw [slotPosition] at same
      omega
    by_cases fits : byte ≤ (sizesOf (liveOf commands)).getD age 0
    · refine Or.inr ⟨_, ?_, (unwrapped.cleanRead upper more located fits asked).delivers⟩
      have rest : before (sizesOf (liveOf commands)) age +
          ((liveOf commands).drop age).flatten.length = (liveOf commands).flatten.length :=
        length_flatten_drop (liveOf commands) age
      have order := before_mono (sizesOf (liveOf commands)) later
      rw [List.length_take, List.length_drop]
      omega
    · exact Or.inl (unwrapped.not_inBounds upper more located (by omega) count)
  · refine Or.inr ⟨[], ?_, (unwrapped.cleanRead_nil upper (Nat.le_of_not_lt more) count).delivers⟩
    rw [List.length_nil]
    omega

/-- Reads from the position of byte `offset` of piece `index` return what is left from there
exactly when the slot of the same number has that byte and the position is in the window. -/
theorem Unwrapped.readsFrom_iff {dev : AesdDev} {buffer : CircularBuffer} {commands : List Bytes}
    (unwrapped : Unwrapped buffer commands) (present : dev.buffer = some buffer)
    {index offset : Nat} (inside : offset < (sizesOf (liveOf commands)).getD index 0) :
    (∀ count : UInt64, 0 < count.toNat →
        (aesdRead {} dev
            ⟨true, (chargedChars commands + slotPosition commands index offset : Nat)⟩ count).1 =
          .ret ((liveFrom commands index offset).take count.toNat).length
            ((liveFrom commands index offset).take count.toNat)) ↔
      offset < (sizesOf (slotsOf commands)).getD index 0 ∧
        chargedChars commands + slotPosition commands index offset ≤
          commands.flatten.length := by
  have chars := unwrapped.chars
  have live := liveChars_le commands
  have left := liveFrom_length inside
  constructor
  · intro reads
    have large : (4294967296 : UInt64).toNat = 2 ^ 32 := rfl
    have reply := reads 4294967296 (by decide)
    rw [large, List.take_of_length_le (by omega)] at reply
    have upper : chargedChars commands + slotPosition commands index offset ≤
        commands.flatten.length := by
      by_contra outside
      rw [aesdRead_outside rfl present (by rw [unwrapped.inWindow_iff]; dsimp only; omega)] at reply
      cases reply
    refine ⟨?_, upper⟩
    by_contra past
    rcases unwrapped.reads_less inside (Nat.le_of_not_lt past) upper
        (show 0 < (4294967296 : UInt64).toNat by decide) with leaves | ⟨data, less, delivers⟩
    · rw [aesdRead_leaves rfl present leaves] at reply
      cases reply
    · rw [(aesdRead_of_delivers rfl present delivers (by omega)).1] at reply
      injection reply with _ same
      rw [same] at less
      omega
  · rintro ⟨found, upper⟩ count asked
    have below : slotPosition commands index offset < (liveOf commands).flatten.length := by
      rw [← slots_flatten_length]
      exact before_add_lt_sum found
    rw [liveFrom_eq inside] at left ⊢
    refine (aesdRead_of_delivers rfl present (unwrapped.cleanRead upper below
      (locate_of_lt_getD found) (Nat.le_of_lt inside) asked).delivers ?_).1
    rw [List.length_take]
    omega

/-- A seek works exactly when the offset is also inside the slot of the same number, and the
position is in the window. -/
theorem Sys.Follows.seeksTo_iff {sys : Sys} {chunks : List Bytes} {buffer : CircularBuffer}
    (follows : sys.Follows chunks buffer) (unwrapped : Unwrapped buffer (commandsOf chunks))
    {file : Nat} (opened : (sys.files file).privateData = true) {seekto : AesdSeekto}
    (inside : seekto.writeCmdOffset.toNat <
      (sizesOf (liveOf (commandsOf chunks))).getD seekto.writeCmd.toNat 0) :
    SeeksTo sys (commandsOf chunks) file seekto ↔
      seekto.writeCmdOffset.toNat <
          (sizesOf (slotsOf (commandsOf chunks))).getD seekto.writeCmd.toNat 0 ∧
        chargedChars (commandsOf chunks) + slotPosition (commandsOf chunks)
            seekto.writeCmd.toNat seekto.writeCmdOffset.toNat ≤
          (commandsOf chunks).flatten.length := by
  rw [← unwrapped.readsFrom_iff follows.present inside, SeeksTo,
    follows.seek unwrapped opened inside]
  simp only [true_and]
  apply forall_congr'
  intro count
  simp [Sys.step, Sys.setFile, slotPosition]

theorem boot_run_seeksTo_iff (calls : List Call) (nonempty : NonemptyWrites calls)
    (noWrap : NoWrap (commandsIn calls)) (file : Nat)
    (opened : ((Sys.boot.run calls).files file).privateData = true) (seekto : AesdSeekto)
    (inside : seekto.writeCmdOffset.toNat <
      (sizesOf (liveOf (commandsIn calls))).getD seekto.writeCmd.toNat 0) :
    SeeksTo (Sys.boot.run calls) (commandsIn calls) file seekto ↔
      seekto.writeCmdOffset.toNat <
          (sizesOf (slotsOf (commandsIn calls))).getD seekto.writeCmd.toNat 0 ∧
        chargedChars (commandsIn calls) + slotPosition (commandsIn calls)
            seekto.writeCmd.toNat seekto.writeCmdOffset.toNat ≤
          (commandsIn calls).flatten.length := by
  obtain ⟨buffer, follows, unwrapped⟩ := boot_run_unwrapped nonempty noWrap
  exact follows.seeksTo_iff unwrapped opened inside

theorem boot_run_seeksTo_iff_longLast :
    SeeksTo (Sys.boot.run longLastCalls) (commandsIn longLastCalls) 0 ⟨9, 2⟩ ↔
      2 < (sizesOf (slotsOf (commandsIn longLastCalls))).getD 9 0 ∧
        chargedChars (commandsIn longLastCalls) + slotPosition (commandsIn longLastCalls) 9 2 ≤
          (commandsIn longLastCalls).flatten.length :=
  boot_run_seeksTo_iff longLastCalls longLastCalls_nonempty ⟨by decide, by decide⟩ 0 (by decide)
    ⟨9, 2⟩ (by decide)

/-- A seek to byte 2 of the newest command, which is in slot 0: the sum over slots 0 to 8 puts
the position past the last byte, and the read fails. -/
theorem seeksTo_fails_longLast :
    ((Sys.boot.run (longLastCalls ++ [.ioctl 0 aesdcharIocseekto ⟨9, 2⟩])).step (.read 0 1)).1 =
        .ret (-1) [] ∧
      (liveFrom (commandsIn longLastCalls) 9 2).take 1 = [97] ∧
      ¬ SeeksTo (Sys.boot.run longLastCalls) (commandsIn longLastCalls) 0 ⟨9, 2⟩ := by
  have refused : ((Sys.boot.run (longLastCalls ++ [.ioctl 0 aesdcharIocseekto ⟨9, 2⟩])).step
      (.read 0 1)).1 = .ret (-1) [] := by
    decide +kernel
  have first : (liveFrom (commandsIn longLastCalls) 9 2).take 1 = [97] := by decide +kernel
  refine ⟨refused, first, fun seeks => ?_⟩
  have sought : ((Sys.boot.run longLastCalls).step (.ioctl 0 aesdcharIocseekto ⟨9, 2⟩)).2 =
      Sys.boot.run (longLastCalls ++ [.ioctl 0 aesdcharIocseekto ⟨9, 2⟩]) := by
    simp [Sys.run]
  have reply := seeks.2 1 (by decide)
  rw [sought, refused] at reply
  cases reply

end Aesd
