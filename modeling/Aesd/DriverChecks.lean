import Aesd.DriverRuns
import Aesd.ReadChecks

/-!
What the file operations give their callers: reads that stay inside an entry, a fresh reader
that sees all live bytes, and a seek to a byte of a live command.
-/

namespace Aesd

open MachineInt Records Offsets

/-! Reads that stay inside. -/

theorem Unwrapped.staysInside_iff {buffer : CircularBuffer} {commands : List Bytes}
    (unwrapped : Unwrapped buffer commands) (fPos : Int) {count : UInt64}
    (asked : 0 < count.toNat) :
    StaysInside buffer count fPos ↔
      ∀ age offset, offset < (sizesOf (slotsOf commands)).getD age 0 →
        fPos = (chargedChars commands + before (sizesOf (slotsOf commands)) age + offset : Nat) →
        fPos ≤ commands.flatten.length → offset ≤ (sizesOf (liveOf commands)).getD age 0 := by
  by_cases outside : fPos < chargedChars commands ∨ (commands.flatten.length : Int) < fPos
  · refine iff_of_true ⟨_, unwrapped.outside outside _ _, rfl, rfl⟩ ?_
    intro age offset _ here upper
    omega
  obtain ⟨position, rfl⟩ : ∃ position : Nat, fPos = (chargedChars commands + position : Nat) :=
    ⟨(fPos - chargedChars commands).toNat, by omega⟩
  have upper : chargedChars commands + position ≤ commands.flatten.length := by omega
  have live := slots_flatten_length commands
  by_cases inside : position < (liveOf commands).flatten.length
  · obtain ⟨age, offset, found, rfl⟩ :=
      exists_locate (show position < (sizesOf (slotsOf commands)).sum by omega)
    have located := locate_of_lt_getD found
    by_cases fits : offset ≤ (sizesOf (liveOf commands)).getD age 0
    · refine iff_of_true (unwrapped.cleanRead upper inside located fits asked).staysInside ?_
      intro otherAge otherOffset other here _
      have same := locate_of_lt_getD other
      rw [show before (sizesOf (slotsOf commands)) otherAge + otherOffset =
        before (sizesOf (slotsOf commands)) age + offset by omega, located] at same
      cases same
      exact fits
    · have leaves := unwrapped.not_inBounds upper inside located (by omega) count
      refine iff_of_false (fun stays => leaves stays.inBounds) ?_
      intro all
      exact fits (all age offset found (by omega) (by omega))
  · have past : (liveOf commands).flatten.length ≤ position := Nat.le_of_not_lt inside
    refine iff_of_true (unwrapped.cleanRead_nil upper past count).staysInside ?_
    intro age offset found here _
    have below := before_add_lt_sum found
    omega

theorem boot_run_staysInside_iff (calls : List Call) (nonempty : NonemptyWrites calls)
    (noWrap : NoWrap (commandsIn calls)) (fPos : Int) (count : UInt64)
    (asked : 0 < count.toNat) :
    ∃ buffer, (Sys.boot.run calls).dev.buffer = some buffer ∧
      (StaysInside buffer count fPos ↔
        ∀ age offset, offset < (sizesOf (slotsOf (commandsIn calls))).getD age 0 →
          fPos = (chargedChars (commandsIn calls) +
            before (sizesOf (slotsOf (commandsIn calls))) age + offset : Nat) →
          fPos ≤ (commandsIn calls).flatten.length →
          offset ≤ (sizesOf (liveOf (commandsIn calls))).getD age 0) := by
  obtain ⟨buffer, follows, unwrapped⟩ := boot_run_unwrapped nonempty noWrap
  exact ⟨buffer, follows.present, unwrapped.staysInside_iff fPos asked⟩

/-- One file; ten commands of one byte, then one of five bytes over the first of them. -/
def longLastCalls : List Call :=
  .openFile 0 :: List.replicate 10 (.write 0 [10]) ++ [.write 0 [97, 97, 97, 97, 10]]

theorem longLastCalls_nonempty : NonemptyWrites longLastCalls := by
  intro file member
  simp [longLastCalls] at member

theorem boot_run_staysInside_iff_longLast :
    ∃ buffer, (Sys.boot.run longLastCalls).dev.buffer = some buffer ∧
      (StaysInside buffer 1 4 ↔
        ∀ age offset, offset < (sizesOf (slotsOf (commandsIn longLastCalls))).getD age 0 →
          (4 : Int) = (chargedChars (commandsIn longLastCalls) +
            before (sizesOf (slotsOf (commandsIn longLastCalls))) age + offset : Nat) →
          (4 : Int) ≤ (commandsIn longLastCalls).flatten.length →
          offset ≤ (sizesOf (liveOf (commandsIn longLastCalls))).getD age 0) :=
  boot_run_staysInside_iff longLastCalls longLastCalls_nonempty ⟨by decide, by decide⟩ 4 1
    (by decide)

/-- Position 4 is byte 3 of slot 0, and the copy takes byte 3 of a one-byte entry. -/
theorem staysInside_fails_longLast :
    ∃ buffer, (Sys.boot.run longLastCalls).dev.buffer = some buffer ∧
      (aesdCircularBufferRaed buffer [0] 1 4).map Raed.accesses =
        some [.slot 0, .strlen 0, .slot 1, .memcpy 1 3 (-2) 1 0] ∧
      buffer.entry[1]? = some ⟨.block [10], 1⟩ ∧
      ¬ StaysInside buffer 1 4 := by
  have evaluated : (Sys.boot.run longLastCalls).dev.buffer.map (fun buffer =>
      ((aesdCircularBufferRaed buffer [0] 1 4).map Raed.accesses, buffer.entry[1]?)) =
        some (some [.slot 0, .strlen 0, .slot 1, .memcpy 1 3 (-2) 1 0],
          some ⟨.block [10], 1⟩) := by
    decide +kernel
  obtain ⟨buffer, present, seen⟩ := Option.map_eq_some_iff.mp evaluated
  obtain ⟨accesses, entry⟩ := Prod.mk.inj seen
  refine ⟨buffer, present, accesses, entry, ?_⟩
  rintro ⟨read, called, inBounds, remains⟩
  have zeroed : List.replicate (1 : UInt64).toNat (0 : UInt8) = [0] := rfl
  rw [zeroed] at called
  rw [called, Option.map_some, Option.some.injEq] at accesses
  rw [accesses] at remains
  simp [Access.remains] at remains

/-! A fresh reader. -/

/-- The bytes that reads of a file with the given counts receive, up to the first call that
returns no bytes, and the value of that call. There is no result when a call faults or when
`fuel` calls do not get there. -/
def Sys.drain (sys : Sys) (file : Nat) (counts : Nat → UInt64) : Nat → Option (Bytes × Int)
  | 0 => none
  | fuel + 1 =>
      match sys.step (.read file (counts 0)) with
      | (.fault _, _) => none
      | (.ret value bytes, next) =>
          if value ≤ 0 then some ([], value)
          else
            (next.drain file (fun call => counts (call + 1)) fuel).map fun (rest, last) =>
              (bytes ++ rest, last)

/-- A file that is opened now and read to the end receives the live commands and then 0. -/
def FreshReaderSeesAll (sys : Sys) (commands : List Bytes) : Prop :=
  ∀ file (counts : Nat → UInt64), (∀ call, 0 < (counts call).toNat) →
    ∃ fuel, (sys.step (.openFile file)).2.drain file counts fuel =
      some ((liveOf commands).flatten, 0)

theorem Sys.drain_aligned {chunks : List Bytes} {file : Nat}
    (nonempty : ∀ chunk ∈ chunks, chunk ≠ []) (noWrap : NoWrap (commandsOf chunks))
    (aligned : sizesOf (slotsOf (commandsOf chunks)) = sizesOf (liveOf (commandsOf chunks)))
    (window : chargedChars (commandsOf chunks) + (liveOf (commandsOf chunks)).flatten.length ≤
      (commandsOf chunks).flatten.length) :
    ∀ (fuel position : Nat) (counts : Nat → UInt64) (sys : Sys) (buffer : CircularBuffer),
      sys.Follows chunks buffer → (∀ call, 0 < (counts call).toNat) →
      sys.files file = ⟨true, (chargedChars (commandsOf chunks) + position : Nat)⟩ →
      position ≤ (liveOf (commandsOf chunks)).flatten.length →
      (liveOf (commandsOf chunks)).flatten.length < position + fuel →
      sys.drain file counts fuel =
        some ((liveOf (commandsOf chunks)).flatten.drop position, 0) := by
  intro fuel
  induction fuel with
  | zero => intro _ _ _ _ _ _ _ inside enough; omega
  | succ fuel ih =>
      intro position counts sys buffer follows asked here inside enough
      have unwrapped := follows.unwrapped nonempty noWrap
      have delivers := unwrapped.delivers_aligned aligned
        (by omega : chargedChars (commandsOf chunks) + position ≤ _) (asked 0)
      have whole := liveChars_le (commandsOf chunks)
      have chars := noWrap.chars
      have size : (((liveOf (commandsOf chunks)).flatten.drop position).take
          (counts 0).toNat).length =
            min (counts 0).toNat ((liveOf (commandsOf chunks)).flatten.length - position) := by
        rw [List.length_take, List.length_drop]
      have whole := take_append_drop_length
        ((liveOf (commandsOf chunks)).flatten.drop position) (counts 0).toNat
      rw [List.drop_drop] at whole
      generalize ((liveOf (commandsOf chunks)).flatten.drop position).take (counts 0).toNat = data
        at delivers size whole
      have positive := asked 0
      have fPos : (sys.files file).fPos =
          (chargedChars (commandsOf chunks) + position : Nat) := by rw [here]
      rw [← fPos] at delivers
      obtain ⟨next, after, stepped, followed, moved⟩ :=
        follows.read_of_delivers (by rw [here]) delivers (by omega)
      rw [Sys.drain, stepped]
      dsimp only
      by_cases ended : (liveOf (commandsOf chunks)).flatten.length ≤ position
      · have nothing : data = [] := List.length_eq_zero_iff.mp (by omega)
        rw [if_pos (by simp [nothing]), List.drop_eq_nil_of_le ended, nothing]
        rfl
      · have there : next.files file =
            ⟨true, (chargedChars (commandsOf chunks) + (position + data.length) : Nat)⟩ := by
          rw [moved, fPos, ← Nat.add_assoc]
          rfl
        have rest := ih (position + data.length) (fun call => counts (call + 1)) next after followed
          (fun call => asked (call + 1)) there (by omega) (by omega)
        rw [if_neg (by omega), rest, Option.map_some, whole]

theorem slotsOf_eq_liveOf {commands : List Bytes} (few : commands.length ≤ 10) :
    slotsOf commands = liveOf commands := by
  rw [liveOf_eq_rotate, Nat.sub_eq_zero_of_le few, Nat.zero_mod, List.rotate_zero]

theorem chargedChars_of_few {commands : List Bytes} (few : commands.length ≤ 10) :
    chargedChars commands = 0 := by
  rw [chargedChars, Nat.sub_eq_zero_of_le few]
  rfl

theorem chargedChars_pos {commands : List Bytes} (count : commands.length < 2 ^ 31)
    (nonempty : ∀ command ∈ commands, command ≠ []) (many : 10 < commands.length) :
    0 < chargedChars commands := by
  rw [chargedChars_eq (by omega)]
  cases commands with
  | nil => simp at many
  | cons first later =>
      cases later with
      | nil => simp at many
      | cons second later =>
          have size := List.length_pos_iff.mpr (nonempty second (by simp))
          have evicted : (first :: second :: later).length - 10 =
              (first :: second :: later).length - 11 + 1 := by omega
          rw [evicted, List.tail_cons, List.take_succ_cons, List.flatten_cons, List.length_append]
          omega

theorem Sys.Follows.freshReader_iff {sys : Sys} {chunks : List Bytes} {buffer : CircularBuffer}
    (follows : sys.Follows chunks buffer) (nonempty : ∀ chunk ∈ chunks, chunk ≠ [])
    (noWrap : NoWrap (commandsOf chunks)) :
    FreshReaderSeesAll sys (commandsOf chunks) ↔ (commandsOf chunks).length ≤ 10 := by
  have opened (file : Nat) : ∃ after, (sys.step (.openFile file)).2.Follows chunks after ∧
      (sys.step (.openFile file)).2.files file = ⟨true, 0⟩ := by
    obtain ⟨after, stepped⟩ := follows.step (.openFile file)
    refine ⟨after, by simpa [Call.chunk] using stepped, ?_⟩
    simp [Sys.step, Sys.setFile, aesdOpen]
  constructor
  · intro sees
    by_contra many
    obtain ⟨fuel, drained⟩ := sees 0 (fun _ => 1) (fun _ => by decide)
    obtain ⟨after, stepped, there⟩ := opened 0
    have unwrapped := stepped.unwrapped nonempty noWrap
    have positive := chargedChars_pos unwrapped.count unwrapped.nonempty (by omega)
    have outside : ¬ InWindow after ((sys.step (.openFile 0)).2.files 0).fPos := by
      rw [unwrapped.inWindow_iff, there]
      dsimp only
      omega
    have refused : ((sys.step (.openFile 0)).2.step (.read 0 1)).1 = .ret (-1) [] :=
      aesdRead_outside (by rw [there]) stepped.present outside
    cases fuel with
    | zero => cases drained
    | succ fuel =>
        have step : (sys.step (.openFile 0)).2.step (.read 0 1) =
            (.ret (-1) [], ((sys.step (.openFile 0)).2.step (.read 0 1)).2) := by rw [← refused]
        rw [Sys.drain, step] at drained
        simp at drained
  · intro few file counts asked
    obtain ⟨after, stepped, there⟩ := opened file
    have start := chargedChars_of_few few
    have aligned : sizesOf (slotsOf (commandsOf chunks)) = sizesOf (liveOf (commandsOf chunks)) := by
      rw [slotsOf_eq_liveOf few]
    have live := liveChars_le (commandsOf chunks)
    refine ⟨_, Sys.drain_aligned nonempty noWrap aligned (by omega)
      ((liveOf (commandsOf chunks)).flatten.length + 1) 0 counts _ after stepped asked ?_
      (Nat.zero_le _) (by omega)⟩
    rw [there, start]
    rfl

theorem boot_run_freshReader_iff (calls : List Call) (nonempty : NonemptyWrites calls)
    (noWrap : NoWrap (commandsIn calls)) :
    FreshReaderSeesAll (Sys.boot.run calls) (commandsIn calls) ↔ (commandsIn calls).length ≤ 10 := by
  obtain ⟨buffer, follows⟩ := boot_run_follows calls
  exact follows.freshReader_iff (Sys.chunks_nonempty nonempty _) noWrap

theorem boot_run_freshReader_iff_longLast :
    FreshReaderSeesAll (Sys.boot.run longLastCalls) (commandsIn longLastCalls) ↔
      (commandsIn longLastCalls).length ≤ 10 :=
  boot_run_freshReader_iff longLastCalls longLastCalls_nonempty ⟨by decide, by decide⟩

theorem freshReader_fails_longLast :
    ((Sys.boot.run (longLastCalls ++ [.openFile 1])).step (.read 1 1)).1 = .ret (-1) [] ∧
      ¬ FreshReaderSeesAll (Sys.boot.run longLastCalls) (commandsIn longLastCalls) := by
  have refused : ((Sys.boot.run (longLastCalls ++ [.openFile 1])).step (.read 1 1)).1 =
      .ret (-1) [] := by
    decide +kernel
  refine ⟨refused, fun sees => ?_⟩
  obtain ⟨fuel, drained⟩ := sees 1 (fun _ => 1) (fun _ => by decide)
  have opened : ((Sys.boot.run longLastCalls).step (.openFile 1)).2 =
      Sys.boot.run (longLastCalls ++ [.openFile 1]) := by
    simp [Sys.run]
  rw [opened] at drained
  cases fuel with
  | zero => cases drained
  | succ fuel =>
      have step : (Sys.boot.run (longLastCalls ++ [.openFile 1])).step (.read 1 1) =
          (.ret (-1) [], ((Sys.boot.run (longLastCalls ++ [.openFile 1])).step (.read 1 1)).2) := by
        rw [← refused]
      rw [Sys.drain, step] at drained
      simp at drained

end Aesd
