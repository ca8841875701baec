import Aesd.DriverRuns

/-!
How the cut of a byte string into writes decides the commands. A command ends where a write
ends, if the last byte of that write is a newline.
-/

namespace Aesd

open Records Offsets

structure SameOutcome (first second : List Bytes) : Prop where
  live : liveOf (Sys.boot.stored (writesOf first)) = liveOf (Sys.boot.stored (writesOf second))
  pending : (Sys.boot.run (writesOf first)).dev.pending =
    (Sys.boot.run (writesOf second)).dev.pending
  readable : newline ∉ (Sys.boot.run (writesOf first)).dev.pending

/-- The start of the byte string and the ends of the chunks whose last byte is a newline. -/
def commandEnds (chunks : List Bytes) : List Nat := 0 :: endsFrom endsCommand 0 chunks

def lastEleven (positions : List Nat) : List Nat := positions.drop (positions.length - 11)

structure SameEnds (first second : List Bytes) : Prop where
  ends : lastEleven (commandEnds first) = lastEleven (commandEnds second)
  framed : newline ∉ first.flatten.drop ((commandEnds first).getLastD 0)

theorem stored_writesOf (chunks : List Bytes) :
    Sys.boot.stored (writesOf chunks) = commandsOf chunks := by
  have stored := Sys.boot_follows.stored_run (writesOf chunks)
  rw [List.nil_append, boot_chunks_writesOf] at stored
  exact stored

theorem pending_writesOf (chunks : List Bytes) :
    (Sys.boot.run (writesOf chunks)).dev.pending = pendingOf chunks := by
  obtain ⟨buffer, follows⟩ := boot_run_follows (writesOf chunks)
  have holds := follows.history.tmpEntry
  rw [boot_chunks_writesOf] at holds
  exact holds.bytes_eq

theorem lastEleven_commandEnds (chunks : List Bytes) :
    lastEleven (commandEnds chunks) =
      (sizesOf (liveOf (commandsOf chunks))).scanl (· + ·) (evictedChars (commandsOf chunks)) := by
  have ends : commandEnds chunks = (sizesOf (commandsOf chunks)).scanl (· + ·) 0 :=
    ends_eq_scanl endsCommand chunks
  have count : (sizesOf (commandsOf chunks)).length + 1 - 11 = (commandsOf chunks).length - 10 := by
    rw [sizesOf_length]
    omega
  have start : before (sizesOf (commandsOf chunks)) ((commandsOf chunks).length - 10) =
      evictedChars (commandsOf chunks) := by
    rw [evictedChars, List.length_flatten, List.map_take]
    rfl
  rw [lastEleven, ends, List.length_scanl, count, drop_scanl_add _ _ _ (by simp), start,
    Nat.zero_add, liveOf, sizesOf, sizesOf, List.map_drop]

theorem drop_lastEnd (chunks : List Bytes) :
    chunks.flatten.drop ((commandEnds chunks).getLastD 0) = pendingOf chunks := by
  have ends : commandEnds chunks = (sizesOf (commandsOf chunks)).scanl (· + ·) 0 :=
    ends_eq_scanl endsCommand chunks
  have last : (commandEnds chunks).getLastD 0 = (commandsOf chunks).flatten.length := by
    rw [ends, List.getLastD_eq_getLast?, List.getLast?_scanl, Option.getD_some,
      ← List.sum_eq_foldl_nat, sizesOf_sum]
  have whole : (commandsOf chunks).flatten ++ pendingOf chunks = chunks.flatten :=
    collect_flatten endsCommand chunks
  rw [last, ← whole, List.drop_left]

theorem writesOf_sameOutcome_iff (first second : List Bytes)
    (same : first.flatten = second.flatten) :
    SameOutcome first second ↔ SameEnds first second := by
  have split (chunks : List Bytes) :
      ((commandsOf chunks).take ((commandsOf chunks).length - 10)).flatten ++
        (liveOf (commandsOf chunks)).flatten ++ pendingOf chunks = chunks.flatten := by
    rw [liveOf, ← List.flatten_append, List.take_append_drop]
    exact collect_flatten endsCommand chunks
  have outcome : liveOf (commandsOf first) = liveOf (commandsOf second) ∧
      pendingOf first = pendingOf second ↔
        lastEleven (commandEnds first) = lastEleven (commandEnds second) := by
    rw [lastEleven_commandEnds, lastEleven_commandEnds, scanl_add_inj]
    exact pieces_eq_iff ((split first).trans (same.trans (split second).symm))
  constructor
  · rintro ⟨live, pending, readable⟩
    rw [stored_writesOf, stored_writesOf] at live
    rw [pending_writesOf, pending_writesOf] at pending
    rw [pending_writesOf] at readable
    exact ⟨outcome.mp ⟨live, pending⟩, by rwa [drop_lastEnd]⟩
  · rintro ⟨ends, framed⟩
    obtain ⟨live, pending⟩ := outcome.mpr ends
    rw [drop_lastEnd] at framed
    constructor
    · rwa [stored_writesOf, stored_writesOf]
    · rwa [pending_writesOf, pending_writesOf]
    · rwa [pending_writesOf]

theorem writesOf_sameOutcome_iff_halves :
    SameOutcome [[97], [98, 10], [99]] [[97, 98, 10], [99]] ↔
      SameEnds [[97], [98, 10], [99]] [[97, 98, 10], [99]] :=
  writesOf_sameOutcome_iff _ _ rfl

/-- `a`, newline, `b` in one write leaves all three bytes pending; cut after the newline, it
leaves a command and `b`. -/
theorem sameOutcome_fails_inside :
    Sys.boot.stored (writesOf [[97, 10, 98]]) = [] ∧
      (Sys.boot.run (writesOf [[97, 10, 98]])).dev.pending = [97, 10, 98] ∧
      Sys.boot.stored (writesOf [[97, 10], [98]]) = [[97, 10]] ∧
      (Sys.boot.run (writesOf [[97, 10], [98]])).dev.pending = [98] ∧
      ¬ SameOutcome [[97, 10, 98]] [[97, 10], [98]] := by
  have whole : Sys.boot.stored (writesOf [[97, 10, 98]]) = [] := by decide +kernel
  have pending : (Sys.boot.run (writesOf [[97, 10, 98]])).dev.pending = [97, 10, 98] := by
    decide +kernel
  refine ⟨whole, pending, by decide +kernel, by decide +kernel, fun outcome => ?_⟩
  have readable := outcome.readable
  rw [pending] at readable
  exact readable (by decide)

/-! Pending bytes along a run. -/

/-- No newline is ever pending exactly when no chunk holds one without ending in one. A chunk that
ends in a newline takes those before it into its command. -/
theorem writesOf_pendingFramed_iff (chunks : List Bytes) :
    (∀ earlier, earlier <+: chunks →
        newline ∉ (Sys.boot.run (writesOf earlier)).dev.pending) ↔
      ∀ chunk ∈ chunks, newline ∈ chunk → endsCommand chunk = true := by
  simp only [pending_writesOf]
  induction chunks using List.reverseRecOn with
  | nil =>
      constructor
      · intro _ chunk member
        cases member
      · intro _ earlier part
        rw [List.prefix_nil.mp part]
        decide
  | append_singleton chunks chunk ih =>
      simp only [List.prefix_concat_iff, List.mem_append, List.mem_singleton]
      constructor
      · intro framed other member held
        rcases member with early | rfl
        · exact ih.mp (fun earlier part => framed earlier (Or.inr part)) other early held
        · have last := framed _ (Or.inl rfl)
          rw [pendingOf_concat] at last
          by_contra unended
          rw [if_neg unended] at last
          exact last (List.mem_append_right _ held)
      · rintro ended earlier (rfl | part)
        · have before := ih.mpr (fun other member => ended other (Or.inl member)) chunks
            List.prefix_rfl
          rw [pendingOf_concat]
          split
          · exact List.not_mem_nil
          next unended =>
            rw [List.mem_append, not_or]
            exact ⟨before, fun held => unended (ended chunk (Or.inr rfl) held)⟩
        · exact ih.mpr (fun other member => ended other (Or.inl member)) earlier part

end Aesd
