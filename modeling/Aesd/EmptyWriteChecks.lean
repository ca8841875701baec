import Aesd.Unwinding
import Aesd.WriteChecks

/-!
Writes of no bytes that are inserted into a run of the driver.
-/

namespace Aesd

open Unwinding

inductive Insertion where
  | kept (attempt : Attempt)
  | emptyWrite (file : Nat) (writes : WriteOutcomes)

def Insertion.attempt : Insertion → Attempt
  | .kept attempt => attempt
  | .emptyWrite file writes => { call := .write file [], writes }

def Insertion.isKept : Insertion → Bool
  | .kept _ => true
  | .emptyWrite _ _ => false

def Sys.perform (sys : Sys) (insertion : Insertion) : Reply × Sys := sys.attempt insertion.attempt

/-- The inserted calls touch nothing outside their chunk, and neither the state at the end nor
the reply to any other call shows that they were made. -/
structure NoOps (full : List Insertion) : Prop where
  inBounds : ∀ before file writes after, full = before ++ .emptyWrite file writes :: after →
    ∀ reason, ((finalState Sys.perform Sys.boot before).perform (.emptyWrite file writes)).1 ≠
      .fault reason
  state : finalState Sys.perform Sys.boot full =
    finalState Sys.perform Sys.boot (full.filter Insertion.isKept)
  replies : outputs Sys.perform Insertion.isKept Sys.boot full =
    outputs Sys.perform Insertion.isKept Sys.boot (full.filter Insertion.isKept)

theorem Sys.perform_emptyWrite (sys : Sys) (file : Nat) (writes : WriteOutcomes) :
    sys.perform (.emptyWrite file writes) =
      ((aesdWrite writes sys.dev (sys.files file) []).1, sys) := by
  have same := aesdWrite_nil_dev writes sys.dev (sys.files file)
  simp only [Sys.perform, Insertion.attempt, Sys.attempt, same]

theorem emptyWrites_unwind :
    Unwinds Sys.perform id Insertion.isKept (fun insertion => insertion.isKept = false) where
  hiddenKeepsView := by
    intro sys insertion hidden
    cases insertion with
    | kept attempt => cases hidden
    | emptyWrite file writes => exact congrArg Prod.snd (sys.perform_emptyWrite file writes)
  hiddenUnobserved := fun _ hidden => hidden
  viewStep := by
    rintro sys other insertion (rfl : sys = other) _
    rfl
  observedOutput := by
    rintro sys other insertion (rfl : sys = other) _
    rfl

theorem Sys.Reachable.finalState (performed : List Insertion) :
    ∀ {sys : Sys} {chunks : List Bytes}, sys.Reachable chunks →
      ∃ later, (Unwinding.finalState Sys.perform sys performed).Reachable later := by
  induction performed with
  | nil =>
      intro sys chunks reachable
      exact ⟨chunks, reachable⟩
  | cons insertion performed ih =>
      intro sys chunks reachable
      exact ih (reachable.attempt insertion.attempt)

/-- The chunk is only looked at once the block for its copy is there. -/
theorem aesdWrite_nil_fault_iff {dev : AesdDev} {buffer : CircularBuffer}
    (present : dev.buffer = some buffer) (writes : WriteOutcomes) (filp : File) :
    (∀ reason, (aesdWrite writes dev filp []).1 ≠ .fault reason) ↔
      filp.privateData = false ∨ writes.kmalloc = false := by
  have last : loadLast (.block []) ([] : Bytes).length = .error .outOfBounds := rfl
  by_cases closed : filp.privateData = false
  · simp [aesdWrite, closed]
  · by_cases failed : writes.kmalloc = false
    · simp [aesdWrite, closed, present, failed]
    · simp only [aesdWrite, if_neg closed, present, if_neg failed, last]
      simp [closed, failed]

theorem emptyWrites_noOps_iff (full : List Insertion) :
    NoOps full ↔
      ∀ before file writes after, full = before ++ .emptyWrite file writes :: after →
        ((finalState Sys.perform Sys.boot before).files file).privateData = false ∨
          writes.kmalloc = false := by
  have refused (before : List Insertion) (file : Nat) (writes : WriteOutcomes) :
      (∀ reason, ((finalState Sys.perform Sys.boot before).perform (.emptyWrite file writes)).1 ≠
          .fault reason) ↔
        ((finalState Sys.perform Sys.boot before).files file).privateData = false ∨
          writes.kmalloc = false := by
    obtain ⟨chunks, reachable⟩ := Sys.Reachable.boot.finalState before
    obtain ⟨buffer, follows⟩ := reachable.follows
    rw [Sys.perform_emptyWrite]
    exact aesdWrite_nil_fault_iff follows.present writes _
  constructor
  · intro noOps before file writes after inserted
    exact (refused before file writes).mp (noOps.inBounds before file writes after inserted)
  · intro condition
    obtain ⟨replies, state⟩ :=
      emptyWrites_unwind.thinned (thinned_filter (fun _ dropped => dropped) full)
        (show id Sys.boot = id Sys.boot from rfl)
    refine ⟨?_, state, replies⟩
    intro before file writes after inserted
    exact (refused before file writes).mpr (condition before file writes after inserted)

def pendingThenEmpty : List Insertion :=
  [.kept { call := .openFile 0 }, .kept { call := .write 0 [97] }, .emptyWrite 0 {}]

/-- `buf[count - 1]` of no bytes is the byte before them. -/
theorem noOps_fails_opened :
    ((finalState Sys.perform Sys.boot (pendingThenEmpty.take 2)).perform (.emptyWrite 0 {})).1 =
        .fault .outOfBounds ∧
      ¬ NoOps pendingThenEmpty := by
  have faulted : ((finalState Sys.perform Sys.boot (pendingThenEmpty.take 2)).perform
      (.emptyWrite 0 {})).1 = .fault .outOfBounds := by decide +kernel
  exact ⟨faulted, fun noOps => noOps.inBounds (pendingThenEmpty.take 2) 0 {} [] rfl _ faulted⟩

end Aesd
