import Mathlib.Tactic

/-! Machines that take a step only where it is enabled. What every step keeps holds after every
run, and a rank that every step lowers counts the steps of a run and brings each to its end. -/

namespace Interleaving

variable {State Action : Type*} {step : State → Action → Option State}

def runFrom (step : State → Action → Option State) (state : State) (actions : List Action) :
    Option State :=
  actions.foldlM step state

theorem runFrom_cons {state final : State} {action : Action} {actions : List Action}
    (ran : runFrom step state (action :: actions) = some final) :
    ∃ next, step state action = some next ∧ runFrom step next actions = some final := by
  rw [runFrom, List.foldlM_cons] at ran
  exact Option.bind_eq_some_iff.mp ran

theorem kept_runFrom (kept : State → Prop)
    (keeps : ∀ state action next, kept state → step state action = some next → kept next)
    (actions : List Action) :
    ∀ {state final}, kept state → runFrom step state actions = some final → kept final := by
  induction actions with
  | nil =>
      intro state final start ran
      cases ran
      exact start
  | cons action actions ih =>
      intro state final start ran
      obtain ⟨next, stepped, rest⟩ := runFrom_cons ran
      exact ih (keeps state action next start stepped) rest

theorem rank_runFrom {rank : State → Nat}
    (lowers : ∀ state action next, step state action = some next →
      rank next + 1 = rank state)
    (actions : List Action) :
    ∀ {state final}, runFrom step state actions = some final →
      rank final + actions.length = rank state := by
  induction actions with
  | nil =>
      intro state final ran
      cases ran
      rfl
  | cons action actions ih =>
      intro state final ran
      obtain ⟨next, stepped, rest⟩ := runFrom_cons ran
      have here := lowers state action next stepped
      have later := ih rest
      rw [List.length_cons]
      omega

/-- Every way to go on comes to an end. -/
theorem exists_stuck {rank : State → Nat}
    (lowers : ∀ state action next, step state action = some next →
      rank next + 1 = rank state)
    (state : State) :
    ∃ actions final, runFrom step state actions = some final ∧
      ∀ action, step final action = none := by
  generalize measured : rank state = count
  induction count using Nat.strongRecOn generalizing state with
  | ind count ih =>
      by_cases stuck : ∀ action, step state action = none
      · exact ⟨[], state, rfl, stuck⟩
      · obtain ⟨action, enabled⟩ := not_forall.mp stuck
        obtain ⟨next, stepped⟩ := Option.ne_none_iff_exists'.mp enabled
        have lower := lowers state action next stepped
        obtain ⟨actions, final, ran, ended⟩ := ih (rank next) (by omega) next rfl
        refine ⟨action :: actions, final, ?_, ended⟩
        rw [runFrom, List.foldlM_cons, stepped]
        exact ran

end Interleaving
