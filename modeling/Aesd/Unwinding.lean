import Mathlib.Tactic

/-! Deleting actions from a run. When hidden actions leave the view of the state alone and
every other action acts on views, the observed outputs and the final view do not depend on
which hidden actions a run contains. -/

namespace Unwinding

variable {State Action Output View : Type*} (step : State → Action → Output × State)

def finalState : State → List Action → State
  | state, [] => state
  | state, action :: actions => finalState (step state action).2 actions

def outputs (observed : Action → Bool) : State → List Action → List Output
  | _, [] => []
  | state, action :: actions =>
      let tail := outputs observed (step state action).2 actions
      if observed action then (step state action).1 :: tail else tail

/-- `Thinned hidden full kept`: `kept` is `full` with some hidden actions deleted. -/
inductive Thinned (hidden : Action → Prop) : List Action → List Action → Prop
  | nil : Thinned hidden [] []
  | keep (action : Action) {full kept : List Action} :
      Thinned hidden full kept → Thinned hidden (action :: full) (action :: kept)
  | delete {action : Action} {full kept : List Action} :
      hidden action → Thinned hidden full kept → Thinned hidden (action :: full) kept

theorem thinned_filter {hidden : Action → Prop} {kept : Action → Bool}
    (dropped : ∀ action, kept action = false → hidden action) (actions : List Action) :
    Thinned hidden actions (actions.filter kept) := by
  induction actions with
  | nil => exact .nil
  | cons action actions ih =>
      by_cases stays : kept action = true
      · rw [List.filter_cons_of_pos stays]
        exact .keep action ih
      · rw [List.filter_cons_of_neg stays]
        exact .delete (dropped action (by simpa using stays)) ih

/-- What has to be shown of each action for a view to be unaffected by hidden actions. -/
structure Unwinds (view : State → View) (observed : Action → Bool) (hidden : Action → Prop) :
    Prop where
  hiddenKeepsView : ∀ state action, hidden action → view (step state action).2 = view state
  hiddenUnobserved : ∀ action, hidden action → observed action = false
  viewStep : ∀ state other action, view state = view other → ¬ hidden action →
    view (step state action).2 = view (step other action).2
  observedOutput : ∀ state other action, view state = view other → observed action = true →
    (step state action).1 = (step other action).1

variable {step} {view : State → View} {observed : Action → Bool} {hidden : Action → Prop}

theorem Unwinds.step_view (unwinds : Unwinds step view observed hidden) {state other : State}
    (same : view state = view other) (action : Action) :
    view (step state action).2 = view (step other action).2 := by
  by_cases concealed : hidden action
  · rw [unwinds.hiddenKeepsView state action concealed,
      unwinds.hiddenKeepsView other action concealed, same]
  · exact unwinds.viewStep state other action same concealed

theorem Unwinds.thinned (unwinds : Unwinds step view observed hidden) {full kept : List Action}
    (thin : Thinned hidden full kept) : ∀ {state other : State}, view state = view other →
      outputs step observed state full = outputs step observed other kept ∧
        view (finalState step state full) = view (finalState step other kept) := by
  induction thin with
  | nil =>
      intro state other same
      exact ⟨rfl, same⟩
  | keep action _ ih =>
      intro state other same
      obtain ⟨tail, final⟩ := ih (unwinds.step_view same action)
      refine ⟨?_, final⟩
      simp only [outputs, tail]
      split
      next seen => rw [unwinds.observedOutput state other action same seen]
      next => rfl
  | @delete action _ _ concealed _ ih =>
      intro state other same
      have skipped : view (step state action).2 = view other :=
        (unwinds.hiddenKeepsView state action concealed).trans same
      obtain ⟨tail, final⟩ := ih skipped
      exact ⟨by simpa [outputs, unwinds.hiddenUnobserved action concealed] using tail, final⟩

end Unwinding
