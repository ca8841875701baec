import Mathlib.Tactic

/-! Machines that may split at a step, and the states in which all that came of one state are at
the end of a run. -/

namespace Branching

variable {State Action : Type*} {step : State → Action → List State} {state : State}

def leaves (step : State → Action → List State) : State → List Action → List State
  | state, [] => [state]
  | state, action :: actions => (step state action).flatMap fun next => leaves step next actions

theorem leaves_concat (actions : List Action) (action : Action) :
    leaves step state (actions ++ [action]) =
      (leaves step state actions).flatMap fun middle => step middle action := by
  induction actions generalizing state with
  | nil => simp [leaves]
  | cons first actions ih =>
      rw [List.cons_append, leaves, leaves, List.flatMap_assoc]
      exact List.flatMap_congr fun next _ => ih

theorem mem_leaves_concat {actions : List Action} {action : Action} {final : State} :
    final ∈ leaves step state (actions ++ [action]) ↔
      ∃ middle ∈ leaves step state actions, final ∈ step middle action := by
  rw [leaves_concat, List.mem_flatMap]

/-- What holds at the start and is kept by each step holds of every state at the end. -/
theorem kept_leaves (kept : List Action → State → Prop) (start : kept [] state)
    (keeps : ∀ actions action middle next, kept actions middle → next ∈ step middle action →
      kept (actions ++ [action]) next)
    (actions : List Action) : ∀ final ∈ leaves step state actions, kept actions final := by
  induction actions using List.reverseRecOn with
  | nil =>
      intro final member
      rw [List.mem_singleton.mp member]
      exact start
  | append_singleton actions action ih =>
      intro final member
      obtain ⟨middle, reached, last⟩ := mem_leaves_concat.mp member
      exact keeps actions action middle final (ih middle reached) last

theorem length_leaves_le {width : Action → Nat}
    (narrow : ∀ state action, (step state action).length ≤ width action) (actions : List Action) :
    (leaves step state actions).length ≤ (actions.map width).prod := by
  induction actions generalizing state with
  | nil => exact Nat.le_refl 1
  | cons action actions ih =>
      rw [leaves, List.map_cons, List.prod_cons, List.length_flatMap]
      have each : ∀ count ∈ (step state action).map fun next => (leaves step next actions).length,
          count ≤ (actions.map width).prod := by
        intro count member
        obtain ⟨next, -, rfl⟩ := List.mem_map.mp member
        exact ih
      have total := List.sum_le_card_nsmul _ _ each
      rw [List.length_map, smul_eq_mul] at total
      exact le_trans total (Nat.mul_le_mul_right _ (narrow state action))

/-- States at the end are told apart by their labels where a label says which state the last step
was taken from. -/
theorem nodup_leaves {Label : Type*} (label : State → Label) (origin : List Action → Label → Label)
    (distinct : ∀ state action, ((step state action).map label).Nodup) (actions : List Action)
    (back : ∀ earlier action middle next, middle ∈ leaves step state earlier →
      next ∈ step middle action → origin earlier (label next) = label middle) :
    ((leaves step state actions).map label).Nodup := by
  induction actions using List.reverseRecOn with
  | nil => exact List.nodup_singleton _
  | append_singleton actions action ih =>
      rw [leaves_concat, List.map_flatMap]
      refine List.nodup_flatMap.mpr ⟨fun middle _ => distinct middle action, ?_⟩
      have apart : (leaves step state actions).Pairwise fun first second =>
          label first ≠ label second := List.pairwise_map.mp ih
      refine apart.imp_of_mem fun first second differ => ?_
      rw [Function.onFun, List.disjoint_left]
      intro shared left right
      obtain ⟨next, fromFirst, rfl⟩ := List.mem_map.mp left
      obtain ⟨other, fromSecond, same⟩ := List.mem_map.mp right
      apply differ
      rw [← back actions action _ _ ‹_› fromFirst, ← same, back actions action _ _ ‹_› fromSecond]

end Branching
