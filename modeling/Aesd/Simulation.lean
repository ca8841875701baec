import Mathlib.Tactic

/-! Two machines over the same actions. When related states answer an allowed action alike and
stay related, the two machines answer every allowed run alike. -/

namespace Simulation

variable {State Other Action Output : Type*}

def replies (step : State → Action → Output × State) : State → List Action → List Output
  | _, [] => []
  | state, action :: actions => (step state action).1 :: replies step (step state action).2 actions

def after (step : State → Action → Output × State) (state : State) (actions : List Action) : State :=
  actions.foldl (fun state action => (step state action).2) state

theorem replies_append (step : State → Action → Output × State) (state : State)
    (first second : List Action) :
    replies step state (first ++ second) =
      replies step state first ++ replies step (after step state first) second := by
  induction first generalizing state with
  | nil => rfl
  | cons action actions ih => exact congrArg _ (ih (step state action).2)

@[simp] theorem length_replies (step : State → Action → Output × State) (state : State)
    (actions : List Action) : (replies step state actions).length = actions.length := by
  induction actions generalizing state with
  | nil => rfl
  | cons action actions ih => exact congrArg (· + 1) (ih (step state action).2)

theorem after_append (step : State → Action → Output × State) (state : State)
    (first second : List Action) :
    after step state (first ++ second) = after step (after step state first) second :=
  List.foldl_append

/-- Every action of the run is allowed in the state it is taken in. -/
def Allowed (step : State → Action → Output × State) (allowed : State → Action → Prop)
    (state : State) (actions : List Action) : Prop :=
  ∀ earlier action, earlier ++ [action] <+: actions → allowed (after step state earlier) action

theorem Allowed.cons {step : State → Action → Output × State} {allowed : State → Action → Prop}
    {state : State} {action : Action} {actions : List Action}
    (run : Allowed step allowed state (action :: actions)) :
    allowed state action ∧ Allowed step allowed (step state action).2 actions := by
  constructor
  · exact run [] action (by simp)
  · intro earlier next prefixed
    exact run (action :: earlier) next (by simpa using prefixed)

/-- What has to be shown of each action for one machine to answer like the other. -/
structure Simulates (step : State → Action → Output × State)
    (other : Other → Action → Output × Other) (related : State → Other → Prop)
    (allowed : Other → Action → Prop) : Prop where
  reply : ∀ state abstract action, related state abstract → allowed abstract action →
    (step state action).1 = (other abstract action).1
  next : ∀ state abstract action, related state abstract → allowed abstract action →
    related (step state action).2 (other abstract action).2

variable {step : State → Action → Output × State} {other : Other → Action → Output × Other}
  {related : State → Other → Prop} {allowed : Other → Action → Prop}

theorem Simulates.run (simulates : Simulates step other related allowed) (actions : List Action) :
    ∀ {state abstract}, related state abstract → Allowed other allowed abstract actions →
      replies step state actions = replies other abstract actions ∧
        related (after step state actions) (after other abstract actions) := by
  induction actions with
  | nil =>
      intro state abstract start _
      exact ⟨rfl, start⟩
  | cons action actions ih =>
      intro state abstract start run
      obtain ⟨here, later⟩ := run.cons
      have reply := simulates.reply state abstract action start here
      obtain ⟨rest, final⟩ := ih (simulates.next state abstract action start here) later
      refine ⟨?_, final⟩
      rw [replies, replies, reply, rest]

end Simulation
