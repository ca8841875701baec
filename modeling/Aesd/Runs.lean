import Mathlib.Data.List.DropRight
import Mathlib.Tactic

/-! Runs of list elements that satisfy a test, with what follows or precedes them. -/

namespace Runs

variable {α : Type*} {test : α → Bool}

/-- No element that satisfies the test comes next. -/
def Stops (test : α → Bool) (rest : List α) : Prop := ∀ next ∈ rest.head?, test next = false

theorem stops_nil : Stops test [] := by
  rintro next ⟨⟩

theorem stops_cons {next : α} (fails : test next = false) (rest : List α) :
    Stops test (next :: rest) := by
  rintro other member
  obtain rfl : next = other := by simpa using member
  exact fails

theorem stops_dropWhile (input : List α) : Stops test (input.dropWhile test) := by
  induction input with
  | nil => exact stops_nil
  | cons first input ih =>
      rw [List.dropWhile_cons]
      split
      · exact ih
      next fails => exact stops_cons (by simpa using fails) input

theorem takeWhile_run {run rest : List α} (inside : ∀ element ∈ run, test element = true)
    (stops : Stops test rest) : (run ++ rest).takeWhile test = run := by
  rw [List.takeWhile_append_of_pos inside]
  cases rest with
  | nil => simp
  | cons next rest => rw [List.takeWhile_cons, stops next rfl]; simp

theorem dropWhile_run {run rest : List α} (inside : ∀ element ∈ run, test element = true)
    (stops : Stops test rest) : (run ++ rest).dropWhile test = rest := by
  rw [List.dropWhile_append_of_pos inside]
  cases rest with
  | nil => rfl
  | cons next rest => rw [List.dropWhile_cons, stops next rfl]; simp

/-- A run at the end is dropped when the element before it fails the test. -/
theorem rdropWhile_run {body run : List α} (inside : ∀ element ∈ run, test element = true)
    (stops : ∀ last ∈ body.getLast?, test last = false) :
    (body ++ run).rdropWhile test = body := by
  induction run using List.reverseRecOn with
  | nil =>
      rw [List.append_nil, List.rdropWhile_eq_self_iff]
      intro nonempty holds
      rw [stops _ (List.getLast?_eq_some_getLast nonempty)] at holds
      cases holds
  | append_singleton run last ih =>
      rw [← List.append_assoc, List.rdropWhile_concat_pos _ _ _ (inside last (by simp))]
      exact ih fun element member => inside element (List.mem_append_left _ member)

end Runs
