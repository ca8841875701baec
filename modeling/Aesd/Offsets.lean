import Mathlib.Data.List.GetD
import Mathlib.Tactic

/-! Positions in a concatenation. `locate sizes position` is the piece that `position`
falls in and the offset inside it, or the number of pieces when it is past the end. -/

namespace Offsets

def locate : List Nat → Nat → Nat × Nat
  | [], position => (0, position)
  | size :: sizes, position =>
      if position < size then (0, position)
      else ((locate sizes (position - size)).1 + 1, (locate sizes (position - size)).2)

def before (sizes : List Nat) (count : Nat) : Nat := (sizes.take count).sum

@[simp] theorem before_zero (sizes : List Nat) : before sizes 0 = 0 := rfl

@[simp] theorem before_cons_succ (size : Nat) (sizes : List Nat) (count : Nat) :
    before (size :: sizes) (count + 1) = size + before sizes count := rfl

theorem before_length (sizes : List Nat) : before sizes sizes.length = sizes.sum := by
  rw [before, List.take_length]

theorem before_succ {sizes : List Nat} {count : Nat} (bound : count < sizes.length) :
    before sizes (count + 1) = before sizes count + sizes[count] := by
  rw [before, List.take_succ_eq_append_getElem bound, List.sum_append]
  rfl

theorem before_le_sum (sizes : List Nat) (count : Nat) : before sizes count ≤ sizes.sum := by
  induction sizes generalizing count with
  | nil => simp [before]
  | cons size sizes ih =>
      cases count with
      | zero => simp
      | succ count =>
          have := ih count
          simp only [before_cons_succ, List.sum_cons]
          omega

theorem before_mono (sizes : List Nat) {low high : Nat} (order : low ≤ high) :
    before sizes low ≤ before sizes high := by
  obtain ⟨extra, rfl⟩ := Nat.exists_eq_add_of_le order
  rw [before, before, List.take_add, List.sum_append]
  omega

theorem before_add_getD (sizes : List Nat) (count : Nat) :
    before sizes count + sizes.getD count 0 = before sizes (count + 1) := by
  by_cases bound : count < sizes.length
  · rw [List.getD_eq_getElem _ _ bound, before_succ bound]
  · have past := Nat.le_of_not_lt bound
    rw [List.getD_eq_default _ _ past, before, before, List.take_of_length_le past,
      List.take_of_length_le (by omega), Nat.add_zero]

theorem locate_of_sum_le {sizes : List Nat} {position : Nat} (past : sizes.sum ≤ position) :
    locate sizes position = (sizes.length, position - sizes.sum) := by
  induction sizes generalizing position with
  | nil => simp [locate]
  | cons size sizes ih =>
      simp only [List.sum_cons] at past
      rw [locate, if_neg (by omega), ih (by omega)]
      simp only [List.length_cons, List.sum_cons, Nat.sub_sub]

theorem locate_lt {sizes : List Nat} {position : Nat} (inside : position < sizes.sum) :
    ∃ bound : (locate sizes position).1 < sizes.length,
      (locate sizes position).2 < sizes[(locate sizes position).1] := by
  induction sizes generalizing position with
  | nil => simp at inside
  | cons size sizes ih =>
      rw [locate]
      split
      next small => exact ⟨by simp, by simpa using small⟩
      next large =>
        obtain ⟨bound, offset⟩ := ih (show position - size < sizes.sum by
          simp only [List.sum_cons] at inside
          omega)
        exact ⟨by simpa using bound, by simpa using offset⟩

theorem locate_le (sizes : List Nat) (position : Nat) :
    (locate sizes position).1 ≤ sizes.length := by
  by_cases inside : position < sizes.sum
  · obtain ⟨bound, -⟩ := locate_lt inside
    exact Nat.le_of_lt bound
  · rw [locate_of_sum_le (Nat.le_of_not_lt inside)]

theorem locate_position (sizes : List Nat) (position : Nat) :
    before sizes (locate sizes position).1 + (locate sizes position).2 = position := by
  induction sizes generalizing position with
  | nil => simp [locate, before]
  | cons size sizes ih =>
      rw [locate]
      split
      · simp
      · have := ih (position - size)
        simp only [before_cons_succ]
        omega

theorem locate_before_add {sizes : List Nat} {count offset : Nat} (bound : count < sizes.length)
    (inside : offset < sizes[count]) :
    locate sizes (before sizes count + offset) = (count, offset) := by
  induction sizes generalizing count with
  | nil => simp at bound
  | cons size sizes ih =>
      cases count with
      | zero =>
          have small : offset < size := inside
          simp [locate, small]
      | succ count =>
          have rest : locate sizes (before sizes count + offset) = (count, offset) :=
            ih (by simpa using bound) (by simpa using inside)
          have shift : size + before sizes count + offset - size =
              before sizes count + offset := by omega
          rw [before_cons_succ, locate, if_neg (by omega), shift, rest]

theorem bound_of_lt_getD {sizes : List Nat} {count offset : Nat}
    (inside : offset < sizes.getD count 0) :
    ∃ bound : count < sizes.length, offset < sizes[count] := by
  have bound : count < sizes.length := by
    by_contra past
    rw [List.getD_eq_default _ _ (Nat.le_of_not_lt past)] at inside
    omega
  rw [List.getD_eq_getElem _ _ bound] at inside
  exact ⟨bound, inside⟩

theorem locate_of_lt_getD {sizes : List Nat} {count offset : Nat}
    (inside : offset < sizes.getD count 0) :
    locate sizes (before sizes count + offset) = (count, offset) := by
  obtain ⟨bound, below⟩ := bound_of_lt_getD inside
  exact locate_before_add bound below

theorem before_add_lt_sum {sizes : List Nat} {count offset : Nat}
    (inside : offset < sizes.getD count 0) : before sizes count + offset < sizes.sum := by
  have next := before_add_getD sizes count
  have sum := before_le_sum sizes (count + 1)
  omega

theorem exists_locate {sizes : List Nat} {position : Nat} (inside : position < sizes.sum) :
    ∃ count offset, offset < sizes.getD count 0 ∧ position = before sizes count + offset := by
  obtain ⟨bound, below⟩ := locate_lt inside
  refine ⟨_, _, ?_, (locate_position sizes position).symm⟩
  rwa [List.getD_eq_getElem _ _ bound]

theorem locate_eq_iff {sizes : List Nat} {position index offset : Nat}
    (inside : position < sizes.sum) :
    locate sizes position = (index, offset) ↔
      offset < sizes.getD index 0 ∧ position = before sizes index + offset := by
  constructor
  · intro located
    obtain ⟨count, rest, below, rfl⟩ := exists_locate inside
    rw [locate_of_lt_getD below] at located
    cases located
    exact ⟨below, rfl⟩
  · rintro ⟨below, rfl⟩
    exact locate_of_lt_getD below

theorem eq_of_before_eq {first second : List Nat} (length : first.length = second.length)
    (same : ∀ count ≤ first.length, before first count = before second count) :
    first = second := by
  apply List.ext_getElem length
  intro index below _
  have here := same index (Nat.le_of_lt below)
  have next := same (index + 1) below
  rw [before_succ below, before_succ (by omega)] at next
  omega

variable {α : Type*}

theorem take_append_drop_length (elements : List α) (count : Nat) :
    elements.take count ++ elements.drop (elements.take count).length = elements := by
  rcases Nat.le_total count elements.length with within | past
  · rw [List.length_take_of_le within, List.take_append_drop]
  · rw [List.take_of_length_le past, List.drop_length, List.append_nil]

theorem length_flatten_drop (pieces : List (List α)) (count : Nat) :
    before (pieces.map List.length) count + (pieces.drop count).flatten.length =
      pieces.flatten.length := by
  have split := congrArg List.length (congrArg List.flatten (List.take_append_drop count pieces))
  rw [List.flatten_append, List.length_append] at split
  rw [before, ← List.map_take, ← List.length_flatten, split]

theorem drop_flatten_locate (pieces : List (List α)) (position : Nat) :
    pieces.flatten.drop position =
      (pieces.drop (locate (pieces.map List.length) position).1).flatten.drop
        (locate (pieces.map List.length) position).2 := by
  induction pieces generalizing position with
  | nil => simp [locate]
  | cons piece pieces ih =>
      simp only [List.map_cons, locate]
      split
      · simp
      next large =>
        have skipped : piece.length ≤ position := by omega
        rw [List.flatten_cons, List.drop_append, List.drop_eq_nil_of_le skipped, ih]
        simp

/-! Positions as running sums. -/

theorem drop_scanl_add (sizes : List Nat) (start count : Nat) (bound : count ≤ sizes.length) :
    (sizes.scanl (· + ·) start).drop count =
      (sizes.drop count).scanl (· + ·) (start + before sizes count) := by
  induction count generalizing sizes start with
  | zero => simp
  | succ count ih =>
      cases sizes with
      | nil => simp at bound
      | cons size sizes =>
          have rest := ih sizes (start + size) (by simpa using bound)
          simpa [Nat.add_assoc] using rest

theorem scanl_add_inj {first second : List Nat} {start other : Nat} :
    first.scanl (· + ·) start = second.scanl (· + ·) other ↔ start = other ∧ first = second := by
  constructor
  · intro same
    induction first generalizing second start other with
    | nil =>
        cases second with
        | nil => simpa using same
        | cons size sizes => simp at same
    | cons size sizes ih =>
        cases second with
        | nil => simp at same
        | cons otherSize others =>
            simp only [List.scanl_cons, List.cons.injEq] at same
            obtain ⟨begins, rest⟩ := same
            obtain ⟨next, sizesEq⟩ := ih rest
            refine ⟨begins, ?_⟩
            rw [show size = otherSize by omega, sizesEq]
  · rintro ⟨rfl, rfl⟩
    rfl

/-- Two cuts of one list agree in their pieces and in the rest exactly when the pieces start
at the same position and have the same sizes. -/
theorem pieces_eq_iff {early other rest left : List α} {first second : List (List α)}
    (same : early ++ first.flatten ++ rest = other ++ second.flatten ++ left) :
    first = second ∧ rest = left ↔
      early.length = other.length ∧ first.map List.length = second.map List.length := by
  constructor
  · rintro ⟨rfl, rfl⟩
    have total := congrArg List.length same
    simp only [List.length_append] at total
    exact ⟨by omega, rfl⟩
  · rintro ⟨start, sizes⟩
    have bytes : first.flatten.length = second.flatten.length := by
      rw [List.length_flatten, List.length_flatten, sizes]
    obtain ⟨together, rests⟩ := List.append_inj same (by simp [start, bytes])
    obtain ⟨-, pieces⟩ := List.append_inj together start
    exact ⟨List.eq_iff_flatten_eq.mpr ⟨pieces, sizes⟩, rests⟩

end Offsets
