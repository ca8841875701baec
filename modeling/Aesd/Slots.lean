import Mathlib.Tactic

/-! Tables of slots in which a new entry takes the lowest slot that is free. -/

namespace Slots

variable {α : Type*}

def get (table : List (Option α)) (slot : Nat) : Option α := table.getD slot none

def put (table : List (Option α)) (slot : Nat) (entry : Option α) : List (Option α) :=
  (table ++ List.replicate (slot + 1 - table.length) none).set slot entry

def lowest (table : List (Option α)) : Nat := table.findIdx Option.isNone

def used (table : List (Option α)) : Nat := table.countP Option.isSome

theorem get_padded (table : List (Option α)) (count slot : Nat) :
    get (table ++ List.replicate count none) slot = get table slot := by
  rw [get, get, List.getD_eq_getElem?_getD, List.getD_eq_getElem?_getD, List.getElem?_append]
  split
  · rfl
  next outside =>
    rw [List.getElem?_eq_none (Nat.le_of_not_lt outside), List.getElem?_replicate]
    split <;> rfl

@[simp] theorem get_put (table : List (Option α)) (slot other : Nat) (entry : Option α) :
    get (put table slot entry) other = if other = slot then entry else get table other := by
  have inside : slot < (table ++ List.replicate (slot + 1 - table.length) none).length := by
    rw [List.length_append, List.length_replicate]
    omega
  by_cases same : other = slot
  · subst same
    rw [if_pos rfl, get, put, List.getD_eq_getElem?_getD, List.getElem?_set_self inside]
    rfl
  · rw [if_neg same, ← get_padded table (slot + 1 - table.length) other, get, put, get,
      List.getD_eq_getElem?_getD, List.getElem?_set_ne (Ne.symm same), List.getD_eq_getElem?_getD]

@[simp] theorem get_lowest (table : List (Option α)) : get table (lowest table) = none := by
  rw [get, List.getD_eq_getElem?_getD, lowest]
  rcases Nat.lt_or_ge (table.findIdx Option.isNone) table.length with inside | outside
  · have free := List.findIdx_getElem (w := inside)
    rw [List.getElem?_eq_getElem inside]
    simpa using free
  · rw [List.getElem?_eq_none outside]
    rfl

theorem used_padded (table : List (Option α)) (count : Nat) :
    used (table ++ List.replicate count none) = used table := by
  rw [used, List.countP_append, used, List.countP_replicate]
  simp

theorem used_put (table : List (Option α)) (slot : Nat) (entry : Option α) :
    used (put table slot entry) + (get table slot).isSome.toNat =
      used table + entry.isSome.toNat := by
  have inside : slot < (table ++ List.replicate (slot + 1 - table.length) none).length := by
    rw [List.length_append, List.length_replicate]
    omega
  have before := get_padded table (slot + 1 - table.length) slot
  have counted := used_padded table (slot + 1 - table.length)
  rw [put]
  generalize table ++ List.replicate (slot + 1 - table.length) none = padded at *
  rw [get, List.getD_eq_getElem?_getD, List.getElem?_eq_getElem inside, Option.getD_some] at before
  have taken : padded[slot].isSome.toNat ≤ used padded := by
    cases filled : padded[slot].isSome with
    | false => exact Nat.zero_le _
    | true => exact List.countP_pos_iff.mpr ⟨_, List.getElem_mem inside, filled⟩
  rw [← before, ← counted, used, List.countP_set inside, ← used]
  generalize padded[slot].isSome = filled at taken ⊢
  cases filled <;> cases entry.isSome <;>
    simp only [Bool.toNat_true, Bool.toNat_false, Bool.false_eq_true, if_true, if_false] at taken ⊢ <;>
    omega

end Slots
