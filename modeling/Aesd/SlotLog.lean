import Mathlib.Tactic

/-! A log whose entries are stored in numbered slots: entry `index` goes to slot
`slot index`, over whatever was there. `lastIndex` is the entry a slot holds. -/

namespace SlotLog

variable (slot : Nat → Nat)

def lastIndex : Nat → Nat → Option Nat
  | 0, _ => none
  | count + 1, target => if slot count = target then some count else lastIndex count target

theorem lastIndex_succ (count target : Nat) :
    lastIndex slot (count + 1) target =
      if slot count = target then some count else lastIndex slot count target := rfl

theorem lastIndex_lt {count target index : Nat} (found : lastIndex slot count target = some index) :
    index < count := by
  induction count with
  | zero => simp [lastIndex] at found
  | succ count ih =>
      rw [lastIndex_succ] at found
      split at found
      · simp only [Option.some.injEq] at found
        omega
      · exact Nat.lt_succ_of_lt (ih found)

theorem lastIndex_eq_some {count index : Nat} (bound : index < count)
    (kept : ∀ later, index < later → later < count → slot later ≠ slot index) :
    lastIndex slot count (slot index) = some index := by
  induction count with
  | zero => omega
  | succ count ih =>
      rw [lastIndex_succ]
      by_cases last : index = count
      · simp [last]
      · rw [if_neg (kept count (by omega) (by omega))]
        exact ih (by omega) (fun later above below => kept later above (by omega))

theorem lastIndex_eq_none {count target : Nat} (unused : ∀ index < count, slot index ≠ target) :
    lastIndex slot count target = none := by
  induction count with
  | zero => rfl
  | succ count ih =>
      rw [lastIndex_succ, if_neg (unused count (by omega))]
      exact ih (fun index bound => unused index (by omega))

theorem lastIndex_ne_none {count index : Nat} (bound : index < count) :
    lastIndex slot count (slot index) ≠ none := by
  induction count with
  | zero => omega
  | succ count ih =>
      rw [lastIndex_succ]
      by_cases last : slot count = slot index
      · simp [last]
      · have earlier : index ≠ count := fun same => last (by rw [same])
        rw [if_neg last]
        exact ih (by omega)

/-- The slots of a ring of `size` whose index is a counter that wraps at `period`. -/
def wrappedSlot (period size index : Nat) : Nat := index % period % size

theorem wrappedSlot_of_lt {period size index : Nat} (bound : index < period) :
    wrappedSlot period size index = index % size := by
  rw [wrappedSlot, Nat.mod_eq_of_lt bound]

theorem mod_ne_of_near {size low high : Nat} (order : low < high) (near : high < low + size) :
    high % size ≠ low % size := by
  intro same
  have divides : size ∣ high - low := (Nat.modEq_iff_dvd' (Nat.le_of_lt order)).mp same.symm
  have := Nat.le_of_dvd (by omega) divides
  omega

/-- The last `size` entries are in their slots, as long as the counter has not wrapped
between the oldest of them and the newest. -/
theorem lastIndex_wrapped {period size count index : Nat} (bound : index < count)
    (recent : count ≤ index + size) (unwrapped : index / period = (count - 1) / period) :
    lastIndex (wrappedSlot period size) count (wrappedSlot period size index) = some index := by
  apply lastIndex_eq_some _ bound
  intro later above below
  have lower : index / period ≤ later / period := Nat.div_le_div_right (by omega)
  have upper : later / period ≤ (count - 1) / period := Nat.div_le_div_right (by omega)
  have same : later / period = index / period := by omega
  have splitLater := Nat.div_add_mod later period
  have splitIndex := Nat.div_add_mod index period
  rw [same] at splitLater
  exact mod_ne_of_near (by omega) (by omega)

end SlotLog
