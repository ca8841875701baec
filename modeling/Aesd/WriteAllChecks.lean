import Aesd.SocketRuns

/-!
`write_all` on a descriptor whose calls of `write` have any sequence of outcomes.
-/

namespace Aesd

/-- What a descriptor was asked to write and what it took of each request. -/
structure Fd where
  requests : List Bytes
  accepted : List Bytes

/-- Call number `n` has outcome number `n`, and takes no more than it is asked to. -/
def Fd.write (outcomes : Nat → SysResult) (fd : Fd) (request : Bytes) : SysResult × Fd :=
  match outcomes fd.requests.length with
  | .count bytes =>
      (.count (min bytes request.length),
        ⟨fd.requests ++ [request], fd.accepted ++ [request.take bytes]⟩)
  | .failed reason => (.failed reason, ⟨fd.requests ++ [request], fd.accepted ++ [[]]⟩)

structure DeliversOnce (buffer : Bytes) (result : Int) (fd : Fd) : Prop where
  requested : ∀ call request, fd.requests[call]? = some request →
    request ≠ [] ∧ (fd.accepted.take call).flatten ++ request = buffer
  delivered : ∀ calls, (fd.accepted.take calls).flatten <+: buffer
  whole : result = 0 ↔ fd.accepted.flatten = buffer
  failed : result ≠ 0 → result = -1 ∧ fd.accepted.flatten.length < buffer.length

/-! The loop keeps its total in step with what was accepted. -/

structure Fd.Sent (buffer : Bytes) (total : Nat) (fd : Fd) : Prop where
  taken : fd.accepted.flatten = buffer.take total
  within : total ≤ buffer.length
  answered : fd.accepted.length = fd.requests.length
  requested : ∀ call request, fd.requests[call]? = some request →
    request ≠ [] ∧ (fd.accepted.take call).flatten ++ request = buffer

theorem Fd.sent_start (buffer : Bytes) : Fd.Sent buffer 0 ⟨[], []⟩ :=
  ⟨by simp, Nat.zero_le _, rfl, by simp⟩

theorem Fd.Sent.length {buffer : Bytes} {total : Nat} {fd : Fd} (sent : fd.Sent buffer total) :
    fd.accepted.flatten.length = total := by
  rw [sent.taken, List.length_take, Nat.min_eq_left sent.within]

theorem Fd.Sent.next {buffer : Bytes} {total : Nat} {fd : Fd} (sent : fd.Sent buffer total)
    (more : total < buffer.length) (bytes : Nat) :
    Fd.Sent buffer (total + min bytes (buffer.drop total).length)
      ⟨fd.requests ++ [buffer.drop total], fd.accepted ++ [(buffer.drop total).take bytes]⟩ where
  taken := by
    have clipped : (buffer.drop total).take (min bytes (buffer.drop total).length) =
        (buffer.drop total).take bytes := by
      rw [← List.take_take, List.take_length]
    rw [List.take_add, clipped, ← sent.taken]
    simp
  within := by
    rw [List.length_drop]
    omega
  answered := by simp [sent.answered]
  requested := by
    intro call request asked
    rcases Nat.lt_trichotomy call fd.requests.length with earlier | rfl | later
    · rw [List.getElem?_append_left earlier] at asked
      rw [List.take_append_of_le_length (by rw [sent.answered]; omega)]
      exact sent.requested call request asked
    · rw [List.getElem?_concat_length, Option.some.injEq] at asked
      subst asked
      refine ⟨by simpa using more, ?_⟩
      rw [← sent.answered, List.take_left' rfl, sent.taken, List.take_append_drop]
    · rw [List.getElem?_eq_none (by rw [List.length_append, List.length_singleton]; omega)] at asked
      cases asked

theorem Fd.Sent.whole {buffer : Bytes} {total : Nat} {fd : Fd} (sent : fd.Sent buffer total)
    (done : buffer.length ≤ total) : DeliversOnce buffer 0 fd where
  requested := sent.requested
  delivered := by
    intro calls
    have all : fd.accepted.flatten = buffer := by
      rw [sent.taken, List.take_of_length_le done]
    rw [← all]
    exact (List.take_prefix calls _).flatten
  whole := by
    rw [sent.taken, List.take_of_length_le done]
    simp
  failed := fun nonzero => absurd rfl nonzero

theorem Fd.Sent.stopped {buffer : Bytes} {total : Nat} {fd : Fd} (sent : fd.Sent buffer total)
    (more : total < buffer.length) : DeliversOnce buffer (-1) fd where
  requested := sent.requested
  delivered := by
    intro calls
    refine ((List.take_prefix calls _).flatten).trans ?_
    rw [sent.taken]
    exact List.take_prefix total buffer
  whole := by
    refine iff_of_false (by decide) fun all => ?_
    have length := sent.length
    rw [all] at length
    omega
  failed := by
    intro _
    rw [sent.length]
    exact ⟨rfl, more⟩

theorem writeAllFrom_mono {σ : Type} {write : σ → Bytes → SysResult × σ} {buffer : Bytes}
    {outcome : Int × σ} : ∀ {fuel total : Nat} {state : σ},
      writeAllFrom write buffer fuel total state = some outcome → ∀ {more : Nat}, fuel ≤ more →
        writeAllFrom write buffer more total state = some outcome := by
  intro fuel
  induction fuel with
  | zero => intro _ _ impossible; cases impossible
  | succ fuel ih =>
      intro total state ended more within
      obtain ⟨more, rfl⟩ : ∃ rest, more = rest + 1 := ⟨more - 1, by omega⟩
      rw [writeAllFrom] at ended ⊢
      by_cases unsent : total < buffer.length
      · rw [if_pos unsent] at ended ⊢
        cases wrote : write state (buffer.drop total) with
        | mk result next =>
            rw [wrote] at ended
            cases result with
            | count bytes =>
                dsimp only at ended ⊢
                split at ended
                next some => rw [if_pos some]; exact ih ended (by omega)
                next none => rw [if_neg none]; exact ended
            | failed reason =>
                cases reason with
                | eintr => exact ih ended (by omega)
                | other => exact ended
      · rwa [if_neg unsent] at ended ⊢

/-- The bytes that are left and the interrupts that may still come go down together: a call
that takes bytes leaves fewer bytes, and an interrupted call leaves fewer interrupts. -/
theorem writeAllFrom_deliversOnce {buffer : Bytes} {outcomes : Nat → SysResult} {last : Nat}
    (quiet : ∀ call, last ≤ call → outcomes call ≠ .failed .eintr) :
    ∀ (steps total : Nat) (fd : Fd), fd.Sent buffer total →
      (buffer.length - total) + (last - fd.requests.length) < steps →
      ∃ result after, writeAllFrom (Fd.write outcomes) buffer steps total fd = some (result, after) ∧
        DeliversOnce buffer result after := by
  intro steps
  induction steps with
  | zero => intro _ _ _ impossible; omega
  | succ steps ih =>
      intro total fd sent enough
      by_cases more : total < buffer.length
      · have left : (buffer.drop total).length = buffer.length - total := List.length_drop
        rw [writeAllFrom, if_pos more]
        cases outcome : outcomes fd.requests.length with
        | count bytes =>
            have next := sent.next more bytes
            simp only [Fd.write, outcome]
            by_cases some : 0 < bytes
            · rw [if_pos (by omega)]
              refine ih _ _ next ?_
              simp only [List.length_append, List.length_singleton]
              omega
            · obtain rfl : bytes = 0 := by omega
              rw [Nat.zero_min, Nat.add_zero] at next
              exact ⟨-1, _, by simp, next.stopped more⟩
        | failed reason =>
            have next := sent.next more 0
            rw [Nat.zero_min, Nat.add_zero, List.take_zero] at next
            simp only [Fd.write, outcome]
            cases reason with
            | eintr =>
                have early : fd.requests.length < last := by
                  by_contra late
                  exact quiet _ (Nat.le_of_not_lt late) outcome
                refine ih _ _ next ?_
                simp only [List.length_append, List.length_singleton]
                omega
            | other => exact ⟨-1, _, rfl, next.stopped more⟩
      · exact ⟨0, fd, writeAllFrom_done _ (Nat.le_of_not_lt more) steps fd,
          sent.whole (Nat.le_of_not_lt more)⟩

theorem writeAll_deliversOnce (buffer : Bytes) (outcomes : Nat → SysResult)
    (interrupts : {call | outcomes call = .failed .eintr}.Finite) :
    ∃ steps result fd, DeliversOnce buffer result fd ∧ ∀ fuel, steps ≤ fuel →
      writeAllFrom (Fd.write outcomes) buffer fuel 0 ⟨[], []⟩ = some (result, fd) := by
  obtain ⟨last, bound⟩ := interrupts.bddAbove
  have quiet : ∀ call, last + 1 ≤ call → outcomes call ≠ .failed .eintr := by
    intro call late interrupted
    have early : call ≤ last := bound interrupted
    omega
  obtain ⟨result, fd, ended, delivers⟩ :=
    writeAllFrom_deliversOnce quiet _ 0 _ (Fd.sent_start buffer) (Nat.lt_succ_self _)
  exact ⟨_, result, fd, delivers, fun fuel within => writeAllFrom_mono ended within⟩

def interruptedOutcomes : Nat → SysResult
  | 0 => .failed .eintr
  | 1 => .count 1
  | _ => .count 5

theorem writeAll_deliversOnce_interrupted :
    ∃ steps result fd, DeliversOnce [97, 98, 10] result fd ∧ ∀ fuel, steps ≤ fuel →
      writeAllFrom (Fd.write interruptedOutcomes) [97, 98, 10] fuel 0 ⟨[], []⟩ =
        some (result, fd) := by
  refine writeAll_deliversOnce [97, 98, 10] interruptedOutcomes ((Set.finite_singleton 0).subset ?_)
  intro call interrupted
  match call with
  | 0 => rfl
  | 1 => cases interrupted
  | call + 2 => cases interrupted

end Aesd
