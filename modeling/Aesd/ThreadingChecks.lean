import Aesd.Interleaving
import Aesd.ThreadingCore

/-!
The threads of `threading.c` in any order of their steps: a mutex has one thread in its section,
nobody waits for ever, and a thread that has returned has noted its success.
-/

namespace Aesd

open Interleaving

/-- Between `pthread_mutex_lock` and `pthread_mutex_unlock`. -/
def Place.holds : Place → Bool
  | .waitToRelease | .succeed | .unlock => true
  | _ => false

def Place.succeeded : Place → Bool
  | .unlock | .leave | .returned => true
  | _ => false

/-- A mutex is held by the thread that is in its section, and by no other. -/
structure Orderly (state : Threads) : Prop where
  holder : ∀ mutex index, state.holder mutex = some (.thread index) ↔
    ∃ thread : Thread, state.threads[index]? = some thread ∧ thread.data.mutex = mutex ∧
      thread.place.holds = true
  success : ∀ (index : Nat) (thread : Thread), state.threads[index]? = some thread →
    thread.data.threadCompleteSuccess = thread.place.succeeded

theorem Orderly.boot : Orderly Threads.boot where
  holder := by simp [Threads.boot]
  success := by simp [Threads.boot]

theorem Orderly.own {state : Threads} (orderly : Orderly state) {index : Nat} {thread : Thread}
    (found : state.threads[index]? = some thread) (mutex : Nat) :
    state.holder mutex = some (.thread index) ↔
      thread.data.mutex = mutex ∧ thread.place.holds = true := by
  rw [orderly.holder]
  constructor
  · rintro ⟨other, here, held⟩
    obtain rfl := Option.some.inj (found.symm.trans here)
    exact held
  · exact fun held => ⟨thread, found, held⟩

theorem Orderly.set {state : Threads} (orderly : Orderly state) {index : Nat} {thread next : Thread}
    (found : state.threads[index]? = some thread) {holder : Nat → Option Holder}
    (success : next.data.threadCompleteSuccess = next.place.succeeded)
    (others : ∀ mutex other, other ≠ index →
      (holder mutex = some (.thread other) ↔ state.holder mutex = some (.thread other)))
    (own : ∀ mutex, holder mutex = some (.thread index) ↔
      next.data.mutex = mutex ∧ next.place.holds = true) :
    Orderly { state with threads := state.threads.set index next, holder := holder } where
  holder := fun mutex other => by
    have bound := (List.getElem?_eq_some_iff.mp found).1
    by_cases same : other = index
    · subst same
      simp [own, bound]
    · rw [others mutex other same, orderly.holder]
      simp only [List.getElem?_set_ne (Ne.symm same)]
  success := fun other changed member => by
    have bound := (List.getElem?_eq_some_iff.mp found).1
    by_cases same : other = index
    · subst same
      rw [List.getElem?_set_self bound] at member
      obtain rfl := Option.some.inj member
      exact success
    · rw [List.getElem?_set_ne (Ne.symm same)] at member
      exact orderly.success other changed member

theorem Orderly.moves {state : Threads} (orderly : Orderly state) {index : Nat}
    {thread next : Thread} (found : state.threads[index]? = some thread)
    {holder : Nat → Option Holder}
    (stepped : threadfunc state.holder index thread = some (next, holder)) :
    Orderly { state with threads := state.threads.set index next, holder := holder } := by
  have own := orderly.own found
  have noted := orderly.success index thread found
  obtain ⟨data, place⟩ := thread
  cases place with
  | waitToObtain =>
      cases stepped
      exact orderly.set found noted (fun _ _ _ => Iff.rfl) own
  | lock =>
      simp only [threadfunc] at stepped
      split at stepped
      next free =>
        cases stepped
        refine orderly.set found noted ?_ ?_
        · intro mutex other distinct
          by_cases same : mutex = data.mutex
          · subst same
            simp [free, Ne.symm distinct]
          · simp [same]
        · intro mutex
          by_cases same : mutex = data.mutex
          · simp [same, Place.holds]
          · simp only [Function.update_of_ne same, own, Place.holds]
            simp [Ne.symm same]
      next => cases stepped
  | waitToRelease =>
      cases stepped
      exact orderly.set found noted (fun _ _ _ => Iff.rfl) own
  | succeed =>
      cases stepped
      exact orderly.set found rfl (fun _ _ _ => Iff.rfl) own
  | unlock =>
      have mine := (own data.mutex).mpr ⟨rfl, rfl⟩
      cases stepped
      refine orderly.set found noted ?_ ?_
      · intro mutex other distinct
        by_cases same : mutex = data.mutex
        · subst same
          simp [mine, Ne.symm distinct]
        · simp [same]
      · intro mutex
        by_cases same : mutex = data.mutex
        · simp [same, Place.holds]
        · simp only [Function.update_of_ne same, own, Place.holds]
          simp [Ne.symm same]
  | leave =>
      cases stepped
      exact orderly.set found noted (fun _ _ _ => Iff.rfl) own
  | returned => cases stepped

theorem advance_cases {state next : Threads} {index : Nat}
    (stepped : state.advance index = some next) :
    ∃ thread moved holder, state.threads[index]? = some thread ∧
      threadfunc state.holder index thread = some (moved, holder) ∧
      next = { state with threads := state.threads.set index moved, holder := holder } := by
  obtain ⟨thread, found, rest⟩ := Option.bind_eq_some_iff.mp stepped
  obtain ⟨⟨moved, holder⟩, ran, built⟩ := Option.bind_eq_some_iff.mp rest
  exact ⟨thread, moved, holder, found, ran, (Option.some.inj built).symm⟩

theorem Orderly.advance {state next : Threads} {index : Nat} (orderly : Orderly state)
    (stepped : state.advance index = some next) : Orderly next := by
  obtain ⟨thread, moved, holder, found, ran, rfl⟩ := advance_cases stepped
  exact orderly.moves found ran

private theorem started_iff (threads : List Thread) (thread other : Thread) (index : Nat) :
    (threads ++ [thread])[index]? = some other ↔
      threads[index]? = some other ∨ index = threads.length ∧ other = thread := by
  rw [List.getElem?_append]
  split
  next old => simp [Nat.ne_of_lt old]
  next new =>
    rw [List.getElem?_eq_none (Nat.le_of_not_lt new), List.getElem?_singleton]
    have place : index - threads.length = 0 ↔ index = threads.length := by omega
    simp [place, eq_comm]

theorem Orderly.append {state : Threads} (orderly : Orderly state) {thread : Thread}
    (blocks : Nat) (waits : thread.place = .waitToObtain)
    (unnoted : thread.data.threadCompleteSuccess = false) :
    Orderly { state with threads := state.threads ++ [thread], blocks := blocks } where
  holder := fun mutex index => by
    rw [orderly.holder]
    constructor
    · rintro ⟨other, found, held⟩
      exact ⟨other, (started_iff ..).mpr (.inl found), held⟩
    · rintro ⟨other, found, same, held⟩
      rcases (started_iff ..).mp found with old | ⟨-, rfl⟩
      · exact ⟨other, old, same, held⟩
      · rw [waits] at held
        cases held
  success := fun index other member => by
    rcases (started_iff ..).mp member with old | ⟨-, rfl⟩
    · exact orderly.success index other old
    · rw [unnoted, waits]
      rfl

theorem Orderly.outside {state : Threads} (orderly : Orderly state) {mutex : Nat}
    {now : Option Holder}
    (before : ∀ index, state.holder mutex ≠ some (.thread index))
    (after : ∀ index, now ≠ some (.thread index)) :
    Orderly { state with holder := Function.update state.holder mutex now } where
  holder := fun other index => by
    rw [← orderly.holder]
    by_cases same : other = mutex
    · subst same
      simp [before, after]
    · simp [same]
  success := orderly.success

theorem Orderly.step (state : Threads) (event : ThreadEvent) (next : Threads)
    (orderly : Orderly state) (stepped : state.step event = some next) : Orderly next := by
  cases event with
  | start mutex waitToObtainMs waitToReleaseMs malloc pthreadCreate =>
      cases stepped
      rw [startThreadObtainingMutex]
      split
      next => exact orderly
      next =>
        dsimp only
        split
        next => exact ⟨orderly.holder, orderly.success⟩
        next => exact orderly.append _ rfl rfl
  | advance index => exact orderly.advance stepped
  | lockOutside mutex =>
      simp only [Threads.step] at stepped
      split at stepped
      next free =>
        cases stepped
        exact orderly.outside (by simp [free]) (by simp)
      next => cases stepped
  | unlockOutside mutex =>
      simp only [Threads.step] at stepped
      split at stepped
      next held =>
        cases stepped
        exact orderly.outside (by simp [held]) (by simp)
      next => cases stepped

def ThreadEvent.given : ThreadEvent → Option ThreadData
  | .start mutex waitToObtainMs waitToReleaseMs true true =>
      some ⟨mutex, waitToObtainMs, waitToReleaseMs, false⟩
  | _ => none

/-- A block is allocated, and no thread is created to return it. -/
def ThreadEvent.drops : ThreadEvent → Bool
  | .start _ _ _ malloc pthreadCreate => malloc && !pthreadCreate
  | _ => false

def Thread.arguments (thread : Thread) : ThreadData :=
  { thread.data with threadCompleteSuccess := false }

theorem threadfunc_arguments {holder after : Nat → Option Holder} {index : Nat}
    {thread next : Thread} (stepped : threadfunc holder index thread = some (next, after)) :
    next.arguments = thread.arguments := by
  obtain ⟨data, place⟩ := thread
  cases place with
  | lock =>
      simp only [threadfunc] at stepped
      split at stepped
      next => cases stepped; rfl
      next => cases stepped
  | returned => cases stepped
  | waitToObtain | waitToRelease | succeed | unlock | leave => cases stepped; rfl

theorem advance_arguments {state next : Threads} {index : Nat}
    (stepped : state.advance index = some next) :
    next.threads.map Thread.arguments = state.threads.map Thread.arguments ∧
      next.blocks = state.blocks := by
  obtain ⟨thread, moved, holder, found, ran, rfl⟩ := advance_cases stepped
  obtain ⟨bound, rfl⟩ := List.getElem?_eq_some_iff.mp found
  refine ⟨?_, rfl⟩
  rw [List.map_set, threadfunc_arguments ran, ← List.map_set, List.set_getElem_self]

theorem step_ledger {state next : Threads} {event : ThreadEvent}
    (stepped : state.step event = some next) :
    next.threads.map Thread.arguments =
        state.threads.map Thread.arguments ++ event.given.toList ∧
      next.blocks = state.blocks + event.given.toList.length + event.drops.toNat := by
  cases event with
  | start mutex waitToObtainMs waitToReleaseMs malloc pthreadCreate =>
      cases stepped
      cases malloc <;> cases pthreadCreate <;>
        simp [startThreadObtainingMutex, ThreadEvent.given, ThreadEvent.drops, Thread.arguments]
  | advance index =>
      obtain ⟨same, blocks⟩ := advance_arguments stepped
      simp [same, blocks, ThreadEvent.given, ThreadEvent.drops]
  | lockOutside mutex | unlockOutside mutex =>
      simp only [Threads.step] at stepped
      split at stepped
      next => cases stepped; simp [ThreadEvent.given, ThreadEvent.drops]
      next => cases stepped

theorem runFrom_ledger (events : List ThreadEvent) :
    ∀ {state final}, runFrom Threads.step state events = some final →
      final.threads.map Thread.arguments =
          state.threads.map Thread.arguments ++ events.filterMap ThreadEvent.given ∧
        final.blocks = state.blocks + (events.filterMap ThreadEvent.given).length +
          events.countP ThreadEvent.drops := by
  induction events with
  | nil =>
      intro state final ran
      cases ran
      simp
  | cons event events ih =>
      intro state final ran
      obtain ⟨next, stepped, rest⟩ := runFrom_cons ran
      obtain ⟨arguments, blocks⟩ := step_ledger stepped
      obtain ⟨later, total⟩ := ih rest
      rw [later, arguments, total, blocks, List.countP_cons, List.filterMap_cons]
      cases event.given <;> cases event.drops <;> simp <;> omega

theorem boot_run_orderly {events : List ThreadEvent} {state : Threads}
    (ran : runFrom Threads.step Threads.boot events = some state) : Orderly state :=
  kept_runFrom Orderly Orderly.step events Orderly.boot ran

/-- In any order of the steps, one thread at a time is between the lock and the unlock of a mutex
and nobody outside holds it then. A thread has noted its success once it is past that statement,
its arguments are those it was started with, and every allocated block belongs to a thread but
those whose thread could not be created. -/
theorem boot_run_exclusive (events : List ThreadEvent) {state : Threads}
    (ran : runFrom Threads.step Threads.boot events = some state) :
    (∀ (first second : Nat) (one other : Thread), state.threads[first]? = some one →
      state.threads[second]? = some other → one.data.mutex = other.data.mutex →
      one.place.holds = true → other.place.holds = true → first = second) ∧
    (∀ (index : Nat) (thread : Thread), state.threads[index]? = some thread →
      (thread.place.holds = true → state.holder thread.data.mutex ≠ some .outside) ∧
      thread.data.threadCompleteSuccess = thread.place.succeeded) ∧
    state.threads.map Thread.arguments = events.filterMap ThreadEvent.given ∧
    state.blocks = state.threads.length + events.countP ThreadEvent.drops := by
  have orderly := boot_run_orderly ran
  obtain ⟨arguments, blocks⟩ := runFrom_ledger events ran
  simp only [Threads.boot, List.map_nil, List.nil_append, Nat.zero_add] at arguments blocks
  refine ⟨?_, ?_, arguments, ?_⟩
  · intro first second one other here there same holds held
    have mine := (orderly.own here one.data.mutex).mpr ⟨rfl, holds⟩
    have theirs := (orderly.own there one.data.mutex).mpr ⟨same.symm, held⟩
    simpa using mine.symm.trans theirs
  · intro index thread found
    refine ⟨fun holds => ?_, orderly.success index thread found⟩
    have mine := (orderly.own found thread.data.mutex).mpr ⟨rfl, holds⟩
    simp [mine]
  · rw [blocks, ← arguments, List.length_map]

/-- The second thread waits for the first, and a third could not be created. -/
theorem boot_run_exclusive_waiting :
    ∃ state, runFrom Threads.step Threads.boot
        [.start 7 10 20 true true, .start 7 0 5 true true, .start 7 1 1 true false,
          .advance 0, .advance 0, .advance 1] = some state ∧
      state.blocks = 3 ∧
      ∀ (first second : Nat) (one other : Thread), state.threads[first]? = some one →
        state.threads[second]? = some other → one.data.mutex = other.data.mutex →
        one.place.holds = true → other.place.holds = true → first = second :=
  ⟨_, rfl, rfl, (boot_run_exclusive
    [.start 7 10 20 true true, .start 7 0 5 true true, .start 7 1 1 true false,
      .advance 0, .advance 0, .advance 1] rfl).1⟩

/-- The statements of `threadfunc` that are left. -/
def Place.left : Place → Nat
  | .waitToObtain => 6
  | .lock => 5
  | .waitToRelease => 4
  | .succeed => 3
  | .unlock => 2
  | .leave => 1
  | .returned => 0

def Threads.left (state : Threads) : Nat := (state.threads.map fun thread => thread.place.left).sum

theorem threadfunc_left {holder after : Nat → Option Holder} {index : Nat} {thread next : Thread}
    (stepped : threadfunc holder index thread = some (next, after)) :
    next.place.left + 1 = thread.place.left := by
  obtain ⟨data, place⟩ := thread
  cases place with
  | lock =>
      simp only [threadfunc] at stepped
      split at stepped
      next => cases stepped; rfl
      next => cases stepped
  | returned => cases stepped
  | waitToObtain | waitToRelease | succeed | unlock | leave => cases stepped; rfl

private theorem sum_set_succ (values : List Nat) {index value : Nat}
    (bound : index < values.length) (lower : value + 1 = values[index]) :
    (values.set index value).sum + 1 = values.sum := by
  have before := List.sum_set values index values[index]
  rw [List.set_getElem_self, if_pos bound] at before
  rw [List.sum_set, before, if_pos bound]
  omega

theorem advance_left (state : Threads) (index : Nat) (next : Threads)
    (stepped : state.advance index = some next) : next.left + 1 = state.left := by
  obtain ⟨thread, moved, holder, found, ran, rfl⟩ := advance_cases stepped
  obtain ⟨bound, rfl⟩ := List.getElem?_eq_some_iff.mp found
  rw [Threads.left, List.map_set]
  apply sum_set_succ _ (by rwa [List.length_map])
  rw [List.getElem_map]
  exact threadfunc_left ran

theorem Orderly.advance_outside {state next : Threads} (orderly : Orderly state) {index : Nat}
    (stepped : state.advance index = some next) (mutex : Nat) :
    next.holder mutex = some .outside ↔ state.holder mutex = some .outside := by
  obtain ⟨⟨data, place⟩, moved, holder, found, ran, rfl⟩ := advance_cases stepped
  cases place with
  | lock =>
      simp only [threadfunc] at ran
      split at ran
      next free =>
        cases ran
        by_cases same : mutex = data.mutex
        · subst same
          simp [free]
        · simp [same]
      next => cases ran
  | unlock =>
      have mine := (orderly.own found data.mutex).mpr ⟨rfl, rfl⟩
      cases ran
      by_cases same : mutex = data.mutex
      · subst same
        simp [mine]
      · simp [same]
  | returned => cases ran
  | waitToObtain | waitToRelease | succeed | leave => cases ran; rfl

theorem threadfunc_none_iff (holder : Nat → Option Holder) (index : Nat) (thread : Thread) :
    threadfunc holder index thread = none ↔
      thread.place = .returned ∨ thread.place = .lock ∧ holder thread.data.mutex ≠ none := by
  obtain ⟨data, place⟩ := thread
  cases place <;> simp [threadfunc]

theorem advance_none_iff (state : Threads) (index : Nat) :
    state.advance index = none ↔ ∀ thread : Thread, state.threads[index]? = some thread →
      thread.place = .returned ∨ thread.place = .lock ∧ state.holder thread.data.mutex ≠ none := by
  simp only [← threadfunc_none_iff _ index]
  cases found : state.threads[index]? with
  | none => simp [Threads.advance, found]
  | some thread =>
      cases ran : threadfunc state.holder index thread <;> simp [Threads.advance, found, ran]

/-- Whoever is in its section goes on, so that only somebody outside is waited for. -/
theorem Orderly.stuck_iff {state : Threads} (orderly : Orderly state) :
    (∀ index, state.advance index = none) ↔
      ∀ (index : Nat) (thread : Thread), state.threads[index]? = some thread →
        thread.place = .returned ∨
          thread.place = .lock ∧ state.holder thread.data.mutex = some .outside := by
  simp only [advance_none_iff]
  constructor
  · intro stuck index thread found
    rcases stuck index thread found with returned | ⟨waits, held⟩
    · exact .inl returned
    · refine .inr ⟨waits, ?_⟩
      cases holder : state.holder thread.data.mutex with
      | none => exact absurd holder held
      | some who =>
          cases who with
          | outside => rfl
          | thread other =>
              obtain ⟨owner, there, -, holds⟩ := (orderly.holder ..).mp holder
              rcases stuck other owner there with returned | ⟨waiting, -⟩
              · simp [returned, Place.holds] at holds
              · simp [waiting, Place.holds] at holds
  · intro ended index thread found
    rcases ended index thread found with returned | ⟨waits, outside⟩
    · exact .inl returned
    · exact .inr ⟨waits, by simp [outside]⟩

theorem Orderly.runFrom_outside {state last : Threads} (orderly : Orderly state)
    {indices : List Nat} (ran : runFrom Threads.advance state indices = some last) :
    Orderly last ∧
      ∀ mutex, last.holder mutex = some .outside ↔ state.holder mutex = some .outside :=
  kept_runFrom
    (fun reached => Orderly reached ∧
      ∀ mutex, reached.holder mutex = some .outside ↔ state.holder mutex = some .outside)
    (fun _ _ _ kept stepped =>
      ⟨kept.1.advance stepped,
        fun mutex => (kept.1.advance_outside stepped mutex).trans (kept.2 mutex)⟩)
    indices ⟨orderly, fun _ => Iff.rfl⟩ ran

/-- There is no deadlock among the threads: from any state they can reach, however they go on, they
take no more steps than statements are left, can always go on to the end, and stop only where
each has returned with its success noted or waits for a mutex that somebody outside holds. -/
theorem boot_run_finishes (events : List ThreadEvent) (indices : List Nat) {state last : Threads}
    (ran : runFrom Threads.step Threads.boot events = some state)
    (advanced : runFrom Threads.advance state indices = some last) :
    last.left + indices.length = state.left ∧
    ((∀ index, last.advance index = none) ↔
      ∀ (index : Nat) (thread : Thread), last.threads[index]? = some thread →
        (thread.place = .returned ∧ thread.data.threadCompleteSuccess = true) ∨
          (thread.place = .lock ∧ state.holder thread.data.mutex = some .outside)) ∧
    ∃ rest final, runFrom Threads.advance last rest = some final ∧
      ∀ index, final.advance index = none := by
  obtain ⟨orderly, outside⟩ := (boot_run_orderly ran).runFrom_outside advanced
  refine ⟨rank_runFrom advance_left indices advanced, ?_, exists_stuck advance_left last⟩
  rw [orderly.stuck_iff]
  refine forall_congr' fun index => forall_congr' fun thread => forall_congr' fun found => ?_
  rw [outside]
  refine or_congr_left (iff_self_and.mpr fun returned => ?_)
  rw [orderly.success index thread found, returned]
  rfl

theorem boot_run_finishes_both :
    ∃ state last, runFrom Threads.step Threads.boot
        [.start 7 10 20 true true, .start 7 0 5 true true] = some state ∧
      runFrom Threads.advance state [0, 0, 1, 0, 0, 0, 1, 1] = some last ∧
      last.left + 8 = state.left :=
  ⟨_, _, rfl, rfl, (boot_run_finishes
    [.start 7 10 20 true true, .start 7 0 5 true true] [0, 0, 1, 0, 0, 0, 1, 1] rfl rfl).1⟩

end Aesd
