import Mathlib.Tactic

/-!
`examples/threading/threading.c`: any number of threads, each of which waits, takes its mutex,
waits, notes its success and lets the mutex go. A sleep ends at any time; the threads take their
steps in any order, and anybody else may hold a mutex meanwhile.
-/

namespace Aesd

structure ThreadData where
  mutex : Nat
  waitToObtainMs : Int
  waitToReleaseMs : Int
  threadCompleteSuccess : Bool
  deriving DecidableEq, Repr

/-- The next statement of `threadfunc`. -/
inductive Place where
  | waitToObtain
  | lock
  | waitToRelease
  | succeed
  | unlock
  | leave
  | returned
  deriving DecidableEq, Repr

structure Thread where
  data : ThreadData
  place : Place
  deriving DecidableEq, Repr

inductive Holder where
  | thread (index : Nat)
  | outside
  deriving DecidableEq, Repr

/-- The threads that have been started, in this order, who holds each mutex, and how many blocks
`start_thread_obtaining_mutex` has allocated. -/
structure Threads where
  threads : List Thread
  holder : Nat → Option Holder
  blocks : Nat

def Threads.boot : Threads := ⟨[], fun _ => none, 0⟩

/-- One statement of `threadfunc`, where it does not block. -/
def threadfunc (holder : Nat → Option Holder) (index : Nat) (thread : Thread) :
    Option (Thread × (Nat → Option Holder)) :=
  match thread.place with
  | .waitToObtain => some ({ thread with place := .lock }, holder)
  | .lock =>
      if holder thread.data.mutex = none then
        some ({ thread with place := .waitToRelease },
          Function.update holder thread.data.mutex (some (.thread index)))
      else none
  | .waitToRelease => some ({ thread with place := .succeed }, holder)
  | .succeed =>
      some (⟨{ thread.data with threadCompleteSuccess := true }, .unlock⟩, holder)
  | .unlock =>
      some ({ thread with place := .leave }, Function.update holder thread.data.mutex none)
  | .leave => some ({ thread with place := .returned }, holder)
  | .returned => none

/-- `start_thread_obtaining_mutex`. -/
def startThreadObtainingMutex (mutex : Nat) (waitToObtainMs waitToReleaseMs : Int)
    (malloc pthreadCreate : Bool) (state : Threads) : Bool × Threads :=
  if malloc = false then (false, state)
  else
    let data : ThreadData := ⟨mutex, waitToObtainMs, waitToReleaseMs, false⟩
    let state : Threads := { state with blocks := state.blocks + 1 }
    -- The block is not freed when the thread is not created.
    if pthreadCreate = false then (false, state)
    else (true, { state with threads := state.threads ++ [⟨data, .waitToObtain⟩] })

inductive ThreadEvent where
  | start (mutex : Nat) (waitToObtainMs waitToReleaseMs : Int) (malloc pthreadCreate : Bool)
  | advance (index : Nat)
  | lockOutside (mutex : Nat)
  | unlockOutside (mutex : Nat)
  deriving DecidableEq, Repr

def Threads.advance (state : Threads) (index : Nat) : Option Threads := do
  let thread ← state.threads[index]?
  let (thread, holder) ← threadfunc state.holder index thread
  return { state with threads := state.threads.set index thread, holder := holder }

def Threads.step (state : Threads) : ThreadEvent → Option Threads
  | .start mutex waitToObtainMs waitToReleaseMs malloc pthreadCreate =>
      some (startThreadObtainingMutex mutex waitToObtainMs waitToReleaseMs malloc pthreadCreate
        state).2
  | .advance index => state.advance index
  | .lockOutside mutex =>
      if state.holder mutex = none then
        some { state with holder := Function.update state.holder mutex (some .outside) }
      else none
  | .unlockOutside mutex =>
      if state.holder mutex = some .outside then
        some { state with holder := Function.update state.holder mutex none }
      else none

end Aesd
