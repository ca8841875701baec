import Aesd.Branching
import Aesd.MachineInt
import Aesd.Slots

/-!
`examples/systemcalls/systemcalls.c` in the hands of a program that makes its calls in turn. A
child of `do_exec_redirect` that does not come to execute its command returns to the program, as
its parent does, and goes on with it.
-/

namespace Aesd

open MachineInt

/-- How a child ended, as `waitpid` has it. -/
inductive Status where
  | exited (code : Nat)
  | signalled
  deriving DecidableEq, Repr

/-- `_exit`, whose argument is cut to a byte. -/
def Status.exit (value : Int) : Status := .exited (toUnsigned 8 value)

/-- What each descriptor of a process is open on. -/
abbrev Descriptors := List (Option String)

structure CallOutcomes where
  system : String → Int := fun _ => 0
  openFile : Bool := true
  fork : Bool := true
  dup2 : Bool := true
  execv : Bool := true
  waitpid : Bool := true
  /-- how the command ends, once it is executed -/
  status : Status := .exited 0

/-- What a call leads to: a command with the descriptors it is executed with, a child that returns
from the call as well, and the return to the caller. -/
structure Forked where
  executed : Option (List String × Descriptors)
  child : Option (Bool × Descriptors)
  answer : Bool
  descriptors : Descriptors

def doSystem (outcomes : CallOutcomes) (cmd : String) (descriptors : Descriptors) : Forked :=
  if outcomes.system cmd ≠ 0 then ⟨none, none, false, descriptors⟩
  else ⟨none, none, true, descriptors⟩

def doExec (outcomes : CallOutcomes) (command : List String) (descriptors : Descriptors) : Forked :=
  if outcomes.fork = false then ⟨none, none, false, descriptors⟩
  else
    let executed := if outcomes.execv then some (command, descriptors) else none
    let status := if outcomes.execv then outcomes.status else .exit (-1)
    if outcomes.waitpid = false then ⟨executed, none, false, descriptors⟩
    else if status = .exited 0 then ⟨executed, none, true, descriptors⟩
    else ⟨executed, none, false, descriptors⟩

/-- The child of `do_exec_redirect`: the command it executes, or its return. -/
def redirectChild (outcomes : CallOutcomes) (fd : Nat) (command : List String)
    (descriptors : Descriptors) : Option (List String × Descriptors) × Option (Bool × Descriptors) :=
  if outcomes.dup2 = false then (none, some (false, descriptors))
  else
    let descriptors := Slots.put descriptors 1 (Slots.get descriptors fd)
    let descriptors := Slots.put descriptors fd none
    if outcomes.execv = false then (none, some (false, descriptors))
    else (some (command, descriptors), none)

def doExecRedirect (outcomes : CallOutcomes) (outputfile : String) (command : List String)
    (descriptors : Descriptors) : Forked :=
  if outcomes.openFile = false then ⟨none, none, false, descriptors⟩
  else
    let fd := Slots.lowest descriptors
    let descriptors := Slots.put descriptors fd (some outputfile)
    if outcomes.fork = false then ⟨none, none, false, descriptors⟩
    else
      let (executed, child) := redirectChild outcomes fd command descriptors
      -- The status of the child is not asked for, and the parent's descriptor stays open.
      if outcomes.waitpid = false then ⟨executed, child, false, descriptors⟩
      else ⟨executed, child, true, descriptors⟩

inductive Request where
  | system (cmd : String)
  | exec (command : List String)
  | execRedirect (outputfile : String) (command : List String)
  deriving DecidableEq, Repr

def Request.perform (request : Request) (outcomes : CallOutcomes) (descriptors : Descriptors) :
    Forked :=
  match request with
  | .system cmd => doSystem outcomes cmd descriptors
  | .exec command => doExec outcomes command descriptors
  | .execRedirect outputfile command => doExecRedirect outcomes outputfile command descriptors

/-- A process that runs the program: the calls it came back from as a child, the answers it and
those it descends from have had, and its descriptors. -/
structure Caller where
  path : List Nat
  answers : List Bool
  descriptors : Descriptors
  deriving DecidableEq, Repr

/-- The outcomes that a process, told by its path, meets in each of its calls. -/
abbrev World := List Nat → Nat → CallOutcomes

def Caller.forked (world : World) (caller : Caller) (request : Request) : Forked :=
  request.perform (world caller.path caller.answers.length) caller.descriptors

/-- Who returns from the call: the child, if it does, and the process that made it. -/
def Caller.call (world : World) (caller : Caller) (request : Request) : List Caller :=
  let forked := caller.forked world request
  let returned := ⟨caller.path, caller.answers ++ [forked.answer], forked.descriptors⟩
  match forked.child with
  | none => [returned]
  | some (answer, descriptors) =>
      [⟨caller.path ++ [caller.answers.length], caller.answers ++ [answer], descriptors⟩, returned]

/-- The processes that come to the end of the program. -/
def endings (world : World) (start : Descriptors) (program : List Request) : List Caller :=
  Branching.leaves (Caller.call world) ⟨[], [], start⟩ program

end Aesd
