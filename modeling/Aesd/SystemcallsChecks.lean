import Mathlib.Data.List.TakeWhile
import Aesd.SystemcallsCore

/-!
The calls of `examples/systemcalls/systemcalls.c` over whole programs: which processes come to the
end, what they have been answered on the way, and what their descriptors are then. The answers are
those the comments promise, to one process, exactly when no redirected command goes wrong.
-/

namespace Aesd

/-! One call. -/

def Request.answer (request : Request) (outcomes : CallOutcomes) : Bool :=
  match request with
  | .system cmd => decide (outcomes.system cmd = 0)
  | .exec _ =>
      outcomes.fork && outcomes.execv && outcomes.waitpid && decide (outcomes.status = .exited 0)
  | .execRedirect _ _ => outcomes.openFile && outcomes.fork && outcomes.waitpid

/-- The child returns from the call. -/
def Request.splits (request : Request) (outcomes : CallOutcomes) : Bool :=
  match request with
  | .execRedirect _ _ => outcomes.openFile && outcomes.fork && !(outcomes.dup2 && outcomes.execv)
  | _ => false

section

variable (outcomes : CallOutcomes) (descriptors : Descriptors)

theorem doSystem_keeps (cmd : String) :
    (doSystem outcomes cmd descriptors).child = none ∧
      (doSystem outcomes cmd descriptors).descriptors = descriptors := by
  rw [doSystem]
  split <;> exact ⟨rfl, rfl⟩

theorem doExec_keeps (command : List String) :
    (doExec outcomes command descriptors).child = none ∧
      (doExec outcomes command descriptors).descriptors = descriptors := by
  rw [doExec]
  split
  · exact ⟨rfl, rfl⟩
  · dsimp only
    split_ifs <;> exact ⟨rfl, rfl⟩

theorem doExec_executed (command : List String) :
    (doExec outcomes command descriptors).executed =
      if outcomes.fork && outcomes.execv then some (command, descriptors) else none := by
  have failed : Status.exit (-1) ≠ .exited 0 := by decide
  cases forked : outcomes.fork <;> cases executed : outcomes.execv <;>
    cases waited : outcomes.waitpid <;> by_cases ended : outcomes.status = .exited 0 <;>
    simp [doExec, forked, executed, waited, ended, failed]

def openedTable (descriptors : Descriptors) (outputfile : String) : Descriptors :=
  Slots.put descriptors (Slots.lowest descriptors) (some outputfile)

def redirectedTable (descriptors : Descriptors) (outputfile : String) : Descriptors :=
  Slots.put (Slots.put (openedTable descriptors outputfile) 1 (some outputfile))
    (Slots.lowest descriptors) none

theorem doExecRedirect_cases (outputfile : String) (command : List String) :
    outcomes.openFile = false ∧
        doExecRedirect outcomes outputfile command descriptors = ⟨none, none, false, descriptors⟩ ∨
      outcomes.openFile = true ∧ outcomes.fork = false ∧
        doExecRedirect outcomes outputfile command descriptors =
          ⟨none, none, false, openedTable descriptors outputfile⟩ ∨
      outcomes.openFile = true ∧ outcomes.fork = true ∧ outcomes.dup2 = false ∧
        doExecRedirect outcomes outputfile command descriptors =
          ⟨none, some (false, openedTable descriptors outputfile), outcomes.waitpid,
            openedTable descriptors outputfile⟩ ∨
      outcomes.openFile = true ∧ outcomes.fork = true ∧ outcomes.dup2 = true ∧
        outcomes.execv = false ∧ doExecRedirect outcomes outputfile command descriptors =
          ⟨none, some (false, redirectedTable descriptors outputfile), outcomes.waitpid,
            openedTable descriptors outputfile⟩ ∨
      outcomes.openFile = true ∧ outcomes.fork = true ∧ outcomes.dup2 = true ∧
        outcomes.execv = true ∧ doExecRedirect outcomes outputfile command descriptors =
          ⟨some (command, redirectedTable descriptors outputfile), none, outcomes.waitpid,
            openedTable descriptors outputfile⟩ := by
  have file : Slots.get (openedTable descriptors outputfile) (Slots.lowest descriptors) =
      some outputfile := by simp [openedTable]
  have table : Slots.put descriptors (Slots.lowest descriptors) (some outputfile) =
      openedTable descriptors outputfile := rfl
  simp only [doExecRedirect, table]
  cases openFile : outcomes.openFile with
  | false => simp
  | true =>
      cases forked : outcomes.fork with
      | false => simp
      | true =>
          cases duplicated : outcomes.dup2 <;> cases executed : outcomes.execv <;>
            cases waited : outcomes.waitpid <;>
            simp [redirectChild, duplicated, executed, file, redirectedTable]

theorem Request.perform_answer (request : Request) :
    (request.perform outcomes descriptors).answer = request.answer outcomes := by
  cases request with
  | system cmd =>
      by_cases succeeded : outcomes.system cmd = 0 <;>
        simp [perform, doSystem, answer, succeeded]
  | exec command =>
      have failed : Status.exit (-1) ≠ .exited 0 := by decide
      cases forked : outcomes.fork <;> cases executed : outcomes.execv <;>
        cases waited : outcomes.waitpid <;> by_cases ended : outcomes.status = .exited 0 <;>
        simp [perform, doExec, answer, forked, executed, waited, ended, failed]
  | execRedirect outputfile command =>
      rw [perform, answer]
      obtain ⟨unopened, result⟩ | ⟨opens, alone, result⟩ | ⟨opens, forks, -, result⟩ |
        ⟨opens, forks, -, -, result⟩ | ⟨opens, forks, -, -, result⟩ :=
        doExecRedirect_cases outcomes descriptors outputfile command
      · rw [result, unopened]; rfl
      · rw [result, opens, alone]; rfl
      all_goals rw [result, opens, forks]; rfl

theorem Request.perform_child (request : Request) :
    (request.perform outcomes descriptors).child.map Prod.fst =
      if request.splits outcomes then some false else none := by
  cases request with
  | system cmd => rw [perform, (doSystem_keeps outcomes descriptors cmd).1]; rfl
  | exec command => rw [perform, (doExec_keeps outcomes descriptors command).1]; rfl
  | execRedirect outputfile command =>
      rw [perform, splits]
      obtain ⟨unopened, result⟩ | ⟨opens, alone, result⟩ | ⟨opens, forks, failed, result⟩ |
        ⟨opens, forks, moved, failed, result⟩ | ⟨opens, forks, moved, executed, result⟩ :=
        doExecRedirect_cases outcomes descriptors outputfile command
      · rw [result, unopened]; rfl
      · rw [result, opens, alone]; rfl
      · rw [result, opens, forks, failed]; rfl
      · rw [result, opens, forks, moved, failed]; rfl
      · rw [result, opens, forks, moved, executed]; rfl

end

section

variable {world : World} {caller next : Caller} {request : Request}

theorem Caller.call_paths (world : World) (caller : Caller) (request : Request) :
    (caller.call world request).map Caller.path =
      if request.splits (world caller.path caller.answers.length) then
        [caller.path ++ [caller.answers.length], caller.path]
      else [caller.path] := by
  have child := request.perform_child (world caller.path caller.answers.length) caller.descriptors
  rw [Caller.call, Caller.forked]
  cases returned : (request.perform (world caller.path caller.answers.length)
      caller.descriptors).child with
  | none =>
      rw [returned] at child
      rw [if_neg fun splits => by simp [splits] at child]
      rfl
  | some result =>
      rw [returned] at child
      rw [if_pos (by by_contra whole; simp [whole] at child)]
      rfl

theorem Caller.call_cases (member : next ∈ caller.call world request) :
    next = ⟨caller.path,
      caller.answers ++ [request.answer (world caller.path caller.answers.length)],
      (caller.forked world request).descriptors⟩ ∨
    ∃ descriptors, (caller.forked world request).child = some (false, descriptors) ∧
      next = ⟨caller.path ++ [caller.answers.length], caller.answers ++ [false], descriptors⟩ := by
  have child := request.perform_child (world caller.path caller.answers.length) caller.descriptors
  rw [Caller.call] at member
  simp only [Caller.forked, request.perform_answer] at member ⊢
  cases returned : (request.perform (world caller.path caller.answers.length)
      caller.descriptors).child with
  | none =>
      rw [returned] at member
      exact Or.inl (List.mem_singleton.mp member)
  | some result =>
      rw [returned] at member child
      obtain ⟨answer, descriptors⟩ := result
      have failed : answer = false := by
        rw [Option.map_some] at child
        split at child
        · exact Option.some.inj child
        · cases child
      subst failed
      rcases List.mem_cons.mp member with copied | same
      · exact Or.inr ⟨descriptors, rfl, copied⟩
      · exact Or.inl (List.mem_singleton.mp same)

end

/-! What a process has been through. -/

/-- A call with its outcomes, in the process that made it or in its child. -/
structure Passage where
  request : Request
  outcomes : CallOutcomes
  child : Bool

/-- At each call of the program the process itself was there or the one it descends from. -/
def lineage (world : World) (program : List Request) (path : List Nat) : List Passage :=
  program.mapIdx fun index request =>
    ⟨request, world (path.takeWhile (· < index)) index, decide (index ∈ path)⟩

def Passage.answer (passage : Passage) : Bool :=
  !passage.child && passage.request.answer passage.outcomes

@[simp] theorem length_lineage (world : World) (program : List Request) (path : List Nat) :
    (lineage world program path).length = program.length := List.length_mapIdx

theorem takeWhile_concat_of_not {α : Type*} (keep : α → Bool) (values : List α) {last : α}
    (dropped : keep last = false) : (values ++ [last]).takeWhile keep = values.takeWhile keep := by
  induction values with
  | nil => simp [dropped]
  | cons value values ih => rw [List.cons_append, List.takeWhile_cons, List.takeWhile_cons, ih]

section

variable {world : World} {program : List Request} {path : List Nat}

theorem takeWhile_earlier (earlier : ∀ index ∈ path, index < program.length) :
    path.takeWhile (· < program.length) = path :=
  List.takeWhile_eq_self_iff.mpr fun index member => by simpa using earlier index member

theorem lineage_returned (earlier : ∀ index ∈ path, index < program.length) (request : Request) :
    lineage world (program ++ [request]) path =
      lineage world program path ++ [⟨request, world path program.length, false⟩] := by
  have outside : program.length ∉ path := fun member => absurd (earlier _ member) (lt_irrefl _)
  rw [lineage, List.mapIdx_concat, takeWhile_earlier earlier, decide_eq_false outside]
  rfl

theorem lineage_child (earlier : ∀ index ∈ path, index < program.length) (request : Request) :
    lineage world (program ++ [request]) (path ++ [program.length]) =
      lineage world program path ++ [⟨request, world path program.length, true⟩] := by
  have before : ∀ index ≤ program.length,
      (path ++ [program.length]).takeWhile (· < index) = path.takeWhile (· < index) :=
    fun index bound => takeWhile_concat_of_not _ _ (by simpa using bound)
  rw [lineage, List.mapIdx_concat, before _ le_rfl, takeWhile_earlier earlier]
  congr 1
  · refine List.mapIdx_eq_mapIdx_iff.mpr fun index bound => ?_
    have other : index ≠ program.length := Nat.ne_of_lt bound
    simp [before index (Nat.le_of_lt bound), other]
  · simp

end

structure Descends (world : World) (program : List Request) (caller : Caller) : Prop where
  path : ∀ index ∈ caller.path, index < program.length
  answers : caller.answers = (lineage world program caller.path).map Passage.answer

theorem Descends.length {world : World} {program : List Request} {caller : Caller}
    (descends : Descends world program caller) : caller.answers.length = program.length := by
  rw [descends.answers, List.length_map, length_lineage]

theorem Descends.call {world : World} {program : List Request} {caller next : Caller}
    (descends : Descends world program caller) {request : Request}
    (member : next ∈ caller.call world request) : Descends world (program ++ [request]) next := by
  have grown : ∀ index ∈ caller.path, index < (program ++ [request]).length := by
    intro index earlier
    rw [List.length_append]
    exact Nat.lt_add_right _ (descends.path index earlier)
  obtain rfl | ⟨descriptors, -, rfl⟩ := Caller.call_cases member
  · refine ⟨grown, ?_⟩
    rw [lineage_returned descends.path, List.map_append, ← descends.answers, descends.length]
    rfl
  · refine ⟨?_, ?_⟩
    · intro index earlier
      rcases List.mem_append.mp earlier with before | last
      · exact grown index before
      · rw [List.mem_singleton.mp last, descends.length, List.length_append]
        exact Nat.lt_succ_self _
    · rw [descends.length, lineage_child descends.path, List.map_append, ← descends.answers]
      rfl

theorem endings_descend (world : World) (start : Descriptors) (program : List Request) :
    ∀ caller ∈ endings world start program, Descends world program caller :=
  Branching.kept_leaves (Descends world) ⟨by simp, rfl⟩
    (fun _ _ _ _ descends member => descends.call member) program

/-! Who comes to the end. -/

/-- Each process of the path returned as a child from a call that its parent made, later than the
call its parent returned from. -/
structure Born (world : World) (program : List Request) (path : List Nat) : Prop where
  ascending : path.Pairwise (· < ·)
  splits : ∀ earlier index, earlier ++ [index] <+: path →
    ∃ request, program[index]? = some request ∧ request.splits (world earlier index) = true

section

variable {world : World} {program : List Request} {path : List Nat}

theorem born_nil : Born world program [] :=
  ⟨List.Pairwise.nil, fun _ _ before => absurd (List.prefix_nil.mp before) (by simp)⟩

theorem born_concat {last : Nat} :
    Born world program (path ++ [last]) ↔
      Born world program path ∧ (∀ index ∈ path, index < last) ∧
        ∃ request, program[last]? = some request ∧ request.splits (world path last) = true := by
  constructor
  · rintro ⟨ascending, splits⟩
    obtain ⟨rising, -, below⟩ := List.pairwise_append.mp ascending
    refine ⟨⟨rising, fun earlier index before => ?_⟩, fun index member => ?_, ?_⟩
    · exact splits earlier index (before.trans (List.prefix_append _ _))
    · exact below index member last (List.mem_singleton_self _)
    · exact splits path last List.prefix_rfl
  · rintro ⟨⟨rising, splits⟩, below, here⟩
    refine ⟨List.pairwise_append.mpr ⟨rising, List.pairwise_singleton _ _, ?_⟩, ?_⟩
    · intro index member other same
      rw [List.mem_singleton.mp same]
      exact below index member
    · intro earlier index before
      rcases List.prefix_concat_iff.mp before with whole | part
      · obtain ⟨rfl, same⟩ := List.append_inj' whole rfl
        rw [List.singleton_inj.mp same]
        exact here
      · exact splits earlier index part

theorem Born.index_lt (born : Born world program path) : ∀ index ∈ path, index < program.length := by
  intro index member
  obtain ⟨earlier, later, rfl⟩ := List.append_of_mem member
  obtain ⟨request, found, -⟩ := born.splits earlier index ⟨later, by simp⟩
  exact (List.getElem?_eq_some_iff.mp found).1

theorem born_grown {request : Request} (below : ∀ index ∈ path, index < program.length) :
    Born world (program ++ [request]) path ↔ Born world program path := by
  have same (earlier : List Nat) (index : Nat) (before : earlier ++ [index] <+: path) :
      (program ++ [request])[index]? = program[index]? :=
    List.getElem?_append_left (below index (before.subset (by simp)))
  constructor
  · rintro ⟨ascending, splits⟩
    refine ⟨ascending, fun earlier index before => ?_⟩
    rw [← same earlier index before]
    exact splits earlier index before
  · rintro ⟨ascending, splits⟩
    refine ⟨ascending, fun earlier index before => ?_⟩
    rw [same earlier index before]
    exact splits earlier index before

theorem born_append {request : Request} :
    Born world (program ++ [request]) path ↔
      Born world program path ∨ ∃ earlier, path = earlier ++ [program.length] ∧
        Born world program earlier ∧ request.splits (world earlier program.length) = true := by
  rcases List.eq_nil_or_concat path with rfl | ⟨earlier, last, rfl⟩
  · simp [born_nil]
  rw [List.concat_eq_append, born_concat]
  constructor
  · rintro ⟨born, below, other, found, splits⟩
    have bound := (List.getElem?_eq_some_iff.mp found).1
    rw [List.length_append, List.length_singleton] at bound
    have inside : ∀ index ∈ earlier, index < program.length := fun index member =>
      Nat.lt_of_lt_of_le (below index member) (Nat.le_of_lt_succ bound)
    have born := (born_grown inside).mp born
    rcases Nat.lt_succ_iff_lt_or_eq.mp bound with before | rfl
    · rw [List.getElem?_append_left before] at found
      exact Or.inl (born_concat.mpr ⟨born, below, other, found, splits⟩)
    · rw [List.getElem?_concat_length, Option.some.injEq] at found
      subst found
      exact Or.inr ⟨earlier, rfl, born, splits⟩
  · rintro (born | ⟨parent, same, born, splits⟩)
    · rw [← born_concat]
      exact (born_grown born.index_lt).mpr born
    · obtain ⟨rfl, last⟩ := List.append_inj' same rfl
      rw [List.singleton_inj.mp last]
      exact ⟨(born_grown born.index_lt).mpr born, born.index_lt, request,
        List.getElem?_concat_length, splits⟩

end

theorem mem_paths_iff (world : World) (start : Descriptors) (program : List Request) :
    ∀ path, path ∈ (endings world start program).map Caller.path ↔ Born world program path := by
  induction program using List.reverseRecOn with
  | nil =>
      intro path
      have none : Born world [] path ↔ path = [] := by
        constructor
        · intro born
          refine List.eq_nil_iff_forall_not_mem.mpr fun index member => ?_
          exact absurd (born.index_lt index member) (Nat.not_lt_zero _)
        · rintro rfl
          exact born_nil
      rw [none]
      exact List.mem_singleton
  | append_singleton program request ih =>
      intro path
      rw [born_append, endings, Branching.leaves_concat, List.map_flatMap, List.mem_flatMap]
      constructor
      · rintro ⟨caller, reached, member⟩
        have born := (ih _).mp (List.mem_map_of_mem reached)
        rw [caller.call_paths, (endings_descend world start program caller reached).length] at member
        split at member
        next splits =>
          rcases List.mem_cons.mp member with child | same
          · exact Or.inr ⟨_, child, born, splits⟩
          · rw [List.mem_singleton.mp same]
            exact Or.inl born
        next => rw [List.mem_singleton.mp member]; exact Or.inl born
      · rintro (born | ⟨earlier, rfl, born, splits⟩)
        · obtain ⟨caller, reached, rfl⟩ := List.mem_map.mp ((ih _).mpr born)
          refine ⟨caller, reached, ?_⟩
          rw [caller.call_paths]
          split <;> simp
        · obtain ⟨caller, reached, rfl⟩ := List.mem_map.mp ((ih _).mpr born)
          refine ⟨caller, reached, ?_⟩
          rw [caller.call_paths, (endings_descend world start program caller reached).length,
            if_pos splits]
          exact List.mem_cons_self

theorem paths_nodup (world : World) (start : Descriptors) (program : List Request) :
    ((endings world start program).map Caller.path).Nodup := by
  refine Branching.nodup_leaves Caller.path (fun earlier path => path.takeWhile (· < earlier.length))
    ?_ program ?_
  · intro caller request
    rw [caller.call_paths]
    split <;> simp
  · intro earlier request caller next reached member
    have descends := endings_descend world start earlier caller reached
    obtain rfl | ⟨descriptors, -, rfl⟩ := Caller.call_cases member
    · exact takeWhile_earlier descends.path
    · rw [descends.length]
      exact (takeWhile_concat_of_not _ _ (by simp)).trans (takeWhile_earlier descends.path)

def Request.redirects : Request → Bool
  | .execRedirect _ _ => true
  | _ => false

theorem endings_length_le (world : World) (start : Descriptors) (program : List Request) :
    (endings world start program).length ≤ 2 ^ program.countP Request.redirects := by
  have narrow : ∀ caller request, (Caller.call world caller request).length ≤
      if request.redirects then 2 else 1 := by
    intro caller request
    rw [← List.length_map (f := Caller.path), caller.call_paths]
    cases request with
    | execRedirect outputfile command => split <;> simp [Request.redirects]
    | _ => exact Nat.le_refl 1
  refine (Branching.length_leaves_le narrow program).trans (Nat.le_of_eq ?_)
  induction program with
  | nil => rfl
  | cons request program ih =>
      rw [List.map_cons, List.prod_cons, ih, List.countP_cons]
      split
      · rw [Nat.pow_succ, Nat.mul_comm]
      · rw [Nat.one_mul, Nat.add_zero]

/-- The processes at the end are the first one and every child that returned from a redirected
call, each once; what each has been answered is what it and those before it met. -/
theorem endings_exact (world : World) (start : Descriptors) (program : List Request) :
    ((endings world start program).map Caller.path).Nodup ∧
      (∀ path, path ∈ (endings world start program).map Caller.path ↔ Born world program path) ∧
      (endings world start program).length ≤ 2 ^ program.countP Request.redirects ∧
      ∀ caller ∈ endings world start program,
        caller.answers = (lineage world program caller.path).map Passage.answer :=
  ⟨paths_nodup world start program, mem_paths_iff world start program,
    endings_length_le world start program,
    fun caller reached => (endings_descend world start program caller reached).answers⟩

/-! What the comments promise. -/

/-- The command was executed and came to a good end. -/
def Request.promised (request : Request) (outcomes : CallOutcomes) : Bool :=
  match request with
  | .system cmd => decide (outcomes.system cmd = 0)
  | .exec _ =>
      outcomes.fork && outcomes.execv && outcomes.waitpid && decide (outcomes.status = .exited 0)
  | .execRedirect _ _ =>
      outcomes.openFile && outcomes.fork && outcomes.dup2 && outcomes.execv && outcomes.waitpid &&
        decide (outcomes.status = .exited 0)

/-- A redirected command goes wrong only where the parent sees it: before the fork, or as it waits
for the child. -/
def Request.KeepsPromise (request : Request) (outcomes : CallOutcomes) : Prop :=
  match request with
  | .execRedirect _ _ =>
      outcomes.openFile = true → outcomes.fork = true → outcomes.dup2 = true ∧
        outcomes.execv = true ∧ (outcomes.waitpid = true → outcomes.status = .exited 0)
  | _ => True

theorem Request.keepsPromise_iff (request : Request) (outcomes : CallOutcomes) :
    request.KeepsPromise outcomes ↔
      request.splits outcomes = false ∧ request.answer outcomes = request.promised outcomes := by
  cases request with
  | execRedirect outputfile command =>
      cases opened : outcomes.openFile <;> cases forked : outcomes.fork <;>
        cases duplicated : outcomes.dup2 <;> cases executed : outcomes.execv <;>
        cases waited : outcomes.waitpid <;>
        simp [KeepsPromise, splits, answer, promised, opened, forked, duplicated, executed, waited]
  | _ => simp [KeepsPromise, splits, answer, promised]

theorem lineage_nil (world : World) (program : List Request) :
    (lineage world program []).map Passage.answer =
      program.mapIdx fun index request => request.answer (world [] index) := by
  refine List.ext_getElem? fun index => ?_
  simp [lineage, Passage.answer, Function.comp_def]

/-- One process comes to the end, answered as the comments promise, exactly when each redirected
command of the first process goes well or goes wrong before its child exists. -/
theorem endings_asPromised_iff (world : World) (start : Descriptors) (program : List Request) :
    (endings world start program).map Caller.answers =
        [program.mapIdx fun index request => request.promised (world [] index)] ↔
      ∀ (index : Nat) (request : Request), program[index]? = some request →
        request.KeepsPromise (world [] index) := by
  have nodup := paths_nodup world start program
  have born := mem_paths_iff world start program
  obtain ⟨first, reached, root⟩ := List.mem_map.mp ((born []).mpr born_nil)
  have given := (endings_descend world start program first reached).answers
  rw [root, lineage_nil] at given
  constructor
  · intro promised index request found
    obtain ⟨only, single⟩ : ∃ only, endings world start program = [only] := by
      refine List.length_eq_one_iff.mp ?_
      rw [← List.length_map (f := Caller.answers), promised, List.length_singleton]
    rw [single] at reached promised born
    rw [← List.mem_singleton.mp reached] at promised born
    refine (request.keepsPromise_iff _).mpr ⟨?_, ?_⟩
    · by_contra splits
      rw [Bool.not_eq_false] at splits
      have child : Born world program ([] ++ [index]) :=
        born_concat.mpr ⟨born_nil, by simp, request, found, splits⟩
      have member := (born _).mpr child
      rw [List.map_singleton, List.mem_singleton, root] at member
      cases member
    · have same := given.symm.trans (List.singleton_inj.mp promised)
      have here := congrArg (fun values => values[index]?) same
      simpa [List.getElem?_mapIdx, found] using here
  · intro kept
    have whole : ∀ path, Born world program path → path = [] := by
      rintro (_ | ⟨index, later⟩) child
      · rfl
      · obtain ⟨request, found, splits⟩ := child.splits [] index (by simp)
        rw [((request.keepsPromise_iff _).mp (kept index request found)).1] at splits
        cases splits
    have single : (endings world start program).map Caller.path = [[]] := by
      refine List.perm_singleton.mp
        ((List.perm_ext_iff_of_nodup nodup (List.nodup_singleton [])).mpr fun path => ?_)
      rw [born path, List.mem_singleton]
      exact ⟨whole path, fun root => root ▸ born_nil⟩
    obtain ⟨only, alone⟩ : ∃ only, endings world start program = [only] := by
      refine List.length_eq_one_iff.mp ?_
      rw [← List.length_map (f := Caller.path), single, List.length_singleton]
    rw [alone] at reached ⊢
    rw [← List.mem_singleton.mp reached, List.map_singleton, given]
    refine congrArg (fun values => [values]) (List.mapIdx_eq_mapIdx_iff.mpr fun index bound => ?_)
    exact ((Request.keepsPromise_iff _ _).mp (kept index _ (List.getElem?_eq_getElem bound))).2

def terminal : Descriptors := [some "tty", some "tty", some "tty"]

def echoThenList : List Request :=
  [.execRedirect "output.txt" ["/bin/echo", "hello"], .exec ["/bin/ls"]]

/-- The first process has no `/bin/echo`. -/
def withoutEcho : World := fun path index => { execv := decide (path ≠ [] ∨ index ≠ 0) }

example : (endings withoutEcho terminal echoThenList).map Caller.answers =
    [[false, true], [true, true]] := by decide

/-! Descriptors. -/

/-- The child of a redirected call has the output file for its standard output. -/
def Passage.stdout (before : Option String) (passage : Passage) : Option String :=
  match passage.request with
  | .execRedirect outputfile _ =>
      if passage.child && passage.outcomes.dup2 then some outputfile else before
  | _ => before

/-- The output file is left open, unless a child has put it in the place of standard output. -/
def Passage.leaks (passage : Passage) : Bool :=
  match passage.request with
  | .execRedirect _ _ => passage.outcomes.openFile && !(passage.child && passage.outcomes.dup2)
  | _ => false

/-- From one table of descriptors to another: standard output is as given, `more` are open besides,
and all others are as they were. -/
structure Becomes (before after : Descriptors) (stdout : Option String) (more : Nat) : Prop where
  stdout : Slots.get after 1 = stdout
  used : Slots.used after = Slots.used before + more
  kept : ∀ fd, fd ≠ 1 → Slots.get before fd ≠ none → Slots.get after fd = Slots.get before fd

theorem Becomes.refl (descriptors : Descriptors) :
    Becomes descriptors descriptors (Slots.get descriptors 1) 0 :=
  ⟨rfl, rfl, fun _ _ _ => rfl⟩

theorem Becomes.trans {before middle after : Descriptors} {first second : Option String}
    {more further : Nat} (becomes : Becomes before middle first more)
    (goesOn : Becomes middle after second further) : Becomes before after second (more + further) := by
  refine ⟨goesOn.stdout, by rw [goesOn.used, becomes.used, Nat.add_assoc], fun fd other filled => ?_⟩
  have same := becomes.kept fd other filled
  rw [goesOn.kept fd other (by rw [same]; exact filled), same]

section

variable {descriptors given : Descriptors} (outcomes : CallOutcomes)

theorem lowest_ne_stdout (opened : Slots.get descriptors 1 ≠ none) :
    Slots.lowest descriptors ≠ 1 :=
  fun same => opened (same ▸ Slots.get_lowest descriptors)

theorem openedTable_becomes (opened : Slots.get descriptors 1 ≠ none) (outputfile : String) :
    Becomes descriptors (openedTable descriptors outputfile) (Slots.get descriptors 1) 1 := by
  have free := Slots.get_lowest descriptors
  have other := lowest_ne_stdout opened
  have counted := Slots.used_put descriptors (Slots.lowest descriptors) (some outputfile)
  rw [free] at counted
  refine ⟨by simp [openedTable, other.symm], by simpa [openedTable] using counted, fun fd _ filled => ?_⟩
  have elsewhere : fd ≠ Slots.lowest descriptors := fun same => filled (same ▸ free)
  simp [openedTable, elsewhere]

theorem redirectedTable_becomes (opened : Slots.get descriptors 1 ≠ none) (outputfile : String) :
    Becomes descriptors (redirectedTable descriptors outputfile) (some outputfile) 0 := by
  have opens := openedTable_becomes opened outputfile
  have other := lowest_ne_stdout opened
  have filled : (Slots.get descriptors 1).isSome = true := Option.isSome_iff_ne_none.mpr opened
  have file : Slots.get (openedTable descriptors outputfile) (Slots.lowest descriptors) =
      some outputfile := by simp [openedTable]
  have moved := Slots.used_put (openedTable descriptors outputfile) 1 (some outputfile)
  have closed := Slots.used_put (Slots.put (openedTable descriptors outputfile) 1 (some outputfile))
    (Slots.lowest descriptors) none
  rw [opens.stdout, opens.used, filled] at moved
  rw [Slots.get_put, if_neg other, file] at closed
  simp only [Option.isSome_some, Option.isSome_none, Bool.toNat_true, Bool.toNat_false]
    at moved closed
  refine ⟨by simp [redirectedTable, other.symm], ?_, fun fd elsewhere taken => ?_⟩
  · rw [redirectedTable]
    omega
  · have apart : fd ≠ Slots.lowest descriptors := fun same => taken (same ▸ Slots.get_lowest _)
    simp [redirectedTable, openedTable, elsewhere, apart]

theorem Request.perform_returns (request : Request) (opened : Slots.get descriptors 1 ≠ none) :
    Becomes descriptors (request.perform outcomes descriptors).descriptors
      (Passage.stdout (Slots.get descriptors 1) ⟨request, outcomes, false⟩)
      (Passage.leaks ⟨request, outcomes, false⟩).toNat := by
  cases request with
  | system cmd =>
      rw [perform, (doSystem_keeps outcomes descriptors cmd).2]
      exact Becomes.refl descriptors
  | exec command =>
      rw [perform, (doExec_keeps outcomes descriptors command).2]
      exact Becomes.refl descriptors
  | execRedirect outputfile command =>
      have opens := openedTable_becomes opened outputfile
      rw [perform, Passage.leaks]
      obtain ⟨unopened, result⟩ | ⟨made, -, result⟩ | ⟨made, -, -, result⟩ |
        ⟨made, -, -, -, result⟩ | ⟨made, -, -, -, result⟩ :=
        doExecRedirect_cases outcomes descriptors outputfile command
      · rw [result, unopened]
        exact Becomes.refl descriptors
      all_goals
        rw [result, made]
        exact opens

theorem Request.perform_splits (request : Request) (opened : Slots.get descriptors 1 ≠ none)
    {answer : Bool}
    (returned : (request.perform outcomes descriptors).child = some (answer, given)) :
    Becomes descriptors given (Passage.stdout (Slots.get descriptors 1) ⟨request, outcomes, true⟩)
      (Passage.leaks ⟨request, outcomes, true⟩).toNat := by
  cases request with
  | system cmd =>
      rw [perform, (doSystem_keeps outcomes descriptors cmd).1] at returned
      cases returned
  | exec command =>
      rw [perform, (doExec_keeps outcomes descriptors command).1] at returned
      cases returned
  | execRedirect outputfile command =>
      rw [perform] at returned
      rw [Passage.leaks, Passage.stdout]
      obtain ⟨-, result⟩ | ⟨-, -, result⟩ | ⟨made, -, failed, result⟩ |
        ⟨made, -, moved, -, result⟩ | ⟨-, -, -, -, result⟩ :=
        doExecRedirect_cases outcomes descriptors outputfile command
      · rw [result] at returned
        cases returned
      · rw [result] at returned
        cases returned
      · rw [result] at returned
        cases returned
        rw [made, failed]
        exact openedTable_becomes opened outputfile
      · rw [result] at returned
        cases returned
        rw [made, moved]
        exact redirectedTable_becomes opened outputfile
      · rw [result] at returned
        cases returned

/-- The standard output of the command that a call executes. -/
def Request.stdout (before : Option String) : Request → Option String
  | .execRedirect outputfile _ => some outputfile
  | _ => before

theorem Request.perform_executes (request : Request) (opened : Slots.get descriptors 1 ≠ none)
    {command : List String}
    (ran : (request.perform outcomes descriptors).executed = some (command, given)) :
    Becomes descriptors given (request.stdout (Slots.get descriptors 1)) 0 := by
  cases request with
  | system cmd =>
      have none : (doSystem outcomes cmd descriptors).executed = none := by
        rw [doSystem]
        split <;> rfl
      rw [perform, none] at ran
      cases ran
  | exec command =>
      rw [perform, doExec_executed] at ran
      split at ran
      · cases ran
        exact Becomes.refl descriptors
      · cases ran
  | execRedirect outputfile command =>
      rw [perform] at ran
      obtain ⟨-, result⟩ | ⟨-, -, result⟩ | ⟨-, -, -, result⟩ | ⟨-, -, -, -, result⟩ |
        ⟨-, -, -, -, result⟩ := doExecRedirect_cases outcomes descriptors outputfile command
      case inr.inr.inr.inr =>
        rw [result] at ran
        cases ran
        exact redirectedTable_becomes opened outputfile
      all_goals
        rw [result] at ran
        cases ran

end

theorem Passage.stdout_ne_none {before : Option String} (opened : before ≠ none)
    (passage : Passage) : passage.stdout before ≠ none := by
  rw [Passage.stdout]
  split
  · split
    · exact Option.some_ne_none _
    · exact opened
  · exact opened

theorem stdout_open {start : Option String} (opened : start ≠ none) (passages : List Passage) :
    passages.foldl Passage.stdout start ≠ none := by
  induction passages generalizing start with
  | nil => exact opened
  | cons passage passages ih => exact ih (passage.stdout_ne_none opened)

theorem countP_leaks_singleton (passage : Passage) :
    [passage].countP Passage.leaks = passage.leaks.toNat := by
  rw [List.countP_singleton]
  cases passage.leaks <;> rfl

structure Inherits (world : World) (start : Descriptors) (program : List Request)
    (caller : Caller) : Prop where
  descends : Descends world program caller
  becomes : Becomes start caller.descriptors
    ((lineage world program caller.path).foldl Passage.stdout (Slots.get start 1))
    ((lineage world program caller.path).countP Passage.leaks)

theorem Inherits.call {world : World} {start : Descriptors} {program : List Request}
    {caller next : Caller} (inherits : Inherits world start program caller)
    (opened : Slots.get start 1 ≠ none) {request : Request}
    (member : next ∈ caller.call world request) :
    Inherits world start (program ++ [request]) next := by
  obtain ⟨descends, became⟩ := inherits
  refine ⟨descends.call member, ?_⟩
  have still : Slots.get caller.descriptors 1 ≠ none := by
    rw [became.stdout]
    exact stdout_open opened _
  obtain rfl | ⟨descriptors, child, rfl⟩ := Caller.call_cases member
  · rw [lineage_returned descends.path, List.foldl_concat, List.countP_append,
      countP_leaks_singleton, ← became.stdout, ← descends.length]
    exact became.trans (request.perform_returns _ still)
  · rw [descends.length, lineage_child descends.path, List.foldl_concat, List.countP_append,
      countP_leaks_singleton, ← became.stdout, ← descends.length]
    exact became.trans (request.perform_splits _ still child)

/-- A process at the end has the standard output that the last redirection on its way has left it,
and one descriptor more for each output file that was left open; what it executes next gets these. -/
theorem endings_descriptors (world : World) (start : Descriptors) (program : List Request)
    (opened : Slots.get start 1 ≠ none) :
    ∀ caller ∈ endings world start program,
      Becomes start caller.descriptors
          ((lineage world program caller.path).foldl Passage.stdout (Slots.get start 1))
          ((lineage world program caller.path).countP Passage.leaks) ∧
        ∀ request command given, (caller.forked world request).executed = some (command, given) →
          Becomes caller.descriptors given (request.stdout (Slots.get caller.descriptors 1)) 0 := by
  have came : ∀ caller ∈ endings world start program, Inherits world start program caller :=
    Branching.kept_leaves (Inherits world start) ⟨⟨by simp, rfl⟩, Becomes.refl start⟩
      (fun _ _ _ _ inherits member => inherits.call opened member) program
  intro caller reached
  have became := (came caller reached).becomes
  refine ⟨became, fun request command given ran => ?_⟩
  exact request.perform_executes _ (by rw [became.stdout]; exact stdout_open opened _) ran

/-- The child that could not become `/bin/echo` has listed the directory into the output file. -/
def lister : Caller := ⟨[0], [false, true], [some "tty", some "output.txt", some "tty", none]⟩

theorem endings_descriptors_lister :
    Becomes terminal lister.descriptors (some "output.txt") 0 ∧
      ∀ request command given,
        (lister.forked withoutEcho request).executed = some (command, given) →
        Becomes lister.descriptors given (request.stdout (some "output.txt")) 0 :=
  endings_descriptors withoutEcho terminal echoThenList (by decide) lister (by decide)

end Aesd
