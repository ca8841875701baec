import Aesd.WritersSteps

/-!
Calls of `aesd_write` whose statements interleave in any order, with one call at a time inside
`aesd_circular_buffer_add_entry`: the driver is then where the calls alone lead to, one after
the other in the order in which they left it.
-/

namespace Aesd

open Cells

/-! Outside `aesd_circular_buffer_add_entry`. -/

def Writer.attempt (writer : Writer) : Attempt :=
  { call := .write writer.file writer.buf, writes := writer.outcomes }

/-- The file is not open, or one of the calls that are checked fails. -/
def Writer.Refused (files : Nat → File) (writer : Writer) : Prop :=
  (files writer.file).privateData = false ∨ writer.outcomes.Refused

/-- The chunk will not be refused, or has been taken. -/
def Stage.past : Stage → Bool
  | .release _ => true
  | .returned ret => 0 ≤ ret
  | _ => false

def Filling (kbuf : Pointer) (size : Nat) (cells : List (Cell UInt8)) : Prop :=
  ∃ address, ∃ filling : Bytes, kbuf = some address ∧ filling.length = size ∧
    cells = [⟨address, filling⟩]

/-- The block that a call has at a statement, and what it has found out on the way. -/
def Writer.Holds (files : Nat → File) (writer : Writer) (cells : List (Cell UInt8)) : Prop :=
  match writer.stage with
  | .begin => cells = []
  | .check kbuf =>
      (files writer.file).privateData = true ∧ writer.outcomes.kmalloc = true ∧
        Filling kbuf writer.buf.length cells
  | .clear kbuf | .copy kbuf =>
      (files writer.file).privateData = true ∧ writer.outcomes.kmalloc = true ∧
        writer.outcomes.accessOk = true ∧ Filling kbuf writer.buf.length cells
  | .add kbuf _ | .release kbuf =>
      ¬ writer.Refused files ∧ ∃ address, kbuf = some address ∧ cells = [⟨address, writer.buf⟩]
  | .returned ret =>
      cells = [] ∧
        if 0 ≤ ret then ret = writer.buf.length ∧ ¬ writer.Refused files else writer.Refused files
  | .faulted _ => False

/-- A statement that touches nothing but the call's own block. -/
structure Aside (files : Nat → File) (sys : HeapSys) (writer : Writer) (rest : List (Cell UInt8))
    (stage : Stage) (memory : Memory) (kept : List (Cell UInt8)) : Prop where
  holds : { writer with stage }.Holds files kept
  splits : Splits memory (kept ++ rest)
  inside : stage.inside = false
  past : stage.past = writer.stage.past

theorem Writer.run_aside {allocator : Allocator UInt8} {sys : HeapSys} {writer : Writer}
    {cells rest : List (Cell UInt8)} (holds : writer.Holds sys.files cells)
    (nonempty : writer.buf ≠ []) (present : sys.buffer ≠ none)
    (splits : Splits sys.memory (cells ++ rest)) {result : Except Fault (Stage × HeapSys)}
    (ran : writer.run allocator sys = some result)
    (outside : ∀ kbuf place, writer.stage ≠ .add kbuf place) :
    ∃ stage memory kept, result = .ok (stage, { sys with memory }) ∧
      Aside sys.files sys writer rest stage memory kept := by
  obtain ⟨file, buf, outcomes, stage⟩ := writer
  cases stage with
  | begin =>
      obtain rfl : cells = [] := holds
      simp only [Writer.run, Option.some.injEq] at ran
      subst ran
      by_cases closed : (sys.files file).privateData = false
      · rw [if_pos closed]
        exact ⟨_, sys.memory, [], rfl, ⟨rfl, .inl closed⟩, splits, rfl, rfl⟩
      by_cases denied : outcomes.kmalloc = false
      · rw [if_neg closed, if_neg present, denied]
        exact ⟨_, sys.memory, [], rfl, ⟨rfl, .inr (.inl denied)⟩, splits, rfl, rfl⟩
      rw [Bool.not_eq_false] at closed denied
      obtain ⟨address, filling, next, called, sized, splits⟩ :=
        Memory.kmalloc_splits splits allocator buf.length
      rw [if_neg (by simp [closed]), if_neg present, denied, called]
      exact ⟨_, next, _, rfl, ⟨closed, denied, address, filling, rfl, sized, rfl⟩, splits, rfl, rfl⟩
  | check kbuf =>
      obtain ⟨opened, given, address, filling, rfl, sized, rfl⟩ := holds
      simp only [Writer.run, Option.some.injEq] at ran
      subst ran
      rw [loadLast_block nonempty, ok_bind]
      by_cases inaccessible : outcomes.accessOk = false
      · obtain ⟨next, released, splits⟩ := Memory.kfree_splits splits
        rw [if_pos inaccessible, released]
        exact ⟨_, next, [], rfl, ⟨rfl, .inr (.inr (.inl inaccessible))⟩, splits, rfl, rfl⟩
      · rw [if_neg inaccessible]
        rw [Bool.not_eq_false] at inaccessible
        exact ⟨_, sys.memory, _, rfl, ⟨opened, given, inaccessible, address, filling, rfl, sized,
          rfl⟩, splits, rfl, rfl⟩
  | clear kbuf =>
      obtain ⟨opened, given, accessible, address, filling, rfl, sized, rfl⟩ := holds
      simp only [Writer.run, Option.some.injEq] at ran
      subst ran
      obtain ⟨next, stored, splits⟩ := Memory.fill_splits splits (List.replicate buf.length 0)
        (by rw [List.length_replicate, sized])
      rw [stored]
      exact ⟨_, next, _, rfl, ⟨opened, given, accessible, address, _, rfl,
        List.length_replicate, rfl⟩, splits, rfl, rfl⟩
  | copy kbuf =>
      obtain ⟨opened, given, accessible, address, filling, rfl, sized, rfl⟩ := holds
      simp only [Writer.run, Option.some.injEq] at ran
      subst ran
      by_cases uncopied : outcomes.copyFromUser = false
      · obtain ⟨next, released, splits⟩ := Memory.kfree_splits splits
        rw [if_pos uncopied, released]
        exact ⟨_, next, [], rfl, ⟨rfl, .inr (.inr (.inr uncopied))⟩, splits, rfl, rfl⟩
      · obtain ⟨next, stored, splits⟩ := Memory.fill_splits splits buf sized.symm
        rw [if_neg uncopied, stored]
        have served : ¬ Writer.Refused sys.files
            ⟨file, buf, outcomes, .add (some address) .saveCurrent⟩ := by
          simpa [Writer.Refused, WriteOutcomes.Refused, opened, uncopied] using
            And.intro given accessible
        exact ⟨_, next, _, rfl, ⟨served, address, rfl, rfl⟩, splits, rfl, rfl⟩
  | add kbuf place => exact absurd rfl (outside kbuf place)
  | release kbuf =>
      obtain ⟨served, address, rfl, rfl⟩ := holds
      simp only [Writer.run, Option.some.injEq] at ran
      subst ran
      obtain ⟨next, released, splits⟩ := Memory.kfree_splits splits
      rw [released]
      refine ⟨_, next, [], rfl, ⟨rfl, ?_⟩, splits, rfl, ?_⟩
      · rw [if_pos (Int.natCast_nonneg _)]
        exact ⟨rfl, served⟩
      · simp [Stage.past]
  | returned ret => cases ran
  | faulted reason => cases ran

theorem Writer.Holds.goes_on {files : Nat → File} {writer : Writer} {cells : List (Cell UInt8)}
    (holds : writer.Holds files cells) (unfinished : ∀ ret, writer.stage ≠ .returned ret)
    (allocator : Allocator UInt8) (sys : HeapSys) :
    ∃ result, writer.run allocator sys = some result := by
  obtain ⟨file, buf, outcomes, stage⟩ := writer
  cases stage with
  | returned ret => exact absurd rfl (unfinished ret)
  | faulted reason => exact holds.elim
  | _ => exact ⟨_, rfl⟩

/-- Inside, and on the way out, a call has its chunk. -/
theorem Writer.Holds.inside {files : Nat → File} {writer : Writer} {cells : List (Cell UInt8)}
    (holds : writer.Holds files cells) {kbuf : Pointer} {place : AddPlace}
    (stage : writer.stage = .add kbuf place) :
    ¬ writer.Refused files ∧ ∃ address, kbuf = some address ∧ cells = [⟨address, writer.buf⟩] := by
  rw [Writer.Holds, stage] at holds
  exact holds

/-! All calls together. -/

/-- The calls that have left `aesd_circular_buffer_add_entry`, in that order. -/
def serialOf (attempts : List Attempt) (left : List Nat) : List Attempt :=
  left.filterMap fun index => attempts[index]?

/-- Whether somebody is inside, and in the middle of what. -/
inductive Occupied (buffer : CircularBuffer) (pending : Bytes) (pointers : PointerBuffer)
    (tmpEntry : PointerEntry) (tmp own : List (Cell UInt8)) (writers : List Writer) : Prop
  | nobody (between : Between buffer pending pointers tmpEntry tmp own)
      (outside : ∀ (other : Nat) (another : Writer), writers[other]? = some another →
        another.stage.inside = false)
  | somebody {index : Nat} {writer : Writer} {kbuf : Pointer} {place : AddPlace}
      (present : writers[index]? = some writer) (stage : writer.stage = .add kbuf place)
      (amid : Amid buffer pending writer.buf pointers tmpEntry tmp own place)
      (alone : ∀ (other : Nat) (another : Writer), writers[other]? = some another →
        another.stage.inside = true → other = index)

/-- The memory: what the driver owns or somebody inside has in hand, a block for each call that
has one, what is lost, the buffer's structure, and what others had. -/
structure Shares (address : Nat) (foreign : List (Cell UInt8)) (all : Writers)
    (buffer : CircularBuffer) (chunks : List Bytes) (pointers : PointerBuffer)
    (own tmp lost : List (Cell UInt8)) (kbufs : List (List (Cell UInt8))) : Prop where
  present : all.sys.buffer = some (address, pointers)
  occupied : Occupied buffer (pendingOf chunks) pointers all.sys.tmpEntry tmp own all.writers
  pending : tmp.map Sigma.snd = partialBlock (pendingOf chunks)
  contents : lost.map Sigma.snd = lostBlocks chunks
  sized : kbufs.length = all.writers.length
  holds : ∀ (index : Nat) (writer : Writer), all.writers[index]? = some writer →
    ∃ cells, kbufs[index]? = some cells ∧ writer.Holds all.sys.files cells
  splits : Splits all.sys.memory
    (own ++ (kbufs.flatten ++ (lost ++ structCell address :: foreign)))

/-- The driver after some steps, beside the owning driver after the calls that have left. -/
structure Running (address : Nat) (foreign : List (Cell UInt8)) (base : Sys)
    (attempts : List Attempt) (all : Writers) : Prop where
  requests : all.writers.map Writer.attempt = attempts
  once : all.left.Nodup
  left : ∀ (index : Nat) (writer : Writer), all.writers[index]? = some writer →
    (index ∈ all.left ↔ writer.stage.past = true)
  files : all.sys.files = base.files
  serialFiles : (base.attemptAll (serialOf attempts all.left)).files = base.files
  held : ∃ buffer chunks pointers own tmp lost kbufs,
    (base.attemptAll (serialOf attempts all.left)).Follows chunks buffer ∧
      (∀ chunk ∈ chunks, chunk ≠ []) ∧
      Shares address foreign all buffer chunks pointers own tmp lost kbufs

theorem eq_or_of_getElem?_set {α : Type*} {values : List α} {index other : Nat} {value found : α}
    (present : (values.set index value)[other]? = some found) :
    (other = index ∧ found = value) ∨ (other ≠ index ∧ values[other]? = some found) := by
  rw [List.getElem?_set] at present
  split at present
  next same =>
    split at present
    · exact .inl ⟨same.symm, (Option.some.inj present).symm⟩
    · cases present
  next differ => exact .inr ⟨fun same => differ same.symm, present⟩

theorem map_set_of_eq {α β : Type*} (image : α → β) {values : List α} {index : Nat}
    {value before : α} (present : values[index]? = some before)
    (same : image value = image before) :
    (values.set index value).map image = values.map image := by
  obtain ⟨bound, rfl⟩ := List.getElem?_eq_some_iff.mp present
  rw [List.map_set, same, ← List.map_set, List.set_getElem_self]

section

variable {address : Nat} {foreign : List (Cell UInt8)} {base : Sys} {attempts : List Attempt}
  {all : Writers} {index : Nat} {writer : Writer}

/-- A statement outside leaves what is inside alone. -/
theorem Occupied.aside {buffer : CircularBuffer} {pending : Bytes} {pointers : PointerBuffer}
    {tmpEntry : PointerEntry} {tmp own : List (Cell UInt8)}
    (occupied : Occupied buffer pending pointers tmpEntry tmp own all.writers)
    (present : all.writers[index]? = some writer)
    (outside : ∀ kbuf place, writer.stage ≠ .add kbuf place) {stage : Stage}
    (still : stage.inside = false) :
    Occupied buffer pending pointers tmpEntry tmp own
      (all.writers.set index { writer with stage }) := by
  cases occupied with
  | nobody between nobody =>
      refine .nobody between fun other another found => ?_
      rcases eq_or_of_getElem?_set found with ⟨-, rfl⟩ | ⟨-, found⟩
      · exact still
      · exact nobody other another found
  | @somebody inside holder kbuf place found entered amid alone =>
      have elsewhere : index ≠ inside := by
        rintro rfl
        rw [Option.some.inj (present.symm.trans found)] at outside
        exact outside kbuf place entered
      have kept : (all.writers.set index { writer with stage })[inside]? = some holder := by
        rw [List.getElem?_set_ne elsewhere, found]
      refine .somebody kept entered amid fun other another found within => ?_
      rcases eq_or_of_getElem?_set found with ⟨-, rfl⟩ | ⟨-, found⟩
      · rw [still] at within
        cases within
      · exact alone other another found within

/-! Steps. -/

/-- What changes when a call goes on to its next statement. -/
theorem Running.moved (running : Running address foreign base attempts all)
    (present : all.writers[index]? = some writer) {stage : Stage} (past : stage.past = writer.stage.past)
    {sys : HeapSys} (files : sys.files = all.sys.files)
    (held : ∃ buffer chunks pointers own tmp lost kbufs,
      (base.attemptAll (serialOf attempts all.left)).Follows chunks buffer ∧
        (∀ chunk ∈ chunks, chunk ≠ []) ∧
        Shares address foreign ⟨sys, all.writers.set index { writer with stage }, all.left⟩ buffer
          chunks pointers own tmp lost kbufs) :
    Running address foreign base attempts
      ⟨sys, all.writers.set index { writer with stage }, all.left⟩ := by
  refine ⟨?_, running.once, fun other another found => ?_, files.trans running.files,
    running.serialFiles, held⟩
  · rw [← running.requests]
    exact map_set_of_eq Writer.attempt present rfl
  · rcases eq_or_of_getElem?_set found with ⟨rfl, rfl⟩ | ⟨-, found⟩
    · exact (running.left other writer present).trans (by rw [past])
    · exact running.left other another found

theorem Shares.holds_set {buffer : CircularBuffer} {chunks : List Bytes} {pointers : PointerBuffer}
    {own tmp lost cells kept : List (Cell UInt8)} {kbufs : List (List (Cell UInt8))}
    (shares : Shares address foreign all buffer chunks pointers own tmp lost kbufs)
    (owned : kbufs[index]? = some cells) {stage : Stage}
    (holds : { writer with stage }.Holds all.sys.files kept) {other : Nat} {another : Writer}
    (found : (all.writers.set index { writer with stage })[other]? = some another) :
    ∃ cells, (kbufs.set index kept)[other]? = some cells ∧ another.Holds all.sys.files cells := by
  rcases eq_or_of_getElem?_set found with ⟨rfl, rfl⟩ | ⟨differ, found⟩
  · obtain ⟨bound, -⟩ := List.getElem?_eq_some_iff.mp owned
    exact ⟨kept, List.getElem?_set_self bound, holds⟩
  · obtain ⟨cells, has, holds⟩ := shares.holds other another found
    exact ⟨cells, by rw [List.getElem?_set_ne differ.symm, has], holds⟩

theorem Running.aside (running : Running address foreign base attempts all)
    (present : all.writers[index]? = some writer) (nonempty : writer.buf ≠ [])
    (outside : ∀ kbuf place, writer.stage ≠ .add kbuf place) {allocator : Allocator UInt8}
    {result : Except Fault (Stage × HeapSys)} (ran : writer.run allocator all.sys = some result) :
    Running address foreign base attempts (all.advance index writer result) := by
  obtain ⟨buffer, chunks, pointers, own, tmp, lost, kbufs, follows, filled, shares⟩ := running.held
  obtain ⟨cells, owned, holds⟩ := shares.holds index writer present
  have exists_buffer : all.sys.buffer ≠ none := by simp [shares.present]
  obtain ⟨stage, memory, kept, rfl, aside⟩ := Writer.run_aside holds nonempty exists_buffer
    (shares.splits.takePlace owned) ran outside
  have still : (writer.stage.inside && !stage.inside) = false := by
    cases stage : writer.stage with
    | add kbuf place => exact absurd stage (outside kbuf place)
    | _ => rfl
  rw [Writers.advance, still]
  refine running.moved present aside.past rfl ⟨buffer, chunks, pointers, own, tmp, lost,
    kbufs.set index kept, follows, filled, shares.present, ?_, shares.pending, shares.contents,
    by simp [shares.sized], fun other another found => shares.holds_set owned aside.holds found,
    aside.splits.putPlace owned⟩
  exact shares.occupied.aside present outside aside.inside

theorem serialOf_concat (requests : all.writers.map Writer.attempt = attempts)
    (present : all.writers[index]? = some writer) :
    serialOf attempts (all.left ++ [index]) = serialOf attempts all.left ++ [writer.attempt] := by
  have request : attempts[index]? = some writer.attempt := by
    rw [← requests, List.getElem?_map, present, Option.map_some]
  simp [serialOf, List.filterMap_append, request]

section

variable {buffer : CircularBuffer} {chunks : List Bytes} {pointers : PointerBuffer}
  {own tmp lost : List (Cell UInt8)} {kbufs : List (List (Cell UInt8))}
  (shares : Shares address foreign all buffer chunks pointers own tmp lost kbufs)
  (present : all.writers[index]? = some writer)

include shares present

theorem Shares.set_holding {stage : Stage}
    (holds : ∀ cells, writer.Holds all.sys.files cells →
      { writer with stage }.Holds all.sys.files cells) {other : Nat} {another : Writer}
    (found : (all.writers.set index { writer with stage })[other]? = some another) :
    ∃ cells, kbufs[other]? = some cells ∧ another.Holds all.sys.files cells := by
  obtain ⟨cells, owned, held⟩ := shares.holds index writer present
  have same : kbufs.set index cells = kbufs := by
    obtain ⟨bound, rfl⟩ := List.getElem?_eq_some_iff.mp owned
    exact List.set_getElem_self bound
  have kept := shares.holds_set owned (holds cells held) found
  rwa [same] at kept

variable (running : Running address foreign base attempts all)
  (follows : (base.attemptAll (serialOf attempts all.left)).Follows chunks buffer)
  (filled : ∀ chunk ∈ chunks, chunk ≠ []) {kbuf : Pointer} {place : AddPlace}
  (stage : writer.stage = .add kbuf place)

include running follows stage

/-- The call that leaves is the next of the serial run. -/
theorem Running.serial (sound : writer.attempt.Sound) :
    (base.attemptAll (serialOf attempts (all.left ++ [index]))).files = base.files ∧
      (base.attemptAll (serialOf attempts (all.left ++ [index]))).Follows (chunks ++ [writer.buf])
        (if endsCommand writer.buf then buffer.store (pendingOf chunks ++ writer.buf) else buffer) := by
  obtain ⟨nonempty, served⟩ := sound writer.file writer.buf rfl
  obtain ⟨cells, -, holds⟩ := shares.holds index writer present
  obtain ⟨opened, checked⟩ := not_or.mp (holds.inside stage).1
  rw [running.files, ← running.serialFiles] at opened
  obtain ⟨next, wrote, files, appended, -⟩ := follows.appends nonempty {} (by simpa using opened)
    checked (served.resolve_left checked)
  have serial : base.attemptAll (serialOf attempts (all.left ++ [index])) = next := by
    rw [serialOf_concat running.requests present, Sys.attemptAll, Simulation.after_append]
    exact congrArg Prod.snd wrote
  rw [serial]
  exact ⟨files.trans running.serialFiles, appended⟩

variable (alone : ∀ (other : Nat) (another : Writer), all.writers[other]? = some another →
  another.stage.inside = true → other = index) {state : HeapState}

include alone filled

theorem Running.goes_on {next : AddPlace} {grown : List (Cell UInt8)}
    (amid : Amid buffer (pendingOf chunks) writer.buf state.buffer state.tmpEntry tmp grown next)
    (splits : Splits state.memory
      (grown ++ (kbufs.flatten ++ (lost ++ structCell address :: foreign)))) :
    Running address foreign base attempts
      ⟨{ all.sys with
          memory := state.memory, buffer := some (address, state.buffer),
          tmpEntry := state.tmpEntry },
        all.writers.set index { writer with stage := .add kbuf next }, all.left⟩ := by
  obtain ⟨bound, -⟩ := List.getElem?_eq_some_iff.mp present
  have holds (cells) (holds : writer.Holds all.sys.files cells) :
      { writer with stage := .add kbuf next }.Holds all.sys.files cells := holds.inside stage
  refine running.moved present (by rw [stage]; rfl) rfl ⟨buffer, chunks, state.buffer, grown, tmp,
    lost, kbufs, follows, filled, rfl, ?_, shares.pending, shares.contents, by simp [shares.sized],
    fun other another found => shares.set_holding present holds found, splits⟩
  refine .somebody (List.getElem?_set_self bound) rfl amid fun other another found within => ?_
  rcases eq_or_of_getElem?_set found with ⟨same, -⟩ | ⟨-, found⟩
  · exact same
  · exact alone other another found within

theorem Running.leaves (sound : writer.attempt.Sound) {kept after : List (Cell UInt8)}
    (between : Between
      (if endsCommand writer.buf then buffer.store (pendingOf chunks ++ writer.buf) else buffer)
      (if endsCommand writer.buf then [] else pendingOf chunks ++ writer.buf) state.buffer
      state.tmpEntry after kept)
    (splits : Splits state.memory
      (kept ++ tmp ++ (kbufs.flatten ++ (lost ++ structCell address :: foreign)))) :
    Running address foreign base attempts
      ⟨{ all.sys with
          memory := state.memory, buffer := some (address, state.buffer),
          tmpEntry := state.tmpEntry },
        all.writers.set index { writer with stage := .release kbuf }, all.left ++ [index]⟩ := by
  obtain ⟨serialFiles, appended⟩ := running.serial shares present follows stage sound
  have absent : index ∉ all.left := by
    simp [running.left index writer present, stage, Stage.past]
  have holds (cells) (holds : writer.Holds all.sys.files cells) :
      { writer with stage := .release kbuf }.Holds all.sys.files cells := holds.inside stage
  refine ⟨?_, ?_, fun other another found => ?_, running.files, serialFiles, _,
    chunks ++ [writer.buf], state.buffer, kept, after, lost ++ tmp, kbufs, appended, ?_, rfl, ?_, ?_,
    ?_, by simp [shares.sized],
    fun other another found => shares.set_holding present holds found, ?_⟩
  · rw [← running.requests]
    exact map_set_of_eq Writer.attempt present rfl
  · rw [← List.concat_eq_append]
    exact running.once.concat absent
  · rcases eq_or_of_getElem?_set found with ⟨rfl, rfl⟩ | ⟨differ, found⟩
    · simp [Stage.past]
    · rw [← running.left other another found]
      simp [differ]
  · have nonempty := (sound writer.file writer.buf rfl).1
    exact List.forall_mem_append.mpr ⟨filled, List.forall_mem_singleton.mpr nonempty⟩
  · rw [pendingOf_concat]
    refine .nobody between fun other another found => ?_
    rcases eq_or_of_getElem?_set found with ⟨-, rfl⟩ | ⟨differ, found⟩
    · rfl
    · exact Bool.eq_false_iff.mpr fun within => differ (alone other another found within)
  · obtain ⟨table, mirrors, owns, -⟩ := between
    rw [pendingOf_concat]
    exact owns.contents
  · rw [List.map_append, shares.contents, shares.pending, lostBlocks_concat]
  · refine splits.regroup fun cell => ?_
    simp only [List.count_append, List.count_cons]
    omega

end

theorem Occupied.step {buffer : CircularBuffer} {pending : Bytes} {state : HeapState}
    {tmp own rest : List (Cell UInt8)} {writers : List Writer}
    (occupied : Occupied buffer pending state.buffer state.tmpEntry tmp own writers)
    (splits : Splits state.memory (own ++ rest)) (present : writers[index]? = some writer)
    (nonempty : writer.buf ≠ []) (suffice : writer.outcomes.alloc.Suffice writer.buf) {kbuf : Nat}
    (given : ⟨kbuf, writer.buf⟩ ∈ rest) {place : AddPlace}
    (stage : writer.stage = .add (some kbuf) place)
    (alone : ∀ (other : Nat) (another : Writer), writers[other]? = some another →
      another.stage.inside = true → other = index) (allocator : Allocator UInt8) :
    StepsOn buffer pending writer.buf tmp rest
      (state.addStep allocator writer.outcomes.alloc ⟨some kbuf, writer.buf.length⟩ place) := by
  cases occupied with
  | nobody between nobody =>
      have enters : place = .saveCurrent := by
        have outside := nobody index writer present
        simpa [stage, Stage.inside] using outside
      rw [enters]
      exact addStep_enters allocator between splits
  | @somebody inside holder held at_ found holding amid others =>
      have within : holder.stage.inside = true := by
        rw [holding, Stage.inside, decide_eq_true_eq]
        rintro rfl
        exact amid
      obtain rfl : inside = index := alone inside holder found within
      obtain rfl : holder = writer := Option.some.inj (found.symm.trans present)
      obtain ⟨rfl, rfl⟩ := Stage.add.inj (holding.symm.trans stage)
      exact amid.addStep allocator suffice given nonempty splits

theorem HeapSys.addStep_of_ok {sys : HeapSys} {address : Nat} {pointers : PointerBuffer}
    (present : sys.buffer = some (address, pointers)) {allocator : Allocator UInt8}
    {kbuf : Pointer} {place : AddPlace} {next : Option AddPlace} {state : HeapState}
    (stepped : HeapState.addStep allocator writer.outcomes.alloc
      ⟨kbuf, writer.buf.length⟩ ⟨sys.memory, pointers, sys.tmpEntry⟩ place = .ok (next, state)) :
    sys.addStep allocator writer kbuf place =
      .ok (next.elim (.release kbuf) (.add kbuf),
        { sys with
          memory := state.memory, buffer := some (address, state.buffer),
          tmpEntry := state.tmpEntry }) := by
  rw [HeapSys.addStep, present]
  dsimp only
  rw [stepped]
  rfl

/-- A statement of `aesd_circular_buffer_add_entry`, when nobody else is inside. -/
theorem Running.inside (running : Running address foreign base attempts all)
    (present : all.writers[index]? = some writer) (sound : writer.attempt.Sound)
    {kbuf : Pointer} {place : AddPlace} (stage : writer.stage = .add kbuf place)
    (alone : ∀ (other : Nat) (another : Writer), all.writers[other]? = some another →
      another.stage.inside = true → other = index) (allocator : Allocator UInt8) :
    Running address foreign base attempts
      (all.advance index writer (all.sys.addStep allocator writer kbuf place)) := by
  obtain ⟨buffer, chunks, pointers, own, tmp, lost, kbufs, follows, filled, shares⟩ := running.held
  obtain ⟨nonempty, served⟩ := sound writer.file writer.buf rfl
  obtain ⟨cells, owned, holds⟩ := shares.holds index writer present
  obtain ⟨notRefused, block, rfl, rfl⟩ := holds.inside stage
  have suffice := served.resolve_left (not_or.mp notRefused).2
  have given : ⟨block, writer.buf⟩ ∈
      kbufs.flatten ++ (lost ++ structCell address :: foreign) :=
    List.mem_append_left _
      (List.mem_flatten.mpr ⟨_, List.mem_of_getElem? owned, List.mem_singleton_self _⟩)
  let state : HeapState := ⟨all.sys.memory, pointers, all.sys.tmpEntry⟩
  have occupied : Occupied buffer (pendingOf chunks) state.buffer state.tmpEntry tmp own
      all.writers := shares.occupied
  have steps := occupied.step shares.splits present nonempty suffice given stage alone allocator
  generalize stepped : state.addStep allocator writer.outcomes.alloc
    ⟨some block, writer.buf.length⟩ place = result at steps
  cases steps with
  | @on next state grown amid splits =>
      have within : (Stage.add (some block) next).inside = true := by
        rw [Stage.inside, decide_eq_true_eq]
        rintro rfl
        exact amid
      have moved := running.goes_on shares present follows filled stage alone amid splits
      rw [HeapSys.addStep_of_ok shares.present stepped, Writers.advance, Option.elim_some, within]
      simpa using moved
  | @off state kept after between splits =>
      have within : writer.stage.inside = true := by
        rw [stage, Stage.inside, decide_eq_true_eq]
        rintro rfl
        cases stepped
      have moved := running.leaves shares present follows filled stage alone sound between splits
      rw [HeapSys.addStep_of_ok shares.present stepped, Writers.advance, Option.elim_none, within]
      exact moved

theorem Running.held_unique (running : Running address foreign base attempts all)
    (present : all.writers[index]? = some writer) (inside : writer.stage.inside = true) {other : Nat}
    {another : Writer} (found : all.writers[other]? = some another)
    (within : another.stage.inside = true) : other = index := by
  obtain ⟨buffer, chunks, pointers, own, tmp, lost, kbufs, -, -, shares⟩ := running.held
  cases shares.occupied with
  | nobody between nobody =>
      rw [nobody index writer present] at inside
      cases inside
  | somebody held stage amid alone =>
      rw [alone index writer present inside]
      exact alone other another found within

theorem Running.step (running : Running address foreign base attempts all)
    (sound : ∀ attempt ∈ attempts, attempt.Sound) {allocator : Allocator UInt8} {next : Writers}
    (stepped : all.lockedStep allocator index = some next) :
    Running address foreign base attempts next := by
  rw [Writers.lockedStep] at stepped
  split at stepped
  · cases stepped
  next unlocked =>
    obtain ⟨writer, present, goes⟩ := Option.bind_eq_some_iff.mp stepped
    obtain ⟨result, ran, advanced⟩ := Option.bind_eq_some_iff.mp goes
    obtain rfl : all.advance index writer result = next := Option.some.inj advanced
    have request : writer.attempt ∈ attempts := by
      rw [← running.requests]
      exact List.mem_map_of_mem (List.mem_of_getElem? present)
    have served := sound _ request
    cases stage : writer.stage with
    | add kbuf place =>
        rw [Writer.run, stage] at ran
        obtain rfl := Option.some.inj ran
        refine running.inside present served stage (fun other another found within => ?_) allocator
        have taken : all.writers.any (·.stage.inside) = true :=
          List.any_eq_true.mpr ⟨another, List.mem_of_getElem? found, within⟩
        have entered : place ≠ .saveCurrent := by
          rintro rfl
          simp [present, stage, Stage.enters, taken] at unlocked
        exact running.held_unique present (by simp [stage, Stage.inside, entered]) found within
    | _ =>
        exact running.aside present (served writer.file writer.buf rfl).1 (by simp [stage]) ran

/-! Runs. -/

def Writers.allReturned (all : Writers) : Prop :=
  ∀ writer ∈ all.writers, ∃ ret, writer.stage = .returned ret

theorem Running.start {chunks : List Bytes} {heapSys : HeapSys} {sys : Sys}
    (backed : Backed address foreign chunks heapSys sys) {writers : List Writer}
    (fresh : ∀ writer ∈ writers, writer.stage = .begin) :
    Running address foreign sys (writers.map Writer.attempt) ⟨heapSys, writers, []⟩ := by
  obtain ⟨buffer, table, tmp, lost, follows, backs, contents⟩ := backed.held
  obtain ⟨pointers, present, mirrors⟩ := backs.pointers
  have begun : ∀ (other : Nat) (another : Writer), writers[other]? = some another →
      another.stage = .begin := fun other another found =>
    fresh another (List.mem_of_getElem? found)
  refine ⟨rfl, List.nodup_nil, fun other another found => ?_, backed.files, rfl, buffer, chunks,
    pointers, table.flatten ++ tmp, tmp, lost, List.replicate writers.length [], follows,
    backed.nonempty, present, ?_, backs.tmpEntry.contents, contents, by simp,
    fun other another found => ?_, ?_⟩
  · simp [begun other another found, Stage.past]
  · refine .nobody ⟨table, mirrors, backs.tmpEntry, rfl⟩ fun other another found => ?_
    rw [begun other another found]
    rfl
  · obtain ⟨bound, -⟩ := List.getElem?_eq_some_iff.mp found
    refine ⟨[], by simp [bound], ?_⟩
    rw [Writer.Holds, begun other another found]
  · simpa using backs.splits

/-- When all have returned, the driver is where the calls that were taken lead to. -/
theorem Running.backed (running : Running address foreign base attempts all)
    (returned : all.allReturned) :
    ∃ chunks, Backed address foreign chunks all.sys
      (base.attemptAll (serialOf attempts all.left)) := by
  obtain ⟨buffer, chunks, pointers, own, tmp, lost, kbufs, follows, filled, shares⟩ := running.held
  have none : kbufs.flatten = [] := by
    refine List.flatten_eq_nil_iff.mpr fun cells member => ?_
    obtain ⟨index, bound, rfl⟩ := List.getElem_of_mem member
    have inside : index < all.writers.length := by rw [← shares.sized]; exact bound
    obtain ⟨cells, owned, holds⟩ := shares.holds index _ (List.getElem?_eq_getElem inside)
    obtain ⟨ret, stage⟩ := returned _ (List.getElem_mem inside)
    rw [Writer.Holds, stage] at holds
    rw [List.getElem?_eq_getElem bound, Option.some.injEq] at owned
    rw [owned, holds.1]
  cases shares.occupied with
  | nobody between nobody =>
      obtain ⟨table, mirrors, owns, rfl⟩ := between
      refine ⟨chunks, running.files.trans running.serialFiles.symm, filled, buffer, table, tmp, lost,
        follows, ⟨⟨pointers, shares.present, mirrors⟩, owns, ?_⟩, shares.contents⟩
      simpa [none] using shares.splits
  | somebody found stage =>
      obtain ⟨ret, ended⟩ := returned _ (List.mem_of_getElem? found)
      rw [stage] at ended
      cases ended

theorem Running.untouched (running : Running address foreign base attempts all) {other : Nat}
    {bytes : Bytes} (member : ⟨other, bytes⟩ ∈ foreign) :
    all.sys.memory.lookup other = some bytes := by
  obtain ⟨buffer, chunks, pointers, own, tmp, lost, kbufs, -, -, shares⟩ := running.held
  exact shares.splits.lookup_of_mem (by simp [member])

/-- Unless all have returned, somebody can go on. -/
theorem Running.progress (running : Running address foreign base attempts all)
    (waiting : ¬ all.allReturned) (allocator : Allocator UInt8) :
    ∃ index next, all.lockedStep allocator index = some next := by
  obtain ⟨buffer, chunks, pointers, own, tmp, lost, kbufs, -, -, shares⟩ := running.held
  cases shares.occupied with
  | nobody between nobody =>
      have empty : all.writers.any (·.stage.inside) = false := by
        refine List.any_eq_false.mpr fun writer member => ?_
        obtain ⟨index, bound, rfl⟩ := List.getElem_of_mem member
        simp [nobody index _ (List.getElem?_eq_getElem bound)]
      obtain ⟨writer, unfinished⟩ := not_forall.mp waiting
      obtain ⟨member, unfinished⟩ := Classical.not_imp.mp unfinished
      obtain ⟨index, bound, rfl⟩ := List.getElem_of_mem member
      have present := List.getElem?_eq_getElem bound
      obtain ⟨cells, -, holds⟩ := shares.holds index _ present
      obtain ⟨result, ran⟩ := holds.goes_on (fun ret ended => unfinished ⟨ret, ended⟩) allocator all.sys
      refine ⟨index, all.advance index all.writers[index] result, ?_⟩
      rw [Writers.lockedStep, empty, Bool.and_false, if_neg (by decide), Writers.step, present]
      simp [ran]
  | @somebody index writer kbuf place present stage amid =>
      have outside : writer.stage.enters = false := by
        rw [stage, Stage.enters, decide_eq_false_iff_not]
        rintro rfl
        exact amid
      refine ⟨index, all.advance index writer (all.sys.addStep allocator writer kbuf place), ?_⟩
      rw [Writers.lockedStep, present, Option.any_some, outside, Bool.false_and,
        if_neg (by decide), Writers.step, present]
      simp [Writer.run, stage]

/-- What a call has returned, if it has: its length if it has been taken, else an error. -/
theorem Running.outcome (running : Running address foreign base attempts all)
    (present : all.writers[index]? = some writer) :
    (∀ reason, writer.stage ≠ .faulted reason) ∧
      ∀ ret, writer.stage = .returned ret →
        (index ∈ all.left ↔ ¬ writer.Refused base.files) ∧
          (index ∈ all.left → ret = writer.buf.length) ∧ (index ∉ all.left → ret < 0) := by
  obtain ⟨buffer, chunks, pointers, own, tmp, lost, kbufs, -, -, shares⟩ := running.held
  obtain ⟨cells, -, holds⟩ := shares.holds index writer present
  have past := running.left index writer present
  rw [running.files] at holds
  refine ⟨fun reason stage => ?_, fun ret stage => ?_⟩
  · rw [Writer.Holds, stage] at holds
    exact holds
  · rw [Writer.Holds, stage] at holds
    rw [stage, Stage.past, decide_eq_true_eq] at past
    obtain ⟨-, holds⟩ := holds
    by_cases positive : 0 ≤ ret
    · rw [if_pos positive] at holds
      have member := past.mpr positive
      exact ⟨⟨fun _ => holds.2, fun _ => member⟩, fun _ => holds.1,
        fun absent => absurd member absent⟩
    · rw [if_neg positive] at holds
      have absent : index ∉ all.left := fun member => positive (past.mp member)
      exact ⟨⟨fun member => absurd member absent, fun served => absurd holds served⟩,
        fun member => absurd member absent, fun _ => Int.not_le.mp positive⟩

end

def openedOnce : List Attempt := [{ call := .openFile 0 }, { call := .write 0 [97] }]

def threeWriters : List Writer :=
  [{ file := 0, buf := [98, 10] }, { file := 0, buf := [99, 10] },
    { file := 0, buf := [100], outcomes := { accessOk := false, alloc := { tmp := false } } }]

/-- Without the lock, one call frees the block that another has just allocated for the slot. -/
example :
    (Interleaving.runFrom (Writers.step (.bump 255))
      ⟨⟨∅, some (0, zeroedPointers), ⟨none, 0⟩, fun _ => ⟨true, 0⟩⟩, threeWriters.take 2, []⟩
      (List.replicate 13 0 ++ List.replicate 12 1 ++ [0])).map
        (fun all => all.writers.map (·.stage)) =
      some [.faulted .useAfterFree, .add (some 8) (.allocTarget 0)] := by
  decide

end Aesd
