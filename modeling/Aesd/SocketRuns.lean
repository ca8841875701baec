import Aesd.DriverRuns
import Aesd.SocketCore

/-!
What handling a connection does to the device and to the descriptors, for any outcomes of
the calls. The echo ends, because reads move a position that stays below 2^32, and only the
first bytes that a client sends are forwarded.
-/

namespace Aesd

open MachineInt Records

/-! Writes. -/

def SysResult.succeeds : SysResult → Bool
  | .count bytes => decide (0 < bytes)
  | .failed _ => false

/-- A result that does not end the loop of `write_all`. -/
def SysResult.passes (result : SysResult) : Prop :=
  result.succeeds = true ∨ result = .failed .eintr

theorem writeAllFrom_done {σ : Type} (write : σ → Bytes → SysResult × σ) {buffer : Bytes}
    {total : Nat} (done : buffer.length ≤ total) (fuel : Nat) (state : σ) :
    writeAllFrom write buffer (fuel + 1) total state = some (0, state) := by
  rw [writeAllFrom, if_neg (Nat.not_lt.mpr done)]

/-- The results let `left` bytes through before one of them ends the loop of `write_all`. -/
def accepts : List SysResult → Nat → Bool
  | [], _ => true
  | .count bytes :: results, left =>
      decide (left = 0) || (decide (0 < bytes) && accepts results (left - bytes))
  | .failed .eintr :: results, left => accepts results left
  | .failed .other :: _, left => decide (left = 0)

theorem accepts_zero (results : List SysResult) : accepts results 0 = true := by
  induction results with
  | nil => rfl
  | cons first results ih =>
      cases first with
      | count bytes => rfl
      | failed reason =>
          cases reason with
          | eintr => exact ih
          | other => rfl

theorem accepts_of_passes {results : List SysResult}
    (pass : ∀ result ∈ results, result.passes) (left : Nat) : accepts results left = true := by
  induction results generalizing left with
  | nil => rfl
  | cons first results ih =>
      have later := ih fun result member => pass result (List.mem_cons_of_mem _ member)
      obtain succeeds | rfl := pass first List.mem_cons_self
      · cases first with
        | count bytes =>
            simp only [SysResult.succeeds, decide_eq_true_eq] at succeeds
            simp [accepts, succeeds, later]
        | failed reason => cases succeeds
      · exact later left

theorem accepts_of_succeeds {results : List SysResult}
    (succeeds : results.all SysResult.succeeds = true) (left : Nat) :
    accepts results left = true :=
  accepts_of_passes (fun result member => Or.inl (List.all_eq_true.mp succeeds result member)) left

/-- What is written, one piece after another, before the loop of `write_all` ends. -/
def writtenPieces : List SysResult → Bytes → List Bytes
  | [], rest => if rest = [] then [] else [rest]
  | .count bytes :: results, rest =>
      if rest = [] ∨ bytes = 0 then []
      else rest.take bytes :: writtenPieces results (rest.drop bytes)
  | .failed .eintr :: results, rest => writtenPieces results rest
  | .failed .other :: _, _ => []

@[simp] theorem writtenPieces_nil (results : List SysResult) : writtenPieces results [] = [] := by
  induction results with
  | nil => rfl
  | cons first results ih =>
      cases first with
      | count bytes => rfl
      | failed reason =>
          cases reason with
          | eintr => exact ih
          | other => rfl

theorem writtenPieces_ne_nil {piece : Bytes} : ∀ {results : List SysResult} {rest : Bytes},
    piece ∈ writtenPieces results rest → piece ≠ [] := by
  intro results
  induction results with
  | nil =>
      intro rest member
      rw [writtenPieces] at member
      split at member
      · cases member
      next filled => exact List.mem_singleton.mp member ▸ filled
  | cons first results ih =>
      intro rest member
      cases first with
      | count bytes =>
          rw [writtenPieces] at member
          split at member
          · cases member
          next handed =>
            obtain ⟨filled, some⟩ := not_or.mp handed
            rcases List.mem_cons.mp member with rfl | later
            · simp [filled, some]
            · exact ih later
      | failed reason =>
          cases reason with
          | eintr => exact ih member
          | other => cases member

theorem writtenPieces_flatten {results : List SysResult} : ∀ {rest : Bytes},
    accepts results rest.length = true → (writtenPieces results rest).flatten = rest := by
  induction results with
  | nil =>
      intro rest _
      rw [writtenPieces]
      split
      next empty => rw [empty, List.flatten_nil]
      · rw [List.flatten_singleton]
  | cons first results ih =>
      intro rest through
      by_cases empty : rest = []
      · rw [empty, writtenPieces_nil, List.flatten_nil]
      · have left : rest.length ≠ 0 := by simpa using empty
        cases first with
        | count bytes =>
            rw [accepts, decide_eq_false left, Bool.false_or, Bool.and_eq_true,
              decide_eq_true_eq] at through
            obtain ⟨some, later⟩ := through
            rw [← List.length_drop] at later
            rw [writtenPieces, if_neg (not_or.mpr ⟨empty, by omega⟩), List.flatten_cons, ih later,
              List.take_append_drop]
        | failed reason =>
            cases reason with
            | eintr => exact ih through
            | other => simp [accepts, left] at through

/-! Writes with the outcomes of a list. -/

def answerOf : List SysResult → Bytes → SysResult
  | [], request => .count request.length
  | .count bytes :: _, request => .count (min bytes request.length)
  | .failed reason :: _, _ => .failed reason

def takenOf : List SysResult → Bytes → List Bytes
  | [], request => [request]
  | .count bytes :: _, request => if bytes = 0 then [] else [request.take bytes]
  | .failed _ :: _, _ => []

/-- Each write has the first outcome that `results` still holds, and takes what this one says.
`wrote pieces` is what is known of a state when `pieces` have been taken. -/
def Obeys {σ : Type} (write : σ → Bytes → SysResult × σ) (results : σ → List SysResult)
    (wrote : List Bytes → σ → Prop) : Prop :=
  ∀ state pieces request, wrote pieces state → request ≠ [] →
    ∃ next, write state request = (answerOf (results state) request, next) ∧
      results next = (results state).tail ∧ wrote (pieces ++ takenOf (results state) request) next

section

variable {σ : Type} {write : σ → Bytes → SysResult × σ} {results : σ → List SysResult}
  {wrote : List Bytes → σ → Prop} {buffer : Bytes}

theorem writeAllFrom_written {state : σ} {pieces : List Bytes} (kept : wrote pieces state)
    {total : Nat} (done : buffer.length ≤ total) (fuel : Nat) :
    ∃ next, writeAllFrom write buffer (fuel + 1) total state =
        some (if accepts (results state) (buffer.length - total) then 0 else -1, next) ∧
      results next <:+ results state ∧
      wrote (pieces ++ writtenPieces (results state) (buffer.drop total)) next := by
  refine ⟨state, ?_, List.suffix_rfl, ?_⟩
  · rw [writeAllFrom_done _ done, Nat.sub_eq_zero_of_le done, accepts_zero, if_pos rfl]
  · rwa [List.drop_eq_nil_of_le done, writtenPieces_nil, List.append_nil]

/-- The loop comes to an end with the list, and what it has written is known. -/
theorem Obeys.ends (obeys : Obeys write results wrote) :
    ∀ (outcomes : List SysResult) (fuel total : Nat) (state : σ) (pieces : List Bytes),
      results state = outcomes → wrote pieces state → outcomes.length + 2 ≤ fuel →
      ∃ next, writeAllFrom write buffer fuel total state =
          some (if accepts (results state) (buffer.length - total) then 0 else -1, next) ∧
        results next <:+ results state ∧
        wrote (pieces ++ writtenPieces (results state) (buffer.drop total)) next := by
  intro outcomes
  induction outcomes with
  | nil =>
      intro fuel total state pieces held kept enough
      obtain ⟨fuel, rfl⟩ : ∃ rest, fuel = rest + 2 := ⟨fuel - 2, by simp at enough; omega⟩
      by_cases more : total < buffer.length
      · have rest : buffer.drop total ≠ [] := by simpa using more
        have ended : buffer.length ≤ total + (buffer.drop total).length := by
          rw [List.length_drop]
          omega
        obtain ⟨next, answered, left, taken⟩ := obeys state pieces _ kept rest
        rw [held] at answered left taken ⊢
        refine ⟨next, ?_, left ▸ List.suffix_rfl, ?_⟩
        · rw [writeAllFrom, if_pos more, answered]
          simp only [answerOf, if_pos (List.length_pos_iff.mpr rest)]
          rw [writeAllFrom_done _ ended]
          rfl
        · rwa [writtenPieces, if_neg rest]
      · exact writeAllFrom_written kept (not_lt.mp more) (fuel + 1)
  | cons first outcomes ih =>
      intro fuel total state pieces held kept enough
      rw [List.length_cons] at enough
      obtain ⟨fuel, rfl⟩ : ∃ rest, fuel = rest + 1 := ⟨fuel - 1, by omega⟩
      by_cases more : total < buffer.length
      · have rest : buffer.drop total ≠ [] := by simpa using more
        have left : buffer.length - total ≠ 0 := by omega
        obtain ⟨next, answered, later, taken⟩ := obeys state pieces _ kept rest
        rw [held] at answered later taken ⊢
        rw [writeAllFrom, if_pos more, answered]
        cases first with
        | failed reason =>
            rw [takenOf, List.append_nil] at taken
            cases reason with
            | eintr =>
                obtain ⟨final, ended, part, all⟩ := ih fuel total next pieces later taken (by omega)
                rw [later] at ended part all
                exact ⟨final, ended, part.trans (List.suffix_cons _ _), all⟩
            | other =>
                refine ⟨next, by simp [answerOf, accepts, left], later ▸ List.suffix_cons _ _, ?_⟩
                rwa [writtenPieces, List.append_nil]
        | count bytes =>
            by_cases none : bytes = 0
            · rw [takenOf, if_pos none, List.append_nil] at taken
              refine ⟨next, by simp [answerOf, accepts, left, none],
                later ▸ List.suffix_cons _ _, ?_⟩
              rwa [writtenPieces, if_pos (Or.inr none), List.append_nil]
            · rw [takenOf, if_neg none] at taken
              have size : (buffer.drop total).length = buffer.length - total := List.length_drop
              have positive : 0 < min bytes (buffer.drop total).length := by omega
              obtain ⟨final, ended, part, all⟩ := ih fuel
                (total + min bytes (buffer.drop total).length) next _ later taken (by omega)
              rw [later] at ended part all
              refine ⟨final, ?_, part.trans (List.suffix_cons _ _), ?_⟩
              · have next : buffer.length - (total + min bytes (buffer.drop total).length) =
                    buffer.length - total - bytes := by omega
                have same : accepts (.count bytes :: outcomes) (buffer.length - total) =
                    accepts outcomes (buffer.length - total - bytes) := by
                  simp [accepts, left, Nat.pos_of_ne_zero none]
                simp only [answerOf, if_pos positive, ended, next, same, List.tail_cons]
              · have remains : buffer.drop (total + min bytes (buffer.drop total).length) =
                    (buffer.drop total).drop bytes := by
                  rw [← List.drop_drop]
                  rcases Nat.le_total bytes (buffer.drop total).length with few | all
                  · rw [Nat.min_eq_left few]
                  · rw [Nat.min_eq_right all, List.drop_length, List.drop_eq_nil_of_le all]
                rw [writtenPieces, if_neg (by simp [rest, none]), List.append_cons, ← remains]
                exact all
      · exact writeAllFrom_written kept (not_lt.mp more) fuel

end

theorem Sink.obeys (start : Bytes) : Obeys Sink.write Sink.results fun pieces sink =>
    sink.accepted = start ++ pieces.flatten := by
  rintro ⟨results, accepted⟩ pieces request rfl -
  cases results with
  | nil => exact ⟨_, rfl, rfl, by simp [takenOf]⟩
  | cons first results =>
      cases first with
      | count bytes =>
          refine ⟨_, rfl, rfl, ?_⟩
          by_cases none : bytes = 0 <;> simp [takenOf, none]
      | failed reason => exact ⟨_, rfl, rfl, by simp [takenOf]⟩

theorem Sink.writeAll_ends (sink : Sink) (buffer : Bytes) :
    ∃ after, sink.writeAll buffer =
        some (if accepts sink.results buffer.length then 0 else -1, after) ∧
      after.results <:+ sink.results ∧
      after.accepted = sink.accepted ++ (writtenPieces sink.results buffer).flatten :=
  (Sink.obeys sink.accepted).ends sink.results _ 0 sink [] rfl (by simp) le_rfl

/-! Writes to the device, from any state of the server. -/

def Server.wrote (server : Server) (file : Nat) (request : Bytes) : Server :=
  { server with
    driver := (server.driver.step (.write file request)).2
    committed := server.committed ++
      storedCommand server.driver.dev (server.driver.step (.write file request)).2.dev }

theorem Server.submit_eq (server : Server) (file : Nat) (request : Bytes) :
    server.submit file request =
      (if (server.driver.step (.write file request)).1 = .ret request.length [] then
        .count request.length else .failed .other, server.wrote file request) := by
  have reply : (server.driver.step (.write file request)).1 =
      (aesdWrite {} server.driver.dev (server.driver.files file) request).1 := rfl
  rw [Server.submit, Server.wrote]
  rcases stepped : server.driver.step (.write file request) with ⟨answer, driver⟩
  rw [stepped] at reply
  dsimp only at reply ⊢
  rcases aesdWrite_reply {} server.driver.dev (server.driver.files file) request with
    whole | ⟨error, negative, failed⟩ | ⟨reason, faulted⟩
  · rw [reply, whole]
    simp
  · have other : error ≠ (request.length : Int) := by omega
    rw [reply, failed]
    simp [not_le.mpr negative, other]
  · rw [reply, faulted]
    simp

theorem writeAll_events (file : Nat) (buffer : Bytes) :
    ∀ (results : List SysResult) (fuel total : Nat) (server : Server), results.length + 2 ≤ fuel →
      ∃ result left next, writeAllFrom (Server.writeDevice file) buffer fuel total
        (results, server) = some (result, left, next) ∧ next.events = server.events := by
  intro results
  induction results with
  | nil =>
      intro fuel total server enough
      obtain ⟨fuel, rfl⟩ : ∃ rest, fuel = rest + 2 := ⟨fuel - 2, by simp at enough; omega⟩
      by_cases more : total < buffer.length
      · rw [writeAllFrom, if_pos more]
        simp only [Server.writeDevice, Server.submit_eq]
        by_cases whole : (server.driver.step (.write file (buffer.drop total))).1 =
            .ret (buffer.drop total).length []
        · have rest : 0 < (buffer.drop total).length := by
            rw [List.length_drop]
            omega
          have ended : buffer.length ≤ total + (buffer.drop total).length := by
            rw [List.length_drop]
            omega
          simp only [if_pos whole, if_pos rest]
          exact ⟨0, [], _, writeAllFrom_done _ ended _ _, rfl⟩
        · simp only [if_neg whole]
          exact ⟨-1, [], _, rfl, rfl⟩
      · exact ⟨0, [], server, writeAllFrom_done _ (not_lt.mp more) _ _, rfl⟩
  | cons first results ih =>
      intro fuel total server enough
      rw [List.length_cons] at enough
      obtain ⟨fuel, rfl⟩ : ∃ rest, fuel = rest + 1 := ⟨fuel - 1, by omega⟩
      by_cases more : total < buffer.length
      · rw [writeAllFrom, if_pos more]
        cases first with
        | failed reason =>
            cases reason with
            | eintr => exact ih fuel total server (by omega)
            | other => exact ⟨-1, results, server, rfl, rfl⟩
        | count bytes =>
            simp only [Server.writeDevice, Server.submit_eq]
            by_cases none : bytes = 0
            · simp only [if_pos none]
              exact ⟨-1, results, server, rfl, rfl⟩
            · simp only [if_neg none]
              by_cases whole : (server.driver.step
                  (.write file ((buffer.drop total).take bytes))).1 =
                    .ret ((buffer.drop total).take bytes).length []
              · simp only [if_pos whole]
                split
                · obtain ⟨result, left, next, ended, kept⟩ := ih fuel
                    (total + ((buffer.drop total).take bytes).length)
                    (server.wrote file ((buffer.drop total).take bytes)) (by omega)
                  exact ⟨result, left, next, ended, kept⟩
                · exact ⟨-1, results, _, rfl, rfl⟩
              · simp only [if_neg whole]
                exact ⟨-1, results, _, rfl, rfl⟩
      · exact ⟨0, _, server, writeAllFrom_done _ (not_lt.mp more) _ _, rfl⟩

/-! The server and the history of the chunks it has written. -/

structure Server.Follows (server : Server) (chunks : List Bytes) : Prop where
  driver : ∃ buffer, server.driver.Follows chunks buffer
  committed : server.committed = commandsOf chunks
  unlocked : server.mutexLocked = false

theorem Server.boot_follows : Server.boot.Follows [] :=
  ⟨⟨_, Sys.boot_follows⟩, rfl, rfl⟩

structure Server.Serving (server : Server) (chunks : List Bytes) (file : Nat) : Prop where
  driver : ∃ buffer, server.driver.Follows chunks buffer
  committed : server.committed = commandsOf chunks
  opened : (server.driver.files file).privateData = true
  position : 0 ≤ (server.driver.files file).fPos

theorem Server.Serving.submit {server : Server} {chunks : List Bytes} {file : Nat}
    (serving : server.Serving chunks file) {request : Bytes} (nonempty : request ≠ []) :
    server.submit file request = (.count request.length, server.wrote file request) ∧
      (server.wrote file request).Serving (chunks ++ [request]) file := by
  obtain ⟨buffer, follows⟩ := serving.driver
  obtain ⟨state, -, wrote, followed⟩ := aesdWrite_follows follows serving.opened nonempty
  have stepped : server.driver.step (.write file request) =
      (.ret request.length [],
        { server.driver with dev := ⟨some state.buffer, state.tmpEntry⟩ }) := by
    rw [Sys.step, wrote]
  have stored := follows.stored_step (.write file request)
  have chunk : (Call.write file request).chunk server.driver = [request] := if_pos serving.opened
  rw [stepped, chunk, ← serving.committed] at stored
  refine ⟨by rw [server.submit_eq, stepped, if_pos rfl], ⟨state.buffer, ?_, ?_⟩, ?_, ?_, ?_⟩
  · rw [Server.wrote, stepped]
  · rw [Server.wrote, stepped]
    exact followed
  · rw [Server.wrote, stepped]
    exact stored
  · rw [Server.wrote, stepped]
    exact serving.opened
  · rw [Server.wrote, stepped]
    exact serving.position

/-- What has changed is that the driver has been called. -/
structure Server.Calls (server : Server) (calls : List Call) (next : Server) : Prop where
  driver : next.driver = server.driver.run calls
  nextFile : next.nextFile = server.nextFile
  events : next.events = server.events

theorem Server.calls_nil (server : Server) : server.Calls [] server := ⟨rfl, rfl, rfl⟩

theorem Server.Calls.then_write {server next : Server} {calls : List Call}
    (earlier : server.Calls calls next) (file : Nat) (request : Bytes) :
    server.Calls (calls ++ [.write file request]) (next.wrote file request) where
  driver := by
    rw [Sys.run, List.foldl_append, Server.wrote, earlier.driver]
    rfl
  nextFile := earlier.nextFile
  events := earlier.events

theorem Server.obeys (server : Server) (chunks : List Bytes) (file : Nat) :
    Obeys (Server.writeDevice file) Prod.fst fun pieces state =>
      server.Calls (pieces.map (.write file)) state.2 ∧
        state.2.Serving (chunks ++ pieces) file := by
  rintro ⟨results, after⟩ pieces request ⟨calls, serving⟩ filled
  cases results with
  | nil =>
      obtain ⟨submitted, served⟩ := serving.submit filled
      refine ⟨_, by simp only [Server.writeDevice, submitted]; rfl, rfl, ?_, ?_⟩
      · simpa [takenOf] using calls.then_write file request
      · simpa [takenOf] using served
  | cons first results =>
      cases first with
      | failed reason => exact ⟨_, rfl, rfl, by simpa [takenOf] using ⟨calls, serving⟩⟩
      | count bytes =>
          by_cases none : bytes = 0
          · refine ⟨(results, after), ?_, rfl, by simpa [takenOf, none] using ⟨calls, serving⟩⟩
            simp [Server.writeDevice, answerOf, none]
          · have taken : request.take bytes ≠ [] := by simp [none, filled]
            obtain ⟨submitted, served⟩ := serving.submit taken
            refine ⟨(results, after.wrote file (request.take bytes)), ?_, rfl, ?_, ?_⟩
            · simp [Server.writeDevice, answerOf, none, submitted]
            · simpa [takenOf, none] using calls.then_write file (request.take bytes)
            · simpa [takenOf, none] using served

theorem writeAll_serving {server : Server} {chunks : List Bytes} {file : Nat}
    (serving : server.Serving chunks file) (results : List SysResult) (buffer : Bytes) :
    ∃ left next, writeAllFrom (Server.writeDevice file) buffer (results.length + 2) 0
        (results, server) = some (if accepts results buffer.length then 0 else -1, left, next) ∧
      server.Calls ((writtenPieces results buffer).map (.write file)) next ∧
      next.Serving (chunks ++ writtenPieces results buffer) file := by
  obtain ⟨⟨left, next⟩, ended, -, calls, served⟩ := (server.obeys chunks file).ends results
    _ 0 (results, server) [] rfl ⟨server.calls_nil, by simpa using serving⟩ le_rfl
  exact ⟨left, next, ended, calls, served⟩

theorem ioctl_serving {server : Server} {chunks : List Bytes} {file : Nat}
    (serving : server.Serving chunks file) (succeeds : Bool) (seekto : AesdSeekto) :
    (server.ioctl succeeds file seekto).Serving chunks file := by
  obtain ⟨buffer, follows⟩ := serving.driver
  cases succeeds with
  | false => exact serving
  | true =>
      have moved : (server.driver.step (.ioctl file aesdcharIocseekto seekto)).2.files file =
          (aesdUnlockedIoctl server.driver.dev (server.driver.files file) aesdcharIocseekto
            seekto).2 := by
        simp [Sys.step, Sys.setFile]
      refine ⟨⟨buffer, follows.present, follows.history⟩, serving.committed, ?_, ?_⟩
      · simp only [Server.ioctl, if_true, moved]
        rcases aesdUnlockedIoctl_filp server.driver.dev (server.driver.files file)
            aesdcharIocseekto seekto with same | ⟨position, sought⟩
        · rw [same, serving.opened]
        · rw [sought, serving.opened]
      · simp only [Server.ioctl, if_true, moved]
        rcases aesdUnlockedIoctl_filp server.driver.dev (server.driver.files file)
            aesdcharIocseekto seekto with same | ⟨position, sought⟩
        · rw [same]
          exact serving.position
        · rw [sought]
          exact Int.natCast_nonneg _

/-- What `write_to_out_file` asks of the device. -/
def outFileCalls (outcomes : OutFileOutcomes) (file : Nat) (buffer : Bytes) : List Call :=
  match parseSeekCommand (buffer ++ outcomes.heapTail) with
  | some seekto => if outcomes.ioctl then [.ioctl file aesdcharIocseekto seekto] else []
  | none => (writtenPieces outcomes.deviceWrites buffer).map (.write file)

/-- What the device is given of a packet. -/
def OutFileOutcomes.handed (outcomes : OutFileOutcomes) (buffer : Bytes) : List Bytes :=
  if (parseSeekCommand (buffer ++ outcomes.heapTail)).isSome then []
  else writtenPieces outcomes.deviceWrites buffer

def OutFileOutcomes.Delivers (outcomes : OutFileOutcomes) (buffer : Bytes) : Prop :=
  (parseSeekCommand (buffer ++ outcomes.heapTail)).isSome = true ∨
    accepts outcomes.deviceWrites buffer.length = true

theorem Server.ioctl_calls (server : Server) (outcomes : OutFileOutcomes) {file : Nat}
    {buffer : Bytes} {seekto : AesdSeekto}
    (parsed : parseSeekCommand (buffer ++ outcomes.heapTail) = some seekto) :
    server.Calls (outFileCalls outcomes file buffer) (server.ioctl outcomes.ioctl file seekto) := by
  rw [outFileCalls, parsed, Server.ioctl]
  cases outcomes.ioctl with
  | false => exact server.calls_nil
  | true => exact ⟨rfl, rfl, rfl⟩

theorem seekOrWrite_events (outcomes : OutFileOutcomes) (file : Nat) (buffer : Bytes)
    (server : Server) :
    ∃ err next, seekOrWrite outcomes file buffer server = .ok (err, next) ∧
      next.events = server.events := by
  unfold seekOrWrite
  cases parsed : parseSeekCommand (buffer ++ outcomes.heapTail) with
  | some seekto => exact ⟨_, _, rfl, (server.ioctl_calls outcomes parsed).events⟩
  | none =>
      obtain ⟨result, left, next, wrote, kept⟩ :=
        writeAll_events file buffer outcomes.deviceWrites _ 0 server le_rfl
      exact ⟨result, next, by simp only [wrote], kept⟩

theorem seekOrWrite_serving {server : Server} {chunks : List Bytes} {file : Nat}
    (serving : server.Serving chunks file) (outcomes : OutFileOutcomes) (buffer : Bytes) :
    ∃ err next, seekOrWrite outcomes file buffer server = .ok (err, next) ∧
      (err = 0 ↔ outcomes.Delivers buffer) ∧
      server.Calls (outFileCalls outcomes file buffer) next ∧
      next.Serving (chunks ++ outcomes.handed buffer) file := by
  rw [seekOrWrite, OutFileOutcomes.Delivers, OutFileOutcomes.handed]
  cases parsed : parseSeekCommand (buffer ++ outcomes.heapTail) with
  | some seekto =>
      refine ⟨0, _, rfl, by simp, server.ioctl_calls outcomes parsed, ?_⟩
      simpa using ioctl_serving serving outcomes.ioctl seekto
  | none =>
      obtain ⟨left, next, wrote, calls, served⟩ :=
        writeAll_serving serving outcomes.deviceWrites buffer
      refine ⟨if accepts outcomes.deviceWrites buffer.length then 0 else -1, next, ?_, by simp, ?_,
        by simpa using served⟩
      · simp only [wrote]
      · rwa [outFileCalls, parsed]

/-! The echo. -/

theorem readCount_le {results : List SysResult} {count : UInt64}
    (reads : readCount results = some count) : count.toNat ≤ bufSize.toNat := by
  cases results with
  | nil => exact Nat.le_of_eq (congrArg UInt64.toNat (Option.some.inj reads).symm)
  | cons first results =>
      cases first with
      | failed reason => cases reads
      | count bytes =>
          cases reads
          have size : bufSize.toNat = 1024 := rfl
          rw [UInt64.toNat_ofNat', Nat.mod_eq_of_lt (by omega)]
          exact Nat.min_le_right ..

/-- One read of the echo loop: it leaves the history, and a read that returns bytes moves the
position up, from below the end of the window. -/
theorem Sys.Follows.read_step {sys : Sys} {chunks : List Bytes} {buffer : CircularBuffer}
    (follows : sys.Follows chunks buffer) {file : Nat}
    (opened : (sys.files file).privateData = true) {count : UInt64}
    (short : count.toNat ≤ bufSize.toNat) :
    ∃ reply next after, sys.step (.read file count) = (reply, next) ∧
      next.Follows chunks after ∧ (next.files file).privateData = true ∧
      after.wCharAbs = buffer.wCharAbs ∧
      ∀ value bytes, reply = .ret value bytes → 0 < value →
        (sys.files file).fPos ≤ buffer.wCharAbs.toNat ∧
          (sys.files file).fPos < (next.files file).fPos := by
  obtain ⟨read, called⟩ :=
    raed_ends buffer (List.replicate count.toNat 0) count (sys.files file).fPos
  have stepped : sys.step (.read file count) =
      (readReply read (read.result buffer (List.replicate count.toNat 0)),
        { sys with dev := { sys.dev with buffer := some read.buffer } }.setFile file
          { sys.files file with fPos := read.fPos }) := by
    rw [Sys.step, aesdRead_eq opened follows.present called]
  have wCharAbs := congrArg CircularBuffer.wCharAbs (raed_buffer called)
  refine ⟨_, _, read.buffer, stepped, ⟨rfl, follows.history.read called⟩, ?_, wCharAbs, ?_⟩
  · simpa [Sys.setFile] using opened
  · intro value bytes reply positive
    have ret : 0 < toLong read.ret := by
      rw [readReply_ret reply]
      exact positive
    obtain ⟨window, partly, fPos⟩ := raed_progress called ret
    have size : bufSize.toNat = 1024 := rfl
    have width := buffer.wCharAbs.toNat_lt
    have lower := window.1
    have upper := window.2
    rw [toLong_natCast (by omega)] at ret
    refine ⟨upper, ?_⟩
    simp only [Sys.setFile, Function.update_self, fPos]
    rw [toLong_of_bounds (by omega) (by omega)]
    omega

theorem echoFrom_ends {chunks : List Bytes} {file : Nat} :
    ∀ (fuel : Nat) (results : List SysResult) (client : Sink) (err : Int) (server : Server)
      (buffer : CircularBuffer), server.driver.Follows chunks buffer →
      (server.driver.files file).privateData = true →
      (buffer.wCharAbs.toNat + 1 - (server.driver.files file).fPos).toNat < fuel →
      ∃ result sent driver after,
        echoFrom (some file) fuel results client err server =
          some (result, sent, { server with driver }) ∧ driver.Follows chunks after := by
  intro fuel
  induction fuel with
  | zero => intro _ _ _ _ _ _ _ enough; omega
  | succ fuel ih =>
      intro results client err server buffer follows opened enough
      rw [echoFrom]
      cases reads : readCount results with
      | none => exact ⟨1, client, server.driver, buffer, rfl, follows⟩
      | some count =>
          by_cases none : count = 0
          · simp only [if_pos none]
            exact ⟨err, client, server.driver, buffer, rfl, follows⟩
          · obtain ⟨reply, next, after, stepped, followed, still, width, moved⟩ :=
              follows.read_step opened (readCount_le reads)
            simp only [if_neg none, stepped]
            cases reply with
            | fault reason => exact ⟨1, client, next, after, rfl, followed⟩
            | ret value bytes =>
                by_cases positive : 0 < value
                -- what pays for an iteration is the distance of the position below `w_char_abs` + 1
                · obtain ⟨inside, up⟩ := moved value bytes rfl positive
                  obtain ⟨sent, written, -⟩ := client.writeAll_ends bytes
                  generalize (if accepts client.results bytes.length then (0 : Int) else -1) =
                    result at written
                  simp only [if_neg (not_le.mpr positive), written]
                  by_cases failed : result ≠ 0
                  · simp only [if_pos failed]
                    exact ⟨result, sent, next, after, rfl, followed⟩
                  · simp only [if_neg failed]
                    exact ih _ sent result { server with driver := next } after followed still
                      (by dsimp only; rw [width]; omega)
                · simp only [if_pos (not_lt.mp positive)]
                  exact ⟨_, client, next, after, rfl, followed⟩

/-! A connection. -/

/-- Every call made for the connection up to its write to the device succeeds. The `ioctl`
and the calls of the echo may fail. -/
structure Connection.Succeeds (connection : Connection) : Prop where
  mallocClientFd : connection.mallocClientFd = true
  pthreadCreate : connection.pthreadCreate = true
  mallocErr : connection.mallocErr = true
  openTmp : connection.openTmp = true
  reads : ClientRead.failed ∉ connection.reads
  tmpWrites : connection.tmpWrites.all SysResult.succeeds = true
  openOut : connection.openOut = true
  mallocValidate : connection.outFile.mallocValidate = true
  deviceWrites : connection.outFile.deviceWrites.all SysResult.succeeds = true

def Connection.firstRead (connection : Connection) : Bytes :=
  match connection.reads with
  | .data bytes :: _ => bytes
  | _ => []

def Connection.forwarded (connection : Connection) : List Bytes :=
  connection.outFile.handed connection.firstRead

structure Connection.Clean (connection : Connection) : Prop where
  mallocClientFd : connection.mallocClientFd = true
  pthreadCreate : connection.pthreadCreate = true
  mallocErr : connection.mallocErr = true
  openTmp : connection.openTmp = true
  read : connection.reads.head? ≠ some .failed
  tmpWrites : accepts connection.tmpWrites connection.firstRead.length = true
  openOut : connection.openOut = true
  mallocValidate : connection.outFile.mallocValidate = true
  delivers : connection.outFile.Delivers connection.firstRead

theorem Connection.Succeeds.clean {connection : Connection} (succeeds : connection.Succeeds) :
    connection.Clean where
  mallocClientFd := succeeds.mallocClientFd
  pthreadCreate := succeeds.pthreadCreate
  mallocErr := succeeds.mallocErr
  openTmp := succeeds.openTmp
  read := fun failed => succeeds.reads (List.mem_of_mem_head? failed)
  tmpWrites := accepts_of_succeeds succeeds.tmpWrites _
  openOut := succeeds.openOut
  mallocValidate := succeeds.mallocValidate
  delivers := Or.inr (accepts_of_succeeds succeeds.deviceWrites _)

/-- The receive loop ends after one read, as the pointer `err` is not NULL. -/
theorem receive_firstRead (connection : Connection) :
    receive connection.reads ⟨connection.tmpWrites, []⟩ (some 0) =
      some (some (if connection.reads.head? ≠ some .failed ∧
        accepts connection.tmpWrites connection.firstRead.length = true then 0 else -1),
        connection.firstRead) := by
  rw [Connection.firstRead]
  cases connection.reads with
  | nil => simp [receive, accepts_zero]
  | cons first rest =>
      cases first with
      | failed => simp [receive]
      | data bytes =>
          obtain ⟨tmpFile, written, -⟩ := Sink.writeAll_ends ⟨connection.tmpWrites, []⟩ bytes
          by_cases empty : bytes = []
          · simp [receive, empty, accepts_zero]
          · simp [receive, empty, written]

theorem Server.Follows.openOutFile {server : Server} {chunks : List Bytes}
    (follows : server.Follows chunks) (descriptor : Descriptor) :
    ∃ next, server.openOutFile true descriptor = (some server.nextFile, next) ∧
      next.Serving chunks server.nextFile ∧ next.mutexLocked = false ∧
      next.events = server.events ++ [.opened descriptor] := by
  obtain ⟨buffer, driver⟩ := follows.driver
  refine ⟨_, rfl, ⟨⟨buffer, driver.present, driver.history⟩, follows.committed, ?_, ?_⟩,
    follows.unlocked, rfl⟩
  · simp [Server.log, Sys.step, Sys.setFile, aesdOpen]
  · simp [Server.log, Sys.step, Sys.setFile, aesdOpen]

theorem writeToOutFile_serving {server : Server} {chunks : List Bytes} {file : Nat}
    (serving : server.Serving chunks file) (unlocked : server.mutexLocked = false)
    {outcomes : OutFileOutcomes} (mallocValidate : outcomes.mallocValidate = true)
    (buffer : Bytes) :
    ∃ err next, writeToOutFile outcomes (some file) buffer server = .ok (err, next) ∧
      next.mutexLocked = false ∧ (err = 0 ↔ outcomes.Delivers buffer) ∧
      server.Calls (outFileCalls outcomes file buffer) next ∧
      next.Serving (chunks ++ outcomes.handed buffer) file := by
  have held : Server.Serving { server with mutexLocked := true } chunks file :=
    ⟨serving.driver, serving.committed, serving.opened, serving.position⟩
  obtain ⟨err, next, wrote, whole, calls, served⟩ := seekOrWrite_serving held outcomes buffer
  refine ⟨err, { next with mutexLocked := false }, ?_, rfl, whole,
    ⟨calls.driver, calls.nextFile, calls.events⟩,
    ⟨served.driver, served.committed, served.opened, served.position⟩⟩
  simp [writeToOutFile, unlocked, mallocValidate, wrote]

theorem forwardAndEcho_follows {server : Server} {chunks : List Bytes}
    (follows : server.Follows chunks) {connection : Connection} (clean : connection.Clean) :
    ∃ err next, forwardAndEcho connection connection.firstRead server = .ok (err, next) ∧
      next.Follows (chunks ++ connection.forwarded) ∧
      next.events =
        server.events ++ [.opened .outFile, .closed .outFile, .closed .client] := by
  obtain ⟨opened, openedTo, serving, unlocked, logged⟩ := follows.openOutFile .outFile
  obtain ⟨err, next, wrote, free, whole, calls, still⟩ := writeToOutFile_serving serving unlocked
    clean.mallocValidate connection.firstRead
  obtain rfl := whole.mpr clean.delivers
  obtain ⟨before, driver⟩ := still.driver
  have width := before.wCharAbs.toNat_lt
  have position := still.position
  have enough : (before.wCharAbs.toNat + 1 - (next.driver.files server.nextFile).fPos).toNat <
      echoSteps := by
    rw [echoSteps]
    omega
  obtain ⟨result, sent, driver', after, echoed, followed⟩ := echoFrom_ends echoSteps
    connection.deviceReads ⟨connection.clientWrites, []⟩ 0 next before driver still.opened enough
  refine ⟨result, (({ next with driver := driver' }.closeOut (some server.nextFile)).log
    (.closed .client)), ?_, ⟨⟨after, followed⟩, still.committed, free⟩, ?_⟩
  · rw [forwardAndEcho, forwardAndEchoAccount, clean.openOut, openedTo]
    simp only [wrote, ok_bind, ne_eq, not_true_eq_false, if_false, echoed]
    rfl
  · simp [Server.closeOut, Server.log, calls.events, logged]

def cleanEvents : List Event :=
  [.opened .tmpFile, .closed .tmpFile, .opened .outFile, .closed .outFile, .closed .client]

theorem createThreadAndRun_unstarted (server : Server) {connection : Connection}
    (unstarted : (connection.mallocClientFd && connection.pthreadCreate) = false) :
    createThreadAndRun connection server = .ok (1, server) := by
  rw [createThreadAndRun, createThreadAndRunAccount]
  by_cases allocated : connection.mallocClientFd = true
  · have created : connection.pthreadCreate = false := by simpa [allocated] using unstarted
    rw [if_neg (by simp [allocated]), if_pos created]
    rfl
  · rw [if_pos (by simpa using allocated)]
    rfl

/-- What the thread returns is read through the pointer. -/
def joined : Except Halt (Option Int × Server) → Except Halt (Int × Server)
  | .ok (some err, server) => .ok (if err ≠ 0 then 1 else 0, server)
  | .ok (none, _) => .error .nullDereference
  | .error halt => .error halt

theorem createThreadAndRun_joined (server : Server) {connection : Connection}
    (mallocClientFd : connection.mallocClientFd = true)
    (pthreadCreate : connection.pthreadCreate = true) :
    createThreadAndRun connection server = joined (procNewConnection connection server) := by
  rw [createThreadAndRun, createThreadAndRunAccount, mallocClientFd, pthreadCreate,
    procNewConnection]
  rcases procNewConnectionAccount connection server with halt | ⟨account | account, next⟩
  · rfl
  · rfl
  · have code : (if account.ret ≠ 0 then { account with ret := 1 }
        else { account with held := account.held.erase .err }).ret =
          if account.ret ≠ 0 then 1 else 0 := by
      split
      · rfl
      next zero => exact not_not.mp zero
    exact congrArg (fun ret => Except.ok (ret, next)) code

theorem procNewConnection_unallocated (server : Server) {connection : Connection}
    (unallocated : connection.mallocErr = false) :
    procNewConnection connection server = .ok (none, server) := by
  rw [procNewConnection, procNewConnectionAccount, if_pos unallocated]
  rfl

theorem procNewConnection_unopened (server : Server) {connection : Connection}
    (mallocErr : connection.mallocErr = true) (unopened : connection.openTmp = false) :
    procNewConnection connection server = .ok (some 1, server) := by
  rw [procNewConnection, procNewConnectionAccount, mallocErr, if_neg (by decide), if_pos unopened]
  rfl

theorem procNewConnection_received (server : Server) {connection : Connection}
    (mallocErr : connection.mallocErr = true) (openTmp : connection.openTmp = true) :
    procNewConnection connection server =
      if connection.reads.head? ≠ some .failed ∧
          accepts connection.tmpWrites connection.firstRead.length = true then
        (forwardAndEcho connection connection.firstRead
          ((server.log (.opened .tmpFile)).log (.closed .tmpFile))).map fun (err, server) =>
            (some err, server)
      else .ok (some (-1), (server.log (.opened .tmpFile)).log (.closed .tmpFile)) := by
  rw [procNewConnection, procNewConnectionAccount, mallocErr, openTmp, forwardAndEcho]
  simp only [receive_firstRead]
  by_cases received : connection.reads.head? ≠ some .failed ∧
      accepts connection.tmpWrites connection.firstRead.length = true
  · rw [if_pos received, if_pos received]
    cases forwardAndEchoAccount connection connection.firstRead
        ((server.log (.opened .tmpFile)).log (.closed .tmpFile)) with
    | error halt => rfl
    | ok result => rfl
  · rw [if_neg received, if_neg received]
    rfl

theorem createThreadAndRun_follows {server : Server} {chunks : List Bytes}
    (follows : server.Follows chunks) {connection : Connection} (clean : connection.Clean) :
    ∃ err next, createThreadAndRun connection server = .ok (err, next) ∧
      next.Follows (chunks ++ connection.forwarded) ∧
      next.events = server.events ++ cleanEvents := by
  let logged := (server.log (.opened .tmpFile)).log (.closed .tmpFile)
  have kept : logged.Follows chunks := ⟨follows.driver, follows.committed, follows.unlocked⟩
  obtain ⟨err, next, forwarded, followed, events⟩ := forwardAndEcho_follows kept clean
  refine ⟨if err ≠ 0 then 1 else 0, next, ?_, followed, ?_⟩
  · rw [createThreadAndRun_joined server clean.mallocClientFd clean.pthreadCreate,
      procNewConnection_received server clean.mallocErr clean.openTmp,
      if_pos (And.intro clean.read clean.tmpWrites), forwarded]
    rfl
  · simp [events, logged, Server.log, cleanEvents]

theorem serve_concat (server : Server) (connections : List Connection) (connection : Connection) :
    serve server (connections ++ [connection]) = (do
      let server ← serve server connections
      let (_, server) ← createThreadAndRun connection (server.log (.opened .client))
      return server) := by
  simp only [serve, List.foldlM_append, List.foldlM_cons, List.foldlM_nil, bind_pure]

theorem serve_clean {connections : List Connection}
    (clean : ∀ connection ∈ connections, connection.Clean) :
    ∃ server, serve Server.boot connections = .ok server ∧
      server.Follows (connections.flatMap Connection.forwarded) ∧
      server.events = connections.flatMap fun _ => .opened .client :: cleanEvents := by
  induction connections using List.reverseRecOn with
  | nil => exact ⟨Server.boot, rfl, Server.boot_follows, rfl⟩
  | append_singleton connections connection ih =>
      obtain ⟨server, served, follows, events⟩ := ih fun earlier member =>
        clean earlier (List.mem_append_left _ member)
      have accepted : (server.log (.opened .client)).Follows
          (connections.flatMap Connection.forwarded) :=
        ⟨follows.driver, follows.committed, follows.unlocked⟩
      obtain ⟨err, next, ran, followed, logged⟩ := createThreadAndRun_follows accepted
        (clean connection (List.mem_append_right _ (List.mem_singleton_self _)))
      refine ⟨next, ?_, by simpa using followed, ?_⟩
      · rw [serve_concat, served, ok_bind, ran]
        rfl
      · simp [logged, Server.log, events]

theorem serve_follows {connections : List Connection}
    (succeeds : ∀ connection ∈ connections, connection.Succeeds) :
    ∃ server, serve Server.boot connections = .ok server ∧
      server.Follows (connections.flatMap Connection.forwarded) := by
  obtain ⟨server, served, follows, -⟩ :=
    serve_clean fun connection member => (succeeds connection member).clean
  exact ⟨server, served, follows⟩

end Aesd
