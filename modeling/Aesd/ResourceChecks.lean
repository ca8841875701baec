import Aesd.SocketRuns

/-!
The mutex and the descriptors of the server. Whatever the calls made for it return, a handler
comes to an end, and what it still holds then depends on the exit it took.
-/

namespace Aesd

/-! Calls of `write_to_out_file`. -/

structure OutFileCall where
  outcomes : OutFileOutcomes
  outFd : Option Nat
  buffer : Bytes

def writeCalls (server : Server) (calls : List OutFileCall) : Except Halt Server :=
  calls.foldlM (fun server call => do
    let (_, server) ← writeToOutFile call.outcomes call.outFd call.buffer server
    return server) server

def NeverHeld (server : Server) (calls : List OutFileCall) : Prop :=
  ∀ earlier later, calls = earlier ++ later →
    ∃ next, writeCalls server earlier = .ok next ∧ next.mutexLocked = false

/-- The call gets a descriptor and a copy of its buffer, so it takes no early exit. -/
def OutFileCall.Releases (call : OutFileCall) : Prop :=
  (call.outFd.isSome = true ∨ call.outcomes.reopen = true) ∧
    call.outcomes.mallocValidate = true

section

variable {server : Server} {outcomes : OutFileOutcomes}

theorem writeToOutFile_some (unlocked : server.mutexLocked = false) (outcomes : OutFileOutcomes)
    (file : Nat) (buffer : Bytes) :
    ∃ err next, writeToOutFile outcomes (some file) buffer server = .ok (err, next) ∧
      next.events = server.events ∧ (next.mutexLocked = false ↔ outcomes.mallocValidate = true) ∧
      (outcomes.mallocValidate = false → err = -1) := by
  by_cases copied : outcomes.mallocValidate = true
  · obtain ⟨err, next, wrote, kept⟩ :=
      seekOrWrite_events outcomes file buffer { server with mutexLocked := true }
    refine ⟨err, { next with mutexLocked := false }, ?_, kept, by simp [copied],
      by simp [copied]⟩
    simp [writeToOutFile, unlocked, copied, wrote]
  · refine ⟨-1, { server with mutexLocked := true }, ?_, rfl, by simp [copied], fun _ => rfl⟩
    simp [writeToOutFile, unlocked, copied]
    rfl

theorem writeToOutFile_reopened (unlocked : server.mutexLocked = false)
    (reopen : outcomes.reopen = true) (buffer : Bytes) :
    writeToOutFile outcomes none buffer server =
      writeToOutFile outcomes (some server.nextFile) buffer
        (server.openOutFile true .reopened).2 := by
  have still : (server.openOutFile true .reopened).2.mutexLocked = false := unlocked
  simp [writeToOutFile, unlocked, still, reopen]
  rfl

theorem writeToOutFile_closed (unlocked : server.mutexLocked = false)
    (reopen : outcomes.reopen = false) (buffer : Bytes) :
    writeToOutFile outcomes none buffer server = .ok (-1, { server with mutexLocked := true }) := by
  simp [writeToOutFile, unlocked, reopen, Server.openOutFile]
  rfl

theorem writeToOutFile_releases (unlocked : server.mutexLocked = false) (call : OutFileCall) :
    ∃ err next, writeToOutFile call.outcomes call.outFd call.buffer server = .ok (err, next) ∧
      (next.mutexLocked = false ↔ call.Releases) := by
  obtain ⟨outcomes, outFd, buffer⟩ := call
  unfold OutFileCall.Releases
  cases outFd with
  | some file =>
      obtain ⟨err, next, wrote, -, released, -⟩ := writeToOutFile_some unlocked outcomes file buffer
      exact ⟨err, next, wrote, by simpa using released⟩
  | none =>
      by_cases reopen : outcomes.reopen = true
      · have still : (server.openOutFile true .reopened).2.mutexLocked = false := unlocked
        obtain ⟨err, next, wrote, -, released, -⟩ :=
          writeToOutFile_some still outcomes server.nextFile buffer
        refine ⟨err, next, ?_, by simpa [reopen] using released⟩
        rw [writeToOutFile_reopened unlocked reopen, wrote]
      · refine ⟨-1, _, writeToOutFile_closed unlocked (by simpa using reopen) buffer, ?_⟩
        simp [reopen]

end

theorem writeCalls_cons {server next : Server} {call : OutFileCall} {err : Int}
    (wrote : writeToOutFile call.outcomes call.outFd call.buffer server = .ok (err, next))
    (calls : List OutFileCall) : writeCalls server (call :: calls) = writeCalls next calls := by
  rw [writeCalls, List.foldlM_cons, wrote]
  rfl

theorem writeCalls_neverHeld_iff (server : Server) (unlocked : server.mutexLocked = false)
    (calls : List OutFileCall) :
    NeverHeld server calls ↔ ∀ call ∈ calls, call.Releases := by
  induction calls generalizing server with
  | nil =>
      constructor
      · rintro - call member
        cases member
      · intro _ earlier later split
        obtain ⟨rfl, -⟩ := List.append_eq_nil_iff.mp split.symm
        exact ⟨server, rfl, unlocked⟩
  | cons call calls ih =>
      obtain ⟨err, next, wrote, released⟩ := writeToOutFile_releases unlocked call
      constructor
      · intro free
        obtain ⟨after, ran, unheld⟩ := free [call] calls rfl
        rw [writeCalls_cons wrote] at ran
        cases ran
        have rest : NeverHeld next calls := by
          intro earlier later split
          obtain ⟨final, ran, ended⟩ := free (call :: earlier) later (by rw [split]; rfl)
          rw [writeCalls_cons wrote] at ran
          exact ⟨final, ran, ended⟩
        exact List.forall_mem_cons.mpr ⟨released.mp unheld, (ih next unheld).mp rest⟩
      · intro all earlier later split
        obtain ⟨first, others⟩ := List.forall_mem_cons.mp all
        have free := released.mpr first
        cases earlier with
        | nil => exact ⟨server, rfl, unlocked⟩
        | cons head earlier =>
            obtain ⟨rfl, tail⟩ := List.cons.inj split
            rw [writeCalls_cons wrote]
            exact (ih next free).mpr others earlier later tail

def reopeningCall : OutFileCall := ⟨{}, none, [97, 10]⟩

theorem writeCalls_neverHeld_iff_reopening :
    NeverHeld Server.boot [reopeningCall, reopeningCall] ↔
      ∀ call ∈ [reopeningCall, reopeningCall], call.Releases :=
  writeCalls_neverHeld_iff Server.boot rfl [reopeningCall, reopeningCall]

theorem neverHeld_fails_malloc :
    (writeToOutFile { mallocValidate := false } (some 0) [97, 10] Server.boot).toOption.map
        (fun result => (result.1, result.2.mutexLocked)) = some (-1, true) ∧
      writeCalls Server.boot [⟨{ mallocValidate := false }, some 0, [97, 10]⟩, reopeningCall] =
        .error .deadlock ∧
      ¬ NeverHeld Server.boot
        [⟨{ mallocValidate := false }, some 0, [97, 10]⟩, reopeningCall] := by
  refine ⟨rfl, rfl, fun free => ?_⟩
  obtain ⟨next, ran, -⟩ := free _ [] (List.append_nil _).symm
  cases ran

/-! Descriptors of a connection. -/

def ClosedOnce (made : List Event) : Prop :=
  ∀ descriptor, made.count (.opened descriptor) ≤ 1 ∧
    made.count (.closed descriptor) = made.count (.opened descriptor)

/-- If `create_thread_and_run` returns, what it has opened is closed, and the pointer it looked
at was not NULL. The descriptor of the client is opened by `accept`. -/
def Leakless (server : Server) (connection : Connection) : Prop :=
  match createThreadAndRun connection (server.log (.opened .client)) with
  | .ok (_, after) => ClosedOnce (after.events.drop server.events.length)
  | .error .nullDereference => False
  | .error _ => True

structure LeaksNothing (connections : List Connection) : Prop where
  each : ∀ earlier connection later server, connections = earlier ++ connection :: later →
    serve Server.boot earlier = .ok server → Leakless server connection
  between : ∀ earlier later server, connections = earlier ++ later →
    serve Server.boot earlier = .ok server →
    ∀ descriptor, server.events.count (.closed descriptor) =
      server.events.count (.opened descriptor)

theorem cleanEvents_closedOnce : ClosedOnce (.opened .client :: cleanEvents) := by
  intro descriptor
  cases descriptor <;> decide

theorem count_cleanEvents (descriptor : Descriptor) (connections : List Connection) :
    (connections.flatMap fun _ => Event.opened .client :: cleanEvents).count (.closed descriptor) =
      (connections.flatMap fun _ => Event.opened .client :: cleanEvents).count
        (.opened descriptor) := by
  induction connections with
  | nil => rfl
  | cons connection connections ih =>
      rw [List.flatMap_cons, List.count_append, List.count_append, ih,
        (cleanEvents_closedOnce descriptor).2]

/-- The exit missed the end of the handler, or the second descriptor of the device is lost. -/
def Leaves (made : List Event) : Prop :=
  .closed .client ∉ made ∨ (.opened .reopened ∈ made ∧ .closed .reopened ∉ made)

theorem not_closedOnce_of_leaves {made : List Event} (leaves : Leaves made) :
    ¬ ClosedOnce (.opened .client :: made) := by
  intro closed
  rcases leaves with unclosed | ⟨opened, lost⟩
  · have client := (closed .client).2
    simp [List.count_eq_zero.mpr unclosed] at client
  · have reopened := (closed .reopened).2
    have some := List.count_pos_iff.mpr opened
    simp only [List.count_cons, List.count_eq_zero.mpr lost] at reopened
    simp at reopened
    omega

theorem not_leakless {server after : Server} {connection : Connection} {ret : Int}
    {made : List Event}
    (ran : createThreadAndRun connection (server.log (.opened .client)) = .ok (ret, after))
    (events : after.events = (server.log (.opened .client)).events ++ made)
    (leaves : Leaves made) : ¬ Leakless server connection := by
  have dropped : after.events.drop server.events.length = .opened .client :: made := by
    simp [events, Server.log]
  rw [Leakless, ran]
  simp only [dropped]
  exact not_closedOnce_of_leaves leaves

theorem forwardAndEcho_refused {server : Server} {chunks : List Bytes}
    (follows : server.Follows chunks) {connection : Connection}
    (openOut : connection.openOut = true)
    (refused : ¬ (connection.outFile.mallocValidate = true ∧
      connection.outFile.Delivers connection.firstRead)) :
    ∃ err next, forwardAndEcho connection connection.firstRead server = .ok (err, next) ∧
      next.events = server.events ++ [.opened .outFile] := by
  obtain ⟨opened, openedTo, serving, free, logged⟩ := follows.openOutFile .outFile
  have failed : ∃ err next, writeToOutFile connection.outFile (some server.nextFile)
      connection.firstRead opened = .ok (err, next) ∧ next.events = opened.events ∧ err ≠ 0 := by
    by_cases copied : connection.outFile.mallocValidate = true
    · obtain ⟨err, next, wrote, -, whole, calls, -⟩ :=
        writeToOutFile_serving serving free copied connection.firstRead
      exact ⟨err, next, wrote, calls.events, fun zero => refused ⟨copied, whole.mp zero⟩⟩
    · obtain ⟨err, next, wrote, events, -, early⟩ :=
        writeToOutFile_some free connection.outFile server.nextFile connection.firstRead
      obtain rfl := early (by simpa using copied)
      exact ⟨-1, next, wrote, events, by decide⟩
  obtain ⟨err, next, wrote, events, nonzero⟩ := failed
  refine ⟨err, next, ?_, by rw [events, logged]⟩
  rw [forwardAndEcho, forwardAndEchoAccount, openOut, openedTo]
  simp only [wrote, ok_bind, if_pos nonzero]
  rfl

/-- A packet that goes through after the second `open` still has no descriptor to echo from. -/
theorem forwardAndEcho_reopened {server : Server} (unlocked : server.mutexLocked = false)
    {connection : Connection} (unopened : connection.openOut = false)
    (reopen : connection.outFile.reopen = true) :
    ∃ err next made, forwardAndEcho connection connection.firstRead server = .ok (err, next) ∧
      next.events = server.events ++ made ∧ Leaves made := by
  have without : server.openOutFile connection.openOut .outFile = (none, server) := by
    rw [unopened]
    rfl
  have free : (server.openOutFile true .reopened).2.mutexLocked = false := unlocked
  obtain ⟨err, next, wrote, events, -⟩ :=
    writeToOutFile_some free connection.outFile server.nextFile connection.firstRead
  rw [← writeToOutFile_reopened unlocked reopen] at wrote
  by_cases zero : err = 0
  · refine ⟨1, next.log (.closed .client), [.opened .reopened, .closed .client], ?_, ?_,
      Or.inr (by decide)⟩
    · have steps : echoSteps = (2 ^ 32 + 1) + 1 := rfl
      rw [forwardAndEcho, forwardAndEchoAccount, without]
      simp only [wrote, ok_bind, zero, ne_eq, not_true_eq_false, if_false, steps, echoFrom]
      rfl
    · simp [Server.log, events, Server.openOutFile]
  · refine ⟨err, next, [.opened .reopened], ?_, ?_, Or.inl (by decide)⟩
    · rw [forwardAndEcho, forwardAndEchoAccount, without]
      simp only [wrote, ok_bind, ne_eq, zero, not_false_eq_true, if_true]
      rfl
    · simp [events, Server.openOutFile, Server.log]

theorem forwardAndEcho_leaves {server : Server} {chunks : List Bytes}
    (follows : server.Follows chunks) {connection : Connection}
    (unclean : ¬ (connection.openOut = true ∧ connection.outFile.mallocValidate = true ∧
      connection.outFile.Delivers connection.firstRead)) :
    ∃ err next made, forwardAndEcho connection connection.firstRead server = .ok (err, next) ∧
      next.events = server.events ++ made ∧ Leaves made := by
  by_cases openOut : connection.openOut = true
  · obtain ⟨err, next, forwarded, events⟩ :=
      forwardAndEcho_refused follows openOut fun clean => unclean ⟨openOut, clean⟩
    exact ⟨err, next, _, forwarded, events, Or.inl (by decide)⟩
  · have unopened : connection.openOut = false := by simpa using openOut
    by_cases reopen : connection.outFile.reopen = true
    · exact forwardAndEcho_reopened follows.unlocked unopened reopen
    · have wrote :=
        writeToOutFile_closed follows.unlocked (by simpa using reopen) connection.firstRead
      refine ⟨-1, { server with mutexLocked := true }, [], ?_, by simp, Or.inl (by simp)⟩
      rw [forwardAndEcho, forwardAndEchoAccount, unopened, Server.openOutFile,
        if_neg (by decide)]
      simp only [wrote, ok_bind]
      rfl

theorem Server.Follows.log {server : Server} {chunks : List Bytes} (follows : server.Follows chunks)
    (event : Event) : (server.log event).Follows chunks :=
  ⟨follows.driver, follows.committed, follows.unlocked⟩

theorem procNewConnection_leaves {server : Server} {chunks : List Bytes}
    (follows : server.Follows chunks) {connection : Connection}
    (mallocErr : connection.mallocErr = true) (mallocClientFd : connection.mallocClientFd = true)
    (pthreadCreate : connection.pthreadCreate = true) (unclean : ¬ connection.Clean) :
    ∃ err next made, procNewConnection connection server = .ok (some err, next) ∧
      next.events = server.events ++ made ∧ Leaves made := by
  by_cases openTmp : connection.openTmp = true
  · let logged := (server.log (.opened .tmpFile)).log (.closed .tmpFile)
    by_cases received : connection.reads.head? ≠ some .failed ∧
        accepts connection.tmpWrites connection.firstRead.length = true
    · have rest : ¬ (connection.openOut = true ∧ connection.outFile.mallocValidate = true ∧
          connection.outFile.Delivers connection.firstRead) := by
        rintro ⟨openOut, mallocValidate, delivers⟩
        exact unclean ⟨mallocClientFd, pthreadCreate, mallocErr, openTmp, received.1, received.2,
          openOut, mallocValidate, delivers⟩
      obtain ⟨err, next, made, forwarded, events, leaves⟩ :=
        forwardAndEcho_leaves ((follows.log (.opened .tmpFile)).log (.closed .tmpFile)) rest
      refine ⟨err, next, .opened .tmpFile :: .closed .tmpFile :: made, ?_, ?_, ?_⟩
      · rw [procNewConnection_received server mallocErr openTmp, if_pos received, forwarded]
        rfl
      · simp [events, Server.log]
      · simpa [Leaves] using leaves
    · refine ⟨-1, logged, [.opened .tmpFile, .closed .tmpFile], ?_, ?_, Or.inl (by decide)⟩
      · rw [procNewConnection_received server mallocErr openTmp, if_neg received]
      · simp [logged, Server.log]
  · exact ⟨1, server, [], procNewConnection_unopened server mallocErr (by simpa using openTmp),
      (List.append_nil _).symm, Or.inl (by simp)⟩

theorem not_leakless_of_unclean {server : Server} {chunks : List Bytes}
    (follows : server.Follows chunks) {connection : Connection} (unclean : ¬ connection.Clean) :
    ¬ Leakless server connection := by
  have none : Leaves [] := Or.inl (by simp)
  by_cases mallocClientFd : connection.mallocClientFd = true
  · by_cases pthreadCreate : connection.pthreadCreate = true
    · by_cases mallocErr : connection.mallocErr = true
      · obtain ⟨err, next, made, returned, events, leaves⟩ := procNewConnection_leaves
          (follows.log (.opened .client)) mallocErr mallocClientFd pthreadCreate unclean
        have ran : createThreadAndRun connection (server.log (.opened .client)) =
            .ok (if err ≠ 0 then 1 else 0, next) := by
          rw [createThreadAndRun_joined _ mallocClientFd pthreadCreate, returned]
          rfl
        exact not_leakless ran events leaves
      · have dereferenced : createThreadAndRun connection (server.log (.opened .client)) =
            .error .nullDereference := by
          rw [createThreadAndRun_joined _ mallocClientFd pthreadCreate,
            procNewConnection_unallocated _ (by simpa using mallocErr)]
          rfl
        rw [Leakless, dereferenced]
        exact not_false
    · have ran := createThreadAndRun_unstarted (server.log (.opened .client))
        (show (connection.mallocClientFd && connection.pthreadCreate) = false by
          simp [pthreadCreate])
      exact not_leakless ran (List.append_nil _).symm none
  · have ran := createThreadAndRun_unstarted (server.log (.opened .client))
      (show (connection.mallocClientFd && connection.pthreadCreate) = false by
        simp [mallocClientFd])
    exact not_leakless ran (List.append_nil _).symm none

theorem leakless_of_clean {server : Server} {chunks : List Bytes}
    (follows : server.Follows chunks) {connection : Connection} (clean : connection.Clean) :
    Leakless server connection := by
  obtain ⟨err, next, ran, -, events⟩ :=
    createThreadAndRun_follows (follows.log (.opened .client)) clean
  have dropped : next.events.drop server.events.length = .opened .client :: cleanEvents := by
    simp [events, Server.log]
  rw [Leakless, ran]
  simp only [dropped]
  exact cleanEvents_closedOnce

theorem LeaksNothing.init {connections : List Connection} {connection : Connection}
    (leaks : LeaksNothing (connections ++ [connection])) : LeaksNothing connections where
  each := by
    rintro earlier other later server rfl served
    exact leaks.each earlier other (later ++ [connection]) server (by simp) served
  between := by
    rintro earlier later server rfl served
    exact leaks.between earlier (later ++ [connection]) server (by simp) served

theorem serve_leaksNothing_iff (connections : List Connection) :
    LeaksNothing connections ↔ ∀ connection ∈ connections, connection.Clean := by
  constructor
  · intro leaks
    induction connections using List.reverseRecOn with
    | nil =>
        intro connection member
        cases member
    | append_singleton connections last ih =>
        have earlier := ih leaks.init
        obtain ⟨server, served, follows, -⟩ := serve_clean earlier
        have leakless := leaks.each connections last [] server rfl served
        intro connection member
        rcases List.mem_append.mp member with before | final
        · exact earlier connection before
        · obtain rfl := List.mem_singleton.mp final
          by_contra unclean
          exact not_leakless_of_unclean follows unclean leakless
  · intro clean
    constructor
    · rintro earlier connection later server rfl ran
      obtain ⟨after, served, follows, -⟩ := serve_clean fun other member =>
        clean other (List.mem_append_left _ member)
      rw [ran] at served
      cases served
      exact leakless_of_clean follows (clean connection (by simp))
    · rintro earlier later server rfl ran descriptor
      obtain ⟨after, served, -, events⟩ := serve_clean fun other member =>
        clean other (List.mem_append_left later member)
      rw [ran] at served
      cases served
      rw [events, count_cleanEvents]

def noTmpFile : Connection := { reads := [.data [97, 10]], openTmp := false }

def noResult : Connection := { reads := [.data [97, 10]], mallocErr := false }

/-- When the temporary file cannot be opened the client's descriptor stays open; when the
thread has no memory for its result, a NULL result is dereferenced. -/
theorem leaksNothing_fails_noTmpFile :
    (serve Server.boot [noTmpFile]).toOption.map (·.events) = some [.opened .client] ∧
      createThreadAndRun noResult (Server.boot.log (.opened .client)) = .error .nullDereference ∧
      ¬ LeaksNothing [noTmpFile] ∧ ¬ LeaksNothing [noResult] := by
  refine ⟨rfl, rfl, fun leaks => ?_, fun leaks => ?_⟩
  · have client := (leaks.each [] noTmpFile [] Server.boot rfl rfl .client).2
    exact absurd client (by decide)
  · exact leaks.each [] noResult [] Server.boot rfl rfl

/-- The device takes one byte of the packet and then fails. -/
def cutWrite : Connection :=
  { reads := [.data [97, 10]], outFile := { deviceWrites := [.count 1, .failed .other] } }

example : (serve Server.boot [cutWrite]).toOption.map (·.events) =
    some [.opened .client, .opened .tmpFile, .closed .tmpFile, .opened .outFile] := rfl

end Aesd
