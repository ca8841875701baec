import Aesd.MainChecks
import Aesd.ResourceChecks

/-!
Which clients the server survives, whatever the calls made for them return. One failure makes it
dereference NULL, two leave the mutex locked, and then it stops at the next packet; every other
client costs no more than its own packet.
-/

namespace Aesd

/-- The device has been given `chunks`, whoever holds the mutex. -/
structure Server.Stores (server : Server) (chunks : List Bytes) : Prop where
  driver : ∃ buffer, server.driver.Follows chunks buffer
  committed : server.committed = commandsOf chunks

theorem Server.Serving.stores {server : Server} {chunks : List Bytes} {file : Nat}
    (serving : server.Serving chunks file) : server.Stores chunks :=
  ⟨serving.driver, serving.committed⟩

theorem Server.Stores.log {server : Server} {chunks : List Bytes} (stores : server.Stores chunks)
    (event : Event) : (server.log event).Stores chunks :=
  ⟨stores.driver, stores.committed⟩

/-! What the outcomes of a client's calls make of it. -/

def Connection.starts (connection : Connection) : Bool :=
  connection.mallocClientFd && connection.pthreadCreate

/-- The thread returns NULL, and `create_thread_and_run` reads through it. -/
def Connection.crashes (connection : Connection) : Bool :=
  connection.starts && !connection.mallocErr

/-- What the client sends goes through the temporary file. -/
def Connection.arrives (connection : Connection) : Bool :=
  connection.openTmp && decide (connection.reads.head? ≠ some .failed) &&
    accepts connection.tmpWrites connection.firstRead.length

/-- The handler comes to `write_to_out_file`. -/
def Connection.hands (connection : Connection) : Bool :=
  connection.starts && connection.mallocErr && connection.arrives

/-- `write_to_out_file` comes to its unlock. -/
def Connection.releases (connection : Connection) : Bool :=
  (connection.openOut || connection.outFile.reopen) && connection.outFile.mallocValidate

def Connection.locksOut (connection : Connection) : Bool :=
  connection.hands && !connection.releases

/-- What the device gets once the packet is handed on. -/
def Connection.passes (connection : Connection) : List Bytes :=
  if connection.releases then connection.forwarded else []

def Connection.stored (connection : Connection) : List Bytes :=
  if connection.hands then connection.passes else []

/-! One client. -/

section

variable {server : Server} {chunks : List Bytes} {file : Nat}

theorem Server.Stores.openOutFile (stores : server.Stores chunks) (descriptor : Descriptor) :
    ∃ next, server.openOutFile true descriptor = (some server.nextFile, next) ∧
      next.Serving chunks server.nextFile ∧ next.mutexLocked = server.mutexLocked := by
  obtain ⟨buffer, driver⟩ := stores.driver
  refine ⟨_, rfl, ⟨⟨buffer, driver.present, driver.history⟩, stores.committed, ?_, ?_⟩, rfl⟩
  · simp [Server.log, Sys.step, Sys.setFile, aesdOpen]
  · simp [Server.log, Sys.step, Sys.setFile, aesdOpen]

theorem writeToOutFile_stores (serving : server.Serving chunks file)
    (unlocked : server.mutexLocked = false) (outcomes : OutFileOutcomes) (buffer : Bytes) :
    ∃ err next, writeToOutFile outcomes (some file) buffer server = .ok (err, next) ∧
      next.mutexLocked = !outcomes.mallocValidate ∧
      next.Serving (chunks ++ if outcomes.mallocValidate then outcomes.handed buffer else [])
        file := by
  by_cases copied : outcomes.mallocValidate = true
  · obtain ⟨err, next, wrote, free, -, -, served⟩ :=
      writeToOutFile_serving serving unlocked copied buffer
    exact ⟨err, next, wrote, by simp [copied, free], by rwa [if_pos copied]⟩
  · refine ⟨-1, { server with mutexLocked := true }, ?_, by simp [copied], ?_⟩
    · simp [writeToOutFile, unlocked, copied]
      rfl
    · rw [if_neg copied, List.append_nil]
      exact ⟨serving.driver, serving.committed, serving.opened, serving.position⟩

theorem forwardAndEcho_ends {connection : Connection} {buffer : Bytes} {outFd : Option Nat}
    {opened wrote : Server} {err : Int}
    (openedTo : server.openOutFile connection.openOut .outFile = (outFd, opened))
    (written : writeToOutFile connection.outFile outFd buffer opened = .ok (err, wrote))
    (stores : wrote.Stores chunks) (serving : ∀ file, outFd = some file → wrote.Serving chunks file) :
    ∃ result next, forwardAndEcho connection buffer server = .ok (result, next) ∧
      next.Stores chunks ∧ next.mutexLocked = wrote.mutexLocked := by
  rw [forwardAndEcho, forwardAndEchoAccount, openedTo]
  simp only [written, ok_bind]
  by_cases failed : err ≠ 0
  · rw [if_pos failed]
    exact ⟨err, wrote, rfl, stores, rfl⟩
  · rw [if_neg failed]
    cases outFd with
    | none => exact ⟨1, wrote.log (.closed .client), rfl, stores.log _, rfl⟩
    | some file =>
        have still := serving file rfl
        obtain ⟨before, driver⟩ := still.driver
        have width := before.wCharAbs.toNat_lt
        have position := still.position
        have enough : (before.wCharAbs.toNat + 1 - (wrote.driver.files file).fPos).toNat <
            echoSteps := by
          rw [echoSteps]
          omega
        obtain ⟨result, sent, moved, after, echoed, followed⟩ := echoFrom_ends echoSteps
          connection.deviceReads ⟨connection.clientWrites, []⟩ err wrote before driver still.opened
          enough
        simp only [echoed]
        exact ⟨result, _, rfl, ⟨⟨after, followed⟩, still.committed⟩, rfl⟩

theorem forwardAndEcho_stores (stores : server.Stores chunks) (unlocked : server.mutexLocked = false)
    (connection : Connection) :
    ∃ err next, forwardAndEcho connection connection.firstRead server = .ok (err, next) ∧
      next.Stores (chunks ++ connection.passes) ∧ next.mutexLocked = !connection.releases := by
  unfold Connection.passes Connection.releases Connection.forwarded
  by_cases openOut : connection.openOut = true
  · obtain ⟨opened, openedTo, serving, kept⟩ := stores.openOutFile .outFile
    rw [← openOut] at openedTo
    obtain ⟨err, wrote, written, locked, served⟩ := writeToOutFile_stores serving
      (kept.trans unlocked) connection.outFile connection.firstRead
    obtain ⟨result, next, ran, stored, still⟩ := forwardAndEcho_ends openedTo written served.stores
      fun file same => Option.some.inj same ▸ served
    refine ⟨result, next, ran, ?_, ?_⟩
    · simpa [openOut] using stored
    · simp [openOut, still, locked]
  · have openedTo : server.openOutFile connection.openOut .outFile = (none, server) := by
      simp [Server.openOutFile, openOut]
    by_cases reopen : connection.outFile.reopen = true
    · obtain ⟨opened, reopenedTo, serving, kept⟩ := stores.openOutFile .reopened
      obtain ⟨err, wrote, written, locked, served⟩ := writeToOutFile_stores serving
        (kept.trans unlocked) connection.outFile connection.firstRead
      have again := writeToOutFile_reopened unlocked reopen connection.firstRead
      rw [reopenedTo, written] at again
      obtain ⟨result, next, ran, stored, still⟩ := forwardAndEcho_ends openedTo again served.stores
        (by simp)
      refine ⟨result, next, ran, ?_, ?_⟩
      · simpa [reopen] using stored
      · simp [reopen, still, locked]
    · have closed := writeToOutFile_closed unlocked (by simpa using reopen) connection.firstRead
      obtain ⟨result, next, ran, stored, still⟩ := forwardAndEcho_ends openedTo closed
        ⟨stores.driver, stores.committed⟩ (by simp)
      refine ⟨result, next, ran, ?_, ?_⟩
      · simpa [openOut, reopen] using stored
      · simp [openOut, reopen, still]

theorem forwardAndEcho_deadlock (server : Server) (locked : server.mutexLocked = true)
    (connection : Connection) (buffer : Bytes) :
    forwardAndEcho connection buffer server = .error .deadlock := by
  have still : (server.openOutFile connection.openOut .outFile).2.mutexLocked = true := by
    rw [Server.openOutFile]
    split
    · exact locked
    · exact locked
  rw [forwardAndEcho, forwardAndEchoAccount]
  simp only [writeToOutFile, still, if_true]
  rfl

end

theorem procNewConnection_unarrived (server : Server) {connection : Connection}
    (allocated : connection.mallocErr = true) (lost : connection.arrives = false) :
    ∃ err next, procNewConnection connection server = .ok (some err, next) ∧
      next.driver = server.driver ∧ next.committed = server.committed ∧
      next.mutexLocked = server.mutexLocked := by
  by_cases openTmp : connection.openTmp = true
  · have failed : ¬ (connection.reads.head? ≠ some .failed ∧
        accepts connection.tmpWrites connection.firstRead.length = true) := by
      simpa [Connection.arrives, openTmp] using lost
    rw [procNewConnection_received server allocated openTmp, if_neg failed]
    exact ⟨-1, _, rfl, rfl, rfl, rfl⟩
  · exact ⟨1, server, procNewConnection_unopened server allocated (by simpa using openTmp), rfl, rfl,
      rfl⟩

theorem procNewConnection_arrived {server : Server} {connection : Connection}
    {result : Except Halt (Int × Server)} (allocated : connection.mallocErr = true)
    (arrived : connection.arrives = true)
    (ran : forwardAndEcho connection connection.firstRead
      ((server.log (.opened .tmpFile)).log (.closed .tmpFile)) = result) :
    procNewConnection connection server = result.map fun (err, next) => (some err, next) := by
  simp only [Connection.arrives, Bool.and_eq_true, decide_eq_true_eq] at arrived
  rw [procNewConnection_received server allocated arrived.1.1,
    if_pos (And.intro arrived.1.2 arrived.2), ran]

theorem createThreadAndRun_started {server : Server} {connection : Connection}
    {result : Except Halt (Option Int × Server)} (started : connection.starts = true)
    (ran : procNewConnection connection server = result) :
    createThreadAndRun connection server = joined result := by
  simp only [Connection.starts, Bool.and_eq_true] at started
  rw [createThreadAndRun_joined server started.1 started.2, ran]

/-- A client crashes the server, waits for the mutex for ever, or costs its own packet at most. -/
theorem createThreadAndRun_outcome {server : Server} {chunks : List Bytes}
    (stores : server.Stores chunks) (connection : Connection) :
    if connection.crashes then createThreadAndRun connection server = .error .nullDereference
    else if connection.hands && server.mutexLocked then
      createThreadAndRun connection server = .error .deadlock
    else ∃ err next, createThreadAndRun connection server = .ok (err, next) ∧
      next.Stores (chunks ++ connection.stored) ∧
      next.mutexLocked = (server.mutexLocked || connection.locksOut) := by
  unfold Connection.crashes Connection.locksOut Connection.stored Connection.hands
  cases started : connection.starts with
  | false =>
      have ran := createThreadAndRun_unstarted server started
      simpa [ran] using stores
  | true =>
      cases allocated : connection.mallocErr with
      | false =>
          have returned := procNewConnection_unallocated server allocated
          simp [createThreadAndRun_started started returned, joined]
      | true =>
          cases arrived : connection.arrives with
          | false =>
              obtain ⟨err, next, returned, driver, committed, locked⟩ :=
                procNewConnection_unarrived server allocated arrived
              have kept : next.Stores chunks :=
                ⟨by rw [driver]; exact stores.driver, by rw [committed]; exact stores.committed⟩
              simpa [createThreadAndRun_started started returned, joined, locked] using kept
          | true =>
              cases locked : server.mutexLocked with
              | true =>
                  have stopped := forwardAndEcho_deadlock
                    ((server.log (.opened .tmpFile)).log (.closed .tmpFile)) locked connection
                    connection.firstRead
                  have returned := procNewConnection_arrived allocated arrived stopped
                  simp [createThreadAndRun_started started returned, joined, Except.map]
              | false =>
                  obtain ⟨err, next, ran, stored, still⟩ := forwardAndEcho_stores
                    ((stores.log (.opened .tmpFile)).log (.closed .tmpFile)) locked connection
                  have returned := procNewConnection_arrived allocated arrived ran
                  simpa [createThreadAndRun_started started returned, joined, Except.map, still]
                    using stored

/-! A run of clients. -/

/-- No client crashes the server, and none hands its packet on once the mutex is left locked. -/
def Survives (locked : Bool) (connections : List Connection) : Prop :=
  (∀ connection ∈ connections,
    connection.crashes = false ∧ (locked = true → connection.hands = false)) ∧
  connections.Pairwise fun earlier later => earlier.locksOut = true → later.hands = false

theorem survives_cons (locked : Bool) (connection : Connection) (connections : List Connection) :
    Survives locked (connection :: connections) ↔
      connection.crashes = false ∧ (connection.hands && locked) = false ∧
        Survives (locked || connection.locksOut) connections := by
  simp only [Survives, List.forall_mem_cons, List.pairwise_cons, Bool.or_eq_true]
  constructor
  · rintro ⟨⟨⟨crashes, hands⟩, rest⟩, after, pairs⟩
    refine ⟨crashes, ?_, fun other member => ⟨(rest other member).1, ?_⟩, pairs⟩
    · cases locked with
      | false => exact Bool.and_false _
      | true => rw [hands rfl, Bool.false_and]
    · rintro (held | out)
      · exact (rest other member).2 held
      · exact after other member out
  · rintro ⟨crashes, hands, rest, pairs⟩
    refine ⟨⟨⟨crashes, fun held => ?_⟩, fun other member =>
      ⟨(rest other member).1, fun held => (rest other member).2 (Or.inl held)⟩⟩,
      fun other member out => (rest other member).2 (Or.inr out), pairs⟩
    rwa [held, Bool.and_true] at hands

theorem serve_cons {server : Server} {connection : Connection}
    {result : Except Halt (Int × Server)}
    (ran : createThreadAndRun connection (server.log (.opened .client)) = result)
    (connections : List Connection) :
    serve server (connection :: connections) =
      result.bind fun outcome => serve outcome.2 connections := by
  rw [serve, List.foldlM_cons, ran]
  cases result <;> rfl

/-- A run of clients ends exactly when they let the server survive, and then the device has what
its writes took of the packets that got through, in order. -/
theorem serve_outcome (connections : List Connection) :
    ∀ {server : Server} {chunks : List Bytes}, server.Stores chunks →
      (Survives server.mutexLocked connections ∧
        ∃ next, serve server connections = .ok next ∧
          next.Stores (chunks ++ connections.flatMap Connection.stored) ∧
          next.mutexLocked = (server.mutexLocked || connections.any Connection.locksOut)) ∨
      (¬ Survives server.mutexLocked connections ∧
        ∃ halt, serve server connections = .error halt ∧ halt ≠ .endless) := by
  induction connections with
  | nil =>
      intro server chunks stores
      exact Or.inl ⟨⟨by simp, List.Pairwise.nil⟩, server, rfl, by simpa using stores, by simp⟩
  | cons connection connections ih =>
      intro server chunks stores
      rw [survives_cons]
      have outcome := createThreadAndRun_outcome (stores.log (.opened .client)) connection
      have locked : (server.log (.opened .client)).mutexLocked = server.mutexLocked := rfl
      rw [locked] at outcome
      split at outcome
      next crashes =>
        exact Or.inr ⟨by simp [crashes], _, serve_cons outcome connections, by decide⟩
      next alive =>
        split at outcome
        next waits =>
          exact Or.inr ⟨by simp [waits], _, serve_cons outcome connections, by decide⟩
        next serves =>
          obtain ⟨err, next, ran, stored, still⟩ := outcome
          have one : connection.crashes = false ∧ (connection.hands && server.mutexLocked) = false :=
            ⟨Bool.eq_false_iff.mpr alive, Bool.eq_false_iff.mpr serves⟩
          have rest := ih stored
          rw [still] at rest
          rw [serve_cons ran, ← and_assoc, and_iff_right one]
          refine rest.imp_left fun ⟨survives, final, served, ended, held⟩ =>
            ⟨survives, final, served, ?_, ?_⟩
          · rwa [List.flatMap_cons, ← List.append_assoc]
          · rw [held, List.any_cons, Bool.or_assoc]

/-! `main`. -/

theorem aesdsocketMain_idle {setup : Setup} (idle : ¬ setup.Listens) (turns : List Turn) :
    ∃ status process, aesdsocketMain setup turns = .ok (status, process) := by
  obtain ⟨socket, getaddrinfo, setsockopt, bind, listen⟩ := setup
  cases socket <;> cases getaddrinfo <;> cases setsockopt <;> cases bind <;> cases listen <;>
    first | exact ⟨_, _, rfl⟩ | exact absurd ⟨rfl, rfl, rfl, rfl, rfl⟩ idle

end Aesd
