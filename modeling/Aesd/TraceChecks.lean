import Aesd.HeapChecks
import Aesd.LogDeviceChecks
import Aesd.ReplyChecks
import Aesd.ResourceChecks

/-!
The server as a user of the driver. For each client in turn it opens the device, makes one seek
or the writes of the packet and then reads, and so what the driver does to kernel memory is known
for every run of the server.
-/

namespace Aesd

open MachineInt Records Cells

/-! The calls of a client. -/

/-- The calls of the driver that one client leads to, when the echo asks for `reads`. -/
def Connection.calls (connection : Connection) (file : Nat) (reads : List UInt64) : List Call :=
  .openFile file :: (outFileCalls connection.outFile file connection.firstRead ++
    reads.map (.read file))

theorem Connection.run_calls (connection : Connection) (server : Server) (reads : List UInt64) :
    server.driver.run (connection.calls server.nextFile reads) =
      (connection.driverAt server).run (reads.map (.read server.nextFile)) := by
  rw [Connection.calls, Sys.run, List.foldl_cons, List.foldl_append]
  rfl

theorem echoFrom_reads {file : Nat} :
    ∀ (fuel : Nat) {results : List SysResult} {client sent : Sink} {err result : Int}
      {server next : Server},
      echoFrom (some file) fuel results client err server = some (result, sent, next) →
      ∃ reads : List UInt64,
        next = { server with driver := server.driver.run (reads.map (.read file)) } := by
  intro fuel
  induction fuel with
  | zero => intro _ _ _ _ _ _ _ ended; cases ended
  | succ fuel ih =>
      intro results client sent err result server next ended
      rw [echoFrom] at ended
      cases asked : readCount results with
      | none =>
          rw [asked] at ended
          cases ended
          exact ⟨[], rfl⟩
      | some count =>
          rw [asked] at ended
          by_cases none : count = 0
          · simp only [if_pos none] at ended
            cases ended
            exact ⟨[], rfl⟩
          · simp only [if_neg none] at ended
            rcases stepped : server.driver.step (.read file count) with ⟨reply, after⟩
            have once : { server with driver := after } =
                { server with driver := server.driver.run ([count].map (.read file)) } := by
              rw [List.map_singleton, Sys.run, List.foldl_cons, List.foldl_nil, stepped]
            rw [stepped] at ended
            cases reply with
            | fault reason =>
                cases ended
                exact ⟨[count], once⟩
            | ret value bytes =>
                dsimp only at ended
                split at ended
                · cases ended
                  exact ⟨[count], once⟩
                · split at ended
                  · cases ended
                  · split at ended
                    · cases ended
                      exact ⟨[count], once⟩
                    · obtain ⟨reads, rfl⟩ := ih ended
                      refine ⟨count :: reads, ?_⟩
                      rw [List.map_cons, Sys.run, Sys.run, List.foldl_cons, stepped]

theorem forwardAndEcho_calls {server next : Server} {chunks : List Bytes}
    (follows : server.Follows chunks) {connection : Connection} (clean : connection.Clean) {err : Int}
    (ran : forwardAndEcho connection connection.firstRead server = .ok (err, next)) :
    ∃ reads, next.driver = server.driver.run (connection.calls server.nextFile reads) ∧
      next.nextFile = server.nextFile + 1 := by
  obtain ⟨opened, openedTo, serving, unlocked, -⟩ := follows.openOutFile .outFile
  have made := (Prod.mk.inj openedTo).2
  obtain ⟨code, wrote, ended, -, whole, calls, -⟩ := writeToOutFile_serving serving unlocked
    clean.mallocValidate connection.firstRead
  obtain rfl := whole.mpr clean.delivers
  have files : wrote.nextFile = server.nextFile + 1 := by
    rw [calls.nextFile, ← made]
    rfl
  have starts : wrote.driver = connection.driverAt server := by
    rw [calls.driver, ← made]
    rfl
  rw [forwardAndEcho, forwardAndEchoAccount, clean.openOut, openedTo] at ran
  simp only [ended, ok_bind, ne_eq, not_true_eq_false, if_false] at ran
  split at ran
  · cases ran
  next echoed =>
    obtain ⟨reads, rfl⟩ := echoFrom_reads _ echoed
    cases ran
    refine ⟨reads, ?_, files⟩
    rw [connection.run_calls, ← starts]
    rfl

theorem createThreadAndRun_calls {server next : Server} {chunks : List Bytes}
    (follows : server.Follows chunks) {connection : Connection} (clean : connection.Clean) {err : Int}
    (ran : createThreadAndRun connection server = .ok (err, next)) :
    ∃ reads, next.driver = server.driver.run (connection.calls server.nextFile reads) ∧
      next.nextFile = server.nextFile + 1 := by
  let logged := (server.log (.opened .tmpFile)).log (.closed .tmpFile)
  have kept : logged.Follows chunks := ⟨follows.driver, follows.committed, follows.unlocked⟩
  obtain ⟨code, after, forwarded, -⟩ := forwardAndEcho_follows kept clean
  rw [createThreadAndRun_joined server clean.mallocClientFd clean.pthreadCreate,
    procNewConnection_received server clean.mallocErr clean.openTmp,
    if_pos (And.intro clean.read clean.tmpWrites), forwarded] at ran
  cases ran
  exact forwardAndEcho_calls kept clean forwarded

/-! A run of clients. -/

/-- Client `index` has file `index`, and its echo asks for `reads index`. -/
def callsOf (connections : List Connection) (reads : Nat → List UInt64) : List Call :=
  (connections.mapIdx fun index connection => connection.calls index (reads index)).flatten

theorem callsOf_concat (connections : List Connection) (connection : Connection)
    (reads : Nat → List UInt64) (last : List UInt64) :
    callsOf (connections ++ [connection]) (Function.update reads connections.length last) =
      callsOf connections reads ++ connection.calls connections.length last := by
  have same : (connections.mapIdx fun index connection =>
      connection.calls index (Function.update reads connections.length last index)) =
        connections.mapIdx fun index connection => connection.calls index (reads index) := by
    refine List.mapIdx_eq_mapIdx_iff.mpr fun index bound => ?_
    rw [Function.update_of_ne (by omega)]
  rw [callsOf, List.mapIdx_concat, same, Function.update_self, List.flatten_concat]
  rfl

theorem serve_calls {connections : List Connection}
    (clean : ∀ connection ∈ connections, connection.Clean) :
    ∃ server reads, serve Server.boot connections = .ok server ∧
      server.Follows (connections.flatMap Connection.forwarded) ∧
      server.nextFile = connections.length ∧
      server.driver = Sys.boot.run (callsOf connections reads) := by
  induction connections using List.reverseRecOn with
  | nil => exact ⟨Server.boot, fun _ => [], rfl, Server.boot_follows, rfl, rfl⟩
  | append_singleton connections connection ih =>
      obtain ⟨server, reads, served, follows, files, driver⟩ := ih fun earlier member =>
        clean earlier (List.mem_append_left _ member)
      have last := clean connection (List.mem_append_right _ (List.mem_singleton_self _))
      have accepted := follows.log (.opened .client)
      obtain ⟨err, next, ran, followed, -⟩ := createThreadAndRun_follows accepted last
      obtain ⟨count, made, file⟩ := createThreadAndRun_calls accepted last ran
      refine ⟨next, Function.update reads connections.length count, ?_, by simpa using followed,
        ?_, ?_⟩
      · rw [serve_concat, served, ok_bind, ran]
        rfl
      · rw [file, List.length_append, List.length_singleton]
        exact congrArg (· + 1) files
      · have same : (server.log (.opened .client)).driver = server.driver := rfl
        have file : (server.log (.opened .client)).nextFile = connections.length := files
        rw [made, same, file, callsOf_concat, driver]
        exact (List.foldl_append ..).symm

theorem outFileCalls_chunks {sys : Sys} {file : Nat} (opened : (sys.files file).privateData = true)
    (outcomes : OutFileOutcomes) (buffer : Bytes) :
    sys.chunks (outFileCalls outcomes file buffer) = outcomes.handed buffer := by
  rw [outFileCalls, OutFileOutcomes.handed]
  cases parseSeekCommand (buffer ++ outcomes.heapTail) with
  | some seekto =>
      by_cases asked : outcomes.ioctl = true
      · simp [asked, Sys.chunks, Call.chunk]
      · simp [asked, Sys.chunks]
  | none => exact Sys.chunks_writes opened _

theorem Connection.calls_chunks (connection : Connection) (file : Nat) (reads : List UInt64)
    (sys : Sys) : sys.chunks (connection.calls file reads) = connection.forwarded := by
  have opened : ((sys.step (.openFile file)).2.files file).privateData = true := by
    simp [Sys.step, Sys.setFile, aesdOpen]
  have unwritten : ∀ call ∈ reads.map (Call.read file), call.writes = false := by
    intro call member
    obtain ⟨count, -, rfl⟩ := List.mem_map.mp member
    rfl
  rw [Connection.calls, Sys.chunks, Sys.chunks_append, Sys.chunks_unwritten unwritten,
    outFileCalls_chunks opened, List.append_nil]
  rfl

theorem callsOf_chunks (connections : List Connection) (reads : Nat → List UInt64) (sys : Sys) :
    sys.chunks (callsOf connections reads) = connections.flatMap Connection.forwarded := by
  induction connections using List.reverseRecOn with
  | nil => rfl
  | append_singleton connections connection ih =>
      have kept := callsOf_concat connections connection reads (reads connections.length)
      rw [Function.update_eq_self] at kept
      rw [kept, Sys.chunks_append, ih, connection.calls_chunks, List.flatMap_append]
      simp

theorem outFileCalls_nonempty (outcomes : OutFileOutcomes) (file target : Nat) (buffer : Bytes) :
    Call.write target [] ∉ outFileCalls outcomes file buffer := by
  rw [outFileCalls]
  split
  · split <;> simp
  · intro member
    obtain ⟨piece, handed, same⟩ := List.mem_map.mp member
    cases same
    exact writtenPieces_ne_nil handed rfl

theorem callsOf_nonempty (connections : List Connection) (reads : Nat → List UInt64) :
    NonemptyWrites (callsOf connections reads) := by
  intro file member
  obtain ⟨calls, made, member⟩ := List.mem_flatten.mp member
  obtain ⟨index, bound, rfl⟩ := List.mem_mapIdx.mp made
  rw [Connection.calls, List.mem_cons, List.mem_append] at member
  obtain opening | handing | reading := member
  · cases opening
  · exact outFileCalls_nonempty _ _ _ _ handing
  · obtain ⟨count, -, same⟩ := List.mem_map.mp reading
    cases same

/-! Calls whose own calls all succeed. -/

def Call.plain (call : Call) : Attempt := { call }

theorem Sys.attempt_plain (sys : Sys) (call : Call) : sys.attempt call.plain = sys.step call := by
  cases call <;> rfl

theorem Sys.attemptReplies_plain (calls : List Call) (sys : Sys) :
    sys.attemptReplies (calls.map Call.plain) = sys.replies calls := by
  induction calls generalizing sys with
  | nil => rfl
  | cons call calls ih =>
      rw [Sys.attemptReplies, List.map_cons, Simulation.replies, sys.attempt_plain]
      exact congrArg _ (ih _)

theorem Call.plain_sound {call : Call} (written : call ≠ .write call.file []) :
    call.plain.Sound := by
  rintro file buf (rfl : call = .write file buf)
  exact ⟨fun empty => written (by rw [empty]; rfl), Or.inr ⟨rfl, fun _ => rfl⟩⟩

theorem Sys.Follows.plain_accepted {sys : Sys} {chunks : List Bytes} {buffer : CircularBuffer}
    (follows : sys.Follows chunks buffer) {call : Call} (written : call ≠ .write call.file []) :
    call.plain.accepted sys = call.chunk sys := by
  cases call with
  | write file buf =>
      have nonempty : buf ≠ [] := fun empty => written (by rw [empty]; rfl)
      by_cases opened : (sys.files file).privateData = true
      · obtain ⟨state, -, wrote, -⟩ := aesdWrite_follows follows opened nonempty
        simp [Attempt.accepted, Sys.attempt, Call.plain, Call.chunk, wrote, opened]
      · have closed : (sys.files file).privateData = false := by simpa using opened
        have failed : aesdWrite {} sys.dev (sys.files file) buf = (.ret (-enomem) [], sys.dev) := by
          simp [aesdWrite, closed]
        have negative : ¬ 0 ≤ -enomem := by decide
        simp only [Attempt.accepted, Sys.attempt, Call.plain, Call.chunk, failed, if_neg negative,
          if_neg opened]
  | _ => rfl

theorem Sys.Follows.accepted_plain {calls : List Call} (nonempty : NonemptyWrites calls) :
    ∀ {sys : Sys} {chunks : List Bytes} {buffer : CircularBuffer}, sys.Follows chunks buffer →
      sys.accepted (calls.map Call.plain) = sys.chunks calls := by
  induction calls with
  | nil => exact fun _ => rfl
  | cons call calls ih =>
      intro sys chunks buffer follows
      obtain ⟨written, later⟩ := nonempty.of_cons
      obtain ⟨after, stepped⟩ := follows.step call
      rw [List.map_cons, Sys.accepted, Sys.chunks, sys.attempt_plain, follows.plain_accepted written,
        ih later stepped]

theorem NonemptyWrites.sound {calls : List Call} (nonempty : NonemptyWrites calls) :
    ∀ attempt ∈ calls.map Call.plain, attempt.Sound := by
  rintro attempt member
  obtain ⟨call, called, rfl⟩ := List.mem_map.mp member
  refine Call.plain_sound fun empty => nonempty call.file ?_
  rw [← empty]
  exact called

/-! The kernel's memory under the server. -/

/-- What a run of clients leaves in kernel memory: the lines that are kept and what is pending,
and besides a block for what each earlier write left unfinished when the next one came. Nothing
is lost exactly when every write but the last ends a line. -/
theorem serve_kernelMemory (allocator : Allocator UInt8) (memory : Memory)
    (connections : List Connection) (clean : ∀ connection ∈ connections, connection.Clean)
    (count : (commandsOf (connections.flatMap Connection.forwarded)).length ≤ 2 ^ 32) :
    ∃ server reads start, serve Server.boot connections = .ok server ∧
      server.driver = Sys.boot.run (callsOf connections reads) ∧
      (HeapSys.fresh memory).initDevice allocator {} = .ok (true, 1, start) ∧
      start.replies allocator ((callsOf connections reads).map Call.plain) =
        Sys.boot.replies (callsOf connections reads) ∧
      ((start.run allocator ((callsOf connections reads).map Call.plain)).memory.entries.map
          Sigma.snd).Perm
        (liveOf (commandsOf (connections.flatMap Connection.forwarded)) ++
          partialBlock (pendingOf (connections.flatMap Connection.forwarded)) ++
          lostBlocks (connections.flatMap Connection.forwarded) ++
          List.replicate bufferBytes 0 :: memory.entries.map Sigma.snd) ∧
      (lostBlocks (connections.flatMap Connection.forwarded) = [] ↔
        ∀ piece ∈ (connections.flatMap Connection.forwarded).dropLast,
          endsCommand piece = true) := by
  obtain ⟨server, reads, served, -, -, driver⟩ := serve_calls clean
  have nonempty := callsOf_nonempty connections reads
  obtain ⟨start, address, loaded, backed⟩ := HeapSys.initDevice_backed allocator memory {} rfl
  obtain ⟨replies, final⟩ := Backed.run allocator nonempty.sound backed
  rw [List.nil_append, Sys.boot_follows.accepted_plain nonempty, callsOf_chunks] at final
  rw [Sys.attemptReplies_plain] at replies
  exact ⟨server, reads, start, served, driver, loaded, replies, final.contents count,
    lostBlocks_eq_nil_iff final.nonempty⟩

/-- The line of two clients is lost in part: the first one closes before its newline. -/
def cutClients : List Connection := [client [[97]], client [[98, 10]]]

theorem serve_kernelMemory_cut :
    ∃ server reads start, serve Server.boot cutClients = .ok server ∧
      server.driver = Sys.boot.run (callsOf cutClients reads) ∧
      (HeapSys.fresh usedMemory).initDevice (.bump 255) {} = .ok (true, 1, start) ∧
      start.replies (.bump 255) ((callsOf cutClients reads).map Call.plain) =
        Sys.boot.replies (callsOf cutClients reads) ∧
      ((start.run (.bump 255) ((callsOf cutClients reads).map Call.plain)).memory.entries.map
          Sigma.snd).Perm
        ([[97, 98, 10]] ++ [] ++ [[97]] ++ List.replicate bufferBytes 0 :: [[1, 2]]) ∧
      (lostBlocks (cutClients.flatMap Connection.forwarded) = [] ↔
        ∀ piece ∈ (cutClients.flatMap Connection.forwarded).dropLast,
          endsCommand piece = true) :=
  serve_kernelMemory (.bump 255) usedMemory cutClients
    (by simp [cutClients, (client_succeeds _).clean]) (by decide)

end Aesd
