import Aesd.LogDeviceSteps
import Aesd.DriverChecks
import Aesd.MainChecks
import Aesd.SocketChecks

/-!
What a client gets back. The server as in `SocketCore`, with the bytes that each client's socket
accepts; the replies of a whole run of clients follow from what the device has committed.
-/

namespace Aesd

open MachineInt Records Offsets

/-! What the client's socket accepts. -/

theorem Sink.writeAll_passes {client : Sink} (pass : ∀ result ∈ client.results, result.passes)
    (buffer : Bytes) :
    ∃ rest, client.writeAll buffer = some (0, ⟨rest, client.accepted ++ buffer⟩) ∧
      rest <:+ client.results := by
  have all := accepts_of_passes pass buffer.length
  obtain ⟨⟨rest, accepted⟩, ended, part, sent⟩ := client.writeAll_ends buffer
  rw [writtenPieces_flatten all] at sent
  rw [if_pos all] at ended
  exact ⟨rest, ended.trans (by rw [← sent]), part⟩

/-- What the calls of the echo ask for, while they succeed. -/
def readSizes (results : List SysResult) (call : Nat) : UInt64 :=
  (readCount (results.drop call)).getD bufSize

theorem readCount_of_succeeds {results : List SysResult}
    (succeeds : results.all SysResult.succeeds = true) :
    ∃ count, readCount results = some count ∧ 0 < count.toNat := by
  cases results with
  | nil => exact ⟨bufSize, rfl, by decide⟩
  | cons first results =>
      rw [List.all_cons, Bool.and_eq_true] at succeeds
      cases first with
      | failed reason => cases succeeds.1
      | count bytes =>
          have positive : 0 < bytes := by simpa [SysResult.succeeds] using succeeds.1
          have size : bufSize.toNat = 1024 := rfl
          refine ⟨_, rfl, ?_⟩
          rw [UInt64.toNat_ofNat', Nat.mod_eq_of_lt (by omega)]
          omega

theorem all_drop {results : List SysResult} (succeeds : results.all SysResult.succeeds = true)
    (call : Nat) : (results.drop call).all SysResult.succeeds = true :=
  List.all_eq_true.mpr fun result member =>
    List.all_eq_true.mp succeeds result (List.mem_of_mem_drop member)

theorem readSizes_pos {results : List SysResult} (succeeds : results.all SysResult.succeeds = true)
    (call : Nat) : 0 < (readSizes results call).toNat := by
  obtain ⟨count, reads, positive⟩ := readCount_of_succeeds (all_drop succeeds call)
  rwa [readSizes, reads]

theorem echoFrom_drain {file : Nat} :
    ∀ (fuel : Nat) (client : Sink) (server : Server) {results : List SysResult} {bytes : Bytes}
      {last : Int},
      results.all SysResult.succeeds = true → (∀ result ∈ client.results, result.passes) →
      server.driver.drain file (readSizes results) fuel = some (bytes, last) →
      ∃ rest driver, echoFrom (some file) fuel results client 0 server =
        some (if last < 0 then 1 else 0, ⟨rest, client.accepted ++ bytes⟩,
          { server with driver }) := by
  intro fuel
  induction fuel with
  | zero => intro _ _ _ _ _ _ _ drained; cases drained
  | succ fuel ih =>
      intro client server results bytes last succeeds pass drained
      obtain ⟨count, reads, positive⟩ := readCount_of_succeeds succeeds
      have asked : readSizes results 0 = count := by rw [readSizes, List.drop_zero, reads]; rfl
      have later : (fun call => readSizes results (call + 1)) = readSizes results.tail := by
        funext call
        rw [readSizes, readSizes, List.drop_tail]
      have some : count ≠ 0 := by
        rintro rfl
        exact absurd positive (by decide)
      rw [Sys.drain, asked, later] at drained
      rw [echoFrom, reads]
      simp only [if_neg some]
      rcases stepped : server.driver.step (.read file count) with ⟨reply, next⟩
      rw [stepped] at drained
      cases reply with
      | fault reason => cases drained
      | ret value data =>
          dsimp only at drained ⊢
          by_cases ended : value ≤ 0
          · rw [if_pos ended, Option.some.injEq, Prod.mk.injEq] at drained
            obtain ⟨rfl, rfl⟩ := drained
            rw [if_pos ended]
            exact ⟨client.results, next, by rw [List.append_nil]⟩
          · rw [if_neg ended] at drained
            obtain ⟨⟨others, final⟩, remaining, same⟩ := Option.map_eq_some_iff.mp drained
            cases same
            obtain ⟨left, wrote, part⟩ := Sink.writeAll_passes pass data
            have after : results.tail.all SysResult.succeeds = true := by
              rw [← List.drop_one]
              exact all_drop succeeds 1
            obtain ⟨rest, driver, echoed⟩ := ih ⟨left, client.accepted ++ data⟩
              { server with driver := next } after
              (fun result member => pass result (part.subset member)) remaining
            refine ⟨rest, driver, ?_⟩
            rw [if_neg ended]
            simp only [wrote, ne_eq, not_true_eq_false, if_false, echoed, List.append_assoc]

/-! The server as a client of the device. -/

/-- The driver when the echo of a connection starts. -/
def Connection.driverAt (connection : Connection) (server : Server) : Sys :=
  (server.driver.step (.openFile server.nextFile)).2.run
    (outFileCalls connection.outFile server.nextFile connection.firstRead)

/-- No call made for the connection fails, the device takes what it is handed, in one write or in
several, and the client takes what it is sent. -/
structure Connection.Answers (connection : Connection) : Prop where
  clean : connection.Clean
  deviceReads : connection.deviceReads.all SysResult.succeeds = true
  clientWrites : ∀ result ∈ connection.clientWrites, result.passes

/-- The bytes of a read to the end and the value of the last call; a refused read is `none`. -/
def drained : Option Bytes → Bytes × Int
  | some bytes => (bytes, 0)
  | none => ([], -1)

/-- A handler that has answered its client returns zero, and one whose read is refused, one. -/
def Connection.account (connection : Connection) : Option Bytes → Account
  | some bytes => ⟨0, bytes, connection.leaves 0⟩
  | none => ⟨1, [], connection.leaves 1⟩

theorem forwardAndEchoAccount_drain {server : Server} {chunks : List Bytes}
    (follows : server.Follows chunks) {connection : Connection} (answers : connection.Answers)
    {bytes : Bytes} {last : Int}
    (read : (connection.driverAt server).drain server.nextFile (readSizes connection.deviceReads)
      echoSteps =
      some (bytes, last)) :
    ∃ account next, forwardAndEchoAccount connection connection.firstRead server =
        .ok (account, next) ∧
      account.ret = (if last < 0 then 1 else 0) ∧ account.sent = bytes := by
  obtain ⟨opened, openedTo, serving, unlocked, -⟩ := follows.openOutFile .outFile
  have driver : opened.driver = (server.driver.step (.openFile server.nextFile)).2 := by
    rw [← (Prod.mk.inj openedTo).2]
    rfl
  obtain ⟨err, wrote, ended, -, whole, calls, -⟩ := writeToOutFile_serving serving unlocked
    answers.clean.mallocValidate connection.firstRead
  obtain rfl := whole.mpr answers.clean.delivers
  have starts : wrote.driver = connection.driverAt server := by
    rw [calls.driver, driver, Connection.driverAt]
  rw [← starts] at read
  obtain ⟨rest, left, echoed⟩ := echoFrom_drain echoSteps ⟨connection.clientWrites, []⟩ wrote
    answers.deviceReads answers.clientWrites read
  refine ⟨⟨if last < 0 then 1 else 0, bytes,
      .err :: connection.outFile.validateBuf (some server.nextFile) connection.firstRead⟩,
    ({ wrote with driver := left }.closeOut (some server.nextFile)).log (.closed .client), ?_,
    rfl, rfl⟩
  rw [forwardAndEchoAccount, answers.clean.openOut, openedTo]
  simp only [ended, ok_bind, ne_eq, not_true_eq_false, if_false, echoed, List.nil_append]
  rfl

theorem createThreadAndRunAccount_drain {server : Server} {chunks : List Bytes}
    (follows : server.Follows chunks) {connection : Connection} (answers : connection.Answers)
    {reply : Option Bytes}
    (read : (connection.driverAt server).drain server.nextFile (readSizes connection.deviceReads)
      echoSteps =
      some (drained reply)) :
    ∃ next, createThreadAndRunAccount connection server = .ok (connection.account reply, next) ∧
      next.Follows (chunks ++ connection.forwarded) := by
  let logged := (server.log (.opened .tmpFile)).log (.closed .tmpFile)
  have kept : logged.Follows chunks := ⟨follows.driver, follows.committed, follows.unlocked⟩
  obtain ⟨account, next, forwarded, ret, sent⟩ := forwardAndEchoAccount_drain kept answers read
  have clean := answers.clean
  have returned : procNewConnectionAccount connection server = .ok (some account, next) := by
    rw [procNewConnectionAccount, clean.mallocErr, clean.openTmp]
    simp only [receive_firstRead, if_pos (And.intro clean.read clean.tmpWrites)]
    simp [logged, forwarded]
  have ran : createThreadAndRunAccount connection server =
      .ok (if account.ret ≠ 0 then { account with ret := 1 }
        else { account with held := account.held.erase .err }, next) := by
    rw [createThreadAndRunAccount, clean.mallocClientFd, clean.pthreadCreate]
    simp only [Bool.true_eq_false, if_false, returned, ok_bind]
    rfl
  have followed : next.Follows (chunks ++ connection.forwarded) := by
    obtain ⟨code, final, handled, followed, -⟩ := createThreadAndRun_follows follows clean
    rw [createThreadAndRun, ran] at handled
    cases handled
    exact followed
  refine ⟨next, ?_, followed⟩
  cases reply with
  | some bytes =>
      have zero : account.ret = 0 := ret
      rw [if_neg (not_not.mpr zero)] at ran
      have held := createThreadAndRunAccount_held ran
      dsimp only at held
      rw [ran, held, zero, sent]
      rfl
  | none =>
      have one : account.ret ≠ 0 := by
        rw [ret]
        decide
      rw [if_pos one] at ran
      have held := createThreadAndRunAccount_held ran
      dsimp only at held
      rw [ran, held, sent]
      rfl

/-! What is read of the device. -/

/-- What a file at `position` still has to receive, or `none` where reading fails. -/
def bytesFrom (commands : List Bytes) (position : Nat) : Option Bytes :=
  if evictedChars commands ≤ position ∧ position ≤ commands.flatten.length then
    some (commands.flatten.drop position)
  else none

theorem InStep.of_few {commands : List Bytes} (few : commands.length ≤ 10) : InStep commands where
  start := by rw [Nat.sub_eq_zero_of_le few]
  sizes := by rw [slotsOf_eq_liveOf few]

theorem evictedChars_pos {commands : List Bytes} (nonempty : ∀ command ∈ commands, command ≠ [])
    (many : 10 < commands.length) : 0 < evictedChars commands := by
  obtain ⟨first, later, rfl⟩ := List.exists_cons_of_length_pos (by omega : 0 < commands.length)
  have size := List.length_pos_iff.mpr (nonempty first List.mem_cons_self)
  rw [evictedChars, show (first :: later).length - 10 = (first :: later).length - 11 + 1 by omega,
    List.take_succ_cons, List.flatten_cons, List.length_append]
  omega

theorem bytesFrom_zero {commands : List Bytes} (nonempty : ∀ command ∈ commands, command ≠ []) :
    bytesFrom commands 0 = if commands.length ≤ 10 then some commands.flatten else none := by
  rw [bytesFrom, List.drop_zero]
  by_cases few : commands.length ≤ 10
  · have start : evictedChars commands = 0 := by
      rw [evictedChars, Nat.sub_eq_zero_of_le few]
      rfl
    rw [if_pos few, if_pos ⟨start.le, Nat.zero_le _⟩]
  · have evicted := evictedChars_pos nonempty (by omega)
    rw [if_neg few, if_neg (by omega)]

theorem live_drop {commands : List Bytes} {position : Nat}
    (kept : evictedChars commands ≤ position) :
    (liveOf commands).flatten.drop (position - evictedChars commands) =
      commands.flatten.drop position := by
  have split : commands.flatten =
      (commands.take (commands.length - 10)).flatten ++ (liveOf commands).flatten := by
    rw [liveOf, ← List.flatten_append, List.take_append_drop]
  rw [split, List.drop_append, List.drop_eq_nil_of_le kept, List.nil_append]
  rfl

theorem Tracks.drain {sys : Sys} {device : LogDevice} (tracks : Tracks sys device)
    (noWrap : NoWrap device.commands) {file position : Nat} {counts : Nat → UInt64}
    (asked : ∀ call, 0 < (counts call).toNat)
    (here : sys.files file = ⟨true, (position : Nat)⟩)
    (reaches : position = 0 ∨ InStep device.commands) :
    sys.drain file counts echoSteps =
      some (drained (bytesFrom device.commands position)) := by
  obtain ⟨chunks, buffer, follows, nonempty, commands, -⟩ := tracks.history
  rw [← commands] at noWrap reaches ⊢
  have unwrapped := follows.unwrapped nonempty noWrap
  -- at zero the window's start matters only when nothing has been dropped
  have start : chargedChars (commandsOf chunks) ≤ position ↔
      evictedChars (commandsOf chunks) ≤ position := by
    obtain rfl | inStep := reaches
    · by_cases few : (commandsOf chunks).length ≤ 10
      · rw [(InStep.of_few few).charged unwrapped.count]
      · have charged := chargedChars_pos unwrapped.count unwrapped.nonempty (by omega)
        have evicted := evictedChars_pos unwrapped.nonempty (by omega)
        omega
    · rw [inStep.charged unwrapped.count]
  rw [bytesFrom]
  by_cases inside : chargedChars (commandsOf chunks) ≤ position ∧
      position ≤ (commandsOf chunks).flatten.length
  · have inStep : InStep (commandsOf chunks) := by
      obtain zero | inStep := reaches
      · refine InStep.of_few (Nat.le_of_not_lt fun many => ?_)
        have positive := chargedChars_pos unwrapped.count unwrapped.nonempty many
        omega
      · exact inStep
    have charged := inStep.charged unwrapped.count
    have total := totalChars_eq (commandsOf chunks)
    have chars := noWrap.chars
    have read := Sys.drain_aligned nonempty noWrap inStep.sizes (by omega) echoSteps
      (position - chargedChars (commandsOf chunks)) counts sys buffer follows asked (by rw [here, Nat.add_sub_cancel' inside.1]) (by omega)
      (by rw [echoSteps]; omega)
    rw [read, charged, live_drop (charged ▸ inside.1), if_pos (charged ▸ inside)]
    rfl
  · have outside : ¬ InWindow buffer (sys.files file).fPos := by
      rw [unwrapped.inWindow_iff, here]
      dsimp only
      omega
    have refused : sys.step (.read file (counts 0)) =
        (.ret (-1) [], (sys.step (.read file (counts 0))).2) := by
      simp only [Sys.step, aesdRead_refused (by rw [here]) follows.present outside]
    rw [if_neg fun kept => inside ⟨start.mpr kept.1, kept.2⟩, echoSteps, Sys.drain, refused]
    rfl

/-! One client. -/

/-- Where the echo of a connection starts to read. -/
def Connection.readsFrom (connection : Connection) (commands : List Bytes) : Nat :=
  match parseSeekCommand (connection.firstRead ++ connection.outFile.heapTail) with
  | some seekto => if connection.outFile.ioctl then seekPosition commands seekto else 0
  | none => 0

/-- A seek of the connection finds the device in step and stays inside the slots. -/
def Connection.Reaches (connection : Connection) (commands : List Bytes) : Prop :=
  ∀ seekto, parseSeekCommand (connection.firstRead ++ connection.outFile.heapTail) = some seekto →
    connection.outFile.ioctl = true → InStep commands ∧ seekto.writeCmd.toNat ≤ 10

theorem Server.Follows.tracks {server : Server} {chunks : List Bytes}
    (follows : server.Follows chunks) (nonempty : ∀ chunk ∈ chunks, chunk ≠ []) :
    Tracks server.driver ⟨commandsOf chunks, pendingOf chunks, server.driver.files⟩ := by
  obtain ⟨buffer, driver⟩ := follows.driver
  exact ⟨⟨chunks, buffer, driver, nonempty, rfl, rfl⟩, rfl⟩

theorem Tracks.openedAt {sys : Sys} {device : LogDevice} (tracks : Tracks sys device) (file : Nat) :
    Tracks (sys.step (.openFile file)).2 (device.setFile file ⟨true, 0⟩) := by
  have step : device.step (.openFile file) = (.ret 0 [], device.setFile file ⟨true, 0⟩) :=
    if_pos (Or.inl rfl)
  have opened := (tracks.openFile file).2
  rwa [step] at opened

theorem Tracks.seekTo {sys : Sys} {device : LogDevice} (tracks : Tracks sys device) {file : Nat}
    (opened : (sys.files file).privateData = true) (noWrap : NoWrap device.commands)
    (inStep : InStep device.commands) {seekto : AesdSeekto} (slot : seekto.writeCmd.toNat ≤ 10) :
    Tracks (sys.step (.ioctl file aesdcharIocseekto seekto)).2
      (device.setFile file ⟨true, (seekPosition device.commands seekto : Nat)⟩) := by
  have answerable : Answerable device (.ioctl file aesdcharIocseekto seekto) :=
    ⟨(proper_iff _).mpr (by simp), noWrap, inStep⟩
  have moved := (tracks.ioctl opened answerable).2
  have served := tracks.serve (.ioctl file aesdcharIocseekto seekto) opened
  rw [served, LogDevice.serve, if_neg (not_not.mpr rfl), if_neg (Nat.not_lt.mpr slot)] at moved
  simpa only [Call.file, opened] using moved

theorem Tracks.wrote {sys : Sys} {chunks : List Bytes} {files : Nat → File}
    (tracks : Tracks sys ⟨commandsOf chunks, pendingOf chunks, files⟩) {file : Nat} {buf : Bytes}
    (opened : (sys.files file).privateData = true) (nonempty : buf ≠ []) :
    Tracks (sys.step (.write file buf)).2
      ⟨commandsOf (chunks ++ [buf]), pendingOf (chunks ++ [buf]), files⟩ := by
  have wrote := (tracks.write opened nonempty).2
  have served := tracks.serve (.write file buf) opened
  rw [served, LogDevice.serve, LogDevice.append] at wrote
  rw [commandsOf_concat, pendingOf_concat]
  split at wrote
  next ended => rwa [if_pos ended, if_pos ended]
  next unended => rwa [if_neg unended, if_neg unended]

theorem Tracks.wroteAll {files : Nat → File} {file : Nat} {pieces : List Bytes} :
    ∀ {sys : Sys} {chunks : List Bytes},
      Tracks sys ⟨commandsOf chunks, pendingOf chunks, files⟩ → (files file).privateData = true →
      (∀ piece ∈ pieces, piece ≠ []) →
      Tracks (sys.run (pieces.map (.write file)))
        ⟨commandsOf (chunks ++ pieces), pendingOf (chunks ++ pieces), files⟩ := by
  induction pieces with
  | nil =>
      intro sys chunks tracks _ _
      rwa [List.append_nil]
  | cons piece pieces ih =>
      intro sys chunks tracks opened filled
      have here : (sys.files file).privateData = true := by
        rw [tracks.files]
        exact opened
      rw [List.append_cons]
      exact ih (tracks.wrote here (filled piece List.mem_cons_self)) opened
        fun later member => filled later (List.mem_cons_of_mem _ member)

theorem Connection.driverAt_tracks {server : Server} {chunks : List Bytes}
    (follows : server.Follows chunks) (nonempty : ∀ chunk ∈ chunks, chunk ≠ [])
    (noWrap : NoWrap (commandsOf chunks)) {connection : Connection}
    (reaches : connection.Reaches (commandsOf chunks)) :
    ∃ device, Tracks (connection.driverAt server) device ∧
      device.commands = commandsOf (chunks ++ connection.forwarded) ∧
      device.files server.nextFile =
        ⟨true, (connection.readsFrom (commandsOf chunks) : Nat)⟩ := by
  have opened := (follows.tracks nonempty).openedAt server.nextFile
  have here := Function.update_self server.nextFile (⟨true, 0⟩ : File) server.driver.files
  have serving : ((server.driver.step (.openFile server.nextFile)).2.files
      server.nextFile).privateData = true := by
    rw [opened.files]
    exact congrArg File.privateData here
  rw [Connection.driverAt, outFileCalls, Connection.readsFrom, Connection.forwarded,
    OutFileOutcomes.handed]
  cases parsed : parseSeekCommand (connection.firstRead ++ connection.outFile.heapTail) with
  | some seekto =>
      simp only [Option.isSome_some, if_true, List.append_nil]
      by_cases asked : connection.outFile.ioctl = true
      · obtain ⟨inStep, slot⟩ := reaches seekto parsed asked
        rw [if_pos asked, if_pos asked]
        exact ⟨_, opened.seekTo serving noWrap inStep slot, rfl, Function.update_self ..⟩
      · rw [if_neg asked, if_neg asked]
        exact ⟨_, opened, rfl, here⟩
  | none =>
      simp only [Option.isSome_none, Bool.false_eq_true, if_false]
      exact ⟨_, opened.wroteAll (congrArg File.privateData here) fun piece => writtenPieces_ne_nil,
        rfl, here⟩

theorem Connection.Reaches.start {connection : Connection} {chunks : List Bytes}
    (reaches : connection.Reaches (commandsOf chunks)) :
    connection.readsFrom (commandsOf chunks) = 0 ∨
      InStep (commandsOf (chunks ++ connection.forwarded)) := by
  rw [Connection.readsFrom, Connection.forwarded, OutFileOutcomes.handed]
  cases parsed : parseSeekCommand (connection.firstRead ++ connection.outFile.heapTail) with
  | none => exact Or.inl rfl
  | some seekto =>
      by_cases asked : connection.outFile.ioctl = true
      · right
        simpa using (reaches seekto parsed asked).1
      · exact Or.inl (if_neg asked)

/-! Every client of a run. -/

/-- What comes of each client, after `chunks` have been forwarded. -/
def accountsFor : List Bytes → List Connection → List Account
  | _, [] => []
  | chunks, connection :: connections =>
      connection.account (bytesFrom (commandsOf (chunks ++ connection.forwarded))
          (connection.readsFrom (commandsOf chunks))) ::
        accountsFor (chunks ++ connection.forwarded) connections

/-- Every seek of a run finds the device in step, and names a slot up to 10, when its turn comes. -/
def Reach : List Bytes → List Connection → Prop
  | _, [] => True
  | chunks, connection :: connections =>
      connection.Reaches (commandsOf chunks) ∧ Reach (chunks ++ connection.forwarded) connections

theorem NoWrap.of_append {first second : List Bytes}
    (noWrap : NoWrap (commandsOf (first ++ second))) : NoWrap (commandsOf first) :=
  have part := commandsOf_prefix first second
  ⟨Nat.lt_of_le_of_lt part.length_le noWrap.count,
    Nat.lt_of_le_of_lt part.flatten.length_le noWrap.chars⟩

theorem serveAccounts_follows (connections : List Connection) :
    ∀ {server : Server} {chunks : List Bytes}, server.Follows chunks →
      (∀ chunk ∈ chunks, chunk ≠ []) → (∀ connection ∈ connections, connection.Answers) →
      NoWrap (commandsOf (chunks ++ connections.flatMap Connection.forwarded)) →
      Reach chunks connections →
      ∃ next, serveAccounts server connections = .ok (accountsFor chunks connections, next) := by
  induction connections with
  | nil => exact fun _ _ _ _ _ => ⟨_, rfl⟩
  | cons connection connections ih =>
      intro server chunks follows nonempty answers noWrap reach
      rw [List.flatMap_cons, ← List.append_assoc] at noWrap
      obtain ⟨reaches, later⟩ := reach
      have accepted : (server.log (.opened .client)).Follows chunks :=
        ⟨follows.driver, follows.committed, follows.unlocked⟩
      obtain ⟨device, tracks, commands, file⟩ :=
        connection.driverAt_tracks accepted nonempty noWrap.of_append.of_append reaches
      rw [← tracks.files] at file
      have answered := answers connection List.mem_cons_self
      have read := tracks.drain (commands ▸ noWrap.of_append) (readSizes_pos answered.deviceReads)
        file (commands ▸ reaches.start)
      rw [commands] at read
      obtain ⟨next, ran, followed⟩ := createThreadAndRunAccount_drain accepted answered read
      have filled : ∀ chunk ∈ chunks ++ connection.forwarded, chunk ≠ [] := by
        intro chunk member
        rcases List.mem_append.mp member with old | new
        · exact nonempty chunk old
        · exact connection.forwarded_ne_nil new
      obtain ⟨final, served⟩ := ih followed filled
        (fun other member => answers other (List.mem_cons_of_mem _ member)) noWrap later
      refine ⟨final, ?_⟩
      rw [serveAccounts, ran, ok_bind]
      dsimp only
      rw [served]
      rfl

/-- What comes of every client of a run in which each seek finds the device in step and names a
slot up to 10: the client is sent the device's bytes from where its seek went, or from the start,
and when those are not kept it is sent nothing and its handler fails. -/
theorem boot_serveAccounts (connections : List Connection)
    (answers : ∀ connection ∈ connections, connection.Answers)
    (noWrap : NoWrap (commandsOf (connections.flatMap Connection.forwarded)))
    (reach : Reach [] connections) :
    ∃ server, serve Server.boot connections = .ok server ∧
      serveAccounts Server.boot connections = .ok (accountsFor [] connections, server) := by
  obtain ⟨server, served⟩ := serveAccounts_follows connections Server.boot_follows (by simp)
    answers noWrap reach
  have forgotten := serveAccounts_forget connections Server.boot
  rw [served] at forgotten
  exact ⟨server, forgotten.symm, served⟩

theorem client_answers (segments : List Bytes) : (client segments).Answers where
  clean := (client_succeeds segments).clean
  deviceReads := by simp [client]
  clientWrites := by simp [client]

def seekingClients : List Connection :=
  [client [[97, 10]], client [[98, 99, 10]], client [seekPrefix ++ [49, 44, 49, 10]]]

theorem seekingClients_reach : Reach [] seekingClients := by
  have plain (line : Bytes) (unseeking : parseSeekCommand (line ++ [0]) = none)
      (commands : List Bytes) : (client [line]).Reaches commands := by
    intro seekto parsed
    rw [show (client [line]).firstRead ++ (client [line]).outFile.heapTail = line ++ [0] from rfl,
      unseeking] at parsed
    cases parsed
  refine ⟨plain _ (by decide) _, plain _ (by decide) _, fun seekto parsed _ => ?_, trivial⟩
  have target : parseSeekCommand (seekPrefix ++ [49, 44, 49, 10] ++ [0]) = some ⟨1, 1⟩ := by
    decide +kernel
  obtain rfl := Option.some.inj (target.symm.trans parsed)
  exact ⟨InStep.of_few (by decide), by decide⟩

theorem boot_serveAccounts_seeking :
    ∃ server, serve Server.boot seekingClients = .ok server ∧
      serveAccounts Server.boot seekingClients =
        .ok ([⟨0, [97, 10], [.validateBuf 2]⟩, ⟨0, [97, 10, 98, 99, 10], [.validateBuf 3]⟩,
          ⟨0, [99, 10], [.validateBuf 23]⟩], server) := by
  have accounts : accountsFor [] seekingClients = [⟨0, [97, 10], [.validateBuf 2]⟩,
      ⟨0, [97, 10, 98, 99, 10], [.validateBuf 3]⟩, ⟨0, [99, 10], [.validateBuf 23]⟩] := by
    decide +kernel
  rw [← accounts]
  exact boot_serveAccounts seekingClients (by simp [seekingClients, client_answers])
    ⟨by decide, by decide⟩ seekingClients_reach

/-! Clients that each send one line. -/

/-- In however many writes the device takes the line, none before the last ends a command. -/
def Connection.TakenAsOne (connection : Connection) : Prop :=
  ∀ piece ∈ connection.forwarded.dropLast, endsCommand piece = false

theorem Connection.SendsLine.firstRead_eq {connection : Connection} (line : connection.SendsLine) :
    connection.firstRead = connection.packet := by
  rw [Connection.firstRead, line.reads]

/-- A line whose only newline is its last byte is taken as one however it is cut. -/
theorem Connection.SendsLine.takenAsOne {connection : Connection} (line : connection.SendsLine)
    (plain : ¬ connection.TakenAsSeek) (single : connection.packet.count newline = 1) :
    connection.TakenAsOne := by
  obtain ⟨init, last, split, -, ended⟩ := line.succeeds.forwarded_split plain line.firstRead.1
  have closing := countP_endsCommand_le connection.forwarded
  rw [line.succeeds.forwarded_flatten plain, line.firstRead_eq, single, split, List.countP_append,
    List.countP_singleton, ended, if_pos line.firstRead.2] at closing
  have unended : init.countP endsCommand = 0 := by omega
  intro piece member
  rw [split, List.dropLast_concat] at member
  exact Bool.eq_false_iff.mpr (List.countP_eq_zero.mp unended piece member)

/-- A client whose line is the one command the device gets from it. -/
structure Connection.SendsCommand (connection : Connection) : Prop where
  line : connection.SendsLine
  plain : ¬ connection.TakenAsSeek
  takenAsOne : connection.TakenAsOne

theorem Connection.SendsCommand.cut {connection : Connection} (sends : connection.SendsCommand) :
    ∃ init last, connection.forwarded = init ++ [last] ∧
      init.flatten ++ last = connection.packet ∧ (∀ piece ∈ init, endsCommand piece = false) ∧
      endsCommand last = true := by
  obtain ⟨init, last, split, joined, ended⟩ :=
    sends.line.succeeds.forwarded_split sends.plain sends.line.firstRead.1
  refine ⟨init, last, split, joined.trans sends.line.firstRead_eq, fun piece member => ?_,
    ended.trans sends.line.firstRead.2⟩
  refine sends.takenAsOne piece ?_
  rwa [split, List.dropLast_concat]

theorem commandsOf_lines {connections : List Connection}
    (sends : ∀ connection ∈ connections, connection.SendsCommand) :
    commandsOf (connections.flatMap Connection.forwarded) =
      connections.map Connection.packet := by
  rw [commandsOf, collect_flatMap_eq endsCommand fun connection member =>
    (sends connection member).cut]

theorem reach_of_plain {connections : List Connection} :
    ∀ {chunks : List Bytes}, (∀ connection ∈ connections, ¬ connection.TakenAsSeek) →
      Reach chunks connections := by
  induction connections with
  | nil => exact fun _ => trivial
  | cons connection connections ih =>
      intro chunks plain
      refine ⟨fun seekto parsed => ?_, ih fun other member => plain other (List.mem_cons_of_mem _ member)⟩
      exact absurd (by simp [Connection.TakenAsSeek, parsed]) (plain connection List.mem_cons_self)

theorem Connection.Clean.leaves {connection : Connection} (clean : connection.Clean) (ret : Int) :
    connection.leaves ret =
      (if ret ≠ 0 then [.err] else []) ++ [.validateBuf connection.firstRead.length] := by
  have copied : connection.copies = [.validateBuf connection.firstRead.length] := by
    rw [Connection.copies, if_pos ⟨clean.openTmp, clean.read, clean.tmpWrites⟩,
      OutFileOutcomes.validateBuf, clean.openOut, clean.mallocValidate]
    rfl
  rw [Connection.leaves, clean.mallocClientFd, clean.pthreadCreate, copied]
  rfl

theorem accountsFor_lines (connections : List Connection) :
    ∀ earlier : List Connection,
      (∀ connection ∈ earlier ++ connections, connection.SendsCommand) →
      accountsFor (earlier.flatMap Connection.forwarded) connections =
        connections.mapIdx fun turn connection =>
          connection.account (if earlier.length + turn < 10 then
            some (((earlier ++ connections).map Connection.packet).take
              (earlier.length + turn + 1)).flatten else none) := by
  induction connections with
  | nil => exact fun _ _ => rfl
  | cons connection connections ih =>
      intro earlier sends
      rw [List.append_cons] at sends ⊢
      have sent : ∀ other ∈ earlier ++ [connection], other.SendsCommand := fun other member =>
        sends other (List.mem_append_left _ member)
      have start : connection.readsFrom (commandsOf (earlier.flatMap Connection.forwarded)) = 0 := by
        have plain := (sent connection (by simp)).plain
        rw [Connection.readsFrom, Option.not_isSome_iff_eq_none.mp plain]
      have chunks : earlier.flatMap Connection.forwarded ++ connection.forwarded =
          (earlier ++ [connection]).flatMap Connection.forwarded := by simp
      have nonempty : ∀ command ∈ (earlier ++ [connection]).map Connection.packet, command ≠ [] := by
        intro command member
        obtain ⟨other, sender, rfl⟩ := List.mem_map.mp member
        have line := (sent other sender).line
        exact line.firstRead_eq ▸ line.firstRead.1
      have sofar : ((earlier ++ [connection] ++ connections).map Connection.packet).take
          (earlier.length + 0 + 1) = (earlier ++ [connection]).map Connection.packet := by
        rw [List.map_append, List.take_left' (by simp)]
      rw [accountsFor, start, chunks, commandsOf_lines sent, bytesFrom_zero nonempty, ih _ sends,
        List.mapIdx_cons, sofar]
      refine congrArg₂ List.cons ?_ ?_
      · simp [Nat.lt_succ_iff]
      · simp [Nat.add_assoc, Nat.add_comm 1]

/-- Clients whose calls all succeed, with counters that do not wrap: each of the first ten is sent
every line so far. Every later one is sent nothing, and its handler fails and leaves its result
allocated too. -/
theorem boot_serveAccounts_lines (connections : List Connection)
    (sends : ∀ connection ∈ connections, connection.SendsCommand)
    (answers : ∀ connection ∈ connections, connection.Answers)
    (noWrap : NoWrap (connections.map Connection.packet)) :
    ∃ server, serveAccounts Server.boot connections =
      .ok (connections.mapIdx fun turn connection =>
        if turn < 10 then
          ⟨0, ((connections.map Connection.packet).take (turn + 1)).flatten,
            [.validateBuf connection.packet.length]⟩
        else ⟨1, [], [.err, .validateBuf connection.packet.length]⟩, server) := by
  obtain ⟨server, served⟩ := serveAccounts_follows connections Server.boot_follows (by simp) answers
    (by rwa [List.nil_append, commandsOf_lines sends])
    (reach_of_plain fun connection member => (sends connection member).plain)
  have accounts := accountsFor_lines connections [] sends
  rw [List.flatMap_nil] at accounts
  refine ⟨server, ?_⟩
  rw [served, accounts]
  refine congrArg (fun accounts => Except.ok (accounts, server))
    (List.mapIdx_eq_mapIdx_iff.mpr fun turn bound => ?_)
  have member := List.getElem_mem bound
  have leaves := (answers _ member).clean.leaves
  rw [(sends _ member).line.firstRead_eq] at leaves
  rw [List.length_nil, Nat.zero_add, List.nil_append]
  split
  · rw [Connection.account, leaves]
    rfl
  · rw [Connection.account, leaves]
    rfl

/-- The device takes the first byte of the line in one write and the rest in another. -/
def cutClient : Connection :=
  { client [[97, 10]] with outFile := { deviceWrites := [.count 1] } }

theorem cutClient_succeeds : cutClient.Succeeds :=
  { client_succeeds [[97, 10]] with mallocValidate := rfl, deviceWrites := rfl }

theorem cutClient_sendsCommand : cutClient.SendsCommand := by
  have line : cutClient.SendsLine := ⟨rfl, by decide, rfl, cutClient_succeeds⟩
  have plain : ¬ cutClient.TakenAsSeek := by
    rw [Connection.TakenAsSeek]
    decide
  exact ⟨line, plain, line.takenAsOne plain (by decide)⟩

theorem cutClient_answers : cutClient.Answers :=
  { client_answers [[97, 10]] with clean := cutClient_succeeds.clean }

def elevenClients : List Connection := List.replicate 11 cutClient

theorem boot_serveAccounts_lines_eleven :
    ∃ server, serveAccounts Server.boot elevenClients =
      .ok (((List.range 10).map fun turn =>
          ⟨0, (List.replicate (turn + 1) [97, 10]).flatten, [.validateBuf 2]⟩) ++
        [⟨1, [], [.err, .validateBuf 2]⟩], server) := by
  have same : ∀ connection ∈ elevenClients, connection = cutClient :=
    fun connection member => List.eq_of_mem_replicate member
  have accounts : (elevenClients.mapIdx fun turn connection =>
      if turn < 10 then
        (⟨0, ((elevenClients.map Connection.packet).take (turn + 1)).flatten,
          [.validateBuf connection.packet.length]⟩ : Account)
      else ⟨1, [], [.err, .validateBuf connection.packet.length]⟩) =
        ((List.range 10).map fun turn =>
          ⟨0, (List.replicate (turn + 1) [97, 10]).flatten, [.validateBuf 2]⟩) ++
            [⟨1, [], [.err, .validateBuf 2]⟩] := by
    decide +kernel
  rw [← accounts]
  exact boot_serveAccounts_lines elevenClients
    (fun connection member => same connection member ▸ cutClient_sendsCommand)
    (fun connection member => same connection member ▸ cutClient_answers) ⟨by decide, by decide⟩

end Aesd
