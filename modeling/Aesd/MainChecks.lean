import Aesd.MainCore
import Aesd.SocketRuns

/-!
What the server leaves allocated, and how `main` ends. The accounts follow the handling of the
connections, so all that is known of that is known here.
-/

namespace Aesd

/-! Without the accounts it is the server as it was. -/

theorem serveAccounts_forget (connections : List Connection) :
    ∀ server : Server, (serveAccounts server connections).map Prod.snd = serve server connections := by
  induction connections with
  | nil => exact fun _ => rfl
  | cons connection connections ih =>
      intro server
      rw [serveAccounts, serve, List.foldlM_cons, createThreadAndRun]
      cases createThreadAndRunAccount connection (server.log (.opened .client)) with
      | error reason => rfl
      | ok result =>
          obtain ⟨account, next⟩ := result
          refine Eq.trans ?_ (ih next)
          cases ran : serveAccounts next connections with
          | error reason => simp only [ok_bind, ran]; rfl
          | ok _ => simp only [ok_bind, ran]; rfl

theorem ok_of_bind {ε α β : Type} {outcome : Except ε α} {next : α → Except ε β} {result : β}
    (ran : (outcome >>= next) = .ok result) :
    ∃ value, outcome = .ok value ∧ next value = .ok result := by
  cases outcome with
  | error reason => cases ran
  | ok value => exact ⟨value, rfl, ran⟩

/-! What stays allocated. -/

/-- The copy of the packet is made when the client has been received and the device is open. -/
def Connection.copies (connection : Connection) : List Block :=
  if connection.openTmp = true ∧ connection.reads.head? ≠ some .failed ∧
      accepts connection.tmpWrites connection.firstRead.length = true then
    connection.outFile.validateBuf (if connection.openOut then some 0 else none) connection.firstRead
  else []

def Connection.leaves (connection : Connection) (ret : Int) : List Block :=
  if connection.mallocClientFd = false then []
  else if connection.pthreadCreate = false then [.clientFd]
  else (if ret ≠ 0 then [.err] else []) ++ connection.copies

theorem validateBuf_opened (outcomes : OutFileOutcomes) (server : Server) (succeeds : Bool)
    (buffer : Bytes) :
    outcomes.validateBuf (server.openOutFile succeeds .outFile).1 buffer =
      outcomes.validateBuf (if succeeds then some 0 else none) buffer := by
  cases succeeds <;> rfl

theorem forwardAndEchoAccount_held {connection : Connection} {buffer : Bytes} {server next : Server}
    {account : Account}
    (ran : forwardAndEchoAccount connection buffer server = .ok (account, next)) :
    account.held = .err ::
      connection.outFile.validateBuf (if connection.openOut then some 0 else none) buffer := by
  have buffers := validateBuf_opened connection.outFile server connection.openOut buffer
  rw [forwardAndEchoAccount] at ran
  generalize server.openOutFile connection.openOut .outFile = made at ran buffers
  obtain ⟨outFd, opened⟩ := made
  dsimp only at ran buffers
  rw [buffers] at ran
  obtain ⟨⟨err, after⟩, -, ran⟩ := ok_of_bind ran
  dsimp only at ran
  split at ran
  · cases ran
    rfl
  · split at ran
    · cases ran
    · cases ran
      rfl

theorem procNewConnectionAccount_held {connection : Connection} {server next : Server}
    {account : Account}
    (ran : procNewConnectionAccount connection server = .ok (some account, next)) :
    account.held = .err :: connection.copies := by
  rw [procNewConnectionAccount] at ran
  rw [Connection.copies]
  split at ran
  · cases ran
  · split at ran
    next unopened =>
      cases ran
      rw [if_neg (by simp [unopened])]
    next openTmp =>
      dsimp only at ran
      rw [receive_firstRead] at ran
      dsimp only at ran
      by_cases received : connection.reads.head? ≠ some .failed ∧
          accepts connection.tmpWrites connection.firstRead.length = true
      · rw [if_pos received, if_neg (not_not.mpr rfl)] at ran
        rw [if_pos ⟨by simpa using openTmp, received⟩]
        obtain ⟨result, forwarded, ran⟩ := ok_of_bind ran
        cases ran
        exact forwardAndEchoAccount_held forwarded
      · rw [if_neg received, if_pos (by decide)] at ran
        rw [if_neg fun all => received all.2]
        cases ran
        rfl

theorem createThreadAndRunAccount_held {connection : Connection} {server next : Server}
    {account : Account}
    (ran : createThreadAndRunAccount connection server = .ok (account, next)) :
    account.held = connection.leaves account.ret := by
  rw [createThreadAndRunAccount] at ran
  rw [Connection.leaves]
  split at ran
  next refused =>
    cases ran
    rw [if_pos refused]
  next granted =>
    rw [if_neg granted]
    split at ran
    next unstarted =>
      cases ran
      rw [if_pos unstarted]
    next started =>
      rw [if_neg started]
      obtain ⟨⟨ret, after⟩, handled, ran⟩ := ok_of_bind ran
      cases ret with
      | none => cases ran
      | some result =>
          have held := procNewConnectionAccount_held handled
          dsimp only at ran
          by_cases failed : result.ret ≠ 0
          · rw [if_pos failed] at ran
            cases ran
            exact held
          · rw [if_neg failed] at ran
            cases ran
            rw [if_neg failed, held]
            rfl

/-! A run of clients. -/

theorem serveAccounts_held (connections : List Connection) :
    ∀ {server next : Server} {accounts : List Account},
      serveAccounts server connections = .ok (accounts, next) →
      accounts.map Account.held =
        List.zipWith Connection.leaves connections (accounts.map Account.ret) := by
  induction connections with
  | nil =>
      intro server next accounts ran
      cases ran
      rfl
  | cons connection connections ih =>
      intro server next accounts ran
      rw [serveAccounts] at ran
      obtain ⟨⟨account, after⟩, one, ran⟩ := ok_of_bind ran
      obtain ⟨others, rest, ran⟩ := ok_of_bind ran
      cases ran
      exact congrArg₂ List.cons (createThreadAndRunAccount_held one) (ih rest)

/-! `main`. -/

/-- The clients that are accepted, and whether the loop is left after them. -/
def clientsOf : List Turn → List Connection × Bool
  | [] => ([], false)
  | turn :: turns =>
      if turn.signal then ([], true)
      else match turn.accepted with
      | none => ([], true)
      | some connection => (connection :: (clientsOf turns).1, (clientsOf turns).2)

theorem acceptLoop_eq (turns : List Turn) :
    ∀ process : Process, acceptLoop process turns =
      (serveAccounts process.server (clientsOf turns).1).map fun served =>
        ((clientsOf turns).2,
          { process with accounts := process.accounts ++ served.1, server := served.2 }) := by
  have unchanged (process : Process) :
      process = { process with accounts := process.accounts ++ [], server := process.server } := by
    rw [List.append_nil]
  induction turns with
  | nil => exact fun process => congrArg (fun process => Except.ok (false, process)) (unchanged process)
  | cons turn turns ih =>
      intro process
      have left := congrArg (fun process => (Except.ok (true, process) : Except Halt _)) (unchanged process)
      rw [acceptLoop, clientsOf]
      split
      · exact left
      · cases turn.accepted with
        | none => exact left
        | some connection =>
            dsimp only
            rw [serveAccounts]
            cases createThreadAndRunAccount connection (process.server.log (.opened .client)) with
            | error reason => rfl
            | ok result =>
                obtain ⟨account, next⟩ := result
                refine (ih _).trans ?_
                dsimp only
                cases ran : serveAccounts next (clientsOf turns).1 with
                | error reason => simp only [ok_bind, ran]; rfl
                | ok served =>
                    simp only [ok_bind, ran, Except.map, List.append_assoc, List.singleton_append]
                    rfl

def Setup.Listens (setup : Setup) : Prop :=
  setup.socket = true ∧ setup.getaddrinfo = true ∧ setup.setsockopt = true ∧
    setup.bind = true ∧ setup.listen = true

instance (setup : Setup) : Decidable setup.Listens := inferInstanceAs (Decidable (_ ∧ _))

theorem aesdsocketMain_listens {setup : Setup} (listens : setup.Listens) (turns : List Turn) :
    aesdsocketMain setup turns =
      (serveAccounts Server.boot (clientsOf turns).1).map fun served =>
        if (clientsOf turns).2 then (some 0, ⟨false, false, served.1, served.2⟩)
        else (none, ⟨true, false, served.1, served.2⟩) := by
  obtain ⟨socket, getaddrinfo, setsockopt, bind, listen⟩ := listens
  simp only [aesdsocketMain, socket, getaddrinfo, setsockopt, bind, listen, Bool.true_eq_false,
    if_false, acceptLoop_eq]
  cases serveAccounts Server.boot (clientsOf turns).1 with
  | error halt => rfl
  | ok served =>
      cases (clientsOf turns).2 with
      | true => rfl
      | false => rfl

/-- What is left of `main` when it returns or waits in `accept`: the listening socket is open only
while it waits, the addresses are lost when `setsockopt` or `bind` fails, only two failures are
reported, and each client that was accepted has been handled to its end. -/
theorem aesdsocketMain_ends {setup : Setup} {turns : List Turn} {status : Option Int}
    {process : Process} (ended : aesdsocketMain setup turns = .ok (status, process)) :
    (process.sock = true ↔ status = none) ∧
      (process.addrinfo = true ↔ setup.socket = true ∧ setup.getaddrinfo = true ∧
        ¬ (setup.setsockopt = true ∧ setup.bind = true)) ∧
      (status = some (-1) ↔ setup.socket = false ∨ (setup.getaddrinfo = true ∧
        setup.setsockopt = true ∧ setup.bind = true ∧ setup.listen = false)) ∧
      ∃ clients, clients = (if setup.Listens then (clientsOf turns).1 else []) ∧
        serve Server.boot clients = .ok process.server ∧
        process.accounts.map Account.held =
          List.zipWith Connection.leaves clients (process.accounts.map Account.ret) := by
  by_cases listens : setup.Listens
  · rw [aesdsocketMain_listens listens] at ended
    have forgotten := serveAccounts_forget (clientsOf turns).1 Server.boot
    cases served : serveAccounts Server.boot (clientsOf turns).1 with
    | error halt =>
        rw [served] at ended
        cases ended
    | ok result =>
        obtain ⟨accounts, server⟩ := result
        have held := serveAccounts_held _ served
        rw [served] at ended forgotten
        rw [if_pos listens]
        obtain ⟨socket, getaddrinfo, setsockopt, bind, listen⟩ := listens
        cases left : (clientsOf turns).2 with
        | true =>
            rw [left] at ended
            cases ended
            exact ⟨by simp, by simp [setsockopt, bind], by simp [socket, listen], _, rfl,
              forgotten.symm, held⟩
        | false =>
            rw [left] at ended
            cases ended
            exact ⟨by simp, by simp [setsockopt, bind], by simp [socket, listen], _, rfl,
              forgotten.symm, held⟩
  · rw [if_neg listens]
    have idle : serve Server.boot [] = .ok Server.boot := rfl
    obtain ⟨socket, getaddrinfo, setsockopt, bind, listen⟩ := setup
    cases socket with
    | false =>
        cases ended
        exact ⟨by simp, by simp, by simp, [], rfl, idle, rfl⟩
    | true =>
        cases getaddrinfo with
        | false =>
            cases ended
            exact ⟨by simp [Process.close], by simp [Process.close], by simp, [], rfl, idle, rfl⟩
        | true =>
            cases setsockopt with
            | false =>
                cases ended
                exact ⟨by simp [Process.close], by simp [Process.close], by simp, [], rfl, idle, rfl⟩
            | true =>
                cases bind with
                | false =>
                    cases ended
                    exact ⟨by simp [Process.close], by simp [Process.close], by simp, [], rfl, idle,
                      rfl⟩
                | true =>
                    cases listen with
                    | false =>
                        cases ended
                        exact ⟨by simp [Process.close], by simp [Process.close], by simp, [], rfl,
                          idle, rfl⟩
                    | true => exact absurd ⟨rfl, rfl, rfl, rfl, rfl⟩ listens

def signalledTurns : List Turn :=
  [{ accepted := some { reads := [.data [97, 10]] } },
    { accepted := some { reads := [.data [98, 10]], openTmp := false } },
    { signal := true, accepted := none }]

theorem aesdsocketMain_ends_signalled :
    ∃ status process, aesdsocketMain {} signalledTurns = .ok (status, process) ∧
      (process.sock = true ↔ status = none) ∧
      ∃ clients, clients = (clientsOf signalledTurns).1 ∧
        serve Server.boot clients = .ok process.server ∧
        process.accounts.map Account.held =
          List.zipWith Connection.leaves clients (process.accounts.map Account.ret) := by
  have evaluated : (aesdsocketMain {} signalledTurns).toOption.map Prod.fst = some (some 0) := by
    decide +kernel
  obtain ⟨⟨status, process⟩, ran, -⟩ := ok_of_toOption_map evaluated
  obtain ⟨sock, -, -, ledger⟩ := aesdsocketMain_ends ran
  exact ⟨status, process, ran, sock, ledger⟩

example : Connection.leaves { reads := [.data [98, 10]], openTmp := false } 1 = [.err] := rfl

end Aesd
