import Aesd.SocketCore

/-!
`main` of `aesdsocket.c`. A signal is seen where `quit_sig` is tested, or it makes `accept` fail.
The timer is never started, so `timer_error_flag` stays zero, as does `err` of `main`.
-/

namespace Aesd

/-- `serve`, with what comes of each client. -/
def serveAccounts (server : Server) : List Connection → Except Halt (List Account × Server)
  | [] => return ([], server)
  | connection :: connections => do
      let (account, server) ← createThreadAndRunAccount connection (server.log (.opened .client))
      let (accounts, server) ← serveAccounts server connections
      return (account :: accounts, server)

/-! `main`. -/

/-- The outcomes of the calls before the accept loop. -/
structure Setup where
  socket : Bool := true
  getaddrinfo : Bool := true
  setsockopt : Bool := true
  bind : Bool := true
  listen : Bool := true
  deriving DecidableEq, Repr

/-- One turn of the accept loop: whether a signal has come when `quit_sig` is tested, and the
client that `accept` returns. -/
structure Turn where
  signal : Bool := false
  accepted : Option Connection
  deriving DecidableEq, Repr

/-- The listening socket, the result of `getaddrinfo` until it is freed, and the clients. -/
structure Process where
  sock : Bool
  addrinfo : Bool
  accounts : List Account
  server : Server

/-- The accept loop, and whether it is left; else it waits in `accept`. -/
def acceptLoop (process : Process) : List Turn → Except Halt (Bool × Process)
  | [] => return (false, process)
  | turn :: turns =>
      if turn.signal then return (true, process)
      else match turn.accepted with
      | none => return (true, process)
      | some connection => do
          let (account, server) ←
            createThreadAndRunAccount connection (process.server.log (.opened .client))
          acceptLoop { process with accounts := process.accounts ++ [account], server } turns

def Process.close (process : Process) : Process := { process with sock := false }

/-- `main`: what it returns, or `none` while it waits in `accept`. -/
def aesdsocketMain (setup : Setup) (turns : List Turn) : Except Halt (Option Int × Process) :=
  let process : Process := ⟨false, false, [], Server.boot⟩
  if setup.socket = false then return (some (-1), process)
  else
    let process := { process with sock := true }
    if setup.getaddrinfo = false then return (some 0, process.close)
    else
      let process := { process with addrinfo := true }
      if setup.setsockopt = false then return (some 0, process.close)
      else if setup.bind = false then return (some 0, process.close)
      else
        let process := { process with addrinfo := false }
        if setup.listen = false then return (some (-1), process.close)
        else do
          let (left, process) ← acceptLoop process turns
          return if left then (some 0, process.close) else (none, process)

end Aesd
