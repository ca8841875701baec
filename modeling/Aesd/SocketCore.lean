import Aesd.SeekCommand

/-!
The connection handling of `aesdsocket.c` over the device. A connection carries the
outcome of every system call made for it; what it leaves out succeeds. Connections are
handled one after another, as `create_thread_and_run` joins the thread it starts. The
temporary file is never read, `syslog` and the accept loop's signals are left out.
-/

namespace Aesd

/-! `write_all`. -/

inductive Failure where
  | eintr
  | other
  deriving DecidableEq, Repr

inductive SysResult where
  | count (bytes : Nat)
  | failed (reason : Failure)
  deriving DecidableEq, Repr

/-- The loop of `write_all`, for any `write`; `none` when `fuel` iterations do not end it. -/
def writeAllFrom {σ : Type} (write : σ → Bytes → SysResult × σ) (buffer : Bytes) :
    Nat → Nat → σ → Option (Int × σ)
  | 0, _, _ => none
  | fuel + 1, total, state =>
      if total < buffer.length then
        match write state (buffer.drop total) with
        | (.count bytes, state) =>
            if 0 < bytes then writeAllFrom write buffer fuel (total + bytes) state
            else some (-1, state)
        | (.failed .eintr, state) => writeAllFrom write buffer fuel total state
        | (.failed .other, state) => some (-1, state)
      else some (0, state)

/-- A descriptor other than the device: the results still to come, then whole writes, and
the bytes it has accepted. -/
structure Sink where
  results : List SysResult
  accepted : Bytes
  deriving DecidableEq, Repr

def Sink.write (sink : Sink) (request : Bytes) : SysResult × Sink :=
  match sink.results with
  | [] => (.count request.length, ⟨[], sink.accepted ++ request⟩)
  | .count bytes :: results =>
      (.count (min bytes request.length), ⟨results, sink.accepted ++ request.take bytes⟩)
  | .failed reason :: results => (.failed reason, ⟨results, sink.accepted⟩)

/-- A result ends each iteration but the last two. -/
def Sink.writeAll (sink : Sink) (buffer : Bytes) : Option (Int × Sink) :=
  writeAllFrom Sink.write buffer (sink.results.length + 2) 0 sink

/-! The server. -/

inductive Halt where
  | deadlock
  | endless
  | nullDereference
  deriving DecidableEq, Repr

inductive Descriptor where
  | client
  | tmpFile
  | outFile
  | reopened
  deriving DecidableEq, Repr

inductive Event where
  | opened (descriptor : Descriptor)
  | closed (descriptor : Descriptor)
  deriving DecidableEq, Repr

/-- The device, the global mutex and what has been done to descriptors. `committed` records
the commands that the device has stored, which it drops after ten more. -/
structure Server where
  driver : Sys
  nextFile : Nat
  mutexLocked : Bool
  events : List Event
  committed : List Bytes

def Server.boot : Server := ⟨Sys.boot, 0, false, [], []⟩

def Server.log (server : Server) (event : Event) : Server :=
  { server with events := server.events ++ [event] }

def Server.openOutFile (server : Server) (succeeds : Bool) (descriptor : Descriptor) :
    Option Nat × Server :=
  if succeeds then
    (some server.nextFile,
      { server with
        driver := (server.driver.step (.openFile server.nextFile)).2
        nextFile := server.nextFile + 1 }.log (.opened descriptor))
  else (none, server)

/-- A write that reaches the driver. -/
def Server.submit (server : Server) (file : Nat) (request : Bytes) : SysResult × Server :=
  let (reply, driver) := server.driver.step (.write file request)
  let server :=
    { server with
      driver
      committed := server.committed ++ storedCommand server.driver.dev driver.dev }
  match reply with
  | .ret value _ => (if 0 ≤ value then .count value.toNat else .failed .other, server)
  | .fault _ => (.failed .other, server)

/-- `write` on `OUT_FILE`. Of the results still to come, a count says how many bytes of the request
the driver is given, and 0 and a failure come from outside the driver. When none is left, the
driver is given the whole request. -/
def Server.writeDevice (file : Nat) (state : List SysResult × Server) (request : Bytes) :
    SysResult × List SysResult × Server :=
  match state with
  | ([], server) =>
      let (result, server) := server.submit file request
      (result, [], server)
  | (.count bytes :: results, server) =>
      if bytes = 0 then (.count 0, results, server)
      else
        let (result, server) := server.submit file (request.take bytes)
        (result, results, server)
  | (.failed reason :: results, server) => (.failed reason, results, server)

structure OutFileOutcomes where
  reopen : Bool := true
  mallocValidate : Bool := true
  /-- the memory that follows `validate_buf`, up to and past its first NUL -/
  heapTail : Bytes := [0]
  ioctl : Bool := true
  deviceWrites : List SysResult := []
  deriving DecidableEq, Repr

/-- `ioctl(out_fd, AESDCHAR_IOCSEEKTO, &seekto)`, whose result is not looked at. -/
def Server.ioctl (server : Server) (succeeds : Bool) (file : Nat) (seekto : AesdSeekto) : Server :=
  if succeeds then
    { server with driver := (server.driver.step (.ioctl file aesdcharIocseekto seekto)).2 }
  else server

def seekOrWrite (outcomes : OutFileOutcomes) (file : Nat) (buffer : Bytes) (server : Server) :
    Except Halt (Int × Server) :=
  match parseSeekCommand (buffer ++ outcomes.heapTail) with
  | some seekto => .ok (0, server.ioctl outcomes.ioctl file seekto)
  | none =>
      match writeAllFrom (Server.writeDevice file) buffer (outcomes.deviceWrites.length + 2) 0
          (outcomes.deviceWrites, server) with
      | none => .error .endless
      | some (err, _, server) => .ok (err, server)

/-- `write_to_out_file`; `outFd` is `none` for -1. -/
def writeToOutFile (outcomes : OutFileOutcomes) (outFd : Option Nat) (buffer : Bytes)
    (server : Server) : Except Halt (Int × Server) :=
  if server.mutexLocked then .error .deadlock
  else do
    let server := { server with mutexLocked := true }
    let (outFd, server) :=
      match outFd with
      | some file => (some file, server)
      | none => server.openOutFile outcomes.reopen .reopened
    match outFd with
    | none => return (-1, server)
    | some file =>
        if outcomes.mallocValidate = false then return (-1, server)
        else
          let (err, server) ← seekOrWrite outcomes file buffer server
          return (err, { server with mutexLocked := false })

/-! `proc_new_connection`. -/

inductive ClientRead where
  | data (bytes : Bytes)
  | failed
  deriving DecidableEq, Repr

/-- What a client sends and how the calls made for it turn out. After `reads` the client has
closed its side. -/
structure Connection where
  reads : List ClientRead
  mallocClientFd : Bool := true
  pthreadCreate : Bool := true
  mallocErr : Bool := true
  openTmp : Bool := true
  tmpWrites : List SysResult := []
  openOut : Bool := true
  outFile : OutFileOutcomes := {}
  deviceReads : List SysResult := []
  clientWrites : List SysResult := []
  deriving DecidableEq, Repr

/-- The receive loop: what `err` points to and the `read_byte` bytes of the buffer. The
pointer `err` itself is `none` for NULL, and the test after `write_all` is of the pointer. -/
def receive : List ClientRead → Sink → Option Int → Option (Option Int × Bytes)
  | [], _, err => some (err, [])
  | .failed :: _, _, err => some (err.map fun _ => -1, [])
  | .data bytes :: reads, tmpFile, err =>
      if bytes = [] then some (err, [])
      else match tmpFile.writeAll bytes with
      | none => none
      | some (result, tmpFile) =>
          let err := err.map fun _ => result
          if err.isSome then some (err, bytes)
          else if newline ∈ bytes then some (err, bytes)
          else receive reads tmpFile err

def bufSize : UInt64 := 1024

/-- How much the next `read` of `OUT_FILE` gets at most, if it does not fail. -/
def readCount : List SysResult → Option UInt64
  | [] => some bufSize
  | .count bytes :: _ => some (UInt64.ofNat (min bytes bufSize.toNat))
  | .failed _ :: _ => none

/-- The echo loop; `none` when `fuel` iterations do not end it. A read of the device that has
no defined outcome counts as failed. -/
def echoFrom (outFd : Option Nat) :
    Nat → List SysResult → Sink → Int → Server → Option (Int × Sink × Server)
  | 0, _, _, _, _ => none
  | fuel + 1, results, client, err, server =>
      match outFd with
      | none => some (1, client, server)
      | some file =>
          match readCount results with
          | none => some (1, client, server)
          | some count =>
              if count = 0 then some (err, client, server)
              else
                let (reply, driver) := server.driver.step (.read file count)
                let server := { server with driver }
                match reply with
                | .fault _ => some (1, client, server)
                | .ret value bytes =>
                    if value ≤ 0 then some (if value < 0 then 1 else err, client, server)
                    else match client.writeAll bytes with
                    | none => none
                    | some (result, client) =>
                        if result ≠ 0 then some (result, client, server)
                        else echoFrom outFd fuel results.tail client result server

/-- A position of the device moves up by one at least, and stays below 2^32. -/
def echoSteps : Nat := 2 ^ 32 + 2

def Server.closeOut (server : Server) (outFd : Option Nat) : Server :=
  if outFd.isSome then server.log (.closed .outFile) else server

/-! A connection, with what it leaves. -/

/-- What `malloc` has given out. -/
inductive Block where
  | clientFd
  | err
  | validateBuf (size : Nat)
  deriving DecidableEq, Repr

structure Account where
  ret : Int
  sent : Bytes
  held : List Block
  deriving DecidableEq, Repr

def Account.forget (result : Account × Server) : Int × Server := (result.1.ret, result.2)

/-- `validate_buf` is allocated once the device is open, and it is never freed. -/
def OutFileOutcomes.validateBuf (outcomes : OutFileOutcomes) (outFd : Option Nat)
    (buffer : Bytes) : List Block :=
  if (outFd.isSome || outcomes.reopen) && outcomes.mallocValidate then
    [.validateBuf buffer.length]
  else []

def forwardAndEchoAccount (connection : Connection) (buffer : Bytes) (server : Server) :
    Except Halt (Account × Server) := do
  let (outFd, server) := server.openOutFile connection.openOut .outFile
  let held := .err :: connection.outFile.validateBuf outFd buffer
  let (err, server) ← writeToOutFile connection.outFile outFd buffer server
  if err ≠ 0 then return (⟨err, [], held⟩, server)
  else
    let client : Sink := ⟨connection.clientWrites, []⟩
    match echoFrom outFd echoSteps connection.deviceReads client err server with
    | none => throw .endless
    | some (err, client, server) =>
        return (⟨err, client.accepted, held⟩, (server.closeOut outFd).log (.closed .client))

/-- `proc_new_connection`, which frees its argument; `none` when it returns NULL. -/
def procNewConnectionAccount (connection : Connection) (server : Server) :
    Except Halt (Option Account × Server) :=
  if connection.mallocErr = false then return (none, server)
  else if connection.openTmp = false then return (some ⟨1, [], [.err]⟩, server)
  else
    let server := server.log (.opened .tmpFile)
    match receive connection.reads ⟨connection.tmpWrites, []⟩ (some 0) with
    | none => throw .endless
    | some (err, buffer) =>
        let server := server.log (.closed .tmpFile)
        if err ≠ some 0 then return (err.map (⟨·, [], [.err]⟩), server)
        else do
          let (account, server) ← forwardAndEchoAccount connection buffer server
          return (some account, server)

/-- `create_thread_and_run`. The result of the thread is freed when it is zero. -/
def createThreadAndRunAccount (connection : Connection) (server : Server) :
    Except Halt (Account × Server) :=
  if connection.mallocClientFd = false then return (⟨1, [], []⟩, server)
  else if connection.pthreadCreate = false then return (⟨1, [], [.clientFd]⟩, server)
  else do
    let (ret, server) ← procNewConnectionAccount connection server
    match ret with
    | none => throw .nullDereference
    | some account =>
        return (if account.ret ≠ 0 then { account with ret := 1 }
          else { account with held := account.held.erase .err }, server)

/-! Without the account. -/

def forwardAndEcho (connection : Connection) (buffer : Bytes) (server : Server) :
    Except Halt (Int × Server) :=
  (forwardAndEchoAccount connection buffer server).map Account.forget

/-- What the returned pointer points to, or `none` for NULL. -/
def procNewConnection (connection : Connection) (server : Server) :
    Except Halt (Option Int × Server) :=
  (procNewConnectionAccount connection server).map fun (account, server) =>
    (account.map Account.ret, server)

def createThreadAndRun (connection : Connection) (server : Server) : Except Halt (Int × Server) :=
  (createThreadAndRunAccount connection server).map Account.forget

def serve (server : Server) (connections : List Connection) : Except Halt Server :=
  connections.foldlM (fun server connection => do
    let (_, server) ← createThreadAndRun connection (server.log (.opened .client))
    return server) server

end Aesd
