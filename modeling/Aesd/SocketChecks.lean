import Aesd.SocketRuns

/-!
What the device commits for a sequence of connections. The test of `err` after the first
`write_all` is of the pointer and not of the value, so the receive loop ends after one read:
a packet is committed whole when it arrives in one read, and a first read without a newline
stays in `tmp_entry` and becomes the start of the next command.
-/

namespace Aesd

open Records

def ClientRead.bytes : ClientRead → Bytes
  | .data bytes => bytes
  | .failed => []

def Connection.packet (connection : Connection) : Bytes :=
  connection.reads.flatMap ClientRead.bytes

/-- The client's bytes arrive in reads of 1 to `BUF_SIZE` bytes. -/
def Connection.Segmented (connection : Connection) : Prop :=
  ∀ read ∈ connection.reads, ∃ segment, read = .data segment ∧
    1 ≤ segment.length ∧ segment.length ≤ bufSize.toNat

/-- The bytes of the first read, with the memory that follows their copy, are taken for a
seek command. -/
def Connection.TakenAsSeek (connection : Connection) : Prop :=
  (parseSeekCommand (connection.firstRead ++ connection.outFile.heapTail)).isSome

theorem Connection.forwarded_of_takenAsSeek {connection : Connection}
    (taken : connection.TakenAsSeek) : connection.forwarded = [] :=
  if_pos taken

theorem Connection.forwarded_of_not_takenAsSeek {connection : Connection}
    (plain : ¬ connection.TakenAsSeek) :
    connection.forwarded = writtenPieces connection.outFile.deviceWrites connection.firstRead :=
  if_neg plain

theorem Connection.forwarded_ne_nil {connection : Connection} {piece : Bytes}
    (handed : piece ∈ connection.forwarded) : piece ≠ [] := by
  by_cases taken : connection.TakenAsSeek
  · rw [forwarded_of_takenAsSeek taken] at handed
    cases handed
  · rw [forwarded_of_not_takenAsSeek taken] at handed
    exact writtenPieces_ne_nil handed

theorem Connection.not_takenAsSeek {connection : Connection} {piece : Bytes}
    (handed : piece ∈ connection.forwarded) : ¬ connection.TakenAsSeek := by
  intro taken
  rw [forwarded_of_takenAsSeek taken] at handed
  cases handed

theorem Connection.Succeeds.forwarded_flatten {connection : Connection}
    (succeeds : connection.Succeeds) (plain : ¬ connection.TakenAsSeek) :
    connection.forwarded.flatten = connection.firstRead := by
  rw [Connection.forwarded_of_not_takenAsSeek plain,
    writtenPieces_flatten (accepts_of_succeeds succeeds.deviceWrites _)]

theorem newline_mem {chunk : Bytes} (ended : endsCommand chunk = true) : newline ∈ chunk :=
  List.mem_of_getLast? (beq_iff_eq.mp ended)

/-- However the device takes what it is forwarded, the last piece ends as the whole does. -/
theorem Connection.Succeeds.forwarded_split {connection : Connection}
    (succeeds : connection.Succeeds) (plain : ¬ connection.TakenAsSeek)
    (nonempty : connection.firstRead ≠ []) :
    ∃ init last, connection.forwarded = init ++ [last] ∧
      init.flatten ++ last = connection.firstRead ∧
      endsCommand last = endsCommand connection.firstRead := by
  have whole := succeeds.forwarded_flatten plain
  rcases List.eq_nil_or_concat connection.forwarded with none | ⟨init, last, split⟩
  · rw [none] at whole
    exact absurd whole.symm nonempty
  · rw [List.concat_eq_append] at split
    have handed : last ∈ connection.forwarded := by simp [split]
    have filled := connection.forwarded_ne_nil handed
    rw [split, List.flatten_concat] at whole
    refine ⟨init, last, split, whole, ?_⟩
    rw [← whole, endsCommand, endsCommand, List.getLast?_append_of_ne_nil _ filled]

theorem countP_endsCommand_le (chunks : List Bytes) :
    chunks.countP endsCommand ≤ chunks.flatten.count newline := by
  induction chunks with
  | nil => exact Nat.le_refl _
  | cons chunk chunks ih =>
      rw [List.countP_cons, List.flatten_cons, List.count_append]
      by_cases ended : endsCommand chunk = true
      · have here := List.count_pos_iff.mpr (newline_mem ended)
        rw [if_pos ended]
        omega
      · rw [if_neg ended]
        omega

theorem Connection.Segmented.split {connection : Connection} (segmented : connection.Segmented)
    (sends : connection.packet ≠ []) :
    ∃ rest, connection.reads = .data connection.firstRead :: rest ∧
      connection.packet = connection.firstRead ++ rest.flatMap ClientRead.bytes ∧
      connection.firstRead ≠ [] ∧ (rest ≠ [] → rest.flatMap ClientRead.bytes ≠ []) := by
  have nonempty : ∀ read ∈ connection.reads, ∃ segment, read = .data segment ∧ segment ≠ [] := by
    intro read member
    obtain ⟨segment, same, long, -⟩ := segmented read member
    exact ⟨segment, same, List.length_pos_iff.mp long⟩
  rw [Connection.packet] at sends ⊢
  rw [Connection.firstRead]
  cases reads : connection.reads with
  | nil => simp [reads] at sends
  | cons first rest =>
      rw [reads] at nonempty
      obtain ⟨segment, rfl, nonnil⟩ := nonempty first List.mem_cons_self
      refine ⟨rest, rfl, by simp [ClientRead.bytes], nonnil, fun more empty => ?_⟩
      obtain ⟨second, later, rfl⟩ := List.exists_cons_of_ne_nil more
      obtain ⟨next, rfl, longer⟩ := nonempty second (by simp)
      simp [ClientRead.bytes, longer] at empty

/-! Packets and how they are cut. -/

/-- The client sends one packet, which has its only newline at the end and is not a seek
command, and no call fails. -/
structure Connection.SendsPacket (connection : Connection) : Prop where
  segmented : connection.Segmented
  line : ∃ line, connection.packet = line ++ [newline] ∧ newline ∉ line
  notSeek : parseSeekCommand (connection.packet ++ [0]) = none
  succeeds : connection.Succeeds

structure Connection.ArrivesWhole (connection : Connection) : Prop where
  reads : connection.reads = [.data connection.packet]
  plain : parseSeekCommand (connection.packet ++ connection.outFile.heapTail) = none

theorem Connection.SendsPacket.packet_ne_nil {connection : Connection}
    (sends : connection.SendsPacket) : connection.packet ≠ [] := by
  obtain ⟨line, packet, -⟩ := sends.line
  simp [packet]

theorem Connection.SendsPacket.forwarded_of_arrivesWhole {connection : Connection}
    (sends : connection.SendsPacket) (whole : connection.ArrivesWhole) :
    ∃ init last, connection.forwarded = init ++ [last] ∧
      init.flatten ++ last = connection.packet ∧ (∀ piece ∈ init, endsCommand piece = false) ∧
      endsCommand last = true := by
  have first : connection.firstRead = connection.packet := by
    rw [Connection.firstRead, whole.reads]
  have plain : ¬ connection.TakenAsSeek := by
    simp [Connection.TakenAsSeek, first, whole.plain]
  obtain ⟨init, last, split, joined, ended⟩ :=
    sends.succeeds.forwarded_split plain (first ▸ sends.packet_ne_nil)
  obtain ⟨line, ends, unbroken⟩ := sends.line
  rw [first] at joined ended
  have closing : endsCommand last = true := by
    rw [ended, ends]
    simp [endsCommand]
  have filled : last ≠ [] := List.ne_nil_of_mem (newline_mem closing)
  have dropped : line = init.flatten ++ last.dropLast := by
    rw [← List.dropLast_append_of_ne_nil filled, joined, ends, List.dropLast_concat]
  refine ⟨init, last, split, joined, fun piece member => ?_, closing⟩
  refine Bool.eq_false_iff.mpr fun early => unbroken ?_
  rw [dropped]
  exact List.mem_append_left _ (List.mem_flatten.mpr ⟨piece, member, newline_mem early⟩)

theorem Connection.SendsPacket.countP_le {connection : Connection}
    (sends : connection.SendsPacket) : connection.forwarded.countP endsCommand ≤ 1 := by
  by_cases taken : connection.TakenAsSeek
  · rw [Connection.forwarded_of_takenAsSeek taken, List.countP_nil]
    exact Nat.zero_le _
  · obtain ⟨rest, -, packet, -⟩ := sends.segmented.split sends.packet_ne_nil
    obtain ⟨line, ends, unbroken⟩ := sends.line
    have once : connection.packet.count newline = 1 := by
      rw [ends, List.count_append, List.count_eq_zero.mpr unbroken, List.count_singleton_self]
    have closing := countP_endsCommand_le connection.forwarded
    rw [sends.succeeds.forwarded_flatten taken] at closing
    rw [packet, List.count_append] at once
    omega

theorem Connection.SendsPacket.arrivesWhole {connection : Connection}
    (sends : connection.SendsPacket) {chunk : Bytes} (handed : chunk ∈ connection.forwarded)
    (ended : endsCommand chunk = true) : connection.ArrivesWhole := by
  obtain ⟨rest, reads, packet, nonempty, more⟩ := sends.segmented.split sends.packet_ne_nil
  have plain := Connection.not_takenAsSeek handed
  obtain ⟨line, ends, unbroken⟩ := sends.line
  have newlined : newline ∈ connection.firstRead := by
    rw [← sends.succeeds.forwarded_flatten plain]
    exact List.mem_flatten.mpr ⟨chunk, handed, newline_mem ended⟩
  -- with a later read the newline of the first one would not be the last byte of the packet
  have single : rest = [] := by
    by_contra later
    have tail := more later
    have dropped : line =
        connection.firstRead ++ (rest.flatMap ClientRead.bytes).dropLast := by
      rw [← List.dropLast_append_of_ne_nil tail, ← packet, ends, List.dropLast_concat]
    exact unbroken (dropped ▸ List.mem_append_left _ newlined)
  subst single
  have same : connection.packet = connection.firstRead := by simpa using packet
  refine ⟨by rw [reads, same], ?_⟩
  rw [same]
  exact Option.not_isSome_iff_eq_none.mp plain

/-- The device commits the packets, one for each connection and in their order, exactly when
every packet arrives in one read and is not taken for a seek command. -/
theorem serve_packets_iff (connections : List Connection)
    (sends : ∀ connection ∈ connections, connection.SendsPacket) :
    ∃ server, serve Server.boot connections = .ok server ∧
      (server.committed = connections.map Connection.packet ↔
        ∀ connection ∈ connections, connection.ArrivesWhole) := by
  obtain ⟨server, served, follows⟩ := serve_follows fun connection member =>
    (sends connection member).succeeds
  refine ⟨server, served, ?_⟩
  rw [follows.committed, commandsOf]
  constructor
  · intro committed connection member
    obtain ⟨chunk, handed, ended⟩ := closes_of_collect_length endsCommand
      (fun connection member => (sends connection member).countP_le)
      (by rw [committed, List.length_map]) connection member
    exact (sends connection member).arrivesWhole handed ended
  · intro whole
    rw [collect_flatMap_eq endsCommand fun connection member =>
      (sends connection member).forwarded_of_arrivesWhole (whole connection member)]

def client (segments : List Bytes) : Connection where
  reads := segments.map .data

theorem client_segmented {segments : List Bytes}
    (sizes : ∀ segment ∈ segments, 1 ≤ segment.length ∧ segment.length ≤ bufSize.toNat) :
    (client segments).Segmented := by
  intro read member
  obtain ⟨segment, sent, rfl⟩ := List.mem_map.mp member
  exact ⟨segment, rfl, sizes segment sent⟩

theorem client_succeeds (segments : List Bytes) : (client segments).Succeeds where
  mallocClientFd := rfl
  pthreadCreate := rfl
  mallocErr := rfl
  openTmp := rfl
  reads := by simp [client]
  tmpWrites := rfl
  openOut := rfl
  mallocValidate := rfl
  deviceWrites := rfl

def splitClients : List Connection := [client [[97, 10]], client [[98], [10]]]

theorem splitClients_sendPackets : ∀ connection ∈ splitClients, connection.SendsPacket := by
  simp only [splitClients, List.forall_mem_cons]
  exact ⟨⟨client_segmented (by decide), ⟨[97], by decide, by decide⟩, by decide, client_succeeds _⟩,
    ⟨client_segmented (by decide), ⟨[98], by decide, by decide⟩, by decide, client_succeeds _⟩,
    by simp⟩

theorem serve_packets_iff_split :
    ∃ server, serve Server.boot splitClients = .ok server ∧
      (server.committed = [[97, 10], [98, 10]] ↔
        ∀ connection ∈ splitClients, connection.ArrivesWhole) :=
  serve_packets_iff splitClients splitClients_sendPackets

theorem serve_packets_fails_split :
    (∀ connection ∈ splitClients, connection.SendsPacket) ∧
      ∃ server, serve Server.boot splitClients = .ok server ∧
        server.committed = [[97, 10]] ∧
        server.committed ≠ splitClients.map Connection.packet := by
  have evaluated : (serve Server.boot splitClients).toOption.map Server.committed =
      some [[97, 10]] := by
    decide +kernel
  obtain ⟨server, served, committed⟩ := ok_of_toOption_map evaluated
  refine ⟨splitClients_sendPackets, server, served, committed, ?_⟩
  rw [committed]
  decide

/-! Clients that close before they have sent a newline. -/

structure Connection.Aborts (connection : Connection) : Prop where
  segmented : connection.Segmented
  sends : connection.packet ≠ []
  unended : newline ∉ connection.packet
  succeeds : connection.Succeeds

structure Connection.SendsLine (connection : Connection) : Prop where
  reads : connection.reads = [.data connection.packet]
  short : connection.packet.length ≤ bufSize.toNat
  ended : endsCommand connection.packet = true
  succeeds : connection.Succeeds

theorem Connection.Aborts.firstRead {connection : Connection} (aborts : connection.Aborts) :
    connection.firstRead ≠ [] ∧ newline ∉ connection.firstRead := by
  obtain ⟨rest, -, packet, nonempty, -⟩ := aborts.segmented.split aborts.sends
  refine ⟨nonempty, fun ended => aborts.unended ?_⟩
  rw [packet]
  exact List.mem_append_left _ ended

theorem Connection.Aborts.forwarded_unended {connection : Connection} (aborts : connection.Aborts) :
    ∀ piece ∈ connection.forwarded, endsCommand piece = false := by
  intro piece handed
  refine Bool.eq_false_iff.mpr fun ended => aborts.firstRead.2 ?_
  rw [← aborts.succeeds.forwarded_flatten (Connection.not_takenAsSeek handed)]
  exact List.mem_flatten.mpr ⟨piece, handed, newline_mem ended⟩

theorem Connection.SendsLine.firstRead {connection : Connection} (line : connection.SendsLine) :
    connection.firstRead ≠ [] ∧ endsCommand connection.firstRead = true := by
  have first : connection.firstRead = connection.packet := by
    rw [Connection.firstRead, line.reads]
  have ended := line.ended
  refine ⟨fun empty => ?_, first ▸ ended⟩
  rw [← first, empty] at ended
  simp [endsCommand] at ended

theorem commandsOf_forwarded_eq_nil_iff {connections : List Connection}
    (kinds : ∀ connection ∈ connections, connection.SendsLine ∨ connection.Aborts) :
    commandsOf (connections.flatMap Connection.forwarded) = [] ↔
      ∀ connection ∈ connections, connection.SendsLine → connection.TakenAsSeek := by
  rw [commandsOf, collect_records_eq_nil_iff]
  constructor
  · intro unended connection member line
    by_contra plain
    obtain ⟨init, last, split, -, ended⟩ :=
      line.succeeds.forwarded_split plain line.firstRead.1
    refine unended last (List.mem_flatMap.mpr ⟨connection, member, by simp [split]⟩) ?_
    rw [ended, line.firstRead.2]
  · intro seeks chunk member ended
    obtain ⟨connection, sender, handed⟩ := List.mem_flatMap.mp member
    rcases kinds connection sender with line | aborts
    · exact Connection.not_takenAsSeek handed (seeks connection sender line)
    · rw [aborts.forwarded_unended chunk handed] at ended
      cases ended

/-- An aborted client leaves the committed commands alone exactly when its bytes are taken
for a seek command or nobody after it commits one. -/
theorem serve_withoutAborted_iff (first second : List Connection) (aborted : Connection)
    (others : ∀ connection ∈ first ++ second, connection.SendsLine ∨ connection.Aborts)
    (aborts : aborted.Aborts) :
    ∃ server without, serve Server.boot (first ++ aborted :: second) = .ok server ∧
      serve Server.boot (first ++ second) = .ok without ∧
      (server.committed = without.committed ↔
        aborted.TakenAsSeek ∨
          ∀ connection ∈ second, connection.SendsLine → connection.TakenAsSeek) := by
  have succeeds : ∀ connection ∈ first ++ second, connection.Succeeds := by
    intro connection member
    rcases others connection member with line | aborted
    · exact line.succeeds
    · exact aborted.succeeds
  have together : ∀ connection ∈ first ++ aborted :: second, connection.Succeeds := by
    intro connection member
    rcases List.mem_append.mp member with early | late
    · exact succeeds connection (List.mem_append_left _ early)
    · rcases List.mem_cons.mp late with rfl | later
      · exact aborts.succeeds
      · exact succeeds connection (List.mem_append_right _ later)
  obtain ⟨server, served, follows⟩ := serve_follows together
  obtain ⟨without, alone, followed⟩ := serve_follows succeeds
  refine ⟨server, without, served, alone, ?_⟩
  rw [follows.committed, followed.committed]
  simp only [List.flatMap_append, List.flatMap_cons]
  by_cases taken : aborted.TakenAsSeek
  · simp [Connection.forwarded_of_takenAsSeek taken, taken]
  · have sent : aborted.forwarded.flatten ≠ [] := by
      rw [aborts.succeeds.forwarded_flatten taken]
      exact aborts.firstRead.1
    rw [commandsOf, commandsOf, collect_insert_iff endsCommand _ _ sent aborts.forwarded_unended,
      ← commandsOf, commandsOf_forwarded_eq_nil_iff fun connection later =>
        others connection (List.mem_append_right _ later)]
    simp [taken]

def quitter : Connection := client [[120], [121]]

theorem quitter_aborts : quitter.Aborts :=
  ⟨client_segmented (by decide), by decide, by decide, client_succeeds _⟩

theorem client_sendsLine {packet : Bytes} (short : packet.length ≤ bufSize.toNat)
    (ended : endsCommand packet = true) : (client [packet]).SendsLine := by
  have same : (client [packet]).packet = packet := by
    simp [client, Connection.packet, ClientRead.bytes]
  exact ⟨by rw [same]; rfl, by rwa [same], by rwa [same], client_succeeds _⟩

theorem serve_withoutAborted_iff_quitter :
    ∃ server without,
      serve Server.boot ([client [[97, 10]]] ++ quitter :: [client [[98, 10]]]) = .ok server ∧
      serve Server.boot ([client [[97, 10]]] ++ [client [[98, 10]]]) = .ok without ∧
      (server.committed = without.committed ↔
        quitter.TakenAsSeek ∨
          ∀ connection ∈ [client [[98, 10]]], connection.SendsLine → connection.TakenAsSeek) :=
  serve_withoutAborted_iff [client [[97, 10]]] [client [[98, 10]]] quitter
    (by
      simp only [List.cons_append, List.nil_append, List.forall_mem_cons]
      exact ⟨Or.inl (client_sendsLine (by decide) (by decide)),
        Or.inl (client_sendsLine (by decide) (by decide)), by simp⟩)
    quitter_aborts

/-- The first byte of the client that closed becomes the start of the next client's command. -/
theorem withoutAborted_fails_quitter :
    quitter.Aborts ∧ (client [[97, 10]]).SendsLine ∧
      ∃ server without, serve Server.boot [quitter, client [[97, 10]]] = .ok server ∧
        serve Server.boot [client [[97, 10]]] = .ok without ∧
        server.committed = [[120, 97, 10]] ∧ without.committed = [[97, 10]] := by
  have joined : (serve Server.boot [quitter, client [[97, 10]]]).toOption.map Server.committed =
      some [[120, 97, 10]] := by
    decide +kernel
  have alone : (serve Server.boot [client [[97, 10]]]).toOption.map Server.committed =
      some [[97, 10]] := by
    decide +kernel
  obtain ⟨server, served, committed⟩ := ok_of_toOption_map joined
  obtain ⟨without, servedAlone, committedAlone⟩ := ok_of_toOption_map alone
  exact ⟨quitter_aborts, client_sendsLine (by decide) (by decide), server, without, served,
    servedAlone, committed, committedAlone⟩

end Aesd
