import ChronoShare.Http.Handler
import ChronoShare.Http.Parsing
import ChronoShare.Support.Run
import Mathlib.Data.List.Nodup
import Mathlib.Logic.Function.Basic

/-!
# The server and its connections

One thread runs the handlers of the server in whatever order the operations on
the sockets end.  A connection reads until its parser has decided, writes one
reply, and is closed.
-/

namespace ChronoShare

namespace Http

/-- How an asynchronous operation ends. -/
inductive Outcome (α : Type) where
  | done (result : α)
  | operationAborted
  | failed
  deriving DecidableEq, Repr

/-- The operation that a connection waits for. -/
inductive Pending where
  | readSome
  | write
  deriving DecidableEq, Repr

/-- A connection.  `written` lists the texts that `async_write` was given,
whether or not their writes succeeded.  The status of a new reply is not
initialised. -/
structure Connection where
  isOpen : Bool := true
  parser : RequestParser := {}
  reply : Reply := ⟨.ok, [], []⟩
  pending : Option Pending := none
  written : List Bytes := []
  deriving DecidableEq, Repr

namespace Connection

def start (connection : Connection) : Connection :=
  { connection with pending := some .readSome }

def stop (connection : Connection) : Connection :=
  { connection with isOpen := false }

/-- `async_write` of a reply. -/
def asyncWrite (connection : Connection) (reply : Reply) : Connection :=
  { connection with
    reply
    pending := some .write
    written := connection.written ++ [reply.text] }

variable (file : Bytes → Option Bytes) (absolutePath : Bytes)

/-- `handle_read` of the bytes in the buffer. -/
def handleData (connection : Connection) (data : Bytes) : Connection :=
  match (connection.parser.parse data).1 with
  | (parser, some true) =>
      { connection with parser }.asyncWrite
        (handleRequest file absolutePath parser.req connection.reply)
  | (parser, some false) =>
      { connection with parser }.asyncWrite (stockReply .badRequest)
  | (parser, none) =>
      { connection with parser, pending := some .readSome }

end Connection

/-- The connection objects by their numbers, and the set of those that are
managed.  `newConnection` is the one that waits to be accepted. -/
structure Server where
  connections : List Nat := []
  objects : Nat → Connection := fun _ => {}
  newConnection : Nat := 0
  acceptorOpen : Bool := true
  running : Bool := true

inductive ServerEvent where
  | handleAccept (accepted : Bool)
  | handleRead (connection : Nat) (outcome : Outcome Bytes)
  | handleWrite (connection : Nat) (outcome : Outcome Unit)
  | handleStop
  deriving DecidableEq, Repr

namespace Server

def update (server : Server) (number : Nat) (connection : Connection) :
    Server :=
  { server with objects := Function.update server.objects number connection }

/-- `connection_manager::start`. -/
def start (server : Server) (number : Nat) : Server :=
  { server with connections := server.connections.insert number }.update number
    (server.objects number).start

/-- `connection_manager::stop`. -/
def stop (server : Server) (number : Nat) : Server :=
  { server with connections := server.connections.filter (· ≠ number) }.update
    number (server.objects number).stop

/-- `connection_manager::stop_all`. -/
def stopAll (server : Server) : Server :=
  { server with
    connections := []
    objects := fun number =>
      if number ∈ server.connections then (server.objects number).stop
      else server.objects number }

def startAccept (server : Server) : Server :=
  { server with newConnection := server.newConnection + 1 }

def handleAccept (server : Server) (accepted : Bool) : Server :=
  if ¬ server.acceptorOpen then server
  else if accepted then (server.start server.newConnection).startAccept
  else server.startAccept

variable (file : Bytes → Option Bytes) (absolutePath : Bytes)

def finish (server : Server) (number : Nat) : Server :=
  server.update number { server.objects number with pending := none }

def handleRead (server : Server) (number : Nat) (outcome : Outcome Bytes) :
    Server :=
  match outcome with
  | .done data =>
      server.update number
        ((server.objects number).handleData file absolutePath data)
  | .failed => server.stop number
  | .operationAborted => server

def handleWrite (server : Server) (number : Nat) (outcome : Outcome Unit) :
    Server :=
  match outcome with
  | .done () => server.stop number
  | .failed => server.stop number
  | .operationAborted => server

/-- `handle_stop` between two handlers.  It is called on the thread of the user
interface, where it may also fall into a handler. -/
def handleStop (server : Server) : Server :=
  { server with acceptorOpen := false, running := false }.stopAll

/-- An operation ends for a connection that waits for it.  Only closing the
socket aborts one. -/
def Ends {α : Type} (server : Server) (number : Nat) (pending : Pending)
    (outcome : Outcome α) : Prop :=
  (server.objects number).pending = some pending ∧
    match outcome with
    | .operationAborted => (server.objects number).isOpen = false
    | _ => True

/-- A handler runs while the thread of the server does; the server may be
stopped between any two. -/
inductive Step : Server → ServerEvent → Server → Prop where
  | handleAccept {server : Server} (accepted : Bool) :
      server.running = true →
      Step server (.handleAccept accepted) (server.handleAccept accepted)
  | handleRead {server : Server} {number : Nat} {outcome : Outcome Bytes} :
      server.running = true → server.Ends number .readSome outcome →
      Step server (.handleRead number outcome)
        ((server.finish number).handleRead file absolutePath number outcome)
  | handleWrite {server : Server} {number : Nat} {outcome : Outcome Unit} :
      server.running = true → server.Ends number .write outcome →
      Step server (.handleWrite number outcome)
        ((server.finish number).handleWrite number outcome)
  | handleStop {server : Server} :
      Step server .handleStop server.handleStop

/-- The bytes that an event gives to a connection. -/
def dataOf (number : Nat) : ServerEvent → Bytes
  | .handleRead other (.done data) => if other = number then data else []
  | _ => []

def received (number : Nat) (trace : List (Server × ServerEvent)) : Bytes :=
  trace.flatMap fun taken => dataOf number taken.2

/-- What the server writes to a client that has sent these bytes. -/
def answer (data : Bytes) : List Bytes :=
  match (RequestParser.parse {} data).1 with
  | (parser, some true) =>
      [(handleRequest file absolutePath parser.req ⟨.ok, [], []⟩).text]
  | (_, some false) => [(stockReply .badRequest).text]
  | (_, none) => []

/-- How a connection stands after it has read some bytes. -/
structure Phase (connection : Connection) (data : Bytes) : Prop where
  written : connection.written = answer file absolutePath data
  reading : connection.pending = some .readSome →
    RequestParser.parse {} data = ((connection.parser, none), []) ∧
      connection.reply = ⟨.ok, [], []⟩

/-- What holds after every run. -/
structure Sound (trace : List (Server × ServerEvent)) (server : Server) :
    Prop where
  phase : ∀ number, Phase file absolutePath (server.objects number)
    (received number trace)
  fresh : ∀ number, server.newConnection ≤ number →
    server.objects number = {} ∧ received number trace = []
  managed : server.running = true → ∀ number,
    number ∈ server.connections ↔ (server.objects number).pending ≠ none
  opened : server.running = true → ∀ number ∈ server.connections,
    (server.objects number).isOpen = true
  stopped : server.running = false → server.connections = [] ∧
    ∀ number, (server.objects number).pending ≠ none →
      (server.objects number).isOpen = false
  nodup : server.connections.Nodup

variable {file absolutePath} {connection : Connection} {data more : Bytes}
  {server target : Server} {number other : Nat} {event : ServerEvent}
  {trace : List (Server × ServerEvent)}

theorem answer_undecided {parser : RequestParser} {rest : Bytes}
    (undecided : RequestParser.parse {} data = ((parser, none), rest)) :
    answer file absolutePath data = [] := by
  rw [answer, undecided]

theorem Phase.start (phase : Phase file absolutePath {} data)
    (nothing : data = []) :
    Phase file absolutePath (Connection.start {}) data where
  written := phase.written
  reading _ := by
    rw [nothing]
    exact ⟨rfl, rfl⟩

theorem Phase.close (phase : Phase file absolutePath connection data) :
    Phase file absolutePath
      { connection with isOpen := false, pending := none } data where
  written := phase.written
  reading absent := by cases absent

theorem Phase.handleData (phase : Phase file absolutePath connection data)
    (reads : connection.pending = some .readSome) :
    Phase file absolutePath
      ({ connection with pending := none }.handleData file absolutePath more)
      (data ++ more) := by
  obtain ⟨undecided, reply⟩ := phase.reading reads
  have nothing : connection.written = [] := by
    rw [phase.written, answer_undecided undecided]
  have further : RequestParser.parse {} (data ++ more) =
      RequestParser.parse connection.parser more :=
    Incremental.feed_append_none undecided
  rw [Connection.handleData]
  rcases parsed : RequestParser.parse connection.parser more with
    ⟨⟨parser, - | - | -⟩, rest⟩
  · have left : rest = [] := Incremental.rest_of_none parsed
    subst left
    rw [parsed] at further
    exact ⟨nothing.trans (answer_undecided further).symm,
      fun _ => ⟨further, reply⟩⟩
  · rw [parsed] at further
    refine ⟨?_, fun absent => by cases absent⟩
    rw [answer, further]
    simp [Connection.asyncWrite, nothing]
  · rw [parsed] at further
    refine ⟨?_, fun absent => by cases absent⟩
    rw [answer, further]
    simp [Connection.asyncWrite, nothing, reply]

theorem handleData_pending (connection : Connection) :
    (connection.handleData file absolutePath data).pending ≠ none ∧
      (connection.handleData file absolutePath data).isOpen =
        connection.isOpen := by
  rw [Connection.handleData]
  split
  all_goals simp [Connection.asyncWrite]

@[simp] theorem received_snoc :
    received number (trace ++ [(server, event)]) =
      received number trace ++ dataOf number event := by
  simp [received]

theorem received_snoc_nil (nothing : dataOf number event = []) :
    received number (trace ++ [(server, event)]) = received number trace := by
  rw [received_snoc, nothing, List.append_nil]

@[simp] theorem objects_update :
    (server.update number connection).objects other =
      if other = number then connection else server.objects other :=
  Function.update_apply ..

theorem handleRead_finish :
    (server.finish number).handleRead file absolutePath number (.done data) =
      server.update number
        ({ server.objects number with pending := none }.handleData file
          absolutePath data) := by
  have here : (server.finish number).objects number =
      { server.objects number with pending := none } :=
    objects_update.trans (if_pos rfl)
  rw [handleRead, here, finish, update, update, Function.update_idem]
  rfl

theorem objects_close :
    ((server.finish number).stop number).objects other =
      if other = number then
        { server.objects number with isOpen := false, pending := none }
      else server.objects other := by
  rw [stop, finish, objects_update]
  split_ifs with here
  · rw [objects_update, if_pos rfl]
    rfl
  · exact objects_update.trans (if_neg here)

theorem mem_connections_close :
    other ∈ ((server.finish number).stop number).connections ↔
      other ∈ server.connections ∧ other ≠ number := by
  simp [stop, finish, update]

theorem objects_handleStop :
    server.handleStop.objects other =
      if other ∈ server.connections then (server.objects other).stop
      else server.objects other :=
  rfl

theorem dataOf_of_ne (apart : other ≠ number) (outcome : Outcome Bytes) :
    dataOf other (.handleRead number outcome) = [] := by
  cases outcome with
  | done data => exact if_neg (Ne.symm apart)
  | operationAborted => rfl
  | failed => rfl

namespace Sound

variable (sound : Sound file absolutePath trace server)

include sound

theorem lt_newConnection (pending : (server.objects number).pending ≠ none) :
    number < server.newConnection := by
  by_contra beyond
  rw [(sound.fresh number (not_lt.mp beyond)).1] at pending
  exact pending rfl

theorem continued (running : server.running = true)
    (pending : (server.objects number).pending ≠ none)
    (phase : Phase file absolutePath connection
      (received number trace ++ dataOf number event))
    (apart : ∀ other, other ≠ number → dataOf other event = [])
    (waits : connection.pending ≠ none)
    (isOpen : connection.isOpen = (server.objects number).isOpen) :
    Sound file absolutePath (trace ++ [(server, event)])
      (server.update number connection) where
  phase other := by
    rw [received_snoc, objects_update]
    split_ifs with here
    · rw [here]
      exact phase
    · rw [apart other here, List.append_nil]
      exact sound.phase other
  fresh other beyond := by
    have here : other ≠ number := by
      rintro rfl
      exact absurd (sound.lt_newConnection pending) (not_lt.mpr beyond)
    rw [received_snoc_nil (apart other here), objects_update, if_neg here]
    exact sound.fresh other beyond
  managed _ other := by
    rw [objects_update]
    split_ifs with here
    · rw [here]
      exact iff_of_true ((sound.managed running number).mpr pending) waits
    · exact sound.managed running other
  opened _ other member := by
    rw [objects_update]
    split_ifs with here
    · rw [isOpen, ← here]
      exact sound.opened running other member
    · exact sound.opened running other member
  stopped halted := by
    have halt : server.running = false := halted
    rw [running] at halt
    cases halt
  nodup := sound.nodup

theorem closed (running : server.running = true)
    (pending : (server.objects number).pending ≠ none)
    (nothing : ∀ other, dataOf other event = []) :
    Sound file absolutePath (trace ++ [(server, event)])
      ((server.finish number).stop number) where
  phase other := by
    rw [received_snoc_nil (nothing other), objects_close]
    split_ifs with here
    · rw [here]
      exact (sound.phase number).close
    · exact sound.phase other
  fresh other beyond := by
    have here : other ≠ number := by
      rintro rfl
      exact absurd (sound.lt_newConnection pending) (not_lt.mpr beyond)
    rw [received_snoc_nil (nothing other), objects_close, if_neg here]
    exact sound.fresh other beyond
  managed _ other := by
    rw [mem_connections_close, objects_close]
    split_ifs with here
    · simp [here]
    · simp [here, sound.managed running other]
  opened _ other member := by
    obtain ⟨before, here⟩ := mem_connections_close.mp member
    rw [objects_close, if_neg here]
    exact sound.opened running other before
  stopped halted := by
    have halt : server.running = false := halted
    rw [running] at halt
    cases halt
  nodup := sound.nodup.filter _

theorem accepted (running : server.running = true) :
    Sound file absolutePath (trace ++ [(server, .handleAccept true)])
      (server.start server.newConnection).startAccept := by
  obtain ⟨untouched, nothing⟩ := sound.fresh server.newConnection le_rfl
  have objects : ∀ other,
      (server.start server.newConnection).startAccept.objects other =
        if other = server.newConnection then Connection.start {}
        else server.objects other := by
    intro other
    rw [← untouched]
    exact objects_update
  have connections : ∀ other,
      other ∈ (server.start server.newConnection).startAccept.connections ↔
        other = server.newConnection ∨ other ∈ server.connections :=
    fun other => List.mem_insert_iff
  constructor
  case phase =>
    intro other
    rw [received_snoc_nil rfl, objects]
    split_ifs with here
    · rw [here]
      have phase := sound.phase server.newConnection
      rw [untouched] at phase
      exact phase.start nothing
    · exact sound.phase other
  case fresh =>
    intro other beyond
    have later : server.newConnection < other := beyond
    rw [received_snoc_nil rfl, objects, if_neg later.ne']
    exact sound.fresh other later.le
  case managed =>
    intro _ other
    rw [connections, objects]
    split_ifs with here
    · simp [here, Connection.start]
    · simp [here, sound.managed running other]
  case opened =>
    intro _ other member
    rw [objects]
    split_ifs with here
    · rfl
    · exact sound.opened running other
        (((connections other).mp member).resolve_left here)
  case stopped =>
    intro halted
    have halt : server.running = false := halted
    rw [running] at halt
    cases halt
  case nodup => exact sound.nodup.insert

theorem refused :
    Sound file absolutePath (trace ++ [(server, .handleAccept false)])
      server.startAccept where
  phase other := by
    rw [received_snoc_nil rfl]
    exact sound.phase other
  fresh other beyond := by
    rw [received_snoc_nil rfl]
    exact sound.fresh other (Nat.le_of_succ_le beyond)
  managed := sound.managed
  opened := sound.opened
  stopped := sound.stopped
  nodup := sound.nodup

theorem idle (nothing : ∀ other, dataOf other event = []) :
    Sound file absolutePath (trace ++ [(server, event)]) server where
  phase other := by
    rw [received_snoc_nil (nothing other)]
    exact sound.phase other
  fresh other beyond := by
    rw [received_snoc_nil (nothing other)]
    exact sound.fresh other beyond
  managed := sound.managed
  opened := sound.opened
  stopped := sound.stopped
  nodup := sound.nodup

theorem pending_of_mem (member : number ∈ server.connections) :
    (server.objects number).pending ≠ none := by
  cases running : server.running with
  | true => exact (sound.managed running number).mp member
  | false =>
      rw [(sound.stopped running).1] at member
      cases member

theorem halted :
    Sound file absolutePath (trace ++ [(server, .handleStop)])
      server.handleStop where
  phase other := by
    rw [received_snoc_nil rfl, objects_handleStop]
    have phase := sound.phase other
    split_ifs
    · exact ⟨phase.written, phase.reading⟩
    · exact phase
  fresh other beyond := by
    have here : other ∉ server.connections := by
      intro member
      have earlier := sound.lt_newConnection (sound.pending_of_mem member)
      exact absurd earlier (not_lt.mpr beyond)
    rw [received_snoc_nil rfl, objects_handleStop, if_neg here]
    exact sound.fresh other beyond
  managed running := by cases running
  opened running := by cases running
  stopped _ := by
    refine ⟨rfl, fun other => ?_⟩
    rw [objects_handleStop]
    split_ifs with here
    · exact fun _ => rfl
    · cases running : server.running with
      | true =>
          intro pending
          exact absurd ((sound.managed running other).mpr pending) here
      | false => exact (sound.stopped running).2 other
  nodup := List.nodup_nil

/-- No handler sees an aborted operation: what closes a socket that still waits
also stops the thread. -/
theorem not_aborted {α : Type} {pending : Pending}
    (running : server.running = true)
    (ends : server.Ends number pending
      (Outcome.operationAborted : Outcome α)) : False := by
  obtain ⟨waits, closed⟩ := ends
  have waiting : (server.objects number).pending ≠ none := by
    rw [waits]
    simp
  have isOpen := sound.opened running number
    ((sound.managed running number).mpr waiting)
  rw [closed] at isOpen
  cases isOpen

theorem handleRead {outcome : Outcome Bytes} (running : server.running = true)
    (ends : server.Ends number .readSome outcome) :
    Sound file absolutePath
      (trace ++ [(server, .handleRead number outcome)])
      ((server.finish number).handleRead file absolutePath number outcome) := by
  have pending : (server.objects number).pending ≠ none := by
    rw [ends.1]
    simp
  cases outcome with
  | operationAborted => exact (sound.not_aborted running ends).elim
  | failed => exact sound.closed running pending fun _ => rfl
  | done data =>
      have whole : received number trace ++
          dataOf number (.handleRead number (.done data)) =
            received number trace ++ data := by
        rw [dataOf, if_pos rfl]
      rw [handleRead_finish]
      refine sound.continued running pending ?_
        (fun _ apart => dataOf_of_ne apart _) (handleData_pending _).1
        (handleData_pending _).2
      rw [whole]
      exact (sound.phase number).handleData ends.1

theorem handleWrite {outcome : Outcome Unit} (running : server.running = true)
    (ends : server.Ends number .write outcome) :
    Sound file absolutePath
      (trace ++ [(server, .handleWrite number outcome)])
      ((server.finish number).handleWrite number outcome) := by
  have pending : (server.objects number).pending ≠ none := by
    rw [ends.1]
    simp
  cases outcome with
  | operationAborted => exact (sound.not_aborted running ends).elim
  | failed => exact sound.closed running pending fun _ => rfl
  | done => exact sound.closed running pending fun _ => rfl

theorem step (taken : Step file absolutePath server event target) :
    Sound file absolutePath (trace ++ [(server, event)]) target := by
  cases taken with
  | handleAccept accept running =>
      rw [Server.handleAccept]
      split_ifs with isOpen success
      · rw [success]
        exact sound.accepted running
      · obtain rfl : accept = false := by simpa using success
        exact sound.refused
      · exact sound.idle fun _ => rfl
  | handleRead running ends => exact sound.handleRead running ends
  | handleWrite running ends => exact sound.handleWrite running ends
  | handleStop => exact sound.halted

end Sound

theorem sound_initial : Sound file absolutePath [] {} where
  phase _ := ⟨rfl, fun absent => by cases absent⟩
  fresh _ _ := ⟨rfl, rfl⟩
  managed _ _ := by simp
  opened _ _ member := by cases member
  stopped halted := by cases halted
  nodup := List.nodup_nil

theorem sound_of_run (run : Run (Step file absolutePath) {} trace server) :
    Sound file absolutePath trace server :=
  run.trace_invariant_of_steps (fun _ _ => True) (fun _ _ => trivial)
    sound_initial fun _ _ _ _ _ taken sound => sound.step taken

/-- In every run, however the bytes of the clients come in and whatever the
other connections do, a connection has written the one answer to what it has
read, or nothing while that is undecided. -/
theorem connection_answers
    (run : Run (Step file absolutePath) {} trace server) (number : Nat) :
    (server.objects number).written =
      answer file absolutePath (received number trace) :=
  ((sound_of_run run).phase number).written

theorem exists_run_received (file : Bytes → Option Bytes)
    (absolutePath data : Bytes) :
    ∃ trace server, Run (Step file absolutePath) {} trace server ∧
      received 0 trace = data := by
  have connected : Run (Step file absolutePath) {} [({}, .handleAccept true)]
      (handleAccept {} true) := .snoc .nil (.handleAccept true rfl)
  have ends : (handleAccept {} true).Ends 0 .readSome (.done data) :=
    ⟨rfl, trivial⟩
  exact ⟨_, _, connected.snoc (.handleRead rfl ends), List.append_nil data⟩

/-- A client that sends an empty line is sent an error. -/
theorem connection_answers_invalid :
    ∃ trace server, Run (Step (fun _ => none) (ascii "/srv")) {} trace server ∧
      received 0 trace = crlf ∧
      (server.objects 0).written = [(stockReply .badRequest).text] := by
  obtain ⟨trace, server, run, asked⟩ :=
    exists_run_received (fun _ => none) (ascii "/srv") crlf
  refine ⟨trace, server, run, asked, ?_⟩
  rw [connection_answers run, asked]
  rfl

/-- The manager holds exactly the connections that wait for an operation, and
they are open.  A server that was stopped between two handlers holds none, and
none that waits is open. -/
theorem managed_iff_pending
    (run : Run (Step file absolutePath) {} trace server) :
    server.connections.Nodup ∧
      (server.running = true → ∀ number,
        (number ∈ server.connections ↔
          (server.objects number).pending ≠ none) ∧
        (number ∈ server.connections →
          (server.objects number).isOpen = true)) ∧
      (server.running = false → server.connections = [] ∧
        ∀ number, (server.objects number).pending ≠ none →
          (server.objects number).isOpen = false) := by
  have sound := sound_of_run run
  exact ⟨sound.nodup, fun running number =>
    ⟨sound.managed running number, sound.opened running number⟩,
    sound.stopped⟩

/-- The first connection, as soon as it has been accepted. -/
theorem managed_iff_pending_accepted :
    ∃ trace server, Run (Step (fun _ => none) (ascii "/srv")) {} trace server ∧
      server.connections = [0] ∧ server.connections.Nodup ∧
      ((server.objects 0).pending ≠ none ↔ 0 ∈ server.connections) := by
  have run : Run (Step (fun _ => none) (ascii "/srv")) {}
      [({}, .handleAccept true)] (handleAccept {} true) :=
    .snoc .nil (.handleAccept true rfl)
  obtain ⟨nodup, managed, -⟩ := managed_iff_pending run
  exact ⟨_, _, run, rfl, nodup, (managed rfl 0).1.symm⟩

theorem answer_of_requestText {text rest : Bytes} {req : Request}
    (reads : RequestText text req) :
    answer file absolutePath (text ++ rest) =
      [(handleRequest file absolutePath req ⟨.ok, [], []⟩).text] := by
  rw [answer, parse_requestText reads]

theorem answer_congr {others : Bytes → Option Bytes}
    (same : ∀ path, Below absolutePath path → file path = others path) :
    answer file absolutePath data = answer others absolutePath data := by
  rw [answer, answer]
  split
  · rw [handleRequest_congr same]
  · rfl
  · rfl

/-- A client that asks for a file below the root is sent its contents, in a
reply that cannot be read in any other way. -/
theorem server_serves_file {text rest requestPath contents : Bytes}
    {req : Request}
    (run : Run (Step file absolutePath) {} trace server)
    (asked : received number trace = text ++ rest)
    (reads : RequestText text req) (encodes : Encodes req.uri requestPath)
    (admissible : Admissible requestPath)
    (visible : (0 : UInt8) ∉ requestPath)
    (found : file (absolutePath ++ addIndex requestPath) = some contents) :
    ∃ reply, (server.objects number).written = [reply.text] ∧
      reply.status = .ok ∧ reply.content = contents ∧
      ∀ other, Reply.Framed other → other.text = reply.text →
        other = reply := by
  refine ⟨handleRequest file absolutePath req ⟨.ok, [], []⟩, ?_, ?_, ?_, ?_⟩
  · rw [((sound_of_run run).phase number).written, asked,
      answer_of_requestText reads]
  · rw [handleRequest_of_encodes encodes admissible visible, found]
  · rw [handleRequest_of_encodes encodes admissible visible, found]
    rfl
  · intro other framed same
    exact (text_selfDelimiting other _ [] [] framed framed_handleRequest
      (by rw [same])).1

/-- An index is the file that a request for a root is answered with. -/
theorem server_serves_file_index :
    ∃ trace server,
      Run (Step (fun path => if path = ascii "/srv/index.html" then some [1]
        else none) (ascii "/srv")) {} trace server ∧
      ∃ reply, (server.objects 0).written = [reply.text] ∧
        reply.status = .ok ∧ reply.content = [1] ∧
        ∀ other, Reply.Framed other → other.text = reply.text →
          other = reply := by
  have parsed : RequestParser.parse {} (ascii "GET / HTTP/1.0\r\n\r\n") =
      ((⟨.expectingNewline3, ascii "GET", ascii "/", 1, 0, []⟩, some true),
        []) := rfl
  obtain ⟨taken, split, reads⟩ := requestText_of_parse parsed
  obtain ⟨trace, server, run, asked⟩ := exists_run_received
    (fun path => if path = ascii "/srv/index.html" then some [1] else none)
    (ascii "/srv") (ascii "GET / HTTP/1.0\r\n\r\n")
  exact ⟨trace, server, run, server_serves_file run (asked.trans split) reads
    (.plain (by decide) (by decide) .nil) (by decide) (by decide) (by decide)⟩

/-- What lies outside the root never reaches a client. -/
theorem nothing_outside_root {others : Bytes → Option Bytes}
    {otherTrace : List (Server × ServerEvent)} {otherServer : Server}
    (same : ∀ path, Below absolutePath path → file path = others path)
    (run : Run (Step file absolutePath) {} trace server)
    (otherRun : Run (Step others absolutePath) {} otherTrace otherServer)
    (asked : received number trace = received number otherTrace) :
    (server.objects number).written =
      (otherServer.objects number).written := by
  rw [((sound_of_run run).phase number).written,
    ((sound_of_run otherRun).phase number).written, asked, answer_congr same]

/-- A request for a key beside the root gives none away. -/
theorem nothing_outside_root_key :
    ∃ trace server otherTrace otherServer,
      Run (Step (fun _ => none) (ascii "/srv")) {} trace server ∧
      Run (Step (fun path => if path = ascii "/srv/../key" then some [1]
        else none) (ascii "/srv")) {} otherTrace otherServer ∧
      received 0 trace = ascii "GET /%2e%2e/key HTTP/1.0\r\n\r\n" ∧
      (server.objects 0).written = (otherServer.objects 0).written := by
  obtain ⟨trace, server, run, asked⟩ := exists_run_received (fun _ => none)
    (ascii "/srv") (ascii "GET /%2e%2e/key HTTP/1.0\r\n\r\n")
  obtain ⟨otherTrace, otherServer, otherRun, otherAsked⟩ :=
    exists_run_received (fun path => if path = ascii "/srv/../key" then
      some [1] else none) (ascii "/srv")
      (ascii "GET /%2e%2e/key HTTP/1.0\r\n\r\n")
  refine ⟨trace, server, otherTrace, otherServer, run, otherRun, asked,
    nothing_outside_root ?_ run otherRun (asked.trans otherAsked.symm)⟩
  intro path below
  rw [if_neg]
  rintro rfl
  exact absurd below (by simp only [Below]; decide)

end Server

end Http

end ChronoShare
