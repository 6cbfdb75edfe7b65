import Lindy.Machine.Table

/-! # The p2p event handler

`EventHandler::handle_event` together with what its tasks own. Rust moves ownership around:
a notifier is the sending half of a oneshot channel, a connection is a sink and a stream
moved into two tasks, a queue is the unbounded channel its writer task receives from. Here
each of these is a number handed out once, and `Runtime` says where each of them is.

Logging has no effect on any of it and is left out.
-/

namespace Lindy.P2p

open Machine

/-- `std::io::ErrorKind`. -/
inductive ErrorKind where
  | notFound | permissionDenied | connectionRefused | connectionReset | connectionAborted
  | notConnected | addrInUse | addrNotAvailable | brokenPipe | alreadyExists | wouldBlock
  | invalidInput | invalidData | timedOut | writeZero | interrupted | other | unexpectedEof
  deriving DecidableEq

inductive HandshakeError where
  | invalidKey
  | io (kind : ErrorKind)
  deriving DecidableEq

/-- `conn::Error`. -/
inductive Error where
  | handshake (error : HandshakeError)
  | io (kind : ErrorKind)
  | messageTooLong
  deriving DecidableEq

/-- `{:?}`. -/
def ErrorKind.debug : ErrorKind → String
  | notFound => "NotFound"
  | permissionDenied => "PermissionDenied"
  | connectionRefused => "ConnectionRefused"
  | connectionReset => "ConnectionReset"
  | connectionAborted => "ConnectionAborted"
  | notConnected => "NotConnected"
  | addrInUse => "AddrInUse"
  | addrNotAvailable => "AddrNotAvailable"
  | brokenPipe => "BrokenPipe"
  | alreadyExists => "AlreadyExists"
  | wouldBlock => "WouldBlock"
  | invalidInput => "InvalidInput"
  | invalidData => "InvalidData"
  | timedOut => "TimedOut"
  | writeZero => "WriteZero"
  | interrupted => "Interrupted"
  | other => "Other"
  | unexpectedEof => "UnexpectedEof"

def HandshakeError.display : HandshakeError → String
  | invalidKey => "remote key was invalid"
  | io kind => "handshake has an io error of kind " ++ kind.debug

def Error.display : Error → String
  | handshake error => "error during handshake: " ++ error.display
  | io kind => kind.debug
  | messageTooLong => "attempted to send message that was too long"

/-- What a notifier is sent. -/
abbrev Outcome := Except Error Unit

structure Peer (Addr Key : Type) where
  addr : Addr
  key : Key
  deriving DecidableEq

def Peer.id {Addr Key : Type} (peer : Peer Addr Key) : Key := peer.key

/-- The sending half of one oneshot channel. -/
abbrev Notifier := Nat

/-- One framed connection: the sink moved into its writer task, the stream moved into its
    reader task, and the unbounded queue made for it. -/
abbrev ConnId := Nat

/-- One task spawned by `maybe_connect`. -/
abbrev AttemptId := Nat

/-- What travels to a writer task: a message and who wants to know about it. -/
abbrev Item (M : Type) := M × Option Notifier

inductive ConnectState (M : Type) where
  | connected (outgoingQueue : ConnId)
  | connecting (notifyOnConnect : List Notifier) (pendingMessages : List (Item M))
  deriving DecidableEq

/-- `ConnectState::default`. -/
def ConnectState.default {M : Type} : ConnectState M := .connecting [] []

inductive Event (Addr Key M : Type) where
  | connectionEstablished (peer : Peer Addr Key) (conn : ConnId)
  | connectionFailed (peer : Peer Addr Key) (reason : Error)
  | outgoingConnectionReq (peer : Peer Addr Key) (notify : Option Notifier)
  | sendMessageReq (peer : Peer Addr Key) (message : M) (notifier : Option Notifier)
  | newIncomingMessage (peer : Peer Addr Key) (message : M)
  | disconnected (peer : Peer Addr Key)

/-- A running writer task: the peer it logs about and what its receiver still holds. The
    item being sent stays at the head until its outcome is known. -/
structure Writer (Addr Key M : Type) where
  peer : Peer Addr Key
  queue : List (Item M)
  /-- Its sink has returned an error, and `sink_map_err` has used up the closure it was
      given. -/
  failed : Bool

structure Runtime (Addr Key M : Type) where
  /-- `EventHandler::peers`. -/
  peers : Table Key (ConnectState M)
  /-- Writer tasks whose receiver is alive. -/
  writers : Table ConnId (Writer Addr Key M)
  /-- Reader tasks whose `Disconnected` has not been handled. -/
  readers : Table ConnId (Peer Addr Key)
  /-- Connection attempts whose result has not been handled. -/
  attempts : Table AttemptId (Peer Addr Key)
  /-- What was sent on each oneshot channel, oldest first. -/
  answers : Notifier → List Outcome
  /-- What the sink of each connection accepted, oldest first. -/
  sinks : ConnId → List (Item M)
  /-- What was put on `msg_sender`, oldest first. -/
  incoming : List (Peer Addr Key × M)
  /-- Connections, attempts and oneshot channels made so far. -/
  conns : Nat
  spawned : Nat
  oneshots : Nat

namespace Runtime

variable {Addr Key M : Type} [DecidableEq Key]

/-- Nothing has happened yet. -/
def init : Runtime Addr Key M where
  peers := .empty
  writers := .empty
  readers := .empty
  attempts := .empty
  answers := fun _ => []
  sinks := fun _ => []
  incoming := []
  conns := 0
  spawned := 0
  oneshots := 0

/-- Replace the entry of a peer. -/
def setPeer (w : Runtime Addr Key M) (key : Key) (state : ConnectState M) :
    Runtime Addr Key M :=
  { w with peers := w.peers.insert key state }

/-- `notifier.send(result)`; the `let _ =` in front of it drops the error. -/
def answer (w : Runtime Addr Key M) (notifier : Notifier) (result : Outcome) :
    Runtime Addr Key M :=
  { w with answers := Function.update w.answers notifier (w.answers notifier ++ [result]) }

/-- The `drain(..)` loops over notifiers. -/
def answerAll (w : Runtime Addr Key M) (notifiers : List Notifier) (result : Outcome) :
    Runtime Addr Key M :=
  notifiers.foldl (fun w notifier => w.answer notifier result) w

/-- `unbounded_send(item).unwrap()`: panics when the writer task is gone. -/
def unboundedSend (w : Runtime Addr Key M) (queue : ConnId) (item : Item M) :
    Option (Runtime Addr Key M) :=
  match w.writers.get queue with
  | some writer =>
      some { w with writers := w.writers.insert queue
                      { writer with queue := writer.queue ++ [item] } }
  | none => none

/-- The `drain(..)` loop over pending messages. -/
def sendAll (w : Runtime Addr Key M) (queue : ConnId) : List (Item M) →
    Option (Runtime Addr Key M)
  | [] => some w
  | item :: items => do
      let w ← w.unboundedSend queue item
      w.sendAll queue items

/-- `EventHandler::maybe_connect`: the entry of the peer, made together with a connection
    attempt when there was none. -/
def maybeConnect (w : Runtime Addr Key M) (peer : Peer Addr Key) :
    ConnectState M × Runtime Addr Key M :=
  match w.peers.get peer.id with
  | some state => (state, w)
  | none =>
      (.default, { w with peers := w.peers.insert peer.id .default
                          attempts := w.attempts.insert w.spawned peer
                          spawned := w.spawned + 1 })

/-- `EventHandler::spawn_outgoing_messages`. -/
def spawnOutgoingMessages (w : Runtime Addr Key M) (peer : Peer Addr Key) (sink : ConnId) :
    Option (Runtime Addr Key M) := do
  let connectState := (w.peers.get peer.id).getD .default
  let w := { w with writers := w.writers.insert sink ⟨peer, [], false⟩ }
  let w ← match connectState with
    | .connecting notifyOnConnect pendingMessages =>
        (w.answerAll notifyOnConnect (.ok ())).sendAll sink pendingMessages
    | .connected _ => some w
  some (w.setPeer peer.id (.connected sink))

/-- `EventHandler::spawn_incoming_messages`. -/
def spawnIncomingMessages (w : Runtime Addr Key M) (peer : Peer Addr Key) (stream : ConnId) :
    Runtime Addr Key M :=
  { w with readers := w.readers.insert stream peer }

/-- `EventHandler::handle_event`; `none` when it panics. -/
def handleEvent (w : Runtime Addr Key M) : Event Addr Key M → Option (Runtime Addr Key M)
  | .outgoingConnectionReq peer notify =>
      match w.maybeConnect peer with
      -- `notify` goes out of scope here without a word
      | (.connected _, w) => some w
      | (.connecting notifyOnConnect pendingMessages, w) =>
          match notify with
          | some notify =>
              some (w.setPeer peer.id
                (.connecting (notifyOnConnect ++ [notify]) pendingMessages))
          | none => some w
  | .sendMessageReq peer message notifier =>
      match w.maybeConnect peer with
      | (.connected outgoingQueue, w) => w.unboundedSend outgoingQueue (message, notifier)
      | (.connecting notifyOnConnect pendingMessages, w) =>
          some (w.setPeer peer.id
            (.connecting notifyOnConnect (pendingMessages ++ [(message, notifier)])))
  | .newIncomingMessage peer message =>
      some { w with incoming := w.incoming ++ [(peer, message)] }
  | .disconnected peer => some { w with peers := w.peers.remove peer.id }
  | .connectionEstablished peer conn => do
      let w ← w.spawnOutgoingMessages peer conn
      some (w.spawnIncomingMessages peer conn)
  | .connectionFailed peer reason =>
      let removed := w.peers.get peer.id
      let w := { w with peers := w.peers.remove peer.id }
      match removed with
      | some (.connecting notifyOnConnect pendingMessages) =>
          some ((w.answerAll notifyOnConnect (.error reason)).answerAll
            (pendingMessages.filterMap Prod.snd) (.error reason))
      | _ => some w

end Runtime

end Lindy.P2p
