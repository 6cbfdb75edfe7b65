import Lindy.Machine.Run
import Lindy.P2p.Event

/-! # The event loop and its tasks

One step of the p2p runtime: the loop of `EventHandler::start` handles the next event of
some source, or a writer task makes progress. Sources report in any order and as late as
they like, which covers every order in which the bounded event channel can deliver.
-/

namespace Lindy.P2p

open Machine

/-- Where the next event comes from. -/
inductive Source (Addr Key M : Type) where
  /-- The `POST /peers` handler; it always wants an answer. -/
  | connectReq (peer : Peer Addr Key) (wanted : Bool)
  /-- A caller of `Event::send_message`; it always wants an answer. -/
  | sendReq (peer : Peer Addr Key) (message : M) (wanted : Bool)
  /-- The listener framed a connection. -/
  | inbound (peer : Peer Addr Key)
  /-- The attempt framed a connection. -/
  | connected (attempt : AttemptId)
  | failed (attempt : AttemptId) (reason : Error)
  /-- The stream of a reader task yielded a message. -/
  | received (conn : ConnId) (message : M)
  /-- The stream of a reader task ended. -/
  | ended (conn : ConnId)

inductive Act (Addr Key M : Type) where
  | event (source : Source Addr Key M)
  /-- `sink.send` of the head of the queue resolved. A failed flush may come after the sink
      took the message, so `accepted` is only settled by success. -/
  | wrote (conn : ConnId) (accepted : Bool) (outcome : Outcome)
  /-- The receiver of a writer task ran dry with no sender left. -/
  | drained (conn : ConnId)

namespace Runtime

variable {Addr Key M : Type}

/-- `oneshot::channel()`, when the caller wants an answer. -/
def oneshot (w : Runtime Addr Key M) (wanted : Bool) : Option Notifier × Runtime Addr Key M :=
  if wanted then (some w.oneshots, { w with oneshots := w.oneshots + 1 }) else (none, w)

def openConn (w : Runtime Addr Key M) : ConnId × Runtime Addr Key M :=
  (w.conns, { w with conns := w.conns + 1 })

/-- The event a source reports and the runtime the handler finds; `none` when the source
    has nothing to report. -/
def report (w : Runtime Addr Key M) :
    Source Addr Key M → Option (Event Addr Key M × Runtime Addr Key M)
  | .connectReq peer wanted =>
      let (notify, w) := w.oneshot wanted
      some (.outgoingConnectionReq peer notify, w)
  | .sendReq peer message wanted =>
      let (notifier, w) := w.oneshot wanted
      some (.sendMessageReq peer message notifier, w)
  | .inbound peer =>
      let (conn, w) := w.openConn
      some (.connectionEstablished peer conn, w)
  | .connected attempt => do
      let peer ← w.attempts.get attempt
      let (conn, w) := w.openConn
      some (.connectionEstablished peer conn, { w with attempts := w.attempts.remove attempt })
  | .failed attempt reason => do
      let peer ← w.attempts.get attempt
      some (.connectionFailed peer reason, { w with attempts := w.attempts.remove attempt })
  | .received conn message => do
      let peer ← w.readers.get conn
      some (.newIncomingMessage peer message, w)
  | .ended conn => do
      let peer ← w.readers.get conn
      some (.disconnected peer, { w with readers := w.readers.remove conn })

/-- The map holds the sender of this connection's queue. -/
def hasSender (w : Runtime Addr Key M) (key : Key) (conn : ConnId) : Bool :=
  match w.peers.get key with
  | some (.connected queue) => queue == conn
  | _ => false

/-- The writer loop of `spawn_outgoing_messages`: one message leaves the queue and its
    notifier hears the outcome. The sink converts one error; over the next one it panics, and
    the task is gone with the message and all that is left on its queue. -/
def wrote (w : Runtime Addr Key M) (conn : ConnId) (accepted : Bool) (outcome : Outcome) :
    Option (Runtime Addr Key M) :=
  match w.writers.get conn with
  | some ⟨peer, item :: rest, failed⟩ =>
      if outcome = .ok () ∧ accepted = false then none
      else
        let w := if accepted then
            { w with sinks := Function.update w.sinks conn (w.sinks conn ++ [item]) }
          else w
        if failed ∧ outcome ≠ .ok () then some { w with writers := w.writers.remove conn }
        else
          let w := { w with writers := w.writers.insert conn
                              ⟨peer, rest, failed || outcome ≠ .ok ()⟩ }
          match item.2 with
          | some notifier => some (w.answer notifier outcome)
          | none => some w
  | _ => none

/-- `receiver.next()` yields `None` once the queue is empty and no sender is left. -/
def drained (w : Runtime Addr Key M) (conn : ConnId) : Option (Runtime Addr Key M) :=
  match w.writers.get conn with
  | some ⟨peer, [], _⟩ =>
      if w.hasSender peer.id conn then none
      else some { w with writers := w.writers.remove conn }
  | _ => none

variable [DecidableEq Key]

/-- One step; `none` also when the handler panics. -/
def step (w : Runtime Addr Key M) : Act Addr Key M → Option (Runtime Addr Key M)
  | .event source => do
      let (event, w) ← w.report source
      w.handleEvent event
  | .wrote conn accepted outcome => w.wrote conn accepted outcome
  | .drained conn => w.drained conn

/-- The runs of the event loop. -/
abbrev Runs (ts : List (Transition (Runtime Addr Key M) (Act Addr Key M)))
    (w : Runtime Addr Key M) : Prop :=
  Run (fun w a w' => step w a = some w') init ts w

/-- The loop unwinds: the map is dropped, and whatever waits in it. -/
def unwound (w : Runtime Addr Key M) : Runtime Addr Key M := { w with peers := .empty }

/-- The handler panics over the event of a source, which is dropped, too. -/
inductive Panics (w : Runtime Addr Key M) : Act Addr Key M → Runtime Addr Key M → Prop where
  | intro {source event found} (reported : w.report source = some (event, found))
      (panics : found.handleEvent event = none) : Panics w (.event source) found.unwound

/-- The runs of the event loop, and those that end with a panic of the handler. -/
abbrev RunsOrPanics (ts : List (Transition (Runtime Addr Key M) (Act Addr Key M)))
    (w : Runtime Addr Key M) : Prop :=
  Halting (fun w a w' => step w a = some w') Panics init ts w

end Runtime

end Lindy.P2p
