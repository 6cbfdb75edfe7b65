import Lindy.Channel.Watched
import Lindy.P2p.Traffic

/-! # The server

What `server_bundle::start` joins together: the event loop and its tasks, the node with its
monitor, the HTTP handlers, and the message handler loop between them. Who works on the channel
manager holds its lock until the message that comes of it was sent, so the lock also waits for
the event loop and for the peer.

The future of an HTTP handler is dropped when its client hangs up, and its lock with it. So it
is when it panics, and nothing else stops; when the event loop or the message handler loop
panics `start` does, and with it everything else.
-/

namespace Lindy

open Bitcoin Machine P2p

variable {c : Crates} {Addr : Type}

/-- Who holds the lock of the channel manager while a message is sent. -/
inductive Caller where
  /-- The handler of `POST /channels`. -/
  | openChannel
  | messageHandlerLoop
  deriving DecidableEq

/-- A call of `Event::send_message` under the lock of the channel manager. -/
structure Sending (c : Crates) (Addr : Type) where
  caller : Caller
  peer : Peer Addr c.PeerId
  message : Message c
  /-- What it awaits, once the event loop took its request. -/
  notifier : Option Notifier

structure Server (c : Crates) (Addr : Type) where
  p2p : Runtime Addr c.PeerId (Message c)
  watched : Watched c
  /-- How many of the incoming messages the message handler loop has taken. -/
  handled : Nat
  sending : Option (Sending c Addr)
  /-- The `SendMessageReq`s on the event channel whose senders are gone, oldest first. -/
  orphaned : List (Peer Addr c.PeerId × Message c)
  /-- The event loop or the message handler loop panicked. -/
  stopped : Bool

namespace Server

def init : Server c Addr := ⟨.init, .init, 0, none, [], false⟩

inductive Act (c : Crates) (Addr : Type) where
  /-- The event loop and its tasks; `POST /peers` is one of the sources of its events. -/
  | p2p (act : P2p.Act Addr c.PeerId (Message c))
  /-- The monitor, and the tasks that wait for funding. -/
  | background (act : Watched.Act c)
  /-- `POST /channels`, with what the wallet will make of it. -/
  | openChannel (peer : Peer Addr c.PeerId) (value : UInt64) (wallet : Wallet c)
  /-- `PUT /channels/..` with `ForceClose`. -/
  | updateChannel (channelId : ChannelId) (entropy : c.Entropy)
  /-- The message handler loop takes the next message. -/
  | handle (entropy : c.Entropy)
  /-- The insert of the operation that holds the lock is done. -/
  | resume
  /-- The event loop takes the oldest `SendMessageReq`. -/
  | submit
  /-- The message was sent, or failed to be; the lock is released. -/
  | sent
  /-- The notifier of the message is gone, and the `expect` on it fails. -/
  | canceled
  /-- The client of `POST /channels` hangs up while the message of its channel is being sent;
      a request that is `queued` stays on the event channel. -/
  | hangUp (queued : Bool)
  /-- That of `PUT /channels/..` does while its insert is under way. -/
  | hangUpUpdate

/-- The message an operation leaves to send, to the peer it is for. -/
def send (s : Server c Addr) (caller : Caller) (peer : Peer Addr c.PeerId) :
    Reply c → Server c Addr
  | .ok (.send _ message) => { s with sending := some ⟨caller, peer, message, none⟩ }
  | _ => s

/-- `SendMessageReq` events come from the holders of the lock alone. -/
def isSend : P2p.Act Addr c.PeerId (Message c) → Bool
  | .event (.sendReq ..) => true
  | _ => false

/-- What the message handler loop makes of the reply to a message. -/
def replied (s : Server c Addr) (peer : Peer Addr c.PeerId) (reply : Reply c) :
    Server c Addr :=
  match reply with
  | .error .panic => { s with stopped := true }
  | reply => s.send .messageHandlerLoop peer reply

/-- No one can resolve the notifier any more. -/
def gone (w : Runtime Addr c.PeerId (Message c)) (peer : Peer Addr c.PeerId)
    (notifier : Notifier) : Bool :=
  w.answers notifier = [] ∧ notifier ∉ w.held (.inl peer.id) ∧
    ∀ conn ∈ List.range w.conns, notifier ∉ w.held (.inr conn)

/-- The oldest `SendMessageReq`, and the server once it is taken off the event channel. What the
    holder of the lock sends comes after all that was sent before. -/
def nextReq (s : Server c Addr) :
    Option ((Peer Addr c.PeerId × Message c) × Server c Addr) :=
  match s.orphaned, s.sending with
  | request :: orphaned, _ => some (request, { s with orphaned })
  | [], some ⟨caller, peer, message, none⟩ =>
      some ((peer, message),
        { s with sending := some ⟨caller, peer, message, some s.p2p.oneshots⟩ })
  | [], _ => none

def submit (s : Server c Addr) : Option (Server c Addr) := do
  let ((peer, message), left) ← s.nextReq
  match s.p2p.step (.event (.sendReq peer message true)) with
  | some p2p => some { left with p2p }
  | none => some { s with stopped := true }

def sent (s : Server c Addr) : Option (Server c Addr) :=
  match s.sending with
  | some ⟨_, _, _, some notifier⟩ =>
      if s.p2p.answers notifier = [] then none else some { s with sending := none }
  | _ => none

def canceled (s : Server c Addr) : Option (Server c Addr) :=
  match s.sending with
  | some ⟨caller, peer, _, some notifier⟩ =>
      if gone s.p2p peer notifier then
        some { s with sending := none, stopped := caller = .messageHandlerLoop }
      else none
  | _ => none

def hangUp (s : Server c Addr) (queued : Bool) : Option (Server c Addr) :=
  match s.sending with
  | some ⟨.openChannel, peer, message, none⟩ =>
      some { s with
        sending := none
        orphaned := if queued then s.orphaned ++ [(peer, message)] else s.orphaned }
  | some ⟨.openChannel, _, _, some _⟩ => some { s with sending := none }
  | _ => none

/-- One step of a server that goes on, with the reply of the node when it is one of the node. -/
def advance (n : Node c) (s : Server c Addr) :
    Act c Addr → Option (Option (Reply c) × Server c Addr)
  | .p2p a => if isSend a then none else (s.p2p.step a).map fun p2p => (none, { s with p2p })
  | .background (.node _) => none
  | .background a => do
      let (reply, watched) ← s.watched.step n a
      some (reply, { s with watched })
  | .openChannel peer value wallet => do
      if s.sending.isSome then none
      let (reply, watched) ← s.watched.node? n (.openChannel value peer.id wallet)
      some (some reply, { s with watched }.send .openChannel peer reply)
  | .updateChannel channelId entropy => do
      if s.sending.isSome then none
      let (reply, watched) ← s.watched.node? n (.updateChannel channelId entropy)
      some (some reply, { s with watched })
  | .handle entropy => do
      if s.sending.isSome then none
      let (peer, message) ← s.p2p.incoming[s.handled]?
      let (reply, watched) ← s.watched.node? n (.receive peer.id message entropy)
      some (some reply, { s with watched, handled := s.handled + 1 }.replied peer reply)
  | .resume => do
      let (reply, watched) ← s.watched.node? n .resume
      some (some reply, { s with watched })
  | .submit => s.submit.map (none, ·)
  | .sent => s.sent.map (none, ·)
  | .canceled => s.canceled.map (none, ·)
  | .hangUp queued => (s.hangUp queued).map (none, ·)
  | .hangUpUpdate => do
      let (reply, watched) ← s.watched.node? n .hangUp
      some (some reply, { s with watched })

def step (n : Node c) (s : Server c Addr) (a : Act c Addr) :
    Option (Option (Reply c) × Server c Addr) :=
  if s.stopped then none else s.advance n a

abbrev Step (c : Crates) (Addr : Type) :=
  Transition (Server c Addr) (Act c Addr × Option (Reply c))

/-- A server runs on from some moment. -/
abbrev RunsOn (n : Node c) (s : Server c Addr) (ts : List (Step c Addr)) (s' : Server c Addr) :
    Prop :=
  Run (fun s label s' => step n s label.1 = some (label.2, s')) s ts s'

abbrev Runs (n : Node c) (ts : List (Step c Addr)) (s : Server c Addr) : Prop :=
  RunsOn n .init ts s

/-- Perform a list of actions. -/
abbrev exec (n : Node c) (s : Server c Addr) (as : List (Act c Addr)) :
    Option (List (Step c Addr) × Server c Addr) :=
  execReplies (step n) s as

/-- Everything a step can do. -/
inductive Moved (n : Node c) (s : Server c Addr) :
    Act c Addr → Option (Reply c) → Server c Addr → Prop where
  | p2p {a w} (other : isSend a = false) (took : s.p2p.step a = some w) :
      Moved n s (.p2p a) none { s with p2p := w }
  | background {a reply w} (other : ∀ b, a ≠ .node b)
      (took : s.watched.step n a = some (reply, w)) :
      Moved n s (.background a) reply { s with watched := w }
  | openChannel {peer value wallet reply w} (free : s.sending = none)
      (took : s.watched.node? n (.openChannel value peer.id wallet) = some (reply, w)) :
      Moved n s (.openChannel peer value wallet) (some reply)
        ({ s with watched := w }.send .openChannel peer reply)
  | updateChannel {channelId entropy reply w} (free : s.sending = none)
      (took : s.watched.node? n (.updateChannel channelId entropy) = some (reply, w)) :
      Moved n s (.updateChannel channelId entropy) (some reply) { s with watched := w }
  | handle {entropy peer message reply w} (free : s.sending = none)
      (next : s.p2p.incoming[s.handled]? = some (peer, message))
      (took : s.watched.node? n (.receive peer.id message entropy) = some (reply, w)) :
      Moved n s (.handle entropy) (some reply)
        ({ s with watched := w, handled := s.handled + 1 }.replied peer reply)
  | resume {reply w} (took : s.watched.node? n .resume = some (reply, w)) :
      Moved n s .resume (some reply) { s with watched := w }
  | submit {peer message left w} (oldest : s.nextReq = some ((peer, message), left))
      (took : s.p2p.step (.event (.sendReq peer message true)) = some w) :
      Moved n s .submit none { left with p2p := w }
  | panics {peer message left} (oldest : s.nextReq = some ((peer, message), left))
      (deserted : s.p2p.Deserted peer.id) : Moved n s .submit none { s with stopped := true }
  | sent {caller peer message notifier}
      (waiting : s.sending = some ⟨caller, peer, message, some notifier⟩)
      (told : s.p2p.answers notifier ≠ []) : Moved n s .sent none { s with sending := none }
  | canceled {caller peer message notifier}
      (waiting : s.sending = some ⟨caller, peer, message, some notifier⟩)
      (lost : gone s.p2p peer notifier = true) :
      Moved n s .canceled none
        { s with sending := none, stopped := caller = .messageHandlerLoop }
  | withdrawn {queued peer message}
      (waiting : s.sending = some ⟨.openChannel, peer, message, none⟩) :
      Moved n s (.hangUp queued) none { s with
        sending := none
        orphaned := if queued then s.orphaned ++ [(peer, message)] else s.orphaned }
  | unheard {queued peer message notifier}
      (waiting : s.sending = some ⟨.openChannel, peer, message, some notifier⟩) :
      Moved n s (.hangUp queued) none { s with sending := none }
  | hangUpUpdate {reply w} (took : s.watched.node? n .hangUp = some (reply, w)) :
      Moved n s .hangUpUpdate (some reply) { s with watched := w }

variable {n : Node c} {s s' : Server c Addr} {a : Act c Addr} {reply : Option (Reply c)}

/-- The oldest request is one whose sender is gone, or that of the holder of the lock. -/
theorem nextReq_cases {peer : Peer Addr c.PeerId} {message : Message c} {left : Server c Addr}
    (oldest : s.nextReq = some ((peer, message), left)) :
    (∃ rest, s.orphaned = (peer, message) :: rest ∧ left = { s with orphaned := rest }) ∨
      ∃ caller, s.orphaned = [] ∧ s.sending = some ⟨caller, peer, message, none⟩ ∧
        left = { s with sending := some ⟨caller, peer, message, some s.p2p.oneshots⟩ } := by
  unfold nextReq at oldest
  split at oldest
  · rename_i request rest queued
    obtain ⟨rfl, rfl⟩ := Prod.mk.inj (Option.some.inj oldest)
    exact .inl ⟨rest, queued, rfl⟩
  · rename_i caller peer message queued waiting
    obtain ⟨same, rfl⟩ := Prod.mk.inj (Option.some.inj oldest)
    obtain ⟨rfl, rfl⟩ := Prod.mk.inj same
    exact .inr ⟨caller, queued, waiting, rfl⟩
  · cases oldest

theorem submit_moved (took : s.submit = some s') : Moved n s .submit none s' := by
  simp only [submit, Option.bind_eq_bind, Option.bind_eq_some_iff, Prod.exists] at took
  obtain ⟨peer, message, left, oldest, took⟩ := took
  split at took
  · rename_i w stepped
    obtain rfl := Option.some.inj took
    exact .submit oldest stepped
  · rename_i panics
    obtain rfl := Option.some.inj took
    exact .panics oldest (Runtime.step_send_eq_none.mp panics)

theorem sent_moved (took : s.sent = some s') : Moved n s .sent none s' := by
  unfold sent at took
  split at took
  · rename_i waiting
    obtain ⟨told, same⟩ := Option.ite_none_left_eq_some.mp took
    obtain rfl := Option.some.inj same
    exact .sent waiting told
  · cases took

theorem canceled_moved (took : s.canceled = some s') : Moved n s .canceled none s' := by
  unfold canceled at took
  split at took
  · rename_i waiting
    obtain ⟨lost, same⟩ := Option.ite_none_right_eq_some.mp took
    obtain rfl := Option.some.inj same
    exact .canceled waiting lost
  · cases took

theorem hangUp_moved {queued : Bool} (took : s.hangUp queued = some s') :
    Moved n s (.hangUp queued) none s' := by
  unfold hangUp at took
  split at took
  · rename_i waiting
    obtain rfl := Option.some.inj took
    exact .withdrawn waiting
  · rename_i waiting
    obtain rfl := Option.some.inj took
    exact .unheard waiting
  · cases took

theorem advance_moved (took : s.advance n a = some (reply, s')) : Moved n s a reply s' := by
  cases a with
  | p2p a =>
      obtain ⟨other, done⟩ := Option.ite_none_left_eq_some.mp took
      simp only [Option.map_eq_some_iff, Prod.mk.injEq] at done
      obtain ⟨w, stepped, rfl, rfl⟩ := done
      exact .p2p (by simpa using other) stepped
  | background a =>
      cases a with
      | node => cases took
      | _ =>
          simp only [advance, Option.bind_eq_bind, Option.bind_eq_some_iff, Prod.exists,
            Option.some.injEq, Prod.mk.injEq] at took
          obtain ⟨reply, w, took, rfl, rfl⟩ := took
          exact .background (by simp) took
  | openChannel peer value wallet =>
      obtain ⟨free, done⟩ := Option.ite_none_left_eq_some.mp took
      simp only [Option.bind_eq_bind, Option.bind_eq_some_iff, Prod.exists,
        Option.some.injEq, Prod.mk.injEq] at done
      obtain ⟨reply, w, stepped, rfl, rfl⟩ := done
      exact .openChannel (by simpa using free) stepped
  | updateChannel channelId entropy =>
      obtain ⟨free, done⟩ := Option.ite_none_left_eq_some.mp took
      simp only [Option.bind_eq_bind, Option.bind_eq_some_iff, Prod.exists,
        Option.some.injEq, Prod.mk.injEq] at done
      obtain ⟨reply, w, stepped, rfl, rfl⟩ := done
      exact .updateChannel (by simpa using free) stepped
  | handle entropy =>
      obtain ⟨free, done⟩ := Option.ite_none_left_eq_some.mp took
      simp only [Option.bind_eq_bind, Option.bind_eq_some_iff, Prod.exists,
        Option.some.injEq, Prod.mk.injEq] at done
      obtain ⟨peer, message, next, reply, w, stepped, rfl, rfl⟩ := done
      exact .handle (by simpa using free) next stepped
  | resume =>
      simp only [advance, Option.bind_eq_bind, Option.bind_eq_some_iff, Prod.exists,
        Option.some.injEq, Prod.mk.injEq] at took
      obtain ⟨reply, w, took, rfl, rfl⟩ := took
      exact .resume took
  | submit =>
      simp only [advance, Option.map_eq_some_iff, Prod.mk.injEq] at took
      obtain ⟨s', took, rfl, rfl⟩ := took
      exact submit_moved took
  | sent =>
      simp only [advance, Option.map_eq_some_iff, Prod.mk.injEq] at took
      obtain ⟨s', took, rfl, rfl⟩ := took
      exact sent_moved took
  | canceled =>
      simp only [advance, Option.map_eq_some_iff, Prod.mk.injEq] at took
      obtain ⟨s', took, rfl, rfl⟩ := took
      exact canceled_moved took
  | hangUp queued =>
      simp only [advance, Option.map_eq_some_iff, Prod.mk.injEq] at took
      obtain ⟨s', took, rfl, rfl⟩ := took
      exact hangUp_moved took
  | hangUpUpdate =>
      simp only [advance, Option.bind_eq_bind, Option.bind_eq_some_iff, Prod.exists,
        Option.some.injEq, Prod.mk.injEq] at took
      obtain ⟨reply, w, took, rfl, rfl⟩ := took
      exact .hangUpUpdate took

theorem step_moved (took : s.step n a = some (reply, s')) :
    s.stopped = false ∧ Moved n s a reply s' := by
  obtain ⟨going, took⟩ := Option.ite_none_left_eq_some.mp took
  exact ⟨by simpa using going, advance_moved took⟩

end Server

end Lindy
