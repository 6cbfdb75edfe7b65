import Lindy.Channel.Network
import Lindy.Server

/-! # The parts of a server

In every run of a server, its event loop and its node do runs of their own, so what holds of all
of their runs holds inside of every server. Between the two nothing is made up or moved past
anything else: the node is given the messages the event loop received, and the event loop the
messages the node sends. Only a client that hangs up too early takes its message along.
-/

namespace Lindy

open Bitcoin Machine P2p P2p.Runtime

variable {c : Crates} {Addr : Type}

/-- The message a step of a node takes, and from whom. -/
def Node.received? (t : Transition (NodeState c) (Act c × Reply c)) :
    Option (c.PeerId × Message c) :=
  match t.act.1 with
  | .receive peer message _ => some (peer, message)
  | _ => none

/-- The message a step of a node sends, and to whom. -/
def Node.sent? (t : Transition (NodeState c) (Act c × Reply c)) :
    Option (c.PeerId × Message c) :=
  Reply.sends t.act.2

namespace Watched

/-- The same with the monitor taken apart. -/
def received? (t : Step c) : Option (c.PeerId × Message c) :=
  match t.act with
  | (.node (.receive peer message _), some _) => some (peer, message)
  | _ => none

def sent? (t : Step c) : Option (c.PeerId × Message c) := t.act.2.bind Reply.sends

theorem node?_step {n : Node c} {w w' : Watched c} {a : Lindy.Act c} {reply : Reply c}
    (took : w.node? n a = some (reply, w')) (other : isPoll a = false) :
    step n w (.node a) = some (some reply, w') := by
  rw [step, other, took]
  rfl

/-- Nor has it any part in what holds the lock. -/
theorem background_suspended {n : Node c} {w w' : Watched c} {a : Act c}
    {reply : Option (Reply c)} (other : ∀ b, a ≠ .node b)
    (took : step n w a = some (reply, w')) : w'.node.suspended = w.node.suspended := by
  cases step_moved took with
  | node => exact absurd rfl (other _)
  | ask | monitor => rfl
  | wake waiting calling answered tasks suspended => exact suspended

theorem node?_node {n : Node c} {w w' : Watched c} {a : Lindy.Act c} {reply : Reply c}
    (took : w.node? n a = some (reply, w')) : n.step w.node a = some (reply, w'.node) := by
  simp only [node?, Option.bind_eq_bind, Option.bind_eq_some_iff, Prod.exists,
    Option.some.injEq, Prod.mk.injEq] at took
  obtain ⟨reply', s, took, rfl, rfl⟩ := took
  exact took

/-- Neither the monitor nor a task that wakes up takes a message or sends one. -/
theorem background_quiet {n : Node c} {w w' : Watched c} {a : Act c} {reply : Option (Reply c)}
    (other : ∀ b, a ≠ .node b) (took : step n w a = some (reply, w')) :
    received? ⟨w, (a, reply), w'⟩ = none ∧ sent? ⟨w, (a, reply), w'⟩ = none := by
  cases step_moved took with
  | node => exact absurd rfl (other _)
  | ask | monitor => exact ⟨rfl, rfl⟩
  | wake waiting calling answered tasks suspended silent => exact ⟨rfl, silent⟩

variable {t : Step c} {u : Transition (NodeState c) (Lindy.Act c × Reply c)}

theorem Shows.received? (shows : Shows t u) : Node.received? u = Watched.received? t := by
  cases shows with
  | @node a reply other act same =>
      subst same
      cases a <;> simp [Node.received?, Watched.received?, act]
  | @wake i now reply act same =>
      subst same
      simp [Node.received?, Watched.received?, act]

theorem Shows.sent? (shows : Shows t u) : Node.sent? u = Watched.sent? t := by
  cases shows with
  | node other act same | wake act same =>
      subst same
      simp [Node.sent?, Watched.sent?, act]

theorem quiet_received? (t : Step c) (quiet : t.act.2.isSome = false) :
    Watched.received? t = none := by
  rw [Option.isSome_eq_false_iff, Option.isNone_iff_eq_none] at quiet
  unfold Watched.received?
  split
  · rename_i act
    rw [act] at quiet
    cases quiet
  · rfl

theorem quiet_sent? (t : Step c) (quiet : t.act.2.isSome = false) : Watched.sent? t = none := by
  rw [Option.isSome_eq_false_iff, Option.isNone_iff_eq_none] at quiet
  rw [Watched.sent?, quiet]
  rfl

end Watched

/-- What a step of a node sends goes to the peer it was done for, and what holds the lock
    afterwards is not the node. -/
theorem Effect.sends_free {n : Node c} {s s' : NodeState c} {a : Act c} {reply : Reply c}
    (took : Effect n s a reply s') {peer : c.PeerId} {message : Message c}
    (sent : Reply.sends reply = some (peer, message)) :
    s'.suspended = s.suspended ∧ ((∃ value wallet, a = .openChannel value peer wallet) ∨
      ∃ offer entropy, a = .receive peer (.rsEcdsaNewChannel offer) entropy) := by
  refine ⟨?_, ?_⟩
  · cases took with
    | checked | closing | acked | closed | abandoned => cases sent
    | _ => rfl
  · rcases took.sends_cases sent with ⟨value, wallet, _, _, _, act, -⟩ |
      ⟨offer, entropy, _, _, act, -⟩
    · exact .inl ⟨value, wallet, act⟩
    · exact .inr ⟨offer, entropy, act⟩

/-- What does not need the lock leaves it free. -/
theorem Effect.stays_free {n : Node c} {s s' : NodeState c} {a : Act c} {reply : Reply c}
    (took : Effect n s a reply s') (idle : a.locks = false) (free : s.suspended = none) :
    s'.suspended = none := by
  cases took with
  | checked | closing => cases idle
  | acked | closed | abandoned => rfl
  | _ => exact free

/-- Nor does it send anything. -/
theorem Effect.silent {n : Node c} {s s' : NodeState c} {a : Act c} {reply : Reply c}
    (took : Effect n s a reply s')
    (quiet : (∀ value peer wallet, a ≠ .openChannel value peer wallet) ∧
      ∀ peer message entropy, a ≠ .receive peer message entropy) : Reply.sends reply = none := by
  by_contra sends
  obtain ⟨⟨peer, message⟩, sends⟩ := Option.ne_none_iff_exists'.mp sends
  rcases (took.sends_free sends).2 with ⟨value, wallet, rfl⟩ | ⟨offer, entropy, rfl⟩
  · exact quiet.1 _ _ _ rfl
  · exact quiet.2 _ _ _ rfl

namespace Server

/-- A message as the node knows it, without the address of its peer. -/
def plain (pair : Peer Addr c.PeerId × Message c) : c.PeerId × Message c := (pair.1.id, pair.2)

/-- What waits for the event loop, oldest first. -/
def requests (s : Server c Addr) : List (Peer Addr c.PeerId × Message c) :=
  s.orphaned ++
    match s.sending with
    | some ⟨_, peer, message, none⟩ => [(peer, message)]
    | _ => []

def unsubmitted (s : Server c Addr) : List (c.PeerId × Message c) := s.requests.map plain

/-- What a step of the server is to the event loop. -/
def Act.event? (s : Server c Addr) :
    Act c Addr → Option (P2p.Act Addr c.PeerId (Message c))
  | .p2p a => some a
  | .submit => do
      let ((peer, message), _) ← s.nextReq
      let request := .event (.sendReq peer message true)
      if (s.p2p.step request).isSome then some request else none
  | _ => none

/-- What it is to the node and its monitor. -/
def Act.operation? (s : Server c Addr) : Act c Addr → Option (Watched.Act c)
  | .background a => some a
  | .openChannel peer value wallet => some (.node (.openChannel value peer.id wallet))
  | .updateChannel channelId entropy => some (.node (.updateChannel channelId entropy))
  | .handle entropy => s.p2p.incoming[s.handled]?.map fun (peer, message) =>
      .node (.receive peer.id message entropy)
  | .resume => some (.node .resume)
  | .hangUpUpdate => some (.node .hangUp)
  | _ => none

/-- The step of the event loop in a step of the server. -/
def p2pSteps (t : Step c Addr) : List (P2p.Step Addr c.PeerId (Message c)) :=
  (t.act.1.event? t.pre).toList.map fun a => ⟨t.pre.p2p, a, t.post.p2p⟩

/-- The step of the node and its monitor. -/
def watchedSteps (t : Step c Addr) : List (Watched.Step c) :=
  (t.act.1.operation? t.pre).toList.map fun a => ⟨t.pre.watched, (a, t.act.2), t.post.watched⟩

/-- A request of `Event::send_message`, without what it is answered on. -/
def asked (request : c.PeerId × Item (Message c)) : c.PeerId × Message c :=
  (request.1, request.2.1)

variable {n : Node c} {s s' : Server c Addr} {a : Act c Addr} {reply : Option (Reply c)}

/-- A client hangs up before its message was put on the event channel. -/
def withdraws (t : Step c Addr) : Bool :=
  match t.act.1, t.pre.sending with
  | .hangUp false, some ⟨_, _, _, none⟩ => true
  | _, _ => false

/-- Nothing else of the server is touched. -/
theorem send_keeps (s : Server c Addr) (caller : Caller) (peer : Peer Addr c.PeerId)
    (reply : Reply c) : (s.send caller peer reply).p2p = s.p2p ∧
      (s.send caller peer reply).watched = s.watched ∧
      (s.send caller peer reply).handled = s.handled ∧
      (s.send caller peer reply).orphaned = s.orphaned := by
  rcases reply with failure | output
  · exact ⟨rfl, rfl, rfl, rfl⟩
  · cases output <;> exact ⟨rfl, rfl, rfl, rfl⟩

theorem unsubmitted_send {s : Server c Addr} (free : s.sending = none) (caller : Caller)
    {peer : Peer Addr c.PeerId} {reply : Reply c}
    (addressed : ∀ {key message}, Reply.sends reply = some (key, message) → key = peer.id) :
    (s.send caller peer reply).unsubmitted = s.unsubmitted ++ (Reply.sends reply).toList := by
  rcases reply with failure | output
  · simp [send, Reply.sends, unsubmitted, requests, free]
  · cases output with
    | send key message =>
        obtain rfl := addressed rfl
        simp [send, Reply.sends, unsubmitted, requests, free, plain]
    | _ => simp [send, Reply.sends, unsubmitted, requests, free]

/-- Who waits for a message to be sent does so from the beginning. -/
theorem sending_send {s : Server c Addr} (free : s.sending = none) {caller : Caller}
    {peer : Peer Addr c.PeerId} {reply : Reply c} {sending : Sending c Addr}
    (waits : (s.send caller peer reply).sending = some sending) :
    (Reply.sends reply).isSome ∧ sending.notifier = none := by
  rcases reply with failure | output
  · simp [send, free] at waits
  · cases output with
    | send =>
        obtain rfl := Option.some.inj waits
        exact ⟨rfl, rfl⟩
    | _ => simp [send, free] at waits

/-- The message handler loop sends the message of an operation that did not panic. -/
theorem replied_cases (s : Server c Addr) (peer : Peer Addr c.PeerId) (reply : Reply c) :
    s.replied peer reply = s.send .messageHandlerLoop peer reply ∨
      (reply = .error .panic ∧ s.replied peer reply = { s with stopped := true }) := by
  rcases reply with failure | output
  · cases failure with
    | panic => exact .inr ⟨rfl, rfl⟩
    | _ => exact .inl rfl
  · exact .inl rfl

theorem replied_keeps (s : Server c Addr) (peer : Peer Addr c.PeerId) (reply : Reply c) :
    (s.replied peer reply).p2p = s.p2p ∧ (s.replied peer reply).watched = s.watched ∧
      (s.replied peer reply).handled = s.handled ∧
      (s.replied peer reply).orphaned = s.orphaned := by
  rcases s.replied_cases peer reply with same | ⟨-, same⟩ <;> rw [same]
  · exact s.send_keeps .messageHandlerLoop peer reply
  · exact ⟨rfl, rfl, rfl, rfl⟩

theorem sending_replied {s : Server c Addr} (free : s.sending = none)
    {peer : Peer Addr c.PeerId} {reply : Reply c} {sending : Sending c Addr}
    (waits : (s.replied peer reply).sending = some sending) :
    (Reply.sends reply).isSome ∧ sending.notifier = none := by
  rcases s.replied_cases peer reply with same | ⟨-, same⟩ <;> rw [same] at waits
  · exact sending_send free waits
  · cases free.symm.trans waits

theorem unsubmitted_replied {s : Server c Addr} (free : s.sending = none)
    {peer : Peer Addr c.PeerId} {reply : Reply c}
    (addressed : ∀ {key message}, Reply.sends reply = some (key, message) → key = peer.id) :
    (s.replied peer reply).unsubmitted = s.unsubmitted ++ (Reply.sends reply).toList := by
  rcases s.replied_cases peer reply with same | ⟨rfl, same⟩ <;> rw [same]
  · exact unsubmitted_send free _ addressed
  · exact (List.append_nil _).symm

/-- The oldest request comes first. -/
theorem requests_nextReq {peer : Peer Addr c.PeerId} {message : Message c}
    {left : Server c Addr} (oldest : s.nextReq = some ((peer, message), left)) :
    s.requests = (peer, message) :: left.requests := by
  rcases nextReq_cases oldest with ⟨rest, queued, rfl⟩ | ⟨caller, queued, waiting, rfl⟩
  · simp [requests, queued]
  · simp [requests, queued, waiting]

/-- The event loop that panics over the oldest request takes no step. -/
theorem p2pSteps_panics {peer : Peer Addr c.PeerId} {message : Message c} {left : Server c Addr}
    (oldest : s.nextReq = some ((peer, message), left)) (deserted : s.p2p.Deserted peer.id) :
    p2pSteps ⟨s, (.submit, reply), s'⟩ = [] := by
  have panics : s.p2p.step (.event (.sendReq peer message true)) = none :=
    step_send_eq_none.mpr deserted
  simp [p2pSteps, Act.event?, oldest, panics]

/-- The message of a step is for the peer the step was done for. -/
theorem addressed_openChannel {w w' : Watched c} {peer : Peer Addr c.PeerId} {value : UInt64}
    {wallet : Wallet c} {reply : Reply c}
    (took : w.node? n (.openChannel value peer.id wallet) = some (reply, w')) {key : c.PeerId}
    {message : Message c} (sends : Reply.sends reply = some (key, message)) : key = peer.id := by
  rcases ((Node.step_effect (Watched.node?_node took)).sends_free sends).2 with
    ⟨_, _, act⟩ | ⟨_, _, act⟩ <;> cases act
  rfl

theorem addressed_receive {w w' : Watched c} {peer : c.PeerId} {message : Message c}
    {entropy : c.Entropy} {reply : Reply c}
    (took : w.node? n (.receive peer message entropy) = some (reply, w')) {key : c.PeerId}
    {answer : Message c} (sends : Reply.sends reply = some (key, answer)) : key = peer := by
  rcases ((Node.step_effect (Watched.node?_node took)).sends_free sends).2 with
    ⟨_, _, act⟩ | ⟨_, _, act⟩ <;> cases act
  rfl

/-- Nothing is sent, and nothing handed over. -/
theorem handed_nothing (submitted : sendReqs (p2pSteps ⟨s, (a, reply), s'⟩) = [])
    (said : (watchedSteps ⟨s, (a, reply), s'⟩).filterMap Watched.sent? = [])
    (same : s'.unsubmitted = s.unsubmitted) :
    s.unsubmitted ++ (watchedSteps ⟨s, (a, reply), s'⟩).filterMap Watched.sent? =
      (sendReqs (p2pSteps ⟨s, (a, reply), s'⟩)).map asked ++ s'.unsubmitted := by
  rw [submitted, said, same, List.append_nil, List.map_nil, List.nil_append]

/-- What waits for the event loop is handed to it in the order in which it was sent. A client
    that hangs up takes the last of it back. -/
theorem Moved.handed (moved : Moved n s a reply s') :
    (withdraws ⟨s, (a, reply), s'⟩ = false ∧
      s.unsubmitted ++ (watchedSteps ⟨s, (a, reply), s'⟩).filterMap Watched.sent? =
        (sendReqs (p2pSteps ⟨s, (a, reply), s'⟩)).map asked ++ s'.unsubmitted) ∨
    (withdraws ⟨s, (a, reply), s'⟩ = true ∧ p2pSteps ⟨s, (a, reply), s'⟩ = [] ∧
      watchedSteps ⟨s, (a, reply), s'⟩ = [] ∧
      ∃ lost, s.unsubmitted = s'.unsubmitted ++ [lost]) := by
  cases moved with
  | @p2p b w other took =>
      have quiet : Runtime.sent? ⟨s.p2p, b, w⟩ = none := by
        rcases b with source | _ | _
        · cases source <;> first | rfl | cases other
        · rfl
        · rfl
      exact .inl ⟨rfl, handed_nothing (by simp [p2pSteps, Act.event?, sendReqs, quiet]) rfl rfl⟩
  | @background b reply w other took =>
      have quiet := (Watched.background_quiet other took).2
      exact .inl ⟨rfl, handed_nothing rfl (by simp [watchedSteps, Act.operation?, quiet]) rfl⟩
  | @openChannel peer value wallet reply w free took =>
      let left : Server c Addr := { s with watched := w }
      have sends := unsubmitted_send (s := left) free .openChannel (addressed_openChannel took)
      refine .inl ⟨rfl, ?_⟩
      rw [sends]
      cases sent : Reply.sends reply <;>
        simp [watchedSteps, p2pSteps, Act.event?, Act.operation?, sendReqs, unsubmitted, requests,
          Watched.sent?, sent, left]
  | @handle entropy peer message reply w free next took =>
      let left : Server c Addr := { s with watched := w, handled := s.handled + 1 }
      have sends := unsubmitted_replied (s := left) free (addressed_receive took)
      refine .inl ⟨rfl, ?_⟩
      rw [sends]
      cases sent : Reply.sends reply <;>
        simp [watchedSteps, p2pSteps, Act.event?, Act.operation?, sendReqs, unsubmitted, requests,
          next, Watched.sent?, sent, left]
  | @updateChannel channelId entropy reply w free took | @resume reply w took
  | @hangUpUpdate reply w took =>
      have quiet := (Node.step_effect (Watched.node?_node took)).silent (by simp)
      refine .inl ⟨rfl, handed_nothing rfl ?_ rfl⟩
      simp [watchedSteps, Act.operation?, Watched.sent?, quiet]
  | @submit peer message left w oldest took =>
      have same : ({ left with p2p := w } : Server c Addr).unsubmitted = left.unsubmitted := rfl
      refine .inl ⟨rfl, ?_⟩
      rw [same, unsubmitted, requests_nextReq oldest]
      simp [unsubmitted, requests, plain, watchedSteps, p2pSteps, Act.event?, Act.operation?,
        sendReqs, oldest, took, Runtime.sent?, asked]
  | @panics peer message left oldest deserted =>
      exact .inl ⟨rfl, handed_nothing (by rw [p2pSteps_panics oldest deserted]; rfl) rfl rfl⟩
  | sent waiting | canceled waiting =>
      exact .inl ⟨rfl, handed_nothing rfl rfl (by simp [unsubmitted, requests, waiting])⟩
  | @withdrawn queued peer message waiting =>
      cases queued with
      | true => exact .inl ⟨rfl, handed_nothing rfl rfl (by simp [unsubmitted, requests, waiting])⟩
      | false =>
          refine .inr ⟨by simp [withdraws, waiting], rfl, rfl, (peer.id, message), ?_⟩
          simp [unsubmitted, requests, waiting, plain]
  | @unheard queued peer message notifier waiting =>
      refine .inl ⟨by cases queued <;> simp [withdraws, waiting], handed_nothing rfl rfl ?_⟩
      simp [unsubmitted, requests, waiting]

/-- The event loop and the node of a server do runs of their own. -/
structure Parts (n : Node c) (s : Server c Addr)
    (us : List (P2p.Step Addr c.PeerId (Message c))) (vs : List (Watched.Step c)) : Prop where
  p2p : Runtime.Runs us s.p2p
  watched : Watched.Runs n vs s.watched
  handled : s.handled ≤ s.p2p.incoming.length
  received : vs.filterMap Watched.received? = (s.p2p.incoming.take s.handled).map plain
  /-- One holder of the lock at a time. -/
  alone : s.sending.isSome → s.watched.node.suspended = none
  /-- What was sent before was submitted before. -/
  foremost : ∀ {sending}, s.sending = some sending → sending.notifier ≠ none → s.orphaned = []

/-- How the runs of the two fit together. -/
structure Glued (n : Node c) (s : Server c Addr)
    (us : List (P2p.Step Addr c.PeerId (Message c))) (vs : List (Watched.Step c)) : Prop
    extends Parts n s us vs where
  sent : ((sendReqs us).map asked ++ s.unsubmitted).Sublist (vs.filterMap Watched.sent?)

theorem Glued.init : Glued n (.init : Server c Addr) [] [] where
  p2p := .nil
  watched := .nil
  handled := Nat.le_refl _
  received := rfl
  alone := fun _ => rfl
  foremost := fun _ _ => rfl
  sent := .refl _

namespace Parts

variable {us : List (P2p.Step Addr c.PeerId (Message c))} {vs : List (Watched.Step c)}

theorem received_snoc (t : Watched.Step c) :
    (vs ++ [t]).filterMap Watched.received? =
      vs.filterMap Watched.received? ++ (Watched.received? t).toList := by
  rw [List.filterMap_append, List.filterMap_cons, List.filterMap_nil]
  cases Watched.received? t <;> rfl

/-- The event loop goes on. -/
theorem event (h : Parts n s us vs) {b : P2p.Act Addr c.PeerId (Message c)}
    (took : s.p2p.step b = some s'.p2p) (watched : s'.watched = s.watched)
    (handled : s'.handled = s.handled) (alone : s'.sending.isSome → s.sending.isSome)
    (foremost : ∀ {sending}, s'.sending = some sending → sending.notifier ≠ none →
      s'.orphaned = []) :
    Parts n s' (us ++ [⟨s.p2p, b, s'.p2p⟩]) vs where
  p2p := h.p2p.snoc took
  watched := watched ▸ h.watched
  handled := by
    rw [handled, step_incoming took, List.length_append]
    exact Nat.le_add_right_of_le h.handled
  received := by
    rw [handled, step_incoming took, List.take_append_of_le_length h.handled]
    exact h.received
  alone := fun held => watched ▸ h.alone (alone held)
  foremost := foremost

/-- The node does something that needs the lock. -/
theorem operated (h : Parts n s us vs) {op : Lindy.Act c} {reply : Reply c}
    (locks : op.locks = true) (took : s.watched.node? n op = some (reply, s'.watched))
    (p2p : s'.p2p = s.p2p) (handled : s'.handled ≤ s.p2p.incoming.length)
    (received : (s.p2p.incoming.take s.handled).map plain ++
      (Watched.received? ⟨s.watched, (.node op, some reply), s'.watched⟩).toList =
      (s.p2p.incoming.take s'.handled).map plain)
    (waits : ∀ {sending}, s'.sending = some sending →
      (Reply.sends reply).isSome ∧ sending.notifier = none) :
    Parts n s' us (vs ++ [⟨s.watched, (.node op, some reply), s'.watched⟩]) where
  p2p := p2p ▸ h.p2p
  watched := by
    have other : Watched.isPoll op = false := by cases op <;> first | rfl | cases locks
    exact h.watched.snoc (Watched.node?_step took other)
  handled := p2p ▸ handled
  received := by
    rw [received_snoc, h.received, p2p, received]
  alone := by
    intro held
    obtain ⟨sending, held⟩ := Option.isSome_iff_exists.mp held
    obtain ⟨⟨key, message⟩, sends⟩ := Option.isSome_iff_exists.mp (waits held).1
    have stepped := Watched.node?_node took
    rw [((Node.step_effect stepped).sends_free sends).1]
    exact (Node.step_eq_some.mp stepped).1 locks
  foremost := fun held submitted => absurd (waits held).2 submitted

/-- Something that does not need the lock, and leaves the event loop alone. -/
theorem background (h : Parts n s us vs) {b : Watched.Act c} {w : Watched c}
    (took : s.watched.step n b = some (reply, w))
    (received : Watched.received? ⟨s.watched, (b, reply), w⟩ = none)
    (alone : s.watched.node.suspended = none → w.node.suspended = none) :
    Parts n { s with watched := w } us (vs ++ [⟨s.watched, (b, reply), w⟩]) where
  p2p := h.p2p
  watched := h.watched.snoc took
  handled := h.handled
  received := by
    rw [received_snoc, received, Option.toList_none, List.append_nil]
    exact h.received
  alone := fun held => alone (h.alone held)
  foremost := h.foremost

/-- The lock is released. -/
theorem released (h : Parts n s us vs) (orphaned : List (Peer Addr c.PeerId × Message c))
    (stopped : Bool) : Parts n { s with sending := none, orphaned, stopped } us vs where
  p2p := h.p2p
  watched := h.watched
  handled := h.handled
  received := h.received
  alone := fun held => by cases held
  foremost := fun held => by cases held

/-- Nothing is left to submit once the holder of the lock has. -/
theorem nextReq (h : Parts n s us vs) {caller : Caller} {peer : Peer Addr c.PeerId}
    {message : Message c} {notifier : Notifier}
    (waiting : s.sending = some ⟨caller, peer, message, some notifier⟩) : s.nextReq = none := by
  simp [Server.nextReq, h.foremost waiting nofun, waiting]

/-- Each step of the server is one of the event loop, one of the node, or of neither. -/
theorem step (h : Parts n s us vs) (moved : Moved n s a reply s') :
    Parts n s' (us ++ p2pSteps ⟨s, (a, reply), s'⟩) (vs ++ watchedSteps ⟨s, (a, reply), s'⟩) := by
  cases moved with
  | @p2p b w other took =>
      have went : Parts n { s with p2p := w } (us ++ [⟨s.p2p, b, w⟩]) vs :=
        h.event took rfl rfl id h.foremost
      simpa [p2pSteps, watchedSteps, Act.event?, Act.operation?] using went
  | @background b reply w other took =>
      have went := h.background took (Watched.background_quiet other took).1
        (Watched.background_suspended other took).trans
      simpa [p2pSteps, watchedSteps, Act.event?, Act.operation?] using went
  | @openChannel peer value wallet reply w free took =>
      let left : Server c Addr := { s with watched := w }
      obtain ⟨p2p, watched, handled, -⟩ := left.send_keeps .openChannel peer reply
      have took' : s.watched.node? n (.openChannel value peer.id wallet) =
          some (reply, (left.send .openChannel peer reply).watched) := by rw [watched, took]
      have went := h.operated rfl took' p2p (handled.symm ▸ h.handled)
        (by rw [handled]; exact List.append_nil _) (sending_send (s := left) free)
      simpa [p2pSteps, watchedSteps, Act.event?, Act.operation?] using went
  | @updateChannel channelId entropy reply w free took =>
      have went : Parts n { s with watched := w } us (vs ++
          [⟨s.watched, (.node (.updateChannel channelId entropy), some reply), w⟩]) :=
        h.operated rfl took rfl h.handled (List.append_nil _)
          fun held => by cases free.symm.trans held
      simpa [p2pSteps, watchedSteps, Act.event?, Act.operation?] using went
  | @handle entropy peer message reply w free next took =>
      obtain ⟨inside, found⟩ := List.getElem?_eq_some_iff.mp next
      have taken : (s.p2p.incoming.take s.handled).map plain ++ [(peer.id, message)] =
          (s.p2p.incoming.take (s.handled + 1)).map plain := by
        rw [List.take_succ_eq_append_getElem inside, List.map_append, found]
        rfl
      let left : Server c Addr := { s with watched := w, handled := s.handled + 1 }
      obtain ⟨p2p, watched, handled, -⟩ := left.replied_keeps peer reply
      have took' : s.watched.node? n (.receive peer.id message entropy) =
          some (reply, (left.replied peer reply).watched) := by rw [watched, took]
      have went := h.operated rfl took' p2p (handled.symm ▸ inside) (by rw [handled]; exact taken)
        (sending_replied (s := left) free)
      simpa [p2pSteps, watchedSteps, Act.event?, Act.operation?, next] using went
  | @resume reply w took | @hangUpUpdate reply w took =>
      have effect := Node.step_effect (Watched.node?_node took)
      have went := h.background (Watched.node?_step took rfl) rfl (effect.stays_free rfl)
      simpa [p2pSteps, watchedSteps, Act.event?, Act.operation?] using went
  | @submit peer message left w oldest took =>
      have went : Parts n { left with p2p := w }
          (us ++ [⟨s.p2p, .event (.sendReq peer message true), w⟩]) vs := by
        rcases nextReq_cases oldest with ⟨rest, queued, rfl⟩ | ⟨caller, queued, waiting, rfl⟩
        · refine h.event took rfl rfl id fun held submitted => ?_
          cases queued.symm.trans (h.foremost held submitted)
        · exact h.event took rfl rfl (fun _ => waiting ▸ rfl) fun _ _ => queued
      simpa [p2pSteps, watchedSteps, Act.event?, Act.operation?, oldest, took] using went
  | @panics peer message left oldest deserted =>
      have went : Parts n { s with stopped := true } us vs :=
        ⟨h.p2p, h.watched, h.handled, h.received, h.alone, h.foremost⟩
      simpa [p2pSteps_panics oldest deserted, watchedSteps, Act.operation?] using went
  | sent | canceled | withdrawn | unheard =>
      simpa [p2pSteps, watchedSteps, Act.event?, Act.operation?] using h.released _ _

end Parts

/-- Nothing comes between what was sent and what is handed over. -/
theorem Glued.step {us : List (P2p.Step Addr c.PeerId (Message c))} {vs : List (Watched.Step c)}
    (h : Glued n s us vs) (moved : Moved n s a reply s') :
    Glued n s' (us ++ p2pSteps ⟨s, (a, reply), s'⟩) (vs ++ watchedSteps ⟨s, (a, reply), s'⟩) where
  toParts := h.toParts.step moved
  sent := by
    have more : sendReqs (us ++ p2pSteps ⟨s, (a, reply), s'⟩) =
        sendReqs us ++ sendReqs (p2pSteps ⟨s, (a, reply), s'⟩) := List.filterMap_append
    rw [more, List.map_append, List.append_assoc, List.filterMap_append]
    rcases moved.handed with ⟨-, handed⟩ | ⟨-, noEvent, noOperation, lost, taken⟩
    · rw [← handed, ← List.append_assoc]
      exact h.sent.append_right _
    · have sent := h.sent
      rw [taken, ← List.append_assoc] at sent
      rw [noEvent, noOperation]
      simpa [sendReqs] using (List.sublist_append_left _ _).trans sent

/-- The steps of the event loop in a run of the server, and those of the node. -/
theorem Runs.glued {ts} (run : Runs n ts s) :
    Glued n s (ts.flatMap p2pSteps) (ts.flatMap watchedSteps) := by
  induction run with
  | nil => exact .init
  | snoc _ took ih =>
      simpa only [List.flatMap_append, List.flatMap_singleton] using ih.step (step_moved took).2

/-- As many messages are missing as clients took theirs back. -/
theorem Runs.missing {ts} (run : Runs n ts s) :
    ((ts.flatMap watchedSteps).filterMap Watched.sent?).length =
      (sendReqs (ts.flatMap p2pSteps)).length + s.unsubmitted.length + ts.countP withdraws := by
  induction run with
  | nil => rfl
  | @snoc ts s label s' _ took ih =>
      obtain ⟨a, reply⟩ := label
      have more : sendReqs (ts.flatMap p2pSteps ++ p2pSteps ⟨s, (a, reply), s'⟩) =
          sendReqs (ts.flatMap p2pSteps) ++ sendReqs (p2pSteps ⟨s, (a, reply), s'⟩) :=
        List.filterMap_append
      simp only [List.flatMap_append, List.flatMap_singleton, List.filterMap_append, more,
        List.length_append, List.countP_append, List.countP_singleton]
      rcases (step_moved took).2.handed with ⟨kept, handed⟩ | ⟨lost, noEvent, noOperation, _, taken⟩
      · have lengths := congrArg List.length handed
        simp only [List.length_append, List.length_map] at lengths
        rw [if_neg (by simpa using kept)]
        omega
      · have lengths := congrArg List.length taken
        simp only [List.length_append, List.length_singleton] at lengths
        have nothing : sendReqs ([] : List (P2p.Step Addr c.PeerId (Message c))) = [] := rfl
        rw [if_pos lost, noEvent, noOperation, nothing]
        simp only [List.filterMap_nil, List.length_nil]
        omega

/-- In every run of a server, the event loop and the node do runs of their own. The node was
    given the first of the messages the event loop received, in their order. The messages the
    node had to send were requested of the event loop in this order, but for the last of them,
    which still wait for it, and for those whose client hung up before they were on the event
    channel. No operation of the node is under way while somebody waits for a message to be
    sent. -/
theorem serverComposed {ts} (run : Runs n ts s) :
    Runtime.Runs (ts.flatMap p2pSteps) s.p2p ∧ ∃ vs, n.Runs vs s.watched.node ∧
      vs.filterMap Node.received? = (s.p2p.incoming.take s.handled).map plain ∧
      ((sendReqs (ts.flatMap p2pSteps)).map asked ++ s.unsubmitted).Sublist
        (vs.filterMap Node.sent?) ∧
      (vs.filterMap Node.sent?).length =
        (sendReqs (ts.flatMap p2pSteps)).length + s.unsubmitted.length + ts.countP withdraws ∧
      (s.sending.isSome → s.watched.node.suspended = none) := by
  have h := run.glued
  obtain ⟨vs, node, shown⟩ := Watched.Runs.follows h.watched
  have sent : vs.filterMap Node.sent? = (ts.flatMap watchedSteps).filterMap Watched.sent? :=
    filterMap_of_shown shown (fun _ _ => Watched.Shows.sent?) Watched.quiet_sent?
  refine ⟨h.p2p, vs, node, ?_, sent ▸ h.sent, sent ▸ run.missing, h.alone⟩
  rw [← h.received]
  exact filterMap_of_shown shown (fun _ _ => Watched.Shows.received?) Watched.quiet_received?

section Small

/-- What a server whose one connection leads to the peer does where its node does the action. -/
def serving (peer : Peer Addr c.PeerId) : Lindy.Act c → List (Act c Addr)
  | .openChannel value _ wallet =>
      [.openChannel peer value wallet, .submit, .p2p (.wrote 0 true (.ok ())), .sent]
  | .receive _ message entropy => [.p2p (.event (.received 0 message)), .handle entropy]
  | .resume => [.resume]
  | _ => []

/-- A channel is opened with a peer that has connected, up to its acknowledgment. -/
def smallServing : List (Act smallCrates Unit) :=
  .p2p (.event (.inbound ⟨(), smallBob.id⟩)) ::
    smallOpening.flatMap (serving ⟨(), smallBob.id⟩)

theorem serverComposed_small : ∃ ts vs, ∃ s : Server smallCrates Unit, Runs smallNode ts s ∧
    s.handled = 1 ∧ s.watched.node.tasks.length = 1 ∧ smallNode.Runs vs s.watched.node ∧
    (vs.filterMap Node.received?).length = 1 ∧
    vs.filterMap Node.sent? = (sendReqs (ts.flatMap p2pSteps)).map asked := by
  obtain ⟨ts, s, done, handled, one, waiting, quiet, kept⟩ : ∃ ts s,
      exec smallNode .init smallServing = some (ts, s) ∧ s.handled = 1 ∧
      s.p2p.incoming.length = 1 ∧ s.watched.node.tasks.length = 1 ∧ s.unsubmitted = [] ∧
      ts.countP withdraws = 0 := ⟨_, _, rfl, rfl, rfl, rfl, rfl, rfl⟩
  have run := execReplies_run done
  obtain ⟨-, vs, node, received, sent, missing, -⟩ := serverComposed run
  refine ⟨ts, vs, s, run, handled, waiting, node, ?_, ?_⟩
  · rw [received, handled, List.length_map, List.length_take, one]
    rfl
  · rw [quiet, List.append_nil] at sent
    refine (sent.eq_of_length ?_).symm
    rw [List.length_map, missing, quiet, kept]
    rfl

end Small

end Server

end Lindy
