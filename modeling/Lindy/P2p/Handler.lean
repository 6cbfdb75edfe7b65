import Lindy.Machine.Keyed
import Lindy.P2p.Runtime

/-! # What each event does

One equation for each event of `handle_event`, in terms of who waits in the entry of the
peer. The loops over drained lists are closed here once and for all; no later proof unfolds
the handler.
-/

namespace Lindy.P2p

open Machine

variable {Addr Key M : Type}

/-- The notifiers among some items. -/
def notifiers (items : List (Item M)) : List Notifier := items.filterMap Prod.snd

@[simp] theorem notifiers_nil : notifiers ([] : List (Item M)) = [] := rfl

@[simp] theorem notifiers_append (items more : List (Item M)) :
    notifiers (items ++ more) = notifiers items ++ notifiers more :=
  List.filterMap_append ..

@[simp] theorem notifiers_cons_some (message : M) (n : Notifier) (items : List (Item M)) :
    notifiers ((message, some n) :: items) = n :: notifiers items := rfl

@[simp] theorem notifiers_cons_none (message : M) (items : List (Item M)) :
    notifiers ((message, none) :: items) = notifiers items := rfl

theorem mem_notifiers {items : List (Item M)} {n : Notifier} :
    n ∈ notifiers items ↔ ∃ message, (message, some n) ∈ items := by
  simp [notifiers]

/-- Among items that share no notifier, a notifier tells its item. -/
theorem item_of_notifier {items : List (Item M)} (distinct : (notifiers items).Nodup)
    {m m' : M} {n : Notifier} (left : (m, some n) ∈ items) (right : (m', some n) ∈ items) :
    m = m' :=
  congrArg Prod.fst (eq_of_nodup_filterMap distinct left right rfl rfl)

/-- Add a result to each listed channel, once for each time it is listed. -/
def answered (answers : Notifier → List Outcome) (ns : List Notifier) (result : Outcome)
    (n : Notifier) : List Outcome :=
  answers n ++ List.replicate (ns.count n) result

@[simp] theorem answered_nil (answers : Notifier → List Outcome) (result : Outcome) :
    answered answers [] result = answers := by
  funext n
  simp [answered]

@[simp] theorem answered_answered (answers : Notifier → List Outcome) (ns ms : List Notifier)
    (result : Outcome) :
    answered (answered answers ns result) ms result = answered answers (ns ++ ms) result := by
  funext n
  simp only [answered, List.count_append, List.append_assoc, List.replicate_append_replicate]

theorem answered_of_notMem {answers : Notifier → List Outcome} {ns : List Notifier}
    {n : Notifier} (result : Outcome) (absent : n ∉ ns) :
    answered answers ns result n = answers n := by
  simp [answered, List.count_eq_zero_of_not_mem absent]

theorem answered_of_mem {answers : Notifier → List Outcome} {ns : List Notifier}
    {n : Notifier} (result : Outcome) (distinct : ns.Nodup) (member : n ∈ ns) :
    answered answers ns result n = answers n ++ [result] := by
  simp [answered, List.count_eq_one_of_mem distinct member]

namespace Runtime

/-- Who waits for the peer to be connected. -/
def notifyAt (w : Runtime Addr Key M) (key : Key) : List Notifier :=
  match w.peers.get key with
  | some (.connecting notifyOnConnect _) => notifyOnConnect
  | _ => []

/-- What waits for the peer to be connected. -/
def pendingAt (w : Runtime Addr Key M) (key : Key) : List (Item M) :=
  match w.peers.get key with
  | some (.connecting _ pendingMessages) => pendingMessages
  | _ => []

/-- What the writer task of a connection still holds. -/
def queueAt (w : Runtime Addr Key M) (conn : ConnId) : List (Item M) :=
  match w.writers.get conn with
  | some writer => writer.queue
  | none => []

theorem answerAll_eq (w : Runtime Addr Key M) (ns : List Notifier) (result : Outcome) :
    w.answerAll ns result = { w with answers := answered w.answers ns result } := by
  induction ns generalizing w with
  | nil => simp [answerAll]
  | cons n ns ih =>
      have unrolled : w.answerAll (n :: ns) result = (w.answer n result).answerAll ns result := rfl
      rw [unrolled, ih]
      simp only [answer, Runtime.mk.injEq, true_and, and_true]
      funext m
      by_cases same : m = n
      · subst same
        simp [answered, List.replicate_succ]
      · simp [answered, Function.update_of_ne same, List.count_cons_of_ne (Ne.symm same)]

theorem answer_eq (w : Runtime Addr Key M) (n : Notifier) (result : Outcome) :
    w.answer n result = { w with answers := answered w.answers [n] result } :=
  w.answerAll_eq [n] result

theorem sendAll_eq (w : Runtime Addr Key M) {queue : ConnId} {writer : Writer Addr Key M}
    (receiving : w.writers.get queue = some writer) (items : List (Item M)) :
    w.sendAll queue items =
      some { w with writers := w.writers.insert queue
                      { writer with queue := writer.queue ++ items } } := by
  induction items generalizing w writer with
  | nil =>
      simp only [sendAll, List.append_nil]
      rw [Table.insert_same receiving]
  | cons item items ih =>
      simp only [sendAll, unboundedSend, receiving, Option.bind_eq_bind, Option.bind_some]
      rw [ih _ (Table.get_insert_self ..)]
      simp

@[simp] theorem oneshot_peers (w : Runtime Addr Key M) (wanted : Bool) :
    (w.oneshot wanted).2.peers = w.peers := by cases wanted <;> rfl

@[simp] theorem oneshot_writers (w : Runtime Addr Key M) (wanted : Bool) :
    (w.oneshot wanted).2.writers = w.writers := by cases wanted <;> rfl

theorem oneshot_frame (w : Runtime Addr Key M) (wanted : Bool) :
    (w.oneshot wanted).2 = { w with oneshots := (w.oneshot wanted).2.oneshots } := by
  cases wanted <;> rfl

variable [DecidableEq Key]

@[simp] theorem maybeConnect_writers (w : Runtime Addr Key M) (peer : Peer Addr Key) :
    (w.maybeConnect peer).2.writers = w.writers := by
  unfold maybeConnect
  split <;> rfl

theorem handleEvent_established (w : Runtime Addr Key M) (peer : Peer Addr Key) (conn : ConnId) :
    w.handleEvent (.connectionEstablished peer conn) =
      some { w with
        answers := answered w.answers (w.notifyAt peer.id) (.ok ())
        writers := w.writers.insert conn ⟨peer, w.pendingAt peer.id, false⟩
        peers := w.peers.insert peer.id (.connected conn)
        readers := w.readers.insert conn peer } := by
  simp only [handleEvent, spawnOutgoingMessages, spawnIncomingMessages, setPeer, notifyAt,
    pendingAt, ConnectState.default]
  rcases w.peers.get peer.id with _ | ⟨queue⟩ | ⟨ns, ps⟩
  · simp [answerAll, sendAll]
  · simp
  · simp only [Option.getD_some, answerAll_eq]
    rw [sendAll_eq _ (Table.get_insert_self ..)]
    simp

theorem handleEvent_failed (w : Runtime Addr Key M) (peer : Peer Addr Key) (reason : Error) :
    w.handleEvent (.connectionFailed peer reason) =
      some { w with
        peers := w.peers.remove peer.id
        answers := answered w.answers (w.notifyAt peer.id ++ notifiers (w.pendingAt peer.id))
          (.error reason) } := by
  simp only [handleEvent, notifyAt, pendingAt]
  rcases w.peers.get peer.id with _ | ⟨queue⟩ | ⟨ns, ps⟩
  · simp
  · simp
  · simp [answerAll_eq, notifiers]

theorem handleEvent_send_connected {w : Runtime Addr Key M} {peer : Peer Addr Key}
    {queue : ConnId} {writer : Writer Addr Key M} (message : M) (notifier : Option Notifier)
    (entry : w.peers.get peer.id = some (.connected queue))
    (receiving : w.writers.get queue = some writer) :
    w.handleEvent (.sendMessageReq peer message notifier) =
      some { w with writers := w.writers.insert queue
                      { writer with queue := writer.queue ++ [(message, notifier)] } } := by
  simp [handleEvent, maybeConnect, entry, unboundedSend, receiving]

theorem handleEvent_send_waiting {w : Runtime Addr Key M} {peer : Peer Addr Key}
    (message : M) (notifier : Option Notifier)
    (entry : ∀ queue, w.peers.get peer.id ≠ some (.connected queue)) :
    w.handleEvent (.sendMessageReq peer message notifier) =
      some { (w.maybeConnect peer).2 with
        peers := w.peers.insert peer.id
          (.connecting (w.notifyAt peer.id) (w.pendingAt peer.id ++ [(message, notifier)])) } := by
  simp only [handleEvent, maybeConnect, notifyAt, pendingAt, ConnectState.default, setPeer]
  rcases found : w.peers.get peer.id with _ | ⟨queue⟩ | ⟨ns, ps⟩
  · simp
  · exact absurd found (entry queue)
  · simp

theorem handleEvent_connect_connected {w : Runtime Addr Key M} {peer : Peer Addr Key}
    {queue : ConnId} (notify : Option Notifier)
    (entry : w.peers.get peer.id = some (.connected queue)) :
    w.handleEvent (.outgoingConnectionReq peer notify) = some w := by
  simp [handleEvent, maybeConnect, entry]

theorem handleEvent_connect_waiting {w : Runtime Addr Key M} {peer : Peer Addr Key}
    (notify : Option Notifier)
    (entry : ∀ queue, w.peers.get peer.id ≠ some (.connected queue)) :
    w.handleEvent (.outgoingConnectionReq peer notify) =
      some { (w.maybeConnect peer).2 with
        peers := w.peers.insert peer.id
          (.connecting (w.notifyAt peer.id ++ notify.toList) (w.pendingAt peer.id)) } := by
  simp only [handleEvent, maybeConnect, notifyAt, pendingAt, ConnectState.default, setPeer]
  rcases found : w.peers.get peer.id with _ | ⟨queue⟩ | ⟨ns, ps⟩
  · cases notify <;> simp
  · exact absurd found (entry queue)
  · cases notify <;> simp [Table.insert_same found]

section Reads

variable {w w' : Runtime Addr Key M} {key : Key}

theorem notifyAt_connecting {ns : List Notifier} {ps : List (Item M)}
    (peers : w'.peers = w.peers.insert key (.connecting ns ps)) (other : Key) :
    w'.notifyAt other = if other = key then ns else w.notifyAt other := by
  simp only [notifyAt, peers, Table.get_insert]
  by_cases same : other = key <;> simp [same]

theorem notifyAt_connected {conn : ConnId}
    (peers : w'.peers = w.peers.insert key (.connected conn)) (other : Key) :
    w'.notifyAt other = if other = key then [] else w.notifyAt other := by
  simp only [notifyAt, peers, Table.get_insert]
  by_cases same : other = key <;> simp [same]

theorem notifyAt_removed (peers : w'.peers = w.peers.remove key) (other : Key) :
    w'.notifyAt other = if other = key then [] else w.notifyAt other := by
  simp only [notifyAt, peers, Table.get_remove]
  by_cases same : other = key <;> simp [same]

theorem pendingAt_connecting {ns : List Notifier} {ps : List (Item M)}
    (peers : w'.peers = w.peers.insert key (.connecting ns ps)) (other : Key) :
    w'.pendingAt other = if other = key then ps else w.pendingAt other := by
  simp only [pendingAt, peers, Table.get_insert]
  by_cases same : other = key <;> simp [same]

theorem pendingAt_connected {conn : ConnId}
    (peers : w'.peers = w.peers.insert key (.connected conn)) (other : Key) :
    w'.pendingAt other = if other = key then [] else w.pendingAt other := by
  simp only [pendingAt, peers, Table.get_insert]
  by_cases same : other = key <;> simp [same]

theorem pendingAt_removed (peers : w'.peers = w.peers.remove key) (other : Key) :
    w'.pendingAt other = if other = key then [] else w.pendingAt other := by
  simp only [pendingAt, peers, Table.get_remove]
  by_cases same : other = key <;> simp [same]

omit [DecidableEq Key] in
theorem queueAt_insert {conn : ConnId} {writer : Writer Addr Key M}
    (writers : w'.writers = w.writers.insert conn writer) (other : ConnId) :
    w'.queueAt other = if other = conn then writer.queue else w.queueAt other := by
  simp only [queueAt, writers, Table.get_insert]
  by_cases same : other = conn <;> simp [same]

omit [DecidableEq Key] in
theorem queueAt_remove {conn : ConnId} (writers : w'.writers = w.writers.remove conn)
    (other : ConnId) : w'.queueAt other = if other = conn then [] else w.queueAt other := by
  simp only [queueAt, writers, Table.get_remove]
  by_cases same : other = conn <;> simp [same]

end Reads

/-- Everything one step can do. -/
inductive Moved (w : Runtime Addr Key M) : Act Addr Key M → Runtime Addr Key M → Prop where
  /-- A connect request for a connected peer; its notifier is gone. -/
  | connectLost {peer wanted queue} (entry : w.peers.get peer.id = some (.connected queue)) :
      Moved w (.event (.connectReq peer wanted)) (w.oneshot wanted).2
  | connectWaits {peer wanted}
      (entry : ∀ queue, w.peers.get peer.id ≠ some (.connected queue)) :
      Moved w (.event (.connectReq peer wanted))
        { (w.oneshot wanted).2 with
          peers := w.peers.insert peer.id
            (.connecting (w.notifyAt peer.id ++ (w.oneshot wanted).1.toList) (w.pendingAt peer.id))
          attempts := (w.maybeConnect peer).2.attempts
          spawned := (w.maybeConnect peer).2.spawned }
  | sendQueued {peer message wanted queue writer}
      (entry : w.peers.get peer.id = some (.connected queue))
      (receiving : w.writers.get queue = some writer) :
      Moved w (.event (.sendReq peer message wanted))
        { (w.oneshot wanted).2 with
          writers := w.writers.insert queue
            { writer with queue := writer.queue ++ [(message, (w.oneshot wanted).1)] } }
  | sendWaits {peer message wanted}
      (entry : ∀ queue, w.peers.get peer.id ≠ some (.connected queue)) :
      Moved w (.event (.sendReq peer message wanted))
        { (w.oneshot wanted).2 with
          peers := w.peers.insert peer.id
            (.connecting (w.notifyAt peer.id)
              (w.pendingAt peer.id ++ [(message, (w.oneshot wanted).1)]))
          attempts := (w.maybeConnect peer).2.attempts
          spawned := (w.maybeConnect peer).2.spawned }
  /-- A connection was established, by the listener or by an attempt that is over now. -/
  | established {source peer attempts}
      (origin : (source = .inbound peer ∧ attempts = w.attempts) ∨
        ∃ attempt, source = .connected attempt ∧ w.attempts.get attempt = some peer ∧
          attempts = w.attempts.remove attempt) :
      Moved w (.event source)
        { w with
          answers := answered w.answers (w.notifyAt peer.id) (.ok ())
          writers := w.writers.insert w.conns ⟨peer, w.pendingAt peer.id, false⟩
          peers := w.peers.insert peer.id (.connected w.conns)
          readers := w.readers.insert w.conns peer
          attempts := attempts
          conns := w.conns + 1 }
  | failed {attempt reason peer} (running : w.attempts.get attempt = some peer) :
      Moved w (.event (.failed attempt reason))
        { w with
          peers := w.peers.remove peer.id
          answers := answered w.answers (w.notifyAt peer.id ++ notifiers (w.pendingAt peer.id))
            (.error reason)
          attempts := w.attempts.remove attempt }
  | received {conn message peer} (running : w.readers.get conn = some peer) :
      Moved w (.event (.received conn message))
        { w with incoming := w.incoming ++ [(peer, message)] }
  | ended {conn peer} (running : w.readers.get conn = some peer) :
      Moved w (.event (.ended conn))
        { w with peers := w.peers.remove peer.id, readers := w.readers.remove conn }
  | wrote {conn accepted outcome peer item rest failed}
      (running : w.writers.get conn = some ⟨peer, item :: rest, failed⟩)
      (honest : outcome = .ok () → accepted = true)
      (first : failed = true → outcome = .ok ()) :
      Moved w (.wrote conn accepted outcome)
        { w with
          writers := w.writers.insert conn ⟨peer, rest, failed || outcome ≠ .ok ()⟩
          answers := answered w.answers item.2.toList outcome
          sinks := if accepted then Function.update w.sinks conn (w.sinks conn ++ [item])
            else w.sinks }
  /-- The sink of a writer task fails again. -/
  | broke {conn accepted reason peer item rest}
      (running : w.writers.get conn = some ⟨peer, item :: rest, true⟩) :
      Moved w (.wrote conn accepted (.error reason))
        { w with
          writers := w.writers.remove conn
          sinks := if accepted then Function.update w.sinks conn (w.sinks conn ++ [item])
            else w.sinks }
  | drained {conn peer failed} (running : w.writers.get conn = some ⟨peer, [], failed⟩)
      (unsent : w.hasSender peer.id conn = false) :
      Moved w (.drained conn) { w with writers := w.writers.remove conn }

omit [DecidableEq Key] in
/-- Nothing but the listener and an attempt establishes a connection. -/
theorem origin_absurd {P : Prop} {w : Runtime Addr Key M} {source : Source Addr Key M}
    {peer : Peer Addr Key} {attempts : Table AttemptId (Peer Addr Key)}
    (origin : (source = .inbound peer ∧ attempts = w.attempts) ∨
      ∃ attempt, source = .connected attempt ∧ w.attempts.get attempt = some peer ∧
        attempts = w.attempts.remove attempt)
    (inbound : ∀ peer, source ≠ .inbound peer)
    (connected : ∀ attempt, source ≠ .connected attempt) : P := by
  rcases origin with ⟨same, -⟩ | ⟨attempt, same, -⟩
  · exact absurd same (inbound peer)
  · exact absurd same (connected attempt)

/-- The attempts `maybe_connect` leaves do not depend on the oneshot channels. -/
theorem maybeConnect_oneshot (w : Runtime Addr Key M) (wanted : Bool) (peer : Peer Addr Key) :
    ((w.oneshot wanted).2.maybeConnect peer).2 =
      { (w.oneshot wanted).2 with
        peers := (w.maybeConnect peer).2.peers
        attempts := (w.maybeConnect peer).2.attempts
        spawned := (w.maybeConnect peer).2.spawned } := by
  rw [oneshot_frame]
  simp only [maybeConnect]
  split <;> rfl

theorem step_moved {w w' : Runtime Addr Key M} {a : Act Addr Key M}
    (took : w.step a = some w') : Moved w a w' := by
  cases a with
  | wrote conn accepted outcome =>
      simp only [step, Runtime.wrote] at took
      rcases running : w.writers.get conn with
        _ | ⟨owner, _ | ⟨⟨message, notifier⟩, rest⟩, failed⟩ <;>
        simp only [running, reduceCtorEq] at took
      split at took
      · cases took
      · rename_i honest
        split at took
        · rename_i again
          obtain ⟨rfl, bad⟩ := again
          cases outcome with
          | ok => exact absurd rfl bad
          | error reason =>
              have done : Moved w (.wrote conn accepted (.error reason)) _ := .broke running
              cases accepted <;>
                simp only [Bool.false_eq_true, if_false, if_true, Option.some.injEq] at took <;>
                subst took <;> simpa using done
        · rename_i first
          have done : Moved w (.wrote conn accepted outcome) _ :=
            .wrote running (by simpa using honest) (by simpa using first)
          cases notifier <;> cases accepted <;>
            simp only [answer_eq, Bool.false_eq_true, if_false, if_true, Option.some.injEq]
              at took <;>
            subst took <;> simpa using done
  | drained conn =>
      simp only [step, Runtime.drained] at took
      rcases running : w.writers.get conn with _ | ⟨owner, _ | ⟨item, rest⟩, failed⟩ <;>
        simp only [running, reduceCtorEq] at took
      split at took
      · cases took
      · rename_i unsent
        cases took
        exact .drained running (by simpa using unsent)
  | event source =>
      simp only [step, Option.bind_eq_bind, Option.bind_eq_some_iff, Prod.exists] at took
      obtain ⟨event, found, reported, handled⟩ := took
      cases source <;>
        simp only [report, openConn, Option.bind_eq_bind, Option.bind_eq_some_iff,
          Option.some.injEq, Prod.mk.injEq] at reported
      case connectReq peer wanted =>
        obtain ⟨rfl, rfl⟩ := reported
        by_cases entry : ∃ queue, w.peers.get peer.id = some (.connected queue)
        · obtain ⟨queue, entry⟩ := entry
          rw [handleEvent_connect_connected _ (by simpa using entry), Option.some.injEq] at handled
          exact handled ▸ .connectLost entry
        · rw [handleEvent_connect_waiting _ (by simpa using entry), maybeConnect_oneshot,
            Option.some.injEq] at handled
          simp only [notifyAt, pendingAt, oneshot_peers] at handled
          exact handled ▸ .connectWaits (not_exists.mp entry)
      case sendReq peer message wanted =>
        obtain ⟨rfl, rfl⟩ := reported
        by_cases entry : ∃ queue, w.peers.get peer.id = some (.connected queue)
        · obtain ⟨queue, entry⟩ := entry
          cases receiving : w.writers.get queue with
          | none => simp [handleEvent, maybeConnect, entry, unboundedSend, receiving] at handled
          | some writer =>
              rw [handleEvent_send_connected _ _ (by simpa using entry) (by simpa using receiving),
                Option.some.injEq] at handled
              simp only [oneshot_writers] at handled
              exact handled ▸ .sendQueued entry receiving
        · rw [handleEvent_send_waiting _ _ (by simpa using entry), maybeConnect_oneshot,
            Option.some.injEq] at handled
          simp only [notifyAt, pendingAt, oneshot_peers] at handled
          exact handled ▸ .sendWaits (not_exists.mp entry)
      case inbound peer =>
        obtain ⟨rfl, rfl⟩ := reported
        rw [handleEvent_established, Option.some.injEq] at handled
        exact handled ▸ .established (.inl ⟨rfl, rfl⟩)
      case connected attempt =>
        obtain ⟨peer, running, rfl, rfl⟩ := reported
        rw [handleEvent_established, Option.some.injEq] at handled
        exact handled ▸ .established (.inr ⟨attempt, rfl, running, rfl⟩)
      case failed attempt reason =>
        obtain ⟨peer, running, rfl, rfl⟩ := reported
        rw [handleEvent_failed, Option.some.injEq] at handled
        exact handled ▸ .failed running
      case received conn message =>
        obtain ⟨peer, running, rfl, rfl⟩ := reported
        exact Option.some.inj handled ▸ .received running
      case ended conn =>
        obtain ⟨peer, running, rfl, rfl⟩ := reported
        exact Option.some.inj handled ▸ .ended running

/-- The map holds the sender of a queue that nobody receives from. -/
def Deserted (w : Runtime Addr Key M) (key : Key) : Prop :=
  ∃ queue, w.peers.get key = some (.connected queue) ∧ w.writers.get queue = none

/-- The handler panics over a message for such an entry, and over nothing else. -/
theorem handleEvent_eq_none {w : Runtime Addr Key M} {event : Event Addr Key M} :
    w.handleEvent event = none ↔
      ∃ peer message notifier, event = .sendMessageReq peer message notifier ∧
        w.Deserted peer.id := by
  cases event with
  | connectionEstablished => simp [handleEvent_established]
  | connectionFailed => simp [handleEvent_failed]
  | newIncomingMessage | disconnected => simp [handleEvent]
  | outgoingConnectionReq peer notify =>
      by_cases entry : ∃ queue, w.peers.get peer.id = some (.connected queue)
      · obtain ⟨queue, entry⟩ := entry
        simp [handleEvent_connect_connected notify entry]
      · simp [handleEvent_connect_waiting notify (not_exists.mp entry)]
  | sendMessageReq peer message notifier =>
      by_cases entry : ∃ queue, w.peers.get peer.id = some (.connected queue)
      · obtain ⟨queue, entry⟩ := entry
        cases receiving : w.writers.get queue with
        | none => simp [handleEvent, maybeConnect, entry, unboundedSend, Deserted, receiving]
        | some writer =>
            simp [handleEvent_send_connected message notifier entry receiving, Deserted, entry,
              receiving]
      · have missing : ¬ w.Deserted peer.id := by
          rintro ⟨queue, found, -⟩
          exact entry ⟨queue, found⟩
        simp [handleEvent_send_waiting message notifier (not_exists.mp entry), missing]

omit [DecidableEq Key] in
theorem oneshot_deserted {w : Runtime Addr Key M} {wanted : Bool} {key : Key} :
    (w.oneshot wanted).2.Deserted key ↔ w.Deserted key := by
  simp [Deserted]

/-- What a panic is, and what it leaves. -/
theorem panics_iff {w w' : Runtime Addr Key M} {a : Act Addr Key M} : Panics w a w' ↔
    ∃ peer message wanted, a = .event (.sendReq peer message wanted) ∧ w.Deserted peer.id ∧
      w' = (w.oneshot wanted).2.unwound := by
  constructor
  · rintro ⟨reported, panics⟩
    obtain ⟨peer, message, notifier, rfl, deserted⟩ := handleEvent_eq_none.mp panics
    rename_i source found
    cases source with
    | sendReq other text wanted =>
        simp only [report, Option.some.injEq, Prod.mk.injEq, Event.sendMessageReq.injEq] at reported
        obtain ⟨⟨rfl, rfl, -⟩, rfl⟩ := reported
        exact ⟨_, _, wanted, rfl, oneshot_deserted.mp deserted, rfl⟩
    | _ => simp [report, openConn, Option.bind_eq_some_iff] at reported
  · rintro ⟨peer, message, wanted, rfl, deserted, rfl⟩
    exact .intro rfl (handleEvent_eq_none.mpr ⟨_, _, _, rfl, oneshot_deserted.mpr deserted⟩)

/-- The event loop takes every other message. -/
theorem step_send_eq_none {w : Runtime Addr Key M} {peer : Peer Addr Key} {message : M}
    {wanted : Bool} :
    w.step (.event (.sendReq peer message wanted)) = none ↔ w.Deserted peer.id := by
  rw [step, report, Option.bind_eq_bind, Option.bind_some, handleEvent_eq_none]
  constructor
  · rintro ⟨_, _, _, same, deserted⟩
    obtain ⟨rfl, -, -⟩ := Event.sendMessageReq.inj same
    exact oneshot_deserted.mp deserted
  · exact fun deserted => ⟨peer, message, _, rfl, oneshot_deserted.mpr deserted⟩

end Runtime

end Lindy.P2p
