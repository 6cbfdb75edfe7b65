import Lindy.P2p.Progress
import Lindy.Server.Composition

/-! # Who releases the lock of the channel manager

An operation holds the lock while its record is inserted, and until its message was sent: while
the event loop takes the request, while the peer is being connected to, and while the messages
in front of it are written. No one it waits for waits for the lock, so reports of the network
release it, whatever they are. Only a message whose notifier is gone is different: it was
forgotten with its connection request, or dropped with the queue of a sink that failed again.
Its sender panics, and when that is the message handler loop the server stops. So it does when
the event loop is to put a message on a queue that nobody receives from any more.

But it is reports about that one peer that release it. A peer that keeps a connection attempt
or a write waiting keeps everybody else's channels waiting with it. The client of a new channel
need not wait so long: when it hangs up the lock is free, and the message waits on.
-/

namespace Lindy

open Bitcoin Machine Op P2p P2p.Runtime

variable {c : Crates} {Addr : Type} {n : Node c}

namespace Server

variable {s s' : Server c Addr}

/-- Nobody holds the lock. -/
def Free (s : Server c Addr) : Prop := s.sending = none ∧ s.watched.node.suspended = none

/-- The network reports, or the operation that holds the lock goes on. -/
def Act.Unlocks (outcomes : Outcomes (Server c Addr)) (s : Server c Addr) : Act c Addr → Prop
  | .p2p a => outcomes.Reports s a
  | .resume | .submit | .sent | .canceled => True
  | _ => False

/-- Everyone who waits for the lock can take it. -/
structure Serves (n : Node c) (s : Server c Addr) : Prop where
  openChannel : ∀ peer value wallet, (s.step n (.openChannel peer value wallet)).isSome
  updateChannel : ∀ channelId entropy, (s.step n (.updateChannel channelId entropy)).isSome
  handle : ∀ entropy, s.handled < s.p2p.incoming.length → (s.step n (.handle entropy)).isSome

theorem node?_isSome {w : Watched c} (free : w.node.suspended = none) (a : Lindy.Act c) :
    ∃ reply w', w.node? n a = some (reply, w') := by
  simp [Watched.node?, Node.step, free]

theorem Free.serves (free : s.Free) (going : s.stopped = false) : Serves n s where
  openChannel := by
    intro peer value wallet
    obtain ⟨reply, w, took⟩ := node?_isSome (n := n) free.2 (.openChannel value peer.id wallet)
    simp [step, advance, going, free.1, took]
  updateChannel := by
    intro channelId entropy
    obtain ⟨reply, w, took⟩ := node?_isSome (n := n) free.2 (.updateChannel channelId entropy)
    simp [step, advance, going, free.1, took]
  handle := by
    intro entropy waiting
    obtain ⟨⟨peer, message⟩, next⟩ : ∃ pair, s.p2p.incoming[s.handled]? = some pair :=
      ⟨_, List.getElem?_eq_getElem waiting⟩
    obtain ⟨reply, w, took⟩ := node?_isSome (n := n) free.2 (.receive peer.id message entropy)
    simp [step, advance, going, free.1, next, took]

/-- The message handler loop waits for an answer that nobody can give any more. -/
def Lost (s : Server c Addr) : Prop :=
  ∃ peer message notifier, s.sending = some ⟨.messageHandlerLoop, peer, message, some notifier⟩ ∧
    gone s.p2p peer notifier = true

/-- A message for a peer whose queue nobody receives from waits for the event loop. -/
def Deserted (s : Server c Addr) : Prop := ∃ request ∈ s.requests, s.p2p.Deserted request.1.id

/-- The message handler loop holds the lock. -/
def ForLoop (s : Server c Addr) : Prop :=
  s.sending.map Sending.caller = some .messageHandlerLoop

/-- What leads to a server whose lock is free. -/
abbrev Unlocking (n : Node c) (outcomes : Outcomes (Server c Addr)) (goal : Server c Addr → Prop)
    (s : Server c Addr) : Prop :=
  Leads (fun s (label : Act c Addr × Option (Reply c)) s' =>
      step n s label.1 = some (label.2, s') ∧ label.1.Unlocks outcomes s) (fun _ => True) goal s

section Unlock

variable {outcomes : Outcomes (Server c Addr)} {caller : Caller} {peer : Peer Addr c.PeerId}
  {message : Message c} {notifier : Notifier}

/-- What the network reports to the event loop is a step of the server. -/
theorem reporting {goal : Runtime Addr c.PeerId (Message c) → Prop} (going : s.stopped = false)
    (h : Answering (outcomes.comap fun w => { s with p2p := w }) goal s.p2p) :
    Unlocking n outcomes (fun s' => ∃ w, goal w ∧ s' = { s with p2p := w }) s := by
  refine Leads.lift (fun w => { s with p2p := w }) (fun a => (Act.p2p a, none)) ?_ h
  rintro w a w' ⟨took, reports⟩ -
  refine ⟨⟨?_, by cases a <;> exact reports⟩, trivial⟩
  have other : isSend a = false := by
    cases a with
    | event source => cases source <;> first | rfl | cases reports
    | wrote | drained => rfl
  simp [step, advance, going, other, took]

theorem step_sent (going : s.stopped = false)
    (waiting : s.sending = some ⟨caller, peer, message, some notifier⟩)
    (told : s.p2p.answers notifier ≠ []) :
    s.step n .sent = some (none, { s with sending := none }) := by
  simp [step, advance, sent, going, waiting, told]

theorem step_hangUp (going : s.stopped = false)
    (waiting : s.sending = some ⟨.openChannel, peer, message, some notifier⟩) (queued : Bool) :
    s.step n (.hangUp queued) = some (none, { s with sending := none }) := by
  simp [step, advance, hangUp, going, waiting]

theorem step_canceled (going : s.stopped = false)
    (waiting : s.sending = some ⟨caller, peer, message, some notifier⟩)
    (lost : gone s.p2p peer notifier = true) :
    s.step n .canceled =
      some (none, { s with sending := none, stopped := caller = .messageHandlerLoop }) := by
  simp [step, advance, canceled, going, waiting, lost]

/-- Whoever waits for a message is told of it, or can be told no more because a write failed. -/
theorem unlock_awaited {us} (run : Runtime.Runs us s.p2p) (going : s.stopped = false)
    (waiting : s.sending = some ⟨caller, peer, message, some notifier⟩)
    (free : s.watched.node.suspended = none) (awaited : gone s.p2p peer notifier = false) :
    Unlocking n outcomes (fun s' => (s'.Free ∧ s'.stopped = false) ∨
      s'.stopped = true ∧ outcomes.Faulty ∧ caller = .messageHandlerLoop) s := by
  have settled : ∀ {w : Runtime Addr c.PeerId (Message c)}, w.Settled outcomes.Faulty notifier →
      Unlocking n outcomes (fun s' => (s'.Free ∧ s'.stopped = false) ∨
        s'.stopped = true ∧ outcomes.Faulty ∧ caller = .messageHandlerLoop)
        { s with p2p := w } := by
    rintro w (⟨result, answer⟩ | ⟨failing, loose⟩)
    · have took := step_sent (n := n) (s := { s with p2p := w }) going waiting (by simp [answer])
      refine .step_first (a := (.sent, none)) ⟨took, trivial⟩ trivial ?_
      exact .here (.inl ⟨⟨rfl, free⟩, going⟩)
    · have lost : gone w peer notifier = true := by
        simp only [gone, decide_eq_true_eq]
        exact ⟨loose.unanswered, loose.nowhere _, fun _ _ => loose.nowhere _⟩
      have took := step_canceled (n := n) (s := { s with p2p := w }) going waiting lost
      refine .step_first (a := (.canceled, none)) ⟨took, trivial⟩ trivial (.here ?_)
      cases caller with
      | openChannel => exact .inl ⟨⟨rfl, free⟩, rfl⟩
      | messageHandlerLoop => exact .inr ⟨rfl, failing, rfl⟩
  have held : ∀ {i : c.PeerId ⊕ ConnId}, notifier ∈ s.p2p.held i → Unlocking n outcomes
      (fun s' => (s'.Free ∧ s'.stopped = false) ∨
        s'.stopped = true ∧ outcomes.Faulty ∧ caller = .messageHandlerLoop) s := by
    intro i waits
    refine (reporting going (run.resolves waits)).trans ?_
    rintro _ ⟨w, done, rfl⟩
    exact settled (done.imp_right (.imp_left .of_comap))
  simp only [gone, decide_eq_false_iff_not, not_and_or, not_forall, not_not] at awaited
  rcases awaited with answer | waits | ⟨conn, -, waits⟩
  · refine .step_first (a := (.sent, none)) ⟨step_sent going waiting answer, trivial⟩
      trivial ?_
    exact .here (.inl ⟨⟨rfl, free⟩, going⟩)
  · exact held waits
  · exact held waits

/-- The event loop takes the oldest request, or panics over it. -/
theorem step_submit (going : s.stopped = false) {left : Server c Addr}
    (oldest : s.nextReq = some ((peer, message), left)) :
    (s.p2p.Deserted peer.id ∧ s.step n .submit = some (none, { s with stopped := true })) ∨
    ∃ w, s.p2p.step (.event (.sendReq peer message true)) = some w ∧
      s.step n .submit = some (none, { left with p2p := w }) := by
  cases took : s.p2p.step (.event (.sendReq peer message true)) with
  | none =>
      refine .inl ⟨step_send_eq_none.mp took, ?_⟩
      simp [step, advance, submit, going, oldest, took]
  | some w => exact .inr ⟨w, rfl, by simp [step, advance, submit, going, oldest, took]⟩

variable {w w' : Runtime Addr c.PeerId (Message c)} {key : c.PeerId}

/-- Who waits for the fate of a message waits in the entry of its peer, or in the queue of a
    connection that leads there. -/
structure Addressed (w : Runtime Addr c.PeerId (Message c)) (key : c.PeerId)
    (notifier : Notifier) : Prop where
  entry : ∀ other, notifier ∈ notifiers (w.pendingAt other) → other = key
  queue : ∀ conn writer, w.writers.get conn = some writer →
    notifier ∈ notifiers writer.queue → writer.peer.id = key

theorem Addressed.fresh (custody : Custody w)
    (took : w.step (.event (.sendReq peer message true)) = some w') :
    Addressed w' peer.id w.oneshots := by
  have new : ∀ {i}, w.oneshots ∉ w.held i := fun before =>
    Nat.lt_irrefl _ (custody.issued _ _ before)
  have unwaited : ∀ {other}, w.oneshots ∉ notifiers (w.pendingAt other) := fun {other} before =>
    new (i := .inl other) (List.mem_append_right _ before)
  have unqueued : ∀ {conn writer}, w.writers.get conn = some writer →
      w.oneshots ∉ notifiers writer.queue := fun {conn writer} running before =>
    new (i := .inr conn) (by simpa [held, queueAt, running] using before)
  cases Runtime.step_moved took with
  | @sendQueued _ _ _ queue writer entry receiving =>
      refine ⟨fun other pending => absurd pending unwaited, fun conn writer' found there => ?_⟩
      rw [Table.get_insert] at found
      split at found
      · obtain rfl := Option.some.inj found
        exact (custody.owner _ _ _ entry receiving :)
      · exact absurd there (unqueued found)
  | sendWaits =>
      refine ⟨fun other pending => ?_, fun conn writer found there => absurd there (unqueued found)⟩
      rw [pendingAt_connecting rfl] at pending
      split at pending
      · assumption
      · exact absurd pending unwaited
  | established origin => exact origin_absurd origin (by simp) (by simp)

theorem Addressed.step (h : Addressed w key notifier) {a : P2p.Act Addr c.PeerId (Message c)}
    (other : isSend a = false) (took : w.step a = some w') : Addressed w' key notifier := by
  constructor
  · intro other' there
    obtain ⟨message, pending⟩ := mem_notifiers.mp there
    refine h.entry other' (mem_notifiers.mpr ⟨message, ?_⟩)
    refine (pending_source took pending).resolve_right fun requested => ?_
    unfold request? at requested
    split at requested
    · rename_i act
      cases (show a = _ from act)
      cases other
    · cases requested
  · intro conn writer found there
    cases Runtime.step_moved took with
    | @connectLost peer wanted => cases wanted <;> exact h.queue conn writer found there
    | @connectWaits peer wanted => cases wanted <;> exact h.queue conn writer found there
    | sendQueued | sendWaits => cases other
    | @established source peer attempts origin =>
        rw [Table.get_insert] at found
        split at found
        · obtain rfl := Option.some.inj found
          exact h.entry _ there
        · exact h.queue conn writer found there
    | failed | received | ended => exact h.queue conn writer found there
    | @wrote conn' accepted outcome peer item rest failed running =>
        rw [Table.get_insert] at found
        split at found
        · obtain rfl := Option.some.inj found
          obtain ⟨message, later⟩ := mem_notifiers.mp there
          exact h.queue conn' ⟨peer, item :: rest, failed⟩ running
            (mem_notifiers.mpr ⟨message, List.mem_cons_of_mem _ later⟩)
        · exact h.queue conn writer found there
    | broke | drained =>
        rw [Table.get_remove] at found
        split at found
        · cases found
        · exact h.queue conn writer found there

/-- And when nobody forgot him he waits there, or was told. -/
def Awaited (w : Runtime Addr c.PeerId (Message c)) (peer : Peer Addr c.PeerId)
    (message : Message c) (notifier : Notifier) : Prop :=
  w.Accounted message notifier ∧ Addressed w peer.id notifier

theorem Awaited.not_gone (h : Awaited w peer message notifier) (custody : Custody w) :
    gone w peer notifier = false := by
  simp only [gone, decide_eq_false_iff_not]
  rintro ⟨silent, nowhere, unqueued⟩
  rcases h.1 with ⟨⟨key, pending⟩ | ⟨conn, queued⟩, -⟩ | ⟨result, once, -⟩
  · obtain rfl := h.2.entry key (mem_notifiers.mpr ⟨message, pending⟩)
    exact nowhere (held_pending pending)
  · refine unqueued conn (List.mem_range.mpr ?_) (held_queue queued)
    by_contra late
    simp [queueAt, custody.unmade conn (Nat.le_of_not_lt late)] at queued
  · cases silent.symm.trans once

theorem step_resume (n : Node c) (going : s.stopped = false) :
    ∃ reply w, s.step n .resume = some (some reply, { s with watched := w }) ∧
      w.node.suspended = none := by
  obtain ⟨reply, node, resumed, -, released⟩ := n.step_resume s.watched.node
  obtain ⟨w, took, same⟩ : ∃ w, s.watched.node? n .resume = some (reply, w) ∧ w.node = node := by
    simp [Watched.node?, resumed]
  exact ⟨reply, w, by simp [step, advance, going, took], same ▸ released⟩

/-- The event loop gets to what the holder of the lock sends, unless it panics before. -/
theorem submits {ts} (run : Runs n ts s) (going : s.stopped = false)
    (waiting : s.sending = some ⟨caller, peer, message, none⟩) :
    Unlocking n outcomes (fun s' => (s'.stopped = true ∧ s.Deserted) ∨
      ∃ ts' notifier, Runs n ts' s' ∧ s'.stopped = false ∧
        s'.sending = some ⟨caller, peer, message, some notifier⟩ ∧
        gone s'.p2p peer notifier = false) s := by
  induction queued : s.orphaned generalizing s ts with
  | nil =>
      have oldest : s.nextReq = some ((peer, message),
          { s with sending := some ⟨caller, peer, message, some s.p2p.oneshots⟩ }) := by
        simp [nextReq, queued, waiting]
      rcases step_submit (n := n) going oldest with ⟨deserted, took⟩ | ⟨w, took, submitted⟩
      · refine .step_first (a := (.submit, none)) ⟨took, trivial⟩ trivial (.here (.inl ⟨rfl, ?_⟩))
        exact ⟨(peer, message), by simp [requests, waiting], deserted⟩
      · have h := run.glued
        have awaited : Awaited w peer message s.p2p.oneshots :=
          ⟨accounted_fresh h.p2p.custody took, .fresh h.p2p.custody took⟩
        have there := awaited.not_gone (h.p2p.custody.step took)
        refine .step_first (a := (.submit, none)) ⟨submitted, trivial⟩ trivial (.here (.inr ?_))
        exact ⟨_, _, Run.snoc run (a := (.submit, none)) submitted, going, rfl, there⟩
  | cons request rest ih =>
      obtain ⟨other, text⟩ := request
      have oldest : s.nextReq = some ((other, text), { s with orphaned := rest }) := by
        simp [nextReq, queued]
      rcases step_submit (n := n) going oldest with ⟨deserted, took⟩ | ⟨w, took, submitted⟩
      · refine .step_first (a := (.submit, none)) ⟨took, trivial⟩ trivial (.here (.inl ⟨rfl, ?_⟩))
        exact ⟨(other, text), by simp [requests, queued], deserted⟩
      · refine .step_first (a := (.submit, none)) ⟨submitted, trivial⟩ trivial ?_
        have run' := Run.snoc run (a := (.submit, none)) submitted
        refine (ih (s := { s with p2p := w, orphaned := rest }) run' going waiting rfl).mono
          fun s' => Or.imp_left ?_
        rintro ⟨stopped, request, member, deserted⟩
        refine ⟨stopped, request, ?_, step_send_deserts took deserted⟩
        rw [requests_nextReq oldest]
        exact List.mem_cons_of_mem _ member

/-- The lock is released in the same way wherever it is held, or the server stops. -/
theorem unlocks {ts} (run : Runs n ts s) (going : s.stopped = false) :
    Unlocking n outcomes (fun s' => (s'.Free ∧ s'.stopped = false) ∨
      s'.stopped = true ∧ (s.Lost ∨ s.Deserted ∨ outcomes.Faulty ∧ s.ForLoop)) s := by
  rcases waiting : s.sending with _ | ⟨caller, peer, message, _ | notifier⟩
  · obtain ⟨reply, w, took, released⟩ := step_resume n going
    refine .step_first (a := (.resume, some reply)) ⟨took, trivial⟩ trivial ?_
    exact .here (.inl ⟨⟨waiting, released⟩, going⟩)
  · refine (submits run going waiting).trans ?_
    rintro s' (⟨stopped, deserted⟩ | ⟨ts', notifier, run', going', waiting', awaited⟩)
    · exact .here (.inr ⟨stopped, .inr (.inl deserted)⟩)
    · have h := run'.glued
      refine (unlock_awaited h.p2p going' waiting' (h.alone (by simp [waiting'])) awaited).mono ?_
      rintro s'' (free | ⟨stopped, failing, rfl⟩)
      · exact .inl free
      · exact .inr ⟨stopped, .inr (.inr ⟨failing, by simp [ForLoop, waiting]⟩)⟩
  · have h := run.glued
    have free := h.alone (by simp [waiting])
    cases lost : gone s.p2p peer notifier with
    | false =>
        refine (unlock_awaited h.p2p going waiting free lost).mono ?_
        rintro s' (free | ⟨stopped, failing, rfl⟩)
        · exact .inl free
        · exact .inr ⟨stopped, .inr (.inr ⟨failing, by simp [ForLoop, waiting]⟩)⟩
    | true =>
        refine .step_first (a := (.canceled, none)) ⟨step_canceled going waiting lost, trivial⟩
          trivial (.here ?_)
        cases caller with
        | openChannel => exact .inl ⟨⟨rfl, free⟩, rfl⟩
        | messageHandlerLoop => exact .inr ⟨rfl, .inl ⟨peer, message, notifier, waiting, lost⟩⟩

end Unlock

/-- The event loop loses a message, or the receiver of a queue it leads to. -/
def Loses (t : Step c Addr) : Prop :=
  ∃ a, t.act.1 = .p2p a ∧
    (LosesMessage ⟨t.pre.p2p, a, t.post.p2p⟩ ∨ Abandons ⟨t.pre.p2p, a, t.post.p2p⟩)

/-- What holds of a message the event loop has just taken, and is kept by all other steps of
    the event loop, holds for as long as its sender waits. -/
theorem Runs.sending (P : Runtime Addr c.PeerId (Message c) → Peer Addr c.PeerId → Message c →
      Notifier → Prop) (kept : P2p.Step Addr c.PeerId (Message c) → Prop)
    (fresh : ∀ {w w' peer message}, Custody w →
      w.step (.event (.sendReq peer message true)) = some w' → P w' peer message w.oneshots)
    (keep : ∀ {w a w' peer message notifier}, P w peer message notifier → Custody w →
      isSend a = false → w.step a = some w' → kept ⟨w, a, w'⟩ → P w' peer message notifier)
    {ts} (run : Runs n ts s)
    (all : ∀ t ∈ ts, ∀ a, t.act.1 = .p2p a → kept ⟨t.pre.p2p, a, t.post.p2p⟩) :
    ∀ {caller peer message notifier},
      s.sending = some ⟨caller, peer, message, some notifier⟩ → P s.p2p peer message notifier := by
  intro caller peer message notifier waiting
  induction run generalizing caller peer message notifier with
  | nil => cases waiting
  | @snoc ts s label s' run took ih =>
      have before := fun {caller peer message notifier} =>
        @ih (fun t member => all t (List.mem_append_left _ member)) caller peer message notifier
      have h := Runs.glued run
      obtain ⟨a, reply⟩ := label
      cases (step_moved took).2 with
      | @p2p a w other stepped =>
          exact keep (before waiting) h.p2p.custody other stepped
            (all _ (List.mem_append_right _ List.mem_cons_self) a rfl)
      | background | resume | updateChannel | hangUpUpdate | panics => exact before waiting
      | @openChannel peer' value wallet reply w free =>
          cases (sending_send (s := { s with watched := w }) free waiting).2
      | @handle entropy peer' message' reply w free =>
          let left : Server c Addr := { s with watched := w, handled := s.handled + 1 }
          cases (sending_replied (s := left) free waiting).2
      | @submit peer' message' left w oldest stepped =>
          rcases nextReq_cases oldest with ⟨rest, queued, rfl⟩ | ⟨caller', -, waits, rfl⟩
          · cases queued.symm.trans (h.foremost waiting nofun)
          · obtain ⟨⟩ := waiting
            exact fresh h.p2p.custody stepped
      | sent | canceled | withdrawn | unheard => cases waiting

/-- While the event loop loses nothing, the answer to a message can still be given. -/
theorem sending_awaited {ts} (run : Runs n ts s) (kept : ∀ t ∈ ts, ¬ Loses t)
    {caller : Caller} {peer : Peer Addr c.PeerId} {message : Message c} {notifier : Notifier}
    (waiting : s.sending = some ⟨caller, peer, message, some notifier⟩) :
    Awaited s.p2p peer message notifier := by
  refine Runs.sending Awaited (fun t => ¬ LosesMessage t) ?_ ?_ run
    (fun t member a act loses => kept t member ⟨a, act, .inl loses⟩) waiting
  · exact fun custody took => ⟨accounted_fresh custody took, .fresh custody took⟩
  · exact fun h custody other took kept => ⟨h.1.step custody took kept, h.2.step other took⟩

/-- And every queue the event loop leads to is received from. -/
theorem Runs.received {ts} (run : Runs n ts s) (kept : ∀ t ∈ ts, ¬ Loses t) :
    s.p2p.Received := by
  refine Runtime.Runs.received run.glued.p2p fun u member abandons => ?_
  obtain ⟨t, there, step⟩ := List.mem_flatMap.mp member
  simp only [p2pSteps, List.mem_map, Option.mem_toList] at step
  obtain ⟨a, event, rfl⟩ := step
  obtain ⟨conn, accepted, reason, writer, act, -⟩ := id abandons
  obtain rfl : a = _ := act
  refine kept t there ⟨_, ?_, .inr abandons⟩
  unfold Act.event? at event
  split at event
  · rename_i act
    exact act.trans (congrArg Act.p2p (Option.some.inj event))
  · simp only [Option.bind_eq_bind, Option.bind_eq_some_iff] at event
    obtain ⟨_, -, event⟩ := event
    split at event <;> cases event
  · cases event

/-- From every state a server can reach, whatever the network reports from then on, its reports
    release the lock, and then every request and the next message can be served, or the server
    stops. It stops when the message handler loop waits for an answer that nobody can give any
    more, be it because of writes that fail on the way, and when the event loop takes a message
    for a peer whose queue nobody receives from. Of the first and the last there is nothing
    before the event loop has lost something. -/
theorem lockReleased {ts} (run : Runs n ts s) (going : s.stopped = false)
    (outcomes : Outcomes (Server c Addr)) :
    Unlocking n outcomes (fun s' => (s'.Free ∧ Serves n s') ∨
      s'.stopped = true ∧ (s.Lost ∨ s.Deserted ∨ outcomes.Faulty ∧ s.ForLoop)) s ∧
    (s.Lost → ∃ s', s.step n .canceled = some (none, s') ∧ s'.stopped = true) ∧
    (s.Lost ∨ s.Deserted → ∃ t ∈ ts, Loses t) := by
  refine ⟨?_, ?_, fun bad => ?_⟩
  · refine (unlocks run going).mono fun s' => Or.imp_left ?_
    exact fun ⟨free, on⟩ => ⟨free, free.serves on⟩
  · rintro ⟨peer, message, notifier, waiting, lost⟩
    exact ⟨_, step_canceled going waiting lost, rfl⟩
  · by_contra none
    have kept : ∀ t ∈ ts, ¬ Loses t := by simpa using none
    rcases bad with ⟨peer, message, notifier, waiting, lost⟩ | ⟨request, -, queue, entry, missing⟩
    · have awaited := sending_awaited run kept waiting
      exact absurd (lost.symm.trans (awaited.not_gone run.glued.p2p.custody)) (by simp)
    · obtain ⟨writer, running, -⟩ := run.received kept _ _ entry
      cases missing.symm.trans running

/-- The step takes the lock. -/
def Act.Locks : Act c Addr → Prop
  | .openChannel .. | .updateChannel .. | .handle _ => True
  | _ => False

/-- Nobody who waits for the lock can take it. -/
structure Waits (n : Node c) (s : Server c Addr) : Prop where
  openChannel : ∀ peer value wallet, s.step n (.openChannel peer value wallet) = none
  updateChannel : ∀ channelId entropy, s.step n (.updateChannel channelId entropy) = none
  handle : ∀ entropy, s.step n (.handle entropy) = none

theorem waits_of_sending (held : s.sending.isSome) : Waits n s where
  openChannel := fun peer value wallet => by simp [step, advance, held]
  updateChannel := fun channelId entropy => by simp [step, advance, held]
  handle := fun entropy => by simp [step, advance, held]

section Held

variable {caller : Caller} {peer : Peer Addr c.PeerId} {message : Message c} {notifier : Notifier}
  {ts : List (Step c Addr)} {i : c.PeerId ⊕ ConnId}

/-- The place has to do with the peer: it is its entry, or the queue of a connection with it. -/
def Of (w : Runtime Addr c.PeerId (Message c)) (key : c.PeerId) : c.PeerId ⊕ ConnId → Prop
  | .inl other => other = key
  | .inr conn => ∃ writer, w.writers.get conn = some writer ∧ writer.peer.id = key

/-- Until something reaches the place where the message waits, or its client hangs up, the lock
    is not released. -/
theorem Runs.holds (run : Runs n ts s)
    (waiting : s.sending = some ⟨caller, peer, message, some notifier⟩)
    (place : Of s.p2p peer.id i) (there : notifier ∈ s.p2p.held i)
    {us : List (Step c Addr)} (more : RunsOn n s us s')
    (silent : ∀ t ∈ us, ∀ a, t.act.1 = .p2p a → ¬ t.pre.p2p.Reaches a i)
    (patient : caller = .openChannel → ∀ t ∈ us, ∀ queued, t.act.1 ≠ .hangUp queued) :
    (s'.sending = s.sending ∧ s'.handled = s.handled ∧ notifier ∈ s'.p2p.held i) ∧
      ∀ t ∈ us, ¬ t.act.1.Locks := by
  induction more with
  | nil => exact ⟨⟨rfl, rfl, there⟩, by simp⟩
  | @snoc us u label u' more took ih =>
      obtain ⟨⟨same, handled, there⟩, unlocked⟩ :=
        ih (fun t member => silent t (List.mem_append_left _ member))
          fun own t member => patient own t (List.mem_append_left _ member)
      have h := Runs.glued (run.append more)
      have custody := h.p2p.custody
      have still := same.trans waiting
      obtain ⟨a, reply⟩ := label
      have untaken : ¬ a.Locks → ∀ t ∈ us ++ [⟨u, (a, reply), u'⟩], ¬ t.act.1.Locks := by
        intro last t member
        rcases List.mem_append.mp member with earlier | new
        · exact unlocked t earlier
        · obtain rfl := List.mem_singleton.mp new
          exact last
      cases (step_moved took).2 with
      | @p2p a w other stepped =>
          have kept := custody.stays stepped there
            (silent _ (List.mem_append_right _ List.mem_cons_self) a rfl)
          exact ⟨⟨same, handled, kept⟩, untaken id⟩
      | background | resume | hangUpUpdate => exact ⟨⟨same, handled, there⟩, untaken id⟩
      | openChannel free | updateChannel free | handle free => cases still.symm.trans free
      | submit oldest | panics oldest => cases (h.nextReq still).symm.trans oldest
      | withdrawn waits => cases still.symm.trans waits
      | unheard waits =>
          obtain ⟨⟩ := still.symm.trans waits
          exact absurd rfl (patient rfl _ (List.mem_append_right _ List.mem_cons_self) _)
      | sent waits told =>
          obtain ⟨⟩ := still.symm.trans waits
          exact absurd (custody.unanswered _ _ there) told
      | canceled waits lost =>
          obtain ⟨⟩ := still.symm.trans waits
          simp only [gone, decide_eq_true_eq] at lost
          cases i with
          | inl key =>
              obtain rfl : key = peer.id := place
              exact absurd there lost.2.1
          | inr conn =>
              refine absurd there (lost.2.2 conn (List.mem_range.mpr ?_))
              by_contra late
              simp [held, queueAt, custody.unmade conn (Nat.le_of_not_lt late)] at there

/-- An answer that was not given yet waits at the peer the message is for. -/
theorem Runs.place (run : Runs n ts s)
    (waiting : s.sending = some ⟨caller, peer, message, some notifier⟩)
    (unanswered : s.p2p.answers notifier = []) (awaited : gone s.p2p peer notifier = false) :
    ∃ i, Of s.p2p peer.id i ∧ notifier ∈ s.p2p.held i := by
  have addressed := Runs.sending (fun w peer _ notifier => Addressed w peer.id notifier)
    (fun _ => True) (fun custody took => .fresh custody took)
    (fun h _ other took _ => h.step other took) run (by simp) waiting
  simp only [gone, decide_eq_false_iff_not, not_and_or, not_forall, not_not] at awaited
  rcases awaited with answer | waits | ⟨conn, -, waits⟩
  · exact absurd unanswered answer
  · exact ⟨.inl peer.id, rfl, waits⟩
  · refine ⟨.inr conn, ?_, waits⟩
    simp only [held, queueAt] at waits
    split at waits
    · rename_i writer running
      exact ⟨writer, running, addressed.queue conn writer running waits⟩
    · simp at waits

end Held

/-- The lock waits for one peer. While the message to it was not sent, nothing but its own
    connections, the writer task of its queue and the client that asked for it can release the
    lock: whatever everybody else does in the meantime, no request and no message is served. The
    client can at any time, and the message waits on. -/
theorem lockHeld {ts} (run : Runs n ts s) {caller : Caller} {peer : Peer Addr c.PeerId}
    {message : Message c} {notifier : Notifier}
    (waiting : s.sending = some ⟨caller, peer, message, some notifier⟩)
    (unanswered : s.p2p.answers notifier = []) (awaited : gone s.p2p peer notifier = false) :
    ∃ i, Of s.p2p peer.id i ∧ notifier ∈ s.p2p.held i ∧ ∀ us s', RunsOn n s us s' →
      (∀ t ∈ us, ∀ a, t.act.1 = .p2p a → ¬ t.pre.p2p.Reaches a i) →
      (caller = .openChannel → ∀ t ∈ us, ∀ queued, t.act.1 ≠ .hangUp queued) →
      (∀ t ∈ us, ¬ t.act.1.Locks) ∧ s'.handled = s.handled ∧ s'.sending = s.sending ∧
        Waits n s' ∧ (caller = .openChannel → s'.stopped = false → ∀ queued, ∃ s'',
          s'.step n (.hangUp queued) = some (none, s'') ∧ s''.Free ∧
            notifier ∈ s''.p2p.held i) := by
  obtain ⟨i, place, there⟩ := run.place waiting unanswered awaited
  refine ⟨i, place, there, fun us s' more silent patient => ?_⟩
  obtain ⟨⟨same, handled, still⟩, unlocked⟩ := run.holds waiting place there more silent patient
  refine ⟨unlocked, handled, same, waits_of_sending (by simp [same, waiting]), ?_⟩
  rintro rfl going queued
  have held := same.trans waiting
  have free := (Runs.glued (run.append more)).alone (by simp [held])
  exact ⟨_, step_hangUp going held queued, ⟨rfl, free⟩, still⟩

section Small

/-- The message of a new channel waits for a connection, which fails. -/
theorem lockReleased_small : ∃ ts us, ∃ s s' : Server smallCrates Unit,
    Runs smallNode ts s ∧ s.sending.isSome ∧ RunsOn smallNode s us s' ∧ s'.Free ∧
      Serves smallNode s' := by
  obtain ⟨ts, s, done, going, caller, none⟩ : ∃ ts s,
      exec smallNode (.init : Server smallCrates Unit)
        ((smallOpening.flatMap (serving ⟨(), smallBob.id⟩)).take 2) = some (ts, s) ∧
      s.stopped = false ∧ s.sending.map Sending.caller = some .openChannel ∧ s.requests = [] :=
    ⟨_, _, rfl, rfl, rfl, rfl⟩
  have run := execReplies_run done
  obtain ⟨sending, held, -⟩ := Option.map_eq_some_iff.mp caller
  obtain ⟨us, s', rest, -, ⟨free, serves⟩ | ⟨-, lost | deserted | ⟨-, loop⟩⟩⟩ :=
    (lockReleased run going
      ⟨fun _ _ => .error (.io .timedOut), fun _ _ => .error (.io .brokenPipe)⟩).1
  · exact ⟨ts, us, s, s', run, by simp [held], rest.mono fun _ _ _ => And.left, free, serves⟩
  · obtain ⟨peer, message, notifier, waiting, -⟩ := lost
    rw [waiting] at caller
    cases caller
  · obtain ⟨request, member, -⟩ := deserted
    rw [none] at member
    cases member
  · cases caller.symm.trans loop

/-- Alice waits for Bob. Carol connects meanwhile, but what she says is not handled. -/
theorem lockHeld_small : ∃ ts us, ∃ s s' : Server smallCrates Unit,
    Runs smallNode ts s ∧ RunsOn smallNode s us s' ∧ s'.p2p.incoming.length = 1 ∧
      Waits smallNode s' := by
  obtain ⟨ts, s, us, s', message, done, silent, later, heard, unmade, acts⟩ :
      ∃ ts s us s' message,
        exec smallNode (.init : Server smallCrates Unit)
          ((smallOpening.flatMap (serving ⟨(), smallBob.id⟩)).take 2) = some (ts, s) ∧
        s.sending = some ⟨.openChannel, ⟨(), smallBob.id⟩, message, some 0⟩ ∧
        exec smallNode s [.p2p (.event (.inbound ⟨(), smallCarol.id⟩)),
          .p2p (.event (.received 0 message))] = some (us, s') ∧
        s'.p2p.incoming.length = 1 ∧
        (s.p2p.answers 0 = [] ∧ gone s.p2p ⟨(), smallBob.id⟩ 0 = false ∧
          ∀ conn, s.p2p.writers.get conn = none) ∧
        us.map (fun t => t.act.1) = [.p2p (.event (.inbound ⟨(), smallCarol.id⟩)),
          .p2p (.event (.received 0 message))] :=
    ⟨_, _, _, _, _, rfl, rfl, rfl, rfl, ⟨rfl, by decide +kernel, fun _ => rfl⟩, rfl⟩
  have run := execReplies_run done
  have more := execReplies_run later
  obtain ⟨i, place, -, holds⟩ := lockHeld run silent unmade.1 unmade.2.1
  refine ⟨ts, us, s, s', run, more, heard, (holds us s' more ?_ ?_).2.2.2.1⟩
  rotate_left
  · intro _ t member queued act
    have listed := List.mem_map_of_mem (f := fun t => t.act.1) member
    rw [acts, act] at listed
    simp at listed
  intro t member a act
  have listed := List.mem_map_of_mem (f := fun t => t.act.1) member
  rw [acts] at listed
  cases i with
  | inl key =>
      obtain rfl : key = smallBob.id := place
      have apart : smallCarol.id ≠ smallBob.id := by decide +kernel
      simp only [act, List.mem_cons, Act.p2p.injEq, List.not_mem_nil, or_false] at listed
      rcases listed with rfl | rfl
      · exact apart
      · exact id
  | inr conn =>
      obtain ⟨writer, running, -⟩ := place
      cases (unmade.2.2 conn).symm.trans running

end Small

end Server

end Lindy
