import Lindy.Machine.Feed
import Lindy.P2p.Traffic

/-! # The event channel

`EventHandler::start` with the channel between the loop and everyone who reports to it. An event
is made when it is sent, with the peer, the connection and the notifier of that moment, and lies
on the channel until the loop receives it. By then other events are on their way and writer
tasks have gone on, and still nothing is handled that differs from what a runtime without the
channel would have handled.
-/

namespace Lindy.P2p.Runtime

open Machine

variable {Addr Key M : Type}

/-- What sources and nobody else use up, apart from what the loop adds for them. -/
structure Sources (Addr Key : Type) where
  readers : Table ConnId (Peer Addr Key)
  attempts : Table AttemptId (Peer Addr Key)
  conns : Nat
  oneshots : Nat

def sources (w : Runtime Addr Key M) : Sources Addr Key :=
  ⟨w.readers, w.attempts, w.conns, w.oneshots⟩

/-- The same runtime with other sources. -/
def withSources (w : Runtime Addr Key M) (k : Sources Addr Key) : Runtime Addr Key M :=
  { w with readers := k.readers, attempts := k.attempts, conns := k.conns, oneshots := k.oneshots }

@[simp] theorem withSources_sources (w : Runtime Addr Key M) : w.withSources w.sources = w := rfl

/-- What is left of the sources once one has reported. -/
def spent (k : Sources Addr Key) : Source Addr Key M → Sources Addr Key
  | .connectReq _ wanted | .sendReq _ _ wanted => { k with oneshots := k.oneshots + wanted.toNat }
  | .inbound _ => { k with conns := k.conns + 1 }
  | .connected attempt => { k with attempts := k.attempts.remove attempt, conns := k.conns + 1 }
  | .failed attempt _ => { k with attempts := k.attempts.remove attempt }
  | .received _ _ => k
  | .ended conn => { k with readers := k.readers.remove conn }

section Reports

variable {w w' u : Runtime Addr Key M} {source : Source Addr Key M} {event : Event Addr Key M}

/-- A report reads and changes the sources, and nothing else. With more attempts and readers it
    is the same report. -/
theorem report_mono (made : w.report source = some (event, w'))
    (attempts : ∀ {attempt peer}, w.attempts.get attempt = some peer →
      u.attempts.get attempt = some peer)
    (readers : ∀ {conn peer}, w.readers.get conn = some peer → u.readers.get conn = some peer)
    (conns : u.conns = w.conns) (oneshots : u.oneshots = w.oneshots) :
    u.report source = some (event, u.withSources (spent u.sources source)) := by
  cases source with
  | connectReq peer wanted | sendReq peer message wanted =>
      cases wanted <;>
        · simp only [report, oneshot, Option.some.injEq, Prod.mk.injEq] at made
          obtain ⟨rfl, -⟩ := made
          simp [report, oneshot, ← oneshots, withSources, spent, sources]
  | inbound peer =>
      simp only [report, openConn, Option.some.injEq, Prod.mk.injEq] at made
      obtain ⟨rfl, -⟩ := made
      simp [report, openConn, conns, withSources, spent, sources]
  | connected attempt | failed attempt reason =>
      simp only [report, openConn, Option.bind_eq_bind, Option.bind_eq_some_iff, Option.some.injEq,
        Prod.mk.injEq] at made
      obtain ⟨peer, running, rfl, -⟩ := made
      simp [report, openConn, attempts running, conns, withSources, spent, sources]
  | received conn message | ended conn =>
      simp only [report, Option.bind_eq_bind, Option.bind_eq_some_iff, Option.some.injEq,
        Prod.mk.injEq] at made
      obtain ⟨peer, running, rfl, -⟩ := made
      simp [report, readers running, withSources, spent, sources]

theorem report_frame (made : w.report source = some (event, w')) :
    w' = w.withSources (spent w.sources source) := by
  have same := report_mono made id id rfl rfl
  rw [made] at same
  exact (Prod.mk.inj (Option.some.inj same)).2

end Reports

/-- The sources an event adds when it is handled: the attempt of a new entry, the reader of a
    connection. -/
def added (w : Runtime Addr Key M) (event : Event Addr Key M) (k : Sources Addr Key) :
    Sources Addr Key :=
  match event with
  | .outgoingConnectionReq peer _ | .sendMessageReq peer _ _ =>
      if w.peers.get peer.id = none then { k with attempts := k.attempts.insert w.spawned peer }
      else k
  | .connectionEstablished peer conn => { k with readers := k.readers.insert conn peer }
  | _ => k

/-- Attempts and connections are numbered as they are made. -/
structure Numbered (w : Runtime Addr Key M) : Prop where
  attempts : ∀ {attempt peer}, w.attempts.get attempt = some peer → attempt < w.spawned
  readers : ∀ {conn peer}, w.readers.get conn = some peer → conn < w.conns

/-- The connection of an event that waits was made, and has no reader yet. -/
def Unread (event : Event Addr Key M) (w : Runtime Addr Key M) : Prop :=
  ∀ {peer conn}, event = .connectionEstablished peer conn →
    conn < w.conns ∧ w.readers.get conn = none

section Added

variable {w w' u : Runtime Addr Key M} {source : Source Addr Key M} {event other : Event Addr Key M}

/-- Handling an event makes no connection and no oneshot channel. -/
theorem added_counts (k : Sources Addr Key) :
    (w.added event k).conns = k.conns ∧ (w.added event k).oneshots = k.oneshots := by
  cases event with
  | outgoingConnectionReq | sendMessageReq =>
      simp only [added]
      split <;> exact ⟨rfl, rfl⟩
  | connectionEstablished | connectionFailed | newIncomingMessage | disconnected => exact ⟨rfl, rfl⟩

theorem Numbered.added_attempts (numbered : w.Numbered) {attempt : AttemptId}
    {peer : Peer Addr Key} (running : w.attempts.get attempt = some peer) :
    (w.added event w.sources).attempts.get attempt = some peer := by
  have older : attempt ≠ w.spawned := Nat.ne_of_lt (numbered.attempts running)
  cases event with
  | outgoingConnectionReq | sendMessageReq =>
      simp only [added]
      split
      · exact (Table.get_insert_of_ne _ _ older).trans running
      · exact running
  | connectionEstablished | connectionFailed | newIncomingMessage | disconnected => exact running

theorem Unread.added_readers (unread : Unread event w) {conn : ConnId} {peer : Peer Addr Key}
    (running : w.readers.get conn = some peer) :
    (w.added event w.sources).readers.get conn = some peer := by
  cases event with
  | connectionEstablished target made =>
      have apart : conn ≠ made := by
        rintro rfl
        rw [(unread rfl).2] at running
        cases running
      exact (Table.get_insert_of_ne _ _ apart).trans running
  | outgoingConnectionReq | sendMessageReq =>
      simp only [added]
      split <;> exact running
  | connectionFailed | newIncomingMessage | disconnected => exact running

/-- What is added for an event is not what others report about. -/
theorem spent_added (numbered : w.Numbered) (unread : Unread other w)
    (made : w.report source = some (event, w')) :
    spent (w.added other w.sources) source = w.added other (spent w.sources source) := by
  cases other with
  | outgoingConnectionReq peer notify | sendMessageReq peer message notifier =>
      simp only [added]
      split
      · cases source with
        | connected attempt | failed attempt reason =>
            simp only [report, openConn, Option.bind_eq_bind, Option.bind_eq_some_iff] at made
            obtain ⟨_, running, -⟩ := made
            have older : w.spawned ≠ attempt := (Nat.ne_of_lt (numbered.attempts running)).symm
            simp [spent, sources, Table.remove_insert_of_ne _ _ older]
        | connectReq | sendReq | inbound | received | ended => rfl
      · rfl
  | connectionEstablished peer conn =>
      cases source with
      | ended reading =>
          simp only [report, Option.bind_eq_bind, Option.bind_eq_some_iff] at made
          obtain ⟨_, running, -⟩ := made
          have apart : conn ≠ reading := by
            rintro rfl
            rw [(unread rfl).2] at running
            cases running
          simp [added, spent, sources, Table.remove_insert_of_ne _ _ apart]
      | connectReq | sendReq | inbound | connected | failed | received => rfl
  | connectionFailed | newIncomingMessage | disconnected => rfl

end Added

/-- The writer tasks; what else there is to do is handling an event. -/
def work (w : Runtime Addr Key M) : Act Addr Key M → Option (Runtime Addr Key M)
  | .event _ => none
  | .wrote conn accepted outcome => w.wrote conn accepted outcome
  | .drained conn => w.drained conn

/-- They do not look at the sources. -/
theorem work_withSources (w : Runtime Addr Key M) (k : Sources Addr Key) (a : Act Addr Key M) :
    (w.withSources k).work a = (w.work a).map fun u => u.withSources k := by
  cases a with
  | event => rfl
  | wrote conn accepted outcome =>
      rcases running : w.writers.get conn with
        _ | ⟨peer, _ | ⟨⟨message, notifier⟩, rest⟩, failed⟩
      · simp [work, Runtime.wrote, withSources, running]
      · simp [work, Runtime.wrote, withSources, running]
      · cases accepted <;> cases notifier <;> cases failed <;> by_cases done : outcome = .ok () <;>
          simp [work, Runtime.wrote, withSources, running, done, answer]
  | drained conn =>
      rcases running : w.writers.get conn with _ | ⟨peer, _ | ⟨item, rest⟩, failed⟩
      · simp [work, Runtime.drained, withSources, running]
      · by_cases sender : w.hasSender peer.id conn <;>
          simp_all [work, Runtime.drained, withSources, hasSender]
      · simp [work, Runtime.drained, withSources, running]

section Slides

variable {w w' : Runtime Addr Key M} {source : Source Addr Key M} {event : Event Addr Key M}

/-- What does not look at the sources, and adds none that report, is done to the same end before
    and after one reports. -/
theorem slides {f : Runtime Addr Key M → Option (Runtime Addr Key M)}
    (add : Sources Addr Key → Sources Addr Key)
    (blind : ∀ k, f (w.withSources k) = (f w).map fun u => u.withSources (add k))
    (made : w.report source = some (event, w'))
    (attempts : ∀ {attempt peer}, w.attempts.get attempt = some peer →
      (add w.sources).attempts.get attempt = some peer)
    (readers : ∀ {conn peer}, w.readers.get conn = some peer →
      (add w.sources).readers.get conn = some peer)
    (conns : (add w.sources).conns = w.conns) (oneshots : (add w.sources).oneshots = w.oneshots)
    (apart : spent (add w.sources) source = add (spent w.sources source)) :
    Option.Rel (fun u u' => u.report source = some (event, u')) (f w) (f w') := by
  have here := blind w.sources
  rw [report_frame made, blind]
  rw [withSources_sources] at here
  cases done : f w with
  | none => exact .none
  | some u =>
      rw [done] at here
      have changed : u.sources = add w.sources := congrArg sources (Option.some.inj here)
      rw [← apart, ← changed]
      rw [← changed] at attempts readers conns oneshots
      exact .some (report_mono made attempts readers conns oneshots)

/-- Writer tasks go on to the same end before and after others report. -/
theorem work_slides {a : Act Addr Key M} (made : w.report source = some (event, w')) :
    Option.Rel (fun u u' => u.report source = some (event, u')) (w.work a) (w'.work a) :=
  slides (f := (work · a)) id (fun k => w.work_withSources k a) made id id rfl rfl rfl

end Slides

variable [DecidableEq Key]

/-- The handler does not look at the sources it adds to. -/
theorem handleEvent_withSources (w : Runtime Addr Key M) (event : Event Addr Key M)
    (k : Sources Addr Key) : (w.withSources k).handleEvent event =
      (w.handleEvent event).map fun u => u.withSources (w.added event k) := by
  cases event with
  | outgoingConnectionReq peer notify =>
      rcases entry : w.peers.get peer.id with _ | ⟨queue⟩ | ⟨ns, ps⟩ <;> cases notify <;>
        simp [handleEvent, maybeConnect, added, withSources, ConnectState.default, setPeer, entry]
  | sendMessageReq peer message notifier =>
      rcases entry : w.peers.get peer.id with _ | ⟨queue⟩ | ⟨ns, ps⟩
      · simp [handleEvent, maybeConnect, added, withSources, ConnectState.default, setPeer, entry]
      · cases receiving : w.writers.get queue <;>
          simp [handleEvent, maybeConnect, added, withSources, unboundedSend, entry, receiving]
      · simp [handleEvent, maybeConnect, added, withSources, setPeer, entry]
  | connectionEstablished peer conn =>
      simp only [handleEvent_established, Option.map_some]
      rfl
  | connectionFailed peer reason =>
      simp only [handleEvent_failed, Option.map_some]
      rfl
  | newIncomingMessage | disconnected => rfl

/-- An event is handled to the same end before and after others report. -/
theorem handleEvent_slides {w w' : Runtime Addr Key M} {source : Source Addr Key M}
    {event other : Event Addr Key M} (numbered : w.Numbered) (unread : Unread other w)
    (made : w.report source = some (event, w')) :
    Option.Rel (fun u u' => u.report source = some (event, u')) (w.handleEvent other)
      (w'.handleEvent other) :=
  slides (f := (handleEvent · other)) (w.added other) (w.handleEvent_withSources other) made
    numbered.added_attempts unread.added_readers (added_counts _).1 (added_counts _).2
    (spent_added numbered unread made)

/-- The loop of `EventHandler::start`, the sources that send to its channel, and the writer
    tasks. -/
def eventLoop : Feed (Runtime Addr Key M) (Source Addr Key M) (Event Addr Key M)
    (Act Addr Key M) where
  report := report
  handle := handleEvent
  work := work
  event := .event
  event? := fun
    | .event source => some source
    | _ => none
  event?_iff := fun a source => by cases a <;> simp

theorem eventLoop_direct (w : Runtime Addr Key M) (a : Act Addr Key M) :
    eventLoop.direct w a = w.step a := by
  cases a with
  | event source =>
      simp only [Feed.direct, eventLoop, step]
      cases w.report source <;> rfl
  | wrote | drained => rfl

/-- Without the channel the event loop is the runtime. -/
theorem directRuns_iff {us : List (Step Addr Key M)} {w : Runtime Addr Key M} :
    eventLoop.DirectRuns init us w ↔ Runs us w := by
  simp only [Feed.DirectRuns, Runs, eventLoop_direct]

/-- The runs of the event loop with its channel, which has room for more as `room` says. -/
abbrev LoopRuns (room : List (Event Addr Key M) → Source Addr Key M → Bool)
    (ts : List (Transition (Feed.Queued (Runtime Addr Key M) (Event Addr Key M))
      (Feed.Act (Source Addr Key M) (Act Addr Key M))))
    (l : Feed.Queued (Runtime Addr Key M) (Event Addr Key M)) : Prop :=
  eventLoop.QueuedRuns room init ts l

section Law

variable {ts : List (Step Addr Key M)} {w w' : Runtime Addr Key M} {source : Source Addr Key M}
  {event : Event Addr Key M}

theorem Runs.numbered (run : Runs ts w) : w.Numbered :=
  ⟨run.attempting.numbered, fun running => (run.reading.reader running).1⟩

omit [DecidableEq Key] in
/-- Reports make connections and end tasks. -/
theorem spent_le (k : Sources Addr Key) (source : Source Addr Key M) :
    k.conns ≤ (spent k source).conns ∧
      (∀ {attempt peer}, (spent k source).attempts.get attempt = some peer →
        k.attempts.get attempt = some peer) ∧
      ∀ {conn peer}, (spent k source).readers.get conn = some peer →
        k.readers.get conn = some peer := by
  have removed : ∀ (table : Table Nat (Peer Addr Key)) {key other peer},
      (table.remove key).get other = some peer → table.get other = some peer := by
    intro table key other peer found
    rw [Table.get_remove] at found
    split at found
    · cases found
    · exact found
  cases source with
  | connectReq | sendReq | received => exact ⟨Nat.le_refl _, id, id⟩
  | inbound => exact ⟨Nat.le_succ _, id, id⟩
  | connected => exact ⟨Nat.le_succ _, removed _, id⟩
  | failed => exact ⟨Nat.le_refl _, removed _, id⟩
  | ended => exact ⟨Nat.le_refl _, id, removed _⟩

omit [DecidableEq Key] in
/-- The connection of an event was made for it. -/
theorem report_established {peer : Peer Addr Key} {conn : ConnId}
    (made : w.report source = some (.connectionEstablished peer conn, w')) :
    conn = w.conns ∧ w'.conns = w.conns + 1 ∧ w'.readers = w.readers := by
  cases source with
  | inbound target =>
      simp only [report, openConn, Option.some.injEq, Prod.mk.injEq,
        Event.connectionEstablished.injEq] at made
      obtain ⟨⟨-, rfl⟩, rfl⟩ := made
      exact ⟨rfl, rfl, rfl⟩
  | connected attempt =>
      simp only [report, openConn, Option.bind_eq_bind, Option.bind_eq_some_iff, Option.some.injEq,
        Prod.mk.injEq, Event.connectionEstablished.injEq] at made
      obtain ⟨_, -, ⟨-, rfl⟩, rfl⟩ := made
      exact ⟨rfl, rfl, rfl⟩
  | connectReq target wanted | sendReq target message wanted => cases wanted <;> cases made
  | failed | received | ended => simp [report, Option.bind_eq_some_iff] at made

theorem eventLoop_law :
    (eventLoop : Feed (Runtime Addr Key M) _ _ _).Law Numbered Unread where
  kept := by
    intro w source event w' numbered made
    obtain ⟨conns, attempts, readers⟩ := spent_le w.sources source
    have frame := report_frame made
    constructor
    · rw [frame]
      exact ⟨fun running => numbered.attempts (attempts running),
        fun running => Nat.lt_of_lt_of_le (numbered.readers (readers running)) conns⟩
    · rintro peer conn rfl
      obtain ⟨rfl, more, same⟩ := report_established made
      refine ⟨more ▸ Nat.lt_succ_self _, ?_⟩
      rw [same, Option.eq_none_iff_forall_ne_some]
      exact fun other running => Nat.lt_irrefl _ (numbered.readers running)
  waits := by
    intro w source event w' other unread made peer conn same
    obtain ⟨conns, -, readers⟩ := spent_le w.sources source
    obtain ⟨made', idle⟩ := unread same
    rw [report_frame made]
    refine ⟨Nat.lt_of_lt_of_le made' conns, ?_⟩
    rw [Option.eq_none_iff_forall_ne_some]
    intro other' running
    have before : w.readers.get conn = some other' := readers running
    rw [idle] at before
    cases before
  work := fun _ _ _ made => work_slides made
  handle := handleEvent_slides

/-- Reports one after the other change the sources, and nothing else. -/
theorem reports_frame {sources : List (Source Addr Key M)} {events : List (Event Addr Key M)}
    (made : eventLoop.reports w sources = some (events, w')) :
    w' = w.withSources w'.sources := by
  induction sources generalizing w events with
  | nil =>
      obtain ⟨-, rfl⟩ := Feed.reports_nil.mp made
      rfl
  | cons source sources ih =>
      obtain ⟨_, v, _, one, more, -⟩ := Feed.reports_cons.mp made
      have first : v = w.withSources (spent w.sources source) := report_frame one
      have rest := ih more
      rw [first] at rest
      exact rest

end Law

/-- The channel of `EventHandler::start` goes unnoticed, whatever room it has. In every run with
    it, what the loop received and what the writer tasks did is a run without it, step by step:
    events are received in the order in which they were sent, the sources of those that still
    lie there have reported, and nothing else is different; where the handler panics over the
    next one, it panics without the channel. Receiving alone empties the channel, and whoever
    waited for room has it then, unless a message on it is for a peer whose queue nobody
    receives from any more. And every run without the channel is one with it, with no more than
    one event on it at a time. -/
theorem channelUnnoticed (room : List (Event Addr Key M) → Source Addr Key M → Bool)
    (empty : ∀ source, room [] source = true) :
    (∀ {ts l}, LoopRuns room ts l →
      (∃ us w waiting, Runs us w ∧
        List.Forall₂ eventLoop.Shows (ts.filter Feed.visible) us ∧
        ts.filterMap Feed.reported? = us.filterMap eventLoop.handled? ++ waiting ∧
        eventLoop.reports w waiting = some (l.queue, l.now) ∧
        l.now = w.withSources l.now.sources ∧
        (eventLoop.Stuck l → ∃ source rest w', waiting = source :: rest ∧
          Panics w (.event source) w')) ∧
      Leads (fun l a l' => eventLoop.queued room l a = some l') (· = .handle)
        (fun l' =>
          (l'.queue = [] ∧ ∀ source, (l.now.report source).isSome →
            (eventLoop.queued room l' (.report source)).isSome) ∨
          ∃ peer message notifier rest, l'.queue = .sendMessageReq peer message notifier :: rest ∧
            l.now.Deserted peer.id) l) ∧
    ∀ {us w}, Runs us w → ∃ ts, LoopRuns room ts ⟨w, []⟩ ∧
      List.Forall₂ eventLoop.Shows (ts.filter Feed.visible) us ∧
      ts.filterMap Feed.reported? = us.filterMap eventLoop.handled? ∧
      ∀ t ∈ ts, t.post.queue.length ≤ 1 := by
  have always : ∀ {us : List (Step Addr Key M)} {w}, eventLoop.DirectRuns init us w → w.Numbered :=
    fun run => (directRuns_iff.mp run).numbered
  refine ⟨fun {ts l} run => ⟨?_, ?_⟩, fun run => ?_⟩
  · obtain ⟨us, w, waiting, direct, shown, order, lies⟩ := eventLoop_law.direct_of_queued always run
    refine ⟨us, w, waiting, directRuns_iff.mp direct, shown, order, lies, reports_frame lies, ?_⟩
    intro stuck
    obtain ⟨source, rest, event, found, next, reported, panics⟩ :=
      eventLoop_law.stuck_direct (always direct) lies stuck
    exact ⟨source, rest, _, next, .intro reported panics⟩
  · have drained := eventLoop_law.drains always
      (P := fun w => ∀ key, w.Deserted key → l.now.Deserted key)
      (fun before handled key there => before key (handleEvent_deserts handled there)) run
      fun _ => id
    refine drained.mono fun l' ⟨ends, before, still⟩ => ?_
    rcases ends with received | ⟨event, rest, next, panics⟩
    · refine .inl ⟨received, fun source reports => ?_⟩
      obtain ⟨made, again⟩ := Option.isSome_iff_exists.mp (still source reports)
      simp [Feed.queued, received, empty, again]
    · obtain ⟨peer, message, notifier, rfl, deserted⟩ := handleEvent_eq_none.mp panics
      exact .inr ⟨peer, message, notifier, rest, next, before _ deserted⟩
  · exact Feed.queued_of_direct empty (directRuns_iff.mpr run)

/-- The loop has received one of two events, the second was overtaken by a writer task. -/
theorem channelUnnoticed_two :
    ∃ ts, ∃ l : Feed.Queued (Runtime Unit Bool Nat) (Event Unit Bool Nat),
      LoopRuns (fun queue _ => queue.length < 10) ts l ∧
      l.queue = [.sendMessageReq ⟨(), true⟩ 8 (some 1)] ∧ l.now.answers 0 = [.ok ()] ∧
      ∃ us w waiting, Runs us w ∧ ts.filterMap Feed.reported? =
          us.filterMap eventLoop.handled? ++ waiting ∧
        eventLoop.reports w waiting = some (l.queue, l.now) ∧ w.answers 0 = [.ok ()] := by
  obtain ⟨ts, l, done, queue, answers⟩ : ∃ ts l,
      exec (eventLoop.queued fun queue _ => queue.length < 10)
        (⟨init, []⟩ : Feed.Queued (Runtime Unit Bool Nat) _)
        [.report (.inbound ⟨(), true⟩), .report (.sendReq ⟨(), true⟩ 7 true), .handle,
          .report (.sendReq ⟨(), true⟩ 8 true), .handle, .work (.wrote 0 true (.ok ()))] =
        some (ts, l) ∧ l.queue = [.sendMessageReq ⟨(), true⟩ 8 (some 1)] ∧
      l.now.answers 0 = [.ok ()] := ⟨_, _, rfl, rfl, rfl⟩
  have run := exec_run done
  obtain ⟨⟨us, w, waiting, direct, -, order, lies, same, -⟩, -⟩ :=
    (channelUnnoticed (fun queue _ => queue.length < 10) (by simp)).1 run
  rw [same] at answers
  exact ⟨ts, l, run, queue, same ▸ answers, us, w, waiting, direct, order, lies, answers⟩

end Lindy.P2p.Runtime
