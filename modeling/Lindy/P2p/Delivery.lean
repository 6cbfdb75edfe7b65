import Lindy.P2p.Custody

/-! # No message is lost in silence

A message taken from a `SendMessageReq` waits for the connection, then in the queue of a
writer task, and then its notifier hears exactly one result. There are three ways out of this.
`Disconnected` removes the entry of the peer whatever it is: a connecting entry goes with
everything that waits in it when a connection older than the running attempt ends. A sink that
fails again takes its writer task along, with all that is on the queue. And then the next
message for that queue makes the handler panic, which drops everything that waits in the map.
-/

namespace Lindy.P2p.Runtime

open Machine

variable {Addr Key M : Type}

/-- Still in `pending_messages` or in the queue of a writer task. -/
def Held (w : Runtime Addr Key M) (message : M) (n : Notifier) : Prop :=
  (∃ key, (message, some n) ∈ w.pendingAt key) ∨ ∃ conn, (message, some n) ∈ w.queueAt conn

/-- Answered once, and with `Ok` only for a message that some sink accepted. -/
def Reported (w : Runtime Addr Key M) (message : M) (n : Notifier) : Prop :=
  ∃ outcome, w.answers n = [outcome] ∧
    (outcome = .ok () → ∃ conn, (message, some n) ∈ w.sinks conn)

def Accounted (w : Runtime Addr Key M) (message : M) (n : Notifier) : Prop :=
  (w.Held message n ∧ w.answers n = []) ∨ w.Reported message n

/-- The pair a handled `SendMessageReq` brought along. -/
def request? (t : Transition (Runtime Addr Key M) (Act Addr Key M)) : Option (M × Notifier) :=
  match t.act with
  | .event (.sendReq _ message true) => some (message, t.pre.oneshots)
  | _ => none

def requests (ts : List (Transition (Runtime Addr Key M) (Act Addr Key M))) :
    List (M × Notifier) :=
  ts.filterMap request?

/-- The three ways to lose a message whose fate someone waits for: a connection ends while the
    message is pending; the sink of a connection fails for the second time with the message on
    its queue; the handler panics over the message, or while it is pending. -/
inductive LosesMessage (t : Transition (Runtime Addr Key M) (Act Addr Key M)) : Prop where
  | forgotten {conn peer message n} (act : t.act = .event (.ended conn))
      (running : t.pre.readers.get conn = some peer)
      (waits : (message, some n) ∈ t.pre.pendingAt peer.id)
  | broken {conn accepted reason writer message n}
      (act : t.act = .wrote conn accepted (.error reason))
      (running : t.pre.writers.get conn = some writer) (failed : writer.failed = true)
      (waits : (message, some n) ∈ writer.queue)
  | panicked {peer message wanted} (act : t.act = .event (.sendReq peer message wanted))
      (deserted : t.pre.Deserted peer.id)
      (waits : wanted = true ∨ ∃ key text n, (text, some n) ∈ t.pre.pendingAt key)

section Steps

variable {w w' : Runtime Addr Key M} {message : M} {n : Notifier}

/-- Nothing that concerns the message was taken away. -/
theorem Accounted.mono (h : w.Accounted message n)
    (pending : ∀ key, w.pendingAt key ⊆ w'.pendingAt key)
    (queue : ∀ conn, w.queueAt conn ⊆ w'.queueAt conn)
    (answers : w'.answers n = w.answers n) (sinks : w'.sinks = w.sinks) :
    w'.Accounted message n := by
  rcases h with ⟨held, silent⟩ | ⟨outcome, once, accepted⟩
  · refine .inl ⟨held.imp ?_ ?_, answers.trans silent⟩
    · exact fun ⟨key, member⟩ => ⟨key, pending key member⟩
    · exact fun ⟨conn, member⟩ => ⟨conn, queue conn member⟩
  · exact .inr ⟨outcome, answers.trans once, sinks ▸ accepted⟩

/-- A notifier in an entry or a queue, as an occupant of that place. -/
theorem held_pending {key : Key} (member : (message, some n) ∈ w.pendingAt key) :
    n ∈ w.held (.inl key) :=
  List.mem_append_right _ (mem_notifiers.mpr ⟨message, member⟩)

theorem held_queue {conn : ConnId} (member : (message, some n) ∈ w.queueAt conn) :
    n ∈ w.held (.inr conn : Key ⊕ ConnId) :=
  mem_notifiers.mpr ⟨message, member⟩

/-- A result for someone else, or for nobody who has one already. -/
theorem Accounted.quiet (h : w.Accounted message n) {ns : List Notifier} (result : Outcome)
    (custody : Custody w) {i : Key ⊕ ConnId} (there : ∀ m ∈ ns, m ∈ w.held i)
    (elsewhere : w.Held message n → n ∉ ns) :
    answered w.answers ns result n = w.answers n := by
  refine answered_of_notMem result ?_
  rcases h with ⟨held, -⟩ | ⟨outcome, once, -⟩
  · exact elsewhere held
  · intro member
    rw [custody.unanswered i n (there n member)] at once
    cases once

/-- Those who only wait for a connection do not wait with a message. -/
theorem Custody.apart (custody : Custody w) {key : Key} (member : n ∈ w.notifyAt key) :
    ¬ w.Held message n := by
  have here : n ∈ w.held (.inl key) := List.mem_append_left _ member
  rintro (⟨other, pending⟩ | ⟨conn, queued⟩)
  · obtain rfl := Sum.inl.inj (custody.exclusive.unique here (held_pending pending))
    have nodup := custody.exclusive.nodup (.inl key)
    exact (List.nodup_append'.mp nodup).2.2 member (mem_notifiers.mpr ⟨message, pending⟩)
  · cases custody.exclusive.unique here (held_queue queued)

/-- A queue that only grew, or one that was empty and is gone. -/
theorem Accounted.requeued (h : w.Accounted message n)
    (queues : ∀ conn, w.queueAt conn ⊆ w'.queueAt conn) (peers : w'.peers = w.peers)
    (answers : w'.answers = w.answers) (sinks : w'.sinks = w.sinks) :
    w'.Accounted message n :=
  h.mono (fun key => by simp [pendingAt, peers]) queues (congrFun answers n) sinks

/-- A notifier goes with one message. -/
theorem Accounted.message_eq {conn : ConnId} {text : M} (h : w.Accounted message n)
    (custody : Custody w) (queued : (text, some n) ∈ w.queueAt conn) : message = text := by
  have here : n ∈ w.held (.inr conn : Key ⊕ ConnId) := held_queue queued
  rcases h with ⟨⟨key, pending⟩ | ⟨other, queued'⟩, -⟩ | ⟨_, once, -⟩
  · cases custody.exclusive.unique here (held_pending pending)
  · obtain rfl := Sum.inr.inj (custody.exclusive.unique here (held_queue queued'))
    exact item_of_notifier (custody.exclusive.nodup (.inr conn)) queued' queued
  · rw [custody.unanswered _ n here] at once
    cases once

theorem sinks_grown {conn : ConnId} {accepted : Bool} {item : Item M}
    (sinks : w'.sinks = if accepted then Function.update w.sinks conn (w.sinks conn ++ [item])
      else w.sinks) (other : ConnId) : w.sinks other ⊆ w'.sinks other := by
  rw [sinks]
  cases accepted with
  | false => simp
  | true =>
      by_cases same : other = conn
      · subst same
        simp
      · simp [Function.update_of_ne same]

/-- The head of a queue is reported on, the rest of it stays. -/
theorem Accounted.wrote {conn : ConnId} {accepted : Bool} {outcome : Outcome}
    {owner : Peer Addr Key} {item : Item M} {rest : List (Item M)} {failed failed' : Bool}
    (h : w.Accounted message n) (custody : Custody w)
    (running : w.writers.get conn = some ⟨owner, item :: rest, failed⟩)
    (honest : outcome = .ok () → accepted = true) (peers : w'.peers = w.peers)
    (writers : w'.writers = w.writers.insert conn ⟨owner, rest, failed'⟩)
    (answers : w'.answers = answered w.answers item.2.toList outcome)
    (sinks : w'.sinks = if accepted then Function.update w.sinks conn (w.sinks conn ++ [item])
      else w.sinks) : w'.Accounted message n := by
  have queue : w.queueAt conn = item :: rest := by simp [queueAt, running]
  have grown := sinks_grown sinks
  by_cases told : n ∈ item.2.toList
  · obtain ⟨text, notifier⟩ := item
    obtain rfl : notifier = some n := by simpa using told
    have first : (text, some n) ∈ w.queueAt conn := queue ▸ List.mem_cons_self
    obtain rfl := h.message_eq custody first
    have unanswered := custody.unanswered (.inr conn) n (held_queue first)
    refine .inr ⟨outcome, ?_, fun good => ⟨conn, ?_⟩⟩
    · rw [answers, answered_of_mem _ (by simp) told, unanswered, List.nil_append]
    · simp [sinks, honest good]
  · have same : w'.answers n = w.answers n := by rw [answers, answered_of_notMem _ told]
    rcases h with ⟨held, silent⟩ | ⟨outcome', once, taken⟩
    · refine .inl ⟨?_, same.trans silent⟩
      rcases held with ⟨key, pending⟩ | ⟨other, queued⟩
      · exact .inl ⟨key, by simpa [pendingAt, peers] using pending⟩
      · refine .inr ⟨other, ?_⟩
        rw [queueAt_insert writers]
        split
        · rename_i at_conn
          subst at_conn
          rw [queue] at queued
          refine (List.mem_cons.mp queued).resolve_left ?_
          rintro rfl
          simp at told
        · exact queued
    · refine .inr ⟨outcome', same.trans once, fun good => ?_⟩
      obtain ⟨other, member⟩ := taken good
      exact ⟨other, grown other member⟩

/-- A queue goes that the message is not on. -/
theorem Accounted.broke {conn : ConnId} (h : w.Accounted message n)
    (apart : (message, some n) ∉ w.queueAt conn) (peers : w'.peers = w.peers)
    (writers : w'.writers = w.writers.remove conn) (answers : w'.answers = w.answers)
    (grown : ∀ other, w.sinks other ⊆ w'.sinks other) : w'.Accounted message n := by
  rcases h with ⟨held, silent⟩ | ⟨outcome, once, taken⟩
  · refine .inl ⟨?_, answers ▸ silent⟩
    rcases held with ⟨key, pending⟩ | ⟨other, queued⟩
    · exact .inl ⟨key, by simpa [pendingAt, peers] using pending⟩
    · refine .inr ⟨other, ?_⟩
      rw [queueAt_remove writers]
      split
      · subst_vars
        exact absurd queued apart
      · exact queued
  · refine .inr ⟨outcome, answers ▸ once, fun good => ?_⟩
    obtain ⟨other, member⟩ := taken good
    exact ⟨other, grown other member⟩

/-- Whoever waits nowhere and was told nothing lost the message. -/
theorem lost_of_nowhere (silent : w.answers n = []) (nowhere : ∀ i, n ∉ w.held i) :
    ¬ w.Accounted message n := by
  rintro (⟨⟨key, pending⟩ | ⟨conn, queued⟩, -⟩ | ⟨outcome, once, -⟩)
  · exact nowhere (.inl key) (held_pending pending)
  · exact nowhere (.inr conn) (held_queue queued)
  · cases silent.symm.trans once

variable [DecidableEq Key]

/-- A place is emptied, and those who waited in it are told nothing. -/
theorem Custody.loses (custody : Custody w) {i : Key ⊕ ConnId} (there : n ∈ w.held i)
    (cleared : w'.held = Function.update w.held i []) (answers : w'.answers = w.answers) :
    ¬ w'.Accounted message n :=
  lost_of_nowhere (answers ▸ custody.unanswered i n there) (custody.nowhere there cleared)

/-- A connecting entry that only grew. -/
theorem Accounted.waits {key : Key} {ns : List Notifier} {ps : List (Item M)}
    (h : w.Accounted message n) (peers : w'.peers = w.peers.insert key (.connecting ns ps))
    (grown : w.pendingAt key ⊆ ps) (writers : w'.writers = w.writers)
    (answers : w'.answers = w.answers) (sinks : w'.sinks = w.sinks) :
    w'.Accounted message n := by
  refine h.mono (fun other => ?_) (fun conn => by simp [queueAt, writers])
    (congrFun answers n) sinks
  rw [pendingAt_connecting peers]
  split
  · subst_vars
    exact grown
  · exact List.Subset.refl _

theorem Accounted.established {peer : Peer Addr Key} (h : w.Accounted message n)
    (custody : Custody w) (peers : w'.peers = w.peers.insert peer.id (.connected w.conns))
    (writers : w'.writers = w.writers.insert w.conns ⟨peer, w.pendingAt peer.id, false⟩)
    (answers : w'.answers = answered w.answers (w.notifyAt peer.id) (.ok ()))
    (sinks : w'.sinks = w.sinks) : w'.Accounted message n := by
  have same : w'.answers n = w.answers n := by
    rw [answers]
    exact h.quiet (.ok ()) custody (i := .inl peer.id)
      (fun m member => List.mem_append_left _ member) fun held member => custody.apart member held
  rcases h with ⟨held, silent⟩ | ⟨outcome, once, accepted⟩
  · refine .inl ⟨?_, same.trans silent⟩
    rcases held with ⟨key, pending⟩ | ⟨conn, queued⟩
    · by_cases here : key = peer.id
      · subst here
        exact .inr ⟨w.conns, by simpa [queueAt_insert writers] using pending⟩
      · exact .inl ⟨key, by simpa [pendingAt_connected peers, here] using pending⟩
    · have older : conn ≠ w.conns := by
        rintro rfl
        simp [queueAt, custody.unmade _ (Nat.le_refl _)] at queued
      exact .inr ⟨conn, by simpa [queueAt_insert writers, older] using queued⟩
  · exact .inr ⟨outcome, same.trans once, sinks ▸ accepted⟩

/-- A failed attempt reports to everyone who waited in the entry. -/
theorem Accounted.failed {key : Key} {reason : Error} (h : w.Accounted message n)
    (custody : Custody w) (peers : w'.peers = w.peers.remove key)
    (writers : w'.writers = w.writers)
    (answers : w'.answers = answered w.answers (w.held (.inl key)) (.error reason))
    (sinks : w'.sinks = w.sinks) : w'.Accounted message n := by
  by_cases waited : n ∈ w.held (.inl key)
  · refine .inr ⟨.error reason, ?_, nofun⟩
    rw [answers, answered_of_mem _ (custody.exclusive.nodup _) waited,
      custody.unanswered _ n waited, List.nil_append]
  · have same : w'.answers n = w.answers n := by rw [answers, answered_of_notMem _ waited]
    rcases h with ⟨held, silent⟩ | ⟨outcome, once, accepted⟩
    · refine .inl ⟨?_, same.trans silent⟩
      rcases held with ⟨other, pending⟩ | ⟨conn, queued⟩
      · have ne : other ≠ key := by
          rintro rfl
          exact waited (held_pending pending)
        exact .inl ⟨other, by simpa [pendingAt_removed peers, ne] using pending⟩
      · exact .inr ⟨conn, by simpa [queueAt, writers] using queued⟩
    · exact .inr ⟨outcome, same.trans once, sinks ▸ accepted⟩

/-- No other step of the loop loses a message. -/
theorem Accounted.step (h : w.Accounted message n) (custody : Custody w)
    {a : Act Addr Key M} (took : w.step a = some w') (kept : ¬ LosesMessage ⟨w, a, w'⟩) :
    w'.Accounted message n := by
  cases step_moved took with
  | @connectLost peer wanted => cases wanted <;> exact h
  | @connectWaits peer wanted =>
      cases wanted <;> exact h.waits rfl (List.Subset.refl _) rfl rfl rfl
  | @sendQueued peer text wanted queue writer entry receiving =>
      have grown : ∀ {v : Runtime Addr Key M} {item : Item M},
          v.writers = w.writers.insert queue { writer with queue := writer.queue ++ [item] } →
          ∀ conn, w.queueAt conn ⊆ v.queueAt conn := by
        intro v item writers conn
        rw [queueAt_insert writers]
        split
        · subst_vars
          simp [queueAt, receiving]
        · exact List.Subset.refl _
      cases wanted <;> exact h.requeued (grown rfl) rfl rfl rfl
  | @sendWaits peer text wanted =>
      cases wanted <;> exact h.waits rfl (List.subset_append_left _ _) rfl rfl rfl
  | established => exact h.established custody rfl rfl rfl rfl
  | failed => exact h.failed custody rfl rfl rfl rfl
  | received => exact h
  | @ended conn peer running =>
      rcases h with ⟨⟨key, pending⟩ | queued, silent⟩ | reported
      · have ne : key ≠ peer.id := by
          rintro rfl
          exact kept (.forgotten rfl running pending)
        refine .inl ⟨.inl ⟨key, ?_⟩, silent⟩
        simpa [pendingAt, Table.get_remove_of_ne _ ne] using pending
      · exact .inl ⟨.inr queued, silent⟩
      · exact .inr reported
  | wrote running honest => exact h.wrote custody running honest rfl rfl rfl rfl
  | @broke conn accepted reason peer item rest running =>
      refine h.broke (fun queued => ?_) rfl rfl rfl (sinks_grown rfl)
      simp only [queueAt, running] at queued
      exact kept (.broken rfl running rfl queued)
  | @drained conn peer failed running =>
      have empty : ∀ {v : Runtime Addr Key M}, v.writers = w.writers.remove conn →
          ∀ other, w.queueAt other ⊆ v.queueAt other := by
        intro v writers other
        rw [queueAt_remove writers]
        split
        · subst_vars
          simp [queueAt, running]
        · exact List.Subset.refl _
      exact h.requeued (empty rfl) rfl rfl rfl

/-- A request is accounted for from the moment it was handled. -/
theorem accounted_fresh (custody : Custody w) {peer : Peer Addr Key}
    (took : w.step (.event (.sendReq peer message true)) = some w') :
    w'.Accounted message w.oneshots := by
  have unanswered : w.answers w.oneshots = [] := custody.silent _ (Nat.le_refl _)
  cases step_moved took with
  | @sendQueued _ _ _ queue =>
      exact .inl ⟨.inr ⟨queue, by simp [queueAt, oneshot]⟩, unanswered⟩
  | sendWaits => exact .inl ⟨.inl ⟨peer.id, by simp [pendingAt, oneshot]⟩, unanswered⟩
  | established origin => exact origin_absurd origin (by simp) (by simp)

/-- Whoever is forgotten is neither held nor answered afterwards. -/
theorem forgotten_lost (custody : Custody w) {conn : ConnId} {peer : Peer Addr Key}
    (took : w.step (.event (.ended conn)) = some w') (running : w.readers.get conn = some peer)
    (pending : (message, some n) ∈ w.pendingAt peer.id) : ¬ w'.Accounted message n := by
  cases step_moved took with
  | @ended _ owner found =>
      obtain rfl := Option.some.inj (running.symm.trans found)
      exact custody.loses (held_pending pending) (held_remove_peer rfl rfl) rfl
  | established origin => exact origin_absurd origin (by simp) (by simp)

/-- So is whoever waits for a writer task whose sink fails again. -/
theorem broken_lost (custody : Custody w) {conn : ConnId} {accepted : Bool} {reason : Error}
    {writer : Writer Addr Key M} (took : w.step (.wrote conn accepted (.error reason)) = some w')
    (running : w.writers.get conn = some writer) (failed : writer.failed = true)
    (queued : (message, some n) ∈ writer.queue) : ¬ w'.Accounted message n := by
  cases step_moved took with
  | wrote found honest first =>
      obtain rfl := Option.some.inj (running.symm.trans found)
      cases first failed
  | broke found =>
      obtain rfl := Option.some.inj (running.symm.trans found)
      refine custody.loses (i := .inr conn) ?_ (held_remove_writer rfl rfl) rfl
      exact held_queue (by simpa [queueAt, running] using queued)

omit [DecidableEq Key] in
/-- And whoever waits in the map when the handler panics. -/
theorem panicked_lost (custody : Custody w) {key : Key}
    (pending : (message, some n) ∈ w.pendingAt key) (wanted : Bool) :
    ¬ (w.oneshot wanted).2.unwound.Accounted message n := by
  have here := held_pending pending
  refine lost_of_nowhere ?_ ?_
  · cases wanted <;> exact custody.unanswered _ n here
  · rintro (other | conn) still
    · simp [held, notifyAt, pendingAt, unwound] at still
    · have queued : n ∈ w.held (.inr conn) := by
        simpa [held, queueAt, unwound] using still
      cases custody.exclusive.unique here queued

/-- A pending item was there before, or this step is the request that brought it. -/
theorem pending_source {key : Key} {a : Act Addr Key M} (took : w.step a = some w')
    (member : (message, some n) ∈ w'.pendingAt key) :
    (message, some n) ∈ w.pendingAt key ∨ request? ⟨w, a, w'⟩ = some (message, n) := by
  cases step_moved took with
  | @connectLost peer wanted => cases wanted <;> exact .inl member
  | @connectWaits peer wanted =>
      by_cases same : key = peer.id
      · subst same
        exact .inl (by simpa [pendingAt] using member)
      · exact .inl (by simpa [pendingAt, Table.get_insert_of_ne _ _ same] using member)
  | @sendQueued peer text wanted => cases wanted <;> exact .inl member
  | @sendWaits peer text wanted =>
      by_cases same : key = peer.id
      · subst same
        have grown : (message, some n) ∈ w.pendingAt peer.id ++ [(text, (w.oneshot wanted).1)] := by
          simpa [pendingAt] using member
        refine (List.mem_append.mp grown).imp_right fun new => ?_
        obtain ⟨rfl, issued⟩ := Prod.mk.inj (List.mem_singleton.mp new)
        cases wanted with
        | false => cases issued
        | true => exact congrArg some (congrArg (Prod.mk message) (Option.some.inj issued).symm)
      · exact .inl (by simpa [pendingAt, Table.get_insert_of_ne _ _ same] using member)
  | @established _ peer =>
      by_cases same : key = peer.id
      · simp [pendingAt, same] at member
      · exact .inl (by simpa [pendingAt, Table.get_insert_of_ne _ _ same] using member)
  | @failed _ _ peer | @ended _ peer =>
      by_cases same : key = peer.id
      · simp [pendingAt, same] at member
      · exact .inl (by simpa [pendingAt, Table.get_remove_of_ne _ same] using member)
  | received | wrote | broke | drained => exact .inl member

/-- An item on a queue was held before, or this step is the request that brought it. -/
theorem queue_source {conn : ConnId} {a : Act Addr Key M} (took : w.step a = some w')
    (member : (message, some n) ∈ w'.queueAt conn) :
    w.Held message n ∨ request? ⟨w, a, w'⟩ = some (message, n) := by
  have same : w'.writers = w.writers → w.Held message n := by
    intro writers
    exact .inr ⟨conn, by simpa [queueAt, writers] using member⟩
  have removed : ∀ {other}, w'.writers = w.writers.remove other → w.Held message n := by
    intro other writers
    rw [queueAt_remove writers] at member
    split at member
    · cases member
    · exact .inr ⟨conn, member⟩
  cases step_moved took with
  | connectLost | connectWaits | sendWaits => exact .inl (same (oneshot_writers ..))
  | failed | received | ended => exact .inl (same rfl)
  | @sendQueued peer text wanted queue writer entry receiving =>
      rw [queueAt_insert rfl] at member
      split at member
      · refine (List.mem_append.mp member).imp (fun before => ?_) fun new => ?_
        · exact .inr ⟨queue, by simpa [queueAt, receiving] using before⟩
        · obtain ⟨rfl, issued⟩ := Prod.mk.inj (List.mem_singleton.mp new)
          cases wanted with
          | false => cases issued
          | true => exact congrArg some (congrArg (Prod.mk message) (Option.some.inj issued).symm)
      · exact .inl (.inr ⟨conn, member⟩)
  | @established source peer =>
      rw [queueAt_insert rfl] at member
      split at member
      · exact .inl (.inl ⟨peer.id, member⟩)
      · exact .inl (.inr ⟨conn, member⟩)
  | @wrote other accepted outcome peer item rest failed running =>
      rw [queueAt_insert rfl] at member
      split at member
      · refine .inl (.inr ⟨other, ?_⟩)
        simpa [queueAt, running] using .inr member
      · exact .inl (.inr ⟨conn, member⟩)
  | broke | drained => exact .inl (removed rfl)

/-- Whatever is held was once requested. -/
theorem Runs.held_requested {ts} (run : Runs ts w) (held : w.Held message n) :
    (message, n) ∈ requests ts := by
  induction run with
  | nil => simp [Held, pendingAt, queueAt, init] at held
  | @snoc ts w a w' _ took ih =>
      have source : w.Held message n ∨ request? ⟨w, a, w'⟩ = some (message, n) := by
        rcases held with ⟨key, pending⟩ | ⟨conn, queued⟩
        · exact (pending_source took pending).imp_left fun before => .inl ⟨key, before⟩
        · exact queue_source took queued
      rw [requests, List.filterMap_append, List.mem_append]
      cases source with
      | inl before => exact .inl (ih before)
      | inr request => exact .inr (by simp [request])

omit [DecidableEq Key] in
/-- What was requested by one more step: the same as before, or what the step brings. -/
theorem mem_requests_snoc {ts} {t : Transition (Runtime Addr Key M) (Act Addr Key M)} :
    (message, n) ∈ requests (ts ++ [t]) ↔
      (message, n) ∈ requests ts ∨ request? t = some (message, n) := by
  rw [requests, List.filterMap_append, List.mem_append]
  simp [requests]

/-- A step that loses a message loses one that was requested. -/
theorem LosesMessage.lost {ts} (run : Runs ts w) {a : Act Addr Key M}
    (took : w.step a = some w' ∨ Panics w a w') (loses : LosesMessage ⟨w, a, w'⟩) :
    ∃ message n, (message, n) ∈ requests (ts ++ [⟨w, a, w'⟩]) ∧ ¬ w'.Accounted message n := by
  have custody := Runs.custody run
  have before : ∀ {message n}, w.Held message n → ¬ w'.Accounted message n →
      ∃ message n, (message, n) ∈ requests (ts ++ [⟨w, a, w'⟩]) ∧ ¬ w'.Accounted message n :=
    fun held lost => ⟨_, _, mem_requests_snoc.mpr (.inl (run.held_requested held)), lost⟩
  cases loses with
  | @forgotten conn peer message n act running waits =>
      obtain rfl : a = _ := act
      rcases took with took | panics
      · exact before (.inl ⟨_, waits⟩) (forgotten_lost custody took running waits)
      · obtain ⟨_, _, _, same, -⟩ := panics_iff.mp panics
        cases same
  | @broken conn accepted reason writer message n act running failed waits =>
      obtain rfl : a = _ := act
      rcases took with took | panics
      · refine before (.inr ⟨conn, ?_⟩) (broken_lost custody took running failed waits)
        simp only at running
        simpa [queueAt, running] using waits
      · obtain ⟨_, _, _, same, -⟩ := panics_iff.mp panics
        cases same
  | @panicked peer message wanted act deserted waits =>
      obtain rfl : a = _ := act
      rcases took with took | panics
      · cases took.symm.trans (step_send_eq_none.mpr deserted)
      · obtain ⟨_, _, _, same, -, rfl⟩ := panics_iff.mp panics
        cases same
        rcases waits with rfl | ⟨key, text, n, pending⟩
        · refine ⟨message, w.oneshots, mem_requests_snoc.mpr (.inr rfl), lost_of_nowhere ?_ ?_⟩
          · exact custody.silent _ (Nat.le_refl _)
          · rintro (other | conn) still
            · simp [held, notifyAt, pendingAt, unwound] at still
            · have queued : w.oneshots ∈ w.held (.inr conn) := by
                simpa [held, queueAt, unwound] using still
              exact Nat.lt_irrefl _ (custody.issued _ _ queued)
        · exact before (.inl ⟨key, pending⟩) (panicked_lost custody pending wanted)

/-- A panic over nothing someone waits for. -/
theorem Accounted.panics (h : w.Accounted message n) {a : Act Addr Key M}
    (panics : Panics w a w') (kept : ¬ LosesMessage ⟨w, a, w'⟩) : w'.Accounted message n := by
  obtain ⟨peer, text, wanted, rfl, deserted, rfl⟩ := panics_iff.mp panics
  cases wanted with
  | true => exact absurd (.panicked rfl deserted (.inl rfl)) kept
  | false =>
      rcases h with ⟨⟨key, pending⟩ | queued, silent⟩ | reported
      · exact absurd (.panicked rfl deserted (.inr ⟨key, message, n, pending⟩)) kept
      · exact .inl ⟨.inr queued, silent⟩
      · exact .inr reported

end Steps

variable [DecidableEq Key]

/-- Along a run, up to a panic of the handler, every requested message is accounted for at every
    moment, exactly when no step of the run loses one. -/
theorem noLostMessages {ts : List (Transition (Runtime Addr Key M) (Act Addr Key M))}
    {w : Runtime Addr Key M} (run : RunsOrPanics ts w) :
    (∀ before u, before <+: ts → RunsOrPanics before u →
        ∀ message n, (message, n) ∈ requests before → u.Accounted message n) ↔
      ∀ t ∈ ts, ¬ LosesMessage t := by
  refine run.prefixes_iff (I := fun _ _ => True) trivial (by simp [requests])
    (fun _ _ _ _ _ _ _ _ => trivial) ?_ ?_
  · intro ts w a w' run _ earlier took
    constructor
    · intro all loses
      obtain ⟨message, n, requested, lost⟩ := loses.lost run (.inl took)
      exact lost (all message n requested)
    · intro kept message n requested
      have custody := Runs.custody run
      rcases mem_requests_snoc.mp requested with before | now
      · exact (earlier message n before).step custody took kept
      · simp only [request?] at now
        split at now
        · obtain ⟨rfl, rfl⟩ := Prod.mk.inj (Option.some.inj now)
          exact accounted_fresh custody took
        · cases now
  · intro ts w a w' run _ earlier panics
    constructor
    · intro all loses
      obtain ⟨message, n, requested, lost⟩ := loses.lost run (.inr panics)
      exact lost (all message n requested)
    · intro kept message n requested
      rcases mem_requests_snoc.mp requested with before | now
      · exact (earlier message n before).panics panics kept
      · obtain ⟨peer, text, wanted, rfl, deserted, -⟩ := panics_iff.mp panics
        cases wanted with
        | true => exact absurd (.panicked rfl deserted (.inl rfl)) kept
        | false => cases now

/-- An attempt fails and a write fails, and whoever waited for them is told so. -/
theorem noLostMessages_failed :
    ∃ ts w, (Runs ts w : Prop) ∧ requests ts = [(7, 0), (8, 1)] ∧
      (∀ before u, before <+: ts → RunsOrPanics before u →
        ∀ message n, (message, n) ∈ requests before → u.Accounted message n) ∧
      (w : Runtime Unit Bool Nat).answers 0 = [.error (.io .connectionRefused)] ∧
      w.answers 1 = [.error (.io .brokenPipe)] := by
  obtain ⟨t₁, t₂, t₃, t₄, t₅, w, done, requested, refused, broken, acts, start, entry, first⟩ :
      ∃ t₁ t₂ t₃ t₄ t₅ w, exec step (init : Runtime Unit Bool Nat)
        [.event (.sendReq ⟨(), true⟩ 7 true), .event (.failed 0 (.io .connectionRefused)),
          .event (.inbound ⟨(), true⟩), .event (.sendReq ⟨(), true⟩ 8 true),
          .wrote 0 false (.error (.io .brokenPipe))] = some ([t₁, t₂, t₃, t₄, t₅], w) ∧
      requests [t₁, t₂, t₃, t₄, t₅] = [(7, 0), (8, 1)] ∧
      w.answers 0 = [.error (.io .connectionRefused)] ∧
      w.answers 1 = [.error (.io .brokenPipe)] ∧
      [t₁, t₂, t₃, t₄, t₅].map Transition.act =
        [.event (.sendReq ⟨(), true⟩ 7 true), .event (.failed 0 (.io .connectionRefused)),
          .event (.inbound ⟨(), true⟩), .event (.sendReq ⟨(), true⟩ 8 true),
          .wrote 0 false (.error (.io .brokenPipe))] ∧
      t₁.pre = init ∧ (t₄.pre.peers.get true = some (.connected 0) ∧
        t₄.pre.writers.get 0 = some ⟨⟨(), true⟩, [], false⟩) ∧
      t₅.pre.writers.get 0 = some ⟨⟨(), true⟩, [(8, some 1)], false⟩ :=
    ⟨_, _, _, _, _, _, rfl, by decide, rfl, rfl, rfl, rfl, ⟨rfl, rfl⟩, rfl⟩
  have run := exec_run done
  refine ⟨_, w, run, requested, (noLostMessages (.going run)).mpr ?_, refused, broken⟩
  simp only [List.map_cons, List.map_nil, List.cons.injEq, and_true] at acts
  obtain ⟨act₁, act₂, act₃, act₄, act₅⟩ := acts
  simp only [List.forall_mem_cons, List.not_mem_nil, false_implies, implies_true, and_true]
  refine ⟨?_, ?_, ?_, ?_, ?_⟩
  · rintro (⟨act, -, -⟩ | ⟨act, -, -, -⟩ | ⟨act, ⟨queue, found, -⟩, -⟩)
    · cases act₁.symm.trans act
    · cases act₁.symm.trans act
    · rw [start] at found
      cases found
  · rintro (⟨act, -, -⟩ | ⟨act, -, -, -⟩ | ⟨act, -, -⟩) <;> cases act₂.symm.trans act
  · rintro (⟨act, -, -⟩ | ⟨act, -, -, -⟩ | ⟨act, -, -⟩) <;> cases act₃.symm.trans act
  · rintro (⟨act, -, -⟩ | ⟨act, -, -, -⟩ | ⟨act, ⟨queue, found, gone⟩, -⟩) <;>
      cases act₄.symm.trans act
    cases entry.1.symm.trans found
    cases entry.2.symm.trans gone
  -- the sink of the connection has not failed before
  · rintro (⟨act, -, -⟩ | ⟨act, running, failed, -⟩ | ⟨act, -, -⟩) <;> cases act₅.symm.trans act
    cases first.symm.trans running
    cases failed

/-- Two inbound connections of one peer; the second ends, a message starts a new attempt, then
    the first ends: the message is gone and its sender hears nothing. Or two writes fail on one
    connection: so it is with the second message, and the third one makes the handler panic. -/
theorem lostMessage :
    (¬ ∀ (ts : List (Transition (Runtime Unit Bool Nat) (Act Unit Bool Nat)))
        (w : Runtime Unit Bool Nat), Runs ts w →
        ∀ message n, (message, n) ∈ requests ts → w.Accounted message n) ∧
    ∃ (ts : List (Transition (Runtime Unit Bool Nat) (Act Unit Bool Nat)))
      (w w' : Runtime Unit Bool Nat), Runs ts w ∧ requests ts = [(7, 0), (8, 1)] ∧
        ts.map Transition.act = [.event (.inbound ⟨(), true⟩),
          .event (.sendReq ⟨(), true⟩ 7 true), .event (.sendReq ⟨(), true⟩ 8 true),
          .wrote 0 false (.error (.io .brokenPipe)),
          .wrote 0 false (.error (.io .brokenPipe))] ∧
        ¬ w.Accounted 8 1 ∧ Panics w (.event (.sendReq ⟨(), true⟩ 9 true)) w' := by
  constructor
  · intro all
    obtain ⟨ts, w, w', done, requested, running, pending, took⟩ : ∃ ts w w',
        exec step (init : Runtime Unit Bool Nat)
          [.event (.inbound ⟨(), true⟩), .event (.inbound ⟨(), true⟩), .event (.ended 1),
            .event (.sendReq ⟨(), true⟩ 7 true)] = some (ts, w) ∧
        (7, 0) ∈ requests ts ∧ w.readers.get 0 = some ⟨(), true⟩ ∧
        (7, some 0) ∈ w.pendingAt true ∧ w.step (.event (.ended 0)) = some w' :=
      ⟨_, _, _, rfl, by decide, rfl, by decide, rfl⟩
    have run := exec_run done
    refine forgotten_lost (Runs.custody run) took running pending (all _ w' (run.snoc took) 7 0 ?_)
    exact mem_requests_snoc.mpr (.inl requested)
  · obtain ⟨ts, w, w', t, done, took, requested, acts, running, rfl, entry, gone⟩ :
      ∃ ts w w' t,
        exec step (init : Runtime Unit Bool Nat)
          [.event (.inbound ⟨(), true⟩), .event (.sendReq ⟨(), true⟩ 7 true),
            .event (.sendReq ⟨(), true⟩ 8 true),
            .wrote 0 false (.error (.io .brokenPipe))] = some (ts, w) ∧
        w.step (.wrote 0 false (.error (.io .brokenPipe))) = some w' ∧
        requests (ts ++ [t]) = [(7, 0), (8, 1)] ∧
        (ts ++ [t]).map Transition.act = [.event (.inbound ⟨(), true⟩),
          .event (.sendReq ⟨(), true⟩ 7 true), .event (.sendReq ⟨(), true⟩ 8 true),
          .wrote 0 false (.error (.io .brokenPipe)),
          .wrote 0 false (.error (.io .brokenPipe))] ∧
        w.writers.get 0 = some ⟨⟨(), true⟩, [(8, some 1)], true⟩ ∧
        t = ⟨w, .wrote 0 false (.error (.io .brokenPipe)), w'⟩ ∧
        w'.peers.get true = some (.connected 0) ∧ w'.writers.get 0 = none :=
      ⟨_, _, _, ⟨_, _, _⟩, rfl, rfl, by decide, rfl, rfl, rfl, rfl, rfl⟩
    have run := exec_run done
    refine ⟨_, w', (w'.oneshot true).2.unwound, run.snoc took, requested, acts, ?_, ?_⟩
    · exact broken_lost (Runs.custody run) took running rfl (List.mem_singleton_self _)
    · exact panics_iff.mpr ⟨_, _, _, rfl, ⟨0, entry, gone⟩, rfl⟩

end Lindy.P2p.Runtime
