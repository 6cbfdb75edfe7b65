import Lindy.Machine.Ledger
import Lindy.P2p.Delivery
import Lindy.P2p.Waiting

/-! # Outgoing messages are in order

A message waits in the entry of its peer or is put on the queue of a connection, and what
waits in an entry moves on to the queue of the next connection as a whole. Numbering the
`SendMessageReq`s of a run shows that each queue gets its messages in the order the requests
were handled, and no message twice. Somebody receives from each queue the map leads to until a
sink fails for the second time: its writer task is gone then, and the map does not learn of it.
-/

namespace Lindy.P2p.Runtime

open Machine

variable {Addr Key M : Type}

/-- The peer and the item of a `SendMessageReq` the step handles. -/
def sent? (t : Step Addr Key M) : Option (Key × Item M) :=
  match t.act with
  | .event (.sendReq peer message wanted) =>
      some (peer.id, message, (t.pre.oneshot wanted).1)
  | _ => none

/-- The `SendMessageReq`s of a run, in the order they were handled. -/
def sendReqs (ts : List (Step Addr Key M)) : List (Key × Item M) := ts.filterMap sent?

/-- The peer of a connection the step establishes. -/
def established? (t : Step Addr Key M) : Option Key :=
  match t.act with
  | .event (.inbound peer) => some peer.id
  | .event (.connected attempt) => (t.pre.attempts.get attempt).map Peer.id
  | _ => none

/-- The peer a connection of the run leads to. -/
def peerOf (conn : ConnId) (ts : List (Step Addr Key M)) : Option Key :=
  ts.findSome? fun t => if t.pre.conns = conn then established? t else none

/-- What the step puts at the end of the queue of a connection; only the handler does. -/
def puts (conn : ConnId) (t : Step Addr Key M) : List (Item M) :=
  match t.act with
  | .event _ => (t.post.queueAt conn).drop (t.pre.queueAt conn).length
  | _ => []

/-- All that was put on the queue of a connection, oldest first. -/
def putOn (conn : ConnId) (ts : List (Step Addr Key M)) : List (Item M) :=
  ts.flatMap (puts conn)

section Snoc

variable (ts : List (Step Addr Key M)) (t : Step Addr Key M) (conn : ConnId)

@[simp] theorem sendReqs_snoc : sendReqs (ts ++ [t]) = sendReqs ts ++ (sent? t).toList := by
  simp only [sendReqs, List.filterMap_append, List.filterMap_cons, List.filterMap_nil]
  cases sent? t <;> rfl

@[simp] theorem peerOf_snoc : peerOf conn (ts ++ [t]) =
    (peerOf conn ts).or (if t.pre.conns = conn then established? t else none) := by
  simp only [peerOf, List.findSome?_append, List.findSome?_cons, List.findSome?_nil]
  split <;> simp_all

@[simp] theorem putOn_snoc : putOn conn (ts ++ [t]) = putOn conn ts ++ puts conn t := by
  simp [putOn]

end Snoc

theorem puts_of_grown {w w' : Runtime Addr Key M} {source : Source Addr Key M} {conn : ConnId}
    {more : List (Item M)} (grown : w'.queueAt conn = w.queueAt conn ++ more) :
    puts conn ⟨w, .event source, w'⟩ = more := by
  simp [puts, grown]

variable {ts : List (Step Addr Key M)} {w w' : Runtime Addr Key M} {a : Act Addr Key M}

/-- The peers connections lead to, as far as the writer tasks know. -/
structure Peered (ts : List (Step Addr Key M)) (w : Runtime Addr Key M) : Prop where
  fresh : ∀ conn, w.conns ≤ conn → peerOf conn ts = none
  writer : ∀ conn writer, w.writers.get conn = some writer →
    peerOf conn ts = some writer.peer.id

theorem Peered.init : Peered [] (init : Runtime Addr Key M) where
  fresh := fun _ _ => rfl
  writer := by simp [Runtime.init]

/-- A step that makes no connection, and no writer for another peer. -/
theorem Peered.kept (h : Peered ts w) (unmade : established? ⟨w, a, w'⟩ = none)
    (conns : w'.conns = w.conns)
    (writers : ∀ conn writer, w'.writers.get conn = some writer →
      ∃ old, w.writers.get conn = some old ∧ old.peer = writer.peer) :
    Peered (ts ++ [⟨w, a, w'⟩]) w' where
  fresh := by
    intro conn late
    rw [conns] at late
    simp [h.fresh conn late, unmade]
  writer := by
    intro conn writer found
    obtain ⟨old, before, same⟩ := writers conn writer found
    simp [h.writer conn old before, same]

theorem sendReqs_kept {k : Nat} {request : Key × Item M}
    (found : (sendReqs ts)[k]? = some request) (t : Step Addr Key M) :
    (sendReqs (ts ++ [t]))[k]? = some request := by
  obtain ⟨inside, -⟩ := List.getElem?_eq_some_iff.mp found
  rw [sendReqs_snoc, List.getElem?_append_left inside, found]

theorem peerOf_kept {conn : ConnId} {key : Key} (found : peerOf conn ts = some key)
    (t : Step Addr Key M) : peerOf conn (ts ++ [t]) = some key := by
  rw [peerOf_snoc, found, Option.some_or]

/-- The items that wait in the entry of a peer are those of the requests with these numbers. -/
abbrev Waits (ts : List (Step Addr Key M)) (key : Key) : List Nat → List (Item M) → Prop :=
  List.Forall₂ fun k item => (sendReqs ts)[k]? = some (key, item)

/-- The items on a queue are those of requests with these numbers, all for its peer. -/
abbrev Puts (ts : List (Step Addr Key M)) (conn : ConnId) : List Nat → List (Item M) → Prop :=
  List.Forall₂ fun k item => ∃ key, peerOf conn ts = some key ∧
    (sendReqs ts)[k]? = some (key, item)

/-- Where the requests of a run are by now, by their numbers. -/
structure Placed (ts : List (Step Addr Key M)) (w : Runtime Addr Key M)
    (held : Key ⊕ ConnId → List Nat) : Prop where
  ledger : Ledger (sendReqs ts).length held
  waits : ∀ key, Waits ts key (held (.inl key)) (w.pendingAt key)
  put : ∀ conn, Puts ts conn (held (.inr conn)) (putOn conn ts)

section Placed

variable {key : Key} {conn : ConnId} {ks : List Nat} {items : List (Item M)}

theorem waits_snoc (h : Waits ts key ks items) (t : Step Addr Key M) :
    Waits (ts ++ [t]) key ks items :=
  h.imp fun _ _ found => sendReqs_kept found t

theorem puts_snoc (h : Puts ts conn ks items) (t : Step Addr Key M) :
    Puts (ts ++ [t]) conn ks items :=
  h.imp fun _ _ ⟨key, leads, found⟩ => ⟨key, peerOf_kept leads t, sendReqs_kept found t⟩

/-- Nothing is on the queue of a connection that is not made yet. -/
theorem puts_fresh (h : Puts ts conn ks items) (fresh : peerOf conn ts = none) :
    ks = [] ∧ items = [] := by
  cases h with
  | nil => exact ⟨rfl, rfl⟩
  | cons first rest =>
      obtain ⟨key, leads, -⟩ := first
      cases fresh.symm.trans leads

/-- The number of a request is how many came before it. -/
theorem sendReqs_last {t : Step Addr Key M} {request : Key × Item M}
    (sent : sent? t = some request) :
    (sendReqs (ts ++ [t]))[(sendReqs ts).length]? = some request := by
  simp [sent]

/-- What is on a queue was requested for its peer. -/
theorem puts_mem (h : Puts ts conn ks items) {item : Item M} (member : item ∈ items) :
    ∃ key, peerOf conn ts = some key ∧ (key, item) ∈ sendReqs ts := by
  induction h with
  | nil => cases member
  | cons first rest ih =>
      rcases List.mem_cons.mp member with rfl | later
      · obtain ⟨key, leads, found⟩ := first
        exact ⟨key, leads, List.mem_of_getElem? found⟩
      · exact ih later

end Placed

variable [DecidableEq Key]

/-- What a step does to the messages on their way. -/
inductive Posted (t : Step Addr Key M) : Prop where
  /-- Nothing new, and nothing moved. -/
  | still (unsent : sent? t = none) (unmade : established? t = none)
      (unput : ∀ conn, puts conn t = []) (pending : t.post.pendingAt = t.pre.pendingAt)
  /-- An entry was taken out of the map. -/
  | dropped (key : Key) (unsent : sent? t = none) (unmade : established? t = none)
      (unput : ∀ conn, puts conn t = [])
      (pending : t.post.pendingAt = Function.update t.pre.pendingAt key [])
  | waits (key : Key) (item : Item M) (request : sent? t = some (key, item))
      (unmade : established? t = none) (unput : ∀ conn, puts conn t = [])
      (pending : t.post.pendingAt =
        Function.update t.pre.pendingAt key (t.pre.pendingAt key ++ [item]))
  | queued (key : Key) (item : Item M) (queue : ConnId) (request : sent? t = some (key, item))
      (unmade : established? t = none)
      (leads : ∃ writer, t.pre.writers.get queue = some writer ∧ writer.peer.id = key)
      (put : ∀ conn, puts conn t = if conn = queue then [item] else [])
      (pending : t.post.pendingAt = t.pre.pendingAt)
  | moved (key : Key) (unsent : sent? t = none) (made : established? t = some key)
      (put : ∀ conn, puts conn t = if conn = t.pre.conns then t.pre.pendingAt key else [])
      (pending : t.post.pendingAt = Function.update t.pre.pendingAt key [])

omit [DecidableEq Key] in
/-- Whoever establishes a connection, it is one to the peer the handler finds. -/
theorem established_origin {source : Source Addr Key M} {peer : Peer Addr Key}
    {attempts : Table AttemptId (Peer Addr Key)}
    (origin : (source = .inbound peer ∧ attempts = w.attempts) ∨
      ∃ attempt, source = .connected attempt ∧ w.attempts.get attempt = some peer ∧
        attempts = w.attempts.remove attempt) (v : Runtime Addr Key M) :
    established? (⟨w, .event source, v⟩ : Step Addr Key M) = some peer.id := by
  rcases origin with ⟨rfl, -⟩ | ⟨attempt, rfl, running, -⟩
  · rfl
  · simp [established?, running]

theorem pendingAt_update {key : Key} {ps : List (Item M)}
    (changed : ∀ other, w'.pendingAt other = if other = key then ps else w.pendingAt other) :
    w'.pendingAt = Function.update w.pendingAt key ps := by
  funext other
  rw [changed, Function.update_apply]

omit [DecidableEq Key] in
/-- Messages go to the end of the queue of one connection. -/
theorem puts_insert {source : Source Addr Key M} {conn : ConnId} {writer : Writer Addr Key M}
    {more : List (Item M)} (writers : w'.writers = w.writers.insert conn writer)
    (grown : writer.queue = w.queueAt conn ++ more) (other : ConnId) :
    puts other ⟨w, .event source, w'⟩ = if other = conn then more else [] := by
  apply puts_of_grown
  rw [queueAt_insert writers]
  by_cases here : other = conn
  · subst here
    rw [if_pos rfl, if_pos rfl, grown]
  · rw [if_neg here, if_neg here, List.append_nil]

theorem Custody.posted (custody : Custody w) (took : w.step a = some w') :
    Posted ⟨w, a, w'⟩ := by
  have same : ∀ {source} {v : Runtime Addr Key M}, v.writers = w.writers → ∀ conn,
      puts conn ⟨w, .event source, v⟩ = [] := by
    intro source v writers conn
    exact puts_of_grown (by simp [queueAt, writers])
  cases step_moved took with
  | @connectLost peer wanted => cases wanted <;> exact .still rfl rfl (same rfl) rfl
  | @connectWaits peer wanted =>
      exact .still rfl rfl (same (by rw [oneshot_writers]))
        ((pendingAt_update (pendingAt_connecting rfl)).trans (Function.update_eq_self ..))
  | @sendQueued peer message wanted queue writer entry receiving =>
      refine .queued peer.id (message, (w.oneshot wanted).1) queue rfl rfl
        ⟨writer, receiving, custody.owner _ _ _ entry receiving⟩ (puts_insert rfl ?_) ?_
      · simp [queueAt, receiving]
      · cases wanted <;> rfl
  | @sendWaits peer message wanted =>
      exact .waits peer.id (message, (w.oneshot wanted).1) rfl rfl
        (same (by rw [oneshot_writers])) (pendingAt_update (pendingAt_connecting rfl))
  | @established source peer attempts origin =>
      have unsent : ∀ v, sent? (⟨w, .event source, v⟩ : Step Addr Key M) = none := by
        intro v
        rcases origin with ⟨rfl, -⟩ | ⟨attempt, rfl, -⟩ <;> rfl
      refine .moved peer.id (unsent _) (established_origin origin _) (puts_insert rfl ?_)
        (pendingAt_update (pendingAt_connected rfl))
      simp [queueAt, custody.unmade _ (Nat.le_refl _)]
  | @failed attempt reason peer =>
      exact .dropped peer.id rfl rfl (same rfl) (pendingAt_update (pendingAt_removed rfl))
  | received => exact .still rfl rfl (same rfl) rfl
  | @ended conn peer =>
      exact .dropped peer.id rfl rfl (same rfl) (pendingAt_update (pendingAt_removed rfl))
  | wrote | broke | drained => exact .still rfl rfl (fun _ => rfl) rfl

theorem Peered.step (h : Peered ts w) (took : w.step a = some w') :
    Peered (ts ++ [⟨w, a, w'⟩]) w' := by
  have same : ∀ {v : Runtime Addr Key M}, v.writers = w.writers → ∀ conn writer,
      v.writers.get conn = some writer →
        ∃ old, w.writers.get conn = some old ∧ old.peer = writer.peer := by
    intro v writers conn writer found
    exact ⟨writer, writers ▸ found, rfl⟩
  cases step_moved took with
  | @connectLost peer wanted | @connectWaits peer wanted | @sendWaits peer message wanted =>
      cases wanted <;> exact h.kept rfl rfl (same rfl)
  | @sendQueued peer message wanted queue writer entry receiving =>
      cases wanted <;> exact h.kept rfl rfl (writers_insert receiving rfl rfl)
  | @established source peer attempts origin =>
      constructor
      · intro conn late
        have other : w.conns ≠ conn := Nat.ne_of_lt late
        simp [h.fresh conn (Nat.le_of_succ_le late), other]
      · intro conn writer found
        rw [Table.get_insert] at found
        split at found
        · obtain rfl := Option.some.inj found
          subst_vars
          simp [h.fresh _ (Nat.le_refl _), established_origin origin]
        · simp [h.writer conn writer found]
  | failed | received | ended => exact h.kept rfl rfl (same rfl)
  | wrote running => exact h.kept rfl rfl (writers_insert running rfl rfl)
  | broke | drained => exact h.kept rfl rfl (writers_remove rfl)

theorem Runs.peered (run : Runs ts w) : Peered ts w := by
  induction run with
  | nil => exact .init
  | snoc _ took ih => exact ih.step took

section Update

variable {held : Key ⊕ ConnId → List Nat} {t : Step Addr Key M} {key : Key} {conn : ConnId}
  {ks : List Nat} {items : List (Item M)}

/-- What waits for one peer changes, for the others nothing does. -/
theorem Placed.waits_update (h : Placed ts w held) (new : Waits (ts ++ [t]) key ks items)
    (other : Key) : Waits (ts ++ [t]) other (Function.update held (.inl key) ks (.inl other))
      (Function.update w.pendingAt key items other) := by
  by_cases same : other = key
  · subst same
    rwa [Function.update_self, Function.update_self]
  · rw [Function.update_of_ne same, Function.update_of_ne (by simpa using same)]
    exact waits_snoc (h.waits other) t

omit [DecidableEq Key] in
theorem Placed.puts_kept (h : Placed ts w held) (unput : ∀ conn, puts conn t = [])
    (conn : ConnId) : Puts (ts ++ [t]) conn (held (.inr conn)) (putOn conn (ts ++ [t])) := by
  rw [putOn_snoc, unput, List.append_nil]
  exact puts_snoc (h.put conn) t

/-- One connection is put more messages on. -/
theorem Placed.puts_update (h : Placed ts w held)
    (put : ∀ other, puts other t = if other = conn then items else [])
    (new : Puts (ts ++ [t]) conn ks (putOn conn ts ++ items)) (other : ConnId) :
    Puts (ts ++ [t]) other (Function.update held (.inr conn) ks (.inr other))
      (putOn other (ts ++ [t])) := by
  rw [putOn_snoc, put]
  by_cases same : other = conn
  · subst same
    rwa [Function.update_self, if_pos rfl]
  · rw [Function.update_of_ne (by simpa using same), if_neg same, List.append_nil]
    exact puts_snoc (h.put other) t

end Update

theorem Placed.step {held : Key ⊕ ConnId → List Nat} (h : Placed ts w held)
    (peered : Peered ts w) (custody : Custody w) (took : w.step a = some w') :
    ∃ held', Placed (ts ++ [⟨w, a, w'⟩]) w' held' := by
  cases custody.posted took with
  | still unsent unmade unput pending =>
      refine ⟨held, ?_, fun key => ?_, h.puts_kept unput⟩
      · simpa [unsent] using h.ledger
      · exact pending ▸ waits_snoc (h.waits key) _
  | dropped key unsent unmade unput pending =>
      refine ⟨Function.update held (.inl key) [], ?_, ?_, fun conn => ?_⟩
      · simpa [unsent] using h.ledger.drop (.inl key)
      · exact pending ▸ h.waits_update .nil
      · rw [Function.update_of_ne Sum.inr_ne_inl]
        exact h.puts_kept unput conn
  | waits key item request unmade unput pending =>
      refine ⟨Function.update held (.inl key) (held (.inl key) ++ [(sendReqs ts).length]), ?_, ?_,
        fun conn => ?_⟩
      · simpa [request] using h.ledger.join (.inl key)
      · have last := List.rel_append (waits_snoc (h.waits key) _)
          (.cons (sendReqs_last request) .nil)
        exact pending ▸ h.waits_update last
      · rw [Function.update_of_ne Sum.inr_ne_inl]
        exact h.puts_kept unput conn
  | queued key item queue request unmade running put pending =>
      obtain ⟨writer, running, owner⟩ := running
      have leads : peerOf queue ts = some key := owner ▸ peered.writer queue writer running
      refine ⟨Function.update held (.inr queue) (held (.inr queue) ++ [(sendReqs ts).length]), ?_,
        fun other => ?_, h.puts_update put ?_⟩
      · simpa [request] using h.ledger.join (.inr queue)
      · rw [pending, Function.update_of_ne Sum.inl_ne_inr]
        exact waits_snoc (h.waits other) _
      · refine List.rel_append (puts_snoc (h.put queue) _) (.cons ?_ .nil)
        exact ⟨key, peerOf_kept leads _, sendReqs_last request⟩
  | moved key unsent made put pending =>
      have fresh := peered.fresh _ (Nat.le_refl _)
      obtain ⟨free, empty⟩ := puts_fresh (h.put w.conns) fresh
      refine ⟨Function.update (Function.update held (.inl key) []) (.inr w.conns) (held (.inl key)),
        ?_, fun other => ?_, fun conn => ?_⟩
      · simpa [unsent] using h.ledger.move Sum.inr_ne_inl free
      · rw [pending, Function.update_of_ne Sum.inl_ne_inr]
        exact h.waits_update .nil other
      · have arrived : Puts (ts ++ [⟨w, a, w'⟩]) w.conns (held (.inl key))
            (putOn w.conns ts ++ w.pendingAt key) := by
          rw [empty, List.nil_append]
          refine (h.waits key).imp fun k item found => ⟨key, ?_, sendReqs_kept found _⟩
          rw [peerOf_snoc, fresh, Option.none_or, if_pos rfl, made]
        rw [Function.update_comm Sum.inl_ne_inr, Function.update_of_ne Sum.inr_ne_inl]
        exact h.puts_update put arrived conn

theorem Runs.placed (run : Runs ts w) : ∃ held, Placed ts w held := by
  induction run with
  | nil => exact ⟨fun _ => [], .empty, fun _ => .nil, fun _ => .nil⟩
  | snoc before took ih =>
      obtain ⟨held, placed⟩ := ih
      exact placed.step (Runs.peered before) (Runs.custody before) took

/-- The handler only adds to queues, and leaves the sinks to the writer tasks. -/
theorem Custody.grows (custody : Custody w) {source : Source Addr Key M}
    (took : w.step (.event source) = some w') : w'.sinks = w.sinks ∧
      ∀ conn, w'.queueAt conn = w.queueAt conn ++ puts conn ⟨w, .event source, w'⟩ := by
  have added : ∀ {conn}, (∃ more, w'.queueAt conn = w.queueAt conn ++ more) →
      w'.queueAt conn = w.queueAt conn ++ puts conn ⟨w, .event source, w'⟩ := by
    rintro conn ⟨more, grown⟩
    rw [puts_of_grown grown, grown]
  have same : w'.writers = w.writers → ∀ conn,
      w'.queueAt conn = w.queueAt conn ++ puts conn ⟨w, .event source, w'⟩ := by
    intro writers conn
    exact added ⟨[], by simp [queueAt, writers]⟩
  cases step_moved took with
  | @connectLost peer wanted | @connectWaits peer wanted | @sendWaits peer message wanted =>
      cases wanted <;> exact ⟨rfl, same rfl⟩
  | @sendQueued peer message wanted queue writer entry receiving =>
      refine ⟨by cases wanted <;> rfl, fun conn => ?_⟩
      by_cases here : conn = queue
      · subst here
        refine added ⟨[(message, (w.oneshot wanted).1)], (queueAt_insert rfl conn).trans ?_⟩
        rw [if_pos rfl, queueAt, receiving]
      · refine added ⟨[], (queueAt_insert rfl conn).trans ?_⟩
        rw [if_neg here, List.append_nil]
  | @established source peer =>
      refine ⟨rfl, fun conn => ?_⟩
      by_cases here : conn = w.conns
      · subst here
        refine added ⟨w.pendingAt peer.id, (queueAt_insert rfl w.conns).trans ?_⟩
        rw [if_pos rfl, queueAt, custody.unmade _ (Nat.le_refl _), List.nil_append]
      · refine added ⟨[], (queueAt_insert rfl conn).trans ?_⟩
        rw [if_neg here, List.append_nil]
  | failed | received | ended => exact ⟨rfl, same rfl⟩

/-- What the sink of a connection accepted and what its queue still holds were put on the queue
    in this order. -/
def Drawn (ts : List (Step Addr Key M)) (w : Runtime Addr Key M) : Prop :=
  ∀ conn, (w.sinks conn ++ w.queueAt conn).Sublist (putOn conn ts)

theorem Drawn.step (h : Drawn ts w) (custody : Custody w) (took : w.step a = some w') :
    Drawn (ts ++ [⟨w, a, w'⟩]) w' := by
  intro conn
  rw [putOn_snoc]
  cases a with
  | event source =>
      obtain ⟨sinks, queues⟩ := custody.grows took
      rw [sinks, queues, ← List.append_assoc]
      exact (h conn).append_right _
  | wrote other accepted outcome =>
      cases step_moved took with
      | @wrote _ _ _ peer item rest failed running =>
          simp only [puts, List.append_nil]
          refine List.Sublist.trans ?_ (h conn)
          rw [queueAt_insert rfl]
          by_cases same : conn = other
          · subst same
            have held : w.queueAt conn = item :: rest := by simp [queueAt, running]
            rw [if_pos rfl, held]
            cases accepted with
            | true => simp
            | false => exact (List.sublist_cons_self item rest).append_left _
          · rw [if_neg same]
            cases accepted <;> simp [same]
      | @broke _ _ reason peer item rest running =>
          simp only [puts, List.append_nil]
          refine List.Sublist.trans ?_ (h conn)
          rw [queueAt_remove rfl]
          by_cases same : conn = other
          · subst same
            have held : w.queueAt conn = item :: rest := by simp [queueAt, running]
            rw [if_pos rfl, held]
            cases accepted <;> simp
          · rw [if_neg same]
            cases accepted <;> simp [same]
  | drained other =>
      cases step_moved took with
      | drained running =>
          simp only [puts, List.append_nil]
          refine List.Sublist.trans ?_ (h conn)
          rw [queueAt_remove rfl]
          split
          · simp
          · exact List.Sublist.refl _

theorem Runs.drawn (run : Runs ts w) : Drawn ts w := by
  induction run with
  | nil => exact fun _ => List.Sublist.refl _
  | snoc before took ih => exact ih.step (Runs.custody before) took

/-- The notifiers of the `SendMessageReq`s of a run. -/
def askers (ts : List (Step Addr Key M)) : List Notifier :=
  (sendReqs ts).filterMap fun request => request.2.2

omit [DecidableEq Key] in
theorem mem_askers {n : Notifier} :
    n ∈ askers ts ↔ ∃ key message, (key, message, some n) ∈ sendReqs ts := by
  simp [askers]

/-- A request that wants an answer brings the next oneshot channel. -/
theorem sent_fresh {t : Step Addr Key M} {key : Key} {message : M} {n : Notifier}
    (sent : sent? t = some (key, message, some n)) :
    n = t.pre.oneshots ∧ t.act.wants = true ∧ ∀ other, asks other n t = false := by
  unfold sent? at sent
  split at sent
  · rename_i peer text wanted act
    cases wanted with
    | false => simp [oneshot] at sent
    | true =>
        obtain ⟨-, -, rfl⟩ : _ ∧ _ ∧ t.pre.oneshots = n := by simpa [oneshot] using sent
        refine ⟨rfl, by rw [act]; rfl, fun other => ?_⟩
        unfold asks
        rw [act]
  · cases sent

/-- Where an `Ok` comes from: someone waited for a connection, or the head of a queue was
    accepted by the sink. -/
theorem ok_source (took : w.step a = some w') {n : Notifier} (ok : .ok () ∈ w'.answers n) :
    .ok () ∈ w.answers n ∨ (∃ key, n ∈ w.notifyAt key) ∨
      ∃ conn message, (message, some n) ∈ w.queueAt conn ∧
        (message, some n) ∈ w'.sinks conn := by
  have told : ∀ {ns outcome}, .ok () ∈ answered w.answers ns outcome n →
      .ok () ∈ w.answers n ∨ n ∈ ns ∧ outcome = .ok () := by
    intro ns outcome found
    refine (List.mem_append.mp found).imp_right fun new => ?_
    obtain ⟨some', same⟩ := List.mem_replicate.mp new
    exact ⟨List.count_pos_iff.mp (Nat.pos_of_ne_zero some'), same.symm⟩
  cases step_moved took with
  | @connectLost peer wanted | @connectWaits peer wanted | @sendQueued peer message wanted
  | @sendWaits peer message wanted => cases wanted <;> exact .inl ok
  | @established source peer =>
      exact (told ok).imp_right fun ⟨waits, _⟩ => .inl ⟨peer.id, waits⟩
  | failed => exact (told ok).imp_right fun ⟨_, same⟩ => absurd same (by simp)
  | received | ended | broke | drained => exact .inl ok
  | @wrote conn accepted outcome peer item rest failed running honest =>
      refine (told ok).imp_right fun ⟨who, same⟩ => .inr ?_
      obtain ⟨message, notifier⟩ := item
      obtain rfl : notifier = some n := by simpa using who
      refine ⟨conn, message, by simp [queueAt, running], ?_⟩
      simp [honest same]

/-- The requests of a run and what was reported on them. -/
structure Reporting (ts : List (Step Addr Key M)) (w : Runtime Addr Key M) : Prop where
  issued : ∀ n ∈ askers ts, n < w.oneshots
  distinct : (askers ts).Nodup
  apart : ∀ n ∈ askers ts, ∀ key, n ∉ w.notifyAt key
  accepted : ∀ key message n, (key, message, some n) ∈ sendReqs ts → .ok () ∈ w.answers n →
    ∃ conn, peerOf conn ts = some key ∧ (message, some n) ∈ w.sinks conn

omit [DecidableEq Key] in
theorem Reporting.init : Reporting [] (init : Runtime Addr Key M) where
  issued := by simp [askers, sendReqs]
  distinct := by simp [askers, sendReqs]
  apart := by simp [askers, sendReqs]
  accepted := by simp [sendReqs]

theorem step_sinks (took : w.step a = some w') (conn : ConnId) : w.sinks conn ⊆ w'.sinks conn := by
  cases step_moved took with
  | @connectLost peer wanted | @connectWaits peer wanted | @sendQueued peer message wanted
  | @sendWaits peer message wanted => cases wanted <;> exact List.Subset.refl _
  | established | failed | received | ended | drained => exact List.Subset.refl _
  | wrote | broke => exact sinks_grown rfl conn

omit [DecidableEq Key] in
/-- The notifiers of one more step: those before, and that of its request. -/
theorem askers_snoc (t : Step Addr Key M) :
    askers (ts ++ [t]) = askers ts ++ ((sent? t).bind fun request => request.2.2).toList := by
  simp only [askers, sendReqs_snoc, List.filterMap_append]
  rcases sent? t with _ | ⟨key, message, _ | n⟩ <;> rfl

omit [DecidableEq Key] in
theorem mem_askers_snoc {t : Step Addr Key M} {n : Notifier} :
    n ∈ askers (ts ++ [t]) ↔
      n ∈ askers ts ∨ ∃ key message, sent? t = some (key, message, some n) := by
  rw [askers_snoc, List.mem_append, Option.mem_toList]
  rcases sent? t with _ | ⟨key, message, notifier⟩ <;> simp

/-- Whatever lies on a queue was requested for the peer of the connection. -/
theorem Runs.queued_request (run : Runs ts w) {conn : ConnId} {item : Item M}
    (queued : item ∈ w.queueAt conn) :
    ∃ key, peerOf conn ts = some key ∧ (key, item) ∈ sendReqs ts := by
  obtain ⟨held, placed⟩ := run.placed
  have put : item ∈ putOn conn ts :=
    (run.drawn conn).subset (List.mem_append_right _ queued)
  exact puts_mem (placed.put conn) put

theorem Reporting.step (h : Reporting ts w) (run : Runs ts w) (took : w.step a = some w') :
    Reporting (ts ++ [⟨w, a, w'⟩]) w' := by
  have custody := Runs.custody run
  have oneshots := step_oneshots took
  have fresh : w.oneshots ∉ askers ts := fun member => Nat.lt_irrefl _ (h.issued _ member)
  constructor
  · intro n member
    rcases mem_askers_snoc.mp member with before | ⟨key, message, sent⟩
    · exact Nat.lt_of_lt_of_le (h.issued n before) (by omega)
    · obtain ⟨rfl, wants, -⟩ := sent_fresh sent
      simp only at wants
      simp only [wants, if_true] at oneshots
      simp [oneshots]
  · rw [askers_snoc, List.nodup_append']
    refine ⟨h.distinct, ?_, fun n before new => ?_⟩
    · cases (sent? ⟨w, a, w'⟩).bind fun request => request.2.2 <;> simp
    · have member : n ∈ (sent? ⟨w, a, w'⟩).bind fun request => request.2.2 := by simpa using new
      obtain ⟨⟨key, message, notifier⟩, sent, rfl⟩ := Option.bind_eq_some_iff.mp member
      obtain ⟨rfl, -⟩ := sent_fresh sent
      exact fresh before
  · intro n member key waits
    rcases mem_askers_snoc.mp member with before | ⟨other, message, sent⟩
    · rcases notify_source took waits with there | ⟨asked, -⟩
      · exact h.apart n before key there
      · obtain ⟨_, _, _, rfl⟩ := asks_iff.mp asked
        exact fresh before
    · obtain ⟨rfl, -, unasked⟩ := sent_fresh sent
      rcases notify_source took waits with there | ⟨asked, -⟩
      · exact Nat.lt_irrefl _ (custody.issued (.inl key) _ (List.mem_append_left _ there))
      · cases (unasked key).symm.trans asked
  · intro key message n requested ok
    rw [sendReqs_snoc, List.mem_append, Option.mem_toList] at requested
    rcases requested with before | now
    · rcases ok_source took ok with earlier | ⟨other, waits⟩ | ⟨conn, text, queued, taken⟩
      · obtain ⟨conn, leads, taken⟩ := h.accepted key message n before earlier
        exact ⟨conn, peerOf_kept leads _, step_sinks took conn taken⟩
      · exact absurd waits (h.apart n (mem_askers.mpr ⟨key, message, before⟩) other)
      · -- the notifier tells that this is the item of the request
        obtain ⟨other, leads, requested⟩ := run.queued_request queued
        obtain ⟨rfl, rfl, -⟩ := eq_of_nodup_filterMap h.distinct before requested rfl rfl
        exact ⟨conn, peerOf_kept leads _, taken⟩
    · obtain ⟨rfl, -⟩ := sent_fresh now
      rcases ok_source took ok with earlier | ⟨other, waits⟩ | ⟨conn, text, queued, -⟩
      · rw [custody.silent _ (Nat.le_refl _)] at earlier
        cases earlier
      · exact absurd (custody.issued (.inl other) _ (List.mem_append_left _ waits))
          (Nat.lt_irrefl _)
      · obtain ⟨other, -, requested⟩ := run.queued_request queued
        exact absurd (mem_askers.mpr ⟨other, text, requested⟩) fresh

theorem Runs.reporting (run : Runs ts w) : Reporting ts w := by
  induction run with
  | nil => exact .init
  | snoc before took ih => exact ih.step before took

/-- The messages put on the queues, by the numbers of their requests: on each queue in the
    order the requests were handled, all of them for its peer, none on two queues or twice on
    one. -/
structure InOrder (ts : List (Step Addr Key M)) (placed : ConnId → List Nat) : Prop where
  increasing : ∀ conn, (placed conn).Pairwise (· < ·)
  once : Exclusive placed
  puts : ∀ conn, Puts ts conn (placed conn) (putOn conn ts)

omit [DecidableEq Key] in
theorem Placed.inOrder {held : Key ⊕ ConnId → List Nat} (h : Placed ts w held) :
    InOrder ts fun conn => held (.inr conn) where
  increasing := fun conn => h.ledger.increasing (.inr conn)
  once :=
    { nodup := fun conn => h.ledger.exclusive.nodup (.inr conn)
      unique := fun left right => Sum.inr.inj (h.ledger.exclusive.unique left right) }
  puts := h.put

/-- Messages in order, none twice, and reports that are true: the messages are put on the queues
    in the order they were requested, each on one queue at most; what a sink accepted and what
    its queue holds is in that order; each notifier hears one result at most, and `Ok` only when
    the sink of a connection to the peer accepted its message. -/
structure Sound (ts : List (Step Addr Key M)) (w : Runtime Addr Key M) : Prop where
  order : ∃ placed, InOrder ts placed
  drawn : Drawn ts w
  once : ∀ n, (w.answers n).length ≤ 1
  accepted : ∀ key message n, (key, message, some n) ∈ sendReqs ts → .ok () ∈ w.answers n →
    ∃ conn, peerOf conn ts = some key ∧ (message, some n) ∈ w.sinks conn

theorem Runs.sound (run : Runs ts w) : Sound ts w := by
  obtain ⟨held, placed⟩ := run.placed
  exact ⟨⟨_, placed.inOrder⟩, run.drawn, run.custody.once, run.reporting.accepted⟩

/-- A panic puts nothing on a queue and answers nobody. -/
theorem Sound.panics (h : Sound ts w) (custody : Custody w) (panics : Panics w a w') :
    Sound (ts ++ [⟨w, a, w'⟩]) w' := by
  obtain ⟨peer, text, wanted, rfl, deserted, rfl⟩ := panics_iff.mp panics
  have answers : (w.oneshot wanted).2.unwound.answers = w.answers := by cases wanted <;> rfl
  have sinks : (w.oneshot wanted).2.unwound.sinks = w.sinks := by cases wanted <;> rfl
  have queues : ∀ conn, (w.oneshot wanted).2.unwound.queueAt conn = w.queueAt conn := by
    simp [queueAt, unwound]
  have unput : ∀ conn, puts conn ⟨w, .event (.sendReq peer text wanted),
      (w.oneshot wanted).2.unwound⟩ = [] := fun conn =>
    puts_of_grown ((queues conn).trans (List.append_nil _).symm)
  constructor
  · obtain ⟨placed, order⟩ := h.order
    refine ⟨placed, order.increasing, order.once, fun conn => ?_⟩
    rw [putOn_snoc, unput, List.append_nil]
    exact puts_snoc (order.puts conn) _
  · intro conn
    rw [putOn_snoc, unput, List.append_nil, sinks, queues]
    exact h.drawn conn
  · exact answers ▸ h.once
  · intro key message n requested ok
    rw [answers] at ok
    rw [sendReqs_snoc, List.mem_append, Option.mem_toList] at requested
    rcases requested with before | now
    · obtain ⟨conn, leads, taken⟩ := h.accepted key message n before ok
      exact ⟨conn, peerOf_kept leads _, sinks ▸ taken⟩
    · obtain ⟨rfl, -⟩ := sent_fresh now
      rw [custody.silent _ (Nat.le_refl _)] at ok
      cases ok

/-- The writer task of every queue whose sender is in the map is still receiving. -/
def Received (w : Runtime Addr Key M) : Prop :=
  ∀ key conn, w.peers.get key = some (.connected conn) →
    ∃ writer, w.writers.get conn = some writer ∧ writer.peer.id = key

/-- The sink of a connection fails for the second time while the map holds the sender of its
    queue. -/
def Abandons (t : Step Addr Key M) : Prop :=
  ∃ conn accepted reason writer, t.act = .wrote conn accepted (.error reason) ∧
    t.pre.writers.get conn = some writer ∧ writer.failed = true ∧
    t.pre.peers.get writer.peer.id = some (.connected conn)

omit [DecidableEq Key] in
/-- A queue that is received from still is when its writer task goes on. -/
theorem Received.requeued (h : Received w) (peers : w'.peers = w.peers) {conn : ConnId}
    {writer changed : Writer Addr Key M} (running : w.writers.get conn = some writer)
    (writers : w'.writers = w.writers.insert conn changed)
    (same : changed.peer = writer.peer) : Received w' := by
  intro key other entry
  obtain ⟨old, found, owner⟩ := h key other (peers ▸ entry)
  rw [writers, Table.get_insert]
  split
  · subst_vars
    obtain rfl := Option.some.inj (running.symm.trans found)
    exact ⟨changed, rfl, congrArg Peer.id same⟩
  · exact ⟨old, found, owner⟩

omit [DecidableEq Key] in
/-- A writer task is gone that no entry leads to. -/
theorem Received.ended (h : Received w) {conn : ConnId} (peers : w'.peers = w.peers)
    (writers : w'.writers = w.writers.remove conn)
    (unled : ∀ key, w.peers.get key ≠ some (.connected conn)) : Received w' := by
  intro key other entry
  rw [peers] at entry
  obtain ⟨old, found, owner⟩ := h key other entry
  refine ⟨old, ?_, owner⟩
  rw [writers, Table.get_remove_of_ne, found]
  rintro rfl
  exact unled key entry

theorem Received.step (h : Received w) (custody : Custody w) (took : w.step a = some w')
    (kept : ¬ Abandons ⟨w, a, w'⟩) : Received w' := by
  cases step_moved took with
  | @connectLost peer wanted => cases wanted <;> exact h
  | @connectWaits peer wanted | @sendWaits peer message wanted =>
      intro key conn entry
      rw [oneshot_writers]
      exact h key conn (connected_of_insert key conn entry)
  | @sendQueued peer message wanted queue writer entry receiving =>
      exact h.requeued (oneshot_peers w wanted) receiving rfl rfl
  | @established source peer =>
      intro key conn entry
      rw [Table.get_insert] at entry
      split at entry
      · obtain rfl := ConnectState.connected.inj (Option.some.inj entry)
        subst_vars
        exact ⟨_, Table.get_insert_self .., rfl⟩
      · have older : conn ≠ w.conns := Nat.ne_of_lt (custody.made key conn entry)
        obtain ⟨writer, running, owner⟩ := h key conn entry
        exact ⟨writer, (Table.get_insert_of_ne _ _ older).trans running, owner⟩
  | failed | ended => exact fun key conn entry => h key conn (connected_of_remove key conn entry)
  | received => exact h
  | wrote running => exact h.requeued rfl running rfl rfl
  | @broke conn accepted reason peer item rest running =>
      refine h.ended rfl rfl fun key entry => ?_
      obtain rfl := custody.owner key conn _ entry running
      exact kept ⟨conn, accepted, reason, _, rfl, running, rfl, entry⟩
  | @drained conn peer failed running unsent =>
      refine h.ended rfl rfl fun key entry => ?_
      obtain rfl := custody.owner key conn _ entry running
      simp only at entry
      simp [hasSender, entry] at unsent

/-- Nothing else takes the receiver of such a queue. -/
theorem Abandons.deserts (took : w.step a = some w') (abandons : Abandons ⟨w, a, w'⟩) :
    ¬ Received w' := by
  obtain ⟨conn, accepted, reason, writer, act, running, failed, entry⟩ := abandons
  obtain rfl : a = _ := act
  intro h
  cases step_moved took with
  | wrote found honest first =>
      obtain rfl := Option.some.inj (running.symm.trans found)
      cases first failed
  | broke found =>
      obtain ⟨_, there, -⟩ := h _ _ entry
      rw [Table.get_remove_self] at there
      cases there

theorem Runs.received (run : Runs ts w) (kept : ∀ t ∈ ts, ¬ Abandons t) : w.Received := by
  refine (run.invariant (I := fun w => Custody w ∧ Received w) ⟨init_custody, ?_⟩ ?_ kept).2
  · simp [Received, init]
  · rintro w a w' ⟨custody, received⟩ took kept
    exact ⟨custody.step took, received.step custody took kept⟩

/-- No `unwrap` of the handler fires while all queues of the map are received from. -/
theorem Received.handles (h : Received w) {source : Source Addr Key M} {event : Event Addr Key M}
    {found : Runtime Addr Key M} (reported : w.report source = some (event, found)) :
    (found.handleEvent event).isSome := by
  rw [Option.isSome_iff_ne_none]
  intro panics
  obtain ⟨peer, message, wanted, -, ⟨queue, entry, gone⟩, -⟩ :=
    panics_iff.mp (.intro reported panics)
  obtain ⟨writer, running, -⟩ := h peer.id queue entry
  cases gone.symm.trans running

/-- In every run, up to a panic of the handler, messages are sent in order, none twice, and the
    reports on them are true. That at every moment every queue the map leads to is received
    from, too, so that no `unwrap` of the handler fires, holds exactly when no sink of the run
    fails a second time while the map leads to its queue. -/
theorem sentInOrder (run : RunsOrPanics ts w) :
    Sound ts w ∧
    ((∀ before u, before <+: ts → RunsOrPanics before u → Sound before u ∧ u.Received ∧
        ∀ source event found, u.report source = some (event, found) →
          (found.handleEvent event).isSome) ↔
      ∀ t ∈ ts, ¬ Abandons t) := by
  have start : (init : Runtime Addr Key M).Received := by simp [Received, init]
  constructor
  · cases run with
    | going run => exact Runs.sound run
    | ended run panics => exact (Runs.sound run).panics (Runs.custody run) panics
  · refine run.prefixes_iff (I := fun _ _ => True) trivial
      ⟨Runs.sound .nil, start, fun _ _ _ => start.handles⟩ (fun _ _ _ _ _ _ _ _ => trivial) ?_ ?_
    · intro ts w a w' run _ good took
      constructor
      · rintro ⟨-, received, -⟩ abandons
        exact abandons.deserts took received
      · intro kept
        have received := good.2.1.step (Runs.custody run) took kept
        exact ⟨Runs.sound (run.snoc took), received, fun _ _ _ => received.handles⟩
    -- from such a moment the handler does not panic
    · rintro ts w _ _ run - ⟨-, received, -⟩ ⟨reported, panics⟩
      have handled := received.handles reported
      rw [panics] at handled
      cases handled

/-- Two messages wait for the connection, a third one joins the queue after them; the first is
    written, the second fails. -/
theorem sentInOrder_three : ∃ (ts : List (Step Unit Bool Nat)) (w : Runtime Unit Bool Nat),
    (Runs ts w : Prop) ∧ putOn 0 ts = [(7, some 0), (8, none), (9, some 1)] ∧ Sound ts w ∧
      (∀ before u, before <+: ts → RunsOrPanics before u → Sound before u ∧ u.Received ∧
        ∀ source event found, u.report source = some (event, found) →
          (found.handleEvent event).isSome) ∧
      w.sinks 0 = [(7, some 0)] ∧ w.peers.get true = some (.connected 0) := by
  obtain ⟨t₁, t₂, t₃, t₄, t₅, t₆, w, done, put, accepted, entry, acts, first⟩ :
      ∃ t₁ t₂ t₃ t₄ t₅ t₆ w, exec step (init : Runtime Unit Bool Nat)
        [.event (.sendReq ⟨(), true⟩ 7 true), .event (.sendReq ⟨(), true⟩ 8 false),
          .event (.connected 0), .event (.sendReq ⟨(), true⟩ 9 true), .wrote 0 true (.ok ()),
          .wrote 0 false (.error (.io .brokenPipe))] = some ([t₁, t₂, t₃, t₄, t₅, t₆], w) ∧
      putOn 0 [t₁, t₂, t₃, t₄, t₅, t₆] = [(7, some 0), (8, none), (9, some 1)] ∧
      w.sinks 0 = [(7, some 0)] ∧ w.peers.get true = some (.connected 0) ∧
      [t₁, t₂, t₃, t₄, t₅, t₆].map Transition.act =
        [.event (.sendReq ⟨(), true⟩ 7 true), .event (.sendReq ⟨(), true⟩ 8 false),
          .event (.connected 0), .event (.sendReq ⟨(), true⟩ 9 true), .wrote 0 true (.ok ()),
          .wrote 0 false (.error (.io .brokenPipe))] ∧
      t₆.pre.writers.get 0 = some ⟨⟨(), true⟩, [(8, none), (9, some 1)], false⟩ :=
    ⟨_, _, _, _, _, _, _, rfl, rfl, rfl, rfl, rfl, rfl⟩
  have run := exec_run done
  obtain ⟨sound, whole⟩ := sentInOrder (.going run)
  refine ⟨_, w, run, put, sound, whole.mpr ?_, accepted, entry⟩
  simp only [List.map_cons, List.map_nil, List.cons.injEq, and_true] at acts
  obtain ⟨act₁, act₂, act₃, act₄, act₅, act₆⟩ := acts
  simp only [List.forall_mem_cons, List.not_mem_nil, false_implies, implies_true, and_true]
  refine ⟨?_, ?_, ?_, ?_, ?_, ?_⟩ <;> rintro ⟨conn, taken, reason, writer, act, running, failed, -⟩
  · cases act₁.symm.trans act
  · cases act₂.symm.trans act
  · cases act₃.symm.trans act
  · cases act₄.symm.trans act
  · cases act₅.symm.trans act
  -- the sink of the connection has not failed before
  · cases act₆.symm.trans act
    cases first.symm.trans running
    cases failed

/-- Two writes fail on one connection: the map still leads to its queue, its writer task is gone,
    and the `unwrap` fires over the next message. -/
theorem desertedQueue :
    ∃ (ts : List (Step Unit Bool Nat)) (w w' : Runtime Unit Bool Nat), Runs ts w ∧
      ts.map Transition.act = [.event (.inbound ⟨(), true⟩),
        .event (.sendReq ⟨(), true⟩ 7 true), .event (.sendReq ⟨(), true⟩ 8 true),
        .wrote 0 false (.error (.io .brokenPipe)),
        .wrote 0 false (.error (.io .brokenPipe))] ∧
      ¬ w.Received ∧ Panics w (.event (.sendReq ⟨(), true⟩ 9 true)) w' := by
  obtain ⟨ts, w, done, acts, entry, gone⟩ : ∃ ts w,
      exec step (init : Runtime Unit Bool Nat)
        [.event (.inbound ⟨(), true⟩), .event (.sendReq ⟨(), true⟩ 7 true),
          .event (.sendReq ⟨(), true⟩ 8 true), .wrote 0 false (.error (.io .brokenPipe)),
          .wrote 0 false (.error (.io .brokenPipe))] = some (ts, w) ∧
      ts.map Transition.act = [.event (.inbound ⟨(), true⟩),
        .event (.sendReq ⟨(), true⟩ 7 true), .event (.sendReq ⟨(), true⟩ 8 true),
        .wrote 0 false (.error (.io .brokenPipe)),
        .wrote 0 false (.error (.io .brokenPipe))] ∧
      w.peers.get true = some (.connected 0) ∧ w.writers.get 0 = none :=
    ⟨_, _, rfl, rfl, rfl, rfl⟩
  refine ⟨ts, w, _, exec_run done, acts, fun received => ?_,
    panics_iff.mpr ⟨_, _, _, rfl, ⟨0, entry, gone⟩, rfl⟩⟩
  obtain ⟨writer, running, -⟩ := received true 0 entry
  cases gone.symm.trans running

end Lindy.P2p.Runtime
