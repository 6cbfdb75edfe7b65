import Lindy.Machine.Custody
import Lindy.P2p.Handler

/-! # Every notifier lies in one place

A notifier that was handed in waits in the entry of one peer or in the queue of one
connection, and is unanswered there. Each event and each step of a writer task keeps this, and
each entry leads to a connection of its own peer.
-/

namespace Lindy.P2p.Runtime

open Machine

variable {Addr Key M : Type}

/-- The notifiers waiting in the entry of a peer, or in the queue of a connection. -/
def held (w : Runtime Addr Key M) : Key ⊕ ConnId → List Notifier
  | .inl key => w.notifyAt key ++ notifiers (w.pendingAt key)
  | .inr conn => notifiers (w.queueAt conn)

section Held

variable [DecidableEq Key]

variable {w w' : Runtime Addr Key M} {key : Key} {conn : ConnId}

/-- Another entry of a peer makes a difference there and nowhere else. -/
theorem held_entry {ns : List Notifier} {ps : List (Item M)}
    (notify : ∀ other, w'.notifyAt other = if other = key then ns else w.notifyAt other)
    (pending : ∀ other, w'.pendingAt other = if other = key then ps else w.pendingAt other)
    (writers : w'.writers = w.writers) :
    w'.held = Function.update w.held (.inl key) (ns ++ notifiers ps) := by
  funext i
  cases i with
  | inl other =>
      rw [held, notify, pending]
      by_cases same : other = key
      · subst same
        simp
      · rw [Function.update_of_ne (by simpa using same), if_neg same, if_neg same, held]
  | inr conn => simp [held, queueAt, writers]

/-- So does another queue of a connection. -/
theorem held_writer {items : List (Item M)}
    (queues : ∀ other, w'.queueAt other = if other = conn then items else w.queueAt other)
    (peers : w'.peers = w.peers) :
    w'.held = Function.update w.held (.inr conn) (notifiers items) := by
  funext i
  cases i with
  | inl key => simp [held, notifyAt, pendingAt, peers]
  | inr other =>
      rw [held, queues]
      by_cases same : other = conn
      · subst same
        simp
      · rw [Function.update_of_ne (by simpa using same), if_neg same, held]

theorem held_insert_peer {ns : List Notifier} {ps : List (Item M)}
    (peers : w'.peers = w.peers.insert key (.connecting ns ps))
    (writers : w'.writers = w.writers) :
    w'.held = Function.update w.held (.inl key) (ns ++ notifiers ps) :=
  held_entry (notifyAt_connecting peers) (pendingAt_connecting peers) writers

theorem held_remove_peer (peers : w'.peers = w.peers.remove key)
    (writers : w'.writers = w.writers) :
    w'.held = Function.update w.held (.inl key) [] :=
  held_entry (notifyAt_removed peers) (pendingAt_removed peers) writers

theorem held_insert_writer {writer : Writer Addr Key M} (peers : w'.peers = w.peers)
    (writers : w'.writers = w.writers.insert conn writer) :
    w'.held = Function.update w.held (.inr conn) (notifiers writer.queue) :=
  held_writer (queueAt_insert writers) peers

theorem held_remove_writer (peers : w'.peers = w.peers)
    (writers : w'.writers = w.writers.remove conn) :
    w'.held = Function.update w.held (.inr conn) [] :=
  held_writer (queueAt_remove writers) peers

/-- The entry gives way to a fresh queue that takes over its pending messages. -/
theorem held_established {writer : Writer Addr Key M}
    (peers : w'.peers = w.peers.insert key (.connected conn))
    (writers : w'.writers = w.writers.insert conn writer) :
    w'.held = Function.update (Function.update w.held (.inl key) [])
      (.inr conn) (notifiers writer.queue) := by
  let between : Runtime Addr Key M := { w with peers := w'.peers }
  have entry : between.peers = w.peers.insert key (.connected conn) := peers
  have taken : between.held = Function.update w.held (.inl key) [] :=
    held_entry (notifyAt_connected entry) (pendingAt_connected entry) rfl
  rw [← taken]
  exact held_insert_writer rfl writers

end Held

/-- Issued, unanswered and lying nowhere: a notifier an event carries. -/
structure Loose (w : Runtime Addr Key M) (n : Notifier) : Prop where
  issued : n < w.oneshots
  unanswered : w.answers n = []
  nowhere : ∀ i, n ∉ w.held i

/-- The entries of the map lead to connections that were made, to the peer they are for, and
    nobody writes on one that was not. -/
structure Linked (w : Runtime Addr Key M) : Prop where
  made : ∀ key conn, w.peers.get key = some (.connected conn) → conn < w.conns
  owner : ∀ key conn writer, w.peers.get key = some (.connected conn) →
    w.writers.get conn = some writer → writer.peer.id = key
  unmade : ∀ conn, w.conns ≤ conn → w.writers.get conn = none

structure Custody (w : Runtime Addr Key M) : Prop extends Linked w where
  exclusive : Exclusive w.held
  issued : ∀ i, ∀ n ∈ w.held i, n < w.oneshots
  unanswered : ∀ i, ∀ n ∈ w.held i, w.answers n = []
  silent : ∀ n, w.oneshots ≤ n → w.answers n = []
  once : ∀ n, (w.answers n).length ≤ 1

theorem init_custody : Custody (init : Runtime Addr Key M) where
  exclusive := by
    have nothing : (init : Runtime Addr Key M).held = fun _ => [] := by
      funext i
      cases i <;> rfl
    exact nothing ▸ .empty
  issued := by rintro (_ | _) n member <;> simp [held, notifyAt, pendingAt, queueAt, init] at member
  unanswered := fun _ _ _ => rfl
  silent := fun _ _ => rfl
  once := fun _ => Nat.zero_le _
  made := by simp [init]
  owner := by simp [init]
  unmade := fun _ _ => rfl

/-- What a step has to show: `new` notifiers were handed in, `settled` ones left with a
    result, every other one was there before or is gone. -/
theorem Custody.change {w w' : Runtime Addr Key M} (h : Custody w)
    (new settled : List Notifier) (result : Outcome)
    (loose : ∀ n ∈ new, w.Loose n) (exclusive : Exclusive w'.held)
    (kept : ∀ i, ∀ n ∈ w'.held i, (∃ j, n ∈ w.held j) ∨ n ∈ new)
    (distinct : settled.Nodup) (were : ∀ n ∈ settled, ∃ j, n ∈ w.held j)
    (gone : ∀ n ∈ settled, ∀ i, n ∉ w'.held i)
    (answers : w'.answers = answered w.answers settled result)
    (oneshots : w'.oneshots = w.oneshots) (linked : Linked w') : Custody w' where
  toLinked := linked
  exclusive := exclusive
  issued := by
    intro i n member
    rw [oneshots]
    rcases kept i n member with ⟨j, before⟩ | fresh
    · exact h.issued j n before
    · exact (loose n fresh).issued
  unanswered := by
    intro i n member
    rw [answers, answered_of_notMem _ (fun left => gone n left i member)]
    rcases kept i n member with ⟨j, before⟩ | fresh
    · exact h.unanswered j n before
    · exact (loose n fresh).unanswered
  silent := by
    intro n late
    rw [oneshots] at late
    have absent : n ∉ settled := by
      intro left
      obtain ⟨j, before⟩ := were n left
      exact absurd (h.issued j n before) (Nat.not_lt.mpr late)
    rw [answers, answered_of_notMem _ absent]
    exact h.silent n late
  once := by
    intro n
    rw [answers]
    by_cases left : n ∈ settled
    · obtain ⟨j, before⟩ := were n left
      rw [answered_of_mem _ distinct left, h.unanswered j n before]
      simp
    · rw [answered_of_notMem _ left]
      exact h.once n

section Linked

variable {w w' : Runtime Addr Key M} {conn : ConnId} {writer : Writer Addr Key M}

/-- No entry leads elsewhere now, and no writer task works for someone else. -/
theorem Linked.kept (h : Linked w)
    (peers : ∀ key conn, w'.peers.get key = some (.connected conn) →
      w.peers.get key = some (.connected conn))
    (writers : ∀ conn writer, w'.writers.get conn = some writer →
      ∃ old, w.writers.get conn = some old ∧ old.peer = writer.peer)
    (conns : w.conns ≤ w'.conns) : Linked w' where
  made := fun key conn entry => Nat.lt_of_lt_of_le (h.made key conn (peers key conn entry)) conns
  owner := by
    intro key conn writer entry found
    obtain ⟨old, running, same⟩ := writers conn writer found
    exact same ▸ h.owner key conn old (peers key conn entry) running
  unmade := by
    intro conn late
    rw [Option.eq_none_iff_forall_ne_some]
    intro writer found
    obtain ⟨old, running, -⟩ := writers conn writer found
    cases running.symm.trans (h.unmade conn (Nat.le_trans conns late))

/-- A writer task whose queue changed goes on for the same peer. -/
theorem writers_insert (running : w.writers.get conn = some writer)
    {changed : Writer Addr Key M} (writers : w'.writers = w.writers.insert conn changed)
    (same : changed.peer = writer.peer) (other : ConnId)
    (now : Writer Addr Key M) (found : w'.writers.get other = some now) :
    ∃ old, w.writers.get other = some old ∧ old.peer = now.peer := by
  rw [writers, Table.get_insert] at found
  split at found
  · subst_vars
    obtain rfl := Option.some.inj found
    exact ⟨writer, running, same.symm⟩
  · exact ⟨now, found, rfl⟩

theorem writers_remove (writers : w'.writers = w.writers.remove conn) (other : ConnId)
    (now : Writer Addr Key M) (found : w'.writers.get other = some now) :
    ∃ old, w.writers.get other = some old ∧ old.peer = now.peer := by
  rw [writers, Table.get_remove] at found
  split at found
  · cases found
  · exact ⟨now, found, rfl⟩

variable [DecidableEq Key] {key : Key}

/-- A connecting entry leads to no connection. -/
theorem connected_of_insert {ns : List Notifier} {ps : List (Item M)} (other : Key) (conn : ConnId)
    (entry : (w.peers.insert key (.connecting ns ps)).get other = some (.connected conn)) :
    w.peers.get other = some (.connected conn) := by
  rw [Table.get_insert] at entry
  split at entry
  · cases entry
  · exact entry

theorem connected_of_remove (other : Key) (conn : ConnId)
    (entry : (w.peers.remove key).get other = some (.connected conn)) :
    w.peers.get other = some (.connected conn) := by
  rw [Table.get_remove] at entry
  split at entry
  · cases entry
  · exact entry

end Linked

section Steps

variable {w w' : Runtime Addr Key M} {peer : Peer Addr Key}

/-- Making a channel or a connection leaves everything where it lies. -/
theorem Custody.later (h : Custody w) (peers : w'.peers = w.peers)
    (writers : w'.writers = w.writers) (answers : w'.answers = w.answers)
    (oneshots : w.oneshots ≤ w'.oneshots) (conns : w.conns ≤ w'.conns) : Custody w' := by
  have held' : w'.held = w.held := by
    funext i
    cases i <;> simp [held, notifyAt, pendingAt, queueAt, peers, writers]
  exact
    { exclusive := held' ▸ h.exclusive
      issued := fun i n member => Nat.lt_of_lt_of_le (h.issued i n (held' ▸ member)) oneshots
      unanswered := fun i n member => answers ▸ h.unanswered i n (held' ▸ member)
      silent := fun n late => answers ▸ h.silent n (Nat.le_trans oneshots late)
      once := answers ▸ h.once
      toLinked := h.kept (fun _ _ => peers ▸ id) (fun _ writer => writers ▸ (⟨writer, ·, rfl⟩))
        conns }

theorem Custody.oneshot (h : Custody w) (wanted : Bool) :
    Custody (w.oneshot wanted).2 ∧
      ∀ n ∈ (w.oneshot wanted).1.toList, (w.oneshot wanted).2.Loose n := by
  cases wanted with
  | false => exact ⟨h, by simp [Runtime.oneshot]⟩
  | true =>
      refine ⟨h.later rfl rfl rfl (Nat.le_succ _) (Nat.le_refl _), ?_⟩
      simp only [Runtime.oneshot, if_true, Option.toList_some, List.mem_singleton, forall_eq]
      exact
        { issued := Nat.lt_succ_self _
          unanswered := h.silent _ (Nat.le_refl _)
          nowhere := fun i member => Nat.lt_irrefl _ (h.issued i _ member) }

variable [DecidableEq Key]

/-- When his place is emptied, he waits nowhere. -/
theorem Custody.nowhere (h : Custody w) {i : Key ⊕ ConnId}
    {n : Notifier} (there : n ∈ w.held i) (cleared : w'.held = Function.update w.held i [])
    (j : Key ⊕ ConnId) : n ∉ w'.held j := by
  intro still
  rw [cleared, mem_update] at still
  rcases still with ⟨-, none⟩ | ⟨apart, elsewhere⟩
  · cases none
  · exact apart (h.exclusive.unique elsewhere there)

/-- A notifier handed in at a connecting entry. -/
theorem Custody.wait (h : Custody w) {key : Key} (notifier : Option Notifier)
    (loose : ∀ n ∈ notifier.toList, w.Loose n) {ns : List Notifier} {ps : List (Item M)}
    (order : (ns ++ notifiers ps).Perm (w.held (.inl key) ++ notifier.toList))
    (peers : w'.peers = w.peers.insert key (.connecting ns ps))
    (writers : w'.writers = w.writers) (answers : w'.answers = w.answers)
    (oneshots : w'.oneshots = w.oneshots) (conns : w'.conns = w.conns) : Custody w' := by
  have held' := held_insert_peer peers writers
  refine h.change notifier.toList [] (.ok ()) loose ?_ ?_ List.nodup_nil (by simp) (by simp)
    (by simpa using answers) oneshots ?_
  · rw [held']
    exact h.exclusive.append _ order (by cases notifier <;> simp) fun n new => (loose n new).nowhere
  · intro i n member
    rw [held', mem_update] at member
    rcases member with ⟨rfl, member⟩ | ⟨-, member⟩
    · exact (List.mem_append.mp (order.subset member)).imp_left fun before => ⟨_, before⟩
    · exact .inl ⟨i, member⟩
  · exact h.kept (by rw [peers]; exact connected_of_insert)
      (fun _ writer => writers ▸ (⟨writer, ·, rfl⟩)) (Nat.le_of_eq conns.symm)

/-- A notifier handed in at the queue of a connection. -/
theorem Custody.enqueue (h : Custody w) {conn : ConnId} {writer : Writer Addr Key M}
    (receiving : w.writers.get conn = some writer) (message : M) (notifier : Option Notifier)
    (loose : ∀ n ∈ notifier.toList, w.Loose n)
    (writers : w'.writers = w.writers.insert conn
      { writer with queue := writer.queue ++ [(message, notifier)] })
    (peers : w'.peers = w.peers) (answers : w'.answers = w.answers)
    (oneshots : w'.oneshots = w.oneshots) (conns : w'.conns = w.conns) : Custody w' := by
  have held' := held_insert_writer peers writers
  have order : notifiers (writer.queue ++ [(message, notifier)]) =
      w.held (.inr conn) ++ notifier.toList := by
    cases notifier <;> simp [held, queueAt, receiving, notifiers]
  refine h.change notifier.toList [] (.ok ()) loose ?_ ?_ List.nodup_nil (by simp) (by simp)
    (by simpa using answers) oneshots ?_
  · rw [held']
    exact h.exclusive.append _ (.of_eq order) (by cases notifier <;> simp)
      fun n new => (loose n new).nowhere
  · intro i n member
    rw [held', mem_update] at member
    rcases member with ⟨rfl, member⟩ | ⟨-, member⟩
    · exact (List.mem_append.mp (order ▸ member)).imp_left fun before => ⟨_, before⟩
    · exact .inl ⟨i, member⟩
  · exact h.kept (fun _ _ => peers ▸ id) (writers_insert receiving writers rfl)
      (Nat.le_of_eq conns.symm)

/-- An established connection: those who only waited for it hear `Ok`, the pending messages
    move to the new queue. -/
theorem Custody.established (h : Custody w) {conn : ConnId} (made : conn < w.conns)
    (fresh : w.writers.get conn = none)
    (unled : ∀ key, w.peers.get key ≠ some (.connected conn))
    (peers : w'.peers = w.peers.insert peer.id (.connected conn))
    (writers : w'.writers = w.writers.insert conn ⟨peer, w.pendingAt peer.id, false⟩)
    (answers : w'.answers = answered w.answers (w.notifyAt peer.id) (.ok ()))
    (oneshots : w'.oneshots = w.oneshots) (conns : w'.conns = w.conns) : Custody w' := by
  have held' := held_established peers writers
  have entry : w.held (.inl peer.id) = w.notifyAt peer.id ++ notifiers (w.pendingAt peer.id) := rfl
  have nodup := h.exclusive.nodup (.inl peer.id)
  rw [entry, List.nodup_append'] at nodup
  obtain ⟨waiters, moved, apart⟩ := nodup
  have cleared := h.exclusive.clear (.inl peer.id)
  refine h.change [] (w.notifyAt peer.id) (.ok ()) (by simp) ?_ ?_ waiters ?_ ?_ answers
    oneshots ?_
  · rw [held']
    refine cleared.append (.inr conn) ?_ moved ?_
    · simp [held, queueAt, fresh]
    · intro n member i elsewhere
      rw [mem_update] at elsewhere
      rcases elsewhere with ⟨-, none⟩ | ⟨same, elsewhere⟩
      · cases none
      · exact same (h.exclusive.unique elsewhere (entry ▸ List.mem_append_right _ member))
  · intro i n member
    rw [held', mem_update, mem_update] at member
    rcases member with ⟨-, member⟩ | ⟨-, ⟨-, none⟩ | ⟨-, member⟩⟩
    · exact .inl ⟨.inl peer.id, entry ▸ List.mem_append_right _ member⟩
    · cases none
    · exact .inl ⟨i, member⟩
  · exact fun n member => ⟨.inl peer.id, entry ▸ List.mem_append_left _ member⟩
  · intro n settled i member
    rw [held', mem_update, mem_update] at member
    rcases member with ⟨-, member⟩ | ⟨-, ⟨-, none⟩ | ⟨same, member⟩⟩
    · exact apart settled member
    · cases none
    · exact same (h.exclusive.unique member (entry ▸ List.mem_append_left _ settled))
  · constructor
    · intro key other found
      rw [conns]
      rw [peers, Table.get_insert] at found
      split at found
      · obtain rfl := ConnectState.connected.inj (Option.some.inj found)
        exact made
      · exact h.made key other found
    · intro key other writer entry found
      rw [peers, Table.get_insert] at entry
      rw [writers, Table.get_insert] at found
      split at entry
      · obtain rfl := ConnectState.connected.inj (Option.some.inj entry)
        rw [if_pos rfl] at found
        subst_vars
        exact Option.some.inj found ▸ rfl
      · split at found
        · subst_vars
          exact absurd entry (unled key)
        · exact h.owner key other writer entry found
    · intro other late
      rw [conns] at late
      rw [writers, Table.get_insert_of_ne _ _ (Nat.ne_of_gt (Nat.lt_of_lt_of_le made late))]
      exact h.unmade other late

/-- An entry taken out of the map; whoever waited in it may have been told why. -/
theorem Custody.removed (h : Custody w) {key : Key} {result : Outcome} {told : List Notifier}
    (who : told = [] ∨ told = w.held (.inl key))
    (peers : w'.peers = w.peers.remove key) (writers : w'.writers = w.writers)
    (answers : w'.answers = answered w.answers told result)
    (oneshots : w'.oneshots = w.oneshots) (conns : w'.conns = w.conns) : Custody w' := by
  have held' := held_remove_peer peers writers
  refine h.change [] told result (by simp) ?_ ?_ ?_ ?_ ?_ answers oneshots ?_
  · rw [held']
    exact h.exclusive.clear _
  · intro i n member
    rw [held', mem_update] at member
    rcases member with ⟨-, none⟩ | ⟨-, member⟩
    · cases none
    · exact .inl ⟨i, member⟩
  · rcases who with rfl | rfl
    · exact List.nodup_nil
    · exact h.exclusive.nodup _
  · rcases who with rfl | rfl
    · simp
    · exact fun n member => ⟨_, member⟩
  · intro n member i present
    rcases who with rfl | rfl
    · simp at member
    · rw [held', mem_update] at present
      rcases present with ⟨-, none⟩ | ⟨same, present⟩
      · cases none
      · exact same (h.exclusive.unique present member)
  · exact h.kept (by rw [peers]; exact connected_of_remove)
      (fun _ writer => writers ▸ (⟨writer, ·, rfl⟩)) (Nat.le_of_eq conns.symm)

/-- The head of a queue leaves it with a result. -/
theorem Custody.wrote (h : Custody w) {conn : ConnId} {outcome : Outcome}
    {owner : Peer Addr Key} {item : Item M} {rest : List (Item M)} {failed failed' : Bool}
    (running : w.writers.get conn = some ⟨owner, item :: rest, failed⟩)
    (writers : w'.writers = w.writers.insert conn ⟨owner, rest, failed'⟩)
    (peers : w'.peers = w.peers)
    (answers : w'.answers = answered w.answers item.2.toList outcome)
    (oneshots : w'.oneshots = w.oneshots) (conns : w'.conns = w.conns) : Custody w' := by
  have held' := held_insert_writer peers writers
  have queue : w.held (.inr conn) = item.2.toList ++ notifiers rest := by
    obtain ⟨message, notifier⟩ := item
    cases notifier <;> simp [held, queueAt, running]
  have nodup := h.exclusive.nodup (.inr conn)
  rw [queue, List.nodup_append'] at nodup
  obtain ⟨first, -, apart⟩ := nodup
  have sub : ∀ i, (w'.held i).Sublist (w.held i) :=
    held' ▸ sublist_update (queue ▸ List.sublist_append_right ..)
  refine h.change [] item.2.toList outcome (by simp) (h.exclusive.sublist sub)
    (fun i n member => .inl ⟨i, (sub i).subset member⟩) first ?_ ?_ answers oneshots ?_
  · exact fun n member => ⟨.inr conn, queue ▸ List.mem_append_left _ member⟩
  · intro n settled i member
    obtain rfl := h.exclusive.unique ((sub i).subset member)
      (queue ▸ List.mem_append_left _ settled)
    rw [held', Function.update_self] at member
    exact apart settled member
  · exact h.kept (fun _ _ => peers ▸ id) (writers_insert running writers rfl)
      (Nat.le_of_eq conns.symm)

/-- A writer task that is gone leaves nobody with an answer. -/
theorem Custody.ended (h : Custody w) {conn : ConnId}
    (writers : w'.writers = w.writers.remove conn) (peers : w'.peers = w.peers)
    (answers : w'.answers = w.answers) (oneshots : w'.oneshots = w.oneshots)
    (conns : w'.conns = w.conns) : Custody w' := by
  have held' := held_remove_writer peers writers
  have sub : ∀ i, (w'.held i).Sublist (w.held i) :=
    held' ▸ sublist_update (List.nil_sublist _)
  exact h.change [] [] (.ok ()) (by simp) (h.exclusive.sublist sub)
    (fun i n member => .inl ⟨i, (sub i).subset member⟩) List.nodup_nil (by simp) (by simp)
    (by simpa using answers) oneshots
    (h.kept (fun _ _ => peers ▸ id) (writers_remove writers) (Nat.le_of_eq conns.symm))

theorem Custody.step (h : Custody w) {a : Act Addr Key M} (took : w.step a = some w') :
    Custody w' := by
  cases step_moved took with
  | @connectLost peer wanted => exact (h.oneshot wanted).1
  | @connectWaits peer wanted =>
      obtain ⟨ready, loose⟩ := h.oneshot wanted
      have order : ((w.notifyAt peer.id ++ (w.oneshot wanted).1.toList) ++
          notifiers (w.pendingAt peer.id)).Perm
            ((w.oneshot wanted).2.held (.inl peer.id) ++ (w.oneshot wanted).1.toList) := by
        simp only [held, notifyAt, pendingAt, oneshot_peers, List.append_assoc]
        exact List.perm_append_comm.append_left _
      exact ready.wait _ loose order (by rw [oneshot_peers]) rfl rfl rfl rfl
  | @sendQueued peer message wanted queue writer _ receiving =>
      obtain ⟨ready, loose⟩ := h.oneshot wanted
      exact ready.enqueue (by simpa using receiving) message _ loose (by simp) rfl rfl rfl rfl
  | @sendWaits peer message wanted =>
      obtain ⟨ready, loose⟩ := h.oneshot wanted
      have order : (w.notifyAt peer.id ++
          notifiers (w.pendingAt peer.id ++ [(message, (w.oneshot wanted).1)])).Perm
            ((w.oneshot wanted).2.held (.inl peer.id) ++ (w.oneshot wanted).1.toList) := by
        simp only [held, notifyAt, pendingAt, oneshot_peers]
        rcases (w.oneshot wanted).1 with _ | n <;> simp
      exact ready.wait _ loose order (by rw [oneshot_peers]) rfl rfl rfl rfl
  | established =>
      have ready : Custody { w with conns := w.conns + 1 } :=
        h.later rfl rfl rfl (Nat.le_refl _) (Nat.le_succ _)
      exact ready.established (Nat.lt_succ_self _) (h.unmade _ (Nat.le_refl _))
        (fun key entry => Nat.lt_irrefl _ (h.made key _ entry)) rfl rfl rfl rfl rfl
  | failed => exact h.removed (.inr rfl) rfl rfl rfl rfl rfl
  | received => exact h.later rfl rfl rfl (Nat.le_refl _) (Nat.le_refl _)
  | ended => exact h.removed (.inl rfl) rfl rfl (answered_nil _ (.ok ())).symm rfl rfl
  | wrote running => exact h.wrote running rfl rfl rfl rfl rfl
  | broke | drained => exact h.ended rfl rfl rfl rfl rfl

theorem Runs.custody {ts} (run : Runs ts w) : Custody w :=
  run.always init_custody fun _ _ _ h took => h.step took

omit [DecidableEq Key] in
/-- The entry led to the queue before, and no writer task has ended since. -/
theorem Deserted.earlier {key : Key} (deserted : w'.Deserted key)
    (entries : ∀ queue, w'.peers.get key = some (.connected queue) →
      w.peers.get key = some (.connected queue)) (writers : w'.writers = w.writers) :
    w.Deserted key := by
  obtain ⟨queue, entry, gone⟩ := deserted
  exact ⟨queue, entries queue entry, writers ▸ gone⟩

/-- No handled event takes the receiver of a queue away, or leads to one that is gone. -/
theorem handleEvent_deserts {event : Event Addr Key M}
    (handled : w.handleEvent event = some w') {key : Key}
    (deserted : w'.Deserted key) : w.Deserted key := by
  cases event with
  | outgoingConnectionReq peer notify =>
      by_cases found : ∃ other, w.peers.get peer.id = some (.connected other)
      · obtain ⟨other, found⟩ := found
        rw [handleEvent_connect_connected notify found] at handled
        cases handled
        exact deserted
      · rw [handleEvent_connect_waiting notify (not_exists.mp found)] at handled
        cases handled
        exact deserted.earlier (connected_of_insert key) (maybeConnect_writers w peer)
  | sendMessageReq peer message notifier =>
      by_cases found : ∃ other, w.peers.get peer.id = some (.connected other)
      · obtain ⟨other, found⟩ := found
        cases receiving : w.writers.get other with
        | none =>
            have panics := handleEvent_eq_none.mpr ⟨peer, message, notifier, rfl, other, found,
              receiving⟩
            cases handled.symm.trans panics
        | some writer =>
            rw [handleEvent_send_connected message notifier found receiving] at handled
            cases handled
            obtain ⟨queue, entry, gone⟩ := deserted
            rw [Table.get_insert] at gone
            split at gone
            · cases gone
            · exact ⟨queue, entry, gone⟩
      · rw [handleEvent_send_waiting message notifier (not_exists.mp found)] at handled
        cases handled
        exact deserted.earlier (connected_of_insert key) (maybeConnect_writers w peer)
  | newIncomingMessage =>
      cases handled
      exact deserted
  | disconnected peer =>
      cases handled
      exact deserted.earlier (connected_of_remove key) rfl
  | connectionFailed peer reason =>
      rw [handleEvent_failed] at handled
      cases handled
      exact deserted.earlier (connected_of_remove key) rfl
  | connectionEstablished peer conn =>
      rw [handleEvent_established] at handled
      cases handled
      obtain ⟨queue, entry, gone⟩ := deserted
      simp only [Table.get_insert] at entry gone
      split at gone
      · cases gone
      · rename_i other
        split at entry
        · cases entry
          exact absurd rfl other
        · exact ⟨queue, entry, gone⟩

theorem step_send_deserts {message : M} {wanted : Bool}
    (took : w.step (.event (.sendReq peer message wanted)) = some w') {key : Key}
    (deserted : w'.Deserted key) : w.Deserted key := by
  rw [step, report, Option.bind_eq_bind, Option.bind_some] at took
  exact oneshot_deserted.mp (handleEvent_deserts took deserted)

end Steps

end Lindy.P2p.Runtime
