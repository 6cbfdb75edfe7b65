import Lindy.P2p.Custody

/-! # Connection attempts

An entry that is connecting was made together with an attempt, and that attempt has not
reported yet. An older attempt to the same peer may still run next to it: the entry made
with the older one can be gone by the time the next is made, and nothing stops an attempt.
-/

namespace Lindy.P2p

open Machine

variable {Addr Key M : Type}

/-- A step the event loop and its tasks took. -/
abbrev Step (Addr Key M : Type) := Transition (Runtime Addr Key M) (Act Addr Key M)

/-- The peer a request is for. -/
def Act.requested : Act Addr Key M → Option (Peer Addr Key)
  | .event (.connectReq peer _) => some peer
  | .event (.sendReq peer _ _) => some peer
  | _ => none

namespace Runtime

/-- The entry of the peer is connecting. -/
def connecting (w : Runtime Addr Key M) (key : Key) : Bool :=
  match w.peers.get key with
  | some (.connecting _ _) => true
  | _ => false

theorem connecting_iff {w : Runtime Addr Key M} {key : Key} :
    w.connecting key = true ↔ ∃ ns ps, w.peers.get key = some (.connecting ns ps) := by
  unfold connecting
  rcases w.peers.get key with _ | ⟨queue⟩ | ⟨ns, ps⟩ <;> simp

theorem connecting_of_held {w : Runtime Addr Key M} {key : Key} {n : Notifier}
    (waits : n ∈ w.held (.inl key)) : w.connecting key = true := by
  rw [connecting_iff]
  simp only [held, notifyAt, pendingAt] at waits
  rcases entry : w.peers.get key with _ | ⟨queue⟩ | ⟨ns, ps⟩
  · simp [entry] at waits
  · simp [entry] at waits
  · exact ⟨ns, ps, rfl⟩

/-- The attempt that was started when the entry a peer has now was made. -/
def nextOwn (key : Key) (own : Option AttemptId) (t : Step Addr Key M) : Option AttemptId :=
  if t.post.connecting key then
    -- an entry that was not there before was made just now
    if t.pre.connecting key then own else some t.pre.spawned
  else none

/-- The same over the steps of a run. -/
def ownAttempt (key : Key) (ts : List (Step Addr Key M)) : Option AttemptId :=
  ts.foldl (nextOwn key) none

@[simp] theorem ownAttempt_snoc (key : Key) (ts : List (Step Addr Key M)) (t : Step Addr Key M) :
    ownAttempt key (ts ++ [t]) = nextOwn key (ownAttempt key ts) t := by
  simp [ownAttempt]

/-- Where the attempts stand: each connecting entry has its own one running, and no attempt
    to the peer was started later. -/
structure Attempting (ts : List (Step Addr Key M)) (w : Runtime Addr Key M) : Prop where
  numbered : ∀ {attempt peer}, w.attempts.get attempt = some peer → attempt < w.spawned
  own : ∀ {key}, w.connecting key = true → ∃ attempt peer, ownAttempt key ts = some attempt ∧
    w.attempts.get attempt = some peer ∧ peer.id = key
  newest : ∀ {key attempt}, ownAttempt key ts = some attempt →
    ∀ {other peer}, w.attempts.get other = some peer → peer.id = key → other ≤ attempt

theorem Attempting.init : Attempting [] (init : Runtime Addr Key M) where
  numbered := by simp [Runtime.init]
  own := by simp [connecting, Runtime.init]
  newest := by simp [ownAttempt]

section History

variable {ts : List (Step Addr Key M)} {w w' : Runtime Addr Key M} {a : Act Addr Key M}

/-- An entry that goes on connecting keeps its attempt. -/
theorem ownAttempt_kept {key : Key} (before : w.connecting key = true)
    (after : w'.connecting key = true) :
    ownAttempt key (ts ++ [⟨w, a, w'⟩]) = ownAttempt key ts := by
  simp [nextOwn, before, after]

/-- An entry that has an attempt is connecting, and had it before or was made just now. -/
theorem ownAttempt_cases {key : Key} {attempt : AttemptId}
    (own : ownAttempt key (ts ++ [⟨w, a, w'⟩]) = some attempt) :
    w'.connecting key = true ∧
      (w.connecting key = true ∧ ownAttempt key ts = some attempt ∨
        w.connecting key = false ∧ attempt = w.spawned) := by
  rw [ownAttempt_snoc, nextOwn] at own
  split at own
  · rename_i after
    refine ⟨after, ?_⟩
    split at own
    · rename_i before
      exact .inl ⟨before, own⟩
    · rename_i before
      exact .inr ⟨by simpa using before, (Option.some.inj own).symm⟩
  · cases own

end History

variable [DecidableEq Key]

theorem connecting_insert {w w' : Runtime Addr Key M} {key : Key} {ns : List Notifier}
    {ps : List (Item M)} (peers : w'.peers = w.peers.insert key (.connecting ns ps))
    (other : Key) : w'.connecting other = (other == key || w.connecting other) := by
  simp only [connecting, peers, Table.get_insert]
  by_cases same : other = key <;> simp [same]

theorem connecting_connected {w w' : Runtime Addr Key M} {key : Key} {conn : ConnId}
    (peers : w'.peers = w.peers.insert key (.connected conn)) (other : Key) :
    w'.connecting other = (other != key && w.connecting other) := by
  simp only [connecting, peers, Table.get_insert]
  by_cases same : other = key <;> simp [same]

theorem connecting_removed {w w' : Runtime Addr Key M} {key : Key}
    (peers : w'.peers = w.peers.remove key) (other : Key) :
    w'.connecting other = (other != key && w.connecting other) := by
  simp only [connecting, peers, Table.get_remove]
  by_cases same : other = key <;> simp [same]

/-- What a step does to the attempts, and to the entries that are connecting. -/
inductive Tried (w : Runtime Addr Key M) (a : Act Addr Key M) (w' : Runtime Addr Key M) :
    Prop where
  | quiet (attempts : w'.attempts = w.attempts) (spawned : w'.spawned = w.spawned)
      (entries : ∀ key, w'.connecting key = true → w.connecting key = true)
  | started {peer} (asked : a.requested = some peer) (missing : w.peers.get peer.id = none)
      (attempts : w'.attempts = w.attempts.insert w.spawned peer)
      (spawned : w'.spawned = w.spawned + 1)
      (entries : ∀ key, w'.connecting key = (key == peer.id || w.connecting key))
  | reported {attempt peer} (running : w.attempts.get attempt = some peer)
      (attempts : w'.attempts = w.attempts.remove attempt) (spawned : w'.spawned = w.spawned)
      (entries : ∀ key, w'.connecting key = (key != peer.id && w.connecting key))

/-- An entry that was replaced or taken out. -/
theorem Tried.quits {w w' : Runtime Addr Key M} {a : Act Addr Key M} {key : Key}
    (attempts : w'.attempts = w.attempts) (spawned : w'.spawned = w.spawned)
    (entries : ∀ other, w'.connecting other = (other != key && w.connecting other)) :
    Tried w a w' := by
  refine .quiet attempts spawned fun other still => ?_
  rw [entries, Bool.and_eq_true] at still
  exact still.2

/-- A request that has to wait joins the entry of its peer or makes it. -/
theorem Tried.waits {w w' : Runtime Addr Key M} {a : Act Addr Key M} {peer : Peer Addr Key}
    {ns : List Notifier} {ps : List (Item M)} (asked : a.requested = some peer)
    (entry : ∀ queue, w.peers.get peer.id ≠ some (.connected queue))
    (peers : w'.peers = w.peers.insert peer.id (.connecting ns ps))
    (attempts : w'.attempts = (w.maybeConnect peer).2.attempts)
    (spawned : w'.spawned = (w.maybeConnect peer).2.spawned) : Tried w a w' := by
  have entries := connecting_insert peers
  unfold maybeConnect at attempts spawned
  rcases missing : w.peers.get peer.id with _ | ⟨queue⟩ | ⟨ns', ps'⟩
  · rw [missing] at attempts spawned
    exact .started asked missing attempts spawned entries
  · exact absurd missing (entry queue)
  · rw [missing] at attempts spawned
    refine .quiet attempts spawned fun key still => ?_
    rw [entries] at still
    by_cases same : key = peer.id
    · subst same
      exact connecting_iff.mpr ⟨_, _, missing⟩
    · simpa [same] using still

theorem step_tried {w w' : Runtime Addr Key M} {a : Act Addr Key M}
    (took : w.step a = some w') : Tried w a w' := by
  cases step_moved took with
  | @connectLost peer wanted => cases wanted <;> exact .quiet rfl rfl fun _ => id
  | connectWaits entry => exact .waits rfl entry rfl rfl rfl
  | @sendQueued peer message wanted => cases wanted <;> exact .quiet rfl rfl fun _ => id
  | sendWaits entry => exact .waits rfl entry rfl rfl rfl
  | established origin =>
      rcases origin with ⟨-, rfl⟩ | ⟨attempt, -, running, rfl⟩
      · exact .quits rfl rfl (connecting_connected rfl)
      · exact .reported running rfl rfl (connecting_connected rfl)
  | failed running => exact .reported running rfl rfl (connecting_removed rfl)
  | received => exact .quiet rfl rfl fun _ => id
  | ended => exact .quits rfl rfl (connecting_removed rfl)
  | wrote | broke | drained => exact .quiet rfl rfl fun _ => id

section Steps

variable {ts : List (Step Addr Key M)} {w w' : Runtime Addr Key M} {a : Act Addr Key M}

theorem Attempting.step (h : Attempting ts w) (took : w.step a = some w') :
    Attempting (ts ++ [⟨w, a, w'⟩]) w' := by
  cases step_tried took with
  | quiet attempts spawned entries =>
      constructor
      · rw [attempts, spawned]
        exact h.numbered
      · intro key after
        rw [ownAttempt_kept (entries key after) after, attempts]
        exact h.own (entries key after)
      · intro key attempt own other peer running owner
        obtain ⟨after, ⟨-, same⟩ | ⟨before, -⟩⟩ := ownAttempt_cases own
        · exact h.newest same (attempts ▸ running) owner
        · cases (entries key after).symm.trans before
  | @started peer asked missing attempts spawned entries =>
      have absent : w.connecting peer.id = false := by simp [connecting, missing]
      have fresh : ∀ {attempt other}, w.attempts.get attempt = some other →
          attempt ≠ w.spawned := fun running => Nat.ne_of_lt (h.numbered running)
      constructor
      · intro attempt other running
        rw [attempts, Table.get_insert] at running
        rw [spawned]
        split at running
        · subst_vars
          exact Nat.lt_succ_self _
        · exact Nat.lt_succ_of_lt (h.numbered running)
      · intro key after
        by_cases same : key = peer.id
        · subst same
          refine ⟨w.spawned, peer, ?_, by rw [attempts, Table.get_insert_self], rfl⟩
          simp [nextOwn, after, absent]
        · have before : w.connecting key = true := by simpa [entries, same] using after
          obtain ⟨attempt, other, own, running, owner⟩ := h.own before
          refine ⟨attempt, other, (ownAttempt_kept before after).trans own, ?_, owner⟩
          rw [attempts, Table.get_insert_of_ne _ _ (fresh running), running]
      · intro key attempt own other owner running same
        rw [attempts, Table.get_insert] at running
        obtain ⟨after, ⟨before, own⟩ | ⟨before, rfl⟩⟩ := ownAttempt_cases own
        · split at running
          · obtain rfl := Option.some.inj running
            subst same
            cases before.symm.trans absent
          · exact h.newest own running same
        · split at running
          · exact Nat.le_of_eq ‹_›
          · exact Nat.le_of_lt (h.numbered running)
  | @reported attempt peer running attempts spawned entries =>
      have earlier : ∀ {other owner}, w'.attempts.get other = some owner →
          other ≠ attempt ∧ w.attempts.get other = some owner := by
        intro other owner found
        rw [attempts, Table.get_remove] at found
        split at found
        · cases found
        · exact ⟨‹_›, found⟩
      have still : ∀ {key}, w'.connecting key = true →
          key ≠ peer.id ∧ w.connecting key = true := by
        intro key after
        simpa [entries] using after
      constructor
      · intro other owner found
        rw [spawned]
        exact h.numbered (earlier found).2
      · intro key after
        obtain ⟨apart, before⟩ := still after
        obtain ⟨own, owner, mine, found, same⟩ := h.own before
        refine ⟨own, owner, (ownAttempt_kept before after).trans mine, ?_, same⟩
        rw [attempts, Table.get_remove_of_ne, found]
        rintro rfl
        obtain rfl := Option.some.inj (found.symm.trans running)
        exact apart same.symm
      · intro key own mine other owner found same
        obtain ⟨after, ⟨-, before⟩ | ⟨before, -⟩⟩ := ownAttempt_cases mine
        · exact h.newest before (earlier found).2 same
        · cases (still after).2.symm.trans before

theorem Runs.attempting (run : Runs ts w) : Attempting ts w := by
  induction run with
  | nil => exact .init
  | snoc _ took ih => exact ih.step took

theorem step_connected {attempt : AttemptId} {peer : Peer Addr Key}
    (running : w.attempts.get attempt = some peer) :
    w.step (.event (.connected attempt)) = some { w with
      answers := answered w.answers (w.notifyAt peer.id) (.ok ())
      writers := w.writers.insert w.conns ⟨peer, w.pendingAt peer.id, false⟩
      peers := w.peers.insert peer.id (.connected w.conns)
      readers := w.readers.insert w.conns peer
      attempts := w.attempts.remove attempt
      conns := w.conns + 1 } := by
  simp only [step, report, running, openConn, Option.bind_eq_bind, Option.bind_some]
  exact handleEvent_established _ peer w.conns

theorem step_failed {attempt : AttemptId} {peer : Peer Addr Key} (reason : Error)
    (running : w.attempts.get attempt = some peer) :
    w.step (.event (.failed attempt reason)) = some { w with
      peers := w.peers.remove peer.id
      answers := answered w.answers (w.held (.inl peer.id)) (.error reason)
      attempts := w.attempts.remove attempt } := by
  simp only [step, report, running, Option.bind_eq_bind, Option.bind_some]
  exact handleEvent_failed _ peer reason

/-- When an attempt to a peer reports, nobody is left waiting in the entry of the peer: they
    hear the result, and the pending messages move to the queue of the new connection or
    fail. -/
theorem Custody.resolves (custody : Custody w) {attempt : AttemptId} {peer : Peer Addr Key}
    (running : w.attempts.get attempt = some peer) :
    (∃ u, w.step (.event (.connected attempt)) = some u ∧ u.held (.inl peer.id) = [] ∧
      (∀ n ∈ w.notifyAt peer.id, u.answers n = [.ok ()]) ∧
      u.queueAt w.conns = w.pendingAt peer.id) ∧
    ∀ reason, ∃ u, w.step (.event (.failed attempt reason)) = some u ∧
      u.held (.inl peer.id) = [] ∧ ∀ n ∈ w.held (.inl peer.id), u.answers n = [.error reason] := by
  have distinct := custody.exclusive.nodup (.inl peer.id)
  constructor
  · refine ⟨_, step_connected running, ?_, ?_, ?_⟩
    · simp [held, notifyAt, pendingAt]
    · intro n waits
      have there : n ∈ w.held (.inl peer.id) := List.mem_append_left _ waits
      refine (answered_of_mem _ (List.nodup_append'.mp distinct).1 waits).trans ?_
      rw [custody.unanswered _ n there, List.nil_append]
    · simp [queueAt]
  · intro reason
    refine ⟨_, step_failed reason running, ?_, ?_⟩
    · simp [held, notifyAt, pendingAt]
    · intro n waits
      refine (answered_of_mem _ distinct waits).trans ?_
      rw [custody.unanswered _ n waits, List.nil_append]

/-- A connecting entry always has an attempt running that was started when the entry was
    made, and whatever the attempt reports resolves everything that waits in the entry. -/
theorem noOrphans (run : Runs ts w) {key : Key} (waiting : w.connecting key = true) :
    ∃ attempt peer, ownAttempt key ts = some attempt ∧ w.attempts.get attempt = some peer ∧
      peer.id = key ∧
      (∃ u, w.step (.event (.connected attempt)) = some u ∧ u.held (.inl key) = [] ∧
        (∀ n ∈ w.notifyAt key, u.answers n = [.ok ()]) ∧
        u.queueAt w.conns = w.pendingAt key) ∧
      ∀ reason, ∃ u, w.step (.event (.failed attempt reason)) = some u ∧
        u.held (.inl key) = [] ∧ ∀ n ∈ w.held (.inl key), u.answers n = [.error reason] := by
  obtain ⟨attempt, peer, own, running, rfl⟩ := run.attempting.own waiting
  exact ⟨attempt, peer, own, running, rfl, run.custody.resolves running⟩

/-- A second attempt starts while the first one runs; the entry of the second waits for it. -/
theorem noOrphans_second : ∃ ts w attempt, (Runs ts w : Prop) ∧
    ownAttempt true ts = some attempt ∧ attempt = 1 ∧
    (w : Runtime Unit Bool Nat).attempts.get 0 = some ⟨(), true⟩ := by
  obtain ⟨ts, w, done, waiting, own, older⟩ : ∃ ts w,
      exec step (init : Runtime Unit Bool Nat)
        [.event (.connectReq ⟨(), true⟩ true), .event (.inbound ⟨(), true⟩),
          .event (.ended 0), .event (.sendReq ⟨(), true⟩ 7 true)] = some (ts, w) ∧
      w.connecting true = true ∧ ownAttempt true ts = some 1 ∧
      w.attempts.get 0 = some ⟨(), true⟩ := ⟨_, _, rfl, rfl, rfl, rfl⟩
  obtain ⟨attempt, peer, own', -⟩ := noOrphans (exec_run done) waiting
  exact ⟨ts, w, attempt, exec_run done, own', Option.some.inj (own'.symm.trans own), older⟩

/-- At most one attempt to each peer has not reported. -/
def SingleAttempt (w : Runtime Addr Key M) : Prop :=
  ∀ attempt other peer peer', w.attempts.get attempt = some peer →
    w.attempts.get other = some peer' → peer.id = peer'.id → attempt = other

/-- When an attempt fails now, whoever is told so waited for it and no other. -/
def FailsOwn (ts : List (Step Addr Key M)) (w : Runtime Addr Key M) : Prop :=
  ∀ attempt reason u, w.step (.event (.failed attempt reason)) = some u →
    ∀ n, u.answers n ≠ w.answers n → ∃ peer, w.attempts.get attempt = some peer ∧
      n ∈ w.held (.inl peer.id) ∧ ownAttempt peer.id ts = some attempt

/-- A request for a peer without an entry while an attempt to it is still running. -/
def Restarts (t : Step Addr Key M) : Prop :=
  ∃ peer, t.act.requested = some peer ∧ t.pre.peers.get peer.id = none ∧
    ∃ attempt other, t.pre.attempts.get attempt = some other ∧ other.id = peer.id

/-- A request for a peer without an entry starts an attempt. -/
theorem started_of_missing (took : w.step a = some w') {peer : Peer Addr Key}
    (asked : a.requested = some peer) (missing : w.peers.get peer.id = none) :
    w'.attempts = w.attempts.insert w.spawned peer := by
  cases step_moved took with
  | connectLost entry | sendQueued entry =>
      obtain rfl := Option.some.inj asked
      cases missing.symm.trans entry
  | connectWaits entry | sendWaits entry =>
      obtain rfl := Option.some.inj asked
      simp [maybeConnect, missing]
  | established origin => rcases origin with ⟨rfl, -⟩ | ⟨_, rfl, -⟩ <;> cases asked
  | _ => cases asked

theorem SingleAttempt.step (single : w.SingleAttempt) (took : w.step a = some w')
    (apart : ¬ Restarts ⟨w, a, w'⟩) : w'.SingleAttempt := by
  intro attempt other peer peer' running running' same
  cases step_tried took with
  | quiet attempts =>
      rw [attempts] at running running'
      exact single _ _ _ _ running running' same
  | started asked missing attempts =>
      rw [attempts, Table.get_insert] at running running'
      split at running <;> split at running'
      · subst_vars
        rfl
      · obtain rfl := Option.some.inj running
        exact absurd ⟨_, asked, missing, _, _, running', same.symm⟩ apart
      · obtain rfl := Option.some.inj running'
        exact absurd ⟨_, asked, missing, _, _, running, same⟩ apart
      · exact single _ _ _ _ running running' same
  | reported _ attempts =>
      rw [attempts, Table.get_remove] at running running'
      split at running
      · cases running
      · split at running'
        · cases running'
        · exact single _ _ _ _ running running' same

/-- With a single attempt running the failing one is that of the entry. -/
theorem SingleAttempt.failsOwn (single : w.SingleAttempt) (h : Attempting ts w) :
    FailsOwn ts w := by
  intro attempt reason u took n told
  cases step_moved took with
  | @failed _ _ peer running =>
      have waits : n ∈ w.held (.inl peer.id) := by
        by_contra absent
        exact told (answered_of_notMem _ absent)
      obtain ⟨own, owner, mine, found, same⟩ := h.own (connecting_of_held waits)
      obtain rfl := single _ _ _ _ running found same.symm
      exact ⟨peer, running, waits, mine⟩
  | established origin => exact origin_absurd origin (by simp) (by simp)

/-- At most one attempt to a peer is running at any time, and a failure is reported only to
    those who waited for the attempt that failed, exactly when no request of the run finds a
    peer without an entry while an attempt to it is still running. -/
theorem singleAttempt (run : Runs ts w) :
    (∀ before u, before <+: ts → Runs before u → u.SingleAttempt ∧ FailsOwn before u) ↔
      ∀ t ∈ ts, ¬ Restarts t := by
  have start : (init : Runtime Addr Key M).SingleAttempt := by
    intro attempt other peer peer' running
    cases running
  refine run.prefixes_iff (I := Attempting) .init ⟨start, start.failsOwn .init⟩
    (fun _ _ _ _ _ before took _ => before.step took) ?_
  intro ts w a w' run before good took
  constructor
  · rintro ⟨single, -⟩ ⟨peer, asked, missing, attempt, other, running, same⟩
    have attempts := started_of_missing took asked missing
    have older : attempt ≠ w.spawned := Nat.ne_of_lt (before.numbered running)
    refine older (single _ _ _ _ ?_ ?_ same)
    · rw [attempts, Table.get_insert_of_ne _ _ older, running]
    · rw [attempts, Table.get_insert_self]
  · intro apart
    have single := good.1.step took apart
    exact ⟨single, single.failsOwn (before.step took)⟩

/-- The attempt of a request fails, and the next request starts another one. -/
theorem singleAttempt_again : ∃ ts w, (Runs ts w : Prop) ∧
    (w : Runtime Unit Bool Nat).attempts.get 1 = some ⟨(), true⟩ ∧ w.SingleAttempt := by
  obtain ⟨t₁, t₂, t₃, w, done, running, first, second, third⟩ : ∃ t₁ t₂ t₃ w,
      exec step (init : Runtime Unit Bool Nat)
        [.event (.sendReq ⟨(), true⟩ 7 true), .event (.failed 0 (.io .connectionRefused)),
          .event (.sendReq ⟨(), true⟩ 8 true)] = some ([t₁, t₂, t₃], w) ∧
      w.attempts.get 1 = some ⟨(), true⟩ ∧ t₁.pre = init ∧ t₂.act.requested = none ∧
      t₃.pre.attempts = (Table.empty.insert 0 ⟨(), true⟩).remove 0 :=
    ⟨_, _, _, _, rfl, rfl, rfl, rfl, rfl⟩
  have run := exec_run done
  refine ⟨_, w, run, running, ((singleAttempt run).mpr ?_ _ w List.prefix_rfl run).1⟩
  simp only [List.forall_mem_cons, List.not_mem_nil, false_implies, implies_true, and_true]
  refine ⟨?_, ?_, ?_⟩
  · rintro ⟨peer, -, -, attempt, other, older, -⟩
    rw [first] at older
    cases older
  · rintro ⟨peer, asked, -⟩
    cases second.symm.trans asked
  · rintro ⟨peer, -, -, attempt, other, older, -⟩
    rw [third, Table.get_remove, Table.get_insert, Table.get_empty] at older
    split at older <;> cases older

/-- A request starts an attempt; the peer connects by itself and leaves again, and the next
    request starts a second attempt next to the first. -/
theorem secondAttempt :
    ¬ ∀ (ts : List (Step Unit Bool Nat)) (w : Runtime Unit Bool Nat), Runs ts w →
      w.SingleAttempt := by
  intro all
  obtain ⟨ts, w, done, older, newer⟩ : ∃ ts w,
      exec step (init : Runtime Unit Bool Nat)
        [.event (.sendReq ⟨(), true⟩ 7 true), .event (.inbound ⟨(), true⟩),
          .event (.ended 0), .event (.sendReq ⟨(), true⟩ 8 true)] = some (ts, w) ∧
      w.attempts.get 0 = some ⟨(), true⟩ ∧ w.attempts.get 1 = some ⟨(), true⟩ :=
    ⟨_, _, rfl, rfl, rfl⟩
  cases all ts w (exec_run done) 0 1 _ _ older newer rfl

end Steps

end Runtime

end Lindy.P2p
