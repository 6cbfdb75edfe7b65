import Lindy.Channel.WellFormed
import Lindy.Machine.Simulation
import Lindy.Monitor

/-! # A node with its monitor

In `Lindy.Channel.Node` a task that waits for funding goes on in the very step in which the
monitor finds its transaction. Here the two are taken apart: a task calls `wait_for_tx` when
it first runs, the monitor works on the call at its own pace, and the task goes on some time
after its answer was sent. Every run of the two together is a run of the node.
-/

namespace Lindy

open Bitcoin Machine Op

variable {c : Crates}

structure Watched (c : Crates) where
  node : NodeState c
  monitor : Monitor
  /-- The call each task that waits for funding is in, once it ran. -/
  calls : List (Option Responder)

namespace Watched

def init : Watched c := ⟨.init, .init, []⟩

inductive Act (c : Crates) where
  /-- Anything but a poll. -/
  | node (act : Lindy.Act c)
  /-- A task of `wait_for_funding` runs up to its await. -/
  | ask (task : Nat)
  /-- The loop of the monitor, or one of its tasks. -/
  | monitor (act : Monitor.Act)
  /-- The await of a task is over. -/
  | wake (task : Nat)

/-- The monitor is polled on its own account. -/
def isPoll : Lindy.Act c → Bool
  | .poll .. => true
  | _ => false

def node? (n : Node c) (w : Watched c) (a : Lindy.Act c) : Option (Reply c × Watched c) := do
  let (reply, s) ← n.step w.node a
  -- tasks that were just spawned have not run yet
  let spawned := s.tasks.length - w.node.tasks.length
  some (reply, { w with node := s, calls := w.calls ++ List.replicate spawned none })

def ask (w : Watched c) (i : Nat) : Option (Watched c) :=
  match w.node.tasks[i]?, w.calls[i]? with
  | some task, some none =>
      let (responder, monitor) := w.monitor.waitForTx task.channel.id.txid
      some { w with monitor, calls := w.calls.set i (some responder) }
  | _, _ => none

/-- What `wait_for_tx` returned to a task. -/
def returned (w : Watched c) (i : Nat) : Option (Task c × Transaction) :=
  match w.node.tasks[i]?, w.calls[i]? with
  | some task, some (some responder) => (w.monitor.answers responder).head?.map (task, ·)
  | _, _ => none

def wake (w : Watched c) (i : Nat) : Option (Reply c × Watched c) := do
  let (task, onChainTx) ← w.returned i
  let s := { w.node with
    tasks := w.node.tasks.eraseIdx i
    answers := w.node.answers ++ [(task.channel.id.txid, onChainTx)] }
  let calls := w.calls.eraseIdx i
  match task.finish onChainTx s with
  | .ok () s => some (.ok .finished, { w with node := s, calls })
  | .error failure s => some (.error failure, { w with node := s, calls })

/-- One step, with the reply of the node when it is one of the node. -/
def step (n : Node c) (w : Watched c) : Act c → Option (Option (Reply c) × Watched c)
  | .node a => if isPoll a then none else (w.node? n a).map fun (reply, w) => (some reply, w)
  | .ask i => (w.ask i).map (none, ·)
  | .monitor (.waitForTx _) => none
  | .monitor a => (w.monitor.step n.chain a).map fun monitor => (none, { w with monitor })
  | .wake i => (w.wake i).map fun (reply, w) => (some reply, w)

abbrev Step (c : Crates) := Transition (Watched c) (Act c × Option (Reply c))

/-- A node with its monitor runs on from some moment. -/
abbrev RunsOn (n : Node c) (w : Watched c) (ts : List (Step c)) (w' : Watched c) : Prop :=
  Run (fun w label w' => step n w label.1 = some (label.2, w')) w ts w'

/-- The runs of a node with its monitor. -/
abbrev Runs (n : Node c) (ts : List (Step c)) (w : Watched c) : Prop := RunsOn n .init ts w

/-- Perform a list of actions. -/
abbrev exec (n : Node c) (w : Watched c) (as : List (Act c)) : Option (List (Step c) × Watched c) :=
  execReplies (step n) w as

/-- Everything a step can do. -/
inductive Moved (n : Node c) (w : Watched c) : Act c → Option (Reply c) → Watched c → Prop where
  | node {a reply s} (other : isPoll a = false) (took : n.step w.node a = some (reply, s)) :
      Moved n w (.node a) (some reply) { w with
        node := s
        calls := w.calls ++ List.replicate (s.tasks.length - w.node.tasks.length) none }
  | ask {i task} (waiting : w.node.tasks[i]? = some task) (idle : w.calls[i]? = some none) :
      Moved n w (.ask i) none { w with
        monitor := (w.monitor.waitForTx task.channel.id.txid).2
        calls := w.calls.set i (some w.monitor.responders) }
  | monitor {a m} (own : a.Own) (took : w.monitor.step n.chain a = some m) :
      Moved n w (.monitor a) none { w with monitor := m }
  /-- It goes on as if the monitor had just found the transaction. -/
  | wake {i task responder tx reply s} (waiting : w.node.tasks[i]? = some task)
      (calling : w.calls[i]? = some (some responder))
      (answered : (w.monitor.answers responder).head? = some tx)
      (tasks : s.tasks = w.node.tasks.eraseIdx i) (suspended : s.suspended = w.node.suspended)
      (silent : Reply.sends reply = none)
      (finished : ∀ now, n.chain.getTx task.channel.id.txid now = .ok (some tx) →
        n.step w.node (.poll i now) = some (reply, s)) :
      Moved n w (.wake i) (some reply) { w with node := s, calls := w.calls.eraseIdx i }

/-- A task that goes on spawns no other one, and has no part in what holds the lock. -/
theorem finish_tasks (task : Task c) (tx : Transaction) (s : NodeState c) :
    ∃ s', (s'.tasks = s.tasks ∧ s'.suspended = s.suspended) ∧
      (task.finish tx s = .ok () s' ∨ ∃ failure, task.finish tx s = .error failure s') := by
  rcases task.finish_cases tx s with ⟨_, -, -, done⟩ | ⟨_, _, -, -, done⟩ | done | failed
  · refine ⟨_, ⟨?_, ?_⟩, .inl done⟩ <;> rfl
  · refine ⟨_, ⟨?_, ?_⟩, .inl done⟩ <;> rfl
  · exact ⟨s, ⟨rfl, rfl⟩, .inl done⟩
  · exact ⟨s, ⟨rfl, rfl⟩, .inr failed⟩

variable {n : Node c} {w w' : Watched c}

/-- What a task does with the transaction it waited for. -/
theorem wake_eq_some {i : Nat} {reply : Reply c} (took : w.wake i = some (reply, w')) :
    Moved n w (.wake i) (some reply) w' := by
  simp only [wake, Option.bind_eq_bind, Option.bind_eq_some_iff, Prod.exists] at took
  obtain ⟨task, tx, back, ended⟩ := took
  unfold returned at back
  split at back
  · rename_i task' responder waiting calling
    obtain ⟨tx', answered, same⟩ := Option.map_eq_some_iff.mp back
    obtain ⟨rfl, rfl⟩ := Prod.mk.inj same
    let answering : NodeState c :=
      { w.node with tasks := w.node.tasks.eraseIdx i
                    answers := w.node.answers ++ [(task'.channel.id.txid, tx')] }
    have polled : ∀ now, n.chain.getTx task'.channel.id.txid now = .ok (some tx') →
        n.perform (.poll i now) w.node =
          (task'.finish tx' >>= fun _ => pure .finished) answering := by
      intro now there
      rw [Node.perform, bind_of_ok (get_apply _)]
      simp only [waiting, Node.pollTask, bind_of_ok (get_apply _), there]
      rfl
    obtain ⟨s, ⟨tasks, suspended⟩, done | ⟨failure, failed⟩⟩ := finish_tasks task' tx' answering
    · simp only [answering] at done
      simp only [done, Option.some.injEq, Prod.mk.injEq] at ended
      obtain ⟨rfl, rfl⟩ := ended
      refine .wake waiting calling answered tasks suspended rfl fun now there => ?_
      exact Node.step_eq_some.mpr
        ⟨by simp [Act.locks], Node.outcome_of_ok ((polled now there).trans (bind_of_ok done))⟩
    · simp only [answering] at failed
      simp only [failed, Option.some.injEq, Prod.mk.injEq] at ended
      obtain ⟨rfl, rfl⟩ := ended
      refine .wake waiting calling answered tasks suspended rfl fun now there => ?_
      exact Node.step_eq_some.mpr ⟨by simp [Act.locks],
        Node.outcome_of_error ((polled now there).trans (bind_of_error failed))⟩
  · cases back

theorem step_moved {a : Act c} {reply : Option (Reply c)}
    (took : w.step n a = some (reply, w')) : Moved n w a reply w' := by
  cases a with
  | node a =>
      simp only [step] at took
      split at took
      · cases took
      · rename_i other
        simp only [node?, Option.map_eq_some_iff, Option.bind_eq_bind, Option.bind_eq_some_iff,
          Prod.exists, Prod.mk.injEq, Option.some.injEq] at took
        obtain ⟨reply, w, ⟨reply', s, took, rfl, rfl⟩, rfl, rfl⟩ := took
        exact .node (by simpa using other) took
  | ask i =>
      simp only [step, Option.map_eq_some_iff, Prod.mk.injEq] at took
      obtain ⟨w, asked, rfl, rfl⟩ := took
      unfold Watched.ask at asked
      split at asked
      · rename_i task waiting idle
        obtain rfl := Option.some.inj asked
        exact .ask waiting idle
      · cases asked
  | monitor a =>
      cases a with
      | waitForTx => cases took
      | next | poll =>
          simp only [step, Option.map_eq_some_iff, Prod.mk.injEq] at took
          obtain ⟨m, took, rfl, rfl⟩ := took
          exact .monitor trivial took
  | wake i =>
      simp only [step, Option.map_eq_some_iff, Prod.mk.injEq, Prod.exists] at took
      obtain ⟨reply, w, took, rfl, rfl⟩ := took
      exact wake_eq_some took

/-- Only a poll takes a task away. -/
theorem tasks_grow {s s' : NodeState c} {a : Lindy.Act c} {reply : Reply c}
    (took : n.step s a = some (reply, s')) (other : isPoll a = false) :
    ∃ spawned, s'.tasks = s.tasks ++ spawned := by
  cases Node.step_effect took with
  | accepted | acked => exact ⟨_, rfl⟩
  | live | funded | rejected => cases other
  | _ => exact ⟨[], (List.append_nil _).symm⟩

/-- The calls of the tasks, as the monitor has received them. -/
structure Calling (n : Node c) (ms : List (Transition Monitor Monitor.Act)) (w : Watched c) :
    Prop where
  run : Monitor.Runs n.chain ms w.monitor
  aligned : w.calls.length = w.node.tasks.length
  asks : ∀ {i : Nat} {task : Task c} {responder}, w.node.tasks[i]? = some task →
    w.calls[i]? = some (some responder) →
    (Monitor.asked ms)[responder]? = some task.channel.id.txid

theorem Calling.step {ms : List (Transition Monitor Monitor.Act)} (h : Calling n ms w) {a : Act c}
    {reply : Option (Reply c)} (moved : Moved n w a reply w') : ∃ ms, Calling n ms w' := by
  cases moved with
  | @node a reply s other took =>
      obtain ⟨spawned, grown⟩ := tasks_grow took other
      refine ⟨ms, h.run, ?_, ?_⟩
      · simp only [grown, List.length_append, List.length_replicate, h.aligned]
        omega
      · intro i task responder waiting calling
        simp only [List.getElem?_append, List.getElem?_replicate] at calling
        split at calling
        · rename_i inside
          rw [grown, List.getElem?_append_left (h.aligned ▸ inside)] at waiting
          exact h.asks waiting calling
        · split at calling <;> cases calling
  | @ask i task waiting idle =>
      have took : Monitor.step n.chain w.monitor (.waitForTx task.channel.id.txid) =
        some (w.monitor.waitForTx task.channel.id.txid).2 := rfl
      refine ⟨ms ++ [_], h.run.snoc took, by simpa using h.aligned, ?_⟩
      intro j other responder waiting' calling
      have issued := (Monitor.Runs.sound h.run).issued
      rw [List.getElem?_set] at calling
      split at calling
      · rename_i same
        subst same
        split at calling
        · obtain rfl := Option.some.inj (waiting.symm.trans waiting')
          obtain rfl := Option.some.inj (Option.some.inj calling)
          rw [Monitor.asked_snoc, ← issued]
          exact List.getElem?_concat_length
        · cases calling
      · exact Monitor.asked_append [_] (h.asks waiting' calling)
  | monitor own took =>
      exact ⟨ms ++ [_], h.run.snoc took, h.aligned, fun waiting calling =>
        Monitor.asked_append [_] (h.asks waiting calling)⟩
  | @wake i task responder tx reply s waiting calling answered tasks suspended silent finished =>
      obtain ⟨inside, -⟩ := List.getElem?_eq_some_iff.mp waiting
      refine ⟨ms, h.run, ?_, ?_⟩
      · rw [tasks, List.length_eraseIdx_of_lt inside,
          List.length_eraseIdx_of_lt (h.aligned ▸ inside), h.aligned]
      · intro j other responder' waiting' calling'
        simp only [tasks, List.getElem?_eraseIdx] at waiting' calling'
        split at waiting' <;> rename_i early
        · exact h.asks waiting' (by simpa [early] using calling')
        · exact h.asks waiting' (by simpa [early] using calling')

theorem Runs.calling {ts w} (run : Runs n ts w) : ∃ ms, Calling n ms w :=
  Run.always (I := fun w => ∃ ms, Calling n ms w)
    ⟨[], .nil, rfl, by simp [init, NodeState.init]⟩
    (fun _ _ _ ⟨_, h⟩ took => h.step (step_moved took)) run

/-- What the monitor answers a task is what the blockchain said about its transaction. -/
theorem Calling.answered {ms : List (Transition Monitor Monitor.Act)} (h : Calling n ms w)
    {i : Nat} {task : Task c} {responder : Responder} {tx : Transaction}
    (waiting : w.node.tasks[i]? = some task) (calling : w.calls[i]? = some (some responder))
    (answer : (w.monitor.answers responder).head? = some tx) :
    ∃ now, n.chain.getTx task.channel.id.txid now = .ok (some tx) := by
  have told := List.mem_of_mem_head? answer
  rw [(Monitor.Runs.sound h.run).heard (h.asks waiting calling)] at told
  obtain ⟨now, -, found⟩ := List.mem_filterMap.mp told
  exact ⟨now, Monitor.getTx_eq_some.mp found⟩

/-- The step of the node a step of both shows as. -/
inductive Shows (t : Step c) (u : Transition (NodeState c) (Lindy.Act c × Reply c)) : Prop where
  | node {a reply} (other : isPoll a = false) (act : t.act = (.node a, some reply))
      (same : u = ⟨t.pre.node, (a, reply), t.post.node⟩)
  | wake {i now reply} (act : t.act = (.wake i, some reply))
      (same : u = ⟨t.pre.node, (.poll i now, reply), t.post.node⟩)

/-- Anything but a poll shows as itself. -/
theorem Shows.operation {t : Step c} {u : Transition (NodeState c) (Lindy.Act c × Reply c)}
    (shows : Shows t u) (other : isPoll u.act.1 = false) : t.act.1 = .node u.act.1 := by
  cases shows with
  | node other act same =>
      subst same
      rw [act]
  | wake act same =>
      subst same
      cases other

/-- A step of both is one of the node, or the node does not notice it. -/
theorem Calling.shows {ms : List (Transition Monitor Monitor.Act)} (h : Calling n ms w) {a : Act c}
    {reply : Option (Reply c)} (took : w.step n a = some (reply, w')) :
    (reply = none ∧ w'.node = w.node) ∨ ∃ b r, reply = some r ∧
      n.step w.node b = some (r, w'.node) ∧
      Shows ⟨w, (a, reply), w'⟩ ⟨w.node, (b, r), w'.node⟩ := by
  cases step_moved took with
  | ask | monitor => exact .inl ⟨rfl, rfl⟩
  | @node a reply s other stepped => exact .inr ⟨a, reply, rfl, stepped, .node other rfl rfl⟩
  | @wake i task responder tx reply s waiting calling answer tasks suspended silent finished =>
      obtain ⟨now, there⟩ := h.answered waiting calling answer
      exact .inr ⟨.poll i now, reply, rfl, finished now there, .wake rfl rfl⟩

/-- In every run of a node with its monitor, the node does one of its own runs: each operation
    as it was called, and for each task that woke up a poll that found its transaction. -/
theorem Runs.follows {ts w} (run : Runs n ts w) :
    ∃ us, n.Runs us w.node ∧
      List.Forall₂ Shows (ts.filter fun t => t.act.2.isSome) us := by
  refine Run.project (I := fun w => ∃ ms, Calling n ms w) Watched.node
    ⟨[], .nil, rfl, by simp [init, NodeState.init]⟩ rfl
    (fun _ _ _ ⟨_, h⟩ took => h.step (step_moved took)) ?_ ?_ run
  · rintro w ⟨a, reply⟩ w' ⟨ms, h⟩ took quiet
    rcases h.shows took with ⟨-, same⟩ | ⟨b, r, loud, -⟩
    · exact same
    · rw [loud] at quiet
      cases quiet
  · rintro w ⟨a, reply⟩ w' ⟨ms, h⟩ took loud
    rcases h.shows took with ⟨silent, -⟩ | ⟨b, r, -, stepped, shows⟩
    · rw [silent] at loud
      cases loud
    · exact ⟨(b, r), stepped, shows⟩

/-- A step that takes no lock: a task or the monitor goes on. -/
def Act.Background : Act c → Prop
  | .node _ => False
  | .ask _ | .monitor _ | .wake _ => True

/-- The monitor runs on while nothing else does. -/
theorem monitor_runs {m : Monitor} {us : List (Transition Monitor Monitor.Act)}
    (run : Run (fun m a m' => Monitor.step n.chain m a = some m') w.monitor us m)
    (own : ∀ t ∈ us, t.act.Own) :
    ∃ vs, RunsOn n w vs { w with monitor := m } ∧ ∀ t ∈ vs, t.act.1.Background := by
  induction run with
  | nil => exact ⟨[], .nil, by simp⟩
  | @snoc us m a m' run took ih =>
      obtain ⟨vs, before, background⟩ := ih fun t member => own t (List.mem_append_left _ member)
      have stepped : step n { w with monitor := m } (.monitor a) =
          some (none, { w with monitor := m' }) := by
        cases a with
        | waitForTx => exact absurd (own _ (List.mem_append_right _ List.mem_cons_self)) id
        | next | poll => simp only [step, took, Option.map_some]
      refine ⟨vs ++ [⟨_, (.monitor a, none), _⟩], before.snoc stepped, ?_⟩
      intro t member
      rcases List.mem_append.mp member with earlier | last
      · exact background t earlier
      · obtain rfl := List.mem_singleton.mp last
        trivial

/-- A task is over, and the node is where a poll that finds its transaction takes it. -/
def WentOn (n : Node c) (w : Watched c) (i : Nat) (task : Task c) (w' : Watched c)
    (reply : Reply c) : Prop :=
  ∃ now tx, n.chain.getTx task.channel.id.txid now = .ok (some tx) ∧
    n.step w.node (.poll i now) = some (reply, w'.node) ∧
    w'.node.tasks = w.node.tasks.eraseIdx i

/-- A task that is in a call goes on as soon as the call is answered. -/
theorem wake_of_answer {ms : List (Transition Monitor Monitor.Act)} (h : Calling n ms w) {i : Nat}
    {task : Task c} {responder : Responder} {tx : Transaction}
    (waiting : w.node.tasks[i]? = some task) (calling : w.calls[i]? = some (some responder))
    (answer : (w.monitor.answers responder).head? = some tx) :
    ∃ reply w', step n w (.wake i) = some (some reply, w') ∧ WentOn n w i task w' reply := by
  obtain ⟨now, there⟩ := h.answered waiting calling answer
  have back : w.returned i = some (task, tx) := by
    simp only [returned, waiting, calling, answer, Option.map_some]
  obtain ⟨⟨reply, w'⟩, woke⟩ : ∃ r, w.wake i = some r := by
    simp only [wake, back, Option.bind_eq_bind, Option.bind_some]
    split <;> exact ⟨_, rfl⟩
  have took : step n w (.wake i) = some (some reply, w') := by
    simp only [step, woke, Option.map_some]
  refine ⟨reply, w', took, ?_⟩
  cases step_moved took with
  | wake waiting' calling' answer' tasks suspended silent finished =>
      obtain rfl := Option.some.inj (waiting.symm.trans waiting')
      obtain rfl := Option.some.inj (Option.some.inj (calling.symm.trans calling'))
      obtain rfl := Option.some.inj (answer.symm.trans answer')
      exact ⟨now, tx, there, finished now there, tasks⟩

/-- A call that was made is answered once the blockchain has its transaction, and the task that
    made it goes on. -/
theorem wake_of_call {ms : List (Transition Monitor Monitor.Act)} (h : Calling n ms w) {i : Nat}
    {task : Task c} {responder : Responder} (waiting : w.node.tasks[i]? = some task)
    (calling : w.calls[i]? = some (some responder)) {now : Nat} {tx : Transaction}
    (there : n.chain.getTx task.channel.id.txid now = .ok (some tx)) :
    ∃ us w' reply, RunsOn n w us w' ∧ (∀ t ∈ us, t.act.1.Background) ∧
      WentOn n w i task w' reply := by
  obtain ⟨m, us, tx, run, own, answered⟩ : ∃ m us tx,
      Run (fun m a m' => Monitor.step n.chain m a = some m') w.monitor us m ∧
      (∀ t ∈ us, t.act.Own) ∧ (m.answers responder).head? = some tx := by
    cases told : w.monitor.answers responder with
    | cons tx more => exact ⟨w.monitor, [], tx, .nil, by simp, by simp [told]⟩
    | nil =>
        obtain ⟨us, m, run, own, told⟩ := Monitor.answerable (Monitor.Runs.sound h.run)
          (h.asks waiting calling) told (Monitor.getTx_eq_some.mpr there)
        exact ⟨m, us, tx, run, own, by simp [told]⟩
  obtain ⟨vs, before, background⟩ := monitor_runs run own
  have kept : Calling n (ms ++ us) { w with monitor := m } :=
    ⟨h.run.append run, h.aligned, fun waiting' calling' =>
      Monitor.asked_append us (h.asks waiting' calling')⟩
  obtain ⟨reply, w', woke, went⟩ := wake_of_answer kept waiting calling answered
  refine ⟨vs ++ [⟨_, (.wake i, some reply), w'⟩], w', reply, before.snoc woke, ?_, went⟩
  intro t member
  rcases List.mem_append.mp member with earlier | last
  · exact background t earlier
  · obtain rfl := List.mem_singleton.mp last
    trivial

/-- At every moment of a run, a task whose transaction the blockchain has goes on after some
    steps of it and the monitor alone, whatever else the node is waiting for. -/
theorem tasksGoOn {ts w} (run : Runs n ts w) {i : Nat} {task : Task c}
    (waiting : w.node.tasks[i]? = some task) {now : Nat} {tx : Transaction}
    (there : n.chain.getTx task.channel.id.txid now = .ok (some tx)) :
    ∃ us w' reply, RunsOn n w us w' ∧ (∀ t ∈ us, t.act.1.Background) ∧
      WentOn n w i task w' reply := by
  obtain ⟨ms, h⟩ := run.calling
  obtain ⟨inside, -⟩ := List.getElem?_eq_some_iff.mp waiting
  have known : i < w.calls.length := h.aligned ▸ inside
  cases call : w.calls[i] with
  | some responder =>
      have calling : w.calls[i]? = some (some responder) := by simp [known, call]
      exact wake_of_call h waiting calling there
  | none =>
      have idle : w.calls[i]? = some none := by simp [known, call]
      have asks : step n w (.ask i) = some (none, { w with
          monitor := (w.monitor.waitForTx task.channel.id.txid).2
          calls := w.calls.set i (some w.monitor.responders) }) := by
        simp only [step, ask, waiting, idle, Monitor.waitForTx, Option.map_some]
      obtain ⟨ms, h⟩ := h.step (step_moved asks)
      have calling : (w.calls.set i (some w.monitor.responders))[i]? =
          some (some w.monitor.responders) := by simp [known]
      obtain ⟨us, w', reply, rest, background, went⟩ := wake_of_call h waiting calling there
      refine ⟨_, w', reply, (Run.nil.snoc (a := (.ask i, none)) asks).append rest, ?_, went⟩
      intro t member
      rcases List.mem_append.mp member with first | later
      · obtain rfl := List.mem_singleton.mp first
        trivial
      · exact background t later

section Small

/-- The node of `smallOpening` up to where its task waits for the funding transaction. -/
def smallWaiting : List (Act smallCrates) := (smallOpening.take 3).map .node

theorem tasksGoOn_small : ∃ ts us w w', Runs smallNode ts w ∧ RunsOn smallNode w us w' ∧
    w.node.tasks.length = 1 ∧ w'.node.tasks = [] := by
  obtain ⟨ts, w, task, done, waiting, txid, only, alone⟩ : ∃ ts w task,
      Watched.exec smallNode .init smallWaiting = some (ts, w) ∧
      w.node.tasks[0]? = some task ∧ task.channel.id.txid = 7 ∧ w.node.tasks.length = 1 ∧
      w.node.tasks.eraseIdx 0 = [] :=
    ⟨_, _, _, rfl, rfl, rfl, rfl, rfl⟩
  have run := execReplies_run done
  have there : smallNode.chain.getTx task.channel.id.txid 0 = .ok (some smallFundingTx) := by
    rw [txid]
    rfl
  obtain ⟨us, w', -, rest, -, -, -, -, -, tasks⟩ := tasksGoOn run waiting there
  exact ⟨ts, us, w, w', run, rest, only, tasks.trans alone⟩

end Small

end Watched

end Lindy
