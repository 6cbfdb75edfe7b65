import Lindy.Machine.Progress
import Lindy.P2p.Attempts

/-! # Nobody waits for more than the network

Whoever waits in the entry of a peer waits for the connection attempt of the entry to report,
and whoever waits in a queue for its writer task to be done with what is in front. So from
every state a run can reach, reports alone lead to an answer, whatever they report, unless they
are errors and the writer task goes with the queue. Until one comes from where it lies, a
notifier stays there.
-/

namespace Lindy.P2p

open Machine

variable {Addr Key M : Type}

/-- What comes of the connection attempts, and of the next write on each connection. The
    network decides it anew in every state. -/
structure Outcomes (σ : Type*) where
  attempt : σ → AttemptId → Outcome
  write : σ → ConnId → Outcome

namespace Outcomes

variable {σ τ : Type*}

/-- An attempt or a writer task reports what came of it. -/
def Reports (outcomes : Outcomes σ) (s : σ) : Act Addr Key M → Prop
  | .event (.connected attempt) => outcomes.attempt s attempt = .ok ()
  | .event (.failed attempt reason) => outcomes.attempt s attempt = .error reason
  | .wrote conn _ result => outcomes.write s conn = result
  | _ => False

/-- There are writes that fail. -/
def Faulty (outcomes : Outcomes σ) : Prop := ∃ s conn, outcomes.write s conn ≠ .ok ()

/-- The same outcomes, for a part of what they depend on. -/
def comap (outcomes : Outcomes σ) (f : τ → σ) : Outcomes τ :=
  ⟨outcomes.attempt ∘ f, outcomes.write ∘ f⟩

theorem Faulty.of_comap {outcomes : Outcomes σ} {f : τ → σ} :
    (outcomes.comap f).Faulty → outcomes.Faulty
  | ⟨s, conn, bad⟩ => ⟨f s, conn, bad⟩

end Outcomes

namespace Runtime

variable [DecidableEq Key]

/-- Reports alone lead to the goal. -/
abbrev Answering (outcomes : Outcomes (Runtime Addr Key M)) (goal : Runtime Addr Key M → Prop)
    (w : Runtime Addr Key M) : Prop :=
  Leads (fun w a w' => step w a = some w' ∧ outcomes.Reports w a) (fun _ => True) goal w

variable {ts : List (Step Addr Key M)} {w : Runtime Addr Key M} {n : Notifier}
  {outcomes : Outcomes (Runtime Addr Key M)}

/-- Whoever waited was told, or, where writes fail, he was behind one that failed again. -/
def Settled (w : Runtime Addr Key M) (faulty : Prop) (n : Notifier) : Prop :=
  (∃ result, w.answers n = [result]) ∨ faulty ∧ w.Loose n

theorem step_wrote {conn : ConnId} {peer : Peer Addr Key} {item : Item M} {rest : List (Item M)}
    {failed : Bool} (running : w.writers.get conn = some ⟨peer, item :: rest, failed⟩)
    (outcome : Outcome) (first : failed = true → outcome = .ok ()) :
    w.step (.wrote conn true outcome) = some { w with
      writers := w.writers.insert conn ⟨peer, rest, failed || outcome ≠ .ok ()⟩
      answers := answered w.answers item.2.toList outcome
      sinks := Function.update w.sinks conn (w.sinks conn ++ [item]) } := by
  obtain ⟨message, notifier⟩ := item
  have goes : ¬ (failed = true ∧ outcome ≠ .ok ()) := fun ⟨again, bad⟩ => bad (first again)
  cases notifier <;> simp [step, Runtime.wrote, running, answer_eq, goes]

theorem step_broke {conn : ConnId} {peer : Peer Addr Key} {item : Item M} {rest : List (Item M)}
    (running : w.writers.get conn = some ⟨peer, item :: rest, true⟩) (reason : Error) :
    w.step (.wrote conn true (.error reason)) = some { w with
      writers := w.writers.remove conn
      sinks := Function.update w.sinks conn (w.sinks conn ++ [item]) } := by
  simp [step, Runtime.wrote, running]

/-- When a write fails again the task is gone, and those who waited on its queue are lost. -/
theorem Custody.broken (custody : Custody w) {conn : ConnId} {peer : Peer Addr Key}
    {items : List (Item M)} (running : w.writers.get conn = some ⟨peer, items, true⟩)
    (bad : outcomes.write w conn ≠ .ok ()) (queued : n ∈ notifiers items) :
    Answering outcomes (fun w' => w'.Settled outcomes.Faulty n) w := by
  obtain ⟨item, rest, rfl⟩ : ∃ item rest, items = item :: rest :=
    List.exists_cons_of_ne_nil (by rintro rfl; cases queued)
  cases outcome : outcomes.write w conn with
  | ok => exact absurd outcome bad
  | error reason =>
      have there : n ∈ w.held (.inr conn : Key ⊕ ConnId) := by
        rw [held, queueAt, running]
        exact queued
      have took := step_broke running reason
      refine .step_first ⟨took, outcome⟩ trivial (.here (.inr ⟨⟨w, conn, bad⟩, ?_⟩))
      refine ⟨custody.issued _ n there, custody.unanswered _ n there, custody.nowhere there ?_⟩
      exact held_remove_writer rfl rfl

/-- The writer task of a queue gets to every message on it, or is gone before. -/
theorem Custody.written (custody : Custody w) {conn : ConnId} {peer : Peer Addr Key} {message : M}
    {before after : List (Item M)} {failed : Bool}
    (running : w.writers.get conn =
      some ⟨peer, before ++ (message, some n) :: after, failed⟩) :
    Answering outcomes (fun w' => w'.Settled outcomes.Faulty n) w := by
  induction before generalizing w failed with
  | nil =>
      by_cases first : failed = true → outcomes.write w conn = .ok ()
      · have took := step_wrote running (outcomes.write w conn) first
        refine .step_first ⟨took, rfl⟩ trivial (.here (.inl ⟨outcomes.write w conn, ?_⟩))
        have there : n ∈ w.held (.inr conn) := by simp [held, queueAt, running]
        refine (answered_of_mem _ (List.nodup_singleton n) (List.mem_singleton_self n)).trans ?_
        rw [custody.unanswered _ n there, List.nil_append]
      · obtain ⟨rfl, bad⟩ := Classical.not_imp.mp first
        exact custody.broken running bad (by simp)
  | cons item before ih =>
      by_cases first : failed = true → outcomes.write w conn = .ok ()
      · have took := step_wrote running (outcomes.write w conn) first
        refine .step_first ⟨took, rfl⟩ trivial ?_
        exact ih (custody.step took) (Table.get_insert_self ..)
      · obtain ⟨rfl, bad⟩ := Classical.not_imp.mp first
        exact custody.broken running bad (mem_notifiers.mpr ⟨message, by simp⟩)

theorem Custody.written_of_queued (custody : Custody w) {conn : ConnId}
    (queued : n ∈ w.held (.inr conn : Key ⊕ ConnId)) :
    Answering outcomes (fun w' => w'.Settled outcomes.Faulty n) w := by
  obtain ⟨message, member⟩ := mem_notifiers.mp queued
  obtain ⟨before, after, queue⟩ := List.append_of_mem member
  simp only [queueAt] at queue
  split at queue
  · rename_i writer running
    obtain ⟨peer, items, failed⟩ := writer
    obtain rfl : items = before ++ (message, some n) :: after := queue
    exact custody.written running
  · simp at queue

/-- Whatever the attempt of the entry reports, those who waited in it hear of it at once, or
    are on a queue. -/
theorem Runs.resolved (run : Runs ts w) {key : Key} (waits : n ∈ w.held (.inl key)) :
    Answering outcomes (fun w' => w'.Settled outcomes.Faulty n) w := by
  obtain ⟨attempt, peer, -, running, rfl⟩ := run.attempting.own (connecting_of_held waits)
  obtain ⟨⟨u, connects, -, told, queue⟩, fails⟩ := run.custody.resolves running
  cases report : outcomes.attempt w attempt with
  | error reason =>
      obtain ⟨v, failed, -, told⟩ := fails reason
      exact .step_first ⟨failed, report⟩ trivial (.here (.inl ⟨_, told n waits⟩))
  | ok =>
      refine .step_first ⟨connects, report⟩ trivial ?_
      rcases List.mem_append.mp waits with connection | pending
      · exact .here (.inl ⟨_, told n connection⟩)
      · have queued : n ∈ u.held (.inr w.conns : Key ⊕ ConnId) := by
          rw [held, queue]
          exact pending
        exact (run.custody.step connects).written_of_queued queued

/-- So it is wherever a notifier is waited on. -/
theorem Runs.resolves (run : Runs ts w) {i : Key ⊕ ConnId} (waits : n ∈ w.held i) :
    Answering outcomes (fun w' => w'.Settled outcomes.Faulty n) w := by
  cases i with
  | inl key => exact run.resolved waits
  | inr conn => exact run.custody.written_of_queued waits

/-- The step is about the connections of a peer, or a report of the writer task of a queue. -/
def Reaches (w : Runtime Addr Key M) : Act Addr Key M → Key ⊕ ConnId → Prop
  | .event (.inbound peer), .inl key => peer.id = key
  | .event (.connected attempt), .inl key | .event (.failed attempt _), .inl key =>
      (w.attempts.get attempt).map Peer.id = some key
  | .event (.ended conn), .inl key => (w.readers.get conn).map Peer.id = some key
  | .wrote conn _ _, .inr other => conn = other
  | _, _ => False

/-- Nothing else takes a notifier away. -/
theorem Custody.stays (custody : Custody w) {w' : Runtime Addr Key M} {a : Act Addr Key M}
    (took : w.step a = some w') {i : Key ⊕ ConnId} (there : n ∈ w.held i)
    (apart : ¬ w.Reaches a i) : n ∈ w'.held i := by
  have placed : ∀ {v : Runtime Addr Key M} {j ns}, v.held = Function.update w.held j ns →
      (i = j → n ∈ ns) → n ∈ v.held i := by
    intro v j ns changed here
    rw [changed, mem_update]
    by_cases same : i = j
    · exact .inl ⟨same, here same⟩
    · exact .inr ⟨same, there⟩
  cases step_moved took with
  | @connectLost peer wanted => cases wanted <;> exact there
  | @connectWaits peer wanted =>
      refine placed (held_insert_peer rfl (oneshot_writers w wanted)) ?_
      rintro rfl
      rcases List.mem_append.mp there with waits | pending
      · exact List.mem_append_left _ (List.mem_append_left _ waits)
      · exact List.mem_append_right _ pending
  | @sendQueued peer message wanted queue writer entry receiving =>
      refine placed (held_insert_writer ?_ rfl) ?_
      · cases wanted <;> rfl
      · rintro rfl
        simp only [held, queueAt, receiving] at there
        simp [there]
  | @sendWaits peer message wanted entry =>
      refine placed (held_insert_peer rfl (oneshot_writers w wanted)) ?_
      rintro rfl
      rcases List.mem_append.mp there with waits | pending
      · exact List.mem_append_left _ waits
      · exact List.mem_append_right _ (by simp [pending])
  | @established source peer attempts origin =>
      have other : i ≠ .inl peer.id := by
        rintro rfl
        rcases origin with ⟨rfl, -⟩ | ⟨attempt, rfl, running, -⟩
        · exact apart rfl
        · exact apart (by simp [Reaches, running])
      rw [held_established rfl rfl, mem_update, mem_update]
      by_cases same : i = .inr w.conns
      · subst same
        simp [held, queueAt, custody.unmade _ (Nat.le_refl _)] at there
      · exact .inr ⟨same, .inr ⟨other, there⟩⟩
  | @failed attempt reason peer running =>
      refine placed (held_remove_peer rfl rfl) ?_
      rintro rfl
      exact absurd (by simp [Reaches, running]) apart
  | received => exact there
  | @ended conn peer running =>
      refine placed (held_remove_peer rfl rfl) ?_
      rintro rfl
      exact absurd (by simp [Reaches, running]) apart
  | @wrote conn accepted outcome peer item rest failed running =>
      refine placed (held_insert_writer rfl rfl) ?_
      rintro rfl
      exact absurd rfl apart
  | @broke conn accepted reason peer item rest running =>
      refine placed (held_remove_writer rfl rfl) ?_
      rintro rfl
      exact absurd rfl apart
  | @drained conn peer failed running =>
      refine placed (held_remove_writer rfl rfl) ?_
      rintro rfl
      simp [held, queueAt, running] at there

end Runtime

end Lindy.P2p
