import Lindy.Machine.Progress
import Mathlib.Data.List.Forall2

/-! # Machines fed through a queue

One loop handles what many tasks report, in the order in which it was put on a queue. Meanwhile
everything else goes on, so what lies on the queue may be stale by the time it is handled. It is
not where handling and the other work slide past the reports that are made in between: then
nothing tells the queue from handling every report the moment it is made.
-/

namespace Lindy.Machine

/-- How a source reports, what is done about that, and what else goes on. -/
structure Feed (σ ι ε α : Type*) where
  report : σ → ι → Option (ε × σ)
  handle : σ → ε → Option σ
  work : σ → α → Option σ
  /-- The action of a source, as against those that are work. -/
  event : ι → α
  event? : α → Option ι
  event?_iff : ∀ a source, event? a = some source ↔ a = event source

namespace Feed

variable {σ ι ε α : Type*}

/-- What is going on, and what was reported and not handled yet, oldest first. -/
structure Queued (σ ε : Type*) where
  now : σ
  queue : List ε

inductive Act (ι α : Type*) where
  | report (source : ι)
  | handle
  | work (a : α)

section Steps

variable (m : Feed σ ι ε α)

/-- Every report is handled the moment it is made. -/
def direct (s : σ) (a : α) : Option σ :=
  match m.event? a with
  | some source => (m.report s source).bind fun made => m.handle made.2 made.1
  | none => m.work s a

/-- Reports go through a queue, while it has room for them. -/
def queued (room : List ε → ι → Bool) (l : Queued σ ε) : Act ι α → Option (Queued σ ε)
  | .report source =>
      if room l.queue source then
        (m.report l.now source).map fun made => ⟨made.2, l.queue ++ [made.1]⟩
      else none
  | .handle =>
      match l.queue with
      | [] => none
      | event :: queue => (m.handle l.now event).map fun now => ⟨now, queue⟩
  | .work a =>
      if (m.event? a).isNone then (m.work l.now a).map fun now => { l with now } else none

abbrev DirectRuns (init : σ) (us : List (Transition σ α)) (s : σ) : Prop :=
  Run (fun s a s' => m.direct s a = some s') init us s

abbrev QueuedRuns (room : List ε → ι → Bool) (init : σ)
    (ts : List (Transition (Queued σ ε) (Act ι α))) (l : Queued σ ε) : Prop :=
  Run (fun l a l' => m.queued room l a = some l') ⟨init, []⟩ ts l

/-- One report after the other, and nothing else. -/
def reports (s : σ) : List ι → Option (List ε × σ)
  | [] => some ([], s)
  | source :: sources =>
      (m.report s source).bind fun made =>
        (reports made.2 sources).map fun more => (made.1 :: more.1, more.2)

/-- A step slides past a report: it can be taken before it if it can be taken after it, and
    leads to the same. -/
def Slides (step : σ → Option σ) (s : σ) (source : ι) (event : ε) (s' : σ) : Prop :=
  Option.Rel (fun u u' => m.report u source = some (event, u')) (step s) (step s')

/-- Everything slides past a report, as long as the queue holds what it does. -/
structure Law (inv : σ → Prop) (owed : ε → σ → Prop) : Prop where
  kept : ∀ {s source event s'}, inv s → m.report s source = some (event, s') →
    inv s' ∧ owed event s'
  waits : ∀ {s source event s' other}, owed other s → m.report s source = some (event, s') →
    owed other s'
  work : ∀ {s source event s'} (a : α), m.event? a = none → inv s →
    m.report s source = some (event, s') → m.Slides (m.work · a) s source event s'
  handle : ∀ {s source event s' other}, inv s → owed other s →
    m.report s source = some (event, s') → m.Slides (m.handle · other) s source event s'

/-- What lies on the queue is all that is between the two machines. -/
def Behind (s : σ) (l : Queued σ ε) : Prop :=
  ∃ sources, m.reports s sources = some (l.queue, l.now)

/-- What is first on the queue cannot be handled. -/
def Stuck (l : Queued σ ε) : Prop :=
  ∃ event queue, l.queue = event :: queue ∧ m.handle l.now event = none

/-- The same step of the two machines. -/
inductive Shows : Transition (Queued σ ε) (Act ι α) → Transition σ α → Prop
  | handled {l l' s s' source event} (next : l.queue.head? = some event)
      (made : (m.report s source).map Prod.fst = some event) (before : m.Behind s l)
      (after : m.Behind s' l') : Shows ⟨l, .handle, l'⟩ ⟨s, m.event source, s'⟩
  | worked {l l' s s' a} (before : m.Behind s l) (after : m.Behind s' l') :
      Shows ⟨l, .work a, l'⟩ ⟨s, a, s'⟩

/-- What a step of the direct machine handles. -/
def handled? (t : Transition σ α) : Option ι := m.event? t.act

end Steps

/-- Reports are the steps that only the queue sees. -/
def visible (t : Transition (Queued σ ε) (Act ι α)) : Bool :=
  match t.act with
  | .report _ => false
  | _ => true

def reported? (t : Transition (Queued σ ε) (Act ι α)) : Option ι :=
  match t.act with
  | .report source => some source
  | _ => none

variable {m : Feed σ ι ε α} {init s s' u : σ} {source : ι} {event : ε} {events : List ε}
  {sources : List ι} {room : List ε → ι → Bool}

@[simp] theorem event?_event (source : ι) : m.event? (m.event source) = some source :=
  (m.event?_iff _ _).mpr rfl

theorem reports_nil : m.reports s [] = some (events, u) ↔ events = [] ∧ u = s := by
  simp [reports, eq_comm]

theorem reports_cons : m.reports s (source :: sources) = some (events, u) ↔
    ∃ event s' rest, m.report s source = some (event, s') ∧
      m.reports s' sources = some (rest, u) ∧ events = event :: rest := by
  simp only [reports, Option.bind_eq_some_iff, Option.map_eq_some_iff, Prod.exists,
    Prod.mk.injEq]
  constructor
  · rintro ⟨event, s', made, rest, _, more, rfl, rfl⟩
    exact ⟨event, s', rest, made, more, rfl⟩
  · rintro ⟨event, s', rest, made, more, rfl⟩
    exact ⟨event, s', made, rest, u, more, rfl, rfl⟩

theorem reports_snoc (made : m.reports s sources = some (events, s'))
    (last : m.report s' source = some (event, u)) :
    m.reports s (sources ++ [source]) = some (events ++ [event], u) := by
  induction sources generalizing s events with
  | nil =>
      obtain ⟨rfl, rfl⟩ := reports_nil.mp made
      simp [reports, last]
  | cons first sources ih =>
      obtain ⟨e, v, rest, one, more, rfl⟩ := reports_cons.mp made
      exact reports_cons.mpr ⟨e, v, rest ++ [event], one, ih more, rfl⟩

/-- What happens on both sides or on neither, seen from the left. -/
theorem rel_left {α β : Type*} {r : α → β → Prop} {x : Option α} {y : Option β} {a : α}
    (rel : Option.Rel r x y) (left : x = some a) : ∃ b, y = some b ∧ r a b := by
  subst left
  cases rel with
  | some both => exact ⟨_, rfl, both⟩

/-- The same seen from the right. -/
theorem rel_right {α β : Type*} {r : α → β → Prop} {x : Option α} {y : Option β} {b : β}
    (rel : Option.Rel r x y) (right : y = some b) : ∃ a, x = some a ∧ r a b := by
  subst right
  cases rel with
  | some both => exact ⟨_, rfl, both⟩

/-- What slides past every report slides past all that lie on the queue. -/
theorem Slides.along {f : σ → Option σ} {I : σ → Prop}
    (law : ∀ {s source event s'}, I s → m.report s source = some (event, s') →
      I s' ∧ m.Slides f s source event s')
    (start : I s) (made : m.reports s sources = some (events, s')) :
    Option.Rel (fun u u' => m.reports u sources = some (events, u')) (f s) (f s') := by
  induction sources generalizing s events with
  | nil =>
      obtain ⟨rfl, rfl⟩ := reports_nil.mp made
      cases f s' with
      | none => exact .none
      | some u => exact .some rfl
  | cons source sources ih =>
      obtain ⟨event, v, rest, one, more, rfl⟩ := reports_cons.mp made
      obtain ⟨kept, here⟩ := law start one
      have later := ih kept more
      unfold Slides at here
      generalize f s = x at here ⊢
      generalize f v = y at here later
      cases here with
      | none =>
          generalize f s' = z at later ⊢
          cases later
          exact .none
      | some again =>
          obtain ⟨u', stepped, rest'⟩ := rel_left later rfl
          rw [stepped]
          exact .some (reports_cons.mpr ⟨_, _, _, again, rest', rfl⟩)

namespace Law

variable {inv : σ → Prop} {owed : ε → σ → Prop} (law : m.Law inv owed)

include law

theorem works {a : α} (task : m.event? a = none) (start : inv s)
    (made : m.reports s sources = some (events, s')) :
    Option.Rel (fun u u' => m.reports u sources = some (events, u')) (m.work s a)
      (m.work s' a) :=
  Slides.along (f := (m.work · a))
    (fun start made => ⟨(law.kept start made).1, law.work a task start made⟩) start made

theorem handles (start : inv s) (waiting : owed event s)
    (made : m.reports s sources = some (events, s')) :
    Option.Rel (fun u u' => m.reports u sources = some (events, u')) (m.handle s event)
      (m.handle s' event) :=
  Slides.along (f := (m.handle · event)) (I := fun s => inv s ∧ owed event s)
    (fun start made => ⟨⟨(law.kept start.1 made).1, law.waits start.2 made⟩,
      law.handle start.1 start.2 made⟩) ⟨start, waiting⟩ made

/-- What is handled now could have been handled when it was reported. -/
theorem follows_handle {l l' : Queued σ ε} (good : inv s)
    (waiting : m.reports s sources = some (l.queue, l.now))
    (took : m.queued room l .handle = some l') : ∃ source rest s', sources = source :: rest ∧
      m.direct s (m.event source) = some s' ∧ m.reports s' rest = some (l'.queue, l'.now) ∧
      m.Shows ⟨l, .handle, l'⟩ ⟨s, m.event source, s'⟩ := by
  obtain ⟨now, queue⟩ := l
  cases queue with
  | nil => simp [queued] at took
  | cons event queue =>
      obtain ⟨now', handled, rfl⟩ := Option.map_eq_some_iff.mp took
      cases sources with
      | nil => simp [reports] at waiting
      | cons source rest =>
          obtain ⟨_, v, _, made, more, same⟩ := reports_cons.mp waiting
          obtain ⟨rfl, rfl⟩ := List.cons.inj same
          obtain ⟨kept, owes⟩ := law.kept good made
          obtain ⟨s', before, after⟩ := rel_right (law.handles kept owes more) handled
          have stepped : m.direct s (m.event source) = some s' := by
            simp [direct, made, before]
          have announced : (m.report s source).map Prod.fst = some event := by simp [made]
          exact ⟨source, rest, s', rfl, stepped, after,
            .handled rfl announced ⟨_, waiting⟩ ⟨_, after⟩⟩

theorem follows_work {l l' : Queued σ ε} {a : α} (good : inv s)
    (waiting : m.reports s sources = some (l.queue, l.now))
    (took : m.queued room l (.work a) = some l') : ∃ s', m.event? a = none ∧
      m.direct s a = some s' ∧ m.reports s' sources = some (l'.queue, l'.now) ∧
      m.Shows ⟨l, .work a, l'⟩ ⟨s, a, s'⟩ := by
  simp only [queued] at took
  split at took
  · rename_i task
    rw [Option.isNone_iff_eq_none] at task
    obtain ⟨now, worked, rfl⟩ := Option.map_eq_some_iff.mp took
    obtain ⟨s', before, after⟩ := rel_right (law.works task good waiting) worked
    have stepped : m.direct s a = some s' := by simp [direct, task, before]
    exact ⟨s', task, stepped, after, .worked ⟨_, waiting⟩ ⟨_, after⟩⟩
  · cases took

/-- Every run through the queue is a run in which every report is handled the moment it is made,
    step by step, but for what lies on the queue. -/
theorem direct_of_queued (always : ∀ {us s}, m.DirectRuns init us s → inv s) {ts}
    {l : Queued σ ε} (run : m.QueuedRuns room init ts l) :
    ∃ us s sources, m.DirectRuns init us s ∧ List.Forall₂ m.Shows (ts.filter visible) us ∧
      ts.filterMap reported? = us.filterMap m.handled? ++ sources ∧
      m.reports s sources = some (l.queue, l.now) := by
  induction run with
  | nil => exact ⟨[], init, [], .nil, .nil, rfl, rfl⟩
  | @snoc ts l a l' run took ih =>
      obtain ⟨us, s, sources, before, shown, order, waiting⟩ := ih
      rw [List.filter_append, List.filterMap_append, List.filter_singleton, order]
      cases a with
      | report source =>
          simp only [queued] at took
          split at took
          · obtain ⟨⟨event, now⟩, made, rfl⟩ := Option.map_eq_some_iff.mp took
            refine ⟨us, s, sources ++ [source], before, ?_, ?_, reports_snoc waiting made⟩
            · simpa [visible] using shown
            · simp [reported?]
          · cases took
      | handle =>
          obtain ⟨source, rest, s', rfl, stepped, after, same⟩ :=
            law.follows_handle (always before) waiting took
          refine ⟨us ++ [_], s', rest, before.snoc stepped, ?_, ?_, after⟩
          · exact List.rel_append shown (.cons same .nil)
          · simp [reported?, handled?]
      | work a =>
          obtain ⟨s', task, stepped, after, same⟩ := law.follows_work (always before) waiting took
          refine ⟨us ++ [_], s', sources, before.snoc stepped, ?_, ?_, after⟩
          · exact List.rel_append shown (.cons same .nil)
          · simp [List.filterMap_cons, reported?, handled?, task]

theorem stays {other : ε} (start : inv s) (waiting : owed other s)
    (made : m.reports s sources = some (events, s')) : inv s' ∧ owed other s' := by
  induction sources generalizing s events with
  | nil =>
      obtain ⟨-, rfl⟩ := reports_nil.mp made
      exact ⟨start, waiting⟩
  | cons source sources ih =>
      obtain ⟨_, _, _, one, more, -⟩ := reports_cons.mp made
      exact ih (law.kept start one).1 (law.waits waiting one) more

/-- What is first on the queue is still owed. -/
theorem head_owed (always : ∀ {us s}, m.DirectRuns init us s → inv s) {ts} {now : σ}
    {queue : List ε} (run : m.QueuedRuns room init ts ⟨now, event :: queue⟩) :
    inv now ∧ owed event now := by
  obtain ⟨us, s, sources, before, -, -, waiting⟩ := law.direct_of_queued always run
  cases sources with
  | nil => simp [reports] at waiting
  | cons source rest =>
      obtain ⟨_, v, _, made, more, same⟩ := reports_cons.mp waiting
      obtain ⟨rfl, rfl⟩ := List.cons.inj same
      obtain ⟨kept, owes⟩ := law.kept (always before) made
      exact law.stays kept owes more

/-- If it cannot be handled, it could not have been when it was reported. -/
theorem stuck_direct {l : Queued σ ε} (good : inv s)
    (waiting : m.reports s sources = some (l.queue, l.now)) (stuck : m.Stuck l) :
    ∃ source rest event s', sources = source :: rest ∧
      m.report s source = some (event, s') ∧ m.handle s' event = none := by
  obtain ⟨event, queue, next, unhandled⟩ := stuck
  rw [next] at waiting
  cases sources with
  | nil => simp [reports] at waiting
  | cons source rest =>
      obtain ⟨_, v, _, made, more, same⟩ := reports_cons.mp waiting
      obtain ⟨rfl, rfl⟩ := List.cons.inj same
      obtain ⟨kept, owes⟩ := law.kept good made
      refine ⟨source, rest, event, v, rfl, made, ?_⟩
      have slid := law.handles kept owes more
      rw [unhandled] at slid
      generalize m.handle v event = before at slid ⊢
      cases slid
      rfl

/-- Handling alone empties the queue, or comes to what cannot be handled. Whoever has something
    to report still has. -/
theorem drains (always : ∀ {us s}, m.DirectRuns init us s → inv s) {P : σ → Prop}
    (keeps : ∀ {s event s'}, P s → m.handle s event = some s' → P s') {ts}
    {l : Queued σ ε} (run : m.QueuedRuns room init ts l) (start : P l.now) :
    Leads (fun l a l' => m.queued room l a = some l') (· = .handle)
      (fun l' => (l'.queue = [] ∨ m.Stuck l') ∧ P l'.now ∧
        ∀ source, (m.report l.now source).isSome → (m.report l'.now source).isSome) l := by
  refine Leads.descend (I := fun l' => (∃ ts, m.QueuedRuns room init ts l') ∧ P l'.now ∧
    ∀ source, (m.report l.now source).isSome → (m.report l'.now source).isSome)
    (fun l' => l'.queue.length) ?_ ⟨⟨ts, run⟩, start, fun _ reports => reports⟩
  rintro ⟨now, queue⟩ ⟨⟨us, reached⟩, held, still⟩ more
  cases queue with
  | nil => exact absurd ⟨.inl rfl, held, still⟩ more
  | cons event queue =>
      obtain ⟨good, owes⟩ := law.head_owed always reached
      cases handled : m.handle now event with
      | none => exact absurd ⟨.inr ⟨event, queue, rfl, handled⟩, held, still⟩ more
      | some now' =>
          have took : m.queued room ⟨now, event :: queue⟩ .handle = some ⟨now', queue⟩ := by
            simp [queued, handled]
          refine ⟨.handle, _, took, rfl, ⟨⟨_, reached.snoc took⟩, keeps held handled,
            fun source reports => ?_⟩, Nat.lt_succ_self _⟩
          obtain ⟨⟨e, v⟩, made⟩ := Option.isSome_iff_exists.mp (still source reports)
          obtain ⟨_, -, again⟩ := rel_left (law.handle good owes made) handled
          simp [again]

end Law

/-- The other way around, a queue with room for a single report is enough. -/
theorem queued_of_direct (empty : ∀ source, room [] source = true) {us}
    (run : m.DirectRuns init us s) : ∃ ts, m.QueuedRuns room init ts ⟨s, []⟩ ∧
      List.Forall₂ m.Shows (ts.filter visible) us ∧
      ts.filterMap reported? = us.filterMap m.handled? ∧ ∀ t ∈ ts, t.post.queue.length ≤ 1 := by
  have level : ∀ s, m.Behind s ⟨s, []⟩ := fun s => ⟨[], rfl⟩
  induction run with
  | nil => exact ⟨[], .nil, .nil, rfl, by simp⟩
  | @snoc us s a s' run took ih =>
      obtain ⟨ts, before, shown, order, short⟩ := ih
      cases task : m.event? a with
      | some source =>
          obtain rfl := (m.event?_iff _ _).mp task
          simp only [direct, task] at took
          obtain ⟨⟨event, v⟩, made, handled⟩ := Option.bind_eq_some_iff.mp took
          have reported : m.queued room ⟨s, []⟩ (.report source) = some ⟨v, [event]⟩ := by
            simp [queued, empty, made]
          have taken : m.queued room ⟨v, [event]⟩ .handle = some ⟨s', []⟩ := by
            simp [queued, handled]
          refine ⟨_, (before.snoc reported).snoc taken, ?_, ?_, ?_⟩
          · have announced : (m.report s source).map Prod.fst = some event := by simp [made]
            have waits : m.Behind s ⟨v, [event]⟩ := ⟨[source], by simp [reports, made]⟩
            have same : m.Shows ⟨_, .handle, _⟩ ⟨s, m.event source, s'⟩ :=
              .handled rfl announced waits (level s')
            simpa [List.filter_cons, visible] using List.rel_append shown (.cons same .nil)
          · simp [order, reported?, handled?]
          · simpa [or_imp, forall_and] using short
      | none =>
          simp only [direct, task] at took
          have worked : m.queued room ⟨s, []⟩ (.work a) = some ⟨s', []⟩ := by
            simp [queued, task, took]
          refine ⟨_, before.snoc worked, ?_, ?_, ?_⟩
          · have same : m.Shows ⟨_, .work a, _⟩ ⟨s, a, s'⟩ := .worked (level s) (level s')
            simpa [List.filter_cons, visible] using List.rel_append shown (.cons same .nil)
          · simp [List.filterMap_cons, order, reported?, handled?, task]
          · simpa [or_imp, forall_and] using short

end Feed

end Lindy.Machine
