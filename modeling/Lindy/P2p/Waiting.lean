import Lindy.P2p.Attempts

/-! # What becomes of a connect request

A request to connect should hear `Ok` as soon as its peer is connected, and the error when
the attempt it waits on fails. `Fate` follows a request through a run and says what it should
have heard by now; one lemma lists everything that can happen to a waiting request in one step.
-/

namespace Lindy.P2p

open Machine

variable {Addr Key M : Type}

/-- What a connect request should have heard. -/
inductive Fate where
  | unasked
  | waiting
  | answered (outcome : Outcome)
  deriving DecidableEq

/-- The step handles a failure of this attempt. -/
def Act.failure (attempt : Option AttemptId) : Act Addr Key M → Option Error
  | .event (.failed failing reason) => if attempt = some failing then some reason else none
  | _ => none

/-- The step handles a request that wants an answer. -/
def Act.wants : Act Addr Key M → Bool
  | .event (.connectReq _ wanted) => wanted
  | .event (.sendReq _ _ wanted) => wanted
  | _ => false

namespace Runtime

/-- The peer is connected. -/
def connected (w : Runtime Addr Key M) (key : Key) : Bool :=
  match w.peers.get key with
  | some (.connected _) => true
  | _ => false

theorem connected_iff {w : Runtime Addr Key M} {key : Key} :
    w.connected key = true ↔ ∃ conn, w.peers.get key = some (.connected conn) := by
  unfold connected
  rcases w.peers.get key with _ | ⟨queue⟩ | ⟨ns, ps⟩ <;> simp

theorem not_connected_of_notify {w : Runtime Addr Key M} {key : Key} {n : Notifier}
    (waits : n ∈ w.notifyAt key) : w.connected key = false := by
  unfold notifyAt at waits
  unfold connected
  rcases entry : w.peers.get key with _ | ⟨queue⟩ | ⟨ns, ps⟩
  · rfl
  · simp [entry] at waits
  · rfl

variable [DecidableEq Key]

/-- The step handles a connect request for the peer that brings this notifier. -/
def asks (key : Key) (n : Notifier) (t : Step Addr Key M) : Bool :=
  match t.act with
  | .event (.connectReq peer true) => peer.id = key && t.pre.oneshots = n
  | _ => false

/-- `own` is the attempt a request that waits now is waiting on. -/
def nextFate (key : Key) (n : Notifier) (own : Option AttemptId) (fate : Fate)
    (t : Step Addr Key M) : Fate :=
  match fate with
  | .unasked =>
      if asks key n t then
        if t.pre.connected key then .answered (.ok ()) else .waiting
      else .unasked
  | .waiting =>
      if t.post.connected key then .answered (.ok ())
      else match t.act.failure own with
        | some reason => .answered (.error reason)
        | none => .waiting
  | .answered outcome => .answered outcome

/-- The attempt of the entry and the fate of the request, over the steps of a run. -/
def watch (key : Key) (n : Notifier) (ts : List (Step Addr Key M)) : Option AttemptId × Fate :=
  ts.foldl (fun seen t => (nextOwn key seen.1 t, nextFate key n seen.1 seen.2 t)) (none, .unasked)

def fate (key : Key) (n : Notifier) (ts : List (Step Addr Key M)) : Fate := (watch key n ts).2

theorem watch_own (key : Key) (n : Notifier) (ts : List (Step Addr Key M)) :
    (watch key n ts).1 = ownAttempt key ts := by
  induction ts using List.reverseRecOn with
  | nil => rfl
  | append_singleton ts t ih =>
      rw [ownAttempt_snoc, ← ih]
      simp [watch]

theorem fate_snoc (key : Key) (n : Notifier) (ts : List (Step Addr Key M))
    (t : Step Addr Key M) :
    fate key n (ts ++ [t]) = nextFate key n (ownAttempt key ts) (fate key n ts) t := by
  rw [← watch_own key n]
  simp [fate, watch]

/-- The request heard what it should have, and waits where it should. -/
def Hears (w : Runtime Addr Key M) (key : Key) (n : Notifier) (fate : Fate) : Prop :=
  match fate with
  | .unasked => True
  | .waiting => n ∈ w.notifyAt key ∧ w.answers n = []
  | .answered outcome => w.answers n = [outcome]

/-- What one step can do to a request that waits in the entry of a peer. -/
inductive Waited (w : Runtime Addr Key M) (a : Act Addr Key M) (w' : Runtime Addr Key M)
    (key : Key) (n : Notifier) : Prop where
  | kept (there : n ∈ w'.notifyAt key) (silent : w'.answers n = [])
      (other : ∀ {attempt reason peer}, a = .event (.failed attempt reason) →
        w.attempts.get attempt = some peer → peer.id ≠ key)
  | connected (entry : w'.connected key = true) (told : w'.answers n = [.ok ()])
  | failed {attempt reason peer} (act : a = .event (.failed attempt reason))
      (running : w.attempts.get attempt = some peer) (owner : peer.id = key)
      (entry : w'.peers.get key = none) (told : w'.answers n = [.error reason])
  | dropped {conn peer} (act : a = .event (.ended conn))
      (running : w.readers.get conn = some peer) (owner : peer.id = key)
      (entry : w'.peers.get key = none) (silent : w'.answers n = [])

/-- The four ways to leave a connect request without a true answer: it finds its peer
    connected; the entry it waits in goes with a `Disconnected`; an attempt fails that is older
    than the one it waits on; the handler panics, and the map goes. -/
inductive Misleads (t : Step Addr Key M) : Prop where
  | lost {peer} (act : t.act = .event (.connectReq peer true))
      (entry : t.pre.connected peer.id = true)
  | dropped {conn peer} (act : t.act = .event (.ended conn))
      (running : t.pre.readers.get conn = some peer) (waits : t.pre.notifyAt peer.id ≠ [])
  | stale {attempt reason peer newer owner} (act : t.act = .event (.failed attempt reason))
      (running : t.pre.attempts.get attempt = some peer) (waits : t.pre.notifyAt peer.id ≠ [])
      (younger : attempt < newer) (found : t.pre.attempts.get newer = some owner)
      (same : owner.id = peer.id)
  | panicked {peer message wanted key} (act : t.act = .event (.sendReq peer message wanted))
      (deserted : t.pre.Deserted peer.id) (waits : t.pre.notifyAt key ≠ [])

section Steps

variable {ts : List (Step Addr Key M)} {w w' : Runtime Addr Key M} {a : Act Addr Key M}
  {key : Key} {n : Notifier}

/-- An entry others join keeps everyone who waits in it. -/
theorem Waited.joined {peer : Peer Addr Key} {ns : List Notifier} {ps : List (Item M)}
    (there : n ∈ w.notifyAt key) (silent : w'.answers n = [])
    (peers : w'.peers = w.peers.insert peer.id (.connecting ns ps))
    (grown : w.notifyAt peer.id ⊆ ns)
    (other : ∀ {attempt reason}, a ≠ .event (.failed attempt reason)) :
    Waited w a w' key n := by
  refine .kept ?_ silent fun same => absurd same other
  rw [notifyAt_connecting peers]
  split
  · subst_vars
    exact grown there
  · exact there

theorem Custody.waited (custody : Custody w) (took : w.step a = some w')
    (there : n ∈ w.notifyAt key) : Waited w a w' key n := by
  have here : n ∈ w.held (.inl key) := List.mem_append_left _ there
  have silent := custody.unanswered _ n here
  -- notifiers told because of another place are others
  have untold : ∀ {i ns} (result : Outcome), i ≠ .inl key → ns ⊆ w.held i →
      answered w.answers ns result n = [] := fun result apart within =>
    (answered_of_notMem result fun told =>
      apart (custody.exclusive.unique (within told) here)).trans silent
  have distinct := custody.exclusive.nodup (.inl key)
  cases step_moved took with
  | @connectLost peer wanted => cases wanted <;> exact .kept there silent (by simp)
  | @connectWaits peer wanted =>
      cases wanted <;> exact .joined there silent rfl (List.subset_append_left _ _) (by simp)
  | @sendQueued peer message wanted => cases wanted <;> exact .kept there silent (by simp)
  | @sendWaits peer message wanted =>
      cases wanted <;> exact .joined there silent rfl (List.Subset.refl _) (by simp)
  | @established source peer attempts origin =>
      by_cases same : peer.id = key
      · subst same
        refine .connected (connected_iff.mpr ⟨_, Table.get_insert_self ..⟩) ?_
        refine (answered_of_mem _ (List.nodup_append'.mp distinct).1 there).trans ?_
        rw [silent, List.nil_append]
      · refine .kept ?_ (untold (i := .inl peer.id) (.ok ()) (by simpa using same)
          (List.subset_append_left _ _)) ?_
        · rw [notifyAt_connected rfl, if_neg (Ne.symm same)]
          exact there
        · rintro attempt reason owner act
          cases act
          exact origin_absurd origin (by simp) (by simp)
  | @failed attempt reason peer running =>
      by_cases same : peer.id = key
      · subst same
        refine .failed rfl running rfl (Table.get_remove_self ..) ?_
        refine (answered_of_mem _ distinct here).trans ?_
        rw [silent, List.nil_append]
      · refine .kept ?_ (untold (i := .inl peer.id) (.error reason) (by simpa using same)
          (List.Subset.refl _)) ?_
        · rw [notifyAt_removed rfl, if_neg (Ne.symm same)]
          exact there
        · rintro _ _ owner act found
          cases act
          obtain rfl := Option.some.inj (running.symm.trans found)
          exact same
  | received => exact .kept there silent (by simp)
  | @ended conn peer running =>
      by_cases same : peer.id = key
      · subst same
        exact .dropped rfl running rfl (Table.get_remove_self ..) silent
      · refine .kept ?_ silent (by simp)
        rw [notifyAt_removed rfl, if_neg (Ne.symm same)]
        exact there
  | @wrote conn accepted outcome peer item rest failed running =>
      refine .kept there (untold (i := .inr conn) outcome Sum.inr_ne_inl ?_) (by simp)
      obtain ⟨message, notifier⟩ := item
      cases notifier <;> simp [held, queueAt, running]
  | broke | drained => exact .kept there silent (by simp)

/-- What a channel heard stays heard. -/
theorem Custody.settled (custody : Custody w) (took : w.step a = some w') {outcome : Outcome}
    (told : w.answers n = [outcome]) : w'.answers n = [outcome] := by
  have after := (custody.step took).once n
  obtain ⟨more, grown⟩ : ∃ more, w'.answers n = w.answers n ++ more := by
    cases step_moved took with
    | @connectLost peer wanted | @connectWaits peer wanted | @sendQueued peer message wanted
    | @sendWaits peer message wanted =>
        cases wanted <;> exact ⟨[], (List.append_nil _).symm⟩
    | established | failed | wrote => exact ⟨_, rfl⟩
    | received | ended | broke | drained => exact ⟨[], (List.append_nil _).symm⟩
  rw [grown, told] at after ⊢
  simpa using after

/-- A step makes a oneshot channel exactly for a request that wants an answer. -/
theorem step_oneshots (took : w.step a = some w') :
    w'.oneshots = w.oneshots + if a.wants then 1 else 0 := by
  cases step_moved took with
  | @connectLost peer wanted | @connectWaits peer wanted | @sendQueued peer message wanted
  | @sendWaits peer message wanted => cases wanted <;> rfl
  | established origin => rcases origin with ⟨rfl, -⟩ | ⟨_, rfl, -⟩ <;> rfl
  | failed | received | ended | wrote | broke | drained => rfl

theorem asks_iff {t : Step Addr Key M} : asks key n t = true ↔
    ∃ peer, t.act = .event (.connectReq peer true) ∧ peer.id = key ∧ t.pre.oneshots = n := by
  unfold asks
  split
  · rename_i peer act
    rw [act]
    simp
  · rename_i other
    simp only [Bool.false_eq_true, false_iff, not_exists]
    rintro peer ⟨act, -⟩
    exact other peer act

/-- Nobody asks with a channel that is not made yet. -/
theorem fate_fresh (run : Runs ts w) (late : w.oneshots ≤ n) : fate key n ts = .unasked := by
  induction run with
  | nil => rfl
  | @snoc ts w a w' run took ih =>
      have made := step_oneshots took
      have absent : asks key n ⟨w, a, w'⟩ = false := by
        rw [Bool.eq_false_iff, Ne, asks_iff]
        rintro ⟨peer, act, -, issued⟩
        simp only at act issued
        subst act
        simp only [Act.wants, if_true] at made
        omega
      rw [fate_snoc, ih (by omega)]
      simp [nextFate, absent]

/-- A failure of the attempt an entry waits on takes the entry away. -/
theorem own_failure (run : Runs ts w) (took : w.step a = some w') {reason : Error}
    (failed : a.failure (ownAttempt key ts) = some reason) (waits : n ∈ w.notifyAt key) :
    w'.peers.get key = none := by
  obtain ⟨own, peer, mine, running, same⟩ :=
    run.attempting.own (connecting_of_held (List.mem_append_left _ waits))
  subst same
  rw [mine] at failed
  unfold Act.failure at failed
  split at failed
  · split at failed
    · rename_i mine'
      cases mine'
      rw [step_failed _ running] at took
      cases took
      exact Table.get_remove_self _ _
    · cases failed
  · cases failed

/-- Whoever waits in an entry did before, or this step is its request. -/
theorem notify_source (took : w.step a = some w') (waits : n ∈ w'.notifyAt key) :
    n ∈ w.notifyAt key ∨ asks key n ⟨w, a, w'⟩ = true ∧ w.connected key = false := by
  cases step_moved took with
  | @connectLost peer wanted | @sendQueued peer message wanted =>
      cases wanted <;> exact .inl waits
  | @connectWaits peer wanted entry =>
      rw [notifyAt_connecting rfl] at waits
      split at waits
      · subst_vars
        refine (List.mem_append.mp waits).imp_right fun new => ?_
        cases wanted with
        | false => simp [oneshot] at new
        | true =>
            obtain rfl : n = w.oneshots := by simpa [oneshot] using new
            refine ⟨asks_iff.mpr ⟨peer, rfl, rfl, rfl⟩, ?_⟩
            rw [Bool.eq_false_iff, Ne, connected_iff]
            exact not_exists.mpr entry
      · exact .inl waits
  | @sendWaits peer message wanted =>
      rw [notifyAt_connecting rfl] at waits
      split at waits
      · subst_vars
        exact .inl waits
      · exact .inl waits
  | established =>
      rw [notifyAt_connected rfl] at waits
      split at waits
      · cases waits
      · exact .inl waits
  | failed | ended =>
      rw [notifyAt_removed rfl] at waits
      split at waits
      · cases waits
      · exact .inl waits
  | received | wrote | broke | drained => exact .inl waits

/-- Whoever waits in an entry asked for it and should still wait. -/
theorem Runs.asked (run : Runs ts w) (waits : n ∈ w.notifyAt key) : fate key n ts = .waiting := by
  induction run with
  | nil => simp [notifyAt, init] at waits
  | @snoc ts w a w' run took ih =>
      have apart : w'.connected key = false := not_connected_of_notify waits
      rw [fate_snoc]
      by_cases before : n ∈ w.notifyAt key
      · have silent : a.failure (ownAttempt key ts) = none := by
          by_contra some'
          obtain ⟨reason, failed⟩ := Option.ne_none_iff_exists'.mp some'
          have gone := own_failure run took failed before
          simp [notifyAt, gone] at waits
        simp [nextFate, ih before, apart, silent]
      · obtain ⟨asked, waited⟩ := (notify_source took waits).resolve_left before
        obtain ⟨peer, act, -, issued⟩ := asks_iff.mp asked
        rw [fate_fresh run (Nat.le_of_eq issued)]
        simp [nextFate, asked, waited]

/-- The attempt of an entry in which someone waits is the newest one to the peer. -/
theorem Runs.own_newest (run : Runs ts w) (waits : n ∈ w.notifyAt key) :
    ∃ own owner, ownAttempt key ts = some own ∧ w.attempts.get own = some owner ∧
      owner.id = key ∧ ∀ {other peer}, w.attempts.get other = some peer → peer.id = key →
        other ≤ own := by
  have h := run.attempting
  obtain ⟨own, owner, mine, running, same⟩ :=
    h.own (connecting_of_held (List.mem_append_left _ waits))
  exact ⟨own, owner, mine, running, same, h.newest mine⟩

/-- A step of one of these kinds leaves a request without the answer it should have. -/
theorem Misleads.unheard (run : Runs ts w) (took : w.step a = some w' ∨ Panics w a w')
    (misled : Misleads ⟨w, a, w'⟩) :
    ∃ key n, ¬ w'.Hears key n (fate key n (ts ++ [⟨w, a, w'⟩])) := by
  have custody := Runs.custody run
  -- what is no message for a peer is no panic either
  have stepped : (∀ peer message wanted, a ≠ .event (.sendReq peer message wanted)) →
      w.step a = some w' := by
    intro other
    refine took.resolve_right fun panics => ?_
    obtain ⟨peer, message, wanted, act, -⟩ := panics_iff.mp panics
    exact other peer message wanted act
  cases misled with
  | @lost peer act entry =>
      simp only at act entry
      subst act
      have asked : asks peer.id w.oneshots ⟨w, .event (.connectReq peer true), w'⟩ = true :=
        asks_iff.mpr ⟨peer, rfl, rfl, rfl⟩
      refine ⟨peer.id, w.oneshots, ?_⟩
      rw [fate_snoc, fate_fresh run (Nat.le_refl _)]
      simp only [nextFate, asked, entry, if_true, Hears]
      cases step_moved (stepped (by simp)) with
      | connectLost => simp [oneshot, custody.silent _ (Nat.le_refl _)]
      | connectWaits waits =>
          obtain ⟨conn, found⟩ := connected_iff.mp entry
          exact absurd found (waits conn)
      | established origin => exact origin_absurd origin (by simp) (by simp)
  | @dropped conn peer act running waits =>
      simp only at act running waits
      subst act
      obtain ⟨n, there⟩ := List.exists_mem_of_ne_nil _ waits
      refine ⟨peer.id, n, ?_⟩
      rw [fate_snoc, run.asked there]
      cases step_moved (stepped (by simp)) with
      | ended found =>
          obtain rfl := Option.some.inj (running.symm.trans found)
          simp [nextFate, connected, Act.failure, Hears, notifyAt]
      | established origin => exact origin_absurd origin (by simp) (by simp)
  | @stale attempt reason peer newer owner act running waits younger found same =>
      simp only at act running waits found
      subst act
      obtain ⟨n, there⟩ := List.exists_mem_of_ne_nil _ waits
      obtain ⟨own, -, mine, -, -, newest⟩ := run.own_newest there
      have other : own ≠ attempt := Nat.ne_of_gt (Nat.lt_of_lt_of_le younger (newest found same))
      refine ⟨peer.id, n, ?_⟩
      rw [fate_snoc, run.asked there, mine]
      have took := stepped (by simp)
      rw [step_failed _ running] at took
      cases took
      simp [nextFate, connected, Act.failure, Hears, notifyAt, other]
  | @panicked peer message wanted key act deserted waits =>
      simp only at act deserted waits
      subst act
      obtain ⟨n, there⟩ := List.exists_mem_of_ne_nil _ waits
      refine ⟨key, n, ?_⟩
      rw [fate_snoc, run.asked there]
      rcases took with took | panics
      · cases took.symm.trans (step_send_eq_none.mpr deserted)
      · obtain ⟨_, _, _, -, -, rfl⟩ := panics_iff.mp panics
        simp [nextFate, connected, Act.failure, Hears, notifyAt, unwound]

/-- Every other step tells each request what it should hear by then. -/
theorem hears_step (run : Runs ts w) (took : w.step a = some w')
    (apart : ¬ Misleads ⟨w, a, w'⟩) (heard : w.Hears key n (fate key n ts)) :
    w'.Hears key n (fate key n (ts ++ [⟨w, a, w'⟩])) := by
  have custody := Runs.custody run
  rw [fate_snoc]
  rcases stands : fate key n ts with _ | _ | outcome
  -- nobody asked so far: this may be the request
  · by_cases asked : asks key n ⟨w, a, w'⟩ = true
    · obtain ⟨peer, act, rfl, rfl⟩ := asks_iff.mp asked
      simp only at act
      subst act
      have waits : w.connected peer.id = false := by
        rw [Bool.eq_false_iff]
        exact fun entry => apart (.lost rfl entry)
      simp only [nextFate, asked, waits, if_true, Bool.false_eq_true, if_false, Hears]
      cases step_moved took with
      | connectLost entry =>
          cases waits.symm.trans (connected_iff.mpr ⟨_, entry⟩)
      | connectWaits entry =>
          exact ⟨by simp [notifyAt, oneshot], custody.silent _ (Nat.le_refl _)⟩
      | established origin => exact origin_absurd origin (by simp) (by simp)
    · simp [nextFate, asked, Hears]
  · rw [stands] at heard
    obtain ⟨there, -⟩ := heard
    obtain ⟨own, owner, mine, running, same, newest⟩ := run.own_newest there
    rw [mine]
    cases custody.waited took there with
    | kept still silent other =>
        have unfailed : a.failure (some own) = none := by
          unfold Act.failure
          split
          · rw [if_neg]
            rintro mine'
            cases mine'
            exact other rfl running same
          · rfl
        simp [nextFate, not_connected_of_notify still, unfailed, Hears, still, silent]
    | connected entry told => simp [nextFate, entry, Hears, told]
    | @failed attempt reason peer act found owned entry told =>
        subst act
        obtain rfl : own = attempt := by
          by_contra older
          have younger : attempt < own := Nat.lt_of_le_of_ne (newest found owned) (Ne.symm older)
          refine apart (.stale rfl found ?_ younger running (same.trans owned.symm))
          exact List.ne_nil_of_mem (owned ▸ there)
        simp [nextFate, connected, entry, Act.failure, Hears, told]
    | dropped act found owned =>
        subst act
        exact absurd (.dropped rfl found (List.ne_nil_of_mem (owned ▸ there))) apart
  · rw [stands] at heard
    exact custody.settled took heard

/-- So does a panic when nobody waits. -/
theorem hears_panics (panics : Panics w a w') (apart : ¬ Misleads ⟨w, a, w'⟩)
    (heard : w.Hears key n (fate key n ts)) :
    w'.Hears key n (fate key n (ts ++ [⟨w, a, w'⟩])) := by
  obtain ⟨peer, message, wanted, rfl, deserted, rfl⟩ := panics_iff.mp panics
  rw [fate_snoc]
  rcases stands : fate key n ts with _ | _ | outcome
  · simp [nextFate, asks, Hears]
  · rw [stands] at heard
    exact absurd (.panicked rfl deserted (List.ne_nil_of_mem heard.1)) apart
  · rw [stands] at heard
    cases wanted <;> exact heard

end Steps

end Runtime

end Lindy.P2p
