import Lindy.Channel.Node
import Lindy.Crates.Small
import Mathlib.Data.List.Perm.Basic

/-! # The monitor

`Monitor::wait_for_tx` and the loop of `monitor::start`. A request waits on the unbounded
channel until the loop takes it, and from then on a task of its own asks the blockchain for
the transaction until there is one. The ten seconds between two polls are left out: a poll
may come at any time.
-/

namespace Lindy

open Bitcoin Machine

variable {c : Crates}

/-- The oneshot channel of one call of `wait_for_tx`. -/
abbrev Responder := Nat

/-- `Request::Transaction`. -/
structure Request where
  txid : Txid
  responder : Responder
  deriving DecidableEq

structure Monitor where
  /-- What the loop has not received yet, oldest first. -/
  requests : List Request
  /-- The tasks spawned by the loop, each with the request it was spawned for. -/
  lookups : List Request
  /-- What was sent on each oneshot channel, oldest first. -/
  answers : Responder → List Transaction
  /-- Oneshot channels made so far. -/
  responders : Nat

namespace Monitor

def init : Monitor := ⟨[], [], fun _ => [], 0⟩

inductive Act where
  /-- Some task calls `wait_for_tx`. -/
  | waitForTx (txid : Txid)
  /-- The loop receives the next request. -/
  | next
  /-- One of the tasks asks the blockchain. -/
  | poll (task now : Nat)

/-- `wait_for_tx` up to its await, with what it awaits. -/
def waitForTx (m : Monitor) (txid : Txid) : Responder × Monitor :=
  (m.responders, { m with requests := m.requests ++ [⟨txid, m.responders⟩]
                          responders := m.responders + 1 })

/-- The loop of `start`. -/
def next (m : Monitor) : Option Monitor :=
  match m.requests with
  | [] => none
  | request :: requests => some { m with requests, lookups := m.lookups ++ [request] }

/-- `blockchain.get_tx(&txid).await.unwrap_or(None)` -/
def getTx (chain : Blockchain c) (txid : Txid) (now : Nat) : Option Transaction :=
  match chain.getTx txid now with
  | .ok tx => tx
  | .error _ => none

theorem getTx_eq_some {chain : Blockchain c} {txid : Txid} {now : Nat} {tx : Transaction} :
    getTx chain txid now = some tx ↔ chain.getTx txid now = .ok (some tx) := by
  unfold getTx
  cases chain.getTx txid now <;> simp

/-- The `while` of a task, once around. -/
def poll (chain : Blockchain c) (m : Monitor) (task now : Nat) : Option Monitor :=
  match m.lookups[task]? with
  | none => none
  | some request =>
      match getTx chain request.txid now with
      | none => some m
      | some tx =>
          some { m with
            lookups := m.lookups.eraseIdx task
            answers := Function.update m.answers request.responder
              (m.answers request.responder ++ [tx]) }

def step (chain : Blockchain c) (m : Monitor) : Act → Option Monitor
  | .waitForTx txid => some (m.waitForTx txid).2
  | .next => m.next
  | .poll task now => m.poll chain task now

/-- The runs of the monitor. -/
abbrev Runs (chain : Blockchain c) (ts : List (Transition Monitor Act)) (m : Monitor) : Prop :=
  Run (fun m a m' => step chain m a = some m') init ts m

/-- Who waits for an answer, in the channel or in a task. -/
def waiting (m : Monitor) : List Request := m.requests ++ m.lookups

/-- The transaction a call of `wait_for_tx` asks for. -/
def asked? (t : Transition Monitor Act) : Option Txid :=
  match t.act with
  | .waitForTx txid => some txid
  | _ => none

/-- The transactions that were asked for; the responder of each is its place. -/
def asked (ts : List (Transition Monitor Act)) : List Txid := ts.filterMap asked?

/-- When the step asks the blockchain on behalf of a responder. -/
def polled? (responder : Responder) (t : Transition Monitor Act) : Option Nat :=
  match t.act with
  | .poll task now =>
      if t.pre.lookups[task]?.map Request.responder = some responder then some now else none
  | _ => none

/-- When the blockchain was asked on behalf of a responder. -/
def polled (responder : Responder) (ts : List (Transition Monitor Act)) : List Nat :=
  ts.filterMap (polled? responder)

section Snoc

variable (ts : List (Transition Monitor Act)) (t : Transition Monitor Act)

theorem asked_snoc : asked (ts ++ [t]) = asked ts ++ (asked? t).toList := by
  simp only [asked, List.filterMap_append, List.filterMap_cons, List.filterMap_nil]
  cases asked? t <;> rfl

variable {ts} in
/-- A call that was made stays where it is in the order of calls. -/
theorem asked_append (us : List (Transition Monitor Act)) {responder : Responder} {txid : Txid}
    (found : (asked ts)[responder]? = some txid) :
    (asked (ts ++ us))[responder]? = some txid := by
  obtain ⟨inside, -⟩ := List.getElem?_eq_some_iff.mp found
  unfold asked at inside found ⊢
  rw [List.filterMap_append, List.getElem?_append_left inside, found]

theorem polled_snoc (responder : Responder) :
    polled responder (ts ++ [t]) = polled responder ts ++ (polled? responder t).toList := by
  simp only [polled, List.filterMap_append, List.filterMap_cons, List.filterMap_nil]
  cases polled? responder t <;> rfl

end Snoc

/-- Whoever called `wait_for_tx` waits in one place or was answered once, and has heard what
    the blockchain first found. -/
structure Sound (chain : Blockchain c) (ts : List (Transition Monitor Act)) (m : Monitor) :
    Prop where
  issued : (asked ts).length = m.responders
  owned : ∀ request ∈ m.waiting, (asked ts)[request.responder]? = some request.txid
  once : ∀ responder, (m.waiting.map Request.responder).count responder +
    (m.answers responder).length = if responder < m.responders then 1 else 0
  heard : ∀ {responder txid}, (asked ts)[responder]? = some txid →
    m.answers responder = (polled responder ts).filterMap (getTx chain txid)
  unasked : ∀ {responder}, m.responders ≤ responder → polled responder ts = []
  /-- The channel holds the latest requests, in the order they were made. -/
  ordered : m.requests.map Request.responder <:+ List.range m.responders

namespace Sound

variable {chain : Blockchain c} {ts : List (Transition Monitor Act)} {m m' : Monitor}

theorem init : Sound chain [] Monitor.init where
  issued := rfl
  owned := by simp [Monitor.init, waiting]
  once := by simp [Monitor.init, waiting]
  heard := by simp [asked]
  unasked := fun _ => rfl
  ordered := by simp [Monitor.init]

theorem waitForTx (h : Sound chain ts m) (txid : Txid) :
    Sound chain (ts ++ [⟨m, .waitForTx txid, (m.waitForTx txid).2⟩]) (m.waitForTx txid).2 := by
  have polls : ∀ r, polled r (ts ++ [⟨m, .waitForTx txid, (m.waitForTx txid).2⟩]) =
      polled r ts := fun r => by rw [polled_snoc]; exact List.append_nil _
  have asks : asked (ts ++ [⟨m, .waitForTx txid, (m.waitForTx txid).2⟩]) =
      asked ts ++ [txid] := by rw [asked_snoc]; rfl
  have fresh : ∀ {r txid'}, (asked ts)[r]? = some txid' → r < m.responders := by
    intro r txid' found
    exact h.issued ▸ (List.getElem?_eq_some_iff.mp found).1
  constructor
  · rw [asks, List.length_append, h.issued]
    rfl
  · intro request member
    rw [asks]
    have places : request ∈ m.waiting ∨ request = ⟨txid, m.responders⟩ := by
      simp only [waiting, Monitor.waitForTx, List.mem_append, List.mem_singleton] at member ⊢
      tauto
    rcases places with before | rfl
    · have found := h.owned request before
      rw [List.getElem?_append_left (h.issued ▸ fresh found), found]
    · rw [← h.issued, List.getElem?_concat_length]
  · intro r
    have before := h.once r
    simp only [waiting, Monitor.waitForTx, List.map_append, List.count_append, List.map_cons,
      List.map_nil, List.count_singleton] at before ⊢
    by_cases same : m.responders = r
    · subst same
      simp only [Nat.lt_irrefl, if_false, beq_self_eq_true, if_true, Nat.lt_succ_self] at before ⊢
      omega
    · have bound : r < m.responders + 1 ↔ r < m.responders := by
        rw [Nat.lt_succ_iff_lt_or_eq, or_iff_left (Ne.symm same)]
      simp only [beq_iff_eq, same, if_false, bound]
      omega
  · intro r txid' found
    rw [polls]
    rw [asks, List.getElem?_append] at found
    split at found
    · exact h.heard found
    · rename_i late
      rw [h.issued] at late
      have silent := h.once r
      rw [if_neg late] at silent
      rw [h.unasked (Nat.not_lt.mp late)]
      exact List.length_eq_zero_iff.mp (by simp only [Monitor.waitForTx]; omega)
  · intro r late
    rw [polls]
    exact h.unasked (Nat.le_of_succ_le late)
  · obtain ⟨taken, whole⟩ := h.ordered
    refine ⟨taken, ?_⟩
    simp only [Monitor.waitForTx, List.map_append, List.map_cons, List.map_nil,
      List.range_succ, ← whole, List.append_assoc]

theorem next (h : Sound chain ts m) (took : m.next = some m') :
    Sound chain (ts ++ [⟨m, .next, m'⟩]) m' := by
  unfold Monitor.next at took
  split at took
  · cases took
  · rename_i request requests queue
    obtain rfl := Option.some.inj took
    have places : (m.waiting).Perm (requests ++ (m.lookups ++ [request])) := by
      rw [waiting, queue, List.cons_append, ← List.append_assoc]
      exact (List.perm_append_singleton request (requests ++ m.lookups)).symm
    have polls : ∀ r t, t.act = Act.next → polled r (ts ++ [t]) = polled r ts := by
      intro r t act
      rw [polled_snoc, polled?, act]
      exact List.append_nil _
    have asks : ∀ t, t.act = Act.next → asked (ts ++ [t]) = asked ts := by
      intro t act
      rw [asked_snoc, asked?, act]
      exact List.append_nil _
    constructor
    · rw [asks _ rfl, h.issued]
    · intro other member
      rw [asks _ rfl]
      exact h.owned other (places.mem_iff.mpr member)
    · intro r
      rw [← h.once r, (places.map Request.responder).count_eq]
      rfl
    · intro r txid found
      rw [asks _ rfl] at found
      rw [polls _ _ rfl]
      exact h.heard found
    · intro r late
      rw [polls _ _ rfl]
      exact h.unasked late
    · refine .trans ?_ h.ordered
      rw [queue, List.map_cons]
      exact List.suffix_cons _ _

theorem poll (h : Sound chain ts m) {task now : Nat} (took : m.poll chain task now = some m') :
    Sound chain (ts ++ [⟨m, .poll task now, m'⟩]) m' := by
  unfold Monitor.poll at took
  split at took
  · cases took
  · rename_i request found
    have member : request ∈ m.waiting := List.mem_append_right _ (List.mem_of_getElem? found)
    have asks : asked (ts ++ [⟨m, .poll task now, m'⟩]) = asked ts := by
      rw [asked_snoc]
      exact List.append_nil _
    have polls : ∀ r, polled r (ts ++ [⟨m, .poll task now, m'⟩]) =
        polled r ts ++ if request.responder = r then [now] else [] := by
      intro r
      rw [polled_snoc, polled?]
      simp only [found, Option.map_some, Option.some.injEq]
      split <;> rfl
    have asker := h.owned request member
    have issued : request.responder < m.responders :=
      h.issued ▸ (List.getElem?_eq_some_iff.mp asker).1
    have silent : m.answers request.responder = [] := by
      have counted := h.once request.responder
      have there : 0 < (m.waiting.map Request.responder).count request.responder :=
        List.count_pos_iff.mpr (List.mem_map_of_mem member)
      rw [if_pos issued] at counted
      exact List.length_eq_zero_iff.mp (by omega)
    have unasked : ∀ {r}, m.responders ≤ r →
        polled r (ts ++ [⟨m, .poll task now, m'⟩]) = [] := by
      intro r late
      have apart : request.responder ≠ r := fun same => absurd (same ▸ issued) (Nat.not_lt.mpr late)
      rw [polls, h.unasked late, if_neg apart, List.append_nil]
    split at took
    · rename_i nothing
      obtain rfl := Option.some.inj took
      refine ⟨asks ▸ h.issued, asks ▸ h.owned, h.once, ?_, unasked, h.ordered⟩
      intro r txid found'
      rw [asks] at found'
      rw [polls, List.filterMap_append, ← h.heard found']
      split
      · subst_vars
        obtain rfl := Option.some.inj (found'.symm.trans asker)
        simp [nothing]
      · simp
    · rename_i tx there
      obtain rfl := Option.some.inj took
      have split : m.lookups.Perm (request :: m.lookups.eraseIdx task) := by
        obtain ⟨inside, rfl⟩ := List.getElem?_eq_some_iff.mp found
        exact (List.getElem_cons_eraseIdx_perm _).symm
      refine ⟨asks ▸ h.issued, ?_, ?_, ?_, unasked, h.ordered⟩
      · intro other waits
        rw [asks]
        refine h.owned other ?_
        simp only [waiting, List.mem_append] at waits ⊢
        exact waits.imp_right List.mem_of_mem_eraseIdx
      · intro r
        have before := h.once r
        have moved := (split.map Request.responder).count_eq r
        simp only [waiting, List.map_append, List.count_append, List.map_cons,
          List.count_cons, beq_iff_eq] at before moved ⊢
        by_cases same : r = request.responder
        · subst same
          simp only [Function.update_self, List.length_append, List.length_singleton, if_true]
            at before moved ⊢
          omega
        · rw [if_neg (Ne.symm same)] at moved
          rw [Function.update_of_ne same]
          omega
      · intro r txid found'
        rw [asks] at found'
        rw [polls, List.filterMap_append, ← h.heard found']
        by_cases same : r = request.responder
        · subst same
          obtain rfl := Option.some.inj (found'.symm.trans asker)
          simp [there]
        · simp [same, Ne.symm same]

theorem step (h : Sound chain ts m) {a : Act} (took : step chain m a = some m') :
    Sound chain (ts ++ [⟨m, a, m'⟩]) m' := by
  cases a with
  | waitForTx txid =>
      obtain rfl := Option.some.inj took
      exact h.waitForTx txid
  | next => exact h.next took
  | poll task now => exact h.poll took

end Sound

theorem Runs.sound {chain : Blockchain c} {ts m} (run : Runs chain ts m) : Sound chain ts m := by
  induction run with
  | nil => exact .init
  | snoc _ took ih => exact ih.step took

/-- A step of the loop or of one of its tasks. -/
def Act.Own : Act → Prop
  | .waitForTx _ => False
  | .next | .poll .. => True

/-- The loop receives everything that is on the channel. -/
theorem receive_all (chain : Blockchain c) (m : Monitor) :
    ∃ us, Run (fun m a m' => step chain m a = some m') m us
      { m with requests := [], lookups := m.lookups ++ m.requests } ∧
      ∀ t ∈ us, t.act.Own := by
  obtain ⟨requests, lookups, answers, responders⟩ := m
  induction requests generalizing lookups with
  | nil =>
      rw [List.append_nil]
      exact ⟨[], .nil, by simp⟩
  | cons request requests ih =>
      obtain ⟨us, rest, own⟩ := ih (lookups ++ [request])
      have first : step chain ⟨request :: requests, lookups, answers, responders⟩ .next =
          some ⟨requests, lookups ++ [request], answers, responders⟩ := rfl
      refine ⟨_, (Run.nil.snoc first).append (by simpa using rest), ?_⟩
      intro t member
      rcases List.mem_append.mp member with now | later
      · obtain rfl := List.mem_singleton.mp now
        trivial
      · exact own t later

/-- Whoever waits is answered as soon as the blockchain has the transaction when it is asked. -/
theorem answerable {chain : Blockchain c} {ts m} (h : Sound chain ts m) {r : Responder}
    {txid : Txid} (asked : (asked ts)[r]? = some txid) (silent : m.answers r = []) {now : Nat}
    {tx : Transaction} (there : getTx chain txid now = some tx) :
    ∃ us m', Run (fun m a m' => step chain m a = some m') m us m' ∧
      (∀ t ∈ us, t.act.Own) ∧ m'.answers r = [tx] := by
  obtain ⟨us, received, own⟩ := receive_all chain m
  have issued : r < m.responders := h.issued ▸ (List.getElem?_eq_some_iff.mp asked).1
  obtain ⟨request, member, rfl⟩ : ∃ request ∈ m.waiting, request.responder = r := by
    have counted := h.once r
    rw [if_pos issued, silent, List.length_nil, Nat.add_zero] at counted
    exact List.mem_map.mp (List.count_pos_iff.mp (by omega))
  obtain rfl : request.txid = txid := Option.some.inj ((h.owned request member).symm.trans asked)
  obtain ⟨i, found⟩ : ∃ i, (m.lookups ++ m.requests)[i]? = some request :=
    List.mem_iff_getElem?.mp (List.perm_append_comm.mem_iff.mp member)
  refine ⟨_, _, received.snoc (a := .poll i now) (by
    rw [step, poll]
    simp only [found, there]
    rfl), ?_, ?_⟩
  · intro t member
    rcases List.mem_append.mp member with before | last
    · exact own t before
    · obtain rfl := List.mem_singleton.mp last
      trivial
  · simp [silent]

/-- In every run of the monitor, each call of `wait_for_tx` waits in one place until it is
    answered, once, with the first transaction the blockchain had when it was asked for it; the
    loop receives the calls in the order they were made, and can go on from any moment until a
    call whose transaction is there is answered. -/
theorem waitsForTx {chain : Blockchain c} {ts m} (run : Runs chain ts m) :
    (∀ r txid, (asked ts)[r]? = some txid →
      (m.waiting.map Request.responder).count r + (m.answers r).length = 1 ∧
      m.answers r = (polled r ts).filterMap (getTx chain txid) ∧
      (m.answers r = [] → ∀ now tx, getTx chain txid now = some tx →
        ∃ us m', Run (fun m a m' => step chain m a = some m') m us m' ∧
          (∀ t ∈ us, t.act.Own) ∧ m'.answers r = [tx])) ∧
    m.requests.map Request.responder <:+ List.range m.responders := by
  have sound := run.sound
  refine ⟨fun r txid asked => ⟨?_, sound.heard asked, fun silent now tx there =>
    answerable sound asked silent there⟩, sound.ordered⟩
  have counted := sound.once r
  rwa [if_pos (sound.issued ▸ (List.getElem?_eq_some_iff.mp asked).1)] at counted

section Small

/-- It fails first, then does not know the transaction yet. -/
def smallLateChain : Blockchain smallCrates where
  getTx := fun _ now =>
    match now with
    | 0 => .error ()
    | 1 => .ok none
    | _ => .ok (some ⟨2, 0, [], []⟩)

/-- The second call is answered at the third poll, the first one still waits. -/
theorem waitsForTx_late : ∃ ts m, Runs smallLateChain ts m ∧ asked ts = [5, 7] ∧
    polled 1 ts = [0, 1, 2] ∧ m.answers 1 = [⟨2, 0, [], []⟩] ∧ m.answers 0 = [] ∧
    (m.waiting.map Request.responder).count 0 = 1 := by
  obtain ⟨ts, m, done, askers, second, silent⟩ : ∃ ts m,
      exec (step smallLateChain) Monitor.init
        [.waitForTx 5, .waitForTx 7, .next, .next, .poll 1 0, .poll 1 1, .poll 1 2] =
          some (ts, m) ∧
      asked ts = [5, 7] ∧ polled 1 ts = [0, 1, 2] ∧ m.answers 0 = [] :=
    ⟨_, _, rfl, rfl, rfl, rfl⟩
  have run := exec_run done
  obtain ⟨answered, -⟩ := waitsForTx run
  obtain ⟨-, told, -⟩ := answered 1 7 (by rw [askers]; rfl)
  obtain ⟨waits, -, -⟩ := answered 0 5 (by rw [askers]; rfl)
  rw [second] at told
  rw [silent] at waits
  exact ⟨ts, m, run, askers, second, told, silent, waits⟩

end Small

end Monitor

end Lindy
