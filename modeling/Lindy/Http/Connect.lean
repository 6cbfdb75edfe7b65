import Lindy.Http.Reply
import Lindy.P2p.Waiting

/-! # `POST /peers`

The handler waits for its notifier. Its reply is true to the connection when the notifier is;
when the notifier is dropped, a connection that stands is reported as an internal server error.
-/

namespace Lindy.Http

open Machine P2p P2p.Runtime

variable {Addr Key M : Type}

structure NewPeerRes (Key : Type) where
  id : Key
  deriving DecidableEq

/-- `connect`, from what `on_connect` resolves to: `none` is `Canceled`. -/
def connect (display : Key → String) (newPeer : Peer Addr Key) (onConnect : Option Outcome) :
    ApiReply (NewPeerRes Key) :=
  match onConnect with
  | some (.ok _) => .created ("/" ++ display newPeer.id) ⟨newPeer.id⟩
  | some (.error _) => .err (.fromStatus .failedDependency)
  | none => .err .internalServerError

/-- A connection that was made is reported as one, a failed attempt as a failed dependency. -/
theorem connect_status (display : Key → String) (newPeer : Peer Addr Key) (outcome : Outcome) :
    (connect display newPeer (some outcome)).status =
      match outcome with
      | .ok _ => some 200
      | .error _ => some StatusCode.failedDependency.asU16 := by
  cases outcome with
  | ok => rfl
  | error => exact ApiReply.status_err rfl

/-- The handler whose notifier this is has its answer: one was sent, or the notifier lies
    nowhere any more. -/
inductive Replies (display : Key → String) (w : Runtime Addr Key M) (peer : Peer Addr Key)
    (n : Notifier) : ApiReply (NewPeerRes Key) → Prop where
  | heard {outcome} (told : w.answers n = [outcome]) :
      Replies display w peer n (connect display peer (some outcome))
  | canceled (silent : w.answers n = []) (dropped : ∀ i, n ∉ w.held i) :
      Replies display w peer n (connect display peer none)

variable [DecidableEq Key]

/-- Every reply to a connect request of the run says what the request should have heard by
    now, and none is an internal server error. -/
def Truthful (display : Key → String) (ts : List (Step Addr Key M)) (w : Runtime Addr Key M) :
    Prop :=
  ∀ t ∈ ts, ∀ peer, t.act = .event (.connectReq peer true) →
    ∀ reply, Replies display w peer t.pre.oneshots reply →
      ∃ outcome, fate peer.id t.pre.oneshots ts = .answered outcome ∧
        reply = connect display peer (some outcome) ∧
        reply.status ≠ some StatusCode.internalServerError.asU16

variable {ts : List (Step Addr Key M)} {w : Runtime Addr Key M}

/-- A request that was made is never taken back. -/
theorem fate_asked {t : Step Addr Key M} {key : Key} {n : Notifier} (member : t ∈ ts)
    (asked : asks key n t = true) : fate key n ts ≠ .unasked := by
  induction ts using List.reverseRecOn with
  | nil => cases member
  | append_singleton ts last ih =>
      rw [fate_snoc]
      rcases stands : fate key n ts with _ | _ | outcome
      · cases List.mem_append.mp member with
        | inl before => exact absurd stands (ih before)
        | inr now =>
            obtain rfl := List.mem_singleton.mp now
            simp only [nextFate, asked, if_true]
            split <;> simp
      · simp only [nextFate]
        repeat' split
        all_goals simp
      · simp [nextFate]

theorem truthful_of_hears (display : Key → String)
    (heard : ∀ key n, w.Hears key n (fate key n ts)) : Truthful display ts w := by
  intro t member peer act reply replied
  have asked := fate_asked member (asks_iff.mpr ⟨peer, act, rfl, rfl⟩)
  have stands := heard peer.id t.pre.oneshots
  rcases now : fate peer.id t.pre.oneshots ts with _ | _ | outcome
  · exact absurd now asked
  · rw [now] at stands
    obtain ⟨there, silent⟩ := stands
    cases replied with
    | heard told => cases told.symm.trans silent
    | canceled _ dropped => exact absurd (List.mem_append_left _ there) (dropped (.inl peer.id))
  · rw [now] at stands
    cases replied with
    | heard told =>
        obtain rfl := List.singleton_inj.mp (told.symm.trans stands)
        refine ⟨_, rfl, rfl, ?_⟩
        rw [connect_status]
        split <;> decide
    | canceled silent => cases silent.symm.trans stands

/-- At every moment of a run, up to a panic of the event handler, each connect request has heard
    what it should have by then, and the handler of `POST /peers` replies it, exactly when no
    step of the run misleads a request. -/
theorem connectAnswered (display : Key → String) (run : RunsOrPanics ts w) :
    (∀ before u, before <+: ts → RunsOrPanics before u →
        (∀ key n, u.Hears key n (fate key n before)) ∧ Truthful display before u) ↔
      ∀ t ∈ ts, ¬ Misleads t := by
  refine run.prefixes_iff (I := fun _ _ => True) trivial ⟨fun _ _ => trivial, by simp [Truthful]⟩
    (fun _ _ _ _ _ _ _ _ => trivial) ?_ ?_
  · intro ts w a w' run _ good took
    constructor
    · rintro ⟨heard, -⟩ misled
      obtain ⟨key, n, unheard⟩ := misled.unheard run (.inl took)
      exact unheard (heard key n)
    · intro apart
      have heard : ∀ key n, w'.Hears key n (fate key n (ts ++ [⟨w, a, w'⟩])) :=
        fun key n => hears_step run took apart (good.1 key n)
      exact ⟨heard, truthful_of_hears display heard⟩
  · intro ts w a w' run _ good panics
    constructor
    · rintro ⟨heard, -⟩ misled
      obtain ⟨key, n, unheard⟩ := misled.unheard run (.inr panics)
      exact unheard (heard key n)
    · intro apart
      have heard : ∀ key n, w'.Hears key n (fate key n (ts ++ [⟨w, a, w'⟩])) :=
        fun key n => hears_panics panics apart (good.1 key n)
      exact ⟨heard, truthful_of_hears display heard⟩

/-- The attempt succeeds, and the request hears of it. -/
theorem connectAnswered_connected : ∃ (ts : List (Step Unit Bool Nat))
    (w : Runtime Unit Bool Nat), Runs ts w ∧ ts.length = 2 ∧ w.answers 0 = [.ok ()] ∧
      w.Hears true 0 (fate true 0 ts) ∧ Truthful (fun _ => "") ts w := by
  obtain ⟨t₁, t₂, w, done, first, start, second, told⟩ : ∃ t₁ t₂ w,
      exec step (init : Runtime Unit Bool Nat)
        [.event (.connectReq ⟨(), true⟩ true), .event (.connected 0)] = some ([t₁, t₂], w) ∧
      t₁.act = .event (.connectReq ⟨(), true⟩ true) ∧ t₁.pre = init ∧
      t₂.act = .event (.connected 0) ∧ w.answers 0 = [.ok ()] :=
    ⟨_, _, _, rfl, rfl, rfl, rfl, rfl⟩
  have run := exec_run done
  have good := (connectAnswered (fun _ => "") (.going run)).mpr ?_ _ w List.prefix_rfl (.going run)
  · exact ⟨_, w, run, rfl, told, good.1 true 0, good.2⟩
  · simp only [List.forall_mem_cons, List.not_mem_nil, false_implies, implies_true, and_true]
    constructor
    · rintro (⟨act, entry⟩ | ⟨act, -, -⟩ | ⟨act, -, -, -, -, -⟩ | ⟨act, -, -⟩)
      · rw [start] at entry
        cases entry
      · cases first.symm.trans act
      · cases first.symm.trans act
      · cases first.symm.trans act
    · rintro (⟨act, -⟩ | ⟨act, -, -⟩ | ⟨act, -, -, -, -, -⟩ | ⟨act, -, -⟩) <;>
        cases second.symm.trans act

/-- A peer is connected by itself; a connect request for it is dropped and replied to with an
    internal server error, while the connection stands. -/
theorem connectedPeerRefused :
    (¬ ∀ (ts : List (Step Unit Bool Nat)) (w : Runtime Unit Bool Nat), Runs ts w →
      ∀ key n, w.Hears key n (fate key n ts)) ∧
    ∃ (ts : List (Step Unit Bool Nat)) (w : Runtime Unit Bool Nat) (reply : _), Runs ts w ∧
      w.connected true = true ∧ w.readers.get 0 = some ⟨(), true⟩ ∧
      Replies (fun _ => "") w ⟨(), true⟩ 0 reply ∧ reply.status = some 500 := by
  obtain ⟨ts, w, done, should, silent, entry, reader, peers, writers⟩ : ∃ ts w,
      exec step (init : Runtime Unit Bool Nat)
        [.event (.inbound ⟨(), true⟩), .event (.connectReq ⟨(), true⟩ true)] = some (ts, w) ∧
      fate true 0 ts = .answered (.ok ()) ∧ w.answers 0 = [] ∧ w.connected true = true ∧
      w.readers.get 0 = some ⟨(), true⟩ ∧ w.peers = Table.empty.insert true (.connected 0) ∧
      w.writers = Table.empty.insert 0 ⟨⟨(), true⟩, [], false⟩ :=
    ⟨_, _, rfl, rfl, rfl, rfl, rfl, rfl, rfl⟩
  constructor
  · intro all
    have heard := all ts w (exec_run done) true 0
    rw [should] at heard
    cases silent.symm.trans heard
  · refine ⟨ts, w, _, exec_run done, entry, reader, .canceled silent ?_, rfl⟩
    rintro (key | conn)
    · cases key <;> simp [held, notifyAt, pendingAt, peers, Table.get_insert]
    · by_cases same : conn = 0 <;> simp [held, queueAt, writers, Table.get_insert, same]

end Lindy.Http
