import Lindy.Channel.WellFormed
import Lindy.Machine.Keyed

/-! # The life of a channel

A record is written by five kinds of steps, and two of them write what they captured some
time before. As long as no message names an id that is already stored, each capture is still
what is stored when it is written back, so every record moves forward.
-/

namespace Lindy

open Bitcoin Machine Op

variable {c : Crates}

/-- The edges of the life of a channel. -/
inductive ChannelState.Next : ChannelState c → ChannelState c → Prop where
  | readyToFund {fundTx commit commitSig} :
      Next (.pending fundTx) (.readyToFund fundTx commit commitSig)
  | live {fundTx index commit commitSig} :
      Next (.readyToFund fundTx commit commitSig) (.live index commit commitSig)
  | closed {index commit commitSig closeTx} :
      Next (.live index commit commitSig) (.closed closeTx)
  | funded {fundTx} : Next .waitingForFund (.funded fundTx)

theorem ChannelState.Next.not_waitingForFund {state : ChannelState c} :
    ¬ state.Next .waitingForFund := by
  rintro ⟨⟩

/-- A record became another one in one step with this label. -/
structure Channel.Forward (label : Act c × Reply c) (channel channel' : Channel c) : Prop where
  peerId : channel'.peerId = channel.peerId
  value : channel'.value = channel.value
  iAmInitiator : channel'.iAmInitiator = channel.iAmInitiator
  state : channel'.state = channel.state ∨ channel.state.Next channel'.state
  /-- A live record is left alone, unless a force close stores its close transaction. -/
  live : ∀ {index commit commitSig}, channel.state = .live index commit commitSig →
    channel'.state = channel.state ∨
      ∃ closeTx, channel'.state = .closed closeTx ∧ label = (.resume, .ok (.closed closeTx))
  closed : ∀ {closeTx}, channel.state = .closed closeTx → channel'.state = channel.state

abbrev NodeTransition (c : Crates) := Transition (NodeState c) (Act c × Reply c)

/-- Every stored record is still there and has moved forward. -/
def Forward (t : NodeTransition c) : Prop :=
  ∀ id channel, t.pre.db.getChannel id = some channel →
    ∃ channel', t.post.db.getChannel id = some channel' ∧ channel.Forward t.act channel'

/-- `recv_new_channel` gets to its insert. -/
def ChannelManager.Accepts (m : ChannelManager c) (peer : c.PeerId)
    (channel : RsEcdsaNewChannel c) : Prop :=
  (m.fundingSecretKeyFor peer false).isSome ∧
    (m.stateSighash channel.id 0 peer ⟨channel.fundingSatoshis, 0⟩ false).isSome

/-- The funder names no channel that is already stored. -/
def Node.FundsFresh (n : Node c) (t : NodeTransition c) : Prop :=
  ∀ {value peer wallet reply descriptor psbt id},
    t.act = (.openChannel value peer wallet, reply) →
    n.manager.fundingDescriptorFor peer true = some descriptor →
    wallet (c.scriptPubkey descriptor) value = .ok psbt →
    FundTx.channelId ⟨descriptor, psbt⟩ = some id → t.pre.db.getChannel id = none

/-- An accepted offer names this stored record. -/
def Node.Collides (n : Node c) (t : NodeTransition c) (peer : c.PeerId)
    (channel : RsEcdsaNewChannel c) (stored : Channel c) : Prop :=
  (∃ entropy reply, t.act = (.receive peer (.rsEcdsaNewChannel channel) entropy, reply)) ∧
    n.manager.Accepts peer channel ∧ t.pre.db.getChannel channel.id = some stored

theorem Node.fundsFresh_of_act {n : Node c} {t : NodeTransition c}
    (other : ∀ value peer wallet, t.act.1 ≠ .openChannel value peer wallet) : n.FundsFresh t := by
  intro value peer wallet reply descriptor psbt id act
  exact absurd (congrArg Prod.fst act) (other _ _ _)

theorem Node.not_collides_of_act {n : Node c} {t : NodeTransition c}
    (other : ∀ peer channel entropy, t.act.1 ≠ .receive peer (.rsEcdsaNewChannel channel) entropy)
    (peer : c.PeerId) (channel : RsEcdsaNewChannel c) (stored : Channel c) :
    ¬ n.Collides t peer channel stored := by
  intro collides
  obtain ⟨entropy, reply, act⟩ := collides.1
  exact other _ _ _ (congrArg Prod.fst act)

/-- Whatever is to be written back is still stored as it was captured. -/
structure NodeState.Settled (s : NodeState c) : Prop where
  named : ∀ {id channel}, s.db.getChannel id = some channel → channel.id = id
  tasks : ∀ task ∈ s.tasks, s.db.getChannel task.channel.id = some task.channel
  apart : Distinct (fun task : Task c => task.channel.id) s.tasks
  ack : ∀ {ready}, s.suspended = some (.ack ready) → ∃ stored : Channel c,
    s.db.getChannel stored.id = some stored ∧ stored.state = .pending ready.fundTx ∧
    ready = stored.readied ready.fundTx ready.commit ready.commitSig
  close : ∀ {channel tx}, s.suspended = some (.close channel tx) →
    ∃ (stored : Channel c) (index : UInt32) (commit : CommitState)
      (commitSig : c.EncryptedSignature),
      s.db.getChannel stored.id = some stored ∧
      stored.state = .live index commit commitSig ∧
      channel = { stored with state := .closed tx }

namespace NodeState.Settled

variable {s : NodeState c}

theorem init : (NodeState.init : NodeState c).Settled where
  named := by simp [NodeState.init, InMemory.getChannel]
  tasks := by simp [NodeState.init]
  apart := .nil
  ack := by simp [NodeState.init]
  close := by simp [NodeState.init]

/-- A record is the capture of a task only in the two states a task waits in. -/
theorem task_state (h : s.Settled) {task : Task c} (member : task ∈ s.tasks) {channel : Channel c}
    (stored : s.db.getChannel task.channel.id = some channel) :
    (∃ fundTx commit commitSig, channel.state = .readyToFund fundTx commit commitSig) ∨
      channel.state = .waitingForFund := by
  obtain rfl : task.channel = channel := Option.some.inj ((h.tasks task member).symm.trans stored)
  cases task with
  | readyToFund ready => exact .inl ⟨_, _, _, ready.ready⟩
  | waitingForFund waiting descriptor => exact .inr waiting.waiting

/-- Writing a record that nobody else is about to write. -/
theorem insert (h : s.Settled) (channel : Channel c)
    (tasks : ∀ task ∈ s.tasks, task.channel.id ≠ channel.id)
    (suspended : ∀ op, s.suspended = some op → op.channel.id ≠ channel.id) :
    { s with db := s.db.insertChannel channel }.Settled where
  named := by
    intro id other found
    simp only [InMemory.getChannel_insertChannel] at found
    split at found
    · rename_i same
      exact Option.some.inj found ▸ same.symm
    · exact h.named found
  tasks := fun task member =>
    (InMemory.getChannel_insertChannel_of_ne _ (tasks task member)).trans (h.tasks task member)
  apart := h.apart
  ack := by
    intro ready held
    obtain ⟨stored, there, pending, same⟩ := h.ack held
    refine ⟨stored, ?_, pending, same⟩
    rw [InMemory.getChannel_insertChannel_of_ne, there]
    have other := suspended _ held
    rw [same] at other
    exact other
  close := by
    intro closed tx held
    obtain ⟨stored, index, commit, commitSig, there, live, same⟩ := h.close held
    refine ⟨stored, index, commit, commitSig, ?_, live, same⟩
    rw [InMemory.getChannel_insertChannel_of_ne, there]
    have other := suspended _ held
    rw [same] at other
    exact other

/-- The record just written is captured by a new task. -/
theorem spawn (h : s.Settled) (task : Task c)
    (stored : s.db.getChannel task.channel.id = some task.channel)
    (fresh : ∀ other ∈ s.tasks, other.channel.id ≠ task.channel.id) :
    { s with tasks := s.tasks ++ [task] }.Settled where
  named := h.named
  tasks := by
    intro other member
    cases List.mem_append.mp member with
    | inl before => exact h.tasks other before
    | inr last => exact List.mem_singleton.mp last ▸ stored
  apart := h.apart.snoc fresh
  ack := h.ack
  close := h.close

/-- An ack that was checked waits to write the record it was checked against. -/
theorem suspendAck (h : s.Settled) {id : ChannelId} {stored : Channel c} {fundTx : FundTx c}
    {commit : CommitState} {commitSig : c.EncryptedSignature}
    (there : s.db.getChannel id = some stored) (pending : stored.state = .pending fundTx) :
    { s with suspended := some (.ack (stored.readied fundTx commit commitSig)) }.Settled where
  named := h.named
  tasks := h.tasks
  apart := h.apart
  ack := by
    intro ready held
    obtain rfl := Suspended.ack.inj (Option.some.inj held)
    exact ⟨stored, h.named there ▸ there, pending, rfl⟩
  close := by simp

/-- A close waits to write the record it was made from. -/
theorem suspendClose (h : s.Settled) {id : ChannelId} {stored : Channel c} {index : UInt32}
    {commit : CommitState} {commitSig : c.EncryptedSignature} {tx : Transaction}
    (there : s.db.getChannel id = some stored)
    (live : stored.state = .live index commit commitSig) :
    { s with suspended := some (.close { stored with state := .closed tx } tx) }.Settled where
  named := h.named
  tasks := h.tasks
  apart := h.apart
  ack := by simp
  close := by
    intro channel tx' held
    obtain ⟨rfl, rfl⟩ := Suspended.close.inj (Option.some.inj held)
    exact ⟨stored, index, commit, commitSig, h.named there ▸ there, live, rfl⟩

theorem release (h : s.Settled) : { s with suspended := none }.Settled where
  named := h.named
  tasks := h.tasks
  apart := h.apart
  ack := by simp
  close := by simp

theorem answer (h : s.Settled) (i : Nat) (txid : Txid) (tx : Transaction) :
    { s with tasks := s.tasks.eraseIdx i
             answers := s.answers ++ [(txid, tx)] }.Settled where
  named := h.named
  tasks := fun task member => h.tasks task (List.mem_of_mem_eraseIdx member)
  apart := h.apart.eraseIdx i
  ack := h.ack
  close := h.close

/-- No record means nothing to write back. -/
theorem fresh (h : s.Settled) {id : ChannelId} (absent : s.db.getChannel id = none) :
    (∀ task ∈ s.tasks, task.channel.id ≠ id) ∧
      ∀ op, s.suspended = some op → op.channel.id ≠ id := by
  constructor
  · rintro task member rfl
    rw [h.tasks task member] at absent
    cases absent
  · rintro op held rfl
    cases op with
    | ack ready =>
        obtain ⟨stored, there, -, same⟩ := h.ack held
        rw [same] at absent
        cases there.symm.trans absent
    | close channel tx =>
        obtain ⟨stored, _, _, _, there, -, rfl⟩ := h.close held
        cases there.symm.trans absent

/-- While an operation waits for its insert, no task captured the record it read. -/
theorem tasks_apart (h : s.Settled) {op : Suspended c} (held : s.suspended = some op) :
    ∀ task ∈ s.tasks, task.channel.id ≠ op.channel.id := by
  intro task member same
  cases op with
  | ack ready =>
      obtain ⟨stored, there, pending, readied⟩ := h.ack held
      have id : task.channel.id = stored.id := by rw [same, Suspended.channel, readied]; rfl
      rcases h.task_state member (id ▸ there) with ⟨_, _, _, state⟩ | state <;>
        rw [pending] at state <;> cases state
  | close channel tx =>
      obtain ⟨stored, _, _, _, there, live, rfl⟩ := h.close held
      have id : task.channel.id = stored.id := same
      rcases h.task_state member (id ▸ there) with ⟨_, _, _, state⟩ | state <;>
        rw [live] at state <;> cases state

/-- A task writes back to its own record, which nobody else is about to write. -/
theorem finish (h : s.Settled) {i : Nat} {task : Task c} (found : s.tasks[i]? = some task)
    (channel : Channel c) (same : channel.id = task.channel.id) (txid : Txid)
    (tx : Transaction) :
    { s with db := s.db.insertChannel channel
             tasks := s.tasks.eraseIdx i
             answers := s.answers ++ [(txid, tx)] }.Settled := by
  apply (h.answer i txid tx).insert channel
  · intro other member
    rw [same]
    exact h.apart.erased_ne found member
  · intro op held
    rw [same]
    exact (h.tasks_apart held task (List.mem_of_getElem? found)).symm

end NodeState.Settled

section Forward

variable {label : Act c × Reply c} {channel : Channel c}

theorem Channel.Forward.refl : channel.Forward label channel where
  peerId := rfl
  value := rfl
  iAmInitiator := rfl
  state := .inl rfl
  live := fun _ => .inl rfl
  closed := fun _ => rfl

/-- Only the state changes, along an edge other than that to a closed record. -/
theorem Channel.Forward.next {state : ChannelState c} (next : channel.state.Next state)
    (not_closed : ∀ closeTx, state ≠ .closed closeTx) :
    channel.Forward label { channel with state } where
  peerId := rfl
  value := rfl
  iAmInitiator := rfl
  state := .inr next
  live := by
    intro index commit commitSig live
    rw [live] at next
    cases next
    exact absurd rfl (not_closed _)
  closed := by
    intro closeTx closed
    rw [closed] at next
    cases next

theorem Channel.Forward.close {index : UInt32} {commit : CommitState}
    {commitSig : c.EncryptedSignature} {tx : Transaction}
    (live : channel.state = .live index commit commitSig) :
    channel.Forward (.resume, .ok (.closed tx)) { channel with state := .closed tx } where
  peerId := rfl
  value := rfl
  iAmInitiator := rfl
  state := .inr (live ▸ .closed)
  live := fun _ => .inr ⟨tx, rfl, rfl⟩
  closed := by
    intro closeTx closed
    rw [live] at closed
    cases closed

variable {s s' : NodeState c}

theorem forward_of_same (same : s'.db = s.db) : Forward ⟨s, label, s'⟩ := by
  intro id channel stored
  exact ⟨channel, by simpa only [same] using stored, .refl⟩

theorem forward_of_insert (inserted : s'.db = s.db.insertChannel channel)
    (moved : ∀ stored, s.db.getChannel channel.id = some stored → stored.Forward label channel) :
    Forward ⟨s, label, s'⟩ := by
  intro id other stored
  by_cases same : id = channel.id
  · subst same
    exact ⟨channel, by simp only [inserted, InMemory.getChannel_insertChannel_self],
      moved other stored⟩
  · refine ⟨other, ?_, .refl⟩
    simp only [inserted, InMemory.getChannel_insertChannel_of_ne _ same]
    exact stored

/-- What a task writes back moves the record it captured. -/
theorem NodeState.Settled.forward (h : s.Settled) {i : Nat} {task : Task c}
    (found : s.tasks[i]? = some task) (written : Channel c) (same : written.id = task.channel.id)
    (inserted : s'.db = s.db.insertChannel written)
    (moved : task.channel.Forward label written) : Forward ⟨s, label, s'⟩ := by
  apply forward_of_insert inserted
  intro stored there
  have captured := h.tasks _ (List.mem_of_getElem? found)
  obtain rfl : task.channel = stored := Option.some.inj (captured.symm.trans (same ▸ there))
  exact moved

end Forward

/-- A step that meets both conditions keeps the node settled and moves every record forward. -/
theorem NodeState.Settled.effect {n : Node c} {s s' : NodeState c} {a : Act c} {reply : Reply c}
    (h : s.Settled) (took : Effect n s a reply s') (funds : n.FundsFresh ⟨s, (a, reply), s'⟩)
    (apart : ∀ peer channel stored, ¬ n.Collides ⟨s, (a, reply), s'⟩ peer channel stored) :
    s'.Settled ∧ Forward ⟨s, (a, reply), s'⟩ := by
  cases took with
  | quiet => exact ⟨h, forward_of_same rfl⟩
  | opened made paid named =>
      have absent := funds rfl made paid named
      obtain ⟨tasks, suspended⟩ := h.fresh absent
      refine ⟨h.insert _ tasks suspended, forward_of_insert rfl fun stored there => ?_⟩
      cases there.symm.trans absent
  | @accepted peer channel entropy secretKey sighash descriptor key hash made =>
      have absent : s.db.getChannel channel.id = none := by
        cases found : s.db.getChannel channel.id with
        | none => rfl
        | some stored =>
            exact absurd ⟨⟨_, _, rfl⟩, ⟨by simp [key], by simp [hash]⟩, found⟩
              (apart peer channel stored)
      obtain ⟨tasks, suspended⟩ := h.fresh absent
      refine ⟨(h.insert (channel.waitingChannel peer).channel tasks suspended).spawn
        (.waitingForFund (channel.waitingChannel peer) descriptor)
        (InMemory.getChannel_insertChannel_self _ _) tasks,
        forward_of_insert rfl fun stored there => ?_⟩
      cases there.symm.trans absent
  | @checked peer channel entropy stored fundTx p1 free there same pending valued verified =>
      exact ⟨h.suspendAck there pending, forward_of_same rfl⟩
  | @closing id entropy stored index commit commitSig tx free there live made =>
      exact ⟨h.suspendClose there live, forward_of_same rfl⟩
  | @acked ready held =>
      obtain ⟨stored, there, pending, readied⟩ := h.ack held
      have tasks := h.tasks_apart held
      refine ⟨(h.release.insert ready.channel tasks (by simp)).spawn (.readyToFund ready)
        (InMemory.getChannel_insertChannel_self _ _) tasks, forward_of_insert rfl ?_⟩
      intro other found
      rw [readied] at found ⊢
      obtain rfl : stored = other := Option.some.inj (there.symm.trans found)
      exact .next (pending ▸ .readyToFund) (by simp)
  | @closed channel tx held =>
      obtain ⟨stored, index, commit, commitSig, there, live, rfl⟩ := h.close held
      refine ⟨h.release.insert _ (h.tasks_apart held) (by simp), forward_of_insert rfl ?_⟩
      intro other found
      obtain rfl : stored = other := Option.some.inj (there.symm.trans found)
      exact .close live
  | @live i now ready tx waiting found matched =>
      refine ⟨h.finish waiting ready.live rfl _ _, h.forward waiting ready.live rfl rfl ?_⟩
      exact .next (ready.ready ▸ .live) (by simp)
  | @funded i now waiting descriptor tx there found paid =>
      refine ⟨h.finish there (waiting.funded tx) rfl _ _,
        h.forward there (waiting.funded tx) rfl rfl ?_⟩
      exact .next (waiting.waiting ▸ .funded) (by simp)
  | abandoned => exact ⟨h.release, forward_of_same rfl⟩
  | rejected => exact ⟨h.answer _ _ _, forward_of_same rfl⟩

/-- An accepted offer replaces whatever is stored under the id it names. -/
theorem Node.Collides.overwrites {n : Node c} {t : NodeTransition c} {peer : c.PeerId}
    {channel : RsEcdsaNewChannel c} {stored : Channel c}
    (collides : n.Collides t peer channel stored)
    (took : n.step t.pre t.act.1 = some (t.act.2, t.post)) :
    t.post.db.getChannel channel.id = some (channel.waitingChannel peer).channel := by
  obtain ⟨⟨entropy, reply, act⟩, ⟨key, hash⟩, -⟩ := collides
  obtain ⟨secretKey, key⟩ := Option.isSome_iff_exists.mp key
  obtain ⟨sighash, hash⟩ := Option.isSome_iff_exists.mp hash
  obtain ⟨descriptor, -, done⟩ := n.manager.recvNewChannel_ok key hash entropy t.pre
  rw [act] at took
  have ended := (Node.step_eq_some.mp took).2
  rw [Node.outcome_of_ok (bind_of_ok done)] at ended
  rw [← (Prod.mk.inj ended).2]
  exact InMemory.getChannel_insertChannel_self _ _

/-- Replacing another record is no move forward. -/
theorem Node.Collides.not_forward {n : Node c} {t : NodeTransition c} {peer : c.PeerId}
    {channel : RsEcdsaNewChannel c} {stored : Channel c}
    (collides : n.Collides t peer channel stored)
    (took : n.step t.pre t.act.1 = some (t.act.2, t.post))
    (other : stored.peerId ≠ peer ∨ stored.value ≠ channel.fundingSatoshis ∨
      stored.iAmInitiator = true ∨ stored.state ≠ .waitingForFund) : ¬ Forward t := by
  intro forward
  obtain ⟨channel', there, moved⟩ := forward _ _ collides.2.2
  obtain rfl := Option.some.inj ((collides.overwrites took).symm.trans there)
  rcases other with peerId | value | role | state
  · exact peerId moved.peerId.symm
  · exact value moved.value.symm
  · have := moved.iAmInitiator.trans role
    cases this
  · cases moved.state with
    | inl same => exact state same.symm
    | inr next => exact ChannelState.Next.not_waitingForFund next

/-- In every run whose offers name no stored channel every record moves forward at every step.
    An accepted offer for a stored channel breaks this at once, unless the record is just the
    one it stores. -/
theorem channelsMoveForward {n : Node c} {ts s} (run : n.Runs ts s)
    (funds : ∀ t ∈ ts, n.FundsFresh t) :
    ((∀ t ∈ ts, ∀ peer channel stored, ¬ n.Collides t peer channel stored) →
      ∀ t ∈ ts, Forward t) ∧
    ∀ t ∈ ts, ∀ peer channel stored, n.Collides t peer channel stored →
      (stored.peerId ≠ peer ∨ stored.value ≠ channel.fundingSatoshis ∨
        stored.iAmInitiator = true ∨ stored.state ≠ .waitingForFund) → ¬ Forward t := by
  refine ⟨fun apart => ?_, fun t member peer channel stored collides other =>
    collides.not_forward (run.taken member) other⟩
  refine run.transitions NodeState.Settled.init ?_
    (fun t member => (⟨funds t member, apart t member⟩ : n.FundsFresh t ∧
      ∀ peer channel stored, ¬ n.Collides t peer channel stored))
  rintro s ⟨a, reply⟩ s' settled took ⟨fresh, apart⟩
  exact settled.effect (Node.step_effect took) fresh apart

section Small

/-- The opening with its steps at hand; only the first one asks the funder. -/
theorem smallOpening_steps : ∃ t₁ t₂ t₃ t₄ s stored,
    smallNode.exec .init smallOpening = some ([t₁, t₂, t₃, t₄], s) ∧ t₁.pre = .init ∧
    [t₁, t₂, t₃, t₄].map (fun t => t.act.1) = smallOpening ∧
    s.db.getChannel ⟨7, 0⟩ = some stored ∧ stored.peerId = smallBob.id ∧ s.suspended = none :=
  ⟨_, _, _, _, _, _, rfl, rfl, rfl, rfl, rfl, rfl⟩

theorem smallOpening_run : ∃ ts s stored, smallNode.Runs ts s ∧
    (∀ t ∈ ts, smallNode.FundsFresh t) ∧
    (∀ t ∈ ts, ∀ peer channel stored, ¬ smallNode.Collides t peer channel stored) ∧
    ts.length = 4 ∧
    s.db.getChannel ⟨7, 0⟩ = some stored ∧ stored.peerId = smallBob.id ∧ s.suspended = none := by
  obtain ⟨t₁, t₂, t₃, t₄, s, stored, done, first, acts, there, peer, free⟩ := smallOpening_steps
  simp only [smallOpening, List.map_cons, List.map_nil, List.cons.injEq, and_true] at acts
  obtain ⟨act₁, act₂, act₃, act₄⟩ := acts
  refine ⟨_, s, stored, execReplies_run done, ?_, ?_, rfl, there, peer, free⟩
  · simp only [List.forall_mem_cons, List.not_mem_nil, false_implies, implies_true, and_true]
    refine ⟨?_, Node.fundsFresh_of_act (by simp [act₂]), Node.fundsFresh_of_act (by simp [act₃]),
      Node.fundsFresh_of_act (by simp [act₄])⟩
    intro value peer wallet reply descriptor psbt id _ _ _ _
    rw [first]
    rfl
  · simp only [List.forall_mem_cons, List.not_mem_nil, false_implies, implies_true, and_true]
    refine ⟨Node.not_collides_of_act (by simp [act₁]), Node.not_collides_of_act ?_,
      Node.not_collides_of_act (by simp [act₃]), Node.not_collides_of_act (by simp [act₄])⟩
    intro peer channel entropy act
    cases act₂.symm.trans act

theorem channelsMoveForward_opening : ∃ ts s, smallNode.Runs ts s ∧ ts.length = 4 ∧
    ∀ t ∈ ts, Forward t := by
  obtain ⟨ts, s, stored, run, funds, apart, length, -⟩ := smallOpening_run
  exact ⟨ts, s, run, length, (channelsMoveForward run funds).1 apart⟩

/-- An offer under the id of the channel that was just opened. -/
def smallRivalOffer : RsEcdsaNewChannel smallCrates :=
  ⟨⟨7, 0⟩, 5000, 20, 93000, smallPoint 50⟩

theorem smallRivalOffer_accepted : smallAlice.Accepts smallCarol.id smallRivalOffer :=
  ⟨by decide +kernel, by decide +kernel⟩

/-- A third party offers a channel under the id of a live one. -/
theorem smallRival_run : ∃ ts s t stored, smallNode.Runs ts s ∧
    (∀ t ∈ ts, smallNode.FundsFresh t) ∧ t ∈ ts ∧
    t.act.1 = .receive smallCarol.id (.rsEcdsaNewChannel smallRivalOffer) () ∧
    smallNode.Collides t smallCarol.id smallRivalOffer stored ∧
    stored.peerId ≠ smallCarol.id := by
  obtain ⟨ts, s, stored, run, funds, -, -, there, peer, free⟩ := smallOpening_run
  obtain ⟨⟨reply, s'⟩, took⟩ : ∃ r, smallNode.step s
      (.receive smallCarol.id (.rsEcdsaNewChannel smallRivalOffer) ()) = some r :=
    ⟨_, Node.step_eq_some.mpr ⟨fun _ => free, Prod.mk.eta.symm⟩⟩
  have distinct : smallBob.id ≠ smallCarol.id := by decide +kernel
  refine ⟨_, s', _, stored, run.snoc took, ?_, List.mem_append_right _ List.mem_cons_self, rfl,
    ⟨⟨(), reply, rfl⟩, smallRivalOffer_accepted, there⟩, peer ▸ distinct⟩
  intro t member
  cases List.mem_append.mp member with
  | inl earlier => exact funds t earlier
  | inr now =>
      obtain rfl := List.mem_singleton.mp now
      exact Node.fundsFresh_of_act (by simp)

theorem liveChannelReset : ¬ ∀ ts s, smallNode.Runs ts s →
    (∀ t ∈ ts, smallNode.FundsFresh t) → ∀ t ∈ ts, Forward t := by
  intro all
  obtain ⟨ts, s, t, stored, run, funds, member, -, collides, distinct⟩ := smallRival_run
  exact collides.not_forward (run.taken member) (.inl distinct) (all ts s run funds t member)

end Small

end Lindy
