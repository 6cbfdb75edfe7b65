import Lindy.Channel.Network

/-! # Both parties store one channel

One invariant over the databases of all nodes, the messages under way and the acks that wait
for their insert. The responder stores its side before it answers and the initiator its own
before it asks, so whenever an ack is under way or was handled both sides are stored.
-/

namespace Lindy

open Bitcoin Machine Op

variable {c : Crates} {ι : Type*} {nodes : ι → Node c} {w w' : Net ι c}

/-- Two records are the sides of one channel: `i` opened it with `j`. -/
structure Sides (nodes : ι → Node c) (i j : ι) (mine theirs : Channel c) : Prop where
  mine_peer : mine.peerId = (nodes j).manager.id
  theirs_peer : theirs.peerId = (nodes i).manager.id
  value : theirs.value = mine.value
  initiator : mine.iAmInitiator = true
  responder : theirs.iAmInitiator = false

/-- Both nodes store their side. -/
def Both (nodes : ι → Node c) (w : Net ι c) (i j : ι) (id : ChannelId) : Prop :=
  ∃ mine theirs, recordAt w i id = some mine ∧ recordAt w j id = some theirs ∧
    Sides nodes i j mine theirs

/-- The sender of an offer waits for the answer, and its receiver knows nothing yet. -/
def Offered (nodes : ι → Node c) (w : Net ι c) (sender receiver : c.PeerId)
    (offer : RsEcdsaNewChannel c) : Prop :=
  ∃ i j mine fundTx, sender = (nodes i).manager.id ∧ receiver = (nodes j).manager.id ∧
    recordAt w i offer.id = some mine ∧ mine.state = .pending fundTx ∧
    mine.peerId = receiver ∧ mine.value = offer.fundingSatoshis ∧ mine.iAmInitiator = true ∧
    recordAt w j offer.id = none

/-- The receiver of an ack still waits for it, and both sides are stored. -/
def Answered (nodes : ι → Node c) (w : Net ι c) (sender receiver : c.PeerId)
    (id : ChannelId) : Prop :=
  ∃ i j mine fundTx, sender = (nodes j).manager.id ∧ receiver = (nodes i).manager.id ∧
    recordAt w i id = some mine ∧ mine.state = .pending fundTx ∧ Both nodes w i j id

/-- What a message under way says about the two nodes. -/
def Truthful (nodes : ι → Node c) (w : Net ι c) (e : Envelope c.PeerId (Message c)) : Prop :=
  match e.message with
  | .rsEcdsaNewChannel offer => Offered nodes w e.sender e.receiver offer
  | .rsEcdsaAckNewChannel ack => Answered nodes w e.sender e.receiver ack.id

structure Joint (nodes : ι → Node c) (w : Net ι c) : Prop where
  wellFormed : ∀ i, (w.states i).WellFormed (nodes i).manager
  settled : ∀ i, (w.states i).Settled
  valued : ∀ i, (w.states i).Valued (nodes i).manager
  truthful : ∀ e ∈ w.net, Truthful nodes w e
  /-- At most one message about a channel is under way. -/
  apart : Distinct (fun e : Envelope c.PeerId (Message c) => e.message.id) w.net
  suspended : ∀ {i ready}, (w.states i).suspended = some (.ack ready) →
    (∀ e ∈ w.net, e.message.id ≠ ready.channel.id) ∧ ∃ j, Both nodes w i j ready.channel.id
  initiator : ∀ {i id mine}, recordAt w i id = some mine → mine.iAmInitiator = true →
    (∃ fundTx, mine.state = .pending fundTx) ∨ ∃ j, Both nodes w i j id
  responder : ∀ {j id theirs}, recordAt w j id = some theirs → theirs.iAmInitiator = false →
    ∃ i, Both nodes w i j id

/-- Every record is still there, for the same peer, with the same value and role. -/
def Retains (w w' : Net ι c) : Prop :=
  ∀ i id channel, recordAt w i id = some channel → ∃ channel',
    recordAt w' i id = some channel' ∧ channel'.peerId = channel.peerId ∧
    channel'.value = channel.value ∧ channel'.iAmInitiator = channel.iAmInitiator

theorem Retains.both (retains : Retains w w') {i j : ι} {id : ChannelId}
    (both : Both nodes w i j id) : Both nodes w' i j id := by
  obtain ⟨mine, theirs, stored, stored', sides⟩ := both
  obtain ⟨mine', there, peer, value, role⟩ := retains _ _ _ stored
  obtain ⟨theirs', there', peer', value', role'⟩ := retains _ _ _ stored'
  exact ⟨mine', theirs', there, there', {
    mine_peer := peer.trans sides.mine_peer
    theirs_peer := peer'.trans sides.theirs_peer
    value := value'.trans (sides.value.trans value.symm)
    initiator := role.trans sides.initiator
    responder := role'.trans sides.responder }⟩

/-- Whatever is under way is about a channel some node stores. -/
theorem Truthful.stored {e : Envelope c.PeerId (Message c)} (truthful : Truthful nodes w e) :
    ∃ i channel, recordAt w i e.message.id = some channel := by
  obtain ⟨sender, receiver, message⟩ := e
  cases message with
  | rsEcdsaNewChannel offer =>
      obtain ⟨i, _, mine, _, -, -, there, -⟩ := truthful
      exact ⟨i, mine, there⟩
  | rsEcdsaAckNewChannel ack =>
      obtain ⟨i, _, mine, _, -, -, there, -⟩ := truthful
      exact ⟨i, mine, there⟩

theorem Joint.start : Joint nodes ((network nodes).start) where
  wellFormed := fun _ => .init
  settled := fun _ => .init
  valued := fun _ => .init
  truthful := by simp [Protocol.start]
  apart := .nil
  suspended := by simp [Protocol.start, network, NodeState.init]
  initiator := by simp [recordAt, Protocol.start, network, NodeState.init, InMemory.getChannel]
  responder := by simp [recordAt, Protocol.start, network, NodeState.init, InMemory.getChannel]

/-- Fewer messages under way, and nothing else. -/
theorem Joint.drop (h : Joint nodes w) (k : Nat) :
    Joint nodes ⟨w.states, w.net.eraseIdx k⟩ where
  wellFormed := h.wellFormed
  settled := h.settled
  valued := h.valued
  truthful := fun e member => h.truthful e (List.mem_of_mem_eraseIdx member)
  apart := h.apart.eraseIdx k
  suspended := fun held =>
    ⟨fun e member => (h.suspended held).1 e (List.mem_of_mem_eraseIdx member),
      (h.suspended held).2⟩
  initiator := h.initiator
  responder := h.responder

/-- Node `i` takes a step. When the step handles a message, it has been taken out of what is
    under way; `rest` is what is left. -/
structure Acts (nodes : ι → Node c) (w : Net ι c) (i : ι) (a : Act c) (reply : Reply c)
    (s' : NodeState c) (rest : List (Envelope c.PeerId (Message c))) : Prop where
  took : Effect (nodes i) (w.states i) a reply s'
  under_way : ∀ e ∈ rest, e ∈ w.net
  apart : Distinct (fun e : Envelope c.PeerId (Message c) => e.message.id) rest
  received : ∀ {peer message entropy}, a = .receive peer message entropy →
    (∃ e ∈ w.net, e.sender = peer ∧ e.receiver = (nodes i).manager.id ∧ e.message = message) ∧
    ∀ e ∈ rest, e.message.id ≠ message.id
  peers : ∀ {value peer wallet}, a = .openChannel value peer wallet →
    ∃ j, j ≠ i ∧ peer = (nodes j).manager.id
  pays : ∀ {value peer wallet}, a = .openChannel value peer wallet → Wallet.Pays wallet
  fresh : ∀ {value peer wallet descriptor psbt id}, a = .openChannel value peer wallet →
    (nodes i).manager.fundingDescriptorFor peer true = some descriptor →
    wallet (c.scriptPubkey descriptor) value = .ok psbt →
    FundTx.channelId ⟨descriptor, psbt⟩ = some id → ∀ j, recordAt w j id = none

namespace Acts

variable {i : ι} {a : Act c} {reply : Reply c} {s' : NodeState c}
  {rest : List (Envelope c.PeerId (Message c))}

variable (h : Joint nodes w) (acts : Acts nodes w i a reply s' rest)
include acts

theorem funds : (nodes i).FundsFresh ⟨w.states i, (a, reply), s'⟩ := by
  intro value peer wallet reply' descriptor psbt id act made paid named
  exact acts.fresh (congrArg Prod.fst act) made paid named i

include h

/-- The receiver of an offer does not store its channel. -/
theorem not_collides (known : Function.Injective fun i => (nodes i).manager.id)
    (peer : c.PeerId) (channel : RsEcdsaNewChannel c) (stored : Channel c) :
    ¬ (nodes i).Collides ⟨w.states i, (a, reply), s'⟩ peer channel stored := by
  rintro ⟨⟨entropy, reply', act⟩, -, there⟩
  obtain ⟨⟨e, member, rfl, receiver, message⟩, -⟩ := acts.received (congrArg Prod.fst act)
  have offered := h.truthful e member
  simp only [Truthful, message] at offered
  obtain ⟨_, j, _, _, -, receiver', -, -, -, -, -, absent⟩ := offered
  obtain rfl : i = j := known (receiver.symm.trans receiver')
  cases absent.symm.trans there

theorem forward (known : Function.Injective fun i => (nodes i).manager.id) :
    s'.Settled ∧ Forward ⟨w.states i, (a, reply), s'⟩ :=
  (h.settled i).effect acts.took acts.funds (acts.not_collides h known)

/-- An ack that is handled finds both sides stored, and nothing is sent. -/
theorem acked (known : Function.Injective fun i => (nodes i).manager.id) {peer : c.PeerId}
    {ack : RsEcdsaAckNewChannel c} {entropy : c.Entropy}
    (act : a = .receive peer (.rsEcdsaAckNewChannel ack) entropy) :
    (∃ j, Both nodes w i j ack.id) ∧ Reply.sends reply = none := by
  constructor
  · obtain ⟨⟨e, member, -, receiver, message⟩, -⟩ := acts.received act
    have truthful := h.truthful e member
    simp only [Truthful, message] at truthful
    obtain ⟨k, j, _, _, -, receiver', -, -, both⟩ := truthful
    obtain rfl : i = k := known (receiver.symm.trans receiver')
    exact ⟨j, both⟩
  · cases sent : Reply.sends reply with
    | none => rfl
    | some pair =>
        obtain ⟨peer', message'⟩ := pair
        rcases acts.took.sends_cases sent with ⟨_, _, _, _, _, act', -⟩ | ⟨_, _, _, _, act', -⟩
        · cases act.symm.trans act'
        · cases act.symm.trans act'

end Acts

variable [DecidableEq ι]

/-- The network after the step. -/
def World.acted (nodes : ι → Node c) (w : Net ι c) (i : ι) (reply : Reply c)
    (s' : NodeState c) (rest : List (Envelope c.PeerId (Message c))) : Net ι c :=
  ⟨Function.update w.states i s', rest ++ (network nodes).posted i reply⟩

namespace Acts

variable {i : ι} {a : Act c} {reply : Reply c} {s' : NodeState c}
  {rest : List (Envelope c.PeerId (Message c))}

theorem recordAt_self {id : ChannelId} :
    recordAt (World.acted nodes w i reply s' rest) i id = s'.db.getChannel id := by
  simp only [recordAt, World.acted, Function.update_self]

theorem recordAt_of_ne {k : ι} (other : k ≠ i) {id : ChannelId} :
    recordAt (World.acted nodes w i reply s' rest) k id = recordAt w k id := by
  simp only [recordAt, World.acted, Function.update_of_ne other]

variable (h : Joint nodes w) (acts : Acts nodes w i a reply s' rest)
include h acts

theorem retains (known : Function.Injective fun i => (nodes i).manager.id) :
    Retains w (World.acted nodes w i reply s' rest) := by
  intro k id channel there
  by_cases self : k = i
  · subst self
    obtain ⟨channel', there', moved⟩ := (acts.forward h known).2 id channel there
    exact ⟨channel', recordAt_self.trans there', moved.peerId, moved.value, moved.iAmInitiator⟩
  · exact ⟨channel, (recordAt_of_ne self).trans there, rfl, rfl, rfl⟩

/-- A pending record does not change unless its ack waits to be stored. -/
theorem unanswered_kept (known : Function.Injective fun i => (nodes i).manager.id) {k : ι}
    {id : ChannelId} {mine : Channel c} {fundTx : FundTx c} (there : recordAt w k id = some mine)
    (pending : mine.state = .pending fundTx)
    (unanswered : ∀ ready, (w.states k).suspended = some (.ack ready) → ready.channel.id ≠ id) :
    recordAt (World.acted nodes w i reply s' rest) k id = some mine := by
  by_cases self : k = i
  · subst self
    rw [recordAt_self]
    exact acts.took.pending_kept (h.settled k) acts.funds (acts.not_collides h known) there
      pending unanswered
  · rw [recordAt_of_ne self, there]

/-- It does not while a message about the channel is under way. -/
theorem pending_kept (known : Function.Injective fun i => (nodes i).manager.id) {k : ι}
    {e : Envelope c.PeerId (Message c)} (member : e ∈ w.net) {mine : Channel c}
    {fundTx : FundTx c} (there : recordAt w k e.message.id = some mine)
    (pending : mine.state = .pending fundTx) :
    recordAt (World.acted nodes w i reply s' rest) k e.message.id = some mine := by
  apply acts.unanswered_kept h known there pending
  intro ready held same
  exact (h.suspended held).1 e member same.symm

/-- A record stored for an offer is one side of a channel whose other side is stored by the
    sender of the offer, who still waits for the answer. -/
theorem accepted (known : Function.Injective fun i => (nodes i).manager.id) {peer : c.PeerId}
    {offer : RsEcdsaNewChannel c} {entropy : c.Entropy}
    (act : a = .receive peer (.rsEcdsaNewChannel offer) entropy)
    (there : s'.db.getChannel offer.id = some (offer.waitingChannel peer).channel) :
    ∃ j mine fundTx, peer = (nodes j).manager.id ∧
      recordAt (World.acted nodes w i reply s' rest) j offer.id = some mine ∧
      mine.state = .pending fundTx ∧
      Both nodes (World.acted nodes w i reply s' rest) j i offer.id := by
  obtain ⟨⟨e, member, rfl, receiver, message⟩, -⟩ := acts.received act
  have offered := h.truthful e member
  simp only [Truthful, message] at offered
  obtain ⟨j, _, mine, fundTx, sender, _, stored, pending, minePeer, value, role, -⟩ := offered
  have named : e.message.id = offer.id := by rw [message]; rfl
  have kept := acts.pending_kept h known member (named ▸ stored) pending
  rw [named] at kept
  exact ⟨j, mine, fundTx, sender, kept, pending, mine, _, kept, recordAt_self.trans there, {
    mine_peer := minePeer.trans receiver
    theirs_peer := sender
    value := value.symm
    initiator := role
    responder := rfl }⟩

/-- A record that appears was opened here, or was offered by a node that stores its side. -/
theorem appeared (known : Function.Injective fun i => (nodes i).manager.id) {k : ι}
    {id : ChannelId} {channel : Channel c} (absent : recordAt w k id = none)
    (there : recordAt (World.acted nodes w i reply s' rest) k id = some channel) :
    (∀ j, recordAt w j id = none) ∧ (∃ fundTx, channel.state = .pending fundTx) ∧
        channel.iAmInitiator = true ∨
      (∀ e ∈ rest, e.message.id ≠ id) ∧ channel.iAmInitiator = false ∧
        ∃ j, Both nodes (World.acted nodes w i reply s' rest) j k id := by
  by_cases self : k = i
  · subst self
    rw [recordAt_self] at there
    rcases acts.took.appeared (h.settled k) absent there with
      ⟨value, peer, wallet, descriptor, psbt, act, made, paid, named, rfl⟩ |
      ⟨peer, offer, entropy, act, rfl, rfl⟩
    · exact .inl ⟨acts.fresh act made paid named, ⟨_, rfl⟩, rfl⟩
    · obtain ⟨j, _, _, -, -, -, both⟩ := acts.accepted h known act there
      exact .inr ⟨(acts.received act).2, rfl, j, both⟩
  · rw [recordAt_of_ne self, absent] at there
    cases there

/-- What the node sends is truthful, and about a channel no other message under way is
    about. -/
theorem posted (known : Function.Injective fun i => (nodes i).manager.id)
    {e : Envelope c.PeerId (Message c)} (sent : e ∈ (network nodes).posted i reply) :
    Truthful nodes (World.acted nodes w i reply s' rest) e ∧
      (∀ e' ∈ rest, e'.message.id ≠ e.message.id) ∧
      ((∀ j, recordAt w j e.message.id = none) ∨ ∃ e' ∈ w.net, e'.message.id = e.message.id) := by
  obtain ⟨sender, sent⟩ := (network nodes).mem_posted.mp sent
  rcases acts.took.sends_cases sent with
    ⟨value, wallet, descriptor, psbt, offer, act, made, paid, named, rfl, key, message, there⟩ |
    ⟨offer, entropy, secretKey, sighash, act, key, hash, message, there⟩
  · obtain ⟨j, other, receiver⟩ := acts.peers act
    have fresh := acts.fresh act made paid named
    have id : e.message.id = offer.id := by rw [message]; rfl
    refine ⟨?_, ?_, .inl (id ▸ fresh)⟩
    · simp only [Truthful, message]
      exact ⟨i, j, _, _, sender, receiver, recordAt_self.trans there, rfl, rfl, rfl, rfl,
        (recordAt_of_ne other).trans (fresh j)⟩
    · intro e' member same
      obtain ⟨k, channel, stored⟩ := (h.truthful e' (acts.under_way e' member)).stored
      rw [same, id, fresh k] at stored
      cases stored
  · obtain ⟨⟨e', member, -, -, message'⟩, gone⟩ := acts.received act
    have id : e.message.id = offer.id := by rw [message]; rfl
    have id' : e'.message.id = offer.id := by rw [message']; rfl
    refine ⟨?_, ?_, .inr ⟨e', member, id'.trans id.symm⟩⟩
    · obtain ⟨j, mine, fundTx, from', stored, pending, both⟩ := acts.accepted h known act there
      simp only [Truthful, message]
      exact ⟨j, i, mine, fundTx, sender, from', stored, pending, both⟩
    · intro e'' member'' same
      exact gone e'' member'' (same.trans id)

theorem truthful (known : Function.Injective fun i => (nodes i).manager.id)
    {e : Envelope c.PeerId (Message c)} (member : e ∈ rest) :
    Truthful nodes (World.acted nodes w i reply s' rest) e := by
  have before := acts.under_way e member
  have truthful := h.truthful e before
  obtain ⟨sender, receiver, message⟩ := e
  cases message with
  | rsEcdsaNewChannel offer =>
      obtain ⟨j, k, mine, fundTx, from', to', stored, pending, minePeer, value, role, absent⟩ :=
        truthful
      refine ⟨j, k, mine, fundTx, from', to', acts.pending_kept h known before stored pending,
        pending, minePeer, value, role, ?_⟩
      -- the channel neither was opened by another node nor offered twice
      cases there : recordAt (World.acted nodes w i reply s' rest) k offer.id with
      | none => rfl
      | some channel =>
          rcases acts.appeared h known absent there with ⟨fresh, -⟩ | ⟨gone, -⟩
          · cases stored.symm.trans (fresh j)
          · exact absurd rfl (gone _ member)
  | rsEcdsaAckNewChannel ack =>
      obtain ⟨j, k, mine, fundTx, from', to', stored, pending, both⟩ := truthful
      exact ⟨j, k, mine, fundTx, from', to', acts.pending_kept h known before stored pending,
        pending, (acts.retains h known).both both⟩

/-- An ack that waited for its insert keeps both sides, and stays the last word about them. -/
theorem waited (known : Function.Injective fun i => (nodes i).manager.id) {k : ι}
    {ready : ReadyChannel c} (before : (w.states k).suspended = some (.ack ready)) :
    (∀ e ∈ (World.acted nodes w i reply s' rest).net, e.message.id ≠ ready.channel.id) ∧
      ∃ j, Both nodes (World.acted nodes w i reply s' rest) k j ready.channel.id := by
  obtain ⟨last, j, both⟩ := h.suspended before
  refine ⟨?_, j, (acts.retains h known).both both⟩
  intro e member
  cases List.mem_append.mp member with
  | inl left => exact last e (acts.under_way e left)
  | inr sent =>
      rcases (acts.posted h known sent).2.2 with fresh | ⟨e', member', same⟩
      · obtain ⟨mine, _, stored, -⟩ := both
        intro same
        rw [← same, fresh k] at stored
        cases stored
      · exact same ▸ last e' member'

theorem suspended (known : Function.Injective fun i => (nodes i).manager.id) {k : ι}
    {ready : ReadyChannel c}
    (held : ((World.acted nodes w i reply s' rest).states k).suspended = some (.ack ready)) :
    (∀ e ∈ (World.acted nodes w i reply s' rest).net, e.message.id ≠ ready.channel.id) ∧
      ∃ j, Both nodes (World.acted nodes w i reply s' rest) k j ready.channel.id := by
  by_cases self : k = i
  · subst self
    simp only [World.acted, Function.update_self] at held
    rcases acts.took.suspended_cases (h.settled k) held with before |
      ⟨peer, ack, entropy, act, named⟩
    · exact acts.waited h known before
    · obtain ⟨⟨j, both⟩, silent⟩ := acts.acked h known act
      rw [← named] at both
      refine ⟨?_, j, (acts.retains h known).both both⟩
      intro e member
      cases List.mem_append.mp member with
      | inl left => exact named ▸ (acts.received act).2 e left
      | inr sent => cases silent.symm.trans ((network nodes).mem_posted.mp sent).2
  · simp only [World.acted, Function.update_of_ne self] at held
    exact acts.waited h known held

theorem role_kept (known : Function.Injective fun i => (nodes i).manager.id) {k : ι}
    {id : ChannelId} {before after : Channel c} (there : recordAt w k id = some before)
    (there' : recordAt (World.acted nodes w i reply s' rest) k id = some after) :
    after.iAmInitiator = before.iAmInitiator := by
  obtain ⟨kept, found, -, -, role⟩ := acts.retains h known _ _ _ there
  obtain rfl := Option.some.inj (found.symm.trans there')
  exact role

/-- One step of one node keeps the joint invariant. -/
theorem joint (known : Function.Injective fun i => (nodes i).manager.id) :
    Joint nodes (World.acted nodes w i reply s' rest) where
  wellFormed := (Function.forall_update_iff _ fun k => NodeState.WellFormed (nodes k).manager).mpr
    ⟨(h.wellFormed i).effect acts.took, fun k _ => h.wellFormed k⟩
  settled := (Function.forall_update_iff _ fun _ => NodeState.Settled).mpr
    ⟨(acts.forward h known).1, fun k _ => h.settled k⟩
  valued := (Function.forall_update_iff _ fun k => NodeState.Valued (nodes k).manager).mpr
    ⟨(h.valued i).effect (h.wellFormed i) acts.took acts.pays, fun k _ => h.valued k⟩
  truthful := by
    intro e member
    cases List.mem_append.mp member with
    | inl left => exact acts.truthful h known left
    | inr sent => exact (acts.posted h known sent).1
  apart := by
    have fresh := fun e (sent : e ∈ (network nodes).posted i reply) =>
      (acts.posted h known sent).2.1
    simp only [World.acted, Protocol.posted] at fresh ⊢
    cases sent : (network nodes).sends reply with
    | none => simpa [sent] using acts.apart
    | some pair =>
        simp only [sent, Option.toList_some, List.map_cons, List.map_nil] at fresh ⊢
        exact acts.apart.snoc (fresh _ List.mem_cons_self)
  suspended := acts.suspended h known
  initiator := by
    intro k id mine there role
    cases before : recordAt w k id with
    | none =>
        rcases acts.appeared h known before there with ⟨-, pending, -⟩ | ⟨-, role', -⟩
        · exact .inl pending
        · cases role.symm.trans role'
    | some mine' =>
        have role' := acts.role_kept h known before there
        rcases h.initiator before (role'.symm.trans role) with ⟨fundTx, pending⟩ | ⟨j, both⟩
        · by_cases answered : ∃ ready, (w.states k).suspended = some (.ack ready) ∧
              ready.channel.id = id
          · obtain ⟨ready, held, rfl⟩ := answered
            obtain ⟨-, j, both⟩ := h.suspended held
            exact .inr ⟨j, (acts.retains h known).both both⟩
          · have kept := acts.unanswered_kept h known before pending
              fun ready held same => answered ⟨ready, held, same⟩
            obtain rfl := Option.some.inj (there.symm.trans kept)
            exact .inl ⟨fundTx, pending⟩
        · exact .inr ⟨j, (acts.retains h known).both both⟩
  responder := by
    intro k id theirs there role
    cases before : recordAt w k id with
    | none =>
        rcases acts.appeared h known before there with ⟨-, -, role'⟩ | ⟨-, -, both⟩
        · cases role.symm.trans role'
        · exact both
    | some theirs' =>
        have role' := acts.role_kept h known before there
        obtain ⟨j, both⟩ := h.responder before (role'.symm.trans role)
        exact ⟨j, (acts.retains h known).both both⟩

end Acts

variable {m : Move ι c.Entropy (Act c)} {reply : Option (Reply c)}

/-- A move of an honest network is a step of one node, or loses a message. -/
theorem acts_of_moved (h : Joint nodes w) (honest : Honest nodes ⟨w, (m, reply), w'⟩)
    (moved : (network nodes).Moved w m reply w') :
    (∃ i a r s' rest, Acts nodes w i a r s' rest ∧
      (∀ {value peer wallet}, a = .openChannel value peer wallet →
        m = .act i (.openChannel value peer wallet)) ∧
      w' = World.acted nodes w i r s' rest) ∨
      ∃ k, w' = ⟨w.states, w.net.eraseIdx k⟩ := by
  cases moved with
  | @act i a r s' own stepped =>
      refine .inl ⟨i, a, r, s', w.net, ?_, congrArg _, rfl⟩
      exact {
        took := Node.step_effect stepped
        under_way := fun _ => id
        apart := h.apart
        received := by
          rintro peer message entropy rfl
          cases own
        peers := fun act => honest.peers (congrArg _ act)
        pays := fun act => honest.pays (congrArg _ act)
        fresh := fun act => honest.fresh (congrArg _ act) }
  | @deliver k i drawn e r s' found addressed stepped =>
      refine .inl ⟨i, .receive e.sender e.message drawn, r, s', w.net.eraseIdx k, ?_, by simp, rfl⟩
      exact {
        took := Node.step_effect stepped
        under_way := fun _ => List.mem_of_mem_eraseIdx
        apart := h.apart.eraseIdx k
        received := by
          rintro peer message entropy act
          cases act
          exact ⟨⟨e, List.mem_of_getElem? found, rfl, addressed, rfl⟩,
            fun e' member => h.apart.erased_ne found member⟩
        peers := by simp
        pays := by simp
        fresh := by simp }
  | drop => exact .inr ⟨_, rfl⟩

theorem Joint.move (h : Joint nodes w) (known : Function.Injective fun i => (nodes i).manager.id)
    (honest : Honest nodes ⟨w, (m, reply), w'⟩)
    (took : (network nodes).move w m = some (reply, w')) : Joint nodes w' := by
  rcases acts_of_moved h honest (Protocol.moved_of_move took) with
    ⟨i, a, r, s', rest, acts, -, rfl⟩ | ⟨k, rfl⟩
  · exact acts.joint h known
  · exact h.drop k

theorem Joint.run (known : Function.Injective fun i => (nodes i).manager.id) {ts w}
    (run : (network nodes).Runs ts w) (honest : ∀ t ∈ ts, Honest nodes t) : Joint nodes w :=
  Run.invariant Joint.start (fun _ _ _ before took met => before.move known met took) run honest

/-- One node opened the channel. -/
def Sole (w : Net ι c) (id : ChannelId) : Prop :=
  ∀ ⦃i i' mine mine'⦄, recordAt w i id = some mine → recordAt w i' id = some mine' →
    mine.iAmInitiator = true → mine'.iAmInitiator = true → i = i'

omit [DecidableEq ι] in
theorem Sole.start {id : ChannelId} : Sole ((network nodes).start) id := by
  simp [Sole, recordAt, Protocol.start, network, NodeState.init, InMemory.getChannel]

/-- What is opened was not there before. -/
theorem Sole.moved {id : ChannelId} (sole : Sole w id) (h : Joint nodes w)
    (known : Function.Injective fun i => (nodes i).manager.id)
    (honest : Honest nodes ⟨w, (m, reply), w'⟩) (moved : (network nodes).Moved w m reply w') :
    Sole w' id := by
  intro i i' mine mine' there there' role role'
  rcases acts_of_moved h honest moved with
    ⟨k, a, r, s', rest, acts, -, rfl⟩ | ⟨k, rfl⟩
  · have earlier : ∀ {j channel}, recordAt (World.acted nodes w k r s' rest) j id = some channel →
        channel.iAmInitiator = true → (j = k ∧ ∀ j, recordAt w j id = none) ∨
          ∃ before, recordAt w j id = some before ∧ before.iAmInitiator = true := by
      intro j channel found role
      cases before : recordAt w j id with
      | none =>
          rcases acts.appeared h known before found with ⟨fresh, -⟩ | ⟨-, other, -⟩
          · refine .inl ⟨?_, fresh⟩
            by_contra other
            rw [Acts.recordAt_of_ne other, before] at found
            cases found
          · cases role.symm.trans other
      | some channel' =>
          have same := acts.role_kept h known before found
          exact .inr ⟨channel', rfl, same.symm.trans role⟩
    rcases earlier there role with ⟨rfl, fresh⟩ | ⟨before, found, role⟩
    · rcases earlier there' role' with ⟨rfl, -⟩ | ⟨before, found, -⟩
      · rfl
      · cases (fresh _).symm.trans found
    · rcases earlier there' role' with ⟨-, fresh⟩ | ⟨before', found', role'⟩
      · cases (fresh _).symm.trans found
      · exact sole found found' role role'
  · exact sole there there' role role'

/-- The initiator has the signature of its peer. -/
def ChannelState.Signed : ChannelState c → Prop
  | .readyToFund .. | .live .. | .closed .. => True
  | _ => False

def ChannelState.Responding : ChannelState c → Prop
  | .waitingForFund | .funded _ => True
  | _ => False

/-- The commitment a record holds, or has closed with. -/
def Channel.CommitsTo (m : ChannelManager c) (channel : Channel c) (commit : CommitState) : Prop :=
  match channel.state with
  | .readyToFund _ commit' _ => commit' = commit
  | .live _ commit' _ => commit' = commit
  | .closed closeTx => ∃ commitSig entropy,
      m.closeTx channel.id channel.peerId 0 commit commitSig true entropy = some closeTx
  | _ => False

/-- The role of a record shows in its state. -/
theorem Channel.WellFormed.role {m : ChannelManager c} {answers : List (Txid × Transaction)}
    {channel : Channel c} (h : channel.WellFormed m answers) :
    channel.iAmInitiator = false ↔ channel.state.Responding := by
  cases state : channel.state with
  | pending =>
      simp only [WellFormed, state] at h
      simp [h.initiator, ChannelState.Responding]
  | readyToFund =>
      simp only [WellFormed, state] at h
      simp [h.initiator, ChannelState.Responding]
  | live =>
      obtain ⟨-, fundTx, committed⟩ := h.live_committed state
      simp [committed.initiator, ChannelState.Responding]
  | closed =>
      simp only [WellFormed, state] at h
      obtain ⟨fundTx, commit, commitSig, entropy, committed, -⟩ := h
      simp [committed.initiator, ChannelState.Responding]
  | waitingForFund =>
      simp only [WellFormed, state] at h
      simp [h, ChannelState.Responding]
  | funded =>
      simp only [WellFormed, state] at h
      simp [h.1, ChannelState.Responding]

theorem Channel.Valued.commitsTo {m : ChannelManager c} {channel : Channel c}
    (h : channel.Valued m) (signed : channel.state.Signed) :
    channel.CommitsTo m ⟨channel.value, 0⟩ := by
  cases state : channel.state with
  | readyToFund | live | closed => simpa only [Valued, CommitsTo, state] using h
  | pending | waitingForFund | funded => simp only [state, ChannelState.Signed] at signed

/-- Whatever the network does, a channel that its initiator has a signature for is stored by
    its peer with the value it commits to, and each channel a node waits for or has seen
    funded is stored by the peer that opened it. -/
theorem partiesAgree (known : Function.Injective fun i => (nodes i).manager.id) {ts w}
    (run : (network nodes).Runs ts w) (honest : ∀ t ∈ ts, Honest nodes t) (A B : ι)
    (id : ChannelId) :
    (∀ mine, recordAt w A id = some mine → mine.peerId = (nodes B).manager.id →
      mine.iAmInitiator = true → mine.state.Signed → ∃ theirs, recordAt w B id = some theirs ∧
        theirs.peerId = (nodes A).manager.id ∧ theirs.iAmInitiator = false ∧
        mine.CommitsTo (nodes A).manager ⟨theirs.value, 0⟩ ∧ theirs.state.Responding) ∧
    ∀ theirs, recordAt w B id = some theirs → theirs.peerId = (nodes A).manager.id →
      theirs.state.Responding → theirs.iAmInitiator = false ∧ ∃ mine,
        recordAt w A id = some mine ∧ mine.peerId = (nodes B).manager.id ∧
        mine.value = theirs.value ∧ mine.iAmInitiator = true := by
  have h := Joint.run known run honest
  constructor
  · intro mine there peer role signed
    rcases h.initiator there role with ⟨fundTx, pending⟩ |
      ⟨j, mine', theirs, stored, stored', sides⟩
    · simp only [pending, ChannelState.Signed] at signed
    · obtain rfl := Option.some.inj (stored.symm.trans there)
      obtain rfl : B = j := known (peer.symm.trans sides.mine_peer)
      have commits := ((h.valued A).stored there).commitsTo signed
      have good := ((h.wellFormed B).stored stored').2
      exact ⟨theirs, stored', sides.theirs_peer, sides.responder, sides.value ▸ commits,
        good.role.mp sides.responder⟩
  · intro theirs there peer responding
    have good := ((h.wellFormed B).stored there).2
    have role := good.role.mpr responding
    obtain ⟨i, mine, theirs', stored, stored', sides⟩ := h.responder there role
    obtain rfl := Option.some.inj (stored'.symm.trans there)
    obtain rfl : A = i := known (peer.symm.trans sides.theirs_peer)
    exact ⟨role, mine, stored, sides.mine_peer, sides.value.symm, sides.initiator⟩

section Small

/-- A wallet with one coin that pays with all of it. -/
def smallPayer : Wallet smallCrates := fun script value =>
  .ok (.ofUnsigned { smallFundingTx with output := [⟨value, script⟩] })

theorem smallPayer_pays : Wallet.Pays smallPayer where
  once := by
    intro script value psbt paid
    obtain rfl := Except.ok.inj paid
    simp [Psbt.ofUnsigned]
  numbered := by
    intro script value psbt paid
    obtain rfl := Except.ok.inj paid
    simp [Psbt.ofUnsigned]

/-- Alice and Bob. -/
def smallNodes : Bool → Node smallCrates
  | true => smallNode
  | false => ⟨smallBob, smallChain⟩

theorem smallNodes_known : Function.Injective fun i => (smallNodes i).manager.id := by
  have distinct : smallAlice.id ≠ smallBob.id := by decide +kernel
  intro i j same
  cases i <;> cases j
  · rfl
  · exact absurd same.symm distinct
  · exact absurd same distinct
  · rfl

/-- Alice offers, Bob accepts, and Alice stores his ack. -/
def smallHandshake : List (Move Bool smallCrates.Entropy (Act smallCrates)) :=
  [.act true (.openChannel 1256 smallBob.id smallPayer), .deliver 0 false (), .deliver 0 true (),
    .act true .resume]

theorem smallHandshake_steps : ∃ t₁ t₂ t₃ t₄ w mine,
    execReplies (network smallNodes).move (network smallNodes).start smallHandshake =
      some ([t₁, t₂, t₃, t₄], w) ∧
    t₁.pre = (network smallNodes).start ∧
    [t₁, t₂, t₃, t₄].map (fun t => t.act.1) = smallHandshake ∧
    recordAt w true ⟨7, 0⟩ = some mine ∧ mine.peerId = smallBob.id ∧
    mine.iAmInitiator = true ∧ mine.state.Signed :=
  ⟨_, _, _, _, _, _, rfl, rfl, rfl, rfl, rfl, rfl, trivial⟩

theorem smallHandshake_run : ∃ ts w mine, (network smallNodes).Runs ts w ∧
    (∀ t ∈ ts, Honest smallNodes t) ∧ ts.map (fun t => t.act.1) = smallHandshake ∧
    recordAt w true ⟨7, 0⟩ = some mine ∧ mine.peerId = smallBob.id ∧
    mine.iAmInitiator = true ∧ mine.state.Signed := by
  obtain ⟨t₁, t₂, t₃, t₄, w, mine, done, first, acts, there, peer, role, signed⟩ :=
    smallHandshake_steps
  refine ⟨_, w, mine, execReplies_run done, ?_, acts, there, peer, role, signed⟩
  simp only [smallHandshake, List.map_cons, List.map_nil, List.cons.injEq, and_true] at acts
  obtain ⟨act₁, act₂, act₃, act₄⟩ := acts
  have quiet : ∀ t : NetTransition Bool smallCrates,
      (∀ i value peer wallet, t.act.1 ≠ .act i (.openChannel value peer wallet)) →
        Honest smallNodes t := fun t other => {
    peers := fun act => absurd act (other _ _ _ _)
    pays := fun act => absurd act (other _ _ _ _)
    fresh := fun act => absurd act (other _ _ _ _) }
  simp only [List.forall_mem_cons, List.not_mem_nil, false_implies, implies_true, and_true]
  refine ⟨?_, quiet _ (by simp [act₂]), quiet _ (by simp [act₃]), quiet _ (by simp [act₄])⟩
  exact {
    peers := by
      intro i value peer wallet act
      cases act₁.symm.trans act
      exact ⟨false, by simp, rfl⟩
    pays := by
      intro i value peer wallet act
      cases act₁.symm.trans act
      exact smallPayer_pays
    fresh := by
      intro i value peer wallet descriptor psbt id act _ _ _ j
      rw [first]
      rfl }

theorem partiesAgree_small : ∃ ts w mine theirs, (network smallNodes).Runs ts w ∧
    recordAt w true ⟨7, 0⟩ = some mine ∧ recordAt w false ⟨7, 0⟩ = some theirs ∧
    mine.CommitsTo smallAlice ⟨theirs.value, 0⟩ ∧ theirs.state.Responding := by
  obtain ⟨ts, w, mine, run, honest, -, there, peer, role, signed⟩ := smallHandshake_run
  obtain ⟨theirs, stored, -, -, commits, responding⟩ :=
    (partiesAgree smallNodes_known run honest true false ⟨7, 0⟩).1 mine there peer role signed
  exact ⟨ts, w, mine, theirs, run, there, stored, commits, responding⟩

end Small

end Lindy
