import Lindy.Channel.Agreement
import Lindy.Channel.Amounts

/-! # Honest handshakes complete

The responder signs what the offer says and the initiator verifies what it stored. Both
compute the same sighash for the same keys, so an offer that is handled is answered, and an
ack that is handled finds its channel pending and its signature valid.
-/

namespace Lindy

open Bitcoin Machine Op

variable {c : Crates}

namespace ChannelManager

/-- A funding secret belongs to the funding point of its role. -/
theorem fundingSecretKeyFor_eq_some {m : ChannelManager c} {peer : c.PeerId} {role : Bool}
    {secretKey : c.Scalar} (key : m.fundingSecretKeyFor peer role = some secretKey) :
    secretKey ≠ 0 ∧ ∃ r₁ P₁ r₂ P₂,
      (m.pointRandomizer peer role).pointsAt .funding = some ((r₁, P₁), (r₂, P₂)) ∧
      secretKey • c.G = if role then P₁ else P₂ := by
  have computed := key
  simp only [fundingSecretKeyFor, Option.bind_eq_bind, Option.bind_eq_some_iff,
    markNonZero_eq_some] at computed
  obtain ⟨⟨⟨r₁, P₁⟩, ⟨r₂, P₂⟩⟩, points, nonzero, rfl⟩ := computed
  obtain ⟨secretKey, key', point⟩ := fundingSecretKeyFor_point points
  obtain rfl := Option.some.inj (key'.symm.trans key)
  exact ⟨nonzero, r₁, P₁, r₂, P₂, points, point⟩

variable {A B : ChannelManager c}

/-- What the responder signs for the initiator's publishing key the initiator accepts. -/
theorem ackVerifies_of_signed (accepts : c.AcceptsSigned) {id : ChannelId}
    {commit : CommitState} {secretKey : c.Scalar} {sighash : Bytes} {publishingKey : c.Point}
    {entropy : c.Entropy}
    (key : B.fundingSecretKeyFor A.id false = some secretKey)
    (hash : B.stateSighash id 0 A.id commit false = some sighash)
    (published : A.myPublishingKeyFor 0 = some publishingKey) :
    A.AckVerifies B.id id commit
      (c.encryptedSign secretKey publishingKey sighash entropy) := by
  obtain ⟨nonzero, r₁, P₁, r₂, P₂, points, point⟩ := fundingSecretKeyFor_eq_some key
  have computed := published
  simp only [myPublishingKeyFor, myPublishingSecretKey, Option.bind_eq_bind,
    Option.bind_eq_some_iff, markNonZero_eq_some, Option.some.injEq] at computed
  obtain ⟨y, ⟨nonzero', rfl⟩, rfl⟩ := computed
  refine ⟨r₁, P₁, r₂, P₂, sighash, _, ?_, ?_, published, ?_⟩
  · rw [A.pointRandomizer_agree B true]
    exact points
  · rw [A.stateSighash_agree B true]
    exact hash
  · obtain rfl : secretKey • c.G = P₂ := point
    exact accepts _ _ _ _ nonzero nonzero'

/-- The responder can sign an offer of at least the fee. -/
theorem signs_of_offer {descriptor : c.Descriptor} {descriptors : c.Descriptor × c.Descriptor}
    (funding : A.fundingDescriptorFor B.id true = some descriptor)
    (balance : A.balanceDescriptors B.id true = some descriptors) {value : UInt64}
    (fee : 1000 ≤ value) (id : ChannelId) :
    (∃ secretKey, B.fundingSecretKeyFor A.id false = some secretKey) ∧
      ∃ sighash, B.stateSighash id 0 A.id ⟨value, 0⟩ false = some sighash := by
  have funding' : B.fundingDescriptorFor A.id false = some descriptor :=
    (A.fundingDescriptorFor_agree B true).symm.trans funding
  have balance' : B.balanceDescriptors A.id false = some descriptors :=
    (A.balanceDescriptors_agree B true).symm.trans balance
  constructor
  · obtain ⟨_, _, _, keys, -⟩ := fundingDescriptorFor_eq_some.mp funding'
    obtain ⟨r₁, P₁, r₂, P₂, points, -⟩ := fundingPublicKeys_eq_some.mp keys
    obtain ⟨secretKey, key, -⟩ := fundingSecretKeyFor_point points
    exact ⟨secretKey, key⟩
  · refine stateSighash_of_stateTx (stateTx_of_fee balance' fee) funding'
      (Crates.addU64_of_lt ?_)
    exact value.toNat_lt

end ChannelManager

variable {ι : Type*} {nodes : ι → Node c} {w w' : Net ι c}

/-- No scalar or point of a balance between two of the nodes comes out zero; `points_at`
    unwraps on that. -/
def BalancePoints (nodes : ι → Node c) : Prop :=
  ∀ i j, i ≠ j →
    (((nodes i).manager.pointRandomizer (nodes j).manager.id true).pointsAt .balance).isSome

theorem BalancePoints.descriptors (balance : BalancePoints nodes) {i j : ι} (apart : i ≠ j) :
    ∃ descriptors, (nodes i).manager.balanceDescriptors (nodes j).manager.id true =
      some descriptors := by
  obtain ⟨⟨⟨r₁, P₁⟩, ⟨r₂, P₂⟩⟩, points⟩ := Option.isSome_iff_exists.mp (balance i j apart)
  exact ⟨_, ChannelManager.balanceDescriptors_eq_some.mpr ⟨_, _, _, _, points, rfl⟩⟩

/-- A delivered offer is answered with an ack to its sender. -/
def OfferAnswered (t : NetTransition ι c) : Prop :=
  ∀ k i drawn e offer, t.act.1 = .deliver k i drawn → t.pre.net[k]? = some e →
    e.message = .rsEcdsaNewChannel offer → ∃ commitSig,
      t.act.2 = some (.ok (.send e.sender (.rsEcdsaAckNewChannel ⟨offer.id, commitSig⟩)))

/-- A delivered ack finds its channel pending with its sender, and is fit to make it ready to
    fund: `recv_new_channel_ack` as a whole would return `Ok`, and the insert waits. -/
def AckAccepted (nodes : ι → Node c) (t : NetTransition ι c) : Prop :=
  ∀ k i drawn e ack, t.act.1 = .deliver k i drawn → t.pre.net[k]? = some e →
    e.message = .rsEcdsaAckNewChannel ack → ∃ mine fundTx ready,
      recordAt t.pre i ack.id = some mine ∧ mine.peerId = e.sender ∧
      mine.state = .pending fundTx ∧
      ready = mine.readied fundTx ⟨mine.value, 0⟩ ack.commitSig ∧
      (nodes i).manager.recvNewChannelAck e.sender ack (t.pre.states i) =
        .ok () { t.pre.states i with
          db := (t.pre.states i).db.insertChannel ready.channel
          tasks := (t.pre.states i).tasks ++ [.readyToFund ready] } ∧
      t.act.2 = some (.ok .storing) ∧ (t.post.states i).suspended = some (.ack ready)

/-- The insert of an ack returns `Ok`, and moves precisely its channel from pending to ready
    to fund, with all of its value on the side of party 1. -/
def AckStored (t : NetTransition ι c) : Prop :=
  ∀ i ready, t.act.1 = .act i .resume → (t.pre.states i).suspended = some (.ack ready) →
    t.act.2 = some (.ok .acked) ∧
    (∃ mine fundTx commitSig, recordAt t.pre i ready.channel.id = some mine ∧
      mine.state = .pending fundTx ∧ ready = mine.readied fundTx ⟨mine.value, 0⟩ commitSig) ∧
    recordAt t.post i ready.channel.id = some ready.channel ∧
    ∀ j id, j ≠ i ∨ id ≠ ready.channel.id → recordAt t.post j id = recordAt t.pre j id

/-- What a message under way carries lets its receiver handle it. -/
def Carries (nodes : ι → Node c) (w : Net ι c) (e : Envelope c.PeerId (Message c)) : Prop :=
  match e.message with
  | .rsEcdsaNewChannel offer => ∀ i, e.sender = (nodes i).manager.id →
      (∃ descriptor, (nodes i).manager.fundingDescriptorFor e.receiver true = some descriptor) ∧
      (nodes i).manager.myPublishingKeyFor 0 = some offer.publishingKey ∧
      1000 ≤ offer.fundingSatoshis
  | .rsEcdsaAckNewChannel ack => ∀ i mine, e.receiver = (nodes i).manager.id →
      recordAt w i ack.id = some mine →
      (nodes i).manager.AckVerifies e.sender ack.id ⟨mine.value, 0⟩ ack.commitSig

section Step

variable [DecidableEq ι] {i : ι} {a : Act c} {reply : Reply c} {s' : NodeState c}
  {rest : List (Envelope c.PeerId (Message c))} (h : Joint nodes w)
  (acts : Acts nodes w i a reply s' rest)
  (known : Function.Injective fun i => (nodes i).manager.id)
include h acts known

/-- A message that stays under way carries what it carried. -/
theorem Acts.carries {e : Envelope c.PeerId (Message c)} (member : e ∈ rest)
    (carries : Carries nodes w e) : Carries nodes (World.acted nodes w i reply s' rest) e := by
  have truthful := h.truthful e (acts.under_way e member)
  obtain ⟨sender, receiver, message⟩ := e
  cases message with
  | rsEcdsaNewChannel offer => exact carries
  | rsEcdsaAckNewChannel ack =>
      intro k mine' addressed there
      obtain ⟨j, _, mine, _, -, addressed', stored, -⟩ := truthful
      obtain rfl : k = j := known (addressed.symm.trans addressed')
      obtain ⟨mine'', there', -, value, -⟩ := acts.retains h known _ _ _ stored
      obtain rfl := Option.some.inj (there'.symm.trans there)
      have verifies := carries k mine addressed stored
      rwa [← value] at verifies

/-- So does a message that was just sent. -/
theorem Acts.posted_carries (accepts : c.AcceptsSigned)
    (worth : ∀ {value peer wallet}, a = .openChannel value peer wallet → 1000 ≤ value)
    (before : ∀ e ∈ w.net, Carries nodes w e) {e : Envelope c.PeerId (Message c)}
    (sent : e ∈ (network nodes).posted i reply) :
    Carries nodes (World.acted nodes w i reply s' rest) e := by
  obtain ⟨sender, sent⟩ := (network nodes).mem_posted.mp sent
  rcases acts.took.sends_cases sent with
    ⟨value, wallet, descriptor, psbt, offer, act, made, -, -, rfl, key, message, -⟩ |
    ⟨offer, entropy, secretKey, sighash, act, key, hash, message, there⟩
  · simp only [Carries, message]
    intro k from'
    obtain rfl : i = k := known (sender.symm.trans from')
    exact ⟨⟨descriptor, made⟩, key, worth act⟩
  · obtain ⟨⟨e', member, from', -, message'⟩, -⟩ := acts.received act
    obtain ⟨j, mine, _, peer, stored, -, mine', theirs, stored', stored'', sides⟩ :=
      acts.accepted h known act there
    obtain rfl := Option.some.inj (stored'.symm.trans stored)
    obtain rfl := Option.some.inj (stored''.symm.trans (Acts.recordAt_self.trans there))
    have carries := before e' member
    simp only [Carries, message'] at carries
    obtain ⟨-, published, -⟩ := carries j (from'.trans peer)
    simp only [Carries, message]
    intro k mine addressed there'
    obtain rfl : j = k := known (peer.symm.trans addressed)
    obtain rfl := Option.some.inj (there'.symm.trans stored)
    have value : offer.fundingSatoshis = mine.value := sides.value
    rw [peer] at key hash
    rw [sender, ← value]
    exact ChannelManager.ackVerifies_of_signed accepts key hash published

end Step

section Moves

variable [DecidableEq ι] {m : Move ι c.Entropy (Act c)} {reply : Option (Reply c)}
  (h : Joint nodes w) (moved : (network nodes).Moved w m reply w')
include h moved

theorem ackStored : AckStored ⟨w, (m, reply), w'⟩ := by
  intro i ready act held
  cases moved with
  | deliver => cases act
  | drop => cases act
  | @act i' a' r s' own stepped =>
      obtain ⟨rfl, rfl⟩ := Move.act.inj act
      have held : (w.states i').suspended = some (.ack ready) := held
      have stepped' : (nodes i').step (w.states i') .resume = some (r, s') := stepped
      have ended := (Node.step_eq_some.mp stepped').2
      rw [Node.outcome_of_ok (Effect.perform_resume_ack held)] at ended
      obtain ⟨rfl, rfl⟩ := Prod.mk.inj ended
      obtain ⟨stored, there, pending, readied⟩ := (h.settled i').ack held
      have carried : ready.commit = ⟨ready.channel.value, 0⟩ := by
        have valued := (h.valued i').suspended _ held
        simpa only [Suspended.channel, Channel.Valued, ready.ready] using valued
      have value : ready.channel.value = stored.value := by rw [readied]; rfl
      have id : ready.channel.id = stored.id := by rw [readied]; rfl
      rw [value] at carried
      rw [carried] at readied
      refine ⟨rfl, ⟨stored, ready.fundTx, ready.commitSig, id ▸ there, pending, readied⟩, ?_, ?_⟩
      · simp only [recordAt, Function.update_self]
        exact InMemory.getChannel_insertChannel_self _ _
      · intro j id' other
        by_cases self : j = i'
        · subst self
          simp only [recordAt, Function.update_self]
          exact InMemory.getChannel_insertChannel_of_ne _ (other.resolve_left (by simp))
        · simp only [recordAt, Function.update_of_ne self]

variable (known : Function.Injective fun i => (nodes i).manager.id)
  (before : ∀ e ∈ w.net, Carries nodes w e)
include known before

theorem offerAnswered (balance : BalancePoints nodes) :
    OfferAnswered ⟨w, (m, reply), w'⟩ := by
  intro k i drawn e offer act found message
  obtain rfl : m = .deliver k i drawn := act
  obtain ⟨r, s', rfl, addressed, stepped, rfl⟩ := moved.delivered found
  have member := List.mem_of_getElem? found
  have truthful := h.truthful e member
  have carries := before e member
  simp only [Truthful, Carries, message] at truthful carries
  obtain ⟨j, l, mine, fundTx, from', addressed', stored, -, peer, -, -, absent⟩ := truthful
  obtain ⟨⟨descriptor, funding⟩, -, fee⟩ := carries j from'
  obtain rfl : i = l := known (addressed.symm.trans addressed')
  have apart : j ≠ i := by
    rintro rfl
    cases stored.symm.trans absent
  obtain ⟨descriptors, balances⟩ := balance.descriptors apart
  rw [addressed'] at funding
  obtain ⟨⟨secretKey, key⟩, sighash, hash⟩ :=
    ChannelManager.signs_of_offer funding balances fee offer.id
  have stepped' : (nodes i).step (w.states i)
      (.receive (nodes j).manager.id (.rsEcdsaNewChannel offer) drawn) = some (r, s') := by
    rw [← from', ← message]
    exact stepped
  obtain ⟨_, -, done⟩ := (nodes i).manager.recvNewChannel_ok key hash drawn (w.states i)
  have ended := (Node.step_eq_some.mp stepped').2
  rw [Node.outcome_of_ok (bind_of_ok done)] at ended
  obtain ⟨rfl, -⟩ := Prod.mk.inj ended
  rw [from']
  exact ⟨_, rfl⟩

theorem ackAccepted : AckAccepted nodes ⟨w, (m, reply), w'⟩ := by
  intro k i drawn e ack act found message
  obtain rfl : m = .deliver k i drawn := act
  obtain ⟨r, s', rfl, addressed, stepped, rfl⟩ := moved.delivered found
  have member := List.mem_of_getElem? found
  have truthful := h.truthful e member
  have carries := before e member
  simp only [Truthful, Carries, message] at truthful carries
  obtain ⟨l, j, mine, fundTx, from', addressed', stored, pending, mine', _, stored', -,
    sides⟩ := truthful
  obtain rfl : i = l := known (addressed.symm.trans addressed')
  obtain rfl := Option.some.inj (stored'.symm.trans stored)
  have peer : mine'.peerId = e.sender := sides.mine_peer.trans from'.symm
  have valued := (h.valued i).stored stored
  rw [Channel.Valued, pending] at valued
  have done := (nodes i).manager.checkAck_eq_ok.mpr ⟨rfl, mine', fundTx, mine'.value, stored,
    peer, pending, valued, carries i mine' addressed stored, rfl⟩
  refine ⟨mine', fundTx, _, stored, peer, pending, rfl, ?_, ?_⟩
  · exact (bind_of_ok done).trans ((nodes i).manager.storeReady_apply _ _)
  · have ended := (Node.step_eq_some.mp stepped).2
    simp only [network, message] at ended
    rw [Node.outcome_of_ok (bind_of_ok done)] at ended
    obtain ⟨rfl, rfl⟩ := Prod.mk.inj ended
    refine ⟨rfl, ?_⟩
    simp only [Function.update_self]

end Moves

/-- A move of an honest network keeps what its messages carry. -/
theorem carries_of_moved [DecidableEq ι] {m : Move ι c.Entropy (Act c)}
    {reply : Option (Reply c)} (accepts : c.AcceptsSigned)
    (known : Function.Injective fun i => (nodes i).manager.id) (h : Joint nodes w)
    (before : ∀ e ∈ w.net, Carries nodes w e) (honest : Honest nodes ⟨w, (m, reply), w'⟩)
    (worth : ∀ i value peer wallet, m = .act i (.openChannel value peer wallet) → 1000 ≤ value)
    (moved : (network nodes).Moved w m reply w') : ∀ e ∈ w'.net, Carries nodes w' e := by
  rcases acts_of_moved h honest moved with ⟨i, a, r, s', rest, acts, opens, rfl⟩ | ⟨k, rfl⟩
  · intro e member
    rcases List.mem_append.mp member with left | sent
    · exact acts.carries h known left (before e (acts.under_way e left))
    · exact acts.posted_carries h known accepts (fun act => worth _ _ _ _ (opens act)) before sent
  · exact fun e member => before e (List.mem_of_mem_eraseIdx member)

/-- In every run of an honest network whose channels are worth at least the fee, each offer
    that is handled is answered, and each ack that is handled makes precisely its channel
    ready to fund. -/
theorem handshakesComplete [DecidableEq ι] (accepts : c.AcceptsSigned)
    (known : Function.Injective fun i => (nodes i).manager.id) (balance : BalancePoints nodes)
    {ts w} (run : (network nodes).Runs ts w) (honest : ∀ t ∈ ts, Honest nodes t)
    (worth : ∀ t ∈ ts, ∀ i value peer wallet,
      t.act.1 = .act i (.openChannel value peer wallet) → 1000 ≤ value) :
    ∀ t ∈ ts, OfferAnswered t ∧ AckAccepted nodes t ∧ AckStored t := by
  refine run.transitions (I := fun w => Joint nodes w ∧ ∀ e ∈ w.net, Carries nodes w e)
    ⟨Joint.start, by simp [Protocol.start]⟩ ?_
    (fun t member => (⟨honest t member, worth t member⟩ : Honest nodes t ∧
      ∀ i value peer wallet, t.act.1 = .act i (.openChannel value peer wallet) → 1000 ≤ value))
  rintro w ⟨m, reply⟩ w' ⟨h, before⟩ took ⟨met, fee⟩
  have moved := Protocol.moved_of_move took
  exact ⟨⟨h.move known met took, carries_of_moved accepts known h before met fee moved⟩,
    offerAnswered h moved known before balance, ackAccepted h moved known before,
    ackStored h moved⟩

section Small

theorem smallNodes_balance : BalancePoints smallNodes := by
  intro i j apart
  cases i <;> cases j
  · exact absurd rfl apart
  · decide +kernel
  · decide +kernel
  · exact absurd rfl apart

/-- The offer, the ack and the insert of the small handshake. -/
theorem handshakesComplete_small : ∃ ts w, (network smallNodes).Runs ts w ∧
    ts.map (fun t => t.act.1) = smallHandshake ∧
    ∀ t ∈ ts, OfferAnswered t ∧ AckAccepted smallNodes t ∧ AckStored t := by
  obtain ⟨ts, w, mine, run, honest, acts, -⟩ := smallHandshake_run
  refine ⟨ts, w, run, acts, handshakesComplete smallCrates_adaptor.accepts smallNodes_known
    smallNodes_balance run honest ?_⟩
  intro t member i value peer wallet act
  have listed : t.act.1 ∈ smallHandshake := acts ▸ List.mem_map_of_mem member
  rw [act] at listed
  cases List.mem_cons.mp listed with
  | inl opened =>
      cases opened
      decide
  | inr listed =>
      rcases List.mem_cons.mp listed with other | listed
      · cases other
      · rcases List.mem_cons.mp listed with other | listed
        · cases other
        · cases List.mem_singleton.mp listed

end Small

end Lindy
