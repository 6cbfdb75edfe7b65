import Lindy.Channel.Lifecycle
import Lindy.Machine.Network

/-! # Nodes that talk to each other

A collection of nodes as one protocol, and what is known of each of them while all are
honest: its records are well formed, its captures are still stored, and what it committed to
is the value of the channel.
-/

namespace Lindy

open Bitcoin Machine Op

variable {c : Crates}

/-- Nodes know each other by their keys, and whatever one sends another may receive. -/
def network {ι : Type*} (nodes : ι → Node c) :
    Protocol ι c.PeerId (Message c) c.Entropy (NodeState c) (Act c) (Reply c) where
  address := fun i => (nodes i).manager.id
  init := .init
  step := fun i => (nodes i).step
  own := fun
    | .receive .. => false
    | _ => true
  receive := .receive
  sends := Reply.sends

abbrev Net (ι : Type*) (c : Crates) := World ι c.PeerId (Message c) (NodeState c)

abbrev NetTransition (ι : Type*) (c : Crates) :=
  Transition (Net ι c) (Move ι c.Entropy (Act c) × Option (Reply c))

/-- What a node stores under an id. -/
def recordAt {ι : Type*} (w : Net ι c) (i : ι) (id : ChannelId) : Option (Channel c) :=
  (w.states i).db.getChannel id

/-- Channels are opened with other nodes of the collection, with wallets that pay what they
    are asked to and name no channel any node stores. -/
structure Honest {ι : Type*} (nodes : ι → Node c) (t : NetTransition ι c) : Prop where
  peers : ∀ {i value peer wallet}, t.act.1 = .act i (.openChannel value peer wallet) →
    ∃ j, j ≠ i ∧ peer = (nodes j).manager.id
  pays : ∀ {i value peer wallet}, t.act.1 = .act i (.openChannel value peer wallet) →
    Wallet.Pays wallet
  fresh : ∀ {i value peer wallet descriptor psbt id},
    t.act.1 = .act i (.openChannel value peer wallet) →
    (nodes i).manager.fundingDescriptorFor peer true = some descriptor →
    wallet (c.scriptPubkey descriptor) value = .ok psbt →
    FundTx.channelId ⟨descriptor, psbt⟩ = some id → ∀ j, recordAt t.pre j id = none

/-- What the state of a record commits to is its value, all of it party 1's. -/
def Channel.Valued (m : ChannelManager c) (channel : Channel c) : Prop :=
  match channel.state with
  | .pending fundTx => fundTx.outputValue = some channel.value
  | .readyToFund _ commit _ => commit = ⟨channel.value, 0⟩
  | .live _ commit _ => commit = ⟨channel.value, 0⟩
  | .closed closeTx => ∃ commitSig entropy, m.closeTx channel.id channel.peerId 0
      ⟨channel.value, 0⟩ commitSig true entropy = some closeTx
  | .waitingForFund | .funded _ => True

/-- This holds of every record a node holds. -/
abbrev NodeState.Valued (m : ChannelManager c) (s : NodeState c) : Prop :=
  s.Holds (fun _ channel => channel.Valued m) (fun task => task.channel.Valued m)
    (fun op => op.channel.Valued m)

/-- The first commitment gives party 1 what the funding output carries. -/
theorem NodeState.Valued.effect {n : Node c} {s s' : NodeState c} {a : Act c} {reply : Reply c}
    (h : s.Valued n.manager) (good : s.WellFormed n.manager) (took : Effect n s a reply s')
    (pays : ∀ {value peer wallet}, a = .openChannel value peer wallet → Wallet.Pays wallet) :
    s'.Valued n.manager := by
  cases took with
  | quiet => exact h
  | opened made paid named =>
      apply h.insert
      exact FundTx.outputValue_of_pays (pays rfl) paid
  | @accepted peer channel entropy secretKey sighash descriptor =>
      have good : (Task.waitingForFund (channel.waitingChannel peer) descriptor).channel.Valued
          n.manager := trivial
      exact (h.insert good).spawn good
  | @checked peer channel entropy stored fundTx p1 free there same pending valued verified =>
      have carried := h.stored there
      rw [Channel.Valued, pending] at carried
      obtain rfl := Option.some.inj (carried.symm.trans valued)
      exact h.suspend rfl
  | @closing id entropy stored index commit commitSig tx free there live made =>
      obtain ⟨rfl, wellFormed⟩ := good.stored there
      obtain ⟨rfl, fundTx, committed⟩ := wellFormed.live_committed live
      have carried := h.stored there
      rw [Channel.Valued, live] at carried
      subst carried
      rw [committed.initiator] at made
      exact h.suspend ⟨commitSig, entropy, made⟩
  | @acked ready held =>
      have carried : (Task.readyToFund ready).channel.Valued n.manager := h.suspended _ held
      exact ((h.insert carried).spawn carried).release
  | closed held => exact (h.insert (h.suspended _ held)).release
  | abandoned => exact h.release
  | @live i now ready tx waiting found matched =>
      have carried := h.tasks _ (List.mem_of_getElem? waiting)
      rw [Task.channel, Channel.Valued, ready.ready] at carried
      exact (h.answer _ _ _).insert carried
  | funded => exact (h.answer _ _ _).insert trivial
  | rejected => exact h.answer _ _ _

namespace Effect

variable {n : Node c} {s s' : NodeState c} {a : Act c} {reply : Reply c}

/-- A record appears when its channel is opened or accepted. -/
theorem appeared (took : Effect n s a reply s') (settled : s.Settled) {id : ChannelId}
    {channel : Channel c} (absent : s.db.getChannel id = none)
    (there : s'.db.getChannel id = some channel) :
    (∃ value peer wallet descriptor psbt, a = .openChannel value peer wallet ∧
      n.manager.fundingDescriptorFor peer true = some descriptor ∧
      wallet (c.scriptPubkey descriptor) value = .ok psbt ∧
      FundTx.channelId ⟨descriptor, psbt⟩ = some id ∧
      channel = FundTx.pendingChannel ⟨descriptor, psbt⟩ id peer value) ∨
    ∃ peer offer entropy, a = .receive peer (.rsEcdsaNewChannel offer) entropy ∧
      offer.id = id ∧ channel = (offer.waitingChannel peer).channel := by
  obtain ⟨tasks, suspended⟩ := settled.fresh absent
  have only : ∀ {inserted : Channel c},
      (s.db.insertChannel inserted).getChannel id = some channel →
        inserted.id = id ∧ channel = inserted := by
    intro inserted found
    rcases InMemory.getChannel_insertChannel_cases found with ⟨rfl, same⟩ | ⟨-, before⟩
    · exact ⟨rfl, same⟩
    · cases absent.symm.trans before
  cases took with
  | quiet | checked | closing | abandoned | rejected => cases absent.symm.trans there
  | opened made paid named =>
      obtain ⟨rfl, rfl⟩ := only there
      exact .inl ⟨_, _, _, _, _, rfl, made, paid, named, rfl⟩
  | accepted =>
      obtain ⟨rfl, rfl⟩ := only there
      exact .inr ⟨_, _, _, rfl, rfl, rfl⟩
  | acked held => exact absurd (only there).1 (suspended _ held)
  | closed held => exact absurd (only there).1 (suspended _ held)
  | live waiting => exact absurd (only there).1 (tasks _ (List.mem_of_getElem? waiting))
  | funded waiting => exact absurd (only there).1 (tasks _ (List.mem_of_getElem? waiting))

/-- A pending record stays as it is until its ack is stored. -/
theorem pending_kept (took : Effect n s a reply s') (settled : s.Settled)
    (funds : n.FundsFresh ⟨s, (a, reply), s'⟩)
    (apart : ∀ peer channel stored, ¬ n.Collides ⟨s, (a, reply), s'⟩ peer channel stored)
    {id : ChannelId} {channel : Channel c} {fundTx : FundTx c}
    (there : s.db.getChannel id = some channel) (pending : channel.state = .pending fundTx)
    (unanswered : ∀ ready, s.suspended = some (.ack ready) → ready.channel.id ≠ id) :
    s'.db.getChannel id = some channel := by
  have other : ∀ {inserted : Channel c}, inserted.id ≠ id →
      (s.db.insertChannel inserted).getChannel id = some channel := by
    intro inserted ne
    rw [InMemory.getChannel_insertChannel_of_ne _ ne.symm, there]
  cases took with
  | quiet | checked | closing | abandoned | rejected => exact there
  | opened made paid named =>
      apply other
      rintro rfl
      cases there.symm.trans (funds rfl made paid named)
  | accepted key hash =>
      apply other
      rintro rfl
      exact apart _ _ _ ⟨⟨_, _, rfl⟩, ⟨by simp [key], by simp [hash]⟩, there⟩
  | acked held => exact other (unanswered _ held)
  | closed held =>
      apply other
      rintro rfl
      obtain ⟨stored, _, _, _, stored_there, live, rfl⟩ := settled.close held
      obtain rfl := Option.some.inj (stored_there.symm.trans there)
      rw [pending] at live
      cases live
  | live waiting | funded waiting =>
      apply other
      intro same
      rcases settled.task_state (List.mem_of_getElem? waiting) (same ▸ there) with
        ⟨_, _, _, state⟩ | state <;>
        rw [pending] at state <;> cases state

/-- An ack waits for its insert because it was just received, or it waited before. -/
theorem suspended_cases (took : Effect n s a reply s') (settled : s.Settled)
    {ready : ReadyChannel c} (held : s'.suspended = some (.ack ready)) :
    s.suspended = some (.ack ready) ∨
      ∃ peer ack entropy, a = .receive peer (.rsEcdsaAckNewChannel ack) entropy ∧
        ready.channel.id = ack.id := by
  cases took with
  | checked _ there =>
      have named := settled.named there
      obtain rfl := Suspended.ack.inj (Option.some.inj held)
      exact .inr ⟨_, _, _, rfl, named⟩
  | closing | acked | closed | abandoned => cases held
  | _ => exact .inl held

/-- What is sent is the offer of a channel just opened or the ack of one just accepted. -/
theorem sends_cases (took : Effect n s a reply s') {peer : c.PeerId} {message : Message c}
    (sent : Reply.sends reply = some (peer, message)) :
    (∃ value wallet descriptor psbt offer, a = .openChannel value peer wallet ∧
      n.manager.fundingDescriptorFor peer true = some descriptor ∧
      wallet (c.scriptPubkey descriptor) value = .ok psbt ∧
      FundTx.channelId ⟨descriptor, psbt⟩ = some offer.id ∧ offer.fundingSatoshis = value ∧
      n.manager.myPublishingKeyFor 0 = some offer.publishingKey ∧
      message = .rsEcdsaNewChannel offer ∧
      s'.db.getChannel offer.id =
        some (FundTx.pendingChannel ⟨descriptor, psbt⟩ offer.id peer value)) ∨
    ∃ offer entropy secretKey sighash,
      a = .receive peer (.rsEcdsaNewChannel offer) entropy ∧
      n.manager.fundingSecretKeyFor peer false = some secretKey ∧
      n.manager.stateSighash offer.id 0 peer ⟨offer.fundingSatoshis, 0⟩ false = some sighash ∧
      message = .rsEcdsaAckNewChannel
        ⟨offer.id, c.encryptedSign secretKey offer.publishingKey sighash entropy⟩ ∧
      s'.db.getChannel offer.id = some (offer.waitingChannel peer).channel := by
  cases took with
  | quiet silent => cases silent.symm.trans sent
  | rejected _ _ silent => cases silent.symm.trans sent
  | opened made paid named replied =>
      cases reply with
      | error failure => cases sent
      | ok output =>
          obtain ⟨publishingKey, key, rfl⟩ := replied output rfl
          obtain ⟨rfl, rfl⟩ := Prod.mk.inj (Option.some.inj sent)
          exact .inl ⟨_, _, _, _, _, rfl, made, paid, named, rfl, key, rfl,
            InMemory.getChannel_insertChannel_self _ _⟩
  | accepted key hash made =>
      obtain ⟨rfl, rfl⟩ := Prod.mk.inj (Option.some.inj sent)
      exact .inr ⟨_, _, _, _, rfl, key, hash, rfl, InMemory.getChannel_insertChannel_self _ _⟩
  | _ => cases sent

end Effect

end Lindy
