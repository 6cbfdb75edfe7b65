import Lindy.Channel.Lifecycle

/-! # Peers are kept apart

A record has an owner, the peer it is shared with. What a message leads to, at once or when
its task ends, should write records of its sender only. `recv_new_channel_ack` asks
`get_channel_for_peer`; `recv_new_channel` asks nobody, so this rests on which ids are
offered.
-/

namespace Lindy

open Bitcoin Machine Op

variable {c : Crates}

namespace InMemory

/-- Whom the record stored under an id is shared with. -/
def owner (db : InMemory c) (id : ChannelId) : Option c.PeerId :=
  (db.getChannel id).map Channel.peerId

/-- Storing this record takes no id from another peer. -/
def Keeps (db : InMemory c) (channel : Channel c) : Prop :=
  ∀ peer, db.owner channel.id = some peer → peer = channel.peerId

variable {db : InMemory c} {channel : Channel c}

theorem owner_of_getChannel {id : ChannelId} (stored : db.getChannel id = some channel) :
    db.owner id = some channel.peerId := by
  rw [owner, stored]
  rfl

theorem Keeps.of_owner (owned : db.owner channel.id = some channel.peerId) :
    db.Keeps channel := by
  intro peer other
  exact Option.some.inj (other.symm.trans owned)

theorem owner_insertChannel_self :
    (db.insertChannel channel).owner channel.id = some channel.peerId := by
  rw [owner, getChannel_insertChannel_self]
  rfl

theorem Keeps.owner (keeps : db.Keeps channel) {id : ChannelId} {peer : c.PeerId}
    (owned : db.owner id = some peer) : (db.insertChannel channel).owner id = some peer := by
  by_cases same : id = channel.id
  · subst same
    rw [owner_insertChannel_self, keeps peer owned]
  · rw [InMemory.owner, getChannel_insertChannel_of_ne _ same]
    exact owned

/-- The records of the other peers stay as they are. -/
theorem Keeps.others (keeps : db.Keeps channel) {id : ChannelId} {other : Channel c}
    (stored : db.getChannel id = some other) (apart : other.peerId ≠ channel.peerId) :
    (db.insertChannel channel).getChannel id = some other := by
  rw [getChannel_insertChannel_of_ne, stored]
  rintro rfl
  exact apart (keeps _ (owner_of_getChannel stored))

end InMemory

/-- A step carries out what a message of this peer led to: the message itself, the insert of
    an ack, or a task. -/
inductive OnBehalf : NodeTransition c → c.PeerId → Prop where
  | message {s peer message entropy reply s'} :
      OnBehalf ⟨s, (.receive peer message entropy, reply), s'⟩ peer
  | ack {s ready reply s'} : s.suspended = some (.ack ready) →
      OnBehalf ⟨s, (.resume, reply), s'⟩ ready.channel.peerId
  | task {s i now task reply s'} : s.tasks[i]? = some task →
      OnBehalf ⟨s, (.poll i now, reply), s'⟩ task.channel.peerId

/-- Whoever the step is for, the records of all other peers are the same afterwards. -/
def Isolated (t : NodeTransition c) : Prop :=
  ∀ peer, OnBehalf t peer → ∀ id channel, t.pre.db.getChannel id = some channel →
    channel.peerId ≠ peer → t.post.db.getChannel id = some channel

/-- Whatever the step leaves to be carried out later is for the same peer. -/
def HandsOn (t : NodeTransition c) : Prop :=
  ∀ peer, OnBehalf t peer →
    (∀ task ∈ t.post.tasks, task ∈ t.pre.tasks ∨ task.channel.peerId = peer) ∧
    ∀ op, t.post.suspended = some op → t.pre.suspended = some op ∨ op.channel.peerId = peer

/-- No id that is stored for one peer is given to another, neither by an accepted offer nor
    by the funder. -/
structure Node.Respects (n : Node c) (t : NodeTransition c) : Prop where
  offers : ∀ {peer channel stored}, n.Collides t peer channel stored → stored.peerId = peer
  funds : ∀ {value peer wallet reply descriptor psbt id stored},
    t.act = (.openChannel value peer wallet, reply) →
    n.manager.fundingDescriptorFor peer true = some descriptor →
    wallet (c.scriptPubkey descriptor) value = .ok psbt →
    FundTx.channelId ⟨descriptor, psbt⟩ = some id →
    t.pre.db.getChannel id = some stored → stored.peerId = peer

/-- Whatever is to be written back is for the owner of the record it replaces. -/
abbrev NodeState.Owned (s : NodeState c) : Prop :=
  s.Holds (fun _ _ => True)
    (fun task => s.db.owner task.channel.id = some task.channel.peerId)
    (fun op => s.db.owner op.channel.id = some op.channel.peerId)

/-- Storing a record for its owner changes no owner. -/
theorem NodeState.Owned.insert {s : NodeState c} (h : s.Owned) {channel : Channel c}
    (keeps : s.db.Keeps channel) : { s with db := s.db.insertChannel channel }.Owned :=
  (h.mono (fun _ _ _ => trivial) (fun _ => keeps.owner) (fun _ => keeps.owner)).insert trivial

/-- A step that stores one record, for its owner, is isolated if it is for that owner. -/
theorem isolated_of_insert {s s' : NodeState c} {label : Act c × Reply c} {channel : Channel c}
    (inserted : s'.db = s.db.insertChannel channel) (keeps : s.db.Keeps channel)
    (behalf : ∀ peer, OnBehalf ⟨s, label, s'⟩ peer → peer = channel.peerId) :
    Isolated ⟨s, label, s'⟩ := by
  intro peer carried id other stored apart
  simp only [inserted]
  exact keeps.others stored (behalf peer carried ▸ apart)

theorem isolated_of_same {s s' : NodeState c} {label : Act c × Reply c} (same : s'.db = s.db) :
    Isolated ⟨s, label, s'⟩ := by
  intro peer _ id other stored _
  simpa only [same] using stored

section Behalf

variable {s s' : NodeState c} {reply : Reply c} {peer : c.PeerId}

theorem not_onBehalf_openChannel {value : UInt64} {peer' : c.PeerId} {wallet : Wallet c} :
    ¬ OnBehalf ⟨s, (.openChannel value peer' wallet, reply), s'⟩ peer := by
  rintro ⟨⟩

theorem onBehalf_receive {peer' : c.PeerId} {message : Message c} {entropy : c.Entropy}
    (carried : OnBehalf ⟨s, (.receive peer' message entropy, reply), s'⟩ peer) : peer = peer' := by
  cases carried with
  | message => rfl

/-- An insert is for the peer of the record that waited. -/
theorem onBehalf_resume {op : Suspended c} (held : s.suspended = some op)
    (carried : OnBehalf ⟨s, (.resume, reply), s'⟩ peer) : peer = op.channel.peerId := by
  cases carried with
  | ack held' =>
      obtain rfl := Option.some.inj (held.symm.trans held')
      rfl

theorem onBehalf_poll {i now : Nat} {task : Task c} (found : s.tasks[i]? = some task)
    (carried : OnBehalf ⟨s, (.poll i now, reply), s'⟩ peer) : peer = task.channel.peerId := by
  cases carried with
  | task found' =>
      obtain rfl := Option.some.inj (found.symm.trans found')
      rfl

end Behalf

theorem Node.Respects.opened {n : Node c} {t : NodeTransition c} (respects : n.Respects t)
    {value : UInt64} {peer : c.PeerId} {wallet : Wallet c} {reply : Reply c}
    {descriptor : c.Descriptor} {psbt : c.Psbt} {id : ChannelId}
    (act : t.act = (.openChannel value peer wallet, reply))
    (made : n.manager.fundingDescriptorFor peer true = some descriptor)
    (paid : wallet (c.scriptPubkey descriptor) value = .ok psbt)
    (named : FundTx.channelId ⟨descriptor, psbt⟩ = some id) :
    t.pre.db.Keeps (FundTx.pendingChannel ⟨descriptor, psbt⟩ id peer value) := by
  intro other owned
  obtain ⟨stored, there, rfl⟩ := Option.map_eq_some_iff.mp owned
  exact respects.funds act made paid named there

/-- What the offers say is just what `recv_new_channel` needs to keep the owners. -/
theorem keeps_waitingChannel_iff {n : Node c} {t : NodeTransition c} {peer : c.PeerId}
    {channel : RsEcdsaNewChannel c} {entropy : c.Entropy} {reply : Reply c}
    (act : t.act = (.receive peer (.rsEcdsaNewChannel channel) entropy, reply))
    (accepts : n.manager.Accepts peer channel) :
    t.pre.db.Keeps (channel.waitingChannel peer).channel ↔
      ∀ {peer' channel' stored}, n.Collides t peer' channel' stored → stored.peerId = peer' := by
  constructor
  · rintro keeps peer' channel' stored ⟨⟨entropy', reply', act'⟩, -, there⟩
    obtain ⟨⟨rfl, rfl⟩, -⟩ : (peer = peer' ∧ channel = channel') ∧ entropy = entropy' := by
      simpa [and_assoc] using (congrArg Prod.fst act).symm.trans (congrArg Prod.fst act')
    exact keeps _ (InMemory.owner_of_getChannel there)
  · intro offers other owned
    obtain ⟨stored, there, rfl⟩ := Option.map_eq_some_iff.mp owned
    exact offers ⟨⟨entropy, reply, act⟩, accepts, there⟩

/-- A step that respects the owners keeps them, and is isolated. -/
theorem NodeState.Owned.effect {n : Node c} {s s' : NodeState c} {a : Act c} {reply : Reply c}
    (h : s.Owned) (stored_named : ∀ {id channel}, s.db.getChannel id = some channel →
      channel.id = id)
    (took : Effect n s a reply s') (respects : n.Respects ⟨s, (a, reply), s'⟩) :
    s'.Owned ∧ Isolated ⟨s, (a, reply), s'⟩ := by
  cases took with
  | quiet => exact ⟨h, isolated_of_same rfl⟩
  | opened made paid named =>
      have keeps := respects.opened rfl made paid named
      exact ⟨insert h keeps, fun _ carried => absurd carried not_onBehalf_openChannel⟩
  | @accepted peer channel entropy secretKey sighash descriptor key hash made =>
      have accepts : n.manager.Accepts peer channel := ⟨by simp [key], by simp [hash]⟩
      have keeps := (keeps_waitingChannel_iff rfl accepts).mpr respects.offers
      refine ⟨(insert h keeps).spawn ?_, isolated_of_insert rfl keeps ?_⟩
      · exact InMemory.owner_insertChannel_self
      · exact fun _ carried => onBehalf_receive carried
  | @checked peer channel entropy stored fundTx p1 free there same pending valued verified =>
      have owned := InMemory.owner_of_getChannel there
      rw [← stored_named there] at owned
      exact ⟨h.suspend owned, isolated_of_same rfl⟩
  | @closing id entropy stored index commit commitSig tx free there live made =>
      have owned := InMemory.owner_of_getChannel there
      rw [← stored_named there] at owned
      exact ⟨h.suspend owned, isolated_of_same rfl⟩
  | @acked ready held =>
      have keeps := InMemory.Keeps.of_owner (h.suspended _ held)
      refine ⟨((insert h keeps).spawn ?_).release, isolated_of_insert rfl keeps ?_⟩
      · exact InMemory.owner_insertChannel_self
      · exact fun _ carried => onBehalf_resume held carried
  | closed held =>
      have keeps := InMemory.Keeps.of_owner (h.suspended _ held)
      refine ⟨(insert h keeps).release, isolated_of_insert rfl keeps ?_⟩
      exact fun _ carried => onBehalf_resume held carried
  | @live i now ready tx waiting found matched =>
      have keeps : s.db.Keeps ready.live :=
        .of_owner (h.tasks _ (List.mem_of_getElem? waiting))
      refine ⟨(insert h keeps).answer _ _ _, isolated_of_insert rfl keeps ?_⟩
      exact fun _ carried => onBehalf_poll waiting carried
  | @funded i now waiting descriptor tx there found paid =>
      have keeps : s.db.Keeps (waiting.funded tx) :=
        .of_owner (h.tasks _ (List.mem_of_getElem? there))
      refine ⟨(insert h keeps).answer _ _ _, isolated_of_insert rfl keeps ?_⟩
      exact fun _ carried => onBehalf_poll there carried
  | abandoned => exact ⟨h.release, isolated_of_same rfl⟩
  | rejected => exact ⟨h.answer _ _ _, isolated_of_same rfl⟩

/-- What a step leaves behind is for whom it was for; this needs no condition. -/
theorem handsOn_of_effect {n : Node c} {s s' : NodeState c} {a : Act c} {reply : Reply c}
    (took : Effect n s a reply s') : HandsOn ⟨s, (a, reply), s'⟩ := by
  intro peer carried
  cases took with
  | quiet => exact ⟨fun _ => .inl, fun _ => .inl⟩
  | opened => exact absurd carried not_onBehalf_openChannel
  | accepted =>
      obtain rfl := onBehalf_receive carried
      refine ⟨fun task member => ?_, fun _ => .inl⟩
      cases List.mem_append.mp member with
      | inl before => exact .inl before
      | inr last => exact .inr (List.mem_singleton.mp last ▸ rfl)
  | checked free there same =>
      obtain rfl := onBehalf_receive carried
      exact ⟨fun _ => .inl, fun op held => .inr (Option.some.inj held ▸ same)⟩
  | closing | abandoned => cases carried
  | acked held =>
      obtain rfl := onBehalf_resume held carried
      refine ⟨fun task member => ?_, by simp⟩
      cases List.mem_append.mp member with
      | inl before => exact .inl before
      | inr last => exact .inr (List.mem_singleton.mp last ▸ rfl)
  | closed => exact ⟨fun _ => .inl, by simp⟩
  | live | funded | rejected =>
      exact ⟨fun task member => .inl (List.mem_of_mem_eraseIdx member), fun _ => .inl⟩

/-- Handling a message leaves the other peers' records alone exactly if it is no accepted
    offer for one of them. -/
theorem isolated_receive_iff {n : Node c} {s s' : NodeState c} {peer : c.PeerId}
    {message : Message c} {entropy : c.Entropy} {reply : Reply c}
    (took : n.step s (.receive peer message entropy) = some (reply, s')) :
    Isolated ⟨s, (.receive peer message entropy, reply), s'⟩ ↔
      ∀ peer' channel stored,
        n.Collides ⟨s, (.receive peer message entropy, reply), s'⟩ peer' channel stored →
        stored.peerId = peer' := by
  constructor
  · intro isolated peer' channel stored collides
    by_contra apart
    obtain ⟨⟨entropy', reply', act⟩, -, there⟩ := id collides
    cases act
    have kept := isolated peer .message _ _ there apart
    obtain rfl := Option.some.inj ((collides.overwrites took).symm.trans kept)
    exact apart rfl
  · intro offers
    cases Node.step_effect took with
    | quiet => exact isolated_of_same rfl
    | checked => exact isolated_of_same rfl
    | accepted key hash made =>
        have keeps := (keeps_waitingChannel_iff (n := n)
          (t := ⟨s, (.receive peer (.rsEcdsaNewChannel _) entropy, _), _⟩) rfl
          ⟨by simp [key], by simp [hash]⟩).mpr (offers _ _ _)
        exact isolated_of_insert rfl keeps fun _ carried => onBehalf_receive carried

/-- A message is isolated exactly if it is no accepted offer for a record of another peer. In
    a run that respects the owners every step is isolated, and in any run what a message
    leaves to be done later is for its sender. -/
theorem peersIsolated {n : Node c} {ts s} (run : n.Runs ts s) :
    (∀ t ∈ ts, ∀ peer message entropy reply, t.act = (.receive peer message entropy, reply) →
      (Isolated t ↔ ∀ peer' channel stored, n.Collides t peer' channel stored →
        stored.peerId = peer')) ∧
    ((∀ t ∈ ts, n.Respects t) → ∀ t ∈ ts, Isolated t) ∧
    ∀ t ∈ ts, HandsOn t := by
  refine ⟨?_, ?_, ?_⟩
  · rintro ⟨s, label, s'⟩ member peer message entropy reply rfl
    exact isolated_receive_iff (run.taken member)
  · refine run.transitions (I := fun s => s.WellFormed n.manager ∧ s.Owned)
      ⟨.init, .init⟩ ?_
    rintro s ⟨a, reply⟩ s' ⟨good, owned⟩ took respects
    have effect := Node.step_effect took
    obtain ⟨owned', isolated⟩ := owned.effect (fun there => (good.stored there).1) effect respects
    exact ⟨⟨good.effect effect, owned'⟩, isolated⟩
  · rintro ⟨s, ⟨a, reply⟩, s'⟩ member
    exact handsOn_of_effect (Node.step_effect (run.taken member))

section Small

theorem peersIsolated_opening : ∃ ts s, smallNode.Runs ts s ∧ ts.length = 4 ∧
    ∀ t ∈ ts, Isolated t := by
  obtain ⟨ts, s, stored, run, funds, apart, length, -⟩ := smallOpening_run
  refine ⟨ts, s, run, length, (peersIsolated run).2.1 fun t member => ?_⟩
  exact {
    offers := fun collides => absurd collides (apart t member _ _ _)
    funds := fun act made paid named there => by
      rw [funds t member act made paid named] at there
      cases there }

/-- The message of a third party resets the channel of another peer. -/
theorem otherChannelReset : ¬ ∀ ts s, smallNode.Runs ts s → ∀ t ∈ ts, Isolated t := by
  intro all
  obtain ⟨ts, s, t, stored, run, -, member, act, collides, distinct⟩ := smallRival_run
  obtain ⟨s, label, s'⟩ := t
  obtain ⟨a, reply⟩ := label
  cases act
  exact distinct ((isolated_receive_iff (run.taken member)).mp (all ts _ run _ member) _ _ _
    collides)

end Small

end Lindy
