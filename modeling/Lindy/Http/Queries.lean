import Lindy.Http.Reply
import Lindy.Channel.Lifecycle

/-! # `GET /channels` and `GET /channels/..`

The two queries go past the lock of the channel manager and straight to its database, so they
are answered in the middle of any operation. What they answer is still exact: a channel is
listed once it was opened or accepted, and a client that was told something finds it there
whenever it asks again.
-/

namespace Lindy.Http

open Bitcoin Machine Op

variable {c : Crates}

/-- What the queries ask of a `ChannelDb`. -/
structure ChannelDb (c : Crates) where
  getChannel : ChannelId → Except String (Option (Channel c))
  listChannels : Except String (List (Channel c))

structure GetChannel (c : Crates) where
  channel : Channel c

structure GetChannels where
  channels : List ChannelId
  deriving DecidableEq

def channelInfo (channelDb : ChannelDb c) (channelId : ChannelId) : ApiReply (GetChannel c) :=
  match channelDb.getChannel channelId with
  | .ok (some channel) => .ok ⟨channel⟩
  | .ok none => .err .notFound
  | .error _ => .err .internalServerError

def listChannels (channelDb : ChannelDb c) : ApiReply GetChannels :=
  match channelDb.listChannels with
  | .ok channels => .ok ⟨channels.map Channel.id⟩
  | .error _ => .err .internalServerError

/-- What `HashMap::values` visits: the value of each key once, in an order of its own. -/
def Values (db : InMemory c) (values : List (Channel c)) : Prop :=
  ∃ ids : List ChannelId, ids.Nodup ∧ (∀ id, id ∈ ids ↔ (db.getChannel id).isSome) ∧
    values = ids.filterMap db.getChannel

/-- `RwLock<InMemory>`, with the order its values come in. -/
def inMemory (db : InMemory c) (values : List (Channel c)) : ChannelDb c where
  getChannel := fun channelId => .ok (db.getChannel channelId)
  listChannels := .ok values

section Queries

variable {db : InMemory c} {values : List (Channel c)} {id : ChannelId}

theorem channelInfo_stored {channel : Channel c} (stored : db.getChannel id = some channel) :
    channelInfo (inMemory db values) id = .ok ⟨channel⟩ := by
  simp [channelInfo, inMemory, stored]

theorem channelInfo_unknown (unknown : db.getChannel id = none) :
    channelInfo (inMemory db values) id = .err .notFound := by
  simp [channelInfo, inMemory, unknown]

/-- Records are stored under their own ids, and these are listed. -/
theorem listChannels_values
    (named : ∀ {id channel}, db.getChannel id = some channel → channel.id = id)
    (all : Values db values) : ∃ ids, listChannels (inMemory db values) = .ok ⟨ids⟩ ∧
      ids.Nodup ∧ ∀ id, id ∈ ids ↔ (db.getChannel id).isSome := by
  obtain ⟨ids, nodup, stored, rfl⟩ := all
  refine ⟨ids, ?_, nodup, stored⟩
  have same : (ids.filterMap db.getChannel).map Channel.id = ids := by
    have itself : ∀ id ∈ ids, (db.getChannel id).map Channel.id = some id := by
      intro id member
      obtain ⟨channel, found⟩ := Option.isSome_iff_exists.mp ((stored id).mp member)
      rw [found, Option.map_some, named found]
    rw [List.map_filterMap, List.filterMap_congr itself, List.filterMap_some]
  simp only [listChannels, inMemory, same]

/-- One more record is one more value, or another one under its key. -/
theorem exists_values_insert (channel : Channel c) (all : ∃ values, Values db values) :
    ∃ values, Values (db.insertChannel channel) values := by
  obtain ⟨_, ids, nodup, stored, -⟩ := all
  refine ⟨_, ids.insert channel.id, nodup.insert, fun id => ?_, rfl⟩
  rw [List.mem_insert_iff, stored, InMemory.getChannel_insertChannel]
  split
  · simp_all
  · simp_all

end Queries

variable {n : Node c}

/-- The step stores a channel under an id: it opens it, or accepts an offer of it. -/
def Registers (n : Node c) (t : NodeTransition c) (id : ChannelId) : Prop :=
  (∃ value peer wallet descriptor psbt, t.act.1 = .openChannel value peer wallet ∧
    n.manager.fundingDescriptorFor peer true = some descriptor ∧
    wallet (c.scriptPubkey descriptor) value = .ok psbt ∧
    FundTx.channelId ⟨descriptor, psbt⟩ = some id) ∨
  ∃ peer offer entropy, t.act.1 = .receive peer (.rsEcdsaNewChannel offer) entropy ∧
    n.manager.Accepts peer offer ∧ offer.id = id

/-- A step of the run stored a channel under the id. -/
def Registered (n : Node c) (ts : List (NodeTransition c)) (id : ChannelId) : Prop :=
  ∃ t ∈ ts, Registers n t id

section Steps

variable {s s' : NodeState c} {a : Act c} {reply : Reply c} {id : ChannelId}
  {ts : List (NodeTransition c)}

theorem registered_snoc {t : NodeTransition c} :
    Registered n (ts ++ [t]) id ↔ Registered n ts id ∨ Registers n t id := by
  simp [Registered, or_and_right, exists_or]

/-- A step inserts one record at most. -/
theorem inserts (took : Effect n s a reply s') :
    s'.db = s.db ∨ ∃ channel, s'.db = s.db.insertChannel channel := by
  cases took with
  | quiet | checked | closing | abandoned | rejected => exact .inl rfl
  | opened | accepted | acked | closed | live | funded => exact .inr ⟨_, rfl⟩

theorem stored_kept (took : Effect n s a reply s') (stored : (s.db.getChannel id).isSome) :
    (s'.db.getChannel id).isSome := by
  rcases inserts took with same | ⟨channel, same⟩
  · rwa [same]
  · rw [same, InMemory.getChannel_insertChannel]
    split
    · rfl
    · exact stored

theorem registers_stored (took : n.step s a = some (reply, s'))
    (registers : Registers n ⟨s, (a, reply), s'⟩ id) : (s'.db.getChannel id).isSome := by
  have ended := (Node.step_eq_some.mp took).2
  rcases registers with ⟨value, peer, wallet, descriptor, psbt, rfl, made, paid, named⟩ |
    ⟨peer, offer, entropy, rfl, accepts, rfl⟩
  · have done := n.manager.newChannel_paid made paid named s
    have inserted : s'.db = s.db.insertChannel
        (FundTx.pendingChannel ⟨descriptor, psbt⟩ id peer value) := by
      cases key : n.manager.myPublishingKeyFor 0 with
      | some publishingKey =>
          rw [Node.outcome_open made paid named key] at ended
          rw [← (Prod.mk.inj ended).2]
      | none =>
          -- the record is stored before the key is asked for
          rw [key, bind_of_error (orPanic_none _)] at done
          rw [Node.outcome_of_error (bind_of_error done)] at ended
          rw [← (Prod.mk.inj ended).2]
    rw [inserted]
    exact Option.isSome_iff_exists.mpr ⟨_, InMemory.getChannel_insertChannel_self _ _⟩
  · obtain ⟨secretKey, key⟩ := Option.isSome_iff_exists.mp accepts.1
    obtain ⟨sighash, hash⟩ := Option.isSome_iff_exists.mp accepts.2
    obtain ⟨descriptor, -, done⟩ := n.manager.recvNewChannel_ok key hash entropy s
    rw [Node.outcome_of_ok (bind_of_ok done)] at ended
    rw [← (Prod.mk.inj ended).2]
    exact Option.isSome_iff_exists.mpr ⟨_, InMemory.getChannel_insertChannel_self _ _⟩

/-- Every record a node holds is of a channel that a step of the run stored. -/
abbrev HoldsRegistered (n : Node c) (ts : List (NodeTransition c)) (s : NodeState c) : Prop :=
  s.Holds (fun id channel => channel.id = id ∧ Registered n ts id)
    (fun task => Registered n ts task.channel.id) (fun op => Registered n ts op.channel.id)

theorem registered_effect (took : Effect n s a reply s') (h : HoldsRegistered n ts s) :
    HoldsRegistered n (ts ++ [⟨s, (a, reply), s'⟩]) s' := by
  have earlier : HoldsRegistered n (ts ++ [⟨s, (a, reply), s'⟩]) s :=
    h.mono (fun _ _ => And.imp_right fun before => registered_snoc.mpr (.inl before))
      (fun _ before => registered_snoc.mpr (.inl before))
      (fun _ before => registered_snoc.mpr (.inl before))
  cases took with
  | quiet => exact earlier
  | opened made paid named =>
      exact earlier.insert
        ⟨rfl, registered_snoc.mpr (.inr (.inl ⟨_, _, _, _, _, rfl, made, paid, named⟩))⟩
  | @accepted peer channel entropy secretKey sighash descriptor key hash =>
      have new : ∀ {reply s'}, Registered n (ts ++ [⟨s, (.receive peer
          (.rsEcdsaNewChannel channel) entropy, reply), s'⟩]) channel.id :=
        registered_snoc.mpr (.inr (.inr
          ⟨peer, channel, entropy, rfl, ⟨by simp [key], by simp [hash]⟩, rfl⟩))
      refine (earlier.insert ?_).spawn ?_
      · exact ⟨rfl, new⟩
      · exact new
  | checked free there =>
      obtain ⟨same, before⟩ := earlier.stored there
      exact earlier.suspend (same ▸ before)
  | closing free there =>
      obtain ⟨same, before⟩ := earlier.stored there
      exact earlier.suspend (same ▸ before)
  | acked held =>
      have before := earlier.suspended _ held
      refine ((earlier.insert ?_).spawn ?_).release
      · exact ⟨rfl, before⟩
      · exact before
  | closed held => exact (earlier.insert ⟨rfl, earlier.suspended _ held⟩).release
  | abandoned => exact earlier.release
  | live waiting | funded waiting =>
      have before := earlier.tasks _ (List.mem_of_getElem? waiting)
      exact (earlier.answer _ _ _).insert ⟨rfl, before⟩
  | rejected => exact earlier.answer _ _ _

end Steps

section Runs

variable {ts : List (NodeTransition c)} {s : NodeState c} {id : ChannelId}

theorem exists_values (run : n.Runs ts s) : ∃ values, Values s.db values := by
  refine Node.Runs.always (I := fun s => ∃ values, Values s.db values) ?_ ?_ run
  · exact ⟨[], [], .nil, by simp [NodeState.init, InMemory.getChannel], rfl⟩
  · intro s a reply s' all took
    rcases inserts took with same | ⟨channel, same⟩
    · rwa [same]
    · rw [same]
      exact exists_values_insert channel all

theorem holdsRegistered (run : n.Runs ts s) : HoldsRegistered n ts s := by
  induction run with
  | nil => exact .init
  | snoc _ took ih => exact registered_effect (Node.step_effect took) ih

theorem stored_iff (run : n.Runs ts s) :
    (s.db.getChannel id).isSome ↔ Registered n ts id := by
  constructor
  · intro stored
    obtain ⟨channel, found⟩ := Option.isSome_iff_exists.mp stored
    exact ((holdsRegistered run).stored found).2
  · rintro ⟨t, member, registers⟩
    induction run with
    | nil => cases member
    | snoc run took ih =>
        rcases List.mem_append.mp member with earlier | last
        · exact stored_kept (Node.step_effect took) (ih earlier)
        · obtain rfl := List.mem_singleton.mp last
          exact registers_stored took registers

/-- What a client was told of a channel is what is stored. -/
structure Told (t : NodeTransition c) (db : InMemory c) : Prop where
  opened : ∀ {value peer wallet offer}, t.act = (.openChannel value peer wallet,
      .ok (.send peer (.rsEcdsaNewChannel offer))) → ∃ channel,
    db.getChannel offer.id = some channel ∧ channel.peerId = peer ∧ channel.value = value ∧
      channel.iAmInitiator = true
  closed : ∀ {channel tx}, t.act.1 = .resume → t.pre.suspended = some (.close channel tx) →
    db.getChannel channel.id = some channel ∧ channel.state = .closed tx

variable {s' : NodeState c} {a : Act c} {reply : Reply c}

theorem Told.of_step (settled : s.Settled) (took : n.step s a = some (reply, s')) :
    Told ⟨s, (a, reply), s'⟩ s'.db where
  opened := by
    rintro value peer wallet offer act
    obtain ⟨rfl, rfl⟩ := Prod.mk.inj act
    cases Node.step_effect took with
    | quiet silent => cases silent
    | opened made paid named replied =>
        obtain ⟨publishingKey, -, sent⟩ := replied _ rfl
        cases sent
        exact ⟨_, InMemory.getChannel_insertChannel_self _ _, rfl, rfl, rfl⟩
  closed := by
    rintro channel tx rfl held
    obtain ⟨stored, _, _, _, -, -, rfl⟩ := settled.close held
    have ended := (Node.step_eq_some.mp took).2
    rw [Node.outcome_of_ok (Effect.perform_resume_close held)] at ended
    rw [← (Prod.mk.inj ended).2]
    exact ⟨InMemory.getChannel_insertChannel_self _ _, rfl⟩

theorem Told.kept {t : NodeTransition c} (h : Told t s.db) (settled' : s'.Settled)
    (forward : Forward ⟨s, (a, reply), s'⟩) : Told t s'.db where
  opened := by
    intro value peer wallet offer act
    obtain ⟨channel, there, peerId, worth, role⟩ := h.opened act
    obtain ⟨channel', there', moved⟩ := forward _ _ there
    exact ⟨channel', there', moved.peerId.trans peerId, moved.value.trans worth,
      moved.iAmInitiator.trans role⟩
  closed := by
    intro channel tx act held
    obtain ⟨there, state⟩ := h.closed act held
    obtain ⟨channel', there', moved⟩ := forward _ _ there
    obtain rfl : channel' = channel := by
      have id := settled'.named there'
      obtain ⟨peerId, value, role, -, -, closed⟩ := moved
      cases channel
      cases channel'
      simp_all
    exact ⟨there', state⟩

/-- Neither the funder nor an offer names a channel that is stored already. -/
def Apart (n : Node c) (t : NodeTransition c) : Prop :=
  n.FundsFresh t ∧ ∀ peer offer stored, ¬ n.Collides t peer offer stored

theorem told (run : n.Runs ts s) (apart : ∀ t ∈ ts, Apart n t) : ∀ t ∈ ts, Told t s.db := by
  refine (run.history (I := fun ts s => s.Settled ∧ ∀ t ∈ ts, Told t s.db)
    ⟨.init, by simp⟩ ?_ apart).2
  rintro ts s ⟨a, reply⟩ s' - ⟨settled, before⟩ took ⟨fresh, apart⟩
  obtain ⟨settled', forward⟩ := settled.effect (Node.step_effect took) fresh apart
  refine ⟨settled', fun t member => ?_⟩
  rcases List.mem_append.mp member with earlier | last
  · exact (before t earlier).kept settled' forward
  · obtain rfl := List.mem_singleton.mp last
    exact .of_step settled took

end Runs

/-- At every moment of every run, in whatever order the values come: each channel that was
    opened or accepted so far is listed, once, and no other one; a channel is found if it is
    listed. While no id comes up twice, whoever opened a channel finds it for the peer and
    with the value he opened it with, and whoever closed one finds it closed with the
    transaction he was given, ever after. -/
theorem queriesExact {ts : List (NodeTransition c)} {s : NodeState c} (run : n.Runs ts s) :
    (∃ values, Values s.db values) ∧ ∀ values, Values s.db values →
      (∃ ids, listChannels (inMemory s.db values) = .ok ⟨ids⟩ ∧ ids.Nodup ∧
        (∀ id, id ∈ ids ↔ Registered n ts id) ∧
        ∀ id, (id ∈ ids ∧ ∃ channel : Channel c, channel.id = id ∧
            channelInfo (inMemory s.db values) id = .ok ⟨channel⟩) ∨
          (id ∉ ids ∧ channelInfo (inMemory s.db values) id = .err .notFound)) ∧
      ((∀ t ∈ ts, Apart n t) → ∀ t ∈ ts,
        (∀ value peer wallet offer, t.act = (.openChannel value peer wallet,
            .ok (.send peer (.rsEcdsaNewChannel offer))) → ∃ channel : Channel c,
          channelInfo (inMemory s.db values) offer.id = .ok ⟨channel⟩ ∧ channel.peerId = peer ∧
            channel.value = value ∧ channel.iAmInitiator = true) ∧
        ∀ channel tx, t.act.1 = .resume → t.pre.suspended = some (.close channel tx) →
          channelInfo (inMemory s.db values) channel.id = .ok ⟨channel⟩ ∧
            channel.state = .closed tx) := by
  refine ⟨exists_values run, fun values all => ⟨?_, fun apart t member => ⟨?_, ?_⟩⟩⟩
  · have named : ∀ {id channel}, s.db.getChannel id = some channel → channel.id = id :=
      fun found => ((holdsRegistered run).stored found).1
    obtain ⟨ids, listed, nodup, stored⟩ := listChannels_values named all
    refine ⟨ids, listed, nodup, fun id => (stored id).trans (stored_iff run), fun id => ?_⟩
    rw [stored]
    cases found : s.db.getChannel id with
    | none => exact .inr ⟨by simp, channelInfo_unknown found⟩
    | some channel => exact .inl ⟨rfl, channel, named found, channelInfo_stored found⟩
  · intro value peer wallet offer act
    obtain ⟨channel, there, rest⟩ := (told run apart t member).opened act
    exact ⟨channel, channelInfo_stored there, rest⟩
  · intro channel tx act held
    obtain ⟨there, state⟩ := (told run apart t member).closed act held
    exact ⟨channelInfo_stored there, state⟩

section Small

/-- The one channel of the small node, once it is opened. -/
theorem queriesExact_small : ∃ ts s values ids channel, smallNode.Runs ts s ∧
    (∀ t ∈ ts, Apart smallNode t) ∧ listChannels (inMemory s.db values) = .ok ⟨ids⟩ ∧
    (⟨7, 0⟩ : ChannelId) ∈ ids ∧ Registered smallNode ts ⟨7, 0⟩ ∧
    channelInfo (inMemory s.db values) ⟨7, 0⟩ = .ok ⟨channel⟩ := by
  obtain ⟨ts, s, stored, run, funds, apart, -, there, -⟩ := smallOpening_run
  obtain ⟨⟨values, all⟩, exact'⟩ := queriesExact run
  obtain ⟨⟨ids, listed, -, registered, found⟩, -⟩ := exact' values all
  rcases found ⟨7, 0⟩ with ⟨inside, channel, -, info⟩ | ⟨-, unknown⟩
  · exact ⟨ts, s, values, ids, channel, run, fun t member => ⟨funds t member, apart t member⟩,
      listed, inside, (registered _).mp inside, info⟩
  · rw [channelInfo_stored there] at unknown
    cases unknown

end Small

end Lindy.Http
