import Lindy.Funder

/-! # Channels and where they are kept

`channel/mod.rs`, `channel/channel_db.rs` and the two messages about channels.
-/

namespace Lindy

open Bitcoin Machine

variable {c : Crates}

structure CommitState where
  p1 : UInt64
  p2 : UInt64
  deriving DecidableEq

/-- `funding_value`; `none` when the sum overflows in a checked build. -/
def CommitState.fundingValue (c : Crates) (commit : CommitState) : Option UInt64 :=
  c.addU64 commit.p1 commit.p2

inductive ChannelState (c : Crates) where
  | pending (fundTx : FundTx c)
  | readyToFund (fundTx : FundTx c) (commit : CommitState) (commitSig : c.EncryptedSignature)
  | waitingForFund
  | funded (fundTx : Transaction)
  | live (index : UInt32) (commit : CommitState) (commitSig : c.EncryptedSignature)
  | closed (closeTx : Transaction)

structure Channel (c : Crates) where
  id : ChannelId
  state : ChannelState c
  peerId : c.PeerId
  value : UInt64
  iAmInitiator : Bool

/-- The in-memory `ChannelDb`. Its inserts and lookups never fail. -/
abbrev InMemory (c : Crates) := Table ChannelId (Channel c)

namespace InMemory

def insertChannel (db : InMemory c) (channel : Channel c) : InMemory c :=
  db.insert channel.id channel

def getChannel (db : InMemory c) (channelId : ChannelId) : Option (Channel c) :=
  db.get channelId

def getChannelForPeer (db : InMemory c) (channelId : ChannelId) (peerId : c.PeerId) :
    Option (Channel c) :=
  (db.getChannel channelId).filter fun channel => channel.peerId = peerId

/-- What is stored once a record is inserted. -/
theorem getChannel_insertChannel (db : InMemory c) (channel : Channel c) (id : ChannelId) :
    (db.insertChannel channel).getChannel id =
      if id = channel.id then some channel else db.getChannel id :=
  Table.get_insert _ _ _ _

@[simp] theorem getChannel_insertChannel_self (db : InMemory c) (channel : Channel c) :
    (db.insertChannel channel).getChannel channel.id = some channel :=
  Table.get_insert_self _ _ _

theorem getChannel_insertChannel_of_ne (db : InMemory c) {channel : Channel c} {id : ChannelId}
    (ne : id ≠ channel.id) : (db.insertChannel channel).getChannel id = db.getChannel id :=
  Table.get_insert_of_ne _ _ ne

/-- A record found after an insert is the inserted one or was there before. -/
theorem getChannel_insertChannel_cases {db : InMemory c} {channel other : Channel c}
    {id : ChannelId} (found : (db.insertChannel channel).getChannel id = some other) :
    (id = channel.id ∧ other = channel) ∨ (id ≠ channel.id ∧ db.getChannel id = some other) := by
  by_cases same : id = channel.id
  · subst same
    rw [getChannel_insertChannel_self] at found
    exact .inl ⟨rfl, (Option.some.inj found).symm⟩
  · rw [getChannel_insertChannel_of_ne _ same] at found
    exact .inr ⟨same, found⟩

theorem getChannelForPeer_eq_some {db : InMemory c} {id : ChannelId} {peer : c.PeerId}
    {channel : Channel c} :
    db.getChannelForPeer id peer = some channel ↔
      db.getChannel id = some channel ∧ channel.peerId = peer := by
  simp [getChannelForPeer, Option.filter_eq_some_iff]

end InMemory

structure RsEcdsaNewChannel (c : Crates) where
  id : ChannelId
  fundingSatoshis : UInt64
  toSelfDelay : UInt16
  feeratePerKw : UInt32
  publishingKey : c.Point

structure RsEcdsaAckNewChannel (c : Crates) where
  id : ChannelId
  commitSig : c.EncryptedSignature

inductive Message (c : Crates) where
  | rsEcdsaNewChannel (channel : RsEcdsaNewChannel c)
  | rsEcdsaAckNewChannel (channel : RsEcdsaAckNewChannel c)

/-- The channel a message is about. -/
def Message.id : Message c → ChannelId
  | .rsEcdsaNewChannel channel => channel.id
  | .rsEcdsaAckNewChannel channel => channel.id

end Lindy
