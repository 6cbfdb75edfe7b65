import Lindy.Channel.Commitment

/-! # The channel manager

The operations of `ChannelManager` that read and write the database. An operation that
fails, be it with an error or a panic, leaves behind what it had stored by then.

Two of them read a record and store it again after an `await`, during which the tasks that
wait for funding go on; they are cut there. `checkAck` and `closeChannel` are what comes
before the insert, `storeReady` and `storeClosed` the insert and the rest.
-/

namespace Lindy

open Bitcoin Machine

variable {c : Crates}

/-- How an operation fails. -/
inductive Failure (c : Crates) where
  /-- `anyhow!(..)` with its text. -/
  | anyhow (text : String)
  | bdk (error : c.BdkError)
  | panic

/-- A channel known to be ready to fund, with what its state carries. -/
structure ReadyChannel (c : Crates) where
  channel : Channel c
  fundTx : FundTx c
  commit : CommitState
  commitSig : c.EncryptedSignature
  ready : channel.state = .readyToFund fundTx commit commitSig

/-- A channel known to wait for its funding. -/
structure WaitingChannel (c : Crates) where
  channel : Channel c
  waiting : channel.state = .waitingForFund

/-- What a task spawned by `wait_for_funding` captured. -/
inductive Task (c : Crates) where
  | readyToFund (ready : ReadyChannel c)
  | waitingForFund (waiting : WaitingChannel c) (descriptor : c.Descriptor)

def Task.channel : Task c → Channel c
  | .readyToFund ready => ready.channel
  | .waitingForFund waiting _ => waiting.channel

/-- An operation that waits for its insert to be done, holding the lock of the manager. -/
inductive Suspended (c : Crates) where
  | ack (ready : ReadyChannel c)
  | close (channel : Channel c) (closeTx : Transaction)

def Suspended.channel : Suspended c → Channel c
  | .ack ready => ready.channel
  | .close channel _ => channel

structure NodeState (c : Crates) where
  db : InMemory c
  /-- The tasks that wait for funding. -/
  tasks : List (Task c)
  suspended : Option (Suspended c)
  /-- What the monitor has answered so far, to whom it had been asked for. -/
  answers : List (Txid × Transaction)

def NodeState.init : NodeState c := ⟨.empty, [], none, []⟩

abbrev Op (c : Crates) := EStateM (Failure c) (NodeState c)

namespace Op

/-- `unwrap`, `expect` and arithmetic that panic. -/
def orPanic {α : Type} : Option α → Op c α
  | some a => pure a
  | none => throw .panic

def insertChannel (channel : Channel c) : Op c Unit :=
  modify fun s => { s with db := s.db.insertChannel channel }

def spawn (task : Task c) : Op c Unit :=
  modify fun s => { s with tasks := s.tasks ++ [task] }

/-- The insert is under way. -/
def suspend (suspended : Suspended c) : Op c Unit :=
  modify fun s => { s with suspended := some suspended }

end Op

open Op

namespace ChannelManager

def newChannel (m : ChannelManager c) (wallet : Wallet c) (value : UInt64) (peerId : c.PeerId) :
    Op c (RsEcdsaNewChannel c) := do
  let descriptor ← orPanic (m.fundingDescriptorFor peerId true)
  let fundTx ← match createFundTransaction wallet value descriptor with
    | .ok fundTx => pure fundTx
    | .error error => throw (.bdk error)
  let id ← orPanic fundTx.channelId
  let channel : Channel c :=
    { id, state := .pending fundTx, peerId, value, iAmInitiator := true }
  insertChannel channel
  let publishingKey ← orPanic (m.myPublishingKeyFor 0)
  pure { id, fundingSatoshis := value, toSelfDelay := m.toSelfDelay, feeratePerKw := 372 * 250,
         publishingKey }

def waitForFunding (m : ChannelManager c) (channel : Channel c) : Op c Unit :=
  match found : channel.state with
  | .readyToFund fundTx commit commitSig =>
      spawn (.readyToFund ⟨channel, fundTx, commit, commitSig, found⟩)
  | .waitingForFund => do
      let descriptor ← orPanic (m.fundingDescriptorFor channel.peerId false)
      spawn (.waitingForFund ⟨channel, found⟩ descriptor)
  | _ => throw .panic

def recvNewChannel (m : ChannelManager c) (peer : c.PeerId) (channel : RsEcdsaNewChannel c)
    (entropy : c.Entropy) : Op c (RsEcdsaAckNewChannel c) := do
  let fundingSecretKey ← orPanic (m.fundingSecretKeyFor peer false)
  let sighash ← orPanic (m.stateSighash channel.id 0 peer ⟨channel.fundingSatoshis, 0⟩ false)
  let commitSig := c.encryptedSign fundingSecretKey channel.publishingKey sighash entropy
  let channel : Channel c :=
    { id := channel.id, state := .waitingForFund, peerId := peer
      value := channel.fundingSatoshis, iAmInitiator := false }
  insertChannel channel
  m.waitForFunding channel
  pure ⟨channel.id, commitSig⟩

/-- `recv_new_channel_ack` up to its insert: the record it is about to store. -/
def checkAck (m : ChannelManager c) (peer : c.PeerId) (channel : RsEcdsaAckNewChannel c) :
    Op c (ReadyChannel c) := do
  let s ← get
  match s.db.getChannelForPeer channel.id peer with
  | none =>
      throw (.anyhow ("channel " ++ c.displayOutPoint channel.id ++ " for peer "
        ++ c.displayXOnly peer.1 ++ " did not exist"))
  | some channelInDb =>
      match channelInDb.state with
      | .pending fundTx =>
          let p1 ← orPanic fundTx.outputValue
          let commitState : CommitState := ⟨p1, 0⟩
          let (_, (_, p2)) ← orPanic ((m.pointRandomizer peer true).pointsAt .funding)
          let sighash ← orPanic (m.stateSighash channel.id 0 peer commitState true)
          let publishingKey ← orPanic (m.myPublishingKeyFor 0)
          if c.verifyEncryptedSignature p2 publishingKey sighash channel.commitSig then
            let state := .readyToFund fundTx commitState channel.commitSig
            pure ⟨{ channelInDb with state }, fundTx, commitState, channel.commitSig, rfl⟩
          else throw (.anyhow "adaptor signature was invalid")
      | _ => throw (.anyhow "received channel ack that we weren't expecting")

/-- The rest of `recv_new_channel_ack`. -/
def storeReady (m : ChannelManager c) (ready : ReadyChannel c) : Op c Unit := do
  insertChannel ready.channel
  m.waitForFunding ready.channel

def recvNewChannelAck (m : ChannelManager c) (peer : c.PeerId)
    (channel : RsEcdsaAckNewChannel c) : Op c Unit := do
  let ready ← m.checkAck peer channel
  m.storeReady ready

/-- A signature passes both libraries and joins the PSBT. -/
def addSignature (sighash : Bytes) (psbt : c.Psbt) (key : c.PublicKey)
    (signature : c.Signature) : Option c.Psbt :=
  if c.verify key.key sighash signature ∧ c.secp256k1Verify sighash signature key.key then
    psbt.updateInput fun input =>
      { input with partialSigs := input.partialSigs.insert key (c.rawSignature signature) }
  else none

/-- `satisfy` and what is made of its result; failing to satisfy is only logged. -/
def finalise (descriptor : c.Descriptor) (psbt : c.Psbt) : Option c.Psbt :=
  match c.satisfy descriptor .default psbt 0 with
  | some tmp => psbt.updateInput fun input =>
      { input with finalScriptWitness := some tmp.witness }
  | none => some psbt

/-- The close transaction of a live channel; `none` where the source panics. -/
def closeTx (m : ChannelManager c) (channelId : ChannelId) (peer : c.PeerId) (index : UInt32)
    (commit : CommitState) (commitSig : c.EncryptedSignature) (iAmInitiator : Bool)
    (entropy : c.Entropy) : Option Transaction := do
  let publishingSecretKey ← m.myPublishingSecretKey index
  let remoteSignature := c.decryptSignature publishingSecretKey commitSig
  let psbt ← m.statePsbt channelId index peer commit iAmInitiator
  let myFundingSecretKey ← m.fundingSecretKeyFor peer iAmInitiator
  let keys ← m.fundingPublicKeys peer iAmInitiator
  let (localKey, remoteKey) := if iAmInitiator then keys else keys.swap
  let sighash ← m.stateSighash channelId 0 peer commit iAmInitiator
  let localSignature := c.sign myFundingSecretKey sighash entropy
  let psbt ← addSignature sighash psbt localKey localSignature
  let psbt ← addSignature sighash psbt remoteKey remoteSignature
  let descriptor ← m.fundingDescriptorFor peer iAmInitiator
  let psbt ← finalise descriptor psbt
  some (c.extractTx psbt)

/-- `force_close_channel` up to its insert: the record it is about to store and the
    transaction it will answer with. -/
def closeChannel (m : ChannelManager c) (channelId : ChannelId) (entropy : c.Entropy) :
    Op c (Channel c × Transaction) := do
  let s ← get
  match s.db.getChannel channelId with
  | none => throw (.anyhow "channel does not exist")
  | some channel =>
      match channel.state with
      | .live index commit commitSig =>
          let closeTx ← orPanic (m.closeTx channelId channel.peerId index commit commitSig
            channel.iAmInitiator entropy)
          pure ({ channel with state := .closed closeTx }, closeTx)
      | _ => throw (.anyhow "cannot force close channel that isn't live")

def forceCloseChannel (m : ChannelManager c) (channelId : ChannelId) (entropy : c.Entropy) :
    Op c Transaction := do
  let (channel, closeTx) ← m.closeChannel channelId entropy
  insertChannel channel
  pure closeTx

end ChannelManager

/-- What a task does with the transaction the monitor answered. -/
def Task.finish : Task c → Transaction → Op c Unit
  | .readyToFund ready, onChainTx => do
      let matched ← orPanic (ready.fundTx.matchesTx onChainTx)
      if matched then
        insertChannel { ready.channel with state := .live 0 ready.commit ready.commitSig }
      -- `unreachable!`
      else throw .panic
  | .waitingForFund waiting descriptor, onChainTx =>
      match onChainTx.output[waiting.channel.id.vout.toNat]? with
      | some output =>
          if output.scriptPubkey = c.scriptPubkey descriptor ∧
              output.value = waiting.channel.value then
            insertChannel { waiting.channel with state := .funded onChainTx }
          else pure ()
      -- only logged
      | none => pure ()

end Lindy
