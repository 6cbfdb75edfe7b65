import Lindy.Channel.Randomizer
import Lindy.Channel.State

/-! # Keys, descriptors and the state transaction

The part of `ChannelManager` that computes without touching the database. Every function
here answers `none` exactly where the source panics.
-/

namespace Lindy

open Bitcoin

variable {c : Crates}

structure ChannelManager (c : Crates) where
  toSelfDelay : UInt16
  keychain : KeyChain c

namespace ChannelManager

def new (keychain : KeyChain c) : ChannelManager c where
  toSelfDelay := 20
  keychain := keychain

/-- How other nodes call this one. -/
def id (m : ChannelManager c) : c.PeerId := m.keychain.nodeKeypair.publicKey

def pointRandomizer (m : ChannelManager c) (peer : c.PeerId) (iAmParty1 : Bool) :
    PointRandomizer c :=
  .fromEcdh m.keychain.nodeKeypair peer iAmParty1

def fundingPublicKeys (m : ChannelManager c) (peer : c.PeerId) (iAmParty1 : Bool) :
    Option (c.PublicKey × c.PublicKey) := do
  let ((_, p1), (_, p2)) ← (m.pointRandomizer peer iAmParty1).pointsAt .funding
  some (⟨true, p1⟩, ⟨true, p2⟩)

def fundingDescriptorFor (m : ChannelManager c) (peer : c.PeerId) (iAmParty1 : Bool) :
    Option c.Descriptor := do
  let (p1, p2) ← m.fundingPublicKeys peer iAmParty1
  let policy : Policy c.PublicKey := .and [.key p1, .key p2]
  let compiled ← c.compile policy
  some (.wsh compiled)

def fundingSecretKeyFor (m : ChannelManager c) (peer : c.PeerId) (iAmParty1 : Bool) :
    Option c.Scalar := do
  let ((r1, _), (r2, _)) ← (m.pointRandomizer peer iAmParty1).pointsAt .funding
  let sk := m.keychain.nodeKeypair.secretKey
  let fundingSk := if iAmParty1 then sk + r1 else sk + r2
  markNonZero fundingSk

def balanceDescriptors (m : ChannelManager c) (peer : c.PeerId) (iAmParty1 : Bool) :
    Option (c.Descriptor × c.Descriptor) := do
  let ((_, p1), (_, p2)) ← (m.pointRandomizer peer iAmParty1).pointsAt .balance
  some (.wpkh ⟨true, p1⟩, .wpkh ⟨true, p2⟩)

/-- The outputs of `state_tx`: party 1 pays the flat fee. -/
def stateOutputs (c : Crates) (p1BalDes p2BalDes : c.Descriptor) (commitState : CommitState) :
    Option (List TxOut) := do
  let outputs ←
    if 0 < commitState.p1 then do
      let value ← c.subU64 commitState.p1 1000
      some [⟨value, c.scriptPubkey p1BalDes⟩]
    else some []
  if 0 < commitState.p2 then some (outputs ++ [⟨commitState.p2, c.scriptPubkey p2BalDes⟩])
  else some outputs

/-- The transaction of `state_tx` around its outputs. -/
def spending (channelId : ChannelId) (outputs : List TxOut) : Transaction where
  version := 1
  lockTime := 0
  input := [{ previousOutput := channelId, scriptSig := [], sequence := 0xFFFFFFFF, witness := [] }]
  output := outputs

def stateTx (m : ChannelManager c) (channelId : ChannelId) (_index : UInt32) (peer : c.PeerId)
    (commitState : CommitState) (iAmParty1 : Bool) : Option Transaction := do
  let (p1BalDes, p2BalDes) ← m.balanceDescriptors peer iAmParty1
  let outputs ← stateOutputs c p1BalDes p2BalDes commitState
  some (spending channelId outputs)

def statePsbt (m : ChannelManager c) (channelId : ChannelId) (index : UInt32)
    (peer : c.PeerId) (state : CommitState) (iAmParty1 : Bool) : Option c.Psbt := do
  let tx ← m.stateTx channelId index peer state iAmParty1
  let psbt ← c.fromUnsignedTx tx
  let fundingDescriptor ← m.fundingDescriptorFor peer iAmParty1
  let value ← c.addU64 state.p1 state.p2
  psbt.updateInput fun input =>
    { input with witnessUtxo := some ⟨value, c.scriptPubkey fundingDescriptor⟩
                 witnessScript := some (c.witnessScript fundingDescriptor) }

def stateSighash (m : ChannelManager c) (channelId : ChannelId) (index : UInt32)
    (peer : c.PeerId) (state : CommitState) (iAmParty1 : Bool) : Option Bytes := do
  let tx ← m.stateTx channelId index peer state iAmParty1
  let fundingDescriptor ← m.fundingDescriptorFor peer iAmParty1
  let fundingValue ← state.fundingValue c
  some (c.signatureHash tx 0 (c.witnessScript fundingDescriptor) fundingValue .all)

section Specs

variable {m : ChannelManager c} {peer : c.PeerId} {role : Bool} {id : ChannelId} {index : UInt32}
  {commit : CommitState}

theorem fundingPublicKeys_eq_some {keys : c.PublicKey × c.PublicKey} :
    m.fundingPublicKeys peer role = some keys ↔ ∃ r₁ P₁ r₂ P₂,
      (m.pointRandomizer peer role).pointsAt .funding = some ((r₁, P₁), (r₂, P₂)) ∧
      (⟨true, P₁⟩, ⟨true, P₂⟩) = keys := by
  simp only [fundingPublicKeys, Option.bind_eq_bind, Option.bind_eq_some_iff, Option.some.injEq,
    Prod.exists]

theorem fundingDescriptorFor_eq_some {descriptor : c.Descriptor} :
    m.fundingDescriptorFor peer role = some descriptor ↔ ∃ key₁ key₂ miniscript,
      m.fundingPublicKeys peer role = some (key₁, key₂) ∧
      c.compile (.both key₁ key₂) = some miniscript ∧ .wsh miniscript = descriptor := by
  simp only [fundingDescriptorFor, Option.bind_eq_bind, Option.bind_eq_some_iff,
    Option.some.injEq, Prod.exists, exists_and_left]
  rfl

theorem balanceDescriptors_eq_some {descriptors : c.Descriptor × c.Descriptor} :
    m.balanceDescriptors peer role = some descriptors ↔ ∃ r₁ P₁ r₂ P₂,
      (m.pointRandomizer peer role).pointsAt .balance = some ((r₁, P₁), (r₂, P₂)) ∧
      (.wpkh ⟨true, P₁⟩, .wpkh ⟨true, P₂⟩) = descriptors := by
  simp only [balanceDescriptors, Option.bind_eq_bind, Option.bind_eq_some_iff, Option.some.injEq,
    Prod.exists]

theorem stateTx_eq_some {tx : Transaction}
    (made : m.stateTx id index peer commit role = some tx) :
    ∃ p1BalDes p2BalDes outputs, m.balanceDescriptors peer role = some (p1BalDes, p2BalDes) ∧
      stateOutputs c p1BalDes p2BalDes commit = some outputs ∧ tx = spending id outputs := by
  simp only [stateTx, Option.bind_eq_bind, Option.bind_eq_some_iff, Option.some.injEq] at made
  obtain ⟨⟨p1BalDes, p2BalDes⟩, balance, outputs, paid, rfl⟩ := made
  exact ⟨p1BalDes, p2BalDes, outputs, balance, paid, rfl⟩

/-- What a state sighash was computed from. -/
theorem stateSighash_eq_some {sighash : Bytes}
    (hash : m.stateSighash id index peer commit role = some sighash) :
    ∃ outputs descriptor value, m.stateTx id index peer commit role =
        some (spending id outputs) ∧
      m.fundingDescriptorFor peer role = some descriptor ∧
      c.addU64 commit.p1 commit.p2 = some value ∧
      sighash =
        c.signatureHash (spending id outputs) 0 (c.witnessScript descriptor) value .all := by
  simp only [stateSighash, Option.bind_eq_bind, Option.bind_eq_some_iff, Option.some.injEq] at hash
  obtain ⟨tx, made, descriptor, funding, value, added, rfl⟩ := hash
  obtain ⟨_, _, outputs, _, _, rfl⟩ := stateTx_eq_some made
  exact ⟨outputs, descriptor, value, made, funding, added, rfl⟩

end Specs

def myRevocationKeyFor (_m : ChannelManager c) (_index : UInt32) : c.Scalar := 42

def myPublishingSecretKey (m : ChannelManager c) (index : UInt32) : Option c.Scalar :=
  let myKey := m.keychain.nodeKeypair.secretKey
  let myRevKey := m.myRevocationKeyFor index
  markNonZero (myKey + myRevKey)

def myPublishingKeyFor (m : ChannelManager c) (index : UInt32) : Option c.Point := do
  let publishingSecretKey ← m.myPublishingSecretKey index
  some (publishingSecretKey • c.G)

end ChannelManager

end Lindy
