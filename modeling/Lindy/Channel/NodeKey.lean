import Lindy.Channel.ForceClose

/-! # What a close transaction gives away

The peer encrypted its signature to the publishing key of the initiator. Whoever holds the
encrypted signature and sees it decrypted learns the publishing secret, and the publishing
secret is the secret key of the node plus a constant.
-/

namespace Lindy

open Bitcoin Machine Op

variable {c : Crates}

/-- `f` computes the secret key of every node from each publishing secret the node uses. -/
def Crates.NodeKeyFrom (c : Crates) (f : c.Scalar → c.Scalar) : Prop :=
  ∀ (m : ChannelManager c) (index : UInt32) (y : c.Scalar),
    m.myPublishingSecretKey index = some y → f y = m.keychain.nodeKeypair.secretKey

/-- What the revocation key is for: no function, the same for all nodes, gets the secret key
    of a node out of its publishing secrets. -/
def Crates.HidesNodeKey (c : Crates) : Prop := ¬ ∃ f, c.NodeKeyFrom f

/-- `recover_decryption_key` of `ecdsa_fun`: an encrypted signature and what it decrypts to
    show the decryption key. -/
def Crates.Recovers (c : Crates)
    (recover : c.Point → c.EncryptedSignature → c.Signature → Option c.Scalar) : Prop :=
  ∀ (P : c.Point) (y : c.Scalar) (message : Bytes) (encrypted : c.EncryptedSignature),
    c.verifyEncryptedSignature P (y • c.G) message encrypted = true →
      recover (y • c.G) encrypted (c.decryptSignature y encrypted) = some y

/-- From what it knows of a channel it did not open, the peer that signed its commitment and
    sees it closed computes the secret key of the other node. -/
structure Reveals (m : ChannelManager c)
    (recover : c.Point → c.EncryptedSignature → c.Signature → Option c.Scalar)
    (channel : Channel c) (closeTx : Transaction) : Prop where
  initiator : channel.iAmInitiator = true
  learns : ∃ commit commitSig publishingKey signature y,
    m.AckVerifies channel.peerId channel.id commit commitSig ∧
    m.myPublishingKeyFor 0 = some publishingKey ∧
    (∃ txin ∈ closeTx.input, c.rawSignature signature ∈ txin.witness) ∧
    recover publishingKey commitSig signature = some y ∧
    m.myPublishingSecretKey 0 = some y ∧
    y - 42 = m.keychain.nodeKeypair.secretKey

/-- The revocation key is the same number for every node and every index. -/
theorem nodeKeyFrom_sub : c.NodeKeyFrom fun y => y - 42 := by
  intro m index y secret
  obtain ⟨-, rfl⟩ := markNonZero_eq_some.mp secret
  exact add_sub_cancel_right _ _

namespace ChannelManager

variable {m : ChannelManager c} {channel : Channel c} {fundTx : FundTx c}
  {commit : CommitState} {commitSig : c.EncryptedSignature}

/-- The signature of a committed channel was encrypted to the publishing key of the node. -/
theorem Committed.encryptedTo (h : m.Committed channel fundTx commit commitSig) {y : c.Scalar}
    (secret : m.myPublishingSecretKey 0 = some y) :
    m.myPublishingKeyFor 0 = some (y • c.G) ∧ ∃ P sighash,
      c.verifyEncryptedSignature P (y • c.G) sighash commitSig = true := by
  obtain ⟨r₁, P₁, r₂, P₂, sighash, publishingKey, -, -, published, verified⟩ := h.verified
  have made : m.myPublishingKeyFor 0 = some (y • c.G) := by
    simp only [myPublishingKeyFor, secret, Option.bind_eq_bind, Option.bind_some]
  obtain rfl := Option.some.inj (published.symm.trans made)
  exact ⟨made, P₂, sighash, verified⟩

theorem Committed.reveals (adaptors : c.LawfulAdaptor) (ecdsa : c.LawfulEcdsa)
    (miniscripts : c.LawfulMiniscript) (psbts : c.LawfulPsbt)
    {recover : c.Point → c.EncryptedSignature → c.Signature → Option c.Scalar}
    (recovers : c.Recovers recover) (h : m.Committed channel fundTx commit commitSig)
    {entropy : c.Entropy} {closeTx : Transaction}
    (made : m.closeTx channel.id channel.peerId 0 commit commitSig true entropy = some closeTx) :
    Reveals m recover channel closeTx := by
  obtain ⟨tx, closes, -, y, secret, txin, spends, shown⟩ :=
    h.closeTx adaptors ecdsa miniscripts psbts entropy
  rw [h.initiator, made] at closes
  obtain rfl := Option.some.inj closes
  obtain ⟨published, P, sighash, verified⟩ := h.encryptedTo secret
  exact ⟨h.initiator, commit, commitSig, _, _, y, h.verified, published, ⟨txin, spends, shown⟩,
    recovers P y sighash commitSig verified, secret, nodeKeyFrom_sub m 0 y secret⟩

end ChannelManager

/-- The publishing secret never hides the key of the node, and every channel a node force
    closed, in any run, has told its peer the secret key of the node. -/
theorem nodeKeyRevealed (adaptors : c.LawfulAdaptor) (ecdsa : c.LawfulEcdsa)
    (miniscripts : c.LawfulMiniscript) (psbts : c.LawfulPsbt)
    {recover : c.Point → c.EncryptedSignature → c.Signature → Option c.Scalar}
    (recovers : c.Recovers recover) :
    ¬ c.HidesNodeKey ∧ ∀ (n : Node c) ts s, n.Runs ts s → ∀ id channel closeTx,
      s.db.getChannel id = some channel → channel.state = .closed closeTx →
        Reveals n.manager recover channel closeTx := by
  constructor
  · exact not_not_intro ⟨_, nodeKeyFrom_sub⟩
  · intro n ts s run id channel closeTx stored closed
    obtain ⟨rfl, good⟩ := run.wellFormed.stored stored
    simp only [Channel.WellFormed, closed] at good
    obtain ⟨fundTx, commit, commitSig, entropy, committed, made⟩ := good
    exact committed.reveals adaptors ecdsa miniscripts psbts recovers made

section Small

/-- In the small group the encryption key is its own secret. -/
def recoverSmall (Y : ZMod 101) (encrypted : ZMod 101 × ZMod 101 × Bytes)
    (signature : ZMod 101 × Bytes) : Option (ZMod 101) :=
  if decryptSmall Y encrypted = signature then some Y else none

theorem recoverSmall_decrypted {P y : ZMod 101} {message : Bytes}
    {encrypted : ZMod 101 × ZMod 101 × Bytes}
    (accepted : verifyEncryptedSmall P (y • 1) message encrypted = true) :
    recoverSmall (y • 1) encrypted (decryptSmall y encrypted) = some y := by
  obtain rfl : encrypted = (P, y • 1, message) := beq_iff_eq.mp accepted
  simp [recoverSmall]

theorem smallCrates_recovers {txid : Transaction → Txid} {overflowChecks : Bool} :
    (smallCratesWith txid overflowChecks).Recovers recoverSmall :=
  fun _ _ _ _ accepted => recoverSmall_decrypted accepted

theorem nodeKeyRevealed_small : ∃ ts s channel closeTx, smallNode.Runs ts s ∧
    s.db.getChannel ⟨7, 0⟩ = some channel ∧ Reveals smallAlice recoverSmall channel closeTx := by
  obtain ⟨ts, s, channel, closeTx, done, stored, closed⟩ : ∃ ts s channel closeTx,
      smallNode.exec .init (smallOpening ++ [.updateChannel ⟨7, 0⟩ (), .resume]) = some (ts, s) ∧
      s.db.getChannel ⟨7, 0⟩ = some channel ∧ channel.state = .closed closeTx :=
    ⟨_, _, _, _, rfl, rfl, rfl⟩
  have run : smallNode.Runs ts s := execReplies_run done
  exact ⟨ts, s, channel, closeTx, run, stored, (nodeKeyRevealed smallCrates_adaptor
    smallCrates_ecdsa smallCrates_miniscript smallCrates_psbt smallCrates_recovers).2 smallNode ts s
      run _ _ _ stored closed⟩

/-- The node with secret key 2 opens a channel and closes it again: the witness of the close
    transaction has the signature its peer encrypted to 44 times the generator, the peer
    recovers 44 and takes 42 away. -/
theorem nodeKeyTold : ¬ smallCrates.HidesNodeKey ∧
    ∃ (ts : List (Transition (NodeState smallCrates) (Act smallCrates × Reply smallCrates)))
      (s : NodeState smallCrates) (channel : Channel smallCrates) (closeTx : Transaction)
      (txin : TxIn), smallNode.Runs ts s ∧
      s.db.getChannel ⟨7, 0⟩ = some channel ∧ channel.state = .closed closeTx ∧
      closeTx.input = [txin] ∧
      smallCrates.rawSignature (smallPoint 6, [1, 232, 3, 6]) ∈ txin.witness ∧
      recoverSmall (smallPoint 44) (smallPoint 6, smallPoint 44, [1, 232, 3, 6])
        (smallPoint 6, [1, 232, 3, 6]) = some (smallPoint 44) ∧
      (44 - 42 : ZMod 101) = smallAlice.keychain.nodeKeypair.secretKey := by
  refine ⟨not_not_intro ⟨_, nodeKeyFrom_sub⟩, ?_⟩
  obtain ⟨ts, s, channel, closeTx, txin, done, stored, closed, only, shown⟩ :
      ∃ ts s channel closeTx txin,
      smallNode.exec .init (smallOpening ++ [.updateChannel ⟨7, 0⟩ (), .resume]) = some (ts, s) ∧
      s.db.getChannel ⟨7, 0⟩ = some channel ∧ channel.state = .closed closeTx ∧
      closeTx.input = [txin] ∧
      smallCrates.rawSignature (smallPoint 6, [1, 232, 3, 6]) ∈ txin.witness :=
    ⟨_, _, _, _, _, rfl, rfl, rfl, rfl, by decide⟩
  refine ⟨ts, s, channel, closeTx, txin, execReplies_run done, stored, closed, only, shown, ?_, ?_⟩
  · rfl
  · rfl

end Small

end Lindy
