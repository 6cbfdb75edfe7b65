import Lindy.Channel.WellFormed

/-! # A live channel can be closed

The signature that `recv_new_channel_ack` checked is the one `force_close_channel` needs:
both compute the same sighash from the same record, and the keys are those of the funding
descriptor.
-/

namespace Lindy

open Bitcoin Machine Op

variable {c : Crates}

/-- A close transaction as it should be: it spends the channel and nothing else, pays what the
    state transaction pays, and its witness has a valid signature for each funding key. -/
structure ClosesWith (m : ChannelManager c) (channel : Channel c) (index : UInt32)
    (commit : CommitState) (tx : Transaction) : Prop where
  input : ∃ txin, tx.input = [txin] ∧ txin.previousOutput = channel.id ∧
    ∃ sighash keys,
      m.stateSighash channel.id index channel.peerId commit channel.iAmInitiator =
        some sighash ∧
      m.fundingPublicKeys channel.peerId channel.iAmInitiator = some keys ∧
      ∀ key ∈ [keys.1, keys.2], ∃ signature, c.verify key.key sighash signature = true ∧
        c.rawSignature signature ∈ txin.witness
  output : ∃ stateTx,
    m.stateTx channel.id index channel.peerId commit channel.iAmInitiator = some stateTx ∧
    tx.output = stateTx.output

namespace ChannelManager

/-- A PSBT with one input. -/
def single (tx : Transaction) (input : PsbtInput c.PublicKey) : c.Psbt where
  unsignedTx := tx
  inputs := [input]

def withSignature (input : PsbtInput c.PublicKey) (key : c.PublicKey) (signature : c.Signature) :
    PsbtInput c.PublicKey :=
  { input with partialSigs := input.partialSigs.insert key (c.rawSignature signature) }

/-- A verified signature with the low s that `secp256k1` insists on. -/
structure Good (c : Crates) (P : c.Point) (sighash : Bytes) (signature : c.Signature) :
    Prop where
  verified : c.verify P sighash signature = true
  lowS : c.isLowS signature = true

theorem addSignature_good (ecdsa : c.LawfulEcdsa) {sighash : Bytes} {key : c.PublicKey}
    {signature : c.Signature} (good : Good c key.key sighash signature) (tx : Transaction)
    (input : PsbtInput c.PublicKey) :
    addSignature sighash (single tx input) key signature =
      some (single tx (withSignature input key signature)) := by
  have agreed := ecdsa.agrees key.key sighash signature good.verified good.lowS
  simp only [addSignature, good.verified, agreed, and_self, if_true]
  rfl

/-- Both signatures are in; where the keys coincide the second one serves both. -/
theorem partialSigs_good {sighash : Bytes} {key₁ key₂ : c.PublicKey}
    {signature₁ signature₂ : c.Signature} (good₁ : Good c key₁.key sighash signature₁)
    (good₂ : Good c key₂.key sighash signature₂) (input : PsbtInput c.PublicKey) :
    ∃ signature, Good c key₁.key sighash signature ∧
      (withSignature (withSignature input key₁ signature₁) key₂ signature₂).partialSigs.get key₁ =
        some (c.rawSignature signature) := by
  by_cases same : key₁ = key₂
  · subst same
    exact ⟨signature₂, good₂, Table.get_insert_self _ _ _⟩
  · refine ⟨signature₁, good₁, (Table.get_insert_of_ne _ _ same).trans ?_⟩
    exact Table.get_insert_self _ _ _

/-- With a good signature under each key the PSBT becomes the close transaction. -/
theorem finalise_good (miniscripts : c.LawfulMiniscript) (psbts : c.LawfulPsbt)
    (id : ChannelId) (outputs : List TxOut) (input : PsbtInput c.PublicKey) {sighash : Bytes}
    {key₁ key₂ : c.PublicKey} {miniscript : c.Miniscript} {signature₁ signature₂ : c.Signature}
    (compiled : c.compile (.both key₁ key₂) = some miniscript)
    (good₁ : Good c key₁.key sighash signature₁) (good₂ : Good c key₂.key sighash signature₂)
    (signed₁ : input.partialSigs.get key₁ = some (c.rawSignature signature₁))
    (signed₂ : input.partialSigs.get key₂ = some (c.rawSignature signature₂)) :
    ∃ psbt, finalise (.wsh miniscript) (single (spending id outputs) input) = some psbt ∧
      (c.extractTx psbt).output = outputs ∧
      ∃ txin, (c.extractTx psbt).input = [txin] ∧ txin.previousOutput = id ∧
        (∀ key ∈ [key₁, key₂], ∃ signature, c.verify key.key sighash signature = true ∧
          c.rawSignature signature ∈ txin.witness) ∧
        c.rawSignature signature₂ ∈ txin.witness := by
  obtain ⟨satisfied, found, first, second⟩ :=
    miniscripts key₁ key₂ miniscript .default (single (spending id outputs) input) input
      signature₁ signature₂ compiled rfl signed₁ signed₂
  refine ⟨_, by simp only [finalise, found]; rfl, by rw [psbts.extract]; rfl, _,
    by rw [psbts.extract]; rfl, rfl, ?_, ?_⟩
  · intro key member
    simp only [List.mem_cons, List.not_mem_nil, or_false] at member
    rcases member with rfl | rfl
    · exact ⟨signature₁, good₁.verified, first⟩
    · exact ⟨signature₂, good₂.verified, second⟩
  · exact second

variable {m : ChannelManager c} {channel : Channel c} {fundTx : FundTx c}
  {commit : CommitState} {commitSig : c.EncryptedSignature}

/-- The close transaction publishes the signature the peer had encrypted. -/
def Publishes (m : ChannelManager c) (commitSig : c.EncryptedSignature) (tx : Transaction) :
    Prop :=
  ∃ y, m.myPublishingSecretKey 0 = some y ∧
    ∃ txin ∈ tx.input, c.rawSignature (c.decryptSignature y commitSig) ∈ txin.witness

/-- From a committed record the close transaction is made, and is as it should be. -/
theorem Committed.closeTx (adaptors : c.LawfulAdaptor) (ecdsa : c.LawfulEcdsa)
    (miniscripts : c.LawfulMiniscript) (psbts : c.LawfulPsbt)
    (h : m.Committed channel fundTx commit commitSig) (entropy : c.Entropy) :
    ∃ tx, m.closeTx channel.id channel.peerId 0 commit commitSig channel.iAmInitiator entropy =
      some tx ∧ ClosesWith m channel 0 commit tx ∧ m.Publishes commitSig tx := by
  obtain ⟨r₁, P₁, r₂, P₂, sighash, publishingKey, points, hash, published, verified⟩ := h.verified
  obtain ⟨outputs, descriptor, value, made, funding, added, -⟩ := stateSighash_eq_some hash
  obtain ⟨secretKey, secret, own⟩ := fundingSecretKeyFor_point points
  have keys := fundingPublicKeys_eq_some.mpr ⟨r₁, P₁, r₂, P₂, points, rfl⟩
  obtain ⟨_, _, miniscript, keys', compiled, rfl⟩ := fundingDescriptorFor_eq_some.mp funding
  obtain ⟨rfl, rfl⟩ := Prod.mk.inj (Option.some.inj (keys.symm.trans keys'))
  simp only [myPublishingKeyFor, Option.bind_eq_bind, Option.bind_eq_some_iff,
    Option.some.injEq] at published
  obtain ⟨y, publishing, rfl⟩ := published
  -- the two signatures
  obtain ⟨decrypted, low⟩ := adaptors.decrypts P₂ y sighash commitSig verified
  have remote : Good c (PublicKey.mk true P₂).key sighash (c.decryptSignature y commitSig) :=
    ⟨decrypted, low⟩
  have signs := ecdsa.signs secretKey sighash entropy
  have own' : secretKey • c.G = P₁ := own
  rw [own'] at signs
  have mine : Good c (PublicKey.mk true P₁).key sighash (c.sign secretKey sighash entropy) :=
    ⟨signs.1, signs.2⟩
  -- the PSBT, before and after they are added
  have unsigned : c.fromUnsignedTx (spending channel.id outputs) =
      some (.ofUnsigned (spending channel.id outputs)) := by
    apply psbts.fromUnsigned
    simp [spending]
  obtain ⟨input, psbt⟩ : ∃ input, m.statePsbt channel.id 0 channel.peerId commit true =
      some (single (spending channel.id outputs) input) := by
    simp only [statePsbt, made, unsigned, funding, added, Option.bind_eq_bind, Option.bind_some]
    exact ⟨_, rfl⟩
  have signed₁ := addSignature_good ecdsa mine (spending channel.id outputs) input
  have signed₂ := addSignature_good ecdsa remote (spending channel.id outputs)
    (withSignature input ⟨true, P₁⟩ (c.sign secretKey sighash entropy))
  obtain ⟨signature, good, found⟩ := partialSigs_good mine remote input
  obtain ⟨final, finalised, paid, txin, only, spends, witness, remoteShown⟩ :=
    finalise_good miniscripts psbts channel.id outputs (withSignature _ _ _) compiled good remote
      found (Table.get_insert_self _ _ _)
  refine ⟨c.extractTx final, ?_, ⟨⟨txin, only, spends, sighash, (⟨true, P₁⟩, ⟨true, P₂⟩), ?_, ?_,
    witness⟩, ⟨spending channel.id outputs, ?_, paid⟩⟩, y, publishing, txin, by simp [only],
    remoteShown⟩
  · rw [h.initiator]
    simp only [ChannelManager.closeTx, publishing, psbt, secret, keys, hash, funding, signed₁,
      signed₂, Option.bind_eq_bind, Option.bind_some, if_true]
    rw [finalised, Option.bind_some]
  · rw [h.initiator, hash]
  · rw [h.initiator, keys]
  · rw [h.initiator, made]

end ChannelManager

/-- Whatever the peers sent, a live channel can be closed: `force_close_channel` passes its
    assertions and answers with a transaction that closes the channel, and the record becomes
    closed with it, also when other steps come between computing and storing it. -/
theorem liveChannelCloses {n : Node c} (adaptors : c.LawfulAdaptor) (ecdsa : c.LawfulEcdsa)
    (miniscripts : c.LawfulMiniscript) (psbts : c.LawfulPsbt) {ts s} (run : n.Runs ts s)
    {id : ChannelId} {channel : Channel c} {index : UInt32} {commit : CommitState}
    {commitSig : c.EncryptedSignature}
    (stored : s.db.getChannel id = some channel)
    (live : channel.state = .live index commit commitSig) (entropy : c.Entropy) :
    ∃ tx closed, channel.id = id ∧ ClosesWith n.manager channel index commit tx ∧
      closed = { channel with state := .closed tx } ∧
      n.manager.forceCloseChannel id entropy s =
        .ok tx { s with db := s.db.insertChannel closed } ∧
      (s.suspended = none → n.step s (.updateChannel id entropy) =
        some (.ok .storing, { s with suspended := some (.close closed tx) })) ∧
      ∀ u, u.suspended = some (.close closed tx) → n.step u .resume =
        some (.ok (.closed tx), { u with db := u.db.insertChannel closed, suspended := none }) := by
  obtain ⟨rfl, good⟩ := run.wellFormed.stored stored
  obtain ⟨rfl, fundTx, committed⟩ := good.live_committed live
  obtain ⟨tx, made, closes, -⟩ := committed.closeTx adaptors ecdsa miniscripts psbts entropy
  have closing : n.manager.closeChannel channel.id entropy s =
      .ok ({ channel with state := .closed tx }, tx) s :=
    n.manager.closeChannel_eq_ok.mpr
      ⟨rfl, channel, 0, commit, commitSig, stored, live, made, rfl⟩
  refine ⟨tx, _, rfl, closes, rfl, bind_of_ok closing, fun free => ?_, fun u held => ?_⟩
  · refine Node.step_eq_some.mpr ⟨fun _ => free, ?_⟩
    exact Node.outcome_of_ok (bind_of_ok closing)
  · refine Node.step_eq_some.mpr ⟨by simp [Act.locks], ?_⟩
    refine Node.outcome_of_ok ?_
    rw [Node.perform, bind_of_ok (get_apply u), held]
    rfl

theorem liveChannelCloses_small : ∃ ts s tx channel, smallNode.Runs ts s ∧
    smallAlice.forceCloseChannel ⟨7, 0⟩ () s = .ok tx { s with db := s.db.insertChannel channel } ∧
    channel.state = .closed tx := by
  obtain ⟨ts, s, channel, done, stored, -, live⟩ := smallOpening_live
  have run : smallNode.Runs ts s := execReplies_run done
  obtain ⟨tx, closed, -, -, rfl, closes, -⟩ := liveChannelCloses smallCrates_adaptor
    smallCrates_ecdsa smallCrates_miniscript smallCrates_psbt run stored live ()
  exact ⟨ts, s, tx, _, run, closes, rfl⟩

end Lindy
