import Lindy.Channel.Node

/-! # What one step of a node can do

One lemma for each operation says what it stores and answers, and `Effect` puts them
together: every step of a node is one of its cases. The invariants of later modules are
proved over these cases and never open an operation again.
-/

namespace Lindy

open Bitcoin Machine Op

variable {c : Crates}

/-- The record `new_channel` stores. -/
def FundTx.pendingChannel (fundTx : FundTx c) (id : ChannelId) (peerId : c.PeerId)
    (value : UInt64) : Channel c :=
  { id, state := .pending fundTx, peerId, value, iAmInitiator := true }

/-- The record `recv_new_channel` stores. -/
def RsEcdsaNewChannel.waitingChannel (channel : RsEcdsaNewChannel c) (peer : c.PeerId) :
    WaitingChannel c where
  channel := { id := channel.id, state := .waitingForFund, peerId := peer
               value := channel.fundingSatoshis, iAmInitiator := false }
  waiting := rfl

/-- The record `recv_new_channel_ack` stores. -/
def Channel.readied (channel : Channel c) (fundTx : FundTx c) (commit : CommitState)
    (commitSig : c.EncryptedSignature) : ReadyChannel c where
  channel := { channel with state := .readyToFund fundTx commit commitSig }
  fundTx := fundTx
  commit := commit
  commitSig := commitSig
  ready := rfl

def ReadyChannel.live (ready : ReadyChannel c) : Channel c :=
  { ready.channel with state := .live 0 ready.commit ready.commitSig }

def WaitingChannel.funded (waiting : WaitingChannel c) (tx : Transaction) : Channel c :=
  { waiting.channel with state := .funded tx }

namespace Op

@[simp] theorem orPanic_some {α : Type} (a : α) (s : NodeState c) :
    (orPanic (some a) : Op c α) s = .ok a s := rfl

@[simp] theorem orPanic_none {α : Type} (s : NodeState c) :
    (orPanic none : Op c α) s = .error .panic s := rfl

theorem orPanic_reads {α : Type} (a : Option α) : Reads (orPanic a : Op c α) := by
  cases a with
  | none => exact .throw _
  | some a => exact .pure a

theorem orPanic_eq_ok {α : Type} {o : Option α} {a : α} {s t : NodeState c} :
    (orPanic o : Op c α) s = .ok a t ↔ o = some a ∧ s = t := by
  cases o with
  | none => simp
  | some b => simp

@[simp] theorem insertChannel_apply (channel : Channel c) (s : NodeState c) :
    insertChannel channel s = .ok () { s with db := s.db.insertChannel channel } := rfl

end Op

namespace ChannelManager

variable (m : ChannelManager c)

theorem waitForFunding_ready (ready : ReadyChannel c) (s : NodeState c) :
    m.waitForFunding ready.channel s =
      .ok () { s with tasks := s.tasks ++ [.readyToFund ready] } := by
  obtain ⟨⟨id, state, peerId, value, iAmInitiator⟩, fundTx, commit, commitSig, found⟩ := ready
  obtain rfl : state = .readyToFund fundTx commit commitSig := found
  rfl

theorem waitForFunding_waiting (waiting : WaitingChannel c) {descriptor : c.Descriptor}
    (made : m.fundingDescriptorFor waiting.channel.peerId false = some descriptor)
    (s : NodeState c) :
    m.waitForFunding waiting.channel s =
      .ok () { s with tasks := s.tasks ++ [.waitingForFund waiting descriptor] } := by
  obtain ⟨⟨id, state, peerId, value, iAmInitiator⟩, found⟩ := waiting
  obtain rfl : state = .waitingForFund := found
  exact bind_of_ok (orPanic_eq_ok.mpr ⟨made, rfl⟩)

section NewChannel

variable {wallet : Wallet c} {value : UInt64} {peer : c.PeerId} {descriptor : c.Descriptor}
  {psbt : c.Psbt}

theorem newChannel_underived (missing : m.fundingDescriptorFor peer true = none)
    (s : NodeState c) : m.newChannel wallet value peer s = .error .panic s := by
  simp [newChannel, missing, bind, EStateM.bind]

theorem newChannel_unpaid (made : m.fundingDescriptorFor peer true = some descriptor)
    {error : c.BdkError} (unpaid : wallet (c.scriptPubkey descriptor) value = .error error)
    (s : NodeState c) : m.newChannel wallet value peer s = .error (.bdk error) s := by
  simp [newChannel, made, createFundTransaction, unpaid, bind, EStateM.bind, Except.bind]

theorem newChannel_unnamed (made : m.fundingDescriptorFor peer true = some descriptor)
    (paid : wallet (c.scriptPubkey descriptor) value = .ok psbt)
    (unnamed : FundTx.channelId ⟨descriptor, psbt⟩ = none) (s : NodeState c) :
    m.newChannel wallet value peer s = .error .panic s := by
  simp [newChannel, made, createFundTransaction, paid, unnamed, bind, EStateM.bind, Except.bind,
    pure, Except.pure, EStateM.pure]

/-- With a funding transaction whose channel has a name, `new_channel` stores a pending record
    and then computes its message. -/
theorem newChannel_paid (made : m.fundingDescriptorFor peer true = some descriptor)
    (paid : wallet (c.scriptPubkey descriptor) value = .ok psbt) {id : ChannelId}
    (named : FundTx.channelId ⟨descriptor, psbt⟩ = some id) (s : NodeState c) :
    m.newChannel wallet value peer s =
      (orPanic (m.myPublishingKeyFor 0) >>= fun publishingKey =>
        pure { id, fundingSatoshis := value, toSelfDelay := m.toSelfDelay,
               feeratePerKw := 372 * 250, publishingKey })
        { s with db := s.db.insertChannel
                  (FundTx.pendingChannel ⟨descriptor, psbt⟩ id peer value) } := by
  simp [newChannel, made, createFundTransaction, paid, named, bind, EStateM.bind, Except.bind,
    pure, Except.pure, EStateM.pure, FundTx.pendingChannel]

end NewChannel

/-- `new_channel` fails before it stores anything, or stores a pending record and then
    computes its message. -/
theorem newChannel_cases (wallet : Wallet c) (value : UInt64) (peer : c.PeerId)
    (s : NodeState c) :
    (∃ failure, m.newChannel wallet value peer s = .error failure s) ∨
    ∃ descriptor psbt id, m.fundingDescriptorFor peer true = some descriptor ∧
      wallet (c.scriptPubkey descriptor) value = .ok psbt ∧
      FundTx.channelId ⟨descriptor, psbt⟩ = some id ∧
      m.newChannel wallet value peer s =
        (orPanic (m.myPublishingKeyFor 0) >>= fun publishingKey =>
          pure { id, fundingSatoshis := value, toSelfDelay := m.toSelfDelay,
                 feeratePerKw := 372 * 250, publishingKey })
          { s with db := s.db.insertChannel
                    (FundTx.pendingChannel ⟨descriptor, psbt⟩ id peer value) } := by
  cases made : m.fundingDescriptorFor peer true with
  | none => exact .inl ⟨_, m.newChannel_underived made s⟩
  | some descriptor =>
      cases paid : wallet (c.scriptPubkey descriptor) value with
      | error error => exact .inl ⟨_, m.newChannel_unpaid made paid s⟩
      | ok psbt =>
          cases named : FundTx.channelId (c := c) ⟨descriptor, psbt⟩ with
          | none => exact .inl ⟨_, m.newChannel_unnamed made paid named s⟩
          | some id =>
              exact .inr ⟨descriptor, psbt, id, rfl, paid, named,
                m.newChannel_paid made paid named s⟩

/-- Once the keys and the sighash are there, `recv_new_channel` stores a waiting record,
    spawns its task and answers. -/
theorem recvNewChannel_ok {peer : c.PeerId} {channel : RsEcdsaNewChannel c}
    {secretKey : c.Scalar} {sighash : Bytes}
    (key : m.fundingSecretKeyFor peer false = some secretKey)
    (hash : m.stateSighash channel.id 0 peer ⟨channel.fundingSatoshis, 0⟩ false = some sighash)
    (entropy : c.Entropy) (s : NodeState c) :
    ∃ descriptor, m.fundingDescriptorFor peer false = some descriptor ∧
      m.recvNewChannel peer channel entropy s =
        .ok ⟨channel.id, c.encryptedSign secretKey channel.publishingKey sighash entropy⟩
          { s with db := s.db.insertChannel (channel.waitingChannel peer).channel
                   tasks := s.tasks ++ [.waitingForFund (channel.waitingChannel peer)
                     descriptor] } := by
  obtain ⟨_, descriptor, _, -, made, -⟩ := stateSighash_eq_some hash
  refine ⟨descriptor, made, ?_⟩
  rw [recvNewChannel, key, hash, bind_of_ok (orPanic_some _ _), bind_of_ok (orPanic_some _ _),
    bind_of_ok (insertChannel_apply _ _)]
  exact bind_of_ok (m.waitForFunding_waiting (channel.waitingChannel peer) made _)

/-- Otherwise it panics before it stores anything. -/
theorem recvNewChannel_panics {peer : c.PeerId} {channel : RsEcdsaNewChannel c}
    (missing : m.fundingSecretKeyFor peer false = none ∨
      m.stateSighash channel.id 0 peer ⟨channel.fundingSatoshis, 0⟩ false = none)
    (entropy : c.Entropy) (s : NodeState c) :
    m.recvNewChannel peer channel entropy s = .error .panic s := by
  rcases missing with key | hash
  · rw [recvNewChannel, key, bind_of_error (orPanic_none _)]
  · rw [recvNewChannel, hash]
    cases m.fundingSecretKeyFor peer false with
    | none => rw [bind_of_error (orPanic_none _)]
    | some secretKey => rw [bind_of_ok (orPanic_some _ _), bind_of_error (orPanic_none _)]

/-- Which of the two it is does not depend on the state or on what is drawn. -/
theorem recvNewChannel_cases (peer : c.PeerId) (channel : RsEcdsaNewChannel c) :
    (∀ entropy s, m.recvNewChannel peer channel entropy s = .error .panic s) ∨
    ∃ secretKey sighash descriptor, m.fundingSecretKeyFor peer false = some secretKey ∧
      m.stateSighash channel.id 0 peer ⟨channel.fundingSatoshis, 0⟩ false = some sighash ∧
      m.fundingDescriptorFor peer false = some descriptor ∧
      ∀ entropy s, m.recvNewChannel peer channel entropy s =
        .ok ⟨channel.id, c.encryptedSign secretKey channel.publishingKey sighash entropy⟩
          { s with db := s.db.insertChannel (channel.waitingChannel peer).channel
                   tasks := s.tasks ++ [.waitingForFund (channel.waitingChannel peer)
                     descriptor] } := by
  cases key : m.fundingSecretKeyFor peer false with
  | none => exact .inl (m.recvNewChannel_panics (.inl key))
  | some secretKey =>
      cases hash : m.stateSighash channel.id 0 peer ⟨channel.fundingSatoshis, 0⟩ false with
      | none => exact .inl (m.recvNewChannel_panics (.inr hash))
      | some sighash =>
          obtain ⟨_, descriptor, _, -, made, -⟩ := stateSighash_eq_some hash
          refine .inr ⟨secretKey, sighash, descriptor, rfl, rfl, made, fun entropy s => ?_⟩
          obtain ⟨_, made', run⟩ := m.recvNewChannel_ok key hash entropy s
          obtain rfl := Option.some.inj (made.symm.trans made')
          exact run

theorem storeReady_apply (ready : ReadyChannel c) (s : NodeState c) :
    m.storeReady ready s = .ok () { s with
      db := s.db.insertChannel ready.channel
      tasks := s.tasks ++ [.readyToFund ready] } := by
  rw [storeReady, bind_of_ok (insertChannel_apply _ _)]
  exact m.waitForFunding_ready ready _

theorem checkAck_reads (peer : c.PeerId) (channel : RsEcdsaAckNewChannel c) :
    Reads (m.checkAck peer channel) := by
  refine Reads.get.bind fun s => ?_
  split
  · exact .throw _
  · split
    · refine (orPanic_reads _).bind fun p1 => ?_
      refine (orPanic_reads _).bind fun points => ?_
      refine (orPanic_reads _).bind fun sighash => ?_
      refine (orPanic_reads _).bind fun publishingKey => ?_
      split
      · exact .pure _
      · exact .throw _
    · exact .throw _

/-- The signature of an ack, as `recv_new_channel_ack` checks it. -/
def AckVerifies (peer : c.PeerId) (id : ChannelId) (commit : CommitState)
    (commitSig : c.EncryptedSignature) : Prop :=
  ∃ r₁ P₁ r₂ P₂ sighash publishingKey,
    (m.pointRandomizer peer true).pointsAt .funding = some ((r₁, P₁), (r₂, P₂)) ∧
    m.stateSighash id 0 peer commit true = some sighash ∧
    m.myPublishingKeyFor 0 = some publishingKey ∧
    c.verifyEncryptedSignature P₂ publishingKey sighash commitSig = true

/-- When `recv_new_channel_ack` gets to its insert, and with which record. -/
theorem checkAck_eq_ok {peer : c.PeerId} {channel : RsEcdsaAckNewChannel c}
    {ready : ReadyChannel c} {s s' : NodeState c} :
    m.checkAck peer channel s = .ok ready s' ↔ s' = s ∧
      ∃ stored fundTx p1, s.db.getChannel channel.id = some stored ∧ stored.peerId = peer ∧
        stored.state = .pending fundTx ∧ fundTx.outputValue = some p1 ∧
        m.AckVerifies peer channel.id ⟨p1, 0⟩ channel.commitSig ∧
        ready = stored.readied fundTx ⟨p1, 0⟩ channel.commitSig := by
  rw [checkAck, bind_of_ok (get_apply s)]
  cases found : s.db.getChannelForPeer channel.id peer with
  | none =>
      simp only [throw_apply, reduceCtorEq, false_iff, not_and, not_exists]
      rintro - stored fundTx p1 there same
      have := InMemory.getChannelForPeer_eq_some.mpr ⟨there, same⟩
      simp [found] at this
  | some stored =>
      obtain ⟨there, same⟩ := InMemory.getChannelForPeer_eq_some.mp found
      obtain rfl := same
      simp only [there, Option.some.injEq, exists_and_left, exists_eq_left', true_and]
      cases state : stored.state with
      | pending fundTx =>
          simp only [ChannelState.pending.injEq, exists_eq_left', AckVerifies, bind_eq_ok,
            orPanic_eq_ok]
          constructor
          · rintro ⟨p1, t, ⟨valued, rfl⟩, ⟨⟨r₁, P₁⟩, ⟨r₂, P₂⟩⟩, t, ⟨points, rfl⟩, sighash, t,
              ⟨hash, rfl⟩, publishingKey, t, ⟨key, rfl⟩, rest⟩
            split at rest
            · rename_i verified
              injection rest with readied kept
              exact ⟨kept.symm, p1, valued, ⟨r₁, P₁, r₂, P₂, sighash, publishingKey, points,
                hash, key, verified⟩, readied.symm⟩
            · simp at rest
          · rintro ⟨rfl, p1, valued, ⟨r₁, P₁, r₂, P₂, sighash, publishingKey, points, hash, key,
              verified⟩, rfl⟩
            refine ⟨p1, _, ⟨valued, rfl⟩, _, _, ⟨points, rfl⟩, sighash, _, ⟨hash, rfl⟩,
              publishingKey, _, ⟨key, rfl⟩, ?_⟩
            simp only [verified, if_true]
            rfl
      | _ => simp

theorem closeChannel_reads (channelId : ChannelId) (entropy : c.Entropy) :
    Reads (m.closeChannel channelId entropy) := by
  refine Reads.get.bind fun s => ?_
  split
  · exact .throw _
  · split
    · exact (orPanic_reads _).bind fun _ => .pure _
    · exact .throw _

/-- When `force_close_channel` gets to its insert, and with what. -/
theorem closeChannel_eq_ok {id : ChannelId} {entropy : c.Entropy} {channel : Channel c}
    {tx : Transaction} {s s' : NodeState c} :
    m.closeChannel id entropy s = .ok (channel, tx) s' ↔ s' = s ∧
      ∃ stored index commit commitSig, s.db.getChannel id = some stored ∧
        stored.state = .live index commit commitSig ∧
        m.closeTx id stored.peerId index commit commitSig stored.iAmInitiator entropy =
          some tx ∧
        channel = { stored with state := .closed tx } := by
  rw [closeChannel, bind_of_ok (get_apply s)]
  cases found : s.db.getChannel id with
  | none => simp
  | some stored =>
      simp only [Option.some.injEq, exists_and_left, exists_eq_left']
      cases state : stored.state with
      | live index commit commitSig =>
          simp only [bind_eq_ok, orPanic_eq_ok, ChannelState.live.injEq]
          constructor
          · rintro ⟨tx', t, ⟨made, rfl⟩, done⟩
            injection done with both kept
            obtain ⟨closed, rfl⟩ := Prod.mk.inj both
            exact ⟨kept.symm, index, commit, commitSig, ⟨rfl, rfl, rfl⟩, made, closed.symm⟩
          · rintro ⟨rfl, index', commit', commitSig', ⟨rfl, rfl, rfl⟩, made, rfl⟩
            exact ⟨tx, s', ⟨made, rfl⟩, rfl⟩
      | _ => simp

end ChannelManager

/-- A finished task has stored the record it waited to store, or nothing. -/
theorem Task.finish_cases (task : Task c) (tx : Transaction) (s : NodeState c) :
    (∃ ready, task = .readyToFund ready ∧ ready.fundTx.matchesTx tx = some true ∧
      task.finish tx s = .ok () { s with db := s.db.insertChannel ready.live }) ∨
    (∃ waiting descriptor, task = .waitingForFund waiting descriptor ∧
      tx.output[waiting.channel.id.vout.toNat]? =
        some ⟨waiting.channel.value, c.scriptPubkey descriptor⟩ ∧
      task.finish tx s = .ok () { s with db := s.db.insertChannel (waiting.funded tx) }) ∨
    task.finish tx s = .ok () s ∨ ∃ failure, task.finish tx s = .error failure s := by
  cases task with
  | readyToFund ready =>
      cases matched : ready.fundTx.matchesTx tx with
      | none => exact .inr (.inr (.inr ⟨.panic, by simp [finish, matched, bind, EStateM.bind]⟩))
      | some same =>
          cases same with
          | true =>
              exact .inl ⟨ready, rfl, matched, by
                simp [finish, matched, bind, EStateM.bind, ReadyChannel.live]⟩
          | false =>
              exact .inr (.inr (.inr ⟨.panic, by simp [finish, matched, bind, EStateM.bind]⟩))
  | waitingForFund waiting descriptor =>
      right
      cases found : tx.output[waiting.channel.id.vout.toNat]? with
      | none => exact .inr (.inl (by simp [finish, found]))
      | some output =>
          obtain ⟨value, script⟩ := output
          by_cases same : script = c.scriptPubkey descriptor ∧ value = waiting.channel.value
          · refine .inl ⟨waiting, descriptor, rfl, ?_, ?_⟩
            · rw [found, same.1, same.2]
            · simp only [finish, found, same, and_self, if_true]
              rfl
          · exact .inr (.inl (by simp [finish, found, same]))

/-- What a step does to the state. `quiet` steps do nothing and send nothing. -/
inductive Effect (n : Node c) (s : NodeState c) : Act c → Reply c → NodeState c → Prop where
  | quiet {a reply} : Reply.sends reply = none → Effect n s a reply s
  | opened {value peer wallet descriptor psbt id reply} :
      n.manager.fundingDescriptorFor peer true = some descriptor →
      wallet (c.scriptPubkey descriptor) value = .ok psbt →
      FundTx.channelId ⟨descriptor, psbt⟩ = some id →
      (∀ output, reply = .ok output → ∃ publishingKey,
        n.manager.myPublishingKeyFor 0 = some publishingKey ∧
        output = .send peer (.rsEcdsaNewChannel
          { id, fundingSatoshis := value, toSelfDelay := n.manager.toSelfDelay,
            feeratePerKw := 372 * 250, publishingKey })) →
      Effect n s (.openChannel value peer wallet) reply { s with
        db := s.db.insertChannel (FundTx.pendingChannel ⟨descriptor, psbt⟩ id peer value) }
  | accepted {peer channel entropy secretKey sighash descriptor} :
      n.manager.fundingSecretKeyFor peer false = some secretKey →
      n.manager.stateSighash channel.id 0 peer ⟨channel.fundingSatoshis, 0⟩ false =
        some sighash →
      n.manager.fundingDescriptorFor peer false = some descriptor →
      Effect n s (.receive peer (.rsEcdsaNewChannel channel) entropy)
        (.ok (.send peer (.rsEcdsaAckNewChannel ⟨channel.id,
          c.encryptedSign secretKey channel.publishingKey sighash entropy⟩)))
        { s with
          db := s.db.insertChannel (channel.waitingChannel peer).channel
          tasks := s.tasks ++ [.waitingForFund (channel.waitingChannel peer) descriptor] }
  | checked {peer channel entropy stored fundTx p1} :
      s.suspended = none →
      s.db.getChannel channel.id = some stored → stored.peerId = peer →
      stored.state = .pending fundTx → fundTx.outputValue = some p1 →
      n.manager.AckVerifies peer channel.id ⟨p1, 0⟩ channel.commitSig →
      Effect n s (.receive peer (.rsEcdsaAckNewChannel channel) entropy) (.ok .storing)
        { s with suspended := some (.ack (stored.readied fundTx ⟨p1, 0⟩ channel.commitSig)) }
  | closing {id entropy stored index commit commitSig tx} :
      s.suspended = none →
      s.db.getChannel id = some stored → stored.state = .live index commit commitSig →
      n.manager.closeTx id stored.peerId index commit commitSig stored.iAmInitiator entropy =
        some tx →
      Effect n s (.updateChannel id entropy) (.ok .storing)
        { s with suspended := some (.close { stored with state := .closed tx } tx) }
  | acked {ready} :
      s.suspended = some (.ack ready) →
      Effect n s .resume (.ok .acked)
        { s with
          db := s.db.insertChannel ready.channel
          tasks := s.tasks ++ [.readyToFund ready]
          suspended := none }
  | closed {channel tx} :
      s.suspended = some (.close channel tx) →
      Effect n s .resume (.ok (.closed tx))
        { s with db := s.db.insertChannel channel, suspended := none }
  /-- The record that was to be stored is forgotten. -/
  | abandoned {channel tx} :
      s.suspended = some (.close channel tx) →
      Effect n s .hangUp (.ok .idle) { s with suspended := none }
  | live {i now ready tx} :
      s.tasks[i]? = some (.readyToFund ready) →
      n.chain.getTx ready.channel.id.txid now = .ok (some tx) →
      ready.fundTx.matchesTx tx = some true →
      Effect n s (.poll i now) (.ok .finished)
        { s with
          db := s.db.insertChannel ready.live
          tasks := s.tasks.eraseIdx i
          answers := s.answers ++ [(ready.channel.id.txid, tx)] }
  | funded {i now waiting descriptor tx} :
      s.tasks[i]? = some (.waitingForFund waiting descriptor) →
      n.chain.getTx waiting.channel.id.txid now = .ok (some tx) →
      tx.output[waiting.channel.id.vout.toNat]? =
        some ⟨waiting.channel.value, c.scriptPubkey descriptor⟩ →
      Effect n s (.poll i now) (.ok .finished)
        { s with
          db := s.db.insertChannel (waiting.funded tx)
          tasks := s.tasks.eraseIdx i
          answers := s.answers ++ [(waiting.channel.id.txid, tx)] }
  /-- The task ends without storing anything. -/
  | rejected {i now task tx reply} :
      s.tasks[i]? = some task → n.chain.getTx task.channel.id.txid now = .ok (some tx) →
      Reply.sends reply = none →
      Effect n s (.poll i now) reply
        { s with
          tasks := s.tasks.eraseIdx i
          answers := s.answers ++ [(task.channel.id.txid, tx)] }

theorem Node.outcome_of_ok {n : Node c} {s s' : NodeState c} {a : Act c} {output : Output c}
    (done : n.perform a s = .ok output s') : n.outcome s a = (.ok output, s') := by
  simp only [outcome, done]

theorem Node.outcome_of_error {n : Node c} {s s' : NodeState c} {a : Act c}
    {failure : Failure c} (failed : n.perform a s = .error failure s') :
    n.outcome s a = (.error failure, s') := by
  simp only [outcome, failed]

theorem Node.step_eq_some {n : Node c} {s s' : NodeState c} {a : Act c} {reply : Reply c} :
    n.step s a = some (reply, s') ↔
      (a.locks = true → s.suspended = none) ∧ n.outcome s a = (reply, s') := by
  unfold step
  cases a.locks <;> cases s.suspended <;> simp

/-- A poll finds nothing to do, or lets a task go on with what the monitor returns. -/
theorem Node.perform_poll (n : Node c) (i now : Nat) (s : NodeState c) :
    n.perform (.poll i now) s = .ok .idle s ∨
    ∃ task tx, s.tasks[i]? = some task ∧
      n.chain.getTx task.channel.id.txid now = .ok (some tx) ∧
      n.perform (.poll i now) s = (task.finish tx >>= fun _ => pure .finished)
        { s with tasks := s.tasks.eraseIdx i
                 answers := s.answers ++ [(task.channel.id.txid, tx)] } := by
  rw [Node.perform, bind_of_ok (get_apply s)]
  cases waiting : s.tasks[i]? with
  | none => exact .inl rfl
  | some task =>
      simp only [Node.pollTask, bind_of_ok (get_apply s)]
      rcases answer : n.chain.getTx task.channel.id.txid now with error | _ | tx
      · exact .inl rfl
      · exact .inl rfl
      · exact .inr ⟨task, tx, rfl, answer, rfl⟩

namespace Effect

variable {n : Node c} {s : NodeState c}

theorem openChannel (value : UInt64) (peer : c.PeerId) (wallet : Wallet c) :
    Effect n s (.openChannel value peer wallet)
      (n.outcome s (.openChannel value peer wallet)).1
      (n.outcome s (.openChannel value peer wallet)).2 := by
  rcases n.manager.newChannel_cases wallet value peer s with ⟨failure, failed⟩ |
    ⟨descriptor, psbt, id, made, paid, named, stored⟩
  · rw [Node.outcome_of_error (bind_of_error failed)]
    exact .quiet rfl
  · cases key : n.manager.myPublishingKeyFor 0 with
    | none =>
        rw [key, bind_of_error (orPanic_none _)] at stored
        rw [Node.outcome_of_error (bind_of_error stored)]
        exact .opened made paid named (by simp)
    | some publishingKey =>
        rw [key, bind_of_ok (orPanic_some _ _)] at stored
        rw [Node.outcome_of_ok (bind_of_ok stored)]
        refine .opened made paid named fun output same => ?_
        exact ⟨publishingKey, key, (Except.ok.inj same).symm⟩

theorem receiveNewChannel (peer : c.PeerId) (channel : RsEcdsaNewChannel c)
    (entropy : c.Entropy) :
    Effect n s (.receive peer (.rsEcdsaNewChannel channel) entropy)
      (n.outcome s (.receive peer (.rsEcdsaNewChannel channel) entropy)).1
      (n.outcome s (.receive peer (.rsEcdsaNewChannel channel) entropy)).2 := by
  rcases n.manager.recvNewChannel_cases peer channel with fails |
    ⟨secretKey, sighash, descriptor, key, hash, made, accepts⟩
  · rw [Node.outcome_of_error (bind_of_error (fails entropy s))]
    exact .quiet rfl
  · rw [Node.outcome_of_ok (bind_of_ok (accepts entropy s))]
    exact .accepted key hash made

theorem receiveAck (peer : c.PeerId) (channel : RsEcdsaAckNewChannel c) (entropy : c.Entropy)
    (free : s.suspended = none) :
    Effect n s (.receive peer (.rsEcdsaAckNewChannel channel) entropy)
      (n.outcome s (.receive peer (.rsEcdsaAckNewChannel channel) entropy)).1
      (n.outcome s (.receive peer (.rsEcdsaAckNewChannel channel) entropy)).2 := by
  rcases n.manager.checkAck_reads peer channel s with ⟨ready, done⟩ | ⟨failure, failed⟩
  · obtain ⟨-, stored, fundTx, p1, there, same, pending, valued, verified, rfl⟩ :=
      n.manager.checkAck_eq_ok.mp done
    rw [Node.outcome_of_ok (bind_of_ok done)]
    exact .checked free there same pending valued verified
  · rw [Node.outcome_of_error (bind_of_error failed)]
    exact .quiet rfl

theorem updateChannel (id : ChannelId) (entropy : c.Entropy) (free : s.suspended = none) :
    Effect n s (.updateChannel id entropy) (n.outcome s (.updateChannel id entropy)).1
      (n.outcome s (.updateChannel id entropy)).2 := by
  rcases n.manager.closeChannel_reads id entropy s with ⟨⟨channel, tx⟩, done⟩ |
    ⟨failure, failed⟩
  · obtain ⟨-, stored, index, commit, commitSig, there, live, made, rfl⟩ :=
      n.manager.closeChannel_eq_ok.mp done
    rw [Node.outcome_of_ok (bind_of_ok done)]
    exact .closing free there live made
  · rw [Node.outcome_of_error (bind_of_error failed)]
    exact .quiet rfl

/-- The insert of an ack and what follows it. -/
theorem perform_resume_ack {ready : ReadyChannel c} (held : s.suspended = some (.ack ready)) :
    n.perform .resume s = .ok .acked { s with
      db := s.db.insertChannel ready.channel
      tasks := s.tasks ++ [.readyToFund ready]
      suspended := none } := by
  rw [Node.perform, bind_of_ok (get_apply s), held]
  exact bind_of_ok (n.manager.storeReady_apply ready _)

theorem resume : Effect n s .resume (n.outcome s .resume).1 (n.outcome s .resume).2 := by
  cases held : s.suspended with
  | none =>
      have done : n.perform .resume s = .ok .idle s := by
        rw [Node.perform, bind_of_ok (get_apply s), held]
        rfl
      rw [Node.outcome_of_ok done]
      exact .quiet rfl
  | some suspended =>
      cases suspended with
      | ack ready =>
          rw [Node.outcome_of_ok (perform_resume_ack held)]
          exact .acked held
      | close channel tx =>
          have done : n.perform .resume s = .ok (.closed tx)
              { s with db := s.db.insertChannel channel, suspended := none } := by
            rw [Node.perform, bind_of_ok (get_apply s), held]
            rfl
          rw [Node.outcome_of_ok done]
          exact .closed held

theorem hangUp : Effect n s .hangUp (n.outcome s .hangUp).1 (n.outcome s .hangUp).2 := by
  cases held : s.suspended with
  | none =>
      have done : n.perform .hangUp s = .ok .idle s := by
        rw [Node.perform, bind_of_ok (get_apply s), held]
        rfl
      rw [Node.outcome_of_ok done]
      exact .quiet rfl
  | some suspended =>
      cases suspended with
      | ack ready =>
          have done : n.perform .hangUp s = .ok .idle s := by
            rw [Node.perform, bind_of_ok (get_apply s), held]
            rfl
          rw [Node.outcome_of_ok done]
          exact .quiet rfl
      | close channel tx =>
          have done : n.perform .hangUp s = .ok .idle { s with suspended := none } := by
            rw [Node.perform, bind_of_ok (get_apply s), held]
            rfl
          rw [Node.outcome_of_ok done]
          exact .abandoned held

theorem poll (i now : Nat) :
    Effect n s (.poll i now) (n.outcome s (.poll i now)).1 (n.outcome s (.poll i now)).2 := by
  rcases n.perform_poll i now s with idle | ⟨task, tx, waiting, answer, running⟩
  · rw [Node.outcome_of_ok idle]
    exact .quiet rfl
  · let answered : NodeState c :=
      { s with tasks := s.tasks.eraseIdx i
               answers := s.answers ++ [(task.channel.id.txid, tx)] }
    rcases task.finish_cases tx answered with ⟨ready, rfl, matched, done⟩ |
      ⟨waiting', descriptor, rfl, paid, done⟩ | done | ⟨failure, failed⟩
    · rw [Node.outcome_of_ok (running.trans (bind_of_ok done))]
      exact .live waiting answer matched
    · rw [Node.outcome_of_ok (running.trans (bind_of_ok done))]
      exact .funded waiting answer paid
    · rw [Node.outcome_of_ok (running.trans (bind_of_ok done))]
      exact .rejected waiting answer rfl
    · rw [Node.outcome_of_error (running.trans (bind_of_error failed))]
      exact .rejected waiting answer rfl

end Effect

/-- Every step of a node has one of the listed effects. -/
theorem Node.step_effect {n : Node c} {s s' : NodeState c} {a : Act c} {reply : Reply c}
    (took : n.step s a = some (reply, s')) : Effect n s a reply s' := by
  obtain ⟨free, ended⟩ := step_eq_some.mp took
  obtain ⟨rfl, rfl⟩ := Prod.mk.inj ended
  cases a with
  | openChannel value peer wallet => exact .openChannel value peer wallet
  | receive peer message entropy =>
      cases message with
      | rsEcdsaNewChannel channel => exact .receiveNewChannel peer channel entropy
      | rsEcdsaAckNewChannel channel => exact .receiveAck peer channel entropy (free rfl)
  | updateChannel id entropy => exact .updateChannel id entropy (free rfl)
  | resume => exact .resume
  | hangUp => exact .hangUp
  | poll i now => exact .poll i now

/-- The insert of a force close, which is all that was left of it. -/
theorem Effect.perform_resume_close {n : Node c} {s : NodeState c} {channel : Channel c}
    {tx : Transaction} (held : s.suspended = some (.close channel tx)) :
    n.perform .resume s = .ok (.closed tx)
      { s with db := s.db.insertChannel channel, suspended := none } := by
  rw [Node.perform, bind_of_ok (get_apply s), held]
  rfl

/-- Whatever waits for its insert, the insert can be done. -/
theorem Node.step_resume (n : Node c) (s : NodeState c) : ∃ reply s',
    n.step s .resume = some (reply, s') ∧ Reply.sends reply = none ∧ s'.suspended = none := by
  have steps : ∀ {output s'}, n.perform .resume s = .ok output s' →
      n.step s .resume = some (.ok output, s') := fun done =>
    Node.step_eq_some.mpr ⟨by simp [Act.locks], Node.outcome_of_ok done⟩
  cases held : s.suspended with
  | none =>
      have done : n.perform .resume s = .ok .idle s := by
        rw [Node.perform, bind_of_ok (get_apply s), held]
        rfl
      exact ⟨_, _, steps done, rfl, held⟩
  | some op =>
      cases op with
      | ack ready => exact ⟨_, _, steps (Effect.perform_resume_ack held), rfl, rfl⟩
      | close channel tx => exact ⟨_, _, steps (Effect.perform_resume_close held), rfl, rfl⟩

/-- Opening a channel with a wallet that pays for it. -/
theorem Node.outcome_open {n : Node c} {s : NodeState c} {value : UInt64} {peer : c.PeerId}
    {wallet : Wallet c} {descriptor : c.Descriptor} {psbt : c.Psbt} {id : ChannelId}
    {publishingKey : c.Point}
    (made : n.manager.fundingDescriptorFor peer true = some descriptor)
    (paid : wallet (c.scriptPubkey descriptor) value = .ok psbt)
    (named : FundTx.channelId ⟨descriptor, psbt⟩ = some id)
    (key : n.manager.myPublishingKeyFor 0 = some publishingKey) :
    n.outcome s (.openChannel value peer wallet) =
      (.ok (.send peer (.rsEcdsaNewChannel
        { id, fundingSatoshis := value, toSelfDelay := n.manager.toSelfDelay,
          feeratePerKw := 372 * 250, publishingKey })),
      { s with
        db := s.db.insertChannel (FundTx.pendingChannel ⟨descriptor, psbt⟩ id peer value) }) := by
  have done := n.manager.newChannel_paid made paid named s
  rw [key, bind_of_ok (orPanic_some _ _)] at done
  rw [Node.outcome_of_ok (bind_of_ok done)]

/-- What holds at the start and across every effect that meets `cond` holds after every run
    whose steps all meet it. -/
theorem Node.Runs.invariant {n : Node c} {I : NodeState c → Prop}
    {cond : Transition (NodeState c) (Act c × Reply c) → Prop} (start : I .init)
    (keep : ∀ s a reply s', I s → Effect n s a reply s' → cond ⟨s, (a, reply), s'⟩ → I s')
    {ts s} (run : n.Runs ts s) (all : ∀ t ∈ ts, cond t) : I s :=
  Run.invariant start (fun s label s' before took => keep s label.1 label.2 s' before
    (Node.step_effect took)) run all

/-- What every effect keeps, with no condition on the run. -/
theorem Node.Runs.always {n : Node c} {I : NodeState c → Prop} (start : I .init)
    (keep : ∀ s a reply s', I s → Effect n s a reply s' → I s')
    {ts s} (run : n.Runs ts s) : I s :=
  Run.always start (fun s label s' before took => keep s label.1 label.2 s' before
    (Node.step_effect took)) run

/-- Every record a node holds is good: those stored, those a task captured, and the one an
    operation is about to store. -/
structure NodeState.Holds (P : ChannelId → Channel c → Prop) (T : Task c → Prop)
    (S : Suspended c → Prop) (s : NodeState c) : Prop where
  stored : ∀ {id channel}, s.db.getChannel id = some channel → P id channel
  tasks : ∀ task ∈ s.tasks, T task
  suspended : ∀ op, s.suspended = some op → S op

namespace NodeState.Holds

variable {P P' : ChannelId → Channel c → Prop} {T T' : Task c → Prop} {S S' : Suspended c → Prop}
  {s : NodeState c}

theorem init : (NodeState.init : NodeState c).Holds P T S where
  stored := by simp [NodeState.init, InMemory.getChannel]
  tasks := by simp [NodeState.init]
  suspended := by simp [NodeState.init]

theorem mono (h : s.Holds P T S) (stored : ∀ id channel, P id channel → P' id channel)
    (tasks : ∀ task, T task → T' task) (suspended : ∀ op, S op → S' op) : s.Holds P' T' S' where
  stored := fun found => stored _ _ (h.stored found)
  tasks := fun task member => tasks task (h.tasks task member)
  suspended := fun op held => suspended op (h.suspended op held)

theorem insert (h : s.Holds P T S) {channel : Channel c} (good : P channel.id channel) :
    { s with db := s.db.insertChannel channel }.Holds P T S where
  stored := by
    intro id other found
    rcases InMemory.getChannel_insertChannel_cases found with ⟨rfl, rfl⟩ | ⟨-, before⟩
    · exact good
    · exact h.stored before
  tasks := h.tasks
  suspended := h.suspended

theorem spawn (h : s.Holds P T S) {task : Task c} (good : T task) :
    { s with tasks := s.tasks ++ [task] }.Holds P T S where
  stored := h.stored
  tasks := by
    intro other member
    cases List.mem_append.mp member with
    | inl before => exact h.tasks other before
    | inr last => exact List.mem_singleton.mp last ▸ good
  suspended := h.suspended

theorem suspend (h : s.Holds P T S) {op : Suspended c} (good : S op) :
    { s with suspended := some op }.Holds P T S where
  stored := h.stored
  tasks := h.tasks
  suspended := fun _ held => Option.some.inj held ▸ good

theorem release (h : s.Holds P T S) : { s with suspended := none }.Holds P T S where
  stored := h.stored
  tasks := h.tasks
  suspended := by simp

/-- The monitor answers a task. -/
theorem answer (h : s.Holds P T S) (i : Nat) (txid : Txid) (tx : Transaction) :
    { s with tasks := s.tasks.eraseIdx i
             answers := s.answers ++ [(txid, tx)] }.Holds P T S where
  stored := h.stored
  tasks := fun task member => h.tasks task (List.mem_of_mem_eraseIdx member)
  suspended := h.suspended

end NodeState.Holds

end Lindy
