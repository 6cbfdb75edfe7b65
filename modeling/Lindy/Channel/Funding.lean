import Lindy.Channel.WellFormed
import Lindy.Signing

/-! # The two funding checks

The initiator compares the transaction on chain with the one it made, the responder compares
the output its record names with the value and the descriptor of the record. A txid settles
the outputs, so both accept whatever has the txid of the channel, and nothing panics.
-/

namespace Lindy

open Bitcoin Machine Op

variable {c : Crates}

namespace FundTx

variable {fundTx : FundTx c} {id : ChannelId}

/-- Some output pays to the descriptor. -/
def Funds (fundTx : FundTx c) : Prop :=
  ∃ output ∈ fundTx.psbt.unsignedTx.output,
    output.scriptPubkey = c.scriptPubkey fundTx.descriptor

/-- The search of `channel_id` finds an output when there is one. -/
theorem Funds.named (funds : fundTx.Funds) : ∃ id, fundTx.channelId = some id := by
  obtain ⟨output, member, script⟩ := funds
  obtain ⟨i, found⟩ : ∃ i, fundTx.psbt.unsignedTx.output.findIdx?
      (fun o => o.scriptPubkey == c.scriptPubkey fundTx.descriptor) = some i := by
    rw [← Option.isSome_iff_exists, List.findIdx?_isSome, List.any_eq_true]
    exact ⟨output, member, beq_iff_eq.mpr script⟩
  exact ⟨_, by simp only [channelId, found, Option.bind_eq_bind, Option.bind_some]; rfl⟩

/-- The index of `output_value` is that of the output the channel is named after. -/
theorem outputValue_of_output (named : fundTx.channelId = some id) {output : TxOut}
    (there : fundTx.psbt.unsignedTx.output[id.vout.toNat]? = some output) :
    fundTx.outputValue = some output.value := by
  simp only [outputValue, named, there, Option.bind_eq_bind, Option.bind_some]

/-- A transaction with the txid of the channel has the outputs the channel was made with. -/
theorem output_of_txid (psbts : c.LawfulPsbt) (txids : c.LawfulTxid)
    (few : fundTx.psbt.unsignedTx.output.length ≤ 2 ^ 32)
    (named : fundTx.channelId = some id) {tx : Transaction} (same : c.txid tx = id.txid) :
    tx.output = fundTx.psbt.unsignedTx.output := by
  obtain ⟨origin, -⟩ := channelId_output few named
  have bare := (txids _ _).mp (same.trans origin)
  rw [psbts.extract] at bare
  calc tx.output = tx.withoutWitness.output := rfl
    _ = fundTx.psbt.extracted.withoutWitness.output := by rw [bare]
    _ = fundTx.psbt.unsignedTx.output := rfl

/-- `matches` asks for the txid and nothing else. -/
theorem matchesTx_eq (psbts : c.LawfulPsbt) (txids : c.LawfulTxid)
    (few : fundTx.psbt.unsignedTx.output.length ≤ 2 ^ 32)
    (named : fundTx.channelId = some id) (tx : Transaction) :
    fundTx.matchesTx tx = some (decide (c.txid tx = id.txid)) := by
  obtain ⟨-, value, there⟩ := channelId_output few named
  simp only [matchesTx, named, Option.bind_eq_bind, Option.bind_some]
  by_cases same : c.txid tx = id.txid
  · rw [output_of_txid psbts txids few named same, there]
    simp [same, outputValue_of_output named there]
  · simp only [same, if_false, decide_false]
    split <;> rfl

end FundTx

/-- The check of a waiting responder. -/
def WaitingChannel.accepts (waiting : WaitingChannel c) (descriptor : c.Descriptor)
    (tx : Transaction) : Bool :=
  tx.output[waiting.channel.id.vout.toNat]? ==
    some ⟨waiting.channel.value, c.scriptPubkey descriptor⟩

/-- The task of a responder stores a funded record exactly for what the check accepts. -/
theorem Task.finish_waiting (waiting : WaitingChannel c) (descriptor : c.Descriptor)
    (tx : Transaction) (s : NodeState c) :
    (Task.waitingForFund waiting descriptor).finish tx s =
      .ok () (if waiting.accepts descriptor tx then
        { s with db := s.db.insertChannel (waiting.funded tx) } else s) := by
  cases found : tx.output[waiting.channel.id.vout.toNat]? with
  | none => simp [finish, WaitingChannel.accepts, found]
  | some output =>
      obtain ⟨value, script⟩ := output
      by_cases same : script = c.scriptPubkey descriptor ∧ value = waiting.channel.value
      · simp only [finish, WaitingChannel.accepts, found, same, and_self, if_true, beq_self_eq_true]
        rfl
      · have refused : ¬ (value = waiting.channel.value ∧ script = c.scriptPubkey descriptor) :=
          fun accepted => same accepted.symm
        simp [finish, WaitingChannel.accepts, found, same, refused]

/-- The task of an initiator, once its transaction matches. -/
theorem Task.finish_ready {ready : ReadyChannel c} {tx : Transaction}
    (matched : ready.fundTx.matchesTx tx = some true) (s : NodeState c) :
    (Task.readyToFund ready).finish tx s =
      .ok () { s with db := s.db.insertChannel ready.live } := by
  simp [finish, matched, bind, EStateM.bind, ReadyChannel.live]

/-- What both sides make of the transactions the monitor may return for a channel. -/
structure ChecksAgree (fundTx : FundTx c) (id : ChannelId) (value : UInt64) : Prop where
  named : fundTx.channelId = some id
  valued : fundTx.outputValue = some value
  total : ∀ tx, (fundTx.matchesTx tx).isSome
  matches_iff : ∀ tx, fundTx.matchesTx tx = some true ↔ c.txid tx = id.txid
  /-- The initiator goes live with it, and does not get to its `unreachable!`. -/
  live : ∀ (ready : ReadyChannel c) (tx : Transaction) (s : NodeState c),
    ready.fundTx = fundTx → c.txid tx = id.txid →
      (Task.readyToFund ready).finish tx s =
        .ok () { s with db := s.db.insertChannel ready.live }
  /-- The responder to the same channel accepts what the initiator accepts. -/
  agree : ∀ (A B : ChannelManager c) (waiting : WaitingChannel c) (descriptor : c.Descriptor)
    (tx : Transaction), A.fundingDescriptorFor B.id true = some fundTx.descriptor →
      B.fundingDescriptorFor A.id false = some descriptor → waiting.channel.id = id →
      waiting.channel.value = value → c.txid tx = id.txid →
        (waiting.accepts descriptor tx = true ↔ fundTx.matchesTx tx = some true) ∧
        ∀ s : NodeState c, (Task.waitingForFund waiting descriptor).finish tx s =
          .ok () { s with db := s.db.insertChannel (waiting.funded tx) }

theorem checksAgree (psbts : c.LawfulPsbt) (txids : c.LawfulTxid) {fundTx : FundTx c}
    (created : fundTx.psbt.AsCreated) (funds : fundTx.Funds) :
    ∃ id value, ChecksAgree fundTx id value := by
  obtain ⟨id, named⟩ := funds.named
  obtain ⟨-, value, there⟩ := FundTx.channelId_output created.fewOutputs named
  have matched := FundTx.matchesTx_eq psbts txids created.fewOutputs named
  have accepted : ∀ {tx}, c.txid tx = id.txid → fundTx.matchesTx tx = some true := by
    intro tx same
    simp [matched, same]
  refine ⟨id, value, {
    named
    valued := FundTx.outputValue_of_output named there
    total := by simp [matched]
    matches_iff := by simp [matched]
    live := ?_
    agree := ?_ }⟩
  · rintro ready tx s rfl same
    exact Task.finish_ready (accepted same) s
  · rintro A B waiting descriptor tx mine theirs rfl rfl same
    rw [A.fundingDescriptorFor_agree B true] at mine
    obtain rfl : fundTx.descriptor = descriptor := Option.some.inj (mine.symm.trans theirs)
    have passes : waiting.accepts fundTx.descriptor tx = true := by
      rw [WaitingChannel.accepts, FundTx.output_of_txid psbts txids created.fewOutputs named same,
        there, beq_self_eq_true]
    refine ⟨iff_of_true passes (accepted same), fun s => ?_⟩
    rw [Task.finish_waiting, if_pos passes]

/-- Every answer of the wallet is as a wallet makes it. -/
def Wallet.Creates (wallet : Wallet c) : Prop :=
  ∀ script value psbt, wallet script value = .ok psbt → psbt.AsCreated

/-- The funding transaction a state carries. -/
def ChannelState.fundTx? : ChannelState c → Option (FundTx c)
  | .pending fundTx | .readyToFund fundTx _ _ => some fundTx
  | _ => none

/-- The funding transaction of the record is one a wallet made. -/
def Channel.Created (channel : Channel c) : Prop :=
  ∀ fundTx ∈ channel.state.fundTx?, fundTx.psbt.AsCreated

/-- So it is in every record a node holds. -/
abbrev NodeState.Created (s : NodeState c) : Prop :=
  s.Holds (fun _ channel => channel.Created) (fun task => task.channel.Created)
    (fun op => op.channel.Created)

/-- The wallet behind a request to open a channel is one. -/
def Act.Creates (a : Act c) : Prop :=
  ∀ value peer wallet, a = .openChannel value peer wallet → Wallet.Creates wallet

theorem NodeState.Created.effect {n : Node c} {s s' : NodeState c} {a : Act c} {reply : Reply c}
    (h : s.Created) (took : Effect n s a reply s') (creates : a.Creates) : s'.Created := by
  cases took with
  | quiet => exact h
  | opened made paid named =>
      refine h.insert fun fundTx carried => ?_
      obtain rfl := Option.some.inj carried
      exact creates _ _ _ rfl _ _ _ paid
  | @accepted peer channel =>
      have good : (channel.waitingChannel peer).channel.Created := nofun
      exact (h.insert good).spawn good
  | checked free there same pending =>
      refine h.suspend fun fundTx carried => ?_
      obtain rfl := Option.some.inj carried
      exact h.stored there _ (by simp [ChannelState.fundTx?, pending])
  | closing => exact h.suspend nofun
  | @acked ready held =>
      have good : ready.channel.Created := h.suspended _ held
      have task : (Task.readyToFund ready).channel.Created := good
      exact ((h.insert good).spawn task).release
  | closed held => exact (h.insert (h.suspended _ held)).release
  | abandoned => exact h.release
  | live => exact (h.answer _ _ _).insert nofun
  | funded => exact (h.answer _ _ _).insert nofun
  | rejected => exact h.answer _ _ _

theorem Node.Runs.created {n : Node c} {ts s} (run : n.Runs ts s)
    (creates : ∀ t ∈ ts, t.act.1.Creates) : s.Created := by
  refine Node.Runs.invariant .init ?_ run creates
  exact fun _ _ _ _ before took met => before.effect took met

/-- A task that is woken with what it waits for does not panic. -/
theorem Task.finish_total (psbts : c.LawfulPsbt) (txids : c.LawfulTxid) {m : ChannelManager c}
    {answers : List (Txid × Transaction)} {task : Task c} (good : task.WellFormed m answers)
    (created : task.channel.Created) {tx : Transaction}
    (same : c.txid tx = task.channel.id.txid) (s : NodeState c) :
    ∃ s', task.finish tx s = .ok () s' := by
  cases task with
  | waitingForFund waiting descriptor => exact ⟨_, Task.finish_waiting waiting descriptor tx s⟩
  | readyToFund ready =>
      have committed := Channel.WellFormed.committed good
      have made := created ready.fundTx (by simp [channel, ready.ready, ChannelState.fundTx?])
      refine ⟨_, Task.finish_ready ?_ s⟩
      rw [FundTx.matchesTx_eq psbts txids made.fewOutputs committed.named, Option.some.injEq,
        decide_eq_true_eq]
      exact same

/-- A poll of the monitor goes well when the task it wakes does. -/
theorem Node.poll_total {n : Node c} (chain : n.chain.Lawful) {s : NodeState c} (i now : Nat)
    (finishes : ∀ task ∈ s.tasks, ∀ tx u, c.txid tx = task.channel.id.txid →
      ∃ u', task.finish tx u = .ok () u') :
    ∃ output, (n.outcome s (.poll i now)).1 = .ok output := by
  rcases n.perform_poll i now s with idle | ⟨task, tx, waiting, answer, running⟩
  · exact ⟨_, by rw [Node.outcome_of_ok idle]⟩
  · obtain ⟨u, done⟩ := finishes task (List.mem_of_getElem? waiting) tx
      { s with tasks := s.tasks.eraseIdx i
               answers := s.answers ++ [(task.channel.id.txid, tx)] } (chain _ _ _ answer)
    exact ⟨_, by rw [Node.outcome_of_ok (running.trans (bind_of_ok done))]⟩

/-- For every funding transaction a wallet makes the two checks agree on whatever has its txid,
    and in no run does a task panic over what the monitor found. -/
theorem fundingChecksAgree (psbts : c.LawfulPsbt) (txids : c.LawfulTxid) :
    (∀ fundTx : FundTx c, fundTx.psbt.AsCreated → fundTx.Funds →
      ∃ id value, ChecksAgree fundTx id value) ∧
    ∀ (n : Node c) ts s, n.chain.Lawful → n.Runs ts s → (∀ t ∈ ts, t.act.1.Creates) →
      ∀ i now, ∃ output, (n.outcome s (.poll i now)).1 = .ok output := by
  refine ⟨fun fundTx created funds => checksAgree psbts txids created funds, ?_⟩
  intro n ts s chain run creates i now
  refine Node.poll_total chain i now fun task member tx u same => ?_
  exact Task.finish_total psbts txids (run.wellFormed.tasks task member)
    ((run.created creates).tasks task member) same u

section Small

/-- The small nodes over the crates with a given txid function. -/
def smallManager (txid : Transaction → Txid) (x : ZMod 101) (nonzero : x ≠ 0)
    (even : x.val % 2 = 0) : ChannelManager (smallCratesWith txid true) :=
  .new (smallKeyChain txid true x nonzero even)

/-- The record of a responder that was told of a channel. -/
def smallWaiting (txid : Transaction → Txid) (id : ChannelId) (value : UInt64)
    (peerId : (smallCratesWith txid true).PeerId) : WaitingChannel (smallCratesWith txid true) where
  channel := { id, state := .waitingForFund, peerId, value, iAmInitiator := false }
  waiting := rfl

/-- A funding transaction that pays to two keys. -/
def smallPayment (txid : Transaction → Txid) (P Q : ZMod 101) :
    FundTx (smallCratesWith txid true) where
  descriptor := .wsh [⟨true, P⟩, ⟨true, Q⟩]
  psbt := .ofUnsigned smallFundingTx

/-- The descriptor of the small nodes; the txid function plays no part. -/
theorem smallPayment_descriptor :
    (smallManager exists_lawfulTxid.choose 2 (by decide) (by decide)).fundingDescriptorFor
      (smallManager exists_lawfulTxid.choose 4 (by decide) (by decide)).id true =
        some (smallPayment exists_lawfulTxid.choose 3 6).descriptor := by
  decide +kernel

theorem fundingChecksAgree_small : ∃ txid, (smallCratesWith txid true).LawfulTxid ∧
    ∃ (fundTx : FundTx (smallCratesWith txid true)) (id : ChannelId) (value : UInt64)
      (peer : (smallCratesWith txid true).PeerId) (tx : Transaction),
      ChecksAgree fundTx id value ∧
      (smallWaiting txid id value peer).accepts fundTx.descriptor tx = true := by
  have created : (smallPayment exists_lawfulTxid.choose 3 6).psbt.AsCreated :=
    { inputs := rfl
      bare := by simp [smallPayment, Psbt.ofUnsigned, smallFundingTx, PsbtInput.default]
      fewOutputs := by simp [smallPayment, Psbt.ofUnsigned, smallFundingTx] }
  have funds : (smallPayment exists_lawfulTxid.choose 3 6).Funds :=
    ⟨⟨1256, [1, 3, 6]⟩, List.mem_cons_self, rfl⟩
  obtain ⟨id, value, agree⟩ := (fundingChecksAgree smallCrates_psbt
    exists_lawfulTxid.choose_spec).1 _ created funds
  obtain ⟨origin, -⟩ := FundTx.channelId_output created.fewOutputs agree.named
  -- both nodes make the descriptor the transaction pays to
  have theirs := (ChannelManager.fundingDescriptorFor_agree _ _ true).symm.trans
    smallPayment_descriptor
  have both := (agree.agree _ _
    (smallWaiting _ id value (smallManager _ 2 (by decide) (by decide)).id) _ _
    smallPayment_descriptor theirs rfl rfl origin.symm).1
  exact ⟨_, exists_lawfulTxid.choose_spec, _, id, value, _, _, agree,
    both.mpr ((agree.matches_iff _).mpr origin.symm)⟩

end Small

end Lindy
