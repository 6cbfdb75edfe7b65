import Lindy.Channel.Derivation
import Lindy.Channel.Effect

/-! # Stored records are well formed

What the state of a record promises, and that every record a node holds keeps the promise:
the stored ones, and those captured by a task or by an operation that waits for its insert.
No assumption is made on the messages, so this holds whatever the peers send.
-/

namespace Lindy

open Bitcoin Machine Op

variable {c : Crates}

namespace ChannelManager

/-- This node opened the channel with this transaction. -/
structure Opened (m : ChannelManager c) (channel : Channel c) (fundTx : FundTx c) : Prop where
  initiator : channel.iAmInitiator = true
  named : fundTx.channelId = some channel.id
  descriptor : m.fundingDescriptorFor channel.peerId true = some fundTx.descriptor

/-- The peer has signed the commitment that gives all of the funding output to party 1. -/
structure Committed (m : ChannelManager c) (channel : Channel c) (fundTx : FundTx c)
    (commit : CommitState) (commitSig : c.EncryptedSignature) : Prop
    extends Opened m channel fundTx where
  p1 : fundTx.outputValue = some commit.p1
  p2 : commit.p2 = 0
  verified : m.AckVerifies channel.peerId channel.id commit commitSig

variable {m : ChannelManager c} {channel : Channel c} {fundTx : FundTx c} {commit : CommitState}
  {commitSig : c.EncryptedSignature}

/-- The promise does not depend on the state of the record. -/
theorem Opened.restate (h : m.Opened channel fundTx) (state : ChannelState c) :
    m.Opened { channel with state } fundTx := ⟨h.initiator, h.named, h.descriptor⟩

theorem Committed.restate (h : m.Committed channel fundTx commit commitSig)
    (state : ChannelState c) : m.Committed { channel with state } fundTx commit commitSig :=
  { h.toOpened.restate state with p1 := h.p1, p2 := h.p2, verified := h.verified }

end ChannelManager

/-- What the state of a record promises, given what the monitor has answered. -/
def Channel.WellFormed (m : ChannelManager c) (answers : List (Txid × Transaction))
    (channel : Channel c) : Prop :=
  match channel.state with
  | .pending fundTx => m.Opened channel fundTx
  | .readyToFund fundTx commit commitSig => m.Committed channel fundTx commit commitSig
  | .live index commit commitSig => index = 0 ∧ ∃ fundTx tx,
      m.Committed channel fundTx commit commitSig ∧ (channel.id.txid, tx) ∈ answers ∧
      fundTx.matchesTx tx = some true
  | .closed closeTx => ∃ fundTx commit commitSig entropy,
      m.Committed channel fundTx commit commitSig ∧
      m.closeTx channel.id channel.peerId 0 commit commitSig true entropy = some closeTx
  | .waitingForFund => channel.iAmInitiator = false
  | .funded fundTx => channel.iAmInitiator = false ∧ (channel.id.txid, fundTx) ∈ answers ∧
      ∃ descriptor, m.fundingDescriptorFor channel.peerId false = some descriptor ∧
        fundTx.output[channel.id.vout.toNat]? =
          some ⟨channel.value, c.scriptPubkey descriptor⟩

namespace Channel.WellFormed

variable {m : ChannelManager c} {answers more : List (Txid × Transaction)} {channel : Channel c}

theorem mono (h : channel.WellFormed m answers) (sub : answers ⊆ more) :
    channel.WellFormed m more := by
  cases state : channel.state with
  | live =>
      simp only [WellFormed, state] at h ⊢
      obtain ⟨zero, fundTx, tx, committed, answered, matched⟩ := h
      exact ⟨zero, fundTx, tx, committed, sub answered, matched⟩
  | funded =>
      simp only [WellFormed, state] at h ⊢
      exact ⟨h.1, sub h.2.1, h.2.2⟩
  | _ => simpa only [WellFormed, state] using h

theorem opened {fundTx : FundTx c} (h : channel.WellFormed m answers)
    (state : channel.state = .pending fundTx) : m.Opened channel fundTx := by
  simpa only [WellFormed, state] using h

theorem committed {ready : ReadyChannel c} (h : ready.channel.WellFormed m answers) :
    m.Committed ready.channel ready.fundTx ready.commit ready.commitSig := by
  simpa only [WellFormed, ready.ready] using h

theorem live_committed {index : UInt32} {commit : CommitState}
    {commitSig : c.EncryptedSignature} (h : channel.WellFormed m answers)
    (state : channel.state = .live index commit commitSig) :
    index = 0 ∧ ∃ fundTx, m.Committed channel fundTx commit commitSig := by
  simp only [WellFormed, state] at h
  obtain ⟨zero, fundTx, _, committed, _⟩ := h
  exact ⟨zero, fundTx, committed⟩

theorem waiting {waiting : WaitingChannel c} (h : waiting.channel.WellFormed m answers) :
    waiting.channel.iAmInitiator = false := by
  simpa only [WellFormed, waiting.waiting] using h

end Channel.WellFormed

/-- A responder task also holds the descriptor it compares with. -/
def Task.WellFormed (m : ChannelManager c) (answers : List (Txid × Transaction)) :
    Task c → Prop
  | .readyToFund ready => ready.channel.WellFormed m answers
  | .waitingForFund waiting descriptor => waiting.channel.WellFormed m answers ∧
      m.fundingDescriptorFor waiting.channel.peerId false = some descriptor

theorem Task.WellFormed.mono {m : ChannelManager c} {answers more : List (Txid × Transaction)}
    {task : Task c} (h : task.WellFormed m answers) (sub : answers ⊆ more) :
    task.WellFormed m more := by
  cases task with
  | readyToFund ready => exact Channel.WellFormed.mono h sub
  | waitingForFund waiting descriptor => exact ⟨h.1.mono sub, h.2⟩

/-- Every record a node holds is well formed. -/
abbrev NodeState.WellFormed (m : ChannelManager c) (s : NodeState c) : Prop :=
  s.Holds (fun id channel => channel.id = id ∧ channel.WellFormed m s.answers)
    (Task.WellFormed m s.answers) (fun op => op.channel.WellFormed m s.answers)

namespace NodeState.WellFormed

variable {m : ChannelManager c} {s : NodeState c}

/-- Records stay well formed when the monitor has answered more. -/
theorem answer (h : s.WellFormed m) (i : Nat) (txid : Txid) (tx : Transaction) :
    { s with tasks := s.tasks.eraseIdx i
             answers := s.answers ++ [(txid, tx)] }.WellFormed m :=
  have sub := List.subset_append_left s.answers [(txid, tx)]
  (h.mono (fun _ _ good => ⟨good.1, good.2.mono sub⟩) (fun _ good => good.mono sub)
    (fun _ good => good.mono sub)).answer i txid tx

/-- Every effect keeps the records well formed. -/
theorem effect {n : Node c} {s s' : NodeState c} {a : Act c} {reply : Reply c}
    (h : s.WellFormed n.manager) (took : Effect n s a reply s') :
    s'.WellFormed n.manager := by
  cases took with
  | quiet => exact h
  | opened made paid named =>
      apply h.insert
      exact ⟨rfl, rfl, named, made⟩
  | @accepted peer channel _ _ _ _ key hash made =>
      have good : (channel.waitingChannel peer).channel.WellFormed n.manager s.answers := rfl
      exact (h.insert ⟨rfl, good⟩).spawn ⟨good, made⟩
  | checked free there same pending valued verified =>
      obtain ⟨named, good⟩ := h.stored there
      rw [← named, ← same] at verified
      apply h.suspend
      exact { (good.opened pending).restate _ with p1 := valued, p2 := rfl, verified }
  | closing free there live made =>
      obtain ⟨rfl, good⟩ := h.stored there
      obtain ⟨rfl, fundTx, committed⟩ := good.live_committed live
      rw [committed.initiator] at made
      apply h.suspend
      exact ⟨fundTx, _, _, _, committed.restate _, made⟩
  | @acked ready held =>
      have good : (Task.readyToFund ready).WellFormed n.manager s.answers := h.suspended _ held
      exact ((h.insert ⟨rfl, good⟩).spawn good).release
  | closed held => exact (h.insert ⟨rfl, h.suspended _ held⟩).release
  | abandoned => exact h.release
  | live waiting found matched =>
      have good : Task.WellFormed n.manager s.answers _ :=
        h.tasks _ (List.mem_of_getElem? waiting)
      have committed := Channel.WellFormed.committed good
      refine (answer h _ _ _).insert ⟨rfl, rfl, _, _, committed.restate _, ?_, matched⟩
      exact List.mem_append_right _ List.mem_cons_self
  | funded waiting found paid =>
      obtain ⟨good, made⟩ := h.tasks _ (List.mem_of_getElem? waiting)
      refine (answer h _ _ _).insert ⟨rfl, good.waiting, ?_, _, made, paid⟩
      exact List.mem_append_right _ List.mem_cons_self
  | rejected => exact answer h _ _ _

end NodeState.WellFormed

theorem Node.Runs.wellFormed {n : Node c} {ts s} (run : n.Runs ts s) : s.WellFormed n.manager :=
  Node.Runs.always .init (fun _ _ _ _ before took => before.effect took) run

/-- The monitor answers with the transaction that was asked for. -/
theorem Node.Runs.answers {n : Node c} (chain : n.chain.Lawful) {ts s} (run : n.Runs ts s) :
    ∀ txid tx, (txid, tx) ∈ s.answers → c.txid tx = txid := by
  refine Node.Runs.always (I := fun s => ∀ txid tx, (txid, tx) ∈ s.answers → c.txid tx = txid)
    (by simp [NodeState.init]) ?_ run
  intro s a reply s' before took
  have more : ∀ {asked now found}, n.chain.getTx asked now = .ok (some found) →
      ∀ txid tx, (txid, tx) ∈ s.answers ++ [(asked, found)] → c.txid tx = txid := by
    intro asked now found answer txid tx member
    cases List.mem_append.mp member with
    | inl earlier => exact before txid tx earlier
    | inr last =>
        obtain ⟨rfl, rfl⟩ := Prod.mk.inj (List.mem_singleton.mp last)
        exact chain _ _ _ answer
  cases took with
  | live _ found _ => exact more found
  | funded _ found _ => exact more found
  | rejected _ found => exact more found
  | _ => exact before

/-- After any run, whatever the peers sent, each record is stored under its own id and keeps
    what its state promises. -/
theorem recordsWellFormed {n : Node c} (chain : n.chain.Lawful) {ts s} (run : n.Runs ts s)
    {id : ChannelId} {channel : Channel c} (stored : s.db.getChannel id = some channel) :
    channel.id = id ∧ channel.WellFormed n.manager s.answers ∧
      ∀ fundTx, channel.state = .funded fundTx → c.txid fundTx = id.txid := by
  obtain ⟨rfl, good⟩ := run.wellFormed.stored stored
  refine ⟨rfl, good, fun fundTx state => ?_⟩
  simp only [Channel.WellFormed, state] at good
  exact run.answers chain _ _ good.2.1

section Small

/-- A funding transaction for a channel between the two small nodes. -/
def smallFundingTx : Transaction where
  version := 1
  lockTime := 7
  input := [{ TxIn.default with previousOutput := ⟨5, 0⟩ }]
  output := [⟨1256, [1, 3, 6]⟩]

def smallChain : Blockchain smallCrates where
  getTx := fun txid _ => .ok (if txid = 7 then some smallFundingTx else none)

theorem smallChain_lawful : smallChain.Lawful := by
  intro txid now tx found
  simp only [smallChain, Except.ok.injEq, Option.ite_none_right_eq_some, Option.some.injEq] at found
  obtain ⟨rfl, rfl⟩ := found
  rfl

def smallNode : Node smallCrates := ⟨smallAlice, smallChain⟩

/-- The node opens a channel, its peer signs, and the funding transaction shows up. -/
def smallOpening : List (Act smallCrates) :=
  [.openChannel 1256 smallBob.id fun _ _ => .ok (.ofUnsigned smallFundingTx),
    .receive smallBob.id (.rsEcdsaAckNewChannel
      ⟨⟨7, 0⟩, (smallPoint 6, smallPoint 44, [1, 232, 3, 6])⟩) (),
    .resume, .poll 0 0]

theorem smallOpening_live : ∃ ts s channel, smallNode.exec .init smallOpening = some (ts, s) ∧
    s.db.getChannel ⟨7, 0⟩ = some channel ∧ channel.value = 1256 ∧
    channel.state = .live 0 ⟨1256, 0⟩ (smallPoint 6, smallPoint 44, [1, 232, 3, 6]) :=
  ⟨_, _, _, rfl, rfl, rfl, rfl⟩

theorem recordsWellFormed_live : ∃ ts s channel, smallNode.Runs ts s ∧
    s.db.getChannel ⟨7, 0⟩ = some channel ∧ channel.id = ⟨7, 0⟩ ∧
    channel.WellFormed smallAlice s.answers := by
  obtain ⟨ts, s, channel, done, stored, -⟩ := smallOpening_live
  have run : smallNode.Runs ts s := execReplies_run done
  obtain ⟨named, good, -⟩ := recordsWellFormed smallChain_lawful run stored
  exact ⟨ts, s, channel, run, stored, named, good⟩

end Small

end Lindy
