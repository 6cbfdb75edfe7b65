import Lindy.Channel.Funding
import Lindy.Channel.Handshake
import Lindy.Machine.Progress

/-! # A channel that was opened can be completed

As long as no message about a channel is lost, each of its records is looked after: a pending
one by a message under way or by an ack that waits for its insert, one that waits for funding
by its task. So from whatever state an honest network has come to, deliveries, inserts and
the monitor alone complete the channel on both sides.
-/

namespace Lindy

open Bitcoin Machine Op

variable {c : Crates}

/-- A wallet stands behind the record: of the transaction it carries, and, at the node that
    opened the channel, of the output that holds its value. -/
structure Channel.Backed (m : ChannelManager c) (channel : Channel c) : Prop where
  few : ∀ fundTx ∈ channel.state.fundTx?, fundTx.psbt.unsignedTx.output.length ≤ 2 ^ 32
  opened : channel.iAmInitiator = true → ∃ fundTx, m.Opened channel fundTx ∧
    fundTx.psbt.unsignedTx.output.length ≤ 2 ^ 32 ∧ fundTx.outputValue = some channel.value

theorem Channel.Backed.restate {m : ChannelManager c} {channel : Channel c}
    (h : channel.Backed m) {state : ChannelState c}
    (few : ∀ fundTx ∈ state.fundTx?, fundTx.psbt.unsignedTx.output.length ≤ 2 ^ 32) :
    { channel with state }.Backed m where
  few := few
  opened := fun role => by
    obtain ⟨fundTx, opened, outputs, valued⟩ := h.opened role
    exact ⟨fundTx, opened.restate state, outputs, valued⟩

/-- A state without a funding transaction takes none. -/
theorem Channel.Backed.moves_on {m : ChannelManager c} {channel : Channel c}
    (h : channel.Backed m) {state : ChannelState c} (bare : state.fundTx? = none) :
    { channel with state }.Backed m :=
  h.restate (by simp [bare])

abbrev NodeState.Backed (m : ChannelManager c) (s : NodeState c) : Prop :=
  s.Holds (fun _ channel => channel.Backed m) (fun task => task.channel.Backed m)
    (fun op => op.channel.Backed m)

theorem NodeState.Backed.effect {n : Node c} {s s' : NodeState c} {a : Act c} {reply : Reply c}
    (h : s.Backed n.manager) (took : Effect n s a reply s')
    (pays : ∀ {value peer wallet}, a = .openChannel value peer wallet → Wallet.Pays wallet) :
    s'.Backed n.manager := by
  cases took with
  | quiet => exact h
  | @opened value peer wallet descriptor psbt id reply made paid named =>
      have numbered := (pays rfl).numbered paid
      refine h.insert ⟨?_, fun _ => ?_⟩
      · rintro fundTx carried
        obtain rfl := Option.some.inj carried
        exact numbered
      · exact ⟨⟨descriptor, psbt⟩, ⟨rfl, named, made⟩, numbered,
          FundTx.outputValue_of_pays (pays rfl) paid⟩
  | @accepted peer channel entropy secretKey sighash descriptor =>
      have good : (channel.waitingChannel peer).channel.Backed n.manager :=
        ⟨by simp [RsEcdsaNewChannel.waitingChannel, ChannelState.fundTx?],
          by simp [RsEcdsaNewChannel.waitingChannel]⟩
      exact (h.insert good).spawn good
  | @checked peer channel entropy stored fundTx p1 free there same pending =>
      have before := h.stored there
      refine h.suspend (before.restate fun other carried => ?_)
      obtain rfl := Option.some.inj carried
      exact before.few _ (by simp [ChannelState.fundTx?, pending])
  | closing free there => exact h.suspend ((h.stored there).moves_on rfl)
  | @acked ready held =>
      have good : ready.channel.Backed n.manager := h.suspended _ held
      have task : (Task.readyToFund ready).channel.Backed n.manager := good
      exact ((h.insert good).spawn task).release
  | closed held => exact (h.insert (h.suspended _ held)).release
  | abandoned => exact h.release
  | live waiting =>
      have good := h.tasks _ (List.mem_of_getElem? waiting)
      exact (h.answer _ _ _).insert (good.moves_on rfl)
  | funded waiting =>
      have good := h.tasks _ (List.mem_of_getElem? waiting)
      exact (h.answer _ _ _).insert (good.moves_on rfl)
  | rejected => exact h.answer _ _ _

/-- The states in which a record has a task. -/
def ChannelState.Waits : ChannelState c → Prop
  | .readyToFund .. | .waitingForFund => True
  | _ => False

namespace Task

/-- The check of the task passes. -/
def Takes (tx : Transaction) : Task c → Prop
  | .readyToFund ready => ready.fundTx.matchesTx tx = some true
  | .waitingForFund waiting descriptor => waiting.accepts descriptor tx = true

/-- What it stores then. -/
def stores (tx : Transaction) : Task c → Channel c
  | .readyToFund ready => ready.live
  | .waitingForFund waiting _ => waiting.funded tx

@[simp] theorem stores_id (task : Task c) (tx : Transaction) :
    (task.stores tx).id = task.channel.id := by
  cases task <;> rfl

theorem stores_done (task : Task c) (tx : Transaction) : ¬ (task.stores tx).state.Waits := by
  cases task <;> exact fun waits => waits

theorem finish_takes {task : Task c} {tx : Transaction} (takes : task.Takes tx)
    (s : NodeState c) :
    task.finish tx s = .ok () { s with db := s.db.insertChannel (task.stores tx) } := by
  cases task with
  | readyToFund ready => exact finish_ready takes s
  | waitingForFund waiting descriptor =>
      have passes : waiting.accepts descriptor tx = true := takes
      rw [finish_waiting, if_pos passes]
      rfl

end Task

/-- A poll that finds what a task takes. -/
theorem Node.outcome_poll {n : Node c} {s : NodeState c} {k now : Nat} {task : Task c}
    {tx : Transaction} (waiting : s.tasks[k]? = some task)
    (answer : n.chain.getTx task.channel.id.txid now = .ok (some tx)) (takes : task.Takes tx) :
    n.outcome s (.poll k now) = (.ok .finished, { s with
      db := s.db.insertChannel (task.stores tx)
      tasks := s.tasks.eraseIdx k
      answers := s.answers ++ [(task.channel.id.txid, tx)] }) := by
  have done : n.perform (.poll k now) s = .ok .finished { s with
      db := s.db.insertChannel (task.stores tx)
      tasks := s.tasks.eraseIdx k
      answers := s.answers ++ [(task.channel.id.txid, tx)] } := by
    rw [Node.perform, bind_of_ok (get_apply s), waiting]
    simp only [pollTask, bind_of_ok (get_apply s), answer]
    exact bind_of_ok (Task.finish_takes takes _)
  rw [Node.outcome_of_ok done]

/-- A record of this id that waits for its funding has a task. -/
def NodeState.Watches (s : NodeState c) (id : ChannelId) : Prop :=
  ∀ channel, s.db.getChannel id = some channel → channel.state.Waits →
    ∃ task ∈ s.tasks, task.channel.id = id

/-- So it stays, when a task that is over leaves nothing waiting. -/
theorem NodeState.Watches.effect {n : Node c} {s s' : NodeState c} {a : Act c}
    {reply : Reply c} {id : ChannelId} (h : s.Watches id) (settled : s.Settled)
    (took : Effect n s a reply s')
    (finished : ∀ k now task, a = .poll k now → s.tasks[k]? = some task → task.channel.id = id →
      ∀ channel, s'.tasks = s.tasks.eraseIdx k → s'.db.getChannel id = some channel →
        ¬ channel.state.Waits) : s'.Watches id := by
  have inserted : ∀ {channel other : Channel c} {tasks : List (Task c)},
      (∀ task ∈ s.tasks, task ∈ tasks) →
      (channel.id = id → channel.state.Waits → ∃ task ∈ tasks, task.channel.id = id) →
      (s.db.insertChannel channel).getChannel id = some other → other.state.Waits →
        ∃ task ∈ tasks, task.channel.id = id := by
    intro channel other tasks more this found waits
    rcases InMemory.getChannel_insertChannel_cases found with ⟨rfl, rfl⟩ | ⟨-, before⟩
    · exact this rfl waits
    · obtain ⟨task, member, same⟩ := h _ before waits
      exact ⟨task, more task member, same⟩
  have erased : ∀ {k : Nat} {task : Task c}, s.tasks[k]? = some task → task.channel.id ≠ id →
      ∀ stored : Channel c, stored.id = task.channel.id →
      ∀ other, (s.db.insertChannel stored).getChannel id = some other → other.state.Waits →
        ∃ task ∈ s.tasks.eraseIdx k, task.channel.id = id := by
    intro k task waiting apart stored named other found waits
    have before : s.db.getChannel id = some other :=
      (InMemory.getChannel_insertChannel_of_ne _
        fun same => apart (named.symm.trans same.symm)).symm.trans found
    obtain ⟨task', member, same⟩ := h _ before waits
    refine ⟨task', mem_eraseIdx_of_ne waiting member ?_, same⟩
    rintro rfl
    exact apart same
  cases took with
  | quiet | checked | closing | abandoned => exact h
  | opened => exact fun _ => inserted (fun _ member => member) fun _ waits => waits.elim
  | accepted =>
      refine fun _ => inserted (fun task => List.mem_append_left _) fun same _ => ?_
      exact ⟨_, List.mem_append_right _ (List.mem_singleton_self _), same⟩
  | acked =>
      refine fun _ => inserted (fun task => List.mem_append_left _) fun same _ => ?_
      exact ⟨_, List.mem_append_right _ (List.mem_singleton_self _), same⟩
  | closed held =>
      obtain ⟨_, _, _, _, -, -, rfl⟩ := settled.close held
      exact fun _ => inserted (fun _ member => member) fun _ waits => waits.elim
  | @live k now ready tx waiting =>
      intro other found waits
      by_cases same : ready.channel.id = id
      · exact absurd waits (finished _ _ _ rfl waiting same other rfl found)
      · exact erased waiting same ready.live rfl other found waits
  | @funded k now ready descriptor tx waiting =>
      intro other found waits
      by_cases same : ready.channel.id = id
      · exact absurd waits (finished _ _ _ rfl waiting same other rfl found)
      · exact erased waiting same (ready.funded tx) rfl other found waits
  | @rejected k now task tx reply waiting =>
      intro other found waits
      by_cases same : task.channel.id = id
      · exact absurd waits (finished _ _ _ rfl waiting same other rfl found)
      · refine erased waiting same task.channel rfl other ?_ waits
        rw [InMemory.getChannel_insertChannel_of_ne _ (Ne.symm same)]
        exact found

section Steps

variable {n : Node c} {s s' : NodeState c} {a : Act c} {reply : Reply c} {id : ChannelId}

/-- A record is pending because it was, or because its offer was just made. -/
theorem Node.step_pending (keyed : (n.manager.myPublishingKeyFor 0).isSome)
    (settled : s.Settled) (stepped : n.step s a = some (reply, s')) {mine : Channel c}
    {fundTx : FundTx c} (there : s'.db.getChannel id = some mine)
    (pending : mine.state = .pending fundTx) : s.db.getChannel id = some mine ∨
      ∃ peer message, Reply.sends reply = some (peer, message) ∧ message.id = id := by
  have before : ∀ {channel : Channel c},
      (s.db.insertChannel channel).getChannel id = some mine →
      (∀ fundTx, channel.state ≠ .pending fundTx) → s.db.getChannel id = some mine := by
    intro channel found other
    rcases InMemory.getChannel_insertChannel_cases found with ⟨-, rfl⟩ | ⟨-, before⟩
    · exact absurd pending (other fundTx)
    · exact before
  cases Node.step_effect stepped with
  | quiet | checked | closing | abandoned | rejected => exact .inl there
  | accepted => exact .inl (before there nofun)
  | @acked ready held => exact .inl (before there fun _ => by simp [ready.ready])
  | closed held =>
      obtain ⟨_, _, _, _, -, -, rfl⟩ := settled.close held
      exact .inl (before there nofun)
  | live => exact .inl (before there nofun)
  | funded => exact .inl (before there nofun)
  | @opened value peer wallet descriptor psbt id' reply made paid named =>
      rcases InMemory.getChannel_insertChannel_cases there with ⟨same, -⟩ | ⟨-, earlier⟩
      · obtain ⟨publishingKey, key⟩ := Option.isSome_iff_exists.mp keyed
        have ended := (Node.step_eq_some.mp stepped).2
        rw [Node.outcome_open made paid named key] at ended
        obtain ⟨rfl, -⟩ := Prod.mk.inj ended
        exact .inr ⟨_, _, rfl, same.symm⟩
      · exact .inl earlier

/-- An ack that waits for its insert waits until it is stored. -/
theorem Effect.ack_kept (took : Effect n s a reply s') {ready : ReadyChannel c}
    (held : s.suspended = some (.ack ready)) : s'.suspended = some (.ack ready) ∨
      s'.db.getChannel ready.channel.id = some ready.channel := by
  cases took with
  | quiet | opened | accepted | live | funded | rejected => exact .inl held
  | checked free | closing free => simp [free] at held
  | acked held' =>
      rw [held] at held'
      obtain rfl := Suspended.ack.inj (Option.some.inj held')
      exact .inr (InMemory.getChannel_insertChannel_self _ _)
  | closed held' | abandoned held' => simp [held] at held'

end Steps

/-- What is relied on of the crates, the keys and the blockchains. -/
structure Reliable {ι : Type*} (nodes : ι → Node c) : Prop where
  accepts : c.AcceptsSigned
  psbts : c.LawfulPsbt
  txids : c.LawfulTxid
  known : Function.Injective fun i => (nodes i).manager.id
  balance : BalancePoints nodes
  /-- `myPublishingSecretKey` does not come out zero. -/
  keyed : ∀ i, ((nodes i).manager.myPublishingKeyFor 0).isSome
  chains : ∀ i, (nodes i).chain.Lawful

/-- Honest, worth the fee, and no message about the channel is lost. -/
structure Careful {ι : Type*} (nodes : ι → Node c) (id : ChannelId) (t : NetTransition ι c) :
    Prop where
  honest : Honest nodes t
  worth : ∀ i value peer wallet, t.act.1 = .act i (.openChannel value peer wallet) →
    1000 ≤ value
  kept : ∀ k e, t.act.1 = .drop k → t.pre.net[k]? = some e → e.message.id ≠ id

variable {ι : Type*} {nodes : ι → Node c} {w w' : Net ι c} {id : ChannelId}

/-- A message under way, or an ack that waits for its insert, is about the pending record. -/
def Pursued (w : Net ι c) (i : ι) (id : ChannelId) : Prop :=
  (∃ e ∈ w.net, e.message.id = id) ∨
    ∃ ready, (w.states i).suspended = some (.ack ready) ∧ ready.channel.id = id

/-- All records of the channel are looked after. -/
structure Tended (nodes : ι → Node c) (id : ChannelId) (w : Net ι c) : Prop where
  joint : Joint nodes w
  carries : ∀ e ∈ w.net, Carries nodes w e
  backed : ∀ i, (w.states i).Backed (nodes i).manager
  sole : Sole w id
  pursued : ∀ {i mine fundTx}, recordAt w i id = some mine → mine.state = .pending fundTx →
    Pursued w i id
  watches : ∀ i, (w.states i).Watches id

namespace Tended

theorem start : Tended nodes id ((network nodes).start) where
  joint := .start
  carries := by simp [Protocol.start]
  backed := fun _ => .init
  sole := .start
  pursued := by simp [recordAt, Protocol.start, network, NodeState.init, InMemory.getChannel]
  watches := fun _ channel found => by
    simp [Protocol.start, network, NodeState.init, InMemory.getChannel] at found

variable (reliable : Reliable nodes) (h : Tended nodes id w)
include reliable h

/-- What has the txid a task waits for passes its check. -/
theorem takes {i : ι} {task : Task c} (member : task ∈ (w.states i).tasks) {tx : Transaction}
    (same : c.txid tx = task.channel.id.txid) : task.Takes tx := by
  have stored := (h.joint.settled i).tasks task member
  have good := (h.joint.wellFormed i).tasks task member
  cases task with
  | readyToFund ready =>
      have few := ((h.backed i).tasks _ member).few ready.fundTx
        (by simp [Task.channel, ready.ready, ChannelState.fundTx?])
      have committed := Channel.WellFormed.committed good
      rw [Task.Takes, FundTx.matchesTx_eq reliable.psbts reliable.txids few committed.named,
        Option.some.injEq, decide_eq_true_eq]
      exact same
  | waitingForFund waiting descriptor =>
      -- the other side knows what the transaction pays
      obtain ⟨j, mine, theirs, there, there', sides⟩ :=
        h.joint.responder stored good.1.waiting
      obtain rfl := Option.some.inj (there'.symm.trans stored)
      obtain ⟨fundTx, opened, few, valued⟩ := ((h.backed j).stored there).opened sides.initiator
      have named : fundTx.channelId = some waiting.channel.id :=
        opened.named.trans (congrArg some ((h.joint.settled j).named there))
      obtain ⟨-, value, paid⟩ := FundTx.channelId_output few named
      have made := (nodes j).manager.fundingDescriptorFor_agree (nodes i).manager true
      rw [← sides.mine_peer, opened.descriptor, ← sides.theirs_peer, Bool.not_true] at made
      obtain rfl := Option.some.inj (made.trans good.2)
      rw [FundTx.outputValue_of_output named paid] at valued
      obtain rfl : value = waiting.channel.value :=
        (Option.some.inj valued).trans sides.value.symm
      rw [Task.Takes, WaitingChannel.accepts,
        FundTx.output_of_txid reliable.psbts reliable.txids few named same, paid,
        beq_self_eq_true]

/-- A step of a node leaves a task to every record that waits for its funding. -/
theorem step_watches {i : ι} {a : Act c} {reply : Reply c} {s' : NodeState c}
    (stepped : (nodes i).step (w.states i) a = some (reply, s')) : s'.Watches id := by
  refine (h.watches i).effect (h.joint.settled i) (Node.step_effect stepped) ?_
  rintro k now task rfl waiting named channel erased there
  have ended := (Node.step_eq_some.mp stepped).2
  rcases (nodes i).perform_poll k now (w.states i) with idle | ⟨task', tx, waiting', answer, -⟩
  · -- a poll that finds nothing leaves the task where it is
    rw [Node.outcome_of_ok idle] at ended
    obtain ⟨-, rfl⟩ := Prod.mk.inj ended
    have inside := (List.getElem?_eq_some_iff.mp waiting).1
    have length := congrArg List.length erased
    rw [List.length_eraseIdx_of_lt inside] at length
    omega
  · obtain rfl := Option.some.inj (waiting'.symm.trans waiting)
    have takes := h.takes reliable (List.mem_of_getElem? waiting)
      (reliable.chains i _ _ _ answer)
    rw [Node.outcome_poll waiting answer takes] at ended
    obtain ⟨-, rfl⟩ := Prod.mk.inj ended
    rcases InMemory.getChannel_insertChannel_cases there with ⟨-, rfl⟩ | ⟨other, -⟩
    · exact task'.stores_done tx
    · exact absurd (named.symm.trans (task'.stores_id tx).symm) other

variable [DecidableEq ι] {m : Move ι c.Entropy (Act c)} {reply : Option (Reply c)}
  (careful : Careful nodes id ⟨w, (m, reply), w'⟩) (moved : (network nodes).Moved w m reply w')
include careful moved

omit reliable in
theorem move_backed : ∀ i, (w'.states i).Backed (nodes i).manager := by
  have one : ∀ {k a r s'}, (nodes k).step (w.states k) a = some (r, s') →
      (∀ {value peer wallet}, a = .openChannel value peer wallet →
        m = .act k (.openChannel value peer wallet)) →
      ∀ i, (Function.update w.states k s' i).Backed (nodes i).manager := by
    intro k a r s' stepped opens
    refine (Function.forall_update_iff _ fun i => NodeState.Backed (nodes i).manager).mpr
      ⟨?_, fun i _ => h.backed i⟩
    exact (h.backed k).effect (Node.step_effect stepped) fun act => careful.honest.pays (opens act)
  cases moved with
  | act own stepped => exact one stepped (congrArg _)
  | deliver found addressed stepped => exact one stepped (by simp [network])
  | drop => exact h.backed

omit careful in
theorem move_watches : ∀ i, (w'.states i).Watches id := by
  have one : ∀ {k a r s'}, (nodes k).step (w.states k) a = some (r, s') →
      ∀ i, (Function.update w.states k s' i).Watches id := fun stepped =>
    (Function.forall_update_iff _ fun _ s => NodeState.Watches s id).mpr
      ⟨h.step_watches reliable stepped, fun i _ => h.watches i⟩
  cases moved with
  | act own stepped => exact one stepped
  | deliver found addressed stepped => exact one stepped
  | drop => exact h.watches

omit reliable careful moved in
/-- A step keeps a pending record pursued if it does where a message was under way. -/
theorem pursued_act {i : ι} {a : Act c} {r : Reply c} {s' : NodeState c}
    (keyed : ((nodes i).manager.myPublishingKeyFor 0).isSome)
    (stepped : (nodes i).step (w.states i) a = some (r, s')) {k : ι} {mine : Channel c}
    {fundTx : FundTx c} (rest : List (Envelope c.PeerId (Message c)))
    (under_way : (∃ e ∈ w.net, e.message.id = id) → recordAt w k id = some mine →
      Pursued (World.acted nodes w i r s' rest) k id)
    (there : recordAt (World.acted nodes w i r s' rest) k id = some mine)
    (pending : mine.state = .pending fundTx) :
    Pursued (World.acted nodes w i r s' rest) k id := by
  by_cases self : k = i
  · subst self
    rw [Acts.recordAt_self] at there
    rcases Node.step_pending keyed (h.joint.settled k) stepped there pending with
      before | ⟨peer, message, sent, same⟩
    · rcases h.pursued before pending with underWay | ⟨ready, held, same⟩
      · exact under_way underWay before
      · rcases (Node.step_effect stepped).ack_kept held with kept | stored
        · refine .inr ⟨ready, ?_, same⟩
          simp only [World.acted, Function.update_self, kept]
        · rw [same, there] at stored
          obtain rfl := Option.some.inj stored
          rw [ready.ready] at pending
          cases pending
    · refine .inl ⟨⟨(nodes k).manager.id, peer, message⟩, List.mem_append_right _ ?_, same⟩
      exact (network nodes).mem_posted.mpr ⟨rfl, sent⟩
  · rw [Acts.recordAt_of_ne self] at there
    rcases h.pursued there pending with underWay | ⟨ready, held, same⟩
    · exact under_way underWay there
    · refine .inr ⟨ready, ?_, same⟩
      simp only [World.acted, Function.update_of_ne self, held]

omit careful in
/-- A delivered message is answered, or its ack waits for its insert. -/
theorem pursued_deliver {k : Nat} {i : ι} {drawn : c.Entropy}
    {e : Envelope c.PeerId (Message c)} {r : Reply c} {s' : NodeState c}
    (deliver : m = .deliver k i drawn) (replied : reply = some r)
    (world : w' = World.acted nodes w i r s' (w.net.eraseIdx k))
    (found : w.net[k]? = some e) (about : e.message.id = id)
    (addressed : e.receiver = (nodes i).manager.id) {j : ι} {mine : Channel c}
    {fundTx : FundTx c} (there : recordAt w j id = some mine)
    (pending : mine.state = .pending fundTx) : Pursued w' j id := by
  have truthful := h.joint.truthful e (List.mem_of_getElem? found)
  have role := (((h.joint.wellFormed j).stored there).2.opened pending).initiator
  subst deliver replied
  cases message : e.message with
  | rsEcdsaNewChannel offer =>
      obtain ⟨commitSig, sent⟩ := offerAnswered h.joint moved reliable.known h.carries
        reliable.balance k i drawn e offer rfl found message
      obtain rfl := Option.some.inj sent
      have named : offer.id = id := by rw [← about, message]; rfl
      rw [world]
      refine .inl ⟨⟨(nodes i).manager.id, e.sender,
        .rsEcdsaAckNewChannel ⟨offer.id, commitSig⟩⟩, List.mem_append_right _ ?_, named⟩
      exact (network nodes).mem_posted.mpr ⟨rfl, rfl⟩
  | rsEcdsaAckNewChannel ack =>
      obtain ⟨mine', _, ready, stored, -, -, readied, -, -, held⟩ :=
        ackAccepted h.joint moved reliable.known h.carries k i drawn e ack rfl found message
      simp only [Truthful, message] at truthful
      obtain ⟨l, _, mine'', _, -, receiver, stored', pending', -⟩ := truthful
      obtain rfl : i = l := reliable.known (addressed.symm.trans receiver)
      have named : ack.id = id := by rw [← about, message]; rfl
      rw [named] at stored stored'
      have role' := (((h.joint.wellFormed i).stored stored').2.opened pending').initiator
      obtain rfl := h.sole there stored' role role'
      have same : mine'.id = id := (h.joint.settled j).named stored
      exact .inr ⟨ready, held, readied ▸ same⟩

theorem move_pursued {j : ι} {mine : Channel c} {fundTx : FundTx c}
    (there : recordAt w' j id = some mine) (pending : mine.state = .pending fundTx) :
    Pursued w' j id := by
  cases moved with
  | @act i a r s' own stepped =>
      refine h.pursued_act (reliable.keyed i) stepped w.net ?_ there pending
      rintro ⟨e, member, about⟩ -
      exact .inl ⟨e, List.mem_append_left _ member, about⟩
  | @deliver k i drawn e r s' found addressed stepped =>
      refine h.pursued_act (reliable.keyed i) stepped (w.net.eraseIdx k) ?_ there pending
      rintro ⟨e', member, about⟩ before
      by_cases same : e' = e
      · subst same
        exact h.pursued_deliver reliable (.deliver found addressed stepped) rfl rfl rfl found about
          addressed before pending
      · exact .inl ⟨e', List.mem_append_left _ (mem_eraseIdx_of_ne found member same), about⟩
  | @drop k =>
      rcases h.pursued there pending with ⟨e, member, about⟩ | waits
      · refine .inl ⟨e, ?_, about⟩
        obtain ⟨l, at_l⟩ := List.mem_iff_getElem?.mp member
        refine List.mem_eraseIdx_iff_getElem?.mpr ⟨l, ?_, at_l⟩
        rintro rfl
        exact careful.kept l e rfl at_l about
      · exact .inr waits

theorem move (took : (network nodes).move w m = some (reply, w')) : Tended nodes id w' where
  joint := h.joint.move reliable.known careful.honest took
  carries := carries_of_moved reliable.accepts reliable.known h.joint h.carries careful.honest
    careful.worth moved
  backed := h.move_backed careful moved
  sole := h.sole.moved h.joint reliable.known careful.honest moved
  pursued := h.move_pursued reliable careful moved
  watches := h.move_watches reliable moved

end Tended

/-- Messages arrive and inserts are done. -/
def Handshakes : Move ι c.Entropy (Act c) → Prop
  | .deliver .. | .act _ .resume => True
  | _ => False

/-- The monitors look for transactions, too. -/
def Unattended : Move ι c.Entropy (Act c) → Prop
  | .act _ (.poll ..) => True
  | m => Handshakes m

theorem Handshakes.unattended {m : Move ι c.Entropy (Act c)} (h : Handshakes m) :
    Unattended m := by
  cases m with
  | act i a =>
      cases a with
      | resume | poll => trivial
      | openChannel | receive | updateChannel | hangUp => exact h
  | deliver => trivial
  | drop => exact h

/-- The node opened the channel, and has the signature it asked for. -/
def Signed (i : ι) (id : ChannelId) (w : Net ι c) : Prop :=
  ∃ mine, recordAt w i id = some mine ∧ mine.iAmInitiator = true ∧ mine.state.Signed

/-- The initiator can spend, or has spent, what the channel holds. -/
def ChannelState.Established : ChannelState c → Prop
  | .live .. | .closed .. => True
  | _ => False

/-- Both sides have seen the channel funded. -/
def Completed (nodes : ι → Node c) (i : ι) (id : ChannelId) (w : Net ι c) : Prop :=
  ∃ j mine theirs fundTx, recordAt w i id = some mine ∧ recordAt w j id = some theirs ∧
    Sides nodes i j mine theirs ∧ mine.state.Established ∧ theirs.state = .funded fundTx

section Progress

variable [DecidableEq ι]

/-- Moves of a kind lead to the goal. -/
abbrev LeadsTo (nodes : ι → Node c) (allowed : Move ι c.Entropy (Act c) → Prop)
    (goal : Net ι c → Prop) (w : Net ι c) : Prop :=
  Leads (fun w label w' => (network nodes).move w label.1 = some (label.2, w'))
    (fun label : Move ι c.Entropy (Act c) × Option (Reply c) => allowed label.1) goal w

omit [DecidableEq ι] in
theorem careful_of_unattended {m : Move ι c.Entropy (Act c)} {reply : Option (Reply c)}
    (unattended : Unattended m) : Careful nodes id ⟨w, (m, reply), w'⟩ := by
  have other : ∀ i value peer wallet, m ≠ .act i (.openChannel value peer wallet) := by
    rintro i value peer wallet rfl
    exact unattended
  have kept : ∀ k, m ≠ .drop k := by
    rintro k rfl
    exact unattended
  exact {
    honest := {
      peers := fun act => absurd act (other _ _ _ _)
      pays := fun act => absurd act (other _ _ _ _)
      fresh := fun act => absurd act (other _ _ _ _) }
    worth := fun i value peer wallet act => absurd act (other _ _ _ _)
    kept := fun k e act => absurd act (kept k) }

theorem move_act {i : ι} {a : Act c} {r : Reply c} {s' : NodeState c}
    (own : (network nodes).own a = true)
    (stepped : (nodes i).step (w.states i) a = some (r, s')) :
    (network nodes).move w (.act i a) = some (some r, World.acted nodes w i r s' w.net) := by
  have stepped' : (network nodes).step i (w.states i) a = some (r, s') := stepped
  simp only [Protocol.move, own, if_true, Protocol.perform, stepped', Option.map_some, World.acted]

/-- Whoever is free takes a message that is for him. -/
theorem move_deliver {k : Nat} {i : ι} (drawn : c.Entropy)
    {e : Envelope c.PeerId (Message c)} (found : w.net[k]? = some e)
    (addressed : e.receiver = (nodes i).manager.id) (free : (w.states i).suspended = none) :
    ∃ r s', (network nodes).move w (.deliver k i drawn) =
      some (some r, World.acted nodes w i r s' (w.net.eraseIdx k)) := by
  obtain ⟨r, s', ended⟩ : ∃ r s', (nodes i).outcome (w.states i)
      (.receive e.sender e.message drawn) = (r, s') := ⟨_, _, rfl⟩
  have stepped : (network nodes).step i (w.states i)
      ((network nodes).receive e.sender e.message drawn) = some (r, s') :=
    Node.step_eq_some.mpr ⟨fun _ => free, ended⟩
  have addressed' : e.receiver = (network nodes).address i := addressed
  refine ⟨r, s', ?_⟩
  simp only [Protocol.move, found, addressed', if_true, Protocol.perform, stepped, Option.map_some,
    World.acted]

variable (reliable : Reliable nodes)
include reliable

namespace Tended

variable {m : Move ι c.Entropy (Act c)} {reply : Option (Reply c)}
  {allowed : Move ι c.Entropy (Act c) → Prop} {goal : Net ι c → Prop}

/-- A move that nobody asks for leads to wherever it leads to from there. -/
theorem leads (h : Tended nodes id w) (took : (network nodes).move w m = some (reply, w'))
    (may : allowed m) (unattended : Unattended m)
    (rest : Tended nodes id w' → LeadsTo nodes allowed goal w') :
    LeadsTo nodes allowed goal w :=
  .step_first (a := (m, reply)) took may <|
    rest (h.move reliable (careful_of_unattended unattended) (Protocol.moved_of_move took) took)

/-- The lock of a node can be freed, and no message is touched. -/
theorem free (h : Tended nodes id w) (i : ι)
    (rest : ∀ w', Tended nodes id w' → (w'.states i).suspended = none → w'.net = w.net →
      LeadsTo nodes Handshakes goal w') : LeadsTo nodes Handshakes goal w := by
  obtain ⟨r, s', stepped, silent, freed⟩ := (nodes i).step_resume (w.states i)
  refine h.leads reliable (move_act rfl stepped) trivial trivial fun h' => rest _ h' ?_ ?_
  · simp only [World.acted, Function.update_self, freed]
  · simp only [World.acted, Protocol.posted, network, silent, Option.toList_none, List.map_nil,
      List.append_nil]

/-- An ack that waits for its insert is stored. -/
theorem stores_ack (h : Tended nodes id w) {i : ι} {ready : ReadyChannel c}
    (held : (w.states i).suspended = some (.ack ready)) (about : ready.channel.id = id) :
    LeadsTo nodes Handshakes (fun w' => Tended nodes id w' ∧ Signed i id w') w := by
  have good : ready.channel.WellFormed (nodes i).manager (w.states i).answers :=
    (h.joint.wellFormed i).suspended _ held
  have done := Effect.perform_resume_ack (n := nodes i) held
  have stepped : (nodes i).step (w.states i) .resume = some (.ok .acked, _) :=
    Node.step_eq_some.mpr ⟨nofun, Node.outcome_of_ok done⟩
  refine h.leads reliable (move_act rfl stepped) trivial trivial fun h' => .here ⟨h', ?_⟩
  refine ⟨ready.channel, ?_, good.committed.initiator, by simp [ready.ready, ChannelState.Signed]⟩
  rw [Acts.recordAt_self, ← about]
  exact InMemory.getChannel_insertChannel_self _ _

omit reliable [DecidableEq ι] in
/-- A pending record of the channel is the initiator's. -/
theorem pending_role (h : Tended nodes id w) {i : ι} {mine : Channel c} {fundTx : FundTx c}
    (there : recordAt w i id = some mine) (pending : mine.state = .pending fundTx) :
    mine.iAmInitiator = true :=
  (((h.joint.wellFormed i).stored there).2.opened pending).initiator

/-- An ack that is under way is checked and stored. -/
theorem takes_ack (drawn : c.Entropy) (h : Tended nodes id w)
    {e : Envelope c.PeerId (Message c)} (member : e ∈ w.net) {ack : RsEcdsaAckNewChannel c}
    (message : e.message = .rsEcdsaAckNewChannel ack) (about : ack.id = id) {i : ι}
    (addressed : e.receiver = (nodes i).manager.id) :
    LeadsTo nodes Handshakes (fun w' => Tended nodes id w' ∧ Signed i id w') w := by
  refine h.free reliable i fun u h' free net => ?_
  obtain ⟨k, found⟩ := List.mem_iff_getElem?.mp (net ▸ member)
  obtain ⟨r, s', took⟩ := move_deliver drawn found addressed free
  refine h'.leads reliable took trivial trivial fun h'' => ?_
  obtain ⟨mine, _, ready, stored, -, -, readied, -, -, held⟩ :=
    ackAccepted h'.joint (Protocol.moved_of_move took) reliable.known h'.carries k i drawn e ack
      rfl found message
  have same : mine.id = ack.id := (h'.joint.settled i).named stored
  exact h''.stores_ack reliable held (readied ▸ same.trans about)

/-- An offer that is under way is answered, and its ack is stored. -/
theorem takes_offer (drawn : c.Entropy) (h : Tended nodes id w)
    {e : Envelope c.PeerId (Message c)} (member : e ∈ w.net) {offer : RsEcdsaNewChannel c}
    (message : e.message = .rsEcdsaNewChannel offer) (about : offer.id = id) {i : ι}
    (sender : e.sender = (nodes i).manager.id) :
    LeadsTo nodes Handshakes (fun w' => Tended nodes id w' ∧ Signed i id w') w := by
  have truthful := h.joint.truthful e member
  simp only [Truthful, message] at truthful
  obtain ⟨_, j, _, _, -, addressed, -⟩ := truthful
  refine h.free reliable j fun u h' free net => ?_
  obtain ⟨k, found⟩ := List.mem_iff_getElem?.mp (net ▸ member)
  obtain ⟨r, s', took⟩ := move_deliver drawn found addressed free
  refine h'.leads reliable took trivial trivial fun h'' => ?_
  obtain ⟨commitSig, sent⟩ := offerAnswered h'.joint (Protocol.moved_of_move took)
    reliable.known h'.carries reliable.balance k j drawn e offer rfl found message
  obtain rfl := Option.some.inj sent
  refine h''.takes_ack reliable drawn (e := ⟨(nodes j).manager.id, e.sender, _⟩)
    (List.mem_append_right _ ((network nodes).mem_posted.mpr ⟨rfl, rfl⟩)) rfl about sender

/-- The handshake of a channel can be completed. -/
theorem signs (drawn : c.Entropy) (h : Tended nodes id w) {i : ι} {mine : Channel c}
    (there : recordAt w i id = some mine) (role : mine.iAmInitiator = true) :
    LeadsTo nodes Handshakes (fun w' => Tended nodes id w' ∧ Signed i id w') w := by
  cases state : mine.state with
  | readyToFund | live | closed =>
      exact .here ⟨h, mine, there, role, by simp [state, ChannelState.Signed]⟩
  | waitingForFund | funded =>
      have responder := ((h.joint.wellFormed i).stored there).2.role.mpr
        (by simp [state, ChannelState.Responding])
      cases role.symm.trans responder
  | pending fundTx =>
      rcases h.pursued there state with ⟨e, member, about⟩ | ⟨ready, held, about⟩
      · have truthful := h.joint.truthful e member
        cases message : e.message with
        | rsEcdsaNewChannel offer =>
            simp only [Truthful, message] at truthful
            obtain ⟨l, _, mine', _, sender, -, there', pending, -⟩ := truthful
            have named : offer.id = id := by rw [← about, message]; rfl
            rw [named] at there'
            obtain rfl := h.sole there there' role (h.pending_role there' pending)
            exact h.takes_offer reliable drawn member message named sender
        | rsEcdsaAckNewChannel ack =>
            simp only [Truthful, message] at truthful
            obtain ⟨l, _, mine', _, -, receiver, there', pending, -⟩ := truthful
            have named : ack.id = id := by rw [← about, message]; rfl
            rw [named] at there'
            obtain rfl := h.sole there there' role (h.pending_role there' pending)
            exact h.takes_ack reliable drawn member message named receiver
      · exact h.stores_ack reliable held about

omit reliable [DecidableEq ι] in
/-- An initiator that has a signature agrees with its peer about the channel. -/
theorem signed_both (h : Tended nodes id w) {i : ι} (signed : Signed i id w) :
    ∃ j, Both nodes w i j id := by
  obtain ⟨mine, there, role, signed⟩ := signed
  rcases h.joint.initiator there role with ⟨fundTx, pending⟩ | both
  · simp only [pending, ChannelState.Signed] at signed
  · exact both

/-- A record that waits for its funding gets it once the transaction can be found. -/
theorem polls (h : Tended nodes id w) {i : ι} {channel : Channel c}
    (there : recordAt w i id = some channel) (waits : channel.state.Waits) {now : Nat}
    {tx : Transaction} (answer : (nodes i).chain.getTx id.txid now = .ok (some tx)) :
    ∃ (task : Task c) (k : Nat) (reply : Option (Reply c)) (w' : Net ι c),
      task.channel = channel ∧ (network nodes).move w (.act i (.poll k now)) = some (reply, w') ∧
      recordAt w' i id = some (task.stores tx) ∧
      ∀ j, j ≠ i → recordAt w' j id = recordAt w j id := by
  obtain ⟨task, member, about⟩ := h.watches i channel there waits
  have stored := (h.joint.settled i).tasks task member
  have same : task.channel = channel := by
    rw [about] at stored
    exact Option.some.inj (stored.symm.trans there)
  obtain ⟨k, waiting⟩ := List.mem_iff_getElem?.mp member
  have answer' : (nodes i).chain.getTx task.channel.id.txid now = .ok (some tx) := about ▸ answer
  have takes := h.takes reliable member (reliable.chains i _ _ _ answer')
  have stepped : (nodes i).step (w.states i) (.poll k now) = some (.ok .finished, _) :=
    Node.step_eq_some.mpr ⟨nofun, Node.outcome_poll waiting answer' takes⟩
  refine ⟨task, k, _, _, same, move_act rfl stepped, ?_, fun j other => Acts.recordAt_of_ne other⟩
  rw [Acts.recordAt_self, ← about, ← task.stores_id tx]
  exact InMemory.getChannel_insertChannel_self _ _

/-- What was signed goes live. -/
theorem lives (h : Tended nodes id w) {i : ι} (signed : Signed i id w)
    (confirmed : ∃ now tx, (nodes i).chain.getTx id.txid now = .ok (some tx)) :
    LeadsTo nodes Unattended (fun w' => Tended nodes id w' ∧ ∃ mine,
      recordAt w' i id = some mine ∧ mine.iAmInitiator = true ∧ mine.state.Established) w := by
  obtain ⟨mine, there, role, signed⟩ := signed
  cases state : mine.state with
  | pending | waitingForFund | funded => simp only [state, ChannelState.Signed] at signed
  | live | closed =>
      exact .here ⟨h, mine, there, role, by simp [state, ChannelState.Established]⟩
  | readyToFund =>
      obtain ⟨now, tx, answer⟩ := confirmed
      obtain ⟨task, k, reply, w', same, took, stored, -⟩ :=
        h.polls reliable there (by simp [state, ChannelState.Waits]) answer
      refine h.leads reliable took trivial trivial fun h' => .here ⟨h', _, stored, ?_⟩
      cases task with
      | readyToFund ready => exact ⟨(congrArg Channel.iAmInitiator same).trans role, trivial⟩
      | waitingForFund waiting descriptor =>
          have waits := waiting.waiting
          rw [show waiting.channel = mine from same, state] at waits
          cases waits

/-- And its peer sees it funded. -/
theorem funds (h : Tended nodes id w) {i : ι} {mine : Channel c}
    (there : recordAt w i id = some mine) (role : mine.iAmInitiator = true)
    (established : mine.state.Established)
    (confirmed : ∀ j, ∃ now tx, (nodes j).chain.getTx id.txid now = .ok (some tx)) :
    LeadsTo nodes Unattended (Completed nodes i id) w := by
  obtain ⟨j, mine', theirs, there', stored, sides⟩ : ∃ j, Both nodes w i j id := by
    rcases h.joint.initiator there role with ⟨fundTx, pending⟩ | both
    · simp only [pending, ChannelState.Established] at established
    · exact both
  obtain rfl := Option.some.inj (there'.symm.trans there)
  have responding := ((h.joint.wellFormed j).stored stored).2.role.mp sides.responder
  cases state : theirs.state with
  | pending | readyToFund | live | closed =>
      simp only [state, ChannelState.Responding] at responding
  | funded fundTx =>
      exact .here ⟨j, mine', theirs, fundTx, there, stored, sides, established, state⟩
  | waitingForFund =>
      have apart : i ≠ j := by
        rintro rfl
        obtain rfl := Option.some.inj (stored.symm.trans there)
        cases role.symm.trans sides.responder
      obtain ⟨now, tx, answer⟩ := confirmed j
      obtain ⟨task, k, reply, w', same, took, stored', others⟩ :=
        h.polls reliable stored (by simp [state, ChannelState.Waits]) answer
      cases task with
      | readyToFund ready =>
          have isReady := ready.ready
          rw [show ready.channel = theirs from same, state] at isReady
          cases isReady
      | waitingForFund waiting descriptor =>
          obtain rfl : waiting.channel = theirs := same
          refine h.leads reliable took trivial trivial fun _ => .here ?_
          exact ⟨j, mine', _, tx, (others i apart).trans there, stored', {
            mine_peer := sides.mine_peer
            theirs_peer := sides.theirs_peer
            value := sides.value
            initiator := sides.initiator
            responder := sides.responder }, established, rfl⟩

end Tended

end Progress

section Small

/-- A blockchain that holds one transaction. -/
def minedChain (txid : Transaction → Txid) (tx : Transaction) :
    Blockchain (smallCratesWith txid true) where
  getTx := fun id _ => .ok (if txid tx = id then some tx else none)

theorem minedChain_lawful (txid : Transaction → Txid) (tx : Transaction) :
    (minedChain txid tx).Lawful := by
  intro id now tx' found
  simp only [minedChain, Except.ok.injEq, Option.ite_none_right_eq_some,
    Option.some.injEq] at found
  obtain ⟨rfl, rfl⟩ := found
  rfl

/-- Two parties that look at it. -/
def minedNodes {txid : Transaction → Txid} (tx : Transaction)
    (alice bob : ChannelManager (smallCratesWith txid true)) :
    Bool → Node (smallCratesWith txid true)
  | true => ⟨alice, minedChain txid tx⟩
  | false => ⟨bob, minedChain txid tx⟩

/-- The wallet that made it. -/
def minedPayer (txid : Transaction → Txid) : Wallet (smallCratesWith txid true) :=
  fun script value => .ok (.ofUnsigned { smallFundingTx with output := [⟨value, script⟩] })

theorem minedPayer_pays (txid : Transaction → Txid) : Wallet.Pays (minedPayer txid) where
  once := by
    intro script value psbt paid
    obtain rfl := Except.ok.inj paid
    simp [Psbt.ofUnsigned]
  numbered := by
    intro script value psbt paid
    obtain rfl := Except.ok.inj paid
    simp [Psbt.ofUnsigned]

theorem minedNodes_reliable : Reliable (minedNodes smallFundingTx
    (smallManager exists_lawfulTxid.choose 2 (by decide) (by decide))
    (smallManager exists_lawfulTxid.choose 4 (by decide) (by decide))) where
  accepts := smallCrates_adaptor.accepts
  psbts := smallCrates_psbt
  txids := exists_lawfulTxid.choose_spec
  known := by
    have distinct : (smallManager exists_lawfulTxid.choose 2 (by decide) (by decide)).id ≠
        (smallManager exists_lawfulTxid.choose 4 (by decide) (by decide)).id := by
      decide +kernel
    intro i j same
    cases i <;> cases j
    · rfl
    · exact absurd same.symm distinct
    · exact absurd same distinct
    · rfl
  balance := by
    intro i j apart
    cases i <;> cases j
    · exact absurd rfl apart
    · decide +kernel
    · decide +kernel
    · exact absurd rfl apart
  keyed := fun i => by cases i <;> decide +kernel
  chains := fun i => by cases i <;> exact minedChain_lawful _ _

end Small

end Lindy
