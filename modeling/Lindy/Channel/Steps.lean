import Lindy.Channel.Effect
import Lindy.Machine.Local
import Mathlib.Data.Multiset.Basic

/-! # Operations as steps on one channel

Every operation of the manager from its beginning to its end, and every task that gets its
transaction, is a local step: it reads and writes the record of its channel and no other.
-/

namespace Lindy

open Bitcoin Machine Op

variable {c : Crates}

/-- One operation on one channel, from its beginning to its end. -/
inductive ChannelStep (c : Crates) where
  /-- `new_channel`, with the transaction the funder answers. -/
  | newChannel (psbt : c.Psbt) (value : UInt64) (peer : c.PeerId)
  | recvNewChannel (peer : c.PeerId) (channel : RsEcdsaNewChannel c) (entropy : c.Entropy)
  | recvNewChannelAck (peer : c.PeerId) (channel : RsEcdsaAckNewChannel c)
  /-- A task of `wait_for_funding` gets its transaction from the monitor. -/
  | finish (task : Task c) (onChainTx : Transaction)
  | forceClose (channelId : ChannelId) (entropy : c.Entropy)

inductive Answer (c : Crates) where
  | offer (message : RsEcdsaNewChannel c)
  | ack (message : RsEcdsaAckNewChannel c)
  | acked
  | finished
  | closed (closeTx : Transaction)

namespace ChannelStep

def op (m : ChannelManager c) : ChannelStep c → Op c (Answer c)
  | newChannel psbt value peer => do
      let message ← m.newChannel (fun _ _ => .ok psbt) value peer
      pure (.offer message)
  | recvNewChannel peer channel entropy => do
      let message ← m.recvNewChannel peer channel entropy
      pure (.ack message)
  | recvNewChannelAck peer channel => do
      m.recvNewChannelAck peer channel
      pure .acked
  | finish task onChainTx => do
      task.finish onChainTx
      pure .finished
  | forceClose channelId entropy => do
      let closeTx ← m.forceCloseChannel channelId entropy
      pure (.closed closeTx)

/-- The channel a step is about. There is none when `new_channel` panics over its id. -/
def id (m : ChannelManager c) : ChannelStep c → Option ChannelId
  | newChannel psbt _ peer => do
      let descriptor ← m.fundingDescriptorFor peer true
      FundTx.channelId ⟨descriptor, psbt⟩
  | recvNewChannel _ channel _ => some channel.id
  | recvNewChannelAck _ channel => some channel.id
  | finish task _ => some task.channel.id
  | forceClose channelId _ => some channelId

/-- The task that is gone afterwards. -/
def ends : ChannelStep c → List (Task c)
  | finish task _ => [task]
  | _ => []

/-- A task can only be finished while it is outstanding. -/
def Enabled (step : ChannelStep c) (s : NodeState c) : Prop :=
  ∃ rest, s.tasks.Perm (step.ends ++ rest)

/-- The step is taken and leads to this result. The order of the tasks means nothing. -/
def Takes (m : ChannelManager c) (s : NodeState c) (step : ChannelStep c)
    (result : Except (Failure c) (Answer c)) (s' : NodeState c) : Prop :=
  ∃ rest, s.tasks.Perm (step.ends ++ rest) ∧
    resultOf (step.op m) { s with tasks := rest } = (result, s')

end ChannelStep

/-- The id of the channel a task was spawned for. -/
def Task.id (task : Task c) : ChannelId := task.channel.id

/-- Every record is stored under its own id. -/
def NodeState.Named (s : NodeState c) : Prop :=
  ∀ id channel, s.db.getChannel id = some channel → channel.id = id

def NodeState.cells (s : NodeState c) : Cells ChannelId (Channel c) (Task c) where
  records := s.db
  tasks := s.tasks

abbrev ChannelTurn (c : Crates) := Turn (Channel c) (Task c) (Except (Failure c) (Answer c))

abbrev LocalStep (c : Crates) :=
  Local ChannelId (Channel c) (Task c) (Except (Failure c) (Answer c))

/-- On states that name their records the operation does what `turn` makes of the record of
    one channel, and nothing else. -/
structure Performs (id : ChannelId) (turn : Option (Channel c) → ChannelTurn c)
    (op : Op c (Answer c)) : Prop where
  run : ∀ s : NodeState c, s.Named → resultOf op s =
    ((turn (s.db.getChannel id)).reply,
      { s with
        db := Local.write s.db id (turn (s.db.getChannel id)).stores
        tasks := s.tasks ++ (turn (s.db.getChannel id)).spawns })
  stores : ∀ record, (∀ channel ∈ record, channel.id = id) →
    ∀ channel ∈ (turn record).stores, channel.id = id
  spawns : ∀ record, (∀ channel ∈ record, channel.id = id) →
    ∀ task ∈ (turn record).spawns, task.id = id

/-- A node that holds one record and nothing else. -/
def NodeState.holding (id : ChannelId) (record : Option (Channel c)) : NodeState c where
  db := Local.write .empty id record
  tasks := []
  suspended := none
  answers := []

@[simp] theorem NodeState.getChannel_holding (id : ChannelId) (record : Option (Channel c)) :
    (NodeState.holding id record).db.getChannel id = record := by
  rw [InMemory.getChannel, holding, Local.get_write_self, Table.get_empty, Option.or_none]

namespace ChannelManager

variable (m : ChannelManager c)

theorem orPanic_depends {α β : Type} (view : NodeState c → β) (a : Option α) :
    Depends view (orPanic a : Op c α) := by
  cases a with
  | none => exact .throw _
  | some a => exact .pure a

/-- An ack is checked against the record of its channel alone. -/
theorem checkAck_depends (peer : c.PeerId) (channel : RsEcdsaAckNewChannel c) :
    Depends (fun s => s.db.getChannel channel.id) (m.checkAck peer channel) := by
  refine Depends.get_bind (NodeState.holding channel.id) (fun s => ?_) fun s => ?_
  · simp only [InMemory.getChannelForPeer, NodeState.getChannel_holding]
  · split
    · exact .throw _
    · split
      · refine (orPanic_depends _ _).bind fun p1 => ?_
        refine (orPanic_depends _ _).bind fun points => ?_
        refine (orPanic_depends _ _).bind fun sighash => ?_
        refine (orPanic_depends _ _).bind fun publishingKey => ?_
        split
        · exact .pure _
        · exact .throw _
      · exact .throw _

theorem closeChannel_depends (id : ChannelId) (entropy : c.Entropy) :
    Depends (fun s => s.db.getChannel id) (m.closeChannel id entropy) := by
  refine Depends.get_bind (NodeState.holding id) (fun s => ?_) fun s => ?_
  · simp only [NodeState.getChannel_holding]
  · split
    · exact .throw _
    · split
      · exact (orPanic_depends _ _).bind fun _ => .pure _
      · exact .throw _

end ChannelManager

/-- The turn of an operation that stores what it made of its record, unless it failed. -/
def ChannelTurn.storing {α : Type} (answer : α → Answer c) (record : α → Channel c)
    (spawns : α → List (Task c)) : Except (Failure c) α → ChannelTurn c
  | .error failure => ⟨.error failure, none, []⟩
  | .ok a => ⟨.ok (answer a), some (record a), spawns a⟩

/-- A result is that on the state which holds just the record. -/
theorem read_holding {α : Type} {read : Op c α} {id : ChannelId}
    {result : Option (Channel c) → Except (Failure c) α}
    (same : ∀ s, resultOf read s = (result (s.db.getChannel id), s)) {r : Option (Channel c)}
    {a : α} (known : result r = .ok a) : ∃ t, read (.holding id r) = .ok a t := by
  have run := same (.holding id r)
  simp only [NodeState.getChannel_holding, known] at run
  cases done : read (.holding id r) with
  | ok b t =>
      rw [resultOf_of_ok done] at run
      obtain rfl := Except.ok.inj (Prod.mk.inj run).1
      exact ⟨t, rfl⟩
  | error e t =>
      rw [resultOf_of_error done] at run
      cases (Prod.mk.inj run).1

namespace Performs

variable {m : ChannelManager c} {id : ChannelId}

/-- An operation that stores a given record, if any, whatever there was before. -/
theorem of_const {op : Op c (Answer c)} (turn : ChannelTurn c)
    (run : ∀ s : NodeState c, resultOf op s =
      (turn.reply, { s with db := Local.write s.db id turn.stores
                            tasks := s.tasks ++ turn.spawns }))
    (stores : ∀ channel ∈ turn.stores, channel.id = id)
    (spawns : ∀ task ∈ turn.spawns, task.id = id) : Performs id (fun _ => turn) op :=
  ⟨fun s _ => run s, fun _ _ => stores, fun _ _ => spawns⟩

theorem newChannel {psbt : c.Psbt} {value : UInt64} {peer : c.PeerId}
    (concerns : (ChannelStep.newChannel psbt value peer).id m = some id) :
    ∃ turn, Performs id turn ((ChannelStep.newChannel psbt value peer).op m) := by
  simp only [ChannelStep.id, Option.bind_eq_bind, Option.bind_eq_some_iff] at concerns
  obtain ⟨descriptor, made, named⟩ := concerns
  let stored : Channel c := FundTx.pendingChannel ⟨descriptor, psbt⟩ id peer value
  have stores (s : NodeState c) : m.newChannel (fun _ _ => .ok psbt) value peer s = _ :=
    m.newChannel_paid made rfl named s
  obtain ⟨reply, run⟩ : ∃ reply, ∀ s, resultOf ((ChannelStep.newChannel psbt value peer).op m) s =
      (reply, { s with db := s.db.insertChannel stored }) := by
    cases key : m.myPublishingKeyFor 0 with
    | none =>
        refine ⟨.error .panic, fun s => resultOf_of_error (bind_of_error ?_)⟩
        rw [stores, key, bind_of_error (orPanic_none _)]
    | some publishingKey =>
        let message : RsEcdsaNewChannel c := ⟨id, value, m.toSelfDelay, 372 * 250, publishingKey⟩
        refine ⟨.ok (.offer message), fun s => resultOf_of_ok (bind_of_ok (a := message) ?_)⟩
        rw [stores, key, bind_of_ok (orPanic_some _ _)]
        rfl
  refine ⟨_, of_const ⟨reply, some stored, []⟩ (fun s => ?_) ?_ (by simp)⟩
  · rw [run s, List.append_nil]
    rfl
  · simp [stored, FundTx.pendingChannel]

/-- An operation that panics before it does anything. -/
theorem of_panic {op : Op c (Answer c)} (panics : ∀ s, op s = .error .panic s) :
    Performs id (fun _ => ⟨.error .panic, none, []⟩) op := by
  refine of_const _ (fun s => ?_) (by simp) (by simp)
  rw [resultOf_of_error (panics s), List.append_nil]
  rfl

theorem recvNewChannel (peer : c.PeerId) (channel : RsEcdsaNewChannel c) (entropy : c.Entropy) :
    ∃ turn, Performs channel.id turn
      ((ChannelStep.recvNewChannel peer channel entropy).op m) := by
  rcases m.recvNewChannel_cases peer channel with fails |
    ⟨secretKey, sighash, descriptor, -, -, -, accepts⟩
  · exact ⟨_, of_panic fun s => bind_of_error (fails entropy s)⟩
  · let waiting := channel.waitingChannel peer
    refine ⟨_, of_const ⟨.ok (.ack ⟨channel.id,
      c.encryptedSign secretKey channel.publishingKey sighash entropy⟩),
      some waiting.channel, [.waitingForFund waiting descriptor]⟩ (fun s => ?_)
      (by simp [waiting, RsEcdsaNewChannel.waitingChannel])
      (by simp [waiting, RsEcdsaNewChannel.waitingChannel, Task.id, Task.channel])⟩
    exact resultOf_of_ok (bind_of_ok (accepts entropy s))

theorem finish (task : Task c) (tx : Transaction) :
    ∃ turn, Performs task.id turn ((ChannelStep.finish task tx).op m) := by
  cases task with
  | readyToFund ready =>
      rcases matched : ready.fundTx.matchesTx tx with _ | _ | _
      · refine ⟨_, of_panic fun s => bind_of_error ?_⟩
        rw [Task.finish, matched, bind_of_error (orPanic_none _)]
      · refine ⟨_, of_panic fun s => bind_of_error ?_⟩
        rw [Task.finish, matched, bind_of_ok (orPanic_some _ _)]
        rfl
      · refine ⟨_, of_const ⟨.ok .finished, some ready.live, []⟩ (fun s => ?_)
          (by simp [ReadyChannel.live, Task.id, Task.channel]) (by simp)⟩
        rw [List.append_nil]
        refine resultOf_of_ok (bind_of_ok (a := ()) ?_)
        rw [Task.finish, matched, bind_of_ok (orPanic_some _ _)]
        rfl
  | waitingForFund waiting descriptor =>
      have quiet : (∀ s, Task.finish (.waitingForFund waiting descriptor) tx s = .ok () s) →
          ∃ turn, Performs waiting.channel.id turn
            ((ChannelStep.finish (.waitingForFund waiting descriptor) tx).op m) := fun ended =>
        ⟨_, of_const ⟨.ok .finished, none, []⟩ (fun s => by
          rw [List.append_nil]
          exact resultOf_of_ok (bind_of_ok (ended s))) (by simp) (by simp)⟩
      cases found : tx.output[waiting.channel.id.vout.toNat]? with
      | none => exact quiet fun s => by simp [Task.finish, found]
      | some output =>
          by_cases same : output.scriptPubkey = c.scriptPubkey descriptor ∧
              output.value = waiting.channel.value
          · refine ⟨_, of_const ⟨.ok .finished, some (waiting.funded tx), []⟩ (fun s => ?_)
              (by simp [WaitingChannel.funded, Task.id, Task.channel]) (by simp)⟩
            rw [List.append_nil]
            refine resultOf_of_ok (bind_of_ok (a := ()) ?_)
            simp only [Task.finish, found, same, and_self, if_true]
            rfl
          · exact quiet fun s => by simp [Task.finish, found, same]

/-- An operation that first reads its record and then stores what it made of it. -/
theorem of_depends {α : Type} {read : Op c α} {rest : α → Op c (Answer c)}
    (depends : Depends (fun s => s.db.getChannel id) read)
    (answer : α → Answer c) (record : α → Channel c) (spawns : α → List (Task c))
    (stored : ∀ a s, rest a s = .ok (answer a)
      { s with db := s.db.insertChannel (record a), tasks := s.tasks ++ spawns a })
    (named : ∀ s a t, (∀ channel ∈ s.db.getChannel id, channel.id = id) → read s = .ok a t →
      (record a).id = id ∧ ∀ task ∈ spawns a, task.id = id) :
    ∃ turn, Performs id turn (read >>= rest) := by
  obtain ⟨result, same⟩ := depends
  have good : ∀ r, (∀ channel ∈ r, channel.id = id) →
      (∀ channel ∈ (ChannelTurn.storing answer record spawns (result r)).stores,
        channel.id = id) ∧
      ∀ task ∈ (ChannelTurn.storing answer record spawns (result r)).spawns, task.id = id := by
    intro r known
    cases made : result r with
    | error e => simp [ChannelTurn.storing]
    | ok a =>
        obtain ⟨t, run⟩ := read_holding same made
        simpa [ChannelTurn.storing] using named _ a t (by simpa using known) run
  refine ⟨fun r => .storing answer record spawns (result r), fun s whole => ?_,
    fun r known => (good r known).1, fun r known => (good r known).2⟩
  have run := same s
  cases done : read s with
  | error e t =>
      rw [resultOf_of_error done] at run
      obtain ⟨made, rfl⟩ := Prod.mk.inj run
      rw [resultOf_of_error (bind_of_error done)]
      simp [ChannelTurn.storing, ← made, Local.write]
  | ok a t =>
      rw [resultOf_of_ok done] at run
      obtain ⟨made, rfl⟩ := Prod.mk.inj run
      rw [resultOf_of_ok ((bind_of_ok done).trans (stored a t))]
      simp only [ChannelTurn.storing, ← made, Local.write, InMemory.insertChannel,
        (named t a t (whole id) done).1]

theorem recvNewChannelAck (peer : c.PeerId) (channel : RsEcdsaAckNewChannel c) :
    ∃ turn, Performs channel.id turn
      ((ChannelStep.recvNewChannelAck peer channel).op m) := by
  have split : (ChannelStep.recvNewChannelAck peer channel).op m =
      m.checkAck peer channel >>= fun ready =>
        m.storeReady ready >>= fun _ => pure .acked := by
    simp only [ChannelStep.op, ChannelManager.recvNewChannelAck, bind_assoc]
  rw [split]
  refine of_depends (m.checkAck_depends peer channel) (fun _ => .acked) ReadyChannel.channel
    (fun ready => [.readyToFund ready]) (fun ready s => ?_) fun s ready t known done => ?_
  · rw [bind_of_ok (m.storeReady_apply ready s)]
    rfl
  · obtain ⟨-, stored, fundTx, p1, there, -, -, -, -, rfl⟩ := m.checkAck_eq_ok.mp done
    have same : stored.id = channel.id := known stored there
    simp [Channel.readied, Task.id, Task.channel, same]

theorem forceClose (id : ChannelId) (entropy : c.Entropy) :
    ∃ turn, Performs id turn ((ChannelStep.forceClose id entropy).op m) := by
  have split : (ChannelStep.forceClose id entropy).op m =
      m.closeChannel id entropy >>= fun both =>
        insertChannel both.1 >>= fun _ => pure (.closed both.2) := by
    simp only [ChannelStep.op, ChannelManager.forceCloseChannel, bind_assoc, pure_bind]
  rw [split]
  refine of_depends (m.closeChannel_depends id entropy) (fun both => .closed both.2) Prod.fst
    (fun _ => []) (fun both s => ?_) fun s both t known done => ?_
  · rw [bind_of_ok (insertChannel_apply _ _), List.append_nil]
    rfl
  · obtain ⟨-, stored, _, _, _, there, -, -, same⟩ := m.closeChannel_eq_ok.mp done
    have named : stored.id = id := known stored there
    simp [same, named]

end Performs

/-- Every step does what it does to the record of its channel. -/
theorem ChannelStep.performs {m : ChannelManager c} {step : ChannelStep c} {id : ChannelId}
    (concerns : step.id m = some id) : ∃ turn, Performs id turn (step.op m) := by
  cases step with
  | newChannel psbt value peer => exact Performs.newChannel concerns
  | recvNewChannel peer channel entropy =>
      obtain rfl := Option.some.inj concerns
      exact Performs.recvNewChannel peer channel entropy
  | recvNewChannelAck peer channel =>
      obtain rfl := Option.some.inj concerns
      exact Performs.recvNewChannelAck peer channel
  | finish task tx =>
      obtain rfl := Option.some.inj concerns
      exact Performs.finish task tx
  | forceClose channelId entropy =>
      obtain rfl := Option.some.inj concerns
      exact Performs.forceClose channelId entropy

/-- Reading only a record that is stored under its own id changes nothing on states that name
    their records, and makes the step keep to its channel on all others. -/
def ChannelStep.toLocal (step : ChannelStep c) (id : ChannelId)
    (turn : Option (Channel c) → ChannelTurn c) : LocalStep c where
  key := id
  ends := step.ends
  turn := fun record => turn (record.filter fun channel => channel.id = id)

namespace ChannelStep

variable {m : ChannelManager c} {step : ChannelStep c} {id : ChannelId}
  {turn : Option (Channel c) → ChannelTurn c} {s s' : NodeState c}
  {r : Except (Failure c) (Answer c)}

theorem toLocal_keyed (concerns : step.id m = some id) (performs : Performs id turn (step.op m)) :
    (step.toLocal id turn).Keyed Task.id where
  ends := by
    cases step with
    | finish task tx =>
        obtain rfl := Option.some.inj concerns
        simp [toLocal, ends, Task.id]
    | _ => simp [toLocal, ends]
  spawns := by
    intro record
    apply performs.spawns
    intro channel member
    simpa using (Option.mem_filter_iff.mp member).2

theorem toLocal_turn (named : s.Named) :
    (step.toLocal id turn).turn (s.cells.records.get id) = turn (s.db.getChannel id) := by
  have kept : (s.db.getChannel id).filter (fun channel => channel.id = id) =
      s.db.getChannel id := by
    cases found : s.db.getChannel id with
    | none => rfl
    | some channel => simp [Option.filter, named id channel found]
  exact congrArg turn kept

/-- A step that is taken is a local step on the cells, and names what it stores. -/
theorem Takes.steps (performs : Performs id turn (step.op m)) (named : s.Named)
    (took : step.Takes m s r s') :
    (step.toLocal id turn).Steps s.cells r s'.cells ∧ s'.Named := by
  obtain ⟨rest, perm, run⟩ := took
  rw [performs.run { s with tasks := rest } named] at run
  obtain ⟨rfl, rfl⟩ := Prod.mk.inj run
  have same : (step.toLocal id turn).turn (s.cells.records.get id) = turn (s.db.getChannel id) :=
    toLocal_turn named
  refine ⟨⟨?_, rest, ?_, ?_⟩, fun other channel found => ?_⟩
  · exact congrArg Turn.reply same.symm
  · exact Multiset.coe_eq_coe.mpr perm
  · simp only [NodeState.cells, Local.after, Cells.mk.injEq]
    exact ⟨congrArg (Local.write s.db id) (congrArg Turn.stores same.symm), by
      rw [← Multiset.coe_add]
      exact congrArg (fun made => ((rest : Multiset (Task c)) + (made.spawns : Multiset _)))
        same.symm⟩
  · by_cases here : other = id
    · subst here
      rw [InMemory.getChannel, Local.get_write_self, Option.or_eq_some_iff] at found
      rcases found with stored | ⟨-, before⟩
      · exact performs.stores _ (named other) channel stored
      · exact named other channel before
    · rw [InMemory.getChannel, Local.get_write_of_ne _ _ here] at found
      exact named other channel found

/-- The converse: what the local step can do, the step can. -/
theorem Takes.of_steps (performs : Performs id turn (step.op m)) (named : s.Named)
    {t : Cells ChannelId (Channel c) (Task c)}
    (steps : (step.toLocal id turn).Steps s.cells r t) :
    ∃ s', step.Takes m s r s' ∧ s'.cells = t := by
  have ⟨_, rest, split, _⟩ := steps
  have perm : s.tasks.Perm (step.ends ++ rest.toList) := by
    rw [← Multiset.coe_eq_coe, ← Multiset.coe_add, Multiset.coe_toList]
    exact split
  have took : step.Takes m s _ _ := ⟨rest.toList, perm, rfl⟩
  obtain ⟨rfl, same⟩ := steps.unique (took.steps performs named).1
  exact ⟨_, took, same.symm⟩

/-- A step has one outcome, up to the order of the tasks. -/
theorem Takes.unique (concerns : step.id m = some id) (named : s.Named)
    {q : Except (Failure c) (Answer c)} {u t : NodeState c} (same : u.cells = s.cells)
    (first : step.Takes m s r s') (second : step.Takes m u q t) :
    r = q ∧ s'.cells = t.cells := by
  obtain ⟨turn, performs⟩ := ChannelStep.performs concerns
  have named' : u.Named := by
    have records : u.db = s.db := congrArg Cells.records same
    rw [NodeState.Named, records]
    exact named
  have steps := (second.steps performs named').1
  rw [same] at steps
  exact (first.steps performs named).1.unique steps

/-- A step with no channel panics and changes nothing. -/
theorem Takes.idle (nameless : step.id m = none) (took : step.Takes m s r s') :
    s'.cells = s.cells := by
  cases step with
  | newChannel psbt value peer =>
      obtain ⟨rest, perm, run⟩ := took
      have panics : ∀ u, m.newChannel (fun _ _ => .ok psbt) value peer u = .error .panic u := by
        intro u
        cases made : m.fundingDescriptorFor peer true with
        | none => exact m.newChannel_underived made u
        | some descriptor =>
            have lost : FundTx.channelId (c := c) ⟨descriptor, psbt⟩ = none := by
              simpa [ChannelStep.id, made] using nameless
            exact m.newChannel_unnamed made rfl lost u
      have ended := (resultOf_of_error (bind_of_error (panics _))).symm.trans run
      obtain ⟨-, rfl⟩ := Prod.mk.inj ended
      exact congrArg (Cells.mk s.db) (Multiset.coe_eq_coe.mpr perm.symm)
  | _ => cases nameless

end ChannelStep

end Lindy
