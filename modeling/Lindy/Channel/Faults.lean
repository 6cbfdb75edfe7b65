import Lindy.Channel.Effect
import Lindy.Machine.Interference

/-! # The channel manager over a database that fails

`ChannelDb` is a trait and its operations may fail, and while one of them is awaited the rest
of the node goes on. `Course` is what one request meets on its way. The operations are written
again with every point where they wait; when nobody moves and nothing fails they are those of
`ChannelManager`.
-/

namespace Lindy

open Machine Op

variable {c : Crates}

/-- Where a request waits: before and after an insert, and once anywhere else. -/
inductive Await where
  | lock | fund | get | insert | inserted | send

structure Course (c : Crates) where
  wallet : Wallet c
  /-- What the rest of the node does while the request waits. -/
  meanwhile : Await → NodeState c → NodeState c
  getFails : Option (Failure c)
  /-- An insert that fails has stored nothing. -/
  insertFails : Option (Failure c)

namespace Course

variable (on : Course c) (m : ChannelManager c)

def wait (point : Await) : Op c Unit := await on.meanwhile point

/-- Up to the point where the database answers a `get_channel`. -/
def tryGet : Op c Unit := do
  on.wait .get
  match on.getFails with
  | some failure => throw failure
  | none => pure ()

def tryInsert (channel : Channel c) : Op c Unit := do
  on.wait .insert
  match on.insertFails with
  | some failure => throw failure
  | none =>
      insertChannel channel
      on.wait .inserted

/-- `create_fund_transaction`. -/
def fund (value : UInt64) (descriptor : c.Descriptor) : Op c (FundTx c) := do
  on.wait .fund
  match createFundTransaction on.wallet value descriptor with
  | .ok fundTx => pure fundTx
  | .error error => throw (.bdk error)

def newChannel (value : UInt64) (peerId : c.PeerId) : Op c (RsEcdsaNewChannel c) := do
  let descriptor ← orPanic (m.fundingDescriptorFor peerId true)
  let fundTx ← on.fund value descriptor
  let id ← orPanic fundTx.channelId
  on.tryInsert (fundTx.pendingChannel id peerId value)
  let publishingKey ← orPanic (m.myPublishingKeyFor 0)
  pure { id, fundingSatoshis := value, toSelfDelay := m.toSelfDelay, feeratePerKw := 372 * 250,
         publishingKey }

def recvNewChannelAck (peer : c.PeerId) (channel : RsEcdsaAckNewChannel c) : Op c Unit := do
  on.tryGet
  let ready ← m.checkAck peer channel
  on.tryInsert ready.channel
  m.waitForFunding ready.channel

def forceCloseChannel (channelId : ChannelId) (entropy : c.Entropy) :
    Op c Bitcoin.Transaction := do
  on.tryGet
  let (channel, closeTx) ← m.closeChannel channelId entropy
  on.tryInsert channel
  pure closeTx

/-- Nobody moves and nothing fails. -/
structure Calm : Prop where
  still : ∀ point s, on.meanwhile point s = s
  gets : on.getFails = none
  inserts : on.insertFails = none

namespace Calm

variable {on}

theorem wait (calm : on.Calm) (point : Await) : on.wait point = pure () := by
  funext s
  simp [Course.wait, calm.still]

theorem tryGet (calm : on.Calm) : on.tryGet = pure () := by
  simp [Course.tryGet, calm.wait, calm.gets]

theorem tryInsert (calm : on.Calm) (channel : Channel c) :
    on.tryInsert channel = insertChannel channel := by
  simp [Course.tryInsert, calm.wait, calm.inserts]

theorem newChannel (calm : on.Calm) (value : UInt64) (peer : c.PeerId) :
    on.newChannel m value peer = m.newChannel on.wallet value peer := by
  simp only [Course.newChannel, ChannelManager.newChannel, fund, calm.wait, calm.tryInsert,
    pure_bind, FundTx.pendingChannel]
  congr 1
  funext descriptor
  cases createFundTransaction on.wallet value descriptor <;> rfl

theorem recvNewChannelAck (calm : on.Calm) (peer : c.PeerId)
    (channel : RsEcdsaAckNewChannel c) :
    on.recvNewChannelAck m peer channel = m.recvNewChannelAck peer channel := by
  simp only [Course.recvNewChannelAck, ChannelManager.recvNewChannelAck, calm.tryGet,
    calm.tryInsert, pure_bind, ChannelManager.storeReady]

theorem forceCloseChannel (calm : on.Calm) (channelId : ChannelId) (entropy : c.Entropy) :
    on.forceCloseChannel m channelId entropy = m.forceCloseChannel channelId entropy := by
  simp only [Course.forceCloseChannel, ChannelManager.forceCloseChannel, calm.tryGet,
    calm.tryInsert, pure_bind]

end Calm

/-- An error, not a panic: the request is answered with it. -/
def Answered (failure : Failure c) : Prop := failure ≠ .panic

/-- An operation that only waits and reads. -/
structure Idle {α : Type} (x : Op c α) : Prop where
  observes : Observes on.meanwhile x
  failsClean : FailsClean on.meanwhile Answered x

namespace Idle

variable {on} {α β : Type}

theorem of_reads {x : Op c α} (reads : Reads x) : on.Idle x := ⟨.of_reads reads, .of_reads reads⟩

theorem orPanic (a : Option α) : on.Idle (Op.orPanic a) := .of_reads (orPanic_reads a)

theorem wait (point : Await) : on.Idle (on.wait point) := ⟨.await point, .await point⟩

theorem bind {x : Op c α} {f : α → Op c β} (first : on.Idle x) (rest : ∀ a, on.Idle (f a)) :
    on.Idle (x >>= f) where
  observes := first.observes.bind fun a => (rest a).observes
  failsClean := first.failsClean.bind first.observes fun a => (rest a).failsClean

/-- It may come before anything that fails clean. -/
theorem before {x : Op c α} {f : α → Op c β} (first : on.Idle x)
    (rest : ∀ a, FailsClean on.meanwhile Answered (f a)) :
    FailsClean on.meanwhile Answered (x >>= f) :=
  first.failsClean.bind first.observes rest

theorem tryGet : on.Idle on.tryGet := by
  refine (Idle.wait .get).bind fun _ => .of_reads ?_
  split
  · exact .throw _
  · exact .pure _

theorem fund (value : UInt64) (descriptor : c.Descriptor) :
    on.Idle (on.fund value descriptor) := by
  refine (Idle.wait .fund).bind fun _ => .of_reads ?_
  split
  · exact .pure _
  · exact .throw _

end Idle

theorem tryInsert_failsClean (channel : Channel c) :
    FailsClean on.meanwhile Answered (on.tryInsert channel) := by
  refine (Idle.wait .insert).before fun _ => ?_
  split
  · exact .of_reads (.throw _)
  · intro s e t failed
    cases failed

/-- What an insert does, and what others do before and after it. -/
theorem tryInsert_eq_ok {channel : Channel c} {s t : NodeState c}
    (done : on.tryInsert channel s = .ok () t) :
    ∃ u, Others on.meanwhile s u ∧
      Others on.meanwhile { u with db := u.db.insertChannel channel } t := by
  rw [tryInsert, wait, bind_of_ok (await_apply _ _ _)] at done
  cases fails : on.insertFails with
  | some failure =>
      simp only [fails, throw_apply, reduceCtorEq] at done
  | none =>
      simp only [fails] at done
      rw [bind_of_ok (insertChannel_apply _ _)] at done
      injection done with _ moved
      exact ⟨_, .single .insert, moved ▸ .single Await.inserted⟩

/-- Whether the wallet fails or the database, `new_channel` has stored nothing. -/
theorem newChannel_failsClean (value : UInt64) (peer : c.PeerId) :
    FailsClean on.meanwhile Answered (on.newChannel m value peer) := by
  refine (Idle.orPanic _).before fun descriptor => ?_
  refine (Idle.fund _ _).before fun fundTx => ?_
  refine (Idle.orPanic _).before fun id => ?_
  refine (on.tryInsert_failsClean _).bind_last fun _ s e t failed => ?_
  -- all that is left is the publishing key
  cases key : m.myPublishingKeyFor 0 with
  | none =>
      rw [key, bind_of_error (orPanic_none _)] at failed
      injection failed with same
      simp [Answered, ← same]
  | some publishingKey =>
      rw [key, bind_of_ok (orPanic_some _ _)] at failed
      cases failed

/-- What `new_channel` does when it succeeds. -/
theorem newChannel_eq_ok {value : UInt64} {peer : c.PeerId} {offer : RsEcdsaNewChannel c}
    {s t : NodeState c} (done : on.newChannel m value peer s = .ok offer t) :
    ∃ fundTx u, FundTx.channelId fundTx = some offer.id ∧ offer.fundingSatoshis = value ∧
      Others on.meanwhile s u ∧ Others on.meanwhile
        { u with db := u.db.insertChannel (fundTx.pendingChannel offer.id peer value) } t := by
  simp only [newChannel, bind_eq_ok, orPanic_eq_ok] at done
  obtain ⟨descriptor, _, ⟨-, rfl⟩, fundTx, t₁, paid, id, _, ⟨named, rfl⟩, _, t₂, stored,
    publishingKey, _, ⟨-, rfl⟩, offered⟩ := done
  injection offered with offered last
  subst offered last
  obtain ⟨u, before, after⟩ := on.tryInsert_eq_ok stored
  exact ⟨fundTx, u, named, rfl, ((Idle.fund _ _).observes s _ t₁ paid).trans before, after⟩

theorem recvNewChannelAck_failsClean (peer : c.PeerId) (channel : RsEcdsaAckNewChannel c) :
    FailsClean on.meanwhile Answered (on.recvNewChannelAck m peer channel) := by
  refine Idle.tryGet.before fun _ => ?_
  refine (Idle.of_reads (m.checkAck_reads peer channel)).before fun ready => ?_
  refine (on.tryInsert_failsClean _).bind_last fun _ s e t failed => ?_
  rw [m.waitForFunding_ready ready] at failed
  cases failed

theorem forceCloseChannel_failsClean (channelId : ChannelId) (entropy : c.Entropy) :
    FailsClean on.meanwhile Answered (on.forceCloseChannel m channelId entropy) := by
  refine Idle.tryGet.before fun _ => ?_
  refine (Idle.of_reads (m.closeChannel_reads channelId entropy)).before fun both => ?_
  refine (on.tryInsert_failsClean _).bind_last fun _ s e t failed => ?_
  cases failed

end Course

end Lindy
