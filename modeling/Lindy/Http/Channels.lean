import Lindy.Http.Reply
import Lindy.P2p.Event
import Lindy.Channel.Faults
import Lindy.Channel.WellFormed

/-! # `POST /channels` and `PUT /channels/..`

The handlers as written, over a course that may fail them at any point. A request that is
answered with an error has stored nothing and spawned nothing, but for the offer that could
not be sent: its record is stored before it is sent, and the database has no way to take a
record out again.
-/

namespace Lindy.Http

open Machine Op P2p Bitcoin

variable {c : Crates} {Addr : Type}

structure NewChannelReq (c : Crates) (Addr : Type) where
  peer : Peer Addr c.PeerId
  value : UInt64

structure NewChannelRes where
  channelId : ChannelId
  deriving DecidableEq

inductive ChannelUpdate where
  | forceClose

structure ForceCloseChannelRes where
  tx : Transaction
  deriving DecidableEq

/-- `e.to_string()` of an `anyhow::Error`. A panic is never displayed. -/
def displayFailure (displayBdk : c.BdkError → String) : Failure c → String
  | .anyhow text => text
  | .bdk error => displayBdk error
  | .panic => ""

/-- Run an operation and look at its result; a panic goes on. -/
def attempt {α : Type} (x : Op c α) : Op c (Except (Failure c) α) := fun s =>
  match x s with
  | .ok a t => .ok (.ok a) t
  | .error .panic t => .error .panic t
  | .error failure t => .ok (.error failure) t

/-- `open_channel`, with what the notifier of each offer resolves to: `none` is a notifier
    that was dropped. -/
def openChannel (displayBdk : c.BdkError → String) (m : ChannelManager c) (on : Course c)
    (send : Peer Addr c.PeerId → Message c → Option Outcome)
    (newChannel : NewChannelReq c Addr) : Op c (ApiReply NewChannelRes) := do
  on.wait .lock
  match ← attempt (on.newChannel m newChannel.value newChannel.peer.id) with
  | .ok newChannelMsg =>
      on.wait .send
      let sent ← orPanic (send newChannel.peer (.rsEcdsaNewChannel newChannelMsg))
      match sent with
      | .ok () => pure (.ok ⟨newChannelMsg.id⟩)
      | .error e =>
          pure (.err ((ErrorMessage.fromStatus .failedDependency).withMessage e.display))
  | .error (.bdk e) =>
      pure (.err ((ErrorMessage.fromStatus .badRequest).withMessage (displayBdk e)))
  | .error _ => pure (.err .internalServerError)

def updateChannel (displayBdk : c.BdkError → String) (m : ChannelManager c) (on : Course c)
    (channelId : ChannelId) (update : ChannelUpdate) (entropy : c.Entropy) :
    Op c (ApiReply ForceCloseChannelRes) := do
  on.wait .lock
  match update with
  | .forceClose =>
      match ← attempt (on.forceCloseChannel m channelId entropy) with
      | .ok tx => pure (.ok ⟨tx⟩)
      | .error e =>
          pure (.err (ErrorMessage.internalServerError.withMessage (displayFailure displayBdk e)))

/-- What an attempted operation left behind. -/
theorem attempt_eq_ok {α : Type} {x : Op c α} {result : Except (Failure c) α}
    {s t : NodeState c} (done : attempt x s = .ok result t) :
    (∃ a, result = .ok a ∧ x s = .ok a t) ∨
      ∃ failure, result = .error failure ∧ Course.Answered failure ∧
        x s = .error failure t := by
  unfold attempt at done
  split at done
  · rename_i a u ran
    injection done with same moved
    exact .inl ⟨a, same.symm, moved ▸ ran⟩
  · cases done
  · rename_i failure u noPanic ran
    injection done with same moved
    subst moved
    exact .inr ⟨failure, same.symm, noPanic, ran⟩

/-- Of an open request the record is left, pending, and nothing else. -/
def LeavesPending (on : Course c) (newChannel : NewChannelReq c Addr) (id : ChannelId)
    (s t : NodeState c) : Prop :=
  ∃ fundTx u, FundTx.channelId fundTx = some id ∧ Others on.meanwhile s u ∧
    Others on.meanwhile
      { u with db := u.db.insertChannel
                (fundTx.pendingChannel id newChannel.peer.id newChannel.value) } t

variable {displayBdk : c.BdkError → String} {m : ChannelManager c} {on : Course c}

/-- What an open request did when it is answered with an error. -/
theorem openChannel_err {send : Peer Addr c.PeerId → Message c → Option Outcome}
    {newChannel : NewChannelReq c Addr} {s t : NodeState c} {error : ErrorMessage}
    (done : openChannel displayBdk m on send newChannel s = .ok (.err error) t) :
    ((error.code = StatusCode.badRequest.asU16 ∨
        error.code = StatusCode.internalServerError.asU16) ∧ Others on.meanwhile s t) ∨
    ∃ offer reason, send newChannel.peer (.rsEcdsaNewChannel offer) = some (.error reason) ∧
      error = (ErrorMessage.fromStatus .failedDependency).withMessage reason.display ∧
      LeavesPending on newChannel offer.id s t := by
  rw [openChannel, Course.wait, bind_of_ok (await_apply _ _ _), bind_eq_ok] at done
  obtain ⟨result, u, tried, rest⟩ := done
  have locked : Others on.meanwhile s (on.meanwhile .lock s) := Others.single Await.lock
  rcases attempt_eq_ok tried with ⟨offer, rfl, made⟩ | ⟨failure, rfl, answered, failed⟩
  · right
    obtain ⟨fundTx, v, named, -, before, after⟩ := on.newChannel_eq_ok m made
    simp only [Course.wait, bind_eq_ok, orPanic_eq_ok] at rest
    obtain ⟨_, v', waited, outcome, _, ⟨sent, rfl⟩, replied⟩ := rest
    have moved := after.trans (Observes.await Await.send _ _ _ waited)
    cases outcome with
    | ok => cases replied
    | error reason =>
        injection replied with same last
        injection same with same
        subst last
        exact ⟨offer, reason, sent, same.symm, fundTx, v, named, locked.trans before, moved⟩
  · left
    have clean := on.newChannel_failsClean m newChannel.value newChannel.peer.id _ _ _ failed
      answered
    cases failure with
    | bdk e =>
        injection rest with same last
        injection same with same
        exact ⟨.inl (same ▸ rfl), last ▸ locked.trans clean⟩
    | anyhow | panic =>
        injection rest with same last
        injection same with same
        exact ⟨.inr (same ▸ rfl), last ▸ locked.trans clean⟩

/-- A close request that is answered with an error has done nothing. -/
theorem updateChannel_err {id : ChannelId} {update : ChannelUpdate} {entropy : c.Entropy}
    {s t : NodeState c} {error : ErrorMessage}
    (done : updateChannel displayBdk m on id update entropy s = .ok (.err error) t) :
    error.code = StatusCode.internalServerError.asU16 ∧ Others on.meanwhile s t := by
  cases update
  rw [updateChannel, Course.wait, bind_of_ok (await_apply _ _ _), bind_eq_ok] at done
  obtain ⟨result, u, tried, rest⟩ := done
  rcases attempt_eq_ok tried with ⟨tx, rfl, -⟩ | ⟨failure, rfl, answered, failed⟩
  · cases rest
  · injection rest with same last
    injection same with same
    have clean := on.forceCloseChannel_failsClean m id entropy _ _ _ failed answered
    exact ⟨same ▸ rfl, last ▸ (Others.single Await.lock).trans clean⟩

/-- What a failed request leaves behind: nothing, and for an offer that could not be sent its
    pending record. No task is spawned by any of them. -/
theorem failedRequestsUntouched (displayBdk : c.BdkError → String) (m : ChannelManager c)
    (on : Course c) :
    (∀ (send : Peer Addr c.PeerId → Message c → Option Outcome) newChannel s t error,
      openChannel displayBdk m on send newChannel s = .ok (.err error) t →
        ((error.code = StatusCode.badRequest.asU16 ∨
          error.code = StatusCode.internalServerError.asU16) ∧ Others on.meanwhile s t) ∨
        ∃ offer reason, send newChannel.peer (.rsEcdsaNewChannel offer) = some (.error reason) ∧
          error = (ErrorMessage.fromStatus .failedDependency).withMessage reason.display ∧
          LeavesPending on newChannel offer.id s t) ∧
    (∀ id update entropy s t error,
      updateChannel displayBdk m on id update entropy s = .ok (.err error) t →
        error.code = StatusCode.internalServerError.asU16 ∧ Others on.meanwhile s t) ∧
    ∀ peer channel s t failure, on.recvNewChannelAck m peer channel s = .error failure t →
      Course.Answered failure → Others on.meanwhile s t :=
  ⟨fun _ _ _ _ _ => openChannel_err, fun _ _ _ _ _ _ => updateChannel_err,
    fun peer channel s t failure => on.recvNewChannelAck_failsClean m peer channel s failure t⟩

section Small

/-- Nobody else is there, and the database works. -/
def smallCourse (wallet : Wallet smallCrates) : Course smallCrates where
  wallet := wallet
  meanwhile := fun _ s => s
  getFails := none
  insertFails := none

def smallRequest : NewChannelReq smallCrates Unit := ⟨⟨(), smallBob.id⟩, 1256⟩

def smallPoor : Course smallCrates := smallCourse fun _ _ => .error ()

/-- The wallet funds a channel that is named after this lock time. -/
def smallFunded (lockTime : UInt32) : Course smallCrates :=
  smallCourse fun _ _ => .ok (.ofUnsigned { smallFundingTx with lockTime })

def smallBroken : Course smallCrates :=
  { smallFunded 9 with insertFails := some (.anyhow "No space left on device") }

/-- The peer of this offer cannot be reached. -/
def smallUnreachable (id : ChannelId) (_ : Peer Unit smallCrates.PeerId) :
    Message smallCrates → Option Outcome
  | .rsEcdsaNewChannel offer =>
      if offer.id = id then some (.error (.io .connectionRefused)) else none
  | _ => none

/-- A channel was opened. -/
def smallOpened : NodeState smallCrates :=
  match openChannel (fun _ => "") smallAlice (smallFunded 7) (fun _ _ => some (.ok ()))
    smallRequest .init with
  | .ok _ s | .error _ s => s

/-- With a channel in the store: the wallet has no money, the record cannot be inserted, the
    channel to close is not live, and the one an ack comes for is another. Each leaves the
    store as it was, and only an offer that cannot be sent leaves its record there. -/
theorem failedRequestsUntouched_small :
    (smallOpened.db.getChannel ⟨7, 0⟩).isSome ∧
    ∃ (text : String) (t₁ t₂ t₃ t₄ t₅ : NodeState smallCrates) (fundTx : FundTx smallCrates),
    openChannel (fun _ => "InsufficientFunds") smallAlice smallPoor (fun _ _ => none)
      smallRequest smallOpened = .ok (.err ⟨400, "InsufficientFunds"⟩) t₁ ∧ t₁ = smallOpened ∧
    openChannel (fun _ => "InsufficientFunds") smallAlice smallBroken (fun _ _ => none)
      smallRequest smallOpened = .ok (.err ⟨500, "Internal Server Error"⟩) t₂ ∧
    t₂ = smallOpened ∧
    updateChannel (fun _ => "InsufficientFunds") smallAlice smallPoor ⟨7, 0⟩ .forceClose ()
      smallOpened = .ok (.err ⟨500, "cannot force close channel that isn't live"⟩) t₃ ∧
    t₃ = smallOpened ∧
    smallPoor.recvNewChannelAck smallAlice smallBob.id
      ⟨⟨8, 0⟩, (smallPoint 6, smallPoint 44, [])⟩ smallOpened = .error (.anyhow text) t₄ ∧
    t₄ = smallOpened ∧
    openChannel (fun _ => "InsufficientFunds") smallAlice (smallFunded 9)
      (smallUnreachable ⟨9, 0⟩) smallRequest smallOpened =
        .ok (.err ⟨424, "ConnectionRefused"⟩) t₅ ∧
    t₅ = { smallOpened with
      db := smallOpened.db.insertChannel
        (fundTx.pendingChannel ⟨9, 0⟩ smallBob.id smallRequest.value) } := by
  obtain ⟨opens, closes, acks⟩ := @failedRequestsUntouched smallCrates Unit
    (fun _ => "InsufficientFunds") smallAlice smallPoor
  have broken := (@failedRequestsUntouched smallCrates Unit (fun _ => "InsufficientFunds")
    smallAlice smallBroken).1
  have funded := (@failedRequestsUntouched smallCrates Unit (fun _ => "InsufficientFunds")
    smallAlice (smallFunded 9)).1
  have still : ∀ point s, smallPoor.meanwhile point s = s := fun _ _ => rfl
  obtain ⟨t₅, sent⟩ : ∃ t, openChannel (fun _ => "InsufficientFunds") smallAlice (smallFunded 9)
      (smallUnreachable ⟨9, 0⟩) smallRequest smallOpened =
        .ok (.err ⟨424, "ConnectionRefused"⟩) t := ⟨_, rfl⟩
  rcases funded _ _ _ _ _ sent with ⟨code, -⟩ | ⟨offer, _, unsent, -, fundTx, u, -, before, after⟩
  · exact absurd code (by decide)
  have same : offer.id = ⟨9, 0⟩ := by
    by_contra other
    simp [smallUnreachable, other] at unsent
  obtain rfl := before.eq_of_still still
  refine ⟨rfl, _, _, _, _, _, t₅, fundTx, rfl, ?_, rfl, ?_, rfl, ?_, rfl, ?_, sent,
    same ▸ after.eq_of_still still⟩
  · rcases opens (fun _ _ => none) smallRequest _ _ _ rfl with ⟨-, moved⟩ | ⟨_, _, sent, -⟩
    · exact moved.eq_of_still still
    · cases sent
  · rcases broken (fun _ _ => none) smallRequest _ _ _ rfl with ⟨-, moved⟩ | ⟨_, _, sent, -⟩
    · exact moved.eq_of_still still
    · cases sent
  · exact (closes ⟨7, 0⟩ .forceClose () _ _ _ rfl).2.eq_of_still still
  · have unknown := acks smallBob.id ⟨⟨8, 0⟩, (smallPoint 6, smallPoint 44, [])⟩ smallOpened
    exact (unknown _ _ rfl (by simp [Course.Answered])).eq_of_still still

/-- An offer to a peer that cannot be reached is answered with an error, and its record
    stays. -/
theorem unsentOfferKept : ¬ ∀ ts s, smallNode.Runs ts s →
    ∀ (on : Course smallCrates), on.Calm →
    ∀ (send : Peer Unit smallCrates.PeerId → Message smallCrates → Option Outcome) newChannel t
      error, openChannel (fun _ => "") smallAlice on send newChannel s = .ok (.err error) t →
        t.db.getChannel = s.db.getChannel ∧ t.tasks = s.tasks := by
  intro all
  obtain ⟨error, t, channel, done, stored⟩ : ∃ error t channel,
      openChannel (fun _ => "") smallAlice
        (smallCourse fun _ _ => .ok (.ofUnsigned smallFundingTx))
        (fun _ _ => some (.error (.io .connectionRefused)))
        smallRequest .init = .ok (.err error) t ∧ t.db.getChannel ⟨7, 0⟩ = some channel :=
    ⟨_, _, _, rfl, rfl⟩
  have calm : (smallCourse fun _ _ => .ok (.ofUnsigned smallFundingTx)).Calm :=
    ⟨fun _ _ => rfl, rfl, rfl⟩
  have same := congrFun (all [] .init .nil _ calm _ _ _ _ done).1 ⟨7, 0⟩
  rw [stored] at same
  cases same

end Small

end Lindy.Http
