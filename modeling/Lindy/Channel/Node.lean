import Lindy.Channel.Manager
import Lindy.Machine.Fallible
import Lindy.Machine.Run

/-! # A node

What `server_bundle::start` runs next to each other: the HTTP handlers and the message
handler loop, which take turns on the lock of the channel manager, the tasks that wait for
funding, and the monitor that asks the blockchain on their behalf.
-/

namespace Lindy

open Bitcoin Machine Op

variable {c : Crates}

/-- What `Blockchain::get_tx` answers, from one poll of the monitor to the next. -/
structure Blockchain (c : Crates) where
  getTx : Txid → Nat → Except c.BdkError (Option Transaction)

/-- It answers with the transaction it was asked for. -/
def Blockchain.Lawful (chain : Blockchain c) : Prop :=
  ∀ txid now tx, chain.getTx txid now = .ok (some tx) → c.txid tx = txid

structure Node (c : Crates) where
  manager : ChannelManager c
  chain : Blockchain c

inductive Act (c : Crates) where
  /-- `POST /channels`, with what the wallet will make of it. -/
  | openChannel (value : UInt64) (peer : c.PeerId) (wallet : Wallet c)
  /-- The message handler loop takes the next message. -/
  | receive (peer : c.PeerId) (message : Message c) (entropy : c.Entropy)
  /-- `PUT /channels/..` with `ForceClose`. -/
  | updateChannel (channelId : ChannelId) (entropy : c.Entropy)
  /-- The insert of the operation that holds the lock is done. -/
  | resume
  /-- The client of `PUT /channels/..` hangs up, and the future of `update_channel` is dropped
      with the lock it holds. -/
  | hangUp
  /-- The monitor asks for the transaction a task waits for. -/
  | poll (task : Nat) (now : Nat)

/-- The action needs the lock of the channel manager. -/
def Act.locks : Act c → Bool
  | .openChannel .. | .receive .. | .updateChannel .. => true
  | .resume | .hangUp | .poll .. => false

inductive Output (c : Crates) where
  /-- A message is handed to `Event::send_message`. -/
  | send (peer : c.PeerId) (message : Message c)
  | storing
  | acked
  | closed (closeTx : Transaction)
  | finished
  | idle

abbrev Reply (c : Crates) := Except (Failure c) (Output c)

/-- The message a reply hands over, and to whom. -/
def Reply.sends : Reply c → Option (c.PeerId × Message c)
  | .ok (.send peer message) => some (peer, message)
  | _ => none

namespace Node

/-- The monitor asks on behalf of a task, and wakes it with the answer. -/
def pollTask (n : Node c) (i now : Nat) (task : Task c) : Op c (Output c) := do
  let s ← get
  let txid := task.channel.id.txid
  match n.chain.getTx txid now with
  | .ok (some onChainTx) =>
      set { s with tasks := s.tasks.eraseIdx i
                   answers := s.answers ++ [(txid, onChainTx)] }
      task.finish onChainTx
      pure .finished
  -- an error counts as not found, the monitor will ask again
  | _ => pure .idle

def perform (n : Node c) : Act c → Op c (Output c)
  | .openChannel value peer wallet => do
      let message ← n.manager.newChannel wallet value peer
      pure (.send peer (.rsEcdsaNewChannel message))
  | .receive peer (.rsEcdsaNewChannel channel) entropy => do
      let ack ← n.manager.recvNewChannel peer channel entropy
      pure (.send peer (.rsEcdsaAckNewChannel ack))
  | .receive peer (.rsEcdsaAckNewChannel channel) _ => do
      let ready ← n.manager.checkAck peer channel
      suspend (.ack ready)
      pure .storing
  | .updateChannel channelId entropy => do
      let (channel, closeTx) ← n.manager.closeChannel channelId entropy
      suspend (.close channel closeTx)
      pure .storing
  | .resume => do
      let s ← get
      match s.suspended with
      | some (.ack ready) =>
          set { s with suspended := none }
          n.manager.storeReady ready
          pure .acked
      | some (.close channel closeTx) =>
          set { s with suspended := none }
          insertChannel channel
          pure (.closed closeTx)
      | none => pure .idle
  | .hangUp => do
      let s ← get
      match s.suspended with
      -- the insert was part of the future
      | some (.close _ _) =>
          set { s with suspended := none }
          pure .idle
      | _ => pure .idle
  | .poll i now => do
      let s ← get
      match s.tasks[i]? with
      | none => pure .idle
      | some task => n.pollTask i now task

/-- The reply to an action, and the state it leaves. -/
def outcome (n : Node c) (s : NodeState c) (a : Act c) : Reply c × NodeState c :=
  match n.perform a s with
  | .ok output s' => (.ok output, s')
  | .error failure s' => (.error failure, s')

/-- One step, unless it has to wait for the lock. -/
def step (n : Node c) (s : NodeState c) (a : Act c) : Option (Reply c × NodeState c) :=
  if a.locks ∧ s.suspended.isSome then none else some (n.outcome s a)

/-- The runs of a node, each step labelled with its action and the reply. -/
abbrev Runs (n : Node c) (ts : List (Transition (NodeState c) (Act c × Reply c)))
    (s : NodeState c) : Prop :=
  Run (fun s label s' => n.step s label.1 = some (label.2, s')) .init ts s

/-- Perform a list of actions, as long as none has to wait. -/
abbrev exec (n : Node c) (s : NodeState c) (as : List (Act c)) :
    Option (List (Transition (NodeState c) (Act c × Reply c)) × NodeState c) :=
  execReplies n.step s as

end Node

end Lindy
