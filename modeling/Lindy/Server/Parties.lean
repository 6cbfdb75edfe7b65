import Lindy.Server.Refinement

/-! # What the parties of a channel know of each other

Every channel is stored by nobody, by the node that opened it alone, or by that node and the
peer it was opened with, and by no one else. As servers on sockets refine the network of their
nodes, it stands the same with whatever is stored by servers.
-/

namespace Lindy

open Bitcoin Machine

variable {c : Crates} {ι Addr : Type} {nodes : ι → Node c} {id : ChannelId}

/-- How a channel stands, given the record each party has of it. -/
inductive Standing (nodes : ι → Node c) (records : ι → Option (Channel c)) : Prop where
  | unknown (nowhere : ∀ i, records i = none)
  | offered {A mine fundTx} (there : records A = some mine) (role : mine.iAmInitiator = true)
      (pending : mine.state = .pending fundTx) (nowhere : ∀ i, i ≠ A → records i = none)
  | shared {A B mine theirs} (apart : A ≠ B) (there : records A = some mine)
      (there' : records B = some theirs) (sides : Sides nodes A B mine theirs)
      (commits : mine.state.Signed → mine.CommitsTo (nodes A).manager ⟨theirs.value, 0⟩)
      (responding : theirs.state.Responding) (nowhere : ∀ i, i ≠ A → i ≠ B → records i = none)

section Network

variable {w : Net ι c}

/-- A node that did not open the channel stores it for the one that did. -/
theorem Joint.responds (h : Joint nodes w) (sole : Sole w id) {A i : ι} {mine theirs : Channel c}
    (there : recordAt w A id = some mine) (role : mine.iAmInitiator = true)
    (stored : recordAt w i id = some theirs) (other : i ≠ A) : Both nodes w A i id := by
  cases role' : theirs.iAmInitiator with
  | true => exact absurd (sole stored there role' role) other
  | false =>
      obtain ⟨k, mine', theirs', there', stored', sides⟩ := h.responder stored role'
      obtain rfl := sole there' there sides.initiator role
      exact ⟨mine', theirs', there', stored', sides⟩

theorem Joint.standing (h : Joint nodes w)
    (known : Function.Injective fun i => (nodes i).manager.id) (sole : Sole w id) :
    Standing nodes fun i => recordAt w i id := by
  by_cases opened : ∃ A mine, recordAt w A id = some mine ∧ mine.iAmInitiator = true
  · obtain ⟨A, mine, there, role⟩ := opened
    by_cases both : ∃ B, Both nodes w A B id
    · obtain ⟨B, mine', theirs, there', stored, sides⟩ := both
      obtain rfl := Option.some.inj (there'.symm.trans there)
      refine .shared ?_ there stored sides ?_ ?_ fun i other other' => ?_
      · rintro rfl
        obtain rfl := Option.some.inj (stored.symm.trans there)
        cases role.symm.trans sides.responder
      · exact fun signed => sides.value ▸ ((h.valued A).stored there).commitsTo signed
      · exact ((h.wellFormed B).stored stored).2.role.mp sides.responder
      · -- a third party would be the peer of the initiator, too
        cases third : recordAt w i id with
        | none => rfl
        | some channel =>
            obtain ⟨mine'', _, there'', -, sides'⟩ := h.responds sole there role third other
            obtain rfl := Option.some.inj (there''.symm.trans there)
            exact absurd (known (sides'.mine_peer.symm.trans sides.mine_peer)) other'
    · obtain ⟨fundTx, pending⟩ := (h.initiator there role).resolve_right both
      refine .offered there role pending fun i other => ?_
      cases stored : recordAt w i id with
      | none => rfl
      | some channel => exact absurd ⟨i, h.responds sole there role stored other⟩ both
  · refine .unknown fun i => ?_
    cases stored : recordAt w i id with
    | none => rfl
    | some channel =>
        cases role : channel.iAmInitiator with
        | true => exact absurd ⟨i, channel, stored, role⟩ opened
        | false =>
            obtain ⟨k, mine, _, there, -, sides⟩ := h.responder stored role
            exact absurd ⟨k, mine, there, sides.initiator⟩ opened

/-- Whatever an honest network has come to. -/
theorem standing_of_run [DecidableEq ι] (known : Function.Injective fun i => (nodes i).manager.id)
    {ts} (run : (network nodes).Runs ts w) (honest : ∀ t ∈ ts, Honest nodes t) :
    Standing nodes fun i => recordAt w i id := by
  obtain ⟨h, sole⟩ : Joint nodes w ∧ Sole w id := by
    refine run.invariant (I := fun w => Joint nodes w ∧ Sole w id) ⟨.start, .start⟩ ?_ honest
    rintro w ⟨m, reply⟩ w' ⟨h, sole⟩ took met
    exact ⟨h.move known met took, sole.moved h known met (Protocol.moved_of_move took)⟩
  exact h.standing known sole

end Network

namespace Sockets

variable {book : ι → Addr} [DecidableEq ι] [DecidableEq Addr]

/-- In every run of servers on sockets in which users and network are honest, each channel is
    stored by nobody, by the party that opened it while its offer was not accepted, or by the
    two parties it is of: with the same value, under each other's keys, and in roles and states
    that fit. Nobody else stores it. -/
theorem serversAgree (known : Function.Injective fun i => (nodes i).manager.id)
    {ts} {w : Sockets ι c Addr} (run : Runs nodes book ts w)
    (honest : ∀ t ∈ ts, HonestUse nodes book t) (id : ChannelId) :
    Standing nodes fun i => (w.servers i).watched.node.db.getChannel id := by
  obtain ⟨ms, u, moves, met, _, _, h⟩ := Runs.refines known run honest
  have standing : Standing nodes fun i => recordAt u i id := standing_of_run known moves met
  simpa only [recordAt, h.states] using standing

section Small

/-- Once Alice has Bob's signature they store one channel. -/
theorem serversAgree_small : ∃ ts w B mine theirs, (Runs smallNodes smallBook ts w : Prop) ∧
    (w.servers true).watched.node.db.getChannel ⟨7, 0⟩ = some mine ∧ mine.state.Signed ∧
    (w.servers B).watched.node.db.getChannel ⟨7, 0⟩ = some theirs ∧
    Sides smallNodes true B mine theirs := by
  obtain ⟨ts, w, mine, run, honest, there, signed⟩ := smallTalk_honest
  cases serversAgree smallNodes_known run honest ⟨7, 0⟩ with
  | unknown nowhere => cases there.symm.trans (nowhere true)
  | @offered A mine' fundTx there' role pending nowhere =>
      by_cases same : true = A
      · subst same
        obtain rfl := Option.some.inj (there.symm.trans there')
        simp [pending, ChannelState.Signed] at signed
      · cases there.symm.trans (nowhere true same)
  | @shared A B mine' theirs apart there' stored sides commits responding nowhere =>
      by_cases same : true = A
      · subst same
        obtain rfl := Option.some.inj (there.symm.trans there')
        exact ⟨ts, w, B, mine, theirs, run, there, signed, stored, sides⟩
      · by_cases other : true = B
        · subst other
          obtain rfl := Option.some.inj (there.symm.trans stored)
          cases state : mine.state <;>
            simp [state, ChannelState.Signed, ChannelState.Responding] at signed responding
        · cases there.symm.trans (nowhere true same other)

end Small

end Sockets

end Lindy
