import Lindy.P2p.Attempts

/-! # The entry of a live connection

An entry that leads to the queue of a connection should stay until the stream of that very
connection ends or another connection of the peer takes its place. `Disconnected` and
`ConnectionFailed` name only the peer and remove its entry whatever it is, so an older
connection or an attempt that is still running can take the entry of a live connection.
-/

namespace Lindy.P2p.Runtime

open Machine

variable {Addr Key M : Type} [DecidableEq Key]

/-- The step handles a `ConnectionEstablished` for the peer. -/
def Establishes (key : Key) (t : Step Addr Key M) : Prop :=
  ∃ peer, peer.id = key ∧ (t.act = .event (.inbound peer) ∨ ∃ attempt,
    t.act = .event (.connected attempt) ∧ t.pre.attempts.get attempt = some peer)

/-- What may end the time of a connection in the map: its own `Disconnected`, or a later
    connection. -/
def Releases (key : Key) (conn : ConnId) (t : Step Addr Key M) : Prop :=
  t.act = .event (.ended conn) ∨ Establishes key t

/-- The step handles the `Disconnected` of another connection of the peer, or the
    `ConnectionFailed` of an attempt to it. -/
def TearsDown (t : Step Addr Key M) : Prop :=
  ∃ peer conn, t.pre.peers.get peer.id = some (.connected conn) ∧
    ((∃ other, t.act = .event (.ended other) ∧ other ≠ conn ∧
        t.pre.readers.get other = some peer) ∨
      ∃ attempt reason, t.act = .event (.failed attempt reason) ∧
        t.pre.attempts.get attempt = some peer)

variable {w w' : Runtime Addr Key M} {a : Act Addr Key M} {key : Key} {conn : ConnId}

/-- Nothing but a release and a tear-down takes the entry of a connection. -/
theorem connected_kept (took : w.step a = some w')
    (entry : w.peers.get key = some (.connected conn)) (held : ¬ Releases key conn ⟨w, a, w'⟩)
    (apart : ¬ TearsDown ⟨w, a, w'⟩) : w'.peers.get key = some (.connected conn) := by
  have other : ∀ {peer : Peer Addr Key}, (∀ queue, w.peers.get peer.id ≠ some (.connected queue)) →
      key ≠ peer.id := by
    rintro peer waits rfl
    exact waits conn entry
  cases step_moved took with
  | @connectLost peer wanted => cases wanted <;> exact entry
  | @sendQueued peer message wanted => cases wanted <;> exact entry
  | connectWaits waits | sendWaits waits =>
      exact (Table.get_insert_of_ne _ _ (other waits)).trans entry
  | @established source peer attempts origin =>
      refine (Table.get_insert_of_ne _ _ ?_).trans entry
      rintro rfl
      refine held (.inr ⟨peer, rfl, ?_⟩)
      exact origin.imp (fun ⟨same, _⟩ => congrArg _ same)
        fun ⟨attempt, same, running, _⟩ => ⟨attempt, congrArg _ same, running⟩
  | @failed attempt reason peer running =>
      refine (Table.get_remove_of_ne _ ?_).trans entry
      rintro rfl
      exact apart ⟨peer, conn, entry, .inr ⟨attempt, reason, rfl, running⟩⟩
  | @ended ended peer running =>
      refine (Table.get_remove_of_ne _ ?_).trans entry
      rintro rfl
      refine apart ⟨peer, conn, entry, .inl ⟨ended, rfl, ?_, running⟩⟩
      rintro rfl
      exact held (.inl rfl)
  | received | wrote | broke | drained => exact entry

/-- A tear-down takes the entry of a connection that nothing releases. -/
theorem TearsDown.loses (took : w.step a = some w') (torn : TearsDown ⟨w, a, w'⟩) :
    ∃ key conn, w.peers.get key = some (.connected conn) ∧ ¬ Releases key conn ⟨w, a, w'⟩ ∧
      w'.peers.get key = none := by
  obtain ⟨peer, conn, entry, ⟨other, rfl, apart, running⟩ | ⟨attempt, reason, rfl, running⟩⟩ := torn
  · refine ⟨peer.id, conn, entry, ?_, ?_⟩
    · rintro (own | ⟨_, _, inbound | ⟨_, outbound, _⟩⟩)
      · cases own
        exact apart rfl
      · cases inbound
      · cases outbound
    · cases step_moved took with
      | ended running' =>
          obtain rfl := Option.some.inj (running.symm.trans running')
          exact Table.get_remove_self _ _
      | established origin => exact origin_absurd origin (by simp) (by simp)
  · refine ⟨peer.id, conn, entry, ?_, ?_⟩
    · rintro (own | ⟨_, _, inbound | ⟨_, outbound, _⟩⟩)
      · cases own
      · cases inbound
      · cases outbound
    · cases step_moved took with
      | failed running' =>
          obtain rfl := Option.some.inj (running.symm.trans running')
          exact Table.get_remove_self _ _
      | established origin => exact origin_absurd origin (by simp) (by simp)

/-- Along some steps of the run the entry of each connection stays as long as nothing releases
    the connection. -/
def KeptAlong (u : Runtime Addr Key M) (between : List (Step Addr Key M))
    (v : Runtime Addr Key M) : Prop :=
  ∀ key conn, u.peers.get key = some (.connected conn) →
    (∀ t ∈ between, ¬ Releases key conn t) → v.peers.get key = some (.connected conn)

end Lindy.P2p.Runtime
