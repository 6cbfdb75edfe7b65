import Lindy.Machine.Matched
import Lindy.P2p.Traffic

/-! # An event loop as others see it

What the other end of a connection and its user tell an event loop, and what comes of it: the
peers it knows are those it was told, a connection is made by a step of its own, and what it
writes on a connection only grows.
-/

namespace Lindy.P2p

open Machine

variable {Addr Key M : Type}

/-- A connection is made, or read from. -/
def Act.onSocket : Act Addr Key M → Bool
  | .event (.inbound _) | .event (.connected _) | .event (.received ..) => true
  | _ => false

/-- The peer the event loop is told. -/
def Act.named : Act Addr Key M → Option (Peer Addr Key)
  | .event (.connectReq peer _) | .event (.sendReq peer ..) | .event (.inbound peer) => some peer
  | _ => none

namespace Runtime

/-- All peers an event loop knows are right about something. -/
structure Knows (right : Peer Addr Key → Prop) (w : Runtime Addr Key M) : Prop where
  attempts : ∀ {attempt peer}, w.attempts.get attempt = some peer → right peer
  readers : ∀ {conn peer}, w.readers.get conn = some peer → right peer
  incoming : ∀ {peer message}, (peer, message) ∈ w.incoming → right peer

theorem Knows.init {right : Peer Addr Key → Prop} : Knows right (init : Runtime Addr Key M) where
  attempts := by simp [Runtime.init]
  readers := by simp [Runtime.init]
  incoming := by simp [Runtime.init]

variable [DecidableEq Key] {right : Peer Addr Key → Prop} {ts : List (Step Addr Key M)}
  {w w' : Runtime Addr Key M} {a : Act Addr Key M}

theorem maybeConnect_knows (h : Knows right w) {peer : Peer Addr Key} (named : right peer)
    {attempt : AttemptId} {other : Peer Addr Key}
    (found : (w.maybeConnect peer).2.attempts.get attempt = some other) : right other := by
  unfold maybeConnect at found
  split at found
  · exact h.attempts found
  · rw [Table.get_insert] at found
    split at found
    · exact Option.some.inj found ▸ named
    · exact h.attempts found

/-- It makes no peers up. -/
theorem Knows.step (h : Knows right w) (took : w.step a = some w')
    (named : ∀ peer, a.named = some peer → right peer) : Knows right w' := by
  cases step_moved took with
  | @connectLost peer wanted | @sendQueued peer message wanted =>
      cases wanted <;> exact ⟨h.attempts, h.readers, h.incoming⟩
  | @connectWaits peer wanted | @sendWaits peer message wanted =>
      cases wanted <;>
        exact ⟨maybeConnect_knows h (named peer rfl), h.readers, h.incoming⟩
  | @established source peer attempts origin =>
      have known : right peer ∧ ∀ {attempt other}, attempts.get attempt = some other →
          right other := by
        rcases origin with ⟨rfl, rfl⟩ | ⟨attempt, rfl, running, rfl⟩
        · exact ⟨named peer rfl, h.attempts⟩
        · refine ⟨h.attempts running, fun {other _} found => ?_⟩
          rw [Table.get_remove] at found
          split at found
          · cases found
          · exact h.attempts found
      refine ⟨known.2, fun {conn other} found => ?_, h.incoming⟩
      rw [Table.get_insert] at found
      split at found
      · exact Option.some.inj found ▸ known.1
      · exact h.readers found
  | failed =>
      refine ⟨fun {attempt other} found => ?_, h.readers, h.incoming⟩
      rw [Table.get_remove] at found
      split at found
      · cases found
      · exact h.attempts found
  | received running =>
      refine ⟨h.attempts, h.readers, fun member => ?_⟩
      rcases List.mem_append.mp member with before | now
      · exact h.incoming before
      · obtain ⟨rfl, rfl⟩ := Prod.mk.inj (List.mem_singleton.mp now)
        exact h.readers running
  | ended =>
      refine ⟨h.attempts, fun {conn other} found => ?_, h.incoming⟩
      rw [Table.get_remove] at found
      split at found
      · cases found
      · exact h.readers found
  | wrote | broke | drained => exact ⟨h.attempts, h.readers, h.incoming⟩

/-- A sink accepts more, and takes nothing back. -/
theorem step_accepts (took : w.step a = some w') (conn : ConnId) :
    w.sinks conn <+: w'.sinks conn := by
  cases step_moved took with
  | @connectLost peer wanted | @connectWaits peer wanted | @sendQueued peer message wanted
  | @sendWaits peer message wanted => cases wanted <;> exact List.prefix_rfl
  | @wrote other accepted | @broke other accepted =>
      cases accepted with
      | false => exact List.prefix_rfl
      | true =>
          by_cases same : conn = other
          · subst same
            simp
          · simp [Function.update_of_ne same]
  | _ => exact List.prefix_rfl

/-- Whatever is not on a socket makes no connection, and reads from none. -/
theorem step_inside (took : w.step a = some w') (inside : a.onSocket = false) :
    w'.conns = w.conns ∧ established? ⟨w, a, w'⟩ = none ∧
      ∀ conn, read? conn ⟨w, a, w'⟩ = none := by
  cases step_moved took with
  | @connectLost peer wanted | @connectWaits peer wanted | @sendQueued peer message wanted
  | @sendWaits peer message wanted => cases wanted <;> exact ⟨rfl, rfl, fun _ => rfl⟩
  | established origin => rcases origin with ⟨rfl, -⟩ | ⟨_, rfl, -⟩ <;> cases inside
  | received => cases inside
  | failed | ended | wrote | broke | drained => exact ⟨rfl, rfl, fun _ => rfl⟩

/-- One connection is made at a time. -/
theorem step_established (took : w.step a = some w') {key : Key}
    (made : established? ⟨w, a, w'⟩ = some key) :
    w'.conns = w.conns + 1 ∧ ∀ conn, read? conn ⟨w, a, w'⟩ = none := by
  cases step_moved took with
  | established origin =>
      rcases origin with ⟨rfl, -⟩ | ⟨_, rfl, -⟩ <;> exact ⟨rfl, fun _ => rfl⟩
  | _ => cases made

theorem step_received {conn : ConnId} {message : M}
    (took : w.step (.event (.received conn message)) = some w') :
    w'.conns = w.conns ∧ established? ⟨w, .event (.received conn message), w'⟩ = none := by
  cases step_moved took with
  | received => exact ⟨rfl, rfl⟩
  | established origin => exact origin_absurd origin (by simp) (by simp)

theorem step_conns (took : w.step a = some w') : w.conns ≤ w'.conns := by
  cases step_moved took with
  | @connectLost peer wanted | @connectWaits peer wanted | @sendQueued peer message wanted
  | @sendWaits peer message wanted => cases wanted <;> exact Nat.le_refl _
  | established => exact Nat.le_succ _
  | _ => exact Nat.le_refl _

omit [DecidableEq Key] in
@[simp] theorem readOn_snoc_of_none {t : Step Addr Key M} {conn : ConnId}
    (silent : read? conn t = none) : readOn conn (ts ++ [t]) = readOn conn ts := by
  rw [readOn_snoc, silent]
  exact List.append_nil _

/-- What came in from a peer, by the connections that lead to it. -/
theorem under_inbound (key : Key) :
    under (some key) (inbound ts w) = (List.range w.conns).flatMap fun conn =>
      if peerOf conn ts = some key then readOn conn ts else [] := by
  simp only [under, inbound, List.filterMap_flatMap, readFrom, List.filterMap_map,
    Function.comp_def]
  refine List.flatMap_congr fun conn _ => ?_
  split <;> simp

/-- What the sinks accepted for a peer goes out to it. -/
theorem under_outbound (key : Key) :
    ((List.range w.conns).flatMap fun conn =>
      if peerOf conn ts = some key then (w.sinks conn).map Prod.fst else []).Subperm
      (under (some key) ((outbound ts w).map fun pair => (pair.1, pair.2.1))) := by
  simp only [under, outbound, List.filterMap_map, List.filterMap_flatMap, Function.comp_def]
  refine (List.Sublist.flatMap_right _ fun conn _ => ?_).subperm
  split
  · simp
  · exact List.nil_sublist _

theorem under_some (key : Key) (pairs : List (Key × M)) :
    under (some key) (pairs.map fun pair => (some pair.1, pair.2)) = under key pairs :=
  (under_map some id (fun _ => Option.some.inj) pairs).trans (List.map_id _)

/-- What was read from a peer's connections is what the queue of incoming messages names it
    for. -/
theorem Runs.incoming_under (run : Runs ts w) (key : Key) :
    (under key (w.incoming.map fun pair => (pair.1.id, pair.2))).Perm
      ((List.range w.conns).flatMap fun conn =>
        if peerOf conn ts = some key then readOn conn ts else []) := by
  have same : (under (some key) _).Perm (under (some key) _) := under_perm run.incoming_perm
  rw [under_inbound] at same
  rw [← under_some, List.map_map]
  exact same

/-- And what the sinks accepted for it was requested for it. -/
theorem Runs.outbound_under (run : Runs ts w) (key : Key) :
    ((List.range w.conns).flatMap fun conn =>
      if peerOf conn ts = some key then (w.sinks conn).map Prod.fst else []).Subperm
      (under key ((sendReqs ts).map fun request => (request.1, request.2.1))) := by
  refine (under_outbound key).trans ?_
  rw [← under_some key ((sendReqs ts).map _), List.map_map]
  apply under_subperm
  obtain ⟨picked, same, part⟩ := run.outbound_subperm
  refine ⟨picked.map fun pair => (pair.1, pair.2.1), same.map _, ?_⟩
  simpa [List.map_map, Function.comp_def] using part.map fun pair => (pair.1, pair.2.1)

end Runtime

end Lindy.P2p
