import Lindy.P2p.Order
import Mathlib.Data.List.Flatten

/-! # What goes over all connections together

A peer may have any number of connections, and a message for it is put on one of them. Counted
over all connections, nothing goes out that was not requested, and nothing twice; what comes
in is what the streams of the connections yielded, each message once and under the name of the
peer its connection leads to.
-/

namespace Lindy.P2p.Runtime

open Machine

variable {Addr Key M : Type}

/-- What the step reads from the stream of a connection. -/
def read? (conn : ConnId) (t : Step Addr Key M) : Option M :=
  match t.act with
  | .event (.received other message) => if other = conn then some message else none
  | _ => none

/-- What was read from the stream of a connection, oldest first. -/
def readOn (conn : ConnId) (ts : List (Step Addr Key M)) : List M := ts.filterMap (read? conn)

/-- What the sinks of all connections accepted and their queues hold, with the peer of each. -/
def outbound (ts : List (Step Addr Key M)) (w : Runtime Addr Key M) :
    List (Option Key × Item M) :=
  (List.range w.conns).flatMap fun conn =>
    (w.sinks conn ++ w.queueAt conn).map fun item => (peerOf conn ts, item)

/-- The same with the peer of the connection. -/
def readFrom (ts : List (Step Addr Key M)) (conn : ConnId) : List (Option Key × M) :=
  (readOn conn ts).map fun message => (peerOf conn ts, message)

/-- What was read from all connections. -/
def inbound (ts : List (Step Addr Key M)) (w : Runtime Addr Key M) : List (Option Key × M) :=
  (List.range w.conns).flatMap (readFrom ts)

theorem readOn_snoc (conn : ConnId) (ts : List (Step Addr Key M)) (t : Step Addr Key M) :
    readOn conn (ts ++ [t]) = readOn conn ts ++ (read? conn t).toList := by
  simp only [readOn, List.filterMap_append, List.filterMap_cons, List.filterMap_nil]
  cases read? conn t <;> rfl

variable [DecidableEq Key] {ts : List (Step Addr Key M)} {w w' : Runtime Addr Key M}
  {a : Act Addr Key M}

section Out

omit [DecidableEq Key] in
/-- The numbers of the requests whose messages were put on a queue tell what was put there. -/
theorem puts_lookup {conn : ConnId} {ks : List Nat} {items : List (Item M)}
    (puts : Puts ts conn ks items) :
    items.map (fun item => (peerOf conn ts, item)) =
      ks.filterMap fun k =>
        (sendReqs ts)[k]?.map fun request => (some request.1, request.2) := by
  induction puts with
  | nil => rfl
  | cons put _ ih =>
      obtain ⟨key, leads, found⟩ := put
      rw [List.map_cons, ih]
      simp only [List.filterMap_cons, found, leads, Option.map_some]

/-- All that was put on the queues was requested, each message once. -/
theorem Runs.putOn_subperm (run : Runs ts w) :
    ((List.range w.conns).flatMap fun conn =>
      (putOn conn ts).map fun item => (peerOf conn ts, item)).Subperm
      ((sendReqs ts).map fun request => (some request.1, request.2)) := by
  obtain ⟨held, placed⟩ := run.placed
  have distinct : ((List.range w.conns).map (Sum.inr : ConnId → Key ⊕ ConnId)).Nodup :=
    List.nodup_range.map fun _ _ => Sum.inr.inj
  obtain ⟨picked, perm, sub⟩ := placed.ledger.gathered distinct
  let request : Nat → Option (Option Key × Item M) := fun k =>
    (sendReqs ts)[k]?.map fun request => (some request.1, request.2)
  have out : ((List.range w.conns).flatMap fun conn =>
      (putOn conn ts).map fun item => (peerOf conn ts, item)) =
      (((List.range w.conns).map (Sum.inr : ConnId → Key ⊕ ConnId)).flatMap held).filterMap
        request := by
    simp only [List.filterMap_flatMap, List.flatMap_map]
    congr 1
    funext conn
    exact puts_lookup (placed.put conn)
  rw [out, ← filterMap_range (sendReqs ts)]
  exact ⟨picked.filterMap request, perm.filterMap request, sub.filterMap request⟩

/-- So it is with what the sinks accepted and the queues hold. -/
theorem Runs.outbound_subperm (run : Runs ts w) :
    (outbound ts w).Subperm ((sendReqs ts).map fun request => (some request.1, request.2)) :=
  (List.Sublist.flatMap_right _ fun conn _ => (run.drawn conn).map _).subperm.trans
    run.putOn_subperm

end Out

section In

/-- The peers the readers of a run work for, and the connections nobody has read from. -/
structure Reading (ts : List (Step Addr Key M)) (w : Runtime Addr Key M) : Prop where
  reader : ∀ {conn peer}, w.readers.get conn = some peer →
    conn < w.conns ∧ peerOf conn ts = some peer.id
  unread : ∀ conn, w.conns ≤ conn → readOn conn ts = []

omit [DecidableEq Key] in
theorem Reading.init : Reading [] (init : Runtime Addr Key M) where
  reader := by simp [Runtime.init]
  unread := fun _ _ => rfl

omit [DecidableEq Key] in
/-- A step that makes no connection and no reader. -/
theorem Reading.kept (h : Reading ts w) (conns : w'.conns = w.conns)
    (readers : ∀ {conn peer}, w'.readers.get conn = some peer → w.readers.get conn = some peer)
    (reads : ∀ conn, w.conns ≤ conn → read? conn ⟨w, a, w'⟩ = none) :
    Reading (ts ++ [⟨w, a, w'⟩]) w' where
  reader := by
    intro conn peer found
    obtain ⟨made, leads⟩ := h.reader (readers found)
    exact ⟨conns ▸ made, peerOf_kept leads _⟩
  unread := by
    intro conn late
    rw [conns] at late
    rw [readOn_snoc, h.unread conn late, reads conn late]
    rfl

theorem Reading.step (h : Reading ts w) (run : Runs ts w) (took : w.step a = some w') :
    Reading (ts ++ [⟨w, a, w'⟩]) w' := by
  cases step_moved took with
  | @connectLost peer wanted | @connectWaits peer wanted | @sendQueued peer message wanted
  | @sendWaits peer message wanted => cases wanted <;> exact h.kept rfl id fun _ _ => rfl
  | @established source peer attempts origin =>
      have reads : ∀ conn v, read? conn ⟨w, .event source, v⟩ = none := by
        intro conn v
        rcases origin with ⟨rfl, -⟩ | ⟨attempt, rfl, -⟩ <;> rfl
      constructor
      · intro conn other found
        rw [Table.get_insert] at found
        split at found
        · obtain rfl := Option.some.inj found
          subst_vars
          refine ⟨Nat.lt_succ_self _, ?_⟩
          simp [run.peered.fresh _ (Nat.le_refl _), established_origin origin]
        · obtain ⟨made, leads⟩ := h.reader found
          exact ⟨Nat.lt_succ_of_lt made, peerOf_kept leads _⟩
      · intro conn late
        rw [readOn_snoc, h.unread conn (Nat.le_of_succ_le late), reads]
        rfl
  | failed | wrote | broke | drained => exact h.kept rfl id fun _ _ => rfl
  | @ended conn peer running =>
      refine h.kept rfl (fun {other _} found => ?_) fun _ _ => rfl
      rw [Table.get_remove] at found
      split at found
      · cases found
      · exact found
  | @received conn message peer running =>
      refine h.kept rfl id fun other late => ?_
      have apart : conn ≠ other := Nat.ne_of_lt (Nat.lt_of_lt_of_le (h.reader running).1 late)
      simp [read?, apart]

theorem Runs.reading (run : Runs ts w) : Reading ts w := by
  induction run with
  | nil => exact .init
  | snoc before took ih => exact ih.step before took

/-- The message a step puts on `msg_sender`, with the peer it names. -/
def arrived? (t : Step Addr Key M) : Option (Peer Addr Key × M) :=
  match t.act with
  | .event (.received conn message) => (t.pre.readers.get conn).map fun peer => (peer, message)
  | _ => none

theorem step_incoming (took : w.step a = some w') :
    w'.incoming = w.incoming ++ (arrived? ⟨w, a, w'⟩).toList := by
  cases step_moved took with
  | @connectLost peer wanted | @connectWaits peer wanted | @sendQueued peer message wanted
  | @sendWaits peer message wanted => cases wanted <;> simp [arrived?, oneshot]
  | @established source peer attempts origin =>
      rcases origin with ⟨rfl, -⟩ | ⟨attempt, rfl, -⟩ <;> simp [arrived?]
  | received running => simp [arrived?, running]
  | failed | ended | wrote | broke | drained => simp [arrived?]

/-- The queue of incoming messages holds what was read, in the order it was read. -/
theorem Runs.incoming_eq (run : Runs ts w) : w.incoming = ts.filterMap arrived? := by
  induction run with
  | nil => rfl
  | @snoc ts w a w' before took ih =>
      rw [step_incoming took, ih, List.filterMap_append, List.filterMap_cons, List.filterMap_nil]
      cases arrived? ⟨w, a, w'⟩ <;> rfl

omit [DecidableEq Key] in
theorem readFrom_snoc {conn : ConnId} (made : conn < w.conns) :
    readFrom (ts ++ [⟨w, a, w'⟩]) conn =
      readFrom ts conn ++ ((read? conn ⟨w, a, w'⟩).map (peerOf conn ts, ·)).toList := by
  simp only [readFrom, peerOf_snoc, Nat.ne_of_gt made, if_false, Option.or_none, readOn_snoc,
    List.map_append]
  cases read? conn ⟨w, a, w'⟩ <;> rfl

/-- One more connection, on which nothing was read yet, or one more message on one of them. -/
theorem inbound_step (run : Runs ts w) (took : w.step a = some w') :
    (inbound (ts ++ [⟨w, a, w'⟩]) w').Perm (inbound ts w ++
      ((arrived? ⟨w, a, w'⟩).map fun pair => (some pair.1.id, pair.2)).toList) := by
  have unread : (∀ conn, read? conn ⟨w, a, w'⟩ = none) →
      (List.range w.conns).flatMap (readFrom (ts ++ [⟨w, a, w'⟩])) = inbound ts w := by
    intro reads
    refine List.flatMap_congr fun conn member => ?_
    rw [readFrom_snoc (List.mem_range.mp member), reads]
    exact List.append_nil _
  have still : w'.conns = w.conns → (∀ conn, read? conn ⟨w, a, w'⟩ = none) →
      arrived? ⟨w, a, w'⟩ = none → (inbound (ts ++ [⟨w, a, w'⟩]) w').Perm (inbound ts w ++
        ((arrived? ⟨w, a, w'⟩).map fun pair => (some pair.1.id, pair.2)).toList) := by
    intro conns reads silent
    rw [silent, inbound, conns, unread reads]
    simp
  cases step_moved took with
  | @connectLost peer wanted | @connectWaits peer wanted | @sendQueued peer message wanted
  | @sendWaits peer message wanted => cases wanted <;> exact still rfl (fun _ => rfl) rfl
  | failed | ended | wrote | broke | drained => exact still rfl (fun _ => rfl) rfl
  | @established source peer attempts origin =>
      have reads : ∀ conn v, read? conn ⟨w, .event source, v⟩ = none := by
        intro conn v
        rcases origin with ⟨rfl, -⟩ | ⟨attempt, rfl, -⟩ <;> rfl
      have silent : ∀ v, arrived? ⟨w, .event source, v⟩ = none := by
        intro v
        rcases origin with ⟨rfl, -⟩ | ⟨attempt, rfl, -⟩ <;> rfl
      have new : ∀ t : Step Addr Key M, read? w.conns t = none →
          readFrom (ts ++ [t]) w.conns = [] := by
        intro t nothing
        rw [readFrom, readOn_snoc, nothing, run.reading.unread _ (Nat.le_refl _)]
        rfl
      rw [inbound, List.range_succ, List.flatMap_append, unread fun conn => reads conn _,
        List.flatMap_singleton, new _ (reads _ _), silent]
      simp
  | @received conn message peer running =>
      obtain ⟨made, leads⟩ := run.reading.reader running
      simp only [arrived?, running, Option.map_some, Option.toList_some]
      refine flatMap_join List.nodup_range (List.mem_range.mpr made) ?_ fun other inside apart => ?_
      · rw [readFrom_snoc made, leads]
        simp [read?]
      · have made' : other < w.conns := List.mem_range.mp inside
        rw [readFrom_snoc made']
        simp [read?, Ne.symm apart]

/-- And each message names the peer its connection leads to. -/
theorem Runs.incoming_perm (run : Runs ts w) :
    (w.incoming.map fun pair => (some pair.1.id, pair.2)).Perm (inbound ts w) := by
  induction run with
  | nil => exact .refl _
  | @snoc ts w a w' before took ih =>
      refine .trans ?_ (inbound_step before took).symm
      rw [step_incoming took, List.map_append]
      refine ih.append ?_
      cases arrived? ⟨w, a, w'⟩ <;> exact .refl _

end In

/-- In every run: what the sinks of all connections accepted and their queues hold, each message
    with the peer its connection leads to, was requested for that peer, and each request
    accounts for one of them at most; what is on the queue of incoming messages was read from
    the streams in this order, and is all that was read from the connections, each message
    with the peer its connection leads to. -/
theorem trafficAccounted (run : Runs ts w) :
    (outbound ts w).Subperm ((sendReqs ts).map fun request => (some request.1, request.2)) ∧
    w.incoming = ts.filterMap arrived? ∧
    (w.incoming.map fun pair => (some pair.1.id, pair.2)).Perm (inbound ts w) :=
  ⟨run.outbound_subperm, run.incoming_eq, run.incoming_perm⟩

/-- Two connections of one peer, a message on each of them, and one for it. -/
theorem trafficAccounted_two : ∃ (ts : List (Step Unit Bool Nat)) (w : Runtime Unit Bool Nat),
    Runs ts w ∧ outbound ts w = [(some true, 7, some 0)] ∧
      inbound ts w = [(some true, 5), (some true, 6)] ∧
      (outbound ts w).Subperm ((sendReqs ts).map fun request => (some request.1, request.2)) ∧
      (w.incoming.map fun pair => (some pair.1.id, pair.2)).Perm
        [(some true, 5), (some true, 6)] := by
  obtain ⟨ts, w, done, sent, read⟩ : ∃ ts w,
      exec step (init : Runtime Unit Bool Nat)
        [.event (.inbound ⟨(), true⟩), .event (.inbound ⟨(), true⟩), .event (.received 1 6),
          .event (.sendReq ⟨(), true⟩ 7 true), .event (.received 0 5)] = some (ts, w) ∧
      outbound ts w = [(some true, 7, some 0)] ∧
      inbound ts w = [(some true, 5), (some true, 6)] := ⟨_, _, rfl, rfl, rfl⟩
  have run := exec_run done
  obtain ⟨requested, -, arrived⟩ := trafficAccounted run
  exact ⟨ts, w, run, sent, read, requested, read ▸ arrived⟩

end Lindy.P2p.Runtime
