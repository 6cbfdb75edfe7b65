import Lindy.Channel.Agreement
import Lindy.Server.Wires

/-! # Servers on sockets are nodes that send each other messages

In `Lindy.Channel.Network` a message reaches the node it is addressed to as it was sent, under
the name of its sender, and once at most. Here this is proved of servers that reach each other
over sockets, as long as nobody is told the address of a party under another's key. The key a
handshake names is trusted, so that includes the addresses the sockets come from.
-/

namespace Lindy

open Bitcoin Machine P2p P2p.Runtime

variable {c : Crates} {Addr ι : Type}

namespace Server

/-- The peer somebody names to the server. -/
def Act.named : Act c Addr → Option (Peer Addr c.PeerId)
  | .openChannel peer .. => some peer
  | .p2p a => P2p.Act.named a
  | _ => none

/-- All peers a server knows are right about something. -/
structure Knows (right : Peer Addr c.PeerId → Prop) (s : Server c Addr) : Prop where
  p2p : Runtime.Knows right s.p2p
  sending : ∀ {sending}, s.sending = some sending → right sending.peer
  orphaned : ∀ request ∈ s.orphaned, right request.1

variable {n : Node c} {s s' : Server c Addr} {a : Act c Addr} {reply : Option (Reply c)}
  {right : Peer Addr c.PeerId → Prop}

theorem Knows.init : Knows right (init : Server c Addr) where
  p2p := .init
  sending := by simp [Server.init]
  orphaned := by simp [Server.init]

theorem Knows.send {s : Server c Addr} (h : Knows right s) {caller : Caller}
    {peer : Peer Addr c.PeerId} (named : right peer) (reply : Reply c) :
    Knows right (s.send caller peer reply) := by
  rcases reply with failure | output
  · exact h
  · cases output with
    | send => exact ⟨h.p2p, fun sending => Option.some.inj sending ▸ named, h.orphaned⟩
    | _ => exact h

theorem Knows.step (h : Knows right s) (moved : Moved n s a reply s')
    (named : ∀ peer, a.named = some peer → right peer) : Knows right s' := by
  cases moved with
  | p2p other took => exact ⟨h.p2p.step took named, h.sending, h.orphaned⟩
  | background | updateChannel | resume | hangUpUpdate | panics =>
      exact ⟨h.p2p, h.sending, h.orphaned⟩
  | @openChannel peer value wallet reply w =>
      have left : Knows right { s with watched := w } := ⟨h.p2p, h.sending, h.orphaned⟩
      exact left.send (named peer rfl) reply
  | @handle entropy peer message reply w free next took =>
      let left : Server c Addr := { s with watched := w, handled := s.handled + 1 }
      have kept : Knows right left := ⟨h.p2p, h.sending, h.orphaned⟩
      have known : right peer := h.p2p.incoming (List.mem_of_getElem? next)
      rcases left.replied_cases peer reply with same | ⟨-, same⟩ <;> rw [same]
      · exact kept.send known reply
      · exact ⟨kept.p2p, kept.sending, kept.orphaned⟩
  | @submit peer message left w oldest took =>
      have stepped : right peer → Runtime.Knows right w := fun known =>
        h.p2p.step took fun other named => Option.some.inj named ▸ known
      rcases nextReq_cases oldest with ⟨rest, queued, rfl⟩ | ⟨caller, queued, waiting, rfl⟩
      · have known := h.orphaned _ (queued ▸ List.mem_cons_self)
        refine ⟨stepped known, h.sending, fun request member => h.orphaned request ?_⟩
        exact queued ▸ List.mem_cons_of_mem _ member
      · have known := h.sending waiting
        exact ⟨stepped known, fun sending => Option.some.inj sending ▸ known, h.orphaned⟩
  | sent | canceled | unheard => exact ⟨h.p2p, nofun, h.orphaned⟩
  | @withdrawn queued peer message waiting =>
      refine ⟨h.p2p, nofun, fun request member => ?_⟩
      cases queued with
      | false => exact h.orphaned request member
      | true =>
          rcases List.mem_append.mp member with before | new
          · exact h.orphaned request before
          · obtain rfl := List.mem_singleton.mp new
            exact h.sending waiting

/-- A step that is none of the node and its monitor. -/
theorem untouched (moved : Moved n s a reply s') (none : a.operation? s = none) :
    s'.watched = s.watched := by
  cases moved with
  | p2p | panics | sent | canceled | withdrawn | unheard => rfl
  | submit oldest => rcases nextReq_cases oldest with ⟨rest, -, rfl⟩ | ⟨caller, -, -, rfl⟩ <;> rfl
  | background | openChannel | updateChannel | resume | hangUpUpdate => cases none
  | handle free next => simp [Act.operation?, next] at none

/-- What a step means to the event loop. -/
theorem looped (moved : Moved n s a reply s') :
    (p2pSteps ⟨s, (a, reply), s'⟩ = [] ∧ s'.p2p = s.p2p) ∨
      ∃ b, p2pSteps ⟨s, (a, reply), s'⟩ = [⟨s.p2p, b, s'.p2p⟩] ∧ s.p2p.step b = some s'.p2p ∧
        (a = .p2p b ∨ b.onSocket = false) := by
  cases moved with
  | @p2p b w other took => exact .inr ⟨b, rfl, took, .inl rfl⟩
  | background | updateChannel | resume | sent | canceled | withdrawn | unheard
  | hangUpUpdate => exact .inl ⟨rfl, rfl⟩
  | openChannel => exact .inl ⟨rfl, (send_keeps _ _ _ _).1⟩
  | handle => exact .inl ⟨rfl, (replied_keeps _ _ _).1⟩
  | @submit peer message left w oldest took =>
      refine .inr ⟨.event (.sendReq peer message true), ?_, took, .inr rfl⟩
      simp [p2pSteps, Act.event?, oldest, took]
  | panics oldest deserted => exact .inl ⟨p2pSteps_panics oldest deserted, rfl⟩

/-- Where the node is asked to open a channel. -/
theorem opens_of_operation (moved : Moved n s a reply s') {value : UInt64} {key : c.PeerId}
    {wallet : Wallet c}
    (operation : a.operation? s = some (.node (.openChannel value key wallet))) :
    ∃ peer, a = .openChannel peer value wallet ∧ key = peer.id := by
  cases moved with
  | p2p | submit | panics | sent | canceled | withdrawn | unheard =>
      simp [Act.operation?] at operation
  | background other => exact absurd (Option.some.inj operation) (other _)
  | openChannel =>
      cases Option.some.inj operation
      exact ⟨_, rfl, rfl⟩
  | updateChannel | resume | hangUpUpdate => cases Option.some.inj operation
  | handle free next => simp [Act.operation?, next] at operation

/-- Where it is given a message. -/
theorem handles_of_operation (moved : Moved n s a reply s') {key : c.PeerId} {message : Message c}
    {entropy : c.Entropy}
    (operation : a.operation? s = some (.node (.receive key message entropy))) :
    ∃ peer, s.p2p.incoming[s.handled]? = some (peer, message) ∧ key = peer.id ∧
      s'.handled = s.handled + 1 ∧ s'.p2p = s.p2p := by
  cases moved with
  | p2p | submit | panics | sent | canceled | withdrawn | unheard =>
      simp [Act.operation?] at operation
  | background other => exact absurd (Option.some.inj operation) (other _)
  | openChannel | updateChannel | resume | hangUpUpdate => cases Option.some.inj operation
  | @handle entropy peer message reply w free next =>
      simp only [Act.operation?, next, Option.map_some, Option.some.injEq] at operation
      cases operation
      let left : Server c Addr := { s with watched := w, handled := s.handled + 1 }
      obtain ⟨p2p, -, handled, -⟩ := left.replied_keeps peer reply
      exact ⟨peer, next, rfl, handled, p2p⟩

end Server

namespace Sockets

variable {nodes : ι → Node c} {book : ι → Addr}

/-- The address of a party is not given with another key. -/
def Right (nodes : ι → Node c) (book : ι → Addr) (peer : Peer Addr c.PeerId) : Prop :=
  ∀ j, book j = peer.addr → peer.id = (nodes j).manager.id

/-- The messages under way from one party to another. -/
def between (nodes : ι → Node c) (net : List (Envelope c.PeerId (Message c))) (i j : ι) :
    List (Message c) :=
  under ((nodes i).manager.id, (nodes j).manager.id)
    (net.map fun e => ((e.sender, e.receiver), e.message))

theorem between_append (net more : List (Envelope c.PeerId (Message c))) (i j : ι) :
    between nodes (net ++ more) i j = between nodes net i j ++ between nodes more i j := by
  simp [between]

/-- What a party posts is under way from it. -/
theorem between_posted [DecidableEq ι]
    (known : Function.Injective fun i => (nodes i).manager.id) (i a b : ι) (reply : Reply c) :
    between nodes ((network nodes).posted i reply) a b =
      if a = i then under (nodes b).manager.id (Reply.sends reply).toList else [] := by
  have sends : (network nodes).sends reply = Reply.sends reply := rfl
  have address : (network nodes).address i = (nodes i).manager.id := rfl
  rw [Protocol.posted, sends, address]
  cases Reply.sends reply with
  | none => simp [between]
  | some pair =>
      by_cases same : a = i
      · subst same
        simp [between]
      · have apart : (nodes i).manager.id ≠ (nodes a).manager.id := fun key => same (known key).symm
        simp [between, same, apart]

/-- What the event loop of each party has done so far, what its node has, and the network of the
    nodes alone. -/
structure Refines (nodes : ι → Node c) (book : ι → Addr) (w : Sockets ι c Addr)
    (us : Loops ι c Addr) (vs : ι → List (Watched.Step c)) (u : Net ι c) : Prop where
  glued : ∀ i, Server.Glued (nodes i) (w.servers i) (us i) (vs i)
  wired : Wired nodes w us
  knows : ∀ i, (w.servers i).Knows (Right nodes book)
  states : ∀ i, u.states i = (w.servers i).watched.node
  /-- Whatever one node sent another is under way or was received. -/
  under_way : ∀ i j, (under (nodes j).manager.id ((vs i).filterMap Watched.sent?)).Perm
    (between nodes u.net i j ++
      under (nodes i).manager.id ((vs j).filterMap Watched.received?))

theorem Refines.init : Refines nodes book (init : Sockets ι c Addr) (fun _ => []) (fun _ => [])
    (network nodes).start where
  glued := fun _ => .init
  wired := .init
  knows := fun _ => .init
  states := fun _ => rfl
  under_way := fun _ _ => .refl _

variable {w : Sockets ι c Addr} {us : Loops ι c Addr} {vs : ι → List (Watched.Step c)} {u : Net ι c}

/-- A connection that leads to a party, and the one of that party it leads to. -/
def Partner (w : Sockets ι c Addr) (i j : ι) (conn conn' : ConnId) : Prop :=
  ∃ p mine other, w.endAt p = some mine ∧ w.endAt (far p) = some other ∧
    mine.party = i ∧ mine.conn = some conn ∧ other.party = j ∧ other.conn = some conn'

theorem Wired.partner_single (h : Wired nodes w us) {i j : ι} {conn conn' conn'' : ConnId}
    (left : Partner w i j conn conn'') (right : Partner w i j conn' conn'') : conn = conn' := by
  obtain ⟨p, mine, other, found, found', rfl, made, party, made'⟩ := left
  obtain ⟨q, mine', other', there, there', same, also, party', also'⟩ := right
  have opposite := h.single found' there' made' also' (party.trans party'.symm)
  obtain rfl : p = q := by rw [← far_far p, opposite, far_far]
  obtain rfl := Option.some.inj (found.symm.trans there)
  exact Option.some.inj (made.symm.trans also)

/-- What a connection has read was written by its partner. -/
theorem Wired.partner (h : Wired nodes w us)
    (known : Function.Injective fun i => (nodes i).manager.id) {i j : ι} {conn : ConnId}
    (made : conn < (w.servers j).p2p.conns)
    (leads : peerOf conn (us j) = some (nodes i).manager.id) :
    readOn conn (us j) = [] ∨ ∃ conn', conn' < (w.servers i).p2p.conns ∧
      peerOf conn' (us i) = some (nodes j).manager.id ∧ Partner w j i conn conn' ∧
      readOn conn (us j) <+: ((w.servers i).p2p.sinks conn').map Prod.fst := by
  obtain ⟨p, mine, found, rfl, mine_made⟩ := h.all made
  obtain ⟨link, there, rfl⟩ := Option.map_eq_some_iff.mp found
  have opposite : w.endAt (far p) = some (link.ends !p.2) := endAt_of_links there !p.2
  have ok := h.ends found opposite
  have back := h.ends opposite (by rw [far_far]; exact found)
  obtain ⟨-, leads'⟩ := ok.made mine_made
  obtain rfl : (link.ends !p.2).party = i := known (Option.some.inj (leads'.symm.trans leads))
  have reads := ok.reads mine_made
  rw [written] at reads
  split at reads
  · rename_i conn' other_made
    obtain ⟨inside, leads''⟩ := back.made other_made
    refine .inr ⟨conn', inside, leads'', ?_, reads ▸ List.take_prefix _ _⟩
    exact ⟨p, _, _, found, opposite, rfl, mine_made, rfl, other_made⟩
  · exact .inl (reads.trans List.take_nil)

/-- A party has received no more from another one than it was sent. -/
theorem Refines.arrived (h : Refines nodes book w us vs u)
    (known : Function.Injective fun i => (nodes i).manager.id) (i j : ι) :
    (under (nodes i).manager.id ((w.servers j).p2p.incoming.map Server.plain)).Subperm
      (under (nodes j).manager.id ((vs i).filterMap Watched.sent?)) := by
  have read := Runs.incoming_under (h.glued j).p2p (nodes i).manager.id
  have requested := Runs.outbound_under (h.glued i).p2p (nodes j).manager.id
  refine .trans read.subperm (.trans ?_ (requested.trans ?_))
  · refine flatMap_subperm List.nodup_range (Partner w j i) ?_ fun _ _ _ => h.wired.partner_single
    intro conn inside
    split
    · rename_i leads
      refine (h.wired.partner known (List.mem_range.mp inside) leads).imp_right ?_
      rintro ⟨conn', inside', leads', partner, part⟩
      refine ⟨conn', List.mem_range.mpr inside', partner, ?_⟩
      rw [if_pos leads']
      exact part.sublist.subperm
    · exact .inl rfl
  · exact under_subperm ((List.sublist_append_left _ _).trans (h.glued i).sent).subperm

/-- Whoever is named for a message is a party. -/
theorem Refines.sender (h : Refines nodes book w us vs u) {j : ι} {peer : Peer Addr c.PeerId}
    {message : Message c} (member : (peer, message) ∈ (w.servers j).p2p.incoming) :
    ∃ i, peer.id = (nodes i).manager.id := by
  have read := (Runs.incoming_perm (h.glued j).p2p).subset (List.mem_map_of_mem member)
  obtain ⟨conn, inside, reads⟩ := List.mem_flatMap.mp read
  obtain ⟨_, -, same⟩ := List.mem_map.mp reads
  obtain ⟨leads, -⟩ := Prod.mk.inj same
  obtain ⟨p, mine, found, rfl, made⟩ := h.wired.all (List.mem_range.mp inside)
  obtain ⟨link, there, rfl⟩ := Option.map_eq_some_iff.mp found
  have opposite : w.endAt (far p) = some (link.ends !p.2) := endAt_of_links there !p.2
  obtain ⟨-, leads'⟩ := (h.wired.ends found opposite).made made
  exact ⟨_, Option.some.inj (leads.symm.trans leads')⟩

/-- The message a party takes next is under way to it. -/
theorem Refines.takes (h : Refines nodes book w us vs u)
    (known : Function.Injective fun i => (nodes i).manager.id) {i : ι} {peer : Peer Addr c.PeerId}
    {message : Message c}
    (next : (w.servers i).p2p.incoming[(w.servers i).handled]? = some (peer, message)) :
    ∃ e ∈ u.net, e.sender = peer.id ∧ e.receiver = (nodes i).manager.id ∧ e.message = message := by
  obtain ⟨from', named⟩ := h.sender (List.mem_of_getElem? next)
  obtain ⟨inside, value⟩ := List.getElem?_eq_some_iff.mp next
  have taken : (under peer.id ((vs i).filterMap Watched.received?) ++ [message]).Sublist
      (under peer.id ((w.servers i).p2p.incoming.map Server.plain)) := by
    have more : under peer.id ((vs i).filterMap Watched.received?) ++ [message] = under peer.id
        (((w.servers i).p2p.incoming.take ((w.servers i).handled + 1)).map Server.plain) := by
      rw [(h.glued i).received, List.take_succ_eq_append_getElem inside, value, List.map_append,
        under_append]
      simp [Server.plain]
    rw [more]
    exact ((List.take_sublist _ _).map _).filterMap _
  have less := (named ▸ taken).subperm.trans ((h.arrived known from' i).trans
    (h.under_way from' i).subperm)
  have there : message ∈ between nodes u.net from' i := by
    have swapped := less.trans List.perm_append_comm.subperm
    exact (List.subperm_append_left _).mp swapped |>.subset (List.mem_singleton_self _)
  obtain ⟨e, member, same⟩ := List.mem_map.mp (mem_under.mp there)
  simp only [Prod.mk.injEq] at same
  exact ⟨e, member, same.1.1.trans named.symm, same.1.2, same.2⟩

section Step

variable [DecidableEq ι] {i : ι} {a : Server.Act c Addr} {reply : Option (Reply c)}
  {s : Server c Addr} {links : List (Link ι)}

/-- Only one party did something. -/
theorem filterMap_update {α : Type*} (f : Watched.Step c → Option α) (xs : List (Watched.Step c))
    (j : ι) : (Function.update vs i (vs i ++ xs) j).filterMap f =
      (vs j).filterMap f ++ if j = i then xs.filterMap f else [] := by
  by_cases same : j = i
  · subst same
    simp
  · simp [same]

/-- What a step of one party asks of the network of the nodes. -/
theorem Refines.next (h : Refines nodes book w us vs u)
    (took : (w.servers i).step (nodes i) a = some (reply, s))
    (wired : Wired nodes ⟨Function.update w.servers i s, links⟩
      (Function.update us i (us i ++ Server.p2pSteps ⟨w.servers i, (a, reply), s⟩)))
    (named : ∀ peer, a.named = some peer → Right nodes book peer) {u' : Net ι c}
    (states : u'.states = Function.update u.states i s.watched.node)
    (under_way : ∀ j k, (under (nodes k).manager.id ((vs j).filterMap Watched.sent? ++
        if j = i then (Server.watchedSteps ⟨w.servers i, (a, reply), s⟩).filterMap Watched.sent?
        else [])).Perm
      (between nodes u'.net j k ++
        under (nodes j).manager.id ((vs k).filterMap Watched.received? ++
          if k = i then
            (Server.watchedSteps ⟨w.servers i, (a, reply), s⟩).filterMap Watched.received?
          else []))) :
    ∃ us vs, Refines nodes book ⟨Function.update w.servers i s, links⟩ us vs u' := by
  have moved := (Server.step_moved took).2
  refine ⟨_, Function.update vs i (vs i ++ Server.watchedSteps ⟨w.servers i, (a, reply), s⟩),
    ?_, wired, ?_, ?_, ?_⟩
  · intro j
    by_cases same : j = i
    · subst same
      simpa using (h.glued j).step moved
    · simpa [same] using h.glued j
  · intro j
    by_cases same : j = i
    · subst same
      simpa using (h.knows j).step moved named
    · simpa [same] using h.knows j
  · intro j
    rw [states]
    by_cases same : j = i
    · subst same
      simp
    · simpa [same] using h.states j
  · intro j k
    rw [filterMap_update, filterMap_update]
    exact under_way j k

omit [DecidableEq ι] in
/-- Only where a channel is opened there is something to ask of a move. -/
theorem honest_of_opens {t : NetTransition ι c}
    (opens : ∀ {i value peer wallet}, t.act.1 = .act i (.openChannel value peer wallet) →
      Honest nodes t) : Honest nodes t where
  peers := fun act => (opens act).peers act
  pays := fun act => (opens act).pays act
  fresh := fun act => (opens act).fresh act

/-- A party takes one message, or none, and posts what it has to send. -/
theorem under_way_posted (known : Function.Injective fun i => (nodes i).manager.id)
    {j k : ι} {r : Reply c} {sent received : List (c.PeerId × Message c)}
    {net rest : List (Envelope c.PeerId (Message c))} {taken : List (c.PeerId × Message c)}
    (before : (under (nodes k).manager.id sent).Perm
      (between nodes net j k ++ under (nodes j).manager.id received))
    (left : (between nodes net j k).Perm
      (between nodes rest j k ++ if k = i then under (nodes j).manager.id taken else [])) :
    (under (nodes k).manager.id (sent ++ if j = i then (Reply.sends r).toList else [])).Perm
      (between nodes (rest ++ (network nodes).posted i r) j k ++
        under (nodes j).manager.id (received ++ if k = i then taken else [])) := by
  have posted : under (nodes k).manager.id (if j = i then (Reply.sends r).toList else []) =
      between nodes ((network nodes).posted i r) j k := by
    rw [between_posted known]
    split <;> rfl
  have took : under (nodes j).manager.id (if k = i then taken else []) =
      if k = i then under (nodes j).manager.id taken else [] := by
    split <;> rfl
  rw [under_append, under_append, between_append, posted, took]
  refine (before.append_right _).trans ?_
  refine ((left.append_right _).append_right _).trans ?_
  simp only [List.append_assoc]
  refine .append_left _ ?_
  rw [← List.append_assoc]
  exact List.perm_append_comm.trans (List.perm_append_comm.append_left _)

/-- What is left when a message is taken. -/
theorem between_taken (known : Function.Injective fun i => (nodes i).manager.id)
    {net : List (Envelope c.PeerId (Message c))} {p : Nat} {e : Envelope c.PeerId (Message c)}
    {key : c.PeerId} {message : Message c} (found : net[p]? = some e) (sender : e.sender = key)
    (receiver : e.receiver = (nodes i).manager.id) (same : e.message = message) (j k : ι) :
    (between nodes net j k).Perm (between nodes (net.eraseIdx p) j k ++
      if k = i then under (nodes j).manager.id [(key, message)] else []) := by
  obtain ⟨inside, rfl⟩ := List.getElem?_eq_some_iff.mp found
  have moved : (between nodes net j k).Perm (between nodes (net.eraseIdx p) j k ++
      between nodes [net[p]] j k) := by
    rw [← between_append]
    refine under_perm (List.Perm.map _ ?_)
    have last : ([net[p]] ++ net.eraseIdx p).Perm (net.eraseIdx p ++ [net[p]]) :=
      List.perm_append_comm
    exact (List.getElem_cons_eraseIdx_perm inside).symm.trans last
  refine moved.trans (.of_eq ?_)
  congr 1
  by_cases here : k = i
  · subst here
    by_cases from' : key = (nodes j).manager.id
    · simp [between, sender, receiver, same, from']
    · simp [between, sender, receiver, from']
  · have apart : (nodes i).manager.id ≠ (nodes k).manager.id := fun key => here (known key).symm
    simp [between, receiver, here, apart]

/-- The network of the nodes does what a step of one server does, if anything. -/
theorem Refines.served (h : Refines nodes book w us vs u)
    (known : Function.Injective fun i => (nodes i).manager.id)
    (took : (w.servers i).step (nodes i) a = some (reply, s))
    (wired : Wired nodes ⟨Function.update w.servers i s, links⟩
      (Function.update us i (us i ++ Server.p2pSteps ⟨w.servers i, (a, reply), s⟩)))
    (named : ∀ peer, a.named = some peer → Right nodes book peer)
    (honest : ∀ {peer value wallet r u'}, a = .openChannel peer value wallet →
      Honest nodes ⟨u, (.act i (.openChannel value peer.id wallet), r), u'⟩) :
    ∃ ms u', Run (fun u label u' => (network nodes).move u label.1 = some (label.2, u')) u ms u' ∧
      (∀ t ∈ ms, Honest nodes t) ∧
      ∃ us vs, Refines nodes book ⟨Function.update w.servers i s, links⟩ us vs u' := by
  have moved := (Server.step_moved took).2
  have next := fun {u' : Net ι c} (states : u'.states = _) => h.next took wired named states
  have glued := (h.glued i).step moved
  have still : ∀ {node : NodeState c}, node = (w.servers i).watched.node →
      u.states = Function.update u.states i node := by
    rintro _ rfl
    rw [← h.states i, Function.update_eq_self]
  cases operation : a.operation? (w.servers i) with
  | none =>
      have idle : Server.watchedSteps ⟨w.servers i, (a, reply), s⟩ = [] := by
        simp [Server.watchedSteps, operation]
      refine ⟨[], u, .nil, by simp, next ?_ ?_⟩
      · exact still (congrArg Watched.node (Server.untouched moved operation))
      · intro j k
        simpa [idle] using h.under_way j k
  | some b =>
      have one : Server.watchedSteps ⟨w.servers i, (a, reply), s⟩ =
          [⟨(w.servers i).watched, (b, reply), s.watched⟩] := by
        simp [Server.watchedSteps, operation]
      rw [one] at next glued
      have stepped : (w.servers i).watched.step (nodes i) b = some (reply, s.watched) :=
        glued.watched.taken (List.mem_append_right _ List.mem_cons_self)
      obtain ⟨calls, calling⟩ := Watched.Runs.calling (h.glued i).watched
      rcases calling.shows stepped with ⟨rfl, same⟩ | ⟨op, r, rfl, acted, shows⟩
      · refine ⟨[], u, .nil, by simp, next (still same) ?_⟩
        intro j k
        have sent := Watched.quiet_sent? ⟨(w.servers i).watched, (b, none), s.watched⟩ rfl
        have received := Watched.quiet_received? ⟨(w.servers i).watched, (b, none), s.watched⟩ rfl
        simpa [sent, received] using h.under_way j k
      · rw [← h.states i] at acted
        have acted : (network nodes).step i (u.states i) op = some (r, s.watched.node) := acted
        have sent : [(⟨(w.servers i).watched, (b, some r), s.watched⟩ : Watched.Step c)].filterMap
            Watched.sent? = (Reply.sends r).toList := by
          rw [List.filterMap_cons, List.filterMap_nil, ← shows.sent?, Node.sent?]
          cases Reply.sends r <;> rfl
        have received : [(⟨(w.servers i).watched, (b, some r), s.watched⟩ :
            Watched.Step c)].filterMap Watched.received? = (Node.received?
              ⟨(w.servers i).watched.node, (op, r), s.watched.node⟩).toList := by
          rw [List.filterMap_cons, List.filterMap_nil, ← shows.received?]
          cases Node.received? ⟨(w.servers i).watched.node, (op, r), s.watched.node⟩ <;> rfl
        have advance : ∀ {rest}, (∀ j k, (between nodes u.net j k).Perm (between nodes rest j k ++
            if k = i then under (nodes j).manager.id (Node.received?
              ⟨(w.servers i).watched.node, (op, r), s.watched.node⟩).toList else [])) →
            ∃ us vs, Refines nodes book ⟨Function.update w.servers i s, links⟩ us vs
              ⟨Function.update u.states i s.watched.node,
                rest ++ (network nodes).posted i r⟩ := by
          intro rest left
          refine next rfl fun j k => ?_
          rw [sent, received]
          exact under_way_posted known (h.under_way j k) (left j k)
        by_cases own : (network nodes).own op = true
        · have silent : Node.received? ⟨(w.servers i).watched.node, (op, r), s.watched.node⟩ =
              none := by
            cases op <;> first | rfl | cases own
          have took' : (network nodes).move u (.act i op) = some (some r,
              ⟨Function.update u.states i s.watched.node,
                u.net ++ (network nodes).posted i r⟩) := by
            simp [Protocol.move, own, Protocol.perform, acted]
          refine ⟨[⟨u, (.act i op, some r), _⟩], _, Run.nil.snoc took', ?_, advance ?_⟩
          · simp only [List.mem_singleton, forall_eq]
            refine honest_of_opens fun {_ value key wallet} act => ?_
            obtain ⟨rfl, rfl⟩ := Move.act.inj act
            obtain rfl : b = .node (.openChannel value key wallet) := shows.operation rfl
            obtain ⟨peer, rfl, rfl⟩ := Server.opens_of_operation moved operation
            exact honest rfl
          · intro j k
            simp [silent, under]
        · obtain ⟨key, message, entropy, rfl⟩ : ∃ key message entropy,
              op = .receive key message entropy := by
            cases op with
            | receive key message entropy => exact ⟨_, _, _, rfl⟩
            | _ => exact absurd rfl own
          obtain rfl : b = .node (.receive key message entropy) := shows.operation rfl
          obtain ⟨peer, incoming, rfl, -, -⟩ := Server.handles_of_operation moved operation
          obtain ⟨e, member, sender, receiver, same⟩ := h.takes known incoming
          obtain ⟨p, found⟩ := List.getElem?_of_mem member
          have took' : (network nodes).move u (.deliver p i entropy) = some (some r,
              ⟨Function.update u.states i s.watched.node,
                u.net.eraseIdx p ++ (network nodes).posted i r⟩) := by
            have takes : (network nodes).receive e.sender e.message entropy =
                .receive peer.id message entropy := by rw [sender, same]; rfl
            have address : e.receiver = (network nodes).address i := receiver
            simp [Protocol.move, found, address, Protocol.perform, takes, acted]
          refine ⟨[⟨u, (.deliver p i entropy, some r), _⟩], _, Run.nil.snoc took', ?_, advance ?_⟩
          · simp only [List.mem_singleton, forall_eq]
            exact honest_of_opens fun act => by cases act
          · intro j k
            exact between_taken known found sender receiver same j k

end Step

/-- What users do: they name parties by their own keys, and open channels with other parties,
    with wallets that pay what they are asked to and name no channel any node stores. The
    network does its part: no socket comes from the address of another party. -/
structure HonestUse (nodes : ι → Node c) (book : ι → Addr) (t : Step ι c Addr) : Prop where
  named : ∀ {i a peer}, t.act.1 = .server i a → a.named = some peer → Right nodes book peer
  accepted : ∀ {k addr link}, t.act.1 = .accepted k addr → t.pre.links[k]? = some link →
    Right nodes book ⟨addr, (nodes (link.ends true).party).manager.id⟩
  peers : ∀ {i peer value wallet}, t.act.1 = .server i (.openChannel peer value wallet) →
    ∃ j, j ≠ i ∧ peer.id = (nodes j).manager.id
  pays : ∀ {i peer value wallet}, t.act.1 = .server i (.openChannel peer value wallet) →
    Wallet.Pays wallet
  fresh : ∀ {i value wallet descriptor psbt id} {peer : Peer Addr c.PeerId},
    t.act.1 = .server i (.openChannel peer value wallet) →
    (nodes i).manager.fundingDescriptorFor peer.id true = some descriptor →
    wallet (c.scriptPubkey descriptor) value = .ok psbt →
    FundTx.channelId ⟨descriptor, psbt⟩ = some id →
    ∀ j, (t.pre.servers j).watched.node.db.getChannel id = none

section Parties

variable [DecidableEq ι] {i : ι} {a : Server.Act c Addr} {reply : Option (Reply c)}
  {s : Server c Addr}

/-- The event loop of the one party that did something. -/
theorem step_grown {p p' : Runtime Addr c.PeerId (Message c)}
    {b : P2p.Act Addr c.PeerId (Message c)} (took : p.step b = some p')
    (us : List (P2p.Step Addr c.PeerId (Message c))) : Grown us (us ++ [⟨p, b, p'⟩]) p p' where
  conns := step_conns took
  peer := fun {conn} inside => by
    rw [peerOf_snoc, if_neg (Nat.ne_of_gt inside), Option.or_none]
  sinks := step_accepts took

/-- The event loops of all parties, when one of them took a step. -/
theorem grown_update {b : P2p.Act Addr c.PeerId (Message c)}
    (took : (w.servers i).p2p.step b = some s.p2p) (j : ι) :
    Grown (us j) (Function.update us i (us i ++ [⟨(w.servers i).p2p, b, s.p2p⟩]) j)
      (w.servers j).p2p (Function.update w.servers i s j).p2p := by
  by_cases same : j = i
  · subst same
    simpa using step_grown took (us j)
  · simpa [same] using Grown.refl (us j) (w.servers j).p2p

theorem readOn_update {t : P2p.Step Addr c.PeerId (Message c)}
    (silent : ∀ conn, read? conn t = none) (j : ι) (conn : ConnId) :
    readOn conn (Function.update us i (us i ++ [t]) j) = readOn conn (us j) := by
  by_cases same : j = i
  · subst same
    simp [silent]
  · simp [same]

/-- A party that does something away from its sockets leaves all of them alone. -/
theorem Wired.inside (h : Wired nodes w us) (moved : Server.Moved (nodes i) (w.servers i) a reply s)
    (inside : onSocket a = false) :
    Wired nodes ⟨Function.update w.servers i s, w.links⟩
      (Function.update us i (us i ++ Server.p2pSteps ⟨w.servers i, (a, reply), s⟩)) := by
  have others : ∀ {f : Runtime Addr c.PeerId (Message c) → Nat}, f s.p2p = f (w.servers i).p2p →
      ∀ j, f (Function.update w.servers i s j).p2p = f (w.servers j).p2p := by
    intro f same j
    by_cases here : j = i
    · subst here
      simpa using same
    · simp [here]
  rcases Server.looped moved with ⟨none, same⟩ | ⟨b, one, took, away⟩
  · rw [none, List.append_nil, Function.update_eq_self]
    have alone : ∀ j, (Function.update w.servers i s j).p2p = (w.servers j).p2p := by
      intro j
      by_cases here : j = i
      · subst here
        simpa using same
      · simp [here]
    refine h.kept rfl (fun j => ?_) (others (f := Runtime.conns) (same ▸ rfl)) fun _ _ => rfl
    rw [alone]
    exact .refl _ _
  · have off : b.onSocket = false := by
      rcases away with rfl | off
      · exact inside
      · exact off
    obtain ⟨conns, -, silent⟩ := step_inside took off
    rw [one]
    exact h.kept rfl (grown_update took) (others (f := Runtime.conns) conns) (readOn_update silent)

/-- A connection is made of one end of a link. -/
theorem Wired.established (h : Wired nodes w us) {us' : List (P2p.Step Addr c.PeerId (Message c))}
    (run : Runtime.Runs (us i) (w.servers i).p2p)
    {k : Nat} {link : Link ι} {side : Bool} {b : P2p.Act Addr c.PeerId (Message c)}
    (found : w.links[k]? = some link) (party : (link.ends side).party = i)
    (new : (link.ends side).conn = none) (took : (w.servers i).p2p.step b = some s.p2p)
    (same : us' = us i ++ [⟨(w.servers i).p2p, b, s.p2p⟩])
    (made : established? ⟨(w.servers i).p2p, b, s.p2p⟩ =
      some (nodes (link.ends !side).party).manager.id) :
    Wired nodes ⟨Function.update w.servers i s,
        w.links.set k (link.opened side (w.servers i).p2p.conns)⟩ (Function.update us i us') := by
  subst same
  obtain ⟨conns, silent⟩ := step_established took made
  refine h.opened found party new rfl (grown_update took) ?_ ?_
    (run.reading.unread _ (Nat.le_refl _)) (readOn_update silent)
  · intro j
    by_cases here : j = i
    · subst here
      simpa using conns
    · simp [here]
  · simp [made, run.peered.fresh _ (Nat.le_refl _)]

/-- A message is read at one end of a link. -/
theorem Wired.received (h : Wired nodes w us) {k : Nat} {link : Link ι} {side : Bool}
    {conn : ConnId} {message : Message c} (found : w.links[k]? = some link)
    (party : (link.ends side).party = i) (made : (link.ends side).conn = some conn)
    (next : (w.written (link.ends !side))[(link.ends side).read]? = some message)
    (took : (w.servers i).p2p.step (.event (.received conn message)) = some s.p2p) :
    Wired nodes ⟨Function.update w.servers i s, w.links.set k (link.took side)⟩
      (Function.update us i (us i ++
        [⟨(w.servers i).p2p, .event (.received conn message), s.p2p⟩])) := by
  obtain ⟨conns, -⟩ := step_received took
  refine h.read found party made next rfl (grown_update took) ?_ ?_ ?_
  · intro j
    by_cases here : j = i
    · subst here
      simpa using conns
    · simp [here]
  · simp [readOn_snoc, read?]
  · intro j conn' apart
    by_cases here : j = i
    · subst here
      have other : conn ≠ conn' := fun same => apart ⟨rfl, same.symm⟩
      simp [read?, other]
    · simp [here]

variable [DecidableEq Addr] {w' : Sockets ι c Addr} {act : Act ι c Addr}

/-- Each step on the sockets is at most one move of the network of the nodes. -/
theorem Refines.step (h : Refines nodes book w us vs u)
    (known : Function.Injective fun i => (nodes i).manager.id)
    (moved : Moved nodes book w act reply w')
    (honest : HonestUse nodes book ⟨w, (act, reply), w'⟩) :
    ∃ ms u', Run (fun u label u' => (network nodes).move u label.1 = some (label.2, u')) u ms u' ∧
      (∀ t ∈ ms, Honest nodes t) ∧ ∃ us vs, Refines nodes book w' us vs u' := by
  cases moved with
  | @server i a reply s inside took =>
      have wired := h.wired.inside (Server.step_moved took).2 inside
      refine h.served known took wired (fun peer named => honest.named rfl named) ?_
      rintro peer value wallet r u' rfl
      constructor
      · rintro i' value' key wallet' ⟨⟩
        exact honest.peers rfl
      · rintro i' value' key wallet' ⟨⟩
        exact honest.pays rfl
      · rintro i' value' key wallet' descriptor psbt id ⟨⟩ made paid named j
        rw [recordAt, h.states j]
        exact honest.fresh rfl made paid named j
  | @dial i attempt j =>
      refine ⟨[], u, .nil, by simp, us, vs, h.glued, h.wired.dial attempt i j, h.knows, h.states,
        h.under_way⟩
  | @dialed k link i reply s found party new dialing took =>
      have wired : Wired nodes ⟨Function.update w.servers i s,
          w.links.set k (link.opened true (w.servers i).p2p.conns)⟩ (Function.update us i
            (us i ++ Server.p2pSteps
              ⟨w.servers i, (.p2p (.event (.connected link.attempt)), reply), s⟩)) := by
        cases (Server.step_moved took).2 with
        | p2p other stepped =>
            refine h.wired.established (h.glued i).p2p found party new stepped rfl ?_
            unfold dials at dialing
            split at dialing
            · rename_i peer running
              have right := (h.knows i).p2p.attempts running
              simp [established?, running, right _ (of_decide_eq_true dialing)]
            · cases dialing
      refine h.served known took wired (fun peer named => by cases named) ?_
      rintro peer value wallet r u' ⟨⟩
  | @accepted k addr link i reply s found party new took =>
      have wired : Wired nodes ⟨Function.update w.servers i s,
          w.links.set k (link.opened false (w.servers i).p2p.conns)⟩ (Function.update us i
            (us i ++ Server.p2pSteps ⟨w.servers i, (.p2p (.event (.inbound
              ⟨addr, (nodes (link.ends true).party).manager.id⟩)), reply), s⟩)) := by
        cases (Server.step_moved took).2 with
        | p2p other stepped =>
            exact h.wired.established (h.glued i).p2p found party new stepped rfl rfl
      refine h.served known took wired (fun peer named => ?_) ?_
      · exact Option.some.inj named ▸ honest.accepted rfl found
      · rintro peer value wallet r u' ⟨⟩
  | @read k side link i conn message reply s found party made next took =>
      have wired : Wired nodes ⟨Function.update w.servers i s, w.links.set k (link.took side)⟩
          (Function.update us i (us i ++ Server.p2pSteps
            ⟨w.servers i, (.p2p (.event (.received conn message)), reply), s⟩)) := by
        cases (Server.step_moved took).2 with
        | p2p other stepped => exact h.wired.received found party made next stepped
      refine h.served known took wired (fun peer named => by cases named) ?_
      rintro peer value wallet r u' ⟨⟩

end Parties

variable [DecidableEq ι] [DecidableEq Addr]

theorem Runs.refines (known : Function.Injective fun i => (nodes i).manager.id) {ts}
    (run : Runs nodes book ts w) (honest : ∀ t ∈ ts, HonestUse nodes book t) :
    ∃ ms u, (network nodes).Runs ms u ∧ (∀ t ∈ ms, Honest nodes t) ∧
      ∃ us vs, Refines nodes book w us vs u :=
  run.simulate (R := fun w u => ∃ us vs, Refines nodes book w us vs u) ⟨_, _, .init⟩
    (fun ⟨_, _, h⟩ took met => h.step known (step_moved took) met) honest

/-- Whatever servers do that reach each other over sockets, nodes that send each other messages
    can do: every run on the sockets in which users and network are honest is matched by an
    honest run of the network of the nodes, with every node in the state it has in its
    server. -/
theorem socketsRefine (known : Function.Injective fun i => (nodes i).manager.id) {ts}
    (run : Runs nodes book ts w) (honest : ∀ t ∈ ts, HonestUse nodes book t) :
    ∃ ms u, (network nodes).Runs ms u ∧ (∀ t ∈ ms, Honest nodes t) ∧
      ∀ i, u.states i = (w.servers i).watched.node := by
  obtain ⟨ms, u, moves, met, _, _, h⟩ := Runs.refines known run honest
  exact ⟨ms, u, moves, met, h.states⟩

section Small

/-- Alice listens at 1, Bob at 0. -/
def smallBook (party : Bool) : Nat := party.toNat

/-- Alice dials Bob from port 2 and offers him a channel; he answers on the same connection. -/
def smallTalk : List (Act Bool smallCrates Nat) :=
  [.server true (.openChannel ⟨0, smallBob.id⟩ 1256 smallPayer), .server true .submit,
    .dial true 0 false, .dialed 0, .accepted 0 2, .server true (.p2p (.wrote 0 true (.ok ()))),
    .server true .sent, .read 0 false, .server false (.handle ()), .server false .submit,
    .server false (.p2p (.wrote 0 true (.ok ()))), .server false .sent, .read 0 true,
    .server true (.handle ()), .server true .resume]

theorem smallTalk_run : ∃ t rest w mine,
    execReplies (step smallNodes smallBook) init smallTalk = some (t :: rest, w) ∧
    t.pre = init ∧ (t :: rest).map (fun t => t.act.1) = smallTalk ∧
    (w.servers true).watched.node.db.getChannel ⟨7, 0⟩ = some mine ∧ mine.state.Signed :=
  ⟨_, _, _, _, rfl, rfl, rfl, rfl, trivial⟩

/-- Nobody is named in the step, and no channel opened. -/
theorem HonestUse.quiet {t : Step Bool smallCrates Nat}
    (named : ∀ i a, t.act.1 = .server i a → a.named = none)
    (port : ∀ k addr, t.act.1 = .accepted k addr → addr = 2) :
    HonestUse smallNodes smallBook t where
  named := fun act peer => by cases (named _ _ act).symm.trans peer
  accepted := by
    intro k addr link act _ j same
    obtain rfl := port k addr act
    cases j <;> cases same
  peers := fun act => by cases named _ _ act
  pays := fun act => by cases named _ _ act
  fresh := fun act => by cases named _ _ act

theorem smallTalk_honest : ∃ ts w mine, (Runs smallNodes smallBook ts w : Prop) ∧
    (∀ t ∈ ts, HonestUse smallNodes smallBook t) ∧
    (w.servers true).watched.node.db.getChannel ⟨7, 0⟩ = some mine ∧ mine.state.Signed := by
  obtain ⟨t, rest, w, mine, done, first, acts, there, signed⟩ := smallTalk_run
  have run := execReplies_run done
  simp only [smallTalk, List.map_cons, List.cons.injEq] at acts
  obtain ⟨opens, others⟩ := acts
  refine ⟨t :: rest, w, mine, run, ?_, there, signed⟩
  refine List.forall_mem_cons.mpr ⟨?_, fun t' member => ?_⟩
  · constructor
    · rintro i a peer act named
      cases opens.symm.trans act
      obtain rfl := Option.some.inj named
      intro j same
      cases j
      · rfl
      · cases same
    · rintro k addr link act
      cases opens.symm.trans act
    · rintro i peer value wallet act
      cases opens.symm.trans act
      exact ⟨false, by simp, rfl⟩
    · rintro i peer value wallet act
      cases opens.symm.trans act
      exact smallPayer_pays
    · rintro i value wallet descriptor psbt id peer act - - - j
      rw [first]
      rfl
  · have listed := List.mem_map_of_mem (f := fun t => t.act.1) member
    rw [others] at listed
    simp only [List.mem_cons, List.not_mem_nil, or_false] at listed
    apply HonestUse.quiet
    · rintro i a act
      simp only [act, Act.server.injEq, reduceCtorEq, false_or] at listed
      rcases listed with ⟨-, rfl⟩ | ⟨-, rfl⟩ | ⟨-, rfl⟩ | ⟨-, rfl⟩ | ⟨-, rfl⟩ | ⟨-, rfl⟩ |
        ⟨-, rfl⟩ | ⟨-, rfl⟩ | ⟨-, rfl⟩ <;> rfl
    · rintro k addr act
      simp only [act, Act.accepted.injEq, reduceCtorEq, false_or, or_false] at listed
      exact listed.2

theorem socketsRefine_small : ∃ ts w ms u mine,
    (Runs smallNodes smallBook ts w : Prop) ∧ (network smallNodes).Runs ms u ∧
      (∀ t ∈ ms, Honest smallNodes t) ∧ recordAt u true ⟨7, 0⟩ = some mine ∧
      mine.state.Signed := by
  obtain ⟨ts, w, mine, run, honest, there, signed⟩ := smallTalk_honest
  obtain ⟨ms, u, moves, met, states⟩ := socketsRefine smallNodes_known run honest
  exact ⟨ts, w, ms, u, mine, run, moves, met, by rw [recordAt, states]; exact there, signed⟩

end Small

end Sockets

end Lindy
