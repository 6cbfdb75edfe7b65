import Lindy.Server.Sockets

/-! # What goes over the sockets

Every connection of every event loop is one end of a link, of one alone, and leads to the party
at the other end; what was read at one end is the beginning of what was written at the other.
-/

namespace Lindy

open Bitcoin Machine P2p P2p.Runtime

variable {c : Crates} {Addr ι : Type}

/-- The steps of the event loop of each party. -/
abbrev Loops (ι : Type) (c : Crates) (Addr : Type) :=
  ι → List (P2p.Step Addr c.PeerId (Message c))

namespace Sockets

/-- The end of a link on one side, by the number of the link. -/
def endAt (w : Sockets ι c Addr) (p : Nat × Bool) : Option (End ι) :=
  w.links[p.1]?.map fun link => link.ends p.2

/-- The other side. -/
def far (p : Nat × Bool) : Nat × Bool := (p.1, !p.2)

@[simp] theorem far_far (p : Nat × Bool) : far (far p) = p := by simp [far]

theorem far_ne (p : Nat × Bool) : far p ≠ p := by
  obtain ⟨k, side⟩ := p
  simp [far]

/-- What holds of an end and the one it is connected to. -/
structure EndOk (nodes : ι → Node c) (w : Sockets ι c Addr) (us : Loops ι c Addr)
    (mine other : End ι) : Prop where
  made : ∀ {conn}, mine.conn = some conn → conn < (w.servers mine.party).p2p.conns ∧
    peerOf conn (us mine.party) = some (nodes other.party).manager.id
  reads : ∀ {conn}, mine.conn = some conn →
    readOn conn (us mine.party) = (w.written other).take mine.read
  behind : mine.read ≤ (w.written other).length
  idle : mine.conn = none → mine.read = 0

structure Wired (nodes : ι → Node c) (w : Sockets ι c Addr) (us : Loops ι c Addr) : Prop where
  ends : ∀ {p mine other}, w.endAt p = some mine → w.endAt (far p) = some other →
    EndOk nodes w us mine other
  single : ∀ {p p' e e' conn}, w.endAt p = some e → w.endAt p' = some e' →
    e.conn = some conn → e'.conn = some conn → e.party = e'.party → p = p'
  all : ∀ {i conn}, conn < (w.servers i).p2p.conns →
    ∃ p e, w.endAt p = some e ∧ e.party = i ∧ e.conn = some conn

theorem Wired.init {nodes : ι → Node c} :
    Wired nodes (init : Sockets ι c Addr) fun _ => [] where
  ends := by simp [endAt, Sockets.init]
  single := by simp [endAt, Sockets.init]
  all := by simp [Sockets.init, Server.init, Runtime.init]

/-- What an event loop did to its connections. -/
structure Grown (us us' : List (P2p.Step Addr c.PeerId (Message c)))
    (p p' : Runtime Addr c.PeerId (Message c)) : Prop where
  conns : p.conns ≤ p'.conns
  peer : ∀ {conn}, conn < p.conns → peerOf conn us' = peerOf conn us
  sinks : ∀ conn, p.sinks conn <+: p'.sinks conn

theorem Grown.refl (us : List (P2p.Step Addr c.PeerId (Message c)))
    (p : Runtime Addr c.PeerId (Message c)) : Grown us us p p :=
  ⟨Nat.le_refl _, fun _ => rfl, fun _ => List.prefix_rfl⟩

variable {nodes : ι → Node c} {w w' : Sockets ι c Addr} {us us' : Loops ι c Addr}

theorem written_grown (grown : ∀ i, Grown (us i) (us' i) (w.servers i).p2p (w'.servers i).p2p)
    (e : End ι) : w.written e <+: w'.written e := by
  unfold written
  split
  · exact ((grown e.party).sinks _).map Prod.fst
  · exact List.prefix_rfl

/-- An end that has not read since. -/
theorem EndOk.kept {mine other : End ι} (h : EndOk nodes w us mine other)
    (grown : ∀ i, Grown (us i) (us' i) (w.servers i).p2p (w'.servers i).p2p)
    (reads : ∀ {conn}, mine.conn = some conn →
      readOn conn (us' mine.party) = readOn conn (us mine.party)) :
    EndOk nodes w' us' mine other where
  made := by
    intro conn known
    obtain ⟨inside, leads⟩ := h.made known
    exact ⟨Nat.lt_of_lt_of_le inside (grown _).conns, ((grown _).peer inside).trans leads⟩
  reads := by
    intro conn known
    obtain ⟨more, same⟩ := written_grown grown other
    rw [reads known, h.reads known, ← same, List.take_append_of_le_length h.behind]
  behind := Nat.le_trans h.behind (written_grown grown other).length_le
  idle := h.idle

/-- Nothing was read, and no connection made. -/
theorem Wired.kept (h : Wired nodes w us) (links : w'.links = w.links)
    (grown : ∀ i, Grown (us i) (us' i) (w.servers i).p2p (w'.servers i).p2p)
    (conns : ∀ i, (w'.servers i).p2p.conns = (w.servers i).p2p.conns)
    (reads : ∀ i conn, readOn conn (us' i) = readOn conn (us i)) : Wired nodes w' us' := by
  have same : w'.endAt = w.endAt := by
    funext p
    rw [endAt, endAt, links]
  constructor
  · intro p mine other found found'
    rw [same] at found found'
    exact (h.ends found found').kept grown fun _ => reads _ _
  · rw [same]
    exact h.single
  · intro i conn inside
    rw [same]
    exact h.all (conns i ▸ inside)

/-- A dialed link has no connections yet. -/
theorem Wired.dial (h : Wired nodes w us) (attempt : AttemptId) (dialer listener : ι) :
    Wired nodes ⟨w.servers, w.links ++ [.dial attempt dialer listener]⟩ us := by
  have known : ∀ {p e}, endAt ⟨w.servers, w.links ++ [.dial attempt dialer listener]⟩ p = some e →
      w.endAt p = some e ∨ p.1 = w.links.length ∧ e.conn = none ∧ e.read = 0 := by
    intro p e found
    simp only [endAt, List.getElem?_append] at found
    split at found
    · exact .inl found
    · rename_i late
      obtain ⟨link, there, rfl⟩ := Option.map_eq_some_iff.mp found
      obtain ⟨inside, rfl⟩ := List.getElem?_eq_some_iff.mp there
      have last : p.1 - w.links.length = 0 := Nat.lt_one_iff.mp inside
      refine .inr ⟨by omega, ?_, ?_⟩ <;> simp [Link.dial]
  have stays : ∀ {p e}, w.endAt p = some e →
      endAt ⟨w.servers, w.links ++ [.dial attempt dialer listener]⟩ p = some e := by
    intro p e found
    obtain ⟨link, there, rfl⟩ := Option.map_eq_some_iff.mp found
    obtain ⟨inside, -⟩ := List.getElem?_eq_some_iff.mp there
    simp only [endAt, List.getElem?_append_left inside, there, Option.map_some]
  have inside : ∀ {p e}, w.endAt p = some e → p.1 < w.links.length := by
    intro p e found
    obtain ⟨link, there, -⟩ := Option.map_eq_some_iff.mp found
    exact (List.getElem?_eq_some_iff.mp there).1
  constructor
  · intro p mine other found found'
    rcases known found with before | ⟨new, idle, unread⟩
    · rcases known found' with before' | ⟨new, -, -⟩
      · have ok := h.ends before before'
        exact ⟨ok.made, ok.reads, ok.behind, ok.idle⟩
      · exact absurd (inside before) (Nat.not_lt.mpr (Nat.le_of_eq new.symm))
    · refine ⟨?_, ?_, unread ▸ Nat.zero_le _, fun _ => unread⟩ <;>
      · intro conn made
        cases idle.symm.trans made
  · intro p p' e e' conn found found' made made' same
    rcases known found with before | ⟨-, idle, -⟩
    · rcases known found' with before' | ⟨-, idle, -⟩
      · exact h.single before before' made made' same
      · cases idle.symm.trans made'
    · cases idle.symm.trans made
  · intro i conn made
    obtain ⟨p, e, found, rest⟩ := h.all made
    exact ⟨p, e, stays found, rest⟩

section Set

variable {k : Nat} {link : Link ι} {side : Bool} {i : ι}

theorem endAt_of_links (found : w.links[k]? = some link) (side : Bool) :
    w.endAt (k, side) = some (link.ends side) := by
  simp [endAt, found]

/-- One end of a link is replaced. -/
theorem endAt_set {e : End ι} (found : w.links[k]? = some link)
    (links : w'.links = w.links.set k (link.set side e)) (p : Nat × Bool) :
    w'.endAt p = if p = (k, side) then some e else w.endAt p := by
  obtain ⟨k', side'⟩ := p
  simp only [endAt, links, List.getElem?_set, Prod.mk.injEq]
  obtain ⟨inside, value⟩ := List.getElem?_eq_some_iff.mp found
  by_cases here : k' = k
  · subst here
    by_cases same : side' = side
    · subst same
      simp [inside, Link.set]
    · simp [inside, Link.set, same, value]
  · simp [here, Ne.symm here]

/-- One more connection of one event loop. -/
theorem Wired.opened [DecidableEq ι] (h : Wired nodes w us) (found : w.links[k]? = some link)
    (party : (link.ends side).party = i) (new : (link.ends side).conn = none)
    (links : w'.links = w.links.set k (link.opened side (w.servers i).p2p.conns))
    (grown : ∀ i, Grown (us i) (us' i) (w.servers i).p2p (w'.servers i).p2p)
    (conns : ∀ j, (w'.servers j).p2p.conns =
      if j = i then (w.servers i).p2p.conns + 1 else (w.servers j).p2p.conns)
    (leads : peerOf (w.servers i).p2p.conns (us' i) =
      some (nodes (link.ends !side).party).manager.id)
    (unread : readOn (w.servers i).p2p.conns (us i) = [])
    (reads : ∀ i conn, readOn conn (us' i) = readOn conn (us i)) : Wired nodes w' us' := by
  have there := endAt_of_links found side
  have opposite : w.endAt (far (k, side)) = some (link.ends !side) := endAt_of_links found _
  have ends := endAt_set found links
  have mine := h.ends there opposite
  have idle := mine.idle new
  have older : ∀ {p e}, w.endAt p = some e → e.conn = some (w.servers i).p2p.conns →
      e.party ≠ i := by
    rintro ⟨k', side'⟩ e known made rfl
    obtain ⟨link', found', rfl⟩ := Option.map_eq_some_iff.mp known
    have ok := h.ends known (endAt_of_links found' !side')
    exact Nat.lt_irrefl _ (ok.made made).1
  constructor
  · intro p e other known known'
    rw [ends] at known known'
    split at known
    · subst_vars
      obtain rfl := Option.some.inj known
      rw [if_neg (far_ne _), opposite] at known'
      obtain rfl := Option.some.inj known'
      refine ⟨?_, ?_, ?_, ?_⟩
      · intro conn made
        obtain rfl := Option.some.inj made
        refine ⟨?_, leads⟩
        rw [conns, if_pos rfl]
        exact Nat.lt_succ_self _
      · intro conn made
        obtain rfl := Option.some.inj made
        have none : readOn (w.servers (link.ends side).party).p2p.conns
            (us' (link.ends side).party) = [] := (reads _ _).trans unread
        simpa [idle] using none
      · simp [idle]
      · exact fun _ => idle
    · rename_i apart
      split at known'
      · rename_i back
        obtain rfl := Option.some.inj known'
        obtain rfl : p = far (k, side) := by rw [← back, far_far]
        rw [opposite] at known
        obtain rfl := Option.some.inj known
        have ok := h.ends opposite ((far_far (k, side)).symm ▸ there)
        have silent : (link.ends !side).read = 0 := by
          have behind := ok.behind
          simpa [written, new] using behind
        refine ⟨?_, ?_, silent ▸ Nat.zero_le _, fun _ => silent⟩
        · intro conn made
          exact (ok.kept grown fun _ => reads _ _).made made
        · intro conn made
          rw [reads, ok.reads made, silent, List.take_zero, List.take_zero]
      · exact (h.ends known known').kept grown fun _ => reads _ _
  · intro p p' e e' conn known known' made made' same
    rw [ends] at known known'
    split at known <;> split at known'
    · subst_vars
      rfl
    · obtain rfl := Option.some.inj known
      obtain rfl := Option.some.inj made
      exact absurd (same.symm.trans party) (older known' made')
    · obtain rfl := Option.some.inj known'
      obtain rfl := Option.some.inj made'
      exact absurd (same.trans party) (older known made)
    · exact h.single known known' made made' same
  · intro j conn inside
    rw [conns] at inside
    have old : conn < (w.servers j).p2p.conns → ∃ p e, w'.endAt p = some e ∧ e.party = j ∧
        e.conn = some conn := by
      intro before
      obtain ⟨p, e, known, rest⟩ := h.all before
      refine ⟨p, e, ?_, rest⟩
      rw [ends, if_neg, known]
      rintro rfl
      obtain rfl := Option.some.inj (there.symm.trans known)
      cases new.symm.trans rest.2
    split at inside
    · subst_vars
      rcases Nat.lt_succ_iff_lt_or_eq.mp inside with before | rfl
      · exact old before
      · exact ⟨(k, side),
          { link.ends side with conn := some (w.servers (link.ends side).party).p2p.conns },
          by rw [ends, if_pos rfl], rfl, rfl⟩
    · exact old inside

/-- One message is read at one end. -/
theorem Wired.read (h : Wired nodes w us) {conn : ConnId} {message : Message c}
    (found : w.links[k]? = some link) (party : (link.ends side).party = i)
    (made : (link.ends side).conn = some conn)
    (next : (w.written (link.ends !side))[(link.ends side).read]? = some message)
    (links : w'.links = w.links.set k (link.took side))
    (grown : ∀ i, Grown (us i) (us' i) (w.servers i).p2p (w'.servers i).p2p)
    (conns : ∀ i, (w'.servers i).p2p.conns = (w.servers i).p2p.conns)
    (here : readOn conn (us' i) = readOn conn (us i) ++ [message])
    (reads : ∀ j conn', ¬ (j = i ∧ conn' = conn) → readOn conn' (us' j) = readOn conn' (us j)) :
    Wired nodes w' us' := by
  subst party
  have there := endAt_of_links found side
  have opposite : w.endAt (far (k, side)) = some (link.ends !side) := endAt_of_links found _
  have ends := endAt_set found links
  have elsewhere : ∀ {p e conn'}, w.endAt p = some e → p ≠ (k, side) → e.conn = some conn' →
      readOn conn' (us' e.party) = readOn conn' (us e.party) := by
    intro p e conn' known apart made'
    refine reads _ _ ?_
    rintro ⟨same, rfl⟩
    exact apart (h.single known there made' made same)
  constructor
  · intro p e other known known'
    rw [ends] at known known'
    split at known
    · subst_vars
      obtain rfl := Option.some.inj known
      rw [if_neg (far_ne _), opposite] at known'
      obtain rfl := Option.some.inj known'
      have ok := h.ends there opposite
      obtain ⟨inside, value⟩ := List.getElem?_eq_some_iff.mp next
      obtain ⟨more, grew⟩ := written_grown grown (link.ends !side)
      refine ⟨?_, ?_, ?_, fun idle => by cases made.symm.trans idle⟩
      · intro conn' made'
        obtain ⟨before, leads⟩ := ok.made made'
        exact ⟨Nat.lt_of_lt_of_le before (grown _).conns, ((grown _).peer before).trans leads⟩
      · intro conn' made'
        obtain rfl := Option.some.inj (made.symm.trans made')
        have taken : (w'.written (link.ends !side)).take ((link.ends side).read + 1) =
            (w.written (link.ends !side)).take (link.ends side).read ++ [message] := by
          rw [← grew, List.take_append_of_le_length inside,
            List.take_succ_eq_append_getElem inside, value]
        exact here.trans ((ok.reads made).symm ▸ taken.symm)
      · rw [← grew, List.length_append]
        exact Nat.le_add_right_of_le inside
    · rename_i apart
      split at known'
      · rename_i back
        obtain rfl := Option.some.inj known'
        obtain rfl : p = far (k, side) := by rw [← back, far_far]
        rw [opposite] at known
        obtain rfl := Option.some.inj known
        have ok := h.ends opposite ((far_far (k, side)).symm ▸ there)
        have kept := ok.kept grown fun made' => elsewhere opposite (far_ne _) made'
        exact ⟨kept.made, kept.reads, kept.behind, kept.idle⟩
      · exact (h.ends known known').kept grown fun made' => elsewhere known apart made'
  · have conn_same : ∀ {p e}, w'.endAt p = some e → ∃ e', w.endAt p = some e' ∧
        e'.conn = e.conn ∧ e'.party = e.party := by
      intro p e known
      rw [ends] at known
      split at known
      · subst_vars
        obtain rfl := Option.some.inj known
        exact ⟨_, there, rfl, rfl⟩
      · exact ⟨e, known, rfl, rfl⟩
    intro p p' e e' conn' known known' made made' same
    obtain ⟨f, before, conn₁, party₁⟩ := conn_same known
    obtain ⟨f', before', conn₂, party₂⟩ := conn_same known'
    exact h.single before before' (conn₁.trans made) (conn₂.trans made')
      (party₁.trans (same.trans party₂.symm))
  · intro j conn' inside
    obtain ⟨p, e, known, owner, made'⟩ := h.all (conns j ▸ inside)
    by_cases moved : p = (k, side)
    · subst moved
      obtain rfl := Option.some.inj (there.symm.trans known)
      exact ⟨(k, side), { link.ends side with read := (link.ends side).read + 1 },
        by rw [ends, if_pos rfl], owner, made'⟩
    · exact ⟨p, e, by rw [ends, if_neg moved, known], owner, made'⟩

end Set

end Sockets

end Lindy
