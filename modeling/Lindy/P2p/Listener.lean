import Lindy.Machine.Progress
import Lindy.P2p.Conn

/-! # Who the listener lets in

In every run each connection is yielded, refused, awaited or not yet accepted, and what is
yielded is the connection from the byte after the key on. Handshakes are not interleaved and
have no time limit, so one connection can keep all others waiting; nothing else can.
-/

namespace Lindy.P2p

open Machine

variable {Addr Key : Type}

namespace Listener

variable {keys : KeyBytes Key} {s s' : Listener Addr Key} {a : Act Addr}

/-- How a connection of the listener stands. -/
inductive Placed (keys : KeyBytes Key) (s : Listener Addr Key) (conn : ConnId)
    (socket : Socket Addr) : Prop where
  | waits (later : s.accepted ≤ conn) (untouched : socket.read = 0)
  | shakes {xonly} (now : s.handshake = some (conn, xonly))
      (part : xonly = socket.arrived.take socket.read) (size : xonly.length = socket.read)
      (short : socket.read < 32)
  | passed {peer} (inside : (peer, conn) ∈ s.passed) (introduced : socket.Introduced keys peer)
  | refused (before : conn < s.accepted) (ceased : ∀ xonly, s.handshake ≠ some (conn, xonly))
      (apart : ∀ item ∈ s.passed, item.2 ≠ conn) (why : socket.Refused keys)

/-- Connections are yielded in the order they were accepted, and each one that was accepted is
    yielded, was refused for a reason of its own, or is the one whose handshake is awaited. -/
structure Sound (keys : KeyBytes Key) (s : Listener Addr Key) : Prop where
  within : s.accepted ≤ s.sockets.length
  order : (s.passed.map Prod.snd).Pairwise (· < ·)
  earlier : ∀ item ∈ s.passed, item.2 < s.accepted
  current : ∀ conn xonly, s.handshake = some (conn, xonly) →
    s.accepted = conn + 1 ∧ s.buffered = none ∧ ∀ item ∈ s.passed, item.2 < conn
  placed : ∀ conn socket, s.sockets[conn]? = some socket → Placed keys s conn socket

theorem Placed.grows {conn : ConnId} {socket socket' : Socket Addr}
    (placed : Placed keys s conn socket) (grows : socket.Grows socket') :
    Placed keys s conn socket' := by
  cases placed with
  | waits later untouched => exact .waits later (grows.read.trans untouched)
  | @shakes xonly now part size short =>
      have inside : socket.read ≤ socket.arrived.length := by
        rw [← size, part, List.length_take]
        exact Nat.min_le_right _ _
      refine .shakes now ?_ (size.trans grows.read.symm) (grows.read ▸ short)
      rw [part, grows.read, grows.take_eq inside]
  | passed inside introduced => exact .passed inside (introduced.grows grows)
  | refused before ceased apart why => exact .refused before ceased apart (why.grows grows)

/-- What is known of every connection stays known when one of them changes. -/
theorem forall_set {P : ConnId → Socket Addr → Prop} {sockets : List (Socket Addr)}
    {conn : ConnId} {socket : Socket Addr}
    (others : ∀ other socket', sockets[other]? = some socket' → other ≠ conn → P other socket')
    (this : P conn socket) :
    ∀ other socket', (sockets.set conn socket)[other]? = some socket' → P other socket' := by
  intro other socket' found
  rw [List.getElem?_set] at found
  split at found
  · rename_i same
    obtain ⟨-, here⟩ := Option.ite_none_right_eq_some.mp found
    exact same ▸ Option.some.inj here ▸ this
  · rename_i apart
    exact others other socket' found (Ne.symm apart)

/-- What was read so far is what arrived first. -/
theorem Sound.reads (h : Sound keys s) {size : Nat} {conn : ConnId} {socket : Socket Addr}
    {xonly : List UInt8} (reads : s.Reads size conn socket xonly) :
    xonly = socket.arrived.take xonly.length ∧ xonly.length ≤ 32 ∧
      xonly.length ≤ socket.arrived.length ∧ ∃ before, s.handshake = some (conn, before) ∧
        before.length < xonly.length := by
  obtain ⟨found, before, piece, now, some_, next, rfl⟩ := reads
  cases h.placed conn socket found with
  | waits later => exact absurd later (by have := (h.current conn before now).1; omega)
  | refused _ ceased => exact absurd now (ceased before)
  | passed inside => exact absurd ((h.current conn before now).2.2 _ inside) (Nat.lt_irrefl _)
  | @shakes xonly now' part length short =>
      obtain rfl : before = xonly := by
        rw [now] at now'
        exact (Prod.mk.inj (Option.some.inj now')).2
      have taken : before ++ piece =
          socket.arrived.take (before.length + min size (32 - before.length)) := by
        rw [List.take_add, next, length, ← part, Socket.unread]
      have bound : 0 < piece.length := List.length_pos_iff.mpr some_
      have fits : piece.length ≤ min size (32 - before.length) := by
        rw [next]
        exact List.length_take_le _ _
      have whole := congrArg List.length taken
      rw [List.length_append, List.length_take] at whole
      rw [List.length_append]
      refine ⟨?_, by omega, by omega, before, now, by omega⟩
      rw [taken, List.take_eq_take_iff]
      omega

/-- A connection that a step does not touch stands as before. -/
theorem Placed.elsewhere {conn : ConnId} {socket : Socket Addr}
    (placed : Placed keys s conn socket)
    (later : s.accepted ≤ conn → s'.accepted ≤ conn) (grown : s.accepted ≤ s'.accepted)
    (shakes : ∀ xonly, s'.handshake = some (conn, xonly) ↔ s.handshake = some (conn, xonly))
    (passed : ∀ item, item.2 = conn → (item ∈ s'.passed ↔ item ∈ s.passed)) :
    Placed keys s' conn socket := by
  cases placed with
  | waits later' untouched => exact .waits (later later') untouched
  | shakes now part size short => exact .shakes ((shakes _).mpr now) part size short
  | passed inside introduced => exact .passed ((passed _ rfl).mpr inside) introduced
  | refused before ceased apart why =>
      refine .refused (before.trans_le grown) ?_ ?_ why
      · exact fun xonly now => ceased xonly ((shakes xonly).mp now)
      · exact fun item inside same => apart item ((passed item same).mp inside) same

theorem polled_iff : s.polled = true ↔ s.handshake = none ∧ s.buffered = none := by
  simp [polled]

namespace Sound

theorem init : Sound keys (Listener.init : Listener Addr Key) where
  within := Nat.le_refl _
  order := .nil
  earlier := by simp [Listener.init, Listener.passed]
  current := by simp [Listener.init]
  placed := by simp [Listener.init]

theorem skips (h : Sound keys s) (idle : s.polled = true) {socket socket' : Socket Addr}
    (found : s.sockets[s.accepted]? = some socket) (gone : socket'.lost.isSome) :
    Sound keys { s with sockets := s.sockets.set s.accepted socket'
                        accepted := s.accepted + 1 } where
  within := by
    rw [List.length_set]
    exact (List.getElem?_eq_some_iff.mp found).1
  order := h.order
  earlier := fun item inside => Nat.lt_succ_of_lt (h.earlier item inside)
  current := fun conn xonly now => by
    rw [(polled_iff.mp idle).1] at now
    cases now
  placed := by
    refine forall_set (fun other socket'' found' apart => ?_) ?_
    · exact (h.placed other socket'' found').elsewhere
        (fun later => Nat.lt_of_le_of_ne later (Ne.symm apart)) (Nat.le_succ _)
        (fun _ => Iff.rfl) fun _ _ => Iff.rfl
    · refine .refused (Nat.lt_succ_self _) ?_ ?_ (.lost gone)
      · intro xonly now
        rw [(polled_iff.mp idle).1] at now
        cases now
      · exact fun item inside => Nat.ne_of_lt (h.earlier item inside)

theorem accepts (h : Sound keys s) (idle : s.polled = true) {socket : Socket Addr}
    (found : s.sockets[s.accepted]? = some socket) :
    Sound keys { s with accepted := s.accepted + 1, handshake := some (s.accepted, []) } where
  within := (List.getElem?_eq_some_iff.mp found).1
  order := h.order
  earlier := fun item inside => Nat.lt_succ_of_lt (h.earlier item inside)
  current := fun conn xonly now => by
    obtain ⟨rfl, -⟩ := Prod.mk.inj (Option.some.inj now)
    exact ⟨rfl, (polled_iff.mp idle).2, h.earlier⟩
  placed := by
    intro conn other found'
    by_cases same : conn = s.accepted
    · subst same
      obtain rfl := Option.some.inj (found.symm.trans found')
      have untouched : socket.read = 0 := by
        cases h.placed _ _ found with
        | waits _ untouched => exact untouched
        | shakes now => simp [(polled_iff.mp idle).1] at now
        | passed inside => exact absurd (h.earlier _ inside) (Nat.lt_irrefl _)
        | refused before => exact absurd before (Nat.lt_irrefl _)
      exact .shakes rfl (by rw [untouched, List.take_zero]) untouched.symm (by omega)
    · refine (h.placed conn other found').elsewhere
        (fun later => Nat.lt_of_le_of_ne later (Ne.symm same)) (Nat.le_succ _)
        (fun xonly => ?_) fun _ _ => Iff.rfl
      simp [(polled_iff.mp idle).1, Ne.symm same]

/-- The handshake is over, one way or the other, or reads on. -/
theorem leaves (h : Sound keys s) {conn : ConnId} {before : List UInt8}
    (now : s.handshake = some (conn, before)) {socket : Socket Addr} {read : Nat}
    (found : s.sockets[conn]? = some socket) {s' : Listener Addr Key}
    (sockets : s'.sockets = s.readTo conn socket read) (accepted : s'.accepted = s.accepted)
    (events : s'.events = s.events)
    (current : ∀ other xonly, s'.handshake = some (other, xonly) → other = conn)
    (buffered : ∀ item, s'.buffered = some item → item.2 = conn ∧ s'.handshake = none)
    (placed : Placed keys s' conn { socket with read }) : Sound keys s' := by
  obtain ⟨last, empty, latest⟩ := h.current conn before now
  have whole : s.passed = s.events := by simp [Listener.passed, empty]
  have inside : ∀ item ∈ s'.passed, item ∈ s.passed ∨ item.2 = conn := by
    intro item member
    rw [Listener.passed, events] at member
    rcases List.mem_append.mp member with early | new
    · exact .inl (whole ▸ early)
    · exact .inr (buffered item (Option.mem_toList.mp new)).1
  constructor
  · rw [accepted, sockets, readTo, List.length_set]
    exact h.within
  · rw [Listener.passed, events, List.map_append, List.pairwise_append]
    refine ⟨whole ▸ h.order, ?_, ?_⟩
    · cases s'.buffered <;> simp
    · intro earlier member later member'
      obtain ⟨item, early, rfl⟩ := List.mem_map.mp member
      obtain ⟨item', new, rfl⟩ := List.mem_map.mp member'
      rw [(buffered item' (Option.mem_toList.mp new)).1]
      exact latest item (whole ▸ early)
  · intro item member
    rcases inside item member with early | here
    · exact accepted ▸ h.earlier item early
    · rw [here, accepted, last]
      exact Nat.lt_succ_self _
  · intro other xonly there
    obtain rfl := current other xonly there
    have nothing : s'.buffered = none := by
      cases hold : s'.buffered with
      | none => rfl
      | some item =>
          rw [(buffered item hold).2] at there
          cases there
    refine ⟨accepted.trans last, nothing, ?_⟩
    rw [Listener.passed, nothing, events, ← empty]
    exact latest
  · rw [sockets]
    refine forall_set (fun other socket' found' apart => ?_) placed
    refine (h.placed other socket' found').elsewhere (fun later => accepted ▸ later)
      (Nat.le_of_eq accepted.symm) (fun xonly => ?_) fun item same => ?_
    · constructor
      · exact fun there => absurd (current other xonly there) apart
      · intro there
        rw [now] at there
        exact absurd (Prod.mk.inj (Option.some.inj there)).1.symm apart
    · constructor
      · intro member
        rcases inside item member with early | here
        · exact early
        · exact absurd (same.symm.trans here) apart
      · intro early
        rw [Listener.passed, events]
        exact List.mem_append_left _ (whole ▸ early)

theorem forwards (h : Sound keys s) {item : Peer Addr Key × ConnId}
    (next : s.buffered = some item) :
    Sound keys { s with buffered := none, events := s.events ++ [item] } := by
  have same : ({ s with buffered := none, events := s.events ++ [item] } :
      Listener Addr Key).passed = s.passed := by simp [Listener.passed, next]
  constructor
  · exact h.within
  · exact same.symm ▸ h.order
  · exact same.symm ▸ h.earlier
  · intro conn xonly now
    obtain ⟨-, empty, -⟩ := h.current conn xonly now
    rw [next] at empty
    cases empty
  · intro conn socket found
    exact (h.placed conn socket found).elsewhere id (Nat.le_refl _) (fun _ => Iff.rfl)
      fun item _ => by rw [same]

theorem connects (h : Sound keys s) (addr : Addr) :
    Sound keys { s with sockets := s.sockets ++ [⟨addr, [], 0, none, none⟩] } where
  within := h.within.trans (by simp)
  order := h.order
  earlier := h.earlier
  current := h.current
  placed := by
    intro conn socket found
    rw [List.getElem?_append] at found
    split at found
    · exact (h.placed conn socket found).elsewhere id (Nat.le_refl _) (fun _ => Iff.rfl)
        fun _ _ => Iff.rfl
    · rename_i late
      obtain rfl := List.mem_singleton.mp (List.mem_of_getElem? found)
      exact .waits (h.within.trans (Nat.not_lt.mp late)) rfl

theorem outside (h : Sound keys s) {conn : ConnId} {socket socket' : Socket Addr}
    (found : s.sockets[conn]? = some socket) (grows : socket.Grows socket') :
    Sound keys { s with sockets := s.sockets.set conn socket' } where
  within := by
    rw [List.length_set]
    exact h.within
  order := h.order
  earlier := h.earlier
  current := h.current
  placed := by
    refine forall_set (fun other socket'' found' _ => ?_) ?_
    · exact (h.placed other socket'' found').elsewhere id (Nat.le_refl _) (fun _ => Iff.rfl)
        fun _ _ => Iff.rfl
    · exact ((h.placed conn socket found).grows grows).elsewhere id (Nat.le_refl _)
        (fun _ => Iff.rfl) fun _ _ => Iff.rfl

theorem step (h : Sound keys s) (took : s.step keys a = some s') : Sound keys s' := by
  cases step_moved took with
  | connects => exact h.connects _
  | outside _ found grows => exact h.outside found grows
  | fails => exact h
  | skips idle found _ gone _ => exact h.skips idle found gone
  | accepts idle found => exact h.accepts idle found
  | forwards next => exact h.forwards next
  | @reads _ conn socket xonly reads short =>
      obtain ⟨part, -, fits, before, now, -⟩ := h.reads reads
      refine h.leaves now reads.found rfl rfl rfl ?_ ?_ (.shakes rfl part rfl short)
      · exact fun other xonly' there => (Prod.mk.inj (Option.some.inj there)).1.symm
      · intro item there
        rw [(h.current conn before now).2.1] at there
        cases there
  | @introduces _ conn socket xonly peer reads full key addr =>
      obtain ⟨part, small, fits, before, now, -⟩ := h.reads reads
      have exact32 : xonly.length = 32 := by omega
      refine h.leaves now reads.found rfl rfl rfl (by simp) ?_ ?_
      · intro item there
        obtain rfl := Option.some.inj there
        exact ⟨rfl, rfl⟩
      · refine .passed (by simp [Listener.passed]) ⟨addr, exact32 ▸ fits, ?_, exact32⟩
        rw [exact32] at part
        exact part ▸ key
  | @refuses _ conn socket xonly reads full bad =>
      obtain ⟨part, small, fits, before, now, -⟩ := h.reads reads
      obtain ⟨last, empty, latest⟩ := h.current conn before now
      have exact32 : xonly.length = 32 := by omega
      have noItem : ∀ item, s.buffered ≠ some item := by simp [empty]
      refine h.leaves now reads.found rfl rfl rfl (by simp)
        (fun item there => absurd there (noItem item)) ?_
      refine .refused (last ▸ Nat.lt_succ_self _) (by simp)
        (fun item inside => Nat.ne_of_lt (latest item inside)) (Socket.Refused.read ?_ _)
      rcases bad with bad | gone
      · rw [part, exact32] at bad
        exact .invalidKey (exact32 ▸ fits) bad
      · exact .lost gone
  | @breaks _ conn socket xonly now found ceased nothing =>
      obtain ⟨last, empty, latest⟩ := h.current conn xonly now
      have noItem : ∀ item, s.buffered ≠ some item := by simp [empty]
      have same : s.sockets = s.readTo conn socket socket.read := by
        obtain ⟨inside, rfl⟩ := List.getElem?_eq_some_iff.mp found
        exact (List.set_getElem_self inside).symm
      refine h.leaves now found same rfl rfl (by simp)
        (fun item there => absurd there (noItem item)) ?_
      refine .refused (last ▸ Nat.lt_succ_self _) (by simp)
        (fun item inside => Nat.ne_of_lt (latest item inside)) ?_
      cases h.placed conn socket found with
      | waits later => omega
      | passed inside => exact absurd (latest _ inside) (Nat.lt_irrefl _)
      | refused _ apart => exact absurd now (apart xonly)
      | shakes _ part size short =>
          refine .short ceased ((List.drop_eq_nil_iff.mp nothing).trans_lt short)

end Sound

theorem Runs.sound {ts : List (Transition (Listener Addr Key) (Act Addr))}
    (run : Runs keys ts s) : Sound keys s :=
  run.always .init fun _ _ _ h took => h.step took

/-- Nothing that arrived on a connection is taken back. -/
theorem step_later (took : s.step keys a = some s') {conn : ConnId} {socket : Socket Addr}
    (found : s.sockets[conn]? = some socket) :
    ∃ socket', s'.sockets[conn]? = some socket' ∧ socket.Later socket' := by
  have changed : ∀ other new old, s.sockets[other]? = some old → old.Later new →
      ∃ socket', (s.sockets.set other new)[conn]? = some socket' ∧ socket.Later socket' := by
    intro other new old there later
    by_cases same : other = conn
    · subst same
      obtain rfl := Option.some.inj (there.symm.trans found)
      exact ⟨new, List.getElem?_set_self (List.getElem?_eq_some_iff.mp found).1, later⟩
    · exact ⟨socket, (List.getElem?_set_ne same).trans found, .refl socket⟩
  cases step_moved took with
  | connects =>
      refine ⟨socket, ?_, .refl socket⟩
      rw [List.getElem?_append_left (List.getElem?_eq_some_iff.mp found).1, found]
  | outside _ there grows => exact changed _ _ _ there grows.later
  | skips _ there grows => exact changed _ _ _ there grows.later
  | reads reads => exact changed _ _ _ reads.found (.refl _)
  | introduces reads => exact changed _ _ _ reads.found (.refl _)
  | refuses reads => exact changed _ _ _ reads.found (.refl _)
  | fails | accepts | breaks | forwards => exact ⟨socket, found, .refl socket⟩

theorem run_later {us : List (Transition (Listener Addr Key) (Act Addr))}
    (run : RunsOn keys s us s') {conn : ConnId} {socket : Socket Addr}
    (found : s.sockets[conn]? = some socket) :
    ∃ socket', s'.sockets[conn]? = some socket' ∧ socket.Later socket' := by
  induction run with
  | nil => exact ⟨socket, found, .refl socket⟩
  | snoc _ took ih =>
      obtain ⟨middle, there, first⟩ := ih
      obtain ⟨socket', found', second⟩ := step_later took there
      exact ⟨socket', found', first.trans second⟩

/-- While the other end of a handshake has sent less than a key, and stays, a step does nothing
    else. -/
theorem Sound.stalls (h : Sound keys s) (took : s.step keys a = some s') {conn : ConnId}
    (now : ∃ xonly, s.handshake = some (conn, xonly)) {socket : Socket Addr}
    (found : s.sockets[conn]? = some socket) (few : socket.arrived.length < 32)
    (going : socket.ended = none) : (∃ xonly, s'.handshake = some (conn, xonly)) ∧
      s'.accepted = s.accepted ∧ s'.passed = s.passed := by
  obtain ⟨xonly, now⟩ := now
  obtain ⟨-, empty, -⟩ := h.current conn xonly now
  have busy : s.polled ≠ true := fun idle => by simp [(polled_iff.mp idle).1] at now
  have mine : ∀ {size other socket' bytes}, s.Reads size other socket' bytes →
      other = conn ∧ bytes.length < 32 := by
    intro size other socket' bytes reads
    obtain ⟨-, -, fits, before, now', -⟩ := h.reads reads
    rw [now] at now'
    obtain ⟨rfl, -⟩ := Prod.mk.inj (Option.some.inj now')
    obtain rfl := Option.some.inj (found.symm.trans reads.found)
    exact ⟨rfl, fits.trans_lt few⟩
  cases step_moved took with
  | connects | outside | fails => exact ⟨⟨xonly, now⟩, rfl, rfl⟩
  | skips idle | accepts idle => exact absurd idle busy
  | @reads _ other _ bytes reads =>
      obtain ⟨rfl, -⟩ := mine reads
      exact ⟨⟨bytes, rfl⟩, rfl, rfl⟩
  | introduces reads full | refuses reads full => exact absurd (mine reads).2 (Nat.not_lt.mpr full)
  | breaks now' found' ceased =>
      rw [now] at now'
      obtain ⟨rfl, -⟩ := Prod.mk.inj (Option.some.inj now')
      obtain rfl := Option.some.inj (found.symm.trans found')
      simp [going] at ceased
  | forwards next => simp [empty] at next

/-- One connection whose other end says nothing keeps all others waiting. -/
theorem Sound.blocked (h : Sound keys s) {conn : ConnId}
    (now : ∃ xonly, s.handshake = some (conn, xonly))
    {us : List (Transition (Listener Addr Key) (Act Addr))} (run : RunsOn keys s us s')
    {socket' : Socket Addr} (found' : s'.sockets[conn]? = some socket')
    (few : socket'.arrived.length < 32) (going : socket'.ended = none) :
    (∃ xonly, s'.handshake = some (conn, xonly)) ∧ s'.accepted = s.accepted ∧
      s'.passed = s.passed := by
  obtain ⟨xonly, there⟩ := now
  have inside : conn < s.sockets.length :=
    (Nat.lt_succ_self conn).trans_le ((h.current conn xonly there).1.symm.trans_le h.within)
  have found := List.getElem?_eq_getElem inside
  induction run generalizing socket' with
  | nil => exact ⟨⟨xonly, there⟩, rfl, rfl⟩
  | @snoc us u a u' run took ih =>
      obtain ⟨socket, atU, -⟩ := run_later run found
      obtain ⟨same, there', later⟩ := step_later took atU
      obtain rfl := Option.some.inj (found'.symm.trans there')
      have few' := later.arrived.length_le.trans_lt few
      have going' : socket.ended = none := by
        cases ceased : socket.ended with
        | none => rfl
        | some ending =>
            have ended := (later.ended (by rw [ceased]; rfl)).1
            simp [going] at ended
      obtain ⟨shakes, accepted, passed⟩ := ih atU few' going'
      have sound : Sound keys u := run.always h fun _ _ _ h took => h.step took
      obtain ⟨shakes', accepted', passed'⟩ := sound.stalls took shakes atU few' going'
      exact ⟨shakes', accepted'.trans accepted, passed'.trans passed⟩

/-- What the listener has left to do. -/
def work (s : Listener Addr Key) : Nat :=
  100 * (s.sockets.length - s.accepted) + s.handshake.elim 0 (fun now => 66 - now.2.length) +
    s.buffered.elim 0 fun _ => 1

/-- Whatever the listener does by itself, there is less left to do. -/
theorem Sound.work_lt (h : Sound keys s) (took : s.step keys a = some s') (own : a.Own) :
    s'.work < s.work := by
  have next : ∀ {socket}, s.sockets[s.accepted]? = some socket →
      s.accepted < s.sockets.length := fun found => (List.getElem?_eq_some_iff.mp found).1
  cases step_moved took with
  | connects | fails => exact absurd own id
  | outside foreign => exact absurd own foreign
  | skips idle found =>
      have inside := next found
      simp only [work, List.length_set]
      omega
  | accepts idle found =>
      have inside := next found
      simp only [work, (polled_iff.mp idle).1, Option.elim_some, Option.elim_none,
        List.length_nil]
      omega
  | reads reads short =>
      obtain ⟨-, -, -, before, now, longer⟩ := h.reads reads
      simp only [work, readTo, List.length_set, now, Option.elim_some]
      omega
  | introduces reads full =>
      obtain ⟨-, small, -, before, now, longer⟩ := h.reads reads
      have empty := (h.current _ _ now).2.1
      simp only [work, readTo, List.length_set, now, empty, Option.elim_some, Option.elim_none]
      omega
  | refuses reads full =>
      obtain ⟨-, small, -, before, now, longer⟩ := h.reads reads
      simp only [work, readTo, List.length_set, now, Option.elim_some, Option.elim_none]
      omega
  | @breaks _ conn socket xonly now found =>
      have short : xonly.length < 66 := by
        cases h.placed _ _ found with
        | waits later => exact absurd later (by have := (h.current _ _ now).1; omega)
        | passed inside => exact absurd ((h.current _ _ now).2.2 _ inside) (Nat.lt_irrefl _)
        | refused _ apart => exact absurd now (apart _)
        | shakes now' _ size short =>
            rw [now] at now'
            obtain ⟨-, rfl⟩ := Prod.mk.inj (Option.some.inj now')
            omega
      simp only [work, now, Option.elim_some, Option.elim_none]
      omega
  | forwards next =>
      simp only [work, next, Option.elim_some, Option.elim_none]
      omega

/-- A key arrived on every connection, or all that ever will. -/
def Decided (s : Listener Addr Key) : Prop :=
  ∀ socket ∈ s.sockets, 32 ≤ socket.arrived.length ∨ socket.ended.isSome

/-- Everyone who came was looked at. -/
def Idle (s : Listener Addr Key) : Prop :=
  s.accepted = s.sockets.length ∧ s.handshake = none ∧ s.buffered = none

/-- The connections as their other ends left them. -/
def given (s : Listener Addr Key) : List (Socket Addr) :=
  s.sockets.map fun socket => { socket with read := 0 }

theorem Decided.of_given (decided : s.Decided) (same : s'.given = s.given) : s'.Decided := by
  intro socket' inside
  have inside' : { socket' with read := 0 } ∈ s.given :=
    same ▸ List.mem_map_of_mem (f := fun socket : Socket Addr => { socket with read := 0 }) inside
  obtain ⟨socket, member, equal⟩ := List.mem_map.mp inside'
  obtain ⟨-, arrived, -, ended, -⟩ := Socket.mk.inj equal
  exact arrived ▸ ended ▸ decided socket member

/-- Of a connection the listener changes nothing but how much of it was read. -/
theorem own_given (took : s.step keys a = some s') (own : a.Own) : s'.given = s.given := by
  have kept : ∀ {conn : ConnId} {socket : Socket Addr} (read : Nat),
      s.sockets[conn]? = some socket →
        (s.readTo conn socket read).map (fun socket => { socket with read := 0 }) =
          s.given := by
    intro conn socket read found
    obtain ⟨inside, rfl⟩ := List.getElem?_eq_some_iff.mp found
    rw [readTo, List.map_set, given]
    refine List.ext_getElem (by simp) fun i _ _ => ?_
    simp only [List.getElem_set, List.getElem_map]
    split
    · rename_i same
      subst same
      rfl
    · rfl
  cases step_moved took with
  | connects | fails => exact absurd own id
  | outside foreign => exact absurd own foreign
  | skips _ found _ _ same =>
      obtain rfl := same own
      obtain ⟨inside, rfl⟩ := List.getElem?_eq_some_iff.mp found
      simp only [given, List.set_getElem_self]
  | reads reads => exact kept _ reads.found
  | introduces reads => exact kept _ reads.found
  | refuses reads => exact kept _ reads.found
  | accepts | breaks | forwards => rfl

/-- A handshake that is decided can be read on. -/
theorem Sound.reads_on (h : Sound keys s) {conn : ConnId} {xonly : List UInt8}
    (now : s.handshake = some (conn, xonly)) (decided : s.Decided) :
    ∃ s', s.step keys (.read 32) = some s' := by
  obtain ⟨last, -, latest⟩ := h.current conn xonly now
  have inside : conn < s.sockets.length :=
    (Nat.lt_succ_self conn).trans_le (last.symm.trans_le h.within)
  have found := List.getElem?_eq_getElem inside
  generalize s.sockets[conn] = socket at found
  have short : socket.read < 32 ∧ xonly.length = socket.read := by
    cases h.placed conn socket found with
    | waits later => exact absurd later (by omega)
    | passed member => exact absurd (latest _ member) (Nat.lt_irrefl _)
    | refused _ apart => exact absurd now (apart xonly)
    | shakes now' _ size short =>
        rw [now] at now'
        obtain ⟨-, rfl⟩ := Prod.mk.inj (Option.some.inj now')
        exact ⟨short, size⟩
  have answers : ∃ result, socket.readExact xonly 32 = some result := by
    unfold Socket.readExact
    cases unread : socket.unread with
    | nil =>
        have few := List.drop_eq_nil_iff.mp unread
        have ceased : socket.ended.isSome :=
          (decided socket (List.mem_of_getElem? found)).resolve_left (by omega)
        obtain ⟨ending, ceased⟩ := Option.isSome_iff_exists.mp ceased
        rw [ceased]
        cases ending with
        | eof | ioError => exact ⟨_, rfl⟩
    | cons byte bytes =>
        have some_ : (byte :: bytes).take (min 32 (32 - xonly.length)) ≠ [] := by
          simp
          omega
        exact ⟨_, if_neg some_⟩
  obtain ⟨result, done⟩ := answers
  cases result with
  | ok bytes =>
      exact ⟨s.filled keys conn socket bytes,
        by simp [Listener.step, Listener.read, now, found, done]⟩
  | error kind =>
      exact ⟨{ s with handshake := none },
        by simp [Listener.step, Listener.read, now, found, done]⟩

/-- Unless everyone was looked at, the listener can go on. -/
theorem Sound.goes_on (h : Sound keys s) (decided : s.Decided) (left : ¬ s.Idle) :
    ∃ a s', s.step keys a = some s' ∧ a.Own := by
  cases hold : s.buffered with
  | some item =>
      exact ⟨.forward, { s with buffered := none, events := s.events ++ [item] },
        by simp [Listener.step, forward, hold], trivial⟩
  | none =>
      cases now : s.handshake with
      | some handshake =>
          obtain ⟨s', took⟩ := h.reads_on now decided
          exact ⟨_, s', took, trivial⟩
      | none =>
          have inside : s.accepted < s.sockets.length :=
            Nat.lt_of_le_of_ne h.within fun all => left ⟨all, now, hold⟩
          have found := List.getElem?_eq_getElem inside
          generalize s.sockets[s.accepted] = socket at found
          have idle : s.polled = true := polled_iff.mpr ⟨now, hold⟩
          cases named : socket.peerAddr with
          | ok =>
              exact ⟨.accept, { s with accepted := s.accepted + 1
                                       handshake := some (s.accepted, []) },
                by simp [Listener.step, Listener.accept, idle, found, named], trivial⟩
          | error =>
              exact ⟨.accept, { s with accepted := s.accepted + 1 },
                by simp [Listener.step, Listener.accept, idle, found, named], trivial⟩

/-- Once every connection is decided the listener alone gets through all of them. -/
theorem Sound.finishes (h : Sound keys s) (decided : s.Decided) :
    Leads (fun s a s' => Listener.step keys s a = some s') Act.Own
      (fun s' => s'.Idle ∧ s'.given = s.given ∧ Sound keys s') s := by
  refine Leads.descend (I := fun u => u.given = s.given ∧ Sound keys u) work ?_ ⟨rfl, h⟩
  rintro u ⟨same, sound⟩ left
  have busy : ¬ u.Idle := fun idle => left ⟨idle, same, sound⟩
  obtain ⟨a, u', took, own⟩ := sound.goes_on (decided.of_given same) busy
  exact ⟨a, u', took, own, ⟨(own_given took own).trans same, sound.step took⟩,
    sound.work_lt took own⟩

/-- What became of a connection the listener is done with. -/
theorem Sound.outcome (h : Sound keys s) {conn : ConnId} (before : conn < s.accepted)
    (ceased : ∀ xonly, s.handshake ≠ some (conn, xonly)) :
    ∃ socket, s.sockets[conn]? = some socket ∧
      ((∃ peer, (peer, conn) ∈ s.passed ∧ socket.Introduced keys peer) ∨
        (∀ item ∈ s.passed, item.2 ≠ conn) ∧ socket.Refused keys) := by
  have found := List.getElem?_eq_getElem (before.trans_le h.within)
  refine ⟨_, found, ?_⟩
  cases h.placed conn _ found with
  | waits later => exact absurd before (Nat.not_lt.mpr later)
  | shakes now => exact absurd now (ceased _)
  | passed inside introduced => exact .inl ⟨_, inside, introduced⟩
  | refused _ _ apart why => exact .inr ⟨apart, why⟩

end Listener

/-- Whoever wrote the key of a connector and then messages is known by that key, and read from
    the first message on. -/
theorem Socket.Introduced.messages {keys : KeyBytes Key} {socket : Socket Addr}
    {peer : Peer Addr Key} (introduced : socket.Introduced keys peer) (lawful : keys.Lawful)
    {key : Key} {bytes : List UInt8} (arrived : socket.arrived = keys.asBytes key ++ bytes) :
    peer.id = key ∧ socket.unread = bytes := by
  have size := lawful.size key
  constructor
  · have known := introduced.key
    rw [arrived, ← size, List.take_left, lawful.back] at known
    exact (Option.some.inj known).symm
  · rw [Socket.unread, arrived, introduced.start, ← size, List.drop_left]

namespace Listener

/-- A connection that sent a full key is not refused, unless its other end is lost. -/
theorem refused_lost {keys : KeyBytes Key} {socket : Socket Addr} (lawful : keys.Lawful)
    {key : Key} {bytes : List UInt8} (arrived : socket.arrived = keys.asBytes key ++ bytes)
    (refused : socket.Refused keys) : socket.lost.isSome := by
  have size := lawful.size key
  cases refused with
  | lost gone => exact gone
  | short ceased few =>
      rw [arrived, List.length_append] at few
      omega
  | invalidKey full bad =>
      rw [arrived, ← size, List.take_left, lawful.back] at bad
      cases bad

/-- In every run of the listener, whatever arrives on its connections and when: connections are
    yielded in the order they were accepted, and one that was accepted is yielded under the key
    its first 32 bytes are, or was refused for a reason of its own, or is the one that shakes
    hands. A connection that stays with less than a key keeps all others waiting for as long as
    it does; when there is none of these the listener alone gets through all of them. What a
    connector that connected writes is yielded under its own key, and of the messages written
    after it the event loop is sent each one. -/
theorem listensInOrder (keys : KeyBytes Key) (lawful : keys.Lawful)
    {ts : List (Transition (Listener Addr Key) (Act Addr))} {s : Listener Addr Key}
    (run : Runs keys ts s) :
    (s.passed.map Prod.snd).Pairwise (· < ·) ∧ (∀ item ∈ s.passed, item.2 < s.accepted) ∧
    (∀ conn < s.accepted, (∀ xonly, s.handshake ≠ some (conn, xonly)) →
      ∃ socket, s.sockets[conn]? = some socket ∧
        ((∃ peer, (peer, conn) ∈ s.passed ∧ socket.Introduced keys peer) ∨
          (∀ item ∈ s.passed, item.2 ≠ conn) ∧ socket.Refused keys)) ∧
    (∀ conn xonly, s.handshake = some (conn, xonly) → ∀ us s', RunsOn keys s us s' →
      (∃ socket, s'.sockets[conn]? = some socket ∧ socket.arrived.length < 32 ∧
        socket.ended = none) →
      s'.accepted = conn + 1 ∧ s'.passed = s.passed) ∧
    (s.Decided → Leads (fun s a s' => step keys s a = some s') Act.Own
      (fun s' => s'.Idle ∧ s'.given = s.given) s) ∧
    ∀ (connector : Connector Key) (tcpConnect : Addr → Except ErrorKind Unit)
      (writeAll : List UInt8 → Except ErrorKind Unit) (peer peer' : Peer Addr Key)
      (written bytes : List UInt8) (conn : ConnId) (socket : Socket Addr),
      connector.connect keys tcpConnect writeAll peer = .ok (peer', written) →
      s.sockets[conn]? = some socket → socket.arrived = written ++ bytes →
      socket.lost = none → conn < s.accepted →
      (∀ xonly, s.handshake ≠ some (conn, xonly)) →
      ∃ dialer : Peer Addr Key, (dialer, conn) ∈ s.passed ∧ dialer.id = connector.localKey ∧
        dialer.addr = socket.addr ∧
        ∀ (M : Type) (serde : Serde M) (framed : Framed) (messages : List M),
          serde.Lawful → framed.Lawful → outgoing serde framed messages = some bytes →
          ∀ chunks ending, chunks.flatten = socket.unread →
            readMsgLoop dialer (received serde framed chunks ending) =
              messages.map (.newIncomingMessage dialer) ++ [.disconnected dialer] := by
  have h := run.sound
  refine ⟨h.order, h.earlier, fun conn => h.outcome, ?_, ?_, ?_⟩
  · rintro conn xonly now us s' more ⟨socket, found, few, going⟩
    obtain ⟨-, accepted, passed⟩ := h.blocked ⟨xonly, now⟩ more found few going
    exact ⟨accepted.trans (h.current conn xonly now).1, passed⟩
  · exact fun decided => (h.finishes decided).mono fun s there => ⟨there.1, there.2.1⟩
  · intro connector tcpConnect writeAll peer peer' written bytes conn socket connected found
      arrived here before ceased
    obtain ⟨-, rfl⟩ := Connector.connect_eq_ok connected
    obtain ⟨socket', found', outcome⟩ := h.outcome before ceased
    obtain rfl := Option.some.inj (found.symm.trans found')
    rcases outcome with ⟨dialer, inside, introduced⟩ | ⟨-, refused⟩
    · obtain ⟨named, rest⟩ := introduced.messages lawful arrived
      refine ⟨dialer, inside, named, introduced.addr, ?_⟩
      intro M serde framed messages printed splits made chunks ending whole
      obtain ⟨bytes', made', back⟩ := outgoing_lines splits printed messages
      obtain rfl := Option.some.inj (made.symm.trans made')
      rw [received_eq splits, whole, rest, back, readMsgLoop_eq]
    · have gone := refused_lost lawful arrived refused
      simp [here] at gone

section Small

/-- One key, of 32 bytes. -/
def smallKeys : KeyBytes Unit where
  asBytes := fun _ => List.replicate 32 newline
  fromBytes := fun bytes => if bytes = List.replicate 32 newline then some () else none

theorem smallKeys_lawful : smallKeys.Lawful where
  size := fun _ => List.length_replicate
  back := fun key => by simp [smallKeys]

/-- Messages that say nothing. -/
def smallSerde : Serde Unit where
  fromStr := fun text => if text = "null" then .ok () else .error .data
  toString := fun _ => .ok "null"

theorem smallSerde_lawful : smallSerde.Lawful :=
  fun _ => ⟨"null", rfl, rfl, by decide, by decide⟩

/-- The first connection says nothing, and the second one has to wait for it to end. -/
theorem listensInOrder_small : ∃ bytes,
    outgoing smallSerde .buffered [()] = some bytes ∧
    ∃ ts s ts' s', Runs smallKeys ts s ∧ RunsOn smallKeys s ts' s' ∧
      (∀ us (u : Listener Nat Unit), RunsOn smallKeys s us u →
        (∃ socket, u.sockets[0]? = some socket ∧ socket.arrived = [] ∧ socket.ended = none) →
        u.passed = []) ∧
      ∃ dialer : Peer Nat Unit, (dialer, 1) ∈ s'.passed ∧ dialer.addr = 2 ∧
        readMsgLoop dialer (received smallSerde .buffered [bytes] .eof) =
          [.newIncomingMessage dialer (), .disconnected dialer] := by
  obtain ⟨bytes, made, -⟩ := outgoing_lines Framed.buffered_lawful smallSerde_lawful [()]
  obtain ⟨ts, s, ts', s', done, now, silent, done', accepted, ceased, found⟩ :
      ∃ ts s ts' s', exec (step smallKeys) (Listener.init : Listener Nat Unit)
          [.connects 1, .connects 2, .arrives 1 (smallKeys.asBytes () ++ bytes), .accept] =
            some (ts, s) ∧
        s.handshake = some (0, []) ∧ s.passed = [] ∧
        exec (step smallKeys) s [.ends 0 .eof, .read 32, .accept, .read 32] = some (ts', s') ∧
        s'.accepted = 2 ∧ s'.handshake = none ∧
        s'.sockets[1]? = some ⟨2, smallKeys.asBytes () ++ bytes, 32, none, none⟩ :=
    ⟨_, _, _, _, rfl, rfl, rfl, rfl, rfl, rfl, rfl⟩
  have run := exec_run done
  have more := exec_run done'
  refine ⟨bytes, made, ts, s, ts', s', run, more, ?_, ?_⟩
  · rintro us u rest ⟨socket, there, nothing, going⟩
    obtain ⟨-, -, -, blocked, -⟩ := listensInOrder smallKeys smallKeys_lawful run
    obtain ⟨-, same⟩ := blocked 0 [] now us u rest ⟨socket, there, by simp [nothing], going⟩
    exact same.trans silent
  · obtain ⟨-, -, -, -, -, delivers⟩ :=
      listensInOrder smallKeys smallKeys_lawful (run.append more)
    obtain ⟨dialer, inside, -, addr, read⟩ := delivers ⟨()⟩ (fun _ => .ok ()) (fun _ => .ok ())
      ⟨2, ()⟩ ⟨2, ()⟩ _ bytes 1 _ rfl found rfl rfl
      (accepted ▸ Nat.one_lt_two) (by simp [ceased])
    refine ⟨dialer, inside, addr, ?_⟩
    exact read Unit smallSerde .buffered [()] smallSerde_lawful Framed.buffered_lawful made
      [bytes] .eof (by simp [Socket.unread, smallKeys])

end Small

end Listener

end Lindy.P2p
