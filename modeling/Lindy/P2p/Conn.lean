import Lindy.Machine.Run
import Lindy.P2p.Framing

/-! # Handshakes

`Connector::connect` and `listen`, down to the bytes of the handshake. The stream of `listen`
is a `filter_map` over the listener, and it is forwarded to the event loop: one connection
after the other is accepted, read from until its handshake is over, and passed on.

What the operating system does with its sockets are actions of their own. Everything that
arrived on a connection is kept, with how much of it was read.
-/

namespace Lindy.P2p

open Machine

variable {Addr Key M : Type}

/-- `XOnly::as_bytes` and `XOnly::from_bytes`. -/
structure KeyBytes (Key : Type) where
  asBytes : Key → List UInt8
  fromBytes : List UInt8 → Option Key

structure KeyBytes.Lawful (keys : KeyBytes Key) : Prop where
  size : ∀ key, (keys.asBytes key).length = 32
  back : ∀ key, keys.fromBytes (keys.asBytes key) = some key

/-- `send_handshake`, with what it wrote. -/
def sendHandshake (keys : KeyBytes Key) (writeAll : List UInt8 → Except ErrorKind Unit)
    (localKey : Key) : Except HandshakeError (List UInt8) := do
  (writeAll (keys.asBytes localKey)).mapError .io
  pure (keys.asBytes localKey)

structure Connector (Key : Type) where
  localKey : Key

/-- `Connector::connect`, with what it wrote. The key of the peer is taken as given, and
    `frame_connection` does not fail. -/
def Connector.connect (self : Connector Key) (keys : KeyBytes Key)
    (tcpConnect : Addr → Except ErrorKind Unit) (writeAll : List UInt8 → Except ErrorKind Unit)
    (peer : Peer Addr Key) : Except Error (Peer Addr Key × List UInt8) := do
  (tcpConnect peer.addr).mapError .io
  let written ← (sendHandshake keys writeAll self.localKey).mapError .handshake
  pure (peer, written)

/-- What a dialer that connects has written is its own key. -/
theorem Connector.connect_eq_ok {self : Connector Key} {keys : KeyBytes Key}
    {tcpConnect : Addr → Except ErrorKind Unit} {writeAll : List UInt8 → Except ErrorKind Unit}
    {peer peer' : Peer Addr Key} {written : List UInt8}
    (done : self.connect keys tcpConnect writeAll peer = .ok (peer', written)) :
    peer' = peer ∧ written = keys.asBytes self.localKey := by
  unfold connect sendHandshake at done
  cases connected : tcpConnect peer.addr <;>
    cases wrote : writeAll (keys.asBytes self.localKey) <;>
    simp [connected, wrote, Except.mapError, bind, Except.bind, pure, Except.pure] at done
  exact ⟨done.1.symm, done.2.symm⟩

/-- A connection made to the listener. -/
structure Socket (Addr : Type) where
  addr : Addr
  /-- Everything that arrived on it. -/
  arrived : List UInt8
  /-- How much of that was read. -/
  read : Nat
  /-- After this nothing arrives. -/
  ended : Option Ending
  /-- Why its other end has no address any more. -/
  lost : Option ErrorKind

namespace Socket

/-- `connection.peer_addr()` -/
def peerAddr (socket : Socket Addr) : Except ErrorKind Addr :=
  socket.lost.elim (.ok socket.addr) .error

def unread (socket : Socket Addr) : List UInt8 := socket.arrived.drop socket.read

/-- One read of `read_exact`, of at most `size` bytes: what is in the buffer after it. `none`
    while there is nothing to read. -/
def readExact (socket : Socket Addr) (xonly : List UInt8) (size : Nat) :
    Option (Except ErrorKind (List UInt8)) :=
  match socket.unread, socket.ended with
  | [], none => none
  | [], some .eof => some (.error .unexpectedEof)
  | [], some (.ioError kind) => some (.error kind)
  | unread, _ =>
      let piece := unread.take (min size (32 - xonly.length))
      if piece = [] then none else some (.ok (xonly ++ piece))

end Socket

/-- `recv_handshake` once `read_exact` has filled its buffer. -/
def recvHandshake (keys : KeyBytes Key) (connection : Socket Addr) (xonly : List UInt8) :
    Except HandshakeError (Peer Addr Key) := do
  let remoteKey ← (keys.fromBytes xonly).elim (throw .invalidKey) pure
  let addr ← connection.peerAddr.mapError .io
  pure { addr, key := remoteKey }

/-- The `p2p_listen_loop`. -/
structure Listener (Addr Key : Type) where
  /-- Every connection that was made, in the order in which they are accepted. -/
  sockets : List (Socket Addr)
  /-- How many of them were accepted. -/
  accepted : Nat
  /-- The handshake that is awaited, and what was read of its key. -/
  handshake : Option (ConnId × List UInt8)
  /-- What the stream yielded and the event loop has no room for. -/
  buffered : Option (Peer Addr Key × ConnId)
  /-- What the event loop was sent, oldest first. -/
  events : List (Peer Addr Key × ConnId)

namespace Listener

def init : Listener Addr Key := ⟨[], 0, none, none, []⟩

inductive Act (Addr : Type) where
  /-- A connection is made. -/
  | connects (addr : Addr)
  | arrives (conn : ConnId) (bytes : List UInt8)
  | ends (conn : ConnId) (ending : Ending)
  | loses (conn : ConnId) (kind : ErrorKind)
  /-- The listener yields an error, in place of the next connection when that was aborted. -/
  | acceptFails (kind : ErrorKind) (aborted : Bool)
  /-- The listener yields the next connection. -/
  | accept
  /-- The handshake reads on. -/
  | read (size : Nat)
  /-- The event loop has room. -/
  | forward

/-- Something happens on a connection. -/
def onSocket (s : Listener Addr Key) (conn : ConnId)
    (f : Socket Addr → Option (Socket Addr)) : Option (Listener Addr Key) := do
  let socket ← s.sockets[conn]?
  let socket ← f socket
  some { s with sockets := s.sockets.set conn socket }

/-- Bytes arrive, as long as the connection has not ended. -/
def arrives (bytes : List UInt8) (socket : Socket Addr) : Option (Socket Addr) :=
  if socket.ended.isSome then none else some { socket with arrived := socket.arrived ++ bytes }

def ends (ending : Ending) (socket : Socket Addr) : Option (Socket Addr) :=
  if socket.ended.isSome then none else some { socket with ended := some ending }

def loses (kind : ErrorKind) (socket : Socket Addr) : Option (Socket Addr) :=
  some { socket with lost := some kind }

/-- The listener itself is polled. -/
def polled (s : Listener Addr Key) : Bool := s.handshake.isNone && s.buffered.isNone

/-- A connection that is accepted shakes hands, unless its other end is gone already. -/
def accept (s : Listener Addr Key) : Option (Listener Addr Key) := do
  let connection ← s.sockets[s.accepted]?
  match connection.peerAddr with
  | .ok _ => some { s with accepted := s.accepted + 1, handshake := some (s.accepted, []) }
  | .error _ => some { s with accepted := s.accepted + 1 }

/-- What was read is in the buffer. Once that is full the handshake is over. -/
def filled (keys : KeyBytes Key) (s : Listener Addr Key) (conn : ConnId)
    (connection : Socket Addr) (xonly : List UInt8) : Listener Addr Key :=
  let s := { s with sockets := s.sockets.set conn { connection with read := xonly.length } }
  if xonly.length < 32 then { s with handshake := some (conn, xonly) }
  else
    match recvHandshake keys connection xonly with
    | .ok peer => { s with handshake := none, buffered := some (peer, conn) }
    | .error _ => { s with handshake := none }

def read (keys : KeyBytes Key) (s : Listener Addr Key) (size : Nat) :
    Option (Listener Addr Key) := do
  let (conn, xonly) ← s.handshake
  let connection ← s.sockets[conn]?
  match ← connection.readExact xonly size with
  | .ok xonly => some (s.filled keys conn connection xonly)
  | .error _ => some { s with handshake := none }

/-- `forward(event_sender)` -/
def forward (s : Listener Addr Key) : Option (Listener Addr Key) := do
  let item ← s.buffered
  some { s with buffered := none, events := s.events ++ [item] }

def step (keys : KeyBytes Key) (s : Listener Addr Key) :
    Act Addr → Option (Listener Addr Key)
  | .connects addr => some { s with sockets := s.sockets ++ [⟨addr, [], 0, none, none⟩] }
  | .arrives conn bytes => s.onSocket conn (arrives bytes)
  | .ends conn ending => s.onSocket conn (ends ending)
  | .loses conn kind => s.onSocket conn (loses kind)
  | .acceptFails _ false => if s.polled then some s else none
  | .acceptFails kind true => do
      if !s.polled then none
      let s' ← s.onSocket s.accepted (loses kind)
      some { s' with accepted := s.accepted + 1 }
  | .accept => if s.polled then s.accept else none
  | .read size => s.read keys size
  | .forward => s.forward

/-- The runs of the listener from some moment on. -/
abbrev RunsOn (keys : KeyBytes Key) (s : Listener Addr Key)
    (ts : List (Transition (Listener Addr Key) (Act Addr))) (s' : Listener Addr Key) : Prop :=
  Run (fun s a s' => step keys s a = some s') s ts s'

abbrev Runs (keys : KeyBytes Key) (ts : List (Transition (Listener Addr Key) (Act Addr)))
    (s : Listener Addr Key) : Prop :=
  RunsOn keys .init ts s

/-- What the stream of `listen` has yielded, oldest first. -/
def passed (s : Listener Addr Key) : List (Peer Addr Key × ConnId) :=
  s.events ++ s.buffered.toList

end Listener

namespace Socket

/-- What can become of a connection from outside. -/
structure Grows (socket socket' : Socket Addr) : Prop where
  addr : socket'.addr = socket.addr
  read : socket'.read = socket.read
  arrived : socket.arrived <+: socket'.arrived
  ended : socket.ended.isSome → socket'.ended.isSome ∧ socket'.arrived = socket.arrived
  lost : socket.lost.isSome → socket'.lost.isSome

/-- Its key arrived in full, and it is known by that. What follows the key is unread. -/
structure Introduced (keys : KeyBytes Key) (socket : Socket Addr) (peer : Peer Addr Key) :
    Prop where
  addr : peer.addr = socket.addr
  full : 32 ≤ socket.arrived.length
  key : keys.fromBytes (socket.arrived.take 32) = some peer.key
  start : socket.read = 32

/-- Why a connection that was accepted is not yielded. -/
inductive Refused (keys : KeyBytes Key) (socket : Socket Addr) : Prop where
  | short (ceased : socket.ended.isSome) (few : socket.arrived.length < 32)
  | invalidKey (full : 32 ≤ socket.arrived.length)
      (bad : keys.fromBytes (socket.arrived.take 32) = none)
  | lost (gone : socket.lost.isSome)

variable {keys : KeyBytes Key} {socket socket' : Socket Addr} {peer : Peer Addr Key}

theorem Grows.refl (socket : Socket Addr) : socket.Grows socket :=
  ⟨rfl, rfl, List.prefix_rfl, fun ceased => ⟨ceased, rfl⟩, id⟩

/-- The connection at a later time, read from or not. -/
def Later (socket socket' : Socket Addr) : Prop :=
  socket.Grows { socket' with read := socket.read }

theorem Later.refl (socket : Socket Addr) : socket.Later socket := Grows.refl socket

theorem Grows.later (grows : socket.Grows socket') : socket.Later socket' :=
  ⟨grows.addr, rfl, grows.arrived, grows.ended, grows.lost⟩

theorem Later.trans {socket'' : Socket Addr} (first : socket.Later socket')
    (second : socket'.Later socket'') : socket.Later socket'' where
  addr := second.addr.trans first.addr
  read := rfl
  arrived := first.arrived.trans second.arrived
  ended := fun ceased =>
    ⟨(second.ended (first.ended ceased).1).1,
      (second.ended (first.ended ceased).1).2.trans (first.ended ceased).2⟩
  lost := fun gone => second.lost (first.lost gone)

theorem Grows.take_eq (grows : socket.Grows socket') {n : Nat}
    (full : n ≤ socket.arrived.length) : socket'.arrived.take n = socket.arrived.take n := by
  obtain ⟨more, whole⟩ := grows.arrived
  rw [← whole, List.take_append_of_le_length full]

theorem Introduced.grows (introduced : socket.Introduced keys peer)
    (grows : socket.Grows socket') : socket'.Introduced keys peer where
  addr := introduced.addr.trans grows.addr.symm
  full := introduced.full.trans grows.arrived.length_le
  key := grows.take_eq introduced.full ▸ introduced.key
  start := grows.read.trans introduced.start

theorem Refused.grows (refused : socket.Refused keys) (grows : socket.Grows socket') :
    socket'.Refused keys := by
  cases refused with
  | short ceased few =>
      obtain ⟨ceased', same⟩ := grows.ended ceased
      exact .short ceased' (same ▸ few)
  | invalidKey full bad =>
      exact .invalidKey (full.trans grows.arrived.length_le) (grows.take_eq full ▸ bad)
  | lost gone => exact .lost (grows.lost gone)

theorem Refused.read (refused : socket.Refused keys) (read : Nat) :
    { socket with read }.Refused keys := by
  cases refused with
  | short ceased few => exact .short ceased few
  | invalidKey full bad => exact .invalidKey full bad
  | lost gone => exact .lost gone

/-- A read gives the next bytes, and an error only where there are none and never will be. -/
theorem readExact_eq_some {xonly : List UInt8} {size : Nat}
    {result : Except ErrorKind (List UInt8)}
    (done : socket.readExact xonly size = some result) :
    (∃ piece, result = .ok (xonly ++ piece) ∧ piece ≠ [] ∧
      piece = socket.unread.take (min size (32 - xonly.length))) ∨
    ∃ kind, result = .error kind ∧ socket.ended.isSome ∧ socket.unread = [] := by
  unfold readExact at done
  split at done
  · cases done
  · rename_i nothing ceased
    exact .inr ⟨_, (Option.some.inj done).symm, by simp [ceased], nothing⟩
  · rename_i kind nothing ceased
    exact .inr ⟨kind, (Option.some.inj done).symm, by simp [ceased], nothing⟩
  · dsimp only at done
    split at done
    · cases done
    · rename_i some_
      exact .inl ⟨_, (Option.some.inj done).symm, some_, rfl⟩

end Socket

theorem recvHandshake_eq_ok {keys : KeyBytes Key} {connection : Socket Addr}
    {xonly : List UInt8} {peer : Peer Addr Key}
    (done : recvHandshake keys connection xonly = .ok peer) :
    keys.fromBytes xonly = some peer.key ∧ peer.addr = connection.addr := by
  obtain ⟨addr, arrived, read, ended, lost⟩ := connection
  cases key : keys.fromBytes xonly <;> cases lost <;>
    simp [recvHandshake, key, Socket.peerAddr, Except.mapError, bind, Except.bind, pure,
      Except.pure, throw, throwThe, MonadExceptOf.throw] at done
  simp [← done]

theorem recvHandshake_eq_error {keys : KeyBytes Key} {connection : Socket Addr}
    {xonly : List UInt8} {error : HandshakeError}
    (failed : recvHandshake keys connection xonly = .error error) :
    keys.fromBytes xonly = none ∨ connection.lost.isSome := by
  obtain ⟨addr, arrived, read, ended, lost⟩ := connection
  cases key : keys.fromBytes xonly <;> cases lost <;>
    simp [recvHandshake, key, Socket.peerAddr, Except.mapError, bind, Except.bind, pure,
      Except.pure, throw, throwThe, MonadExceptOf.throw] at failed ⊢

namespace Listener

variable {keys : KeyBytes Key} {s s' : Listener Addr Key} {a : Act Addr}

/-- What the listener does by itself. -/
def Act.Own : Act Addr → Prop
  | .accept | .read _ | .forward => True
  | _ => False

/-- The handshake read on: its buffer was short, and is this now. -/
structure Reads (s : Listener Addr Key) (size : Nat) (conn : ConnId) (socket : Socket Addr)
    (xonly : List UInt8) : Prop where
  found : s.sockets[conn]? = some socket
  more : ∃ before piece, s.handshake = some (conn, before) ∧ piece ≠ [] ∧
    piece = socket.unread.take (min size (32 - before.length)) ∧ xonly = before ++ piece

/-- This connection was read up to here. -/
def readTo (s : Listener Addr Key) (conn : ConnId) (socket : Socket Addr) (read : Nat) :
    List (Socket Addr) :=
  s.sockets.set conn { socket with read }

/-- Everything a step can do. -/
inductive Moved (keys : KeyBytes Key) (s : Listener Addr Key) :
    Act Addr → Listener Addr Key → Prop where
  | connects {addr} : Moved keys s (.connects addr)
      { s with sockets := s.sockets ++ [⟨addr, [], 0, none, none⟩] }
  | outside {a conn socket socket'} (foreign : ¬ a.Own)
      (found : s.sockets[conn]? = some socket) (grows : socket.Grows socket') :
      Moved keys s a { s with sockets := s.sockets.set conn socket' }
  | fails {kind} : Moved keys s (.acceptFails kind false) s
  | skips {a socket socket'} (idle : s.polled = true)
      (found : s.sockets[s.accepted]? = some socket) (grows : socket.Grows socket')
      (gone : socket'.lost.isSome) (same : a.Own → socket' = socket) :
      Moved keys s a { s with sockets := s.sockets.set s.accepted socket'
                              accepted := s.accepted + 1 }
  | accepts {socket} (idle : s.polled = true) (found : s.sockets[s.accepted]? = some socket) :
      Moved keys s .accept { s with accepted := s.accepted + 1
                                    handshake := some (s.accepted, []) }
  | reads {size conn socket xonly} (reads : s.Reads size conn socket xonly)
      (short : xonly.length < 32) :
      Moved keys s (.read size) { s with sockets := s.readTo conn socket xonly.length
                                         handshake := some (conn, xonly) }
  | introduces {size conn socket xonly peer} (reads : s.Reads size conn socket xonly)
      (full : 32 ≤ xonly.length) (key : keys.fromBytes xonly = some peer.key)
      (addr : peer.addr = socket.addr) :
      Moved keys s (.read size) { s with sockets := s.readTo conn socket xonly.length
                                         handshake := none
                                         buffered := some (peer, conn) }
  | refuses {size conn socket xonly} (reads : s.Reads size conn socket xonly)
      (full : 32 ≤ xonly.length)
      (bad : keys.fromBytes xonly = none ∨ socket.lost.isSome) :
      Moved keys s (.read size) { s with sockets := s.readTo conn socket xonly.length
                                         handshake := none }
  | breaks {size conn socket xonly} (now : s.handshake = some (conn, xonly))
      (found : s.sockets[conn]? = some socket) (ceased : socket.ended.isSome)
      (nothing : socket.unread = []) :
      Moved keys s (.read size) { s with handshake := none }
  | forwards {item} (next : s.buffered = some item) :
      Moved keys s .forward { s with buffered := none, events := s.events ++ [item] }

theorem onSocket_eq_some {conn : ConnId} {f : Socket Addr → Option (Socket Addr)}
    (done : s.onSocket conn f = some s') : ∃ socket socket', s.sockets[conn]? = some socket ∧
      f socket = some socket' ∧ s' = { s with sockets := s.sockets.set conn socket' } := by
  simp only [onSocket, Option.bind_eq_bind, Option.bind_eq_some_iff] at done
  obtain ⟨socket, found, socket', made, done⟩ := done
  exact ⟨socket, socket', found, made, (Option.some.inj done).symm⟩

theorem arrives_grows {bytes : List UInt8} {socket socket' : Socket Addr}
    (done : arrives bytes socket = some socket') : socket.Grows socket' := by
  unfold arrives at done
  split at done
  · cases done
  · rename_i going
    obtain rfl := Option.some.inj done
    exact ⟨rfl, rfl, List.prefix_append _ _, fun ceased => absurd ceased going, id⟩

theorem ends_grows {ending : Ending} {socket socket' : Socket Addr}
    (done : ends ending socket = some socket') : socket.Grows socket' := by
  unfold ends at done
  split at done
  · cases done
  · rename_i going
    obtain rfl := Option.some.inj done
    exact ⟨rfl, rfl, List.prefix_rfl, fun ceased => absurd ceased going, id⟩

theorem loses_grows {kind : ErrorKind} {socket socket' : Socket Addr}
    (done : loses kind socket = some socket') :
    socket.Grows socket' ∧ socket'.lost.isSome := by
  obtain rfl := Option.some.inj done
  exact ⟨⟨rfl, rfl, List.prefix_rfl, fun ceased => ⟨ceased, rfl⟩, fun _ => rfl⟩, rfl⟩

theorem accept_moved (idle : s.polled = true) (took : s.accept = some s') :
    Moved keys s .accept s' := by
  simp only [accept, Option.bind_eq_bind, Option.bind_eq_some_iff] at took
  obtain ⟨socket, found, took⟩ := took
  split at took
  · obtain rfl := Option.some.inj took
    exact .accepts idle found
  · rename_i kind gone
    obtain rfl := Option.some.inj took
    have lost : socket.lost.isSome := by
      unfold Socket.peerAddr at gone
      cases why : socket.lost with
      | none => simp [why] at gone
      | some => rfl
    have same : s.sockets.set s.accepted socket = s.sockets := by
      obtain ⟨inside, rfl⟩ := List.getElem?_eq_some_iff.mp found
      exact List.set_getElem_self inside
    have moved : Moved keys s .accept _ := .skips idle found (.refl socket) lost fun _ => rfl
    rwa [same] at moved

theorem read_moved {size : Nat} (took : s.read keys size = some s') :
    Moved keys s (.read size) s' := by
  simp only [read, Option.bind_eq_bind, Option.bind_eq_some_iff] at took
  obtain ⟨⟨conn, xonly⟩, now, socket, found, result, done, took⟩ := took
  rcases Socket.readExact_eq_some done with ⟨piece, rfl, some_, next⟩ | ⟨kind, rfl, ceased, none_⟩
  · obtain rfl := Option.some.inj took
    have reads : s.Reads size conn socket (xonly ++ piece) :=
      ⟨found, xonly, piece, now, some_, next, rfl⟩
    dsimp only [filled]
    split
    · rename_i short
      exact .reads reads short
    · rename_i full
      split
      · rename_i peer shaken
        obtain ⟨key, addr⟩ := recvHandshake_eq_ok shaken
        exact .introduces reads (Nat.not_lt.mp full) key addr
      · rename_i error failed
        exact .refuses reads (Nat.not_lt.mp full) (recvHandshake_eq_error failed)
  · obtain rfl := Option.some.inj took
    exact .breaks now found ceased none_

theorem step_moved (took : s.step keys a = some s') : Moved keys s a s' := by
  cases a with
  | connects addr =>
      obtain rfl := Option.some.inj took
      exact .connects
  | arrives conn bytes =>
      obtain ⟨socket, socket', found, made, rfl⟩ := onSocket_eq_some took
      exact .outside id found (arrives_grows made)
  | ends conn ending =>
      obtain ⟨socket, socket', found, made, rfl⟩ := onSocket_eq_some took
      exact .outside id found (ends_grows made)
  | loses conn kind =>
      obtain ⟨socket, socket', found, made, rfl⟩ := onSocket_eq_some took
      exact .outside id found (loses_grows made).1
  | acceptFails kind aborted =>
      cases aborted with
      | false =>
          obtain ⟨-, same⟩ := Option.ite_none_right_eq_some.mp took
          obtain rfl := Option.some.inj same
          exact .fails
      | true =>
          obtain ⟨idle, took⟩ := Option.ite_none_left_eq_some.mp took
          simp only [Option.bind_eq_bind, Option.bind_eq_some_iff] at took
          obtain ⟨u, lost, took⟩ := took
          obtain ⟨socket, socket', found, made, rfl⟩ := onSocket_eq_some lost
          obtain ⟨grows, gone⟩ := loses_grows made
          obtain rfl := Option.some.inj took
          exact .skips (by simpa using idle) found grows gone fun own => own.elim
  | accept =>
      obtain ⟨idle, took⟩ := Option.ite_none_right_eq_some.mp took
      exact accept_moved idle took
  | read size => exact read_moved took
  | forward =>
      simp only [step, forward, Option.bind_eq_bind, Option.bind_eq_some_iff] at took
      obtain ⟨item, next, took⟩ := took
      obtain rfl := Option.some.inj took
      exact .forwards next

end Listener

end Lindy.P2p
