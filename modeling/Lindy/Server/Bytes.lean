import Lindy.P2p.Listener
import Lindy.P2p.Messages
import Lindy.Server.Refinement

/-! # The bytes on the sockets

The sockets hand over messages and keys. Below them are the bytes: what an event loop writes is
encoded line by line behind the handshake of the dialer, and the other end gets some first part
of it. What can be read of that are the messages a step on the sockets reads, one at a time, and
a listener that gets the handshake knows the dialer by the key a step on the sockets gives it.
-/

namespace Lindy

open Bitcoin Machine P2p P2p.Runtime

variable {c : Crates} {Addr ι : Type}

/-- One more can be read where it stands next. -/
theorem append_singleton_prefix_iff {α : Type} {xs : List α} {n : Nat} {x : α}
    (inside : n ≤ xs.length) : xs.take n ++ [x] <+: xs ↔ xs[n]? = some x := by
  constructor
  · rintro ⟨rest, whole⟩
    rw [← whole, List.append_assoc, List.getElem?_append_right (by simp)]
    simp [inside]
  · intro next
    obtain ⟨before, rfl⟩ := List.getElem?_eq_some_iff.mp next
    rw [← List.take_succ_eq_append_getElem before]
    exact List.take_prefix _ _

namespace Sockets

variable {nodes : ι → Node c} {book : ι → Addr} {w : Sockets ι c Addr} {us : Loops ι c Addr}
  {serde : Serde (Message c)} {framed : Framed}

/-- What an end has read can be read of the bytes that were written at the other one, and what it
    may read next is what can be read after it. -/
theorem Wired.readable (h : Wired nodes w us) (lawful : framed.Lawful) (printed : serde.Lawful)
    (delimited : serde.Delimited) {p : Nat × Bool} {mine other : End ι} {conn : ConnId}
    (found : w.endAt p = some mine) (found' : w.endAt (far p) = some other)
    (made : mine.conn = some conn) :
    ∃ bytes, outgoing serde framed (w.written other) = some bytes ∧
      Readable serde framed bytes (readOn conn (us mine.party)) ∧
      ∀ message, (w.written other)[mine.read]? = some message ↔
        Readable serde framed bytes (readOn conn (us mine.party) ++ [message]) := by
  obtain ⟨bytes, written, -⟩ := outgoing_lines lawful printed (w.written other)
  have ok := h.ends found found'
  refine ⟨bytes, written, ?_, fun message => ?_⟩
  · rw [readable_iff lawful printed delimited written, ok.reads made]
    exact List.take_prefix _ _
  · rw [readable_iff lawful printed delimited written, ok.reads made,
      append_singleton_prefix_iff ok.behind]

variable [DecidableEq ι] [DecidableEq Addr]

/-- A listener that got the handshake of a dialer, and whose handshake with it is over, hands on
    the connection as the step on the sockets does. What it leaves unread are the messages. -/
theorem step_accepted {keys : KeyBytes c.PeerId} (lawful : keys.Lawful) {ts}
    {s : Listener Addr c.PeerId} (run : Listener.Runs keys ts s) {k : Nat} {link : Link ι}
    (found : w.links[k]? = some link) (new : (link.ends false).conn = none)
    {connector : Connector c.PeerId} {tcpConnect : Addr → Except ErrorKind Unit}
    {writeAll : List UInt8 → Except ErrorKind Unit} {peer peer' : Peer Addr c.PeerId}
    {handshake bytes : List UInt8} {conn : ConnId} {socket : Socket Addr}
    (dialer : connector.localKey = (nodes (link.ends true).party).manager.id)
    (connected : connector.connect keys tcpConnect writeAll peer = .ok (peer', handshake))
    (there : s.sockets[conn]? = some socket) (arrived : socket.arrived = handshake ++ bytes)
    (stays : socket.lost = none) (accepted : conn < s.accepted)
    (shaken : ∀ xonly, s.handshake ≠ some (conn, xonly)) :
    ∃ yielded, (yielded, conn) ∈ s.passed ∧ socket.unread = bytes ∧
      w.step nodes book (.accepted k socket.addr) =
        w.serve nodes (link.ends false).party (.p2p (.event (.inbound yielded)))
          (w.links.set k (link.opened false (w.servers (link.ends false).party).p2p.conns)) := by
  obtain ⟨-, rfl⟩ := Connector.connect_eq_ok connected
  obtain ⟨socket', there', outcome⟩ := run.sound.outcome accepted shaken
  obtain rfl := Option.some.inj (there.symm.trans there')
  rcases outcome with ⟨yielded, inside, introduced⟩ | ⟨-, refused⟩
  · obtain ⟨named, rest⟩ := introduced.messages lawful arrived
    obtain ⟨addr, key⟩ := yielded
    obtain rfl : addr = socket.addr := introduced.addr
    obtain rfl : key = (nodes (link.ends true).party).manager.id := named.trans dialer
    exact ⟨_, inside, rest, by simp [step, found, new]⟩
  · have gone := Listener.refused_lost lawful arrived refused
    simp [stays] at gone

/-- In every run of honest use each end has read messages that can be read of the bytes written at
    the other one, and the next one it may read is the next one there. -/
theorem Runs.readable (known : Function.Injective fun i => (nodes i).manager.id) {ts}
    (run : Runs nodes book ts w) (honest : ∀ t ∈ ts, HonestUse nodes book t)
    (splits : framed.Lawful) {text : SerdeJson} {codecs : FieldCodecs c} (lawful : codecs.Lawful)
    (prints : ∀ message, text.Prints (codecs.message.serialize message))
    (closes : ∀ message, text.Closes (codecs.message.serialize message)) :
    ∃ us : Loops ι c Addr, (∀ i, Runtime.Runs (us i) (w.servers i).p2p) ∧
      ∀ p mine other conn, w.endAt p = some mine → w.endAt (far p) = some other →
        mine.conn = some conn →
        ∃ bytes, outgoing (text.message codecs) framed (w.written other) = some bytes ∧
          Readable (text.message codecs) framed bytes (readOn conn (us mine.party)) ∧
          ∀ message, (w.written other)[mine.read]? = some message ↔
            Readable (text.message codecs) framed bytes
              (readOn conn (us mine.party) ++ [message]) := by
  obtain ⟨_, _, _, _, us, _, h⟩ := Runs.refines known run honest
  have printed := SerdeJson.message_lawful prints lawful
  have delimited := SerdeJson.message_delimited closes
  exact ⟨us, fun i => (h.glued i).p2p, fun _ _ _ _ found found' made =>
    h.wired.readable splits printed delimited found found' made⟩

end Sockets

end Lindy
