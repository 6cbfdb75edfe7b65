import Lindy.P2p.Endpoints
import Lindy.Server.Composition

/-! # Servers on sockets

Any number of servers and the connections between them. An attempt dials the address of its
peer and sends the key of its own server; the listener at that address makes a connection of
it under that key. Each end reads, in order, what the event loop at the other end wrote, as far
as it gets: a connection may stop at any time, and each end learns so for itself or never.

Each message is read as it was written, and each connection comes in under the key of its dialer;
how the bytes bear this out is in `Lindy.Server.Bytes`.
-/

namespace Lindy

open Bitcoin Machine P2p P2p.Runtime

variable {c : Crates} {Addr ι : Type}

/-- One end of a connection. -/
structure End (ι : Type) where
  party : ι
  /-- What the event loop of the party made of it, if it has. -/
  conn : Option ConnId
  /-- How many of the messages written at the other end were read here. -/
  read : Nat

structure Link (ι : Type) where
  attempt : AttemptId
  /-- The end that dialed is `true`. -/
  ends : Bool → End ι

structure Sockets (ι : Type) (c : Crates) (Addr : Type) where
  servers : ι → Server c Addr
  links : List (Link ι)

/-- Nobody has an event loop for it yet. -/
def Link.dial (attempt : AttemptId) (dialer listener : ι) : Link ι :=
  ⟨attempt, fun side => ⟨if side then dialer else listener, none, 0⟩⟩

/-- One end is another now. -/
def Link.set (link : Link ι) (side : Bool) (e : End ι) : Link ι :=
  ⟨link.attempt, Function.update link.ends side e⟩

def Link.opened (link : Link ι) (side : Bool) (conn : ConnId) : Link ι :=
  link.set side { link.ends side with conn := some conn }

def Link.took (link : Link ι) (side : Bool) : Link ι :=
  link.set side { link.ends side with read := (link.ends side).read + 1 }

namespace Sockets

def init : Sockets ι c Addr := ⟨fun _ => .init, []⟩

inductive Act (ι : Type) (c : Crates) (Addr : Type) where
  /-- A party does something that is not the business of its sockets. -/
  | server (party : ι) (act : Server.Act c Addr)
  /-- An attempt has connected, and sent its handshake. -/
  | dial (party : ι) (attempt : AttemptId) (listener : ι)
  /-- The event loop of the dialer is told. -/
  | dialed (link : Nat)
  /-- That of the listener is, with the address the socket comes from. -/
  | accepted (link : Nat) (addr : Addr)
  /-- One end reads the next message. -/
  | read (link : Nat) (side : Bool)

def onSocket : Server.Act c Addr → Bool
  | .p2p a => a.onSocket
  | _ => false

/-- What was written at one end. -/
def written (w : Sockets ι c Addr) (e : End ι) : List (Message c) :=
  match e.conn with
  | some conn => ((w.servers e.party).p2p.sinks conn).map Prod.fst
  | none => []

variable [DecidableEq ι] [DecidableEq Addr]

/-- The attempt of a party dials the address of the listener. -/
def dials (book : ι → Addr) (w : Sockets ι c Addr) (party : ι) (attempt : AttemptId)
    (listener : ι) : Bool :=
  match (w.servers party).p2p.attempts.get attempt with
  | some peer => book listener = peer.addr
  | none => false

omit [DecidableEq Addr] in
/-- One party takes a step. -/
def serve (nodes : ι → Node c) (w : Sockets ι c Addr) (party : ι) (a : Server.Act c Addr)
    (links : List (Link ι)) : Option (Option (Reply c) × Sockets ι c Addr) :=
  ((w.servers party).step (nodes party) a).map fun (reply, s) =>
    (reply, ⟨Function.update w.servers party s, links⟩)

def step (nodes : ι → Node c) (book : ι → Addr) (w : Sockets ι c Addr) :
    Act ι c Addr → Option (Option (Reply c) × Sockets ι c Addr)
  | .server party a => if onSocket a then none else w.serve nodes party a w.links
  | .dial party attempt listener =>
      if w.dials book party attempt listener ∧
          ∀ link ∈ w.links, ¬ ((link.ends true).party = party ∧ link.attempt = attempt) then
        some (none, { w with links := w.links ++ [.dial attempt party listener] })
      else none
  | .dialed k => do
      let link ← w.links[k]?
      let dialer := link.ends true
      if dialer.conn = none ∧ w.dials book dialer.party link.attempt (link.ends false).party then
        w.serve nodes dialer.party (.p2p (.event (.connected link.attempt)))
          (w.links.set k (link.opened true (w.servers dialer.party).p2p.conns))
      else none
  | .accepted k addr => do
      let link ← w.links[k]?
      let listener := link.ends false
      if listener.conn = none then
        w.serve nodes listener.party
          (.p2p (.event (.inbound ⟨addr, (nodes (link.ends true).party).manager.id⟩)))
          (w.links.set k (link.opened false (w.servers listener.party).p2p.conns))
      else none
  | .read k side => do
      let link ← w.links[k]?
      let conn ← (link.ends side).conn
      let message ← (w.written (link.ends !side))[(link.ends side).read]?
      w.serve nodes (link.ends side).party (.p2p (.event (.received conn message)))
        (w.links.set k (link.took side))

abbrev Step (ι : Type) (c : Crates) (Addr : Type) :=
  Transition (Sockets ι c Addr) (Act ι c Addr × Option (Reply c))

abbrev Runs (nodes : ι → Node c) (book : ι → Addr) (ts : List (Step ι c Addr))
    (w : Sockets ι c Addr) : Prop :=
  Run (fun w label w' => step nodes book w label.1 = some (label.2, w')) init ts w

/-- Everything a step can do. -/
inductive Moved (nodes : ι → Node c) (book : ι → Addr) (w : Sockets ι c Addr) :
    Act ι c Addr → Option (Reply c) → Sockets ι c Addr → Prop where
  | server {i a reply s} (inside : onSocket a = false)
      (took : (w.servers i).step (nodes i) a = some (reply, s)) :
      Moved nodes book w (.server i a) reply ⟨Function.update w.servers i s, w.links⟩
  | dial {i attempt j} : Moved nodes book w (.dial i attempt j) none
      ⟨w.servers, w.links ++ [.dial attempt i j]⟩
  | dialed {k link i reply s} (found : w.links[k]? = some link) (party : (link.ends true).party = i)
      (new : (link.ends true).conn = none)
      (dialing : w.dials book i link.attempt (link.ends false).party = true)
      (took : (w.servers i).step (nodes i) (.p2p (.event (.connected link.attempt))) =
        some (reply, s)) :
      Moved nodes book w (.dialed k) reply
        ⟨Function.update w.servers i s, w.links.set k (link.opened true (w.servers i).p2p.conns)⟩
  | accepted {k addr link i reply s} (found : w.links[k]? = some link)
      (party : (link.ends false).party = i) (new : (link.ends false).conn = none)
      (took : (w.servers i).step (nodes i)
        (.p2p (.event (.inbound ⟨addr, (nodes (link.ends true).party).manager.id⟩))) =
          some (reply, s)) :
      Moved nodes book w (.accepted k addr) reply
        ⟨Function.update w.servers i s, w.links.set k (link.opened false (w.servers i).p2p.conns)⟩
  | read {k side link i conn message reply s} (found : w.links[k]? = some link)
      (party : (link.ends side).party = i) (made : (link.ends side).conn = some conn)
      (next : (w.written (link.ends !side))[(link.ends side).read]? = some message)
      (took : (w.servers i).step (nodes i) (.p2p (.event (.received conn message))) =
        some (reply, s)) :
      Moved nodes book w (.read k side) reply
        ⟨Function.update w.servers i s, w.links.set k (link.took side)⟩

variable {nodes : ι → Node c} {book : ι → Addr} {w w' : Sockets ι c Addr} {a : Act ι c Addr}
  {reply : Option (Reply c)}

omit [DecidableEq Addr] in
theorem serve_eq_some {i : ι} {a : Server.Act c Addr} {links : List (Link ι)}
    (took : w.serve nodes i a links = some (reply, w')) :
    ∃ s, (w.servers i).step (nodes i) a = some (reply, s) ∧
      w' = ⟨Function.update w.servers i s, links⟩ := by
  simp only [serve, Option.map_eq_some_iff, Prod.mk.injEq, Prod.exists] at took
  obtain ⟨_, s, took, rfl, rfl⟩ := took
  exact ⟨s, took, rfl⟩

theorem step_moved (took : w.step nodes book a = some (reply, w')) :
    Moved nodes book w a reply w' := by
  cases a with
  | server i a =>
      simp only [step] at took
      split at took
      · cases took
      · rename_i inside
        obtain ⟨s, stepped, rfl⟩ := serve_eq_some took
        exact .server (by simpa using inside) stepped
  | dial i attempt j =>
      simp only [step] at took
      split at took
      · obtain ⟨rfl, rfl⟩ := Prod.mk.inj (Option.some.inj took)
        exact .dial
      · cases took
  | dialed k =>
      simp only [step, Option.bind_eq_bind, Option.bind_eq_some_iff] at took
      obtain ⟨link, found, took⟩ := took
      split at took
      · rename_i ready
        obtain ⟨s, stepped, rfl⟩ := serve_eq_some took
        exact .dialed found rfl ready.1 ready.2 stepped
      · cases took
  | accepted k addr =>
      simp only [step, Option.bind_eq_bind, Option.bind_eq_some_iff] at took
      obtain ⟨link, found, took⟩ := took
      split at took
      · rename_i new
        obtain ⟨s, stepped, rfl⟩ := serve_eq_some took
        exact .accepted found rfl new stepped
      · cases took
  | read k side =>
      simp only [step, Option.bind_eq_bind, Option.bind_eq_some_iff] at took
      obtain ⟨link, found, conn, made, message, next, took⟩ := took
      obtain ⟨s, stepped, rfl⟩ := serve_eq_some took
      exact .read found rfl made next stepped

end Sockets

end Lindy
