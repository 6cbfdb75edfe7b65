import Lindy.Machine.Run
import Mathlib.Logic.Function.Basic

/-! # Parties that send each other messages

Any number of parties, each a machine of its own, and the messages under way between them.
A message may be delivered at any time and in any order, or never. It reaches the party it
is addressed to as it was sent, and with its sender's address.
-/

namespace Lindy.Machine

/-- A message under way. -/
structure Envelope (P M : Type*) where
  sender : P
  receiver : P
  message : M

/-- `P` are the addresses, `M` the messages and `ε` what a party draws at random when it
    takes one; a party in a state of `σ` does an action of `α` and replies with one of `ρ`. -/
structure Protocol (ι P M ε σ α ρ : Type*) where
  address : ι → P
  init : σ
  step : ι → σ → α → Option (ρ × σ)
  /-- The actions a party does by itself. -/
  own : α → Bool
  /-- The action that takes a message. -/
  receive : P → M → ε → α
  /-- What a reply sends, and to which address. -/
  sends : ρ → Option (P × M)

structure World (ι P M σ : Type*) where
  states : ι → σ
  net : List (Envelope P M)

inductive Move (ι ε α : Type*) where
  | act (party : ι) (action : α)
  | deliver (position : Nat) (party : ι) (drawn : ε)
  | drop (position : Nat)

namespace Protocol

variable {ι P M ε σ α ρ : Type*} (p : Protocol ι P M ε σ α ρ)

def start : World ι P M σ := ⟨fun _ => p.init, []⟩

/-- What a party puts under way with its reply. -/
def posted (i : ι) (reply : ρ) : List (Envelope P M) :=
  (p.sends reply).toList.map fun (receiver, message) => ⟨p.address i, receiver, message⟩

theorem mem_posted {i : ι} {reply : ρ} {e : Envelope P M} :
    e ∈ p.posted i reply ↔ e.sender = p.address i ∧
      p.sends reply = some (e.receiver, e.message) := by
  obtain ⟨sender, receiver, message⟩ := e
  cases sent : p.sends reply with
  | none => simp [posted, sent]
  | some pair =>
      obtain ⟨receiver', message'⟩ := pair
      simp only [posted, sent, Option.toList_some, List.map_cons, List.map_nil,
        List.mem_singleton, Envelope.mk.injEq, Option.some.injEq, Prod.mk.injEq]
      simp only [eq_comm]

variable [DecidableEq ι]

/-- One party acts; `rest` is what else is under way. -/
def perform (w : World ι P M σ) (i : ι) (a : α) (rest : List (Envelope P M)) :
    Option (Option ρ × World ι P M σ) :=
  (p.step i (w.states i) a).map fun (reply, s) =>
    (some reply, ⟨Function.update w.states i s, rest ++ p.posted i reply⟩)

theorem perform_eq_some {p : Protocol ι P M ε σ α ρ} {w w' : World ι P M σ} {i : ι} {a : α}
    {rest : List (Envelope P M)} {reply : Option ρ}
    (took : p.perform w i a rest = some (reply, w')) :
    ∃ r s, p.step i (w.states i) a = some (r, s) ∧ reply = some r ∧
      w' = ⟨Function.update w.states i s, rest ++ p.posted i r⟩ := by
  simp only [perform, Option.map_eq_some_iff, Prod.mk.injEq, Prod.exists] at took
  obtain ⟨r, s, stepped, rfl, rfl⟩ := took
  exact ⟨r, s, stepped, rfl, rfl⟩

variable [DecidableEq P]

def move (w : World ι P M σ) : Move ι ε α → Option (Option ρ × World ι P M σ)
  | .act i a => if p.own a then p.perform w i a w.net else none
  | .deliver k i drawn =>
      match w.net[k]? with
      | some e =>
          if e.receiver = p.address i then
            p.perform w i (p.receive e.sender e.message drawn) (w.net.eraseIdx k)
          else none
      | none => none
  | .drop k => some (none, ⟨w.states, w.net.eraseIdx k⟩)

/-- The runs of the network, each move with the reply to it. -/
abbrev Runs (ts : List (Transition (World ι P M σ) (Move ι ε α × Option ρ)))
    (w : World ι P M σ) : Prop :=
  Run (fun w label w' => p.move w label.1 = some (label.2, w')) p.start ts w

/-- What a move can be. -/
inductive Moved (w : World ι P M σ) :
    Move ι ε α → Option ρ → World ι P M σ → Prop where
  | act {i a reply s} : p.own a = true → p.step i (w.states i) a = some (reply, s) →
      Moved w (.act i a) (some reply)
        ⟨Function.update w.states i s, w.net ++ p.posted i reply⟩
  | deliver {k i drawn e reply s} : w.net[k]? = some e → e.receiver = p.address i →
      p.step i (w.states i) (p.receive e.sender e.message drawn) = some (reply, s) →
      Moved w (.deliver k i drawn) (some reply)
        ⟨Function.update w.states i s, w.net.eraseIdx k ++ p.posted i reply⟩
  | drop {k} : Moved w (.drop k) none ⟨w.states, w.net.eraseIdx k⟩

omit [DecidableEq P] in
/-- What a delivery does with the envelope it takes. -/
theorem Moved.delivered {p : Protocol ι P M ε σ α ρ} {w w' : World ι P M σ} {k : Nat} {i : ι}
    {drawn : ε} {reply : Option ρ} {e : Envelope P M}
    (moved : p.Moved w (.deliver k i drawn) reply w') (found : w.net[k]? = some e) :
    ∃ r s, reply = some r ∧ e.receiver = p.address i ∧
      p.step i (w.states i) (p.receive e.sender e.message drawn) = some (r, s) ∧
      w' = ⟨Function.update w.states i s, w.net.eraseIdx k ++ p.posted i r⟩ := by
  cases moved with
  | deliver found' addressed stepped =>
      obtain rfl := Option.some.inj (found'.symm.trans found)
      exact ⟨_, _, rfl, addressed, stepped, rfl⟩

theorem moved_of_move {p : Protocol ι P M ε σ α ρ} {w w' : World ι P M σ} {m : Move ι ε α}
    {reply : Option ρ} (took : p.move w m = some (reply, w')) : p.Moved w m reply w' := by
  cases m with
  | act i a =>
      simp only [move] at took
      split at took
      · rename_i own
        obtain ⟨r, s, stepped, rfl, rfl⟩ := perform_eq_some took
        exact .act own stepped
      · cases took
  | deliver k i drawn =>
      simp only [move] at took
      split at took
      · rename_i e found
        split at took
        · rename_i addressed
          obtain ⟨r, s, stepped, rfl, rfl⟩ := perform_eq_some took
          exact .deliver found addressed stepped
        · cases took
      · cases took
  | drop k =>
      obtain ⟨rfl, rfl⟩ := Prod.mk.inj (Option.some.inj took)
      exact .drop

end Protocol

end Lindy.Machine
