import Mathlib.Logic.Basic
import Mathlib.Tactic.Choose

/-! # Fallible operations on a state

`EStateM` without backtracking: an operation that fails keeps the state it had reached. The
lemmas take a computation apart at its binds, and single out operations that store nothing.
-/

namespace Lindy.Machine

variable {ε σ α β : Type}

theorem bind_eq_ok {x : EStateM ε σ α} {f : α → EStateM ε σ β} {s u : σ} {b : β} :
    (x >>= f) s = .ok b u ↔ ∃ a t, x s = .ok a t ∧ f a t = .ok b u := by
  simp only [bind, EStateM.bind]
  cases x s with
  | ok a t => simp [and_assoc]
  | error e t => simp

theorem bind_of_ok {x : EStateM ε σ α} {f : α → EStateM ε σ β} {s t : σ} {a : α}
    (done : x s = .ok a t) : (x >>= f) s = f a t := by
  simp only [bind, EStateM.bind, done]

theorem bind_of_error {x : EStateM ε σ α} {f : α → EStateM ε σ β} {s t : σ} {e : ε}
    (failed : x s = .error e t) : (x >>= f) s = .error e t := by
  simp only [bind, EStateM.bind, failed]

@[simp] theorem pure_apply (a : α) (s : σ) : (pure a : EStateM ε σ α) s = .ok a s := rfl

@[simp] theorem throw_apply (e : ε) (s : σ) : (throw e : EStateM ε σ α) s = .error e s := rfl

@[simp] theorem get_apply (s : σ) : (get : EStateM ε σ σ) s = .ok s s := rfl

/-- The operation leaves the state alone, whether it succeeds or not. -/
def Reads (x : EStateM ε σ α) : Prop :=
  ∀ s, (∃ a, x s = .ok a s) ∨ ∃ e, x s = .error e s

namespace Reads

theorem pure (a : α) : Reads (pure a : EStateM ε σ α) := fun _ => .inl ⟨a, rfl⟩

theorem throw (e : ε) : Reads (throw e : EStateM ε σ α) := fun _ => .inr ⟨e, rfl⟩

theorem get : Reads (get : EStateM ε σ σ) := fun s => .inl ⟨s, rfl⟩

theorem bind {x : EStateM ε σ α} {f : α → EStateM ε σ β} (first : Reads x)
    (rest : ∀ a, Reads (f a)) : Reads (x >>= f) := by
  intro s
  rcases first s with ⟨a, done⟩ | ⟨e, failed⟩
  · simpa only [bind_of_ok done] using rest a s
  · exact .inr ⟨e, bind_of_error failed⟩

end Reads

/-- The result of an operation, and the state it leaves. -/
def resultOf (x : EStateM ε σ α) (s : σ) : Except ε α × σ :=
  match x s with
  | .ok a t => (.ok a, t)
  | .error e t => (.error e, t)

theorem resultOf_of_ok {x : EStateM ε σ α} {s t : σ} {a : α} (done : x s = .ok a t) :
    resultOf x s = (.ok a, t) := by
  simp only [resultOf, done]

theorem resultOf_of_error {x : EStateM ε σ α} {s t : σ} {e : ε} (failed : x s = .error e t) :
    resultOf x s = (.error e, t) := by
  simp only [resultOf, failed]

/-- The operation leaves the state alone, and its result depends on a part of it only. -/
def Depends {β : Type} (view : σ → β) (x : EStateM ε σ α) : Prop :=
  ∃ result : β → Except ε α, ∀ s, resultOf x s = (result (view s), s)

namespace Depends

variable {γ : Type} {view : σ → γ}

theorem pure (a : α) : Depends view (pure a : EStateM ε σ α) := ⟨fun _ => .ok a, fun _ => rfl⟩

theorem throw (e : ε) : Depends view (throw e : EStateM ε σ α) :=
  ⟨fun _ => .error e, fun _ => rfl⟩

theorem bind {x : EStateM ε σ α} {f : α → EStateM ε σ β} (first : Depends view x)
    (rest : ∀ a, Depends view (f a)) : Depends view (x >>= f) := by
  obtain ⟨result, same⟩ := first
  choose results sames using rest
  refine ⟨fun b => result b >>= fun a => results a b, fun s => ?_⟩
  have before := same s
  cases done : x s with
  | ok a t =>
      rw [resultOf_of_ok done] at before
      obtain ⟨known, rfl⟩ := Prod.mk.inj before
      simp only [← known, resultOf, bind_of_ok done]
      exact sames a t
  | error e t =>
      rw [resultOf_of_error done] at before
      obtain ⟨known, rfl⟩ := Prod.mk.inj before
      simp only [← known, resultOf, bind_of_error done]
      rfl

/-- What is done with the state is determined by the part of it that counts. -/
theorem get_bind {f : σ → EStateM ε σ α} (whole : γ → σ) (same : ∀ s, f s = f (whole (view s)))
    (rest : ∀ s, Depends view (f s)) : Depends view (get >>= f) := by
  choose results sames using rest
  refine ⟨fun b => results (whole b) b, fun s => ?_⟩
  have run : (get >>= f) s = f (whole (view s)) s := by rw [bind_of_ok (get_apply s), ← same]
  simp only [resultOf, run]
  exact sames _ s

end Depends

end Lindy.Machine
