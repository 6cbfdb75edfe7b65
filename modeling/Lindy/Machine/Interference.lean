import Lindy.Machine.Fallible
import Mathlib.Logic.Relation

/-! # Operations among others

While an operation waits, others change the state it works on. `meanwhile` says what they do
at each point where it waits; what is left of the operation when that is taken away is what it
did itself.
-/

namespace Lindy.Machine

variable {Point ε σ α β : Type}

/-- Between the two states only others have moved. -/
def Others (meanwhile : Point → σ → σ) : σ → σ → Prop :=
  Relation.ReflTransGen fun s t => ∃ point, t = meanwhile point s

/-- An operation waits at a point. -/
def await (meanwhile : Point → σ → σ) (point : Point) : EStateM ε σ Unit :=
  modify (meanwhile point)

@[simp] theorem await_apply (meanwhile : Point → σ → σ) (point : Point) (s : σ) :
    (await meanwhile point : EStateM ε σ Unit) s = .ok () (meanwhile point s) := rfl

namespace Others

variable {meanwhile : Point → σ → σ} {s t u : σ}

theorem refl : Others meanwhile s s := Relation.ReflTransGen.refl

theorem trans (first : Others meanwhile s t) (rest : Others meanwhile t u) :
    Others meanwhile s u :=
  Relation.ReflTransGen.trans first rest

theorem single (point : Point) : Others meanwhile s (meanwhile point s) :=
  Relation.ReflTransGen.single ⟨point, rfl⟩

/-- Others that never move leave the state as it was. -/
theorem eq_of_still (moved : Others meanwhile s t) (still : ∀ point u, meanwhile point u = u) :
    t = s := by
  induction moved with
  | refl => rfl
  | tail _ last ih =>
      obtain ⟨point, rfl⟩ := last
      exact (still point _).trans ih

end Others

/-- Once the operation succeeds, only others have moved. -/
def Observes (meanwhile : Point → σ → σ) (x : EStateM ε σ α) : Prop :=
  ∀ s a t, x s = .ok a t → Others meanwhile s t

/-- When the operation fails with an error that counts, only others have moved. -/
def FailsClean (meanwhile : Point → σ → σ) (counts : ε → Prop) (x : EStateM ε σ α) : Prop :=
  ∀ s e t, x s = .error e t → counts e → Others meanwhile s t

variable {meanwhile : Point → σ → σ} {counts : ε → Prop}

theorem Observes.await (point : Point) :
    Observes meanwhile (await meanwhile point : EStateM ε σ Unit) := by
  intro s a t done
  injection done with _ moved
  exact moved ▸ .single point

theorem Observes.of_reads {x : EStateM ε σ α} (reads : Reads x) : Observes meanwhile x := by
  intro s a t done
  rcases reads s with ⟨b, same⟩ | ⟨e, failed⟩
  · injection done.symm.trans same with _ moved
    exact moved ▸ .refl
  · cases done.symm.trans failed

theorem Observes.bind {x : EStateM ε σ α} {f : α → EStateM ε σ β}
    (first : Observes meanwhile x) (rest : ∀ a, Observes meanwhile (f a)) :
    Observes meanwhile (x >>= f) := by
  intro s b u done
  obtain ⟨a, t, before, after⟩ := bind_eq_ok.mp done
  exact (first s a t before).trans (rest a t b u after)

namespace FailsClean

theorem await (point : Point) :
    FailsClean meanwhile counts (await meanwhile point : EStateM ε σ Unit) := by
  intro s e t failed
  cases failed

theorem of_reads {x : EStateM ε σ α} (reads : Reads x) : FailsClean meanwhile counts x := by
  intro s e t failed _
  rcases reads s with ⟨b, done⟩ | ⟨e', same⟩
  · cases failed.symm.trans done
  · injection failed.symm.trans same with _ moved
    exact moved ▸ .refl

/-- What does nothing of its own may come first. -/
theorem bind {x : EStateM ε σ α} {f : α → EStateM ε σ β} (first : FailsClean meanwhile counts x)
    (observes : Observes meanwhile x) (rest : ∀ a, FailsClean meanwhile counts (f a)) :
    FailsClean meanwhile counts (x >>= f) := by
  intro s e u failed counted
  cases before : x s with
  | ok a t =>
      rw [bind_of_ok before] at failed
      exact (observes s a t before).trans (rest a t e u failed counted)
  | error e' t =>
      rw [bind_of_error before] at failed
      injection failed with same moved
      exact moved ▸ first s e' t before (same ▸ counted)

/-- What never fails in a way that counts may come last. -/
theorem bind_last {x : EStateM ε σ α} {f : α → EStateM ε σ β}
    (first : FailsClean meanwhile counts x)
    (last : ∀ a s e t, f a s = .error e t → ¬ counts e) :
    FailsClean meanwhile counts (x >>= f) := by
  intro s e u failed counted
  cases before : x s with
  | ok a t =>
      rw [bind_of_ok before] at failed
      exact absurd counted (last a t e u failed)
  | error e' t =>
      rw [bind_of_error before] at failed
      injection failed with same moved
      exact moved ▸ first s e' t before (same ▸ counted)

end FailsClean

end Lindy.Machine
