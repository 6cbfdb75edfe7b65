import Lindy.Machine.Run
import Mathlib.Data.List.Forall2

/-! # Forward simulation

A machine is followed by another one when each of its steps is matched by some steps of the
other, so that the two stay related. Then every run of the first is matched by a run of the
second.
-/

namespace Lindy.Machine.Run

variable {σ α τ β : Type*} {step : σ → α → σ → Prop} {init : σ} {step' : τ → β → τ → Prop}
  {init' : τ}

/-- Every run whose steps all meet `cond` is matched by a run of the machine that follows, whose
    steps all meet `cond'`. -/
theorem simulate {R : σ → τ → Prop} {cond : Transition σ α → Prop}
    {cond' : Transition τ β → Prop} (start : R init init')
    (follow : ∀ {s u a s'}, R s u → step s a s' → cond ⟨s, a, s'⟩ →
      ∃ vs u', Run step' u vs u' ∧ (∀ t ∈ vs, cond' t) ∧ R s' u')
    {ts s} (run : Run step init ts s) (all : ∀ t ∈ ts, cond t) :
    ∃ us u, Run step' init' us u ∧ (∀ t ∈ us, cond' t) ∧ R s u := by
  induction run with
  | nil => exact ⟨[], init', .nil, by simp, start⟩
  | snoc run took ih =>
      obtain ⟨us, u, before, met, related⟩ :=
        ih fun t member => all t (List.mem_append_left _ member)
      obtain ⟨vs, u', more, met', kept⟩ := follow related took (all _ (by simp))
      refine ⟨us ++ vs, u', before.append more, fun t member => ?_, kept⟩
      exact (List.mem_append.mp member).elim (met t) (met' t)

/-- A machine that holds another one: a step is one step of the machine it holds, or leaves it
    alone. What the held machine did is one of its runs, and shows step by step. -/
theorem project {I : σ → Prop} (held : σ → τ) {visible : Transition σ α → Bool}
    {shows : Transition σ α → Transition τ β → Prop} (start : I init) (fresh : held init = init')
    (keep : ∀ s a s', I s → step s a s' → I s')
    (silent : ∀ s a s', I s → step s a s' → visible ⟨s, a, s'⟩ = false → held s' = held s)
    (shown : ∀ s a s', I s → step s a s' → visible ⟨s, a, s'⟩ = true →
      ∃ b, step' (held s) b (held s') ∧ shows ⟨s, a, s'⟩ ⟨held s, b, held s'⟩)
    {ts s} (run : Run step init ts s) :
    ∃ us, Run step' init' us (held s) ∧ List.Forall₂ shows (ts.filter visible) us := by
  induction run with
  | nil => exact ⟨[], fresh ▸ .nil, .nil⟩
  | @snoc ts s a s' run took ih =>
      obtain ⟨us, before, seen⟩ := ih
      have kept : I s := run.always start keep
      rw [List.filter_append, List.filter_singleton]
      cases sight : visible ⟨s, a, s'⟩ with
      | false =>
          rw [silent s a s' kept took sight]
          exact ⟨us, before, by simpa using seen⟩
      | true =>
          obtain ⟨b, stepped, same⟩ := shown s a s' kept took sight
          exact ⟨us ++ [_], before.snoc stepped, List.rel_append seen (.cons same .nil)⟩

end Lindy.Machine.Run

namespace Lindy.Machine

/-- What can be told from the steps that show can be told from what they show as. -/
theorem filterMap_of_shown {α β γ : Type*} {shows : α → β → Prop} {visible : α → Bool}
    {f : α → Option γ} {g : β → Option γ} {ts : List α} {us : List β}
    (shown : List.Forall₂ shows (ts.filter visible) us)
    (same : ∀ t u, shows t u → g u = f t) (silent : ∀ t, visible t = false → f t = none) :
    us.filterMap g = ts.filterMap f := by
  have kept : (ts.filter visible).filterMap f = ts.filterMap f := by
    rw [List.filterMap_filter]
    refine List.filterMap_congr fun t _ => ?_
    cases sight : visible t with
    | true => rfl
    | false => exact (silent t sight).symm
  rw [← kept]
  clear kept
  generalize ts.filter visible = vs at shown ⊢
  induction shown with
  | nil => rfl
  | cons head _ ih => rw [List.filterMap_cons, List.filterMap_cons, same _ _ head, ih]

end Lindy.Machine
