import Lindy.Machine.Run

/-! # What allowed steps lead to

That a machine is not stuck says little where it can always do something else. What is wanted
is that from some state on, steps of a kind that nothing can hold up lead to a goal. Such
statements compose: goal after goal, by a measure that goes down, and from a part of a machine
to the whole.
-/

namespace Lindy.Machine

variable {σ α τ β : Type*} {step : σ → α → σ → Prop} {step' : τ → β → τ → Prop}
  {allowed : α → Prop} {allowed' : β → Prop} {goal mid : σ → Prop} {s s' : σ} {a : α}

/-- From a state on, some allowed steps lead to the goal. -/
def Leads (step : σ → α → σ → Prop) (allowed : α → Prop) (goal : σ → Prop) (s : σ) : Prop :=
  ∃ us s', Run step s us s' ∧ (∀ t ∈ us, allowed t.act) ∧ goal s'

namespace Leads

theorem here (there : goal s) : Leads step allowed goal s :=
  ⟨[], s, .nil, by simp, there⟩

/-- One goal after the other. -/
theorem trans (first : Leads step allowed mid s)
    (rest : ∀ s, mid s → Leads step allowed goal s) : Leads step allowed goal s := by
  obtain ⟨us, u, before, kind, there⟩ := first
  obtain ⟨vs, v, after, kind', done⟩ := rest u there
  refine ⟨us ++ vs, v, before.append after, ?_, done⟩
  intro t member
  exact (List.mem_append.mp member).elim (kind t) (kind' t)

theorem step_first (took : step s a s') (may : allowed a) (rest : Leads step allowed goal s') :
    Leads step allowed goal s := by
  have first : Leads step allowed (· = s') s :=
    ⟨[_], s', Run.nil.snoc took, by simpa using may, rfl⟩
  exact first.trans fun _ same => same ▸ rest

theorem mono (h : Leads step allowed mid s) (more : ∀ s, mid s → goal s) :
    Leads step allowed goal s :=
  h.trans fun s there => .here (more s there)

/-- What fewer kinds of steps lead to, more lead to. -/
theorem widen {more : α → Prop} (h : Leads step allowed goal s) (all : ∀ a, allowed a → more a) :
    Leads step more goal s := by
  obtain ⟨us, s', run, kind, there⟩ := h
  exact ⟨us, s', run, fun t member => all _ (kind t member), there⟩

/-- Allowed steps that make a measure smaller until the goal is reached. -/
theorem descend {I : σ → Prop} (μ : σ → Nat)
    (down : ∀ s, I s → ¬ goal s → ∃ a s', step s a s' ∧ allowed a ∧ I s' ∧ μ s' < μ s)
    (kept : I s) : Leads step allowed goal s := by
  induction size : μ s using Nat.strong_induction_on generalizing s with
  | _ m ih =>
      by_cases there : goal s
      · exact .here there
      · obtain ⟨a, s', took, may, kept', smaller⟩ := down s kept there
        exact .step_first took may (ih _ (size ▸ smaller) kept' rfl)

/-- What a part of a machine is led to, the whole is led to. -/
theorem lift (f : σ → τ) (act : α → β) (embed : ∀ s a s', step s a s' → allowed a →
      step' (f s) (act a) (f s') ∧ allowed' (act a)) (h : Leads step allowed goal s) :
    Leads step' allowed' (fun u => ∃ s', goal s' ∧ u = f s') (f s) := by
  obtain ⟨us, u, run, kind, there⟩ := h
  suffices lifted : ∃ vs, Run step' (f s) vs (f u) ∧ ∀ t ∈ vs, allowed' t.act by
    obtain ⟨vs, run', kind'⟩ := lifted
    exact ⟨vs, f u, run', kind', u, there, rfl⟩
  clear there
  induction run with
  | nil => exact ⟨[], .nil, by simp⟩
  | @snoc us u a u' run took ih =>
      obtain ⟨vs, run', kind'⟩ := ih fun t member => kind t (List.mem_append_left _ member)
      obtain ⟨took', may⟩ := embed u a u' took (kind ⟨u, a, u'⟩ (by simp))
      refine ⟨vs ++ [_], run'.snoc took', ?_⟩
      intro t member
      rcases List.mem_append.mp member with earlier | last
      · exact kind' t earlier
      · obtain rfl := List.mem_singleton.mp last
        exact may

end Leads

end Lindy.Machine
