import Mathlib.Data.List.Infix

/-! # Runs of a labelled transition system

A run keeps every transition it took, with the state before and after it. A law about
single transitions, about every state along the way and about the state reached can then
be stated over one object, and a condition on the steps of a run is a condition on the
members of its list.
-/

namespace Lindy.Machine

/-- One step that was taken. -/
structure Transition (σ α : Type*) where
  pre : σ
  act : α
  post : σ

/-- The runs from `init`, each with the transitions it took, oldest first. -/
inductive Run {σ α : Type*} (step : σ → α → σ → Prop) (init : σ) :
    List (Transition σ α) → σ → Prop where
  | nil : Run step init [] init
  | snoc {ts s a s'} : Run step init ts s → step s a s' →
      Run step init (ts ++ [⟨s, a, s'⟩]) s'

namespace Run

variable {σ α : Type*} {step : σ → α → σ → Prop} {init : σ}

/-- What holds at the start and is kept by every step that meets `cond` holds after every
    run whose steps all meet it. The invariant may speak of the steps taken so far. -/
theorem history {I : List (Transition σ α) → σ → Prop} {cond : Transition σ α → Prop}
    (start : I [] init)
    (keep : ∀ ts s a s', Run step init ts s → I ts s → step s a s' → cond ⟨s, a, s'⟩ →
      I (ts ++ [⟨s, a, s'⟩]) s')
    {ts s} (run : Run step init ts s) (all : ∀ t ∈ ts, cond t) : I ts s := by
  induction run with
  | nil => exact start
  | snoc run took ih =>
      have before := ih (fun t member => all t (List.mem_append_left _ member))
      exact keep _ _ _ _ run before took (all _ (by simp))

/-- The state form of `history`. -/
theorem invariant {I : σ → Prop} {cond : Transition σ α → Prop} (start : I init)
    (keep : ∀ s a s', I s → step s a s' → cond ⟨s, a, s'⟩ → I s')
    {ts s} (run : Run step init ts s) (all : ∀ t ∈ ts, cond t) : I s :=
  run.history (I := fun _ s => I s) start (fun _ s a s' _ => keep s a s') all

/-- An invariant of every step, with no condition on the run. -/
theorem always {I : σ → Prop} (start : I init)
    (keep : ∀ s a s', I s → step s a s' → I s') {ts s} (run : Run step init ts s) : I s := by
  induction run with
  | nil => exact start
  | snoc _ took ih => exact keep _ _ _ ih took

/-- Every transition of a run was a step. -/
theorem taken {ts s} (run : Run step init ts s) {t : Transition σ α} (member : t ∈ ts) :
    step t.pre t.act t.post := by
  induction run with
  | nil => simp at member
  | snoc _ took ih =>
      cases List.mem_append.mp member with
      | inl earlier => exact ih earlier
      | inr last =>
          obtain rfl := List.mem_singleton.mp last
          exact took

/-- When the steps that meet `cond` keep an invariant and are good under it, a run whose
    steps all meet `cond` has only good steps. -/
theorem transitions {I : σ → Prop} {good cond : Transition σ α → Prop} (start : I init)
    (keep : ∀ s a s', I s → step s a s' → cond ⟨s, a, s'⟩ → I s' ∧ good ⟨s, a, s'⟩)
    {ts s} (run : Run step init ts s) (all : ∀ t ∈ ts, cond t) : ∀ t ∈ ts, good t := by
  induction run with
  | nil => simp
  | snoc run took ih =>
      have earlier : ∀ t ∈ _, cond t := fun t member => all t (List.mem_append_left _ member)
      have before : I _ :=
        run.invariant start (fun s a s' kept took met => (keep s a s' kept took met).1) earlier
      intro t member
      cases List.mem_append.mp member with
      | inl member => exact ih earlier t member
      | inr last =>
          obtain rfl := List.mem_singleton.mp last
          exact (keep _ _ _ before took (all _ (by simp))).2

/-- What fewer steps reach, more reach. -/
theorem mono {step' : σ → α → σ → Prop} {ts s} (run : Run step init ts s)
    (more : ∀ s a s', step s a s' → step' s a s') : Run step' init ts s := by
  induction run with
  | nil => exact .nil
  | snoc _ took ih => exact ih.snoc (more _ _ _ took)

/-- Running on from the end of a run. -/
theorem append {ts s us u} (run : Run step init ts s) (rest : Run step s us u) :
    Run step init (ts ++ us) u := by
  induction rest with
  | nil => simpa using run
  | snoc _ took ih => simpa only [List.append_assoc] using ih.snoc took

/-- A run can be cut anywhere. -/
theorem split {ts us u} (run : Run step init (ts ++ us) u) :
    ∃ s, Run step init ts s ∧ Run step s us u := by
  generalize both : ts ++ us = vs at run
  induction run generalizing us with
  | nil =>
      obtain ⟨rfl, rfl⟩ := List.append_eq_nil_iff.mp both
      exact ⟨init, .nil, .nil⟩
  | @snoc vs s a s' run took ih =>
      cases List.eq_nil_or_concat us with
      | inl empty =>
          subst empty
          rw [List.append_nil] at both
          exact ⟨s', both ▸ run.snoc took, .nil⟩
      | inr last =>
          obtain ⟨us, t, rfl⟩ := last
          rw [List.concat_eq_append, ← List.append_assoc] at both
          obtain ⟨rfl, same⟩ := List.append_inj' both rfl
          obtain rfl := List.singleton_inj.mp same
          obtain ⟨u, first, rest⟩ := ih rfl
          exact ⟨u, first, by simpa using rest.snoc took⟩

/-- The transitions of a run determine the state it ends in. -/
theorem final {ts s} (run : Run step init ts s) :
    s = (ts.getLast?.map Transition.post).getD init := by
  cases run with
  | nil => rfl
  | snoc => simp

theorem single {t u} (run : Run step init [t] u) :
    t.pre = init ∧ step init t.act u ∧ t.post = u := by
  generalize one : [t] = vs at run
  cases run with
  | nil => cases one
  | @snoc ts s a _ run took =>
      obtain ⟨rfl, rfl⟩ : ts = [] ∧ t = ⟨s, a, u⟩ := by
        obtain ⟨none, same⟩ : [] = ts ∧ [t] = [⟨s, a, u⟩] := List.append_inj' one rfl
        exact ⟨none.symm, List.singleton_inj.mp same⟩
      obtain rfl : s = init := run.final
      exact ⟨rfl, took, rfl⟩

/-- When the steps that meet `cond` keep an invariant, and under it lead on from a good
    state to a good one exactly if they meet `cond`, every state a run passes through is good
    exactly if its steps all meet `cond`. -/
theorem prefixes_iff {I good : List (Transition σ α) → σ → Prop} {cond : Transition σ α → Prop}
    (start : I [] init) (good_start : good [] init)
    (keep : ∀ ts s a s', Run step init ts s → I ts s → step s a s' → cond ⟨s, a, s'⟩ →
      I (ts ++ [⟨s, a, s'⟩]) s')
    (exact' : ∀ ts s a s', Run step init ts s → I ts s → good ts s → step s a s' →
      (good (ts ++ [⟨s, a, s'⟩]) s' ↔ cond ⟨s, a, s'⟩))
    {ts s} (run : Run step init ts s) :
    (∀ before u, before <+: ts → Run step init before u → good before u) ↔
      ∀ t ∈ ts, cond t := by
  induction run with
  | nil =>
      simp only [List.prefix_nil, List.not_mem_nil, false_implies, implies_true, iff_true]
      rintro before u rfl reached
      rw [reached.final]
      exact good_start
  | @snoc ts s a s' run took ih =>
      simp only [List.mem_append, List.mem_singleton, or_imp, forall_and, forall_eq]
      rw [← ih]
      constructor
      · intro all
        have earlier : ∀ before u, before <+: ts → Run step init before u → good before u :=
          fun before u sub => all before u (sub.trans (List.prefix_append _ _))
        refine ⟨earlier, ?_⟩
        have kept := run.history start keep (ih.mp earlier)
        exact (exact' ts s a s' run kept (earlier ts s List.prefix_rfl run) took).mp
          (all _ s' List.prefix_rfl (run.snoc took))
      · rintro ⟨earlier, met⟩ before u sub reached
        rcases List.prefix_concat_iff.mp sub with rfl | sub
        · have kept := run.history start keep (ih.mp earlier)
          have same : u = s' := reached.final.trans (run.snoc took).final.symm
          subst same
          exact (exact' ts s a u run kept (earlier ts s List.prefix_rfl run) took).mpr met
        · exact earlier before u sub reached

end Run

/-- The runs from `init`, and those that end with a step after which there is none. -/
inductive Halting {σ α : Type*} (step last : σ → α → σ → Prop) (init : σ) :
    List (Transition σ α) → σ → Prop where
  | going {ts s} : Run step init ts s → Halting step last init ts s
  | ended {ts s a s'} : Run step init ts s → last s a s' →
      Halting step last init (ts ++ [⟨s, a, s'⟩]) s'

namespace Halting

variable {σ α : Type*} {step last : σ → α → σ → Prop} {init : σ}

theorem final {ts s} (run : Halting step last init ts s) :
    s = (ts.getLast?.map Transition.post).getD init := by
  cases run with
  | going run => exact run.final
  | ended => simp

/-- On the way of a run nothing has ended. -/
theorem run_before {ts before s u} (run : Run step init ts s) (sub : before <+: ts)
    (reached : Halting step last init before u) : Run step init before u := by
  obtain ⟨rest, rfl⟩ := sub
  obtain ⟨v, first, -⟩ := run.split
  obtain rfl : u = v := reached.final.trans first.final.symm
  exact first

/-- `Run.prefixes_iff`, when the last step is good exactly if it meets `cond`, too. -/
theorem prefixes_iff {I good : List (Transition σ α) → σ → Prop} {cond : Transition σ α → Prop}
    (start : I [] init) (good_start : good [] init)
    (keep : ∀ ts s a s', Run step init ts s → I ts s → step s a s' → cond ⟨s, a, s'⟩ →
      I (ts ++ [⟨s, a, s'⟩]) s')
    (exact' : ∀ ts s a s', Run step init ts s → I ts s → good ts s → step s a s' →
      (good (ts ++ [⟨s, a, s'⟩]) s' ↔ cond ⟨s, a, s'⟩))
    (exact_last : ∀ ts s a s', Run step init ts s → I ts s → good ts s → last s a s' →
      (good (ts ++ [⟨s, a, s'⟩]) s' ↔ cond ⟨s, a, s'⟩))
    {us w} (run : Halting step last init us w) :
    (∀ before u, before <+: us → Halting step last init before u → good before u) ↔
      ∀ t ∈ us, cond t := by
  have along : ∀ {ts s}, Run step init ts s →
      ((∀ before u, before <+: ts → Halting step last init before u → good before u) ↔
        ∀ t ∈ ts, cond t) := by
    intro ts s run
    rw [← run.prefixes_iff start good_start keep exact']
    exact ⟨fun all before u sub reached => all before u sub (.going reached),
      fun all before u sub reached => all before u sub (run_before run sub reached)⟩
  cases run with
  | going run => exact along run
  | @ended ts s a _ run ends =>
      simp only [List.mem_append, List.mem_singleton, or_imp, forall_and, forall_eq]
      rw [← along run]
      constructor
      · intro all
        have earlier : ∀ before u, before <+: ts → Halting step last init before u →
            good before u := fun before u sub => all before u (sub.trans (List.prefix_append _ _))
        refine ⟨earlier, ?_⟩
        have kept := run.history start keep ((along run).mp earlier)
        exact (exact_last ts s a w run kept (earlier ts s List.prefix_rfl (.going run)) ends).mp
          (all _ w List.prefix_rfl (.ended run ends))
      · rintro ⟨earlier, met⟩ before u sub reached
        rcases List.prefix_concat_iff.mp sub with rfl | sub
        · have kept := run.history start keep ((along run).mp earlier)
          have same : u = w := reached.final.trans (Halting.ended run ends).final.symm
          subst same
          exact (exact_last ts s a u run kept (earlier ts s List.prefix_rfl (.going run))
            ends).mpr met
        · exact earlier before u sub reached

end Halting

/-- Execute a list of actions with a step function that may refuse one. -/
def exec {σ α : Type*} (f : σ → α → Option σ) (init : σ) :
    List α → Option (List (Transition σ α) × σ)
  | [] => some ([], init)
  | a :: as =>
      match f init a with
      | none => none
      | some s => (exec f s as).map fun (ts, u) => (⟨init, a, s⟩ :: ts, u)

theorem exec_run {σ α : Type*} {f : σ → α → Option σ} {init : σ} {as ts u}
    (done : exec f init as = some (ts, u)) :
    Run (fun s a s' => f s a = some s') init ts u := by
  induction as generalizing init ts with
  | nil =>
      simp only [exec, Option.some.injEq, Prod.mk.injEq] at done
      obtain ⟨rfl, rfl⟩ := done
      exact .nil
  | cons a as ih =>
      simp only [exec] at done
      split at done
      · cases done
      · rename_i s took
        simp only [Option.map_eq_some_iff, Prod.mk.injEq, Prod.exists] at done
        obtain ⟨us, v, rest, rfl, rfl⟩ := done
        have first : Run (fun s a s' => f s a = some s') init [⟨init, a, s⟩] s :=
          .snoc .nil took
        exact first.append (ih rest)

/-- The same with a step function that replies; the replies are kept in the labels. -/
def execReplies {σ α ρ : Type*} (f : σ → α → Option (ρ × σ)) (init : σ) :
    List α → Option (List (Transition σ (α × ρ)) × σ)
  | [] => some ([], init)
  | a :: as =>
      match f init a with
      | none => none
      | some (reply, s) =>
          (execReplies f s as).map fun (ts, u) => (⟨init, (a, reply), s⟩ :: ts, u)

theorem execReplies_run {σ α ρ : Type*} {f : σ → α → Option (ρ × σ)} {init : σ} {as ts u}
    (done : execReplies f init as = some (ts, u)) :
    Run (fun s label s' => f s label.1 = some (label.2, s')) init ts u := by
  induction as generalizing init ts with
  | nil =>
      simp only [execReplies, Option.some.injEq, Prod.mk.injEq] at done
      obtain ⟨rfl, rfl⟩ := done
      exact .nil
  | cons a as ih =>
      simp only [execReplies] at done
      split at done
      · cases done
      · rename_i reply s took
        simp only [Option.map_eq_some_iff, Prod.mk.injEq, Prod.exists] at done
        obtain ⟨us, v, rest, rfl, rfl⟩ := done
        have first : Run (fun s label s' => f s label.1 = some (label.2, s')) init
            [⟨init, (a, reply), s⟩] s := .snoc .nil took
        exact first.append (ih rest)

end Lindy.Machine
