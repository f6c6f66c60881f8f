import Mathlib.Tactic

/-!
# Transition systems and their runs

A `Machine` has a set of initial states and a partial step function: `step s a = none` when
the action `a` is not enabled in `s`. A run is a list of enabled actions. Every notion takes
a side condition `ok`, so that a property may be proved of the runs whose steps all meet it;
`Always` is the condition of an unrestricted run.

* `Reach` — the states that such a run reaches.
* `Reach.induct` — the invariant rule.
* `Run.exists_step` — the step of a run that establishes what holds at its end.
* `Run.exists_of_variant` — the variant rule: a run that leads to a goal.
* `exec` — the executable run; `Run.of_exec` and `Run.exists_of_exec` turn it into a `Run`.
* `execChecked` — the same where the condition depends on the states, by a test that implies it.
-/

namespace NotificationSystem.Lib

/-- A labelled transition system with a partial step function. -/
structure Machine (σ α : Type*) where
  init : σ → Prop
  step : σ → α → Option σ

namespace Machine

variable {σ α : Type*} (M : Machine σ α)

/-- The side condition that every step meets. -/
def Always : σ → α → Prop := fun _ _ => True

/-- `Run ok s as s'`: the actions `as` lead from `s` to `s'`, each meeting `ok` where it is
taken. -/
inductive Run (ok : σ → α → Prop) (s : σ) : List α → σ → Prop
  | nil : Run ok s [] s
  | snoc {as : List α} {t t' : σ} {a : α} :
      Run ok s as t → ok t a → M.step t a = some t' → Run ok s (as ++ [a]) t'

/-- The states that runs from an initial state reach. -/
def Reach (ok : σ → α → Prop) (s : σ) : Prop := ∃ s₀ as, M.init s₀ ∧ M.Run ok s₀ as s

/-- Run a list of actions. -/
def exec : σ → List α → Option σ
  | s, [] => some s
  | s, a :: as => (M.step s a).bind fun s' => exec s' as

variable {M} {ok ok' : σ → α → Prop} {s t u : σ} {as bs : List α} {a : α}

theorem Run.single (hok : ok s a) (h : M.step s a = some t) : M.Run ok s [a] t :=
  (Run.snoc .nil hok h : M.Run ok s ([] ++ [a]) t)

theorem Run.trans (h₁ : M.Run ok s as t) (h₂ : M.Run ok t bs u) : M.Run ok s (as ++ bs) u := by
  induction h₂ with
  | nil => simpa using h₁
  | snoc _ hok hstep ih =>
    rw [← List.append_assoc]
    exact .snoc ih hok hstep

theorem Run.mono (himp : ∀ s a, ok s a → ok' s a) (h : M.Run ok s as t) : M.Run ok' s as t := by
  induction h with
  | nil => exact .nil
  | snoc _ hok hstep ih => exact .snoc ih (himp _ _ hok) hstep

theorem Run.always (h : M.Run ok s as t) : M.Run Always s as t :=
  h.mono fun _ _ _ => trivial

theorem Reach.init (h : M.init s) : M.Reach ok s := ⟨s, [], h, .nil⟩

theorem Reach.step (h : M.Reach ok s) (hok : ok s a) (hstep : M.step s a = some t) :
    M.Reach ok t := by
  obtain ⟨s₀, as, hinit, hrun⟩ := h
  exact ⟨s₀, as ++ [a], hinit, hrun.snoc hok hstep⟩

theorem Reach.run (h : M.Reach ok s) (hrun : M.Run ok s as t) : M.Reach ok t := by
  obtain ⟨s₀, bs, hinit, hrun₀⟩ := h
  exact ⟨s₀, bs ++ as, hinit, hrun₀.trans hrun⟩

theorem Reach.always (h : M.Reach ok s) : M.Reach Always s := by
  obtain ⟨s₀, as, hinit, hrun⟩ := h
  exact ⟨s₀, as, hinit, hrun.always⟩

theorem Run.of_snoc (h : M.Run ok s (as ++ [a]) t) :
    ∃ u, M.Run ok s as u ∧ ok u a ∧ M.step u a = some t := by
  generalize hbs : as ++ [a] = bs at h
  cases h with
  | nil => simp at hbs
  | snoc hrun hok hstep =>
    obtain ⟨rfl, h⟩ := List.append_inj' hbs rfl
    obtain rfl := List.singleton_inj.1 h
    exact ⟨_, hrun, hok, hstep⟩

theorem Run.unique (h : M.Run ok s as t) (h' : M.Run ok' s as u) : t = u := by
  induction h generalizing u with
  | nil =>
    generalize hbs : ([] : List α) = bs at h'
    cases h' with
    | nil => rfl
    | snoc => simp at hbs
  | snoc _ _ hstep ih =>
    obtain ⟨v, hrun, -, hstep'⟩ := h'.of_snoc
    rw [ih hrun, hstep'] at hstep
    exact (Option.some.inj hstep).symm

theorem Run.and (h : M.Run ok s as t) (h' : M.Run ok' s as t) :
    M.Run (fun s a => ok s a ∧ ok' s a) s as t := by
  induction h with
  | nil => exact .nil
  | snoc hrun hok hstep ih =>
    obtain ⟨v, hrun', hok', hstep'⟩ := h'.of_snoc
    obtain rfl := hrun.unique hrun'
    exact .snoc (ih hrun') ⟨hok, hok'⟩ hstep

/-- **The run rule.** What holds at the start of a run and is preserved by every step from a
reachable state holds at its end. -/
theorem Run.induct {I : σ → Prop} (hs : M.Reach ok s) (h₀ : I s)
    (hstep : ∀ t a t', M.Reach ok t → I t → ok t a → M.step t a = some t' → I t')
    (hrun : M.Run ok s as t) : I t := by
  induction hrun with
  | nil => exact h₀
  | snoc hr hok h ih => exact hstep _ _ _ (hs.run hr) ih hok h

/-- **The invariant rule.** The step case may use that the state is reachable, hence every
invariant proved before. -/
theorem Reach.induct {I : σ → Prop} (h₀ : ∀ s, M.init s → I s)
    (hstep : ∀ t a t', M.Reach ok t → I t → ok t a → M.step t a = some t' → I t')
    (h : M.Reach ok s) : I s := by
  obtain ⟨s₀, as, hinit, hrun⟩ := h
  exact Run.induct (.init hinit) (h₀ s₀ hinit) hstep hrun

/-- A run whose steps meet one condition meets another that follows from it in every reachable
state. -/
theorem Run.imp (hs : M.Reach ok s)
    (himp : ∀ t a t', M.Reach ok t → ok t a → M.step t a = some t' → ok' t a)
    (hrun : M.Run ok s as t) : M.Run ok' s as t := by
  induction hrun with
  | nil => exact .nil
  | snoc hr hok hstep ih => exact .snoc ih (himp _ _ _ (hs.run hr) hok hstep) hstep

theorem Reach.imp (himp : ∀ t a t', M.Reach ok t → ok t a → M.step t a = some t' → ok' t a)
    (h : M.Reach ok s) : M.Reach ok' s := by
  obtain ⟨s₀, as, hinit, hrun⟩ := h
  exact ⟨s₀, as, hinit, hrun.imp (.init hinit) himp⟩

/-- What does not hold at the start of a run and holds at its end, some step of the run
establishes. -/
theorem Run.exists_step {P : σ → Prop} (hrun : M.Run ok s as t) (hs : ¬ P s) (ht : P t) :
    ∃ bs a cs u u', as = bs ++ a :: cs ∧ M.Run ok s bs u ∧ ok u a ∧ M.step u a = some u' ∧
      ¬ P u ∧ P u' := by
  induction hrun with
  | nil => exact absurd ht hs
  | @snoc as u t a hr hok hstep ih =>
    by_cases hu : P u
    · obtain ⟨bs, b, cs, v, v', rfl, h⟩ := ih hu
      exact ⟨bs, b, cs ++ [a], v, v', by simp, h⟩
    · exact ⟨as, a, [], u, t, rfl, hr, hok, hstep, hu, ht⟩

/-- **The variant rule.** Where every state short of the goal has a step that keeps the invariant
and lowers the variant, a run leads to the goal. -/
theorem Run.exists_of_variant {I : Nat → σ → Prop} {goal : σ → Prop}
    (hstep : ∀ n s, I n s → ¬ goal s → ∃ a t m, m < n ∧ ok s a ∧ M.step s a = some t ∧ I m t)
    {n : Nat} (h : I n s) : ∃ as t m, M.Run ok s as t ∧ I m t ∧ goal t := by
  induction n using Nat.strongRecOn generalizing s with
  | ind n ih =>
    by_cases hgoal : goal s
    · exact ⟨[], s, n, .nil, h, hgoal⟩
    · obtain ⟨a, t, m, hlt, hok, ht, hI⟩ := hstep n s h hgoal
      obtain ⟨as, u, k, hrun, hu, hg⟩ := ih m hlt hI
      exact ⟨a :: as, u, k, (Run.single hok ht).trans hrun, hu, hg⟩

/-- An executed list of actions is a run, when each of its actions meets the condition in
whatever state it is taken. -/
theorem Run.of_exec (hok : ∀ s, ∀ a ∈ as, ok s a) (h : M.exec s as = some t) :
    M.Run ok s as t := by
  induction as generalizing s with
  | nil =>
    obtain rfl : s = t := by simpa [exec] using h
    exact .nil
  | cons a as ih =>
    obtain ⟨s', hs', h'⟩ := Option.bind_eq_some_iff.1 h
    have htail := ih (fun s b hb => hok s b (List.mem_cons_of_mem _ hb)) h'
    exact (Run.single (hok s a List.mem_cons_self) hs').trans htail

theorem Run.of_exec_always (h : M.exec s as = some t) : M.Run Always s as t :=
  Run.of_exec (fun _ _ _ => trivial) h

theorem Run.exists_of_exec (M : Machine σ α) (ok : σ → α → Prop) (s : σ) (as : List α)
    (p : σ → Bool) (hok : ∀ s, ∀ a ∈ as, ok s a)
    (h : (M.exec s as).any p = true) : ∃ t, M.Run ok s as t ∧ p t = true := by
  obtain ⟨t, ht, hp⟩ := (Option.any_eq_true _ _).1 h
  exact ⟨t, Run.of_exec hok ht, hp⟩

theorem Run.exists_of_exec_always (M : Machine σ α) (s : σ) (as : List α) (p : σ → Bool)
    (h : (M.exec s as).any p = true) : ∃ t, M.Run Always s as t ∧ p t = true :=
  exists_of_exec M Always s as p (fun _ _ _ => trivial) h

/-- Run a list of actions, each of which passes a test where it is taken. -/
def execChecked (M : Machine σ α) (c : σ → α → Bool) : σ → List α → Option σ
  | s, [] => some s
  | s, a :: as => if c s a then (M.step s a).bind fun s' => M.execChecked c s' as else none

/-- Such a run meets every condition that the test implies. -/
theorem Run.of_execChecked {c : σ → α → Bool} (hc : ∀ s a, c s a = true → ok s a)
    (h : M.execChecked c s as = some t) : M.Run ok s as t := by
  induction as generalizing s with
  | nil =>
    obtain rfl : s = t := by simpa [execChecked] using h
    exact .nil
  | cons a as ih =>
    unfold execChecked at h
    split at h
    · next ha =>
      obtain ⟨s', hs', h'⟩ := Option.bind_eq_some_iff.1 h
      exact (Run.single (hc s a ha) hs').trans (ih h')
    · cases h

theorem Run.exists_of_execChecked (M : Machine σ α) (ok : σ → α → Prop) (c : σ → α → Bool) (s : σ)
    (as : List α) (p : σ → Bool) (hc : ∀ s a, c s a = true → ok s a)
    (h : (M.execChecked c s as).any p = true) : ∃ t, M.Run ok s as t ∧ p t = true := by
  obtain ⟨t, ht, hp⟩ := (Option.any_eq_true _ _).1 h
  exact ⟨t, Run.of_execChecked hc ht, hp⟩

theorem step_of_exec {p : σ → Bool} (h : (M.exec s [a]).any p = true) :
    ∃ t, M.step s a = some t ∧ p t = true := by
  cases hstep : M.step s a with
  | none => simp [exec, hstep] at h
  | some t => exact ⟨t, rfl, by simpa [exec, hstep] using h⟩

end Machine

end NotificationSystem.Lib
