import NotificationSystem.Lib.History

/-!
# Refinement

With each step a machine tells its environment something: the events that `events s a t` lists.
It refines an abstract machine, whose actions these events are, when whatever it tells in a run
is a run of the abstract machine.

* `withEvents` — the machine with the events of its run so far.
* `Simulates` — a forward simulation: the events of a step lead from an abstract state that is
  related to the one before the step to one that is related to the one after it.
* `Simulates.refines` — the simulation rule.
* `Run.pairwise` — which actions may follow which, by what an action bars for good.
* `Run.justified` — what an action rests on has happened before.
-/

namespace NotificationSystem.Lib

namespace Machine

variable {σ τ α β : Type*}

/-- The machine with the events of its run so far. -/
def withEvents (M : Machine σ α) (events : σ → α → σ → List β) : Machine (σ × List β) α :=
  M.withHistory [] fun g s a t => g ++ events s a t

theorem Reach.forgetEvents {M : Machine σ α} {events : σ → α → σ → List β} {ok : σ → α → Prop}
    {z : σ × List β} (h : (M.withEvents events).Reach (fun z a => ok z.1 a) z) :
    M.Reach ok z.1 := by
  unfold withEvents at h
  exact h.forget fun _ _ hok => hok

section simulation

variable (C : Machine σ α) (ok : σ → α → Prop) (events : σ → α → σ → List β) (A : Machine τ β)
  (R : σ → τ → Prop)

/-- The steps of `C` are runs of `A`, along the relation `R`. -/
structure Simulates : Prop where
  init : ∀ s, C.init s → ∃ x, A.init x ∧ R s x
  step : ∀ s a t x, C.Reach ok s → A.Reach Always x → R s x → ok s a → C.step s a = some t →
    ∃ y, A.Run Always x (events s a t) y ∧ R t y

variable {C ok events A R}

/-- **The simulation rule.** The events of a run are a run of the abstract machine, which ends in
a state that is related to the run's. -/
theorem Simulates.refines (h : Simulates C ok events A R) {z : σ × List β}
    (hz : (C.withEvents events).Reach (fun z a => ok z.1 a) z) :
    ∃ x y, A.init x ∧ A.Run Always x z.2 y ∧ R z.1 y := by
  refine Reach.induct (I := fun z => ∃ x y, A.init x ∧ A.Run Always x z.2 y ∧ R z.1 y) ?_ ?_ hz
  · rintro ⟨s, g⟩ ⟨hs, rfl⟩
    obtain ⟨x, hx, hR⟩ := h.init s hs
    exact ⟨x, x, hx, .nil, hR⟩
  · rintro ⟨s, g⟩ a ⟨t, g'⟩ hreach ⟨x, y, hx, hrun, hR⟩ hok hstep
    obtain ⟨hstep, hg⟩ := step_withHistory.1 hstep
    obtain ⟨y', hrun', hR'⟩ :=
      h.step s a t y hreach.forgetEvents ⟨x, g, hx, hrun⟩ hR hok hstep
    exact ⟨x, y', hx, by rw [hg]; exact hrun.trans hrun', hR'⟩

end simulation

/-! ## The order of the actions of a run -/

section order

variable {A : Machine τ β} {ok : τ → β → Prop} {x y : τ} {g : List β}

/-- **What may follow what.** If an action after which `b` may not come bars it, and what is
barred stays so and is not enabled, then no run has them in that order. -/
theorem Run.pairwise {Q : β → β → Prop} {B : τ → β → Prop}
    (hkeep : ∀ x e y b, A.step x e = some y → B x b → B y b)
    (hstop : ∀ x b, B x b → A.step x b = none)
    (hbar : ∀ x e y b, A.step x e = some y → Q e b ∨ B y b) (h : A.Run ok x g y) :
    g.Pairwise Q := by
  have hrun : g.Pairwise Q ∧ ∀ e ∈ g, ∀ b, Q e b ∨ B y b := by
    induction h with
    | nil => exact ⟨.nil, fun e he => by cases he⟩
    | @snoc g t t' a hrun _ hstep ih =>
      obtain ⟨hpair, hlater⟩ := ih
      refine ⟨List.pairwise_append.2 ⟨hpair, List.pairwise_singleton _ _, ?_⟩, ?_⟩
      · intro e he b hb
        obtain rfl := List.mem_singleton.1 hb
        rcases hlater e he b with hQ | hbarred
        · exact hQ
        · rw [hstop t b hbarred] at hstep
          cases hstep
      · intro e he b
        rcases List.mem_append.1 he with he | he
        · exact (hlater e he b).imp_right (hkeep t a t' b hstep)
        · obtain rfl := List.mem_singleton.1 he
          exact hbar t e t' b hstep
  exact hrun.1

theorem Run.of_append {g₁ g₂ : List β} (h : A.Run ok x (g₁ ++ g₂) y) :
    ∃ t, A.Run ok x g₁ t ∧ A.Run ok t g₂ y := by
  induction g₂ using List.reverseRecOn generalizing y with
  | nil => exact ⟨y, by simpa using h, .nil⟩
  | append_singleton g₂ b ih =>
    rw [← List.append_assoc] at h
    obtain ⟨u, hrun, hok, hstep⟩ := h.of_snoc
    obtain ⟨t, h₁, h₂⟩ := ih hrun
    exact ⟨t, h₁, h₂.snoc hok hstep⟩

/-- **What an action rests on.** What holds initially and is kept, of the state and the actions so
far, holds when an action of the run is taken. -/
theorem Run.justified {I : List β → τ → Prop} (h₀ : I [] x)
    (hkeep : ∀ g t b t', I g t → A.step t b = some t' → I (g ++ [b]) t')
    {g₁ g₂ : List β} {b : β} (h : A.Run ok x (g₁ ++ b :: g₂) y) :
    ∃ t t', I g₁ t ∧ A.step t b = some t' := by
  have holds {g : List β} {t : τ} (hrun : A.Run ok x g t) : I g t := by
    induction hrun with
    | nil => exact h₀
    | snoc _ _ hstep ih => exact hkeep _ _ _ _ ih hstep
  rw [List.append_cons] at h
  obtain ⟨t', hrun, -⟩ := h.of_append
  obtain ⟨t, hrun, -, hstep⟩ := hrun.of_snoc
  exact ⟨t, t', holds hrun, hstep⟩

end order

end Machine

end NotificationSystem.Lib
