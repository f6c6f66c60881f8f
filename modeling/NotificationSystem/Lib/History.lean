import NotificationSystem.Lib.Transition

/-!
# Machines with a history

What a run has done is often not to be read off the state it reaches. `Machine.withHistory`
puts a history beside the state: every step records something in it, and no step reads it.

* `Run.forget`, `Run.lift` — the runs are the same, so what is proved of the machine with its
  history is proved of the machine.
* `Machine.guard` — the machine whose steps must also pass a test, of its history say.
* `find?_map_append` — what is looked up after new entries were added, in a history that lists
  the newest entry first.
* `modifyFirst` — change the newest entry of a kind, with its lemmas about lookup and counting.
-/

namespace NotificationSystem.Lib

namespace Machine

variable {σ α γ : Type*} {M : Machine σ α} {g₀ g : γ} {note : γ → σ → α → σ → γ}

/-- The machine beside a history that begins as `g₀`. -/
def withHistory (M : Machine σ α) (g₀ : γ) (note : γ → σ → α → σ → γ) : Machine (σ × γ) α where
  init x := M.init x.1 ∧ x.2 = g₀
  step x a := (M.step x.1 a).map fun t => (t, note x.2 x.1 a t)

variable {ok : σ → α → Prop} {okh : σ × γ → α → Prop} {s t : σ} {x y : σ × γ} {as : List α}
  {a : α}

theorem step_withHistory : (M.withHistory g₀ note).step x a = some y ↔
    M.step x.1 a = some y.1 ∧ y.2 = note x.2 x.1 a y.1 := by
  simp only [withHistory, Option.map_eq_some_iff]
  constructor
  · rintro ⟨t, ht, rfl⟩
    exact ⟨ht, rfl⟩
  · rintro ⟨ht, hg⟩
    exact ⟨y.1, ht, Prod.ext rfl hg.symm⟩

/-- A run of the machine with its history is a run of the machine. -/
theorem Run.forget (hok : ∀ x a, okh x a → ok x.1 a)
    (h : (M.withHistory g₀ note).Run okh x as y) : M.Run ok x.1 as y.1 := by
  induction h with
  | nil => exact .nil
  | snoc _ hx hstep ih => exact .snoc ih (hok _ _ hx) (step_withHistory.1 hstep).1

/-- Every run of the machine has a history. -/
theorem Run.lift (h : M.Run ok s as t) (g : γ) :
    ∃ g', (M.withHistory g₀ note).Run (fun x a => ok x.1 a) (s, g) as (t, g') := by
  induction h with
  | nil => exact ⟨g, .nil⟩
  | @snoc as t t' a _ hok hstep ih =>
    obtain ⟨g', hrun⟩ := ih
    exact ⟨note g' t a t', .snoc hrun hok (step_withHistory.2 ⟨hstep, rfl⟩)⟩

theorem Run.and_forget (h : (M.withHistory g₀ note).Run okh x as y) (h' : M.Run ok x.1 as y.1) :
    (M.withHistory g₀ note).Run (fun x a => okh x a ∧ ok x.1 a) x as y := by
  obtain ⟨g, hrun⟩ := h'.lift x.2
  rw [← h.unique hrun] at hrun
  exact h.and hrun

theorem Reach.forget (hok : ∀ x a, okh x a → ok x.1 a)
    (h : (M.withHistory g₀ note).Reach okh x) : M.Reach ok x.1 := by
  obtain ⟨x₀, as, hinit, hrun⟩ := h
  exact ⟨x₀.1, as, hinit.1, hrun.forget hok⟩

theorem Reach.lift (h : M.Reach ok s) :
    ∃ g, (M.withHistory g₀ note).Reach (fun x a => ok x.1 a) (s, g) := by
  obtain ⟨s₀, as, hinit, hrun⟩ := h
  obtain ⟨g, hrun⟩ := hrun.lift g₀
  exact ⟨g, (s₀, g₀), as, ⟨hinit, rfl⟩, hrun⟩

/-- **The invariant rule beside a history.** The step case may use that the state is reachable
without its history, hence every invariant of the machine. -/
theorem Reach.induct_history {I : σ × γ → Prop} (h₀ : ∀ s, M.init s → I (s, g₀))
    (hstep : ∀ s g a t, M.Reach Always s → I (s, g) → okh (s, g) a → M.step s a = some t →
      I (t, note g s a t)) (h : (M.withHistory g₀ note).Reach okh x) : I x := by
  refine Reach.induct ?_ (fun y a z hy hI hok hz => ?_) h
  · rintro ⟨s, g⟩ ⟨hinit, rfl⟩
    exact h₀ s hinit
  · obtain ⟨ht, hg⟩ := step_withHistory.1 hz
    have hnext := hstep y.1 y.2 a z.1 (hy.forget fun _ _ _ => trivial) hI hok ht
    rwa [← hg] at hnext

/-! ## A test that every step passes -/

section guard

variable {p : σ → α → σ → Bool}

/-- The machine whose steps must pass a test of the states before and after them. -/
def guard (M : Machine σ α) (p : σ → α → σ → Bool) : Machine σ α where
  init := M.init
  step s a := (M.step s a).filter (p s a)

theorem step_guard : (M.guard p).step s a = some t ↔ M.step s a = some t ∧ p s a t = true :=
  Option.filter_eq_some_iff

theorem Run.unguard (h : (M.guard p).Run ok s as t) : M.Run ok s as t := by
  induction h with
  | nil => exact .nil
  | snoc _ hok hstep ih => exact .snoc ih hok (step_guard.1 hstep).1

theorem Reach.unguard (h : (M.guard p).Reach ok s) : M.Reach ok s := by
  obtain ⟨s₀, as, hinit, hrun⟩ := h
  exact ⟨s₀, as, hinit, hrun.unguard⟩

end guard

end Machine

/-! ## The newest entry of a kind -/

section append

variable {α β : Type*} {q : α → Bool} {g : β → α} {bs : List β}

/-- Where new entries are of the kind and all those are alike, they are the newest ones. -/
theorem find?_map_append {b : β} (hb : b ∈ bs) (hq : q (g b) = true)
    (hall : ∀ b' ∈ bs, q (g b') = true → g b' = g b) (l : List α) :
    (bs.map g ++ l).find? q = some (g b) := by
  rw [List.find?_append]
  cases hfind : (bs.map g).find? q with
  | none => exact absurd hq (List.find?_eq_none.1 hfind _ (List.mem_map_of_mem hb))
  | some x =>
    obtain ⟨b', hb', rfl⟩ := List.mem_map.1 (List.mem_of_find?_eq_some hfind)
    rw [hall b' hb' (List.find?_some hfind)]
    rfl

theorem find?_map_append_of_none (hnone : ∀ b ∈ bs, q (g b) = false) (l : List α) :
    (bs.map g ++ l).find? q = l.find? q := by
  have hmap : (bs.map g).find? q = none := by
    simpa [List.find?_eq_none] using hnone
  rw [List.find?_append, hmap]
  rfl

end append

section modifyFirst

variable {α : Type*} {p q : α → Bool} {f : α → α} {l : List α} {x : α}

/-- Apply `f` to the first element that satisfies `p`. -/
def modifyFirst (p : α → Bool) (f : α → α) : List α → List α
  | [] => []
  | x :: l => if p x then f x :: l else x :: modifyFirst p f l

theorem map_modifyFirst {β : Type*} {g : α → β} (hg : ∀ x, g (f x) = g x) (l : List α) :
    (modifyFirst p f l).map g = l.map g := by
  induction l with
  | nil => rfl
  | cons x l ih =>
    unfold modifyFirst
    split
    · simp [hg]
    · simp [ih]

theorem mem_modifyFirst (h : x ∈ modifyFirst p f l) : x ∈ l ∨ ∃ y ∈ l, p y = true ∧ x = f y := by
  induction l with
  | nil => cases h
  | cons y l ih =>
    unfold modifyFirst at h
    split at h
    · next hy =>
      rcases List.mem_cons.1 h with rfl | h
      · exact .inr ⟨y, List.mem_cons_self, hy, rfl⟩
      · exact .inl (List.mem_cons_of_mem _ h)
    · rcases List.mem_cons.1 h with rfl | h
      · exact .inl List.mem_cons_self
      · rcases ih h with h | ⟨z, hz, h⟩
        · exact .inl (List.mem_cons_of_mem _ h)
        · exact .inr ⟨z, List.mem_cons_of_mem _ hz, h⟩

/-- Looking up a wider kind finds the same element, changed where it is the first that
satisfies `p`. -/
theorem find?_modifyFirst (hq : ∀ x, q (f x) = q x) (himp : ∀ x, p x = true → q x = true)
    (l : List α) :
    (modifyFirst p f l).find? q = (l.find? q).map fun x => if p x then f x else x := by
  induction l with
  | nil => rfl
  | cons x l ih =>
    unfold modifyFirst
    by_cases hp : p x = true
    · simp [hp, hq, himp x hp]
    · rw [if_neg hp]
      by_cases hx : q x = true
      · simp [hx, hp]
      · simpa [hx] using ih

theorem find?_modifyFirst_self (hp : ∀ x, p (f x) = p x) (h : l.find? p = some x) :
    (modifyFirst p f l).find? p = some (f x) := by
  rw [find?_modifyFirst hp (fun _ hx => hx), h, Option.map_some, if_pos (List.find?_some h)]

theorem find?_modifyFirst_of_disjoint (hq : ∀ x, q (f x) = q x)
    (hdisj : ∀ x, p x = true → q x = false) (l : List α) :
    (modifyFirst p f l).find? q = l.find? q := by
  induction l with
  | nil => rfl
  | cons x l ih =>
    unfold modifyFirst
    by_cases hp : p x = true
    · simp [hp, hq, hdisj x hp]
    · rw [if_neg hp, List.find?_cons, List.find?_cons, ih]

/-- Where the changed element joins those that satisfy `q`, there is one more of them. -/
theorem countP_modifyFirst (hx : l.find? p = some x) (hold : q x = false)
    (hnew : q (f x) = true) : (modifyFirst p f l).countP q = l.countP q + 1 := by
  induction l with
  | nil => cases hx
  | cons y l ih =>
    unfold modifyFirst
    by_cases hy : p y = true
    · rw [if_pos hy]
      simp only [List.find?_cons, hy] at hx
      cases hx
      simp [hold, hnew]
    · rw [if_neg hy]
      simp only [List.find?_cons, hy] at hx
      rw [List.countP_cons, List.countP_cons, ih hx]
      omega

theorem countP_modifyFirst_same (hq : ∀ x, q (f x) = q x) (l : List α) :
    (modifyFirst p f l).countP q = l.countP q := by
  have hcomp (l : List α) : l.countP q = (l.map q).countP id := by
    rw [List.countP_map]
    rfl
  rw [hcomp, map_modifyFirst hq, ← hcomp]

theorem countP_modifyFirst_of_disjoint
    (hdisj : ∀ x, p x = true → q x = false ∧ q (f x) = false) (l : List α) :
    (modifyFirst p f l).countP q = l.countP q := by
  induction l with
  | nil => rfl
  | cons x l ih =>
    unfold modifyFirst
    by_cases hp : p x = true
    · simp [hp, hdisj x hp]
    · rw [if_neg hp, List.countP_cons, List.countP_cons, ih]

/-- A relation between newer and older elements that the change respects still holds. -/
theorem pairwise_modifyFirst {R : α → α → Prop} (hl : ∀ x y, R x y → R (f x) y)
    (hr : ∀ x y, R x y → R x (f y)) (h : l.Pairwise R) : (modifyFirst p f l).Pairwise R := by
  induction l with
  | nil => exact .nil
  | cons x l ih =>
    obtain ⟨hx, hl'⟩ := List.pairwise_cons.1 h
    unfold modifyFirst
    split
    · exact List.pairwise_cons.2 ⟨fun y hy => hl x y (hx y hy), hl'⟩
    · refine List.pairwise_cons.2 ⟨fun y hy => ?_, ih hl'⟩
      rcases mem_modifyFirst hy with hy | ⟨z, hz, -, rfl⟩
      · exact hx y hy
      · exact hr x z (hx z hz)

end modifyFirst

end NotificationSystem.Lib
