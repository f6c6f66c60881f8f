import Mathlib.Data.List.Basic

/-!
# Codes that read back in one way

A text made of codewords determines what it encodes when each codeword shows where it ends.

* `PrefixFree` — a codeword ends by itself.
* `Delimited` — a codeword is ended by the symbol after it.
* `flatMap_terminated`, `intercalate_terminated` — lists of codewords up to a closing symbol.
-/

namespace NotificationSystem.Lib

variable {α β : Type*} {code : α → List β}

/-- Codewords with what follows them are equal only when both are. -/
def PrefixFree (code : α → List β) : Prop :=
  ∀ a b s t, code a ++ s = code b ++ t → a = b ∧ s = t

/-- The same for codewords that are followed by one of the symbols `stop`. -/
def Delimited (code : α → List β) (stop : β → Prop) : Prop :=
  ∀ a b x y s t, stop x → stop y → code a ++ x :: s = code b ++ y :: t → a = b ∧ x = y ∧ s = t

/-- Every codeword has a first symbol, which is not `x`. -/
def NeverStarts (code : α → List β) (x : β) : Prop := ∀ a, ∃ y l, code a = y :: l ∧ y ≠ x

/-- A code that can be read back, up to what follows, is prefix-free. -/
theorem prefixFree_of_decode (decode : List β → Option (α × List β))
    (h : ∀ a s, decode (code a ++ s) = some (a, s)) : PrefixFree code := by
  intro a b s t heq
  have hpair : some (a, s) = some (b, t) := by rw [← h a s, heq, h b t]
  exact Prod.mk.inj (Option.some.inj hpair)

theorem append_stop_inj {stop : β → Prop} {u v s t : List β} {x y : β} (hx : stop x) (hy : stop y)
    (hu : ∀ z ∈ u, ¬ stop z) (hv : ∀ z ∈ v, ¬ stop z) (h : u ++ x :: s = v ++ y :: t) :
    u = v ∧ x = y ∧ s = t := by
  induction u generalizing v with
  | nil =>
    cases v with
    | nil =>
      simp only [List.nil_append, List.cons.injEq] at h
      exact ⟨rfl, h⟩
    | cons z v =>
      simp only [List.nil_append, List.cons_append, List.cons.injEq] at h
      exact absurd (h.1 ▸ hx) (hv z List.mem_cons_self)
  | cons z u ih =>
    cases v with
    | nil =>
      simp only [List.nil_append, List.cons_append, List.cons.injEq] at h
      exact absurd (h.1 ▸ hy) (hu z List.mem_cons_self)
    | cons z' v =>
      simp only [List.cons_append, List.cons.injEq] at h
      obtain ⟨rfl, hrest⟩ := h
      obtain ⟨rfl, heq⟩ := ih (fun w hw => hu w (List.mem_cons_of_mem _ hw))
        (fun w hw => hv w (List.mem_cons_of_mem _ hw)) hrest
      exact ⟨rfl, heq⟩

theorem delimited_of_avoids {stop : β → Prop} (hinj : Function.Injective code)
    (h : ∀ a, ∀ z ∈ code a, ¬ stop z) : Delimited code stop := by
  intro a b x y s t hx hy heq
  obtain ⟨hcode, hrest⟩ := append_stop_inj hx hy (h a) (h b) heq
  exact ⟨hinj hcode, hrest⟩

/-- Codewords one after another, up to a symbol that none of them starts with. -/
theorem flatMap_terminated {close : β} (h : PrefixFree code) (hstart : NeverStarts code close)
    {l₁ l₂ : List α} {s t : List β}
    (heq : l₁.flatMap code ++ close :: s = l₂.flatMap code ++ close :: t) : l₁ = l₂ ∧ s = t := by
  induction l₁ generalizing l₂ with
  | nil =>
    cases l₂ with
    | nil =>
      simp only [List.flatMap_nil, List.nil_append, List.cons.injEq, true_and] at heq
      exact ⟨rfl, heq⟩
    | cons b l₂ =>
      obtain ⟨y, l, hcode, hne⟩ := hstart b
      simp only [List.flatMap_nil, List.nil_append, List.flatMap_cons, hcode, List.cons_append,
        List.cons.injEq] at heq
      exact absurd heq.1.symm hne
  | cons a l₁ ih =>
    cases l₂ with
    | nil =>
      obtain ⟨y, l, hcode, hne⟩ := hstart a
      simp only [List.flatMap_nil, List.nil_append, List.flatMap_cons, hcode, List.cons_append,
        List.cons.injEq] at heq
      exact absurd heq.1 hne
    | cons b l₂ =>
      rw [List.flatMap_cons, List.flatMap_cons, List.append_assoc, List.append_assoc] at heq
      obtain ⟨rfl, hrest⟩ := h a b _ _ heq
      obtain ⟨rfl, hst⟩ := ih hrest
      exact ⟨rfl, hst⟩

section intercalate

variable {sep close : β} {a b : α} {l : List α} {r : List β}

theorem intercalate_one : [sep].intercalate ([a].map code) ++ r = code a ++ r := by
  simp [List.intercalate]

theorem intercalate_more : [sep].intercalate ((a :: b :: l).map code) ++ r =
    code a ++ sep :: ([sep].intercalate ((b :: l).map code) ++ r) := by
  simp [List.intercalate]

theorem intercalate_ne_close (hstart : NeverStarts code close) {s t : List β} :
    [sep].intercalate ((a :: l).map code) ++ s ≠ close :: t := by
  intro heq
  obtain ⟨y, u, hcode, hne⟩ := hstart a
  cases l with
  | nil =>
    rw [intercalate_one, hcode] at heq
    exact hne (List.cons.inj heq).1
  | cons b l =>
    rw [intercalate_more, hcode] at heq
    exact hne (List.cons.inj heq).1

/-- Codewords with separators between them, up to a closing symbol. -/
theorem intercalate_terminated (h : Delimited code fun x => x = sep ∨ x = close)
    (hne : sep ≠ close) (hstart : NeverStarts code close) {l₁ l₂ : List α} {s t : List β}
    (heq : [sep].intercalate (l₁.map code) ++ close :: s =
      [sep].intercalate (l₂.map code) ++ close :: t) : l₁ = l₂ ∧ s = t := by
  induction l₁ generalizing l₂ with
  | nil =>
    cases l₂ with
    | nil => simpa [List.intercalate] using heq
    | cons b l₂ => exact absurd heq.symm (intercalate_ne_close hstart)
  | cons a l₁ ih =>
    cases l₂ with
    | nil => exact absurd heq (intercalate_ne_close hstart)
    | cons b l₂ =>
      -- the symbol after the first codeword says whether there is another
      cases l₁ with
      | nil =>
        cases l₂ with
        | nil =>
          rw [intercalate_one, intercalate_one] at heq
          obtain ⟨rfl, -, hst⟩ := h a b _ _ _ _ (.inr rfl) (.inr rfl) heq
          exact ⟨rfl, hst⟩
        | cons d l₂ =>
          rw [intercalate_one, intercalate_more] at heq
          obtain ⟨-, hclose, -⟩ := h a b _ _ _ _ (.inr rfl) (.inl rfl) heq
          exact absurd hclose.symm hne
      | cons c l₁ =>
        cases l₂ with
        | nil =>
          rw [intercalate_one, intercalate_more] at heq
          obtain ⟨-, hclose, -⟩ := h a b _ _ _ _ (.inl rfl) (.inr rfl) heq
          exact absurd hclose hne
        | cons d l₂ =>
          rw [intercalate_more, intercalate_more] at heq
          obtain ⟨rfl, -, hrest⟩ := h a b _ _ _ _ (.inl rfl) (.inl rfl) heq
          obtain ⟨hl, hst⟩ := ih hrest
          exact ⟨by rw [hl], hst⟩

end intercalate

end NotificationSystem.Lib
