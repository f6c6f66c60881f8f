import NotificationSystem.Lib.PrefixCode

/-!
# Readers

A reader takes one value off the front of a text, or fails. It is the other side of a code: it
reads a codeword back, whatever follows that the code allows after a word.

* `takeWhile_run`, `dropWhile_run` — the longest run of symbols of a kind.
* `readUntil`, `readUntil_flatMap` — codewords one after another, up to a closing symbol.
* `readItems`, `readItems_intercalate` — codewords with separators between them, up to a closing
  symbol, where blanks may stand around the separators.
-/

namespace NotificationSystem.Lib

variable {ε α β : Type*}

/-- What a reader returns: the value and the rest of the text, or why it has failed. -/
abbrev Reader (ε β α : Type*) := List β → Except ε (α × List β)

/-! ## Runs -/

section runs

variable {p : β → Bool} {u s : List β}

/-- A text that does not start with a symbol of the kind. -/
def Stops (p : β → Bool) (s : List β) : Prop := ∀ b t, s = b :: t → p b = false

theorem stops_nil : Stops p [] := nofun

theorem stops_cons {b : β} (h : p b = false) : Stops p (b :: s) := by
  intro c t heq
  cases heq
  exact h

theorem takeWhile_run (hu : ∀ b ∈ u, p b = true) (hs : Stops p s) :
    (u ++ s).takeWhile p = u := by
  rw [List.takeWhile_append_of_pos hu]
  cases s with
  | nil => simp
  | cons b s => simp [hs b s rfl]

theorem dropWhile_run (hu : ∀ b ∈ u, p b = true) (hs : Stops p s) :
    (u ++ s).dropWhile p = s := by
  rw [List.dropWhile_append_of_pos hu]
  cases s with
  | nil => rfl
  | cons b s => simp [hs b s rfl]

theorem dropWhile_stops (hs : Stops p s) : s.dropWhile p = s :=
  dropWhile_run (u := []) nofun hs

end runs

variable {code : α → List β} {close sep : β}

/-! ## Up to a closing symbol -/

section closing

variable [DecidableEq β] {bad : ε} {read : Reader ε β α}

/-- Read values up to the closing symbol, and take that off as well. A text that ends before it
is `bad`. -/
def readUntil (bad : ε) (close : β) (read : Reader ε β α) : Nat → Reader ε β (List α)
  | 0, _ => .error bad
  | _ + 1, [] => .error bad
  | fuel + 1, b :: s =>
    if b = close then .ok ([], s)
    else (read (b :: s)).bind fun (a, t) =>
      (readUntil bad close read fuel t).map fun (as, t) => (a :: as, t)

theorem readUntil_flatMap (hread : ∀ a s, read (code a ++ s) = .ok (a, s))
    (hstart : NeverStarts code close) {l : List α} {fuel : Nat} (hfuel : l.length < fuel)
    (s : List β) : readUntil bad close read fuel (l.flatMap code ++ close :: s) = .ok (l, s) := by
  induction l generalizing fuel with
  | nil =>
    obtain ⟨fuel, rfl⟩ : ∃ k, fuel = k + 1 := ⟨fuel - 1, by simp at hfuel; omega⟩
    simp [readUntil]
  | cons a l ih =>
    obtain ⟨fuel, rfl⟩ : ∃ k, fuel = k + 1 := ⟨fuel - 1, by simp at hfuel; omega⟩
    obtain ⟨b, t, hcode, hb⟩ := hstart a
    have hhead := hread a (l.flatMap code ++ close :: s)
    have htail : readUntil bad close read fuel (l.flatMap code ++ close :: s) = .ok (l, s) :=
      ih (by simp at hfuel; omega)
    rw [List.flatMap_cons, List.append_assoc]
    rw [hcode, List.cons_append] at hhead ⊢
    simp [readUntil, hb, hhead, htail, Except.bind, Except.map]

end closing

/-! ## With separators -/

section items

variable {blank : β → Bool} {gap : List β}

theorem intercalate_gap {a b : α} {l : List α} {s : List β} :
    (sep :: gap).intercalate ((a :: b :: l).map code) ++ s =
      code a ++ sep :: (gap ++ ((sep :: gap).intercalate ((b :: l).map code) ++ s)) := by
  simp [List.intercalate]

/-- A separated list starts as its first codeword does. -/
theorem intercalate_stops {a : α} {l : List α} {s : List β}
    (hstart : ∃ b t, code a = b :: t ∧ blank b = false) :
    Stops blank ((sep :: gap).intercalate ((a :: l).map code) ++ s) := by
  obtain ⟨b, t, hcode, hb⟩ := hstart
  cases l with
  | nil =>
    simp only [List.intercalate, List.map_cons, List.map_nil, List.intersperse_singleton,
      List.flatten_singleton, hcode, List.cons_append]
    exact stops_cons hb
  | cons c l =>
    rw [intercalate_gap, hcode, List.cons_append]
    exact stops_cons hb

variable [DecidableEq β] {bad : ε} {read : Reader ε β α}

/-- Read values that have separators between them, up to the closing symbol, and take that off as
well. Blanks may stand before and after a separator; any other symbol there is `bad`. -/
def readItems (bad : ε) (blank : β → Bool) (sep close : β) (read : Reader ε β α) :
    Nat → Reader ε β (List α)
  | 0, _ => .error bad
  | fuel + 1, s =>
    (read s).bind fun (a, s) =>
      match s.dropWhile blank with
      | [] => .error bad
      | b :: s =>
        if b = close then .ok ([a], s)
        else if b = sep then
          (readItems bad blank sep close read fuel (s.dropWhile blank)).map
            fun (as, s) => (a :: as, s)
        else .error bad

theorem readItems_intercalate (hgap : ∀ b ∈ gap, blank b = true) (hne : sep ≠ close)
    (hsep : blank sep = false) (hclose : blank close = false) {l : List α}
    (hread : ∀ a ∈ l, ∀ b t, b = sep ∨ b = close →
      read (code a ++ b :: t) = .ok (a, b :: t))
    (hstart : ∀ a ∈ l, ∃ b t, code a = b :: t ∧ blank b = false) (hl : l ≠ []) {fuel : Nat}
    (hfuel : l.length ≤ fuel) (s : List β) :
    readItems bad blank sep close read fuel
      ((sep :: gap).intercalate (l.map code) ++ close :: s) = .ok (l, s) := by
  induction l generalizing fuel with
  | nil => exact absurd rfl hl
  | cons a l ih =>
    obtain ⟨fuel, rfl⟩ : ∃ k, fuel = k + 1 := ⟨fuel - 1, by simp at hfuel; omega⟩
    cases l with
    | nil =>
      have hlast := hread a List.mem_cons_self close s (.inr rfl)
      have htext :
          (sep :: gap).intercalate ([a].map code) ++ close :: s = code a ++ close :: s := by
        simp [List.intercalate]
      rw [htext]
      simp [readItems, hlast, hclose, Except.bind]
    | cons b l =>
      have hhead := hread a List.mem_cons_self sep
        (gap ++ ((sep :: gap).intercalate ((b :: l).map code) ++ close :: s)) (.inl rfl)
      -- the blanks after the separator are passed over
      have hstops : Stops blank ((sep :: gap).intercalate ((b :: l).map code) ++ close :: s) :=
        intercalate_stops (hstart b (List.mem_cons_of_mem _ List.mem_cons_self))
      have hskip := dropWhile_run hgap hstops
      have htail : readItems bad blank sep close read fuel
          ((sep :: gap).intercalate ((b :: l).map code) ++ close :: s) = .ok (b :: l, s) :=
        ih (fun c hc => hread c (List.mem_cons_of_mem _ hc))
          (fun c hc => hstart c (List.mem_cons_of_mem _ hc)) (List.cons_ne_nil _ _)
          (by simp at hfuel ⊢; omega)
      rw [intercalate_gap, readItems, hhead]
      simp only [Except.bind, List.dropWhile_cons, hsep, Bool.false_eq_true, if_false, hne,
        if_true, hskip, htail, Except.map]

end items

end NotificationSystem.Lib
