import NotificationSystem.Config
import NotificationSystem.Fingerprint
import NotificationSystem.Lib.Reader

/-!
# The backoff setting as it is written

An operator writes the delays into `RETRY_BACKOFF_SECONDS` one after another, with commas between
them. Blanks may stand around a delay, and an item may be blank.

* `BackoffItem` — an item of the setting.
* `retryBackoffList_written` — the delays that are written are the delays that are used.
-/

namespace NotificationSystem

open Lib

variable {n : Nat} {c : Char}

/-! ## Digits -/

theorem toNat_of_isDigit (h : c.isDigit = true) : 48 ≤ c.toNat ∧ c.toNat ≤ 57 := by
  simpa [Char.isDigit, UInt32.le_iff_toNat_le] using h

theorem decimalDigit_of_isDigit (h : c.isDigit = true) :
    decimalDigit c = some (c.toNat - '0'.toNat) := by
  obtain ⟨hlow, hhigh⟩ := toNat_of_isDigit h
  obtain ⟨others, hzeros⟩ : ∃ others, decimalZeros = 0x30 :: others := ⟨_, rfl⟩
  rw [decimalDigit, hzeros, List.find?_cons_of_pos]
  · rfl
  · simp only [Bool.and_eq_true, decide_eq_true_eq]
    omega

theorem literalDigits_of_isDigit {literal : List Char} (hne : literal ≠ [])
    (h : ∀ c ∈ literal, c.isDigit = true) :
    literalDigits literal = some (literal.map fun c => c.toNat - '0'.toNat) := by
  fun_induction literalDigits literal with
  | case1 => exact absurd rfl hne
  | case2 c => simp [decimalDigit_of_isDigit (h c (by simp))]
  | case3 c rest =>
    -- an underscore is not a digit
    exact absurd (h '_' (by simp)) (by decide)
  | case4 c rest hrest _ ih =>
    have hdigits := ih (by rintro rfl; exact hrest rfl) fun d hd => h d (List.mem_cons_of_mem _ hd)
    simp [decimalDigit_of_isDigit (h c (by simp)), hdigits]

theorem isDigit_of_mem_toDigits (h : c ∈ Nat.toDigits 10 n) : c.isDigit = true :=
  Nat.isDigit_of_mem_toDigits (by decide) (by decide) h

theorem literalValue_toDigits (h : (Nat.toDigits 10 n).length ≤ 4300) :
    literalValue (Nat.toDigits 10 n) = some n := by
  have hvalue : ((Nat.toDigits 10 n).map fun c => c.toNat - '0'.toNat).foldl
      (fun value d => 10 * value + d) 0 = n := by
    rw [List.foldl_map, ← Nat.ofDigitChars_eq_foldl, Nat.ofDigitChars_ten_toDigits]
  rw [literalValue, literalDigits_of_isDigit Nat.toDigits_ne_nil fun c => isDigit_of_mem_toDigits,
    Option.bind_some, List.length_map, if_pos h, hvalue]

/-- **`int` reads the digits of an integer back.** -/
theorem parseInt_intDigits {n : Int} (h : (Nat.toDigits 10 n.natAbs).length ≤ 4300) :
    parseInt (intDigits n) = some n := by
  cases n with
  | ofNat n =>
    rw [show intDigits (Int.ofNat n) = Nat.toDigits 10 n from Nat.toList_repr]
    have hsign {sign : Char} {literal : List Char} (hnot : sign.isDigit = false) :
        Nat.toDigits 10 n ≠ sign :: literal := by
      intro heq
      have hdigit : sign.isDigit = true :=
        isDigit_of_mem_toDigits (n := n) (heq ▸ List.mem_cons_self)
      rw [hnot] at hdigit
      cases hdigit
    unfold parseInt
    split
    · next heq => exact absurd heq (hsign rfl)
    · next heq => exact absurd heq (hsign rfl)
    · have hvalue : literalValue (Nat.toDigits 10 n) = some n := literalValue_toDigits h
      rw [hvalue]
      rfl
  | negSucc n =>
    have hvalue : literalValue (Nat.toDigits 10 (n + 1)) = some (n + 1) := literalValue_toDigits h
    rw [intDigits_negSucc, Nat.toList_repr, parseInt, hvalue]
    rfl

/-! ## Items -/

/-- An item of the setting: a delay, or nothing, between blanks. -/
structure BackoffItem where
  before : List Char
  delay : Option Int
  after : List Char
  before_isSpace : ∀ c ∈ before, isSpace c = true
  after_isSpace : ∀ c ∈ after, isSpace c = true
  delay_length : ∀ n ∈ delay, (Nat.toDigits 10 n.natAbs).length ≤ 4300

/-- What stands between the blanks. -/
def BackoffItem.word (item : BackoffItem) : List Char := item.delay.elim [] intDigits

def BackoffItem.written (item : BackoffItem) : List Char := item.before ++ item.word ++ item.after

/-- The setting with these items. -/
def writtenBackoff (items : List BackoffItem) : String :=
  String.ofList ([','].intercalate (items.map (·.written)))

theorem mem_word {item : BackoffItem} (h : c ∈ item.word) : c = '-' ∨ c.isDigit = true := by
  unfold BackoffItem.word at h
  cases hdelay : item.delay with
  | none =>
    rw [hdelay] at h
    cases h
  | some n =>
    rw [hdelay] at h
    exact mem_intDigits h

theorem not_isSpace_of_word {item : BackoffItem} (h : c ∈ item.word) : isSpace c = false := by
  rcases mem_word h with rfl | hdigit
  · rfl
  · obtain ⟨hlow, hhigh⟩ := toNat_of_isDigit hdigit
    simp only [isSpace, List.mem_cons, List.not_mem_nil, or_false, not_or, decide_eq_false_iff_not]
    omega

theorem comma_not_written (item : BackoffItem) : ',' ∉ item.written := by
  intro h
  rcases List.mem_append.1 h with h | hafter
  · rcases List.mem_append.1 h with hbefore | hword
    · exact absurd (item.before_isSpace _ hbefore) (by decide)
    · rcases mem_word hword with heq | hdigit
      · cases heq
      · cases hdigit
  · exact absurd (item.after_isSpace _ hafter) (by decide)

theorem strip_spaced {before word after : List Char} (hbefore : ∀ c ∈ before, isSpace c = true)
    (hafter : ∀ c ∈ after, isSpace c = true) (hword : ∀ c ∈ word, isSpace c = false) :
    strip (before ++ word ++ after) = word := by
  have stops {u v : List Char} (hu : ∀ c ∈ u, isSpace c = false) (hne : u ≠ []) :
      Stops isSpace (u ++ v) := by
    cases u with
    | nil => exact absurd rfl hne
    | cons c u => exact stops_cons (hu c List.mem_cons_self)
  rcases eq_or_ne word [] with rfl | hne
  · have hall : ∀ c ∈ before ++ [] ++ after, isSpace c = true := by
      intro c hc
      simp only [List.append_nil, List.mem_append] at hc
      exact hc.elim (hbefore c) (hafter c)
    rw [strip, List.dropWhile_eq_nil_iff.2 hall, List.rdropWhile_nil]
  · have hfront : (before ++ word ++ after).dropWhile isSpace = word ++ after := by
      rw [List.append_assoc]
      exact dropWhile_run hbefore (stops hword hne)
    have hback : (after.reverse ++ (word.reverse ++ [])).dropWhile isSpace = word.reverse ++ [] :=
      dropWhile_run (fun c hc => hafter c (List.mem_reverse.1 hc))
        (stops (fun c hc => hword c (List.mem_reverse.1 hc)) (by simpa using hne))
    rw [strip, hfront, List.rdropWhile, List.reverse_append, ← List.append_nil word.reverse, hback]
    simp

theorem strip_written (item : BackoffItem) : strip item.written = item.word :=
  strip_spaced item.before_isSpace item.after_isSpace fun _ => not_isSpace_of_word

theorem words_not_blank (items : List BackoffItem) :
    (items.map (·.word)).filter (· ≠ []) = (items.filterMap (·.delay)).map intDigits := by
  induction items with
  | nil => rfl
  | cons item items ih =>
    rw [List.map_cons, List.filter_cons, ih]
    cases hdelay : item.delay with
    | none => simp [BackoffItem.word, hdelay]
    | some n => simp [BackoffItem.word, hdelay, intDigits_ne_nil n]

/-- The items of the setting that are not blank. -/
theorem backoffItems_written (items : List BackoffItem) :
    backoffItems (writtenBackoff items) = (items.filterMap (·.delay)).map intDigits := by
  have hsplit : ((writtenBackoff items).toList.splitOn ',').map strip =
      if items = [] then [[]] else items.map (·.word) := by
    rw [writtenBackoff, String.toList_ofList]
    split
    · next h =>
      subst h
      rfl
    · next h =>
      rw [List.splitOn_intercalate, List.map_map]
      · exact List.map_congr_left fun item _ => strip_written item
      · intro l hl
        obtain ⟨item, -, rfl⟩ := List.mem_map.1 hl
        exact comma_not_written item
      · simpa using h
  rw [backoffItems, hsplit]
  split
  · next h =>
    subst h
    rfl
  · exact words_not_blank items

theorem mapM_parseInt {delays : List Int}
    (h : ∀ n ∈ delays, (Nat.toDigits 10 n.natAbs).length ≤ 4300) :
    (delays.map intDigits).mapM parseInt = some delays := by
  induction delays with
  | nil => rfl
  | cons n delays ih =>
    have hdelays := ih fun m hm => h m (List.mem_cons_of_mem _ hm)
    simp [List.mapM_cons, parseInt_intDigits (h n List.mem_cons_self), hdelays]

/-- **The delays that are written are used**: `retry_backoff_list` reads them back, in their
order, whatever blanks stand around them. -/
theorem retryBackoffList_written (items : List BackoffItem) :
    retryBackoffList (writtenBackoff items) = some (items.filterMap (·.delay)) := by
  rw [retryBackoffList, backoffItems_written]
  refine mapM_parseInt fun n hn => ?_
  obtain ⟨item, -, hitem⟩ := List.mem_filterMap.1 hn
  exact item.delay_length n hitem

example : retryBackoffList " 10,,-3 \t" = some [10, -3] := by decide

end NotificationSystem
