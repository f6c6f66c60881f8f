import NotificationSystem.Fingerprint
import NotificationSystem.Lib.Dict
import NotificationSystem.Lib.Reader

/-!
# JSON texts

`json.dumps` with the default separators, which the publisher puts on the wire
(`ensure_ascii=False`) and the database layer puts in a JSON column (`ensure_ascii=True`), and
`json.loads`, which takes any spacing, escape and number that JSON has. Both raise something that
is not a `JSONDecodeError` when an integer has too many digits or the nesting is too deep. The
value of a number with a fraction or an exponent is left to `floatRepr`, which stands for
`repr(float(...))`.

* `dumps`, `loads` — the two functions.
* `loads_dumps` — a value without floats is read back.
-/

namespace NotificationSystem

open Lib

/-- What the interpreter allows: the digits of an integer (`sys.get_int_max_str_digits()`, 4300
unless it is set), and the levels of nesting that are left of the recursion limit. -/
structure JsonLimits where
  digits : Nat
  nesting : Nat

/-! ## Writing -/

/-- The lowest `k` hexadecimal digits of a number. -/
def hexFixed : Nat → Nat → List Char
  | 0, _ => []
  | k + 1, n => hexFixed k (n / 16) ++ [hexDigit (n % 16)]

/-- The escape of one character, as `ensure_ascii=True` has it: beyond ASCII, one or two units of
UTF-16. -/
def escapeAscii (c : Char) : List Char :=
  if c.toNat < 127 then escapeChar c
  else if c.toNat < 0x10000 then "\\u".toList ++ hexFixed 4 c.toNat
  else "\\u".toList ++ hexFixed 4 (0xd800 + (c.toNat - 0x10000) / 0x400) ++
    ("\\u".toList ++ hexFixed 4 (0xdc00 + (c.toNat - 0x10000) % 0x400))

/-- The escape of one character under either setting of `ensure_ascii`. -/
def escape (ascii : Bool) (c : Char) : List Char := if ascii then escapeAscii c else escapeChar c

/-- A quoted string under either setting. -/
def quoted (ascii : Bool) (s : String) : List Char :=
  '"' :: s.toList.flatMap (escape ascii) ++ ['"']

/-- The items of an array or an object, with the default item separator. -/
def spacedItems (items : List (List Char)) : List Char := [',', ' '].intercalate items

/-- One member of an object, with the default key separator. -/
def textField (ascii : Bool) (field : String × List Char) : List Char :=
  quoted ascii field.1 ++ ": ".toList ++ field.2

mutual

/-- The text of a value that is within the limits. -/
def Json.text (ascii : Bool) : Json → List Char
  | .null => "null".toList
  | .bool true => "true".toList
  | .bool false => "false".toList
  | .int n => intDigits n
  | .float repr => repr.toList
  | .str s => quoted ascii s
  | .arr items => '[' :: spacedItems (Json.textItems ascii items) ++ [']']
  | .obj fields =>
    '\x7b' :: spacedItems ((Json.textFields ascii fields).map (textField ascii)) ++ ['\x7d']

def Json.textItems (ascii : Bool) : List Json → List (List Char)
  | [] => []
  | j :: js => j.text ascii :: Json.textItems ascii js

def Json.textFields (ascii : Bool) : List (String × Json) → List (String × List Char)
  | [] => []
  | (k, j) :: fs => (k, j.text ascii) :: Json.textFields ascii fs

end

mutual

/-- No integer has too many digits, and no array or object lies deeper than the levels left. -/
def Json.within (digits : Nat) : Nat → Json → Bool
  | _, .int n => (Nat.toDigits 10 n.natAbs).length ≤ digits
  | 0, .arr _ | 0, .obj _ => false
  | levels + 1, .arr items => Json.withinItems digits levels items
  | levels + 1, .obj fields => Json.withinFields digits levels fields
  | _, .null | _, .bool _ | _, .float _ | _, .str _ => true

def Json.withinItems (digits levels : Nat) : List Json → Bool
  | [] => true
  | j :: js => j.within digits levels && Json.withinItems digits levels js

def Json.withinFields (digits levels : Nat) : List (String × Json) → Bool
  | [] => true
  | (_, j) :: fs => j.within digits levels && Json.withinFields digits levels fs

end

/-- `json.dumps`; `none` is the `ValueError` for the digits or the `RecursionError`. -/
def dumps (limits : JsonLimits) (ascii : Bool) (v : Json) : Option String :=
  if v.within limits.digits limits.nesting then some (String.ofList (v.text ascii)) else none

theorem of_isSome_dumps {limits : JsonLimits} {ascii : Bool} {v : Json}
    (h : (dumps limits ascii v).isSome) : v.within limits.digits limits.nesting := by
  by_contra hnot
  rw [dumps, if_neg hnot] at h
  cases h

/-! ## Reading -/

/-- Why a text has not been read: the `JSONDecodeError`, or the `ValueError` or `RecursionError`
of a value that is beyond the limits. A text that names half a surrogate pair is a `surrogate`:
`json.loads` puts that into the string, which is then none of Unicode, and reads on. What it
would come to is left open. -/
inductive Unread
  | decodeError
  | raised
  | surrogate
  deriving DecidableEq

/-- The whitespace of JSON. -/
def isBlank (c : Char) : Bool := c = ' ' || c = '\t' || c = '\n' || c = '\r'

/-- The value of a hexadecimal digit. -/
def hexOf (c : Char) : Option Nat :=
  if '0' ≤ c ∧ c ≤ '9' then some (c.toNat - 48)
  else if 'a' ≤ c ∧ c ≤ 'f' then some (c.toNat - 87)
  else if 'A' ≤ c ∧ c ≤ 'F' then some (c.toNat - 55)
  else none

/-- The four hexadecimal digits of a `\u` escape. -/
def readHex4 : Reader Unread Char Nat
  | a :: b :: c :: d :: s =>
    match hexOf a, hexOf b, hexOf c, hexOf d with
    | some w, some x, some y, some z => .ok (((w * 16 + x) * 16 + y) * 16 + z, s)
    | _, _, _, _ => .error .decodeError
  | _ => .error .decodeError

/-- What comes after `\u`: a character, or the two halves of a surrogate pair. -/
def readUnicode : Reader Unread Char Char := fun s =>
  (readHex4 s).bind fun (u, s) =>
    if 0xd800 ≤ u ∧ u ≤ 0xdbff then
      match s with
      | '\\' :: 'u' :: t =>
        (readHex4 t).bind fun (v, t) =>
          if 0xdc00 ≤ v ∧ v ≤ 0xdfff then
            .ok (Char.ofNat (0x10000 + (u - 0xd800) * 0x400 + (v - 0xdc00)), t)
          else .error .surrogate
      | _ => .error .surrogate
    else if 0xdc00 ≤ u ∧ u ≤ 0xdfff then .error .surrogate
    else .ok (Char.ofNat u, s)

/-- The escapes of one letter. -/
def backslash (c : Char) : Option Char :=
  match c with
  | '"' => some '"'
  | '\\' => some '\\'
  | '/' => some '/'
  | 'b' => some (Char.ofNat 8)
  | 't' => some (Char.ofNat 9)
  | 'n' => some (Char.ofNat 10)
  | 'f' => some (Char.ofNat 12)
  | 'r' => some (Char.ofNat 13)
  | _ => none

/-- One character of a string. A control character has to be escaped. -/
def readChar : Reader Unread Char Char
  | [] => .error .decodeError
  | c :: s =>
    if c = '\\' then
      match s with
      | [] => .error .decodeError
      | e :: t =>
        if e = 'u' then readUnicode t
        else match backslash e with
          | some b => .ok (b, t)
          | none => .error .decodeError
    else if c.toNat < 32 then .error .decodeError
    else .ok (c, s)

/-- A string, after its opening quotation mark. -/
def readString : Reader Unread Char String := fun s =>
  (readUntil .decodeError '"' readChar (s.length + 1) s).map fun (cs, t) => (String.ofList cs, t)

/-- The digits of a number before its fraction: no zero comes first but a single one. -/
def readDigits : Reader Unread Char (List Char)
  | [] => .error .decodeError
  | c :: s =>
    if c = '0' then .ok (['0'], s)
    else if c.isDigit then .ok (c :: s.takeWhile Char.isDigit, s.dropWhile Char.isDigit)
    else .error .decodeError

/-- The fraction of a number, if there is one. -/
def readFraction (s : List Char) : List Char × List Char :=
  match s with
  | '.' :: t =>
    if t.takeWhile Char.isDigit = [] then ([], s)
    else ('.' :: t.takeWhile Char.isDigit, t.dropWhile Char.isDigit)
  | _ => ([], s)

/-- The sign of an exponent, if there is one. -/
def readSign (s : List Char) : List Char × List Char :=
  match s with
  | '+' :: t => (['+'], t)
  | '-' :: t => (['-'], t)
  | _ => ([], s)

/-- The exponent of a number, if there is one. -/
def readExponent (s : List Char) : List Char × List Char :=
  match s with
  | [] => ([], s)
  | e :: t =>
    if e = 'e' ∨ e = 'E' then
      if (readSign t).2.takeWhile Char.isDigit = [] then ([], s)
      else (e :: (readSign t).1 ++ (readSign t).2.takeWhile Char.isDigit,
        (readSign t).2.dropWhile Char.isDigit)
    else ([], s)

section reading

variable (limits : JsonLimits) (floatRepr : String → String)

/-- A number without its sign. -/
def readUnsigned (negative : Bool) : Reader Unread Char Json := fun s =>
  (readDigits s).bind fun (digits, s) =>
    let fraction := (readFraction s).1
    let exponent := (readExponent (readFraction s).2).1
    let rest := (readExponent (readFraction s).2).2
    if fraction = [] ∧ exponent = [] then
      if limits.digits < digits.length then .error .raised
      else
        let n : Int := Nat.ofDigitChars 10 digits 0
        .ok (.int (if negative then -n else n), rest)
    else
      .ok (.float (floatRepr (String.ofList
        ((if negative then ['-'] else []) ++ digits ++ fraction ++ exponent))), rest)

def readNumber : Reader Unread Char Json := fun s =>
  match s with
  | '-' :: t => readUnsigned limits floatRepr true t
  | _ => readUnsigned limits floatRepr false s

/-- The values that have a name; the last three are not JSON, and accepted all the same. -/
def constants : List (String × Json) :=
  [("null", .null), ("true", .bool true), ("false", .bool false), ("NaN", .float "nan"),
    ("Infinity", .float "inf"), ("-Infinity", .float "-inf")]

def readConstant : Reader Unread Char Json := fun s =>
  match constants.find? fun (name, _) => name.toList.isPrefixOf s with
  | some (name, value) => .ok (value, s.drop name.length)
  | none => .error .decodeError

/-- The items of an array or an object, after its opening bracket. -/
def readBody {α : Type} (close : Char) (read : Reader Unread Char α) :
    Reader Unread Char (List α) := fun s =>
  match s.dropWhile isBlank with
  | [] => .error .decodeError
  | c :: t =>
    if c = close then .ok ([], t)
    else readItems .decodeError isBlank ',' close read (t.length + 1) (c :: t)

/-- A key and its value. -/
def readMember (read : Reader Unread Char Json) : Reader Unread Char (String × Json)
  | '"' :: s =>
    (readString s).bind fun (key, s) =>
      match s.dropWhile isBlank with
      | ':' :: t => (read (t.dropWhile isBlank)).map fun (value, t) => ((key, value), t)
      | _ => .error .decodeError
  | _ => .error .decodeError

/-- A value that is no array and no object. -/
def readScalar : Reader Unread Char Json := fun s =>
  match readNumber limits floatRepr s with
  | .error .decodeError => readConstant s
  | r => r

/-- A value, with the reader of the values inside it while there is a level left for them. Of the
members of an object with one key, the last counts. -/
def readOne (inner : Option (Reader Unread Char Json)) : Reader Unread Char Json
  | [] => .error .decodeError
  | c :: s =>
    if c = '"' then (readString s).map fun (x, t) => (.str x, t)
    else if c = '[' then
      match inner with
      | none => .error .raised
      | some read => (readBody ']' read s).map fun (items, t) => (.arr items, t)
    else if c = '\x7b' then
      match inner with
      | none => .error .raised
      | some read =>
        (readBody '\x7d' (readMember read) s).map fun (fields, t) =>
          (.obj (Dict.ofPairs fields).rows, t)
    else readScalar limits floatRepr (c :: s)

/-- A value that nests no deeper than the levels left. -/
def readValue : Nat → Reader Unread Char Json
  | 0 => readOne limits floatRepr none
  | levels + 1 => readOne limits floatRepr (some (readValue levels))

/-- `json.loads`. -/
def loads (s : String) : Except Unread Json :=
  (readValue limits floatRepr limits.nesting (s.toList.dropWhile isBlank)).bind fun (v, t) =>
    if t.dropWhile isBlank = [] then .ok v else .error .decodeError

end reading

/-! ## Strings are read back -/

theorem hexOf_hexDigit {n : Nat} (h : n < 16) : hexOf (hexDigit n) = some n := by
  interval_cases n <;> rfl

theorem readHex4_hexFixed {n : Nat} (h : n < 0x10000) (s : List Char) :
    readHex4 (hexFixed 4 n ++ s) = .ok (n, s) := by
  have hdigit (m : Nat) : hexOf (hexDigit (m % 16)) = some (m % 16) :=
    hexOf_hexDigit (Nat.mod_lt _ (by decide))
  have hvalue : ((n / 16 / 16 / 16 % 16 * 16 + n / 16 / 16 % 16) * 16 + n / 16 % 16) * 16 + n % 16 =
      n := by omega
  simp only [hexFixed, List.nil_append, List.cons_append, readHex4, hdigit, hvalue]

/-- A unit outside the surrogates is a character. -/
theorem readUnicode_unit {n : Nat} (h : n < 0x10000) (hn : n < 0xd800 ∨ 0xdfff < n)
    (s : List Char) : readUnicode (hexFixed 4 n ++ s) = .ok (Char.ofNat n, s) := by
  simp only [readUnicode, readHex4_hexFixed h, Except.bind]
  rw [if_neg (by omega), if_neg (by omega)]

/-- Two surrogates are a character. -/
theorem readUnicode_pair {n : Nat} (hlo : 0x10000 ≤ n) (hhi : n < 0x110000) (s : List Char) :
    readUnicode (hexFixed 4 (0xd800 + (n - 0x10000) / 0x400) ++
      ("\\u".toList ++ hexFixed 4 (0xdc00 + (n - 0x10000) % 0x400) ++ s)) =
        .ok (Char.ofNat n, s) := by
  obtain ⟨u, hu⟩ : ∃ u, u = 0xd800 + (n - 0x10000) / 0x400 := ⟨_, rfl⟩
  obtain ⟨v, hv⟩ : ∃ v, v = 0xdc00 + (n - 0x10000) % 0x400 := ⟨_, rfl⟩
  have hvalue : 0x10000 + (u - 0xd800) * 0x400 + (v - 0xdc00) = n := by omega
  have hhigh := readHex4_hexFixed (n := u) (by omega) ('\\' :: 'u' :: (hexFixed 4 v ++ s))
  have hlow := readHex4_hexFixed (n := v) (by omega) s
  have htext : "\\u".toList ++ hexFixed 4 v ++ s = '\\' :: 'u' :: (hexFixed 4 v ++ s) := rfl
  rw [← hu, ← hv, htext]
  simp only [readUnicode, hhigh, Except.bind]
  rw [if_pos (by omega)]
  simp only [hlow]
  rw [if_pos (by omega), hvalue]

theorem readChar_escapeChar (c : Char) (s : List Char) :
    readChar (escapeChar c ++ s) = .ok (c, s) := by
  have hc : ∀ n, c.toNat = n → Char.ofNat n = c := fun n hn => hn ▸ Char.ofNat_toNat c
  unfold escapeChar
  split
  · next h => rw [← hc _ h]; rfl
  · next h => rw [← hc _ h]; rfl
  · next h => rw [← hc _ h]; rfl
  · next h => rw [← hc _ h]; rfl
  · next h => rw [← hc _ h]; rfl
  · next h => rw [← hc _ h]; rfl
  · next h => rw [← hc _ h]; rfl
  · next h34 h92 h8 h9 h10 h12 h13 =>
    split
    · next hlt =>
      have hunit := readUnicode_unit (n := c.toNat) (by omega) (by omega) s
      have hdigits : hexFixed 4 c.toNat = ['0', '0', hexDigit (c.toNat / 16),
          hexDigit (c.toNat % 16)] := by
        have hzero : c.toNat / 16 / 16 = 0 := by omega
        have hhigh : c.toNat / 16 % 16 = c.toNat / 16 := by omega
        simp only [hexFixed, hzero, hhigh]
        rfl
      rw [hdigits, Char.ofNat_toNat] at hunit
      exact hunit
    · next hge =>
      have hslash : c ≠ '\\' := by
        rintro rfl
        exact h92 rfl
      simp [readChar, hslash, hge]

theorem readChar_escapeAscii (c : Char) (s : List Char) :
    readChar (escapeAscii c ++ s) = .ok (c, s) := by
  have hvalid : c.toNat < 0xd800 ∨ 0xdfff < c.toNat ∧ c.toNat < 0x110000 := c.valid
  unfold escapeAscii
  split
  · exact readChar_escapeChar c s
  split
  · next hlt =>
    have hunit := readUnicode_unit hlt (hvalid.imp_right And.left) s
    rw [Char.ofNat_toNat] at hunit
    exact hunit
  · have hpair := readUnicode_pair (n := c.toNat) (by omega) (by omega) s
    rw [Char.ofNat_toNat] at hpair
    rw [List.append_assoc, List.append_assoc]
    exact hpair

theorem readChar_escape (ascii : Bool) (c : Char) (s : List Char) :
    readChar (escape ascii c ++ s) = .ok (c, s) := by
  cases ascii with
  | false => exact readChar_escapeChar c s
  | true => exact readChar_escapeAscii c s

theorem escape_neverStarts (ascii : Bool) : NeverStarts (escape ascii) '"' := by
  intro c
  cases ascii with
  | false => exact escapeChar_neverStarts c
  | true =>
    show ∃ y l, escapeAscii c = y :: l ∧ y ≠ '"'
    unfold escapeAscii
    split
    · exact escapeChar_neverStarts c
    split
    all_goals exact ⟨_, _, rfl, by decide⟩

theorem length_le_flatMap {α β : Type*} {code : α → List β} {x : β} (h : NeverStarts code x)
    (l : List α) : l.length ≤ (l.flatMap code).length := by
  induction l with
  | nil => exact le_rfl
  | cons a l ih =>
    obtain ⟨y, u, hcode, -⟩ := h a
    simp only [List.flatMap_cons, List.length_append, List.length_cons, hcode]
    omega

theorem readString_quoted (ascii : Bool) (x : String) (s : List Char) :
    readString (x.toList.flatMap (escape ascii) ++ '"' :: s) = .ok (x, s) := by
  have hlength := length_le_flatMap (escape_neverStarts ascii) x.toList
  have hread : readUntil .decodeError '"' readChar
      ((x.toList.flatMap (escape ascii) ++ '"' :: s).length + 1)
      (x.toList.flatMap (escape ascii) ++ '"' :: s) = .ok (x.toList, s) :=
    readUntil_flatMap (readChar_escape ascii) (escape_neverStarts ascii)
      (by simp only [List.length_append]; omega) s
  simp only [readString, hread, Except.map, String.ofList_toList]

/-! ## Integers are read back -/

/-- A text that a number cannot go on with. -/
def EndsNumber (s : List Char) : Prop :=
  Stops (fun c => c.isDigit || c = '.' || c = 'e' || c = 'E') s

theorem EndsNumber.digit {s : List Char} (h : EndsNumber s) : Stops Char.isDigit s := by
  intro c t heq
  have hc := h c t heq
  simp only [Bool.or_eq_false_iff] at hc
  exact hc.1.1.1

theorem endsNumber_cons {c : Char} {s : List Char} (h : c.isDigit = false) (hdot : c ≠ '.')
    (he : c ≠ 'e') (hE : c ≠ 'E') : EndsNumber (c :: s) :=
  stops_cons (by simp [h, hdot, he, hE])

theorem readFraction_none {s : List Char} (h : EndsNumber s) : readFraction s = ([], s) := by
  unfold readFraction
  split
  · exact absurd (h _ _ rfl) (by decide)
  · rfl

theorem readExponent_none {s : List Char} (h : EndsNumber s) : readExponent s = ([], s) := by
  unfold readExponent
  split
  · rfl
  · next c t =>
    have hc := h c t rfl
    simp only [Bool.or_eq_false_iff, decide_eq_false_iff_not] at hc
    rw [if_neg (not_or.2 ⟨hc.1.2, hc.2⟩)]

theorem toDigits_head {n : Nat} (hn : 0 < n) : ∃ c ds, Nat.toDigits 10 n = c :: ds ∧ c ≠ '0' := by
  induction n using Nat.strong_induction_on with
  | _ n ih =>
    by_cases hlt : n < 10
    · refine ⟨n.digitChar, [], Nat.toDigits_of_lt_base hlt, ?_⟩
      interval_cases n <;> decide
    · obtain ⟨c, ds, heq, hc⟩ := ih (n / 10) (by omega) (by omega)
      refine ⟨c, ds ++ [(n % 10).digitChar], ?_, hc⟩
      rw [Nat.toDigits_of_base_le (by decide) (by omega), heq, List.cons_append]

theorem readDigits_toDigits (n : Nat) {s : List Char} (h : EndsNumber s) :
    readDigits (Nat.toDigits 10 n ++ s) = .ok (Nat.toDigits 10 n, s) := by
  rcases Nat.eq_zero_or_pos n with rfl | hn
  · rfl
  · obtain ⟨c, ds, heq, hc⟩ := toDigits_head hn
    have hdigit {d : Char} (hd : d ∈ c :: ds) : d.isDigit = true :=
      Nat.isDigit_of_mem_toDigits (by decide) (by decide) (heq ▸ hd)
    have hds : ∀ d ∈ ds, d.isDigit = true := fun d hd => hdigit (List.mem_cons_of_mem _ hd)
    rw [heq, List.cons_append, readDigits, if_neg hc, if_pos (hdigit List.mem_cons_self),
      takeWhile_run hds h.digit, dropWhile_run hds h.digit]

section values

variable {limits : JsonLimits} {floatRepr : String → String} {ascii : Bool}

theorem readUnsigned_toDigits (floatRepr : String → String) (negative : Bool) {n : Nat}
    (hn : (Nat.toDigits 10 n).length ≤ limits.digits) {s : List Char} (h : EndsNumber s) :
    readUnsigned limits floatRepr negative (Nat.toDigits 10 n ++ s) =
      .ok (.int (if negative then -(n : Int) else n), s) := by
  simp only [readUnsigned, readDigits_toDigits n h, Except.bind, readFraction_none h,
    readExponent_none h, Nat.ofDigitChars_ten_toDigits]
  rw [if_pos ⟨trivial, trivial⟩, if_neg (by omega)]

theorem readNumber_intDigits (floatRepr : String → String) {n : Int}
    (hn : (Nat.toDigits 10 n.natAbs).length ≤ limits.digits) {s : List Char} (h : EndsNumber s) :
    readNumber limits floatRepr (intDigits n ++ s) = .ok (.int n, s) := by
  cases n with
  | ofNat n =>
    have hread := readUnsigned_toDigits floatRepr false hn h
    have htext : intDigits (Int.ofNat n) = Nat.toDigits 10 n := Nat.toList_repr
    rw [htext]
    unfold readNumber
    split
    · next t heq =>
      -- the digits of a natural number have no sign
      have hmem : '-' ∈ Nat.toDigits 10 n := by
        cases hdigits : Nat.toDigits 10 n with
        | nil => exact absurd hdigits Nat.toDigits_ne_nil
        | cons c ds =>
          rw [hdigits, List.cons_append] at heq
          exact (List.cons.inj heq).1 ▸ List.mem_cons_self
      exact absurd (Nat.isDigit_of_mem_toDigits (by decide) (by decide) hmem) (by decide)
    · exact hread
  | negSucc n =>
    have hread := readUnsigned_toDigits floatRepr true hn h
    rw [intDigits_negSucc, Nat.toList_repr]
    exact hread

/-! ## Values are read back -/

/-- A value without floats, whose objects name no key twice. -/
inductive Json.Plain : Json → Prop
  | null : Plain .null
  | bool (b : Bool) : Plain (.bool b)
  | int (n : Int) : Plain (.int n)
  | str (s : String) : Plain (.str s)
  | arr {items : List Json} : (∀ v ∈ items, Plain v) → Plain (.arr items)
  | obj {fields : List (String × Json)} : (fields.map Prod.fst).Nodup →
      (∀ f ∈ fields, Plain f.2) → Plain (.obj fields)

/-- The text of one member of an object. -/
def memberText (ascii : Bool) (f : String × Json) : List Char :=
  quoted ascii f.1 ++ ": ".toList ++ f.2.text ascii

theorem textItems_eq (items : List Json) :
    Json.textItems ascii items = items.map (Json.text ascii) := by
  induction items with
  | nil => rfl
  | cons v items ih => rw [Json.textItems, ih, List.map_cons]

theorem textFields_eq (fields : List (String × Json)) :
    (Json.textFields ascii fields).map (textField ascii) = fields.map (memberText ascii) := by
  induction fields with
  | nil => rfl
  | cons f fields ih => rw [Json.textFields, List.map_cons, ih, List.map_cons]; rfl

theorem text_arr (items : List Json) : (Json.arr items).text ascii =
    '[' :: spacedItems (items.map (Json.text ascii)) ++ [']'] := by
  rw [Json.text, textItems_eq]

theorem text_obj (fields : List (String × Json)) : (Json.obj fields).text ascii =
    '\x7b' :: spacedItems (fields.map (memberText ascii)) ++ ['\x7d'] := by
  rw [Json.text, textFields_eq]

theorem within_items {digits levels : Nat} {items : List Json} :
    Json.withinItems digits levels items ↔ ∀ v ∈ items, v.within digits levels := by
  induction items with
  | nil => simp [Json.withinItems]
  | cons v items ih => simp [Json.withinItems, ih]

theorem within_fields {digits levels : Nat} {fields : List (String × Json)} :
    Json.withinFields digits levels fields ↔ ∀ f ∈ fields, f.2.within digits levels := by
  induction fields with
  | nil => simp [Json.withinFields]
  | cons f fields ih => simp [Json.withinFields, ih]

theorem within_arr {digits levels : Nat} {items : List Json}
    (h : (Json.arr items).within digits levels) :
    ∃ k, levels = k + 1 ∧ ∀ v ∈ items, v.within digits k := by
  cases levels with
  | zero => simp [Json.within] at h
  | succ k => exact ⟨k, rfl, within_items.1 (by simpa [Json.within] using h)⟩

theorem within_obj {digits levels : Nat} {fields : List (String × Json)}
    (h : (Json.obj fields).within digits levels) :
    ∃ k, levels = k + 1 ∧ ∀ f ∈ fields, f.2.within digits k := by
  cases levels with
  | zero => simp [Json.within] at h
  | succ k => exact ⟨k, rfl, within_fields.1 (by simpa [Json.within] using h)⟩

theorem intDigits_start (n : Int) :
    ∃ c s, intDigits n = c :: s ∧ (c = '-' ∨ c.isDigit = true) := by
  cases h : intDigits n with
  | nil => exact absurd h (intDigits_ne_nil n)
  | cons c s => exact ⟨c, s, rfl, mem_intDigits (h ▸ List.mem_cons_self)⟩

/-- A text starts with a symbol that is neither a blank nor the end of an array. -/
theorem text_start (ascii : Bool) {v : Json} (hv : v.Plain) :
    ∃ c s, v.text ascii = c :: s ∧ isBlank c = false ∧ c ≠ ']' := by
  cases hv with
  | null | str => exact ⟨_, _, rfl, by decide, by decide⟩
  | bool b => cases b <;> exact ⟨_, _, rfl, by decide, by decide⟩
  | int n =>
    obtain ⟨c, s, heq, hc⟩ := intDigits_start n
    refine ⟨c, s, heq, ?_, ?_⟩
    · rcases hc with rfl | hdigit
      · decide
      · unfold isBlank
        by_contra hblank
        simp only [Bool.not_eq_false, Bool.or_eq_true, decide_eq_true_eq] at hblank
        rcases hblank with ((rfl | rfl) | rfl) | rfl <;> cases hdigit
    · rintro rfl
      rcases hc with hc | hc <;> cases hc
  | arr => exact ⟨_, _, text_arr _, by decide, by decide⟩
  | obj => exact ⟨_, _, text_obj _, by decide, by decide⟩

theorem length_le_spaced {α : Type} {code : α → List Char} {l : List α}
    (h : ∀ a ∈ l, code a ≠ []) : l.length ≤ (spacedItems (l.map code)).length := by
  unfold spacedItems
  induction l with
  | nil => exact Nat.zero_le _
  | cons a l ih =>
    have hpos : 0 < (code a).length := List.length_pos_iff.2 (h a List.mem_cons_self)
    have hle := ih fun b hb => h b (List.mem_cons_of_mem _ hb)
    cases l with
    | nil =>
      simp only [List.map_cons, List.map_nil, List.intercalate_singleton, List.length_singleton]
      exact hpos
    | cons b l =>
      simp only [List.map_cons, List.intercalate_cons_cons, List.length_append,
        List.length_cons] at hle ⊢
      omega

/-- The items up to the closing bracket, when each of them is read back. -/
theorem readBody_items {α : Type} {close : Char} {code : α → List Char}
    {read : Reader Unread Char α} {l : List α} (hsep : ',' ≠ close) (hclose : isBlank close = false)
    (hread : ∀ a ∈ l, ∀ b t, b = ',' ∨ b = close → read (code a ++ b :: t) = .ok (a, b :: t))
    (hstart : ∀ a ∈ l, ∃ c s, code a = c :: s ∧ isBlank c = false ∧ c ≠ close) (s : List Char) :
    readBody close read (spacedItems (l.map code) ++ close :: s) = .ok (l, s) := by
  cases l with
  | nil =>
    have hskip : (close :: s).dropWhile isBlank = close :: s := dropWhile_stops (stops_cons hclose)
    simp [readBody, spacedItems, List.intercalate, hskip]
  | cons a l =>
    have hstops : Stops (fun b => isBlank b || b = close)
        (spacedItems ((a :: l).map code) ++ close :: s) := by
      obtain ⟨c, t, hcode, hblank, hne⟩ := hstart a List.mem_cons_self
      exact intercalate_stops ⟨c, t, hcode, by simp [hblank, hne]⟩
    have hfuel : (a :: l).length ≤ (spacedItems ((a :: l).map code) ++ close :: s).length := by
      have hle : (a :: l).length ≤ (spacedItems ((a :: l).map code)).length :=
        length_le_spaced fun b hb hnil => by
          obtain ⟨c, t, hcode, -⟩ := hstart b hb
          cases hcode.symm.trans hnil
      rw [List.length_append]
      omega
    have hitems : readItems .decodeError isBlank ',' close read
        (spacedItems ((a :: l).map code) ++ close :: s).length
        (spacedItems ((a :: l).map code) ++ close :: s) = .ok (a :: l, s) :=
      readItems_intercalate (by simp [isBlank]) hsep (by decide) hclose hread
        (fun b hb => (hstart b hb).imp fun c => Exists.imp fun t h => ⟨h.1, h.2.1⟩)
        (List.cons_ne_nil _ _) hfuel s
    generalize spacedItems ((a :: l).map code) ++ close :: s = text at hstops hitems ⊢
    cases text with
    | nil => simp [readItems] at hitems
    | cons c t =>
      have hc := hstops c t rfl
      simp only [Bool.or_eq_false_iff, decide_eq_false_iff_not] at hc
      have hskip : (c :: t).dropWhile isBlank = c :: t := dropWhile_stops (stops_cons hc.1)
      simp only [readBody, hskip]
      rw [if_neg hc.2]
      exact hitems

theorem endsNumber_item {b close : Char} {t : List Char} (hclose : close = ']' ∨ close = '\x7d')
    (hb : b = ',' ∨ b = close) : EndsNumber (b :: t) := by
  rcases hb with rfl | rfl
  · exact endsNumber_cons (by decide) (by decide) (by decide) (by decide)
  · rcases hclose with rfl | rfl <;>
      exact endsNumber_cons (by decide) (by decide) (by decide) (by decide)

/-- A member is read back when its value is. -/
theorem readMember_text {read : Reader Unread Char Json} {f : String × Json} {s : List Char}
    (hf : f.2.Plain) (hread : read (f.2.text ascii ++ s) = .ok (f.2, s)) :
    readMember read (memberText ascii f ++ s) = .ok (f, s) := by
  obtain ⟨c, t, htext, hc, -⟩ := text_start ascii hf
  have hkey := readString_quoted ascii f.1 (": ".toList ++ (f.2.text ascii ++ s))
  have hskip : (f.2.text ascii ++ s).dropWhile isBlank = f.2.text ascii ++ s := by
    rw [htext, List.cons_append]
    exact dropWhile_stops (stops_cons hc)
  have hmember : memberText ascii f ++ s = '"' :: (f.1.toList.flatMap (escape ascii) ++
      '"' :: (": ".toList ++ (f.2.text ascii ++ s))) := by
    simp [memberText, quoted]
  rw [hmember]
  simp only [readMember, hkey, Except.bind]
  have hcolon : (": ".toList ++ (f.2.text ascii ++ s)).dropWhile isBlank =
      ':' :: ' ' :: (f.2.text ascii ++ s) := rfl
  have hblank : (' ' :: (f.2.text ascii ++ s)).dropWhile isBlank = f.2.text ascii ++ s := hskip
  simp only [hcolon, hblank, hread, Except.map]

theorem readScalar_int {n : Int} (hn : (Nat.toDigits 10 n.natAbs).length ≤ limits.digits)
    (inner : Option (Reader Unread Char Json)) {s : List Char} (h : EndsNumber s) :
    readOne limits floatRepr inner (intDigits n ++ s) = .ok (.int n, s) := by
  obtain ⟨c, t, htext, hc⟩ := intDigits_start n
  have hnumber := readNumber_intDigits floatRepr hn h
  have hother {x : Char} (hx : x.isDigit = false) (hminus : '-' ≠ x) : c ≠ x := by
    rintro rfl
    rcases hc with rfl | hdigit
    · exact hminus rfl
    · rw [hdigit] at hx
      cases hx
  rw [htext, List.cons_append] at hnumber ⊢
  simp only [readOne, readScalar, hnumber]
  rw [if_neg (hother (by decide) (by decide)), if_neg (hother (by decide) (by decide)),
    if_neg (hother (by decide) (by decide))]

/-- A value is read back from its text, when it needs no more levels than are left. -/
theorem readValue_text {v : Json} (hv : v.Plain) {levels : Nat}
    (hlevels : v.within limits.digits levels) {s : List Char} (hs : EndsNumber s) :
    readValue limits floatRepr levels (v.text ascii ++ s) = .ok (v, s) := by
  induction hv generalizing levels s with
  | null => cases levels <;> rfl
  | bool b => cases b <;> cases levels <;> rfl
  | int n =>
    have hn : (Nat.toDigits 10 n.natAbs).length ≤ limits.digits := by
      simpa [Json.within] using hlevels
    cases levels with
    | zero => exact readScalar_int hn none hs
    | succ k => exact readScalar_int hn _ hs
  | str x =>
    have hread := readString_quoted ascii x s
    have htext : (Json.str x).text ascii ++ s =
        '"' :: (x.toList.flatMap (escape ascii) ++ '"' :: s) := by
      simp [Json.text, quoted]
    rw [htext]
    cases levels <;> simp [readValue, readOne, hread, Except.map]
  | @arr items hitems ih =>
    obtain ⟨k, rfl, hwithin⟩ := within_arr hlevels
    have hbody : readBody ']' (readValue limits floatRepr k)
        (spacedItems (items.map (Json.text ascii)) ++ ']' :: s) = .ok (items, s) :=
      readBody_items (by decide) (by decide)
        (fun v hmem b t hb => ih v hmem (hwithin v hmem) (endsNumber_item (.inl rfl) hb))
        (fun v hmem => text_start ascii (hitems v hmem)) s
    have htext : (Json.arr items).text ascii ++ s =
        '[' :: (spacedItems (items.map (Json.text ascii)) ++ ']' :: s) := by
      simp [text_arr]
    rw [htext]
    simp [readValue, readOne, hbody, Except.map]
  | @obj fields hkeys hfields ih =>
    obtain ⟨k, rfl, hwithin⟩ := within_obj hlevels
    have hbody : readBody '\x7d' (readMember (readValue limits floatRepr k))
        (spacedItems (fields.map (memberText ascii)) ++ '\x7d' :: s) = .ok (fields, s) := by
      refine readBody_items (by decide) (by decide) (fun f hmem b t hb => ?_)
        (fun f hmem => ⟨_, _, rfl, by decide, by decide⟩) s
      exact readMember_text (hfields f hmem)
        (ih f hmem (hwithin f hmem) (endsNumber_item (.inr rfl) hb))
    have htext : (Json.obj fields).text ascii ++ s =
        '\x7b' :: (spacedItems (fields.map (memberText ascii)) ++ '\x7d' :: s) := by
      simp [text_obj]
    rw [htext]
    simp [readValue, readOne, hbody, Except.map, Dict.ofPairs_rows hkeys]

/-- **A value without floats is read back from its text**: `json.dumps` writes it, under either
setting of `ensure_ascii`, as soon as it is within the limits, and `json.loads` then makes the same
value of the text. -/
theorem loads_dumps (limits : JsonLimits) (floatRepr : String → String) (ascii : Bool) {v : Json}
    (hv : v.Plain) (hwithin : v.within limits.digits limits.nesting) :
    ∃ text, dumps limits ascii v = some text ∧ loads limits floatRepr text = .ok v := by
  refine ⟨String.ofList (v.text ascii), if_pos hwithin, ?_⟩
  obtain ⟨c, t, htext, hc, -⟩ := text_start ascii hv
  have hskip : (v.text ascii).dropWhile isBlank = v.text ascii := by
    rw [htext]
    exact dropWhile_stops (stops_cons hc)
  have hread : readValue limits floatRepr limits.nesting (v.text ascii ++ []) = .ok (v, []) :=
    readValue_text hv hwithin stops_nil
  rw [List.append_nil] at hread
  simp [loads, String.toList_ofList, hskip, hread, Except.bind]

theorem loads_dumps_nested : ∃ text,
    dumps ⟨4300, 3⟩ true (.obj [("items", .arr [.int (-30), .null]), ("error\n", .str "\"é🙂\\")]) =
      some text ∧
    loads ⟨4300, 3⟩ id text =
      .ok (.obj [("items", .arr [.int (-30), .null]), ("error\n", .str "\"é🙂\\")]) := by
  refine loads_dumps ⟨4300, 3⟩ id true (.obj (by simp) fun f hf => ?_) (by decide)
  simp only [List.mem_cons, List.not_mem_nil, or_false] at hf
  rcases hf with rfl | rfl
  · refine .arr fun v hv => ?_
    simp only [List.mem_cons, List.not_mem_nil, or_false] at hv
    rcases hv with rfl | rfl
    · exact .int _
    · exact .null
  · exact .str _

example : dumps ⟨4300, 3⟩ true (.str "é🙂") = some "\"\\u00e9\\ud83d\\ude42\"" := by decide
example : dumps ⟨4300, 3⟩ true (.arr [.arr [.arr [.arr []]]]) = none := by decide

end values

end NotificationSystem
