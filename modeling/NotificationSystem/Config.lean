import NotificationSystem.Models
import Mathlib.Data.List.DropRight

/-!
# The backoff setting

`Settings.retry_backoff_list` of `app/core/config.py`: the items of a string, read by `int`. An
item that `int` refuses makes the property raise, here `none`. Characters are those of Python's
Unicode database.
-/

namespace NotificationSystem

/-! ## Characters -/

/-- `str.isspace`, of one character. -/
def isSpace (c : Char) : Bool :=
  c.toNat ∈ [0x09, 0x0A, 0x0B, 0x0C, 0x0D, 0x1C, 0x1D, 0x1E, 0x1F, 0x20, 0x85, 0xA0, 0x1680, 0x2000,
    0x2001, 0x2002, 0x2003, 0x2004, 0x2005, 0x2006, 0x2007, 0x2008, 0x2009, 0x200A, 0x2028, 0x2029,
    0x202F, 0x205F, 0x3000]

/-- The code points of the digits zero. The other nine of a script follow its zero. -/
def decimalZeros : List Nat :=
  [0x30, 0x660, 0x6F0, 0x7C0, 0x966, 0x9E6, 0xA66, 0xAE6, 0xB66, 0xBE6, 0xC66, 0xCE6, 0xD66, 0xDE6,
    0xE50, 0xED0, 0xF20, 0x1040, 0x1090, 0x17E0, 0x1810, 0x1946, 0x19D0, 0x1A80, 0x1A90, 0x1B50,
    0x1BB0, 0x1C40, 0x1C50, 0xA620, 0xA8D0, 0xA900, 0xA9D0, 0xA9F0, 0xAA50, 0xABF0, 0xFF10, 0x104A0,
    0x10D30, 0x11066, 0x110F0, 0x11136, 0x111D0, 0x112F0, 0x11450, 0x114D0, 0x11650, 0x116C0,
    0x11730, 0x118E0, 0x11950, 0x11C50, 0x11D50, 0x11DA0, 0x11F50, 0x16A60, 0x16AC0, 0x16B50,
    0x1D7CE, 0x1D7D8, 0x1D7E2, 0x1D7EC, 0x1D7F6, 0x1E140, 0x1E2F0, 0x1E4F0, 0x1E950, 0x1FBF0]

/-- The value of a decimal digit. -/
def decimalDigit (c : Char) : Option Nat :=
  (decimalZeros.find? fun first => first ≤ c.toNat && c.toNat < first + 10).map (c.toNat - ·)

/-- `str.strip`. -/
def strip (item : List Char) : List Char := (item.dropWhile isSpace).rdropWhile isSpace

/-! ## `int` -/

/-- The digits of an integer literal, which single underscores may separate. -/
def literalDigits : List Char → Option (List Nat)
  | [] => none
  | [c] => (decimalDigit c).map fun d => [d]
  | c :: '_' :: rest => (decimalDigit c).bind fun d => (literalDigits rest).map (d :: ·)
  | c :: rest => (decimalDigit c).bind fun d => (literalDigits rest).map (d :: ·)

/-- The value of an unsigned literal. A longer one is refused. -/
def literalValue (literal : List Char) : Option Nat :=
  (literalDigits literal).bind fun digits =>
    if digits.length ≤ 4300 then some (digits.foldl (fun value d => 10 * value + d) 0) else none

/-- `int`, of a string without surrounding spaces. -/
def parseInt : List Char → Option Int
  | '-' :: literal => (literalValue literal).map fun value => -(value : Int)
  | '+' :: literal => (literalValue literal).map Int.ofNat
  | literal => (literalValue literal).map Int.ofNat

/-! ## The setting -/

/-- The stripped items of `retry_backoff_seconds` that are not blank. -/
def backoffItems (raw : String) : List (List Char) :=
  ((raw.toList.splitOn ',').map strip).filter (· ≠ [])

/-- `retry_backoff_list`. -/
def retryBackoffList (raw : String) : Option (List Int) := (backoffItems raw).mapM parseInt

theorem length_of_mapM {α β : Type*} {f : α → Option β} {l : List α} {l' : List β}
    (h : l.mapM f = some l') : l'.length = l.length := by
  induction l generalizing l' with
  | nil =>
    cases h
    rfl
  | cons a l ih =>
    simp only [List.mapM_cons, Option.bind_eq_bind, Option.bind_eq_some_iff, Option.pure_def,
      Option.some.injEq] at h
    obtain ⟨b, -, bs, hbs, rfl⟩ := h
    simp [ih hbs]

theorem retryBackoffList_length {raw : String} {delays : List Int}
    (h : retryBackoffList raw = some delays) : delays.length = (backoffItems raw).length :=
  length_of_mapM h

example : retryBackoffList "10,30,60" = some [10, 30, 60] := by decide

example : retryBackoffList " +1_0, x" = none := by decide

end NotificationSystem
