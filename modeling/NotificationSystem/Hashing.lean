import Mathlib.Data.List.Sort
import NotificationSystem.Models

/-!
# The request fingerprint

`canonical_json_hash`: `json.dumps` with sorted keys, the compact separators and
`ensure_ascii=False`, then SHA-256. `dumps` follows the documented output of `json.dumps`, but
that a float is given by its `repr`. SHA-256 itself is a parameter of the deployment.
-/

namespace NotificationSystem

/-- JSON values; an object is its list of key-value pairs in insertion order. -/
inductive Json
  | null
  | bool (b : Bool)
  | int (n : Int)
  | float (repr : String)
  | str (s : String)
  | arr (items : List Json)
  | obj (fields : List (String × Json))

/-- A lower-case hexadecimal digit. -/
def hexDigit (n : Nat) : Char :=
  if n < 10 then Char.ofNat (48 + n) else Char.ofNat (87 + n)

/-- The escape of one character of a string, as `ensure_ascii=False` has it. -/
def escapeChar (c : Char) : List Char :=
  match c.toNat with
  | 34 => "\\\"".toList
  | 92 => "\\\\".toList
  | 8 => "\\b".toList
  | 9 => "\\t".toList
  | 10 => "\\n".toList
  | 12 => "\\f".toList
  | 13 => "\\r".toList
  | n => if n < 32 then "\\u00".toList ++ [hexDigit (n / 16), hexDigit (n % 16)] else [c]

/-- A quoted string. -/
def dumpsString (s : String) : List Char :=
  "\"".toList ++ s.toList.flatMap escapeChar ++ "\"".toList

/-- The members of an object or array, separated by commas. -/
def joinItems (items : List (List Char)) : List Char := [','].intercalate items

/-- One member of an object. -/
def dumpsField (field : String × List Char) : List Char :=
  dumpsString field.1 ++ ":".toList ++ field.2

/-- The members of an object, in the order of their keys. -/
def joinFields (fields : List (String × List Char)) : List Char :=
  joinItems ((fields.insertionSort fun f g => f.1 ≤ g.1).map dumpsField)

mutual

/-- `json.dumps(..., sort_keys=True, separators=(",", ":"), ensure_ascii=False)`. -/
def Json.dumps : Json → List Char
  | .null => "null".toList
  | .bool true => "true".toList
  | .bool false => "false".toList
  | .int n => (toString n).toList
  | .float repr => repr.toList
  | .str s => dumpsString s
  | .arr items => "[".toList ++ joinItems (Json.dumpsItems items) ++ "]".toList
  | .obj fields => "\x7b".toList ++ joinFields (Json.dumpsFields fields) ++ "\x7d".toList

def Json.dumpsItems : List Json → List (List Char)
  | [] => []
  | j :: js => j.dumps :: Json.dumpsItems js

def Json.dumpsFields : List (String × Json) → List (String × List Char)
  | [] => []
  | (k, j) :: fs => (k, j.dumps) :: Json.dumpsFields fs

end

/-- The text that `canonical_json_hash` hashes. -/
def canonicalText (payload : Json) : String := String.ofList payload.dumps

/-- `canonical_json_hash`, over a given SHA-256 hex digest. -/
def canonicalJsonHash (sha256 : ByteArray → String) (payload : Json) : String :=
  sha256 (canonicalText payload).toUTF8

def NotificationChannel.value : NotificationChannel → String
  | .sms => "sms"
  | .email => "email"

def NotificationType.value : NotificationType → String
  | .transactional => "transactional"
  | .marketing => "marketing"

/-- `request.model_dump(mode="json")`. -/
def BulkNotificationRequest.modelDump (request : BulkNotificationRequest) : Json :=
  .obj [("channel", .str request.channel.value), ("type", .str request.type.value),
    ("message", .str request.message), ("recipient_ids", .arr (request.recipientIds.map .int))]

end NotificationSystem
