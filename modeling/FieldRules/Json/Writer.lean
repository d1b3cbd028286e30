/-! JSON texts without blanks. A quote, a backslash and the characters below the blank are escaped
in strings, no others. -/
namespace FieldRules.Json

def hexDigit (n : Nat) : Char := (Nat.toDigits 16 n).headD '0'

def escapeChar (c : Char) : List Char :=
  match c with
  | '"' => ['\\', '"']
  | '\\' => ['\\', '\\']
  | '\x08' => ['\\', 'b']
  | '\x0c' => ['\\', 'f']
  | '\n' => ['\\', 'n']
  | '\r' => ['\\', 'r']
  | '\t' => ['\\', 't']
  | c =>
    if c.toNat < 0x20 then ['\\', 'u', '0', '0', hexDigit (c.toNat / 16), hexDigit (c.toNat % 16)]
    else [c]

def writeString (s : String) : String :=
  String.ofList ('"' :: (s.toList.flatMap escapeChar ++ ['"']))

def writeBool (b : Bool) : String := if b then "true" else "false"

def writeArray (items : List String) : String := "[" ++ String.intercalate "," items ++ "]"

/-- The members are given by their names and the texts of their values. -/
def writeObject (members : List (String × String)) : String :=
  "\x7b" ++ String.intercalate "," (members.map fun m => writeString m.1 ++ ":" ++ m.2) ++ "\x7d"

def writeStrings (items : List String) : String := writeArray (items.map writeString)

def writeOption {α : Type} (write : α → String) : Option α → String
  | some a => write a
  | none => "null"

example : writeString "a\"\u0001\u007f" = "\"a\\\"\\u0001\u007f\"" := by decide
example : writeObject [("k", writeStrings ["x"])] = "\x7b\"k\":[\"x\"]\x7d" := by decide

end FieldRules.Json
