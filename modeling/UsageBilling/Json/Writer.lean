import UsageBilling.Json.Number

/-!
Contract: JSON values as text.

Owns:
- the escapes of texts;
- the compact form, on one line without blanks;
- the indented form, with two blanks a level.

Does not own: the choice of which form a program prints.
-/

namespace UsageBilling.Json

def hexDigit (n : Nat) : Char :=
  if n < 10 then Char.ofNat ('0'.toNat + n) else Char.ofNat ('a'.toNat + (n - 10))

/-- A character inside a text: quote, backslash and control characters are
escaped, all else stands for itself. -/
def escapeChar (c : Char) : List Char :=
  if c == '"' then ['\\', '"']
  else if c == '\\' then ['\\', '\\']
  else if c == '\n' then ['\\', 'n']
  else if c == '\r' then ['\\', 'r']
  else if c == '\t' then ['\\', 't']
  else if c == '\x08' then ['\\', 'b']
  else if c == '\x0c' then ['\\', 'f']
  else if c.toNat < 0x20 then
    ['\\', 'u', '0', '0', hexDigit (c.toNat / 16), hexDigit (c.toNat % 16)]
  else [c]

def quote (s : String) : String :=
  "\"" ++ String.ofList (s.toList.flatMap escapeChar) ++ "\""

/-- The text of a value that is neither array nor object. -/
def scalarText : Json → String
  | bool true => "true"
  | bool false => "false"
  | integer n => toString n
  | float x => floatText x
  | text s => quote s
  | _ => "null"

mutual

def compact : Json → String
  | array items => "[" ++ String.intercalate "," (compactItems items) ++ "]"
  | object fields => "\x7b" ++ String.intercalate "," (compactFields fields) ++ "\x7d"
  | scalar => scalar.scalarText

def compactItems : List Json → List String
  | [] => []
  | item :: rest => item.compact :: compactItems rest

def compactFields : List (String × Json) → List String
  | [] => []
  | (name, value) :: rest => (quote name ++ ":" ++ value.compact) :: compactFields rest

end

/-- Lines between brackets, each one level deeper than the brackets. -/
def bracketed (opening closing : String) (level : Nat) (lines : List String) : String :=
  let indent := fun levels => "\n" ++ String.ofList (List.replicate (2 * levels) ' ')
  if lines.isEmpty then opening ++ closing
  else
    opening ++ indent (level + 1) ++ String.intercalate ("," ++ indent (level + 1)) lines ++
      indent level ++ closing

mutual

def indentedAt (level : Nat) : Json → String
  | array items => bracketed "[" "]" level (indentedItems level items)
  | object fields => bracketed "\x7b" "\x7d" level (indentedFields level fields)
  | scalar => scalar.scalarText

def indentedItems (level : Nat) : List Json → List String
  | [] => []
  | item :: rest => item.indentedAt (level + 1) :: indentedItems level rest

def indentedFields (level : Nat) : List (String × Json) → List String
  | [] => []
  | (name, value) :: rest =>
    (quote name ++ ": " ++ value.indentedAt (level + 1)) :: indentedFields level rest

end

def indented (value : Json) : String :=
  value.indentedAt 0

end UsageBilling.Json
