import UsageBilling.Json.Number

/-!
Contract: the tokens of a JSON document.

Owns:
- splitting a document into marks, texts and words, in one pass over its
  characters;
- the escapes inside texts, surrogate pairs included;
- the meaning of words: the three constants and the numbers.

Does not own: which order of tokens makes a value.
-/

namespace UsageBilling.Json

/-- The marks of the JSON grammar. -/
inductive Mark where
  | openArray
  | closeArray
  | openObject
  | closeObject
  | comma
  | colon
deriving DecidableEq, Repr

/-- A token: a mark, a text, or a value that needs no closing mark. A text with
half a surrogate pair has no characters to stand for it. -/
inductive Token where
  | mark (mark : Mark)
  | text (value : Option String)
  | scalar (value : Json)

namespace Token

/-- The blanks that may stand between tokens. -/
def isSpace (c : Char) : Bool :=
  c == ' ' || c == '\n' || c == '\r' || c == '\t'

def mark? : Char → Option Mark
  | '[' => some .openArray
  | ']' => some .closeArray
  | '\x7b' => some .openObject
  | '\x7d' => some .closeObject
  | ',' => some .comma
  | ':' => some .colon
  | _ => none

def isWordChar (c : Char) : Bool :=
  c.isAlphanum || c == '+' || c == '-' || c == '.'

/-- The value a word stands for. -/
def ofWord? (word : List Char) : Option Token :=
  match String.ofList word with
  | "null" => some (.scalar .null)
  | "true" => some (.scalar (.bool true))
  | "false" => some (.scalar (.bool false))
  | _ => (Literal.ofChars? word).map fun literal => .scalar literal.value

/-- One unit of a text: a character, or the number of a four-digit escape,
which may be half of a surrogate pair. -/
inductive TextUnit where
  | char (c : Char)
  | escape (code : Nat)

def isHighSurrogate (code : Nat) : Bool :=
  0xD800 ≤ code && code ≤ 0xDBFF

def isLowSurrogate (code : Nat) : Bool :=
  0xDC00 ≤ code && code ≤ 0xDFFF

def pairChar (high low : Nat) : Char :=
  Char.ofNat (0x10000 + (high - 0xD800) * 0x400 + (low - 0xDC00))

/-- The characters of a text, if every half of a surrogate pair stands beside
its other half. -/
def charsOfUnits? : List TextUnit → Option (List Char)
  | [] => some []
  | .char c :: rest => (charsOfUnits? rest).map (c :: ·)
  | .escape code :: rest =>
    if isHighSurrogate code then
      match rest with
      | .escape low :: rest =>
        if isLowSurrogate low then (charsOfUnits? rest).map (pairChar code low :: ·) else none
      | _ => none
    else if isLowSurrogate code then none
    else (charsOfUnits? rest).map (Char.ofNat code :: ·)

def hexDigit? (c : Char) : Option Nat :=
  if '0' ≤ c && c ≤ '9' then some (c.toNat - '0'.toNat)
  else if 'a' ≤ c && c ≤ 'f' then some (c.toNat - 'a'.toNat + 10)
  else if 'A' ≤ c && c ≤ 'F' then some (c.toNat - 'A'.toNat + 10)
  else none

def escaped? : Char → Option Char
  | '"' => some '"'
  | '\\' => some '\\'
  | '/' => some '/'
  | 'b' => some '\x08'
  | 'f' => some '\x0c'
  | 'n' => some '\n'
  | 'r' => some '\r'
  | 't' => some '\t'
  | _ => none

/-- Where the pass over the characters stands. Units and word characters are
held latest first. -/
inductive Mode where
  | between
  | inWord (word : List Char)
  | inText (units : List TextUnit)
  | inEscape (units : List TextUnit)
  | inCode (units : List TextUnit) (digitsLeft : Nat) (code : Nat)

/-- The tokens found so far, latest first, and what is being read. -/
structure Scan where
  tokens : List Token
  mode : Mode

def Scan.start : Scan :=
  ⟨[], .between⟩

/-- Take one character outside texts and words. -/
def Scan.between (tokens : List Token) (c : Char) : Option Scan :=
  if isSpace c then some ⟨tokens, .between⟩
  else if c == '"' then some ⟨tokens, .inText []⟩
  else if isWordChar c then some ⟨tokens, .inWord [c]⟩
  else (mark? c).map fun mark => ⟨.mark mark :: tokens, .between⟩

/-- Take one character. Control characters have no place in a text. -/
def Scan.step (scan : Scan) (c : Char) : Option Scan :=
  match scan.mode with
  | .between => Scan.between scan.tokens c
  | .inWord word =>
    if isWordChar c then some { scan with mode := .inWord (c :: word) }
    else do
      let token ← ofWord? word.reverse
      Scan.between (token :: scan.tokens) c
  | .inText units =>
    if c == '"' then
      let value := (charsOfUnits? units.reverse).map String.ofList
      some ⟨.text value :: scan.tokens, .between⟩
    else if c == '\\' then some { scan with mode := .inEscape units }
    else if c.toNat < 0x20 then none
    else some { scan with mode := .inText (.char c :: units) }
  | .inEscape units =>
    if c == 'u' then some { scan with mode := .inCode units 4 0 }
    else (escaped? c).map fun named => { scan with mode := .inText (.char named :: units) }
  | .inCode units digitsLeft code => do
    let code := 16 * code + (← hexDigit? c)
    let mode := if digitsLeft ≤ 1 then .inText (.escape code :: units)
      else .inCode units (digitsLeft - 1) code
    some { scan with mode := mode }

/-- The tokens of a pass that has come to the end of the document. -/
def Scan.finish (scan : Scan) : Option (List Token) :=
  match scan.mode with
  | .between => some scan.tokens.reverse
  | .inWord word => (ofWord? word.reverse).map fun token => (token :: scan.tokens).reverse
  | _ => none

def scan? (cs : List Char) : Option (List Token) := do
  (← cs.foldlM Scan.step Scan.start).finish

end Token

end UsageBilling.Json
