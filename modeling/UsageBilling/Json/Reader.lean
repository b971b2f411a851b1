import UsageBilling.Json.Token

/-!
Contract: values from the tokens of a JSON document.

Owns:
- the grammar of values, as one pass over the tokens with a stack of the arrays
  and objects still open;
- reading a whole document.

Does not own: the tokens, or limits on nesting, which depend on the use a value
is put to.
-/

namespace UsageBilling.Json

/-- An array or object still open. Items and fields are held latest first. A
field name without characters makes the whole object unreadable. -/
inductive Frame where
  | array (items : List Json)
  | object (fields : List (Option String × Json)) (name : Option String)

/-- What may come next. -/
inductive Expectation where
  | value
  | valueOrClose
  | nameOrClose
  | name
  | colon
  | commaOrClose
  | finished (value : Json)

/-- The open arrays and objects, innermost first, and what may come next. -/
structure Assembly where
  frames : List Frame
  expects : Expectation

namespace Assembly

def start : Assembly :=
  ⟨[], .value⟩

/-- Add a finished value to the innermost open frame, or finish the document. -/
def supply (value : Json) : List Frame → Assembly
  | [] => ⟨[], .finished value⟩
  | .array items :: outer => ⟨.array (value :: items) :: outer, .commaOrClose⟩
  | .object fields name :: outer => ⟨.object ((name, value) :: fields) none :: outer, .commaOrClose⟩

/-- The object of the given fields, held latest first. -/
def objectOf (fields : List (Option String × Json)) : Json :=
  match fields.reverse.mapM fun (name, value) => name.map (·, value) with
  | some named => .object named
  | none => .unreadable

/-- Take a token that begins a value. -/
def beginValue? (frames : List Frame) : Token → Option Assembly
  | .scalar value => some (supply value frames)
  | .text (some s) => some (supply (.text s) frames)
  | .text none => some (supply .unreadable frames)
  | .mark .openArray => some ⟨.array [] :: frames, .valueOrClose⟩
  | .mark .openObject => some ⟨.object [] none :: frames, .nameOrClose⟩
  | .mark _ => none

/-- Close the innermost frame. -/
def close? (mark : Mark) : List Frame → Option Assembly
  | .array items :: outer =>
    if mark = .closeArray then some (supply (.array items.reverse) outer) else none
  | .object fields _ :: outer =>
    if mark = .closeObject then some (supply (objectOf fields) outer) else none
  | [] => none

def beginField? (name : Option String) : List Frame → Option Assembly
  | .object fields _ :: outer => some ⟨.object fields name :: outer, .colon⟩
  | _ => none

/-- What follows a comma: a value in an array, a name in an object. -/
def afterComma : List Frame → Expectation
  | .object _ _ :: _ => .name
  | _ => .value

def step (assembly : Assembly) (token : Token) : Option Assembly :=
  match assembly.expects, token with
  | .value, token => beginValue? assembly.frames token
  | .valueOrClose, .mark .closeArray => close? .closeArray assembly.frames
  | .valueOrClose, token => beginValue? assembly.frames token
  | .nameOrClose, .mark .closeObject => close? .closeObject assembly.frames
  | .nameOrClose, .text name => beginField? name assembly.frames
  | .name, .text name => beginField? name assembly.frames
  | .colon, .mark .colon => some ⟨assembly.frames, .value⟩
  | .commaOrClose, .mark .comma => some ⟨assembly.frames, afterComma assembly.frames⟩
  | .commaOrClose, .mark mark => close? mark assembly.frames
  | _, _ => none

/-- The value of a document that has been read to its end. -/
def finish (assembly : Assembly) : Option Json :=
  match assembly.expects with
  | .finished value => some value
  | _ => none

end Assembly

def ofText? (s : String) : Option Json := do
  let tokens ← Token.scan? s.toList
  (← tokens.foldlM Assembly.step Assembly.start).finish

end UsageBilling.Json
