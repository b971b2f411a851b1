import UsageBilling.Number.Binary64

/-!
Contract: the values of JSON documents.

Owns:
- the value type, which keeps integers and floating-point numbers apart and
  keeps every field of an object in the order written;
- lookup, nesting depth, and the form in which each field name occurs once.

Does not own: text, or the shape that a particular document must have.
-/

namespace UsageBilling

/-- A JSON value. An integer is a number written without point or exponent that
64 bits can hold; every other number is floating-point.

`unreadable` stands for a value that is well formed as far as its marks go but
holds a number too large for floating point or a text with half a surrogate
pair. It may be skipped, never used. -/
inductive Json where
  | null
  | bool (value : Bool)
  | integer (value : Int)
  | float (value : Binary64)
  | text (value : String)
  | array (items : List Json)
  | object (fields : List (String × Json))
  | unreadable
deriving Inhabited

namespace Json

/-- The value of a field of an object; of repeated fields, the last. -/
def field? (name : String) : Json → Option Json
  | object fields => (fields.reverse.find? fun field => field.1 == name).map Prod.snd
  | _ => none

/-- Put a field into a list of fields, replacing one of the same name. -/
def putField (fields : List (String × Json)) (name : String) (value : Json) :
    List (String × Json) :=
  if fields.any fun field => field.1 == name then
    fields.map fun field => if field.1 == name then (name, value) else field
  else fields ++ [(name, value)]

mutual

/-- Every object with one field of each name: the last one written. -/
def canonical : Json → Json
  | array items => array (canonicalItems items)
  | object fields => object (canonicalFields [] fields)
  | other => other

def canonicalItems : List Json → List Json
  | [] => []
  | item :: rest => item.canonical :: canonicalItems rest

/-- The fields already collected, updated by the remaining ones in turn. -/
def canonicalFields (collected : List (String × Json)) :
    List (String × Json) → List (String × Json)
  | [] => collected
  | (name, value) :: rest => canonicalFields (putField collected name value.canonical) rest

end

mutual

/-- The number of arrays and objects that the innermost value is nested in,
the value itself included. -/
def depth : Json → Nat
  | array items => depthOfItems items + 1
  | object fields => depthOfFields fields + 1
  | _ => 0

def depthOfItems : List Json → Nat
  | [] => 0
  | item :: rest => max item.depth (depthOfItems rest)

def depthOfFields : List (String × Json) → Nat
  | [] => 0
  | (_, value) :: rest => max value.depth (depthOfFields rest)

end

mutual

def isReadable : Json → Bool
  | unreadable => false
  | array items => itemsReadable items
  | object fields => fieldsReadable fields
  | _ => true

def itemsReadable : List Json → Bool
  | [] => true
  | item :: rest => item.isReadable && itemsReadable rest

def fieldsReadable : List (String × Json) → Bool
  | [] => true
  | (_, value) :: rest => value.isReadable && fieldsReadable rest

end

end Json

end UsageBilling
