import UsageBilling.Coverage.Insert
import UsageBilling.Text.Blank
import UsageBilling.Text.Integer

/-!
Contract: weighted coverage as text.

Owns:
- the written form: `first:last:weight` entries joined by semicolons;
- the reader, which takes all of a text or nothing of it.

Does not own: where such texts are kept.
-/

namespace UsageBilling

def Segment.toText (s : Segment) : String :=
  toString s.first ++ ":" ++ toString s.last ++ ":" ++ toString s.weight

namespace Coverage

open Text

def toText (c : Coverage) : String :=
  String.intercalate ";" (c.segments.map Segment.toText)

/-- The parts of a text between the occurrences of a mark; one more part than
there are marks. -/
def splitAtMark (mark : Char) : List Char → List (List Char)
  | [] => [[]]
  | c :: rest =>
    if c = mark then [] :: splitAtMark mark rest
    else
      match splitAtMark mark rest with
      | [] => [[c]]
      | part :: parts => (c :: part) :: parts

/-- Read an entry: three integers of 64 bits, with blanks around the entry
only. -/
def segmentOfEntry? (entry : List Char) : Option Segment := do
  match splitAtMark ':' (trimChars entry) with
  | [first, last, weight] =>
    some ⟨← readInt64? first, ← readInt64? last, ← readInt64? weight⟩
  | _ => none

/-- Whether segments are not inverted and each begins after the end of the one
before it. -/
def inOrder : Option Int → List Segment → Bool
  | _, [] => true
  | previousEnd, s :: rest =>
    s.first ≤ s.last && (previousEnd.all fun e => decide (e < s.first)) &&
      inOrder (some s.last) rest

/-- Read entries in ascending order. A blank text covers nothing. -/
def ofText? (text : String) (deviation : Nat) : Option Coverage :=
  if isBlankText text then some (empty deviation)
  else do
    let segments ← (splitAtMark ';' text.toList).mapM segmentOfEntry?
    if inOrder none segments then some (segments.foldl insertSegment (empty deviation)) else none

/-- Read entries in ascending order; a text with any fault covers nothing. -/
def ofText (text : String) (deviation : Nat) : Coverage :=
  (ofText? text deviation).getD (empty deviation)

end Coverage

end UsageBilling
