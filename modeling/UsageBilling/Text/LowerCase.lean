import UsageBilling.Text.CaseTable

/-!
Contract: the lower-case form of a text.

Owns:
- the lower case of a single letter, which may be more than one character;
- the final form of sigma at the end of a word;
- the lower case of a whole text.

Does not own: case folding for comparison, or rules that depend on a language.
-/

namespace UsageBilling.Text

/-- The capital sigma, the one letter whose lower case depends on its place. -/
def capitalSigma : Char := 'Σ'

/-- The lower case of a letter regardless of its neighbours. The capital I with
a dot keeps its dot as a combining mark. -/
def lowerCaseOf (c : Char) : List Char :=
  if c.toNat == 0x130 then ['i', Char.ofNat 0x307]
  else
    match lowerCaseRuns.find? fun (first, last, step, _) =>
        first ≤ c.toNat && c.toNat ≤ last && (c.toNat - first) % step == 0 with
    | some (_, _, _, distance) => [Char.ofNat ((c.toNat : Int) + distance).toNat]
    | none => [c]

/-- Whether the first character that case rules do not look past carries case. -/
def meetsCased (cs : List Char) : Bool :=
  match cs.dropWhile (inRanges caseIgnorableRanges) with
  | c :: _ => inRanges casedRanges c
  | [] => false

/-- Lower case of the characters that follow `before`, which is held nearest
first. A sigma that ends a word takes its final form. -/
def lowerCaseAfter (before : List Char) : List Char → List Char
  | [] => []
  | c :: rest =>
    let here :=
      if c == capitalSigma then
        if meetsCased before && !meetsCased rest then ['ς'] else ['σ']
      else lowerCaseOf c
    here ++ lowerCaseAfter (c :: before) rest

def toLowerCase (s : String) : String :=
  String.ofList (lowerCaseAfter [] s.toList)

/-- Equality of texts up to the case of ASCII letters. -/
def eqIgnoringAsciiCase (left right : String) : Bool :=
  left.toList.map Char.toLower == right.toList.map Char.toLower

end UsageBilling.Text
