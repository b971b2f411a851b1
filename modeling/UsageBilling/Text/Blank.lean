/-!
Contract: blank space in text.

Owns:
- the characters with the Unicode property White_Space;
- removal of blanks at the two ends of a text.

Does not own: the narrower set of blanks that a JSON document allows between
its tokens.
-/

namespace UsageBilling.Text

/-- The Unicode property White_Space: the ASCII controls from tab to carriage
return, the space, and the separators that are not joiners. -/
def isBlank (c : Char) : Bool :=
  (0x09 ≤ c.toNat && c.toNat ≤ 0x0D) || c.toNat == 0x20 || c.toNat == 0x85 ||
    c.toNat == 0xA0 || c.toNat == 0x1680 || (0x2000 ≤ c.toNat && c.toNat ≤ 0x200A) ||
    c.toNat == 0x2028 || c.toNat == 0x2029 || c.toNat == 0x202F || c.toNat == 0x205F ||
    c.toNat == 0x3000

def trimStart (cs : List Char) : List Char :=
  cs.dropWhile isBlank

def trimChars (cs : List Char) : List Char :=
  (trimStart (trimStart cs).reverse).reverse

def trim (s : String) : String :=
  String.ofList (trimChars s.toList)

def isBlankText (s : String) : Bool :=
  s.toList.all isBlank

end UsageBilling.Text
