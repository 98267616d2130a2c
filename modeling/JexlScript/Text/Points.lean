/-!
# Texts by code points

A string holds whole characters. A text that is put together from escapes may
also hold surrogates on their own, which are code points but no characters; it
is kept by its code points.
-/

namespace JexlScript.Text

abbrev Points := List Nat

def charAt? (n : Nat) : Option Char := if n.isValidChar then some (Char.ofNat n) else none

namespace Points

def ofChars (cs : List Char) : Points := cs.map Char.toNat

def chars (ps : Points) : List Char := ps.filterMap charAt?

/-- The string nearest to a text: a surrogate becomes the replacement
character. -/
def toText (ps : Points) : String :=
  String.ofList (ps.map fun n => (charAt? n).getD '\ufffd')

end Points

end JexlScript.Text
