import JexlScript.Text.Points
import JexlScript.Text.CharClass

/-!
# Quoted text

Messages show a text between quotes: apostrophes, unless the text holds an
apostrophe and no double quote. The quote and the backslash are escaped, and
so is every character that does not show as itself.
-/

namespace JexlScript.Text

def quoteFor (s : List Char) : Char :=
  if s.contains '\x27' && !s.contains '\x22' then '\x22' else '\x27'

/-- What is written for a code point that does not show as itself. -/
def escapePoint (n : Nat) : List Char :=
  if n = 10 then ['\\', 'n']
  else if n = 13 then ['\\', 'r']
  else if n = 9 then ['\\', 't']
  else if n < 0x100 then '\\' :: 'x' :: hexDigits 2 n
  else if n < 0x10000 then '\\' :: 'u' :: hexDigits 4 n
  else '\\' :: 'U' :: hexDigits 8 n

def escapeBetween (quote c : Char) : List Char :=
  if c = quote || c = '\\' then ['\\', c]
  else if isPrintable c then [c]
  else escapePoint c.toNat

def quoted (s : String) : String :=
  let cs := s.toList
  let quote := quoteFor cs
  String.ofList (quote :: cs.flatMap (escapeBetween quote) ++ [quote])

def quotedList (names : List String) : String :=
  "[" ++ String.intercalate ", " (names.map quoted) ++ "]"

/-! ## Texts by code points -/

def escapePointBetween (quote : Char) (n : Nat) : List Char :=
  match charAt? n with
  | some c => escapeBetween quote c
  | none => escapePoint n

def quotedPoints (ps : Points) : List Char :=
  let quote := quoteFor ps.chars
  quote :: ps.flatMap (escapePointBetween quote) ++ [quote]

def quotedBytes (bytes : List Nat) : List Char :=
  let quote := quoteFor (bytes.map Char.ofNat)
  let escape (n : Nat) : List Char :=
    if n < 127 then escapeBetween quote (Char.ofNat n) else escapePoint n
  quote :: bytes.flatMap escape ++ [quote]

end JexlScript.Text
