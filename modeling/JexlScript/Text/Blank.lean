import JexlScript.Text.CodePoints

/-!
# White space

The characters that separate tokens of a formula: the ASCII controls that move
the cursor, the four separators below the space, and the spaces and line ends
of the other scripts.
-/

namespace JexlScript.Text

def blanks : CodePoints := [
    (0x9, 0xd), (0x1c, 0x20), (0x85, 0x85), (0xa0, 0xa0), (0x1680, 0x1680), (0x2000, 0x200a),
    (0x2028, 0x2029), (0x202f, 0x202f), (0x205f, 0x205f), (0x3000, 0x3000)]

def isBlank (c : Char) : Bool := blanks.contains c

end JexlScript.Text
