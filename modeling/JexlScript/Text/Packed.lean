/-!
# Packed texts

Long tables are kept packed. The bits of their characters are guessed one after the
other from what comes before them, and all bits together are written as one number, of
which a bit takes the smaller a share the better it was guessed. For each bit eleven
guesses are mixed. They go by the last characters, by what came next where these were met
before, by the word, and by what stands in the same place of the row above.
-/

namespace JexlScript.Text

/-- The value of a digit: the printable characters stand for 91 of them, without the
quotation mark, the backslash and the braces. -/
def packedDigit (c : Char) : Nat :=
  c.toNat - 32 - [34, 92, 123, 125].countP (· < c.toNat)

/-! ## Chances -/

def curve : Array Int :=
  #[1, 2, 3, 6, 10, 16, 27, 45, 73, 120, 194, 310, 488, 747, 1101, 1546, 2047, 2549, 2994, 3348,
    3607, 3785, 3901, 3975, 4022, 4050, 4068, 4079, 4085, 4089, 4092, 4093, 4094]

/-- A chance out of 4096, given on the scale on which guesses are added. -/
def squash (d : Int) : Int :=
  if 2047 < d then 4095
  else if d < -2047 then 0
  else
    let i := ((d + 2048) / 128).toNat
    let w := (d + 2048) % 128
    (curve.getD i 0 * (128 - w) + curve.getD (i + 1) 0 * w + 64) / 128

def stretched : Array Int :=
  (List.range 4095).foldl (fun (t : Array Int) (k : Nat) =>
    let d := (k : Int) - 2047
    t ++ Array.replicate ((squash d).toNat + 1 - t.size) d) #[]

/-- A chance out of 65536, and how often it was put right, up to six times, in one number. -/
def learn (one : Bool) (slot : Nat) : Nat :=
  let chance := slot / 16
  let seen := slot % 16
  let chance :=
    if one then chance + (65535 - chance) * 2 / (2 * seen + 3)
    else chance - chance * 2 / (2 * seen + 3)
  chance * 16 + min 6 (seen + 1)

/-! ## Bits -/

structure Unpacking where
  digits : List Char
  /-- How many values the number may still have. -/
  range : Nat
  code : Nat
  /-- The chance of a bit by each guess, in what was read of its character, behind what
  it goes by. -/
  chances : Array Nat
  /-- What the guesses count, eleven in a row. -/
  weights : Array Int

/-- A place in a table of the given size, which is a power of two. -/
def spread (bits : UInt64) (key : Nat) : Nat :=
  ((UInt64.ofNat key * 0x9e3779b97f4a7c15) >>> (64 - bits)).toNat

/-- Takes a digit where the range has become small. -/
def Unpacking.refill (u : Unpacking) : Unpacking :=
  if u.range < Nat.pow 91 5 then
    { u with
      range := u.range * 91
      code := u.code * 91 + (u.digits.head?.elim 0 packedDigit)
      digits := u.digits.tail }
  else u

def vote (chances : Array Nat) (slot : Nat) : Int :=
  stretched.getD (chances.getD slot 0 / 256) 2047

/-- The sum of the first guesses, each of which counts what two rows of weights say. -/
def mixed (chances : Array Nat) (weights : Array Int) (slots : Array Nat) (i j : Nat) :
    Nat → Int
  | 0 => 0
  | k + 1 =>
    (weights.getD (i + k) 0 + weights.getD (j + k) 0) * vote chances (slots.getD k 0) +
      mixed chances weights slots i j k

def raised (step : Int) (i : Nat) (weights : Array Int) : Array Int :=
  weights.setIfInBounds i (weights.getD i 0 + step)

/-- Puts the first guesses and their weights right, given by how much the mixed one missed. -/
def corrected (one : Bool) (miss : Int) (slots : Array Nat) (i j : Nat) :
    Nat → Array Nat → Array Int → Array Nat × Array Int
  | 0, chances, weights => (chances, weights)
  | k + 1, chances, weights =>
    let slot := slots.getD k 0
    let step := vote chances slot * miss / 6000
    corrected one miss slots i j k
      (chances.setIfInBounds slot (learn one (chances.getD slot 0)))
      (raised step (i + k) (raised step (j + k) weights))

/-- Reads a bit, with the places of the chances by the guesses and two rows of weights. -/
def Unpacking.bit (slots : Array Nat) (i j : Nat) : Unpacking → Bool × Unpacking
  | ⟨digits, range, code, chances, weights⟩ =>
    let chance := squash (mixed chances weights slots i j 11 / 65536)
    let bound := range / 4096 * (min 4094 (max 1 chance)).toNat
    let one := decide (code < bound)
    let miss := (if one then 4096 else 0) - chance
    let (chances, weights) := corrected one miss slots i j 11 chances weights
    let (range, code) := if one then (bound, code) else (range - bound, code - bound)
    (one, Unpacking.refill (.refill ⟨digits, range, code, chances, weights⟩))

/-- Reads the bits of a character. `node` is what was read of it, after a one. -/
def Unpacking.bits (keys : Array Nat) (last : Nat) :
    Nat → (node : Nat) → Unpacking → Nat × Unpacking
  | 0, node, u => (node - 128, u)
  | n + 1, node, u =>
    let slots := keys.mapIdx fun k key => k * Nat.pow 2 20 + (key + node * 40503) % Nat.pow 2 20
    let (one, u) := u.bit slots (node * 11) ((128 + last * 8 + n) * 11)
    u.bits keys last n (2 * node + one.toNat)

/-! ## Characters -/

/-- The key of a number of last characters, the last one first. -/
def recentKey (text : Array Nat) : Nat → Nat
  | 0 => 0
  | k + 1 => (recentKey text k * 773 + text.getD (text.size - 1 - k) 0 + 1) % Nat.pow 2 40

/-- Where the last characters were met before. -/
structure Echo where
  /-- The places behind some characters, by these. -/
  met : Array Nat
  place : Nat
  /-- How many characters were as expected, nothing being expected after none. -/
  length : Nat

def Echo.next (text : Array Nat) (e : Echo) : Nat :=
  if e.length = 0 then 0 else text.getD e.place 0

def Echo.key (text : Array Nat) (e : Echo) : Nat := e.next text * 16 + min 15 e.length

/-- Takes note of the last character of a text; `reach` characters are looked up. -/
def Echo.note (reach : Nat) (text : Array Nat) : Echo → Echo
  | ⟨met, place, length⟩ =>
    let i := spread 18 (recentKey text reach)
    let before := met.getD i 0
    let met := met.setIfInBounds i text.size
    if 0 < length && text.getD place 0 = text.getD (text.size - 1) 0 then
      ⟨met, place + 1, length + 1⟩
    else ⟨met, before, min 1 before⟩

structure Past where
  text : Array Nat
  /-- The keys of the words. -/
  words : Array Nat
  word : Nat
  /-- Where the row begins, in the text and among the words. -/
  row : Nat × Nat
  above : Nat × Nat
  near : Echo
  far : Echo

def Past.keys (p : Past) : Array Nat :=
  let last := p.text.getD (p.text.size - 1) 0
  let above := p.above.1 + (p.text.size - p.row.1)
  let up := p.text.getD above 0
  let next := p.near.next p.text
  #[recentKey p.text 1, recentKey p.text 2, recentKey p.text 3, recentKey p.text 4,
    p.near.key p.text, p.far.key p.text, p.word, next * 128 + up,
    p.word + p.words.getD (p.above.2 + (p.words.size - p.row.2)) 0 * 41,
    (up * 128 + last) * 128 + p.text.getD (above + 1) 0,
    (next * 128 + p.far.next p.text) * 128 + last].map fun key => spread 20 (key + 1)

def Past.note (c : Nat) : Past → Past
  | ⟨text, words, word, row, above, near, far⟩ =>
    let text := text.push c
    let inWord := (Char.ofNat c).isAlphanum || c = '_'.toNat
    let words := if inWord then words else words.push word
    let word := if inWord then (word * 773 + c + 1) % Nat.pow 2 40 else 0
    let (above, row) :=
      if c = ';'.toNat || c = '\n'.toNat then (row, (text.size, words.size)) else (above, row)
    let near := near.note 2 text
    let far := far.note 5 text
    ⟨text, words, word, row, above, near, far⟩

def Unpacking.chars : Nat → Past → Unpacking → Array Nat
  | 0, past, _ => past.text
  | n + 1, past, u =>
    let (c, u) := u.bits past.keys (past.text.getD (past.text.size - 1) 0) 7 1
    u.chars n (past.note c)

def unpack (length : Nat) (lines : List String) : String :=
  let digits := lines.flatMap String.toList
  let start : Unpacking :=
    { digits := digits.drop 6
      range := Nat.pow 91 6
      code := (digits.take 6).foldl (fun n c => n * 91 + packedDigit c) 0
      chances := Array.replicate (11 * Nat.pow 2 20) (Nat.pow 2 19)
      weights := Array.replicate 1408 12000 ++ Array.replicate 11264 0 }
  let echo : Echo := ⟨Array.replicate (Nat.pow 2 18) 0, 0, 0⟩
  let past : Past := ⟨#[], #[], 0, (0, 0), (0, 0), echo, echo⟩
  String.ofList ((start.chars length past).toList.map Char.ofNat)

end JexlScript.Text
