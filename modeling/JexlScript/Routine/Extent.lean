import JexlScript.Routine.Loose
import JexlScript.Routine.Statement
import JexlScript.Text.Line
import JexlScript.Text.Margin

/-!
# The text of a function in a file

A definition reaches from its decorators to the end of its block, a lambda
expression exactly from its first to its last character. A file may have
changed since a function was read from it; then the text is found by the line
that the function started on.
-/

namespace JexlScript.Routine

def slice (text : List Char) (place : Span) : List Char :=
  (text.drop place.start).take (place.stop - place.start)

/-- The characters of a text at a place that was found with line feeds for its line
ends. -/
def sliceOfPlaces (text : List Char) (place : Span) : List Char :=
  (((places text).drop place.start).take (place.stop - place.start)).flatten

def lineAt (text : List Char) (position : Nat) : Nat := (text.take position).count '\n'

def lineAndColumn (text : List Char) (position : Nat) : Nat × Nat :=
  let before := text.take position
  let onLine := before.reverse.takeWhile (· ≠ '\n')
  (before.count '\n', onLine.foldl (fun bytes c => bytes + c.utf8Size) 0)

/-! ## Definitions -/

structure BlockSearch where
  started : Bool
  isLambda : Bool
  inDecorator : Bool
  skipping : Bool
  depth : Int
  bodyColumn : Option Nat
  lines : Nat

/-- A step of the search: the state after a token, and whether the block goes
on. -/
def BlockSearch.step (s : BlockSearch) (t : LooseToken) : BlockSearch × Bool :=
  if !s.started && !s.inDecorator then
    match t.kind with
    | .decorator => ({ s with inDecorator := true, skipping := true }, true)
    | .word "lambda" => ({ s with isLambda := true, started := true, skipping := true }, true)
    | .word "def" | .word "class" => ({ s with started := true, skipping := true }, true)
    | _ => ({ s with skipping := true }, true)
  else
    match t.kind with
    | .newline =>
      ({ s with skipping := false, lines := t.line + 1, inDecorator := false }, !s.isLambda)
    | kind =>
      if s.skipping then (s, true)
      else
        match kind with
        | .indent column =>
          ({ s with
              bodyColumn := if s.started then some (s.bodyColumn.getD column) else s.bodyColumn
              depth := s.depth + 1
              skipping := true },
            true)
        | .dedent => ({ s with depth := s.depth - 1 }, 1 < s.depth)
        | .comment column =>
          match s.bodyColumn with
          | some body => (if body ≤ column then { s with lines := t.line + 1 } else s, true)
          | none => (s, true)
        | _ => (s, s.depth ≠ 0)

def blockLines : BlockSearch → List LooseToken → Nat
  | s, [] => s.lines
  | s, t :: ts =>
    match s.step t with
    | (s, true) => blockLines s ts
    | (s, false) => s.lines

def holdsLambda : (before : Char) → List Char → Bool
  | _, [] => false
  | before, c :: cs =>
    (!Text.isNamePart before && "lambda".toList.isPrefixOf (c :: cs) &&
      match (c :: cs).drop 6 with
      | d :: _ => d = ':' || Text.isBlank d
      | [] => false) || holdsLambda c cs

def startsWithWord (word : String) (cs : List Char) : Bool :=
  word.toList.isPrefixOf cs &&
    match cs.drop word.toList.length with
    | d :: _ => Text.isBlank d
    | [] => false

def opensFunction (line : List Char) : Bool :=
  let content := line.dropWhile Text.isBlank
  startsWithWord "def" content ||
    (startsWithWord "async" content &&
      startsWithWord "def" ((content.drop 5).dropWhile Text.isBlank)) ||
    holdsLambda ' ' line || content.head? = some '@'

/-- The lines from the given one back to the first that may open a function; the
first line of all always may. -/
def openingLine (lines : List (List Char)) : Nat → Nat
  | 0 => 0
  | n + 1 =>
    match lines[n + 1]? with
    | some line => if opensFunction line then n + 1 else openingLine lines n
    | none => openingLine lines n

/-- The text of the definition that starts on a line of a file, without its
margin. There is none in an empty file or beyond its end. The last line has no line
end if the file has none there. -/
def definitionText (file : List Char) (line : Nat) : Option (List Char) :=
  let lines := Text.fileLines file
  if lines.isEmpty || (line ≠ 0 && lines.length ≤ line) then none
  else
    let tail := lines.drop (openingLine lines line)
    let count := blockLines ⟨false, false, false, false, 0, none, 1⟩ (looseScan tail)
    some (Text.dedent (tail.take count).flatten)

/-! ## Lambda expressions -/

/-- Whether one place lies within another, by lines and columns. -/
def within (inner outer : (Nat × Nat) × (Nat × Nat)) : Bool :=
  let before (a b : Nat × Nat) : Bool := a.1 < b.1 || (a.1 = b.1 && a.2 ≤ b.2)
  before outer.1 inner.1 && before inner.2 outer.2

def linesAndColumns (text : List Char) (place : Span) : (Nat × Nat) × (Nat × Nat) :=
  (lineAndColumn text place.start, lineAndColumn text place.stop)

def heaviest {α : Type} (weight : α → Nat) : List α → Option α
  | [] => none
  | a :: as => some (as.foldl (fun best b => if weight best < weight b then b else best) a)

/-- The lambda expressions of a module that start on a line and have the given
parameters, the outer before the inner and else from left to right. -/
def Module.lambdasAt (module : Module) (text : List Char) (line : Nat) (params : List String) :
    List LambdaSite :=
  let depth (l : LambdaSite) : Nat :=
    (module.lambdas.filter fun o => o.span.start ≤ l.span.start && l.span.stop ≤ o.span.stop).length
  let found := module.lambdas.filter fun l =>
    lineAt text l.span.start = line && l.params = params
  found.mergeSort fun a b =>
    depth a < depth b || (depth a = depth b && a.span.start ≤ b.span.start)

/-- The text, in a file, of a lambda expression: of those that start on the line
and have the parameters given, the one whose body covers most of the given
parts. -/
def lambdaTextAt (file : List Char) (line : Nat) (params : List String)
    (parts : List ((Nat × Nat) × (Nat × Nat))) : Option (List Char) := do
  if file.isEmpty then none
  else
    let text := unifyLineEnds file
    let shown ← readModule text
    let best ← heaviest
      (fun l => (parts.filter fun p => within p (linesAndColumns text l.body)).length)
      (shown.lambdasAt text line params)
    some (sliceOfPlaces file best.span)

end JexlScript.Routine
