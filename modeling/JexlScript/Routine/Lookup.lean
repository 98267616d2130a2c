import JexlScript.Callable
import JexlScript.Routine.Error
import JexlScript.Routine.Extent
import JexlScript.Routine.Run.Whole

/-!
# Functions by name

The text of a function that a name of a module stands for, and the callable that
a text defines.
-/

namespace JexlScript.Routine

/-- The text of a lambda expression that was read from a module, found in what
its file shows now. -/
def Module.lambdaText (m : Module) (text : List Char) (place : Span) (file : List Char) :
    Option (List Char) := do
  let site ← m.lambdas.find? fun l => l.span = place
  lambdaTextAt file (lineAt text place.start) site.argNames
    (site.parts.map (linesAndColumns text))

/-- The text of a function, found in what its file shows now. What is called a
lambda expression is looked for by reading the file, which fails on a null
character; anything else is looked for by the line that the function it wraps
starts on. What does not stand in the module has no text. -/
def Module.codeText (m : Module) (text : List Char) (name : String) (code : Code)
    (inner : Option Code) (shown : String) : Except Refusal (Option (List Char)) :=
  let file := shown.toList
  if name = lambdaName then
    if shown.contains '\x00' then .error .nullCharacter
    else
      match code.body with
      | .value place _ => .ok (m.lambdaText text place file)
      | .block start _ =>
        .ok (lambdaTextAt file (lineAt text start) code.params.single [])
  else
    .ok (inner.bind fun code => definitionText file (lineAt text code.start))

def functionText (given : List (String × Datum)) (text name : String) (key : Option Key)
    (shown : String) : Except Refusal (Option String) :=
  let module := unifyLineEnds text.toList
  match readModule module with
  | none => .ok none
  | some m =>
    let query : Run (Option (String × Code × Option Code)) := do
      let m := machineAt mostDeep
      m.toldOf (← m.find name key)
    match query (runModule given m.body) with
    | (.ok (some (name, code, inner)), _) =>
      (m.codeText module name code inner shown).map (·.map String.ofList)
    | _ => .ok none

def Module.callable (m : Module) (text : List Char) : Callable :=
  match m.body with
  | .function _ name _ _ _ _ _ :: _ => ⟨name, some (String.ofList text)⟩
  | .expr (.lambda _ _ place) :: _ | .assign _ (.lambda _ _ place) :: _ =>
    ⟨lambdaName, some (String.ofList (slice text place))⟩
  | _ => ⟨lambdaName, some (String.ofList text)⟩

end JexlScript.Routine

namespace JexlScript

/-- The callable that a text defines: a definition, or a lambda expression that
may go over several lines. -/
def Callable.ofText (text : String) : Callable :=
  let cs := Routine.unifyLineEnds text.toList
  match Routine.readModule cs with
  | some m => m.callable cs
  | none =>
    let wrapped := '(' :: cs ++ [')']
    match Routine.readModule wrapped with
    | some m => m.callable wrapped
    | none => ⟨Routine.lambdaName, some text⟩

end JexlScript
