import JexlScript.Callable
import JexlScript.Inline.Program
import JexlScript.Routine.Error

/-!
# Inlining a callable

A callable is inlined through its source text, which a reader turns into a
program. Where that cannot be done the call stays a call, and the reason is
kept for the record. A source that the reader refuses is an error.
-/

namespace JexlScript.Inline

open Script

abbrev Reader := String → Except Routine.Refusal Program

inductive Obstacle where
  | noReader
  | noSource
  /-- The program holds no function, or one that assigns to a parameter. -/
  | shape
deriving DecidableEq, Repr

def Obstacle.text : Obstacle → String
  | .noReader => "Not inlining: no function parser configured"
  | .noSource => "Not inlining: source code unavailable"
  | .shape => "Not inlining: unsupported function shape"

def inlineCallable (reader : Option Reader) (f : Callable) (args : List Expr) :
    Except Routine.Refusal (Except Obstacle Expr) :=
  match reader with
  | none => .ok (.error .noReader)
  | some read =>
    match f.source with
    | none => .ok (.error .noSource)
    | some source => do
      let program ← read source
      match inlineProgram? program args with
      | some e => .ok (.ok e)
      | none => .ok (.error .shape)

end JexlScript.Inline
