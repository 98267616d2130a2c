import JexlScript.Formula.Parser
import JexlScript.Lowering.Journal
import JexlScript.Lowering.Operator
import JexlScript.Lowering.Resolution
import JexlScript.Script.Optional

/-!
# Formulas as scripts

A formula is lowered from its parts upwards. Operators with a fixed script get
it; those registered with an implementation are replaced by its body, and so are
the calls of transforms and functions as far as possible. Filters over relative
names become calls of `filter`. Last, every access that may meet a missing value
is made optional.
-/

namespace JexlScript

open Script

inductive Arity where
  | unary
  | binary
deriving DecidableEq, Repr

def Arity.text : Arity → String
  | .unary => "unary"
  | .binary => "binary"

def Arity.kind : Arity → Kind
  | .unary => .unaryOp
  | .binary => .binaryOp

inductive LoweringError where
  /-- An operator has neither a fixed script nor an implementation that can be
  inlined. -/
  | unknownOperator (op : String) (arity : Arity)
  | refused (why : Routine.Refusal)
  | unknownPool (pool : String)
  | stray (text : Option String)

def strayText : Option String → String
  | some text => Text.quoted text
  | none => "None"

def LoweringError.message : LoweringError → String
  | .unknownOperator op arity => "Unknown " ++ arity.text ++ " operator: " ++ op
  | .refused why => why.message
  | .unknownPool pool => Text.quoted pool
  | .stray text => "Expected code to be unreachable, but got: " ++ strayText text

/-- A step of lowering. The journal is kept also when it fails. -/
abbrev Lower := ExceptT LoweringError (StateM Journal)

namespace Lower

def note (event : Event) : Lower Unit := modify fun j => j.noteEvent event

def noteEquality (op : String) : Lower Unit :=
  if (strictEquality? op).isSome then modify fun j => j.noteEquality op else pure ()

end Lower

structure Context where
  reader : Option Inline.Reader
  strategies : List (Strategy Kind Callable)

namespace Context

variable (ctx : Context)

def inlined (f : Callable) (args : List Expr) : Lower (Option Expr) :=
  match Inline.inlineCallable ctx.reader f args with
  | .error why => throw (.refused why)
  | .ok (.ok e) => pure (some e)
  | .ok (.error why) => do
    Lower.note (.notInlined why)
    pure none

def customOperator (arity : Arity) (op : String) (operands : List Expr) : Lower Expr :=
  match resolve ctx.strategies arity.kind op with
  | none => throw (.unknownOperator op arity)
  | some (f, _) => do
    match ← ctx.inlined f operands with
    | some e => pure e
    | none => throw (.unknownOperator op arity)

def unary (op : String) (operand : Expr) : Lower Expr :=
  match unaryScript? op operand with
  | some e => pure e
  | none => ctx.customOperator .unary op [operand]

def binary (op : String) (left right : Expr) : Lower Expr := do
  Lower.noteEquality op
  match binaryScript? op left right with
  | some e => pure e
  | none => ctx.customOperator .binary op [left, right]

def call (pool name : String) (args : List Expr) : Lower Expr := do
  match Kind.ofText? pool with
  | none => throw (.unknownPool pool)
  | some kind =>
    match resolve ctx.strategies kind name with
    | none =>
      Lower.note (.unresolved pool name)
      pure (.call (.ident name) args)
    | some (f, strategy) =>
      match ← ctx.inlined f args with
      | some e => pure e
      | none =>
        Lower.note (.plainCall pool name strategy)
        pure (.call (.ident name) args)

def filterNames (expr : Formula) : Lower (List String) :=
  match expr.relativeNames with
  | .ok names => do
    Lower.note (.destructured names)
    pure names
  | .error text => throw (.stray text)

mutual

def lower : Formula → Lower Expr
  | .literal value => pure (.lit value)
  | .root name _ => pure (.ident name)
  | .field parent name _ => do
    let obj ← lower parent
    pure (obj.dot name)
  | .unary op operand => do
    let e ← lower operand
    ctx.unary op e
  | .binary op left right => do
    let l ← lower left
    let r ← lower right
    ctx.binary op l r
  | .conditional test consequent alternate => do
    let c ← lower test
    let y ← lower consequent
    let n ← lower alternate
    pure (.ternary c y n)
  | .array elements => do
    let es ← lowerList elements
    pure (.array es)
  | .object entries => do
    let ps ← lowerEntries entries
    pure (.object ps)
  | .filter subject expr relative => do
    let s ← lower subject
    if relative then
      let names ← filterNames expr
      let e ← lower expr
      pure (s.invoke "filter" [.arrow [.pattern names] e])
    else
      let e ← lower expr
      pure (s.index e)
  | .call pool name args => do
    let es ← lowerList args
    ctx.call pool name es
  | .stray text => throw (.stray text)

def lowerList : List Formula → Lower (List Expr)
  | [] => pure []
  | f :: fs => do
    let e ← lower f
    let es ← lowerList fs
    pure (e :: es)

def lowerEntries : List (String × Formula) → Lower (List (String × Expr))
  | [] => pure []
  | (key, f) :: fs => do
    let e ← lower f
    let es ← lowerEntries fs
    pure ((key, e) :: es)

end

end Context

/-! ## From a formula to a finished script -/

structure Options where
  reader : Option Inline.Reader
  overrides : Overrides Callable
  defined : Path → Bool

/-- No reader, no overrides, and nothing known of any path. -/
def Options.usual : Options := ⟨none, Overrides.none, fun _ => false⟩

def Options.context (o : Options) (g : Grammar Callable) : Context :=
  ⟨o.reader, usualStrategies g o.overrides⟩

def equalityWarning (op : String) : String :=
  "Jexl `" ++ op ++ "` translated to strict `" ++ (strictEquality? op).getD op ++
    "`; operands of different types no longer compare by coercion"

/-- A finished script and what was reported on the way. -/
structure Lowered where
  script : Expr
  journal : Journal

def Lowered.warnings (l : Lowered) : List String :=
  l.journal.looseEqualities.map equalityWarning

def Formula.toScript (g : Grammar Callable) (o : Options) (f : Formula) :
    Except LoweringError Lowered :=
  match ((o.context g).lower f).run Journal.empty with
  | (.ok e, journal) => .ok ⟨e.withOptional o.defined, journal⟩
  | (.error why, _) => .error why

inductive ScriptFailure where
  | unreadable (why : ReadFailure)
  | unlowered (why : LoweringError)

def scriptOf (g : Grammar Callable) (o : Options) (text : String) :
    Except ScriptFailure Lowered :=
  match Formula.parse g text with
  | .error why => .error (.unreadable why)
  | .ok f =>
    match f.toScript g o with
    | .error why => .error (.unlowered why)
    | .ok l => .ok l

/-- The scripts of several formulas, lowered one after the other in the same
context and with one journal, without making accesses optional. With each comes
the list of equalities made strict up to then. -/
def Context.lowerEach (ctx : Context) :
    Journal → List Formula → List (Except LoweringError Expr × List String)
  | _, [] => []
  | journal, f :: fs =>
    let (outcome, journal) := (ctx.lower f).run journal
    (outcome, journal.looseEqualities) :: ctx.lowerEach journal fs

end JexlScript
