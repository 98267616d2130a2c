import JexlScript.Lowering.Basic
import JexlScript.Proofs.Meaning
import JexlScript.Proofs.OperatorScripts
import JexlScript.Proofs.RelativeNames

/-!
# Lowering preserves meaning

The value of a formula of the stock grammar is the value of its script. A
formula reads relative names from the element that the innermost filter looks
at, while its script reads them in the scope of a function that takes them out
of its argument. The two are tied by `Agrees`: in the scope of the script, the
names that a formula reads from outside have their values in the environment,
and its relative names have those of the current element. Entering a filter
keeps this up, because its function binds all relative names of its predicate,
also those of filters nested in it, and no other name that the predicate reads.
-/

namespace JexlScript

open List Script

/-! ## Steps of lowering that succeed -/

namespace Lower

variable {α β : Type}

/-- Whether a step succeeds with a given result, whatever the journal says. -/
def Returns (step : Lower α) (a : α) : Prop :=
  ∀ journal, ∃ journal', step.run journal = (.ok a, journal')

theorem Returns.pure (a : α) : Returns (Pure.pure a) a := fun journal => ⟨journal, rfl⟩

/-- After a step that returns, the next one decides about the outcome. -/
theorem Returns.bind_run {step : Lower α} {next : α → Lower β} {a : α}
    {outcome : Except LoweringError β} (first : step.Returns a)
    (second : ∀ journal, ∃ journal', (next a).run journal = (outcome, journal')) :
    ∀ journal, ∃ journal', (step >>= next).run journal = (outcome, journal') := by
  intro journal
  obtain ⟨middle, ran⟩ := first journal
  obtain ⟨last, ran'⟩ := second middle
  refine ⟨last, ?_⟩
  rw [← ran']
  simp only [ExceptT.run, Bind.bind, ExceptT.bind, ExceptT.mk, StateT.bind] at ran ⊢
  rw [ran]
  rfl

theorem Returns.bind {step : Lower α} {next : α → Lower β} {a : α} {b : β}
    (first : step.Returns a) (second : (next a).Returns b) : (step >>= next).Returns b :=
  first.bind_run second

theorem Returns.note (event : Event) : (note event).Returns () := fun journal =>
  ⟨journal.noteEvent event, rfl⟩

theorem Returns.noteEquality (op : String) : (noteEquality op).Returns () := by
  unfold Lower.noteEquality
  split
  · exact fun journal => ⟨journal.noteEquality op, rfl⟩
  · exact Returns.pure ()

end Lower

/-! ## Names read from outside -/

namespace Formula

/-- The name that a part reads from outside: an absolute root, and `Math` for a rounded quotient. -/
def outerName? : Formula → Option String
  | .root name false => some name
  | .binary op _ _ => if op = "//" then some "Math" else none
  | _ => none

/-- The names that a formula reads from outside. -/
def outerNames (f : Formula) : List String := f.parts.filterMap outerName?

/-- Whether a formula is a relative filter that takes a name out of its elements
which its predicate reads from outside. -/
def captures : Formula → Bool
  | .filter _ e true =>
    match e.relativeNames with
    | .ok names => e.outerNames.any names.contains
    | .error _ => false
  | _ => false

/-- Whether a part calls something. What is called has no meaning here. -/
def isCall : Formula → Bool
  | .call .. => true
  | _ => false

theorem mem_outerNames {f : Formula} {n : String} :
    n ∈ f.outerNames ↔ ∃ p ∈ f.parts, p.outerName? = some n :=
  mem_filterMap

end Formula

/-- In the scope of a script, the names that a formula reads have the values
that it reads. -/
structure Agrees {V : Type} (D : Domain V) (f : Formula) (env : String → V) (element : Option V)
    (scope : String → V) : Prop where
  /-- Names from outside are as in the environment. -/
  outer : ∀ n ∈ f.outerNames, scope n = env n
  /-- Relative names are as in the current element. -/
  relative : ∀ x, element = some x → ∀ n, .root n true ∈ f.parts → scope n = D.field x n

/-- A scope that agrees with a formula agrees with its parts. -/
theorem Agrees.of_parts {V : Type} {D : Domain V} {f q : Formula} {env : String → V}
    {element : Option V} {scope : String → V} (agrees : Agrees D f env element scope)
    (inside : ∀ p ∈ q.parts, p ∈ f.parts) : Agrees D q env element scope where
  outer := by
    intro n member
    obtain ⟨p, part, named⟩ := Formula.mem_outerNames.mp member
    exact agrees.outer n (Formula.mem_outerNames.mpr ⟨p, inside p part, named⟩)
  relative := fun x is n part => agrees.relative x is n (inside _ part)

/-- Wherever scope and environment agree, a value of the formula is the value of the script. -/
def Simulates (f : Formula) (e : Expr) : Prop :=
  ∀ {V : Type} (D : Domain V) (env : String → V) (element : Option V) (scope : String → V),
    Agrees D f env element scope → ∀ v, f.eval D env element = some v → e.eval D scope = some v

/-! ## Values of scripts -/

section

variable {V : Type} {D : Domain V} {scope : String → V}

theorem eval_dot (e : Expr) (name : String) :
    (e.dot name).eval D scope = (e.eval D scope).map (D.field · name) := by
  simp [Expr.dot]

theorem eval_index (e index : Expr) :
    (e.index index).eval D scope =
      (e.eval D scope).bind fun v => (index.eval D scope).map fun key => D.get v key := by
  simp only [Expr.index, Expr.eval]
  cases e.eval D scope <;> cases index.eval D scope <;> rfl

/-- A call of a method evaluates the object, then the arguments. -/
theorem eval_invoke (e : Expr) (method : String) (args : List Expr) :
    (e.invoke method args).eval D scope =
      (e.eval D scope).bind fun v => (evalArguments D args scope).bind (D.invoke v method) := by
  simp [Expr.invoke, Expr.dot]

theorem evalArguments_value {e : Expr} {v : V} (value : e.eval D scope = some v) :
    evalArguments D [e] scope = some [.value v] := by
  cases e with
  | arrow params body => simp at value
  | _ => simp [-Expr.eval, value]

/-- An operation keeps its value when more operands have one. -/
theorem operation_mono {math v : V} {op : String} {l l' r r' : Option V}
    (left : ∀ x, l = some x → l' = some x) (right : ∀ y, r = some y → r' = some y)
    (value : D.operation math op l r = some v) : D.operation math op l' r' = some v := by
  cases l with
  | none => simp [Domain.operation] at value
  | some x =>
    rw [left x rfl]
    cases r with
    | some y => rwa [right y rfl]
    | none =>
      -- without a right operand, only a logical operator has a value
      simp only [Domain.operation, Option.bind_some, Option.bind_none] at value ⊢
      split_ifs at value ⊢
      cases r' with
      | none => exact value
      | some y => exact D.logical_settled value y

/-- Operators that are not logical need both operands. -/
theorem operation_eq_some {math v : V} {op : String} {left right : Option V}
    (plain : op ∉ logicalOps) (value : D.operation math op left right = some v) :
    ∃ x y, left = some x ∧ right = some y ∧ D.operation math op (some x) (some y) = some v := by
  cases left with
  | none => cases value
  | some x =>
    cases right with
    | none => simp [Domain.operation, plain] at value
    | some y => exact ⟨x, y, rfl, rfl, value⟩

/-- The script of an operator does what the operator does. -/
theorem OperatorScript.eval {op : String} {l r e : Expr} (script : OperatorScript l r op e)
    {v : V} (value : D.operation (scope "Math") op (l.eval D scope) (r.eval D scope) = some v) :
    e.eval D scope = some v := by
  cases script with
  | logical known =>
    cases left : l.eval D scope with
    | none => simp [left, Domain.operation] at value
    | some x => simpa [left, Domain.operation, known] using value
  | native known =>
    -- none of these operators is one that changes on the way
    have changed : ∀ o ∈ nativeBinaryOps, o ∉ logicalOps ∧ o ≠ "==" ∧ o ≠ "!=" ∧ o ≠ "^" ∧
        o ≠ "//" ∧ o ≠ "in" := by decide
    have same := changed op known
    obtain ⟨x, y, left, right, value⟩ := operation_eq_some same.1 value
    simpa [left, right, Domain.operation, same] using value
  | equal | unequal | power =>
    obtain ⟨x, y, left, right, value⟩ := operation_eq_some (by decide) value
    simpa [left, right, Domain.operation, logicalOps] using value
  | floor =>
    obtain ⟨x, y, left, right, value⟩ := operation_eq_some (by decide) value
    have quotient : (Expr.binary l "/" r).eval D scope = some (D.binary "/" x y) := by
      simp [left, right]
    rw [floorOfQuotient, eval_invoke, evalArguments_value quotient]
    exact value
  | includes =>
    obtain ⟨x, y, left, right, value⟩ := operation_eq_some (by decide) value
    rw [eval_invoke, right, evalArguments_value left]
    exact value

/-- A test that succeeds more often keeps the same values. -/
theorem keep_mono {p q : V → Option Bool} {xs ys : List V}
    (each : ∀ x ∈ xs, ∀ b, p x = some b → q x = some b) (kept : keep p xs = some ys) :
    keep q xs = some ys := by
  induction xs generalizing ys with
  | nil => exact kept
  | cons x xs ih =>
    simp only [keep, Option.bind_eq_bind, Option.bind_eq_some_iff] at kept ⊢
    obtain ⟨b, holds, others, rest, is⟩ := kept
    refine ⟨b, each x (.head _) b holds, others, ?_, is⟩
    exact ih (fun z member => each z (.tail _ member)) rest

end

/-! ## One form of formulas after the other -/

namespace Simulates

theorem literal (value : Scalar) : Simulates (.literal value) (.lit value) := by
  intro V D env element scope _ v result
  simpa using result

/-- A relative root reads the element in a formula and a name in its script. -/
theorem root (name : String) (relative : Bool) : Simulates (.root name relative) (.ident name) := by
  intro V D env element scope agrees v result
  cases relative with
  | false =>
    have outer := agrees.outer name
      (by simp [Formula.outerNames, Formula.parts, Formula.outerName?])
    simpa [outer] using result
  | true =>
    simp only [Formula.eval, Option.map_eq_some_iff] at result
    obtain ⟨x, is, rfl⟩ := result
    simp [agrees.relative x is name (Formula.self_mem_parts _)]

theorem field {parent : Formula} {e : Expr} (inner : Simulates parent e) (name : String)
    (relative : Bool) : Simulates (.field parent name relative) (e.dot name) := by
  intro V D env element scope agrees v result
  simp only [Formula.eval, Option.map_eq_some_iff] at result
  obtain ⟨x, value, rfl⟩ := result
  have agrees' := agrees.of_parts (q := parent) fun _ => .tail _
  rw [eval_dot, inner D env element scope agrees' x value]
  rfl

theorem unary {operand : Formula} {e : Expr} (inner : Simulates operand e) (op : String) :
    Simulates (.unary op operand) (.unary op e) := by
  intro V D env element scope agrees v result
  simp only [Formula.eval, Option.map_eq_some_iff] at result
  obtain ⟨x, value, rfl⟩ := result
  have agrees' := agrees.of_parts (q := operand) fun _ => .tail _
  simp [inner D env element scope agrees' x value]

/-- The operands are simulated first, and the operator's script does the rest. -/
theorem binary {op : String} {l r : Formula} {l' r' e : Expr} (left : Simulates l l')
    (right : Simulates r r') (script : OperatorScript l' r' op e) :
    Simulates (.binary op l r) e := by
  intro V D env element scope agrees v result
  have agrees_l := agrees.of_parts fun _ part => .tail _ (mem_append_left _ part)
  have agrees_r := agrees.of_parts fun _ part => .tail _ (mem_append_right _ part)
  -- only the floor of a quotient looks at `Math`, which is then read from outside
  have result' : D.operation (scope "Math") op (l.eval D env element) (r.eval D env element) =
      some v := by
    rw [Formula.eval] at result
    by_cases floor : op = "//"
    · rwa [agrees.outer "Math" (by
        simp [Formula.outerNames, Formula.parts, Formula.outerName?, floor])]
    · simpa [Domain.operation, floor] using result
  exact script.eval (operation_mono (left D env element scope agrees_l)
    (right D env element scope agrees_r) result')

theorem conditional {t c a : Formula} {t' c' a' : Expr} (test : Simulates t t')
    (consequent : Simulates c c') (alternate : Simulates a a') :
    Simulates (.conditional t c a) (.ternary t' c' a') := by
  intro V D env element scope agrees v result
  simp only [Formula.eval, Option.bind_eq_bind, Option.bind_eq_some_iff] at result
  obtain ⟨x, value, chosen⟩ := result
  have agrees_t := agrees.of_parts fun _ part =>
    .tail _ (mem_append_left _ (mem_append_left _ part))
  have agrees_c := agrees.of_parts fun _ part =>
    .tail _ (mem_append_left _ (mem_append_right _ part))
  have agrees_a := agrees.of_parts fun _ part => .tail _ (mem_append_right _ part)
  have value' := test D env element scope agrees_t x value
  simp only [Expr.eval, value', Option.bind_eq_bind, Option.bind_some]
  split_ifs at chosen ⊢
  · exact consequent D env element scope agrees_c v chosen
  · exact alternate D env element scope agrees_a v chosen

theorem array {fs : List Formula} {es : List Expr} (each : List.Forall₂ Simulates fs es) :
    Simulates (.array fs) (.array es) := by
  intro V D env element scope agrees v result
  simp only [Formula.eval, Option.map_eq_some_iff] at result
  obtain ⟨vs, values, rfl⟩ := result
  have inside : ∀ f ∈ fs, Agrees D f env element scope := fun f member =>
    agrees.of_parts fun p part => .tail _ (Formula.mem_listParts.mpr ⟨f, member, part⟩)
  suffices values' : evalExprs D es scope = some vs by simp [values']
  clear agrees
  induction each generalizing vs with
  | nil => exact values
  | cons first others ih =>
    simp only [Formula.evalList, Option.bind_eq_bind, Option.bind_eq_some_iff] at values
    obtain ⟨x, value, rest, values, is⟩ := values
    have value' := first D env element scope (inside _ (.head _)) x value
    have values' := ih rest values fun f member => inside f (.tail _ member)
    simpa [value', values'] using is

theorem object {fs : List (String × Formula)} {es : List (String × Expr)}
    (each : List.Forall₂ (fun p q => p.1 = q.1 ∧ Simulates p.2 q.2) fs es) :
    Simulates (.object fs) (.object es) := by
  intro V D env element scope agrees v result
  simp only [Formula.eval, Option.map_eq_some_iff] at result
  obtain ⟨vs, values, rfl⟩ := result
  have inside : ∀ f ∈ fs, Agrees D f.2 env element scope := fun f member =>
    agrees.of_parts fun p part => .tail _ (Formula.mem_entryParts.mpr ⟨f, member, part⟩)
  suffices values' : evalProps D es scope = some vs by simp [values']
  clear agrees
  induction each generalizing vs with
  | nil => exact values
  | cons first others ih =>
    simp only [Formula.evalEntries, Option.bind_eq_bind, Option.bind_eq_some_iff] at values
    obtain ⟨x, value, rest, values, is⟩ := values
    have value' := first.2 D env element scope (inside _ (.head _)) x value
    have values' := ih rest values fun f member => inside f (.tail _ member)
    simpa [value', values', first.1] using is

/-- A filter that is not relative reads an element by its key. -/
theorem index {s e : Formula} {s' e' : Expr} (subject : Simulates s s') (key : Simulates e e') :
    Simulates (.filter s e false) (s'.index e') := by
  intro V D env element scope agrees v result
  simp only [Formula.eval, Option.bind_eq_bind, Option.bind_eq_some_iff] at result
  obtain ⟨x, value, y, value', is⟩ := result
  have agrees_s := agrees.of_parts fun _ part => .tail _ (mem_append_left _ part)
  have agrees_e := agrees.of_parts fun _ part => .tail _ (mem_append_right _ part)
  rw [eval_index, subject D env element scope agrees_s x value,
    key D env element scope agrees_e y value']
  exact is

/-- Inside of a relative filter the function's scope agrees with the predicate: its pattern holds
all relative names, and captures none that is read from outside. -/
theorem agrees_inside {V : Type} {D : Domain V} {s e : Formula} {env : String → V}
    {element : Option V} {scope : String → V} {names : List String}
    (agrees : Agrees D (.filter s e true) env element scope)
    (scanned : e.relativeNames = .ok names) (taken : ∀ n, n ∈ names ↔ .root n true ∈ e.parts)
    (apart : (Formula.filter s e true).captures = false) (x : V) :
    Agrees D e env (some x) (D.bindParams scope [.pattern names] [x]) where
  outer := by
    intro n member
    have free : n ∉ names := by
      simp only [Formula.captures, scanned, any_eq_false, contains_iff_mem] at apart
      exact apart n member
    have inside : ∀ p ∈ e.parts, p ∈ (Formula.filter s e true).parts := fun _ part =>
      .tail _ (mem_append_right _ part)
    have outer := (agrees.of_parts inside).outer n member
    simpa [Domain.bindParams, Domain.bindParam, free] using outer
  relative := by
    intro y is n part
    cases is
    simp [Domain.bindParams, Domain.bindParam, (taken n).mpr part]

/-- A relative filter keeps the elements for which its function holds. -/
theorem filter {s e : Formula} {s' e' : Expr} {names : List String} (subject : Simulates s s')
    (predicate : Simulates e e') (scanned : e.relativeNames = .ok names)
    (taken : ∀ n, n ∈ names ↔ .root n true ∈ e.parts)
    (apart : (Formula.filter s e true).captures = false) :
    Simulates (.filter s e true) (s'.invoke "filter" [.arrow [.pattern names] e']) := by
  intro V D env element scope agrees v result
  simp only [Formula.eval, Option.bind_eq_bind, Option.bind_eq_some_iff] at result
  obtain ⟨x, value, items, elements, kept, selected, is⟩ := result
  have agrees_s := agrees.of_parts fun _ part => .tail _ (mem_append_left _ part)
  rw [eval_invoke, subject D env element scope agrees_s x value]
  simp only [evalArguments, Option.bind_eq_bind, Option.bind_some]
  rw [D.invoke_filter elements, keep_mono ?_ selected]
  · exact is
  · -- the function holds at an element where the predicate does
    intro y _ b holds
    obtain ⟨w, value', truth⟩ := Option.map_eq_some_iff.mp holds
    have inside := agrees_inside agrees scanned taken apart y
    rw [predicate D env (some y) _ inside w value', Option.map_some, truth]

end Simulates

/-! ## Operators of the stock grammar -/

/-- What the stock grammar knows is in its list of elements. -/
theorem Grammar.mem_of_stock_lookup {op : String} {kind : SymbolKind}
    (found : (Grammar.stock.lookup? op kind).isSome) :
    ∃ element, (op, element) ∈ Grammar.stockElements ∧ element.kind = kind := by
  obtain ⟨element, is⟩ := Option.isSome_iff_exists.mp found
  obtain ⟨present, part⟩ := Option.filter_eq_some_iff.mp is
  obtain ⟨before, after, elements, _⟩ := lookup_eq_some_iff.mp present
  refine ⟨element, ?_, by simpa using part⟩
  have elements' : Grammar.stockElements = before ++ (op, element) :: after := elements
  rw [elements']
  simp

/-- Every binary operator of the stock grammar has a script. -/
theorem binaryScript?_stock {op : String} (known : (Grammar.stock.lookup? op .binaryOp).isSome)
    (l r : Expr) : ∃ e, binaryScript? op l r = some e := by
  have fixed : ∀ p ∈ Grammar.stockElements, p.2.kind = .binaryOp →
      (binaryScript? p.1 .undefined .undefined).isSome = true := by decide
  obtain ⟨element, member, part⟩ := Grammar.mem_of_stock_lookup known
  obtain ⟨e, script⟩ := Option.isSome_iff_exists.mp (fixed _ member part)
  exact (binaryScript?_eq_some_iff.mp script).exists_operands l r

/-- Every unary operator of the stock grammar stays what it is. -/
theorem unaryScript?_stock {op : String} (known : (Grammar.stock.lookup? op .unaryOp).isSome)
    (e : Expr) : unaryScript? op e = some (.unary op e) := by
  have fixed : ∀ p ∈ Grammar.stockElements, p.2.kind = .unaryOp → p.1 = "!" := by decide
  obtain ⟨element, member, part⟩ := Grammar.mem_of_stock_lookup known
  have is : op = "!" := fixed _ member part
  rw [is]
  rfl

/-! ## Whole formulas -/

namespace Context

variable (ctx : Context)

/-- A list is lowered if each of its formulas is, each to its own script. -/
theorem lowerList_returns {R : Formula → Expr → Prop} {fs : List Formula}
    (each : ∀ f ∈ fs, ∃ e, (ctx.lower f).Returns e ∧ R f e) :
    ∃ es, (ctx.lowerList fs).Returns es ∧ List.Forall₂ R fs es := by
  induction fs with
  | nil => exact ⟨[], Lower.Returns.pure [], .nil⟩
  | cons f fs ih =>
    obtain ⟨e, returns, related⟩ := each f (.head _)
    obtain ⟨es, others, all⟩ := ih fun f member => each f (.tail _ member)
    exact ⟨e :: es, returns.bind (others.bind (Lower.Returns.pure _)), .cons related all⟩

theorem lowerEntries_returns {R : Formula → Expr → Prop} {ps : List (String × Formula)}
    (each : ∀ p ∈ ps, ∃ e, (ctx.lower p.2).Returns e ∧ R p.2 e) :
    ∃ es, (ctx.lowerEntries ps).Returns es ∧
      List.Forall₂ (fun p q => p.1 = q.1 ∧ R p.2 q.2) ps es := by
  induction ps with
  | nil => exact ⟨[], Lower.Returns.pure [], .nil⟩
  | cons p ps ih =>
    obtain ⟨e, returns, related⟩ := each p (.head _)
    obtain ⟨es, others, all⟩ := ih fun p member => each p (.tail _ member)
    exact ⟨(p.1, e) :: es, returns.bind (others.bind (Lower.Returns.pure _)),
      .cons ⟨rfl, related⟩ all⟩

/-- A formula without calls and captures is lowered to a script that simulates it. -/
theorem lower_simulates {f : Formula} (built : f.Built Grammar.stock)
    (plain : ∀ p ∈ f.parts, p.isCall = false ∧ p.captures = false) :
    ∃ e, (ctx.lower f).Returns e ∧ Simulates f e := by
  induction built with
  | literal value => exact ⟨_, Lower.Returns.pure _, Simulates.literal value⟩
  | root name relative => exact ⟨_, Lower.Returns.pure _, Simulates.root name relative⟩
  | field name _ ih =>
    obtain ⟨e, returns, simulates⟩ := ih (forall_mem_cons.mp plain).2
    exact ⟨_, returns.bind (Lower.Returns.pure _), simulates.field name false⟩
  | @unary op operand known _ ih =>
    obtain ⟨e, returns, simulates⟩ := ih (forall_mem_cons.mp plain).2
    refine ⟨.unary op e, returns.bind ?_, simulates.unary op⟩
    rw [Context.unary, unaryScript?_stock known]
    exact Lower.Returns.pure _
  | @binary op l r known _ _ left right =>
    simp only [Formula.parts, forall_mem_cons, forall_mem_append] at plain
    obtain ⟨l', returns_l, simulates_l⟩ := left plain.2.1
    obtain ⟨r', returns_r, simulates_r⟩ := right plain.2.2
    obtain ⟨e, script⟩ := binaryScript?_stock known l' r'
    refine ⟨e, returns_l.bind (returns_r.bind ?_),
      simulates_l.binary simulates_r (binaryScript?_eq_some_iff.mp script)⟩
    refine (Lower.Returns.noteEquality op).bind ?_
    rw [script]
    exact Lower.Returns.pure e
  | conditional _ _ _ test consequent alternate =>
    simp only [Formula.parts, forall_mem_cons, forall_mem_append] at plain
    obtain ⟨t', returns_t, simulates_t⟩ := test plain.2.1.1
    obtain ⟨c', returns_c, simulates_c⟩ := consequent plain.2.1.2
    obtain ⟨a', returns_a, simulates_a⟩ := alternate plain.2.2
    exact ⟨_, returns_t.bind (returns_c.bind (returns_a.bind (Lower.Returns.pure _))),
      simulates_t.conditional simulates_c simulates_a⟩
  | array _ ih =>
    have inner := Formula.forall_mem_listParts.mp (forall_mem_cons.mp plain).2
    obtain ⟨es, returns, all⟩ := ctx.lowerList_returns fun e inside => ih e inside (inner e inside)
    exact ⟨_, returns.bind (Lower.Returns.pure _), Simulates.array all⟩
  | object _ ih =>
    have inner := Formula.forall_mem_entryParts.mp (forall_mem_cons.mp plain).2
    obtain ⟨es, returns, all⟩ := ctx.lowerEntries_returns fun p inside => ih p inside (inner p inside)
    exact ⟨_, returns.bind (Lower.Returns.pure _), Simulates.object all⟩
  | @filter s e relative _ predicate subject expr =>
    simp only [Formula.parts, forall_mem_cons, forall_mem_append] at plain
    obtain ⟨s', returns_s, simulates_s⟩ := subject plain.2.1
    obtain ⟨e', returns_e, simulates_e⟩ := expr plain.2.2
    cases relative with
    | false =>
      exact ⟨_, returns_s.bind (returns_e.bind (Lower.Returns.pure _)),
        simulates_s.index simulates_e⟩
    | true =>
      -- The scan for names is noted, but succeeds in a formula that the parser builds.
      obtain ⟨names, scanned, _, taken⟩ := predicate.relativeNames
      have returns_names : (filterNames e).Returns names := by
        rw [filterNames, scanned]
        exact (Lower.Returns.note _).bind (Lower.Returns.pure names)
      refine ⟨_, returns_s.bind (returns_names.bind (returns_e.bind (Lower.Returns.pure _))),
        simulates_s.filter simulates_e scanned taken plain.1.2⟩
  | call pool name _ _ => cases (plain _ (Formula.self_mem_parts _)).1

/-- A formula of the stock grammar, without calls and with no filter that takes
out of its elements a name which its predicate reads from outside, has a script,
and the script has the value of the formula in every domain and environment. -/
theorem lower_preserves_meaning {text : String} {f : Formula}
    (parsed : Formula.parse Grammar.stock text = .ok f)
    (calls : ∀ p ∈ f.parts, p.isCall = false) (apart : ∀ p ∈ f.parts, p.captures = false) :
    ∃ e, (ctx.lower f).Returns e ∧
      ∀ {V : Type} (D : Domain V) (env : String → V) (v : V),
        f.eval D env none = some v → e.eval D env = some v := by
  obtain ⟨e, returns, simulates⟩ := ctx.lower_simulates (Formula.parse_built parsed)
    fun p part => ⟨calls p part, apart p part⟩
  refine ⟨e, returns, fun D env v => ?_⟩
  -- outside of all filters the scope is the environment, and there is no element
  exact simulates D env none env ⟨fun n _ => rfl, fun x is => by cases is⟩ v

end Context

/-- Two rows of different kinds, and the kind that is wanted. -/
def sampleRows (name : String) : Datum :=
  let row (kind : String) (on : Bool) : Datum :=
    .object [("kind", .scalar (.text kind)),
      ("tags", .array [.object [("on", .scalar (.bool on))]])]
  if name = "rows" then .array [row "a" true, row "b" true]
  else if name = "want" then .scalar (.text "a")
  else .undefined

/-- Filters in the predicate of a filter, on plain data. -/
theorem lower_preserves_meaning_nested :
    ∃ f e v, Formula.parse Grammar.stock "rows[.kind == want && .tags[.on == true]]" = .ok f ∧
      ((Options.usual.context Grammar.stock).lower f).Returns e ∧
      f.eval Datum.domain sampleRows none = some v ∧ e.eval Datum.domain sampleRows = some v := by
  have evaluated : ((Formula.parse Grammar.stock
      "rows[.kind == want && .tags[.on == true]]").toOption.any fun f =>
        (f.parts.all fun p => !p.isCall && !p.captures) &&
          (f.eval Datum.domain sampleRows none).isSome) = true := by
    decide +kernel
  cases parsed : Formula.parse Grammar.stock "rows[.kind == want && .tags[.on == true]]" with
  | error why => simp [parsed, Except.toOption] at evaluated
  | ok f =>
    simp only [parsed, Except.toOption, Option.any_some, Bool.and_eq_true, List.all_eq_true,
      Bool.not_eq_true_eq_eq_false, Option.isSome_iff_exists] at evaluated
    obtain ⟨conditions, v, value⟩ := evaluated
    obtain ⟨e, returns, preserves⟩ :=
      (Options.usual.context Grammar.stock).lower_preserves_meaning parsed
      (fun p part => (conditions p part).1) (fun p part => (conditions p part).2)
    exact ⟨f, e, v, rfl, returns, value, preserves Datum.domain sampleRows v value⟩

end JexlScript
