import JexlScript.Proofs.MeaningPreserved
import JexlScript.Proofs.Parts
import JexlScript.Proofs.WrittenScripts

/-!
# Which operators have no script

Lowering takes the operators of a formula one after the other, each after those
of its operands, and fails at the first that has neither a fixed script nor an
implementation that can be inlined. Nothing else fails in a well-formed formula
whose implementations can all be read.
-/

namespace JexlScript

open List Script

/-! ## Steps that end at an operator -/

namespace Lower

variable {α β : Type}

/-- A step fails for the same reason in every state. -/
def Fails (step : Lower α) (why : LoweringError) : Prop :=
  ∀ journal, ∃ journal', step.run journal = (.error why, journal')

/-- A step returns, or fails at the operator given. -/
def Ends (step : Lower α) : (unknown : Option (Arity × String)) → Prop
  | none => ∃ a, step.Returns a
  | some (arity, op) => step.Fails (.unknownOperator op arity)

theorem Fails.throw (why : LoweringError) : Fails (MonadExcept.throw why : Lower α) why :=
  fun journal => ⟨journal, rfl⟩

theorem Fails.bind {step : Lower α} {why : LoweringError} (fails : step.Fails why)
    (next : α → Lower β) : (step >>= next).Fails why := by
  intro journal
  obtain ⟨journal', ran⟩ := fails journal
  refine ⟨journal', ?_⟩
  simp only [ExceptT.run, Bind.bind, ExceptT.bind, ExceptT.mk, StateT.bind] at ran ⊢
  rw [ran]
  rfl

theorem Ends.pure (a : α) : Ends (Pure.pure a) none := ⟨a, Returns.pure a⟩

theorem Returns.bind_ends {step : Lower α} {next : α → Lower β} {a : α}
    {unknown : Option (Arity × String)} (first : step.Returns a)
    (second : (next a).Ends unknown) : (step >>= next).Ends unknown := by
  cases unknown with
  | none =>
    obtain ⟨b, second⟩ := second
    exact ⟨b, first.bind second⟩
  | some operator => exact first.bind_run second

/-- A sequence of steps fails at the first operator that one of them fails at. -/
theorem Ends.bind {step : Lower α} {next : α → Lower β} {unknown unknown' : Option (Arity × String)}
    (first : step.Ends unknown) (second : ∀ a, (next a).Ends unknown') :
    (step >>= next).Ends (unknown.or unknown') := by
  cases unknown with
  | none =>
    obtain ⟨a, first⟩ := first
    exact first.bind_ends (second a)
  | some operator => exact Fails.bind first next

theorem Ends.last {step : Lower α} {next : α → Lower β} {unknown : Option (Arity × String)}
    (first : step.Ends unknown) (second : ∀ a, (next a).Ends none) :
    (step >>= next).Ends unknown := by
  simpa using first.bind second

end Lower

/-! ## Operators with a script -/

/-- The operators that have a fixed script. -/
def fixedOperators : Arity → List String
  | .unary => ["!"]
  | .binary => logicalOps ++ nativeBinaryOps ++ ["==", "!=", "^", "//", "in"]

theorem unaryScript?_isSome (op : String) (e : Expr) :
    (unaryScript? op e).isSome = (fixedOperators .unary).contains op := by
  unfold unaryScript?
  split_ifs with fixed <;> simp [fixedOperators, fixed]

theorem binaryScript?_isSome (op : String) (l r : Expr) :
    (binaryScript? op l r).isSome = (fixedOperators .binary).contains op := by
  rw [Bool.eq_iff_iff, Option.isSome_iff_exists, contains_iff_mem]
  simp only [binaryScript?_eq_some_iff]
  constructor
  · rintro ⟨e, known | known | _⟩ <;> simp [fixedOperators, *]
  · intro fixed
    rcases mem_append.mp fixed with fixed | fixed
    · rcases mem_append.mp fixed with known | known
      · exact ⟨_, .logical known⟩
      · exact ⟨_, .native known⟩
    · fin_cases fixed
      · exact ⟨_, .equal⟩
      · exact ⟨_, .unequal⟩
      · exact ⟨_, .power⟩
      · exact ⟨_, .floor⟩
      · exact ⟨_, .includes⟩

namespace Options

variable (o : Options) (g : Grammar Callable)

/-- The implementation that is used: an override if there is one. -/
def implementation? (kind : Kind) (name : String) : Option Callable :=
  ((o.overrides.table kind).get? name).or (g.implementation? kind name)

/-- Whether the source of an implementation can be read. -/
def canRead (f : Callable) : Bool :=
  match o.reader, f.source with
  | some read, some source => (read source).isOk
  | _, _ => true

/-- Whether an implementation can be inlined. -/
def canInline (f : Callable) : Bool :=
  match o.reader, f.source with
  | some read, some source =>
    match (read source).toOption.bind Inline.Template.ofProgram? with
    | some t => !t.body.assigns (t.params.filterMap Param.name?)
    | none => false
  | _, _ => false

/-- Whether an operator has neither a fixed script nor one that can be inlined. -/
def isUnresolvable : Arity × String → Bool
  | (arity, op) =>
    !(fixedOperators arity).contains op &&
      (o.implementation? g arity.kind op).all fun f => !o.canInline f

variable {o g}

/-- The strategies find the implementation that is used. -/
theorem resolve_context (kind : Kind) (name : String) :
    (resolve (o.context g).strategies kind name).map Prod.fst = o.implementation? g kind name := by
  unfold implementation? resolve
  simp only [Options.context, usualStrategies, List.findSome?, Overrides.strategy, Grammar.strategy]
  cases (o.overrides.table kind).get? name with
  | some f => rfl
  | none => cases g.implementation? kind name <;> rfl

theorem inline?_isSome (t : Inline.Template) (args : List Expr) :
    (t.inline? args).isSome = !t.body.assigns (t.params.filterMap Param.name?) := by
  rw [Inline.Template.inline?, Inline.map_fst_bindArgs, Inline.Body.assigns_reverse]
  cases t.body.assigns (t.params.filterMap Param.name?) <;> rfl

/-- Inlining what can be read does not fail, but may decline. -/
theorem inlineCallable_eq_ok {f : Callable} (readable : o.canRead f = true) (args : List Expr) :
    ∃ result, Inline.inlineCallable o.reader f args = .ok result ∧
      result.isOk = o.canInline f := by
  unfold Inline.inlineCallable canInline
  unfold canRead at readable
  cases reader : o.reader with
  | none => exact ⟨_, rfl, rfl⟩
  | some read =>
    cases source : f.source with
    | none => exact ⟨_, rfl, rfl⟩
    | some text =>
      simp only [reader, source] at readable
      cases ran : read text with
      | error why => simp [ran, Except.isOk, Except.toBool] at readable
      | ok program =>
        simp only [ran, bind, Except.bind, Except.toOption, Option.bind_some,
          Inline.inlineProgram?]
        cases found : Inline.Template.ofProgram? program with
        | none => exact ⟨_, rfl, rfl⟩
        | some t =>
          have inlines := inline?_isSome t args
          simp only [Option.bind_some]
          cases result : t.inline? args <;> rw [result] at inlines <;>
            exact ⟨_, rfl, inlines⟩

theorem inlined_returns {f : Callable} (readable : o.canRead f = true) (args : List Expr) :
    ∃ result, ((o.context g).inlined f args).Returns result ∧ result.isSome = o.canInline f := by
  obtain ⟨result, ran, inlines⟩ := inlineCallable_eq_ok readable args
  unfold Context.inlined
  have ran : Inline.inlineCallable (o.context g).reader f args = .ok result := ran
  rw [ran]
  cases result with
  | ok e => exact ⟨some e, .pure _, inlines⟩
  | error why => exact ⟨none, (Lower.Returns.note _).bind (.pure none), inlines⟩

/-- An operator without a fixed script is inlined or fails. -/
theorem customOperator_ends {arity : Arity} {op : String} (operands : List Expr)
    (other : (fixedOperators arity).contains op = false)
    (readable : ∀ f, o.implementation? g arity.kind op = some f → o.canRead f = true) :
    ((o.context g).customOperator arity op operands).Ends
      ([(arity, op)].find? (o.isUnresolvable g)) := by
  have found := resolve_context (o := o) (g := g) arity.kind op
  unfold Context.customOperator
  cases resolved : resolve (o.context g).strategies arity.kind op with
  -- Without an implementation the operator fails.
  | none =>
    rw [resolved] at found
    have unknown : o.isUnresolvable g (arity, op) = true := by
      simp only [isUnresolvable, other, ← found]
      rfl
    simp only [List.find?, unknown]
    exact Lower.Fails.throw _
  | some pair =>
    obtain ⟨f, strategy⟩ := pair
    rw [resolved] at found
    have unknown : o.isUnresolvable g (arity, op) = !o.canInline f := by
      simp only [isUnresolvable, other, ← found]
      rfl
    -- With one it is inlined, if this can be done.
    obtain ⟨result, returns, inlines⟩ := inlined_returns (g := g) (readable f found.symm) operands
    simp only [List.find?, unknown, ← inlines]
    refine returns.bind_ends ?_
    cases result with
    | some e => exact Lower.Ends.pure e
    | none => exact Lower.Fails.throw _

end Options

/-! ## The operators of a formula -/

namespace Formula

mutual

/-- The operators of a formula, in the order in which they are lowered. -/
def operators : Formula → List (Arity × String)
  | .literal _ | .root .. | .stray _ => []
  | .field parent _ _ => parent.operators
  | .unary op e => e.operators ++ [(.unary, op)]
  | .binary op l r => l.operators ++ (r.operators ++ [(.binary, op)])
  | .conditional t c a => t.operators ++ (c.operators ++ a.operators)
  | .array es => listOperators es
  | .object ps => entryOperators ps
  | .filter s e _ => s.operators ++ e.operators
  | .call _ _ args => listOperators args

def listOperators : List Formula → List (Arity × String)
  | [] => []
  | e :: es => e.operators ++ listOperators es

def entryOperators : List (String × Formula) → List (Arity × String)
  | [] => []
  | (_, e) :: ps => e.operators ++ entryOperators ps

end

theorem mem_listOperators {p : Arity × String} {es : List Formula} :
    p ∈ listOperators es ↔ ∃ e ∈ es, p ∈ e.operators := by
  induction es with
  | nil => simp [listOperators]
  | cons e es ih => simp [listOperators, ih]

theorem mem_entryOperators {p : Arity × String} {ps : List (String × Formula)} :
    p ∈ entryOperators ps ↔ ∃ q ∈ ps, p ∈ q.2.operators := by
  induction ps with
  | nil => simp [entryOperators]
  | cons q ps ih => simp [entryOperators, ih]

end Formula

/-! ## Lowering ends at the first unknown operator -/

namespace Options

/-- Whether the implementation that a part looks for can be read. -/
def canReadFor (o : Options) (g : Grammar Callable) (p : Formula) : Bool :=
  p.implementation?.all fun (kind, name) => (o.implementation? g kind name).all o.canRead

/-- A part is well-formed and its implementation can be read. -/
def Admits (o : Options) (g : Grammar Callable) (p : Formula) : Prop :=
  p.isProper = true ∧ o.canReadFor g p = true

variable {o : Options} {g : Grammar Callable}

theorem Admits.canRead {p : Formula} {kind : Kind} {name : String} {f : Callable}
    (admits : o.Admits g p) (looked : p.implementation? = some (kind, name))
    (known : o.implementation? g kind name = some f) : o.canRead f = true := by
  simpa [canReadFor, looked, known] using admits.2

theorem canReadFor_of_noReader {p : Formula} (noReader : o.reader = none) :
    o.canReadFor g p = true := by
  have all : o.canRead = fun _ => true := by
    funext f
    simp [Options.canRead, noReader]
  cases looked : p.implementation? <;> simp [canReadFor, looked, all]

theorem unary_ends {op : String} {x : Formula} (admits : o.Admits g (.unary op x)) (e : Expr) :
    ((o.context g).unary op e).Ends ([(.unary, op)].find? (o.isUnresolvable g)) := by
  unfold Context.unary
  have fixed := unaryScript?_isSome op e
  cases script : unaryScript? op e with
  | some e' =>
    rw [script] at fixed
    simp only [List.find?, isUnresolvable, ← fixed]
    exact Lower.Ends.pure e'
  | none =>
    rw [script] at fixed
    refine customOperator_ends [e] fixed.symm fun f known => ?_
    exact admits.canRead (Context.implementation?_unary x script) known

theorem binary_ends {op : String} {x y : Formula} (admits : o.Admits g (.binary op x y))
    (l r : Expr) :
    ((o.context g).binary op l r).Ends ([(.binary, op)].find? (o.isUnresolvable g)) := by
  refine (Lower.Returns.noteEquality op).bind_ends ?_
  have fixed := binaryScript?_isSome op l r
  cases script : binaryScript? op l r with
  | some e' =>
    rw [script] at fixed
    simp only [List.find?, isUnresolvable, ← fixed]
    exact Lower.Ends.pure e'
  | none =>
    rw [script] at fixed
    refine customOperator_ends [l, r] fixed.symm fun f known => ?_
    exact admits.canRead (Context.implementation?_binary x y script) known

theorem call_ends {pool name : String} {fs : List Formula}
    (admits : o.Admits g (.call pool name fs)) (args : List Expr) : ((o.context g).call pool name args).Ends none := by
  obtain ⟨kind, known⟩ := Option.isSome_iff_exists.mp admits.1
  have found := resolve_context (o := o) (g := g) kind name
  unfold Context.call
  simp only [known]
  cases resolved : resolve (o.context g).strategies kind name with
  | none => exact (Lower.Returns.note _).bind_ends (Lower.Ends.pure _)
  | some pair =>
    obtain ⟨f, strategy⟩ := pair
    rw [resolved] at found
    have looked : (Formula.call pool name fs).implementation? = some (kind, name) := by
      simp [Formula.implementation?, known]
    obtain ⟨result, returns, _⟩ :=
      inlined_returns (g := g) (admits.canRead looked found.symm) args
    refine returns.bind_ends ?_
    cases result with
    | some e => exact Lower.Ends.pure e
    | none => exact (Lower.Returns.note _).bind_ends (Lower.Ends.pure _)

theorem filterNames_ends {e : Formula} (admits : ∀ p ∈ e.parts, o.Admits g p) :
    (Context.filterNames e).Ends none := by
  have found := Formula.relativeNames_eq fun text stray => by cases (admits _ stray).1
  rw [Context.filterNames, found]
  exact (Lower.Returns.note _).bind_ends (Lower.Ends.pure _)

mutual

/-- By induction over a formula, lowering fails at the first operator without a script. -/
theorem lower_ends : ∀ f : Formula, (∀ p ∈ f.parts, o.Admits g p) →
    ((o.context g).lower f).Ends (f.operators.find? (o.isUnresolvable g))
  | .literal _, _ | .root _ _, _ => Lower.Ends.pure _
  | .stray _, admits => by cases (admits _ (Formula.self_mem_parts _)).1
  | .field parent _ _, admits =>
    (lower_ends parent (forall_mem_cons.mp admits).2).last fun _ => .pure _
  | .unary op e, admits => by
    simp only [Formula.parts, forall_mem_cons] at admits
    rw [Formula.operators, find?_append]
    exact (lower_ends e admits.2).bind fun e => unary_ends admits.1 e
  | .binary op l r, admits => by
    simp only [Formula.parts, forall_mem_cons, forall_mem_append] at admits
    rw [Formula.operators, find?_append, find?_append]
    exact (lower_ends l admits.2.1).bind fun l => (lower_ends r admits.2.2).bind fun r =>
      binary_ends admits.1 l r
  | .conditional t c a, admits => by
    simp only [Formula.parts, forall_mem_cons, forall_mem_append] at admits
    rw [Formula.operators, find?_append, find?_append]
    exact (lower_ends t admits.2.1.1).bind fun _ => (lower_ends c admits.2.1.2).bind fun _ =>
      (lower_ends a admits.2.2).last fun _ => .pure _
  | .array es, admits =>
    (lowerList_ends es (forall_mem_cons.mp admits).2).last fun _ => .pure _
  | .object ps, admits =>
    (lowerEntries_ends ps (forall_mem_cons.mp admits).2).last fun _ => .pure _
  | .filter s e relative, admits => by
    simp only [Formula.parts, forall_mem_cons, forall_mem_append] at admits
    rw [Formula.operators, find?_append]
    refine (lower_ends s admits.2.1).bind fun _ => ?_
    have inner := lower_ends e admits.2.2
    cases relative with
    | false => exact inner.last fun _ => .pure _
    | true =>
      obtain ⟨names, returns⟩ := filterNames_ends admits.2.2
      exact returns.bind_ends (inner.last fun _ => .pure _)
  | .call pool name args, admits => by
    simp only [Formula.parts, forall_mem_cons] at admits
    exact (lowerList_ends args admits.2).last fun es => call_ends admits.1 es

theorem lowerList_ends : ∀ fs : List Formula, (∀ p ∈ Formula.listParts fs, o.Admits g p) →
    ((o.context g).lowerList fs).Ends ((Formula.listOperators fs).find? (o.isUnresolvable g))
  | [], _ => Lower.Ends.pure _
  | f :: fs, admits => by
    simp only [Formula.listParts, forall_mem_append] at admits
    rw [Formula.listOperators, find?_append]
    exact (lower_ends f admits.1).bind fun _ => (lowerList_ends fs admits.2).last fun _ => .pure _

theorem lowerEntries_ends : ∀ ps : List (String × Formula),
    (∀ p ∈ Formula.entryParts ps, o.Admits g p) →
      ((o.context g).lowerEntries ps).Ends
        ((Formula.entryOperators ps).find? (o.isUnresolvable g))
  | [], _ => Lower.Ends.pure _
  | (_, f) :: ps, admits => by
    simp only [Formula.entryParts, forall_mem_append] at admits
    rw [Formula.entryOperators, find?_append]
    exact (lower_ends f admits.1).bind fun _ =>
      (lowerEntries_ends ps admits.2).last fun _ => .pure _

end

end Options

/-! ## Finished scripts -/

section

variable {g : Grammar Callable} {o : Options} {f : Formula}

theorem toScript_of_returns {e : Expr} (returns : ((o.context g).lower f).Returns e) :
    ∃ journal, f.toScript g o = .ok ⟨e.withOptional o.defined, journal⟩ := by
  obtain ⟨journal, ran⟩ := returns Journal.empty
  exact ⟨journal, by simp only [Formula.toScript, ran]⟩

theorem toScript_of_fails {why : LoweringError} (fails : ((o.context g).lower f).Fails why) :
    f.toScript g o = .error why := by
  obtain ⟨journal, ran⟩ := fails Journal.empty
  simp only [Formula.toScript, ran]

end

/-- All operators of the stock grammar have fixed scripts. -/
theorem Formula.Built.operators_fixed {f : Formula} (built : f.Built Grammar.stock) :
    ∀ p ∈ f.operators, (fixedOperators p.1).contains p.2 = true := by
  induction built with
  | literal | root => exact fun p nothing => absurd nothing not_mem_nil
  | field _ _ ih => exact ih
  | unary known _ ih =>
    refine forall_mem_append.mpr ⟨ih, forall_mem_singleton.mpr ?_⟩
    rw [← unaryScript?_isSome _ .undefined, unaryScript?_stock known]
    rfl
  | binary known _ _ left right =>
    refine forall_mem_append.mpr ⟨left, forall_mem_append.mpr
      ⟨right, forall_mem_singleton.mpr ?_⟩⟩
    obtain ⟨e, script⟩ := binaryScript?_stock known .undefined .undefined
    rw [← binaryScript?_isSome _ .undefined .undefined, script]
    rfl
  | conditional _ _ _ test consequent alternate =>
    exact forall_mem_append.mpr ⟨test, forall_mem_append.mpr ⟨consequent, alternate⟩⟩
  | array _ ih | call _ _ _ ih =>
    intro p member
    obtain ⟨e, inside, member⟩ := mem_listOperators.mp member
    exact ih e inside p member
  | object _ ih =>
    intro p member
    obtain ⟨q, inside, member⟩ := mem_entryOperators.mp member
    exact ih q inside p member
  | filter _ _ _ subject inner => exact forall_mem_append.mpr ⟨subject, inner⟩

theorem toScript_stock {text : String} {f : Formula}
    (parsed : Formula.parse Grammar.stock text = .ok f) :
    ∃ l printed, f.toScript Grammar.stock Options.usual = .ok l ∧
      (Node.expr l.script).print? = some printed := by
  have spelled := Formula.parse_spelled parsed
  have built := Formula.parse_built parsed
  have fixed := built.operators_fixed
  have admits : ∀ p ∈ f.parts, Options.usual.Admits Grammar.stock p := fun p member =>
    ⟨(spelled p member).1, Options.canReadFor_of_noReader rfl⟩
  have resolved : f.operators.find? (Options.usual.isUnresolvable Grammar.stock) = none := by
    refine find?_eq_none.mpr fun p member => ?_
    rw [Options.isUnresolvable, fixed p member]
    simp
  have ends := Options.lower_ends f admits
  rw [resolved] at ends
  obtain ⟨e, returns⟩ := ends
  obtain ⟨journal, lowered⟩ := toScript_of_returns returns
  have writable : e.isWritable = true := by
    have noReader : (Options.usual.context Grammar.stock).reader = none := rfl
    obtain ⟨journal, ran⟩ := returns Journal.empty
    exact Context.lower_isWritable noReader built (fun p member => (spelled p member).2.1) _ _ _ ran
  have written : (Node.expr (e.withOptional Options.usual.defined)).isWritable = true :=
    (Node.isWritable_withOptional (.expr e)).trans writable
  exact ⟨_, _, lowered, if_pos written⟩

/-- For a well-formed formula with no implementation whose source is refused,
lowering fails just if an operator has neither a fixed script nor an
implementation that can be inlined, and then at the first such operator, each
coming after those of its operands. Otherwise there is a script. Whatever the
stock grammar reads has one that can be written, without any choice of a
caller. -/
theorem toScript_unknownOperator_iff (g : Grammar Callable) (o : Options) (f : Formula)
    (proper : ∀ p ∈ f.parts, p.isProper = true)
    (readable : ∀ p ∈ f.parts, o.canReadFor g p = true) :
    (∀ op arity, f.toScript g o = .error (.unknownOperator op arity) ↔
        f.operators.find? (o.isUnresolvable g) = some (arity, op)) ∧
      ((∃ l, f.toScript g o = .ok l) ↔ ∀ p ∈ f.operators, o.isUnresolvable g p = false) ∧
      ∀ text f', Formula.parse Grammar.stock text = .ok f' →
        ∃ l printed, f'.toScript Grammar.stock Options.usual = .ok l ∧
          (Node.expr l.script).print? = some printed := by
  have ends := Options.lower_ends f fun p member => ⟨proper p member, readable p member⟩
  have none_iff : f.operators.find? (o.isUnresolvable g) = none ↔
      ∀ p ∈ f.operators, o.isUnresolvable g p = false := by
    simp [List.find?_eq_none]
  rw [← none_iff]
  cases first : f.operators.find? (o.isUnresolvable g) with
  | none =>
    rw [first] at ends
    obtain ⟨e, returns⟩ := ends
    obtain ⟨journal, lowered⟩ := toScript_of_returns returns
    exact ⟨by simp [lowered], by simp [lowered], fun text f' => toScript_stock⟩
  | some operator =>
    rw [first] at ends
    have failed := toScript_of_fails ends
    refine ⟨fun op arity => ?_, by simp [failed], fun text f' => toScript_stock⟩
    simp [failed, Prod.ext_iff, and_comm]

/-- The stock grammar with one operator that can be inlined and one that cannot. -/
def mixedGrammar : Grammar Callable :=
  (Grammar.stock.addBinaryOp "<+>" Double.zero
    ⟨"join", some "def join(left, right):\n    return left + right\n"⟩).addBinaryOp
      "<@>" Double.zero (.native "len")

/-- `(a <+> b) <@> ~c` -/
def mixedFormula : Formula :=
  .binary "<@>" (.binary "<+>" (.root "a" false) (.root "b" false)) (.unary "~" (.root "c" false))

/-- Two operators cannot be resolved, and the error names the one that comes
first after its operand, not the outermost. -/
theorem toScript_unknownOperator_iff_mixed :
    mixedFormula.operators = [(.binary, "<+>"), (.unary, "~"), (.binary, "<@>")] ∧
      readingOptions.isUnresolvable mixedGrammar (.binary, "<+>") = false ∧
      readingOptions.isUnresolvable mixedGrammar (.binary, "<@>") = true ∧
      mixedFormula.toScript mixedGrammar readingOptions = .error (.unknownOperator "~" .unary) := by
  have resolvable : readingOptions.isUnresolvable mixedGrammar (.binary, "<+>") = false := by
    unfold readingOptions
    rw [toProgram_eq]
    decide +kernel
  have readable : mixedFormula.parts.all (readingOptions.canReadFor mixedGrammar) = true := by
    unfold readingOptions
    rw [toProgram_eq]
    decide +kernel
  have first : mixedFormula.operators.find? (readingOptions.isUnresolvable mixedGrammar) =
      some (.unary, "~") := by
    unfold readingOptions
    rw [toProgram_eq]
    decide +kernel
  refine ⟨rfl, resolvable, by decide +kernel, ?_⟩
  exact ((toScript_unknownOperator_iff mixedGrammar readingOptions mixedFormula
    (List.all_eq_true.mp (by decide)) (List.all_eq_true.mp readable)).1 _ _).mpr first

end JexlScript
