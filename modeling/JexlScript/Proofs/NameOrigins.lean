import JexlScript.Lowering.Basic
import JexlScript.Proofs.FreeNames
import JexlScript.Proofs.OperatorScripts
import JexlScript.Proofs.Parsing.RelativeScope

/-!
# Where the free names of a script come from

A free name of a formula's script is the name of an absolute root of the formula,
the name of a call that stays one, a free name of a function that was inlined, or
`Math`. So no relative name, no parameter of an inlined function and no name that
was chosen anew for a local one is left without what binds it.

Relative names are free in the scripts of parts inside a relative filter, whose
function binds them all; `Formula.exposed` keeps track of those that still wait
for their filter.
-/

namespace JexlScript

open List Script

/-! ## Steps of lowering and what they return -/

namespace Lower

variable {α β : Type}

/-- What holds of the result of a step if it succeeds. -/
def Gives (step : Lower α) (P : α → Prop) : Prop :=
  ∀ journal a journal', step.run journal = (.ok a, journal') → P a

theorem Gives.pure {P : α → Prop} {a : α} (holds : P a) : Gives (Pure.pure a) P := by
  intro journal b journal' ran
  cases ran
  exact holds

theorem Gives.throw {P : α → Prop} (why : LoweringError) : Gives (MonadExcept.throw why) P := by
  intro journal a journal' ran
  cases ran

theorem Gives.mono {step : Lower α} {P Q : α → Prop} (gives : step.Gives P)
    (weaker : ∀ a, P a → Q a) : step.Gives Q := fun journal a journal' ran =>
  weaker a (gives journal a journal' ran)

/-- A step may rely on what holds of the result before it. -/
theorem Gives.bind {step : Lower α} {next : α → Lower β} {P : α → Prop} {Q : β → Prop}
    (first : step.Gives P) (second : ∀ a, P a → (next a).Gives Q) : (step >>= next).Gives Q := by
  intro journal b journal' ran
  simp only [ExceptT.run, Bind.bind, ExceptT.bind, ExceptT.mk, StateT.bind] at ran
  match outcome : step.run journal with
  | (.error why, middle) =>
    simp only [ExceptT.run] at outcome
    rw [outcome] at ran
    cases ran
  | (.ok a, middle) =>
    have holds := first journal a middle outcome
    simp only [ExceptT.run] at outcome
    rw [outcome] at ran
    exact second a holds middle b journal' ran

/-- A step that relies on nothing may come after any other. -/
theorem Gives.after {step : Lower α} {next : α → Lower β} {Q : β → Prop}
    (second : ∀ a, (next a).Gives Q) : (step >>= next).Gives Q :=
  Gives.bind (P := fun _ => True) (fun _ _ _ _ => trivial) fun a _ => second a

end Lower

namespace Context

variable (ctx : Context)

/-! ## What is inlined -/

/-- The function that a callable is inlined as, if it is: one that can be read and assigns to none
of its parameters. -/
def templateOf? (f : Callable) : Option Inline.Template := do
  let read ← ctx.reader
  let source ← f.source
  let program ← (read source).toOption
  let t ← Inline.Template.ofProgram? program
  if t.body.assigns (paramNames t.params) then none else some t

/-- The function that an operator, transform or function of the grammar is inlined as. -/
def template? (kind : Kind) (name : String) : Option Inline.Template :=
  (resolve ctx.strategies kind name).bind fun found => ctx.templateOf? found.1

/-- Every free name is one of the function's own or comes from an argument. -/
def FreeWithin (own : List Use) (args : List Expr) (e : Expr) : Prop :=
  ∀ u ∈ e.free, u ∈ own ∨ ∃ a ∈ args, u ∈ a.free

variable {ctx}

/-- Inlining leaves free what is free in the function or in an argument. -/
theorem inlined_gives (reader : ctx.reader = some Routine.toProgram) (f : Callable)
    (args : List Expr) : (ctx.inlined f args).Gives fun result =>
      (result = none ∧ ctx.templateOf? f = none) ∨
        ∃ t e, result = some e ∧ ctx.templateOf? f = some t ∧ FreeWithin t.free args e := by
  unfold inlined Inline.inlineCallable
  simp only [reader]
  cases source : f.source with
  | none =>
    refine Lower.Gives.after fun _ => Lower.Gives.pure (.inl ⟨rfl, ?_⟩)
    simp [templateOf?, source]
  | some text =>
    cases read : Routine.toProgram text with
    | error why =>
      simp only [bind, Except.bind, read]
      exact Lower.Gives.throw _
    | ok program =>
      obtain ⟨t, found, plainParams, plain⟩ := Inline.startsPlain_of_toProgram read
      have template : ctx.templateOf? f =
          if t.body.assigns (paramNames t.params) then none else some t := by
        simp [templateOf?, reader, source, read, found, Except.toOption]
      -- Whether the template is inlined depends on its own assignments only.
      have inlines : Inline.inlineProgram? program args = t.inline? args := by
        simp [Inline.inlineProgram?, found]
      obtain ⟨b, _, _, result⟩ := Inline.Template.inline?_spec plainParams plain args
      simp only [bind, Except.bind, read, inlines]
      split at result
      · next assigns =>
          rw [result]
          refine Lower.Gives.after fun _ => Lower.Gives.pure (.inl ⟨rfl, ?_⟩)
          rw [template, if_pos assigns]
      · next assigns =>
          rw [result]
          refine Lower.Gives.pure (.inr ⟨t, _, rfl, by rw [template, if_neg assigns], ?_⟩)
          exact Inline.Template.inline?_free plainParams plain result

end Context

/-! ## Origins of names -/

/-- What a formula looks up to be inlined: an operator without a script, or a call. -/
def Formula.implementation? : Formula → Option (Kind × String)
  | .unary op _ => if (unaryScript? op .undefined).isSome then none else some (.unaryOp, op)
  | .binary op _ _ =>
    if (binaryScript? op .undefined .undefined).isSome then none else some (.binaryOp, op)
  | .call pool name _ => (Kind.ofText? pool).map (·, name)
  | _ => none

/-- The script of an operator adds no free name but `Math`. -/
theorem OperatorScript.free {op : String} {l r e : Expr} (script : OperatorScript l r op e)
    {u : Use} (member : u ∈ e.free) :
    u ∈ l.free ∨ u ∈ r.free ∨ op = "//" ∧ u = ⟨.read, "Math"⟩ := by
  have joined (both : u ∈ l.free ++ r.free) :
      u ∈ l.free ∨ u ∈ r.free ∨ op = "//" ∧ u = ⟨.read, "Math"⟩ :=
    (mem_append.mp both).imp_right .inl
  cases script with
  | floor =>
    simp only [floorOfQuotient, Expr.invoke, Expr.dot, Expr.free, exprsFree,
      Bool.false_eq_true, if_false, append_nil, singleton_append, mem_cons] at member
    exact member.elim (fun same => .inr (.inr ⟨rfl, same⟩)) joined
  | includes =>
    simp only [Expr.invoke, Expr.dot, Expr.free, exprsFree, Bool.false_eq_true, if_false,
      append_nil, mem_append] at member
    exact member.elim (fun right => .inr (.inl right)) .inl
  | _ => exact joined member

namespace Context

/-- Where a free name of a script may come from, given the parts of its formula:
an absolute root, a call that stays one, a function that is inlined, or the floor
of a quotient. -/
inductive Supplies (ctx : Context) (parts : List Formula) : Use → Prop
  | root {n : String} : .root n false ∈ parts → Supplies ctx parts ⟨.read, n⟩
  | call {pool n : String} {args : List Formula} {kind : Kind} : .call pool n args ∈ parts →
      Kind.ofText? pool = some kind → ctx.template? kind n = none →
      Supplies ctx parts ⟨.read, n⟩
  | inlined {p : Formula} {kind : Kind} {name : String} {t : Inline.Template} {u : Use} :
      p ∈ parts → p.implementation? = some (kind, name) → ctx.template? kind name = some t →
      u ∈ t.free → Supplies ctx parts u
  | math {l r : Formula} : .binary "//" l r ∈ parts → Supplies ctx parts ⟨.read, "Math"⟩

variable {ctx : Context}

/-- More parts supply more names. -/
theorem Supplies.mono {parts parts' : List Formula} {u : Use} (supplies : ctx.Supplies parts u)
    (sub : parts ⊆ parts') : ctx.Supplies parts' u := by
  cases supplies with
  | root member => exact .root (sub member)
  | call member isKind stays => exact .call (sub member) isKind stays
  | inlined member looked found free => exact .inlined (sub member) looked found free
  | math member => exact .math (sub member)

/-- A use of a name in the script of a formula is supplied, or waits for a filter
around the formula. -/
def Origin (ctx : Context) (f : Formula) (u : Use) : Prop :=
  ctx.Supplies f.parts u ∨ u.role = .read ∧ u.name ∈ f.exposed

/-- Every free name of a script has its origin in the formula. -/
def Originates (ctx : Context) (f : Formula) (e : Expr) : Prop := ∀ u ∈ e.free, ctx.Origin f u

/-- A name keeps its origin in a larger formula, if nothing that it waits for is bound there. -/
theorem Origin.lift {f f' : Formula} {u : Use} (origin : ctx.Origin f u)
    (parts : f.parts ⊆ f'.parts) (exposed : f.exposed ⊆ f'.exposed) : ctx.Origin f' u :=
  origin.imp (·.mono parts) fun waits => ⟨waits.1, exposed waits.2⟩

/-! ## Operators and calls -/

/-- So do the free names of an inlined implementation. -/
theorem FreeWithin.originates {f : Formula} {kind : Kind} {name : String} {t : Inline.Template}
    {operands : List Expr} {e : Expr} (within : FreeWithin t.free operands e)
    (looked : f.implementation? = some (kind, name)) (found : ctx.template? kind name = some t)
    (each : ∀ a ∈ operands, ctx.Originates f a) : ctx.Originates f e := by
  intro u member
  rcases within u member with own | ⟨a, inside, brought⟩
  · exact .inl (.inlined f.self_mem_parts looked found own)
  · exact each a inside u brought

theorem implementation?_binary {op : String} {l r : Expr} (x y : Formula)
    (script : binaryScript? op l r = none) :
    (Formula.binary op x y).implementation? = some (.binaryOp, op) := by
  have none : binaryScript? op .undefined .undefined = none := by
    refine Option.eq_none_iff_forall_ne_some.mpr fun e fixed => ?_
    obtain ⟨e', given⟩ := (binaryScript?_eq_some_iff.mp fixed).exists_operands l r
    cases script.symm.trans given
  simp [Formula.implementation?, none]

theorem implementation?_unary {op : String} {a : Expr} (x : Formula)
    (script : unaryScript? op a = none) :
    (Formula.unary op x).implementation? = some (.unaryOp, op) := by
  unfold unaryScript? at script
  split_ifs at script with other
  simp [Formula.implementation?, unaryScript?, other]

section

variable (reader : ctx.reader = some Routine.toProgram)

include reader

/-- An operator without a script is inlined or fails. -/
theorem customOperator_gives (arity : Arity) (op : String) (operands : List Expr) :
    (ctx.customOperator arity op operands).Gives fun e =>
      ∃ t, ctx.template? arity.kind op = some t ∧ FreeWithin t.free operands e := by
  unfold customOperator
  split
  · exact Lower.Gives.throw _
  · next f strategy found =>
      refine (inlined_gives reader f operands).bind ?_
      rintro result (⟨rfl, _⟩ | ⟨t, e, rfl, template, within⟩)
      · exact Lower.Gives.throw _
      · exact Lower.Gives.pure ⟨t, by simp [template?, found, template], within⟩

/-- A call is inlined, or stays a call by its name. -/
theorem call_gives (pool name : String) (args : List Expr) :
    (ctx.call pool name args).Gives fun e => ∃ kind, Kind.ofText? pool = some kind ∧
      ((ctx.template? kind name = none ∧ e = .call (.ident name) args) ∨
        ∃ t, ctx.template? kind name = some t ∧ FreeWithin t.free args e) := by
  unfold Context.call
  split
  · exact Lower.Gives.throw _
  · next kind isKind =>
      split
      · next unresolved =>
          refine Lower.Gives.after fun _ => Lower.Gives.pure ⟨kind, isKind, .inl ⟨?_, rfl⟩⟩
          simp [template?, unresolved]
      · next f strategy found =>
          refine (inlined_gives reader f args).bind ?_
          rintro result (⟨rfl, none⟩ | ⟨t, e, rfl, template, within⟩)
          · refine Lower.Gives.after fun _ => Lower.Gives.pure ⟨kind, isKind, .inl ⟨?_, rfl⟩⟩
            simp [template?, found, none]
          · refine Lower.Gives.pure ⟨kind, isKind, .inr ⟨t, ?_, within⟩⟩
            simp [template?, found, template]

/-- A unary operator adds free names of its implementation only. -/
theorem unary_gives {op : String} {x : Formula} {a : Expr} (operand : ctx.Originates x a) :
    (ctx.unary op a).Gives (ctx.Originates (.unary op x)) := by
  have lifted : ctx.Originates (.unary op x) a := fun u member =>
    (operand u member).lift (subset_cons_self _ _) (List.Subset.refl _)
  unfold Context.unary
  split
  · next e script =>
      cases eq_of_unaryScript? script
      exact Lower.Gives.pure lifted
  · next script =>
      refine (customOperator_gives reader .unary op [a]).mono ?_
      rintro e ⟨t, found, within⟩
      exact within.originates (implementation?_unary x script) found (by simpa using lifted)

/-- A binary operator adds `Math` or free names of its implementation. -/
theorem binary_gives {op : String} {x y : Formula} {l r : Expr} (left : ctx.Originates x l)
    (right : ctx.Originates y r) : (ctx.binary op l r).Gives (ctx.Originates (.binary op x y)) := by
  have lifted_l : ctx.Originates (.binary op x y) l := fun u member =>
    (left u member).lift (fun p inside => .tail _ (mem_append_left _ inside))
      (subset_append_left _ _)
  have lifted_r : ctx.Originates (.binary op x y) r := fun u member =>
    (right u member).lift (fun p inside => .tail _ (mem_append_right _ inside))
      (subset_append_right _ _)
  refine Lower.Gives.after fun _ => ?_
  split
  · next e script =>
      refine Lower.Gives.pure fun u member => ?_
      rcases (binaryScript?_eq_some_iff.mp script).free member with member | member | ⟨rfl, rfl⟩
      · exact lifted_l u member
      · exact lifted_r u member
      · exact .inl (.math (Formula.self_mem_parts _))
  · next script =>
      refine (customOperator_gives reader .binary op [l, r]).mono ?_
      rintro e ⟨t, found, within⟩
      refine within.originates (implementation?_binary x y script) found ?_
      simpa using ⟨lifted_l, lifted_r⟩

/-! ## Formulas -/

omit reader in
theorem lowerList_gives {P : Formula → Expr → Prop} {fs : List Formula}
    (each : ∀ f ∈ fs, (ctx.lower f).Gives (P f)) :
    (ctx.lowerList fs).Gives fun es => ∀ e ∈ es, ∃ f ∈ fs, P f e := by
  induction fs with
  | nil => exact Lower.Gives.pure (by simp)
  | cons f fs ih =>
    refine (each f (.head _)).bind fun e holds => ?_
    refine (ih fun f inside => each f (.tail _ inside)).bind fun es others => Lower.Gives.pure ?_
    refine forall_mem_cons.mpr ⟨⟨f, .head _, holds⟩, fun e' inside => ?_⟩
    obtain ⟨f', inside', holds'⟩ := others e' inside
    exact ⟨f', .tail _ inside', holds'⟩

omit reader in
theorem lowerEntries_gives {P : Formula → Expr → Prop} {fs : List (String × Formula)}
    (each : ∀ p ∈ fs, (ctx.lower p.2).Gives (P p.2)) :
    (ctx.lowerEntries fs).Gives fun es => ∀ q ∈ es, ∃ p ∈ fs, P p.2 q.2 := by
  induction fs with
  | nil => exact Lower.Gives.pure (by simp)
  | cons p fs ih =>
    refine (each p (.head _)).bind fun e holds => ?_
    refine (ih fun p inside => each p (.tail _ inside)).bind fun es others => Lower.Gives.pure ?_
    refine forall_mem_cons.mpr ⟨⟨p, .head _, holds⟩, fun q inside => ?_⟩
    obtain ⟨p', inside', holds'⟩ := others q inside
    exact ⟨p', .tail _ inside', holds'⟩

omit reader in
/-- A relative filter becomes a call of `filter` with a function of its predicate. -/
theorem filter_gives {s e : Formula} {names : List String} {P Q : Expr → Prop}
    (scanned : e.relativeNames = .ok names) (subject : (ctx.lower s).Gives P)
    (predicate : (ctx.lower e).Gives Q) : (ctx.lower (.filter s e true)).Gives fun script =>
      ∃ s' e', P s' ∧ Q e' ∧ script = s'.invoke "filter" [.arrow [.pattern names] e'] := by
  have takes : (filterNames e).Gives fun names' => names' = names := by
    unfold filterNames
    rw [scanned]
    exact Lower.Gives.after fun _ => Lower.Gives.pure rfl
  refine subject.bind fun s' holds => takes.bind ?_
  rintro _ rfl
  exact predicate.bind fun e' holds' => Lower.Gives.pure ⟨s', e', holds, holds', rfl⟩

omit reader in
/-- The function of a relative filter binds all relative names that its predicate exposes. -/
theorem filter_originates {ι : Type} {g : Grammar ι} {s e : Formula} {s' e' : Expr}
    {names : List String} (built : e.Built g) (scanned : e.relativeNames = .ok names)
    (subject : ctx.Originates s s') (predicate : ctx.Originates e e') :
    ctx.Originates (.filter s e true) (s'.invoke "filter" [.arrow [.pattern names] e']) := by
  intro u member
  simp only [Expr.invoke, Expr.dot, Expr.free, exprsFree, Bool.false_eq_true, if_false,
    append_nil, mem_append] at member
  rcases member with member | member
  · exact (subject u member).lift (fun p inside => .tail _ (mem_append_left _ inside))
      (subset_append_left _ _)
  · obtain ⟨used, unbound⟩ := mem_without.mp member
    rcases predicate u used with supplied | ⟨_, exposed⟩
    · exact .inl (supplied.mono fun p inside => .tail _ (mem_append_right _ inside))
    · obtain ⟨names', scanned', _, exact_names⟩ := built.relativeNames
      cases scanned.symm.trans scanned'
      refine absurd ?_ unbound
      simpa [paramNames, Param.names] using (exact_names u.name).mpr (built.root_of_exposed exposed)

/-- Free names of a script originate in the formula, by induction over how it is built. -/
theorem lower_originates {ι : Type} {g : Grammar ι} {f : Formula} (built : f.Built g) :
    (ctx.lower f).Gives (ctx.Originates f) := by
  induction built with
  | literal value => exact Lower.Gives.pure fun u member => absurd member not_mem_nil
  | root name relative =>
    refine Lower.Gives.pure fun u member => ?_
    cases mem_singleton.mp member
    cases relative with
    | false => exact .inl (.root (Formula.self_mem_parts _))
    | true => exact .inr ⟨rfl, mem_singleton.mpr rfl⟩
  | field name _ ih =>
    refine ih.bind fun e originates => Lower.Gives.pure fun u member => ?_
    have used : u ∈ e.free := by simpa [Expr.dot, Expr.free] using member
    exact (originates u used).lift (subset_cons_self _ _) (List.Subset.refl _)
  | unary _ _ ih => exact ih.bind fun e originates => unary_gives reader originates
  | binary _ _ _ left right =>
    exact left.bind fun l originates => right.bind fun r originates' =>
      binary_gives reader originates originates'
  | @conditional t c a _ _ _ test consequent alternate =>
    refine test.bind fun t' originates => consequent.bind fun c' originates' =>
      alternate.bind fun a' originates'' => Lower.Gives.pure fun u member => ?_
    simp only [Expr.free, mem_append] at member
    rcases member with (member | member) | member
    -- Each of the three parts exposes what it does by itself.
    · refine (originates u member).lift (fun p inside => ?_) (fun n inside => ?_)
      · exact .tail _ (mem_append_left _ (mem_append_left _ inside))
      · exact mem_append_left _ (mem_append_left _ inside)
    · refine (originates' u member).lift (fun p inside => ?_) (fun n inside => ?_)
      · exact .tail _ (mem_append_left _ (mem_append_right _ inside))
      · exact mem_append_left _ (mem_append_right _ inside)
    · refine (originates'' u member).lift (fun p inside => ?_) (fun n inside => ?_)
      · exact .tail _ (mem_append_right _ inside)
      · exact mem_append_right _ inside
  | @array es _ ih =>
    refine (lowerList_gives ih).bind fun es' each => Lower.Gives.pure fun u member => ?_
    obtain ⟨e', inside', used⟩ := mem_exprsFree.mp member
    obtain ⟨e, inside, originates⟩ := each e' inside'
    exact (originates u used).lift
      (fun p part => .tail _ (Formula.mem_listParts.mpr ⟨e, inside, part⟩))
      (fun n exposed => Formula.mem_listExposed.mpr ⟨e, inside, exposed⟩)
  | @object ps _ ih =>
    refine (lowerEntries_gives ih).bind fun ps' each => Lower.Gives.pure fun u member => ?_
    obtain ⟨q, inside', used⟩ := mem_propsFree.mp member
    obtain ⟨p, inside, originates⟩ := each q inside'
    exact (originates u used).lift
      (fun r part => .tail _ (Formula.mem_entryParts.mpr ⟨p, inside, part⟩))
      (fun n exposed => Formula.mem_entryExposed.mpr ⟨p, inside, exposed⟩)
  | @filter s e relative _ predicate subject expr =>
    cases relative with
    | false =>
      refine subject.bind fun s' originates => expr.bind fun e' originates' =>
        Lower.Gives.pure fun u member => ?_
      rcases mem_append.mp member with member | member
      · exact (originates u member).lift
          (fun p inside => .tail _ (mem_append_left _ inside))
          (subset_append_left _ _)
      · exact (originates' u member).lift
          (fun p inside => .tail _ (mem_append_right _ inside))
          (subset_append_right _ _)
    | true =>
      -- The filter binds the names that its condition exposes.
      obtain ⟨names, scanned, _⟩ := predicate.relativeNames
      refine (filter_gives scanned subject expr).mono ?_
      rintro _ ⟨s', e', originates, originates', rfl⟩
      exact filter_originates predicate scanned originates originates'
  | @call es pool name _ ih =>
    refine (lowerList_gives ih).bind fun es' each => ?_
    -- What the arguments use comes from the parts of the call, inlined or not.
    have given : ∀ a ∈ es', ctx.Originates (.call pool name es) a := by
      intro a inside' u used
      obtain ⟨e, inside, originates⟩ := each a inside'
      exact (originates u used).lift
        (fun p part => .tail _ (Formula.mem_listParts.mpr ⟨e, inside, part⟩))
        (fun n exposed => Formula.mem_listExposed.mpr ⟨e, inside, exposed⟩)
    refine (call_gives reader pool name es').mono ?_
    rintro e ⟨kind, isKind, ⟨stays, rfl⟩ | ⟨t, found, within⟩⟩
    · intro u member
      rcases mem_append.mp member with member | member
      · cases mem_singleton.mp member
        exact .inl (.call (Formula.self_mem_parts _) isKind stays)
      · obtain ⟨a, inside, used⟩ := mem_exprsFree.mp member
        exact given a inside u used
    · exact within.originates (by simp [Formula.implementation?, isKind]) found given

end

end Context

/-- Every free name of the finished script of a text is supplied by the formula of
the text: it is the name of an absolute root, that of a call that stays one, a
free name of an inlined function, or `Math`. -/
theorem toScript_free_supplied {g : Grammar Callable} {o : Options} {text : String} {f : Formula}
    {l : Lowered} (reader : o.reader = some Routine.toProgram)
    (parsed : Formula.parse g text = .ok f) (lowered : f.toScript g o = .ok l) :
    ∀ u ∈ l.script.free, (o.context g).Supplies f.parts u := by
  intro u member
  unfold Formula.toScript at lowered
  split at lowered
  · next e journal ran =>
      cases lowered
      replace member := (Node.free_withOptional (.expr e) u).mp member
      have originates : ((o.context g).lower f).Gives ((o.context g).Originates f) :=
        Context.lower_originates reader (Formula.parse_built parsed)
      rcases originates _ _ _ ran u member with supplied | ⟨_, exposed⟩
      · exact supplied
      · simp [Formula.parse_exposed parsed] at exposed
  · cases lowered

/-- The stock grammar with a transform `pick`, which calls another function. -/
def pickGrammar : Grammar Callable :=
  Grammar.stock.addTransform "pick"
    ⟨"pick", some "def pick(xs, n):\n    best = top(xs, n)\n    return best\n"⟩

def readingOptions : Options := ⟨some Routine.toProgram, Overrides.none, fun _ => false⟩

/-- How a routine is turned into a program, in a form that the kernel evaluates. -/
theorem toProgram_eq : Routine.toProgram = fun source =>
    if source.toList.contains '\x00' then .error .nullCharacter
    else
      match Routine.readSource source.toList with
      | some m => Routine.lowerFirst m.body
      | none => .error .invalidSource := by
  funext source
  refine if_congr ?_ rfl rfl
  simp only [String.contains_char_eq, contains_eq_mem]

/-- The local name `best` of the transform gives way to the argument `best`, and
neither it, the parameters `xs` and `n` nor the relative name `kind` is free. -/
theorem toScript_free_supplied_pick : ∃ f l,
    Formula.parse pickGrammar "rows[.kind == want]|pick(best // size(rows))" = .ok f ∧
      f.toScript pickGrammar readingOptions = .ok l ∧
      l.script.free.map Use.name = ["top", "rows", "want", "Math", "best", "size", "rows"] ∧
      ∀ u ∈ l.script.free, (readingOptions.context pickGrammar).Supplies f.parts u := by
  have evaluated : ((Formula.parse pickGrammar
      "rows[.kind == want]|pick(best // size(rows))").toOption.any fun f =>
        (f.toScript pickGrammar readingOptions).toOption.any fun l =>
          l.script.free.map Use.name = ["top", "rows", "want", "Math", "best", "size", "rows"]) =
      true := by
    unfold readingOptions
    rw [toProgram_eq]
    decide +kernel
  cases parsed : Formula.parse pickGrammar "rows[.kind == want]|pick(best // size(rows))" with
  | error why => simp [parsed, Except.toOption] at evaluated
  | ok f =>
    cases lowered : f.toScript pickGrammar readingOptions with
    | error why => simp [parsed, lowered, Except.toOption] at evaluated
    | ok l =>
      refine ⟨f, l, rfl, lowered, ?_, toScript_free_supplied rfl parsed lowered⟩
      simpa [parsed, lowered, Except.toOption] using evaluated

end JexlScript
