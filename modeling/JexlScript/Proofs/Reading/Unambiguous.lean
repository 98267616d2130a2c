import JexlScript.Proofs.Reading.InPlace

/-!
# Printed text is unambiguous

Reading the text of a legible expression gives the expression back: the printer
writes parentheses wherever the grammar would group otherwise, and the lexer
splits its text where the printer joined it. Literals come back as they are
read: a negative number as a minus before its absolute value, an integer as the
double of the same value, and `undefined` as the name it is.
-/

namespace JexlScript.Script

open Reading

variable {names : NameClass}

/-! ## What is read back -/

/-- A number is read as a double of the same value, with a minus before it if it is negative. -/
def ScalarReadAs (v : Scalar) (t : Expr) : Prop :=
  match scalarUnits? v with
  | none => t = .lit v
  | some n => ∃ d : Double, d.units? = some (n.natAbs : Int) ∧
      t = if n < 0 then .unary "-" (.lit (.double d)) else .lit (.double d)

mutual

/-- The trees that an expression may be read as: the same tree, with its literals
as `ScalarReadAs` has them and `undefined` a name. -/
inductive Expr.ReadAs : Expr → Expr → Prop where
  | ident (n : String) : Expr.ReadAs (.ident n) (.ident n)
  | lit {v : Scalar} {t : Expr} (h : ScalarReadAs v t) : Expr.ReadAs (.lit v) t
  | undefined : Expr.ReadAs .undefined (.ident "undefined")
  | array {es ts : List Expr} (h : ExprsReadAs es ts) : Expr.ReadAs (.array es) (.array ts)
  | object {ps ts : List (String × Expr)} (h : PropsReadAs ps ts) :
      Expr.ReadAs (.object ps) (.object ts)
  | member {obj obj' prop prop' : Expr} (computed optional : Bool) (object : Expr.ReadAs obj obj')
      (property : Expr.ReadAs prop prop') :
      Expr.ReadAs (.member obj prop computed optional) (.member obj' prop' computed optional)
  | call {f f' : Expr} {args args' : List Expr} (callee : Expr.ReadAs f f')
      (h : ExprsReadAs args args') : Expr.ReadAs (.call f args) (.call f' args')
  | new {f f' : Expr} {args args' : List Expr} (ctor : Expr.ReadAs f f')
      (h : ExprsReadAs args args') : Expr.ReadAs (.new f args) (.new f' args')
  | unary {e e' : Expr} (op : String) (h : Expr.ReadAs e e') : Expr.ReadAs (.unary op e) (.unary op e')
  | binary {l l' r r' : Expr} (op : String) (left : Expr.ReadAs l l') (right : Expr.ReadAs r r') :
      Expr.ReadAs (.binary l op r) (.binary l' op r')
  | logical {l l' r r' : Expr} (op : String) (left : Expr.ReadAs l l') (right : Expr.ReadAs r r') :
      Expr.ReadAs (.logical l op r) (.logical l' op r')
  | ternary {c c' y y' n n' : Expr} (test : Expr.ReadAs c c') (yes : Expr.ReadAs y y') (no : Expr.ReadAs n n') :
      Expr.ReadAs (.ternary c y n) (.ternary c' y' n')
  | arrow {body body' : Expr} (ps : List Param) (h : Expr.ReadAs body body') :
      Expr.ReadAs (.arrow ps body) (.arrow ps body')

/-- The lists that a list of expressions may be read as. -/
inductive ExprsReadAs : List Expr → List Expr → Prop where
  | nil : ExprsReadAs [] []
  | cons {e e' : Expr} {es es' : List Expr} (first : Expr.ReadAs e e')
      (more : ExprsReadAs es es') : ExprsReadAs (e :: es) (e' :: es')

/-- The lists that a list of properties may be read as. -/
inductive PropsReadAs : List (String × Expr) → List (String × Expr) → Prop where
  | nil : PropsReadAs [] []
  | cons {e e' : Expr} {ps ps' : List (String × Expr)} (k : String) (first : Expr.ReadAs e e')
      (more : PropsReadAs ps ps') : PropsReadAs ((k, e) :: ps) ((k, e') :: ps')

end

/-- An exact literal is read with its value. -/
theorem scalarReadAs_asRead {v : Scalar} (exact : isExact v = true) :
    ScalarReadAs v (scalarAsRead v) := by
  unfold ScalarReadAs scalarAsRead
  by_cases number : v.isNumber = true
  · obtain ⟨n, units, absolute, minus⟩ := units?_absolute number exact
    rw [units, if_pos number, minus]
    exact ⟨_, absolute, by simp⟩
  · rw [scalarUnits?_eq_none (Bool.eq_false_of_not_eq_true number), if_neg number]

theorem exprsReadAs_of_forall {es : List Expr} (h : ∀ e ∈ es, e.ReadAs e.asRead) :
    ExprsReadAs es (exprsAsRead es) := by
  induction es with
  | nil => exact .nil
  | cons e es ih =>
    obtain ⟨first, more⟩ := List.forall_mem_cons.mp h
    exact .cons first (ih more)

theorem propsReadAs_of_forall {ps : List (String × Expr)} (h : ∀ p ∈ ps, p.2.ReadAs p.2.asRead) :
    PropsReadAs ps (propsAsRead ps) := by
  induction ps with
  | nil => exact .nil
  | cons p ps ih =>
    obtain ⟨first, more⟩ := List.forall_mem_cons.mp h
    exact .cons p.1 first (ih more)

/-- What a legible expression is read as is the expression, up to its literals. -/
theorem Expr.Legible.readAs {e : Expr} (legible : e.Legible names) : e.ReadAs e.asRead := by
  induction legible with
  | ident => exact .ident _
  | lit h => exact .lit (scalarReadAs_asRead h)
  | undefined => exact .undefined
  | array _ ih => exact .array (exprsReadAs_of_forall ih)
  | object _ _ ih => exact .object (propsReadAs_of_forall ih)
  | property optional _ _ ih => exact .member false optional ih (.ident _)
  | index optional _ _ ih ihKey => exact .member true optional ih ihKey
  | call _ _ ih ihArgs => exact .call ih (exprsReadAs_of_forall ihArgs)
  | new _ _ ih => exact .new (.ident _) (exprsReadAs_of_forall ih)
  | unary _ _ ih => exact .unary _ ih
  | binary _ _ _ ihLeft ihRight => exact .binary _ ihLeft ihRight
  | logical _ _ _ ihLeft ihRight => exact .logical _ ihLeft ihRight
  | ternary _ _ _ ihTest ihYes ihNo => exact .ternary ihTest ihYes ihNo
  | arrow _ _ _ ih => exact .arrow _ ih

/-- The text of a legible expression is read back. -/
theorem read_text {e : Expr} (legible : e.isLegible names = true) :
    Reading.read names e.text = some e.asRead :=
  (e.readsInPlace legible).read_text

/-- The printer is unambiguous: a legible expression has a text, and reading the
text gives the expression back. -/
theorem print?_unambiguous (names : NameClass) (e : Expr) (legible : e.isLegible names = true) :
    ∃ text t, (Node.expr e).print? = some text ∧ Reading.read names text.toList = some t ∧ e.ReadAs t := by
  refine ⟨String.ofList e.text, e.asRead, ?_, ?_, (e.legible legible).readAs⟩
  · rw [Node.print?, Node.isWritable, (e.legible legible).isWritable, if_pos rfl, Node.text]
  · rw [String.toList_ofList]
    exact read_text legible

/-- `({a}) => (-(-2)) ** (5).c ? ["\n", undefined] : new C(a || b in {})` -/
theorem print?_unambiguous_arrow : ∃ e : Expr,
    e = .arrow [.pattern ["a"]] (.ternary
      (.binary (.unary "-" (.lit (.int (-2)))) "**" (.member (.lit (.int 5)) (.ident "c") false false))
      (.array [.lit (.text "\n"), .undefined])
      (.new (.ident "C") [.logical (.ident "a") "||" (.binary (.ident "b") "in" (.object []))])) ∧
    e.isLegible .ascii = true ∧
    ∃ text t, (Node.expr e).print? = some text ∧ Reading.read .ascii text.toList = some t ∧
      e.ReadAs t :=
  ⟨_, rfl, by decide, print?_unambiguous .ascii _ (by decide)⟩

end JexlScript.Script
