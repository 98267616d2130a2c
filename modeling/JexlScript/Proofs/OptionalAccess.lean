import JexlScript.Proofs.Meaning
import JexlScript.Proofs.Parts

/-!
# Optional access reads without failing

A formula reads any property of a missing value as undefined. A script throws
there, unless the access is optional: then the rest of its chain is cut off and
undefined. `Expr.lenient` evaluates a script by the first rule and does not look
at the flags of accesses, `Expr.run` by the second. They agree on every script
whose flags are set by `Expr.withOptional`, in every environment that bears out
what the flags rely on.
-/

namespace JexlScript.Script

variable {V : Type}

/-! ## Values -/

/-- What the values of scripts are and what is done with them. Some values are
missing: they have no properties. -/
structure Valuation (V : Type) where
  undefined : V
  literal : Scalar → V
  array : List V → V
  object : List (String × V) → V
  /-- Whether a value is `null` or `undefined`. -/
  missing : V → Bool
  /-- The property at a key of a value that is not missing. -/
  get : V → V → V
  /-- Whether a value holds as a condition. -/
  truthy : V → Bool
  unary : String → V → V
  binary : String → V → V → V
  /-- Whether a left operand alone settles a logical operation. -/
  settles : String → V → Bool
  undefined_missing : missing undefined = true
  /-- Of the literals, only `null` is missing. -/
  literal_missing : ∀ s, missing (literal s) = decide (s = .null)
  array_present : ∀ vs, missing (array vs) = false
  object_present : ∀ ps, missing (object ps) = false

namespace Valuation

variable (D : Valuation V)

/-- Reads a property, which is undefined for a missing value. -/
def read (v key : V) : V := if D.missing v then D.undefined else D.get v key

/-- Reads a path name by name, from a name of the environment on. -/
def readPath (env : String → V) (first : String) (others : List String) : V :=
  others.foldl (fun v name => D.read v (D.literal (.text name))) (env first)

end Valuation

/-- The key of a property that is given by its name. -/
def Expr.plainKey : Expr → Scalar
  | .ident name => .text name
  | _ => .null

/-! ## Reading without failing -/

mutual

/-- The value of a script when any property of a missing value is undefined. -/
def Expr.lenient (D : Valuation V) (env : String → V) : Expr → V
  | .ident name => env name
  | .lit s => D.literal s
  | .undefined => D.undefined
  | .array es => D.array (lenientExprs D env es)
  | .object ps => D.object (lenientProps D env ps)
  | .member obj prop computed _ =>
    D.read (obj.lenient D env) (if computed then prop.lenient D env else D.literal prop.plainKey)
  | .unary op e => D.unary op (e.lenient D env)
  | .binary l op r => D.binary op (l.lenient D env) (r.lenient D env)
  | .logical l op r =>
    if D.settles op (l.lenient D env) then l.lenient D env else r.lenient D env
  | .ternary c y n => if D.truthy (c.lenient D env) then y.lenient D env else n.lenient D env
  | .call .. | .new .. | .arrow .. | .arrowBlock .. | .function .. => D.undefined

def lenientExprs (D : Valuation V) (env : String → V) : List Expr → List V
  | [] => []
  | e :: es => e.lenient D env :: lenientExprs D env es

def lenientProps (D : Valuation V) (env : String → V) : List (String × Expr) → List (String × V)
  | [] => []
  | (key, e) :: ps => (key, e.lenient D env) :: lenientProps D env ps

end

/-! ## Reading as scripts do -/

/-- How far a chain of accesses gets. -/
inductive Reach (V : Type) where
  | value (v : V)
  /-- To an optional access to a missing value, which cuts off the rest. -/
  | cut

/-- The value of a whole chain: what is cut off is undefined. -/
def Reach.settle (D : Valuation V) : Reach V → V
  | .value v => v
  | .cut => D.undefined

@[simp] theorem Reach.settle_value (D : Valuation V) (v : V) : (Reach.value v).settle D = v := rfl

@[simp] theorem Reach.settle_cut (D : Valuation V) : Reach.cut.settle D = D.undefined := rfl

mutual

/-- How far a script gets as the beginning of a chain of accesses. It fails
where the script throws: at an access to a missing value that is not
optional. -/
def Expr.chain (D : Valuation V) (env : String → V) : Expr → Option (Reach V)
  | .ident name => some (.value (env name))
  | .lit s => some (.value (D.literal s))
  | .undefined => some (.value D.undefined)
  | .array es => do
    let vs ← runExprs D env es
    some (.value (D.array vs))
  | .object ps => do
    let vs ← runProps D env ps
    some (.value (D.object vs))
  | .member obj prop computed optional => do
    match ← obj.chain D env with
    | .cut => some .cut
    | .value v =>
      if D.missing v then if optional then some .cut else none
      else if computed then do
        let key ← prop.chain D env
        some (.value (D.get v (key.settle D)))
      else some (.value (D.get v (D.literal prop.plainKey)))
  | .unary op e => do
    let v ← e.chain D env
    some (.value (D.unary op (v.settle D)))
  | .binary l op r => do
    let x ← l.chain D env
    let y ← r.chain D env
    some (.value (D.binary op (x.settle D) (y.settle D)))
  | .logical l op r => do
    let x ← l.chain D env
    if D.settles op (x.settle D) then some (.value (x.settle D))
    else
      let y ← r.chain D env
      some (.value (y.settle D))
  | .ternary c y n => do
    let test ← c.chain D env
    let v ← if D.truthy (test.settle D) then y.chain D env else n.chain D env
    some (.value (v.settle D))
  | .call .. | .new .. | .arrow .. | .arrowBlock .. | .function .. => none

def runExprs (D : Valuation V) (env : String → V) : List Expr → Option (List V)
  | [] => some []
  | e :: es => do
    let v ← e.chain D env
    let vs ← runExprs D env es
    some (v.settle D :: vs)

def runProps (D : Valuation V) (env : String → V) :
    List (String × Expr) → Option (List (String × V))
  | [] => some []
  | (key, e) :: ps => do
    let v ← e.chain D env
    let vs ← runProps D env ps
    some ((key, v.settle D) :: vs)

end

/-- Evaluates a script, which fails where it throws. -/
def Expr.run (D : Valuation V) (env : String → V) (e : Expr) : Option V :=
  (e.chain D env).map (Reach.settle D)

/-! ## Scripts that only read -/

/-- The scripts that call nothing and hold no function. A plain access has a
name as its property. -/
inductive Expr.OnlyReads : Expr → Prop
  | ident (name : String) : OnlyReads (.ident name)
  | lit (s : Scalar) : OnlyReads (.lit s)
  | undefined : OnlyReads .undefined
  | array {es : List Expr} : (∀ e ∈ es, OnlyReads e) → OnlyReads (.array es)
  | object {ps : List (String × Expr)} : (∀ p ∈ ps, OnlyReads p.2) → OnlyReads (.object ps)
  | dot {obj : Expr} (name : String) (optional : Bool) :
      OnlyReads obj → OnlyReads (.member obj (.ident name) false optional)
  | index {obj key : Expr} (optional : Bool) :
      OnlyReads obj → OnlyReads key → OnlyReads (.member obj key true optional)
  | unary {e : Expr} (op : String) : OnlyReads e → OnlyReads (.unary op e)
  | binary {l r : Expr} (op : String) : OnlyReads l → OnlyReads r → OnlyReads (.binary l op r)
  | logical {l r : Expr} (op : String) : OnlyReads l → OnlyReads r → OnlyReads (.logical l op r)
  | ternary {c y n : Expr} :
      OnlyReads c → OnlyReads y → OnlyReads n → OnlyReads (.ternary c y n)

/-! ## What the flags rely on -/

/-- Whether what is known of an object says that it is not missing. -/
def Knowledge.holds (defined : Path → Bool) : Knowledge → Bool
  | .defined => true
  | .unknown => false
  | .askCaller path => defined path

/-- What is known of a path: a global is defined, and the caller is asked about any other. -/
def Knowledge.ofPath : Path → Knowledge
  | [n] => if alwaysDefined.contains n then .defined else .askCaller [n]
  | path => .askCaller path

/-- What is known of an expression that spells a path is known of the path. -/
theorem knowledge_of_path? {e : Expr} {path : Path} (spells : e.path? = some path) :
    e.knowledge = .ofPath path := by
  cases e with
  | ident n =>
    cases spells
    rfl
  | member obj prop computed optional =>
    simp only [Expr.knowledge, spells]
    rcases path with _ | ⟨n, _ | ⟨m, path⟩⟩ <;> rfl
  | _ => simp [Expr.path?] at spells

/-- Nothing is known of an access that spells no path. -/
theorem knowledge_member {obj prop : Expr} {computed optional : Bool}
    (spells : (Expr.member obj prop computed optional).path? = none) :
    (Expr.member obj prop computed optional).knowledge = .unknown := by
  simp only [Expr.knowledge, spells]

section

variable {defined : Path → Bool}

/-- An access becomes optional unless its object is known to be defined. -/
theorem withOptional_member (obj prop : Expr) (computed optional : Bool) :
    (Expr.member obj prop computed optional).withOptional defined =
      .member (obj.withOptional defined) (prop.withOptional defined) computed
        (!(obj.withOptional defined).knowledge.holds defined) := by
  have flagged (k : Knowledge) :
      Id.run (k.optional fun path => pure (defined path)) = !k.holds defined := by
    cases k <;> rfl
  simp only [Expr.withOptional, Expr.flag, Id.run_bind, Id.run_pure, flagged]

theorem withOptional_array (es : List Expr) :
    (Expr.array es).withOptional defined = .array (es.map (Expr.withOptional defined)) := by
  simp only [Expr.withOptional, Expr.flag, Id.run_bind, Id.run_pure, flagExprs_eq_map]

theorem withOptional_object (ps : List (String × Expr)) :
    (Expr.object ps).withOptional defined =
      .object (ps.map fun p => (p.1, p.2.withOptional defined)) := by
  simp only [Expr.withOptional, Expr.flag, Id.run_bind, Id.run_pure, flagProps_eq_map]

/-- Flags are not part of a path. -/
theorem path?_withOptional (e : Expr) : (e.withOptional defined).path? = e.path? := by
  fun_induction Expr.path? e with
  | case1 n => rfl
  | case2 obj n optional ih =>
    rw [withOptional_member]
    simp only [Expr.withOptional, Expr.flag, Id.run_pure] at ih ⊢
    simp only [Expr.path?, ih]
  | case3 e noName noField =>
    cases e with
    | ident n => exact absurd rfl (noName n)
    | member obj prop computed optional =>
      -- the property of a plain access is a name only if it was one before
      rw [withOptional_member]
      cases computed with
      | true => simp [Expr.path?]
      | false =>
        cases prop with
        | ident n => exact absurd rfl (noField obj n optional)
        | _ => rfl
    | _ => rfl

end

/-- What the flags rely on: the globals of the language are there, and so is
what the caller vouches for. -/
structure BearsOut (D : Valuation V) (env : String → V) (defined : Path → Bool) : Prop where
  globals : ∀ n ∈ alwaysDefined, D.missing (env n) = false
  vouched : ∀ first others, defined (first :: others) = true →
    D.missing (D.readPath env first others) = false

section

variable {D : Valuation V} {env : String → V} {defined : Path → Bool}

/-- An expression that spells a path has the value that the path reads. -/
theorem lenient_of_path? {e : Expr} (reads : e.OnlyReads) {path : Path}
    (spells : e.path? = some path) :
    ∃ first others, path = first :: others ∧ e.lenient D env = D.readPath env first others := by
  induction reads generalizing path with
  | ident name =>
    cases spells
    exact ⟨name, [], rfl, by simp [Expr.lenient, Valuation.readPath]⟩
  | dot name optional _ ih =>
    simp only [Expr.path?, Option.map_eq_some_iff] at spells
    obtain ⟨parent, spells, rfl⟩ := spells
    obtain ⟨first, others, rfl, value⟩ := ih spells
    refine ⟨first, others ++ [name], rfl, ?_⟩
    simp [Expr.lenient, value, Valuation.readPath, Expr.plainKey]
  | _ => simp [Expr.path?] at spells

/-- An object that is known to be defined is not missing, if the environment bears it out. -/
theorem present_of_knowledge (bears : BearsOut D env defined) {e : Expr} (reads : e.OnlyReads)
    (known : (e.withOptional defined).knowledge.holds defined = true) :
    D.missing (e.lenient D env) = false := by
  cases spells : e.path? with
  | some path =>
    rw [knowledge_of_path? ((path?_withOptional e).trans spells)] at known
    obtain ⟨first, others, rfl, value⟩ : ∃ first others, path = first :: others ∧
        e.lenient D env = D.readPath env first others := lenient_of_path? reads spells
    rw [value]
    cases others with
    | nil =>
      simp only [Knowledge.ofPath] at known
      split_ifs at known with listed
      · exact bears.globals first (List.contains_iff_mem.mp listed)
      · exact bears.vouched first [] known
    | cons second others => exact bears.vouched first (second :: others) known
  | none =>
    -- without a path, only fresh values are known to be there
    have spells' : (e.withOptional defined).path? = none :=
      (path?_withOptional e).trans spells
    cases reads with
    | ident name => cases spells
    | lit s =>
      have other : s ≠ .null := by
        rintro rfl
        cases known
      simpa [Expr.lenient, D.literal_missing] using other
    | array each => exact D.array_present _
    | object each => exact D.object_present _
    | dot name optional inner =>
      rw [withOptional_member] at known spells'
      rw [knowledge_member spells'] at known
      cases known
    | index optional inner key =>
      rw [withOptional_member] at known spells'
      rw [knowledge_member spells'] at known
      cases known
    | _ => cases known

/-! ## Both rules agree -/

theorem run_eq_some_iff {e : Expr} {v : V} :
    e.run D env = some v ↔ ∃ r, e.chain D env = some r ∧ r.settle D = v :=
  Option.map_eq_some_iff

/-- An access succeeds if it is optional or its object is there. -/
theorem run_member {obj prop : Expr} {computed optional : Bool} {v key : V}
    (object : obj.run D env = some v)
    (property : if computed then prop.run D env = some key else D.literal prop.plainKey = key)
    (flagged : optional = false → D.missing v = false) :
    (Expr.member obj prop computed optional).run D env = some (D.read v key) := by
  obtain ⟨reach, chained, rfl⟩ := run_eq_some_iff.mp object
  cases reach with
  | cut => simp [Expr.run, Expr.chain, chained, Valuation.read, D.undefined_missing]
  -- A missing object is cut off where the access is optional, and it is optional unless the object
  -- is known to be there.
  | value v =>
    cases missing : D.missing v with
    | true =>
      cases optional with
      | true => simp [Expr.run, Expr.chain, chained, missing, Valuation.read]
      | false =>
        have there : D.missing v = false := flagged rfl
        rw [there] at missing
        cases missing
    | false =>
      cases computed with
      | true =>
        obtain ⟨reach, chained', rfl⟩ := run_eq_some_iff.mp property
        simp [Expr.run, Expr.chain, chained, chained', missing, Valuation.read]
      | false =>
        have property' : D.literal prop.plainKey = key := property
        simp [Expr.run, Expr.chain, chained, missing, Valuation.read, property']

/-- A list is evaluated if each of its expressions is. -/
theorem runExprs_map {f : Expr → Expr} {es : List Expr}
    (each : ∀ e ∈ es, (f e).run D env = some (e.lenient D env)) :
    runExprs D env (es.map f) = some (lenientExprs D env es) := by
  induction es with
  | nil => rfl
  | cons e es ih =>
    obtain ⟨reach, chained, value⟩ := run_eq_some_iff.mp (each e (.head _))
    have others := ih fun e member => each e (.tail _ member)
    simp [runExprs, lenientExprs, chained, others, value]

theorem runProps_map {f : Expr → Expr} {ps : List (String × Expr)}
    (each : ∀ p ∈ ps, (f p.2).run D env = some (p.2.lenient D env)) :
    runProps D env (ps.map fun p => (p.1, f p.2)) = some (lenientProps D env ps) := by
  induction ps with
  | nil => rfl
  | cons p ps ih =>
    obtain ⟨reach, chained, value⟩ := run_eq_some_iff.mp (each p (.head _))
    have others := ih fun p member => each p (.tail _ member)
    simp [runProps, lenientProps, chained, others, value]

/-- With its flags set, a script that only reads never throws, and has the value
that it has when any property of a missing value is undefined. -/
theorem run_withOptional (bears : BearsOut D env defined) {e : Expr} (reads : e.OnlyReads) :
    (e.withOptional defined).run D env = some (e.lenient D env) := by
  -- the flag of an access is off only where its object is known to be there
  have flagged {obj : Expr} (reads : obj.OnlyReads)
      (off : (!(obj.withOptional defined).knowledge.holds defined) = false) :
      D.missing (obj.lenient D env) = false :=
    present_of_knowledge bears reads (by simpa using off)
  induction reads with
  | ident name => rfl
  | lit s => rfl
  | undefined => rfl
  | array _ ih =>
    rw [withOptional_array]
    simp [Expr.run, Expr.chain, runExprs_map ih, Expr.lenient]
  | object _ ih =>
    rw [withOptional_object]
    simp [Expr.run, Expr.chain, runProps_map ih, Expr.lenient]
  | dot name optional inner ih =>
    rw [withOptional_member]
    exact run_member ih rfl (flagged inner)
  | index optional inner _ object key =>
    rw [withOptional_member]
    exact run_member object key (flagged inner)
  | @unary e op _ ih =>
    obtain ⟨x, chained, value⟩ := run_eq_some_iff.mp ih
    have flags : (Expr.unary op e).withOptional defined = .unary op (e.withOptional defined) :=
      rfl
    simp [flags, Expr.run, Expr.chain, chained, value, Expr.lenient]
  | @binary l r op _ _ left right =>
    obtain ⟨x, chained_l, value_l⟩ := run_eq_some_iff.mp left
    obtain ⟨y, chained_r, value_r⟩ := run_eq_some_iff.mp right
    have flags : (Expr.binary l op r).withOptional defined =
        .binary (l.withOptional defined) op (r.withOptional defined) := rfl
    simp [flags, Expr.run, Expr.chain, chained_l, chained_r, value_l, value_r, Expr.lenient]
  | @logical l r op _ _ left right =>
    obtain ⟨x, chained_l, value_l⟩ := run_eq_some_iff.mp left
    obtain ⟨y, chained_r, value_r⟩ := run_eq_some_iff.mp right
    have flags : (Expr.logical l op r).withOptional defined =
        .logical (l.withOptional defined) op (r.withOptional defined) := rfl
    cases settled : D.settles op (l.lenient D env) <;>
      simp [flags, Expr.run, Expr.chain, chained_l, chained_r, value_l, value_r, settled,
        Expr.lenient]
  | @ternary c y n _ _ _ test yes no =>
    obtain ⟨x, chained_c, value_c⟩ := run_eq_some_iff.mp test
    obtain ⟨u, chained_y, value_y⟩ := run_eq_some_iff.mp yes
    obtain ⟨w, chained_n, value_n⟩ := run_eq_some_iff.mp no
    have flags : (Expr.ternary c y n).withOptional defined =
        .ternary (c.withOptional defined) (y.withOptional defined) (n.withOptional defined) := rfl
    cases holds : D.truthy (c.lenient D env) <;>
      simp [flags, Expr.run, Expr.chain, chained_c, chained_y, chained_n, value_c, value_y,
        value_n, holds, Expr.lenient]

end

/-- Data, of which `undefined` and null are missing. -/
def plainValuation : Valuation Datum where
  undefined := .undefined
  literal := .scalar
  array := .array
  object := .object
  missing
    | .undefined | .scalar .null => true
    | _ => false
  get := Datum.get
  truthy := Datum.truthy
  unary _ v := .scalar (.bool !v.truthy)
  binary op x y := if op = "===" then .scalar (.bool (Datum.isSame x y)) else .undefined
  settles op v := v.truthy != (op == "&&")
  undefined_missing := rfl
  literal_missing s := by cases s <;> rfl
  array_present _ := rfl
  object_present _ := rfl

/-- A user without a cart, and the globals. -/
def sampleUser (name : String) : Datum :=
  if name = "user" then .object [("pick", .scalar (.int 0))]
  else if alwaysDefined.contains name then .object []
  else .undefined

/-- `cart.items[user.pick].price`, where there is no cart, throws without its
flags and is undefined with them. -/
theorem run_withOptional_cart :
    let e := (((Expr.ident "cart").dot "items").index ((Expr.ident "user").dot "pick")).dot "price"
    e.run plainValuation sampleUser = none ∧
      (e.withOptional (· == ["user"])).run plainValuation sampleUser = some .undefined := by
  refine ⟨rfl, run_withOptional ⟨by decide, ?_⟩ ?_⟩
  · intro first others vouched
    cases eq_of_beq vouched
    rfl
  · exact .dot _ _ (.index _ (.dot _ _ (.ident _)) (.dot _ _ (.ident _)))

end JexlScript.Script
