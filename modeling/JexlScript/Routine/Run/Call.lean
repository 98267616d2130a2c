import JexlScript.Routine.Run.Value

/-!
# Calls

What calls give: of functions, of classes, of the functions and classes that are
always there, and of the methods that lists, dictionaries, texts and generators
have from the start. A function that yields gives a generator.
-/

namespace JexlScript.Routine

open Run

/-! ## Code -/

mutual

/-- The names that a function says belong elsewhere: to the module, or to a
function around it. -/
def Stmt.namesElsewhere (isGlobal : Bool) : Stmt → List String
  | .elsewhere here names => if here = isGlobal then names else []
  | .cond _ yes no => stmtsElsewhere isGlobal yes ++ stmtsElsewhere isGlobal no
  | .loop _ _ _ body other | .while _ body other =>
    stmtsElsewhere isGlobal body ++ stmtsElsewhere isGlobal other
  | .context _ _ body => stmtsElsewhere isGlobal body
  | .attempt _ body _ other last =>
    stmtsElsewhere isGlobal body ++ stmtsElsewhere isGlobal other ++ stmtsElsewhere isGlobal last
  | _ => []

def stmtsElsewhere (isGlobal : Bool) : List Stmt → List String
  | [] => []
  | s :: ss => s.namesElsewhere isGlobal ++ stmtsElsewhere isGlobal ss

end

mutual

/-- Whether a statement yields. A `yield` further inside an expression is not
followed. -/
def Stmt.yields : Stmt → Bool
  | .expr e | .assign _ e | .ret (some e) =>
    match e with
    | .yield _ | .yieldFrom _ => true
    | _ => false
  | .cond _ yes no => stmtsYield yes || stmtsYield no
  | .loop _ _ _ body other | .while _ body other => stmtsYield body || stmtsYield other
  | .context _ _ body => stmtsYield body
  | .attempt _ body handlers other last =>
    stmtsYield body || handlersYield handlers || stmtsYield other || stmtsYield last
  | _ => false

def stmtsYield : List Stmt → Bool
  | [] => false
  | s :: ss => s.yields || stmtsYield ss

def handlersYield : List Handler → Bool
  | [] => false
  | .mk _ _ body :: hs => stmtsYield body || handlersYield hs

end

namespace Code

def ofLambda (params : Params Expr) (body : Expr) (place : Span) : Code :=
  ⟨lambdaName, params, .value place body, false, false, [], []⟩

def ofDefinition (isAsync : Bool) (name : String) (params : Params Expr) (body : List Stmt)
    (start : Nat) : Code :=
  ⟨name, params, .block start body, isAsync, stmtsYield body, stmtsElsewhere true body,
    stmtsElsewhere false body⟩

def doc (code : Code) : Datum :=
  match code.body with
  | .block _ (.expr (.const (.text value _)) :: _) => .text value.toText
  | _ => .nothing

def work (code : Code) : List Work :=
  match code.body with
  | .value _ e => [.stmts [.ret (some e)]]
  | .block _ stmts => [.stmts stmts]

end Code

namespace Machine

variable (m : Machine)

/-! ## Functions -/

def makeFunction (code : Code) (scope : Scope) (defaults : List Datum)
    (namedDefaults : List (String × Datum)) : Run Datum := do
  let byName ← makeEntries (namedDefaults.map fun (n, v) => (.text n, v))
  let attributes ← makeFrame [("__name__", .text code.name), ("__qualname__", .text code.name),
    ("__module__", .text "module"), ("__doc__", code.doc), ("__defaults__", .tuple defaults),
    ("__kwdefaults__", byName)]
  make (.function code scope attributes)

/-- The names of the parameters of a function with what they take. -/
def boundNames (params : Params Expr) (defaults : List Datum) (byName : List (Datum × Datum))
    (args : List Datum) (named : List (String × Datum)) : Run (List (String × Datum)) := do
  let positions := params.positional ++ params.ordinary
  let byPosition := positions.zip args
  let takes (name : String) : Bool :=
    params.ordinary.contains name || params.named.contains name
  let known := named.filter fun (name, _) => takes name
  let given := byPosition ++ known
  let last := (positions.drop (positions.length - defaults.length)).zip defaults
  let default? (name : String) : Option Datum :=
    (last.lookup name).orElse fun _ =>
      if params.named.contains name then entryAt? byName (.text name) else none
  if positions.length < args.length && params.rest.isNone then raise "TypeError"
  if known.length < named.length && params.namedRest.isNone then raise "TypeError"
  if known.any fun (name, _) => (byPosition.lookup name).isSome then raise "TypeError"
  let ordinary ← (positions ++ params.named).mapM fun name =>
    match (given.lookup name).orElse fun _ => default? name with
    | some value => pure (name, value)
    | none => raise "TypeError"
  let rest := params.rest.toList.map fun name => (name, Datum.tuple (args.drop positions.length))
  let namedRest ← params.namedRest.toList.mapM fun name => do
    let left := named.filter fun (n, _) => !takes n
    pure (name, ← makeEntries (left.map fun (n, v) => (.text n, v)))
  pure (ordinary ++ rest ++ namedRest)

def callFunction (code : Code) (written : Scope) (attributes : Nat) (args : List Datum)
    (named : List (String × Datum)) : Run Datum := do
  let defaults ← match ← named? attributes "__defaults__" with
    | some (.tuple ds) => pure ds
    | _ => pure []
  let byName ← match ← named? attributes "__kwdefaults__" with
    | some (.object address) => entriesAt address
    | _ => pure []
  let frame ← makeFrame (← boundNames code.params defaults byName args named)
  let scope : Scope := {
    frame, around := written.inner, inner := frame :: written.inner, home := frame,
    globals := code.globals, nonlocals := code.nonlocals,
    first := (code.params.positional ++ code.params.ordinary).head? }
  match code.isAsync, code.yields, code.body with
  | true, _, _ => pure .unknown
  | false, true, _ => make (.iterator (.function scope code.work))
  | false, false, .value _ e => m.value scope e
  | false, false, .block _ _ =>
    let handled := (← get).handled
    let result ← m.run scope code.work (.go .nothing)
    modify fun s => { s with handled }
    match result with
    | .ended value => pure value
    | .yielded .. => pure .unknown

/-! ## Classes -/

/-- A class with a name, what it comes from, and what it keeps. The classes it
comes from are told of it. -/
def makeType (name : String) (bases : List Datum) (attributes : Nat)
    (named : List (String × Datum)) : Run Datum := do
  let line ← lineAfter bases
  let type ← make (.type name line attributes)
  match ← keptAmong? "__init_subclass__" line with
  | some kept =>
    let f ← match ← object? kept with
      | some (.ofClass f) => pure f
      | _ => pure kept
    let _ ← m.call f [type] named
  | none => pure ()
  pure type

def construct (type : Datum) (args : List Datum) (named : List (String × Datum)) : Run Datum := do
  let line ← lineageOf type
  if (← keptAmong? "__new__" line).isSome then pure .unknown
  else
    let attributes ← makeFrame [("args", .tuple args)]
    let d ← make (.record type attributes)
    match ← special? d "__init__" with
    | some f =>
      let _ ← m.call f (d :: args) named
      pure d
    | none =>
      -- an instance of a standard class other than an exception is not followed
      let isPlain := line.all fun
        | .standard name => name = "object" || isException name
        | d => !d.isForeign
      pure (if isPlain then d else .unknown)

/-- Whether a datum is an instance of a class, or of one of several, where this is
known. -/
def isInstance? (d : Datum) : (types : Datum) → Run (Option Bool)
  | .tuple types => do
    let line ← lineageOf (← typeOf d)
    pure (if types.any fun type => line.any type.same then some true
      else if line.any Datum.isForeign || types.any Datum.isForeign then none
      else some false)
  | type => do
    let line ← lineageOf (← typeOf d)
    pure (if line.any type.same then some true
      else if line.any Datum.isForeign || type.isForeign then none
      else some false)

def isCallable? (d : Datum) : Run (Option Bool) := do
  match d, ← object? d with
  | .bound .., _ | _, some (.function ..) | _, some (.type ..) | _, some (.method ..)
  | _, some (.static _) => pure (some true)
  | d, some (.record ..) => do pure (some (← special? d "__call__").isSome)
  | .standard name, _ => pure (if isStandard name then some true else none)
  | d, _ => pure (if d.isForeign then none else some false)

/-! ## What the standard classes make -/

/-- The entries that a dictionary is made from: another dictionary, pairs, or
names. -/
def entriesFrom (args : List Datum) (named : List (String × Datum)) :
    Run (List (Datum × Datum)) := do
  let given ← args.mapM fun d => do
    match ← object? d with
    | some (.entries members) => pure members
    | _ =>
      (← m.members d).mapM fun pair => do
        match ← m.members pair with
        | [k, v] => pure (k, v)
        | _ => raise "ValueError"
  pure (given.flatten ++ named.map fun (n, v) => (.text n, v))

/-- The text that shows a plain value; what shows others is not followed. -/
def shown? : Datum → Option String
  | .nothing => some "None"
  | .bool b => some (if b then "True" else "False")
  | .int n => some (toString n)
  | .text s => some s
  | _ => none

def ofText? (text : Option String) : Datum := (text.map Datum.text).getD .unknown

def rangeMembers (start stop step : Int) : List Datum :=
  let length := if 0 < step then ((stop - start + step - 1) / step).toNat
    else if step < 0 then ((start - stop - step - 1) / (-step)).toNat
    else 0
  (List.range (min mostRepeated length)).map fun (n : Nat) => .int (start + step * n)

/-- Members of several lists side by side, as long as all have one. -/
def zipAll : (fuel : Nat) → List (List Datum) → List (List Datum)
  | 0, _ => []
  | fuel + 1, lists =>
    match lists.mapM List.head? with
    | some heads => heads :: zipAll fuel (lists.map List.tail)
    | none => []

def makePlain (type : String) (args : List Datum) (named : List (String × Datum)) :
    Run Datum := do
  let first : Run (List Datum) := do
    match args with
    | d :: _ => m.members d
    | [] => pure []
  match type, args with
  | "bool", [] => pure (.bool false)
  | "bool", d :: _ => do pure (.ofBool? (← m.truth? d))
  | "int", [] => pure (.int 0)
  | "int", [d] => pure (((d.int?).orElse fun _ => d.text?.bind String.toInt?).elim .unknown .int)
  | "str", [] => pure (.text "")
  | "str", [d] => pure (ofText? (shown? d))
  | "list", _ => do makeList (← first)
  | "tuple", _ => do pure (.tuple (← first))
  | "set", _ | "frozenset", _ => do make (.items true (distinct (← first)))
  | "dict", _ => do makeEntries (withEntries [] (← m.entriesFrom args named))
  | "range", [.int stop] => pure (.tuple (rangeMembers 0 stop 1))
  | "range", [.int start, .int stop] => pure (.tuple (rangeMembers start stop 1))
  | "range", [.int start, .int stop, .int step] => pure (.tuple (rangeMembers start stop step))
  | "property", getter :: others => make (.property getter (others.headD .nothing))
  | "staticmethod", f :: _ => make (.static f)
  | "classmethod", f :: _ => make (.ofClass f)
  | "enumerate", _ =>
    let start := ((args[1]?.orElse fun _ => named.lookup "start").bind Datum.int?).getD 0
    makeIterator ((← first).zipIdx.map fun (d, n) => .tuple [.int (start + n), d])
  | "zip", _ =>
    let lists ← args.mapM m.members
    makeIterator ((zipAll (lists.headD []).length lists).map Datum.tuple)
  | "map", f :: sources =>
    let lists ← sources.mapM m.members
    makeIterator (← (zipAll (lists.headD []).length lists).mapM fun ds => m.call f ds [])
  | "filter", [f, d] =>
    let kept ← (← m.members d).filterM fun x => do
      m.holds (← if f.isNothing then pure x else m.call f [x] [])
    makeIterator kept
  | "reversed", _ => do makeIterator (← first).reverse
  | "object", [] => do make (.record (.standard "object") (← makeFrame []))
  | "type", [d] => typeOf d
  | "type", [.text name, bases, space] =>
    let attributes ← allocate (.entries (← m.entriesFrom [space] []))
    m.makeType name (← m.members bases) attributes named
  | "super", [type, subject] => make (.parent type subject)
  | type, args => if isException type then m.construct (.standard type) args [] else pure .unknown

/-! ## Methods -/

def placeOfMember? (d : Datum) : (place : Nat) → List Datum → Run (Option Nat)
  | _, [] => pure none
  | place, x :: xs => do
    if ← m.equal x d then pure (some place) else placeOfMember? d (place + 1) xs

/-- What a method of a list or a set gives; `address` is where it is. -/
def itemsMethod (address : Nat) (isSet : Bool) (xs : List Datum) (name : String)
    (args : List Datum) (named : List (String × Datum)) : Run Datum := do
  let change (xs : List Datum) : Run Datum := do
    replace address (.items isSet (if isSet then distinct xs else xs))
    pure .nothing
  match name, args with
  | "append", [d] | "add", [d] => change (xs ++ [d])
  | "extend", [d] | "update", [d] => do change (xs ++ (← m.members d))
  | "insert", [.int n, d] =>
    let place := (if n < 0 then n + xs.length else n).toNat
    change (xs.take place ++ d :: xs.drop place)
  | "pop", args =>
    match placeOf xs.length ((args.head?.bind Datum.int?).getD (if isSet then 0 else -1)) with
    | some place =>
      let _ ← change (xs.eraseIdx place)
      pure (xs[place]?.getD .unknown)
    | none => raise (if isSet then "KeyError" else "IndexError")
  | "remove", [d] | "discard", [d] | "index", [d] =>
    match ← m.placeOfMember? d 0 xs with
    | some place => if name = "index" then pure (.int place) else change (xs.eraseIdx place)
    | none => if name = "discard" then pure .nothing else raise "ValueError"
  | "count", [d] => do pure (.int (← xs.filterM fun x => m.equal x d).length)
  | "clear", [] => change []
  | "reverse", [] => change xs.reverse
  | "sort", [] => do change (← m.sorted xs named)
  | "copy", [] => make (.items isSet xs)
  | _, _ => pure .unknown

/-- What a method of a dictionary gives; `address` is where it is. -/
def dictMethod (address : Nat) (xs : List (Datum × Datum)) (name : String)
    (args : List Datum) (named : List (String × Datum)) : Run Datum := do
  match name, args with
  | "get", key :: others => pure ((entryAt? xs key).getD (others.headD .nothing))
  | "items", [] => makeList (xs.map fun (k, v) => .tuple [k, v])
  | "values", [] => makeList (xs.map Prod.snd)
  | "keys", [] => makeList (xs.map Prod.fst)
  | "update", args =>
    let more ← m.entriesFrom args named
    changeEntries address (withEntries · more)
    pure .nothing
  | "setdefault", key :: others =>
    let value := (entryAt? xs key).getD (others.headD .nothing)
    changeEntries address (withEntry key value)
    pure value
  | "pop", key :: others =>
    match entryAt? xs key, others with
    | some value, _ =>
      changeEntries address (withoutEntry key)
      pure value
    | none, other :: _ => pure other
    | none, [] => raiseWith "KeyError" [key]
  | "clear", [] =>
    changeEntries address fun _ => []
    pure .nothing
  | "copy", [] => makeEntries xs
  | _, _ => pure .unknown

def textMethod (s : String) (name : String) (args : List Datum) : Run Datum := do
  match name, args with
  | "upper", [] => pure (.text s.toUpper)
  | "lower", [] => pure (.text s.toLower)
  | "strip", [] => pure (.text s.trimAscii.toString)
  | "startswith", [.text part] => pure (.bool (s.startsWith part))
  | "endswith", [.text part] => pure (.bool (s.endsWith part))
  | "replace", [.text old, .text new] => pure (.text (s.replace old new))
  | "split", [] => makeList ((words s).map Datum.text)
  | "split", [.text mark] => makeList ((s.splitOn mark).map Datum.text)
  | "join", [d] =>
    match (← m.members d).mapM Datum.text? with
    | some parts => pure (.text (s.intercalate parts))
    | none => pure .unknown
  | _, _ => pure .unknown

/-- The answer of an iterator as that of its method: that there are no more is
said by failing. -/
def answer (p : Run Advance) : Run Datum := do
  match ← p with
  | .more d => pure d
  | .done result => raiseWith "StopIteration" (if result.isNothing then [] else [result])

def methodOf (d : Datum) (name : String) (args : List Datum) (named : List (String × Datum)) :
    Run Datum := do
  match d, ← object? d, name with
  | _, _, "__init__" | _, _, "__init_subclass__" => pure .nothing
  | .text s, _, name => m.textMethod s name args
  | .object address, some (.items isSet xs), name => m.itemsMethod address isSet xs name args named
  | .object address, some (.entries xs), name => m.dictMethod address xs name args named
  | d, some (.function ..), "__get__" =>
    match args with
    | subject :: _ => make (.method subject d)
    | [] => raise "TypeError"
  | d, some (.function ..), "__call__" => m.call d args named
  | _, some (.property getter _), "setter" => make (.property getter (args.headD .nothing))
  | _, some (.property _ setter), "getter" => make (.property (args.headD .nothing) setter)
  | d, some (.iterator _), "send" => answer (m.next d (.go (args.headD .nothing)))
  | .object address, some (.iterator _), "close" =>
    replace address (.iterator .finished)
    pure .nothing
  | _, _, _ => pure .unknown

/-! ## Standard functions -/

/-- Makes a function tell what another does of itself, and say that it wraps
it. -/
def wrap (inner f : Datum) : Run Datum := do
  ["__module__", "__name__", "__qualname__", "__doc__"].forM fun name => do
    match ← m.attribute? inner name with
    | some value => m.giveAttribute f name value
    | none => pure ()
  match ← attributesOf? inner, ← attributesOf? f with
  | some attributes, some wrapped =>
    let own ← entriesAt attributes
    let told := own.filter fun (k, _) => !((k.text?.getD "").startsWith "__")
    changeEntries wrapped (withEntries · told)
  | _, _ => pure ()
  m.giveAttribute f "__wrapped__" inner
  pure f

/-- The standard functions that take a function and give an object that is not
one. -/
def wrapperNames : List String :=
  ["functools.partial", "functools.cache", "functools.lru_cache", "functools.singledispatch",
    "functools.cached_property", "functools.partialmethod"]

def standardCall (name : String) (args : List Datum) (named : List (String × Datum)) :
    Run Datum := do
  match name, args with
  | "identity", [d] => pure d
  | "identityMaker", _ => pure (.standard "identity")
  | "functools.wraps", inner :: _ => pure (.bound inner "functools.wraps")
  | "collections.OrderedDict", args => m.makePlain "dict" args named
  | "types.SimpleNamespace", [] => do make (.record (.standard "object") (← makeFrame named))
  | "functools.update_wrapper", f :: inner :: _ => m.wrap inner f
  | "functools.reduce", f :: d :: start =>
    match start ++ (← m.members d) with
    | first :: rest => rest.foldlM (fun found x => m.call f [found, x] []) first
    | [] => raise "TypeError"
  | "all", [d] => do pure (.bool (← (← m.members d).allM m.holds))
  | "any", [d] => do pure (.bool (← (← m.members d).anyM m.holds))
  | "abs", [d] => pure ((d.int?.map fun n => Datum.int n.natAbs).getD .unknown)
  | "len", [d] =>
    match ← m.callMethod? d "__len__" [], ← object? d with
    | some n, _ => pure n
    | none, some (.iterator _) | none, some (.function ..) => raise "TypeError"
    | none, _ => if d.isForeign then pure .unknown else do pure (.int (← m.members d).length)
  | "sum", d :: start =>
    (← m.members d).foldlM (fun total x => m.operator .add total x) (start.headD (.int 0))
  | "sorted", d :: _ => do makeList (← m.sorted (← m.members d) named)
  | "min", args | "max", args =>
    let ds ← match args with
      | [d] => m.members d
      | args => pure args
    -- the first of those that are equally great comes out
    let sorted ← m.sorted ds (("reverse", .bool (name = "max")) :: named)
    pure (sorted.headD ((named.lookup "default").getD .unknown))
  | "iter", [d] => m.iteratorOf d
  | "next", d :: others =>
    match ← m.next d (.go .nothing), others with
    | .done _, other :: _ => pure other
    | advance, _ => answer (pure advance)
  | "getattr", [d, .text key] => m.attributeOf d key
  | "getattr", [d, .text key, other] => do pure ((← m.attribute? d key).getD other)
  | "setattr", [d, .text key, value] =>
    m.giveAttribute d key value
    pure .nothing
  | "hasattr", [d, .text key] =>
    if d.isForeign then pure .unknown else do pure (.bool (← m.attribute? d key).isSome)
  | "callable", [d] => do pure (.ofBool? (← isCallable? d))
  | "isinstance", [d, type] => do pure (.ofBool? (← isInstance? d type))
  | "issubclass", [type, other] => do pure (.bool ((← lineageOf type).any other.same))
  | "vars", [d] => do pure (((← attributesOf? d).map Datum.object).getD .unknown)
  | "print", _ => pure .nothing
  | "globals", [] => pure (.object moduleFrame)
  | name, args =>
    if wrapperNames.contains name then do make (.record (.standard name) (← makeFrame []))
    else if isStandardClass name then m.makePlain name args named
    else pure .unknown

/-! ## Calls of any kind -/

def callDatum (f : Datum) (args : List Datum) (named : List (String × Datum)) : Run Datum := do
  step
  match f, ← object? f with
  | .unknown, _ => pure .unknown
  | .standard name, _ => m.standardCall name args named
  | .bound inner "functools.wraps", _ => m.wrap inner (args.headD .unknown)
  | .bound (.standard _) name, _ =>
    match args with
    | d :: rest => m.methodOf d name rest named
    | [] => pure .unknown
  | .bound subject name, _ => m.methodOf subject name args named
  | _, some (.function code written attributes) =>
    m.callFunction code written attributes args named
  | f, some (.type ..) => m.construct f args named
  | _, some (.method subject g) => m.call g (subject :: args) named
  | _, some (.static g) => m.call g args named
  | f, some (.record type _) =>
    match type, ← special? f "__call__" with
    | _, some g => m.call g (f :: args) named
    -- one of these that was given only options takes the function now
    | .standard name, none =>
      if wrapperNames.contains name then pure f
      else if ← isForeignRecord f then pure .unknown
      else raise "TypeError"
    | _, none => if ← isForeignRecord f then pure .unknown else raise "TypeError"
  | _, _ => raise "TypeError"

end Machine

end JexlScript.Routine
