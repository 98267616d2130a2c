import JexlScript.Routine.Run.Standard

/-!
# Values

What counts as true, what is equal to what, what operators give, how the members
of something are gone over, and how its elements are found and given. Objects may
decide this themselves.
-/

namespace JexlScript.Routine

open Run

/-- The method that stands for an operator, without the underscores around it. -/
def BinOp.methodName : BinOp → String
  | .add => "add"
  | .sub => "sub"
  | .mult => "mul"
  | .matMult => "matmul"
  | .div => "truediv"
  | .mod => "mod"
  | .pow => "pow"
  | .lShift => "lshift"
  | .rShift => "rshift"
  | .bitOr => "or"
  | .bitXor => "xor"
  | .bitAnd => "and"
  | .floorDiv => "floordiv"

/-- The method that stands for a comparison, and the one by which the other
operand answers. -/
def CmpOp.methods : CmpOp → String × String
  | .eq => ("__eq__", "__eq__")
  | .notEq => ("__ne__", "__ne__")
  | .lt => ("__lt__", "__gt__")
  | .ltE => ("__le__", "__ge__")
  | .gt => ("__gt__", "__lt__")
  | .gtE => ("__ge__", "__le__")
  | _ => ("__contains__", "")

def CmpOp.accepts (op : CmpOp) (o : Ordering) : Bool :=
  match op with
  | .lt => o == .lt
  | .ltE => o != .gt
  | .gt => o == .gt
  | .gtE => o != .lt
  | .eq => o == .eq
  | _ => o != .eq

namespace Machine

variable (m : Machine)

/-! ## Truth -/

def plainTruth? (d : Datum) : Run (Option Bool) := do
  match d, ← object? d with
  | .nothing, _ => pure (some false)
  | .bool b, _ => pure (some b)
  | .int n, _ => pure (some (n != 0))
  | .double v, _ => pure (some !v.isZero)
  | .text s, _ => pure (some !s.isEmpty)
  | .tuple members, _ => pure (some !members.isEmpty)
  | _, some (.items _ members) => pure (some !members.isEmpty)
  | _, some (.entries members) => pure (some !members.isEmpty)
  | d, _ => pure (if d.isForeign then none else some true)

def truth? (d : Datum) : Run (Option Bool) := do
  match ← m.callMethod? d "__bool__" [] with
  | some value => plainTruth? value
  | none =>
    match ← m.callMethod? d "__len__" [] with
    | some value => plainTruth? value
    | none => plainTruth? d

/-- Whether something counts as true; what is not known does. -/
def holds (d : Datum) : Run Bool := do
  pure ((← m.truth? d).getD true)

/-! ## Equality and order -/

/-- What one of two operands answers, by the method of the left one or by that of
the right one. -/
def answered? (left right : String) (a b : Datum) : Run (Option Datum) := do
  let known (d : Option Datum) : Option Datum :=
    d.filter fun d => !d.same (.standard "NotImplemented")
  match known (← m.callMethod? a left [b]) with
  | some value => pure (some value)
  | none => do pure (known (← m.callMethod? b right [a]))

/-- Whether two data are equal; `depth` bounds how far their members are
followed. -/
def equalAt : (depth : Nat) → Datum → Datum → Run Bool
  | 0, a, b => pure (a.same b)
  | depth + 1, a, b => do
    let all (as bs : List Datum) : Run Bool := do
      if as.length = bs.length then (as.zip bs).allM fun (x, y) => equalAt depth x y
      else pure false
    match ← m.answered? "__eq__" "__eq__" a b with
    | some value => m.holds value
    | none =>
      match a, b, ← object? a, ← object? b with
      | .tuple as, .tuple bs, _, _ => all as bs
      | _, _, some (.items false as), some (.items false bs) => all as bs
      | _, _, some (.items true as), some (.items true bs) =>
        pure (as.length = bs.length && as.all fun x => bs.any x.same)
      | _, _, some (.entries as), some (.entries bs) =>
        if as.length = bs.length then
          as.allM fun (k, v) =>
            match entryAt? bs k with
            | some w => equalAt depth v w
            | none => pure false
        else pure false
      | _, _, some (.method d f), some (.method e g) => pure (d.same e && f.same g)
      | a, b, _, _ => pure (a.same b)

def mostNested : Nat := 50

def equal (a b : Datum) : Run Bool := m.equalAt mostNested a b

def isAmong (members : List Datum) (d : Datum) : Run Bool := members.anyM fun x => m.equal x d

/-- The members of a set, each once. -/
def distinct (members : List Datum) : List Datum :=
  (members.foldl (fun found d => if found.any d.same then found else d :: found) []).reverse

/-- The order of two data, where it is known; `depth` bounds how far their members
are followed. -/
def orderAt? : (depth : Nat) → Datum → Datum → Run (Option Ordering)
  | 0, _, _ => pure none
  | depth + 1, a, b => do
    let rec lists : List Datum → List Datum → Run (Option Ordering)
      | [], [] => pure (some .eq)
      | [], _ :: _ => pure (some .lt)
      | _ :: _, [] => pure (some .gt)
      | x :: xs, y :: ys => do
        if ← m.equal x y then lists xs ys else orderAt? depth x y
    match a, b, ← object? a, ← object? b with
    | .text x, .text y, _, _ => pure (some (if x < y then .lt else if x = y then .eq else .gt))
    | .tuple xs, .tuple ys, _, _ => lists xs ys
    | _, _, some (.items false xs), some (.items false ys) => lists xs ys
    | a, b, _, _ =>
      match a.number?, b.number? with
      | some x, some y => pure (x.compare? y)
      | _, _ =>
        if (← m.callMethod? a "__lt__" [b]).isSome then
          let before ← m.holds ((← m.callMethod? a "__lt__" [b]).getD .unknown)
          pure (some (if before then .lt else .gt))
        else if a.isForeign || b.isForeign then pure none
        else raise "TypeError"

def order? (a b : Datum) : Run (Option Ordering) := m.orderAt? mostNested a b

/-- Puts a datum with its key among others, after those that do not come after
it. -/
def insertKeyed (before : Ordering) (x : Datum × Datum) :
    List (Datum × Datum) → Run (List (Datum × Datum))
  | [] => pure [x]
  | y :: ys => do
    if (← m.order? x.1 y.1) = some before then pure (x :: y :: ys)
    else do pure (y :: (← insertKeyed before x ys))

/-- Data in the order of what a function makes of them. Those that it makes equal
keep their order, also where it is reversed. -/
def sorted (members : List Datum) (named : List (String × Datum)) : Run (List Datum) := do
  let isReversed ← m.holds ((named.lookup "reverse").getD (.bool false))
  let keyed ← members.mapM fun d => do
    match named.lookup "key" with
    | none | some .nothing => pure (d, d)
    | some f => do pure (← m.call f [d] [], d)
  let before := if isReversed then Ordering.gt else .lt
  let found ← keyed.foldlM (fun found x => m.insertKeyed before x found) []
  pure (found.map Prod.snd)

/-! ## Iterators -/

def charTexts (s : String) : List Datum := s.toList.map fun c => .text c.toString

def plainMembers? (d : Datum) : Run (Option (List Datum)) := do
  match d, ← object? d with
  | .text s, _ => pure (some (charTexts s))
  | .tuple members, _ => pure (some members)
  | _, some (.items _ members) => pure (some members)
  | _, some (.entries members) => pure (some (members.map Prod.fst))
  | d, _ => do pure (if d.isForeign || (← isForeignRecord d) then some [] else none)

def iteratorOf (d : Datum) : Run Datum := do
  match ← m.callMethod? d "__iter__" [], ← object? d with
  | some it, _ => pure it
  | none, some (.iterator _) => pure d
  | none, some (.items false _) => make (.iterator (.places d 0))
  | none, _ =>
    match ← plainMembers? d with
    | some members => makeIterator members
    | none => raise "TypeError"

/-- Takes up a generator. One that fails is ended. -/
def resume (address : Nat) (scope : Scope) (work : List Work) (signal : Signal) :
    Run Advance := do
  let handled := (← get).handled
  replace address (.iterator .running)
  let result ← observe (m.run scope work signal)
  modify fun s => { s with handled }
  match result with
  | .ok (.yielded value work) =>
    replace address (.iterator (.function scope work))
    pure (.more value)
  | .ok (.ended value) =>
    replace address (.iterator .finished)
    pure (.done value)
  | .error what =>
    replace address (.iterator .finished)
    throw (.raised what)

def nextSupplied (address : Nat) (supply : Supply) (signal : Signal) : Run Advance := do
  let ending : Run Advance := do
    replace address (.iterator .finished)
    pure (.done .nothing)
  match supply with
  | .members [] => ending
  | .members (d :: rest) =>
    replace address (.iterator (.members rest))
    pure (.more d)
  | .places source place =>
    match ((← plainMembers? source).getD [])[place]? with
    | some d =>
      replace address (.iterator (.places source (place + 1)))
      pure (.more d)
    | none => ending
  | .function scope work => m.resume address scope work signal
  | .running => raise "ValueError"
  | .finished =>
    match signal with
    | .raised what => throw (.raised what)
    | _ => pure (.done .nothing)

def nextMember (d : Datum) (signal : Signal) : Run Advance := do
  step
  match d, ← object? d with
  | .object address, some (.iterator supply) => m.nextSupplied address supply signal
  | .unknown, _ => pure (.done .nothing)
  | d, _ =>
    let ask : Run Advance := do
      match ← m.callMethod? d "__next__" [] with
      | some value => pure (.more value)
      | none => raise "TypeError"
    orElseFor ask "StopIteration" fun what => do
      pure (.done ((← m.attribute? what "value").getD .nothing))

/-- The members that an iterator has left; `fuel` bounds their number. -/
def drain (it : Datum) : (fuel : Nat) → List Datum → Run (List Datum)
  | 0, _ => throw .exhausted
  | fuel + 1, found => do
    match ← m.next it (.go .nothing) with
    | .more d => drain it fuel (d :: found)
    | .done _ => pure found.reverse

def members (d : Datum) : Run (List Datum) := do
  m.drain (← m.iteratorOf d) ((← get).steps + 1) []

/-! ## Operators -/

def mostRepeated : Nat := 1000000

def repeated {α : Type} (xs : List α) (n : Int) : List α :=
  if mostRepeated < xs.length * n.toNat then [] else (List.replicate n.toNat xs).flatten

def mostExponent : Int := 10000

def numberOperator (op : BinOp) (a b : Number) : Run Datum := do
  let result : Option (Result Number) := match op, a, b with
    | .add, a, b => some (a.add b)
    | .sub, a, b => some (a.sub b)
    | .mult, a, b => some (a.mul b)
    | .div, a, b => some ((a.div b).map Number.double)
    | .mod, a, b => some (a.mod b)
    | .floorDiv, .int a, .int b =>
      some (if b = 0 then .error .zeroDivisor else .ok (.int (Int.fdiv a b)))
    | .pow, .int a, .int b =>
      if mostExponent < b then none else some (Number.pow (.int a) (.int b))
    | .pow, a, b => some (a.pow b)
    | _, _, _ => none
  match result with
  | some (.ok n) => pure (.ofNumber n)
  | some (.error .zeroDivisor) => raise "ZeroDivisionError"
  | some (.error _) => raise "OverflowError"
  | none => pure .unknown

def setOperator? (op : BinOp) (xs ys : List Datum) : Option (List Datum) :=
  let without (xs ys : List Datum) : List Datum := xs.filter fun x => !ys.any x.same
  match op with
  | .bitOr => some (xs ++ without ys xs)
  | .bitAnd => some (xs.filter fun x => ys.any x.same)
  | .sub => some (without xs ys)
  | .bitXor => some (without xs ys ++ without ys xs)
  | _ => none

def plainOperator (op : BinOp) (a b : Datum) : Run Datum := do
  match op, a, b with
  | .add, .text x, .text y => pure (.text (x ++ y))
  | .mult, .text x, .int n | .mult, .int n, .text x =>
    pure (.text (String.ofList (repeated x.toList n)))
  | .add, .tuple x, .tuple y => pure (.tuple (x ++ y))
  | .mult, .tuple x, .int n | .mult, .int n, .tuple x => pure (.tuple (repeated x n))
  | op, a, b =>
    match a.number?, b.number?, ← object? a, ← object? b with
    | some x, some y, _, _ => numberOperator op x y
    | _, some (.int n), some (.items false xs), _ | some (.int n), _, _, some (.items false xs) =>
      if op = .mult then makeList (repeated xs n) else raise "TypeError"
    | _, _, some (.items false xs), some (.items false ys) =>
      if op = .add then makeList (xs ++ ys) else raise "TypeError"
    | _, _, some (.entries xs), some (.entries ys) =>
      if op = .bitOr then makeEntries (withEntries xs ys) else raise "TypeError"
    | _, _, some (.items true xs), some (.items true ys) =>
      match setOperator? op xs ys with
      | some found => make (.items true found)
      | none => raise "TypeError"
    | _, _, _, _ =>
      -- what a text with placeholders gives is not followed, nor what classes give
      match a, ← isForeignRecord a, ← isForeignRecord b, ← isClassDatum a with
      | .text _, _, _, _ => if op = .mod then pure .unknown else raise "TypeError"
      | _, true, _, _ | _, _, true, _ | _, _, _, true => pure .unknown
      | _, _, _, _ => raise "TypeError"

def operator (op : BinOp) (a b : Datum) : Run Datum := do
  match ← m.answered? ("__" ++ op.methodName ++ "__") ("__r" ++ op.methodName ++ "__") a b with
  | some d => pure d
  | none => plainOperator op a b

/-- What an operator gives in an assignment; a list, a set and a dictionary are
changed in place. -/
def operatorInPlace (op : BinOp) (a b : Datum) : Run Datum := do
  match ← m.callMethod? a ("__i" ++ op.methodName ++ "__") [b] with
  | some d => pure d
  | none =>
    match op, a, ← object? a with
    | .add, .object address, some (.items false xs) =>
      replace address (.items false (xs ++ (← m.members b)))
      pure a
    | op, .object address, some (.items true _) | op, .object address, some (.entries _) =>
      match ← object? (← m.operator op a b) with
      | some result =>
        replace address result
        pure a
      | none => pure .unknown
    | op, a, _ => m.operator op a b

def signed (op : UnaryOp) (d : Datum) : Run Datum := do
  match op, d, d.int? with
  | .not, d, _ => do pure (.ofBool? ((← m.truth? d).map (!·)))
  | .minus, _, some n => pure (.int (-n))
  | .plus, _, some n => pure (.int n)
  | .invert, _, some n => pure (.int (-n - 1))
  | .minus, .double v, _ => pure (.double v.neg)
  | .plus, .double v, _ => pure (.double v)
  | op, d, _ =>
    let name := match op with
      | .minus => "__neg__"
      | .plus => "__pos__"
      | _ => "__invert__"
    pure ((← m.callMethod? d name []).getD .unknown)

def contains? (container d : Datum) : Run (Option Bool) := do
  match ← m.callMethod? container "__contains__" [d] with
  | some value => m.truth? value
  | none =>
    match container, d, ← object? container with
    | .text whole, .text part, _ => pure (some (Value.occursIn part.toList whole.toList))
    | _, d, some (.entries members) => pure (some (entryAt? members d).isSome)
    | container, d, _ =>
      if container.isForeign then pure none
      else do pure (some (← m.isAmong (← m.members container) d))

def compare (op : CmpOp) (a b : Datum) : Run Datum := do
  if a.isUnknown || b.isUnknown then pure .unknown
  else
    let answer ← m.answered? op.methods.1 op.methods.2 a b
    match op, answer with
    | .is, _ => pure (.bool (a.same b))
    | .isNot, _ => pure (.bool !(a.same b))
    | .in, _ => do pure (.ofBool? (← m.contains? b a))
    | .notIn, _ => do pure (.ofBool? ((← m.contains? b a).map (!·)))
    | _, some value => pure value
    | .eq, none => do pure (.bool (← m.equal a b))
    | .notEq, none => do pure (.bool !(← m.equal a b))
    | op, none => do pure (.ofBool? ((← m.order? a b).map op.accepts))

/-! ## Elements -/

def placeOf (length : Nat) (n : Int) : Option Nat :=
  let place := if n < 0 then n + length else n
  if 0 ≤ place && place < length then some place.toNat else none

/-- The members between two places, counted from the end where they are
negative. -/
def between {α : Type} (members : List α) (lower upper : Option Int) : List α :=
  let place (n : Int) : Nat := (if n < 0 then n + members.length else n).toNat
  let stop := ((upper.map place).getD members.length)
  (members.take stop).drop ((lower.map place).getD 0)

/-- One of several members, by its place. -/
def elementAmong (members : List Datum) (key : Datum) : Run Datum := do
  match key.int? with
  | some n =>
    match (placeOf members.length n).bind fun place => members[place]? with
    | some d => pure d
    | none => raise "IndexError"
  | none => if key.isUnknown then pure .unknown else raise "TypeError"

def element (d key : Datum) : Run Datum := do
  match ← m.callMethod? d "__getitem__" [key] with
  | some value => pure value
  | none =>
    match d, ← object? d with
    | .text s, _ => elementAmong (charTexts s) key
    | .tuple members, _ => elementAmong members key
    | _, some (.items false members) => elementAmong members key
    | _, some (.entries members) =>
      match entryAt? members key with
      | some value => pure value
      | none => if key.isUnknown then pure .unknown else raiseWith "KeyError" [key]
    | d, _ =>
      if (← isClassDatum d) || (← isForeignRecord d) then pure d else raise "TypeError"

/-- The part of something between two places. -/
def part (d : Datum) (lower upper : Option Int) : Run Datum := do
  match d, ← object? d with
  | .text s, _ => pure (.text (String.ofList (between s.toList lower upper)))
  | .tuple members, _ => pure (.tuple (between members lower upper))
  | _, some (.items false members) => makeList (between members lower upper)
  | _, _ => pure .unknown

def giveElement (d key value : Datum) : Run Unit := do
  match ← m.callMethod? d "__setitem__" [key, value] with
  | some _ => pure ()
  | none =>
    match d, ← object? d, key.int? with
    | .object address, some (.entries _), _ => changeEntries address (withEntry key value)
    | .object address, some (.items false members), some n =>
      match placeOf members.length n with
      | some place => replace address (.items false (members.set place value))
      | none => raise "IndexError"
    | d, _, _ => if ← isForeignRecord d then pure () else raise "TypeError"

def dropElement (d key : Datum) : Run Unit := do
  match ← m.callMethod? d "__delitem__" [key] with
  | some _ => pure ()
  | none =>
    match d, ← object? d, key.int? with
    | .object address, some (.entries members), _ =>
      if (entryAt? members key).isSome then changeEntries address (withoutEntry key)
      else raiseWith "KeyError" [key]
    | .object address, some (.items false members), some n =>
      match placeOf members.length n with
      | some place => replace address (.items false (members.eraseIdx place))
      | none => raise "IndexError"
    | _, _, _ => pure ()

end Machine

end JexlScript.Routine
