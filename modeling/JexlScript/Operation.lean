import JexlScript.Number.Arithmetic
import JexlScript.Placeholder

/-!
# What the stock operators do

The operators of plain Jexl on values. Integers are exact and of any size;
where an integer meets a double, and in every quotient, the result is a double.
-/

namespace JexlScript

-- powers are those of the core library
attribute [local instance(2000)] instPowNat

inductive OperationError where
  | overflow
  | zeroDivisor
  | notANumber
  | type
deriving DecidableEq, Repr

/-- What an operation gives: a value or why there is none. -/
abbrev Result (α : Type) := Except OperationError α

inductive Operation where
  | add
  | sub
  | mul
  | div
  | floorDiv
  | mod
  | pow
  | eq
  | ne
  | gt
  | ge
  | lt
  | le
  | and
  | or
  | contains
  | not
deriving DecidableEq, Repr

def Operation.ofSymbol? (symbol : String) : Option Operation :=
  [("+", Operation.add), ("-", .sub), ("*", .mul), ("/", .div), ("//", .floorDiv), ("%", .mod),
    ("^", .pow), ("==", .eq), ("!=", .ne), (">", .gt), (">=", .ge), ("<", .lt), ("<=", .le),
    ("&&", .and), ("||", .or), ("in", .contains), ("!", .not)].lookup symbol

/-! ## Numbers -/

namespace Number

def toDouble : Number → Result Double
  | .int n =>
    match Double.ofInt? n with
    | some d => .ok d
    | none => .error .overflow
  | .double d => .ok d

def asDoubles (a b : Number) (f : Double → Double → Result Double) : Result Number := do
  let x ← a.toDouble
  let y ← b.toDouble
  let z ← f x y
  .ok (.double z)

def add : Number → Number → Result Number
  | .int a, .int b => .ok (.int (a + b))
  | a, b => asDoubles a b fun x y => .ok (x.add y)

def sub : Number → Number → Result Number
  | .int a, .int b => .ok (.int (a - b))
  | a, b => asDoubles a b fun x y => .ok (x.sub y)

def mul : Number → Number → Result Number
  | .int a, .int b => .ok (.int (a * b))
  | a, b => asDoubles a b fun x y => .ok (x.mul y)

/-- The quotient, rounded once also where both numbers are integers. -/
def div : Number → Number → Result Double
  | .int a, .int b =>
    if b = 0 then .error .zeroDivisor
    else
      let d := Double.ofRatio (decide (a < 0) != decide (b < 0)) a.natAbs b.natAbs
      if d.isInfinite then .error .overflow else .ok d
  | a, b => do
    let x ← a.toDouble
    let y ← b.toDouble
    if y.isZero then .error .zeroDivisor else .ok (x.div y)

def floorDiv (a b : Number) : Result Int := do
  let d ← a.div b
  match d.floor? with
  | some n => .ok n
  | none => .error (if d.isNaN then .notANumber else .overflow)

def mod : Number → Number → Result Number
  | .int a, .int b => if b = 0 then .error .zeroDivisor else .ok (.int (a.fmod b))
  | a, b => asDoubles a b fun x y => if y.isZero then .error .zeroDivisor else .ok (x.mod y)

/-- The power of doubles. A power beyond the finite doubles is an overflow, and
a root of a negative number is no double. -/
def powDouble (a b : Double) : Result Double :=
  if b.isZero then .ok .one
  else if a.isNaN then .ok .nan
  else if b.isNaN then .ok (if a.equal .one then .one else .nan)
  else if b.isInfinite then
    if a.abs.equal .one then .ok .one
    else if !b.signBit == Double.less .one a.abs then .ok (.infinity false)
    else .ok .zero
  else if a.isInfinite then
    if b.signBit then .ok (if b.isOdd then Double.ofMagnitude a.signBit 0 else .zero)
    else .ok (if b.isOdd then a else .infinity false)
  else if a.isZero then
    if b.signBit then .error .zeroDivisor else .ok (if b.isOdd then a else .zero)
  else if a.signBit && !b.isWhole then .error .type
  else
    let negative := a.signBit && b.isOdd
    let magnitude := if a.abs.equal .one then .one else Double.rawPower a.abs b
    if magnitude.isInfinite then .error .overflow
    else .ok (if negative then magnitude.neg else magnitude)

def pow : Number → Number → Result Number
  | .int a, .int b =>
    if 0 ≤ b then .ok (.int (a ^ b.toNat)) else asDoubles (.int a) (.int b) powDouble
  | a, b => asDoubles a b powDouble

/-- How two numbers compare, by their exact values; not-a-number compares with
nothing. -/
def compare? : Number → Number → Option Ordering
  | .int a, .int b => some (compare a b)
  | .int a, .double b => if b.isNaN then none else some (Double.compareInt a b)
  | .double a, .int b => if a.isNaN then none else some (Double.compareInt b a).swap
  | .double a, .double b => if a.isNaN || b.isNaN then none else some (compare a.rank b.rank)

end Number

/-! ## Values -/

namespace Value

mutual

/-- Whether two values are equal: numbers by value, texts and lists part by
part. -/
def equal : Value → Value → Bool
  | .list as, .list bs => equalAll as bs
  | .scalar .null, .scalar .null => true
  | .scalar (.text a), .scalar (.text b) => a = b
  | .scalar a, .scalar b =>
    match (Value.scalar a).number?, (Value.scalar b).number? with
    | some x, some y => x.compare? y == some .eq
    | _, _ => false
  | _, _ => false

def equalAll : List Value → List Value → Bool
  | [], [] => true
  | a :: as, b :: bs => a.equal b && equalAll as bs
  | _, _ => false

end

def holds (accepts : Ordering → Bool) : Option Ordering → Bool
  | some o => accepts o
  | none => false

mutual

/-- Whether two values are in the given order: numbers by value, texts by code
point, lists by their first members that differ and else by length. -/
def ordered (accepts : Ordering → Bool) : Value → Value → Result Bool
  | .list as, .list bs => orderedAll accepts as bs
  | .scalar (.text a), .scalar (.text b) =>
    .ok (accepts (if a < b then .lt else if a = b then .eq else .gt))
  | .scalar a, .scalar b =>
    match (Value.scalar a).number?, (Value.scalar b).number? with
    | some x, some y => .ok (holds accepts (x.compare? y))
    | _, _ => .error .type
  | _, _ => .error .type

def orderedAll (accepts : Ordering → Bool) : List Value → List Value → Result Bool
  | [], [] => .ok (accepts .eq)
  | [], _ :: _ => .ok (accepts .lt)
  | _ :: _, [] => .ok (accepts .gt)
  | a :: as, b :: bs => if a.equal b then orderedAll accepts as bs else a.ordered accepts b

end

def numeric (f : Number → Number → Result Number) (a b : Value) : Result Value :=
  match a.number?, b.number? with
  | some x, some y => (f x y).map Number.value
  | _, _ => .error .type

/-- The sum of numbers, or two texts or lists one after the other. -/
def add : Value → Value → Result Value
  | .scalar (.text a), .scalar (.text b) => .ok (.scalar (.text (a ++ b)))
  | .list as, .list bs => .ok (.list (as ++ bs))
  | a, b => numeric Number.add a b

def times (n : Int) : Value → Result Value
  | .scalar (.text s) =>
    .ok (.scalar (.text (String.ofList (List.replicate n.toNat s.toList).flatten)))
  | .list items => .ok (.list (List.replicate n.toNat items).flatten)
  | _ => .error .type

/-- The product of numbers, or a text or list repeated. -/
def mul (a b : Value) : Result Value :=
  match a.number?, b.number? with
  | some x, some y => (x.mul y).map Number.value
  | some (.int n), none => b.times n
  | none, some (.int n) => a.times n
  | _, _ => .error .type

def fillResult (filled : Except FillError String) : Result Value :=
  match filled with
  | .ok s => .ok (.scalar (.text s))
  | .error .malformed | .error .notANumber => .error .notANumber
  | .error .overflow => .error .overflow
  | .error .type => .error .type

def isList : Value → Bool
  | .list _ => true
  | _ => false

/-- The remainder of numbers, or a text with a value filled in. A list need not be
used. -/
def mod : Value → Value → Result Value
  | .scalar (.text s), b => fillResult (fill b.isList s [b])
  | a, b => numeric Number.mod a b

def occursIn (part : List Char) : List Char → Bool
  | [] => part.isEmpty
  | c :: cs => part.isPrefixOf (c :: cs) || occursIn part cs

/-- Whether a value is a member of a list, or a text occurs in another. -/
def isIn (a : Value) : Value → Result Bool
  | .list items => .ok (items.any fun item => item.equal a)
  | .scalar (.text s) =>
    match a with
    | .scalar (.text part) => .ok (occursIn part.toList s.toList)
    | _ => .error .type
  | _ => .error .type

end Value

def Operation.binary (op : Operation) (a b : Value) : Result Value :=
  match op with
  | .add => a.add b
  | .sub => Value.numeric Number.sub a b
  | .mul => a.mul b
  | .div => Value.numeric (fun x y => (x.div y).map Number.double) a b
  | .floorDiv => Value.numeric (fun x y => (x.floorDiv y).map Number.int) a b
  | .mod => a.mod b
  | .pow => Value.numeric Number.pow a b
  | .eq => .ok (.ofBool (a.equal b))
  | .ne => .ok (.ofBool !(a.equal b))
  | .gt => (a.ordered (· == .gt) b).map .ofBool
  | .ge => (a.ordered (· != .lt) b).map .ofBool
  | .lt => (a.ordered (· == .lt) b).map .ofBool
  | .le => (a.ordered (· != .gt) b).map .ofBool
  | .and => .ok (if a.truthy then b else a)
  | .or => .ok (if a.truthy then a else b)
  | .contains => (a.isIn b).map .ofBool
  | .not => .error .type

def Operation.apply (op : Operation) : List Value → Result Value
  | [a] => if op = .not then .ok (.ofBool !a.truthy) else .error .type
  | [a, b] => op.binary a b
  | _ => .error .type

end JexlScript
