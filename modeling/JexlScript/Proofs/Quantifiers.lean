import Mathlib.Tactic.FinCases
import JexlScript.Proofs.Comprehensions

/-!
# Quantifiers over mappings

A quantifier calls `some` or `every` with `(v) => v`. If what it goes through is a call
`items.map(f)`, the mapping is left out, and the method is called with `f` instead.
`quantifier_evaluates` says that this gives the same value, whatever the parts of the script
mean, for both stop at the first item that settles the answer. The mapping is taken from the
look of the call, though, and `items[map](f)` looks the same: there it is the value of the
variable `map` that must name the method.
-/

namespace JexlScript.Quantifier

open List

open Comprehension (Values mapM_cons_eq)
open Routine (Builtin)

variable {V : Type}

/-! ## Methods of lists -/

/-- What a function is called with, item by item: the item, its number and the array. -/
def visits (number : Nat → V) (array : V) (vs : List V) : List (List V) :=
  vs.mapIdx fun i v => [v, number i, array]

/-- Calls a function until a result settles the answer. What comes after is not called. -/
def settle (truthy : V → Bool) (stop : Bool) (f : List V → Option V) : List (List V) → Option Bool
  | [] => some !stop
  | args :: calls => (f args).bind fun v =>
    if truthy v = stop then some stop else settle truthy stop f calls

/-- What is asked of values: some are functions, some are lists with the methods that lists
have, and all may have further methods. -/
structure Methods (V : Type) extends Values V where
  truth : Bool → V
  undefined : V
  isNullish : V → Bool
  number : Nat → V
  /-- The name of the property that a value stands for. -/
  key : V → String
  apply : V → List V → Option V
  /-- Calls the method of a value that has a name. -/
  invoke : V → String → List V → Option V
  /-- The function that returns its argument. -/
  self : V
  items_undefined : items? undefined = none
  apply_self : ∀ v vs, apply self (v :: vs) = some v
  invoke_map : ∀ array f, invoke array "map" [f] =
    (items? array).bind fun vs => ((visits number array vs).mapM (apply f)).map list
  invoke_some : ∀ array f, invoke array "some" [f] =
    (items? array).bind fun vs =>
      (settle truthy true (apply f) (visits number array vs)).map truth
  invoke_every : ∀ array f, invoke array "every" [f] =
    (items? array).bind fun vs =>
      (settle truthy false (apply f) (visits number array vs)).map truth

/-- Calls a method of an object, or nothing if the access is optional and the object is missing. -/
def Methods.call (M : Methods V) (object : Option V) (optional : Bool) (key : Option String)
    (args : Option (List V)) : Option V :=
  object.bind fun v =>
    if optional && M.isNullish v then some M.undefined
    else key.bind fun k => args.bind fun vs => M.invoke v k vs

variable (M : Methods V) (leaf : Script.Expr → Option V)

mutual

/-- Evaluates calls of methods, and the function `(v) => v`. What all other scripts mean is given.
-/
def evaluate : Script.Expr → Option V
  | .call (.member obj (.ident method) false optional) args =>
    M.call (evaluate obj) optional (some method) (evaluateAll args)
  | .call (.member obj prop true optional) args =>
    M.call (evaluate obj) optional ((evaluate prop).map M.key) (evaluateAll args)
  | .arrow [.name x] (.ident y) =>
    if x = y then some M.self else leaf (.arrow [.name x] (.ident y))
  | e => leaf e

def evaluateAll : List Script.Expr → Option (List V)
  | [] => some []
  | e :: es => (evaluate e).bind fun v => (evaluateAll es).map (v :: ·)

end

/-! ## What quantifiers settle -/

section

variable {M leaf}

/-- If all calls succeed, the answer is that over all results. -/
theorem settle_of_mapM {truthy : V → Bool} {stop : Bool} {f : List V → Option V}
    {calls : List (List V)} {ws : List V} (ran : calls.mapM f = some ws) :
    settle truthy stop f calls = some (if ws.any (truthy · == stop) then stop else !stop) := by
  induction calls generalizing ws with
  | nil =>
    obtain rfl : [] = ws := by simpa using ran
    rfl
  | cons args calls ih =>
    rw [mapM_cons_eq] at ran
    obtain ⟨w, first, ran⟩ := Option.bind_eq_some_iff.mp ran
    obtain ⟨ws, rest, rfl⟩ := Option.map_eq_some_iff.mp ran
    rw [settle, first, Option.bind_some, ih rest, any_cons]
    by_cases settled : truthy w = stop
    · simp [settled]
    · simp [settled]

/-- The identity gives the items back. -/
theorem mapM_self (number : Nat → V) (array : V) (vs : List V) :
    (visits number array vs).mapM (M.apply M.self) = some vs := by
  induction vs generalizing number with
  | nil => rfl
  | cons v vs ih =>
    have rest := ih fun i => number (i + 1)
    rw [visits] at rest ⊢
    rw [mapIdx_cons, mapM_cons_eq, M.apply_self, Option.bind_some, rest]
    rfl

/-- Both quantifiers settle, one at the first true result and one at the first false one. -/
theorem invoke_quantifier {name method : String}
    (known : (name, method) ∈ [("any", "some"), ("all", "every")]) :
    ∃ stop, ∀ array f, M.invoke array method [f] = (M.items? array).bind fun vs =>
      (settle M.truthy stop (M.apply f) (visits M.number array vs)).map M.truth := by
  fin_cases known
  · exact ⟨true, M.invoke_some⟩
  · exact ⟨false, M.invoke_every⟩

/-- Quantifying over mapped items is quantifying with the mapping. -/
theorem invoke_mapped {name method : String}
    (known : (name, method) ∈ [("any", "some"), ("all", "every")]) {array mapped f v : V}
    (maps : M.invoke array "map" [f] = some mapped)
    (quantifies : M.invoke mapped method [M.self] = some v) :
    M.invoke array method [f] = some v := by
  obtain ⟨stop, invoke⟩ := invoke_quantifier (M := M) known
  rw [M.invoke_map] at maps
  obtain ⟨vs, items, maps⟩ := Option.bind_eq_some_iff.mp maps
  obtain ⟨ws, ran, rfl⟩ := Option.map_eq_some_iff.mp maps
  rw [invoke, M.items_list, Option.bind_some, settle_of_mapM (mapM_self ..)] at quantifies
  rw [invoke, items, Option.bind_some, settle_of_mapM ran, quantifies]

/-! ## Quantifiers in scripts -/

theorem evaluateAll_singleton {arg : Script.Expr} {vs : List V}
    (is : evaluateAll M leaf [arg] = some vs) : ∃ w, evaluate M leaf arg = some w ∧ vs = [w] := by
  obtain ⟨w, value, is⟩ := Option.bind_eq_some_iff.mp is
  obtain rfl : [w] = vs := by simpa [evaluateAll] using is
  exact ⟨w, value, rfl⟩

/-- A call with a list for its result has not been skipped. -/
theorem Methods.call_eq_some {object : Option V} {optional : Bool} {key : Option String}
    {args : Option (List V)} {w : V} (is : M.call object optional key args = some w)
    (isList : (M.items? w).isSome = true) :
    ∃ v k vs, object = some v ∧ key = some k ∧ args = some vs ∧ M.invoke v k vs = some w := by
  obtain ⟨v, rfl, called⟩ := Option.bind_eq_some_iff.mp is
  split at called
  · cases called
    simp [M.items_undefined] at isList
  · obtain ⟨k, rfl, named⟩ := Option.bind_eq_some_iff.mp called
    obtain ⟨vs, rfl, invoked⟩ := Option.bind_eq_some_iff.mp named
    exact ⟨v, k, vs, rfl, rfl, rfl, invoked⟩

/-- Leaving out a mapping gives the value that the quantifier has with it, if the mapping is one. -/
theorem quantified_evaluates {name method : String}
    (known : (name, method) ∈ [("any", "some"), ("all", "every")]) {e : Script.Expr}
    (named : ∀ obj f optional, e = .call (.member obj (.ident "map") true optional) [f] →
      ∀ w, evaluate M leaf (.ident "map") = some w → M.key w = "map") {v : V}
    (plain : evaluate M leaf (e.invoke method [.arrow [.name "v"] (.ident "v")]) = some v) :
    evaluate M leaf (Builtin.quantified method e) = some v := by
  rw [Builtin.quantified]
  split
  case h_2 => exact plain
  case h_1 items f is =>
      obtain ⟨computed, optional, rfl⟩ := Builtin.eq_of_mapped? is
      obtain ⟨stop, invoke⟩ := invoke_quantifier (M := M) known
      obtain ⟨mapped, value, quantifies⟩ := Option.bind_eq_some_iff.mp plain
      have quantifies : M.invoke mapped method [M.self] = some v := quantifies
      -- A quantifier is a method of arrays only, so the mapping has given one.
      have isList : (M.items? mapped).isSome = true := by
        rw [invoke] at quantifies
        obtain ⟨ws, isList, _⟩ := Option.bind_eq_some_iff.mp quantifies
        rw [isList]
        rfl
      -- The mapping is called by its name, or by a key that is `map`.
      have named : ∃ key, M.call (evaluate M leaf items) optional key (evaluateAll M leaf [f]) =
          some mapped ∧ ∀ k, key = some k → k = "map" := by
        cases computed with
        | false => exact ⟨_, value, fun k is => (Option.some.inj is).symm⟩
        | true =>
          refine ⟨_, value, fun k is => ?_⟩
          obtain ⟨w, value, rfl⟩ := Option.map_eq_some_iff.mp is
          exact named _ _ _ rfl w value
      obtain ⟨key, value, named⟩ := named
      obtain ⟨array, k, _, object, is, args, maps⟩ := M.call_eq_some value isList
      obtain ⟨w, arg, rfl⟩ := evaluateAll_singleton args
      obtain rfl := named k is
      have fused : evaluate M leaf (items.invoke method [f]) =
          M.call (evaluate M leaf items) false (some method) (evaluateAll M leaf [f]) := rfl
      rw [fused, object, evaluateAll, arg]
      exact invoke_mapped known maps quantifies

end

/-- A quantifier that is not hidden is lowered to the call of its method. -/
theorem lower_quantifier {name method : String}
    (known : (name, method) ∈ [("any", "some"), ("all", "every")]) {bound : List String}
    (free : name ∉ bound) {e : Routine.Expr} {script : Script.Expr}
    (lowered : e.lower bound = .ok script) :
    (Routine.Expr.call (.name name) [e] []).lower bound =
      .ok (Builtin.quantified method script) := by
  have single : e.isSpread = false := by
    cases e with
    | starred => rw [Routine.Expr.lower] at lowered; cases lowered
    | _ => rfl
  have unbound : bound.contains name = false := by simpa using free
  rw [Routine.Expr.lower]
  simp only [any_cons, any_nil, single, Bool.or_false, Bool.false_eq_true, if_false,
    unbound, Routine.outcomes, Routine.keywordOutcomes, lowered]
  fin_cases known <;> rfl

/-- A quantifier has the value that it has with the plain function, in every meaning of the
script in which a mapping is one: in `items[map](f)`, the variable `map` has to name it. -/
theorem quantifier_evaluates {name method : String}
    (known : (name, method) ∈ [("any", "some"), ("all", "every")]) {bound : List String}
    (free : name ∉ bound) {e : Routine.Expr} {script : Script.Expr}
    (lowered : e.lower bound = .ok script) :
    ∃ t, (Routine.Expr.call (.name name) [e] []).lower bound = .ok t ∧
      ∀ {V : Type} (M : Methods V) (leaf : Script.Expr → Option V),
        (∀ obj f optional, script = .call (.member obj (.ident "map") true optional) [f] →
          ∀ w, evaluate M leaf (.ident "map") = some w → M.key w = "map") →
        ∀ v, evaluate M leaf (script.invoke method [.arrow [.name "v"] (.ident "v")]) = some v →
          evaluate M leaf t = some v :=
  ⟨_, lower_quantifier known free lowered,
    fun _ _ named _ plain => quantified_evaluates known named plain⟩

/-! ## Values with a few functions -/

/-- Two functions, named by texts: the identity and negation. -/
def function? : Value → List Value → Option Value
  | .scalar (.text "self"), v :: _ => some v
  | .scalar (.text "not"), v :: _ => some (.ofBool !v.truthy)
  | _, _ => none

/-- Goes through an array, if it is one. -/
def each (array : Value) (run : List (List Value) → Option Value) : Option Value :=
  (Comprehension.valueLists.items? array).bind fun vs =>
    run (visits (fun i => .scalar (.int i)) array vs)

/-- The methods of arrays that the examples call. -/
def method? (array : Value) : String → List Value → Option Value
  | "map", [f] => each array fun calls => (calls.mapM (function? f)).map .list
  | "some", [f] => each array fun calls => (settle Value.truthy true (function? f) calls).map .ofBool
  | "every", [f] => each array fun calls =>
    (settle Value.truthy false (function? f) calls).map .ofBool
  | "filter", [f] => (Comprehension.valueLists.items? array).bind fun vs =>
    (Comprehension.keep (fun v => (function? f [v]).map Value.truthy) vs).map .list
  | _, _ => none

/-- JSON values with the methods of arrays. -/
def valueMethods : Methods Value where
  toValues := Comprehension.valueLists
  truth := .ofBool
  undefined := .scalar .null
  isNullish
    | .scalar .null => true
    | _ => false
  number i := .scalar (.int i)
  key
    | .scalar (.text s) => s
    | _ => ""
  apply := function?
  invoke := method?
  self := .scalar (.text "self")
  items_undefined := rfl
  apply_self _ _ := rfl
  invoke_map _ _ := rfl
  invoke_some _ _ := rfl
  invoke_every _ _ := rfl

/-- A list with one item, a function, and a method that `map` names. -/
def scope (method : String) : Script.Expr → Option Value
  | .ident "xs" => some (.list [.ofBool false])
  | .ident "f" => some (.scalar (.text "not"))
  | .ident "map" => some (.scalar (.text method))
  | _ => none

/-- `xs[map](f)` -/
def indexed : Routine.Expr := .call (.subscript (.name "xs") (.name "map")) [.name "f"] []

/-- Where `map` is `"map"`, a quantifier may take `xs[map](f)` for a mapping. -/
theorem quantifier_evaluates_indexed : ∃ script t,
    indexed.lower ["xs", "map", "f"] = .ok script ∧
    (Routine.Expr.call (.name "any") [indexed] []).lower ["xs", "map", "f"] = .ok t ∧
    evaluate valueMethods (scope "map") t = some (.ofBool true) := by
  obtain ⟨script, lowered⟩ : ∃ script, indexed.lower ["xs", "map", "f"] = .ok script := ⟨_, rfl⟩
  have known : ("any", "some") ∈ [("any", "some"), ("all", "every")] := by decide
  obtain ⟨t, quantified, evaluates⟩ := quantifier_evaluates known (by decide) lowered
  refine ⟨script, t, lowered, quantified, evaluates valueMethods (scope "map") ?_ _ ?_⟩
  · intro _ _ _ _ w value
    cases value
    rfl
  · cases lowered
    rfl

/-- Where `map` is `"filter"`, the item that it keeps is false, and the quantifier takes its
negation instead. -/
theorem index_taken_for_mapping : ∃ script t,
    indexed.lower ["xs", "map", "f"] = .ok script ∧
    (Routine.Expr.call (.name "any") [indexed] []).lower ["xs", "map", "f"] = .ok t ∧
    evaluate valueMethods (scope "filter")
      (script.invoke "some" [.arrow [.name "v"] (.ident "v")]) = some (.ofBool false) ∧
    evaluate valueMethods (scope "filter") t = some (.ofBool true) :=
  ⟨_, _, rfl, rfl, rfl, rfl⟩

end JexlScript.Quantifier
