import JexlScript.Proofs.Scoping.References

/-!
# Mentions of a routine

A mention is a place of a routine that the script may have a reference for: where a name is
read, called or asked for an attribute, and the two forms that bring in a global by
themselves, `//` and a set. `Expr.mentions` lists the mentions of an expression, each with
the names that the lambda expressions and loops around it bind.

`Mention.rendering` says what becomes of a mention where some names are bound: a name that
is bound, or that no table has for such a use, stays what it is, and all others are
replaced by what the tables of builtins, constructors and modules have for them.

One mention may get lost. A quantifier takes `items[map](g)` for a mapping and leaves out
the name `map`, so the mentions of an expression depend on its `Position`, and this one
has a site of its own.
-/

namespace JexlScript.Routine

open List

open Script (Manner Reference)

/-! ## Sites -/

/-- A form that a reference may stand for. -/
inductive Site where
  | value (name : String)
  /-- A name that is called, and whether a number of digits is given. -/
  | callee (name : String) (digits : Bool)
  /-- `owner.attr` -/
  | field (owner attr : String)
  /-- `owner.attr(args)` -/
  | method (owner attr : String)
  /-- `map`, as the index in `f(items[map](g))` where `f` is a quantifier. -/
  | mapIndex (f : String)
  /-- `a // b` -/
  | floorDivision
  /-- `{a, b}` -/
  | setDisplay
deriving DecidableEq, Repr

/-- The name that is mentioned. -/
def Site.name? : Site → Option String
  | .value x | .callee x _ | .field x _ | .method x _ => some x
  | .mapIndex _ => some "map"
  | .floorDivision | .setDisplay => none

/-- The global that the script of a builtin refers to. -/
def Builtin.global? (digits : Bool) : Builtin → Option String
  | .print => some "console"
  | .min | .max | .abs | .math _ => some "Math"
  | .round => some (if digits then "Number" else "Math")
  | .str => some "String"
  | .int => some "parseInt"
  | .float => some "parseFloat"
  | .bool => some "Boolean"
  | .list => some "Array"
  | .jsonLoads | .jsonDumps => some "JSON"
  | .len | .pow | .any | .all | .sum => none

/-- The name that a chain of members starts with. -/
def root? : Script.Expr → Option String
  | .ident n => some n
  | .member obj _ _ _ => root? obj
  | _ => none

/-- What becomes of a site. -/
inductive Rendering where
  /-- A reference to the name itself. -/
  | itself
  /-- A form of the script without a name of its own. -/
  | nameless
  | global (manner : Manner) (name : String)
deriving DecidableEq, Repr

/-- A script with or without a global. -/
def Rendering.ofGlobal? : Option String → Rendering
  | none => .nameless
  | some g => .global .value g

theorem Rendering.ofGlobal?_ne_itself (global : Option String) :
    Rendering.ofGlobal? global ≠ .itself := by
  cases global <;> nofun

/-- What the tables have for a site, if its name is not bound. -/
def Site.rendering : Site → Rendering
  | .value _ | .mapIndex _ => .itself
  | .callee f digits =>
    match builtins.get? f with
    | some b => .ofGlobal? (b.global? digits)
    | none => if constructors.contains f then .global .constructor f else .itself
  | .field owner attr =>
    if isModule owner then .ofGlobal? ((moduleConstant? owner attr).bind root?) else .itself
  | .method owner attr =>
    if isModule owner then .ofGlobal? ((moduleFunction? owner attr).bind (·.global? false))
    else .itself
  | .floorDivision => .global .value "Math"
  | .setDisplay => .global .constructor "Set"

/-! ## Mentions -/

/-- A site with the names that are bound around it, from the inside out. -/
structure Mention where
  site : Site
  scope : List String
deriving DecidableEq, Repr

namespace Mention

/-- Adds binders around a mention. -/
def within (names : List String) (m : Mention) : Mention := { m with scope := m.scope ++ names }

/-- Whether the name of a mention is bound. -/
def isBound (bound : List String) (m : Mention) : Bool :=
  m.site.name?.any fun x => (m.scope ++ bound).contains x

/-- What becomes of a mention where some names are bound. -/
def rendering (bound : List String) (m : Mention) : Rendering :=
  if m.isBound bound then .itself else m.site.rendering

/-- The reference that a mention is turned into. -/
def reference? (bound : List String) (m : Mention) : Option Reference :=
  match m.rendering bound with
  | .itself => m.site.name?.map fun x => ⟨.value, x, m.scope⟩
  | .nameless => none
  | .global manner g => some ⟨manner, g, m.scope⟩

/-- Whether a mention is left out: the index of a mapping that a quantifier takes over. -/
def Lost (bound : List String) (m : Mention) : Prop :=
  ∃ f, m.site = .mapIndex f ∧ f ∉ m.scope ++ bound

end Mention

/-! ## Positions -/

/-- Whether a builtin is a quantifier. -/
def isQuantifier (f : String) : Bool :=
  builtins.get? f == some .any || builtins.get? f == some .all

/-- Where an expression stands in the argument of a quantifier `f`. -/
inductive Position where
  | plain
  /-- `f(_)` -/
  | argument (f : String)
  /-- `f(_(g))` -/
  | callee (f : String)
  /-- `f(items[_](g))` -/
  | index (f : String)

namespace Position

/-- The position of the arguments of a function. -/
def ofArgument (f : String) : Position := if isQuantifier f then .argument f else .plain

/-- The position of members that only one of stands for the whole. -/
def alone {α : Type} : Position → List α → Position
  | p, [_] => p
  | _, _ => .plain

/-- The position of the callee of a call. -/
def toCallee : Position → Position
  | .argument f => .callee f
  | _ => .plain

/-- The position of the index of an access. -/
def toIndex : Position → Position
  | .callee f => .index f
  | _ => .plain

/-- The site of a name that is read in some position. -/
def site : Position → String → Site
  | .index f, x => if x = "map" then .mapIndex f else .value x
  | _, x => .value x

end Position

/-! ## Mentions of an expression -/

/-- Whether a second argument is given to `round`. -/
def givesDigits (args : List Expr) (keywords : List (Option String × Expr)) : Bool :=
  1 < args.length || keywords.any fun (name, _) => name == some "ndigits"

mutual

/-- The mentions of an expression in some position. -/
def Expr.mentions : Expr → Position → List Mention
  | .name x, p => [⟨p.site x, []⟩]
  | .list es, _ | .tuple es, _ => exprsMentions es .plain
  | .bool _ es, p => exprsMentions es (p.alone es)
  | .set es, _ => ⟨.setDisplay, []⟩ :: exprsMentions es .plain
  | .dict entries, _ => entriesMentions entries
  | .binary l op r, _ =>
    (if op = .floorDiv then [⟨.floorDivision, []⟩] else []) ++
      (l.mentions .plain ++ r.mentions .plain)
  | .unary _ e, _ => e.mentions .plain
  | .compare _ [], _ => []
  | .compare l (o :: rest), _ => l.mentions .plain ++ operandsMentions (o :: rest)
  | .ifExp test yes no, _ => test.mentions .plain ++ yes.mentions .plain ++ no.mentions .plain
  | .call (.name f) args keywords, _ =>
    ⟨.callee f (givesDigits args keywords), []⟩ ::
      (exprsMentions args (.ofArgument f) ++ keywordsMentions keywords (.ofArgument f))
  | .call (.attribute (.name owner) attr) args keywords, _ =>
    ⟨.method owner attr, []⟩ :: (exprsMentions args .plain ++ keywordsMentions keywords .plain)
  | .call func args keywords, p =>
    func.mentions (p.alone args).toCallee ++
      (exprsMentions args .plain ++ keywordsMentions keywords .plain)
  | .attribute (.name owner) attr, _ => [⟨.field owner attr, []⟩]
  | .attribute value _, _ => value.mentions .plain
  | .subscript value index, p => value.mentions .plain ++ index.mentions p.toIndex
  | .slice lower upper _, _ => optionMentions lower ++ optionMentions upper
  | .lambda params body _, _ =>
    (body.mentions .plain).map (Mention.within (params.positional ++ params.ordinary))
  | .comprehension _ element generators, p =>
    loopsMentions (element.mentions (if generators.isEmpty then p else .plain)) generators
  | _, _ => []

def exprsMentions : List Expr → Position → List Mention
  | [], _ => []
  | e :: es, p => e.mentions p ++ exprsMentions es p

def optionMentions : Option Expr → List Mention
  | none => []
  | some e => e.mentions .plain

/-- Of the arguments by one name only the last counts. -/
def keywordsMentions : List (Option String × Expr) → Position → List Mention
  | [], _ => []
  | (name, e) :: rest, p =>
    (if rest.any fun p => p.1 == name then [] else e.mentions p) ++ keywordsMentions rest p

def operandsMentions : List (CmpOp × Expr) → List Mention
  | [] => []
  | (_, e) :: rest => e.mentions .plain ++ operandsMentions rest

def entriesMentions : List Entry → List Mention
  | [] => []
  | .pair _ value :: rest => value.mentions .plain ++ entriesMentions rest
  | .spread _ :: rest => entriesMentions rest

/-- A loop binds its target in its conditions and in what follows them. -/
def loopsMentions (inner : List Mention) : List Generator → List Mention
  | [] => inner
  | .mk (.name x) iterable conditions _ :: rest =>
    iterable.mentions .plain ++
      (exprsMentions conditions .plain ++ loopsMentions inner rest).map (Mention.within [x])
  | .mk _ iterable conditions _ :: rest =>
    iterable.mentions .plain ++ (exprsMentions conditions .plain ++ loopsMentions inner rest)

end

theorem mem_exprsMentions {m : Mention} {es : List Expr} {p : Position} :
    m ∈ exprsMentions es p ↔ ∃ e ∈ es, m ∈ e.mentions p := by
  induction es with
  | nil => simp [exprsMentions]
  | cons e es ih => simp [exprsMentions, ih]

theorem mem_keywordsMentions {m : Mention} {keywords : List (Option String × Expr)}
    {p : Position} : m ∈ keywordsMentions keywords p ↔
      ∃ name e, keywords.reverse.lookup name = some e ∧ m ∈ e.mentions p := by
  induction keywords with
  | nil => simp [keywordsMentions]
  | cons entry rest ih =>
    obtain ⟨name, e⟩ := entry
    -- An argument does not count if another follows by the same name.
    have later : (rest.any fun p => p.1 == name) = true ↔ rest.reverse.lookup name ≠ none := by
      rw [Option.ne_none_iff_isSome, lookup_isSome_iff, any_eq_true]
      simp [beq_iff_eq, @eq_comm _ name]
    simp only [keywordsMentions, mem_append, ih, reverse_cons, lookup_append]
    constructor
    · rintro (member | ⟨key, e', found, member⟩)
      · split at member
        · cases member
        · next last =>
            have unnamed := not_not.mp (later.not.mp last)
            exact ⟨name, e, by simp [unnamed], member⟩
      · exact ⟨key, e', by simp [found], member⟩
    · rintro ⟨key, e', found, member⟩
      cases early : rest.reverse.lookup key with
      | some e'' =>
        rw [early, Option.some_or] at found
        cases found
        exact .inr ⟨key, e', early, member⟩
      | none =>
        rw [early, Option.none_or, lookup_cons] at found
        split at found
        · next same =>
            cases found
            cases eq_of_beq same
            have last : ¬ (rest.any fun p => p.1 == name) = true :=
              fun is => later.mp is early
            exact .inl (by rwa [if_neg last])
        · cases found

/-! ## Mentions and their bound names -/

namespace Mention

variable {b : List String} {m : Mention}

theorem isBound_iff {x : String} (named : m.site.name? = some x) :
    m.isBound b = true ↔ x ∈ m.scope ++ b := by
  rw [isBound, named, Option.any_some, contains_iff_mem]

theorem rendering_of_mem {x : String} (named : m.site.name? = some x) (bound : x ∈ m.scope ++ b) :
    m.rendering b = .itself :=
  if_pos ((isBound_iff named).mpr bound)

theorem rendering_of_not_mem {x : String} (named : m.site.name? = some x)
    (unbound : x ∉ m.scope ++ b) : m.rendering b = m.site.rendering :=
  if_neg fun bound => unbound ((isBound_iff named).mp bound)

theorem rendering_within (names b : List String) (m : Mention) :
    (m.within names).rendering b = m.rendering (names ++ b) := by
  simp [rendering, isBound, within]

theorem lost_within (names b : List String) (m : Mention) :
    (m.within names).Lost b ↔ m.Lost (names ++ b) := by
  simp [Lost, within]

theorem reference?_within (names b : List String) (m : Mention) :
    (m.within names).reference? b = (m.reference? (names ++ b)).map (Reference.within names) := by
  rw [reference?, reference?, rendering_within]
  cases m.rendering (names ++ b) with
  | itself => cases is : m.site.name? <;> simp [within, is, Reference.within]
  | nameless => rfl
  | global manner g => rfl

end Mention

end JexlScript.Routine
