import JexlScript.Proofs.Scanning.Conservative
import JexlScript.Proofs.Scoping.Mentions

/-!
# Arguments of builtin functions

A call of a builtin function refers to what its arguments refer to and to the global that
stands for the function. `Signature.bind_fits` says which arguments arrive: all that are
given by position, and of those given by name the last of each name. `Builtin.call_joins`
says that every argument that arrives is in the script of the call.

One form loses a reference. Where a quantifier goes over `items[map](f)`, it takes this for
a mapping and leaves out the name `map`. `Position.kept` says which references are kept of
an expression.
-/

namespace JexlScript

open List

/-! ## Tables -/

namespace Table

variable {α : Type}

theorem get?_set_self (t : Table α) (name : String) (value : α) :
    (t.set name value).get? name = some value := by
  induction t with
  | nil => simp [Table.set, Table.get?]
  | cons p t ih =>
    obtain ⟨n, v⟩ := p
    rw [Table.set]
    split
    · next same => simp [Table.get?, same]
    · next other => rw [get?_cons_ne v _ other, ih]

/-- Of several values for a name the last is kept. -/
theorem get?_setAll (entries : List (String × α)) (t : Table α) (name : String) :
    (t.setAll entries).get? name = (entries.reverse.lookup name).or (t.get? name) := by
  induction entries generalizing t with
  | nil => simp [Table.setAll]
  | cons p entries ih =>
    obtain ⟨n, v⟩ := p
    have step : t.setAll ((n, v) :: entries) = (t.set n v).setAll entries := rfl
    rw [step, ih, reverse_cons, lookup_append, Option.or_assoc]
    congr 1
    by_cases same : name = n
    · subst same
      simp [get?_set_self]
    · rw [get?_set_ne t v (Ne.symm same), lookup_cons, beq_eq_false_iff_ne.mpr same]
      simp

/-- In a table without doubled names each entry is found. -/
theorem mem_iff_get? {t : Table α} (distinct : (t.map Prod.fst).Nodup) {name : String} {value : α} :
    (name, value) ∈ t ↔ t.get? name = some value := by
  induction t with
  | nil => simp [Table.get?]
  | cons p t ih =>
    obtain ⟨n, v⟩ := p
    rw [map_cons, nodup_cons] at distinct
    by_cases same : n = name
    · subst same
      have fresh : (n, value) ∉ t := fun member => distinct.1 (mem_map.mpr ⟨_, member, rfl⟩)
      simp [Table.get?, fresh, eq_comm]
    · rw [get?_cons_ne v t same, ← ih distinct.2]
      simp [Ne.symm same]

end Table

namespace Routine

open Script (Manner Reference exprsReferences)

/-! ## Parameters -/

section

variable {α : Type}

/-- Arguments by position go to the parameters in turn, and what is left over to the rest. -/
theorem bindPositional_spec (rest : Bool) (keywords : Table α) :
    ∀ (params : List (String × Bool)) (args : List α),
      Gives (fun r => r.1.args.map Prod.fst = (params.take args.length).map Prod.fst ∧
        r.2 = params.drop args.length ∧ r.1.args.map Prod.snd ++ r.1.rest = args ∧
        (r.1.rest ≠ [] → rest = true) ∧
        ∀ p ∈ params.take args.length, keywords.get? p.1 = none)
        (bindPositional rest keywords params args)
  | params, [] => by
    rw [bindPositional]
    exact .ok (by simp)
  | [], arg :: args => by
    rw [bindPositional]
    split
    · next taken => exact .ok (by simp [taken])
    · exact .error _
  | (param, required) :: params, arg :: args => by
    rw [bindPositional]
    split
    · exact .error _
    · next unnamed =>
        refine (bindPositional_spec rest keywords params args).bind ?_
        rintro ⟨bound, left⟩ ⟨names, remaining, values, further, free⟩
        refine .ok ⟨?_, ?_, ?_, further, ?_⟩
        · simpa using names
        · simpa using remaining
        · simpa using values
        · simp only [length_cons, take_succ_cons, forall_mem_cons]
          exact ⟨by simpa using unnamed, free⟩

/-- The other parameters take what is given by their names. -/
theorem bindNamed_spec (keywords : Table α) : ∀ params : List (String × Bool),
    Gives (fun t => t = params.filterMap fun p => (keywords.get? p.1).map fun a => (p.1, a))
      (bindNamed keywords params)
  | [] => .ok rfl
  | (param, required) :: params => by
    rw [bindNamed]
    split
    · next arg found =>
        refine (bindNamed_spec keywords params).bind fun others is => .ok ?_
        simp [found, is]
    · next missing =>
        refine .ite (.error _) fun others given => ?_
        simp [missing, bindNamed_spec keywords params others given]

/-- What fitting the arguments of a call to parameters gives: each argument by position and
the last of each name, at different parameters. -/
structure Fits (sig : Signature) (args : List α) (keywords : List (String × α))
    (bound : Bound α) : Prop where
  names : (bound.args.map Prod.fst).Sublist (sig.params.map Prod.fst ++ sig.named)
  values : ∀ a, a ∈ bound.args.map Prod.snd ++ bound.rest ↔
    a ∈ args ∨ ∃ name, keywords.reverse.lookup name = some a
  given : ∀ name, name ∈ bound.args.map Prod.fst ↔
    name ∈ (sig.params.take args.length).map Prod.fst ∨ (keywords.reverse.lookup name).isSome
  rest : bound.rest ≠ [] → sig.rest = true

theorem map_fst_filterMap (keywords : Table α) (params : List (String × Bool)) :
    ((params.filterMap fun p => (keywords.get? p.1).map fun a => (p.1, a)).map Prod.fst) =
      (params.map Prod.fst).filter fun name => (keywords.get? name).isSome := by
  induction params with
  | nil => rfl
  | cons p params ih =>
    cases found : keywords.get? p.1 with
    | none => simp [found, ih]
    | some a => simp [found, ih]

theorem mem_snd_filterMap (keywords : Table α) (params : List (String × Bool)) {a : α} :
    a ∈ (params.filterMap fun p => (keywords.get? p.1).map fun a => (p.1, a)).map Prod.snd ↔
      ∃ name ∈ params.map Prod.fst, keywords.get? name = some a := by
  constructor
  · intro member
    obtain ⟨_, kept, rfl⟩ := mem_map.mp member
    obtain ⟨p, inside, is⟩ := mem_filterMap.mp kept
    obtain ⟨a, found, rfl⟩ := Option.map_eq_some_iff.mp is
    exact ⟨p.1, mem_map_of_mem inside, found⟩
  · rintro ⟨_, named, found⟩
    obtain ⟨p, inside, rfl⟩ := mem_map.mp named
    exact mem_map.mpr ⟨(p.1, a), mem_filterMap.mpr ⟨p, inside, by simp [found]⟩, rfl⟩

/-- Binding gives each parameter its argument. -/
theorem Signature.bind_fits (sig : Signature) (args : List α) (keywords : List (String × α)) :
    Gives (Fits sig args keywords) (sig.bind args keywords) := by
  have last (name : String) :
      (Table.setAll [] keywords).get? name = keywords.reverse.lookup name := by
    rw [Table.get?_setAll]
    simp [Table.get?]
  rw [Signature.bind]
  refine .ite ((Gives.error _).bind (P := fun _ => False) fun _ h => h.elim)
    ((bindPositional_spec _ _ _ _).bind ?_)
  rintro ⟨bound, left⟩ ⟨names, rfl, values, further, free⟩
  refine (bindNamed_spec _ _).bind ?_
  rintro named rfl
  simp only
  split
  · exact .error _
  · next known =>
      -- a name that an argument is given by is that of a parameter, but not of one that has
      -- its argument by position
      have fits (name : String) (is : (keywords.reverse.lookup name).isSome = true) :
          name ∈ (sig.params.drop args.length).map Prod.fst ++ sig.named := by
        have member : name ∈ (Table.setAll [] keywords).names :=
          Table.mem_names_iff.mpr (by rwa [last])
        have found := find?_eq_none.mp known name member
        simp only [Bool.not_eq_true', Bool.not_eq_false] at found
        have among := contains_iff_mem.mp found
        rw [← take_append_drop args.length sig.params, map_append,
          append_assoc] at among
        refine (mem_append.mp among).resolve_left fun positional => ?_
        obtain ⟨p, taken, rfl⟩ := mem_map.mp positional
        rw [← last, free p taken] at is
        cases is
      have open' : (sig.params.drop args.length ++ sig.named.map fun n => (n, false)).map Prod.fst =
          (sig.params.drop args.length).map Prod.fst ++ sig.named := by
        simp [Function.comp_def]
      refine .ok ⟨?_, fun a => ?_, fun name => ?_, further⟩
      · have all : sig.params.map Prod.fst = (sig.params.take args.length).map Prod.fst ++
            (sig.params.drop args.length).map Prod.fst := by
          rw [← map_append, take_append_drop]
        rw [map_append, names, map_fst_filterMap, open', all, append_assoc]
        exact (List.Sublist.refl _).append filter_sublist
      · rw [map_append, mem_append, mem_append, or_right_comm, ← mem_append,
          values, mem_snd_filterMap, open']
        simp only [last]
        refine or_congr_right ⟨?_, ?_⟩
        · rintro ⟨name, _, found⟩
          exact ⟨name, found⟩
        · rintro ⟨name, found⟩
          exact ⟨name, fits name (by simp [found]), found⟩
      · rw [map_append, mem_append, names, map_fst_filterMap, open', mem_filter, last]
        exact or_congr_right ⟨And.right, fun is => ⟨fits name is, is⟩⟩

/-- The arguments that arrive are those of the parameters, if there is no rest. -/
theorem Fits.mem_values {sig : Signature} {args : List α} {keywords : List (String × α)}
    {bound : Bound α} (fits : Fits sig args keywords bound)
    (distinct : (sig.params.map Prod.fst ++ sig.named).Nodup) (closed : sig.rest = false) {a : α} :
    a ∈ bound.args.map Prod.snd ++ bound.rest ↔
      ∃ name ∈ sig.params.map Prod.fst ++ sig.named, bound.args.get? name = some a := by
  have nothing : bound.rest = [] := by
    cases is : bound.rest with
    | nil => rfl
    | cons a rest => exact absurd (fits.rest (by simp [is])) (by simp [closed])
  have lookup {name : String} : (name, a) ∈ bound.args ↔ bound.args.get? name = some a :=
    Table.mem_iff_get? (fits.names.nodup distinct)
  rw [nothing, append_nil]
  constructor
  · intro member
    obtain ⟨⟨name, _⟩, inside, rfl⟩ := mem_map.mp member
    exact ⟨name, fits.names.subset (mem_map_of_mem inside), lookup.mp inside⟩
  · rintro ⟨name, _, found⟩
    exact mem_map.mpr ⟨(name, a), lookup.mpr found, rfl⟩

/-- Without parameters all arguments are in the rest. -/
theorem Fits.args_eq_nil {sig : Signature} {args : List α} {keywords : List (String × α)}
    {bound : Bound α} (fits : Fits sig args keywords bound)
    (none : sig.params.map Prod.fst ++ sig.named = []) : bound.args = [] := by
  have names := fits.names
  rw [none, sublist_nil, map_eq_nil_iff] at names
  exact names

end

/-! ## Calls -/

/-- The outcomes are the values of some expressions. -/
def Values (os : List Outcome) (es : List Script.Expr) : Prop := ∀ o, o ∈ os ↔ ∃ e ∈ es, o = .ok e

theorem allOk_forall₂ : ∀ os : List Outcome,
    Gives (List.Forall₂ (fun o e => o = .ok e) os) (allOk os)
  | [] => .ok .nil
  | o :: os => by
    rw [allOk]
    exact Gives.outcome fun _ is => (allOk_forall₂ os).bind fun _ rest => .ok (.cons is rest)

/-- If all outcomes are values, these are collected. -/
theorem allOk_values : ∀ os : List Outcome, Gives (Values os) (allOk os)
  | [] => .ok (by simp [Values])
  | o :: os => by
    rw [allOk]
    refine Gives.outcome fun e is => (allOk_values os).bind fun es values => .ok fun o' => ?_
    rw [mem_cons, values o', is, exists_mem_cons_iff]

/-! ## What a quantifier keeps -/

/-- The references of an index of a mapping. -/
def keptIndex : Script.Expr → List Reference
  | .ident n => if n = "map" then [] else [⟨.value, n, []⟩]
  | e => e.references

/-- The references of the callee of a mapping. -/
def keptCallee : Script.Expr → List Reference
  | .member obj key true _ => obj.references ++ keptIndex key
  | e => e.references

/-- The references of what a quantifier goes over. -/
def keptArgument : Script.Expr → List Reference
  | .call callee [g] => keptCallee callee ++ g.references
  | e => e.references

/-- The references that are kept of an expression at a position. -/
def Position.kept : Position → Script.Expr → List Reference
  | .plain => Script.Expr.references
  | .argument _ => keptArgument
  | .callee _ => keptCallee
  | .index _ => keptIndex

@[simp]
theorem Position.kept_plain : Position.plain.kept = Script.Expr.references := rfl

/-- In a call the position tells what is kept of the callee. -/
theorem Position.kept_call (p : Position) (callee : Script.Expr) (es : List Script.Expr) :
    p.kept (.call callee es) = (p.alone es).toCallee.kept callee ++ exprsReferences es := by
  match p, es with
  | .argument f, [g] => simp [kept, keptArgument, alone, toCallee]
  | .argument f, [] | .argument f, _ :: _ :: _ => rfl
  | .plain, [_] | .callee f, [_] | .index f, [_] => rfl
  | .plain, [] | .callee f, [] | .index f, [] => rfl
  | .plain, _ :: _ :: _ | .callee f, _ :: _ :: _ | .index f, _ :: _ :: _ => rfl

/-- In an index the position tells what is kept of the key. -/
theorem Position.kept_index (p : Position) (obj key : Script.Expr) :
    p.kept (obj.index key) = obj.references ++ p.toIndex.kept key := by
  cases p <;> rfl

/-- Whether an expression keeps its references at every position. -/
def isStable : Script.Expr → Bool
  | .ident _ => false
  | .member _ _ computed _ => !computed
  | .call callee _ => !(callee matches .member _ _ true _)
  | _ => true

/-- Of a stable expression all is kept in every position. -/
theorem kept_of_isStable {e : Script.Expr} (stable : isStable e = true) (p : Position) :
    p.kept e = e.references := by
  -- A callee is looked into only if it is a computed member.
  have callee {c : Script.Expr} (plain : (!(c matches .member _ _ true _)) = true) :
      keptCallee c = c.references := by
    unfold keptCallee
    split
    · cases plain
    · rfl
  cases p with
  | plain => rfl
  | argument f =>
    rw [Position.kept, keptArgument.eq_def]
    split
    · next c g => simp [callee stable, Script.Expr.references]
    · rfl
  | callee f =>
    rw [Position.kept, keptCallee.eq_def]
    split
    · cases stable
    · rfl
  | index f =>
    rw [Position.kept, keptIndex.eq_def]
    split
    · cases stable
    · rfl

/-- Whether a script refers to a global and to what is kept of some expressions, binders of
its own apart. -/
structure Joins (global : Option String) (kept : Script.Expr → List Reference)
    (es : List Script.Expr) (s : Script.Expr) : Prop where
  sound : ∀ r ∈ s.references,
    r.name ∈ r.scope ∨ (∃ g ∈ global, r = ⟨.value, g, []⟩) ∨ ∃ e ∈ es, r ∈ kept e
  named : ∀ g ∈ global, ⟨.value, g, []⟩ ∈ s.references
  brings : ∀ e ∈ es, ∀ r ∈ kept e, r ∈ s.references

/-- A script joins its arguments if it refers to what they refer to and to its global. -/
theorem Joins.of_references {global : Option String} {es : List Script.Expr} {s : Script.Expr}
    (is : s.references = global.toList.map (fun g => ⟨.value, g, []⟩) ++ exprsReferences es) :
    Joins global Script.Expr.references es s := by
  refine ⟨fun r member => ?_, fun g is' => ?_, fun e inside r member => ?_⟩
  · rw [is, mem_append] at member
    rcases member with member | member
    · obtain ⟨g, found, rfl⟩ := mem_map.mp member
      exact .inr (.inl ⟨g, Option.mem_toList.mp found, rfl⟩)
    · exact .inr (.inr (Script.mem_exprsReferences.mp member))
  · rw [is]
    exact mem_append_left _ (mem_map_of_mem (Option.mem_toList.mpr is'))
  · rw [is]
    exact mem_append_right _ (Script.mem_exprsReferences.mpr ⟨e, inside, member⟩)

namespace Builtin

theorem argument_eq_ok {bound : Bound Outcome} {param : String} {e : Script.Expr}
    (is : argument bound param = .ok e) : bound.args.get? param = some (.ok e) := by
  unfold argument at is
  split at is
  · next found => rw [found, is]
  · cases is

/-- What is taken for a mapping loses the name `map`. -/
theorem kept_of_mapped? {e items f : Script.Expr} (is : mapped? e = some (items, f)) :
    keptArgument e = items.references ++ f.references := by
  obtain ⟨computed, _, rfl⟩ := eq_of_mapped? is
  cases computed <;> simp [keptArgument, keptCallee, keptIndex, Script.Expr.references]

/-- Anything else is kept. -/
theorem kept_of_unmapped {e : Script.Expr} (is : mapped? e = none) :
    keptArgument e = e.references := by
  unfold keptArgument
  split
  · next callee g =>
      unfold keptCallee
      split
      · next obj key optional =>
          unfold keptIndex
          split
          · next n =>
              have other : n ≠ "map" := by
                rintro rfl
                cases is
              simp [other, Script.Expr.references]
          · simp [Script.Expr.references]
      · simp [Script.Expr.references]
  · rfl

/-- A quantifier refers to what is kept of its argument. -/
theorem quantified_joins (method : String) (e : Script.Expr) :
    Joins none keptArgument [e] (quantified method e) := by
  rw [quantified]
  split
  · next items f mapped =>
      have kept : keptArgument e = (items.invoke method [f]).references := by
        simp [kept_of_mapped? mapped]
      exact ⟨fun r member => .inr (.inr ⟨e, mem_singleton_self e, kept ▸ member⟩), by simp,
        by simp [kept]⟩
  · next unmapped =>
      have kept := kept_of_unmapped unmapped
      refine ⟨fun r member => ?_, by simp, ?_⟩
      · simp only [Script.references_invoke, mem_append] at member
        rcases member with member | member
        · exact .inr (.inr ⟨e, mem_singleton_self e, kept ▸ member⟩)
        · have own : r = ⟨.value, "v", ["v"]⟩ := by
            simpa [Script.Expr.references, Reference.within, Script.paramNames, Script.Param.names]
              using member
          exact .inl (by simp [own])
      · simp +contextual [kept]

/-- A sum refers to its items and its start. -/
theorem reduced_joins (items start : Script.Expr) :
    Joins none Script.Expr.references [items, start]
      (items.invoke "reduce" [adder, start]) := by
  have own : adder.references = [⟨.value, "a", ["a", "b"]⟩, ⟨.value, "b", ["a", "b"]⟩] := rfl
  refine ⟨fun r member => ?_, by simp, by simp +contextual⟩
  simp only [Script.references_invoke, Script.exprsReferences_cons, Script.exprsReferences_nil,
    append_nil, own, mem_append] at member
  rcases member with member | member | member
  · exact .inr (.inr ⟨items, by simp, member⟩)
  · rcases mem_cons.mp member with rfl | member
    · exact .inl (by simp)
    · cases mem_singleton.mp member
      exact .inl (by simp)
  · exact .inr (.inr ⟨start, by simp, member⟩)

/-- What a function keeps of an argument. -/
def kept : Builtin → Script.Expr → List Reference
  | .any | .all => keptArgument
  | _ => Script.Expr.references

/-- A script joins the values of some outcomes. -/
def Joined (global : Option String) (kept : Script.Expr → List Reference) (os : List Outcome)
    (s : Script.Expr) : Prop :=
  ∃ es, Values os es ∧ Joins global kept es s

theorem argument_joined {bound : Bound Outcome} {os : List Outcome} {global : Option String}
    {kept : Script.Expr → List Reference} {param : String} {f : Script.Expr → Script.Expr}
    (values : ∀ o, o ∈ os ↔ bound.args.get? param = some o)
    (joins : ∀ e, Joins global kept [e] (f e)) :
    Gives (Joined global kept os) (argument bound param >>= fun e => .ok (f e)) := by
  refine Gives.outcome fun e is => .ok ⟨[e], fun o => ?_, joins e⟩
  rw [values, argument_eq_ok is]
  simp [eq_comm]

theorem allOk_joined {bound : Bound Outcome} {global : Option String}
    {kept : Script.Expr → List Reference} {f : List Script.Expr → Script.Expr}
    (none : bound.args = []) (joins : ∀ es, Joins global kept es (f es)) :
    Gives (Joined global kept (bound.args.map Prod.snd ++ bound.rest))
      (allOk bound.rest >>= fun es => .ok (f es)) := by
  rw [none]
  exact (allOk_values bound.rest).bind fun es values => .ok ⟨es, values, joins es⟩

/-- No builtin function has two parameters of one name. -/
theorem signature_distinct (b : Builtin) :
    (b.signature.params.map Prod.fst ++ b.signature.named).Nodup := by
  cases b <;> simp [signature]

/-- Every builtin function joins the arguments that arrive, one case for each function. -/
theorem call_joins (b : Builtin) {args : List Outcome} {keywords : List (String × Outcome)}
    {bound : Bound Outcome} (fits : Fits b.signature args keywords bound) :
    Gives (Joined (b.global? (bound.args.get? "ndigits").isSome) b.kept
      (bound.args.map Prod.snd ++ bound.rest)) (b.call bound) := by
  cases b with
  | print =>
    refine allOk_joined (fits.args_eq_nil rfl) fun es => .of_references ?_
    simp [Script.Expr.references, global?]
  | min | max =>
    refine .ite (.error _) (allOk_joined (fits.args_eq_nil rfl) fun es => .of_references ?_)
    simp [Script.Expr.references, global?, mathCall]
  | int =>
    refine .ite (allOk_joined (fits.args_eq_nil rfl) fun es => .of_references ?_) (.error _)
    simp [Script.Expr.references, global?]
  -- One argument, which the script refers to once.
  | len | abs | str | float | bool | list | math | jsonLoads =>
    refine argument_joined (fun o => ?_) fun e => .of_references ?_
    · simp [fits.mem_values (signature_distinct _) rfl, signature]
    · simp [Script.Expr.references, global?, mathCall]
  | any | all =>
    refine argument_joined (fun o => ?_) fun e => quantified_joins _ e
    simp [fits.mem_values (signature_distinct _) rfl, signature]
  | sum =>
    have none := fits.args_eq_nil rfl
    rw [call, none]
    split
    · next items is =>
        refine Gives.outcome fun e items' => .ok ⟨[e], ?_, ?_⟩
        · simp [Values, is, items']
        -- Without a start the sum begins at 0, which refers to nothing.
        · have joins := reduced_joins e (.lit (.int 0))
          refine ⟨fun r member => ?_, joins.named, ?_⟩
          · simpa [Script.Expr.references, kept, global?] using joins.sound r member
          · simpa [kept] using joins.brings e (by simp)
    · next items start is =>
        refine Gives.outcome fun s start' => Gives.outcome fun e items' =>
          .ok ⟨[e, s], ?_, reduced_joins e s⟩
        simp [Values, is, start', items']
    · exact .error _
  | pow =>
    refine Gives.outcome fun base isBase => Gives.outcome fun exp isExp => .ok ⟨[base, exp], ?_, ?_⟩
    · intro o
      simp [fits.mem_values (signature_distinct _) rfl, signature, argument_eq_ok isBase,
        argument_eq_ok isExp, eq_comm]
    · exact .of_references (by simp [Script.Expr.references, global?])
  | round =>
    refine Gives.outcome fun number isNumber => ?_
    -- The digits may be missing, and then another function is called.
    have values (o : Outcome) : o ∈ bound.args.map Prod.snd ++ bound.rest ↔
        o = .ok number ∨ bound.args.get? "ndigits" = some o := by
      simp [fits.mem_values (signature_distinct _) rfl, signature, argument_eq_ok isNumber, eq_comm]
    split
    · next missing =>
        refine .ok ⟨[number], fun o => by simp [values, missing], .of_references ?_⟩
        simp [Script.Expr.references, global?, mathCall, missing]
    · next digits given =>
        refine Gives.outcome fun e is => .ok ⟨[number, e], fun o => ?_, .of_references ?_⟩
        · simp [values, given, is, eq_comm]
        · simp [Script.Expr.references, global?, given]
  | jsonDumps =>
    refine Gives.outcome fun obj isObj => ?_
    have values (o : Outcome) : o ∈ bound.args.map Prod.snd ++ bound.rest ↔
        o = .ok obj ∨ bound.args.get? "indent" = some o := by
      simp [fits.mem_values (signature_distinct _) rfl, signature, argument_eq_ok isObj, eq_comm]
    split
    · next missing =>
        refine .ok ⟨[obj], fun o => by simp [values, missing], .of_references ?_⟩
        simp [Script.Expr.references, global?]
    · next indent given =>
        refine Gives.outcome fun e is => .ok ⟨[obj, e], fun o => ?_, .of_references ?_⟩
        · simp [values, given, is, eq_comm]
        · simp [Script.Expr.references, global?]

/-- A quantifier is no mapping in turn. -/
theorem quantified_stable (method : String) (e : Script.Expr) :
    isStable (quantified method e) = true := by
  unfold quantified
  split <;> rfl

/-- The script of a builtin function is stable. -/
theorem call_stable (b : Builtin) (bound : Bound Outcome) :
    Gives (fun s => isStable s = true) (b.call bound) := by
  cases b with
  | print | len | abs | str | float | bool | list | math | jsonLoads =>
    exact Gives.bind' fun _ => .ok rfl
  | any | all => exact Gives.bind' fun _ => .ok (quantified_stable _ _)
  | min | max => exact .ite (.error _) (Gives.bind' fun _ => .ok rfl)
  | int => exact .ite (Gives.bind' fun _ => .ok rfl) (.error _)
  | sum =>
    rw [call]
    split
    · exact Gives.bind' fun _ => .ok rfl
    · exact Gives.bind' fun _ => Gives.bind' fun _ => .ok rfl
    · exact .error _
  | pow => exact Gives.bind' fun _ => Gives.bind' fun _ => .ok rfl
  | round | jsonDumps =>
    refine Gives.bind' fun _ => ?_
    split
    · exact .ok rfl
    · exact Gives.bind' fun _ => .ok rfl

theorem lower_stable (b : Builtin) (name : String) (args : List Outcome)
    (keywords : List (String × Outcome)) :
    Gives (fun s => isStable s = true) (b.lower name args keywords) := by
  rw [lower]
  split
  · exact b.call_stable _
  · exact .error _

/-- The global depends on which arguments are given. -/
theorem global?_eq (b : Builtin) {args : List Outcome} {keywords : List (String × Outcome)}
    {bound : Bound Outcome} (fits : Fits b.signature args keywords bound) :
    b.global? (bound.args.get? "ndigits").isSome =
      b.global? (1 < args.length || (keywords.reverse.lookup "ndigits").isSome) := by
  cases b with
  | round =>
    have same : (bound.args.get? "ndigits").isSome =
        (decide (1 < args.length) || (keywords.reverse.lookup "ndigits").isSome) := by
      rw [Bool.eq_iff_iff, ← Table.mem_names_iff, Table.names, fits.given, Bool.or_eq_true,
        decide_eq_true_iff]
      refine or_congr_left ?_
      rcases args with _ | ⟨_, _ | ⟨_, _⟩⟩ <;> simp [signature]
    rw [same]
  | _ => rfl

/-- A call of a builtin function joins its arguments, of which only the last of each name counts. -/
theorem lower_joins (b : Builtin) (name : String) (args : List Outcome)
    (keywords : List (String × Outcome)) :
    Gives (fun s => ∃ es,
      (∀ o, (∃ e ∈ es, o = .ok e) ↔ o ∈ args ∨ ∃ key, keywords.reverse.lookup key = some o) ∧
      Joins (b.global? (1 < args.length || (keywords.reverse.lookup "ndigits").isSome)) b.kept
        es s)
      (b.lower name args keywords) := by
  rw [lower]
  split
  · next bound found =>
      have fits := b.signature.bind_fits args keywords bound found
      intro s is
      obtain ⟨es, values, joins⟩ := call_joins b fits s is
      refine ⟨es, fun o => ?_, b.global?_eq fits ▸ joins⟩
      rw [← values, fits.values]
  · exact .error _

end Builtin

end Routine

end JexlScript
