import JexlScript.Proofs.MeaningPreserved
import JexlScript.Proofs.NameOrigins

/-!
# What the function of a relative filter binds

The function of a relative filter takes the relative names of its predicate out
of an element, and also those of the filters inside the predicate. The predicate
is lowered without regard to this. So an absolute root, a call that stays one, a
free name of an inlined function or `Math` keeps its meaning there exactly if no
relative name in the predicate is spelled the same; `filter_captures_kind` is a
filter where one is.
-/

namespace JexlScript

open Script

/-- In the script of a relative filter of a text, a name is bound by the filter's
function if and only if a relative name somewhere in the predicate is spelled the
same. So a name that the predicate uses is bound or not wherever its use comes from:
from a relative name that no filter inside has bound, or from what supplies names. -/
theorem filter_binds_iff {g : Grammar Callable} (o : Options) {text : String} {f s e : Formula}
    (parsed : Formula.parse g text = .ok f) (part : .filter s e true ∈ f.parts) :
    ((o.context g).lower (.filter s e true)).Gives fun script =>
      ∃ (s' : Expr) (names : List String) (e' : Expr),
        script = s'.invoke "filter" [.arrow [.pattern names] e'] ∧ names.Nodup ∧
        (∀ n, n ∈ names ↔ .root n true ∈ e.parts) ∧
        (o.reader = some Routine.toProgram → ∀ u ∈ e'.free, (o.context g).Origin e u) := by
  have filter : (Formula.filter s e true).Built g := (Formula.parse_built parsed).of_mem_parts _ part
  have built : e.Built g :=
    filter.of_mem_parts _ (.tail _ (List.mem_append_right _ e.self_mem_parts))
  obtain ⟨names, scanned, distinct, taken⟩ := built.relativeNames
  have origins : ((o.context g).lower e).Gives fun e' =>
      o.reader = some Routine.toProgram → (o.context g).Originates e e' :=
    fun journal e' journal' ran reader => Context.lower_originates reader built _ _ _ ran
  have subject : ((o.context g).lower s).Gives fun _ => True := fun _ _ _ _ => trivial
  refine (Context.filter_gives scanned subject origins).mono ?_
  rintro _ ⟨s', e', _, originates, rfl⟩
  exact ⟨s', names, e', rfl, distinct, taken, originates⟩

/-- Whether a filter is lowered to a function that takes out the one list of names and leaves the
other free. -/
def bindsAndUses (bound used : List String) (f : Formula) : Bool :=
  match f, ((Options.usual.context Grammar.stock).lower f).run Journal.empty with
  | .filter _ _ true, (.ok (.call _ [.arrow [.pattern names] e']), _) =>
    names == bound && e'.free.map Use.name == used
  | _, _ => false

/-- What the test on the parsed filter says, as a statement. -/
theorem exists_filter_of_bindsAndUses {text : String} {bound used : List String}
    (evaluated : (Formula.parse Grammar.stock text).toOption.any (bindsAndUses bound used) = true) :
    ∃ s e callee e' journal, Formula.parse Grammar.stock text = .ok (.filter s e true) ∧
      ((Options.usual.context Grammar.stock).lower (.filter s e true)).run Journal.empty =
        (.ok (.call callee [.arrow [.pattern bound] e']), journal) ∧
      e'.free.map Use.name = used := by
  cases parsed : Formula.parse Grammar.stock text with
  | error why => simp [parsed, Except.toOption] at evaluated
  | ok f =>
    simp only [parsed, Except.toOption, Option.any_some, bindsAndUses] at evaluated
    split at evaluated
    · next s e callee names e' journal ran =>
        obtain ⟨rfl, uses⟩ : names = bound ∧ e'.free.map Use.name = used := by
          simpa using evaluated
        exact ⟨s, e, callee, e', journal, rfl, ran, uses⟩
    · cases evaluated

/-- The outer filter binds `on` for the sake of the filter inside it, and so what
the outer predicate itself reads as `on`. -/
theorem filter_binds_iff_on : ∃ f s e script journal,
    Formula.parse Grammar.stock "rows[.kind == on && .tags[.on == true]]" = .ok f ∧
      .filter s e true ∈ f.parts ∧
      ((Options.usual.context Grammar.stock).lower (.filter s e true)).run Journal.empty =
        (.ok script, journal) ∧
      ∃ (s' : Expr) (names : List String) (e' : Expr),
        script = s'.invoke "filter" [.arrow [.pattern names] e'] ∧
          e'.free.map Use.name = ["kind", "on", "tags"] ∧ "on" ∈ names ∧
          .root "on" true ∈ e.parts := by
  have evaluated : (Formula.parse Grammar.stock
      "rows[.kind == on && .tags[.on == true]]").toOption.any
        (bindsAndUses ["kind", "tags", "on"] ["kind", "on", "tags"]) = true := by
    decide +kernel
  obtain ⟨s, e, callee, e', journal, parsed, ran, used⟩ := exists_filter_of_bindsAndUses evaluated
  have part := Formula.self_mem_parts (.filter s e true)
  obtain ⟨s', names', e'', is, _, binds, _⟩ := filter_binds_iff Options.usual parsed part _ _ _ ran
  obtain ⟨rfl, rfl, rfl⟩ : callee = s'.dot "filter" ∧ ["kind", "tags", "on"] = names' ∧ e' = e'' := by
    simpa [Expr.invoke] using is
  have bound : "on" ∈ ["kind", "tags", "on"] := by decide
  exact ⟨_, s, e, _, journal, parsed, part, ran, s', _, e', rfl, used, bound,
    (binds "on").mp bound⟩

/-- An object with a property `kind`. -/
def kindRow (kind : String) : Datum := .object [("kind", .scalar (.text kind))]

/-- Two rows, of the kinds `a` and `b`, and `a` for the kind looked for. -/
def kindScope (name : String) : Datum :=
  if name = "rows" then .array [kindRow "a", kindRow "b"]
  else if name = "kind" then .scalar (.text "a")
  else .undefined

/-- `rows[.kind == kind]` -/
def kindFilter : Formula :=
  .filter (.root "rows" false) (.binary "==" (.root "kind" true) (.root "kind" false)) true

/-- A test for `kindFilter`, which has no decidable equality. -/
def isKindFilter : Formula → Bool
  | .filter (.root rows false) (.binary op (.root field true) (.root outer false)) true =>
    rows == "rows" && op == "==" && field == "kind" && outer == "kind"
  | _ => false

theorem eq_of_isKindFilter {f : Formula} (is : isKindFilter f = true) : f = kindFilter := by
  unfold isKindFilter at is
  split at is
  · simp only [Bool.and_eq_true, beq_iff_eq] at is
    obtain ⟨⟨⟨rfl, rfl⟩, rfl⟩, rfl⟩ := is
    rfl
  · cases is

/-- The text is read as the filter. -/
theorem parse_kindFilter : Formula.parse Grammar.stock "rows[.kind == kind]" = .ok kindFilter := by
  have evaluated :
      (Formula.parse Grammar.stock "rows[.kind == kind]").toOption.any isKindFilter = true := by
    decide +kernel
  cases parsed : Formula.parse Grammar.stock "rows[.kind == kind]" with
  | error why => simp [parsed, Except.toOption] at evaluated
  | ok f =>
    simp only [parsed, Except.toOption, Option.any_some] at evaluated
    rw [eq_of_isKindFilter evaluated]

/-- The absolute name `kind` is captured by the relative one: the formula keeps
the row of the kind that is read from outside, and its script keeps every row. -/
theorem filter_captures_kind : ∃ (s' : Expr) (names : List String) (e' : Expr),
    Formula.parse Grammar.stock "rows[.kind == kind]" = .ok kindFilter ∧
      ((Options.usual.context Grammar.stock).lower kindFilter).Returns
        (s'.invoke "filter" [.arrow [.pattern names] e']) ∧
      ⟨.read, "kind"⟩ ∈ e'.free ∧ "kind" ∈ names ∧
      kindFilter.eval Datum.domain kindScope none = some (.array [kindRow "a"]) ∧
      (s'.invoke "filter" [.arrow [.pattern names] e']).eval Datum.domain kindScope =
        some (.array [kindRow "a", kindRow "b"]) := by
  refine ⟨.ident "rows", ["kind"], .binary (.ident "kind") "===" (.ident "kind"),
    parse_kindFilter, fun journal => ⟨_, rfl⟩, by decide, by decide, ?_, ?_⟩
  · rfl
  · rfl

end JexlScript
