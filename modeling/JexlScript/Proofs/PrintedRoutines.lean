import JexlScript.Proofs.NameOrigins
import JexlScript.Proofs.NumberText
import JexlScript.Proofs.Parsing.Acceptance
import JexlScript.Proofs.Parts

/-!
# Routines are printed

The script of a routine has a text unless one of its integers lies beyond the
doubles, and so has every tree that inlining makes of it with arguments that have
one. An integer is written as the double nearest to it.
-/

namespace JexlScript.Script

open List

/-- A tree is printed if it is writable. -/
theorem print?_isSome (n : Node) : n.print?.isSome = n.isWritable := by
  rw [Node.print?]
  split <;> simp_all

/-! ## Other names and replaced names -/

/-- A node is writable if its label and its limbs are. -/
theorem Node.isWritable_iff (n : Node) : n.isWritable = true ↔
    n.label.isWritable = true ∧ ∀ m ∈ n.limbs, m.isWritable = true := by
  cases n with
  | expr e =>
    cases e with
    | member _ _ computed =>
      cases computed <;> simp [readParts, children, Expr.children, isWritable, Expr.isWritable,
        and_comm]
    | _ =>
      simp [readParts, children, Expr.children, isWritable, Expr.isWritable, exprsWritable_eq_all,
        propsWritable_eq_all, stmtsWritable, Stmt.isWritable, and_assoc] <;>
        grind
  | stmt s =>
    cases s <;> simp [readParts, children, Stmt.children, isWritable, Expr.isWritable,
      Stmt.isWritable, stmtsWritable_eq_all, and_assoc]
  | pattern => simp [readParts, children, isWritable]
  | program p => simp [readParts, children, isWritable, stmtsWritable_eq_all]

/-- Renaming binders keeps a tree writable. -/
theorem Node.AlphaEq.isWritable {links : Links} {m n : Node} (h : m.AlphaEq links n)
    (writable : m.isWritable = true) : n.isWritable = true := by
  induction m using ofLimbs generalizing links n with
  | step m ih =>
    obtain ⟨same, _, limbs⟩ := alphaEq_iff.mp h
    obtain ⟨label, inner⟩ := m.isWritable_iff.mp writable
    refine n.isWritable_iff.mpr ⟨same ▸ label, fun k limb => ?_⟩
    obtain ⟨k', limb', h'⟩ := exists_of_forall₂ limbs limb
    exact ih k' limb' h' (inner k' limb')

/-- Replacing names by writable expressions keeps a tree writable. -/
theorem Node.isWritable_replace {σ : Replacement} {n : Node}
    (each : ∀ x a, σ x = some a → a.isWritable = true) (writable : n.isWritable = true) :
    (n.replace σ).isWritable = true := by
  induction n using ofLimbs generalizing σ with
  | step n ih =>
    by_cases name : ∃ x, n = .expr (.ident x)
    · obtain ⟨x, rfl⟩ := name
      change ((σ x).getD (.ident x)).isWritable = true
      cases found : σ x with
      | none => rfl
      | some a => exact each x a found
    · obtain ⟨label, _, _, limbs⟩ := replace_spec σ (not_exists.mp name)
      obtain ⟨own, inner⟩ := n.isWritable_iff.mp writable
      refine (isWritable_iff _).mpr ⟨label ▸ own, ?_⟩
      rw [limbs, forall_mem_map]
      refine fun m limb => ih m limb (fun x a found => each x a ?_) (inner m limb)
      unfold Replacement.hide at found
      split at found
      · cases found
      · exact found

end JexlScript.Script

namespace JexlScript.Inline

open List Script

/-! ## Inlined functions -/

/-- Unwrapping keeps a body writable. -/
theorem Body.toExpr_writable {b : Body} (h : b.toFunction.isWritable = true) :
    b.toExpr.isWritable = true := by
  cases b with
  | expr e => exact h
  | block ss =>
    by_cases single : ∃ e, ss = [.ret e]
    · obtain ⟨e, rfl⟩ := single
      exact (Bool.and_eq_true_iff.mp h).1
    · rw [Body.toExpr_block_of_ne fun e same => single ⟨e, same⟩]
      exact Bool.and_eq_true_iff.mpr ⟨h, rfl⟩

/-- Inlining a writable function with writable arguments gives a writable tree. -/
theorem Template.inline?_writable {t : Template} (plainParams : PlainParams t.params)
    (plain : t.body.Plain) {args : List Expr} {e : Expr}
    (body : t.body.toFunction.isWritable = true) (each : ∀ a ∈ args, a.isWritable = true)
    (inlined : t.inline? args = some e) : e.isWritable = true := by
  obtain ⟨b, variant, _, result⟩ := Template.inline?_spec plainParams plain args
  rw [inlined] at result
  split at result
  · cases result
  · cases result
    refine Body.toExpr_writable ?_
    rw [Body.toFunction_prune, Body.toFunction_replace]
    refine (Node.isWritable_prune (.expr _)).trans (Node.isWritable_replace (n := .expr _) ?_
      (Node.AlphaEq.isWritable (m := .expr _) (n := .expr _) variant.alpha body))
    intro x a replaced
    rcases mem_args_of_argument? replaced with given | rfl
    · exact each a given
    · rfl

/-- The function of a writable program has a writable body. -/
theorem Template.writable_of_program {p : Program} {t : Template}
    (first : Template.ofProgram? p = some t) (h : stmtsWritable p.body = true) :
    t.body.toFunction.isWritable = true := by
  obtain ⟨body⟩ := p
  rw [Template.ofProgram?] at first
  split at first
  · rename_i e rest is
    have he := (Bool.and_eq_true_iff.mp (is ▸ h)).1
    cases e <;> cases first <;> exact he
  · rename_i ps ss rest is
    cases first
    exact (Bool.and_eq_true_iff.mp (is ▸ h)).1
  · cases first

/-! ## Routines -/

open Double (Canonical InInterval magnitudeOf ofMagnitude)

/-- An integer is printed as its double, and not at all if there is none. -/
theorem print?_int (n : Int) : (Node.expr (.lit (.int n))).print? =
    (Double.ofInt? n).map fun d => String.ofList d.text := by
  change (if (intText? n).isSome then some (String.ofList ((intText? n).getD (intDigits n)))
    else none) = _
  rw [Reading.intText?_eq]
  cases Double.ofInt? n <;> rfl

/-- The script of a routine is printed unless an integer in it lies beyond the
doubles. Where it is, inlining gives a tree that is printed for all arguments that
are, unless the routine assigns to a parameter. An integer is printed as the
double nearest to it. -/
theorem toProgram_printed {source : String} {program : Program}
    (accepted : Routine.toProgram source = .ok program) :
    ((Node.program program).print?.isSome = true ↔
      ∀ n, Node.expr (.lit (.int n)) ∈ (Node.program program).walk →
        (Double.ofInt? n).isSome = true) ∧
    (∃ t, Template.ofProgram? program = some t ∧ ∀ args : List Expr,
      (Node.program program).print?.isSome = true →
      (∀ a ∈ args, (Node.expr a).print?.isSome = true) →
      t.body.assigns ((bindArgs t.params args).map Prod.fst) = true ∧
          inlineProgram? program args = none ∨
        ∃ e, inlineProgram? program args = some e ∧ (Node.expr e).print?.isSome = true) ∧
    ∀ n : Int, (Node.expr (.lit (.int n))).print? =
        (Double.ofInt? n).map (fun d => String.ofList d.text) ∧
      ∀ m e, Canonical m e → 0 < m → InInterval m e n.natAbs →
        Double.ofInt? n = some (ofMagnitude (n < 0) (magnitudeOf m e)) := by
  simp only [print?_isSome]
  refine ⟨?_, ?_, fun n => ⟨print?_int n, fun m e => Reading.ofInt?_of_inInterval⟩⟩
  · rw [Node.isWritable_eq_walk, List.all_eq_true]
    -- Of all literals only integers may have no text.
    have int (n : Int) : (Node.expr (.lit (.int n))).hasText = (Double.ofInt? n).isSome := by
      rw [Node.hasText, Scalar.isWritable, Reading.intText?_eq, Option.isSome_map]
    refine ⟨fun all n member => int n ▸ all _ member, fun ints node member => ?_⟩
    unfold Node.hasText
    split
    · rename_i v
      cases v with
      | int n => exact (int n).trans (ints n member)
      | _ => rfl
    · rfl
  · obtain ⟨t, first, plainParams, plain⟩ := startsPlain_of_toProgram accepted
    refine ⟨t, first, fun args whole each => ?_⟩
    -- The program starts with its template, so this is what is inlined.
    have inlines : inlineProgram? program args = t.inline? args := by
      rw [inlineProgram?, first]
      rfl
    rw [inlines]
    cases inlined : t.inline? args with
    | some e =>
      exact .inr ⟨e, rfl, Template.inline?_writable plainParams plain
        (Template.writable_of_program first whole) each inlined⟩
    | none =>
      rw [Template.inline?] at inlined
      dsimp only at inlined
      split at inlined
      · exact .inl ⟨by assumption, rfl⟩
      · cases inlined

/-- The integer is not a double, and the even neighbour is written for it. -/
theorem toProgram_printed_rounded : ∃ program e,
    Routine.toProgram "lambda a: a + 9007199254740993" = .ok program ∧
      (Node.program program).print? = some "(a) => a + 9007199254740992;" ∧
      inlineProgram? program [.ident "b"] = some e ∧ (Node.expr e).print?.isSome = true := by
  have runs : ((Routine.toProgram "lambda a: a + 9007199254740993").toOption.any fun program =>
      (Node.program program).print? = some "(a) => a + 9007199254740992;" ∧
        (inlineProgram? program [.ident "b"]).isSome) = true := by
    rw [toProgram_eq]
    decide +kernel
  obtain ⟨program, accepted, results⟩ := Formula.exists_ok_of_any runs
  obtain ⟨printed, inlined⟩ := of_decide_eq_true results
  obtain ⟨_, ⟨t, _, inlines⟩, _⟩ := toProgram_printed accepted
  rcases inlines [.ident "b"] (by rw [printed]; rfl) (by decide) with ⟨_, none⟩ | ⟨e, is, text⟩
  · rw [none] at inlined
    cases inlined
  · exact ⟨program, e, accepted, printed, is, text⟩

/-- An integer beyond the doubles is accepted, and nothing is printed for it. -/
theorem huge_integer_not_printed : ∃ program,
    Routine.toProgram (String.ofList ("lambda: 1".toList ++ List.replicate 309 '0')) = .ok program ∧
      (Node.program program).print? = none := by
  have runs : ((Routine.toProgram (String.ofList
      ("lambda: 1".toList ++ List.replicate 309 '0'))).toOption.any fun program =>
        (Node.program program).print? = none) = true := by
    rw [toProgram_eq]
    decide +kernel
  obtain ⟨program, accepted, printed⟩ := Formula.exists_ok_of_any runs
  exact ⟨program, accepted, of_decide_eq_true printed⟩

end JexlScript.Inline
