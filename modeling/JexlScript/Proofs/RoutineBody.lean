import JexlScript.Proofs.RoutineShape

/-!
# The shape of routine bodies

`Lowers` says for each statement of a body what it is turned into and which names are
bound after it. Conditions declare nothing, because every name that a condition would be
the first to assign is declared ahead of the body; `lowerAll_lowers` draws this from the
names that are hoisted. So the statements of a routine are turned into plain ones.
-/

namespace JexlScript.Routine

open List

open Script (PlainParams PlainStmts stmtDeclarations)

/-! ## Names declared ahead of a body -/

mutual

/-- The names that a statement assigns, also in its branches. -/
def Stmt.assigned : Stmt → List String
  | .assign targets _ => targets.filterMap Expr.name?
  | .annAssign target _ _ => [target].filterMap Expr.name?
  | .cond _ yes no => assignedAll yes ++ assignedAll no
  | _ => []

/-- The names that statements assign. -/
def assignedAll : List Stmt → List String
  | [] => []
  | s :: ss => s.assigned ++ assignedAll ss

end

/-- What noting the names `ids` does: it adds them to the names that were met
and, inside a condition, hoists those that were not met before. -/
structure Noted (nested : Bool) (seen : Hoisting) (ids : List String) (after : Hoisting) :
    Prop where
  names : ∀ x, x ∈ after.1 ↔ x ∈ seen.1 ∨ x ∈ ids
  keeps : seen.2 ⊆ after.2
  hoists : nested = true → ∀ x ∈ after.1, x ∈ seen.1 ∨ x ∈ after.2

theorem Noted.nil (nested : Bool) (seen : Hoisting) : Noted nested seen [] seen :=
  ⟨by simp, List.Subset.refl _, fun _ _ hx => .inl hx⟩

/-- Names are noted one after the other. -/
theorem Noted.append {nested : Bool} {seen middle after : Hoisting} {xs ys : List String}
    (h : Noted nested seen xs middle) (h' : Noted nested middle ys after) :
    Noted nested seen (xs ++ ys) after := by
  refine ⟨fun x => ?_, fun _ hx => h'.keeps (h.keeps hx), fun hn x hx => ?_⟩
  · rw [h'.names, h.names, mem_append, or_assoc]
  · rcases h'.hoists hn x hx with hx | hx
    · rcases h.hoists hn x hx with hx | hx
      · exact .inl hx
      · exact .inr (h'.keeps hx)
    · exact .inr hx

/-- What is noted in a branch may also be noted outside of one. -/
theorem Noted.outer {nested : Bool} {seen after : Hoisting} {ids : List String}
    (h : Noted true seen ids after) : Noted nested seen ids after :=
  ⟨h.names, h.keeps, fun _ => h.hoists rfl⟩

theorem noteTargets_noted (nested : Bool) (targets : List Expr) (seen : Hoisting) :
    Noted nested seen (targets.filterMap Expr.name?) (noteTargets nested seen targets) := by
  rw [noteTargets]
  generalize targets.filterMap Expr.name? = ids
  induction ids generalizing seen with
  | nil => exact .nil nested seen
  | cons id ids ih =>
    obtain ⟨names, hoisted⟩ := seen
    refine @Noted.append nested _ _ _ [id] ids ?_ (ih _)
    simp only
    -- A name that was met before is not noted again.
    split
    · rename_i met
      have met := contains_iff_mem.mp met
      refine ⟨fun x => ⟨.inl, ?_⟩, List.Subset.refl _, fun _ _ hx => .inl hx⟩
      rintro (hx | hx)
      · exact hx
      · exact mem_singleton.mp hx ▸ met
    · refine ⟨fun x => by simp [or_comm], ?_, ?_⟩
      · split
        · exact subset_append_left _ _
        · exact List.Subset.refl _
      · intro hn x hx
        rcases mem_cons.mp hx with rfl | hx
        · exact .inr (by simp [hn])
        · exact .inl hx

mutual

/-- A statement notes the names that it assigns. -/
theorem Stmt.noteNames_noted : ∀ (s : Stmt) (nested : Bool) (seen : Hoisting),
    Noted nested seen s.assigned (s.noteNames nested seen)
  | .assign targets _, nested, seen => noteTargets_noted nested targets seen
  | .annAssign target _ _, nested, seen => noteTargets_noted nested [target] seen
  | .cond _ yes no, _, seen =>
    ((noteAll_noted yes true seen).append (noteAll_noted no true _)).outer
  | .function .., nested, seen | .class .., nested, seen | .ret _, nested, seen
  | .pass, nested, seen | .expr _, nested, seen | .augAssign .., nested, seen
  | .loop .., nested, seen | .while .., nested, seen | .context .., nested, seen
  | .attempt .., nested, seen | .raise .., nested, seen | .assert .., nested, seen
  | .delete _, nested, seen | .typeAlias _, nested, seen | .import _, nested, seen
  | .importFrom .., nested, seen | .elsewhere .., nested, seen | .break, nested, seen
  | .continue, nested, seen | .match .., nested, seen => .nil nested seen

theorem noteAll_noted : ∀ (ss : List Stmt) (nested : Bool) (seen : Hoisting),
    Noted nested seen (assignedAll ss) (noteAll nested seen ss)
  | [], nested, seen => .nil nested seen
  | s :: ss, nested, seen => (s.noteNames_noted nested seen).append (noteAll_noted ss nested _)

end

/-! ## Statements, one by one -/

/-- The name that a statement assigns and the value, which an annotation may lack. -/
def Stmt.assignment? : Stmt → Option (String × Option Expr)
  | .assign [.name x] value => some (x, some value)
  | .annAssign (.name x) _ value => some (x, value)
  | _ => none

/-- What becomes of the value of an assignment. A missing one is null. -/
def valueOutcome (bound : List String) : Option Expr → Outcome
  | none => .ok (.lit .null)
  | some value => value.lower bound

/-- What statements are turned into where some names are bound, and the names that are
bound after them. -/
inductive Lowers : (bound : List String) → List Stmt → List Script.Stmt → List String → Prop
  | nil {b} : Lowers b [] [] b
  | retNothing {b b' ss ts} :
      Lowers b ss ts b' → Lowers b (.ret none :: ss) (.retNothing :: ts) b'
  | ret {b b' value e ss ts} :
      value.lower b = .ok e → Lowers b ss ts b' →
      Lowers b (.ret (some value) :: ss) (.ret e :: ts) b'
  | pass {b b' ss ts} : Lowers b ss ts b' → Lowers b (.pass :: ss) ts b'
  | expr {b b' value e ss ts} :
      value.lower b = .ok e → Lowers b ss ts b' →
      Lowers b (.expr value :: ss) (.expr e :: ts) b'
  | augment {b b' x op symbol value e ss ts} :
      BinOp.operator? op = some symbol → value.lower b = .ok e → Lowers b ss ts b' →
      Lowers b (.augAssign (.name x) op value :: ss) (.assign ⟨x, none, some symbol⟩ e :: ts) b'
  | assign {b b' s x value e ss ts} :
      Stmt.assignment? s = some (x, value) → valueOutcome b value = .ok e → x ∈ b →
      Lowers b ss ts b' → Lowers b (s :: ss) (.assign ⟨x, none, none⟩ e :: ts) b'
  | declare {b b' s x value e ss ts} :
      Stmt.assignment? s = some (x, value) → valueOutcome b value = .ok e → x ∉ b →
      Lowers (x :: b) ss ts b' → Lowers b (s :: ss) (.assign ⟨x, some .let, none⟩ e :: ts) b'
  | cond {b b' test yes no c ys ns ss ts} :
      Expr.lower b test = .ok c → Lowers b yes ys b → Lowers b no ns b → Lowers b ss ts b' →
      Lowers b (.cond test yes no :: ss) (.cond c ys ns :: ts) b'

theorem Stmt.assigned_of_assignment? {s : Stmt} {x : String} {value : Option Expr}
    (is : s.assignment? = some (x, value)) : s.assigned = [x] := by
  unfold Stmt.assignment? at is
  split at is <;> cases is <;> rfl

/-- What a statement is turned into, put before what others are, and which names are bound
after it. -/
structure Leads (b : List String) (s : Stmt) (r : List Script.Stmt × List String) : Prop where
  lowers : ∀ ss ts b', Lowers r.2 ss ts b' → Lowers b (s :: ss) (r.1 ++ ts) b'
  grows : b ⊆ r.2
  assigned : s.assigned ⊆ r.2
  keeps : s.assigned ⊆ b → r.2 = b

/-- A statement that assigns nothing new leaves the bound names as they are. -/
theorem Leads.same {b : List String} {s : Stmt} {first : List Script.Stmt}
    (lowers : ∀ ss ts b', Lowers b ss ts b' → Lowers b (s :: ss) (first ++ ts) b')
    (sub : s.assigned ⊆ b) : Leads b s (first, b) :=
  ⟨lowers, List.Subset.refl _, sub, fun _ => rfl⟩

/-- What all values lead to is led to by any value there is. -/
theorem Gives.outcome {α ε : Type} {x : Except ε α} {β : Type} {f : α → Except ε β} {P : β → Prop}
    (next : ∀ a, x = .ok a → Gives P (f a)) : Gives P (x >>= f) :=
  Gives.bind (fun _ is => is) next

/-- An assignment binds its name for the statements behind it. -/
theorem assignment_leads {b : List String} {s : Stmt} {target : Expr} (value : Option Expr)
    (is : ∀ x, target = .name x → s.assignment? = some (x, value)) :
    Gives (fun r => Leads b s ([r.1], r.2)) (assignment b target (valueOutcome b value)) := by
  rw [assignment.eq_def]
  split
  · next x =>
      have is := is x rfl
      have assigned := Stmt.assigned_of_assignment? is
      refine Gives.outcome fun e lowered => ?_
      split
      · next met =>
          have met := contains_iff_mem.mp met
          exact .ok (.same (fun _ _ _ => .assign is lowered met) (by simpa [assigned] using met))
      · next unmet =>
          have unmet : x ∉ b := fun met => unmet (contains_iff_mem.mpr met)
          refine .ok ⟨fun _ _ _ => .declare is lowered unmet, subset_cons_self _ _, ?_, ?_⟩
          · simp [assigned]
          · exact fun sub => absurd (sub (assigned ▸ mem_singleton_self x)) unmet
  · exact .error _

mutual

/-- Every statement leads on, if its branches assign bound names only. -/
theorem Stmt.lower_leads : ∀ {b : List String} (s : Stmt),
    (∀ test yes no, s = .cond test yes no → s.assigned ⊆ b) → Gives (Leads b s) (s.lower b)
  | _, .ret none, _ => by
    rw [Stmt.lower]
    exact .ok (.same (fun _ _ _ => .retNothing) (nil_subset _))
  | _, .ret (some value), _ => by
    rw [Stmt.lower]
    exact Gives.outcome fun e lowered =>
      .ok (.same (fun _ _ _ => .ret lowered) (nil_subset _))
  | _, .pass, _ => by
    rw [Stmt.lower]
    exact .ok (.same (fun _ _ _ => .pass) (nil_subset _))
  | _, .expr value, _ => by
    rw [Stmt.lower]
    exact Gives.outcome fun e lowered =>
      .ok (.same (fun _ _ _ => .expr lowered) (nil_subset _))
  -- An augmented assignment declares nothing, so it leads on as an expression does.
  | _, .augAssign target op value, _ => by
    rw [Stmt.lower.eq_def]
    dsimp only
    split
    · split
      · exact .error _
      · next known =>
          exact Gives.outcome fun e lowered =>
            .ok (.same (fun _ _ _ => .augment known lowered) (nil_subset _))
    · exact .error _
  | b, .assign [target] value, _ | b, .annAssign target _ (some value), _ => by
    rw [Stmt.lower]
    refine (assignment_leads (some value) ?_).bind fun _ leads => .ok leads
    rintro x rfl
    rfl
  | _, .assign [] _, _ | _, .assign (_ :: _ :: _) _, _ => by
    rw [Stmt.lower.eq_def]
    exact .error _
  | b, .annAssign target _ none, _ => by
    rw [Stmt.lower]
    refine (assignment_leads none ?_).bind fun _ leads => .ok leads
    rintro x rfl
    rfl
  -- Branches may only assign what is bound, and then they leave it so.
  | b, .cond test yes no, sub => by
    obtain ⟨subYes, subNo⟩ := append_subset.mp (sub test yes no rfl)
    rw [Stmt.lower]
    refine Gives.outcome fun c lowered => ?_
    refine (lowerAll_within yes subYes).bind ?_
    rintro ⟨ys, _⟩ ⟨rfl, yes⟩
    refine (lowerAll_within no subNo).bind ?_
    rintro ⟨ns, _⟩ ⟨rfl, no⟩
    exact .ok (.same (fun _ _ _ => .cond lowered yes no) (sub test _ _ rfl))
  | _, .function .., _ | _, .class .., _ | _, .loop .., _ | _, .while .., _ | _, .context .., _
  | _, .attempt .., _ | _, .raise .., _ | _, .assert .., _ | _, .delete _, _
  | _, .typeAlias _, _ | _, .import _, _ | _, .importFrom .., _ | _, .elsewhere .., _
  | _, .break, _ | _, .continue, _ | _, .match .., _ => by
    rw [Stmt.lower.eq_def]
    exact .error _

/-- Where all assigned names are bound nothing more is bound. -/
theorem lowerAll_within : ∀ {b : List String} (ss : List Stmt), assignedAll ss ⊆ b →
    Gives (fun r => r.2 = b ∧ Lowers b ss r.1 b) (lowerAll b ss)
  | _, [], _ => by
    rw [lowerAll]
    exact .ok ⟨rfl, .nil⟩
  | b, s :: ss, sub => by
    obtain ⟨subHead, subTail⟩ := append_subset.mp sub
    rw [lowerAll]
    refine Gives.outcome fun ⟨first, b₁⟩ lowered => ?_
    have leads := s.lower_leads (fun _ _ _ _ => subHead) _ lowered
    cases leads.keeps subHead
    refine (lowerAll_within ss subTail).bind ?_
    rintro ⟨rest, _⟩ ⟨rfl, lowers⟩
    exact .ok ⟨rfl, leads.lowers _ _ _ lowers⟩

end

/-- A body whose hoisted names are bound is lowered statement by statement. -/
theorem lowerAll_lowers : ∀ {b : List String} {seen : Hoisting} (ss : List Stmt), seen.1 ⊆ b →
    (noteAll false seen ss).2 ⊆ b → Gives (fun r => Lowers b ss r.1 r.2) (lowerAll b ss)
  | _, _, [], _, _ => by
    rw [lowerAll]
    exact .ok .nil
  | b, seen, s :: ss, met, hoisted => by
    have keeps := (noteAll_noted ss false (s.noteNames false seen)).keeps
    have hoistedHead : (s.noteNames false seen).2 ⊆ b := fun _ hx => hoisted (keeps hx)
    rw [lowerAll]
    refine Gives.outcome fun ⟨first, b₁⟩ lowered => ?_
    -- a name assigned in a branch was met before, or it is hoisted
    have leads := s.lower_leads (b := b) (fun test yes no is x hx => by
      subst is
      have noted := (noteAll_noted yes true seen).append (noteAll_noted no true _)
      rcases noted.hoists rfl x ((noted.names x).mpr (.inr hx)) with hx | hx
      · exact met hx
      · exact hoistedHead hx) _ lowered
    have met' : (s.noteNames false seen).1 ⊆ b₁ := fun x hx =>
      (((s.noteNames_noted false seen).names x).mp hx).elim (fun hx => leads.grows (met hx))
        fun hx => leads.assigned hx
    refine (lowerAll_lowers ss met' fun _ hx => leads.grows (hoisted hx)).bind ?_
    rintro ⟨rest, _⟩ lowers
    exact .ok (leads.lowers _ _ _ lowers)

theorem valueOutcome_plain (b : List String) (value : Option Expr) :
    PlainOutcome (valueOutcome b value) := by
  cases value with
  | none => exact .ok trivial
  | some value => exact value.lower_plain b

/-- What a body is turned into is plain, and declares what is bound behind it. -/
theorem Lowers.plain {b b' : List String} {ss : List Stmt} {ts : List Script.Stmt}
    (lowers : Lowers b ss ts b') : PlainStmts ts ∧ b' = Script.stmtDeclarations ts ++ b := by
  have none {e : Script.Expr} (plain : e.Plain) := Script.Expr.Plain.declarations_eq_nil plain
  induction lowers with
  | nil => exact ⟨trivial, rfl⟩
  | retNothing _ ih =>
    refine ⟨⟨trivial, ih.1⟩, ?_⟩
    simpa [stmtDeclarations, Script.Stmt.declarations] using ih.2
  | pass _ ih => exact ih
  | ret lowered _ ih | expr lowered _ ih | augment _ lowered _ ih =>
    have plain := Expr.lower_plain _ _ _ lowered
    refine ⟨⟨plain, ih.1⟩, ?_⟩
    simpa [stmtDeclarations, Script.Stmt.declarations, none plain, Script.Target.declared] using ih.2
  | assign _ lowered _ _ ih | declare _ lowered _ _ ih =>
    have plain := valueOutcome_plain _ _ _ lowered
    refine ⟨⟨plain, ih.1⟩, ?_⟩
    simpa [stmtDeclarations, Script.Stmt.declarations, none plain, Script.Target.declared] using ih.2
  | cond lowered _ _ _ ihYes ihNo ih =>
    have plain := Expr.lower_plain _ _ _ lowered
    have nothingYes := self_eq_append_left.mp ihYes.2
    have nothingNo := self_eq_append_left.mp ihNo.2
    refine ⟨⟨⟨plain, ⟨ihYes.1, nothingYes⟩, ihNo.1, nothingNo⟩, ih.1⟩, ?_⟩
    simpa [stmtDeclarations, Script.Stmt.declarations, none plain, nothingYes, nothingNo] using ih.2

/-! ## Programs -/

/-- Declaring names ahead of a body leaves it plain. -/
theorem plainStmts_hoist (names : List String) {ss : List Script.Stmt} (plain : PlainStmts ss) :
    PlainStmts (names.map (fun x => .bare ⟨x, some .let, none⟩) ++ ss) := by
  induction names with
  | nil => exact plain
  | cons name names ih => exact ⟨trivial, ih⟩

/-- A definition is turned into a function with the same parameters, which declares the hoisted
names and then runs its body. -/
theorem lowerDefinition_lowers (name : String) (params : Params Expr) (body : List Stmt) :
    Gives (fun s => ∃ names stmts b,
      params.names? = .ok names ∧
      s = .function name (names.map .name)
        ((hoistedNames names (withoutDescription body)).map (fun x => .bare ⟨x, some .let, none⟩) ++
          stmts) ∧
      Lowers (hoistedNames names (withoutDescription body) ++ names) (withoutDescription body)
        stmts b)
      (lowerDefinition name params body) := by
  rw [lowerDefinition]
  refine Gives.outcome fun names known => ?_
  refine (@lowerAll_lowers _ (names, []) _ (subset_append_right _ _)
    (subset_append_left _ _)).bind ?_
  rintro ⟨stmts, b⟩ lowers
  exact .ok ⟨names, stmts, b, known, rfl, lowers⟩

/-- So its parameters are names and its statements plain. -/
theorem lowerDefinition_plain (name : String) (params : Params Expr) (body : List Stmt) :
    Gives (fun s => ∃ ps ss, s = .function name ps ss ∧ PlainParams ps ∧ PlainStmts ss)
      (lowerDefinition name params body) := by
  intro s lowered
  obtain ⟨names, stmts, b, _, rfl, lowers⟩ := lowerDefinition_lowers name params body s lowered
  exact ⟨_, _, rfl, plainParams_names names, plainStmts_hoist _ lowers.plain.1⟩

/-- Only a definition is turned into a function, and it is the first statement. -/
theorem lowerFirst_function (stmts : List Stmt) :
    Gives (fun p => ∀ name ps block, p = ⟨[.function name ps block]⟩ →
      ∃ params types body start decorators rest,
        stmts = .function false name params types body start decorators :: rest ∧
        lowerDefinition name params body = .ok (.function name ps block)) (lowerFirst stmts) := by
  rw [lowerFirst.eq_def]
  split
  · exact .error _
  · exact .error _
  · next id params types body start decorators rest =>
      refine Gives.outcome fun s lowered => .ok ?_
      rintro name ps block ⟨⟩
      obtain ⟨_, _, _, _, same, _⟩ := lowerDefinition_lowers id params body _ lowered
      cases same
      exact ⟨params, types, body, start, decorators, rest, rfl, lowered⟩
  · exact Gives.bind' fun e => .ok (by rintro _ _ _ ⟨⟩)
  · exact Gives.bind' fun e => .ok (by rintro _ _ _ ⟨⟩)
  · exact .error _

/-- The same of the source of a routine. -/
theorem definition_of_toProgram {source name : String} {ps : List Script.Param}
    {block : List Script.Stmt} (accepted : toProgram source = .ok ⟨[.function name ps block]⟩) :
    ∃ m params types body start decorators rest, readSource source.toList = some m ∧
      m.body = .function false name params types body start decorators :: rest ∧
      lowerDefinition name params body = .ok (.function name ps block) := by
  unfold toProgram at accepted
  split at accepted
  · cases accepted
  · split at accepted
    · next m read =>
        obtain ⟨params, types, body, start, decorators, rest, first, lowered⟩ :=
          lowerFirst_function m.body _ accepted name ps block rfl
        exact ⟨m, params, types, body, start, decorators, rest, read, first, lowered⟩
    · cases accepted

theorem toOption_eq_some {ε α : Type} {o : Except ε α} {a : α} (is : o.toOption = some a) :
    o = .ok a := by
  cases o <;> cases is
  rfl

/-- The body of a definition beside the function that it is turned into. -/
structure Turned where
  name : String
  /-- The statements of the definition. -/
  body : List Stmt
  /-- The parameters of the function. -/
  params : List Script.Param
  /-- The statements of the function. -/
  block : List Script.Stmt

/-- The definition in a source and the function that it is turned into. -/
def turned? (source : String) : Option Turned :=
  match readSource source.toList, toProgram source with
  | some ⟨.function false _ _ _ body _ _ :: _, _⟩, .ok ⟨[.function name params block]⟩ =>
    some ⟨name, body, params, block⟩
  | _, _ => none

/-- What `turned?` finds is read from the source and is its program. -/
theorem turned?_eq_some {source : String} {t : Turned} (is : turned? source = some t) :
    ∃ m params types start decorators rest, readSource source.toList = some m ∧
      m.body = .function false t.name params types t.body start decorators :: rest ∧
      toProgram source = .ok ⟨[.function t.name t.params t.block]⟩ := by
  unfold turned? at is
  split at is
  · next read accepted =>
      obtain ⟨m, _, _, _, _, _, _, read', first, _⟩ := definition_of_toProgram accepted
      cases read.symm.trans read'
      cases first
      cases is
      exact ⟨_, _, _, _, _, _, read, rfl, accepted⟩
  · cases is

end JexlScript.Routine
