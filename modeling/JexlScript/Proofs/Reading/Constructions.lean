import JexlScript.Proofs.Reading.InPlace

/-!
# What `new` constructs

The reader takes for the constructor of `new` the longest chain of members up to the first
list of arguments. The printer puts a constructor into parentheses if it is a call or a
construction itself, and leaves all others bare: so in `new f().g(x)` the arguments of `f`
are taken for those of `new`. `Expr.Chain` is about constructors of any length, made of
names, members, calls and constructions; `Expr.reread` is the tree that is read for one,
with every bare `new` moved down to the first call; `construction_reads` says that it is
read indeed, and when it is the tree that was printed.
-/

namespace JexlScript.Script

open List Reading

variable {names : NameClass}
variable {ts : List Token} {c t : Expr}

/-! ## Chains -/

/-- A chain of names, members that are not optional, calls and constructions. The second
tree is the same chain, with what its arguments and computed keys are read as in place of
these. -/
inductive Expr.Chain (names : NameClass) : Expr → Expr → Prop
  | ident {n : String} (name : names.isIdentifier n = true) : Chain names (.ident n) (.ident n)
  | dot {c t : Expr} {n : String} (object : Chain names c t) (name : names.isName n = true) :
      Chain names (.member c (.ident n) false false) (.member t (.ident n) false false)
  | index {c t p q : Expr} (object : Chain names c t) (key : p.ReadsInPlace names q) :
      Chain names (.member c p true false) (.member t q true false)
  | call {c t : Expr} {args ts : List Expr} (callee : Chain names c t)
      (given : AllInPlace names args ts) : Chain names (.call c args) (.call t ts)
  | new {c t : Expr} {args ts : List Expr} (ctor : Chain names c t)
      (given : AllInPlace names args ts) : Chain names (.new c args) (.new t ts)

/-- Whether a call is reached by going down along members. -/
def Expr.reachesCall : Expr → Bool
  | .member obj _ _ _ => obj.reachesCall
  | .call .. => true
  | _ => false

/-- Moves `new` down to the first call, which it takes the arguments of. -/
def Expr.underNew : Expr → Expr
  | .member obj prop computed optional => .member obj.underNew prop computed optional
  | .call f args => if f.reachesCall then .call f.underNew args else .new f args
  | e => e

/-- The tree that is read for what is printed. -/
def Expr.reread : Expr → Expr
  | .member obj prop computed optional => .member obj.reread prop computed optional
  | .call f args => .call f.reread args
  | .new f args =>
    if f.endsInArgs then .new f.reread args else (Expr.call f.reread args).underNew
  | e => e

/-- Whether every `new` of a chain gets the constructor it was printed with: one that ends in
arguments, which the printer puts into parentheses, or one without a call on its way. -/
def Expr.keepsConstructors : Expr → Bool
  | .member obj _ _ _ => obj.keepsConstructors
  | .call f _ => f.keepsConstructors
  | .new f _ => f.keepsConstructors && (f.endsInArgs || !f.reachesCall)
  | _ => true

/-- What is read is what was printed if every constructor keeps its arguments. -/
theorem Expr.reread_eq_self_iff (e : Expr) : e.reread = e ↔ e.keepsConstructors = true := by
  induction e using Expr.reread.induct with
  | case1 obj prop computed optional ih => simpa [Expr.reread, Expr.keepsConstructors] using ih
  | case2 f args ih => simpa [Expr.reread, Expr.keepsConstructors] using ih
  -- A constructor that ends in arguments is in parentheses and keeps them.
  | case3 f args bracketed ih =>
    simpa [Expr.reread, Expr.keepsConstructors, bracketed] using ih
  | case4 f args bare ih =>
    have bare : f.endsInArgs = false := Bool.eq_false_of_not_eq_true bare
    rw [Expr.reread, bare, if_neg (by decide), Expr.keepsConstructors, bare, Bool.false_or,
      Bool.and_eq_true, ← ih]
    constructor
    · -- a call that `new` has reached is no construction
      intro same
      rw [Expr.underNew] at same
      split at same
      · cases same
      · next none =>
          obtain ⟨kept, _⟩ : f.reread = f ∧ args = args := by simpa using same
          rw [kept] at none
          exact ⟨kept, by simpa using none⟩
    · rintro ⟨kept, none⟩
      have none : f.reachesCall = false := by simpa using none
      rw [kept, Expr.underNew, none, if_neg (by decide)]
  | case5 e member call new =>
    cases e with
    | member => exact absurd rfl (member _ _ _ _)
    | call => exact absurd rfl (call _ _)
    | new => exact absurd rfl (new _ _)
    | _ => simp [Expr.reread, Expr.keepsConstructors]

/-! ## Heads and what follows them -/

/-- A member or a list of arguments behind an expression. -/
inductive Suffix where
  /-- `.prop` or `[prop]` -/
  | member (prop : Expr) (computed : Bool)
  /-- `(args)` -/
  | call (args : List Expr)

/-- An expression with a suffix behind it. -/
def Expr.followed (e : Expr) : Suffix → Expr
  | .member prop computed => .member e prop computed false
  | .call args => .call e args

/-- An expression with several suffixes behind it. -/
def Expr.followedBy (e : Expr) (suffixes : List Suffix) : Expr := suffixes.foldl Expr.followed e

/-- The tokens of a suffix. -/
inductive Suffix.Written : Suffix → List Token → Prop
  | dot (n : String) : Written (.member (.ident n) false) [.sign ".", .word n]
  | index {ts : List Token} {p : Expr} (key : ReadsWhole ts p) :
      Written (.member p true) (.sign "[" :: ts ++ [.sign "]"])
  | call {tss : List (List Token)} {args : List Expr} (inside : ∀ ts ∈ tss, StartsInside ts)
      (given : List.Forall₂ ReadsWhole tss args) :
      Written (.call args) (parenTokens (commaTokens tss))

/-- A written suffix is taken by the reader of suffixes. -/
theorem Suffix.Written.suffixes {s : Suffix} (h : s.Written ts) (e : Expr) (rest : List Token) :
    Reading.suffixes e (ts ++ rest) = Reading.suffixes (e.followed s) rest := by
  cases h with
  | dot n => exact suffixes_member e n false rest
  | index key => exact suffixes_index e false rest key
  | call inside given => exact suffixes_call e rest inside given

theorem suffixes_followedBy {ss : List Suffix} {tss : List (List Token)}
    (h : List.Forall₂ Suffix.Written ss tss) (e : Expr) (rest : List Token) :
    Reading.suffixes e (tss.flatten ++ rest) = Reading.suffixes (e.followedBy ss) rest := by
  induction h generalizing e with
  | nil => rfl
  | cons first more ih =>
    rw [flatten_cons, append_assoc, first.suffixes, ih]
    rfl

/-- A written member is also taken as part of a constructor. -/
theorem Suffix.Written.members {prop : Expr} {computed : Bool}
    (h : (Suffix.member prop computed).Written ts) (e : Expr) (rest : List Token) :
    Reading.members e (ts ++ rest) = Reading.members (.member e prop computed false) rest := by
  cases h with
  | dot n =>
    rw [Reading.members.eq_def]
    simp [memberName]
  | index key =>
    have inner := key (.sign "]" :: rest) (ends_sign rest (by decide))
    rw [Reading.members.eq_def]
    simp [inner, expect_self]

/-- Reads the rest of a construction behind its constructor's head. -/
def constructed (f : Expr) (ts : List Token) : Option (Expr × List Token) := do
  let (f, ts) ← Reading.members f ts
  let ts ← expect "(" ts
  let (args, ts) ← elements ")" ts
  some (.new f args, ts)

/-- `new` takes the longest chain of members and then the arguments. -/
theorem head_new (ts : List Token) :
    Reading.head (.word "new" :: ts) = (Reading.head ts).bind fun (f, ts) => constructed f ts := by
  rw [Reading.head.eq_def]
  rfl

/-- Written arguments end the constructor. -/
theorem Suffix.Written.constructed {args : List Expr} (h : (Suffix.call args).Written ts) (f : Expr)
    (rest : List Token) :
    Script.constructed f (ts ++ rest) = some (.new f args, rest) := by
  cases h with
  | call inside given =>
    have stop : ∀ more, Reading.members f (.sign "(" :: more) = some (f, .sign "(" :: more) := by
      intro more
      rw [Reading.members.eq_def]
      simp
    have inner := elements_tokens (s := ")") rest (by decide) inside given
    rw [Script.constructed, parenTokens, append_assoc, cons_append, stop]
    simp [expect_self, inner]

/-- Tokens are read as a head, which no suffix of its own ends, and suffixes behind it. -/
structure Headed (ts : List Token) (t : Expr) : Prop where
  parts : ∃ hs tss h ss, ts = hs ++ tss.flatten ∧ t = h.followedBy ss ∧ h.reachesCall = false ∧
    List.Forall₂ Suffix.Written ss tss ∧ ∀ rest, Reading.head (hs ++ rest) = some (h, rest)

theorem Headed.primary {t : Expr} (h : Headed ts t) : ReadsPrimary ts t := by
  obtain ⟨hs, tss, h, ss, rfl, rfl, _, suffixes, head⟩ := h
  intro rest
  rw [leftHandSide, append_assoc, head]
  exact suffixes_followedBy suffixes h rest

/-- What has a head may be followed by a suffix. -/
theorem Headed.suffix {ts us : List Token} {t : Expr} {s : Suffix} (h : Headed ts t)
    (written : s.Written us) : Headed (ts ++ us) (t.followed s) := by
  obtain ⟨hs, tss, h, ss, rfl, rfl, bare, suffixes, head⟩ := h
  refine ⟨hs, tss ++ [us], h, ss ++ [s], by simp, ?_, bare, ?_, head⟩
  · simp [Expr.followedBy]
  · exact rel_append suffixes (.cons written .nil)

/-! ## `new` before a chain -/

/-- Behind the first call `new` changes nothing. -/
theorem Expr.underNew_followedBy {e : Expr} (called : e.reachesCall = true) (ss : List Suffix) :
    (e.followedBy ss).reachesCall = true ∧
      (e.followedBy ss).underNew = e.underNew.followedBy ss := by
  induction ss generalizing e with
  | nil => exact ⟨called, rfl⟩
  | cons s ss ih =>
    have step : (e.followed s).reachesCall = true ∧
        (e.followed s).underNew = e.underNew.followed s := by
      cases s with
      | member => exact ⟨called, rfl⟩
      | call => exact ⟨rfl, by simp [Expr.followed, Expr.underNew, called]⟩
    have rest := ih step.1
    rw [step.2] at rest
    exact rest

/-- `new` stops at the first arguments among the suffixes. -/
theorem Headed.constructed {ss : List Suffix} {tss : List (List Token)}
    (suffixes : List.Forall₂ Suffix.Written ss tss) {us : List Token} {args : List Expr}
    (given : (Suffix.call args).Written us) (hs : List Token) {f : Expr}
    (bare : f.reachesCall = false)
    (head : ∀ rest, Reading.head (.word "new" :: hs ++ rest) = Script.constructed f rest) :
    Headed (.word "new" :: hs ++ (tss.flatten ++ us)) (Expr.call (f.followedBy ss) args).underNew := by
  induction suffixes generalizing hs f with
  | nil =>
    refine ⟨.word "new" :: hs ++ us, [], .new f args, [], by simp, ?_, rfl, .nil, ?_⟩
    · simp [Expr.followedBy, Expr.underNew, bare]
    · intro rest
      rw [append_assoc, head, given.constructed]
  | @cons s ts ss tss first more ih =>
    cases s with
    | member prop computed =>
      have next := ih (hs ++ ts) (f := .member f prop computed false) bare fun rest => by
        rw [← cons_append, append_assoc, head, Script.constructed, first.members]
        rfl
      simpa [Expr.followedBy, Expr.followed] using next
    | call args' =>
      -- the first call takes its arguments for those of `new`
      obtain ⟨called, done⟩ := Expr.underNew_followedBy (e := .call f args') rfl ss
      refine ⟨.word "new" :: hs ++ ts, tss ++ [us], .new f args', ss ++ [.call args],
        by simp, ?_, rfl, rel_append more (.cons given .nil), ?_⟩
      · change (Expr.call ((Expr.call f args').followedBy ss) args).underNew = _
        rw [Expr.underNew, called, if_pos rfl, done]
        simp [Expr.underNew, bare, Expr.followedBy, Expr.followed]
      · intro rest
        rw [append_assoc, head, first.constructed]

/-- A bare constructor loses its first arguments to `new`. -/
theorem Headed.new {ts us : List Token} {t : Expr} {args : List Expr} (h : Headed ts t)
    (given : (Suffix.call args).Written us) :
    Headed (.word "new" :: ts ++ us) (Expr.call t args).underNew := by
  obtain ⟨hs, tss, f, ss, rfl, rfl, bare, suffixes, head⟩ := h
  have result := Headed.constructed suffixes given hs bare fun rest => by
    rw [cons_append, head_new, head]
    rfl
  simpa using result

/-- A constructor in parentheses keeps them. -/
theorem Headed.newParens {ts us : List Token} {t : Expr} {args : List Expr} (h : ReadsWhole ts t)
    (given : (Suffix.call args).Written us) :
    Headed (.word "new" :: parenTokens ts ++ us) (.new t args) := by
  refine ⟨.word "new" :: parenTokens ts ++ us, [], .new t args, [], by simp, rfl, rfl, .nil, ?_⟩
  intro rest
  have inner := h (.sign ")" :: (us ++ rest)) (ends_sign _ (by decide))
  have parens : Reading.head (parenTokens ts ++ (us ++ rest)) = some (t, us ++ rest) := by
    rw [parenTokens, append_assoc, cons_append, Reading.head.eq_def]
    simp [inner, expect_self]
  rw [cons_append, cons_append, append_assoc, head_new, parens]
  exact given.constructed t rest

/-! ## Chains are read -/

/-- The tokens of a chain, and what is needed to read them. -/
structure Expr.ChainTokens (names : NameClass) (c : Expr) (ts : List Token) (t : Expr) : Prop where
  writable : c.isWritable = true
  lexes : ∀ rest, EndsName names rest → Lexes names c.text ts rest
  headed : Headed ts t
  word : ∃ n us, ts = .word n :: us ∧ unaryOperator? (.word n) = none ∧
    us.head? ≠ some (.sign "=>")

theorem endsName_cons {c : Char} (rest : List Char) (h : c ∈ followers ∨ c = '.') :
    EndsName names (c :: rest) := by
  intro d hd
  obtain rfl : c = d := by simpa using hd
  exact part_followers h

/-- A chain may stand wherever an expression may. -/
theorem Expr.ChainTokens.whole (h : c.ChainTokens names ts t) :
    ReadsWhole ts t := by
  obtain ⟨n, us, rfl, noUnary, noArrow⟩ := h.word
  have unary := h.headed.primary.unary ⟨_, _, rfl, noUnary⟩
  refine (unary.level.mono (Nat.zero_le 10) (Nat.le_refl 10)).whole fun rest ends => ?_
  have next : (us ++ rest).head? ≠ some (.sign "=>") := by
    cases us with
    | nil => exact ends.head?_ne_arrow
    | cons u us => exact noArrow
  simpa [startsArrow] using next

theorem Expr.ChainTokens.written (h : c.ChainTokens names ts t) :
    c.Written names ts t where
  writable := h.writable
  lexes rest closes := by
    refine h.lexes rest fun d hd => part_followers (Or.inl ?_)
    have close := closes d hd
    fin_cases close <;> decide
  inside := by
    obtain ⟨n, us, shape, _⟩ := h.word
    exact ⟨_, _, shape, by simp⟩
  reads := h.whole

/-- No chain is put into parentheses before a suffix. -/
theorem Expr.Chain.needsParensBefore (h : c.Chain names t) (point : Bool) :
    c.needsParensBefore point = false := by
  cases h <;> rfl

/-- What is read of the arguments does not change whether a chain ends in some. -/
theorem Expr.Chain.endsInArgs (h : c.Chain names t) :
    t.endsInArgs = c.endsInArgs := by
  cases h <;> rfl

/-- A chain with a suffix is written and read as one. -/
theorem Expr.ChainTokens.suffix {c outer t : Expr} {s : Suffix} {ts us : List Token}
    (h : c.ChainTokens names ts t) (text : List Char) (writable : outer.isWritable = true)
    (shape : outer.text = c.text ++ text) (stop : ∀ rest, EndsName names (text ++ rest))
    (lexes : ∀ rest, EndsName names rest → Lexes names text us rest) (written : s.Written us) :
    outer.ChainTokens names (ts ++ us) (t.followed s) where
  writable
  lexes rest ends := by
    rw [shape]
    exact Lexes.append (h.lexes _ (stop rest)) (lexes rest ends)
  headed := h.headed.suffix written
  word := by
    obtain ⟨n, vs, rfl, noUnary, noArrow⟩ := h.word
    refine ⟨n, vs ++ us, rfl, noUnary, ?_⟩
    cases vs with
    | nil => cases written <;> simp [parenTokens]
    | cons => exact noArrow

/-- A construction is written and read as a chain, with its `new` moved down if it is bare. -/
theorem Expr.ChainTokens.construction {args args' : List Expr} (h : c.ChainTokens names ts t)
    (chain : ∀ point, c.needsParensBefore point = false) (given : AllInPlace names args args') :
    ∃ us, (Expr.new c args).ChainTokens names us
      (if c.endsInArgs then .new t args' else (Expr.call t args').underNew) := by
  obtain ⟨tss, lexes, inside, reads⟩ := given.arguments
  have written : (Suffix.call args').Written (parenTokens (commaTokens tss)) := .call inside reads
  refine ⟨.word "new" :: parenTokensIf c.endsInArgs ts ++ parenTokens (commaTokens tss),
    by simp [Expr.isWritable, h.writable, given.writable], ?_, ?_, "new", _, rfl, by decide, ?_⟩
  · intro rest _
    rw [Expr.text_construction, chain, Bool.or_false, append_assoc]
    refine Lexes.append (a := "new ".toList) (s := [.word "new"]) ?_
      (Lexes.append (Lexes.parensIf (fun _ => ?_) fun _ => ?_) (lexes rest))
    · exact Lexes.append (a := "new".toList) (Lexes.word (isName_ascii (by decide))
        (endsName_cons _ (Or.inl (by decide)))) Lexes.blank
    · exact h.lexes _ (endsName_cons _ (Or.inl (by decide)))
    · exact h.lexes _ (endsName_cons _ (Or.inl (by decide)))
  · cases c.endsInArgs with
    | true => exact Headed.newParens h.whole written
    | false => exact h.headed.new written
  · obtain ⟨n, us, rfl, _, _⟩ := h.word
    cases c.endsInArgs <;> simp [parenTokensIf, parenTokens]

/-- Every chain has tokens, which are read as the tree of `reread`. -/
theorem Expr.Chain.tokens (h : c.Chain names t) :
    ∃ ts, c.ChainTokens names ts t.reread := by
  induction h with
  | @ident n name =>
    have free := not_reserved name
    refine ⟨[.word n], rfl, fun rest ends => ?_, ⟨[.word n], [], .ident n, [], rfl, rfl, rfl, .nil,
      head_ident free⟩, n, [], rfl, unaryOperator?_of_isIdentifier name, by simp⟩
    rw [Expr.text_ident]
    exact Lexes.word (isName_of_isIdentifier name) ends
  | @dot c t n object name ih =>
    obtain ⟨ts, tokens⟩ := ih
    obtain ⟨d, ds, chars, start⟩ := isName_head name
    -- Each suffix is a token of its own, behind a chain that needs no parentheses.
    refine ⟨_, tokens.suffix ('.' :: n.toList)
      (by simp [Expr.isWritable, tokens.writable]) ?_ (fun rest => endsName_cons _ (Or.inr rfl))
      (fun rest ends => ?_) (.dot n)⟩
    · rw [Expr.text_member, object.needsParensBefore]
      rfl
    · have point : Lexes names ['.'] [.sign "."] (n.toList ++ rest) := by
        rw [chars]
        exact Lexes.point start
      exact point.append (Lexes.word name ends)
  | @index c t p q object key ih =>
    obtain ⟨ts, tokens⟩ := ih
    obtain ⟨us, key⟩ := key
    refine ⟨_, tokens.suffix ('[' :: p.text ++ [']'])
      (by simp [Expr.isWritable, tokens.writable, key.writable]) ?_
      (fun rest => endsName_cons _ (Or.inl (by decide))) (fun rest _ => ?_) (.index key.reads)⟩
    · rw [Expr.text_member, object.needsParensBefore]
      rfl
    · exact Lexes.bracketed (l := "[") (r := "]") (by decide)
        (key.lexes _ (closes_cons _ (by decide)))
  | @call c t args args' callee given ih =>
    obtain ⟨ts, tokens⟩ := ih
    obtain ⟨tss, lexes, inside, reads⟩ := given.arguments
    refine ⟨_, tokens.suffix (s := .call args') _
      (by simp [Expr.isWritable, tokens.writable, given.writable]) ?_
      (fun rest => endsName_cons _ (Or.inl (by decide))) (fun rest _ => lexes rest)
      (.call inside reads)⟩
    rw [Expr.text_call, callee.needsParensBefore]
    rfl
  | @new c t args args' ctor given ih =>
    obtain ⟨ts, tokens⟩ := ih
    rw [Expr.reread, ctor.endsInArgs]
    exact tokens.construction ctor.needsParensBefore given

/-- Every chain is printed, and its text is read as the tree of `reread`. -/
theorem Expr.Chain.print? (h : c.Chain names t) :
    ∃ text, (Node.expr c).print? = some text ∧ Reading.read names text.toList = some t.reread := by
  obtain ⟨ts, tokens⟩ := h.tokens
  refine ⟨String.ofList c.text, ?_, ?_⟩
  · rw [Node.print?, Node.isWritable, tokens.writable, if_pos rfl, Node.text]
  · rw [String.toList_ofList]
    exact Expr.ReadsInPlace.read_text ⟨ts, tokens.written⟩

theorem Expr.Chain.reachesCall (h : c.Chain names t) :
    t.reachesCall = c.reachesCall := by
  induction h with
  | ident | call | new => rfl
  | dot _ _ ih => exact ih
  | index _ _ ih => exact ih

theorem Expr.Chain.keepsConstructors (h : c.Chain names t) :
    t.keepsConstructors = c.keepsConstructors := by
  induction h with
  | ident => rfl
  | dot _ _ ih => exact ih
  | index _ _ ih => exact ih
  | call _ _ ih => exact ih
  | new ctor _ ih =>
    rw [Expr.keepsConstructors, ih, ctor.endsInArgs, ctor.reachesCall, Expr.keepsConstructors]

/-- A construction is printed, and its text is read as `Expr.reread` has it: as the
construction that was printed exactly where every `new` keeps its constructor. -/
theorem construction_reads {ctor ctor' : Expr} {args args' : List Expr}
    (chain : ctor.Chain names ctor') (given : AllInPlace names args args') :
    ∃ text, (Node.expr (.new ctor args)).print? = some text ∧
      Reading.read names text.toList = some (Expr.new ctor' args').reread ∧
      (Reading.read names text.toList = some (.new ctor' args') ↔
        (Expr.new ctor args).keepsConstructors = true) := by
  have whole := Expr.Chain.new chain given
  obtain ⟨text, printed, read⟩ := whole.print?
  refine ⟨text, printed, read, ?_⟩
  rw [read, Option.some.injEq, Expr.reread_eq_self_iff, whole.keepsConstructors]

/-- In `new new a.b(1).c[(x) => x](y)` both constructors are kept. -/
theorem construction_reads_nested : ∃ (ctor ctor' : Expr) (args' : List Expr),
    ctor = .member (.member (.new (.member (.ident "a") (.ident "b") false false)
      [.lit (.int 1)]) (.ident "c") false false) (.arrow [.name "x"] (.ident "x")) true false ∧
    ctor.Chain .ascii ctor' ∧ AllInPlace .ascii [.ident "y"] args' ∧
    ∃ text, (Node.expr (.new ctor [.ident "y"])).print? = some text ∧
      Reading.read .ascii text.toList = some (.new ctor' args') := by
  have chain : Expr.Chain .ascii _ _ := .index (.dot (.new (.dot (.ident (n := "a") (by decide))
    (by decide : NameClass.ascii.isName "b" = true))
    (allInPlace [.lit (.int 1)] (by decide))) (by decide : NameClass.ascii.isName "c" = true))
    (Expr.readsInPlace (.arrow [.name "x"] (.ident "x")) (by decide))
  have given : AllInPlace .ascii [.ident "y"] _ := allInPlace _ (by decide)
  obtain ⟨text, printed, _, kept⟩ := construction_reads chain given
  exact ⟨_, _, _, rfl, chain, given, text, printed, kept.mpr rfl⟩

/-- In `new f().g(x)` the constructor `f().g` is lost: `f` is constructed. -/
theorem new_takes_first_arguments :
    (Node.expr (.new (.member (.call (.ident "f") []) (.ident "g") false false)
      [.ident "x"])).print? = some "new f().g(x)" ∧
    Reading.read .ascii "new f().g(x)".toList = some (.call (.member (.new (.ident "f") [])
      (.ident "g") false false) [.ident "x"]) := by
  have chain : Expr.Chain .ascii _ _ := .new (.dot (.call (.ident (n := "f") (by decide)) .nil)
    (by decide : NameClass.ascii.isName "g" = true))
    (allInPlace [.ident "x"] (by decide))
  obtain ⟨text, printed, read⟩ := chain.print?
  have shape : (Node.expr (.new (.member (.call (.ident "f") []) (.ident "g") false false)
      [.ident "x"])).print? = some "new f().g(x)" := by decide
  obtain rfl : text = "new f().g(x)" := by simpa [printed] using shape
  exact ⟨shape, read⟩

end JexlScript.Script
