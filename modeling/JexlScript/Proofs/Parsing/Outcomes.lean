import JexlScript.Proofs.Parsing.Places

/-!
# How a reader ends

`Parse.Follows` gathers what is shown of each layer of the parser. A reader that
succeeds has consumed tokens that spell its result. One that fails is told where it
could have gone on: behind what it has read more tokens may be put so that the whole
spells a result. And it looks at no token behind that place: two lists with a start in
common are read alike as long as the reader stays in it, even with another fuel, since
that is counted in tokens.

There is one exception. A dot that stands for an operand outside of all filters is not
refused before the token after it, and is refused for that token unless it is a name.
By then nothing helps: see `Strays`.
-/

namespace JexlScript

open List

open Formula (Place)

/-! ## Completing tokens -/

/-- The lexemes that a text may be completed with. -/
def completing (name : String) : List Lexeme :=
  [.identifier name, .symbol .colon ":", .symbol .closeParen ")", .symbol .closeBracket "]",
    .symbol .closeCurl "\x7d"]

/-- Some completing lexemes do, wherever their tokens come from. -/
def Fillable (name : String) (post : List Token → Prop) : Prop :=
  ∃ lexemes, (∀ l ∈ lexemes, l ∈ completing name) ∧
    ∀ ys : List Token, ys.map Token.lexeme = lexemes → post ys

theorem Fillable.mono {name : String} {early post : List Token → Prop}
    (fills : Fillable name early) (weaker : ∀ ys, early ys → post ys) : Fillable name post := by
  obtain ⟨lexemes, known, all⟩ := fills
  exact ⟨lexemes, known, fun ys spelled => weaker ys (all ys spelled)⟩

/-- The tokens end in a dot that stands for an operand outside of all filters, and no name
follows. -/
def Strays (s : Place) (before rest : List Token) : Prop :=
  ∃ init d, before = init ++ [d] ∧ d.Is .dot ∧ (s.after init).due = true ∧
    (s.after init).inFilter = false ∧ ∀ t ∈ rest.head?, ∀ n, t.lexeme ≠ .identifier n

/-- A dot that strays does so behind any tokens. -/
theorem Strays.behind {s : Place} {ts before rest : List Token}
    (stray : Strays (s.after ts) before rest) : Strays s (ts ++ before) rest := by
  obtain ⟨init, d, rfl, dot, due, outside, nameless⟩ := stray
  rw [← Place.after_append] at due outside
  exact ⟨ts ++ init, d, (append_assoc ..).symm, dot, due, outside, nameless⟩

namespace Parse

variable {α β : Type}

theorem bind_of_error {p : Parse α} {k : α → Parse β} {c : Cursor} {fault : ParseFault}
    (ran : p c = .error fault) : (p >>= k) c = .error fault := by
  simp only [Bind.bind, StateT.bind, ran, Except.bind]

/-! ## Outcomes -/

section

variable (told : Prop) (name : String) (s s' : Place) (post : List Token → Bool → α → Prop)

/-- How a reader ends on `us ++ x`, if `second` is how it ends on `us ++ y`: whether it stays in
`us` and agrees, or gets into `x`. -/
def Outcome (us x y : List Token) (m : Bool) (second : Except ParseFault (α × Cursor)) :
    Except ParseFault (α × Cursor) → Prop
  | .ok (a, c) => ∃ ts m', us ++ x = ts ++ c.rest ∧ c.relative = (m || m') ∧ s.after ts = s' ∧
      post ts m' a ∧ (told → c.rest <:+ x ∨
        ∃ vs, us = ts ++ vs ∧ c.rest = vs ++ x ∧ second = .ok (a, ⟨vs ++ y, c.relative⟩))
  | .error fault => told → ∃ ts z, us ++ x = ts ++ z ∧ fault.found = z.head? ∧
      (Fillable name (fun ys => s.after (ts ++ ys) = s' ∧ ∃ m' a, post (ts ++ ys) m' a) ∨
        Strays s ts z) ∧
      (z <:+ x ∨ ∃ fault', second = .error fault')

/-- Two readers, which may differ in their fuel, on lists of at most `n` and `n'` tokens.
The lexemes of `fill` spell a result where nothing is read. -/
structure Follows (fill : List Lexeme) (n n' : Nat) (p p' : Parse α) : Prop where
  known : ∀ l ∈ fill, l ∈ completing name
  fills : ∀ ys : List Token, ys.map Token.lexeme = fill → s.after ys = s' ∧ ∃ m a, post ys m a
  runs : ∀ us x y m, (us ++ x).length ≤ n → (us ++ y).length ≤ n' →
    Outcome told name s s' post us x y m (p' ⟨us ++ y, m⟩) (p ⟨us ++ x, m⟩)

/-- The same where the first token is given. -/
def FollowsAt (t : Option Token) (n n' : Nat) (p p' : Parse α) : Prop :=
  ∀ us x y m, (us ++ x).head? = t → (us ++ x).length ≤ n → (us ++ y).length ≤ n' →
    Outcome told name s s' post us x y m (p' ⟨us ++ y, m⟩) (p ⟨us ++ x, m⟩)

end

variable {told : Prop} {name : String} {s s' s'' : Place} {post : List Token → Bool → α → Prop}
  {fill fill' : List Lexeme} {n n' : Nat} {p p' q q' : Parse α}

/-- Where nothing is shared nothing is said about the second list. -/
theorem Outcome.alone {x y y' : List Token} {m : Bool}
    {o second second' : Except ParseFault (α × Cursor)}
    (outcome : Outcome told name s s' post [] x y m second o) :
    Outcome told name s s' post [] x y' m second' o := by
  cases o with
  | error fault =>
    intro asked
    obtain ⟨ts, z, tokens, found, mended, _⟩ := outcome asked
    exact ⟨ts, z, tokens, found, mended, .inl ⟨ts, tokens.symm⟩⟩
  | ok result =>
    obtain ⟨ts, m', tokens, mark, place, holds, _⟩ := outcome
    exact ⟨ts, m', tokens, mark, place, holds, fun _ => .inl ⟨ts, tokens.symm⟩⟩

/-- A smaller bound on the number of tokens asks for less. -/
theorem Follows.mono {m m' : Nat} (follows : Follows told name s s' post fill n n' p p')
    (le : m ≤ n) (le' : m' ≤ n') : Follows told name s s' post fill m m' p p' where
  known := follows.known
  fills := follows.fills
  runs us x y mark short short' :=
    follows.runs us x y mark (Nat.le_trans short le) (Nat.le_trans short' le')

theorem Follows.idle (follows : Follows told name s s' post fill n 0 p p')
    (none : n = 0 ∨ n' = 0) : Follows told name s s' post fill n n' p q' where
  known := follows.known
  fills := follows.fills
  runs us x y m short short' := by
    simp only [length_append] at short short'
    obtain rfl : us = [] := eq_nil_of_length_eq_zero (by omega)
    exact (follows.runs [] x [] m (by simpa using short) (Nat.zero_le _)).alone

theorem Follows.pure {a : α} (holds : post [] false a) :
    Follows told name s s post [] n n' (Pure.pure a) (Pure.pure a) where
  known := by simp
  fills ys spelled := by
    rw [map_eq_nil_iff.mp spelled]
    exact ⟨rfl, false, a, holds⟩
  runs us x y m _ _ :=
    ⟨[], false, rfl, (Bool.or_false m).symm, rfl, holds, fun _ => .inr ⟨us, rfl, rfl, rfl⟩⟩

/-- The result may be described less exactly. -/
theorem Follows.imp {early : List Token → Bool → α → Prop}
    (follows : Follows told name s s' early fill n n' p p')
    (weaker : ∀ ts m a, early ts m a → post ts m a) :
    Follows told name s s' post fill n n' p p' := by
  refine ⟨follows.known, fun ys spelled => ?_, fun us x y m short short' => ?_⟩
  · obtain ⟨place, m, a, holds⟩ := follows.fills ys spelled
    exact ⟨place, m, a, weaker ys m a holds⟩
  have outcome := follows.runs us x y m short short'
  cases ran : p ⟨us ++ x, m⟩ with
  | error fault =>
    rw [ran] at outcome
    intro asked
    obtain ⟨ts, z, tokens, found, mended, step⟩ := outcome asked
    refine ⟨ts, z, tokens, found, mended.imp_left fun fills => fills.mono ?_, step⟩
    rintro ys ⟨place, m', a, holds⟩
    exact ⟨place, m', a, weaker _ _ _ holds⟩
  | ok result =>
    rw [ran] at outcome
    obtain ⟨ts, m', tokens, mark, place, holds, step⟩ := outcome
    exact ⟨ts, m', tokens, mark, place, weaker _ _ _ holds, step⟩

/-- An outcome behind some tokens is one of all the tokens. -/
theorem Outcome.behind (ts : List Token) (m₁ : Bool) {us us' x x' y y' : List Token}
    {m relative : Bool} {o second second' : Except ParseFault (α × Cursor)}
    (outcome : Outcome told name (s.after ts) s'' (fun us m' b => post (ts ++ us) (m₁ || m') b)
      us' x' y' relative second' o)
    (tokens : us ++ x = ts ++ (us' ++ x')) (mark : relative = (m || m₁))
    (step : told → us' = [] ∧ x' <:+ x ∨ us = ts ++ us' ∧ x' = x ∧ y' = y ∧ second' = second) :
    Outcome told name s s'' post us x y m second o := by
  cases o with
  | error fault =>
    intro asked
    obtain ⟨ts', z, tokens', found, mended, step'⟩ := outcome asked
    refine ⟨ts ++ ts', z, by rw [tokens, tokens', append_assoc], found, ?_, ?_⟩
    · refine mended.imp (fun fills => fills.mono ?_) Strays.behind
      rintro ys ⟨place, m', a, holds⟩
      rw [append_assoc, Place.after_append]
      exact ⟨place, m₁ || m', a, holds⟩
    -- The second run has stopped within the tokens in front, or it has taken them all.
    · rcases step asked with ⟨rfl, suffix⟩ | ⟨rfl, rfl, rfl, rfl⟩
      · exact .inl (List.IsSuffix.trans ⟨ts', tokens'.symm⟩ suffix)
      · exact step'
  | ok result =>
    obtain ⟨ts', m', tokens', mark', place, holds, step'⟩ := outcome
    refine ⟨ts ++ ts', m₁ || m', by rw [tokens, tokens', append_assoc], ?_, ?_, holds, ?_⟩
    · rw [mark', mark, Bool.or_assoc]
    · rw [Place.after_append, place]
    · intro asked
      rcases step asked with ⟨rfl, suffix⟩ | ⟨rfl, rfl, rfl, rfl⟩
      · exact .inl (List.IsSuffix.trans ⟨ts', tokens'.symm⟩ suffix)
      · refine (step' asked).imp_right ?_
        rintro ⟨vs, rfl, rest, same⟩
        exact ⟨vs, (append_assoc ..).symm, rest, same⟩

/-- Readers one after the other; a failure of the first is completed by both. -/
theorem Follows.bind {mid : List Token → Bool → β → Prop} {p p' : Parse β}
    {k k' : β → Parse α} (first : Follows told name s s' mid fill n n' p p')
    (known : ∀ l ∈ fill', l ∈ completing name)
    (next : ∀ a ts m, mid ts m a → Follows told name s' s''
      (fun us m' b => post (ts ++ us) (m || m') b) fill' n n' (k a) (k' a)) :
    Follows told name s s'' post (fill ++ fill') n n' (p >>= k) (p' >>= k') := by
  -- tokens behind which the first reader may end are completed by `fill'`
  have completes (ts : List Token) {ys : List Token} {lexemes : List Lexeme}
      (all : ∀ ys : List Token, ys.map Token.lexeme = lexemes →
        s.after (ts ++ ys) = s' ∧ ∃ m a, mid (ts ++ ys) m a)
      (spelled : ys.map Token.lexeme = lexemes ++ fill') :
      s.after (ts ++ ys) = s'' ∧ ∃ m b, post (ts ++ ys) m b := by
    obtain ⟨us, vs, rfl, spelled, spelled'⟩ := map_eq_append_iff.mp spelled
    obtain ⟨place, m, a, holds⟩ := all us spelled
    obtain ⟨place', m', b, holds'⟩ := (next a _ m holds).fills vs spelled'
    rw [← append_assoc, Place.after_append, place]
    exact ⟨place', _, b, holds'⟩
  refine ⟨?_, fun ys spelled => completes [] first.fills spelled, ?_⟩
  · intro l member
    exact (mem_append.mp member).elim (first.known l) (known l)
  intro us x y m short short'
  have outcome := first.runs us x y m short short'
  cases ran : p ⟨us ++ x, m⟩ with
  | error fault =>
    rw [bind_of_error ran]
    rw [ran] at outcome
    intro asked
    obtain ⟨ts, z, tokens, found, mended, step⟩ := outcome asked
    refine ⟨ts, z, tokens, found, mended.imp_left ?_, step.imp_right ?_⟩
    · rintro ⟨lexemes, known', all⟩
      refine ⟨lexemes ++ fill', fun l member => ?_, fun ys spelled => completes ts all spelled⟩
      exact (mem_append.mp member).elim (known' l) (known l)
    · rintro ⟨fault', ran'⟩
      exact ⟨fault', bind_of_error ran'⟩
  | ok result =>
    obtain ⟨a, rest, relative⟩ := result
    rw [bind_of_ok ran]
    rw [ran] at outcome
    obtain ⟨ts, m₁, tokens, mark, rfl, holds, step⟩ := outcome
    have le := congrArg List.length tokens
    simp only [length_append] at le short short'
    by_cases on : ∃ vs, us = ts ++ vs ∧ rest = vs ++ x ∧
        p' ⟨us ++ y, m⟩ = .ok (a, ⟨vs ++ y, relative⟩)
    · -- the second reader starts in the common start
      obtain ⟨vs, rfl, rfl, ran'⟩ := on
      rw [bind_of_ok ran']
      simp only [length_append] at le short short'
      refine Outcome.behind ts m₁ ((next a ts m₁ holds).runs vs x y relative ?_ ?_) tokens mark
        fun _ => .inr ⟨rfl, rfl, rfl, rfl⟩
      · rw [length_append]
        omega
      · rw [length_append]
        omega
    · refine Outcome.behind ts m₁ ((next a ts m₁ holds).runs [] rest [] relative ?_
        (Nat.zero_le _)) tokens mark fun asked => .inl ⟨rfl, (step asked).resolve_right on⟩
      simp only [nil_append]
      omega

/-- Nothing is needed to complete a last step that may end at once. -/
theorem Follows.last {mid : List Token → Bool → β → Prop} {p p' : Parse β}
    {k k' : β → Parse α} (first : Follows told name s s' mid fill n n' p p')
    (next : ∀ a ts m, mid ts m a → Follows told name s' s''
      (fun us m' b => post (ts ++ us) (m || m') b) [] n n' (k a) (k' a)) :
    Follows told name s s'' post fill n n' (p >>= k) (p' >>= k') := by
  rw [← append_nil fill]
  exact first.bind (by simp) next

/-! ## The next token -/

/-- It is enough to look at each first token. -/
theorem Follows.byToken (known : ∀ l ∈ fill, l ∈ completing name)
    (fills : ∀ ys : List Token, ys.map Token.lexeme = fill → s.after ys = s' ∧ ∃ m a, post ys m a)
    (each : ∀ t, FollowsAt told name s s' post t n n' p p') :
    Follows told name s s' post fill n n' p p' :=
  ⟨known, fills, fun us x y m => each _ us x y m rfl⟩

/-- A reader may be replaced by one that does the same at the given first token. -/
theorem Follows.at {t : Option Token} (follows : Follows told name s s' post fill n n' q q')
    (same : ∀ c : Cursor, c.rest.head? = t → p c = q c)
    (same' : ∀ c : Cursor, c.rest.head? = t → p' c = q' c) :
    FollowsAt told name s s' post t n n' p p' := by
  intro us x y m head short short'
  rw [same _ head]
  cases us with
  | nil => exact (follows.runs [] x [] m short (Nat.zero_le _)).alone
  | cons u us =>
    rw [same' _ head]
    exact follows.runs (u :: us) x y m short short'

/-- A reader that takes the given first token goes on behind it. -/
theorem FollowsAt.behind (fill : List Lexeme) {t : Token}
    (follows : 0 < n → Follows told name (s.next t) s' (fun us m a => post (t :: us) m a) fill
      (n - 1) (n' - 1) q q')
    (same : ∀ rest m, p ⟨t :: rest, m⟩ = q ⟨rest, m⟩)
    (same' : ∀ rest m, p' ⟨t :: rest, m⟩ = q' ⟨rest, m⟩) :
    FollowsAt told name s s' post (some t) n n' p p' := by
  intro us x y m head short short'
  cases us with
  | nil =>
    obtain ⟨rest, rfl⟩ := head?_eq_some_iff.mp head
    simp only [nil_append, length_cons] at short
    have outcome := (follows (by omega)).runs [] rest [] m (by simp; omega) (Nat.zero_le _)
    rw [nil_append, nil_append, same]
    exact Outcome.behind [t] false outcome rfl (Bool.or_false m).symm
      fun _ => .inl ⟨rfl, suffix_cons _ _⟩
  | cons u us =>
    obtain rfl : u = t := by simpa using head
    simp only [cons_append, length_cons] at short short'
    have outcome := (follows (by omega)).runs us x y m (by omega) (by omega)
    rw [cons_append, cons_append, same, same']
    exact Outcome.behind [u] false outcome rfl (Bool.or_false m).symm
      fun _ => .inr ⟨rfl, rfl, rfl, rfl⟩

/-- A reader that refuses the given first token, where something else would do. -/
theorem FollowsAt.fails {t : Option Token}
    (fillable : Fillable name fun ys => s.after ys = s' ∧ ∃ m a, post ys m a)
    (fails : ∀ c : Cursor, c.rest.head? = t → ∃ fault, p c = .error fault ∧ fault.found = t)
    (fails' : ∀ c : Cursor, c.rest.head? = t → ∃ fault, p' c = .error fault) :
    FollowsAt told name s s' post t n n' p p' := by
  intro us x y m head _ _
  obtain ⟨fault, ran, found⟩ := fails ⟨us ++ x, m⟩ head
  rw [ran]
  refine fun _ => ⟨[], us ++ x, rfl, found.trans head.symm, .inl fillable, ?_⟩
  cases us with
  | nil => exact .inl (suffix_refl _)
  | cons u us => exact .inr (fails' ⟨u :: us ++ y, m⟩ head)

theorem Follows.fail (cause : SyntaxCause) (known : ∀ l ∈ fill, l ∈ completing name)
    (fills : ∀ ys : List Token, ys.map Token.lexeme = fill →
      s.after ys = s' ∧ ∃ m a, post ys m a) :
    Follows told name s s' post fill n n' (Parse.fail cause) (Parse.fail cause) :=
  .byToken known fills fun _ => .fails ⟨fill, known, fills⟩ (fun _ head => ⟨_, rfl, head⟩)
    fun _ _ => ⟨_, rfl⟩

section

variable {γ : Type} {kind : SymbolKind} (yes no : Parse γ)

theorem ifSymbol_of_is {t : Token} (is : t.Is kind) (rest : List Token) (m : Bool) :
    (do if ← atSymbol kind then do { advance; yes } else no) ⟨t :: rest, m⟩ = yes ⟨rest, m⟩ := by
  rw [bind_of_ok (atSymbol_eq kind _), startsWith_eq_true.mpr ⟨t, rest, rfl, is⟩]
  rfl

theorem ifSymbol_of_not (c : Cursor) (other : ∀ t ∈ c.rest.head?, ¬ t.Is kind) :
    (do if ← atSymbol kind then do { advance; yes } else no) c = no c := by
  have starts : startsWith kind c.rest = false := by
    rw [← Bool.not_eq_true, startsWith_eq_true]
    rintro ⟨t, us, same, is⟩
    exact other t (by rw [same]; rfl) is
  rw [bind_of_ok (atSymbol_eq kind c), starts]
  rfl

end

/-- A branch on the next symbol, which is looked at in both lists. -/
theorem Follows.ifSymbol {kind : SymbolKind} {yes yes' no no' : Parse α} (fill' : List Lexeme)
    (found : ∀ t : Token, t.Is kind → 0 < n → Follows told name (s.behind kind) s'
      (fun us m a => post (t :: us) m a) fill' (n - 1) (n' - 1) yes yes')
    (other : Follows told name s s' post fill n n' no no') :
    Follows told name s s' post fill n n'
      (do if ← atSymbol kind then do { advance; yes } else no)
      (do if ← atSymbol kind then do { advance; yes' } else no') := by
  refine .byToken other.known other.fills fun t => ?_
  by_cases is : ∃ u ∈ t, u.Is kind
  · obtain ⟨u, rfl, is⟩ := is
    have follows := found u is
    rw [← Place.next_symbol is] at follows
    exact .behind fill' follows (ifSymbol_of_is _ _ is) (ifSymbol_of_is _ _ is)
  · have other' (c : Cursor) (head : c.rest.head? = t) : ∀ u ∈ c.rest.head?, ¬ u.Is kind :=
      fun u member is' => is ⟨u, head ▸ member, is'⟩
    exact other.at (fun c head => ifSymbol_of_not _ _ c (other' c head))
      fun c head => ifSymbol_of_not _ _ c (other' c head)

/-- A reader that takes the one token or fails at it, whatever comes after. -/
def Takes (p : Parse β) (holds : Token → β → Prop) : Prop :=
  (∀ t, (∃ b, holds t b ∧ ∀ rest m, p ⟨t :: rest, m⟩ = .ok (b, ⟨rest, m⟩)) ∨
    ∀ rest m, ∃ fault, p ⟨t :: rest, m⟩ = .error fault ∧ fault.found = some t) ∧
  ∀ m, ∃ fault, p ⟨[], m⟩ = .error fault ∧ fault.found = none

/-- A reader of one token and then another reader. -/
theorem Follows.take {p : Parse β} {k k' : β → Parse α} {holds : Token → β → Prop} {l : Lexeme}
    (takes : Takes p holds) (known : ∀ l' ∈ l :: fill, l' ∈ completing name)
    (sample : ∀ t : Token, t.lexeme = l → ∃ b, holds t b)
    (next : ∀ t b, holds t b → Follows told name (s.next t) s' (fun us m a => post (t :: us) m a)
      fill n n' (k b) (k' b)) :
    Follows told name s s' post (l :: fill) n n' (p >>= k) (p >>= k') := by
  have fills (ys : List Token) (spelled : ys.map Token.lexeme = l :: fill) :
      s.after ys = s' ∧ ∃ m a, post ys m a := by
    obtain ⟨t, us, rfl, is, spelled⟩ := map_eq_cons_iff.mp spelled
    obtain ⟨b, held⟩ := sample t is
    exact (next t b held).fills us spelled
  refine .byToken known fills fun t => ?_
  -- What the step does not take is a fault at that very token.
  have failing (fails : ∀ c : Cursor, c.rest.head? = t →
      ∃ fault, p c = .error fault ∧ fault.found = t) :
      FollowsAt told name s s' post t n n' (p >>= k) (p >>= k') := by
    refine .fails ⟨_, known, fills⟩ (fun c head => ?_) (fun c head => ?_)
    · obtain ⟨fault, ran, found⟩ := fails c head
      exact ⟨fault, bind_of_error ran, found⟩
    · obtain ⟨fault, ran, _⟩ := fails c head
      exact ⟨fault, bind_of_error ran⟩
  cases t with
  | none =>
    refine failing ?_
    rintro ⟨_ | _, m⟩ head
    · exact takes.2 m
    · cases head
  | some t =>
    rcases takes.1 t with ⟨b, held, ran⟩ | fails
    · refine .behind fill (fun _ => (next t b held).mono ?_ ?_) (fun rest m => bind_of_ok (ran rest m))
        (fun rest m => bind_of_ok (ran rest m))
      · omega
      · omega
    · refine failing ?_
      rintro ⟨rest, m⟩ head
      obtain ⟨rest, rfl⟩ := head?_eq_some_iff.mp head
      exact fails rest m

theorem expectSymbol_takes (kind : SymbolKind) (what : Expected) :
    Takes (expectSymbol kind what) fun t _ => t.Is kind := by
  refine ⟨fun t => ?_, fun _ => ⟨_, rfl, rfl⟩⟩
  by_cases is : t.Is kind
  · exact .inl ⟨(), is, fun rest m =>
      ifSymbol_of_is (Pure.pure ()) (Parse.fail (.expected what)) is rest m⟩
  · refine .inr fun rest m => ⟨_, ifSymbol_of_not (Pure.pure ()) _ ⟨t :: rest, m⟩ ?_, rfl⟩
    rintro _ ⟨⟩
    exact is

theorem expectName_takes (what : Expected) :
    Takes (expectName what) fun t n => t.lexeme = .identifier n := by
  refine ⟨fun t => ?_, fun _ => ⟨_, rfl, rfl⟩⟩
  obtain ⟨lexeme, raw, position⟩ := t
  cases lexeme with
  | identifier n => exact .inl ⟨n, rfl, fun _ _ => rfl⟩
  | literal _ | symbol _ _ => exact .inr fun _ _ => ⟨_, rfl, rfl⟩

theorem Follows.expectSymbol {kind : SymbolKind} {what : Expected} {text : String}
    {k k' : Unit → Parse α} (known : ∀ l ∈ .symbol kind text :: fill, l ∈ completing name)
    (next : ∀ t : Token, t.Is kind → Follows told name (s.behind kind) s'
      (fun us m a => post (t :: us) m a) fill n n' (k ()) (k' ())) :
    Follows told name s s' post (.symbol kind text :: fill) n n'
      (Parse.expectSymbol kind what >>= k) (Parse.expectSymbol kind what >>= k') :=
  .take (expectSymbol_takes kind what) known (fun _ is => ⟨(), text, is⟩) fun t _ is =>
    Place.next_symbol is ▸ next t is

theorem Follows.expectName {what : Expected} {k k' : String → Parse α}
    (known : ∀ l ∈ fill, l ∈ completing name)
    (next : ∀ (t : Token) (key : String), t.lexeme = .identifier key → Follows told name
      ⟨false, s.brackets⟩ s' (fun us m a => post (t :: us) m a) fill n n' (k key) (k' key)) :
    Follows told name s s' post (.identifier name :: fill) n n'
      (Parse.expectName what >>= k) (Parse.expectName what >>= k') :=
  .take (expectName_takes what) (forall_mem_cons.mpr ⟨by simp [completing], known⟩)
    (fun _ is => ⟨_, is⟩) fun t key is => Place.next_identifier is ▸ next t key is

/-! ## Counted readers -/

/-- The fuel may be the number of tokens that are left, which differs in the two lists. -/
theorem Follows.counted (k k' : Nat → Parse α)
    (next : ∀ m m', m ≤ n → m' ≤ n' → Follows told name s s' post fill m m' (k m) (k' m')) :
    Follows told name s s' post fill n n' (do let c ← get; k c.rest.length)
      (do let c ← get; k' c.rest.length) where
  known := (next 0 0 (Nat.zero_le _) (Nat.zero_le _)).known
  fills := (next 0 0 (Nat.zero_le _) (Nat.zero_le _)).fills
  runs us x y m short short' :=
    (next _ _ short short').runs us x y m (Nat.le_refl _) (Nat.le_refl _)

/-- A loop, by induction on its fuel. -/
theorem Follows.loop {γ : Type} (s s' : γ → Place) (post : γ → List Token → Bool → α → Prop)
    (loop loop' : Nat → γ → Parse α)
    (base : ∀ fuel' i, Follows told name (s i) (s' i) (post i) fill 0 (min fuel' n') (loop 0 i)
      (loop' fuel' i))
    (step : ∀ fuel fuel', (∀ i, Follows told name (s i) (s' i) (post i) fill (min fuel n)
        (min fuel' n') (loop fuel i) (loop' fuel' i)) →
      ∀ i, Follows told name (s i) (s' i) (post i) fill (min (fuel + 1) n) (min (fuel' + 1) n')
        (loop (fuel + 1) i) (loop' (fuel' + 1) i))
    (fuel fuel' : Nat) (i : γ) :
    Follows told name (s i) (s' i) (post i) fill (min fuel n) (min fuel' n') (loop fuel i)
      (loop' fuel' i) := by
  induction fuel generalizing fuel' i with
  | zero => exact (base fuel' i).mono (by omega) (Nat.le_refl _)
  | succ fuel ih =>
    cases fuel' with
    | zero =>
      exact ((step fuel 0 (ih 0) i).mono (Nat.le_refl _) (Nat.zero_le _)).idle (by omega)
    | succ fuel' => exact step fuel fuel' (ih fuel') i

end Parse

end JexlScript
