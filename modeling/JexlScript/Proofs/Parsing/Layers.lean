import JexlScript.Proofs.Parsing.Outcomes

/-!
# The layers of the parser

One lemma for each layer says how its readers end, where those of the nested
expressions are known to; `Formula.expression_follows` closes the circle by induction
on the depth.
-/

namespace JexlScript

open List

open Formula (Place)

namespace Parse

variable {α : Type} {told : Prop} {name : String} {bs : List Bool} {fill : List Lexeme} {n n' : Nat}

/-- A list in brackets up to the closing one; it may be empty. -/
def ListClosed (many : List Token → Bool → List α → Prop) (close : SymbolKind) (ts : List Token)
    (m : Bool) (as : List α) : Prop :=
  ∃ us t, t.Is close ∧ ts = us ++ [t] ∧ (many us m as ∨ (us = [] ∧ m = false ∧ as = []))

theorem startsWith_eq_head? (kind : SymbolKind) (ts : List Token) :
    startsWith kind ts = startsWith kind ts.head?.toList := by
  obtain _ | ⟨⟨_ | _ | _, _, _⟩, _⟩ := ts <;> rfl

/-- What `items` reads where the closing symbol does not follow at once. -/
def closedList (item : Parse α) (close : SymbolKind) (what : Expected) (fuel : Nat) :
    Parse (List α) := do
  let found ← commaSeparated item (fuel + 1)
  expectSymbol close what
  Pure.pure found

/-- A list in brackets is empty, or items with commas and a closing bracket. -/
theorem items_eq (item : Parse α) (close : SymbolKind) (what : Expected) (c : Cursor) :
    items item close what c =
      (if startsWith close c.rest then (do expectSymbol close what; Pure.pure []) else
        get >>= fun c => closedList item close what c.rest.length) c := by
  unfold items
  rw [bind_of_ok (atSymbol_eq close c)]
  cases startsWith close c.rest <;> rfl

section

variable {item item' : Parse α} {post : List Token → Bool → α → Prop}
  (many : List Token → Bool → List α → Prop)
  (each : Follows told name ⟨true, bs⟩ ⟨false, bs⟩ post fill n n' item item')
  (one : ∀ ts m a, post ts m a → many ts m [a])
  (more : ∀ ts m a us m' as (c : Token), post ts m a → c.Is .comma → many us m' as →
    many (ts ++ c :: us) (m || m') (a :: as))

include each one more

/-- Items with commas, by induction on the fuel. -/
theorem commaSeparated_follows (fuel fuel' : Nat) :
    Follows told name ⟨true, bs⟩ ⟨false, bs⟩ many fill (min fuel n) (min fuel' n')
      (commaSeparated item (fuel + 1)) (commaSeparated item' (fuel' + 1)) := by
  have ended (ts : List Token) (m : Bool) (a : α) (holds : post ts m a) :
      many (ts ++ []) (m || false) [a] := by
    simpa using one ts m a holds
  refine Follows.loop (fun _ => ⟨true, bs⟩) (fun _ => ⟨false, bs⟩) (fun _ => many)
    (fun fuel (_ : Unit) => commaSeparated item (fuel + 1))
    (fun fuel _ => commaSeparated item' (fuel + 1)) ?_ ?_ fuel fuel' ()
  · intro fuel' _
    refine (each.mono (Nat.zero_le _) (Nat.min_le_right _ _)).last fun a ts m holds => ?_
    exact .ifSymbol [] (fun _ _ more => absurd more (Nat.lt_irrefl 0)) (.pure (ended ts m a holds))
  · intro fuel fuel' ih _
    refine (each.mono (Nat.min_le_right _ _) (Nat.min_le_right _ _)).last fun a ts m holds => ?_
    refine .ifSymbol _ (fun c comma _ => ((ih ()).mono ?_ ?_).last fun as us m' others => .pure ?_)
      (.pure (ended ts m a holds))
    · omega
    · omega
    · simpa using more ts m a us m' as c holds comma others

/-- A list in brackets can always be completed by its closing bracket. -/
theorem items_follows (close : SymbolKind) (text : String) (what : Expected)
    (known : .symbol close text ∈ completing name) (closes : close ≠ .openBracket) :
    Follows told name ⟨true, bs⟩ ((⟨true, bs⟩ : Place).behind close)
      (ListClosed many close) [.symbol close text] n n' (items item close what) (items item' close what) := by
  -- Brackets apart, what closes a list leads to the same place from an operand and from its end.
  have same : (⟨false, bs⟩ : Place).behind close = (⟨true, bs⟩ : Place).behind close := by
    cases close with
    | openBracket => exact absurd rfl closes
    | _ => rfl
  have nothing : Follows told name ⟨true, bs⟩ ((⟨true, bs⟩ : Place).behind close)
      (ListClosed many close) [.symbol close text] n n' (do expectSymbol close what; Pure.pure [])
      (do expectSymbol close what; Pure.pure []) :=
    .expectSymbol (by simpa using known) fun t is =>
      .pure ⟨[], t, is, rfl, .inr ⟨rfl, rfl, rfl⟩⟩
  have listed : Follows told name ⟨true, bs⟩ ((⟨true, bs⟩ : Place).behind close)
      (ListClosed many close) (fill ++ [.symbol close text]) n n'
      (get >>= fun c => closedList item close what c.rest.length)
      (get >>= fun c => closedList item' close what c.rest.length) := by
    refine .counted (closedList item close what) (closedList item' close what) fun m m' le le' => ?_
    refine ((commaSeparated_follows many each one more m m').mono ?_ ?_).bind
      (by simpa using known) fun as us mark hold => .expectSymbol (by simpa using known) fun t is => ?_
    · omega
    · omega
    · rw [same]
      exact .pure ⟨us, t, is, rfl, .inl (by simpa using hold)⟩
  -- The first token tells whether the list is empty.
  refine .byToken nothing.known nothing.fills fun t => ?_
  have starts (c : Cursor) (head : c.rest.head? = t) :
      startsWith close c.rest = startsWith close t.toList := by
    rw [startsWith_eq_head?, head]
  cases closed : startsWith close t.toList with
  | true =>
    exact nothing.at (fun c head => by rw [items_eq, starts c head, closed]; rfl)
      (fun c head => by rw [items_eq, starts c head, closed]; rfl)
  | false =>
    exact listed.at (fun c head => by rw [items_eq, starts c head, closed]; rfl)
      (fun c head => by rw [items_eq, starts c head, closed]; rfl)

end

end Parse

/-! ## The layers -/

namespace Formula

open Parse

/-- How the readers of a part end: it takes the place where an operand is due, and a name alone
would complete it. -/
abbrev Spells {α : Type} (told : Prop) (name : String) (r : Rules) (part : α → Part)
    (bs : List Bool) : Nat → Nat → Parse α → Parse α → Prop :=
  Follows told name ⟨true, bs⟩ ⟨false, bs⟩ (fun ts m a => Derives r (part a) (bs.any id) ts m)
    [.identifier name]

section

variable {told : Prop} {name : String} {r : Rules} {d d' : Nat} {inner inner' : Bool → Parse Formula}
  (each : ∀ bs, Spells told name r .expression bs d d' (inner (bs.any id)) (inner' (bs.any id)))
  (bs : List Bool)

include each

/-- Expressions in brackets. -/
theorem itemList_follows {close : SymbolKind} (text : String) (what : Expected)
    (known : .symbol close text ∈ completing name) (closes : close ≠ .openBracket) :
    Follows told name ⟨true, bs⟩ ((⟨true, bs⟩ : Place).behind close)
      (fun ts m es => ∃ us t, t.Is close ∧ ts = us ++ [t] ∧ Derives r (.items es) (bs.any id) us m)
      [.symbol close text] d d' (items (inner (bs.any id)) close what)
      (items (inner' (bs.any id)) close what) := by
  refine (items_follows (fun ts m es => Derives r (.listed es) (bs.any id) ts m) (each bs)
    (fun _ _ _ => .lastItem) (fun _ _ _ _ _ _ _ => .moreItems) close text what known closes).imp ?_
  rintro _ m es ⟨us, t, is, rfl, listed | ⟨rfl, rfl, rfl⟩⟩
  · exact ⟨us, t, is, rfl, .someItems listed⟩
  · exact ⟨[], t, is, rfl, .noItem⟩

omit each in
/-- A name is a primary anywhere. -/
theorem name_fills (inside : Bool) (ys : List Token)
    (spelled : ys.map Token.lexeme = [.identifier name]) :
    (⟨true, bs⟩ : Place).after ys = ⟨false, bs⟩ ∧ ∃ m f, Derives r (.primary f) inside ys m := by
  obtain ⟨t, _, rfl, is, spelled⟩ := map_eq_cons_iff.mp spelled
  rw [map_eq_nil_iff.mp spelled]
  exact ⟨Place.next_identifier is, false, _, .name is⟩

omit each in
theorem objectKey_takes : Takes objectKey fun k key => k.IsKey key := by
  refine ⟨fun t => ?_, fun _ => ⟨_, rfl, rfl⟩⟩
  obtain ⟨lexeme, raw, position⟩ := t
  cases lexeme with
  | identifier key => exact .inl ⟨key, .inl rfl, fun _ _ => rfl⟩
  | symbol _ _ => exact .inr fun _ _ => ⟨_, rfl, rfl⟩
  | literal v =>
    cases v with
    | text key => exact .inl ⟨key, .inr rfl, fun _ _ => rfl⟩
    | _ => exact .inr fun _ _ => ⟨_, rfl, rfl⟩

/-- An entry of an object: a key, a colon and a value. -/
theorem entry_follows : Follows told name ⟨true, bs⟩ ⟨false, bs⟩
    (fun ts m (p : String × Formula) => ∃ k c us, k.IsKey p.1 ∧ c.Is .colon ∧ ts = k :: c :: us ∧
      Derives r (.expression p.2) (bs.any id) us m)
    [.identifier name, .symbol .colon ":", .identifier name] d d' (entry inner (bs.any id))
    (entry inner' (bs.any id)) := by
  refine .take objectKey_takes (by simp [completing]) (fun k is => ⟨name, .inl is⟩) ?_
  intro k key isKey
  rw [Place.next_key isKey]
  refine .expectSymbol (by simp [completing]) fun c colon => ?_
  refine (each bs).last fun e us m value => .pure ?_
  exact ⟨k, c, us, isKey, colon, by simp, by simpa using value⟩

theorem entries_follows : Follows told name ⟨true, bs⟩ ⟨false, bs⟩
    (ListClosed (fun us m ps => Derives r (.entries ps) (bs.any id) us m) .closeCurl)
    [.symbol .closeCurl "\x7d"] d d' (items (entry inner (bs.any id)) .closeCurl .objectEnd)
    (items (entry inner' (bs.any id)) .closeCurl .objectEnd) := by
  refine items_follows _ (entry_follows each bs) ?_ ?_ .closeCurl _ _ (by simp [completing])
    (by decide)
  · rintro _ m ⟨key, e⟩ ⟨k, c, us, isKey, colon, rfl, value⟩
    exact .lastEntry isKey colon value
  · rintro _ m ⟨key, e⟩ vs m' ps s ⟨k, c, us, isKey, colon, rfl, value⟩ comma others
    exact .moreEntries isKey colon value comma others

omit each in
/-- A dot is refused outside of filters, but only at the token after it. -/
theorem dot_follows {t : Token} (dot : t.Is .dot) :
    FollowsAt told name ⟨true, bs⟩ ⟨false, bs⟩
      (fun ts m f => Derives r (.primary f) (bs.any id) ts m) (some t) (d + 1) (d' + 1)
      (primary inner (bs.any id)) (primary inner' (bs.any id)) := by
  cases inside : bs.any id with
  | true =>
    refine .behind [.identifier name] (fun _ => ?_) (fun _ _ => primary_dot dot)
      (fun _ _ => primary_dot dot)
    rw [Place.next_symbol dot]
    refine .expectName (by simp) fun u key is => ?_
    refine ⟨by simp, fun ys spelled => ?_, fun us x y m _ _ => ?_⟩
    · rw [map_eq_nil_iff.mp spelled]
      exact ⟨rfl, true, _, .relativeName dot is⟩
    · exact ⟨[], true, rfl, (Bool.or_true m).symm, rfl, .relativeName dot is,
        fun _ => .inr ⟨us, rfl, rfl, rfl⟩⟩
  | false =>
    -- Outside of filters a dot fails: at the dot if a name follows it, and else behind the dot.
    have fails (inner : Bool → Parse Formula) (rest : List Token) (m : Bool) :
        (∃ cause, primary inner false ⟨t :: rest, m⟩ = .error ⟨cause, some t⟩) ∨
          (∃ cause, primary inner false ⟨t :: rest, m⟩ = .error ⟨cause, rest.head?⟩) ∧
            ∀ u ∈ rest.head?, ∀ n, u.lexeme ≠ .identifier n := by
      rw [primary_dot dot, relativeName]
      rcases rest with _ | ⟨⟨lexeme, raw, position⟩, rest⟩
      · exact .inr ⟨⟨_, rfl⟩, by simp⟩
      · cases lexeme with
        | identifier key => exact .inl ⟨_, rfl⟩
        | literal _ | symbol _ _ => exact .inr ⟨⟨_, rfl⟩, by simp⟩
    intro us x y m head _ _
    obtain ⟨rest, same⟩ := head?_eq_some_iff.mp head
    -- The second reader fails as well, unless it has not read the dot.
    have second : us = [] ∨ ∃ fault, primary inner' false ⟨us ++ y, m⟩ = .error fault := by
      cases us with
      | nil => exact .inl rfl
      | cons u us =>
        obtain rfl : u = t := by simpa using head
        refine .inr ?_
        rcases fails inner' (us ++ y) m with ⟨_, ran⟩ | ⟨⟨_, ran⟩, _⟩
        · exact ⟨_, ran⟩
        · exact ⟨_, ran⟩
    have step (z : List Token) (suffix : z <:+ us ++ x) :
        z <:+ x ∨ ∃ fault, primary inner' false ⟨us ++ y, m⟩ = .error fault := by
      refine second.imp_left ?_
      rintro rfl
      exact suffix
    rw [same]
    rcases fails inner rest m with ⟨_, ran⟩ | ⟨⟨_, ran⟩, nameless⟩
    · rw [ran]
      refine fun _ => ⟨[], t :: rest, same, rfl, .inl ?_, step _ ⟨[], same.symm⟩⟩
      exact ⟨[.identifier name], by simp [completing], name_fills bs false⟩
    · rw [ran]
      refine fun _ => ⟨[t], rest, same, rfl, .inr ?_, step _ ⟨[t], same.symm⟩⟩
      exact ⟨[], t, rfl, dot, rfl, inside, nameless⟩

/-- Primaries, by their first token. -/
theorem primary_follows : Spells told name r .primary bs (d + 1) (d' + 1)
    (primary inner (bs.any id)) (primary inner' (bs.any id)) := by
  have known : ∀ l ∈ [Lexeme.identifier name], l ∈ completing name := by simp [completing]
  -- Whatever starts no primary is refused right there, and a name would do in its place.
  have fails {t : Option Token} (refused : ∀ (inner : Bool → Parse Formula) (c : Cursor),
      c.rest.head? = t → ∃ cause, primary inner (bs.any id) c = .error ⟨cause, t⟩) :
      FollowsAt told name ⟨true, bs⟩ ⟨false, bs⟩
        (fun ts m f => Derives r (.primary f) (bs.any id) ts m) t (d + 1) (d' + 1)
        (primary inner (bs.any id)) (primary inner' (bs.any id)) := by
    refine .fails ⟨_, known, name_fills bs _⟩ (fun c head => ?_) (fun c head => ?_)
    · obtain ⟨cause, ran⟩ := refused inner c head
      exact ⟨_, ran, rfl⟩
    · obtain ⟨cause, ran⟩ := refused inner' c head
      exact ⟨_, ran⟩
  -- One case for each token that a primary may start with.
  refine .byToken known (name_fills bs _) fun t => ?_
  rcases t with _ | ⟨lexeme, raw, position⟩
  · refine fails ?_
    rintro inner ⟨_ | _, m⟩ head
    · exact ⟨_, rfl⟩
    · cases head
  cases lexeme with
  | literal v =>
    exact .behind [] (fun _ => .pure (.literal rfl)) (fun _ _ => rfl) (fun _ _ => rfl)
  | identifier key =>
    refine .behind [] (fun _ => ?_) (fun _ _ => primary_identifier rfl)
      (fun _ _ => primary_identifier rfl)
    rw [Place.next_identifier rfl]
    refine .ifSymbol [.symbol .closeParen ")"] (fun o paren more => ?_) (.pure (.name rfl))
    refine ((itemList_follows each bs ")" .argsEnd (by simp [completing]) (by decide)).mono
      ?_ ?_).last ?_
    · omega
    · omega
    rintro es _ m ⟨us, c, close, rfl, items⟩
    exact .pure (by simpa using Derives.call rfl paren items close)
  | symbol kind text =>
    cases kind with
    | dot => exact dot_follows bs ⟨text, rfl⟩
    | openParen =>
      refine .behind [.identifier name, .symbol .closeParen ")"] (fun _ => ?_)
        (fun _ _ => primary_openParen ⟨text, rfl⟩)
        (fun _ _ => primary_openParen ⟨text, rfl⟩)
      refine (each bs).bind (by simp [completing]) fun e us m inner =>
        .expectSymbol (by simp [completing]) fun c close => .pure ?_
      simpa using Derives.group ⟨text, rfl⟩ inner close
    | openBracket =>
      refine .behind [.symbol .closeBracket "]"] (fun _ => ?_)
        (fun _ _ => primary_openBracket ⟨text, rfl⟩)
        (fun _ _ => primary_openBracket ⟨text, rfl⟩)
      refine (itemList_follows each (false :: bs) "]" .arrayEnd (by simp [completing])
        (by decide)).last ?_
      rintro es _ m ⟨us, c, close, rfl, items⟩
      exact .pure (by simpa using Derives.array ⟨text, rfl⟩ items close)
    | openCurl =>
      refine .behind [.symbol .closeCurl "\x7d"] (fun _ => ?_)
        (fun _ _ => primary_openCurl ⟨text, rfl⟩)
        (fun _ _ => primary_openCurl ⟨text, rfl⟩)
      refine (entries_follows each bs).last ?_
      rintro ps _ m ⟨us, c, close, rfl, entries | ⟨rfl, rfl, rfl⟩⟩
      · exact .pure (by simpa using Derives.object ⟨text, rfl⟩ entries close)
      · exact .pure (.noEntry ⟨text, rfl⟩ close)
    | _ =>
      refine fails ?_
      rintro inner ⟨rest, m⟩ head
      obtain ⟨rest, rfl⟩ := head?_eq_some_iff.mp head
      exact ⟨_, rfl⟩

/-- Where only successes are of interest, the reader of primaries need not be the plain one. -/
theorem TakesPrimaries.follows {first : PrimaryReader} (takes : TakesPrimaries r.signs first)
    (plain : told → first = primary) : Spells told name r .primary bs (d + 1) (d' + 1)
      (first inner (bs.any id)) (first inner' (bs.any id)) := by
  have primaries := primary_follows each bs
  -- Faults are told of plain readers only, so a reader that joins signs is asked for its results
  -- alone.
  by_cases asked : told
  · rw [plain asked]
    exact primaries
  refine ⟨primaries.known, primaries.fills, fun us x y m short short' => ?_⟩
  cases ran : first inner (bs.any id) ⟨us ++ x, m⟩ with
  | error fault => exact fun told => absurd told asked
  | ok result =>
    obtain ⟨f, c⟩ := result
    have outcome := primaries.runs us x y m short short'
    rcases tokens : us ++ x with _ | ⟨t, rest⟩
    · rw [tokens] at ran
      exact absurd ran (takes.empty _ _ _ _)
    rw [tokens] at ran outcome
    cases minus : t.isMinus with
    | false =>
      rw [← takes.plain _ _ _ _ _ minus, ran] at outcome
      obtain ⟨ts, m', consumed, mark, place, derived, _⟩ := outcome
      exact ⟨ts, m', consumed, mark, place, derived, fun told => absurd told asked⟩
    | true =>
      -- A minus is taken with the number behind it.
      obtain ⟨signs, u, v, rfl, number, rfl, mark⟩ := (takes.minus _ _ _ _ _ _ _ minus).mp ran
      have derived : Derives r (.primary (.literal (.double v.neg))) (bs.any id) [t, u] false :=
        .negative signs minus number
      exact ⟨[t, u], false, tokens, by simpa using mark, (derived.leads rfl).2, derived,
        fun told => absurd told asked⟩

/-- The contents of a filter stand inside of one more filter. -/
theorem filterContents_follows : Follows told name ⟨true, true :: bs⟩ ⟨false, true :: bs⟩
    (fun ts m (x : Formula × Bool) => m = false ∧ Derives r (.expression x.1) true ts x.2)
    [.identifier name] d d' (filterContents inner) (filterContents inner') := by
  have contents : Spells told name r .expression (true :: bs) d d' (inner true) (inner' true) :=
    each (true :: bs)
  -- The mark for relative names is set aside while the contents are read.
  have reads (inner : Bool → Parse Formula) (rest : List Token) (m : Bool) :
      filterContents inner ⟨rest, m⟩ = (inner true ⟨rest, false⟩).bind fun (e, c) =>
        .ok ((e, c.relative), { c with relative := m }) := rfl
  have failed {inner : Bool → Parse Formula} {rest : List Token} {fault : ParseFault} (m : Bool)
      (ran : inner true ⟨rest, false⟩ = .error fault) :
      filterContents inner ⟨rest, m⟩ = .error fault := by
    rw [reads, ran]
    rfl
  refine ⟨contents.known, fun ys spelled => ?_, fun us x y m short short' => ?_⟩
  · obtain ⟨place, m, e, derived⟩ := contents.fills ys spelled
    exact ⟨place, false, (e, m), rfl, derived⟩
  have outcome := contents.runs us x y false short short'
  cases ran : inner true ⟨us ++ x, false⟩ with
  | error fault =>
    rw [failed m ran]
    rw [ran] at outcome
    intro asked
    obtain ⟨ts, z, tokens, found, mended, step⟩ := outcome asked
    refine ⟨ts, z, tokens, found, mended.imp_left fun fills => fills.mono ?_,
      step.imp_right fun ⟨fault', ran'⟩ => ⟨fault', failed m ran'⟩⟩
    rintro ys ⟨place, m', e, derived⟩
    exact ⟨place, false, (e, m'), rfl, derived⟩
  | ok result =>
    obtain ⟨e, rest, relative⟩ := result
    rw [ran] at outcome
    obtain ⟨ts, m', tokens, rfl, place, derived, step⟩ := outcome
    rw [reads inner, ran]
    refine ⟨ts, false, tokens, (Bool.or_false m).symm, place, ⟨rfl, derived⟩, fun asked => ?_⟩
    refine (step asked).imp_right ?_
    rintro ⟨vs, same, left, ran'⟩
    exact ⟨vs, same, left, by rw [reads, ran']; rfl⟩

/-- Suffixes may end anywhere, so nothing is needed to complete them. -/
theorem suffixes_follows (fuel fuel' : Nat) (subject : Formula) :
    Follows told name ⟨false, bs⟩ ⟨false, bs⟩
      (fun ts m f => Derives r (.suffixes subject f) (bs.any id) ts m) []
      (min fuel (d + 1)) (min fuel' (d' + 1)) (suffixes inner (bs.any id) fuel subject)
      (suffixes inner' (bs.any id) fuel' subject) := by
  -- A loop is followed round by round: each round takes one suffix and leaves less fuel.
  refine Follows.loop (fun _ => ⟨false, bs⟩) (fun _ => ⟨false, bs⟩)
    (fun subject ts m f => Derives r (.suffixes subject f) (bs.any id) ts m)
    (suffixes inner (bs.any id)) (suffixes inner' (bs.any id)) ?_ ?_ fuel fuel' subject
  · exact fun fuel' subject => (Follows.pure .noSuffix).idle (.inl rfl)
  intro fuel fuel' ih subject
  have next {post : List Token → Bool → Formula → Prop} (s : Formula) {m m' : Nat}
      (le : m ≤ min fuel (d + 1)) (le' : m' ≤ min fuel' (d' + 1))
      (weaker : ∀ us m f, Derives r (.suffixes s f) (bs.any id) us m → post us m f) :=
    ((ih s).mono le le').imp weaker
  refine .ifSymbol [.identifier name] (fun o dot _ => ?_)
    (.ifSymbol [.identifier name, .symbol .closeBracket "]"] (fun o bracket _ => ?_)
      (.ifSymbol [.identifier name] (fun p pipe _ => ?_) (.pure .noSuffix)))
  · refine .expectName (by simp) fun n key is => next _ (by omega) (by omega) ?_
    exact fun us m f others => .field dot is others
  · refine ((filterContents_follows each bs).mono (by omega) (by omega)).bind
      (by simp [completing]) ?_
    rintro ⟨e, m⟩ ts _ ⟨rfl, contents⟩
    refine .expectSymbol (by simp [completing]) fun c close => next _ (by omega) (by omega) ?_
    intro us m' f others
    simpa using Derives.filter bracket contents close others
  · refine .expectName (by simp) fun n key is => ?_
    refine .ifSymbol [.symbol .closeParen ")"] (fun o paren _ => ?_)
      (next _ (by omega) (by omega) fun us m f others => .transform pipe is others)
    refine ((itemList_follows each bs ")" .argsEnd (by simp [completing]) (by decide)).mono
      (by omega) (by omega)).last ?_
    rintro es _ m ⟨ts, c, close, rfl, items⟩
    refine next _ (by omega) (by omega) fun us m' f others => ?_
    simpa using Derives.transformArgs pipe is paren items close others

omit each in
variable (r) in
/-- Unary operators never fail; they wait for an operand. -/
theorem takeUnaryOps_follows (n n' : Nat) : Follows told name ⟨true, bs⟩ ⟨true, bs⟩
    (fun ts m ops => m = false ∧ ∀ e us m', Derives r (.unary e) (bs.any id) us m' →
      Derives r (.unary (ops.foldr .unary e)) (bs.any id) (ts ++ us) m')
    [] n n' takeUnaryOps takeUnaryOps := by
  induction n using Nat.strongRecOn generalizing n' with
  | _ n ih =>
    -- Nothing is what is taken where no unary operator comes first.
    have none : Follows told name ⟨true, bs⟩ ⟨true, bs⟩
        (fun ts m (ops : List String) => m = false ∧ ∀ e us m',
          Derives r (.unary e) (bs.any id) us m' →
            Derives r (.unary (ops.foldr .unary e)) (bs.any id) (ts ++ us) m')
        [] n n' (Pure.pure []) (Pure.pure []) := .pure ⟨rfl, fun _ _ _ derived => derived⟩
    refine .byToken none.known none.fills fun t => ?_
    by_cases unary : ∃ u ∈ t, ∃ op, u.lexeme = .symbol .unaryOp op
    · obtain ⟨u, rfl, op, is⟩ := unary
      have taken (rest : List Token) (m : Bool) : takeUnaryOps ⟨u :: rest, m⟩ =
          (takeUnaryOps >>= fun ops => Pure.pure (op :: ops) : Parse _) ⟨rest, m⟩ := by
        simp only [takeUnaryOps, unaryOps_cons is]
        rfl
      refine .behind [] (fun more => ?_) taken taken
      rw [Place.next_symbol ⟨op, is⟩]
      -- The induction is on the number of tokens, of which the operator is one.
      refine (ih (n - 1) (by omega) (n' - 1)).last ?_
      rintro ops ts _ ⟨rfl, stands⟩
      refine .pure ⟨rfl, fun e us m' derived => ?_⟩
      rw [append_nil]
      exact .prefixed is (stands e us m' derived)
    · have ended (c : Cursor) (head : c.rest.head? = t) :
          takeUnaryOps c = (Pure.pure [] : Parse (List String)) c := by
        obtain ⟨rest, m⟩ := c
        cases rest with
        | nil => rfl
        | cons u rest =>
          have other : unaryOps (u :: rest) = [] :=
            unaryOps_eq_nil fun op is => unary ⟨u, head ▸ rfl, op, is⟩
          simp only [takeUnaryOps, other]
          rfl
      exact none.at ended ended

/-- Operands: unary operators, a primary and its suffixes. -/
theorem operand_follows {first first' : Parse Formula}
    (start : Spells told name r .primary bs (d + 1) (d' + 1) first first') :
    Spells told name r .unary bs (d + 1) (d' + 1) (operand inner (bs.any id) first)
      (operand inner' (bs.any id) first') := by
  rw [operand_eq, operand_eq]
  refine (takeUnaryOps_follows r bs _ _).bind (by simp [completing]) ?_
  rintro ops ts _ ⟨rfl, stands⟩
  refine start.last fun e us m primary => ?_
  refine .counted
    (fun m => suffixes inner (bs.any id) m e >>= fun f => Pure.pure (ops.foldr .unary f))
    (fun m => suffixes inner' (bs.any id) m e >>= fun f => Pure.pure (ops.foldr .unary f))
    fun m m' le le' => ?_
  refine ((suffixes_follows each bs m m' e).mono (by omega) (by omega)).last
    fun f vs m' suffixes => .pure ?_
  simpa using stands _ _ _ (.postfixed primary suffixes)

/-- Expressions: a chain, or one that tells which of two expressions to take. -/
theorem choice_follows {test test' : Parse Formula}
    (tested : Spells told name r .binary bs (d + 1) (d' + 1) test test') :
    Spells told name r .expression bs (d + 1) (d' + 1) (choice inner (bs.any id) test)
      (choice inner' (bs.any id) test') := by
  refine tested.last fun t ts m test =>
    .ifSymbol [.identifier name, .symbol .colon ":", .identifier name] (fun q question _ => ?_)
      (.pure (by simpa using Derives.plain test))
  refine (each bs).bind (by simp [completing]) fun y us m' consequent => ?_
  refine .expectSymbol (by simp [completing]) fun c colon => ?_
  refine (each bs).last fun n vs m'' alternate => .pure ?_
  simpa using Derives.conditional test question consequent colon alternate

end

section

variable {ι : Type} {g : Grammar ι} {told : Prop} {name : String} {r : Rules} {n n' : Nat}
  {operand operand' : Parse Formula} {bs : List Bool}
  (each : Spells told name r .unary bs n n' operand operand')

include each

/-- The links of a chain, by induction on the fuel. -/
theorem links_follows (fuel fuel' : Nat) (held : Bool) : Follows told name ⟨false, bs⟩ ⟨false, bs⟩
    (fun ts m (ls : List Link) => Linked g held ls ∧
      Derives r (.links (ls.map fun l => (l.op, l.operand))) (bs.any id) ts m)
    [] (min fuel n) (min fuel' n') (links g operand fuel held) (links g operand' fuel' held) := by
  refine Follows.loop (fun _ => ⟨false, bs⟩) (fun _ => ⟨false, bs⟩)
    (fun held ts m ls => Linked g held ls ∧
      Derives r (.links (ls.map fun l => (l.op, l.operand))) (bs.any id) ts m)
    (fun fuel held => links g operand fuel held) (fun fuel held => links g operand' fuel held)
    (fun fuel' held => (Follows.pure ⟨trivial, .noLink⟩).idle (.inl rfl)) ?_ fuel fuel' held
  intro fuel fuel' ih held
  refine .byToken (by simp) (fun ys spelled => ?_) fun t => ?_
  · rw [map_eq_nil_iff.mp spelled]
    exact ⟨rfl, false, [], trivial, .noLink⟩
  by_cases linked : ∃ o ∈ t, ∃ op precedence,
      o.lexeme = .symbol .binaryOp op ∧ Joinable g held op precedence
  · -- the operator is taken, so that an operand is due, and then other links
    obtain ⟨o, rfl, op, precedence, is, joinable⟩ := linked
    have taken (operand : Parse Formula) (fuel : Nat) (rest : List Token) (m : Bool) :
        links g operand (fuel + 1) held ⟨o :: rest, m⟩ = (do
          let e ← operand
          let others ← links g operand fuel (held || precedence.isNaN)
          Pure.pure (⟨op, precedence, e⟩ :: others) : Parse (List Link)) ⟨rest, m⟩ :=
      links_take (binaryOp?_some is joinable.1 rfl) joinable.2 fuel
    refine .behind [.identifier name] (fun _ => ?_) (taken operand fuel) (taken operand' fuel')
    rw [Place.next_symbol ⟨op, is⟩]
    refine (each.mono (by omega) (by omega)).last fun e ts m first => ?_
    refine ((ih (held || precedence.isNaN)).mono (by omega) (by omega)).last ?_
    rintro ls us m' ⟨linked, others⟩
    refine .pure ⟨⟨joinable, linked⟩, ?_⟩
    simpa using Derives.link is first others
  · have ended (operand : Parse Formula) (fuel : Nat) (c : Cursor) (head : c.rest.head? = t) :
        links g operand (fuel + 1) held c = (Pure.pure [] : Parse (List Link)) c := by
      rcases binaryOp?_cases g c with none | ⟨op, precedence, o, us, tokens, is, known, next⟩
      · exact links_none none _ _
      · refine links_stop next (Bool.of_not_eq_false fun free => linked ?_) fuel
        exact ⟨o, by rw [← head, tokens]; rfl, op, precedence, is, known, free⟩
    exact (Follows.pure ⟨trivial, .noLink⟩).at (ended operand fuel) (ended operand' fuel')

/-- Chains, in any shape that the rules allow for what climbing gives. -/
theorem chain_follows (shortens : Shortens operand) (shortens' : Shortens operand')
    (joins : ∀ e links, Linked g false links →
      r.joins e (links.map fun l => (l.op, l.operand)) (climb e [] links)) :
    Spells told name r .binary bs n n' (chain g operand) (chain g operand') := by
  rw [chain_eq shortens, chain_eq shortens']
  refine each.last fun e ts m first => ?_
  refine .counted (fun m => links g operand m false >>= fun ls => Pure.pure (climb e [] ls))
    (fun m => links g operand' m false >>= fun ls => Pure.pure (climb e [] ls)) fun m m' le le' => ?_
  refine ((links_follows each m m' false).mono (by omega) (by omega)).last ?_
  rintro ls us m' ⟨linked, others⟩
  exact .pure (by simpa using Derives.chain first others (joins e ls linked))

end

/-- The readers of expressions at two depths, by induction on the first. -/
theorem expression_follows {ι : Type} {g : Grammar ι} (told : Prop) (name : String) {r : Rules}
    {first : PrimaryReader} (takes : TakesPrimaries r.signs first) (plain : told → first = primary)
    (joins : ∀ e links, Linked g false links →
      r.joins e (links.map fun l => (l.op, l.operand)) (climb e [] links))
    (depth depth' : Nat) (bs : List Bool) :
    Spells told name r .expression bs depth depth' (expression g first depth (bs.any id))
      (expression g first depth' (bs.any id)) := by
  refine (Follows.loop (fun bs => ⟨true, bs⟩) (fun bs => ⟨false, bs⟩)
    (fun bs ts m f => Derives r (.expression f) (bs.any id) ts m)
    (fun depth bs => expression g first depth (bs.any id))
    (fun depth bs => expression g first depth (bs.any id)) ?_ ?_ depth depth' bs).mono
    (Nat.le_min.mpr ⟨Nat.le_refl _, Nat.le_refl _⟩) (Nat.le_min.mpr ⟨Nat.le_refl _, Nat.le_refl _⟩)
  · intro fuel' bs
    refine (Follows.fail _ (by simp [completing]) fun ys spelled => ?_).idle (.inl rfl)
    obtain ⟨t, _, rfl, is, spelled⟩ := map_eq_cons_iff.mp spelled
    rw [map_eq_nil_iff.mp spelled]
    refine ⟨Place.next_identifier is, false, _, .plain (.chain (.postfixed (.name is) .noSuffix)
      .noLink (joins _ [] trivial))⟩
  · intro d d' ih bs
    have shortens (depth : Nat) := operand_shortens (expression_shortens g takes depth) (bs.any id)
      (takes.shortens (expression_shortens g takes depth) (bs.any id))
    have follows := choice_follows (fun bs => (ih bs)) bs (chain_follows (operand_follows ih bs
      (takes.follows ih bs plain)) (shortens d) (shortens d') joins)
    exact follows.mono (by omega) (by omega)

end Formula

end JexlScript
