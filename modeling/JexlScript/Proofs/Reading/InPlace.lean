import JexlScript.Proofs.Reading.Expressions

/-!
# Expressions in their places

Arguments, elements, values of properties and computed keys stand between brackets and
commas, where any expression may stand. `Expr.ReadsInPlace names e t` says that there the
text of `e` is read as the tree `t`, whatever is around it. Legible expressions are read in
place as they are read alone, and two expressions in place cannot run into each other:
behind the one, no comma or bracket belongs to the text of another.
-/

namespace JexlScript.Script

open List Reading

variable {names : NameClass}

/-! ## Legible expressions have texts -/

theorem isWritable_of_isExact {v : Scalar} (h : isExact v = true) : v.isWritable = true := by
  cases v with
  | int n =>
    have small : n.natAbs < 2 ^ 53 := of_decide_eq_true h
    rw [Scalar.isWritable, intText?, if_pos small]
    rfl
  | null | bool | text | double => rfl

/-- Legible expressions have a text. -/
theorem Expr.Legible.isWritable {e : Expr} (legible : e.Legible names) : e.isWritable = true := by
  induction legible with
  | ident | undefined => rfl
  | lit h => exact isWritable_of_isExact h
  | array _ ih | new _ _ ih => exact (exprsWritable_eq_all _).trans (all_eq_true.mpr ih)
  | object _ _ ih => exact (propsWritable_eq_all _).trans (all_eq_true.mpr ih)
  | property _ _ _ ih => simp [Expr.isWritable, ih]
  | index _ _ _ ih ihKey => simp [Expr.isWritable, ih, ihKey]
  | call _ _ ih ihArgs =>
    simpa [Expr.isWritable, ih, exprsWritable_eq_all] using ihArgs
  | unary _ _ ih => exact ih
  | binary _ _ _ ihLeft ihRight | logical _ _ _ ihLeft ihRight =>
    simp [Expr.isWritable, ihLeft, ihRight]
  | ternary _ _ _ ihTest ihYes ihNo => simp [Expr.isWritable, ihTest, ihYes, ihNo]
  | arrow _ _ _ ih => exact ih

/-! ## Places -/

/-- What may follow an expression in place. -/
def Closes (rest : List Char) : Prop := ∀ c ∈ rest.head?, c ∈ [',', ')', ']', '\x7d']

theorem closes_nil : Closes [] := fun _ h => absurd h (by simp)

theorem closes_cons {c : Char} (rest : List Char) (h : c ∈ [',', ')', ']', '\x7d']) :
    Closes (c :: rest) := by
  intro d hd
  obtain rfl : c = d := by simpa using hd
  exact h

/-- In its place, an expression has a text with these tokens, and they are read as this
tree. -/
structure Expr.Written (names : NameClass) (e : Expr) (ts : List Token) (t : Expr) : Prop where
  writable : e.isWritable = true
  lexes : ∀ rest, Closes rest → Lexes names e.text ts rest
  inside : StartsInside ts
  reads : ReadsWhole ts t

/-- The text of an expression is read as a tree wherever it stands in place. -/
def Expr.ReadsInPlace (names : NameClass) (e t : Expr) : Prop := ∃ ts, e.Written names ts t

/-- Legible expressions are read in place as they are read alone. -/
theorem Expr.readsInPlace (e : Expr) (legible : e.isLegible names = true) :
    e.ReadsInPlace names e.asRead := by
  have legible := e.legible legible
  refine ⟨e.tokens, legible.isWritable, fun rest closes => legible.lexes rest fun c hc => Or.inl ?_,
    legible.hasHead.startsInside, legible.reads.whole⟩
  have close := closes c hc
  fin_cases close <;> decide

theorem Expr.ReadsInPlace.isWritable {e t : Expr} (h : e.ReadsInPlace names t) :
    e.isWritable = true := by
  obtain ⟨ts, written⟩ := h
  exact written.writable

theorem Expr.ReadsInPlace.read_text {e t : Expr} (h : e.ReadsInPlace names t) :
    Reading.read names e.text = some t := by
  obtain ⟨ts, written⟩ := h
  have parsed := written.reads [] (by simp [Ends])
  rw [append_nil] at parsed
  rw [Reading.read, (written.lexes [] closes_nil).tokens_eq]
  simp [parsed]

theorem Reading.Lexes.closing {c : Char} (rest : List Char) (h : c ∈ [',', ')', ']', '\x7d']) :
    ∃ t ∈ [")", "]", "\x7d", ",", ":"].map Token.sign, Lexes names [c] [t] rest := by
  fin_cases h
  · exact ⟨.sign ",", by decide, Lexes.bracket (s := ",") rest (by decide)⟩
  · exact ⟨.sign ")", by decide, Lexes.bracket (s := ")") rest (by decide)⟩
  · exact ⟨.sign "]", by decide, Lexes.bracket (s := "]") rest (by decide)⟩
  · exact ⟨.sign "\x7d", by decide, Lexes.bracket (s := "\x7d") rest (by decide)⟩

/-- No text in place starts with another one and what closes it. -/
theorem Expr.ReadsInPlace.text_ne {e f t u : Expr} (he : e.ReadsInPlace names t)
    (hf : f.ReadsInPlace names u) {c : Char} (rest : List Char)
    (close : c ∈ [',', ')', ']', '\x7d']) : f.text ≠ e.text ++ c :: rest := by
  intro longer
  obtain ⟨ts, he⟩ := he
  obtain ⟨us, hf⟩ := hf
  obtain ⟨t, isClose, single⟩ : ∃ t ∈ [")", "]", "\x7d", ",", ":"].map Token.sign,
      Lexes names [c] [t] rest := Lexes.closing rest close
  have whole := (hf.lexes [] closes_nil).tokens_eq
  have part := he.lexes (c :: rest) (closes_cons rest close)
  rw [Lexes, ← longer, whole, ← singleton_append, single] at part
  cases behind : Reading.tokens names rest with
  | none => simp [behind] at part
  | some vs =>
    -- the reader of the shorter text stops at the token that the longer one goes on with
    obtain rfl : us = ts ++ t :: vs := by simpa [behind] using part
    have short := he.reads (t :: vs) fun s hs => by
      obtain rfl : t = s := by simpa using hs
      exact isClose
    have long := hf.reads [] (by simp [Ends])
    rw [append_nil, short] at long
    simp at long

/-- So two texts in place end at the same character. -/
theorem Expr.ReadsInPlace.append_inj {e f t u : Expr} (he : e.ReadsInPlace names t)
    (hf : f.ReadsInPlace names u) {c d : Char} {r s : List Char}
    (hc : c ∈ [',', ')', ']', '\x7d']) (hd : d ∈ [',', ')', ']', '\x7d'])
    (same : e.text ++ c :: r = f.text ++ d :: s) : c :: r = d :: s := by
  rcases append_eq_append_iff.mp same with ⟨more, longer, rest⟩ | ⟨more, longer, rest⟩
  · cases more with
    | nil => exact rest
    | cons x xs =>
      obtain ⟨rfl, _⟩ := List.cons.inj rest
      exact absurd longer (he.text_ne hf xs hc)
  · cases more with
    | nil => exact rest.symm
    | cons x xs =>
      obtain ⟨rfl, _⟩ := List.cons.inj rest
      exact absurd longer (hf.text_ne he xs hd)

/-! ## Lists -/

/-- Expressions that are read in place, each as its tree. -/
abbrev AllInPlace (names : NameClass) (es ts : List Expr) : Prop :=
  List.Forall₂ (Expr.ReadsInPlace names) es ts

theorem allInPlace (es : List Expr) (legible : exprsLegible names es = true) :
    AllInPlace names es (exprsAsRead es) := by
  induction es with
  | nil => exact .nil
  | cons e es ih =>
    simp only [exprsLegible, Bool.and_eq_true] at legible
    exact .cons (e.readsInPlace legible.1) (ih legible.2)

theorem AllInPlace.writable {es ts : List Expr} (h : AllInPlace names es ts) :
    exprsWritable es = true := by
  induction h with
  | nil => rfl
  | cons first more ih => simp [exprsWritable, first.isWritable, ih]

/-- Written arguments are read one after the other. -/
theorem AllInPlace.arguments {es ts : List Expr} (h : AllInPlace names es ts) :
    ∃ tss, (∀ rest, Lexes names (parens (commas (es.map Expr.text)))
        (parenTokens (commaTokens tss)) rest) ∧
      (∀ us ∈ tss, StartsInside us) ∧ List.Forall₂ ReadsWhole tss ts := by
  -- Each argument comes with its tokens.
  obtain ⟨items, rfl, written⟩ : ∃ items : List (Expr × List Token), items.map Prod.fst = es ∧
      List.Forall₂ (fun i t => i.1.Written names i.2 t) items ts := by
    induction h with
    | nil => exact ⟨[], rfl, .nil⟩
    | @cons e t es ts first more ih =>
      obtain ⟨us, first⟩ := first
      obtain ⟨items, rfl, written⟩ := ih
      exact ⟨(e, us) :: items, rfl, .cons first written⟩
  have each : ∀ i ∈ items, ∃ t, i.1.Written names i.2 t := by
    intro i member
    obtain ⟨n, bound, rfl⟩ := getElem_of_mem member
    exact ⟨_, (forall₂_iff_get.mp written).2 n bound (written.length_eq ▸ bound)⟩
  refine ⟨items.map Prod.snd, fun rest => ?_, ?_, ?_⟩
  · rw [map_map]
    refine Lexes.parens (Lexes.commas (fun i member r => ?_) fun i member => ?_)
    · obtain ⟨_, item⟩ := each i member
      exact item.lexes _ (closes_cons _ (by decide))
    · obtain ⟨_, item⟩ := each i member
      exact item.lexes _ (closes_cons _ (by decide))
  · intro us member
    obtain ⟨i, among, rfl⟩ := mem_map.mp member
    obtain ⟨_, item⟩ := each i among
    exact item.inside
  · exact forall₂_map_left_iff.mpr (written.imp fun _ _ item => item.reads)

end JexlScript.Script
