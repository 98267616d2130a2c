import JexlScript.Formula.Token
import Mathlib.Data.List.Basic

/-!
# What a text starts with

A piece of a text is a string, a number, a word or a symbol. `Token.Piece` says
what its characters and those behind it have to be for it to spell a lexeme, and
`Token.next_piece` that `Token.next` cuts off such a piece: a word goes on as long
as it can, and of the symbols that fit none is longer.
-/

namespace JexlScript

open List

namespace Token

variable {ι : Type} {g : Grammar ι}

/-! ## Strings -/

/-- A string ends with its quote. -/
theorem string?_eq_some {quote : Char} {cs value : List Char} {length : Nat}
    (found : string? quote cs = some (value, length)) :
    ∃ body rest, cs = body ++ quote :: rest ∧ length = body.length + 1 := by
  fun_induction string? quote cs generalizing value length with
  | case1 => cases found
  | case2 => exact ⟨[], [], rfl, by simp_all⟩
  | case3 => cases found
  | case4 c n cs escaped ih =>
    obtain ⟨⟨value', length'⟩, found', same⟩ := Option.map_eq_some_iff.mp found
    obtain ⟨body, rest, rfl, rfl⟩ := ih found'
    cases same
    exact ⟨c :: n :: body, rest, rfl, by simp⟩
  | case5 n cs _ => exact ⟨[], n :: cs, rfl, by simp_all⟩
  | case6 c n cs _ _ ih =>
    obtain ⟨⟨value', length'⟩, found', same⟩ := Option.map_eq_some_iff.mp found
    obtain ⟨body, rest, tail, rfl⟩ := ih found'
    cases same
    exact ⟨c :: body, rest, by simp [tail], by simp⟩

/-! ## Numbers -/

/-- The digits behind a point, if a point comes first. -/
def fraction : List Char → List Char
  | '.' :: rest => rest.takeWhile Char.isDigit
  | _ => []

theorem fraction_cons {c : Char} (cs : List Char) (other : c ≠ '.') : fraction (c :: cs) = [] := by
  unfold fraction
  split
  · next same => exact absurd (List.cons.inj same).1 other
  · rfl

theorem length_fraction (cs : List Char) :
    fraction cs = [] ∨ 1 + (fraction cs).length ≤ cs.length := by
  unfold fraction
  split
  · next rest =>
      have digits := List.IsPrefix.length_le <| takeWhile_prefix (l := rest) Char.isDigit
      refine .inr ?_
      rw [length_cons]
      omega
  · exact .inl rfl

/-- A number is its digits before the point and those behind it. -/
theorem number?_eq (cs : List Char) : number? cs =
    let whole := cs.takeWhile Char.isDigit
    let fraction := fraction (cs.drop whole.length)
    if !fraction.isEmpty then
      some (Double.ofDecimal false (digitsValue (whole ++ fraction)) (-fraction.length),
        whole.length + 1 + fraction.length)
    else if !whole.isEmpty then
      some (Double.ofDecimal false (digitsValue whole) 0, whole.length)
    else none := rfl

/-- A number has digits, and they are in the text. -/
theorem number?_eq_some {cs : List Char} {value : Double} {length : Nat}
    (found : number? cs = some (value, length)) : 0 < length ∧ length ≤ cs.length := by
  have whole := List.IsPrefix.length_le <| takeWhile_prefix (l := cs) Char.isDigit
  rw [number?_eq] at found
  simp only at found
  split_ifs at found with fractional digits
  · cases found
    rcases length_fraction (cs.drop (cs.takeWhile Char.isDigit).length) with empty | bound
    · simp [empty] at fractional
    · rw [length_drop] at bound
      omega
  · cases found
    refine ⟨length_pos_iff.mpr ?_, whole⟩
    simpa using digits

theorem number?_eq_none_iff {c : Char} (cs : List Char) (other : c ≠ '.') :
    number? (c :: cs) = none ↔ c.isDigit = false := by
  rw [number?_eq]
  cases digit : c.isDigit with
  | false => simp [digit, fraction_cons cs other]
  | true =>
    have whole : List.takeWhile Char.isDigit (c :: cs) ≠ [] := by simp [digit]
    simp only [reduceCtorEq, iff_false]
    split_ifs
    · simp
    · simp
    · simp_all

/-! ## Symbols -/

theorem mem_insertLongest {s t : List Char} {ts : List (List Char)} :
    t ∈ insertLongest s ts ↔ t = s ∨ t ∈ ts := by
  induction ts with
  | nil => simp [insertLongest]
  | cons u us ih =>
    rw [insertLongest]
    split
    · simp
    · rw [mem_cons, ih, mem_cons]
      tauto

/-- Texts of which none is followed by a longer one. -/
abbrev LongestFirst (ts : List (List Char)) : Prop :=
  ts.Pairwise fun s t => t.length ≤ s.length

/-- Inserting a symbol keeps longer ones first. -/
theorem LongestFirst.insert {ts : List (List Char)} (sorted : LongestFirst ts) (s : List Char) :
    LongestFirst (insertLongest s ts) := by
  induction sorted with
  | nil => simp [insertLongest]
  | @cons t ts first sorted ih =>
    rw [insertLongest]
    split
    · next shorter =>
        refine .cons (forall_mem_cons.mpr ⟨by omega, fun u member => ?_⟩) (.cons first sorted)
        have := first u member
        omega
    · next long =>
        refine .cons (fun u member => ?_) ih
        rcases mem_insertLongest.mp member with rfl | member
        · omega
        · exact first u member

/-- The symbols that are no words, the longest first. -/
theorem symbols_spec (g : Grammar ι) : LongestFirst (symbols g) ∧ ∀ cs, cs ∈ symbols g ↔
    ∃ s ∈ g.elements.names, isWord s.toList = false ∧ s.toList = cs := by
  -- what the loop over the names keeps of the texts that are sorted so far
  have loop (names sorted : List (List Char)) (holds : LongestFirst sorted) :
      LongestFirst (names.foldl (fun sorted s => insertLongest s sorted) sorted) ∧
        ∀ cs, cs ∈ names.foldl (fun sorted s => insertLongest s sorted) sorted ↔
          cs ∈ names ∨ cs ∈ sorted := by
    induction names generalizing sorted with
    | nil => exact ⟨holds, by simp⟩
    | cons s names ih =>
      refine ⟨(ih _ (holds.insert s)).1, fun cs => ?_⟩
      rw [foldl_cons, (ih _ (holds.insert s)).2, mem_insertLongest, mem_cons]
      tauto
  obtain ⟨sorted, members⟩ := loop _ [] .nil
  refine ⟨sorted, fun cs => (members cs).trans ?_⟩
  simp only [mem_filter, mem_map, not_mem_nil, or_false, Bool.not_eq_true']
  constructor
  · rintro ⟨⟨s, named, rfl⟩, sign⟩
    exact ⟨s, named, sign, rfl⟩
  · rintro ⟨s, named, sign, rfl⟩
    exact ⟨⟨s, named, rfl⟩, sign⟩

/-- The first symbol that fits is the longest that does. -/
theorem longestSymbol_spec (g : Grammar ι) (cs : List Char) :
    (longestSymbol g cs = [] ∨
      ∃ s ∈ g.elements.names, isWord s.toList = false ∧ s.toList = longestSymbol g cs) ∧
      longestSymbol g cs <+: cs ∧
      ∀ s ∈ g.elements.names, isWord s.toList = false → s.toList <+: cs →
        s.toList.length ≤ (longestSymbol g cs).length := by
  obtain ⟨sorted, members⟩ := symbols_spec g
  rw [longestSymbol]
  cases found : (symbols g).find? fun s => s.isPrefixOf cs with
  | none =>
    refine ⟨.inl rfl, nil_prefix, fun s named sign fits => ?_⟩
    have other := find?_eq_none.mp found s.toList ((members _).mpr ⟨s, named, sign, rfl⟩)
    exact absurd ( isPrefixOf_iff_prefix.mpr fits) other
  | some text =>
    obtain ⟨fits, before, after, whole, others⟩ := find?_eq_some_iff_append.mp found
    refine ⟨.inr ((members text).mp (by simp [whole])), isPrefixOf_iff_prefix.mp fits, ?_⟩
    intro s named sign fits'
    have member : s.toList ∈ before ++ text :: after :=
      whole ▸ (members _).mpr ⟨s, named, sign, rfl⟩
    -- Longer symbols come first, and none of them fits.
    rw [whole, LongestFirst, pairwise_append, pairwise_cons] at sorted
    rcases mem_append.mp member with earlier | here
    · have other := others _ earlier
      rw [ isPrefixOf_iff_prefix.mpr fits'] at other
      cases other
    · rcases mem_cons.mp here with same | later
      · exact Nat.le_of_eq (congrArg List.length same)
      · exact sorted.2.1.1 _ later

/-! ## Pieces -/

/-- The characters of a piece spell a lexeme, given the characters behind them. -/
inductive Piece (g : Grammar ι) : (raw rest : List Char) → Lexeme → Prop
  | string {quote : Char} {body rest : List Char} {value : String} :
      quote = '\x27' ∨ quote = '\x22' →
      Piece g (quote :: (body ++ [quote])) rest (.literal (.text value))
  | number {raw rest : List Char} {value : Double} :
      raw ≠ [] → Piece g raw rest (.literal (.double value))
  | word {raw rest : List Char} : isWord raw = true →
      (∀ c, rest.head? = some c → isWordPart c = false) →
      Piece g raw rest (word g (String.ofList raw))
  | symbol {c : Char} {cs rest : List Char} {element : Element ι} : isWordStart c = false →
      g.elements.get? (String.ofList (c :: cs)) = some element →
      (∀ s ∈ g.elements.names, s.toList <+: c :: cs ++ rest →
        s.toList.length ≤ (c :: cs).length) →
      Piece g (c :: cs) rest (.symbol element.kind (String.ofList (c :: cs)))

/-- A piece has a character. -/
theorem Piece.ne_nil {raw rest : List Char} {lexeme : Lexeme} (piece : Piece g raw rest lexeme) :
    raw ≠ [] := by
  cases piece with
  | string => simp
  | number some => exact some
  | word spelled =>
    rintro rfl
    cases spelled
  | symbol => simp

/-- What `next` cuts off is a piece. -/
theorem next_piece {c : Char} {cs : List Char} {lexeme : Lexeme} {length : Nat}
    (cut : next g c cs = .ok (lexeme, length)) :
    ∃ raw rest, c :: cs = raw ++ rest ∧ length = raw.length ∧ Piece g raw rest lexeme := by
  unfold next at cut
  split_ifs at cut with quote digit start
  · -- a string
    split at cut <;> cases cut
    next value length found =>
      obtain ⟨body, rest, rfl, rfl⟩ := string?_eq_some found
      refine ⟨c :: (body ++ [c]), rest, by simp, by simp, .string ?_⟩
      simpa using quote
  · -- a number
    split at cut <;> cases cut
    next value found =>
      obtain ⟨positive, bound⟩ := number?_eq_some found
      refine ⟨(c :: cs).take length, (c :: cs).drop length, by simp, ?_, .number ?_⟩
      · rw [length_take]
        omega
      · intro empty
        have := congrArg List.length empty
        rw [length_take, length_nil] at this
        omega
  · -- a word
    cases cut
    refine ⟨c :: cs.takeWhile isWordPart, cs.dropWhile isWordPart, by simp, rfl, .word ?_ ?_⟩
    · simp [isWord, start]
    · intro d head
      have stopped := head?_dropWhile_not isWordPart cs
      rw [head] at stopped
      simpa using stopped
  · -- a symbol; the words among them do not start with this character
    obtain ⟨_, fits, longest⟩ := longestSymbol_spec g (c :: cs)
    simp only at cut
    generalize longestSymbol g (c :: cs) = text at cut fits longest
    obtain ⟨rest, whole⟩ := fits
    cases text with
    | nil => split at cut <;> cases cut
    | cons d ds =>
      obtain ⟨rfl, rfl⟩ := List.cons.inj whole
      split at cut
      · next element registered =>
          cases cut
          refine ⟨d :: ds, rest, rfl, rfl, .symbol (by simpa using start) registered ?_⟩
          intro s named fits
          refine longest s named ?_ fits
          cases chars : s.toList with
          | nil => rfl
          | cons e es =>
            rw [chars] at fits
            obtain ⟨rfl, _⟩ := cons_prefix_cons.mp fits
            simp [isWord, start]
      · cases cut

end Token

end JexlScript
