import JexlScript.Proofs.ParsedFormula
import JexlScript.Proofs.Parsing.SignFolding
import JexlScript.Proofs.Scanning.Runs

/-!
# Tokens tile their text

The tokens of a text stand in it one behind the other, with nothing but white
space around them, also where a minus was joined to the number after it. Each is
as long as it can be: a word goes on to the last character of words, and a symbol
that is no word is the longest of the grammar that stands there.
`Token.Tiling` puts this together, and `tokenize_tiles` says it of every text.

A word starts where the token before it stops, so a number or a symbol that ends
with a character of words may stand right before it (`word_behind_number`).
-/

namespace JexlScript

open List

/-- Whether a lexeme is a word: a name, a truth value, or a symbol that is spelled
as a word. -/
def Lexeme.isWord : Lexeme → Bool
  | .identifier _ | .literal (.bool _) => true
  | .symbol _ s => Token.isWord s.toList
  | .literal _ => false

/-- Whether a lexeme is a number, or a symbol that is no word. -/
def Lexeme.isNumberOrSymbol : Lexeme → Bool
  | .literal (.double _) => true
  | .symbol _ s => !Token.isWord s.toList
  | _ => false

variable {ι : Type} {g : Grammar ι}

namespace Token

variable {text : List Char}

/-! ## Places of a text -/

/-- All characters between two places are of some kind. -/
def AllBetween (kind : Char → Bool) (text : List Char) (a b : Nat) : Prop :=
  ∀ i c, a ≤ i → i < b → text[i]? = some c → kind c = true

/-- The token stands in the text at its position. -/
structure StandsIn (t : Token) (text : List Char) : Prop where
  nonempty : t.raw.toList ≠ []
  fits : t.raw.toList <+: text.drop t.position

namespace StandsIn

variable {t : Token}

theorem position_lt_stop (stands : t.StandsIn text) : t.position < t.stop := by
  have := length_pos_iff.mpr stands.nonempty
  unfold stop
  omega

theorem stop_le (stands : t.StandsIn text) : t.stop ≤ text.length := by
  have bound := stands.fits.length_le
  have := length_pos_iff.mpr stands.nonempty
  rw [length_drop] at bound
  unfold stop
  omega

/-- A token is a slice of its text. -/
theorem slice (stands : t.StandsIn text) : text.extract t.position t.stop = t.raw.toList := by
  have taken := prefix_iff_eq_take.mp stands.fits
  simpa [stop] using taken.symm

theorem append_drop (stands : t.StandsIn text) :
    t.raw.toList ++ text.drop t.stop = text.drop t.position := by
  obtain ⟨behind, whole⟩ := stands.fits
  rw [← whole, stop, ← drop_drop, ← whole, drop_left]

theorem getElem? (stands : t.StandsIn text) {i : Nat} (inside : i < t.raw.toList.length) :
    text[t.position + i]? = t.raw.toList[i]? := by
  rw [← getElem?_drop, ← stands.append_drop, getElem?_append_left inside]

theorem getLast? (stands : t.StandsIn text) : t.raw.toList.getLast? = text[t.stop - 1]? := by
  have size := length_pos_iff.mpr stands.nonempty
  have place : t.stop - 1 = t.position + (t.raw.toList.length - 1) := by
    unfold stop
    omega
  rw [getLast?_eq_getElem?, place, stands.getElem? (by omega)]

end StandsIn

/-- From a place on, the tokens tile the text: they stand in it one behind the
other, with white space before, between and after them. -/
inductive Tiles (text : List Char) : (start : Nat) → List Token → Prop
  | nil {start : Nat} : AllBetween Text.isBlank text start text.length → Tiles text start []
  | cons {start : Nat} {t : Token} {ts : List Token} : start ≤ t.position →
      AllBetween Text.isBlank text start t.position → t.StandsIn text → Tiles text t.stop ts →
      Tiles text start (t :: ts)

/-- A blank may come first. -/
theorem Tiles.blank {start : Nat} {c : Char} {ts : List Token} (tiles : Tiles text (start + 1) ts)
    (here : text[start]? = some c) (blank : Text.isBlank c = true) : Tiles text start ts := by
  have widen {b : Nat} (all : AllBetween Text.isBlank text (start + 1) b) :
      AllBetween Text.isBlank text start b := by
    intro i d from_ upTo found
    rcases Nat.eq_or_lt_of_le from_ with rfl | later
    · rw [here] at found
      cases found
      exact blank
    · exact all i d later upTo found
  cases tiles with
  | nil all => exact .nil (widen all)
  | cons before all stands others => exact .cons (by omega) (widen all) stands others

/-- The tokens that are cut tile the text, and each is a piece in front of what follows it. -/
theorem Cuts.tiles {position : Nat} {cs : List Char} {ts : List Token}
    (cuts : Cuts g position cs ts []) (place : text.drop position = cs) :
    Tiles text position ts ∧ ∀ t ∈ ts, Piece g t.raw.toList (text.drop t.stop) t.lexeme := by
  generalize nothing : [] = rest at cuts
  induction cuts with
  | stop position rest =>
    subst nothing
    refine ⟨.nil ?_, by simp⟩
    intro i c from_ upTo
    have := drop_eq_nil_iff.mp place
    omega
  | @blank position c cs rest ts blank cuts ih =>
    have here : text[position]? = some c := by
      rw [← head?_drop, place]
      rfl
    have behind : text.drop (position + 1) = cs := by
      rw [← drop_drop, place]
      rfl
    obtain ⟨tiles, pieces⟩ := ih behind nothing
    exact ⟨tiles.blank here blank, pieces⟩
  | @token position c cs raw behind rest lexeme ts other whole cut cuts ih =>
    obtain ⟨raw', behind', whole', lengths, piece⟩ := next_piece cut
    -- The piece is the one that was cut off, as both have the same length.
    obtain ⟨rfl, rfl⟩ : raw = raw' ∧ behind = behind' :=
      append_inj (whole.symm.trans whole') lengths
    have after : text.drop (position + raw.length) = behind := by
      rw [← drop_drop, place, whole, drop_left]
    obtain ⟨tiles, pieces⟩ := ih after nothing
    have ends : (⟨lexeme, String.ofList raw, position⟩ : Token).stop = position + raw.length := by
      simp [Token.stop]
    have stands : (⟨lexeme, String.ofList raw, position⟩ : Token).StandsIn text := by
      refine ⟨?_, ?_⟩
      · simpa using piece.ne_nil
      · rw [place, whole]
        simp
    refine ⟨.cons (Nat.le_refl _) ?_ stands (ends ▸ tiles), ?_⟩
    · intro i d from_ upTo
      simp only at upTo
      omega
    · refine forall_mem_cons.mpr ⟨?_, pieces⟩
      rw [ends, after]
      simpa using piece

/-! ## Signs -/

/-- A minus and the number behind it may be joined to one tile. -/
theorem Tiles.signed {start : Nat} {minus number : Token} {value : Double} {ts : List Token}
    (tiles : Tiles text start (minus :: number :: ts)) :
    Tiles text start (signed text minus number value :: ts) := by
  cases tiles with
  | cons before all stands rest =>
    cases rest with
    | cons between _ stands' others =>
      have order := stands.position_lt_stop
      have order' := stands'.position_lt_stop
      have bound := stands'.stop_le
      have size : ((text.drop minus.position).take (number.stop - minus.position)).length =
          number.stop - minus.position := by
        rw [length_take, length_drop]
        omega
      have ends : (Token.signed text minus number value).stop = number.stop := by
        simp only [Token.signed, Token.stop, String.toList_ofList] at size ⊢
        omega
      refine .cons before all ⟨?_, ?_⟩ (ends ▸ others)
      · intro empty
        simp only [Token.signed, String.toList_ofList] at empty
        rw [empty, length_nil] at size
        omega
      · simp only [Token.signed, String.toList_ofList]
        exact take_prefix _ _

/-- So joining signs leaves a tiling. -/
theorem Unfolds.tiles {start : Nat} {us ts : List Token} (unfolds : Unfolds text us ts)
    (tiles : Tiles text start ts) : Tiles text start us := by
  induction unfolds generalizing start with
  | nil => exact tiles
  | keep _ ih =>
    cases tiles with
    | cons before all stands others => exact .cons before all stands (ih others)
  | sign _ _ _ ih =>
    cases tiles.signed with
    | cons before all stands others => exact .cons before all stands (ih others)

/-- A token is one that was cut, or a number with its sign. -/
theorem Unfolds.mem {us ts : List Token} (unfolds : Unfolds text us ts) {u : Token}
    (member : u ∈ us) : u ∈ ts ∨ ∃ value, u.lexeme = .literal (.double value) := by
  induction unfolds with
  | nil => cases member
  | keep _ ih =>
    rcases mem_cons.mp member with rfl | member
    · exact .inl (.head _)
    · exact (ih member).imp_left (.tail _)
  | sign _ _ _ ih =>
    rcases mem_cons.mp member with rfl | member
    · exact .inr ⟨_, rfl⟩
    · exact (ih member).imp_left fun inside => .tail _ (.tail _ inside)

/-! ## What tiles a text -/

section

variable {start : Nat} {ts : List Token}

/-- Every tile stands in the text. -/
theorem Tiles.standsIn (tiles : Tiles text start ts) : ∀ t ∈ ts, t.StandsIn text := by
  induction tiles with
  | nil => simp
  | cons _ _ stands _ ih => exact forall_mem_cons.mpr ⟨stands, ih⟩

theorem Tiles.le_position (tiles : Tiles text start ts) : ∀ t ∈ ts, start ≤ t.position := by
  induction tiles with
  | nil => simp
  | cons before _ stands _ ih =>
    have := stands.position_lt_stop
    refine forall_mem_cons.mpr ⟨before, fun u member => ?_⟩
    have := ih u member
    omega

/-- Tiles do not overlap. -/
theorem Tiles.apart (tiles : Tiles text start ts) :
    ts.Pairwise fun t u => t.stop ≤ u.position := by
  induction tiles with
  | nil => exact .nil
  | cons _ _ _ others ih => exact .cons others.le_position ih

/-- A character is blank or in a tile. -/
theorem Tiles.blank_or_covered (tiles : Tiles text start ts) {i : Nat} {c : Char}
    (from_ : start ≤ i) (here : text[i]? = some c) :
    Text.isBlank c = true ∨ ∃ t ∈ ts, t.position ≤ i ∧ i < t.stop := by
  induction tiles with
  | nil all => exact .inl (all i c from_ (List.getElem?_eq_some_iff.mp here).1 here)
  | @cons start t ts before all stands others ih =>
    by_cases early : i < t.position
    · exact .inl (all i c from_ early here)
    · by_cases inside : i < t.stop
      · exact .inr ⟨t, .head _, by omega, inside⟩
      · refine (ih (by omega)).imp_right ?_
        rintro ⟨u, member, place⟩
        exact ⟨u, .tail _ member, place⟩

/-- Of two tiles one ends before the other starts. -/
theorem Tiles.order (tiles : Tiles text start ts) {t u : Token} (first : t ∈ ts) (second : u ∈ ts)
    (differ : t.position ≠ u.position) : t.stop ≤ u.position ∨ u.stop ≤ t.position := by
  induction tiles with
  | nil => cases first
  | cons _ _ _ others ih =>
    rcases mem_cons.mp first with rfl | first' <;>
      rcases mem_cons.mp second with rfl | second'
    · exact absurd rfl differ
    · exact .inl (others.le_position u second')
    · exact .inr (others.le_position t first')
    · exact ih first' second'

end

/-! ## Words and symbols -/

/-- A run of characters of words, from one place up to another. -/
structure IsRun (text : List Char) (a b : Nat) : Prop where
  nonempty : a < b
  inside : b ≤ text.length
  parts : AllBetween isWordPart text a b

/-- Every place of a run has a character of words. -/
theorem IsRun.exists_part {a b i : Nat} (run : IsRun text a b) (from_ : a ≤ i) (upTo : i < b) :
    ∃ c, text[i]? = some c ∧ isWordPart c = true := by
  have bound : i < text.length := Nat.lt_of_lt_of_le upTo run.inside
  have here : text[i]? = some text[i] := getElem?_eq_getElem bound
  exact ⟨text[i], here, run.parts i _ from_ upTo here⟩

/-- A word has only characters of words. -/
theorem isWordPart_of_isWord {cs : List Char} (word : isWord cs = true) :
    ∀ c ∈ cs, isWordPart c = true := by
  cases cs with
  | nil => simp
  | cons c cs =>
    simp only [isWord, Bool.and_eq_true, all_eq_true] at word
    exact forall_mem_cons.mpr ⟨by simp [isWordPart, word.1], word.2⟩

theorem toNat_of_isWordPart {c : Char} (part : isWordPart c = true) :
    36 ≤ c.toNat ∧ c.toNat ≤ 122 ∨ 192 ≤ c.toNat ∧ c.toNat ≤ 255 := by
  have letters : c.isAlpha = (decide (c.val ≥ 'A'.val ∧ c.val ≤ 'Z'.val) ||
      decide (c.val ≥ 'a'.val) && decide (c.val ≤ 'z'.val)) := rfl
  simp only [isWordPart, isWordStart, letters, ↓Char.isValue, Char.reduceVal, ge_iff_le,
    UInt32.le_iff_toNat_le, UInt32.reduceToNat, Char.toNat_val, Bool.decide_and, Char.isDigit,
    Bool.or_eq_true, Bool.and_eq_true, decide_eq_true_eq, beq_iff_eq, bne_iff_ne, ne_eq] at part
  rcases part with (((letter | rfl) | rfl) | accented) | digit
  · omega
  · decide
  · decide
  · omega
  · omega

/-- No blank is a character of words. -/
theorem isBlank_of_isWordPart {c : Char} (part : isWordPart c = true) : Text.isBlank c = false := by
  have code := toNat_of_isWordPart part
  simp only [Text.isBlank, Text.blanks, Text.CodePoints.contains, any_cons, any_nil,
    Bool.or_false, Bool.or_eq_false_iff, Bool.and_eq_false_iff, decide_eq_false_iff_not]
  omega

section

variable {raw rest : List Char} {lexeme : Lexeme}

/-- A word is followed by no character of words. -/
theorem Piece.isWord (piece : Piece g raw rest lexeme) (word : lexeme.isWord = true) :
    Token.isWord raw = true ∧ ∀ c, rest.head? = some c → isWordPart c = false := by
  cases piece with
  | string => cases word
  | number => cases word
  | word spelled ends => exact ⟨spelled, ends⟩
  | symbol start => simp [Lexeme.isWord, Token.isWord, start] at word

theorem isWord_word {text : String} (spelled : isWord text.toList = true) :
    (word g text).isWord = true := by
  unfold word
  split_ifs
  · rfl
  · rfl
  · split
    · exact spelled
    · rfl

/-- What is no word, but ends with a character of words, is a number or a symbol. -/
theorem Piece.isNumberOrSymbol (piece : Piece g raw rest lexeme) (other : lexeme.isWord = false)
    {c : Char} (last : raw.getLast? = some c) (part : isWordPart c = true) :
    lexeme.isNumberOrSymbol = true := by
  cases piece with
  | string quote =>
    -- it ends with a quote, which is in no word
    rw [← cons_append, getLast?_append_of_ne_nil _ (by simp)] at last
    cases last
    rcases quote with rfl | rfl <;> cases part
  | number => rfl
  | word spelled =>
    rw [isWord_word (by simpa using spelled)] at other
    cases other
  | symbol start => simp [Lexeme.isNumberOrSymbol, Token.isWord, start]

theorem Piece.symbol_eq {kind : SymbolKind} {s : String}
    (piece : Piece g raw rest (.symbol kind s)) : s.toList = raw := by
  generalize is : Lexeme.symbol kind s = lexeme at piece
  cases piece with
  | string => cases is
  | number => cases is
  | word =>
    unfold Token.word at is
    split_ifs at is
    split at is <;> cases is
    simp
  | symbol =>
    cases is
    simp

/-- A symbol that is no word is the longest that stands there. -/
theorem Piece.longest {kind : SymbolKind} {s : String} (piece : Piece g raw rest (.symbol kind s))
    (other : Token.isWord s.toList = false) :
    (g.lookup? s kind).isSome ∧
      ∀ s' ∈ g.elements.names, s'.toList <+: raw ++ rest → s'.toList.length ≤ raw.length := by
  have same := piece.symbol_eq
  generalize is : Lexeme.symbol kind s = lexeme at piece
  cases piece with
  | string => cases is
  | number => cases is
  | word spelled =>
    rw [same, spelled] at other
    cases other
  | symbol _ registered longest =>
    cases is
    exact ⟨Grammar.lookup?_kind registered, longest⟩

end

/-! ## The tokens of a text -/

/-- The tokens of a text, as they stand in it. -/
structure Tiling (g : Grammar ι) (text : List Char) (tokens : List Token) : Prop where
  increasing : tokens.Pairwise fun t u => t.position < u.position
  /-- A token ends before the next one starts. -/
  apart : tokens.Pairwise fun t u => t.stop ≤ u.position
  /-- A token is spelled by the text at its position. -/
  spelled : ∀ t ∈ tokens, text.extract t.position t.stop = t.raw.toList
  /-- A character outside of all tokens is white space. -/
  blank : ∀ i c, text[i]? = some c → (∀ t ∈ tokens, ¬ (t.position ≤ i ∧ i < t.stop)) →
    Text.isBlank c = true
  /-- A word is a run of characters of words. A longer run around it has the same
  end, and reaches back into a number or symbol that the word stands right behind. -/
  words : ∀ t ∈ tokens, t.lexeme.isWord = true → IsRun text t.position t.stop ∧
    ∀ a b, a ≤ t.position → t.stop ≤ b → IsRun text a b → b = t.stop ∧
      (a = t.position ∨ ∃ u ∈ tokens, u.stop = t.position ∧ u.lexeme.isNumberOrSymbol = true)
  /-- Any other symbol is the longest of the grammar that stands at its position. -/
  symbols : ∀ t ∈ tokens, ∀ kind s, t.lexeme = .symbol kind s → t.lexeme.isWord = false →
    t.raw = s ∧ (g.lookup? s kind).isSome ∧
      ∀ s' ∈ g.elements.names, s'.toList <+: text.drop t.position → s'.length ≤ s.length

/-- What the tokens of a text are like, by themselves and by their places. -/
structure Placed (g : Grammar ι) (text : List Char) (tokens : List Token) : Prop where
  tiles : Tiles text 0 tokens
  pieces : ∀ t ∈ tokens, Piece g t.raw.toList (text.drop t.stop) t.lexeme ∨
    ∃ value, t.lexeme = .literal (.double value)

/-- The tokens of every text are placed in it. -/
theorem tokenize_placed {tokens : List Token} (read : tokenize g text = .ok tokens) :
    Placed g text tokens := by
  obtain ⟨ts, scanned, rfl⟩ := exists_scan read
  obtain ⟨tiles, pieces⟩ := (scanFrom_eq_ok_iff.mp scanned).tiles rfl
  have unfolds := foldSigns_unfolds text none ts
  exact ⟨unfolds.tiles tiles, fun t member => (unfolds.mem member).imp_left (pieces t)⟩

namespace Placed

variable {tokens : List Token}

/-- A word is a run that cannot go on to the right. -/
theorem isRun (placed : Placed g text tokens) {t : Token} (member : t ∈ tokens)
    (word : t.lexeme.isWord = true) : IsRun text t.position t.stop ∧
      ∀ c, text[t.stop]? = some c → isWordPart c = false := by
  have stands := placed.tiles.standsIn t member
  rcases placed.pieces t member with piece | ⟨value, is⟩
  · obtain ⟨spelled, ends⟩ := piece.isWord word
    refine ⟨⟨stands.position_lt_stop, stands.stop_le, ?_⟩, ?_⟩
    · intro i c from_ upTo here
      obtain ⟨k, rfl⟩ := Nat.exists_eq_add_of_le from_
      rw [stands.getElem? (by unfold stop at upTo; omega)] at here
      exact isWordPart_of_isWord spelled c (mem_of_getElem? here)
    · intro c here
      rw [← head?_drop] at here
      exact ends c here
  · rw [is] at word
    cases word

/-- Where a run goes on to the left of a word, a number or a symbol ends right there. -/
theorem exists_before (placed : Placed g text tokens) {t : Token} (member : t ∈ tokens)
    (word : t.lexeme.isWord = true) {i : Nat} {c : Char} (before : i + 1 = t.position)
    (here : text[i]? = some c) (part : isWordPart c = true) :
    ∃ u ∈ tokens, u.stop = t.position ∧ u.lexeme.isNumberOrSymbol = true := by
  obtain blank | ⟨u, inside, from_, upTo⟩ := placed.tiles.blank_or_covered (Nat.zero_le i) here
  · rw [isBlank_of_isWordPart part] at blank
    cases blank
  have stop_eq : u.stop = t.position := by
    have := (placed.tiles.standsIn t member).position_lt_stop
    have := placed.tiles.order inside member (by omega)
    omega
  refine ⟨u, inside, stop_eq, ?_⟩
  have other : u.lexeme.isWord = false := by
    -- a word would go on with the first character of this one
    by_contra word'
    obtain ⟨run, _⟩ := placed.isRun member word
    obtain ⟨d, first, part'⟩ := run.exists_part (Nat.le_refl _) run.nonempty
    obtain ⟨_, ends⟩ := placed.isRun inside (Bool.of_not_eq_false word')
    rw [ends d (stop_eq ▸ first)] at part'
    cases part'
  rcases placed.pieces u inside with piece | ⟨value, is⟩
  · have last : u.raw.toList.getLast? = some c := by
      rw [(placed.tiles.standsIn u inside).getLast?, stop_eq, ← before, Nat.add_sub_cancel, here]
    exact piece.isNumberOrSymbol other last part
  · rw [is]
    rfl

/-- A run around a word ends with it. -/
theorem words (placed : Placed g text tokens) {t : Token} (member : t ∈ tokens)
    (word : t.lexeme.isWord = true) {a b : Nat} (left : a ≤ t.position) (right : t.stop ≤ b)
    (run : IsRun text a b) : b = t.stop ∧
      (a = t.position ∨ ∃ u ∈ tokens, u.stop = t.position ∧ u.lexeme.isNumberOrSymbol = true) := by
  obtain ⟨own, ends⟩ := placed.isRun member word
  have nonempty := own.nonempty
  constructor
  · by_contra longer
    obtain ⟨c, here, part⟩ := run.exists_part (by omega) (by omega : t.stop < b)
    rw [ends c here] at part
    cases part
  · rcases Nat.eq_or_lt_of_le left with same | earlier
    · exact .inl same
    · obtain ⟨c, here, part⟩ := run.exists_part (by omega : a ≤ t.position - 1) (by omega)
      exact .inr (placed.exists_before member word (by omega) here part)

/-- A symbol is spelled as it is registered, and no longer one stands there. -/
theorem symbols (placed : Placed g text tokens) {t : Token} (member : t ∈ tokens)
    {kind : SymbolKind} {s : String} (is : t.lexeme = .symbol kind s)
    (other : t.lexeme.isWord = false) : t.raw = s ∧ (g.lookup? s kind).isSome ∧
      ∀ s' ∈ g.elements.names, s'.toList <+: text.drop t.position → s'.length ≤ s.length := by
  have stands := placed.tiles.standsIn t member
  rcases placed.pieces t member with piece | ⟨value, is'⟩
  · rw [is] at piece other
    have same := piece.symbol_eq
    obtain ⟨registered, longest⟩ := piece.longest other
    refine ⟨String.toList_injective same.symm, registered, ?_⟩
    intro s' named fits
    rw [← stands.append_drop] at fits
    have bound := longest s' named fits
    rw [← same] at bound
    simpa only [String.length_toList] using bound
  · rw [is] at is'
    cases is'

end Placed

end Token

/-- The tokens of a text tile it. -/
theorem tokenize_tiles {text : String} {tokens : List Token}
    (read : tokenize g text = .ok tokens) : Token.Tiling g text.toList tokens := by
  have placed := Token.tokenize_placed (tokenize_eq_ok_iff.mp read)
  have stands := placed.tiles.standsIn
  refine ⟨?_, placed.tiles.apart, fun t member => (stands t member).slice, ?_, ?_, ?_⟩
  · refine placed.tiles.apart.imp_of_mem ?_
    intro t u first _ behind
    exact Nat.lt_of_lt_of_le (stands t first).position_lt_stop behind
  · intro i c here uncovered
    refine (placed.tiles.blank_or_covered (Nat.zero_le i) here).resolve_right ?_
    rintro ⟨t, member, place⟩
    exact uncovered t member place
  · intro t member word
    exact ⟨(placed.isRun member word).1, fun a b left right => placed.words member word left right⟩
  · intro t member kind s is other
    exact placed.symbols member is other

/-- The stock grammar with an operator `!in`, a symbol that ends with letters. -/
def notIn : Grammar Callable :=
  Grammar.stock.addBinaryOp "!in" (Double.ofRatio false 20 1) (.native "not_in")

/-- A sign is joined to its number across white space, and a number and a symbol
end where a word goes on. -/
theorem tokenize_tiles_notIn : ∃ tokens, tokenize notIn "- 5in !index" = .ok tokens ∧
    tokens.map (fun t => (t.raw, t.position)) = [("- 5", 0), ("in", 3), ("!in", 6), ("dex", 9)] ∧
    Token.Tiling notIn "- 5in !index".toList tokens := by
  have read : tokenize notIn "- 5in !index" = .ok
      [⟨.literal (.double (Double.ofRatio true 5 1)), "- 5", 0⟩, ⟨.symbol .binaryOp "in", "in", 3⟩,
        ⟨.symbol .binaryOp "!in", "!in", 6⟩, ⟨.identifier "dex", "dex", 9⟩] := by
    decide +kernel
  exact ⟨_, read, rfl, tokenize_tiles read⟩

/-- A run of characters of words that cannot be made longer. -/
def Token.IsMaximalRun (text : List Char) (a b : Nat) : Prop :=
  Token.IsRun text a b ∧
    ∀ a' b', a' ≤ a → b ≤ b' → Token.IsRun text a' b' → a' = a ∧ b' = b

/-- A word that stands right behind a number is not a maximal run. -/
theorem word_behind_number : ∃ t u, tokenize Grammar.stock "5in" = .ok [t, u] ∧
    u.lexeme.isWord = true ∧ ¬ Token.IsMaximalRun "5in".toList u.position u.stop := by
  refine ⟨⟨.literal (.double (Double.ofRatio false 5 1)), "5", 0⟩,
    ⟨.symbol .binaryOp "in", "in", 1⟩, by decide +kernel, rfl, ?_⟩
  rintro ⟨_, maximal⟩
  have run : Token.IsRun "5in".toList 0 3 := by
    have parts : ∀ c ∈ "5in".toList, Token.isWordPart c = true :=
      List.all_eq_true.mp (by decide)
    exact ⟨by decide, by decide, fun _ c _ _ here => parts c (List.mem_of_getElem? here)⟩
  have same := (maximal 0 3 (by decide) (by decide) run).1
  cases same

end JexlScript
