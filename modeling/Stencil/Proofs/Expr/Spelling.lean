import Mathlib.Tactic.Common
import Stencil.Expr.Parser

/-!
# Spellings

What the tokens of an expression stand for, as tables and without a parser: every operator has a
symbol, a word or both, literals other than numbers and strings are words, and a piece of a key path
is a name or an integer.  The case of a word never matters.  The lemmas say that the tables are what
the parser goes by.

## Main Definitions

* `BinaryOp.SpelledBy`, `Value.SpelledBy`, `Text.PieceBy` — what a token stands for
* `BinaryOp.tightness`, `Level.tightness` — the precedence of the operators
* `Text.IsFree` — the names that a key path can start with
-/

namespace Stencil

/-! ## Operators -/

namespace BinaryOp

/-- The symbol of an operator. -/
def symbol? : BinaryOp → Option Symbol
  | eq => some .equal
  | ne => some .notEqual
  | lt => some .less
  | le => some .lessEqual
  | gt => some .greater
  | ge => some .greaterEqual
  | and => some .both
  | or => some .either
  | add => some .plus
  | sub => some .minus
  | mul => some .times
  | div => some .divide
  | pow => some .power
  | isIn | contains | beginsWith | endsWith => none

/-- The word of an operator. -/
def word? : BinaryOp → Option String
  | and => some "and"
  | or => some "or"
  | isIn => some "in"
  | contains => some "contains"
  | beginsWith => some "beginswith"
  | endsWith => some "endswith"
  | _ => none

/-- A token stands for an operator: it is its symbol, or its word in any case. -/
def SpelledBy (op : BinaryOp) (token : Token) : Prop :=
  (∃ s ∈ op.symbol?, token = .symbol s) ∨ ∃ word ∈ op.word?, token.isWord word = true

/-- How tightly an operator holds its operands.  The places left free are those of `not` and of the
unary minus. -/
def tightness : BinaryOp → Nat
  | or => 0
  | and => 1
  | eq | ne | lt | le | gt | ge | isIn | contains | beginsWith | endsWith => 3
  | add | sub => 4
  | mul | div => 5
  | pow => 7

end BinaryOp

/-- How tightly the operators of a level hold their operands. -/
def Level.tightness : Level → Nat
  | disjunction => 0
  | conjunction => 1
  | comparison => 3
  | sum => 4
  | product => 5

theorem Level.tightness_lt (level : Level) : level.tightness < 6 := by
  cases level <;> decide

/-- Every operator but the power is one of a level. -/
theorem BinaryOp.exists_level {op : BinaryOp} (h : op ≠ .pow) :
    ∃ level : Level, op.tightness = level.tightness := by
  cases op with
  | or => exact ⟨.disjunction, rfl⟩
  | and => exact ⟨.conjunction, rfl⟩
  | eq | ne | lt | le | gt | ge | isIn | contains | beginsWith | endsWith =>
    exact ⟨.comparison, rfl⟩
  | add | sub => exact ⟨.sum, rfl⟩
  | mul | div => exact ⟨.product, rfl⟩
  | pow => exact absurd rfl h

/-- A token is one word only. -/
theorem Token.not_isWord {token : Token} {word other : String} (h : token.isWord word = true)
    (hne : Text.lower word.toList ≠ Text.lower other.toList) : token.isWord other = false := by
  cases token with
  | name text =>
    simp only [isWord, Text.sameWord, beq_iff_eq] at h
    simpa only [isWord, Text.sameWord, beq_eq_false_iff_ne, h] using hne
  | _ => rfl

theorem BinaryOp.spelledBy_pow : pow.SpelledBy (.symbol .power) := .inl ⟨_, rfl, rfl⟩

/-- What a level takes for one of its operators is a spelling of it. -/
theorem Level.spelledBy_of_operator? {level : Level} {token : Token} {op : BinaryOp}
    (h : level.operator? token = some op) :
    op.tightness = level.tightness ∧ op.SpelledBy token := by
  cases level with
  | disjunction | conjunction =>
    simp only [operator?, Option.ite_none_right_eq_some, Option.some.injEq] at h
    obtain ⟨hspelled, rfl⟩ := h
    exact ⟨rfl, by simpa [BinaryOp.SpelledBy, BinaryOp.symbol?, BinaryOp.word?] using hspelled⟩
  | comparison =>
    unfold operator? at h
    dsimp only at h
    split at h
    case h_7 =>
      split at h
      · next hword => cases h; exact ⟨rfl, .inr ⟨_, rfl, hword⟩⟩
      split at h
      · next hword => cases h; exact ⟨rfl, .inr ⟨_, rfl, hword⟩⟩
      split at h
      · next hword => cases h; exact ⟨rfl, .inr ⟨_, rfl, hword⟩⟩
      split at h
      · next hword => cases h; exact ⟨rfl, .inr ⟨_, rfl, hword⟩⟩
      · cases h
    all_goals cases h; exact ⟨rfl, .inl ⟨_, rfl, rfl⟩⟩
  | sum | product =>
    unfold operator? at h
    dsimp only at h
    split at h
    case h_3 => cases h
    all_goals cases h; exact ⟨rfl, .inl ⟨_, rfl, rfl⟩⟩

/-- A level takes every spelling of one of its operators for it. -/
theorem Level.operator?_of_spelledBy {level : Level} {token : Token} {op : BinaryOp}
    (htight : op.tightness = level.tightness) (h : op.SpelledBy token) :
    level.operator? token = some op := by
  rcases h with ⟨s, hs, rfl⟩ | ⟨word, hword, h⟩
  · cases op <;> cases hs <;> cases level <;> first | rfl | cases htight
  · have hother : ∀ other : String, Text.lower word.toList ≠ Text.lower other.toList →
        token.isWord other = false := fun other => Token.not_isWord h
    cases token with
    | name text =>
      cases op <;> cases hword <;> cases level <;> cases htight
      -- The comparison words are tried one after another.
      · simp [operator?, h]
      · simp [operator?, h]
      · simp [operator?, h]
      · simp [operator?, h, hother "in" (by decide)]
      · simp [operator?, h, hother "in" (by decide), hother "contains" (by decide)]
      · simp [operator?, h, hother "in" (by decide), hother "contains" (by decide),
          hother "beginswith" (by decide)]
    | _ => cases h

/-- A token stands for one operator at most. -/
theorem BinaryOp.SpelledBy.unique {op other : BinaryOp} {token : Token} (h : op.SpelledBy token)
    (h' : other.SpelledBy token) : op = other := by
  rcases h with ⟨s, hs, rfl⟩ | ⟨word, hword, h⟩ <;>
    rcases h' with ⟨s', hs', hsame⟩ | ⟨word', hword', h'⟩
  · obtain rfl := Token.symbol.inj hsame
    cases op <;> cases hs <;> cases other <;> first | rfl | cases hs'
  · cases h'
  · rw [hsame] at h
    cases h
  · by_contra hne
    have hlower : Text.lower word.toList ≠ Text.lower word'.toList := by
      cases op <;> cases hword <;> cases other <;> cases hword' <;>
        first | decide | exact absurd rfl hne
    rw [Token.not_isWord h hlower] at h'
    cases h'

/-! ## Literals, names and pieces -/

/-- A token stands for a literal. -/
def Value.SpelledBy : Value → Token → Prop
  | null, token => token.isWord "nil" = true ∨ token.isWord "null" = true
  | bool true, token => token.isWord "true" = true ∨ token.isWord "yes" = true
  | bool false, token => token.isWord "false" = true ∨ token.isWord "no" = true
  | number x, token => token = .number x
  | string s, token => ∃ escaped, token = .string s escaped
  | sequence _, _ | map _, _ => False

/-- The words that are literals. -/
def Token.literalWords : List String := ["true", "yes", "false", "no", "nil", "null"]

/-- A literal is a numeral, a string or a word. -/
theorem Value.SpelledBy.cases {v : Value} {token : Token} (h : v.SpelledBy token) :
    (∃ x, v = .number x ∧ token = .number x) ∨
      (∃ s escaped, v = .string s ∧ token = .string s escaped) ∨
      ∃ text, token = .name text ∧ ∃ word ∈ Token.literalWords, token.isWord word = true := by
  have hname : ∀ word ∈ Token.literalWords, token.isWord word = true →
      ∃ text, token = .name text ∧ ∃ word ∈ Token.literalWords, token.isWord word = true := by
    intro word hmem hword
    cases token with
    | name text => exact ⟨text, rfl, word, hmem, hword⟩
    | _ => cases hword
  cases v with
  | null => exact .inr (.inr (h.elim (hname _ (by decide)) (hname _ (by decide))))
  | bool b =>
    cases b with
    | true => exact .inr (.inr (h.elim (hname _ (by decide)) (hname _ (by decide))))
    | false => exact .inr (.inr (h.elim (hname _ (by decide)) (hname _ (by decide))))
  | number x => exact .inl ⟨x, rfl, h⟩
  | string s =>
    obtain ⟨escaped, h⟩ := h
    exact .inr (.inl ⟨s, escaped, rfl, h⟩)
  | sequence items => cases h
  | map entries => cases h

/-- The words that no key path starts with. -/
def Token.reservedWords : List String := "not" :: literalWords

/-- A name that is no word of the language, in any case. -/
def Text.IsFree (name : Text) : Prop :=
  ∀ word ∈ Token.reservedWords, (Token.name name).isWord word = false

instance (name : Text) : Decidable name.IsFree :=
  inferInstanceAs (Decidable (∀ word ∈ Token.reservedWords, (Token.name name).isWord word = false))

/-- A token stands for a piece of a key path: a name for itself, and an integer for its decimal
numeral, with the greatest number of sixty-four bits in place of those above it. -/
def Text.PieceBy (piece : Text) (token : Token) : Prop :=
  token = .name piece ∨ ∃ x n, token = .number x ∧ x.whole? = some (Int.ofNat n) ∧
    piece = Nat.toDigits 10 (min n (Nat.pow 2 64 - 1))

namespace Parser

/-- The test for a literal, said with words. -/
theorem constantOf?_eq (word : Text) :
    constantOf? word =
      if (Token.name word).isWord "true" ∨ (Token.name word).isWord "yes" then some (.bool true)
      else if (Token.name word).isWord "false" ∨ (Token.name word).isWord "no" then
        some (.bool false)
      else if (Token.name word).isWord "nil" ∨ (Token.name word).isWord "null" then some .null
      else none := by
  have hlower : ∀ w : String, Text.lower w.toList = w.toList →
      ((Token.name word).isWord w = true ↔ Text.lower word = w.toList) := by
    intro w hw
    rw [Token.isWord, Text.sameWord, beq_iff_eq, hw]
  simp only [constantOf?, hlower "true" (by decide), hlower "yes" (by decide),
    hlower "false" (by decide), hlower "no" (by decide), hlower "nil" (by decide),
    hlower "null" (by decide)]

/-- A word that is read as a literal stands for it. -/
theorem spelledBy_of_constantOf? {word : Text} {v : Value} (h : constantOf? word = some v) :
    v.SpelledBy (.name word) := by
  rw [constantOf?_eq] at h
  split_ifs at h with htrue hfalse hnull
  · obtain rfl := Option.some.inj h
    exact htrue
  · obtain rfl := Option.some.inj h
    exact hfalse
  · obtain rfl := Option.some.inj h
    exact hnull

/-- A word that stands for a literal is read as it. -/
theorem constantOf?_of_spelledBy {word : Text} {v : Value} (h : v.SpelledBy (.name word)) :
    constantOf? word = some v := by
  have hother : ∀ w other : String, (Token.name word).isWord w = true →
      Text.lower w.toList ≠ Text.lower other.toList →
      (Token.name word).isWord other = false := fun w other => Token.not_isWord
  rw [constantOf?_eq]
  match v, h with
  | .bool true, h => exact if_pos h
  | .bool false, h =>
    rcases h with h | h <;>
      simp [h, hother _ "true" h (by decide), hother _ "yes" h (by decide)]
  | .null, h =>
    rcases h with h | h <;>
      simp [h, hother _ "true" h (by decide), hother _ "yes" h (by decide),
        hother _ "false" h (by decide), hother _ "no" h (by decide)]
  | .number x, h => cases h
  | .string s, h => obtain ⟨escaped, h⟩ := h; cases h

theorem constantOf?_of_isFree {name : Text} (h : name.IsFree) : constantOf? name = none := by
  rw [constantOf?_eq]
  simp [h "true" (by decide), h "yes" (by decide), h "false" (by decide), h "no" (by decide),
    h "nil" (by decide), h "null" (by decide)]

theorem isNegation_of_isFree {name : Text} (h : name.IsFree) :
    isNegation (.name name) = false := by
  simpa [isNegation] using h "not" (by decide)

theorem pieceOf?_eq_some_iff {token : Token} {piece : Text} :
    pieceOf? token = some piece ↔ piece.PieceBy token := by
  cases token with
  | name text => simp [pieceOf?, Text.PieceBy, eq_comm]
  | number x =>
    simp only [pieceOf?, Text.PieceBy, reduceCtorEq, false_or, Token.number.injEq]
    constructor
    · intro h
      split at h
      · next n hn => exact ⟨x, n, rfl, hn, (Option.some.inj h).symm⟩
      · cases h
    · rintro ⟨_, n, rfl, hn, rfl⟩
      rw [hn]
  | string content escaped => simp [pieceOf?, Text.PieceBy]
  | symbol s => simp [pieceOf?, Text.PieceBy]

end Parser

end Stencil
