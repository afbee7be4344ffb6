import Stencil.Proofs.Expr.Height
import Stencil.Proofs.Text.Trim

/-!
# Key paths among the expressions

A key path can be looked up as it is written, and it can be read as an expression first.  Reading it
takes its names over letter by letter.  Its numerals become numbers and are written anew, so that
what is looked up in the end may be another path: a numeral with a zero in front loses it, one with
too many digits is rounded, and one that is beyond all numbers makes the text no expression.

`KeyPath.read?` is the path that is looked up then, and `KeyPath.ofText_text` says that the grammar
makes nothing else of a key path.

## Main Definitions

* `KeyPath`, `KeyPath.text` — a key path by its pieces, and the text it is written as
* `KeyPath.Piece.read?`, `KeyPath.read?` — what a piece and the whole path are read as
-/

namespace Stencil

namespace Text

/-- Whether a text is an identifier: a Latin letter, an underscore or an at sign, and word
characters behind it. -/
def isIdentifier : Text → Bool
  | [] => false
  | c :: t => Token.startsName c && t.all isWordChar

/-- Whether a text consists of digits, at least one. -/
def isNumeral : Text → Bool
  | [] => false
  | c :: t => c.isDigit && t.all Char.isDigit

theorem exists_of_isIdentifier {t : Text} (h : t.isIdentifier = true) :
    ∃ c w, t = c :: w ∧ Token.startsName c = true ∧ w.all isWordChar = true := by
  cases t with
  | nil => cases h
  | cons c w => exact ⟨c, w, rfl, Bool.and_eq_true_iff.1 h⟩

theorem exists_of_isNumeral {t : Text} (h : t.isNumeral = true) :
    ∃ c w, t = c :: w ∧ c.isDigit = true ∧ w.all Char.isDigit = true := by
  cases t with
  | nil => cases h
  | cons c w => exact ⟨c, w, rfl, Bool.and_eq_true_iff.1 h⟩

end Text

/-- A key path: an identifier that is no word of the language, and behind it identifiers and
numerals. -/
structure KeyPath where
  head : { t : Text // t.isIdentifier = true ∧ t.IsFree }
  pieces : List { t : Text // t.isIdentifier = true ∨ t.isNumeral = true }

namespace KeyPath

/-- An identifier or a numeral. -/
abbrev Piece := { t : Text // t.isIdentifier = true ∨ t.isNumeral = true }

/-- The pieces behind the first one, each behind a dot. -/
def tailText (pieces : List Text) : Text := pieces.flatMap fun t => '.' :: t

/-- A key path as it is written. -/
def text (p : KeyPath) : Text := p.head ++ tailText (p.pieces.map Subtype.val)

/-- The number that a numeral is written for. -/
def numeral (t : Text) : Nat := Nat.ofDigitChars 10 t 0

/-- The token of a piece. -/
def Piece.token (t : Piece) : Token :=
  if t.1.isNumeral then .number (.ofDecimal (numeral t.1) 0) else .name t.1

/-- What a piece is read as. -/
def Piece.read? (t : Piece) : Option Text := Parser.pieceOf? t.token

/-- The tokens of the pieces behind the first one. -/
def tailTokens (pieces : List Piece) : List Token :=
  pieces.flatMap fun t => [.symbol .dot, t.token]

/-- What the pieces behind the first one are read as, if each of them is read as something. -/
def readTail? : List Piece → Option Text
  | [] => some []
  | t :: rest =>
    match t.read?, readTail? rest with
    | some piece, some tail => some ('.' :: (piece ++ tail))
    | _, _ => none

/-- What a key path is read as. -/
def read? (p : KeyPath) : Option Text := (readTail? p.pieces).map (p.head ++ ·)

end KeyPath

/-! ## Tokens -/

namespace Token

theorem splitSymbol?_eq_none {c : Char} (h : startsName c = true ∨ c.isDigit = true) (t : Text) :
    splitSymbol? (c :: t) = none := by
  have hone : symbolOfOne? c = none := by
    unfold symbolOfOne?
    split
    all_goals first | rfl | exact absurd h (by decide)
  cases t with
  | nil => rw [splitSymbol?, hone]; rfl
  | cons d t =>
    have htwo : symbolOfTwo? c d = none := by
      unfold symbolOfTwo?
      split
      all_goals first | rfl | exact absurd h (by decide)
    rw [splitSymbol?, htwo]
    simp [hone]

theorem not_quote {c : Char} (h : startsName c = true ∨ c.isDigit = true) :
    ¬(c = '\'' ∨ c = '"') := by
  rintro (rfl | rfl) <;> exact absurd h (by decide)

/-- A character that starts a name, by its code. -/
theorem startsName_iff {c : Char} : startsName c = true ↔
    65 ≤ c.toNat ∧ c.toNat ≤ 90 ∨ 97 ≤ c.toNat ∧ c.toNat ≤ 122 ∨ c.toNat = 95 ∨ c.toNat = 64 := by
  have hunderscore : c = '_' ↔ c.toNat = 95 := by rw [← Char.toNat_inj]; rfl
  have hat : c = '@' ↔ c.toNat = 64 := by rw [← Char.toNat_inj]; rfl
  show ((c.isAlpha || c == '_') || c == '@') = true ↔ _
  rw [Bool.or_eq_true, Bool.or_eq_true, Text.isAlpha_iff, beq_iff_eq, beq_iff_eq, hunderscore, hat,
    or_assoc, or_assoc]

/-- A name starts with no digit. -/
theorem not_isDigit_of_startsName {c : Char} (h : startsName c = true) : c.isDigit = false := by
  rw [startsName_iff] at h
  rw [← Bool.not_eq_true, Text.isDigit_iff]
  omega

theorem isBlank_eq_false {c : Char} (h : startsName c = true ∨ c.isDigit = true) :
    Text.isBlank c = false := by
  rw [startsName_iff, Text.isDigit_iff] at h
  rw [← Bool.not_eq_true]
  simp only [Text.isBlank, Bool.or_eq_true, Bool.and_eq_true, decide_eq_true_eq, beq_iff_eq]
  omega

/-- An identifier is the first token of a text up to where it ends. -/
theorem next?_identifier (afterDot : Bool) {c : Char} {w rest : Text} (hc : startsName c = true)
    (hw : w.all Text.isWordChar = true) (hrest : Text.StopsWord rest) :
    ∃ left, left.1 = rest ∧ next? afterDot c (w ++ rest) = .ok (.name (c :: w), left) := by
  have hsplit := Text.splitWord_append hw hrest
  refine ⟨⟨rest, ?_⟩, rfl, ?_⟩
  · rw [List.length_cons, List.length_append]
    omega
  · rw [next?, splitSymbol?_eq_none (.inl hc), if_neg (not_quote (.inl hc)),
      dif_neg (by rw [not_isDigit_of_startsName hc]; exact Bool.false_ne_true), if_pos hc]
    simp only [hsplit]

/-- A character that starts no symbol of two is a token whatever comes behind it. -/
theorem next?_symbol (afterDot : Bool) {c : Char} {s : Symbol} (hone : symbolOfOne? c = some s)
    (htwo : ∀ d, symbolOfTwo? c d = none) (t : Text) :
    ∃ left, left.1 = t ∧ next? afterDot c t = .ok (.symbol s, left) := by
  refine ⟨⟨t, Nat.lt_succ_self _⟩, rfl, ?_⟩
  cases t with
  | nil => rw [next?, splitSymbol?, hone]; rfl
  | cons d t => rw [next?, splitSymbol?, htwo, hone]; rfl

/-- A dot is a token whatever comes behind it. -/
theorem next?_dot (afterDot : Bool) (t : Text) :
    ∃ left, left.1 = t ∧ next? afterDot '.' t = .ok (.symbol .dot, left) :=
  next?_symbol afterDot rfl (fun _ => rfl) t

/-- A numeral is the first token of a text up to where it ends. -/
theorem next?_number {afterDot : Bool} {c : Char} {w rest : Text} {n : Numeral} {x : Number}
    (hc : c.isDigit = true) (hsplit : Numeral.split afterDot (c :: w) = (n, rest))
    (hn : n.number? = some x) :
    ∃ left, left.1 = rest ∧ next? afterDot c w = .ok (.number x, left) := by
  have hlt : (Numeral.split afterDot (c :: w)).2.length < (c :: w).length :=
    Numeral.length_split_lt hc
  rw [hsplit] at hlt
  refine ⟨⟨rest, hlt⟩, rfl, ?_⟩
  rw [next?, splitSymbol?_eq_none (.inr hc), if_neg (not_quote (.inr hc)), dif_pos hc]
  simp only [hsplit, hn]

/-- Behind a dot, a numeral ends where its digits end. -/
theorem next?_numeral {c : Char} {w rest : Text} (hc : c.isDigit = true)
    (hw : w.all Char.isDigit = true) (hrest : ∀ d ∈ rest.head?, d.isDigit = false) :
    ∃ left, left.1 = rest ∧ next? true c (w ++ rest) =
      .ok (.number (.ofDecimal (KeyPath.numeral (c :: w)) 0), left) := by
  have hdigits : (c :: w).all Char.isDigit = true := by rw [List.all_cons, hc, hw]; rfl
  obtain ⟨htake, hdrop⟩ := Text.splitDigits_append hdigits hrest
  have hsplit : Numeral.split true (c :: (w ++ rest)) = (⟨c :: w, [], none⟩, rest) := by
    rw [← List.cons_append, Numeral.split, htake, hdrop]
    rfl
  refine next?_number hc hsplit ?_
  rw [Numeral.number?, List.append_nil]
  rfl

end Token

namespace KeyPath

theorem stopsWord_tailText (pieces : List Text) : Text.StopsWord (tailText pieces) := by
  cases pieces with
  | nil => nofun
  | cons t rest => exact Text.stopsWord_cons (by decide) _

theorem Piece.token_of_identifier {t : Piece} (h : t.1.isIdentifier = true) :
    t.token = .name t.1 := by
  obtain ⟨c, w, ht, hc, -⟩ := Text.exists_of_isIdentifier h
  refine if_neg ?_
  rw [ht, Text.isNumeral, Token.not_isDigit_of_startsName hc]
  exact Bool.false_ne_true

theorem Piece.token_of_numeral {t : Piece} (h : t.1.isNumeral = true) :
    t.token = .number (.ofDecimal (numeral t.1) 0) := if_pos h

theorem Piece.token_ne_dot (t : Piece) : t.token ≠ .symbol .dot := by
  rw [token]
  split <;> exact Token.noConfusion

/-- A piece is the next token behind a dot. -/
theorem readFrom_piece (t : Piece) {rest : Text} {tokens : List Token}
    {fault : Option SyntaxError} (hrest : Text.StopsWord rest)
    (htokens : Token.readFrom false rest = (tokens, fault)) :
    Token.readFrom true (t.1 ++ rest) = (t.token :: tokens, fault) := by
  have hnext : ∃ c w, t.1 = c :: w ∧ Text.isBlank c = false ∧
      ∃ left, left.1 = rest ∧ Token.next? true c (w ++ rest) = .ok (t.token, left) := by
    rcases t.2 with hid | hnumeral
    · obtain ⟨c, w, ht, hc, hw⟩ := Text.exists_of_isIdentifier hid
      rw [Piece.token_of_identifier hid, ht]
      exact ⟨c, w, rfl, Token.isBlank_eq_false (.inl hc), Token.next?_identifier true hc hw hrest⟩
    · obtain ⟨c, w, ht, hc, hw⟩ := Text.exists_of_isNumeral hnumeral
      have hdigit : ∀ d ∈ rest.head?, d.isDigit = false := by
        intro d hd
        have hword := hrest d hd
        rw [← Bool.not_eq_true, Text.isWordChar_iff] at hword
        rw [← Bool.not_eq_true, Text.isDigit_iff]
        omega
      rw [Piece.token_of_numeral hnumeral, ht]
      exact ⟨c, w, rfl, Token.isBlank_eq_false (.inr hc), Token.next?_numeral hc hw hdigit⟩
  obtain ⟨c, w, ht, hblank, left, hleft, hnext⟩ := hnext
  rw [ht]
  refine Token.readFrom_cons hblank hnext ?_
  rw [hleft, decide_eq_false t.token_ne_dot]
  exact htokens

/-- The tokens of the pieces. -/
theorem readFrom_tailText (pieces : List Piece) :
    Token.readFrom false (tailText (pieces.map Subtype.val)) = (tailTokens pieces, none) := by
  induction pieces with
  | nil =>
    rw [Token.readFrom]
    rfl
  | cons t rest ih =>
    have hpiece := readFrom_piece t (stopsWord_tailText _) ih
    obtain ⟨left, hleft, hnext⟩ :=
      Token.next?_dot false (t.1 ++ tailText (rest.map Subtype.val))
    refine Token.readFrom_cons (by decide) hnext ?_
    rw [hleft, decide_eq_true rfl]
    exact hpiece

theorem readAll_text (p : KeyPath) :
    Token.readAll p.text = (.name p.head :: tailTokens p.pieces, none) := by
  obtain ⟨c, w, hhead, hc, hw⟩ := Text.exists_of_isIdentifier p.head.2.1
  obtain ⟨left, hleft, hnext⟩ := Token.next?_identifier false hc hw
    (stopsWord_tailText (p.pieces.map Subtype.val))
  rw [Token.readAll, text, hhead]
  refine Token.readFrom_cons (Token.isBlank_eq_false (.inl hc)) hnext ?_
  rw [hleft]
  exact readFrom_tailText p.pieces

end KeyPath

/-! ## The rules of the grammar -/

namespace Parser

variable {α β : Type}

theorem toOption_bind (x : Except SyntaxError α) (f : α → Except SyntaxError β) :
    (x >>= f).toOption = x.toOption.bind fun a => (f a).toOption := by
  cases x <;> rfl

section Alone

variable {tokens : List Token} {o : Option Expr}

/-- Operands that use all tokens up have no operator behind them. -/
theorem toOption_chain (level : Level) (depth : Nat)
    (h : (outcome (operand none level depth tokens)).toOption = o.map (·, [])) :
    (outcome (chain none level depth tokens)).toOption = o.map (·, []) := by
  rw [outcome_chain, toOption_bind, h]
  cases o with
  | none => rfl
  | some e =>
    show (outcome (chainTail none level depth e [])).toOption = some (e, [])
    rw [outcome_chainTail_nil]
    rfl

/-- What uses all tokens up, and starts with neither a negation nor a minus, stands alone: no
operator, subscript or name comes behind it. -/
theorem toOption_expression (depth : Nat) (hdepth : depth + 1 ≤ depthLimit)
    (hnegation : ∀ token ∈ tokens.head?, isNegation token = false)
    (hminus : tokens.head? ≠ some (.symbol .minus))
    (h : (outcome (primary none (depth + 1) tokens)).toOption = o.map (·, [])) :
    (outcome (expression none depth tokens)).toOption = o.map (·, []) := by
  have hparts : (outcome (parts none (depth + 1) tokens)).toOption = o.map (·, []) := by
    rw [outcome_parts, toOption_bind, h]
    cases o with
    | none => rfl
    | some e =>
      show (outcome (partsTail none (depth + 1) e [])).toOption = some (e, [])
      rw [outcome_partsTail_of_ne (by rintro ⟨⟩) (by rintro ⟨⟩)]
      rfl
  have hpower : (outcome (power none (depth + 1) tokens)).toOption = o.map (·, []) := by
    rw [outcome_power, toOption_bind, hparts]
    cases o <;> rfl
  have hunary : (outcome (operand none .product (depth + 1) tokens)).toOption =
      o.map (·, []) := by
    rw [operand_product, unary_of_ne hminus, hpower]
  have hproduct := toOption_chain .product (depth + 1) hunary
  rw [← operand_sum] at hproduct
  have hsum := toOption_chain .sum (depth + 1) hproduct
  rw [← operand_comparison] at hsum
  have hcomparison := toOption_chain .comparison (depth + 1) hsum
  rw [← negation_of_not hnegation, ← operand_conjunction] at hcomparison
  have hconjunction := toOption_chain .conjunction (depth + 1) hcomparison
  rw [← operand_disjunction] at hconjunction
  have hdisjunction := toOption_chain .disjunction (depth + 1) hconjunction
  rw [outcome_expression, toOption_bind, guardDepth, if_pos hdepth]
  exact hdisjunction

/-- An expression that uses all tokens up is what they stand for. -/
theorem toOption_ofTokens (h : (outcome (expression none 0 tokens)).toOption = o.map (·, [])) :
    (Expr.ofTokens tokens none).toOption = o := by
  rw [ofTokens_eq, take_none]
  show (outcome (expression none 0 tokens) >>= _).toOption = o
  rw [toOption_bind, h]
  cases o <;> rfl

end Alone

end Parser

namespace KeyPath

open Stencil.Parser

/-- The pieces behind the first one are read one after the other. -/
theorem toOption_pathTail (pieces : List Piece) :
    (outcome (pathTail none (tailTokens pieces))).toOption = (readTail? pieces).map (·, []) := by
  induction pieces with
  | nil =>
    show (outcome (pathTail none [])).toOption = some ([], [])
    rw [outcome_pathTail_of_ne (by rintro ⟨⟩)]
    rfl
  | cons t rest ih =>
    show (outcome (pathTail none (.symbol .dot :: t.token :: tailTokens rest))).toOption = _
    rw [outcome_pathTail_dot, take_none]
    show ((outcome (piece none (t.token :: tailTokens rest)) >>= _).toOption) = _
    rw [toOption_bind, outcome_piece, take_none, readTail?, Piece.read?]
    cases pieceOf? t.token with
    | none => rfl
    | some text =>
      show ((outcome (pathTail none (tailTokens rest)) >>= _).toOption) = _
      rw [toOption_bind, ih]
      cases readTail? rest <;> rfl

/-- **What a key path is read as**: a key path again, or nothing if one of its numerals is beyond
all numbers. -/
theorem ofText_text (p : KeyPath) :
    (Expr.ofText p.text).toOption = p.read?.map Expr.path := by
  rw [Expr.ofText, p.readAll_text]
  refine toOption_ofTokens (toOption_expression 0 (by decide) ?_ (by rintro ⟨⟩) ?_)
  · rintro token ⟨⟩
    exact isNegation_of_isFree p.head.2.2
  · rw [outcome_primary_path (constantOf?_of_isFree p.head.2.2), take_none]
    show ((outcome (pathTail none (tailTokens p.pieces)) >>= _).toOption) = _
    rw [toOption_bind, toOption_pathTail, read?]
    cases readTail? p.pieces <;> rfl

end KeyPath

end Stencil
