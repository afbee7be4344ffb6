import Mathlib.Data.List.Forall2
import Mathlib.Data.List.TakeWhile
import Stencil.Proofs.Expr.Completeness
import Stencil.Proofs.Expr.Soundness

/-!
# Expressions from left to right

An expression that was read, written down from left to right, is the text it was read from: the same
tokens, each once and in the same order, except for the parentheses and the commas at the end of
lists, which an expression does not hold.

The tokens of a phrase are compared with the lexemes of its expression in front of any further
tokens and lexemes that already agree, so the induction over phrases needs no cut of a list in two.
A comma is dropped for the bracket behind it, which is why the first token of the next item has to
be looked at (`Phrase.exists_first`).

## Main Definitions

* `Lexeme` — what an expression is made of
* `Expr.lexemes` — an expression from left to right
* `Token.essential` — the tokens of a text without those that an expression does not hold

## Main Results

* `Expr.lexemes_of_ofText` — an expression is the essential tokens of its text
-/

namespace Stencil

/-- What an expression is made of. -/
inductive Lexeme
  /-- A literal. -/
  | constant (v : Value)
  /-- The first name of a key path. -/
  | name (text : Text)
  /-- A piece of a key path behind a dot. -/
  | piece (text : Text)
  /-- An operator between two operands. -/
  | operator (op : BinaryOp)
  /-- The word `not`. -/
  | negation
  /-- Any other symbol. -/
  | mark (s : Symbol)

/-- A token stands for a lexeme. -/
def Lexeme.SpelledBy : Lexeme → Token → Prop
  | constant v, token => v.SpelledBy token
  | name text, token => token = .name text
  | piece text, token => text.PieceBy token
  | operator op, token => op.SpelledBy token
  | negation, token => Parser.isNegation token = true
  | mark s, token => token = .symbol s

namespace Expr

/-- A key path from left to right. -/
def pathLexemes (path : Text) : List Lexeme :=
  match Text.segments path with
  | [] => []
  | head :: pieces => .name head :: pieces.flatMap fun piece => [.mark .dot, .piece piece]

mutual

/-- An expression from left to right. -/
def lexemes : Expr → List Lexeme
  | const v => [.constant v]
  | path p => pathLexemes p
  | attr object name => lexemes object ++ [.mark .dot, .piece name]
  | item object key =>
    lexemes object ++ .mark .openBracket :: (lexemes key ++ [.mark .closeBracket])
  | not operand => .negation :: lexemes operand
  | neg operand => .mark .minus :: lexemes operand
  | binary op left right => lexemes left ++ .operator op :: lexemes right
  | list items => .mark .openBracket :: (itemLexemes items ++ [.mark .closeBracket])

/-- The items of a list from left to right, with a comma between any two. -/
def itemLexemes : List Expr → List Lexeme
  | [] => []
  | [e] => lexemes e
  | e :: next :: rest => lexemes e ++ .mark .comma :: itemLexemes (next :: rest)

end

end Expr

/-- The tokens of a text without its parentheses and without the commas in front of a closing
bracket. -/
def Token.essential : List Token → List Token
  | [] => []
  | token :: rest =>
    if token = .symbol .openParen ∨ token = .symbol .closeParen ∨
      token = .symbol .comma ∧ rest.head? = some (.symbol .closeBracket) then essential rest
    else token :: essential rest

open Token (essential)

variable {lexemes : List Lexeme} {tokens : List Token} {token : Token}

/-- Lexemes and essential tokens that agree. -/
abbrev Agree (lexemes : List Lexeme) (tokens : List Token) : Prop :=
  List.Forall₂ Lexeme.SpelledBy lexemes (essential tokens)

section Agree

theorem Agree.openParen (h : Agree lexemes tokens) :
    Agree lexemes (.symbol .openParen :: tokens) := by
  rwa [Agree, essential, if_pos (.inl rfl)]

theorem Agree.closeParen (h : Agree lexemes tokens) :
    Agree lexemes (.symbol .closeParen :: tokens) := by
  rwa [Agree, essential, if_pos (.inr (.inl rfl))]

/-- The comma at the end of a list falls away. -/
theorem Agree.trailing (h : Agree lexemes (.symbol .closeBracket :: tokens)) :
    Agree lexemes (.symbol .comma :: .symbol .closeBracket :: tokens) := by
  rwa [Agree, essential, if_pos (.inr (.inr ⟨rfl, rfl⟩))]

/-- Any other comma stays. -/
theorem Agree.comma (h : Agree lexemes tokens)
    (hne : tokens.head? ≠ some (.symbol .closeBracket)) :
    Agree (.mark .comma :: lexemes) (.symbol .comma :: tokens) := by
  rw [Agree, essential, if_neg]
  · exact .cons rfl h
  · rintro (h | h | ⟨-, h⟩)
    · cases h
    · cases h
    · exact hne h

/-- A token that is no parenthesis and no comma stays. -/
theorem Agree.cons {l : Lexeme} (h : Agree lexemes tokens) (hl : l.SpelledBy token)
    (hstays : ∀ s, token = .symbol s → s ≠ .openParen ∧ s ≠ .closeParen ∧ s ≠ .comma) :
    Agree (l :: lexemes) (token :: tokens) := by
  rw [Agree, essential, if_neg]
  · exact .cons hl h
  · rintro (rfl | rfl | ⟨rfl, -⟩)
    · exact (hstays _ rfl).1 rfl
    · exact (hstays _ rfl).2.1 rfl
    · exact (hstays _ rfl).2.2 rfl

theorem Agree.mark {s : Symbol} (h : Agree lexemes tokens)
    (hs : s ≠ .openParen ∧ s ≠ .closeParen ∧ s ≠ .comma) :
    Agree (.mark s :: lexemes) (.symbol s :: tokens) :=
  h.cons rfl fun _ heq => Token.symbol.inj heq ▸ hs

theorem Agree.constant {v : Value} (h : Agree lexemes tokens) (hv : v.SpelledBy token) :
    Agree (.constant v :: lexemes) (token :: tokens) := by
  refine h.cons hv ?_
  rintro s rfl
  rcases hv.cases with ⟨x, -, hv⟩ | ⟨s, escaped, -, hv⟩ | ⟨text, hv, -⟩ <;> cases hv

theorem Agree.name {text : Text} (h : Agree lexemes tokens) :
    Agree (.name text :: lexemes) (.name text :: tokens) :=
  h.cons rfl nofun

theorem Agree.piece {text : Text} (h : Agree lexemes tokens) (hpiece : text.PieceBy token) :
    Agree (.piece text :: lexemes) (token :: tokens) := by
  refine h.cons hpiece ?_
  rintro s rfl
  rcases hpiece with hpiece | ⟨x, n, hpiece, -⟩ <;> cases hpiece

theorem Agree.operator {op : BinaryOp} (h : Agree lexemes tokens) (hop : op.SpelledBy token) :
    Agree (.operator op :: lexemes) (token :: tokens) := by
  refine h.cons hop ?_
  rintro s rfl
  rcases hop with ⟨s', hs, heq⟩ | ⟨word, -, hword⟩
  · obtain rfl := Token.symbol.inj heq
    cases op <;> cases hs <;> decide
  · cases hword

theorem Agree.negation (h : Agree lexemes tokens) (hnot : Parser.isNegation token = true) :
    Agree (.negation :: lexemes) (token :: tokens) := by
  refine h.cons hnot ?_
  rintro s rfl
  cases s <;> first | decide | cases hnot

end Agree

/-! ## Key paths -/

/-- No name holds a dot. -/
def Token.Dotless (tokens : List Token) : Prop := ∀ text, Token.name text ∈ tokens → '.' ∉ text

theorem Token.dotless_append {front back : List Token} :
    Dotless (front ++ back) ↔ Dotless front ∧ Dotless back := by
  simp only [Dotless, List.mem_append, or_imp, forall_and]

theorem Token.Dotless.tail (h : Dotless (token :: tokens)) : Dotless tokens :=
  fun text hmem => h text (.tail _ hmem)

theorem Text.segments_of_not_mem {t : Text} (h : '.' ∉ t) : segments t = [t] := by
  rw [segments_eq, splitDot_of_not_mem h]

theorem Text.PieceBy.not_mem {piece : Text} (h : piece.PieceBy token)
    (hdotless : ∀ text, token = .name text → '.' ∉ text) : '.' ∉ piece := by
  rcases h with rfl | ⟨x, n, -, -, rfl⟩
  · exact hdotless piece rfl
  · intro hmem
    exact absurd (Nat.isDigit_of_mem_toDigits (by decide) (by decide) hmem) (by decide)

/-- The pieces of a key path are those that it was put together from. -/
theorem Text.segments_pieceText {head : Text} {pieces : List (Token × Text)} (hhead : '.' ∉ head)
    (hpieces : ∀ piece ∈ pieces, '.' ∉ piece.2) :
    segments (head ++ Phrase.pieceText pieces) = head :: pieces.map Prod.snd := by
  induction pieces generalizing head with
  | nil =>
    rw [show Phrase.pieceText [] = [] from rfl, List.append_nil, segments_of_not_mem hhead]
    rfl
  | cons piece pieces ih =>
    obtain ⟨hpiece, hrest⟩ := List.forall_mem_cons.mp hpieces
    have htext : Phrase.pieceText (piece :: pieces) =
        '.' :: (piece.2 ++ Phrase.pieceText pieces) := rfl
    rw [htext, segments_append_dot, segments_of_not_mem hhead, ih hpiece hrest]
    rfl

theorem Agree.pieces {pieces : List (Token × Text)}
    (hspelled : ∀ piece ∈ pieces, Text.PieceBy piece.2 piece.1) (h : Agree lexemes tokens) :
    Agree ((pieces.map Prod.snd).flatMap (fun piece => [.mark .dot, .piece piece]) ++ lexemes)
      (Phrase.pieceTokens pieces ++ tokens) := by
  induction pieces with
  | nil => exact h
  | cons piece pieces ih =>
    obtain ⟨hpiece, hrest⟩ := List.forall_mem_cons.mp hspelled
    exact ((ih hrest).piece hpiece).mark (by decide)

theorem Agree.path {head : Text} {pieces : List (Token × Text)}
    (hspelled : (Phrase.path head pieces).Spelled)
    (hdotless : Token.Dotless (Phrase.path head pieces).tokens) (h : Agree lexemes tokens) :
    Agree ((Phrase.path head pieces).expr.lexemes ++ lexemes)
      ((Phrase.path head pieces).tokens ++ tokens) := by
  have hpieces : ∀ piece ∈ pieces, '.' ∉ piece.2 := by
    intro piece hmem
    refine (hspelled piece hmem).not_mem fun text htext => hdotless text ?_
    refine .tail _ (List.mem_flatMap.mpr ⟨piece, hmem, ?_⟩)
    rw [htext]
    exact .tail _ (.head _)
  have hlexemes : (Phrase.path head pieces).expr.lexemes = .name head ::
      (pieces.map Prod.snd).flatMap fun piece => [.mark .dot, .piece piece] := by
    show Expr.pathLexemes (head ++ Phrase.pieceText pieces) = _
    rw [Expr.pathLexemes, Text.segments_pieceText (hdotless head (.head _)) hpieces]
  rw [hlexemes]
  exact (h.pieces hspelled).name

/-! ## Phrases -/

namespace Phrase

open Token (dotless_append)

mutual

/-- **From left to right.**  The lexemes of what is written agree with the tokens it is written
with, in front of whatever agrees. -/
theorem agree : (p : Phrase) → p.Spelled → Token.Dotless p.tokens →
    ∀ {ls ts}, Agree ls ts → Agree (p.expr.lexemes ++ ls) (p.tokens ++ ts)
  | literal token v, hspelled, _, _, _, h => h.constant hspelled
  | path head pieces, hspelled, hdotless, _, _, h => h.path hspelled hdotless
  | attr object token name, hspelled, hdotless, ls, ts, h => by
    have hname : Agree (.mark .dot :: .piece name :: ls) (.symbol .dot :: token :: ts) :=
      (h.piece hspelled.2).mark (by decide)
    rw [tokens_attr_append, expr, Expr.lexemes, List.append_assoc]
    exact agree object hspelled.1 (dotless_append.mp hdotless).1 hname
  | item object key, hspelled, hdotless, ls, ts, h => by
    obtain ⟨hobject, hrest⟩ := dotless_append.mp hdotless
    have hkey := agree key hspelled.2 (dotless_append.mp hrest.tail).1
      (h.mark (s := .closeBracket) (by decide))
    rw [tokens_item_append, expr, Expr.lexemes, List.append_assoc, List.cons_append,
      List.append_assoc]
    exact agree object hspelled.1 hobject (hkey.mark (by decide))
  | not token operand, hspelled, hdotless, _, _, h =>
    (agree operand hspelled.2 hdotless.tail h).negation hspelled.1
  | neg operand, hspelled, hdotless, _, _, h =>
    (agree operand hspelled hdotless.tail h).mark (by decide)
  | binary token op left right, hspelled, hdotless, ls, ts, h => by
    obtain ⟨hleft, hrest⟩ := dotless_append.mp hdotless
    have hright := agree right hspelled.2.2 hrest.tail h
    rw [tokens_binary_append, expr, Expr.lexemes, List.append_assoc]
    exact agree left hspelled.2.1 hleft (hright.operator hspelled.1)
  | list items trailing, hspelled, hdotless, ls, ts, h => by
    have hitems := agreeItems items hspelled trailing (dotless_append.mp hdotless.tail).1 h
    rw [tokens_list_append, expr, Expr.lexemes, List.cons_append, List.append_assoc]
    exact hitems.mark (by decide)
  | parens inner, hspelled, hdotless, ls, ts, h => by
    have hinner := agree inner hspelled (dotless_append.mp hdotless.tail).1 h.closeParen
    rw [tokens_parens_append, expr]
    exact hinner.openParen

theorem agreeItems : (items : List Phrase) → SpelledItems items → (trailing : Bool) →
    Token.Dotless (itemTokens trailing items) → ∀ {ls ts}, Agree ls ts →
      Agree (Expr.itemLexemes (exprs items) ++ .mark .closeBracket :: ls)
        (itemTokens trailing items ++ .symbol .closeBracket :: ts)
  | [], _, _, _, _, _, h => h.mark (by decide)
  | [p], hspelled, trailing, hdotless, ls, ts, h => by
    have hclose : Agree (.mark .closeBracket :: ls) (.symbol .closeBracket :: ts) :=
      h.mark (by decide)
    have hp : ∀ {ls ts}, Agree ls ts → Agree (p.expr.lexemes ++ ls) (p.tokens ++ ts) :=
      agree p hspelled.1 (dotless_append.mp hdotless).1
    rw [itemTokens_cons_append]
    cases trailing with
    | false => exact hp hclose
    | true => exact hp hclose.trailing
  | p :: next :: rest, hspelled, trailing, hdotless, ls, ts, h => by
    obtain ⟨hp, hrest⟩ := dotless_append.mp hdotless
    have hmore := agreeItems (next :: rest) hspelled.2 trailing hrest.tail h
    obtain ⟨first, _, hfirst, hne, -⟩ := next.exists_first hspelled.2.1
    have hcomma := hmore.comma (by
      rw [itemTokens, hfirst]
      exact fun heq => hne (Option.some.inj heq))
    rw [itemTokens_cons_append, exprs, exprs, Expr.itemLexemes, List.append_assoc]
    exact agree p hspelled.1 hp hcomma

end

end Phrase

/-! ## Texts -/

namespace Token

/-- A string literal is no name. -/
theorem splitString_ne_name {quote : Char} {t text : Text}
    (rest : { rest : Text // rest.length ≤ t.length }) :
    splitString quote t ≠ .ok (.name text, rest) := by
  intro h
  unfold splitString at h
  split at h
  · cases h
  · dsimp only at h
    split_ifs at h
    · split at h <;> cases h
    · cases h

/-- A name is a letter, an underscore or an at sign, and word characters behind it. -/
theorem not_mem_of_next? {afterDot : Bool} {c : Char} {t text : Text}
    {rest : { rest : Text // rest.length < (c :: t).length }}
    (h : next? afterDot c t = .ok (.name text, rest)) : '.' ∉ text := by
  unfold next? at h
  split at h
  · cases h
  split_ifs at h with hquote hdigit hname
  · split at h
    · next token rest' hle hstring =>
      obtain ⟨rfl, -⟩ := Prod.mk.inj (Except.ok.inj h)
      exact absurd hstring (splitString_ne_name _)
    · cases h
  · split at h <;> cases h
  · obtain ⟨htext, -⟩ := Prod.mk.inj (Except.ok.inj h)
    obtain rfl := Token.name.inj htext
    rintro (_ | ⟨_, hmem⟩)
    · exact absurd hname (by decide)
    · exact absurd (List.mem_takeWhile_imp hmem) (by decide)

theorem dotless_readFrom (afterDot : Bool) (t : Text) : Dotless (readFrom afterDot t).1 := by
  fun_induction readFrom afterDot t with
  | case1 => exact nofun
  | case2 => exact nofun
  | case3 _ _ _ c rest _ token left _ hnext _ tokens _ hread ih =>
    rw [hread] at ih
    intro text hmem
    rcases List.mem_cons.mp hmem with rfl | hmem
    · exact not_mem_of_next? hnext
    · exact ih text hmem

end Token

/-- **Nothing is lost, invented or moved.**  A text that stands for an expression can be read to its
end, and the expression from left to right is the text without its parentheses and without the
commas at the end of its lists. -/
theorem Expr.lexemes_of_ofText {t : Text} {e : Expr} (h : Expr.ofText t = .ok e) :
    (Token.readAll t).2 = none ∧
      List.Forall₂ Lexeme.SpelledBy e.lexemes (Token.essential (Token.readAll t).1) := by
  obtain ⟨p, rfl, hspelled, hread⟩ := Expr.exists_phrase_of_ofText h
  have hdotless : Token.Dotless p.tokens := by
    have hall := Token.dotless_readFrom false t
    rwa [show Token.readFrom false t = (p.tokens, none) from hread] at hall
  rw [hread]
  refine ⟨rfl, ?_⟩
  have hagree := p.agree hspelled hdotless (show Agree [] [] from .nil)
  rwa [List.append_nil, List.append_nil] at hagree

theorem Expr.lexemes_of_ofText_mixed :
    (Token.readAll "!(user.0.name + 2 ** -x[1]) and [yes,]".toList).2 = none ∧
      List.Forall₂ Lexeme.SpelledBy
        [.negation, .name "user".toList, .mark .dot, .piece "0".toList, .mark .dot,
          .piece "name".toList, .operator .add, .constant (.number (.ofNat 2)), .operator .pow,
          .mark .minus, .name "x".toList, .mark .openBracket, .constant (.number (.ofNat 1)),
          .mark .closeBracket, .operator .and, .mark .openBracket, .constant (.bool true),
          .mark .closeBracket]
        (Token.essential (Token.readAll "!(user.0.name + 2 ** -x[1]) and [yes,]".toList).1) := by
  have h : Expr.ofText "!(user.0.name + 2 ** -x[1]) and [yes,]".toList =
      .ok Expr.mixedPhrase.expr := by
    rw [Expr.ofText, Expr.readAll_mixedPhrase]
    exact (Expr.ofTokens_tokens Expr.spelled_mixedPhrase Expr.grouped_mixedPhrase).trans
      (if_pos (by decide))
  exact Expr.lexemes_of_ofText h

end Stencil
