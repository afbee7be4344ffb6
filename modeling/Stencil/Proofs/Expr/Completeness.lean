import Mathlib.Data.Nat.Init
import Stencil.Proofs.Expr.Phrase
import Stencil.Proofs.Expr.Rules

/-!
# Phrases are read back

Every way of writing an expression is read as that expression, unless it is nested too deeply, and
then the reading fails for that reason.

A rule that has read a phrase leaves the tokens behind it, so a statement about a rule is a
statement about a phrase in front of other tokens.  What carries the module is that those tokens
must not continue the phrase (`Stops`), which is a condition on the first of them and on the
tightness of the rule only.  Each rule in turn asks for more than the next tighter one, so what the
own rule of a phrase does is what every looser rule does with it (`Reads.looser`).

A chain is the one rule that may find a phrase to be its left end only.  Then it goes on with what
is already read, one deeper for each operator in it, and `ReadsChain` says so.

## Main Results

* `Phrase.readable` — every rule that is loose enough reads a phrase back
* `Expr.ofTokens_phrase` — the reading of the tokens of a phrase, of any depth
-/

namespace Stencil

namespace Parser

variable {α β : Type}

@[simp] theorem take_none {tokens : List Token} : take none tokens = .ok () := by
  cases tokens <;> rfl

@[simp] theorem ok_bind {a : α} {f : α → Except SyntaxError β} : (Except.ok a >>= f) = f a := rfl

/-! ## Steps behind a check of the depth -/

/-- A step behind the check of a depth. -/
def within (depth : Nat) (x : Except SyntaxError α) : Except SyntaxError α := do
  guardDepth depth
  x

section Within

variable {a b : Nat} {x : Except SyntaxError α}

theorem within_of_le (h : a ≤ depthLimit) : within a x = x := by
  rw [within, guardDepth, if_pos h]
  rfl

theorem within_of_lt (h : depthLimit < a) : within a x = .error .tooDeep := by
  rw [within, guardDepth, if_neg (Nat.not_le.mpr h)]
  rfl

/-- Of two checks the deeper one decides. -/
theorem within_within : within a (within b x) = within (max a b) x := by
  by_cases ha : a ≤ depthLimit
  · rw [within_of_le ha]
    by_cases hb : b ≤ depthLimit
    · rw [within_of_le hb, within_of_le (Nat.max_le.mpr ⟨ha, hb⟩)]
    · rw [within_of_lt (Nat.not_le.mp hb), within_of_lt]
      exact Nat.lt_of_lt_of_le (Nat.not_le.mp hb) (Nat.le_max_right _ _)
  · rw [within_of_lt (Nat.not_le.mp ha), within_of_lt]
    exact Nat.lt_of_lt_of_le (Nat.not_le.mp ha) (Nat.le_max_left _ _)

theorem within_within_of_le (h : a ≤ b) : within a (within b x) = within b x := by
  rw [within_within, Nat.max_eq_right h]

/-- A check that a deeper one has made is made again for nothing. -/
theorem within_within_of_ge (h : b ≤ a) : within a (within b x) = within a x := by
  rw [within_within, Nat.max_eq_left h]

/-- What follows a step of which all is known but the check of its depth. -/
theorem within_bind {r : α} {f : α → Except SyntaxError β} (h : within a x = within b (.ok r)) :
    within a (x >>= f) = within b (f r) := by
  have hbind : ∀ (d : Nat) (y : Except SyntaxError α), within d (y >>= f) = within d y >>= f := by
    intro d y
    rw [within, within, bind_assoc]
  rw [hbind, h, ← hbind]
  rfl

/-- What follows a step that stands at a depth of its own. -/
theorem within_check_bind {c : Nat} {r : α} {f : α → Except SyntaxError β}
    (h : within b x = within c (.ok r)) :
    within a (do guardDepth b; x >>= f) = within (max a c) (f r) := by
  show within a (within b (x >>= f)) = _
  rw [within_bind h, within_within]

end Within

/-! ## Where a phrase ends -/

/-- Tokens that do not continue a phrase when they are met by the rule of a tightness: no part of
the phrase is taken, and no operator that holds the phrase at least as tightly comes next. -/
structure Stops (tightness : Nat) (tokens : List Token) : Prop where
  ne_openBracket : tokens.head? ≠ some (.symbol .openBracket)
  ne_dot : tokens.head? ≠ some (.symbol .dot)
  not_spelledBy : ∀ op : BinaryOp, tightness ≤ op.tightness →
    ∀ token ∈ tokens.head?, ¬ op.SpelledBy token

section Stops

variable {tightness : Nat} {tokens : List Token}

theorem stops_nil : Stops tightness [] :=
  ⟨nofun, nofun, fun _ _ _ h => nomatch h⟩

/-- Tokens that stop a rule stop the tighter ones. -/
theorem Stops.mono {tighter : Nat} (h : Stops tightness tokens) (hle : tightness ≤ tighter) :
    Stops tighter tokens where
  ne_openBracket := h.ne_openBracket
  ne_dot := h.ne_dot
  not_spelledBy := fun op hop => h.not_spelledBy op (Nat.le_trans hle hop)

/-- No operator holds as tightly as the unary minus, so what stops a power stops the minus. -/
theorem Stops.unary (h : Stops 7 tokens) : Stops 6 tokens where
  ne_openBracket := h.ne_openBracket
  ne_dot := h.ne_dot
  not_spelledBy := fun op hop => h.not_spelledBy op (by revert hop; cases op <;> decide)

theorem Stops.ne_power (h : Stops 7 tokens) : tokens.head? ≠ some (.symbol .power) :=
  fun hpower => h.not_spelledBy .pow (Nat.le_refl _) _ hpower BinaryOp.spelledBy_pow

theorem Stops.operator?_eq_none {level : Level} (h : Stops level.tightness tokens) :
    ∀ token ∈ tokens.head?, level.operator? token = none := by
  intro token htoken
  rw [Option.eq_none_iff_forall_ne_some]
  intro op hop
  obtain ⟨htight, hspelled⟩ := Level.spelledBy_of_operator? hop
  exact h.not_spelledBy op (Nat.le_of_eq htight.symm) token htoken hspelled

/-- An operator stops what is tighter than it. -/
theorem stops_operator {op : BinaryOp} {token : Token} (h : op.SpelledBy token)
    (hlt : op.tightness < tightness) : Stops tightness (token :: tokens) where
  ne_openBracket := by
    rintro hbracket
    obtain rfl := Option.some.inj hbracket
    rcases h with ⟨s, hs, h⟩ | ⟨word, hword, h⟩
    · obtain rfl := Token.symbol.inj h
      cases op <;> cases hs
    · cases h
  ne_dot := by
    rintro hdot
    obtain rfl := Option.some.inj hdot
    rcases h with ⟨s, hs, h⟩ | ⟨word, hword, h⟩
    · obtain rfl := Token.symbol.inj h
      cases op <;> cases hs
    · cases h
  not_spelledBy := by
    rintro other hother _ ⟨⟩ hspelled
    obtain rfl := h.unique hspelled
    exact absurd hlt (Nat.not_lt.mpr hother)

/-- A symbol that is no operator stops everything, if it does not lead to a part of a value. -/
theorem stops_symbol {s : Symbol} (hop : ∀ op : BinaryOp, op.symbol? ≠ some s)
    (hbracket : s ≠ .openBracket) (hdot : s ≠ .dot) :
    Stops tightness (.symbol s :: tokens) where
  ne_openBracket := fun h => hbracket (Token.symbol.inj (Option.some.inj h))
  ne_dot := fun h => hdot (Token.symbol.inj (Option.some.inj h))
  not_spelledBy := by
    rintro op - _ ⟨⟩ (⟨s', hs', h⟩ | ⟨word, hword, h⟩)
    · obtain rfl := Token.symbol.inj h
      exact hop op hs'
    · cases h

theorem stops_closeParen : Stops tightness (.symbol .closeParen :: tokens) :=
  stops_symbol (fun op => by cases op <;> decide) (by decide) (by decide)

theorem stops_closeBracket : Stops tightness (.symbol .closeBracket :: tokens) :=
  stops_symbol (fun op => by cases op <;> decide) (by decide) (by decide)

theorem stops_comma : Stops tightness (.symbol .comma :: tokens) :=
  stops_symbol (fun op => by cases op <;> decide) (by decide) (by decide)

end Stops

/-! ## The rules by their tightness -/

/-- The rule that reads what is as tight as the given tightness, with no fault behind the tokens. -/
def rule (tightness depth : Nat) (tokens : List Token) : Except SyntaxError (Expr × List Token) :=
  match tightness with
  | 0 => outcome (chain none .disjunction depth tokens)
  | 1 => outcome (chain none .conjunction depth tokens)
  | 2 => outcome (negation none depth tokens)
  | 3 => outcome (chain none .comparison depth tokens)
  | 4 => outcome (chain none .sum depth tokens)
  | 5 => outcome (chain none .product depth tokens)
  | 6 => outcome (unary none depth tokens)
  | 7 => outcome (power none depth tokens)
  | _ => outcome (parts none depth tokens)

section Rule

variable {level : Level} {depth : Nat} {tokens : List Token}

theorem rule_level :
    rule level.tightness depth tokens = outcome (chain none level depth tokens) := by
  cases level <;> rfl

/-- The operands of a level are read by the next tighter rule. -/
theorem rule_operand :
    rule (level.tightness + 1) depth tokens = outcome (operand none level depth tokens) := by
  cases level with
  | disjunction => rw [operand_disjunction]; rfl
  | conjunction => rw [operand_conjunction]; rfl
  | comparison => rw [operand_comparison]; rfl
  | sum => rw [operand_sum]; rfl
  | product => rw [operand_product]; rfl

theorem outcome_expression_eq_within :
    outcome (expression none depth tokens) = within (depth + 1) (rule 0 (depth + 1) tokens) :=
  outcome_expression

end Rule

end Parser

namespace Phrase

open Stencil.Parser

/-! ## Reading a phrase -/

variable {p : Phrase} {tightness : Nat}

/-- The rule of a tightness reads a phrase back. -/
def Reads (p : Phrase) (tightness : Nat) : Prop :=
  ∀ depth rest, Stops tightness rest →
    within depth (rule tightness depth (p.tokens ++ rest)) =
      within (p.deepest depth) (.ok (p.expr, rest))

/-- A level goes on with a phrase as the left end of a chain. -/
def ReadsChain (p : Phrase) (level : Level) : Prop :=
  ∀ depth rest, Stops (level.tightness + 1) rest →
    within depth (outcome (chain none level depth (p.tokens ++ rest))) =
      within (p.deepest depth)
        (outcome (chainTail none level (depth + p.chained level.tightness) p.expr rest))

/-- A phrase is gone on with as a value of which a part may be taken. -/
def ReadsParts (p : Phrase) : Prop :=
  ∀ depth rest, (p.isPath = true → rest.head? ≠ some (.symbol .dot)) →
    within depth (outcome (parts none depth (p.tokens ++ rest))) =
      within (p.deepest depth) (outcome (partsTail none depth p.expr rest))

/-- Every rule that is loose enough reads a phrase back. -/
structure Readable (p : Phrase) : Prop where
  reads : ∀ tightness, tightness ≤ p.tightness → tightness ≤ 8 → p.Reads tightness
  chain : ∀ level : Level, level.tightness ≤ p.tightness → p.ReadsChain level
  parts : 8 ≤ p.tightness → p.ReadsParts

/-- A chain without an operator of its level is an operand of it. -/
theorem Reads.readsChain {level : Level} (h : p.Reads (level.tightness + 1))
    (hlt : level.tightness < p.tightness) : p.ReadsChain level := by
  intro depth rest hstops
  have hread := h depth rest hstops
  rw [rule_operand] at hread
  rw [outcome_chain, within_bind hread, chained_eq_zero hlt]
  rfl

/-- Where nothing continues a chain, it is read. -/
theorem ReadsChain.reads {level : Level} (h : p.ReadsChain level) :
    p.Reads level.tightness := by
  intro depth rest hstops
  rw [rule_level, h depth rest (hstops.mono (Nat.le_succ _))]
  cases rest with
  | nil => rw [outcome_chainTail_nil]
  | cons token rest => rw [outcome_chainTail_of_none (hstops.operator?_eq_none token rfl)]

/-- Where no part is taken, a value is read. -/
theorem ReadsParts.reads (h : p.ReadsParts) : p.Reads 8 := by
  intro depth rest hstops
  show within depth (outcome (Parser.parts none depth (p.tokens ++ rest))) = _
  rw [h depth rest fun _ => hstops.ne_dot,
    outcome_partsTail_of_ne hstops.ne_openBracket hstops.ne_dot]

/-- A rule reads the tighter phrases that the next rule reads. -/
theorem Reads.looser (hspelled : p.Spelled) (hgrouped : p.Grouped)
    (h : p.Reads (tightness + 1)) (hlt : tightness < p.tightness) (hle : tightness < 8) :
    p.Reads tightness := by
  have hlevel : ∀ level : Level, level.tightness = tightness → p.Reads tightness := by
    rintro level rfl
    exact (h.readsChain hlt).reads
  -- The rules that are no levels look at the first token of the phrase, or behind it.
  obtain ⟨first, more, hfirst, -, hstarts⟩ := p.exists_first hspelled
  replace hstarts := hstarts hgrouped
  match tightness, hle with
  | 0, _ => exact hlevel .disjunction rfl
  | 1, _ => exact hlevel .conjunction rfl
  | 2, _ =>
    intro depth rest hstops
    rw [← h depth rest (hstops.mono (by decide))]
    have hnot : ∀ token ∈ (p.tokens ++ rest).head?, isNegation token = false := by
      rw [hfirst]
      rintro _ ⟨⟩
      exact hstarts.not_negation hlt
    show within depth (outcome (negation none depth _)) = _
    rw [negation_of_not hnot]
    rfl
  | 3, _ => exact hlevel .comparison rfl
  | 4, _ => exact hlevel .sum rfl
  | 5, _ => exact hlevel .product rfl
  | 6, _ =>
    intro depth rest hstops
    rw [← h depth rest (hstops.mono (by decide))]
    have hminus : (p.tokens ++ rest).head? ≠ some (.symbol .minus) := by
      rw [hfirst]
      exact fun h => hstarts.ne_minus hlt (Option.some.inj h)
    show within depth (outcome (unary none depth _)) = _
    rw [unary_of_ne hminus]
    rfl
  | 7, _ =>
    intro depth rest hstops
    have hparts : within depth (outcome (parts none depth (p.tokens ++ rest))) = _ :=
      h depth rest (hstops.mono (by decide))
    show within depth (outcome (power none depth (p.tokens ++ rest))) = _
    rw [outcome_power, within_bind hparts]
    dsimp only
    rw [powerTail]
    rintro rest rfl
    exact hstops.ne_power rfl

/-- What the own rule of a phrase reads every looser rule reads. -/
theorem readable_of_reads (hspelled : p.Spelled) (hgrouped : p.Grouped)
    (hreads : p.Reads (min p.tightness 8))
    (hchain : ∀ level : Level, level.tightness = p.tightness → p.ReadsChain level)
    (hparts : 8 ≤ p.tightness → p.ReadsParts) : p.Readable := by
  -- From the own rule of the phrase down to the loosest one.
  have hrule : ∀ tightness, tightness ≤ p.tightness → tightness ≤ 8 → p.Reads tightness := by
    intro tightness htight hle
    induction Nat.le_min.mpr ⟨htight, hle⟩ using Nat.decreasingInduction with
    | self => exact hreads
    | of_succ k hk ih =>
      obtain ⟨hlt, hlt'⟩ := Nat.lt_min.mp hk
      exact (ih hlt hlt').looser hspelled hgrouped hlt hlt'
  refine ⟨hrule, fun level hle => ?_, hparts⟩
  rcases Nat.lt_or_eq_of_le hle with hlt | heq
  · have hlevel : level.tightness + 1 ≤ 8 := Nat.le_trans level.tightness_lt (by decide)
    exact (hrule _ hlt hlevel).readsChain hlt
  · exact hchain level heq

/-- A phrase of a tightness that is none of a level's is read by the one rule for it. -/
theorem readable_of_reads_own (hspelled : p.Spelled) (hgrouped : p.Grouped)
    (hlt : p.tightness < 8) (hlevel : ∀ level : Level, level.tightness ≠ p.tightness)
    (h : p.Reads p.tightness) : p.Readable := by
  refine readable_of_reads hspelled hgrouped ?_ (fun level heq => absurd heq (hlevel level))
    fun hle => absurd hle (Nat.not_le.mpr hlt)
  rwa [Nat.min_eq_left (Nat.le_of_lt hlt)]

/-- A value is read by every rule. -/
theorem readable_of_readsParts (hspelled : p.Spelled) (hgrouped : p.Grouped)
    (htight : 8 ≤ p.tightness) (h : p.ReadsParts) : p.Readable := by
  refine readable_of_reads hspelled hgrouped ?_ ?_ fun _ => h
  · rw [Nat.min_eq_right htight]
    exact h.reads
  · intro level hlevel
    have hlt := level.tightness_lt
    omega

/-! ## Values -/

/-- A phrase that the rule for values reads to its end is read by every rule. -/
theorem readable_of_primary (hspelled : p.Spelled) (hgrouped : p.Grouped)
    (htight : 8 ≤ p.tightness)
    (h : ∀ depth rest, (p.isPath = true → rest.head? ≠ some (.symbol .dot)) →
      within depth (outcome (primary none depth (p.tokens ++ rest))) =
        within (p.deepest depth) (.ok (p.expr, rest))) : p.Readable := by
  refine readable_of_readsParts hspelled hgrouped htight fun depth rest hdot => ?_
  rw [outcome_parts, within_bind (h depth rest hdot)]

theorem outcome_primary_literal {depth : Nat} {token : Token} {v : Value} {rest : List Token}
    (h : v.SpelledBy token) :
    outcome (primary none depth (token :: rest)) = .ok (.const v, rest) := by
  rcases h.cases with ⟨x, rfl, rfl⟩ | ⟨s, escaped, rfl, rfl⟩ | ⟨text, rfl, -⟩
  · rw [outcome_primary_number, take_none, ok_bind]
  · rw [outcome_primary_string, take_none, ok_bind]
  · rw [outcome_primary_constant (constantOf?_of_spelledBy h), take_none, ok_bind]

theorem readable_literal {token : Token} {v : Value} (hspelled : (literal token v).Spelled) :
    (literal token v).Readable := by
  refine readable_of_primary hspelled trivial (Nat.le_succ 8) fun depth rest _ => ?_
  rw [show (literal token v).tokens ++ rest = token :: rest from rfl,
    outcome_primary_literal hspelled]
  rfl

theorem outcome_piece_of_pieceBy {token : Token} {name : Text} {rest : List Token}
    (h : name.PieceBy token) : outcome (piece none (token :: rest)) = .ok (name, rest) := by
  rw [outcome_piece, take_none, pieceOf?_eq_some_iff.mpr h]
  rfl

/-- The pieces of a key path are read up to where no dot follows. -/
theorem outcome_pathTail_pieces {pieces : List (Token × Text)} {rest : List Token}
    (hspelled : ∀ piece ∈ pieces, piece.2.PieceBy piece.1)
    (hdot : rest.head? ≠ some (.symbol .dot)) :
    outcome (pathTail none (pieceTokens pieces ++ rest)) = .ok (pieceText pieces, rest) := by
  induction pieces with
  | nil => exact outcome_pathTail_of_ne hdot
  | cons piece pieces ih =>
    obtain ⟨hpiece, hpieces⟩ := List.forall_mem_cons.mp hspelled
    show outcome (pathTail none (.symbol .dot :: piece.1 :: (pieceTokens pieces ++ rest))) = _
    rw [outcome_pathTail_dot, take_none, outcome_piece_of_pieceBy hpiece]
    simp only [bind, Except.bind, ih hpieces]
    rfl

theorem readable_path {head : Text} {pieces : List (Token × Text)}
    (hspelled : (path head pieces).Spelled) (hgrouped : (path head pieces).Grouped) :
    (path head pieces).Readable := by
  refine readable_of_primary hspelled hgrouped (Nat.le_succ 8) fun depth rest hdot => ?_
  rw [show (path head pieces).tokens ++ rest = .name head :: (pieceTokens pieces ++ rest) from rfl,
    outcome_primary_path (constantOf?_of_isFree hgrouped), take_none,
    outcome_pathTail_pieces hspelled (hdot rfl)]
  rfl

theorem outcome_expect_self {s : Symbol} {expected : Expectation} {rest : List Token} :
    outcome (expect none s expected (.symbol s :: rest)) = .ok ((), rest) := by
  rw [outcome_expect, take_none, if_pos rfl]
  rfl

/-- A phrase is read as a subexpression. -/
theorem Readable.expression (h : p.Readable) (depth : Nat) {rest : List Token}
    (hstops : Stops 0 rest) :
    within depth (outcome (expression none depth (p.tokens ++ rest))) =
      within (p.deepest (depth + 1)) (.ok (p.expr, rest)) := by
  rw [outcome_expression_eq_within,
    h.reads 0 (Nat.zero_le _) (Nat.zero_le _) (depth + 1) rest hstops,
    within_within_of_le (p.le_deepest_succ depth)]

theorem readable_parens {inner : Phrase} (hspelled : inner.Spelled) (hgrouped : inner.Grouped)
    (h : inner.Readable) : (parens inner).Readable := by
  refine readable_of_primary hspelled hgrouped (Nat.le_succ 8) fun depth rest _ => ?_
  rw [tokens_parens_append, outcome_primary_parens, take_none, ok_bind,
    within_bind (h.expression depth stops_closeParen)]
  dsimp only
  rw [outcome_expect_self]
  rfl

/-! ## Lists -/

/-- Items and the bracket behind them are read. -/
def ReadsItems (items : List Phrase) : Prop :=
  ∀ depth trailing rest,
    within depth (outcome
      (Parser.items none depth (itemTokens trailing items ++ .symbol .closeBracket :: rest))) =
      within (deepestItem depth items) (.ok (exprs items, rest))

theorem readsItems_nil : ReadsItems [] := by
  intro depth trailing rest
  rw [itemTokens, List.nil_append, outcome_items_nil, take_none]
  rfl

/-- A list goes on behind an item with what separates it from the next one. -/
theorem itemsTail_eq {items : List Phrase} {depth : Nat} {trailing : Bool} {item : Expr}
    {rest : List Token} (hitems : ReadsItems items) :
    within depth (itemsTail none depth item (separator trailing items ++
      (itemTokens trailing items ++ .symbol .closeBracket :: rest))) =
      within (deepestItem depth items) (.ok (item :: exprs items, rest)) := by
  rcases separator_cases trailing items with hcomma | ⟨rfl, hnone⟩
  · rw [hcomma, List.singleton_append, itemsTail, outcome_expect_self, ok_bind,
      within_bind (hitems depth trailing rest)]
    rintro rest ⟨⟩
  · rw [hnone, itemTokens, List.nil_append, List.nil_append, itemsTail, take_none]
    rfl

theorem stops_separator {items : List Phrase} {trailing : Bool} {rest : List Token} :
    Stops 0 (separator trailing items ++
      (itemTokens trailing items ++ .symbol .closeBracket :: rest)) := by
  rcases separator_cases trailing items with hcomma | ⟨rfl, hnone⟩
  · rw [hcomma]
    exact stops_comma
  · rw [hnone]
    exact stops_closeBracket

theorem readsItems_cons {item : Phrase} {items : List Phrase} (hspelled : item.Spelled)
    (hitem : item.Readable) (hitems : ReadsItems items) :
    ReadsItems (item :: items) := by
  intro depth trailing rest
  obtain ⟨first, more, hfirst, hne, -⟩ := item.exists_first hspelled
  rw [itemTokens_cons_append, outcome_items,
    within_bind (hitem.expression depth stops_separator)]
  · dsimp only
    rw [← within_within_of_ge (item.le_deepest_succ depth), itemsTail_eq hitems, within_within]
    rfl
  · rw [hfirst]
    exact fun h => hne (Option.some.inj h)

theorem readable_list {items : List Phrase} {trailing : Bool} (hspelled : SpelledItems items)
    (hgrouped : GroupedItems items) (h : ReadsItems items) : (list items trailing).Readable := by
  refine readable_of_primary hspelled hgrouped (Nat.le_succ 8) fun depth rest _ => ?_
  rw [tokens_list_append, outcome_primary_list, take_none, ok_bind,
    within_bind (h depth trailing rest)]
  rfl

/-! ## Parts of a value -/

theorem readable_attr {object : Phrase} {token : Token} {name : Text}
    (hspelled : (attr object token name).Spelled) (hgrouped : (attr object token name).Grouped)
    (h : object.Readable) : (attr object token name).Readable := by
  refine readable_of_readsParts hspelled hgrouped (Nat.le_refl 8) fun depth rest _ => ?_
  obtain ⟨-, htight, hpath⟩ := hgrouped
  have hobject := h.parts htight depth (.symbol .dot :: token :: rest)
    (fun hisPath => Bool.noConfusion (hpath.symm.trans hisPath))
  rw [tokens_attr_append, hobject, outcome_partsTail_dot, take_none, ok_bind,
    outcome_piece_of_pieceBy hspelled.2]
  rfl

theorem readable_item {object key : Phrase} (hspelled : (item object key).Spelled)
    (hgrouped : (item object key).Grouped) (hobject : object.Readable) (hkey : key.Readable) :
    (item object key).Readable := by
  refine readable_of_readsParts hspelled hgrouped (Nat.le_refl 8) fun depth rest _ => ?_
  have hread : within (object.deepest depth)
      (outcome (expression none depth (key.tokens ++ .symbol .closeBracket :: rest))) =
      within (max (object.deepest depth) (key.deepest (depth + 1)))
        (.ok (key.expr, .symbol .closeBracket :: rest)) := by
    rw [← within_within_of_ge (object.le_deepest depth), hkey.expression depth stops_closeBracket,
      within_within]
  rw [tokens_item_append, hobject.parts hgrouped.2.2 depth _ (fun _ h => by cases h),
    outcome_partsTail_openBracket, take_none, ok_bind, within_bind hread]
  dsimp only
  rw [outcome_expect_self]
  rfl

/-! ## Operators -/

theorem readable_not {token : Token} {operand : Phrase} (hspelled : (not token operand).Spelled)
    (hgrouped : (not token operand).Grouped) (h : operand.Readable) :
    (not token operand).Readable := by
  have hlevel : ∀ level : Level, level.tightness ≠ 2 := by
    intro level
    cases level <;> decide
  refine readable_of_reads_own hspelled hgrouped (by decide : 2 < 8) hlevel
    fun depth rest hstops => ?_
  have hread : within (depth + 1) (outcome (negation none (depth + 1) (operand.tokens ++ rest))) =
      _ := h.reads 2 hgrouped.2 (by decide) (depth + 1) rest hstops
  show within depth (outcome (negation none depth (token :: (operand.tokens ++ rest)))) = _
  rw [outcome_negation hspelled.1, take_none, ok_bind, within_check_bind hread,
    Nat.max_eq_right (operand.le_deepest_succ depth)]
  rfl

theorem readable_neg {operand : Phrase} (hspelled : (neg operand).Spelled)
    (hgrouped : (neg operand).Grouped) (h : operand.Readable) : (neg operand).Readable := by
  refine readable_of_reads_own hspelled hgrouped (by decide : 6 < 8)
    (fun level => Nat.ne_of_lt level.tightness_lt) fun depth rest hstops => ?_
  have hread : within (depth + 1) (outcome (unary none (depth + 1) (operand.tokens ++ rest))) =
      _ := h.reads 6 hgrouped.2 (by decide) (depth + 1) rest hstops
  show within depth (outcome (unary none depth (.symbol .minus :: (operand.tokens ++ rest)))) = _
  rw [outcome_unary, take_none, ok_bind, within_check_bind hread,
    Nat.max_eq_right (operand.le_deepest_succ depth)]
  rfl

theorem readable_pow {token : Token} {left right : Phrase}
    (hspelled : (binary token .pow left right).Spelled)
    (hgrouped : (binary token .pow left right).Grouped) (hleft : left.Readable)
    (hright : right.Readable) : (binary token .pow left right).Readable := by
  refine readable_of_reads_own hspelled hgrouped (by decide : 7 < 8)
    (fun level => Nat.ne_of_lt (Nat.lt_succ_of_lt level.tightness_lt)) fun depth rest hstops => ?_
  obtain ⟨-, -, htight⟩ := hgrouped
  rw [if_pos rfl] at htight
  obtain rfl : token = .symbol .power := by
    rcases hspelled.1 with ⟨s, ⟨⟩, h⟩ | ⟨word, ⟨⟩, h⟩
    exact h
  have hbase : within depth (outcome (parts none depth
      (left.tokens ++ .symbol .power :: (right.tokens ++ rest)))) =
      within (left.deepest depth) (.ok (left.expr, .symbol .power :: (right.tokens ++ rest))) :=
    hleft.reads 8 htight.1 (Nat.le_refl 8) depth _
      (stops_operator BinaryOp.spelledBy_pow (by decide))
  have hexponent : within (depth + 1) (outcome (unary none (depth + 1) (right.tokens ++ rest))) =
      _ := hright.reads 6 htight.2 (by decide) (depth + 1) rest hstops.unary
  have hchained : left.chained BinaryOp.pow.tightness = 0 := chained_eq_zero htight.1
  show within depth (outcome (power none depth _)) = _
  rw [tokens_binary_append, outcome_power, within_bind hbase]
  dsimp only
  rw [powerTail, take_none, ok_bind, within_check_bind hexponent, deepest, hchained]
  rfl

/-- Behind its left side an operator of a level goes on with the chain. -/
theorem readsChain_binary {level : Level} {token : Token} {op : BinaryOp} {left right : Phrase}
    (hop : op.SpelledBy token) (htight : op.tightness = level.tightness)
    (hleft : left.ReadsChain level) (hright : right.Reads (level.tightness + 1)) :
    (binary token op left right).ReadsChain level := by
  intro depth rest hstops
  have hchained : (binary token op left right).chained level.tightness =
      left.chained level.tightness + 1 := if_pos htight
  have hoperand := hright (depth + left.chained level.tightness + 1) rest hstops
  rw [rule_operand] at hoperand
  rw [tokens_binary_append, hleft depth _ (stops_operator hop (htight ▸ Nat.lt_succ_self _)),
    outcome_chainTail_of_some (Level.operator?_of_spelledBy htight hop), take_none, ok_bind,
    within_check_bind hoperand, hchained, deepest, htight]
  rfl

theorem readable_binary {token : Token} {op : BinaryOp} {left right : Phrase}
    (hspelled : (binary token op left right).Spelled)
    (hgrouped : (binary token op left right).Grouped) (hleft : left.Readable)
    (hright : right.Readable) : (binary token op left right).Readable := by
  by_cases hpow : op = .pow
  · subst hpow
    exact readable_pow hspelled hgrouped hleft hright
  have hchain : ∀ level : Level, level.tightness = op.tightness →
      (binary token op left right).ReadsChain level := by
    intro level hlevel
    obtain ⟨-, -, htight⟩ := hgrouped
    rw [if_neg hpow, ← hlevel] at htight
    have hle : level.tightness + 1 ≤ 8 := Nat.le_trans level.tightness_lt (by decide)
    exact readsChain_binary hspelled.1 hlevel.symm (hleft.chain level htight.1)
      (hright.reads _ htight.2 hle)
  obtain ⟨level, hlevel⟩ := BinaryOp.exists_level hpow
  have hlt : op.tightness < 6 := hlevel ▸ level.tightness_lt
  refine readable_of_reads hspelled hgrouped ?_ hchain fun hle =>
    absurd (Nat.lt_of_lt_of_le hlt (by decide)) (Nat.not_lt.mpr hle)
  have hmin : min op.tightness 8 = level.tightness := by omega
  show (binary token op left right).Reads (min op.tightness 8)
  rw [hmin]
  exact (hchain level hlevel.symm).reads

mutual

/-- **Completeness.**  Every rule that is loose enough reads a phrase back. -/
theorem readable : (p : Phrase) → p.Spelled → p.Grouped → p.Readable
  | literal _ _, hspelled, _ => readable_literal hspelled
  | path _ _, hspelled, hgrouped => readable_path hspelled hgrouped
  | attr object _ _, hspelled, hgrouped =>
    readable_attr hspelled hgrouped (readable object hspelled.1 hgrouped.1)
  | item object key, hspelled, hgrouped =>
    readable_item hspelled hgrouped (readable object hspelled.1 hgrouped.1)
      (readable key hspelled.2 hgrouped.2.1)
  | not _ operand, hspelled, hgrouped =>
    readable_not hspelled hgrouped (readable operand hspelled.2 hgrouped.1)
  | neg operand, hspelled, hgrouped =>
    readable_neg hspelled hgrouped (readable operand hspelled hgrouped.1)
  | binary _ _ left right, hspelled, hgrouped =>
    readable_binary hspelled hgrouped (readable left hspelled.2.1 hgrouped.1)
      (readable right hspelled.2.2 hgrouped.2.1)
  | list items _, hspelled, hgrouped =>
    readable_list hspelled hgrouped (readsItems items hspelled hgrouped)
  | parens inner, hspelled, hgrouped =>
    readable_parens hspelled hgrouped (readable inner hspelled hgrouped)

theorem readsItems : (items : List Phrase) → SpelledItems items → GroupedItems items →
    ReadsItems items
  | [], _, _ => readsItems_nil
  | p :: items, hspelled, hgrouped =>
    readsItems_cons hspelled.1 (readable p hspelled.1 hgrouped.1)
      (readsItems items hspelled.2 hgrouped.2)

end

end Phrase

namespace Expr

open Stencil.Parser

/-- The tokens of a phrase are those of its expression, if no place of it is too deep. -/
theorem ofTokens_tokens {p : Phrase} (hspelled : p.Spelled) (hgrouped : p.Grouped) :
    ofTokens p.tokens none =
      if p.deepest 1 ≤ depthLimit then .ok p.expr else .error .tooDeep := by
  have hread : outcome (expression none 0 p.tokens) = within (p.deepest 1) (.ok (p.expr, [])) := by
    have h := (Phrase.readable p hspelled hgrouped).expression 0 stops_nil
    rwa [List.append_nil, within_of_le (Nat.zero_le _)] at h
  rw [ofTokens_eq, take_none, ok_bind, hread]
  split_ifs with hle
  · rw [within_of_le hle]
    rfl
  · rw [within_of_lt (Nat.not_le.mp hle)]
    rfl

/-- **Every way of writing an expression is read.**  A text whose tokens are those of a phrase, with
an operator in either spelling, with further parentheses and with or without a comma at the end of
a list, stands for the expression of the phrase if the deepest place is within the limit, and is
refused as too deep otherwise. -/
theorem ofText_phrase {p : Phrase} (hspelled : p.Spelled) (hgrouped : p.Grouped) {t : Text}
    (ht : Token.readAll t = (p.tokens, none)) :
    ofText t = if p.deepest 1 ≤ depthLimit then .ok p.expr else .error .tooDeep := by
  rw [ofText, ht]
  exact ofTokens_tokens hspelled hgrouped

/-- A phrase with most forms. -/
def mixedPhrase : Phrase :=
  .binary (.name "and".toList) .and
    (.not (.symbol .bang) (.parens (.binary (.symbol .plus) .add
      (.path "user".toList [(.number (.ofNat 0), "0".toList), (.name "name".toList, "name".toList)])
      (.binary (.symbol .power) .pow (.literal (.number (.ofNat 2)) (.number (.ofNat 2)))
        (.neg (.item (.path "x".toList [])
          (.literal (.number (.ofNat 1)) (.number (.ofNat 1)))))))))
    (.list [.literal (.name "yes".toList) (.bool true)] true)

theorem spelled_mixedPhrase : mixedPhrase.Spelled := by
  have hpieces : ∀ piece ∈ [(Token.number (.ofNat 0), "0".toList),
      (Token.name "name".toList, "name".toList)], Text.PieceBy piece.2 piece.1 := by
    simp only [List.forall_mem_cons]
    exact ⟨.inr ⟨_, 0, rfl, rfl, rfl⟩, .inl rfl, List.forall_mem_nil _⟩
  have hx : (Phrase.path "x".toList []).Spelled := List.forall_mem_nil _
  exact ⟨.inr ⟨"and", rfl, by decide⟩,
    ⟨rfl, .inl ⟨_, rfl, rfl⟩, hpieces, BinaryOp.spelledBy_pow, rfl, hx, rfl⟩, .inr (by decide),
    trivial⟩

theorem grouped_mixedPhrase : mixedPhrase.Grouped := by
  have huser : Text.IsFree "user".toList := by decide
  have hx : Text.IsFree "x".toList := by decide
  have hpower : Phrase.Grouped (.binary (.symbol .power) .pow
      (.literal (.number (.ofNat 2)) (.number (.ofNat 2)))
      (.neg (.item (.path "x".toList []) (.literal (.number (.ofNat 1)) (.number (.ofNat 1)))))) :=
    ⟨trivial, ⟨⟨hx, trivial, by decide⟩, by decide⟩, by decide⟩
  exact ⟨⟨⟨huser, hpower, by decide⟩, by decide⟩, ⟨trivial, trivial⟩, by decide⟩

theorem readAll_mixedPhrase :
    Token.readAll "!(user.0.name + 2 ** -x[1]) and [yes,]".toList = (mixedPhrase.tokens, none) := by
  decide +kernel

theorem ofText_phrase_mixed :
    ofText "!(user.0.name + 2 ** -x[1]) and [yes,]".toList =
      .ok (.binary .and
        (.not (.binary .add (.path "user.0.name".toList)
          (.binary .pow (.const (.number (.ofNat 2)))
            (.neg (.item (.path "x".toList) (.const (.number (.ofNat 1))))))))
        (.list [.const (.bool true)])) :=
  (ofText_phrase spelled_mixedPhrase grouped_mixedPhrase readAll_mixedPhrase).trans
    (if_pos (by decide))

end Expr

end Stencil
