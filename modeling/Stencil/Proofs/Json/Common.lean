import Stencil.Evaluation
import Stencil.Proofs.Expr.KeyPath
import Stencil.Proofs.Expr.Phrase
import Stencil.Proofs.Json.Numerals
import Stencil.Proofs.Json.Strings

/-!
# What JSON and the expression language have in common

Words, numerals, strings and arrays are written alike in both languages.  `Json.Common` says of a
text and of data that the tokenizer takes the text, whatever follows, as the tokens of a phrase that
has the value of the data in every scope.  Every way of putting JSON text together but that of
objects can be followed on this side, so nothing has to be compared at the end.

## Main Definitions

* `Json.EndsItem` — what can stand behind an item of an array
* `Json.Common`, `Json.CommonItems` — texts that are read alike
-/

namespace Stencil.Json

open Token (writtenFrom)

variable {c : Char} {t u w : Text} {j : Json} {p : Phrase}

/-! ## White space -/

theorem isBlank_of_isSpace (h : isSpace c = true) : Text.isBlank c = true := by
  simp only [isSpace, Bool.or_eq_true, beq_iff_eq] at h
  rcases h with ((rfl | rfl) | rfl) | rfl <;> rfl

theorem allBlank_of_isSpace (h : w.all isSpace = true) : Text.allBlank w = true :=
  List.all_eq_true.2 fun c hc => isBlank_of_isSpace (List.all_eq_true.1 h c hc)

/-- What can stand behind an item of an array: white space of any kind, a comma, the closing
bracket, or nothing. -/
def EndsItem (t : Text) : Prop := ∀ c ∈ t.head?, c = ',' ∨ c = ']' ∨ Text.isBlank c = true

theorem endsItem_nil : EndsItem [] := nofun

theorem endsItem_cons (h : c = ',' ∨ c = ']') (u : Text) : EndsItem (c :: u) := by
  rintro _ ⟨⟩
  exact h.imp_right .inl

theorem endsItem_append (h : Text.allBlank w = true) (ht : EndsItem t) : EndsItem (w ++ t) := by
  cases w with
  | nil => exact ht
  | cons c w =>
    rintro c ⟨⟩
    exact .inr (.inr (List.all_eq_true.1 h c List.mem_cons_self))

theorem EndsItem.isWordChar_eq_false (h : EndsItem t) :
    ∀ c ∈ t.head?, Text.isWordChar c = false := by
  intro c hc
  rcases h c hc with rfl | rfl | hblank
  · rfl
  · rfl
  · refine eq_false_of_ne_true fun hword => ?_
    rw [Text.isBlank_of_isWordChar hword] at hblank
    cases hblank

theorem EndsItem.stopsWord (h : EndsItem t) : Text.StopsWord t := h.isWordChar_eq_false

theorem EndsItem.stopsNumeral (h : EndsItem t) : StopsNumeral t := by
  intro c hc
  have hword := h.isWordChar_eq_false c hc
  refine ⟨eq_false_of_ne_true fun hdigit => ?_, ?_, ?_, ?_⟩
  · simp [Text.isWordChar, Char.isAlphanum, hdigit] at hword
  · rintro rfl
    rcases h '.' hc with heq | heq | heq <;> cases heq
  · rintro rfl
    cases hword
  · rintro rfl
    cases hword

/-! ## Single tokens -/

theorem writtenFrom_token {rest : Text} {token : Token} (hc : Text.isBlank c = false)
    (hdot : token ≠ .symbol .dot)
    (hnext : ∃ left, left.1 = u ∧ Token.next? false c (rest ++ u) = .ok (token, left)) :
    writtenFrom false (c :: rest ++ u) =
      ([(c :: rest, token)] ++ (writtenFrom false u).1, (writtenFrom false u).2) := by
  obtain ⟨left, hleft, hnext⟩ := hnext
  have hw : c :: (rest ++ u) = c :: rest ++ left.1 := by rw [hleft]; rfl
  rw [List.cons_append, Token.writtenFrom_cons hc hnext hw, hleft, decide_eq_false hdot]
  rfl

theorem writtenFrom_symbol {s : Symbol} (hblank : Text.isBlank c = false)
    (hone : Token.symbolOfOne? c = some s) (htwo : ∀ d, Token.symbolOfTwo? c d = none)
    (hdot : s ≠ .dot) (u : Text) :
    writtenFrom false (c :: u) =
      (([c], .symbol s) :: (writtenFrom false u).1, (writtenFrom false u).2) :=
  @writtenFrom_token c u [] (.symbol s) hblank (fun heq => hdot (Token.symbol.inj heq))
    (Token.next?_symbol false hone htwo u)

theorem writtenFrom_openBracket (u : Text) : writtenFrom false ('[' :: u) =
    ((['['], .symbol .openBracket) :: (writtenFrom false u).1, (writtenFrom false u).2) :=
  writtenFrom_symbol (by decide) rfl (fun _ => rfl) (by decide) u

section Numeral

variable {whole fraction d : Text} {exponent : Option Int} {x : Number}

/-- A numeral is one token, whose number is known without what follows. -/
theorem NumeralBy.exists_number (h : NumeralBy whole fraction exponent d) :
    ∃ x, ∀ {u}, EndsItem u → writtenFrom false (d ++ u) =
      ((d, .number x) :: (writtenFrom false u).1, (writtenFrom false u).2) := by
  obtain ⟨n, x, hn, hsplit⟩ := h.exists_split
  obtain ⟨c, rest, rfl, hc⟩ := h.exists_digit
  exact ⟨x, fun hu => writtenFrom_token (isBlank_of_isDigit hc) (by simp)
    (Token.next?_number hc (hsplit hu.stopsNumeral) hn)⟩

/-- Which number it is shows without what follows. -/
theorem NumeralBy.writtenFrom_append (h : NumeralBy whole fraction exponent d)
    (hd : (writtenFrom false d).1 = [(d, .number x)]) (hu : EndsItem u) :
    writtenFrom false (d ++ u) =
      ((d, .number x) :: (writtenFrom false u).1, (writtenFrom false u).2) := by
  obtain ⟨y, hwritten⟩ := h.exists_number
  have heq := congrArg Prod.fst (hwritten endsItem_nil)
  rw [List.append_nil, hd] at heq
  obtain rfl : x = y := Token.number.inj (Prod.mk.inj (List.cons.inj heq).1).2
  exact hwritten hu

end Numeral

/-! ## Texts that are read alike -/

variable [Library]

/-- A text that the tokenizer takes, whatever stands behind it, as a phrase with the value of JSON
data. -/
structure Common (t : Text) (j : Json) (p : Phrase) : Prop where
  /-- There is no white space around it. -/
  trim : Text.trim t = t
  /-- The tokenizer takes it as the tokens of the phrase. -/
  written : ∃ front : List (Text × Token), front.map Prod.snd = p.tokens ∧ ∀ {u}, EndsItem u →
    writtenFrom false (t ++ u) = (front ++ (writtenFrom false u).1, (writtenFrom false u).2)
  spelled : p.Spelled
  grouped : p.Grouped
  /-- The value of the phrase is that of the data in every scope. -/
  eval : ∀ s, p.expr.eval s = pure (some j.toValue)

/-- The part of an array from the start of an item to the closing bracket. -/
structure CommonItems (t : Text) (items : List Json) (ps : List Phrase) : Prop where
  last : ∃ front, t = front ++ [']']
  written : ∃ front : List (Text × Token),
    front.map Prod.snd = Phrase.itemTokens false ps ++ [.symbol .closeBracket] ∧
      ∀ u, writtenFrom false (t ++ u) = (front ++ (writtenFrom false u).1, (writtenFrom false u).2)
  ne_nil : ps ≠ []
  spelled : Phrase.SpelledItems ps
  grouped : Phrase.GroupedItems ps
  eval : ∀ s, Expr.evalItems s (Phrase.exprs ps) = pure (itemValues items)

/-! ## Literals -/

/-- A text that is one token and stands for a literal. -/
theorem common_literal {rest : Text} {token : Token} (hblank : Text.isBlank c = false)
    (htrim : Text.trim (c :: rest) = c :: rest) (hspelled : j.toValue.SpelledBy token)
    (hnext : ∀ {u}, EndsItem u →
      ∃ left, left.1 = u ∧ Token.next? false c (rest ++ u) = .ok (token, left)) :
    Common (c :: rest) j (.literal token j.toValue) where
  trim := htrim
  written := by
    have hdot : token ≠ .symbol .dot := by
      rintro rfl
      rcases hspelled.cases with ⟨x, -, h⟩ | ⟨s, escaped, -, h⟩ | ⟨text, h, -⟩ <;> cases h
    exact ⟨[(c :: rest, token)], rfl, fun hu => writtenFrom_token hblank hdot (hnext hu)⟩
  spelled := hspelled
  grouped := trivial
  eval := fun s => by rw [Phrase.expr, Expr.eval]

theorem common_word {word : Text} (h : (word, j) ∈ words) :
    Common word j (.literal (.name word) j.toValue) := by
  rcases words_cases h with ⟨rfl, rfl⟩ | ⟨rfl, rfl⟩ | ⟨rfl, rfl⟩
  all_goals
    refine common_literal (by decide) (by decide) ?_ fun hu =>
      Token.next?_identifier false (by decide) (by decide) hu.stopsWord
  · exact (.inr (by decide) : Value.SpelledBy .null (.name ['n', 'u', 'l', 'l']))
  · exact (.inl (by decide) : Value.SpelledBy (.bool true) (.name ['t', 'r', 'u', 'e']))
  · exact (.inl (by decide) : Value.SpelledBy (.bool false) (.name ['f', 'a', 'l', 's', 'e']))

theorem common_string {s : Text} {pieces : List Text} (h : List.Forall₂ SharedBy s pieces) :
    Common ('"' :: (pieces.flatten ++ ['"'])) (string s)
      (.literal (.string s (pieces.flatten.contains '\\')) (.string s)) := by
  refine common_literal (by decide) (Text.trim_eq_self_of_ends (by decide) (by decide) _)
    ⟨_, rfl⟩ fun {u} _ => ?_
  rw [List.append_assoc, List.singleton_append]
  exact Token.next?_string false (.inr rfl) (h.imp fun _ _ => SharedBy.spelled)
    (not_mem_doubleQuote h) u

/-! ## Numerals -/

section Numeral

variable {whole fraction d : Text} {exponent : Option Int} {x : Number}

theorem common_numeral (h : NumeralBy whole fraction exponent d)
    (hwritten : ∀ {u}, EndsItem u → writtenFrom false (d ++ u) =
      ((d, .number x) :: (writtenFrom false u).1, (writtenFrom false u).2))
    (hx : j.toValue = .number x) :
    Common d j (.literal (.number x) (.number x)) where
  trim := Text.trim_eq_self h.isBlank
  written := ⟨[(d, .number x)], rfl, hwritten⟩
  spelled := rfl
  grouped := trivial
  eval := fun s => by rw [hx, Phrase.expr, Expr.eval]

theorem common_negative (h : NumeralBy whole fraction exponent d)
    (hwritten : ∀ {u}, EndsItem u → writtenFrom false (d ++ u) =
      ((d, .number x) :: (writtenFrom false u).1, (writtenFrom false u).2))
    (hx : j.toValue = .number x.neg) :
    Common ('-' :: d) j (.neg (.literal (.number x) (.number x))) where
  trim := Text.trim_eq_self (List.forall_mem_cons.2 ⟨by decide, h.isBlank⟩)
  written := by
    refine ⟨[(['-'], .symbol .minus), (d, .number x)], rfl, fun {u} hu => ?_⟩
    rw [List.cons_append, writtenFrom_symbol (by decide) rfl (fun _ => rfl) (by decide),
      hwritten hu]
    rfl
  spelled := rfl
  grouped := ⟨trivial, (by decide : 6 ≤ 9)⟩
  eval := fun s => by
    rw [hx]
    rfl

end Numeral

/-! ## Arrays -/

section Array

variable {items : List Json} {ps : List Phrase} {w w' t' : Text}

/-- The tokens of an item and of what stands behind it. -/
theorem Common.writtenFrom_item {s : Symbol} (h : Common t j p) (hw : Text.allBlank w = true)
    (hw' : Text.allBlank w' = true) (hc : c = ']' ∧ s = .closeBracket ∨ c = ',' ∧ s = .comma) :
    ∃ front : List (Text × Token), front.map Prod.snd = p.tokens ++ [.symbol s] ∧
      ∀ u, writtenFrom false (w ++ (t ++ (w' ++ c :: u))) =
        (front ++ (writtenFrom false u).1, (writtenFrom false u).2) := by
  obtain ⟨front, hfront, hwritten⟩ := h.written
  refine ⟨front ++ [([c], .symbol s)], by rw [List.map_append, hfront]; rfl, fun u => ?_⟩
  have hends : EndsItem (w' ++ c :: u) :=
    endsItem_append hw' (endsItem_cons (hc.symm.imp And.left And.left) u)
  have hsymbol : writtenFrom false (c :: u) =
      (([c], .symbol s) :: (writtenFrom false u).1, (writtenFrom false u).2) := by
    rcases hc with ⟨rfl, rfl⟩ | ⟨rfl, rfl⟩ <;>
      exact writtenFrom_symbol (by decide) rfl (fun _ => rfl) (by decide) u
  rw [Token.writtenFrom_blank hw, hwritten hends,
    Token.writtenFrom_blank hw', hsymbol, List.append_assoc]
  rfl

/-- The last item of an array. -/
theorem Common.singleton (h : Common t j p) (hw : Text.allBlank w = true)
    (hw' : Text.allBlank w' = true) :
    CommonItems (w ++ (t ++ (w' ++ [']']))) [j] [p] where
  last := ⟨w ++ (t ++ w'), by simp only [List.append_assoc]⟩
  written := by
    obtain ⟨front, hfront, hwritten⟩ := h.writtenFrom_item hw hw' (.inl ⟨rfl, rfl⟩)
    refine ⟨front, by rw [hfront]; simp [Phrase.itemTokens, Phrase.separator], fun u => ?_⟩
    rw [← hwritten u]
    simp only [List.append_assoc, List.singleton_append]
  ne_nil := List.cons_ne_nil _ _
  spelled := ⟨h.spelled, trivial⟩
  grouped := ⟨h.grouped, trivial⟩
  eval := fun s => by
    rw [Phrase.exprs, Expr.evalItems, h.eval]
    rfl

/-- An item of an array in front of others. -/
theorem Common.cons (h : Common t j p) (hs : CommonItems t' items ps)
    (hw : Text.allBlank w = true) (hw' : Text.allBlank w' = true) :
    CommonItems (w ++ (t ++ (w' ++ ',' :: t'))) (j :: items) (p :: ps) where
  last := by
    obtain ⟨front, rfl⟩ := hs.last
    exact ⟨w ++ (t ++ (w' ++ ',' :: front)), by simp only [List.append_assoc, List.cons_append]⟩
  written := by
    obtain ⟨front, hfront, hwritten⟩ := h.writtenFrom_item hw hw' (.inr ⟨rfl, rfl⟩)
    obtain ⟨back, hback, hitems⟩ := hs.written
    refine ⟨front ++ back, ?_, fun u => ?_⟩
    · obtain ⟨q, qs, rfl⟩ := List.exists_cons_of_ne_nil hs.ne_nil
      have htokens : Phrase.itemTokens false (p :: q :: qs) =
          p.tokens ++ ([.symbol .comma] ++ Phrase.itemTokens false (q :: qs)) := rfl
      rw [List.map_append, hfront, hback, htokens]
      simp only [List.append_assoc]
    · simp only [List.append_assoc, List.cons_append]
      rw [hwritten, hitems]
  ne_nil := List.cons_ne_nil _ _
  spelled := ⟨h.spelled, hs.spelled⟩
  grouped := ⟨h.grouped, hs.grouped⟩
  eval := fun s => by
    rw [Phrase.exprs, Expr.evalItems, h.eval, hs.eval]
    rfl

/-- An array with items. -/
theorem CommonItems.array (h : CommonItems t items ps) :
    Common ('[' :: t) (array items) (.list ps false) where
  trim := by
    obtain ⟨front, rfl⟩ := h.last
    exact Text.trim_eq_self_of_ends (by decide) (by decide) front
  written := by
    obtain ⟨front, hfront, hwritten⟩ := h.written
    refine ⟨(['['], .symbol .openBracket) :: front, ?_, fun {u} _ => ?_⟩
    · rw [List.map_cons, hfront]
      rfl
    · rw [List.cons_append, writtenFrom_openBracket, hwritten]
      rfl
  spelled := h.spelled
  grouped := h.grouped
  eval := fun s => by
    rw [Phrase.expr, Expr.eval, h.eval]
    rfl

/-- An array without items. -/
theorem common_empty (hw' : Text.allBlank w' = true) :
    Common ('[' :: (w' ++ [']'])) (array []) (.list [] false) where
  trim := Text.trim_eq_self_of_ends (by decide) (by decide) w'
  written := by
    refine ⟨[(['['], .symbol .openBracket), ([']'], .symbol .closeBracket)], rfl, fun {u} _ => ?_⟩
    rw [List.cons_append, List.append_assoc, List.singleton_append, writtenFrom_openBracket,
      Token.writtenFrom_blank hw',
      writtenFrom_symbol (by decide) rfl (fun _ => rfl) (by decide)]
    rfl
  spelled := trivial
  grouped := trivial
  eval := fun s => by
    rw [Phrase.expr, Phrase.exprs, Expr.eval, Expr.evalItems]
    rfl

end Array

end Stencil.Json
