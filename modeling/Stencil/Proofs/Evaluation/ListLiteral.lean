import Stencil.Proofs.Expr.Completeness
import Stencil.Proofs.Expr.Soundness
import Stencil.Proofs.Json.Common
import Stencil.Proofs.Json.Reader.Soundness

/-!
# Texts that are JSON and expressions at once

A text that starts like a JSON array may be one, and may be a list of the expression language, too.
It is tried as JSON first, and that never shows: a text that is both has as an expression, in every
scope, the value that it has as JSON (`evaluate_of_json`), provided that its numerals are the same
numbers in both languages.

Of the library nothing is used but that it reads JSON text and that a minus sign changes the sign
(`Json.Library.Reads`).  The induction is over how the data is written, and hands on what is known
about the tokens of the text and of what is behind it: that they can be read to their end, which
rules out objects and the escapes that only JSON has, and that their numerals are read alike
(`Json.Expressible`).

## Main Definitions

* `Json.ReadAlike` — a numeral that is the same number in both languages
* `Json.Expressible` — a text that may be a part of an expression with such numerals
* `Json.Shared`, `Json.SharedItems` — data and items that are read alike where they are written
-/

namespace Stencil

namespace Json

open Token (writtenFrom)

variable [Library] {c : Char} {t u w : Text} {j : Json} {items : List Json}

/-- The characters of a number in an expression are no other number in JSON. -/
def ReadAlike (d : Text) (x : Number) : Prop :=
  ∀ j, Library.read? d = some j → j.toValue = .number x

/-- A text that can be read to its end as tokens, with numerals that are read alike. -/
structure Expressible (t : Text) : Prop where
  fault : (writtenFrom false t).2 = none
  alike : ∀ d x, (d, Token.number x) ∈ (writtenFrom false t).1 → ReadAlike d x

/-- What is behind some of the tokens can be read, too. -/
theorem Expressible.of_writtenFrom {front : List (Text × Token)} (h : Expressible t)
    (ht : writtenFrom false t = (front ++ (writtenFrom false u).1, (writtenFrom false u).2)) :
    Expressible u := by
  obtain ⟨hfault, halike⟩ := h
  rw [ht] at hfault halike
  exact ⟨hfault, fun d x hmem => halike d x (List.mem_append_right _ hmem)⟩

theorem Expressible.of_append (h : Expressible (w ++ t)) (hw : Text.allBlank w = true) :
    Expressible t := by
  obtain ⟨hfault, halike⟩ := h
  rw [Token.writtenFrom_blank hw] at hfault halike
  exact ⟨hfault, halike⟩

/-- A text that starts with a fault cannot be read to its end. -/
theorem not_expressible_of_error {e : SyntaxError} (hc : Text.isBlank c = false)
    (hnext : Token.next? false c t = .error e) : ¬Expressible (c :: t) := by
  rintro ⟨hfault, -⟩
  rw [Token.writtenFrom_eq (Token.trimStart_cons hc), hnext] at hfault
  cases hfault

/-! ## One way of writing after the other -/

/-- Data that is read alike where it is written in front of something that ends it. -/
def Shared (j : Json) (t : Text) : Prop :=
  ∀ {u}, EndsItem u → Expressible (t ++ u) → ∃ p, Common t j p

/-- Items that are read alike where they are written in front of the closing bracket. -/
def SharedItems (items : List Json) (t : Text) : Prop :=
  ∀ {u}, Expressible (t ++ ']' :: u) → ∃ ps, CommonItems (t ++ [']']) items ps

/-- A string is read alike, because one with an escape that only JSON has cannot be read as a
token. -/
theorem StringBy.shared {s : Text} (h : StringBy s t) : Shared (string s) t := by
  obtain ⟨pieces, hpieces, rfl⟩ := h
  intro u _ ht
  rcases sharedBy_or_next?_eq_error hpieces false u with hshared | herror
  · exact ⟨_, common_string hshared⟩
  · rw [List.cons_append, List.append_assoc, List.singleton_append] at ht
    exact absurd ht (not_expressible_of_error (by decide) herror)

section Numeral

variable {whole fraction d : Text} {exponent : Option Int}

theorem NumeralBy.shared (h : NumeralBy whole fraction exponent d)
    (hj : Library.read? d = some j) : Shared j d := by
  intro u hu ht
  obtain ⟨x, hwritten⟩ := h.exists_number
  have hmem : (d, Token.number x) ∈ (writtenFrom false (d ++ u)).1 := by
    rw [hwritten hu]
    exact .head _
  exact ⟨_, common_numeral h hwritten (ht.alike d x hmem j hj)⟩

/-- The numbers behind the sign are the same, so those with it are. -/
theorem NumeralBy.shared_minus (hlibrary : Library.Reads) (h : NumeralBy whole fraction exponent d)
    (hj : Library.read? ('-' :: d) = some j) : Shared j ('-' :: d) := by
  intro u hu ht
  obtain ⟨x, hwritten⟩ := h.exists_number
  obtain ⟨j', hj', hneg⟩ := hlibrary.negative h hj
  have hmem : (d, Token.number x) ∈ (writtenFrom false ('-' :: (d ++ u))).1 := by
    rw [writtenFrom_symbol (by decide) rfl (fun _ => rfl) (by decide), hwritten hu]
    exact .tail _ (.head _)
  exact ⟨_, common_negative h hwritten (hneg x (ht.alike d x hmem j' hj'))⟩

end Numeral

/-- An array is read alike if its items are. -/
theorem SharedItems.array (h : SharedItems items t) :
    Shared (array items) ('[' :: (t ++ [']'])) := by
  intro u _ ht
  rw [List.cons_append, List.append_assoc, List.singleton_append] at ht
  have hbehind : Expressible (t ++ ']' :: u) :=
    @Expressible.of_writtenFrom _ _ _ [(['['], .symbol .openBracket)] ht (writtenFrom_openBracket _)
  obtain ⟨ps, hcommon⟩ := h hbehind
  exact ⟨_, hcommon.array⟩

/-- An object cannot be read as a token. -/
theorem not_expressible_brace (t : Text) : ¬Expressible ('\x7b' :: t) := by
  have hnext : Token.next? false '\x7b' t = .error .character := by
    cases t <;> rfl
  exact not_expressible_of_error (by decide) hnext

/-- An item with white space around it, in front of the comma or of the bracket. -/
theorem Shared.exists_item {core : Text} (h : Shared j core) (ht : Spaced core t)
    (hc : c = ',' ∨ c = ']') (hexpr : Expressible (t ++ c :: u)) :
    ∃ w w' p, Text.allBlank w = true ∧ Text.allBlank w' = true ∧ t = w ++ (core ++ w') ∧
      Common core j p := by
  obtain ⟨w, w', hw, hw', rfl⟩ := ht
  have hblank := allBlank_of_isSpace hw
  have hblank' := allBlank_of_isSpace hw'
  rw [List.append_assoc, List.append_assoc] at hexpr
  obtain ⟨p, hcommon⟩ :=
    h (endsItem_append hblank' (endsItem_cons hc u)) (hexpr.of_append hblank)
  exact ⟨w, w', p, hblank, hblank', rfl, hcommon⟩

theorem Shared.last {core : Text} (h : Shared j core) (ht : Spaced core t) :
    SharedItems [j] t := by
  intro u hexpr
  obtain ⟨w, w', p, hw, hw', rfl, hcommon⟩ := h.exists_item ht (.inr rfl) hexpr
  refine ⟨[p], ?_⟩
  rw [List.append_assoc, List.append_assoc]
  exact hcommon.singleton hw hw'

theorem Shared.cons {core rest : Text} (h : Shared j core) (ht : Spaced core t)
    (hrest : SharedItems items rest) : SharedItems (j :: items) (t ++ ',' :: rest) := by
  intro u hexpr
  rw [List.append_assoc, List.cons_append] at hexpr
  obtain ⟨w, w', p, hw, hw', rfl, hcommon⟩ := h.exists_item ht (.inl rfl) hexpr
  -- The tokens behind the comma are among those of the whole, so what is known of these holds.
  obtain ⟨front, -, hwritten⟩ := hcommon.writtenFrom_item hw hw' (.inr ⟨rfl, rfl⟩)
  rw [List.append_assoc, List.append_assoc] at hexpr
  obtain ⟨ps, hitems⟩ := hrest (hexpr.of_writtenFrom (hwritten _))
  refine ⟨p :: ps, ?_⟩
  simp only [List.append_assoc, List.cons_append]
  exact hcommon.cons hitems hw hw'

/-- Whatever is written as JSON is read alike, by induction over how it is written. -/
theorem ValueBy.shared (hlibrary : Library.Reads) (h : ValueBy j t) : Shared j t := by
  refine @ValueBy.rec _ (fun j t _ => Shared j t) (fun items t _ => SharedItems items t)
    (fun _ _ _ => True) ?word ?string ?numeral ?negative ?emptyArray ?array ?emptyObject ?object
    ?last ?cons ?lastMember ?consMember j t h
  case word => exact fun h u _ _ => ⟨_, common_word h⟩
  case string => exact fun h => h.shared
  case numeral => exact fun h hj => h.shared hj
  case negative => exact fun h hj => h.shared_minus hlibrary hj
  case emptyArray => exact fun hw u _ _ => ⟨_, common_empty (allBlank_of_isSpace hw)⟩
  case array => exact fun _ h => h.array
  case emptyObject => exact fun _ u _ ht => absurd ht (not_expressible_brace _)
  case object => exact fun _ _ u _ ht => absurd ht (not_expressible_brace _)
  case last => exact fun _ ht h => h.last ht
  case cons => exact fun _ ht _ h hrest => h.cons ht hrest
  case lastMember => exact fun _ _ _ _ _ => trivial
  case consMember => exact fun _ _ _ _ _ _ _ => trivial

/-- The whole text that is read alike has the tokens of its phrase. -/
theorem Common.readAll_eq {p : Phrase} (h : Common t j p) :
    Token.readAll t = (p.tokens, none) := by
  obtain ⟨front, hfront, hwritten⟩ := h.written
  have hall : writtenFrom false t = (front, none) := by
    have hread := hwritten endsItem_nil
    rwa [List.append_nil, Token.writtenFrom_nil (t := []) rfl, List.append_nil] at hread
  rw [Token.readAll, Token.readFrom_eq_writtenFrom, hall, hfront]

/-- The whole text that is read alike is the expression of its phrase, unless it is too deep. -/
theorem Common.ofText_eq {p : Phrase} (h : Common t j p) :
    Expr.ofText t =
      if p.deepest 1 ≤ Parser.depthLimit then .ok p.expr else .error .tooDeep := by
  rw [Expr.ofText, h.readAll_eq]
  exact Expr.ofTokens_tokens h.spelled h.grouped

/-- The phrase of JSON data with white space around it. -/
theorem ValueBy.exists_common {w' : Text} (hlibrary : Library.Reads) (h : ValueBy j t)
    (hw : Text.allBlank w = true) (hw' : Text.allBlank w' = true)
    (hexpr : Expressible (w ++ (t ++ w'))) :
    ∃ p, Common t j p ∧ Token.readAll (w ++ (t ++ w')) = (p.tokens, none) := by
  have hends : EndsItem w' := by
    have happend := endsItem_append hw' endsItem_nil
    rwa [List.append_nil] at happend
  obtain ⟨p, hcommon⟩ := h.shared hlibrary hends (hexpr.of_append hw)
  obtain ⟨front, hfront, hwritten⟩ := hcommon.written
  refine ⟨p, hcommon, ?_⟩
  have hnothing : writtenFrom false w' = ([], none) :=
    Token.writtenFrom_nil (Text.trimStart_eq_nil hw')
  rw [Token.readAll, Token.readFrom_eq_writtenFrom, Token.writtenFrom_blank hw, hwritten hends,
    hnothing, List.append_nil, hfront]

end Json

open Json (Common CommonItems ReadAlike ValueBy)

section Library

variable [Json.Library]

/-- Data that is written between white space has its value as an expression, too. -/
theorem evaluateText_of_valueBy (hlibrary : Json.Library.Reads) {w core w' : Text} {j : Json}
    {e : Expr} (h : ValueBy j core) (hw : Text.allBlank w = true) (hw' : Text.allBlank w' = true)
    (hexpr : Expr.ofText (w ++ (core ++ w')) = .ok e)
    (hnumerals : ∀ d x, (d, Token.number x) ∈ (Token.writtenFrom false (w ++ (core ++ w'))).1 →
      ReadAlike d x) (s : Scope) (allowJson : Bool) :
    evaluateText s (Text.trim (w ++ (core ++ w'))) ⟨allowJson, true⟩ = pure (some j.toValue) := by
  obtain ⟨_, _, _, hread⟩ := Expr.exists_phrase_of_ofText hexpr
  rw [Token.readAll, Token.readFrom_eq_writtenFrom] at hread
  obtain ⟨p, hcommon, htokens⟩ :=
    h.exists_common hlibrary hw hw' ⟨(Prod.mk.inj hread).2, hnumerals⟩
  have hphrase : Expr.ofText core = .ok p.expr := by
    rw [Expr.ofText, htokens, ← hcommon.readAll_eq, ← Expr.ofText, hcommon.ofText_eq] at hexpr
    rw [hcommon.ofText_eq]
    split_ifs at hexpr ⊢
    rfl
  rw [Text.trim_between hw hw', hcommon.trim, evaluateText, if_pos rfl, evaluateExpr, hphrase]
  exact hcommon.eval s

/-- **Trying JSON first never changes the value of an expression.**  A text that is an expression,
with numerals that are the same numbers in JSON, gives the same whether it is tried as JSON or not.
If it is JSON, this is the value of the data in every scope, and the scope is asked for nothing. -/
theorem evaluate_of_json (hlibrary : Json.Library.Reads) {source : Text} {e : Expr}
    (hexpr : Expr.ofText source = .ok e)
    (hnumerals : ∀ d x, (d, Token.number x) ∈ (Token.writtenFrom false source).1 →
      ReadAlike d x) (s : Scope) :
    (evaluate s source ⟨true, true⟩).result = (evaluate s source ⟨false, true⟩).result ∧
      ∀ j, Json.Library.read? source = some j →
        evaluate s source ⟨false, true⟩ = pure (some j.toValue) := by
  constructor
  · cases hlooks : looksLikeJson (Text.trim source) with
    | false => simp only [evaluate, hlooks, Bool.and_false]; rfl
    | true =>
      cases hread : Json.Library.read? (Text.trim source) with
      | none => simp only [evaluate, hlooks, hread]; rfl
      | some j =>
        -- The data of the trimmed text is that of the text, which has more white space around it.
        obtain ⟨v, v', hv, hv', hsource⟩ := Text.exists_trim source
        obtain ⟨core, ⟨w, w', hw, hw', htrim⟩, hby⟩ := hlibrary.written hread
        have hspaced : source = v ++ w ++ (core ++ (w' ++ v')) := by
          rw [htrim] at hsource
          simpa only [List.append_assoc] using hsource
        have hblank : Text.allBlank (v ++ w) = true :=
          List.all_append.trans (Bool.and_eq_true_iff.2 ⟨hv, Json.allBlank_of_isSpace hw⟩)
        have hblank' : Text.allBlank (w' ++ v') = true :=
          List.all_append.trans (Bool.and_eq_true_iff.2 ⟨Json.allBlank_of_isSpace hw', hv'⟩)
        rw [hspaced] at hexpr hnumerals
        have hvalue := evaluateText_of_valueBy hlibrary hby hblank hblank' hexpr hnumerals s false
        rw [← hspaced] at hvalue
        simp only [evaluate, hlooks, hread, hvalue]
        rfl
  · intro j hread
    obtain ⟨core, ⟨w, w', hw, hw', rfl⟩, hby⟩ := hlibrary.written hread
    exact evaluateText_of_valueBy hlibrary hby (Json.allBlank_of_isSpace hw)
      (Json.allBlank_of_isSpace hw') hexpr hnumerals s false

end Library

open Json.Strict

/-! ## A list with a number below zero -/

namespace Json

theorem numeralBy_nested : NumeralBy ['2'] ['5'] none ['2', '.', '5'] :=
  ⟨⟨rfl, by decide, by decide⟩, rfl, [], .absent, rfl⟩

theorem numeralOf?_nested (negative : Bool) : numeralOf? negative ['2'] ['5'] none =
    some (.number (.float (.round (if negative then -5 / 2 else 5 / 2)))) := by
  have hshift : shiftTens? (.ofNat 25) (-1) = some (.round (5 / 2)) := by decide +kernel
  have hneg : Number.neg (.round (5 / 2)) = .round (-5 / 2) := by decide +kernel
  cases negative with
  | false => exact congrArg (Option.map fun x => number (.float x)) hshift
  | true =>
    refine (congrArg (Option.map fun x => number (.float x.neg)) hshift).trans ?_
    rw [Option.map_some, hneg]
    rfl

/-- The strict library reads the list, whose items are the number and an empty list. -/
theorem ofText?_nested : ofText? "[-2.5, []]".toList =
    some (array [number (.float (.round (-5 / 2))), array []]) := by
  have hnumber : outcome (readValue? 126 "-2.5, []]".toList) =
      some (number (.float (.round (-5 / 2))), ", []]".toList) := by
    have hread := @readUnsigned?_append true ", []]".toList _ _ _ _ numeralBy_nested
      (by rintro c ⟨⟩; decide)
    rw [numeralOf?_nested] at hread
    rw [outcome_readValue? (c := '-') rfl]
    exact congrArg (Option.filter _) hread
  have hlist : outcome (readValue? 126 " []]".toList) = some (array [], "]".toList) :=
    (outcome_readValue? (c := '[') rfl).trans rfl
  have hlast : items? 126 " []]".toList = some ([array []], []) := by
    rw [items?_eq, hlist]
    rfl
  have hitems : items? 126 "-2.5, []]".toList =
      some ([number (.float (.round (-5 / 2))), array []], []) := by
    rw [items?_eq, hnumber]
    exact congrArg (Option.map _) hlast
  have hvalue : outcome (readValue? depthLimit "[-2.5, []]".toList) =
      some (array [number (.float (.round (-5 / 2))), array []], []) := by
    have hskip : skipSpace "[-2.5, []]".toList = '[' :: "-2.5, []]".toList := rfl
    rw [outcome_readValue? hskip]
    exact congrArg (Option.map fun (items, rest) => (array items, rest)) hitems
  rw [ofText?_eq, hvalue]
  rfl

end Json

/-- The list is read by the strict library and evaluated as an expression. -/
theorem evaluate_of_json_nested :
    let source := "[-2.5, []]".toList
    (evaluate (.ofModel .empty) source ⟨true, true⟩).result =
        (evaluate (.ofModel .empty) source ⟨false, true⟩).result ∧
      Json.Library.read? source =
        some (.array [.number (.float (.round (-5 / 2))), .array []]) ∧
      evaluate (.ofModel .empty) source ⟨false, true⟩ =
        pure (some (.sequence [.number (.round (-5 / 2)), .sequence []])) := by
  intro source
  have hneg : Number.neg (.round (5 / 2)) = .round (-5 / 2) := by decide +kernel
  have hnumber : Common ['-', '2', '.', '5'] (.number (.float (.round (-5 / 2)))) _ :=
    Json.common_negative Json.numeralBy_nested
      (Json.numeralBy_nested.writtenFrom_append (by decide +kernel))
      (congrArg Value.number hneg.symm)
  have hitems : CommonItems ([] ++ (_ ++ ([] ++ ',' :: ([' '] ++ (_ ++ ([] ++ [']'])))))) _ _ :=
    hnumber.cons ((@Json.common_empty _ [] rfl).singleton rfl rfl) rfl rfl
  have hdata : Common source _ _ := hitems.array
  have hnumerals : ∀ d x, (d, Token.number x) ∈ (Token.writtenFrom false source).1 →
      ReadAlike d x := by
    have hwritten : (Token.writtenFrom false source).1 =
        [("[".toList, .symbol .openBracket), ("-".toList, .symbol .minus),
          ("2.5".toList, .number (.round (5 / 2))), (",".toList, .symbol .comma),
          ("[".toList, .symbol .openBracket), ("]".toList, .symbol .closeBracket),
          ("]".toList, .symbol .closeBracket)] := by
      decide +kernel
    rw [hwritten]
    intro d x hmem j hj
    obtain ⟨rfl, rfl⟩ : d = "2.5".toList ∧ x = .round (5 / 2) := by simpa using hmem
    have hread := (Json.ofText?_numeral Json.numeralBy_nested).symm.trans hj
    rw [Json.numeralOf?_nested] at hread
    cases hread
    rfl
  obtain ⟨hsame, hvalue⟩ := evaluate_of_json Json.Library.reads_strict
    (hdata.ofText_eq.trans (if_pos (by decide))) hnumerals (.ofModel .empty)
  exact ⟨hsame, Json.ofText?_nested, hvalue _ Json.ofText?_nested⟩

end Stencil
