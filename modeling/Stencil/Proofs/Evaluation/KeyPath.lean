import Stencil.Evaluation
import Stencil.Json.Strict
import Stencil.Proofs.Expr.KeyPath
import Stencil.Proofs.Expr.Lexemes

/-!
# Key paths with and without expressions

A text that is no more than a key path is looked up directly if expressions are switched off, and
read as an expression first if they are on.  The two ways agree in every scope exactly for the key
paths that are read as they are written, and those are the ones whose numerals are kept
(`KeyPath.read?_eq_self_iff`): written without a zero in front, and either held without rounding in
sixty-four bits or the greatest of these numbers.  All counts up to `2 ^ 53` are
(`Text.isKept_toDigits`).

That nothing weaker will do is shown by a model that answers every question with the question.

## Main Definitions

* `Text.IsKept` — a numeral that is read as it is written
* `KeyPath.IsKept` — a key path with such numerals only
-/

namespace Stencil

/-! ## Numerals -/

namespace Text

/-- A numeral that is read as it is written. -/
def IsKept (t : Text) : Prop :=
  t = Nat.toDigits 10 (KeyPath.numeral t) ∧
    (KeyPath.numeral t < Nat.pow 2 64 ∧
        (Number.ofNat (KeyPath.numeral t)).whole? = some (Int.ofNat (KeyPath.numeral t)) ∨
      KeyPath.numeral t = Nat.pow 2 64 - 1)

instance (t : Text) : Decidable t.IsKept := inferInstanceAs (Decidable (_ ∧ _))

/-- The numerals of counts up to `2 ^ 53` are kept. -/
theorem isKept_toDigits {n : Nat} (h : n ≤ Nat.pow 2 53) : IsKept (Nat.toDigits 10 n) := by
  have hnumeral : KeyPath.numeral (Nat.toDigits 10 n) = n :=
    Nat.ofDigitChars_toDigits (by decide) (by decide)
  rw [IsKept, hnumeral]
  have hwhole : (Number.ofNat n).whole? = some (Int.ofNat n) :=
    congrArg Number.whole? (Number.ofNat_of_le h)
  exact ⟨rfl, .inl ⟨Nat.lt_of_le_of_lt h (by decide), hwhole⟩⟩

/-- The first count beyond is rounded to an even one, and its successor is held. -/
example : ¬IsKept "9007199254740993".toList ∧ IsKept "9007199254740994".toList := by
  decide +kernel

/-- Two texts without dots stay apart if dots come behind them. -/
theorem append_inj_of_dotless {a b u v : Text} (ha : '.' ∉ a) (hb : '.' ∉ b)
    (hu : ∀ c ∈ u.head?, c = '.') (hv : ∀ c ∈ v.head?, c = '.') (h : a ++ u = b ++ v) :
    a = b ∧ u = v := by
  have hdotless : ∀ {t : Text}, '.' ∉ t → ∀ c ∈ t, (c != '.') = true :=
    fun ht c hc => bne_iff_ne.2 fun hdot => ht (hdot ▸ hc)
  have hdot : ∀ {t : Text}, (∀ c ∈ t.head?, c = '.') → ∀ c ∈ t.head?, (c != '.') = false :=
    fun ht c hc => by rw [ht c hc]; rfl
  exact append_inj_of_run (hdotless ha) (hdotless hb) (hdot hu) (hdot hv) h

end Text

/-! ## Pieces -/

namespace KeyPath

theorem Piece.read?_of_identifier {t : Piece} (h : t.1.isIdentifier = true) :
    t.read? = some t.1 := by
  rw [read?, token_of_identifier h]
  rfl

/-- A numeral is read as it is written exactly if it is kept. -/
theorem Piece.read?_eq_self_iff {t : Piece} (h : t.1.isNumeral = true) :
    t.read? = some t.1 ↔ t.1.IsKept := by
  rw [read?, token_of_numeral h, Number.ofDecimal_zero, Parser.pieceOf?_eq_some_iff]
  constructor
  · intro hpiece
    obtain ⟨x, m, hx, hwhole, ht⟩ := hpiece.resolve_left Token.noConfusion
    obtain rfl := Token.number.inj hx
    have hnumeral : numeral t.1 = min m (Nat.pow 2 64 - 1) := by
      conv_lhs => rw [ht]
      exact Nat.ofDigitChars_toDigits (by decide) (by decide)
    refine ⟨by rwa [hnumeral], ?_⟩
    by_cases hm : m ≤ Nat.pow 2 64 - 1
    · rw [Nat.min_eq_left hm] at hnumeral
      rw [← hnumeral] at hwhole hm
      exact .inl ⟨Nat.lt_of_le_of_lt hm (by decide), hwhole⟩
    · exact .inr (hnumeral.trans (Nat.min_eq_right (Nat.le_of_not_le hm)))
  · rintro ⟨ht, ⟨hlt, hwhole⟩ | hgreatest⟩
    · refine .inr ⟨_, numeral t.1, rfl, hwhole, ?_⟩
      rwa [Nat.min_eq_left (Nat.le_sub_one_of_lt hlt)]
    · -- The greatest number of sixty-four bits is rounded up, and cut back to itself.
      rw [hgreatest] at ht ⊢
      exact .inr ⟨_, Nat.pow 2 64, rfl, by decide +kernel, ht⟩

theorem Piece.not_mem_dot (t : Piece) : '.' ∉ t.1 := by
  intro hmem
  rcases t.2 with h | h
  · obtain ⟨c, w, ht, hc, hw⟩ := Text.exists_of_isIdentifier h
    rw [ht, List.mem_cons] at hmem
    rcases hmem with rfl | hmem
    · cases hc
    · exact absurd (List.all_eq_true.1 hw _ hmem) (by decide)
  · obtain ⟨c, w, ht, hc, hw⟩ := Text.exists_of_isNumeral h
    rw [ht, List.mem_cons] at hmem
    rcases hmem with rfl | hmem
    · cases hc
    · exact absurd (List.all_eq_true.1 hw _ hmem) (by decide)

/-- What a piece is read as holds no dot, either. -/
theorem Piece.not_mem_dot_of_read? {t : Piece} {piece : Text} (h : t.read? = some piece) :
    '.' ∉ piece := by
  refine (Parser.pieceOf?_eq_some_iff.1 h).not_mem fun text htext => ?_
  rcases t.2 with hid | hnumeral
  · rw [Piece.token_of_identifier hid] at htext
    rw [← Token.name.inj htext]
    exact t.not_mem_dot
  · rw [Piece.token_of_numeral hnumeral] at htext
    cases htext

theorem head?_tailText (pieces : List Text) : ∀ c ∈ (tailText pieces).head?, c = '.' := by
  cases pieces with
  | nil => nofun
  | cons t rest => rintro c ⟨⟩; rfl

theorem head?_readTail? {pieces : List Piece} {tail : Text} (h : readTail? pieces = some tail) :
    ∀ c ∈ tail.head?, c = '.' := by
  cases pieces with
  | nil =>
    obtain rfl := Option.some.inj h
    nofun
  | cons t rest =>
    rw [readTail?] at h
    split at h
    · obtain rfl := Option.some.inj h
      rintro c ⟨⟩
      rfl
    · cases h

/-- The pieces are read as they are written exactly if each of them is. -/
theorem readTail?_eq_self_iff (pieces : List Piece) :
    readTail? pieces = some (tailText (pieces.map Subtype.val)) ↔
      ∀ t ∈ pieces, t.read? = some t.1 := by
  induction pieces with
  | nil => exact ⟨fun _ => nofun, fun _ => rfl⟩
  | cons t rest ih =>
    rw [List.forall_mem_cons, ← ih, readTail?]
    constructor
    · intro h
      split at h
      · next piece tail hpiece htail =>
        have happend : piece ++ tail = t.1 ++ tailText (rest.map Subtype.val) :=
          (List.cons.inj (Option.some.inj h)).2
        obtain ⟨rfl, rfl⟩ := Text.append_inj_of_dotless (Piece.not_mem_dot_of_read? hpiece)
          t.not_mem_dot (head?_readTail? htail) (head?_tailText _) happend
        exact ⟨hpiece, htail⟩
      · cases h
    · rintro ⟨hpiece, htail⟩
      rw [hpiece, htail]
      rfl

/-- A key path with kept numerals only. -/
def IsKept (p : KeyPath) : Prop := ∀ t ∈ p.pieces, t.1.isNumeral = true → t.1.IsKept

/-- **A key path is read as it is written exactly if its numerals are kept.** -/
theorem read?_eq_self_iff (p : KeyPath) : p.read? = some p.text ↔ p.IsKept := by
  have htail : p.read? = some p.text ↔
      readTail? p.pieces = some (tailText (p.pieces.map Subtype.val)) := by
    rw [read?, text, Option.map_eq_some_iff]
    constructor
    · rintro ⟨tail, htail, happend⟩
      rw [htail, List.append_cancel_left happend]
    · exact fun h => ⟨_, h, rfl⟩
  rw [htail, readTail?_eq_self_iff]
  refine forall₂_congr fun t _ => ⟨fun h hnumeral => (Piece.read?_eq_self_iff hnumeral).1 h, ?_⟩
  intro h
  rcases t.2 with hid | hnumeral
  · exact Piece.read?_of_identifier hid
  · exact (Piece.read?_eq_self_iff hnumeral).2 (h hnumeral)

/-! ## Lookups -/

/-- A key path holds no white space. -/
theorem trim_text (p : KeyPath) : Text.trim p.text = p.text := by
  have hidentifier : ∀ t : Text, t.isIdentifier = true → ∀ c ∈ t, Text.isBlank c = false := by
    intro t ht c hmem
    obtain ⟨d, w, rfl, hd, hw⟩ := Text.exists_of_isIdentifier ht
    rcases List.mem_cons.1 hmem with rfl | hmem
    · exact Token.isBlank_eq_false (.inl hd)
    · exact Text.isBlank_of_isWordChar (List.all_eq_true.1 hw _ hmem)
  have hnumeral : ∀ t : Text, t.isNumeral = true → ∀ c ∈ t, Text.isBlank c = false := by
    intro t ht c hmem
    obtain ⟨d, w, rfl, hd, hw⟩ := Text.exists_of_isNumeral ht
    rcases List.mem_cons.1 hmem with rfl | hmem
    · exact Token.isBlank_eq_false (.inr hd)
    · exact Token.isBlank_eq_false (.inr (List.all_eq_true.1 hw _ hmem))
  refine Text.trim_eq_self fun c hmem => ?_
  rcases List.mem_append.1 hmem with hmem | hmem
  · exact hidentifier _ p.head.2.1 c hmem
  · obtain ⟨t, ht, hmem⟩ := List.mem_flatMap.1 hmem
    obtain ⟨piece, -, rfl⟩ := List.mem_map.1 ht
    rcases List.mem_cons.1 hmem with rfl | hmem
    · rfl
    · exact piece.2.elim (hidentifier _ · c hmem) (hnumeral _ · c hmem)

/-- The scope whose model answers every question with the question. -/
def echo : Scope := .ofModel ⟨fun path => some (.string path)⟩

theorem result_load_echo (path : Text) : (echo.load path).result = some (.string path) := by
  rw [Scope.load]
  rfl

/-- A numeral shows that a text may be an expression. -/
theorem any_marksExpression_of_isNumeral {p : KeyPath} {t : Piece} (ht : t ∈ p.pieces)
    (hnumeral : t.1.isNumeral = true) : p.text.any Switches.marksExpression = true := by
  obtain ⟨c, w, hcons, hc, -⟩ := Text.exists_of_isNumeral hnumeral
  refine List.any_eq_true.2 ⟨c, ?_, ?_⟩
  · refine List.mem_append_right _ (List.mem_flatMap.2 ⟨t.1, List.mem_map_of_mem ht, ?_⟩)
    rw [hcons]
    exact .tail _ (.head _)
  · rw [Switches.marksExpression, hc, Bool.or_true]

section Library

variable [Json.Library]

/-- A key path does not look like JSON. -/
theorem evaluate_text (p : KeyPath) (s : Scope) (switches : Switches) :
    evaluate s p.text switches = evaluateText s p.text switches := by
  obtain ⟨c, w, hhead, hc, -⟩ := Text.exists_of_isIdentifier p.head.2.1
  have hjson : looksLikeJson p.text = false := by
    have hne : ∀ d : Char, Token.startsName d = false → c ≠ d := by
      rintro d hd rfl
      rw [hc] at hd
      cases hd
    rw [looksLikeJson, text, hhead]
    simp [hne '[' (by decide), hne '\x7b' (by decide)]
  rw [evaluate, p.trim_text, hjson, Bool.and_false]
  rfl

theorem evaluate_of_read? {p : KeyPath} {t : Text} (h : p.read? = some t) (s : Scope)
    (json : Bool) : evaluate s p.text ⟨json, true⟩ = s.load t := by
  have hread := p.ofText_text
  rw [h] at hread
  rw [evaluate_text]
  show evaluateExpr s p.text = s.load t
  rw [evaluateExpr]
  cases hof : Expr.ofText p.text with
  | error e =>
    rw [hof] at hread
    cases hread
  | ok e =>
    rw [hof] at hread
    obtain rfl : e = .path t := Option.some.inj hread
    rfl

theorem result_evaluate_of_read?_eq_none {p : KeyPath} (h : p.read? = none) (s : Scope)
    (json : Bool) : (evaluate s p.text ⟨json, true⟩).result = none := by
  have hread := p.ofText_text
  rw [h] at hread
  rw [evaluate_text]
  show (evaluateExpr s p.text).result = none
  rw [evaluateExpr]
  cases hof : Expr.ofText p.text with
  | error e => rfl
  | ok e =>
    rw [hof] at hread
    cases hread

/-- What is looked up in the end can be told from the answers. -/
theorem read?_eq_of_echo {p : KeyPath} {json : Bool}
    (h : (evaluate echo p.text ⟨json, true⟩).result = some (.string p.text)) :
    p.read? = some p.text := by
  cases hread : p.read? with
  | none =>
    rw [result_evaluate_of_read?_eq_none hread] at h
    cases h
  | some t =>
    rw [evaluate_of_read? hread, result_load_echo] at h
    obtain rfl : t = p.text := Value.string.inj (Option.some.inj h)
    rfl

/-- **Key paths that are looked up as they are written.**  With expressions allowed, a key path has
in every scope the value of the direct lookup exactly if its numerals are kept, and then not even
the questions to the model differ.  The same goes for the body of a value tag, which is read as an
expression if it holds a numeral: what the tag shows is what the direct lookup gives in every scope
exactly if the numerals are kept. -/
theorem lookup_tfae (p : KeyPath) (json json' : Bool) :
    List.TFAE [p.IsKept,
      ∀ s, evaluate s p.text ⟨json, true⟩ = evaluate s p.text ⟨json', false⟩,
      ∀ s, (evaluate s p.text ⟨json, true⟩).result = (evaluate s p.text ⟨json', false⟩).result,
      ∀ s, (evaluate s p.text (.ofValueTag p.text)).result = (s.load p.text).result] := by
  have hdirect : ∀ s json, evaluate s p.text ⟨json, false⟩ = s.load p.text := fun s json =>
    p.evaluate_text s ⟨json, false⟩
  tfae_have 1 → 2 := by
    intro hkept s
    rw [evaluate_of_read? (p.read?_eq_self_iff.2 hkept), hdirect]
  tfae_have 2 → 3 := fun h s => congrArg Traced.result (h s)
  tfae_have 3 → 1 := by
    intro h
    have hecho := h echo
    rw [hdirect, result_load_echo] at hecho
    exact p.read?_eq_self_iff.1 (read?_eq_of_echo hecho)
  tfae_have 1 → 4 := by
    intro hkept s
    rw [Switches.ofValueTag]
    cases p.text.any Switches.marksExpression with
    | false => rw [hdirect]
    | true => rw [evaluate_of_read? (p.read?_eq_self_iff.2 hkept)]
  tfae_have 4 → 1 := by
    intro h t ht hnumeral
    have hecho := h echo
    rw [Switches.ofValueTag, any_marksExpression_of_isNumeral ht hnumeral,
      result_load_echo] at hecho
    exact p.read?_eq_self_iff.1 (read?_eq_of_echo hecho) t ht hnumeral
  tfae_finish

end Library

open Json.Strict

/-- The path `m.007`. -/
def padded : KeyPath := ⟨⟨"m".toList, by decide⟩, [⟨"007".toList, by decide⟩]⟩

/-- A scope in which the path `m.007` leads to a value, and `m.7` does not. -/
def paddedScope : Scope :=
  .ofModel (.ofValue
    (.map (.ofList [("m".toList, .map (.ofList [("007".toList, .string "x".toList)]))])))

/-- **A zero in front of a numeral is lost**: the path `m.007` has a value where expressions are
switched off, and none where they are allowed. -/
theorem lookup_padded_differs :
    padded.text = "m.007".toList ∧
      (evaluate paddedScope padded.text ⟨true, false⟩).result = some (.string "x".toList) ∧
      (evaluate paddedScope padded.text ⟨true, true⟩).result = none := by
  refine ⟨by decide, ?_, ?_⟩
  · rw [evaluate_text]
    rfl
  · have hread : padded.read? = some "m.7".toList := by decide +kernel
    rw [evaluate_of_read? hread]
    rfl

end KeyPath

end Stencil
