import Stencil.Proofs.Expr.Escape
import Stencil.Proofs.Expr.Tokens

/-!
# String literals among other tokens

A text that is written in quotes, each of its characters in any of the ways in which it can be
written, is one token, whatever comes behind its closing quote.  The end of a literal and its
content are found in two passes that know nothing of each other; what makes them agree is that each
way of writing a character is passed over as a whole by both (`split?_append`,
`unescapeAfter?_append`).

## Main Results

* `StringLiteral.split?_spelled` — where a literal ends
* `Token.ofText_string` — a literal in front of another text
-/

namespace Stencil

namespace StringLiteral

variable {signs : Bool} {quote c : Char} {raw content piece t : Text} {pieces : List Text}

/-- The quotes that a string literal stands between. -/
def IsQuote (c : Char) : Prop := c = '\'' ∨ c = '"'

instance (c : Char) : Decidable (IsQuote c) := inferInstanceAs (Decidable (_ ∨ _))

theorem IsQuote.ne_backslash (h : IsQuote quote) : quote ≠ '\\' := by
  rcases h with rfl | rfl <;> decide

/-! ## Where a literal ends -/

theorem split?_escape (quote c : Char) (t : Text) : split? quote ('\\' :: c :: t) =
    (split? quote t).map fun (raw, _, rest) => ('\\' :: c :: raw, true, rest) := by
  rw [split?.eq_def]
  exact if_pos rfl

theorem split?_quote (hquote : IsQuote quote) (t : Text) :
    split? quote (quote :: t) = some ([], false, t) := by
  rw [split?.eq_def]
  exact (if_neg hquote.ne_backslash).trans (if_pos rfl)

theorem split?_plain (hbackslash : c ≠ '\\') (hquote : c ≠ quote) (t : Text) :
    split? quote (c :: t) =
      (split? quote t).map fun (raw, escaped, rest) => (c :: raw, escaped, rest) := by
  rw [split?.eq_def]
  exact (if_neg hbackslash).trans (if_neg hquote)

/-- Characters that are neither a backslash nor the quote are passed over. -/
theorem split?_append_plain {w : Text} (hw : ∀ c ∈ w, c ≠ '\\' ∧ c ≠ quote) (t : Text) :
    split? quote (w ++ t) =
      (split? quote t).map fun (raw, escaped, rest) => (w ++ raw, escaped, rest) := by
  induction w with
  | nil => simp
  | cons c w ih =>
    obtain ⟨⟨hbackslash, hquote⟩, hw⟩ := List.forall_mem_cons.1 hw
    rw [List.cons_append, split?_plain hbackslash hquote, ih hw, Option.map_map]
    rfl

/-- The characters that name a code unit are passed over. -/
theorem split?_append_digits {digits : Text} {unit : Nat} (hquote : IsQuote quote)
    (h : UnitBy signs digits unit) (t : Text) :
    split? quote (digits ++ t) =
      (split? quote t).map fun (raw, escaped, rest) => (digits ++ raw, escaped, rest) := by
  have hhex : ∀ {rest : Text}, Text.IsHex rest unit → ∀ c ∈ rest, c ≠ '\\' ∧ c ≠ quote := by
    intro rest hrest c hc
    obtain ⟨hbackslash, hsingle, hdouble, -⟩ := hrest.ne c hc
    exact ⟨hbackslash, hquote.elim (· ▸ hsingle) (· ▸ hdouble)⟩
  refine split?_append_plain ?_ t
  obtain ⟨-, h | ⟨-, rest, rfl, h⟩⟩ := h
  · exact hhex h
  · refine List.forall_mem_cons.2 ⟨⟨by decide, ?_⟩, hhex h⟩
    rcases hquote with rfl | rfl <;> decide

/-- Every way of writing a character is passed over, but for the quote itself.  The flag tells
whether it has a backslash. -/
theorem split?_append (hquote : IsQuote quote) (h : SpelledBy signs c piece)
    (hne : piece ≠ [quote]) (t : Text) : split? quote (piece ++ t) =
      (split? quote t).map fun (raw, escaped, rest) =>
        (piece ++ raw, piece.contains '\\' || escaped, rest) := by
  cases h with
  | plain h =>
    have hc : c ≠ quote := fun hc => hne (hc ▸ rfl)
    have hcontains : [c].contains '\\' = false := by simpa using h.symm
    simp only [hcontains, Bool.false_or]
    refine split?_append_plain ?_ t
    rintro d hd
    rw [List.mem_singleton.1 hd]
    exact ⟨h, hc⟩
  | named h => exact split?_escape quote _ t
  | unit h =>
    rw [List.cons_append, List.cons_append, split?_escape, split?_append_digits hquote h,
      Option.map_map]
    rfl
  | pair hhigh hlow _ _ =>
    rw [List.cons_append, List.cons_append, split?_escape, List.append_assoc,
      split?_append_digits hquote hhigh, List.cons_append, List.cons_append, split?_escape,
      split?_append_digits hquote hlow]
    simp only [Option.map_map]
    congr 1
    funext ⟨raw, escaped, rest⟩
    simp

/-- A literal of pieces that are passed over ends at its closing quote, and is known to have escapes
if it has a backslash. -/
theorem split?_flatten (hquote : IsQuote quote)
    (h : ∀ piece ∈ pieces, ∀ t, split? quote (piece ++ t) =
      (split? quote t).map fun (raw, escaped, rest) =>
        (piece ++ raw, piece.contains '\\' || escaped, rest)) (t : Text) :
    split? quote (pieces.flatten ++ quote :: t) =
      some (pieces.flatten, pieces.flatten.contains '\\', t) := by
  induction pieces with
  | nil =>
    rw [List.flatten_nil, List.nil_append, split?_quote hquote]
    rfl
  | cons piece pieces ih =>
    obtain ⟨hpiece, hpieces⟩ := List.forall_mem_cons.1 h
    rw [List.flatten_cons, List.append_assoc, hpiece, ih hpieces, Option.map_some,
      List.contains_append]

theorem split?_spelled (hquote : IsQuote quote) (h : List.Forall₂ (SpelledBy signs) content pieces)
    (hne : [quote] ∉ pieces) (t : Text) : split? quote (pieces.flatten ++ quote :: t) =
      some (pieces.flatten, pieces.flatten.contains '\\', t) := by
  refine split?_flatten hquote ?_ t
  induction h with
  | nil => nofun
  | cons hpiece _ ih =>
    rw [List.mem_cons, not_or] at hne
    exact List.forall_mem_cons.2 ⟨split?_append hquote hpiece (Ne.symm hne.1), ih hne.2⟩

/-- What has no backslash stands for itself. -/
theorem unescape?_of_not_contains (h : raw.contains '\\' = false) : unescape? raw = some raw := by
  rw [unescape?]
  induction raw with
  | nil => rfl
  | cons c raw ih =>
    rw [List.contains_cons, Bool.or_eq_false_iff] at h
    rw [unescapeAfter?_plain (beq_eq_false_iff_ne.1 h.1).symm, ih h.2]
    rfl

/-- What is written without a backslash is written as it is. -/
theorem flatten_eq_of_not_contains (h : List.Forall₂ (SpelledBy signs) content pieces)
    (hplain : pieces.flatten.contains '\\' = false) : pieces.flatten = content := by
  induction h with
  | nil => rfl
  | @cons c piece content pieces hpiece _ ih =>
    rw [List.flatten_cons, List.contains_append, Bool.or_eq_false_iff] at hplain
    rw [List.flatten_cons, ih hplain.2]
    cases hpiece with
    | plain _ => rfl
    | named _ | unit _ | pair _ _ _ _ => cases hplain.1

end StringLiteral

namespace Token

open StringLiteral

variable {signs : Bool} {quote : Char} {raw content t rest : Text} {pieces : List Text}
  {escaped : Bool}

/-! ## The token of a literal -/

/-- A literal without escapes is its raw content. -/
theorem splitString_of_plain (h : split? quote t = some (raw, false, rest)) :
    ∃ left, left.1 = rest ∧ splitString quote t = .ok (.string raw false, left) := by
  rw [splitString]
  split
  · next hnone =>
    rw [hnone] at h
    cases h
  · next raw' escaped' rest' hsome =>
    obtain ⟨rfl, rfl, rfl⟩ := by simpa using hsome.symm.trans h
    exact ⟨_, rfl, rfl⟩

/-- A literal with escapes is what its raw content stands for. -/
theorem splitString_of_escaped (h : split? quote t = some (raw, true, rest))
    (hraw : unescape? raw = some content) :
    ∃ left, left.1 = rest ∧ splitString quote t = .ok (.string content true, left) := by
  rw [splitString]
  split
  · next hnone =>
    rw [hnone] at h
    cases h
  · next raw' escaped' rest' hsome =>
    obtain ⟨rfl, rfl, rfl⟩ := by simpa using hsome.symm.trans h
    rw [hraw]
    exact ⟨_, rfl, rfl⟩

/-- A literal with an escape that names no character is refused. -/
theorem splitString_of_bad (h : split? quote t = some (raw, true, rest))
    (hraw : unescape? raw = none) : splitString quote t = .error .badEscape := by
  rw [splitString]
  split
  · next hnone =>
    rw [hnone] at h
    cases h
  · next raw' escaped' rest' hsome =>
    obtain ⟨rfl, rfl, rfl⟩ := by simpa using hsome.symm.trans h
    rw [hraw]
    rfl

theorem splitString_spelled (hquote : IsQuote quote)
    (h : List.Forall₂ (SpelledBy signs) content pieces) (hne : [quote] ∉ pieces) (t : Text) :
    ∃ left, left.1 = t ∧ splitString quote (pieces.flatten ++ quote :: t) =
      .ok (.string content (pieces.flatten.contains '\\'), left) := by
  have hsplit := split?_spelled hquote h hne t
  cases hescaped : pieces.flatten.contains '\\' with
  | false =>
    rw [hescaped] at hsplit
    rw [← flatten_eq_of_not_contains h hescaped]
    exact splitString_of_plain hsplit
  | true =>
    rw [hescaped] at hsplit
    exact splitString_of_escaped hsplit (unescape?_of_spells ⟨pieces, h, rfl⟩)

theorem splitSymbol?_quote (hquote : IsQuote quote) (t : Text) :
    splitSymbol? (quote :: t) = none := by
  rcases hquote with rfl | rfl <;> cases t <;> rfl

theorem next?_string (afterDot : Bool) (hquote : IsQuote quote)
    (h : List.Forall₂ (SpelledBy signs) content pieces) (hne : [quote] ∉ pieces) (t : Text) :
    ∃ left, left.1 = t ∧ next? afterDot quote (pieces.flatten ++ quote :: t) =
      .ok (.string content (pieces.flatten.contains '\\'), left) := by
  obtain ⟨⟨left, hle⟩, hleft, hstring⟩ := splitString_spelled hquote h hne t
  refine ⟨⟨left, Nat.lt_succ_of_le hle⟩, hleft, ?_⟩
  have hor : quote = '\'' ∨ quote = '"' := hquote
  rw [next?, splitSymbol?_quote hquote, if_pos hor, hstring]

theorem next?_string_of_bad (afterDot : Bool) (hquote : IsQuote quote)
    (h : split? quote t = some (raw, true, rest)) (hraw : unescape? raw = none) :
    next? afterDot quote t = .error .badEscape := by
  have hor : quote = '\'' ∨ quote = '"' := hquote
  rw [next?, splitSymbol?_quote hquote, if_pos hor, splitString_of_bad h hraw]

/-- A literal is the first token of a text. -/
theorem readFrom_string (afterDot : Bool) (hquote : IsQuote quote)
    (h : List.Forall₂ (SpelledBy signs) content pieces) (hne : [quote] ∉ pieces) (t : Text) :
    readFrom afterDot (quote :: (pieces.flatten ++ quote :: t)) =
      (.string content (pieces.flatten.contains '\\') :: (readFrom false t).1,
        (readFrom false t).2) := by
  obtain ⟨left, hleft, hnext⟩ := next?_string afterDot hquote h hne t
  have hblank : Text.isBlank quote = false := by rcases hquote with rfl | rfl <;> rfl
  refine readFrom_cons hblank hnext ?_
  rw [hleft]
  rfl

/-- **A string literal is one token.**  Every text, each of its characters written in any of the
ways of writing it, with quotes of one kind around it that are written with an escape inside, is
read as one string with that text as its content.  The tokens behind it are those of what comes
behind it, and there is a fault if and only if there is one there, the same one. -/
theorem ofText_string (hquote : IsQuote quote) (h : List.Forall₂ (SpelledBy signs) content pieces)
    (hne : [quote] ∉ pieces) (t : Text) :
    ofText (quote :: (pieces.flatten ++ quote :: t)) =
      (ofText t).map (.string content (pieces.flatten.contains '\\') :: ·) := by
  rw [ofText, ofText, readAll, readAll, readFrom_string false hquote h hne]
  rcases readFrom false t with ⟨tokens, _ | fault⟩ <;> rfl

/-- A literal with each way of writing a character: a pair of surrogates between an escaped
backslash and an escaped quote, a letter beyond ASCII, a zero, and the other quote. -/
theorem ofText_string_mixed :
    IsQuote '"' ∧ ['"'] ∉ ["\\\\".toList, "\\ud83D\\uDe80".toList, "\\\"".toList, "é".toList,
        "\\u0000".toList, "'".toList] ∧
      ofText "\"\\\\\\ud83D\\uDe80\\\"é\\u0000'\"+ x".toList =
        .ok [.string ['\\', '🚀', '"', 'é', '\x00', '\''] true, .symbol .plus,
          .name "x".toList] := by
  have hunit : ∀ {digits : Text} {unit : Nat}, digits.length = 4 →
      Text.hexValue? digits = some unit → UnitBy false digits unit :=
    fun hlength h => ⟨hlength, .inl (Text.hexValue?_eq_some_iff.1 h)⟩
  have hspelled : List.Forall₂ (SpelledBy false) ['\\', '🚀', '"', 'é', '\x00', '\'']
      ["\\\\".toList, "\\ud83D\\uDe80".toList, "\\\"".toList, "é".toList, "\\u0000".toList,
        "'".toList] :=
    .cons (.named (by decide)) <|
    .cons (.pair (hunit rfl (by decide : Text.hexValue? "d83D".toList = some 0xD83D))
      (hunit rfl (by decide : Text.hexValue? "De80".toList = some 0xDE80)) (by decide) rfl) <|
    .cons (.named (by decide)) <| .cons (.plain (by decide)) <|
    .cons (.unit (hunit rfl (by decide))) <| .cons (.plain (by decide)) .nil
  have hrest : ofText "+ x".toList = .ok [.symbol .plus, .name "x".toList] := by decide +kernel
  refine ⟨by decide, by decide, ?_⟩
  have h := ofText_string (by decide : IsQuote '"') hspelled (by decide) "+ x".toList
  rw [hrest] at h
  exact h

end Token

end Stencil
