import Stencil.Proofs.Expr.StringLiteral
import Stencil.Proofs.Json.Grammar

/-!
# JSON strings and string literals

A JSON string is written like a string literal in double quotes, but the two differ at the edges: a
literal may hold control characters and an escaped single quote, and a JSON string the escapes of
the backspace and of the form feed.  What both have names the same character in both; and where a
JSON string has one of its own two escapes, a literal is refused
(`sharedBy_or_unescape?_eq_none`).

## Main Definitions

* `Json.SharedBy` — a way of writing a character in both
-/

namespace Stencil.Json

open StringLiteral (SpelledBy)

/-- A way of writing a character in a JSON string and in a string literal in double quotes. -/
structure SharedBy (c : Char) (piece : Text) : Prop where
  /-- It is one in a string literal. -/
  spelled : SpelledBy false c piece
  /-- The quote that would end the literal does not stand for itself. -/
  ne_doubleQuote : piece ≠ ['"']

/-- The escapes of JSON that string literals do not have. -/
def ownEscapes : List (Char × Char) := [('b', '\x08'), ('f', '\x0c')]

variable {c : Char} {s piece : Text} {pieces : List Text}

theorem escapes_cases {letter : Char} (h : (letter, c) ∈ escapes) :
    (letter, c) ∈ StringLiteral.namedEscapes ∨ (letter, c) ∈ ownEscapes := by
  simp only [escapes, StringLiteral.namedEscapes, ownEscapes, List.mem_cons, List.not_mem_nil,
    or_false] at h ⊢
  tauto

theorem UnitBy.spelled {digits : Text} {unit : Nat} (h : UnitBy digits unit) :
    StringLiteral.UnitBy false digits unit :=
  ⟨h.1, .inl h.2⟩

/-- A way of writing a character is shared, or it is one of the two escapes of JSON. -/
theorem CharBy.cases (h : CharBy c piece) :
    SharedBy c piece ∨ ∃ letter, (letter, c) ∈ ownEscapes ∧ piece = ['\\', letter] := by
  cases h with
  | plain hquote hbackslash _ =>
    exact .inl ⟨.plain hbackslash, fun heq => hquote (List.cons.inj heq).1⟩
  | @named letter hnamed =>
    rcases escapes_cases hnamed with hshared | hown
    · exact .inl ⟨.named hshared, nofun⟩
    · exact .inr ⟨letter, hown, rfl⟩
  | unit hunit => exact .inl ⟨.unit hunit.spelled, nofun⟩
  | pair hhigh hlow hpair hc => exact .inl ⟨.pair hhigh.spelled hlow.spelled hpair hc, nofun⟩

theorem unescapeAfter?_own {letter : Char} {t : Text} (h : (letter, c) ∈ ownEscapes) :
    StringLiteral.unescapeAfter? none ('\\' :: letter :: t) = none := by
  rcases List.mem_pair.1 h with heq | heq
  all_goals
    obtain ⟨rfl, rfl⟩ := Prod.mk.inj heq
    rfl

/-- Either a string is written with what string literals have, too, or it has no reading as one. -/
theorem sharedBy_or_unescape?_eq_none (h : List.Forall₂ CharBy s pieces) :
    List.Forall₂ SharedBy s pieces ∨ StringLiteral.unescape? pieces.flatten = none := by
  induction h with
  | nil => exact .inl .nil
  | @cons c piece s pieces hpiece _ ih =>
    rw [StringLiteral.unescape?, List.flatten_cons]
    rcases hpiece.cases with hshared | ⟨letter, hown, rfl⟩
    · rcases ih with ih | ih
      · exact .inl (.cons hshared ih)
      · right
        rw [StringLiteral.unescapeAfter?_append hshared.spelled, ← StringLiteral.unescape?, ih]
        rfl
    · exact .inr (unescapeAfter?_own hown)

theorem not_mem_doubleQuote (h : List.Forall₂ SharedBy s pieces) : ['"'] ∉ pieces := by
  induction h with
  | nil => exact List.not_mem_nil
  | cons hpiece _ ih =>
    rw [List.mem_cons, not_or]
    exact ⟨hpiece.ne_doubleQuote.symm, ih⟩

/-- A JSON string ends where the string literal ends. -/
theorem split?_charBy (h : List.Forall₂ CharBy s pieces) (t : Text) :
    StringLiteral.split? '"' (pieces.flatten ++ '"' :: t) =
      some (pieces.flatten, pieces.flatten.contains '\\', t) := by
  refine StringLiteral.split?_flatten (.inr rfl) ?_ t
  induction h with
  | nil => nofun
  | cons hpiece _ ih =>
    refine List.forall_mem_cons.2 ⟨?_, ih⟩
    rcases hpiece.cases with hshared | ⟨letter, -, rfl⟩
    · exact StringLiteral.split?_append (.inr rfl) hshared.spelled hshared.ne_doubleQuote
    · exact StringLiteral.split?_escape '"' letter

/-- Either a string is written with what string literals have, too, or it is refused as one. -/
theorem sharedBy_or_next?_eq_error (h : List.Forall₂ CharBy s pieces) (afterDot : Bool) (t : Text) :
    List.Forall₂ SharedBy s pieces ∨
      Token.next? afterDot '"' (pieces.flatten ++ '"' :: t) = .error .badEscape := by
  refine (sharedBy_or_unescape?_eq_none h).imp_right fun hnone => ?_
  have hsplit := split?_charBy h t
  have hescaped : pieces.flatten.contains '\\' = true := by
    refine eq_true_of_ne_false fun hplain => ?_
    rw [StringLiteral.unescape?_of_not_contains hplain] at hnone
    cases hnone
  rw [hescaped] at hsplit
  exact Token.next?_string_of_bad afterDot (.inr rfl) hsplit hnone

end Stencil.Json
