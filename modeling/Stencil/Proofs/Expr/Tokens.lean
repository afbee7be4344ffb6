import Stencil.Expr.Lexer
import Stencil.Proofs.Text.Trim

/-!
# One token after another

A text is read from its first token on, and white space in front of a token makes no difference.
What a token is does not depend on what was read before it, but for a numeral behind a dot; so a
statement about all tokens of a text follows from one about the first of them and one about the
rest.

## Main Definitions

* `Token.writtenFrom` — the tokens of a text, each with the characters it is written with
-/

namespace Stencil.Token

/-- All tokens of a text, each with the characters it is written with, and the fault that keeps the
reading from its end, if there is one. -/
def writtenFrom (afterDot : Bool) (t : Text) : List (Text × Token) × Option SyntaxError :=
  have hs := Text.length_trimStart_le t
  match ht : Text.trimStart t with
  | [] => ([], none)
  | c :: rest =>
    match next? afterDot c rest with
    | .error e => ([], some e)
    | .ok (token, ⟨left, h⟩) =>
      have hl : left.length < t.length := by rw [ht] at hs; omega
      let (written, fault) := writtenFrom (token = .symbol .dot) left
      (((c :: rest).take ((c :: rest).length - left.length), token) :: written, fault)
termination_by t.length

variable {afterDot : Bool} {c : Char} {t rest w : Text} {token : Token}
  {left : { left : Text // left.length < (c :: rest).length }} {tokens : List Token}
  {fault : Option SyntaxError}

theorem trimStart_cons (h : Text.isBlank c = false) : Text.trimStart (c :: t) = c :: t := by
  rw [Text.trimStart, List.dropWhile_cons, h]
  rfl

/-- A text is read from its first token on. -/
theorem readFrom_cons (hc : Text.isBlank c = false)
    (hfirst : next? afterDot c rest = .ok (token, left))
    (hrest : readFrom (token = .symbol .dot) left.1 = (tokens, fault)) :
    readFrom afterDot (c :: rest) = (token :: tokens, fault) := by
  rw [readFrom]
  split
  · next hnil =>
    rw [trimStart_cons hc] at hnil
    cases hnil
  · next c' rest' hcons =>
    rw [trimStart_cons hc] at hcons
    obtain ⟨rfl, rfl⟩ := List.cons.inj hcons
    rw [hfirst]
    dsimp only
    rw [hrest]

/-! ## How tokens are written -/

theorem writtenFrom_nil (h : Text.trimStart t = []) : writtenFrom afterDot t = ([], none) := by
  rw [writtenFrom]
  split
  · rfl
  · next hcons => rw [h] at hcons; cases hcons

theorem writtenFrom_eq (h : Text.trimStart t = c :: rest) :
    writtenFrom afterDot t = match next? afterDot c rest with
      | .error e => ([], some e)
      | .ok (token, left) =>
        let written := writtenFrom (token = .symbol .dot) left.1
        (((c :: rest).take ((c :: rest).length - left.1.length), token) :: written.1,
          written.2) := by
  rw [writtenFrom]
  split
  · next hnil => rw [h] at hnil; cases hnil
  · next c' rest' hcons =>
    obtain ⟨rfl, rfl⟩ := List.cons.inj (h.symm.trans hcons)
    rcases next? afterDot c rest with e | ⟨token, left⟩ <;> rfl

/-- A text that starts with a token is written with it and with what the rest is written with. -/
theorem writtenFrom_cons (hc : Text.isBlank c = false)
    (hfirst : next? afterDot c rest = .ok (token, left)) (hw : c :: rest = w ++ left.1) :
    writtenFrom afterDot (c :: rest) =
      ((w, token) :: (writtenFrom (token = .symbol .dot) left.1).1,
        (writtenFrom (token = .symbol .dot) left.1).2) := by
  have htake : (w ++ left.1).take ((w ++ left.1).length - left.1.length) = w := by
    rw [List.length_append, Nat.add_sub_cancel, List.take_left]
  rw [← hw] at htake
  rw [writtenFrom_eq (trimStart_cons hc), hfirst]
  dsimp only
  rw [htake]

/-- White space in front of a text makes no difference. -/
theorem writtenFrom_blank (hw : Text.allBlank w = true) (afterDot : Bool) (t : Text) :
    writtenFrom afterDot (w ++ t) = writtenFrom afterDot t := by
  have htrim := Text.trimStart_append hw t
  cases h : Text.trimStart t with
  | nil => rw [writtenFrom_nil h, writtenFrom_nil (htrim.trans h)]
  | cons c rest => rw [writtenFrom_eq h, writtenFrom_eq (htrim.trans h)]

/-- The tokens that a text is written with are those that are read. -/
theorem readFrom_eq_writtenFrom (afterDot : Bool) (t : Text) :
    readFrom afterDot t =
      ((writtenFrom afterDot t).1.map Prod.snd, (writtenFrom afterDot t).2) := by
  fun_induction readFrom afterDot t with
  | case1 b t _ h => rw [writtenFrom_nil h]; rfl
  | case2 b t _ c rest h e hfirst => rw [writtenFrom_eq h, hfirst]; rfl
  | case3 b t _ c rest h token left _ hfirst _ tokens fault hread ih =>
    obtain ⟨rfl, rfl⟩ := Prod.mk.inj (hread.symm.trans ih)
    rw [writtenFrom_eq h, hfirst]
    rfl

end Stencil.Token
