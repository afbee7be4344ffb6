import Stencil.Text.Basic

/-!
# Markers

Tags stand between a begin marker and an end marker.  Any two texts will do as long as neither is
empty and they differ; the type keeps both conditions.
-/

namespace Stencil

/-- The texts that tags stand between. -/
structure Markers where
  /-- The text before a tag. -/
  opening : Text
  /-- The text after a tag. -/
  closing : Text
  opening_ne_nil : opening ≠ []
  closing_ne_nil : closing ≠ []
  opening_ne_closing : opening ≠ closing

namespace Markers

/-- Why two texts are no markers. -/
inductive Fault
  | empty
  | equal
deriving DecidableEq, Repr

/-- The usual markers. -/
def standard : Markers where
  opening := ['\x7b', '%']
  closing := ['%', '\x7d']
  opening_ne_nil := by decide
  closing_ne_nil := by decide
  opening_ne_closing := by decide

/-- The markers of two texts. -/
def ofTexts (opening closing : Text) : Except Fault Markers :=
  if h : opening = [] ∨ closing = [] then .error .empty
  else if h' : opening = closing then .error .equal
  else .ok ⟨opening, closing, fun h'' => h (.inl h''), fun h'' => h (.inr h''), h'⟩

end Markers

end Stencil
