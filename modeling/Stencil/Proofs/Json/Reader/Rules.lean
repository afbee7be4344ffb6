import Mathlib.Tactic.Common
import Stencil.Json.Reader

/-!
# The steps of the JSON reader as equations

A step of the strict JSON reader returns what it leaves together with the proof that it is shorter,
and the proof is in the way of every statement about the text itself.  `Json.outcome` drops it.  The
lemmas below say what each step comes to without it, one for each way in which a value can start and
one for each way in which a string can go on.  Arrays and objects are read alike, but for what their
parts are and for the bracket that closes them.

## Main Definitions

* `Json.outcome` — what a step has read and the text it leaves
* `Json.behindOpen?`, `Json.behindPart?` — what comes behind an opening bracket and behind a part
-/

namespace Stencil.Json

variable {α β : Type}

/-- What a step has read and the text it leaves, without the proof that it is shorter. -/
def outcome {t : Text} (x : Option (α × Shorter t)) : Option (α × Text) :=
  x.map fun (a, rest) => (a, rest.1)

section Outcome

variable {t u : Text}

/-- A step that changes only what was read. -/
theorem outcome_map {x : Option (α × Shorter t)} {f : α × Shorter t → β × Shorter u} {g : α → β}
    (h : ∀ a rest, f (a, rest) = (g a, (f (a, rest)).2) ∧ (f (a, rest)).2.1 = rest.1) :
    outcome (x.map f) = (outcome x).map fun (a, rest) => (g a, rest) := by
  cases x with
  | none => rfl
  | some r =>
    obtain ⟨a, rest⟩ := r
    obtain ⟨hvalue, hrest⟩ := h a rest
    show some ((f (a, rest)).1, (f (a, rest)).2.1) = some (g a, rest.1)
    rw [hrest, hvalue]

/-- A step that goes on with what another has read and left. -/
theorem outcome_bind {x : Option (α × Shorter t)} {f : α × Shorter t → Option (β × Shorter u)}
    {g : α × Text → Option (β × Text)} (h : ∀ a rest, outcome (f (a, rest)) = g (a, rest.1)) :
    outcome (x.bind f) = (outcome x).bind g := by
  cases x with
  | none => rfl
  | some r => exact h r.1 r.2

/-- What is read is shorter than the text. -/
theorem length_lt_of_outcome {x : Option (α × Shorter t)} {a : α} {rest : Text}
    (h : outcome x = some (a, rest)) : rest.length < t.length := by
  obtain ⟨⟨a', rest'⟩, -, heq⟩ := Option.map_eq_some_iff.1 h
  obtain ⟨-, rfl⟩ := Prod.mk.inj heq
  exact rest'.2

end Outcome

variable {depth : Nat} {c : Char} {t rest after name : Text}

/-- The text before what is left of it after white space. -/
theorem exists_skipSpace (t : Text) : ∃ w, w.all isSpace = true ∧ t = w ++ skipSpace t :=
  ⟨t.takeWhile isSpace, List.all_takeWhile, List.takeWhile_append_dropWhile.symm⟩

/-! ## Strings -/

theorem outcome_readChars?_quote : outcome (readChars? ('"' :: t)) = some ([], t) := by
  rw [readChars?]
  rfl

theorem outcome_readChars?_escape :
    outcome (readChars? ('\\' :: t)) = (outcome (escape? ('\\' :: t))).bind fun (d, rest) =>
      (outcome (readChars? rest)).map fun (s, rest) => (d :: s, rest) := by
  rw [readChars?, if_neg (by decide), if_pos rfl]
  exact outcome_bind fun d rest => outcome_map fun s rest => ⟨rfl, rfl⟩

theorem outcome_readChars?_plain (hquote : c ≠ '"') (hbackslash : c ≠ '\\')
    (hcontrol : 0x20 ≤ c.toNat) :
    outcome (readChars? (c :: t)) =
      (outcome (readChars? t)).map fun (s, rest) => (c :: s, rest) := by
  rw [readChars?, if_neg hquote, if_neg hbackslash, if_neg (Nat.not_lt.2 hcontrol)]
  exact outcome_map fun s rest => ⟨rfl, rfl⟩

theorem readChars?_control (hquote : c ≠ '"') (hbackslash : c ≠ '\\') (hcontrol : c.toNat < 0x20) :
    readChars? (c :: t) = none := by
  rw [readChars?, if_neg hquote, if_neg hbackslash, if_pos hcontrol]

/-! ## Values -/

/-- What comes behind an opening bracket: the closing one, or parts. -/
def behindOpen? (close : Char) (read : Text → Option (List α × Text)) (whole : List α → Json)
    (t : Text) : Option (Json × Text) :=
  if (skipSpace t).head? = some close then some (whole [], (skipSpace t).tail)
  else (read t).map fun (parts, rest) => (whole parts, rest)

theorem behindOpen?_close {close : Char} {read : Text → Option (List α × Text)}
    {whole : List α → Json} (h : skipSpace t = close :: after) :
    behindOpen? close read whole t = some (whole [], after) := by
  refine (if_pos (congrArg List.head? h)).trans ?_
  rw [h]
  rfl

theorem behindOpen?_open {close : Char} {read : Text → Option (List α × Text)}
    {whole : List α → Json} (h : ∀ after, skipSpace t ≠ close :: after) :
    behindOpen? close read whole t = (read t).map fun (parts, rest) => (whole parts, rest) := by
  refine if_neg fun hhead => ?_
  obtain ⟨after, hafter⟩ := List.head?_eq_some_iff.1 hhead
  exact h after hafter

/-- The items from the start of one of them, up to the closing bracket. -/
def items? (depth : Nat) (t : Text) : Option (List Json × Text) := outcome (readItems? depth t)

/-- The members from the start of one of them, up to the closing brace. -/
def members? (depth : Nat) (t : Text) : Option (List (Text × Json) × Text) :=
  outcome (readMembers? depth t)

theorem readValue?_nil (h : skipSpace t = []) : readValue? depth t = none := by
  rw [readValue?]
  split
  · rfl
  · next hcons => rw [h] at hcons; cases hcons

/-- A value starts a string, an array or an object, or it is a word or a numeral. -/
theorem outcome_readValue? (h : skipSpace t = c :: rest) :
    outcome (readValue? depth t) =
      if c = '"' then (outcome (readChars? rest)).map fun (s, rest) => (string s, rest)
      else if c = '[' then
        if depth = 0 then none else behindOpen? ']' (items? (depth - 1)) array rest
      else if c = '\x7b' then
        if depth = 0 then none
        else behindOpen? '\x7d' (members? (depth - 1)) (fun ms => object (Dict.ofList ms)) rest
      else ((word? (c :: rest)).or (readNumeral? (c :: rest))).filter fun r =>
        r.2.length < t.length := by
  rw [readValue?]
  split
  · next hnil => rw [h] at hnil; cases hnil
  next c' rest' hcons =>
    obtain ⟨rfl, rfl⟩ := List.cons.inj (h.symm.trans hcons)
    split_ifs
    · exact outcome_map fun s rest => ⟨rfl, rfl⟩
    · rfl
    · dsimp only
      split
      · next after hclose => exact (behindOpen?_close hclose).symm
      · next hopen =>
        rw [behindOpen?_open hopen]
        exact outcome_map fun items rest => ⟨rfl, rfl⟩
    · rfl
    · dsimp only
      split
      · next after hclose =>
        refine Eq.trans ?_ (behindOpen?_close hclose).symm
        rfl
      · next hopen =>
        rw [behindOpen?_open hopen]
        exact @outcome_map _ _ _ _ _ _ (fun ms => object (Dict.ofList ms)) fun ms rest => ⟨rfl, rfl⟩
    · cases (word? (c :: rest)).or (readNumeral? (c :: rest)) with
      | none => rfl
      | some r =>
        rw [shorter?, Option.filter_some]
        split
        · next hlt => rw [if_pos (decide_eq_true hlt)]; rfl
        · next hge => rw [if_neg (mt of_decide_eq_true hge)]; rfl

/-! ## Parts -/

/-- What comes behind a part: a comma with further parts, or the closing bracket. -/
def behindPart? (close : Char) (read : Text → Option (List α × Text)) (part : α) :
    Text → Option (List α × Text)
  | [] => none
  | c :: after =>
    if c = ',' then (read after).map fun (parts, rest) => (part :: parts, rest)
    else if c = close then some ([part], after)
    else none

/-- What comes behind the last part and behind every other one. -/
theorem cases_of_behindPart? {close : Char} {read : Text → Option (List α × Text)} {part : α}
    {parts : List α} (h : behindPart? close read part t = some (parts, rest)) :
    (∃ after others, t = ',' :: after ∧ read after = some (others, rest) ∧
      parts = part :: others) ∨ t = close :: rest ∧ parts = [part] := by
  cases t with
  | nil => cases h
  | cons c after =>
    rw [behindPart?] at h
    split_ifs at h with hcomma hclose
    · obtain ⟨⟨others, rest⟩, hothers, heq⟩ := Option.map_eq_some_iff.1 h
      obtain ⟨rfl, rfl⟩ := Prod.mk.inj heq
      exact .inl ⟨after, others, by rw [hcomma], hothers, rfl⟩
    · obtain ⟨rfl, rfl⟩ := Prod.mk.inj (Option.some.inj h)
      exact .inr ⟨by rw [hclose], rfl⟩

theorem behindPart?_eq_none {close : Char} {read : Text → Option (List α × Text)} {part : α}
    (hcomma : ∀ after, t ≠ ',' :: after) (hclose : ∀ after, t ≠ close :: after) :
    behindPart? close read part t = none := by
  cases t with
  | nil => rfl
  | cons c after =>
    have hc : c ≠ ',' := fun heq => hcomma after (congrArg (· :: after) heq)
    have hc' : c ≠ close := fun heq => hclose after (congrArg (· :: after) heq)
    rw [behindPart?, if_neg hc, if_neg hc']

theorem items?_eq :
    items? depth t = (outcome (readValue? depth t)).bind fun (item, rest) =>
      behindPart? ']' (items? depth) item (skipSpace rest) := by
  rw [items?, readItems?]
  refine outcome_bind fun item rest => ?_
  dsimp only
  split
  · next after h =>
    refine Eq.trans ?_ (congrArg (behindPart? ']' (items? depth) item) h).symm
    exact outcome_map fun items rest => ⟨rfl, rfl⟩
  · next after h => exact (congrArg (behindPart? ']' (items? depth) item) h).symm
  · next hcomma hclose => exact (behindPart?_eq_none hcomma hclose).symm

theorem exists_of_memberName? (h : outcome (memberName? t) = some (name, rest)) :
    ∃ quoted behind, t = '"' :: quoted ∧ outcome (readChars? quoted) = some (name, behind) ∧
      skipSpace behind = ':' :: rest := by
  unfold memberName? at h
  split at h
  · next quoted =>
    obtain ⟨⟨name', behind⟩, hname, h⟩ := Option.map_eq_some_iff.1 h
    obtain ⟨⟨s, after⟩, hs, hname⟩ := Option.bind_eq_some_iff.1 hname
    dsimp only at hname
    split at hname
    · next hcolon =>
      obtain ⟨rfl, rfl⟩ := Prod.mk.inj (Option.some.inj hname)
      obtain ⟨rfl, rfl⟩ := Prod.mk.inj h
      refine ⟨quoted, after.1, rfl, ?_, hcolon⟩
      rw [hs]
      rfl
    · cases hname
  · cases h

theorem members?_eq :
    members? depth t = (outcome (memberName? (skipSpace t))).bind fun (name, behind) =>
      (outcome (readValue? depth behind)).bind fun (member, rest) =>
        behindPart? '\x7d' (members? depth) (name, member) (skipSpace rest) := by
  rw [members?, readMembers?]
  refine outcome_bind fun name behind => ?_
  refine outcome_bind fun member rest => ?_
  dsimp only
  split
  · next after h =>
    refine Eq.trans ?_ (congrArg (behindPart? '\x7d' (members? depth) (name, member)) h).symm
    exact outcome_map fun members rest => ⟨rfl, rfl⟩
  · next after h => exact (congrArg (behindPart? '\x7d' (members? depth) (name, member)) h).symm
  · next hcomma hclose => exact (behindPart?_eq_none hcomma hclose).symm

/-! ## Whole texts -/

/-- A whole text is one value with white space around it. -/
theorem ofText?_eq : ofText? t = (outcome (readValue? depthLimit t)).bind fun (j, rest) =>
    if skipSpace rest = [] then some j else none := by
  rw [ofText?]
  cases readValue? depthLimit t <;> rfl

end Stencil.Json
