import Stencil.Json.Strict
import Stencil.Proofs.Evaluation.KeyPath
import Stencil.Proofs.Scope.Frames
import Stencil.Proofs.Statement.Names

/-!
# Names that are read again

A tag whose body is a name shows the value that the name was bound to.  On the way there, two
readers have to agree on what a name is: the statements take any run of word characters for one, and
the grammar of expressions wants an identifier, which starts with no digit.  The grammar comes into
play for the names that hold a digit, since a digit shows that a body may be an expression.

So there are three kinds of names.  Those without a digit are looked up as they are written, be they
words of the language or not.  Those with a digit behind another character are identifiers, no words
of the language, and key paths of one piece.  Those that start with a digit are no key paths: their
tag shows the number that they are a numeral for, or nothing, whatever they were bound to
(`result_evaluate_of_startsDigit`).

## Main Definitions

* `Numeral.ofText?` — the number of a text that is a numeral from end to end
* `Text.startsDigit` — whether a text starts with a digit
-/

namespace Stencil

/-! ## Numerals and what follows them -/

namespace Numeral

/-- The number of a text that is a numeral from end to end. -/
def ofText? (t : Text) : Option Number :=
  match split false t with
  | (n, []) => n.number?
  | (_, _ :: _) => none

/-- No digit comes next where the digits end. -/
theorem head?_dropDigits (t : Text) :
    ∀ d ∈ (t.dropWhile Char.isDigit).head?, d.isDigit = false := by
  intro d hd
  have h := List.head?_dropWhile_not Char.isDigit t
  rw [Option.mem_def.1 hd] at h
  simpa using h

theorem head?_splitFraction {t : Text} (h : ∀ d ∈ t.head?, d.isDigit = false) :
    ∀ d ∈ (splitFraction t).2.head?, d.isDigit = false := by
  unfold splitFraction
  split
  · split
    · exact h
    · exact head?_dropDigits _
  · exact h

theorem head?_splitExponent {t : Text} (h : ∀ d ∈ t.head?, d.isDigit = false) :
    ∀ d ∈ (splitExponent t).2.head?, d.isDigit = false := by
  unfold splitExponent
  split
  · split
    · split
      · split
        · exact head?_dropDigits _
        · split
          · exact head?_dropDigits _
          · exact h
      · exact h
    · exact h
  · exact h

/-- A numeral takes all its digits. -/
theorem head?_split (integerOnly : Bool) (t : Text) :
    ∀ d ∈ (split integerOnly t).2.head?, d.isDigit = false := by
  unfold split
  cases integerOnly with
  | true => exact head?_dropDigits t
  | false => exact head?_splitExponent (head?_splitFraction (head?_dropDigits t))

theorem isSuffix_splitFraction (t : Text) : (splitFraction t).2 <:+ t := by
  unfold splitFraction
  split
  · split
    · exact List.suffix_rfl
    · exact (List.dropWhile_suffix _).trans (List.suffix_cons _ _)
  · exact List.suffix_rfl

theorem isSuffix_splitExponent (t : Text) : (splitExponent t).2 <:+ t := by
  unfold splitExponent
  split
  · split
    · split
      · split
        · exact (List.dropWhile_suffix _).trans
            ((List.suffix_cons _ _).trans (List.suffix_cons _ _))
        · split
          · exact (List.dropWhile_suffix _).trans (List.suffix_cons _ _)
          · exact List.suffix_rfl
      · exact List.suffix_rfl
    · exact List.suffix_rfl
  · exact List.suffix_rfl

/-- What follows a numeral is the end of the text. -/
theorem isSuffix_split (integerOnly : Bool) (t : Text) : (split integerOnly t).2 <:+ t := by
  unfold split
  cases integerOnly with
  | true => exact List.dropWhile_suffix _
  | false =>
    exact (isSuffix_splitExponent _).trans
      ((isSuffix_splitFraction _).trans (List.dropWhile_suffix _))

end Numeral

/-! ## Names that start with a digit -/

/-- Whether a text starts with a digit. -/
def Text.startsDigit : Text → Bool
  | [] => false
  | c :: _ => c.isDigit

/-- A word character that is no digit starts a name. -/
theorem Token.startsName_of_isWordChar {c : Char} (hword : Text.isWordChar c = true)
    (hdigit : c.isDigit = false) : startsName c = true := by
  rw [← Bool.not_eq_true, Text.isDigit_iff] at hdigit
  rw [Text.isWordChar_iff] at hword
  rw [startsName_iff]
  omega

/-- A phrase that starts with a number is that number, or goes on for two tokens at least. -/
theorem Phrase.length_tokens_of_number {p : Phrase} {x : Number} (hspelled : p.Spelled)
    (h : p.tokens.head? = some (.number x)) : p.tokens.length = 1 ∨ 3 ≤ p.tokens.length := by
  have hpos : ∀ q : Phrase, q.Spelled → 1 ≤ q.tokens.length := by
    intro q hq
    obtain ⟨first, rest, htokens, -⟩ := q.exists_first hq
    rw [htokens]
    exact Nat.succ_le_succ (Nat.zero_le _)
  cases p with
  | literal token v => exact .inl rfl
  | path head pieces => cases h
  | attr object token name =>
    have hobject := hpos object hspelled.1
    rw [tokens, List.length_append, List.length_cons, List.length_singleton]
    omega
  | item object key =>
    have hobject := hpos object hspelled.1
    rw [tokens, List.length_append, List.length_cons, List.length_append, List.length_singleton]
    omega
  | not token operand =>
    obtain rfl : token = .number x := Option.some.inj h
    exact absurd hspelled.1 Bool.false_ne_true
  | neg operand => cases h
  | binary token op left right =>
    have hleft := hpos left hspelled.2.1
    have hright := hpos right hspelled.2.2
    rw [tokens, List.length_append, List.length_cons]
    omega
  | list items trailing => cases h
  | parens inner => cases h

section Digit

variable {c : Char} {w : Text}

/-- A name that starts with a digit is a numeral, and behind it perhaps another name. -/
theorem Token.readAll_of_isDigit (hc : c.isDigit = true) (hw : w.all Text.isWordChar = true)
    {n : Numeral} {rest : Text} {x : Number} (hsplit : Numeral.split false (c :: w) = (n, rest))
    (hx : n.number? = some x) :
    readAll (c :: w) = (.number x :: if rest = [] then [] else [.name rest], none) := by
  obtain ⟨left, hleft, hnext⟩ := next?_number hc hsplit hx
  refine readFrom_cons (isBlank_eq_false (.inr hc)) hnext ?_
  rw [hleft, decide_eq_false Token.noConfusion]
  have hsuffix := Numeral.isSuffix_split false (c :: w)
  have hhead := Numeral.head?_split false (c :: w)
  rw [hsplit] at hsuffix hhead
  cases rest with
  | nil =>
    rw [readFrom]
    rfl
  | cons d rest =>
    have hchars : ∀ e ∈ d :: rest, Text.isWordChar e = true := by
      intro e he
      rcases List.mem_cons.1 (hsuffix.subset he) with rfl | hmem
      · rw [Text.isWordChar, Char.isAlphanum, hc, Bool.or_true, Bool.true_or]
      · exact List.all_eq_true.1 hw e hmem
    have hd := startsName_of_isWordChar (hchars d List.mem_cons_self) (hhead d rfl)
    have hrest : rest.all Text.isWordChar = true :=
      List.all_eq_true.2 fun e he => hchars e (.tail _ he)
    obtain ⟨left, hleft, hnext⟩ := next?_identifier false hd hrest Text.stopsWord_nil
    have hend : readFrom (Token.name (d :: rest) = .symbol .dot) left.1 = ([], none) := by
      rw [hleft, readFrom]
      rfl
    have hname := readFrom_cons (isBlank_eq_false (.inl hd)) hnext hend
    rwa [List.append_nil] at hname

/-- A numeral without digits in its exponent is no token. -/
theorem Token.readAll_of_number?_eq_none (hc : c.isDigit = true)
    (hx : (Numeral.split false (c :: w)).1.number? = none) :
    readAll (c :: w) = ([], some .numeral) := by
  have hnext : next? false c w = .error .numeral := by
    rw [next?, splitSymbol?_eq_none (.inr hc), if_neg (not_quote (.inr hc)), dif_pos hc]
    simp only [hx]
  have hstart := trimStart_cons (t := w) (isBlank_eq_false (.inr hc))
  rw [readAll, readFrom_eq_writtenFrom, writtenFrom_eq hstart, hnext]
  rfl

/-- A name that starts with a digit is an expression only if it is a numeral. -/
theorem Expr.toOption_ofText_of_isDigit (hc : c.isDigit = true)
    (hw : w.all Text.isWordChar = true) :
    (ofText (c :: w)).toOption =
      (Numeral.ofText? (c :: w)).map fun x => .const (.number x) := by
  cases hsplit : Numeral.split false (c :: w) with
  | mk n rest =>
    cases hx : n.number? with
    | none =>
      have hnumber : (Numeral.split false (c :: w)).1.number? = none := by rw [hsplit, hx]
      have hnone : Numeral.ofText? (c :: w) = none := by
        rw [Numeral.ofText?, hsplit]
        cases rest with
        | nil => exact hx
        | cons d rest => rfl
      rw [hnone, ofText, Token.readAll_of_number?_eq_none hc hnumber]
      rfl
    | some x =>
      have hread := Token.readAll_of_isDigit hc hw hsplit hx
      rw [Numeral.ofText?, hsplit]
      cases rest with
      | nil =>
        have hconst := ofTokens_tokens (p := .literal (.number x) (.number x)) rfl trivial
        have hnumber : ofText (c :: w) = .ok (.const (.number x)) := by
          rw [ofText, hread]
          exact hconst.trans (if_pos Nat.one_le_ofNat)
        dsimp only
        rw [hnumber, hx]
        rfl
      | cons d rest =>
        cases hof : ofText (c :: w) with
        | error e => rfl
        | ok e =>
          -- No phrase has a number and a name for its tokens.
          obtain ⟨p, -, hspelled, htokens⟩ := exists_phrase_of_ofText hof
          have heq : p.tokens = [.number x, .name (d :: rest)] :=
            congrArg Prod.fst (htokens.symm.trans hread)
          have hlength := Phrase.length_tokens_of_number hspelled (x := x) (by rw [heq]; rfl)
          rw [heq] at hlength
          simp at hlength

end Digit

/-! ## What the tag of a name shows -/

/-- No word of the language holds a digit. -/
theorem Text.isFree_of_isDigit {t : Text} {c : Char} (hc : c ∈ t) (hdigit : c.isDigit = true) :
    t.IsFree := by
  have hwords : (Token.reservedWords.all fun word =>
      (Text.lower word.toList).all fun d => !d.isDigit) = true := by decide
  have hlower : c.toLower = c := by
    refine dif_neg fun hupper => ?_
    have hlow : 65 ≤ c.toNat := UInt32.le_iff_toNat_le.1 hupper.1
    rw [isDigit_iff] at hdigit
    omega
  intro word hword
  rw [Token.isWord, ← Bool.not_eq_true]
  intro hsame
  have hmem : c ∈ Text.lower word.toList := by
    rw [← eq_of_beq hsame, ← hlower]
    exact List.mem_map_of_mem hc
  have hnot := List.all_eq_true.1 (List.all_eq_true.1 hwords word hword) c hmem
  rw [hdigit] at hnot
  cases hnot

section Names

variable {name : Text} (hname : ∀ c ∈ name, Text.isWordChar c = true)

/-- Among word characters, digits are what an expression is known by. -/
theorem Switches.marksExpression_of_isWordChar {c : Char} (h : Text.isWordChar c = true) :
    marksExpression c = c.isDigit := by
  have hsigns : ("*-+()[]=/".toList.all fun d => !Text.isWordChar d) = true := by decide
  have hnot : "*-+()[]=/".toList.contains c = false := by
    rw [← Bool.not_eq_true, List.contains_iff_mem]
    intro hmem
    have hc := List.all_eq_true.1 hsigns c hmem
    rw [h] at hc
    cases hc
  rw [marksExpression, hnot, Bool.false_or]

include hname

theorem any_marksExpression_of_isWordChar :
    name.any Switches.marksExpression = name.any Char.isDigit := by
  rw [Bool.eq_iff_iff, List.any_eq_true, List.any_eq_true]
  refine exists_congr fun c => and_congr_right fun hc => ?_
  rw [Switches.marksExpression_of_isWordChar (hname c hc)]

theorem isIdentifier_of_not_startsDigit (hdigit : name.startsDigit = false) (hne : name ≠ []) :
    name.isIdentifier = true := by
  obtain ⟨c, w, rfl⟩ := List.exists_cons_of_ne_nil hne
  have hw : w.all Text.isWordChar = true :=
    List.all_eq_true.2 fun d hd => hname d (.tail _ hd)
  rw [Text.isIdentifier, hw, Bool.and_true]
  exact Token.startsName_of_isWordChar (hname c List.mem_cons_self) hdigit

variable [Json.Library]

/-- The tag of a name is an expression if the name holds a digit, and a lookup otherwise. -/
theorem evaluate_name (s : Scope) :
    evaluate s name (.ofValueTag name) =
      if name.any Char.isDigit = true then evaluateExpr s name else s.load name := by
  have htrim : Text.trim name = name :=
    Text.trim_eq_self fun c hc => Text.isBlank_of_isWordChar (hname c hc)
  rw [evaluate, htrim, Switches.ofValueTag, any_marksExpression_of_isWordChar hname]
  rfl

/-- A name that starts with a digit shows the number that it is a numeral for, or nothing, whatever
it is bound to. -/
theorem result_evaluate_of_startsDigit (hdigit : name.startsDigit = true) (s : Scope) :
    (evaluate s name (.ofValueTag name)).result = (Numeral.ofText? name).map Value.number := by
  cases name with
  | nil => cases hdigit
  | cons c w =>
    have hc : c.isDigit = true := hdigit
    have hw : w.all Text.isWordChar = true :=
      List.all_eq_true.2 fun d hd => hname d (.tail _ hd)
    have hread := Expr.toOption_ofText_of_isDigit hc hw
    rw [evaluate_name hname, List.any_cons, hc, Bool.true_or, if_pos rfl, evaluateExpr]
    cases hof : Expr.ofText (c :: w) with
    | error e =>
      rw [hof] at hread
      rw [Option.map_eq_none_iff.1 hread.symm]
      rfl
    | ok e =>
      rw [hof] at hread
      obtain ⟨x, hx, rfl⟩ := Option.map_eq_some_iff.1 hread.symm
      rw [hx]
      rfl

/-- A name that starts with no digit is looked up as it is written. -/
theorem evaluate_of_not_startsDigit (hdigit : name.startsDigit = false) (s : Scope) :
    evaluate s name (.ofValueTag name) = s.load name := by
  cases hany : name.any Char.isDigit with
  | false => rw [evaluate_name hname, hany, if_neg Bool.false_ne_true]
  | true =>
    obtain ⟨c, hc, hcdigit⟩ := List.any_eq_true.1 hany
    have hidentifier := isIdentifier_of_not_startsDigit hname hdigit (List.ne_nil_of_mem hc)
    -- The name is a key path of one piece, and read as it is written.
    let path : KeyPath := ⟨⟨name, hidentifier, Text.isFree_of_isDigit hc hcdigit⟩, []⟩
    have htext : path.text = name := List.append_nil name
    have hread : path.read? = some name := congrArg some htext
    have hload := KeyPath.evaluate_of_read? hread s false
    rwa [htext, ← hany, ← any_marksExpression_of_isWordChar hname] at hload

/-- A name that was bound, and starts with no digit, shows what it was bound to. -/
theorem evaluate_of_store (hdigit : name.startsDigit = false) {s s' : Scope} {v : Value}
    (h : s.store name v = (.ok (), s')) : evaluate s' name (.ofValueTag name) = pure (some v) := by
  have hlookup : Scope.lookup? name s'.frames = some v := by
    rw [Scope.lookup?_of_store h, if_pos rfl]
  rw [evaluate_of_not_startsDigit hname hdigit]
  exact Scope.load_of_lookup? (Text.splitDot_of_isWordChar hname) hlookup

end Names

namespace Statement

/-- **Names that are read again.**  Whatever body binds a name, the name alone is the body of a
value tag, unless it is `else` or `end` in any case of the letters.  If it starts with no digit, the
tag shows in every scope what the name was bound to.  If it starts with a digit, the tag shows the
number that the name is a numeral for, or nothing if it is none, whatever the scope is. -/
theorem value_of_boundName? [Json.Library] {body name : Text}
    (hbound : (ofBody body).boundName? = some name)
    (helse : name.sameWord "else".toList = false) (hend : name.sameWord "end".toList = false) :
    ofBody name = .value name ∧
      (name.startsDigit = false → ∀ {s s' : Scope} {v : Value}, s.store name v = (.ok (), s') →
        evaluate s' name (.ofValueTag name) = pure (some v)) ∧
      (name.startsDigit = true → ∀ s : Scope,
        (evaluate s name (.ofValueTag name)).result = (Numeral.ofText? name).map Value.number) := by
  have hname : ∀ c ∈ name, Text.isWordChar c = true := isWordChar_of_boundName? hbound
  refine ⟨?_, fun hdigit => evaluate_of_store hname hdigit,
    result_evaluate_of_startsDigit hname⟩
  have hbody := ofBody_append_of_formless (List.all_eq_true.2 hname) Text.stopsWord_nil formless_nil
  rwa [List.append_nil, helse, hend, if_neg Bool.false_ne_true, if_neg Bool.false_ne_true] at hbody

end Statement

/-- A scope with one frame, which is empty. -/
def Scope.bare : Scope := (Scope.ofModel .empty).push

namespace Statement

open Json.Strict

/-- The name `item2` of an assignment shows what it was bound to, and the name `1` of a loop shows
the number. -/
theorem value_of_boundName?_item2 :
    (ofBody "var item2 = x".toList).boundName? = some "item2".toList ∧
      (ofBody "foreach(1 in xs)".toList).boundName? = some "1".toList ∧
      (∃ s', Scope.bare.store "item2".toList .null = (.ok (), s') ∧
        evaluate s' "item2".toList (.ofValueTag "item2".toList) = pure (some .null)) ∧
      (evaluate Scope.bare "1".toList (.ofValueTag "1".toList)).result =
        some (.number (.ofNat 1)) := by
  have hitem : (ofBody "var item2 = x".toList).boundName? = some "item2".toList := by decide
  have hone : (ofBody "foreach(1 in xs)".toList).boundName? = some "1".toList := by decide
  refine ⟨hitem, hone, ?_, ?_⟩
  · obtain ⟨s', hstore⟩ := Scope.exists_store (s := Scope.bare) (List.cons_ne_nil _ _)
      "item2".toList .null
    exact ⟨s', hstore, (value_of_boundName? hitem (by decide) (by decide)).2.1 (by decide) hstore⟩
  · have hnumber : Numeral.ofText? "1".toList = some (.ofNat 1) := by decide +kernel
    have hvalue := (value_of_boundName? hone (by decide) (by decide)).2.2 (by decide) Scope.bare
    rwa [hnumber] at hvalue

/-- **A name that is lost**: `2nd` can be bound, and its tag shows nothing then. -/
theorem result_evaluate_2nd :
    (ofBody "var 2nd = x".toList).boundName? = some "2nd".toList ∧
      Text.sameWord "2nd".toList "else".toList = false ∧
      Text.sameWord "2nd".toList "end".toList = false ∧
      ∃ s', Scope.bare.store "2nd".toList .null = (.ok (), s') ∧
        (evaluate s' "2nd".toList (.ofValueTag "2nd".toList)).result = none := by
  have hnumber : Numeral.ofText? "2nd".toList = none := by decide +kernel
  have hname : ∀ c ∈ "2nd".toList, Text.isWordChar c = true := List.all_eq_true.1 (by decide)
  obtain ⟨s', hstore⟩ := Scope.exists_store (s := Scope.bare) (List.cons_ne_nil _ _)
    "2nd".toList .null
  have hvalue := result_evaluate_of_startsDigit hname (by decide) s'
  rw [hnumber] at hvalue
  exact ⟨by decide, by decide, by decide, s', hstore, hvalue⟩

end Statement

end Stencil
