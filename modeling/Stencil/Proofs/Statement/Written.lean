import Stencil.Proofs.Text.Trim
import Stencil.Statement.Classify

/-!
# Statements are read as they were written

The body of a tag is tried against one form after another, and the forms overlap: an assignment is
looked for in every body, the words of the language are names like any others, and what stands in
parentheses or behind the sign of an assignment is any text at all.  `Written` is a statement
together with one way of writing it, and it is read back as that statement.

Two facts keep the forms apart.  A word of the language is read to the end of the word that stands
there and no further (`afterWord?_append`), so a form whose word is another one does not fit; and
behind the name that an assignment starts with there is its sign, while behind the word of every
other form there is a parenthesis or another word.

## Main Definitions

* `Written` — a statement as it is written
* `Written.text`, `Written.statement` — the body of its tag, and the statement
-/

namespace Stencil

namespace Statement

/-! ## Words of the language -/

theorem afterWord?_append {word : Text} (hword : word.all Text.isWordChar = true) {t rest : Text}
    (hrest : Text.StopsWord rest) :
    afterWord? word (t ++ rest) = (afterWord? word t).map (· ++ rest) := by
  induction word generalizing t with
  | nil => rfl
  | cons c word ih =>
    rw [List.all_cons, Bool.and_eq_true] at hword
    cases t with
    | nil =>
      cases rest with
      | nil => rfl
      | cons d rest =>
        -- A letter of the word is a word character, and stays one in any case.
        have hne : c.toLower ≠ d.toLower := by
          intro heq
          have hd : Text.isWordChar d = true := by
            rw [← Text.isWordChar_toLower, ← heq, Text.isWordChar_toLower, hword.1]
          rw [hrest d rfl] at hd
          cases hd
        rw [List.nil_append]
        exact if_neg hne
    | cons d t =>
      rw [List.cons_append, afterWord?, afterWord?]
      split
      · exact ih hword.2
      · rfl

/-- The case of the letters makes no difference to whether a text starts with a word. -/
theorem afterWord?_eq_none {word other t : Text} (h : Text.sameWord t other = true)
    (hnone : afterWord? word other = none) : afterWord? word t = none := by
  induction word generalizing other t with
  | nil => cases hnone
  | cons c word ih =>
    cases t with
    | nil => rfl
    | cons d t =>
      cases other with
      | nil => cases h
      | cons e other =>
        obtain ⟨hhead, htail⟩ := List.cons.inj (eq_of_beq h)
        rw [afterWord?] at hnone ⊢
        rw [hhead]
        split at hnone
        · next heq =>
          rw [if_pos heq]
          exact ih (beq_iff_eq.2 htail) hnone
        · next hne => rw [if_neg hne]

/-- A word in any case of its letters is the whole of what stands there. -/
theorem afterWord?_of_sameWord {word t : Text} (h : Text.sameWord t word = true) :
    afterWord? word t = some [] := by
  induction word generalizing t with
  | nil =>
    cases t with
    | nil => rfl
    | cons d t => cases h
  | cons c word ih =>
    cases t with
    | nil => cases h
    | cons d t =>
      obtain ⟨hhead, htail⟩ := List.cons.inj (eq_of_beq h)
      rw [afterWord?, if_pos hhead.symm]
      exact ih (beq_iff_eq.2 htail)

theorem isSuffix_of_afterWord? {word t rest : Text} (h : afterWord? word t = some rest) :
    rest <:+ t := by
  induction word generalizing t with
  | nil =>
    obtain rfl := Option.some.inj h
    exact List.suffix_refl _
  | cons c word ih =>
    cases t with
    | nil => cases h
    | cons d t =>
      rw [afterWord?] at h
      split at h
      · exact (ih h).trans (List.suffix_cons d t)
      · cases h

/-- The letters of a word are word characters in any case. -/
theorem all_isWordChar_of_sameWord {word t : Text} (hword : word.all Text.isWordChar = true)
    (h : Text.sameWord t word = true) : t.all Text.isWordChar = true := by
  have hlower : ∀ u : Text, u.all Text.isWordChar = (Text.lower u).all Text.isWordChar := by
    intro u
    rw [Text.lower, List.all_map]
    exact congrArg u.all (funext fun c => (Text.isWordChar_toLower c).symm)
  rw [hlower, eq_of_beq h, ← hlower, hword]

end Statement

/-! ## Ways of writing -/

/-- White space, or nothing. -/
abbrev Space := { w : Text // w.allBlank = true }

/-- White space, and not nothing. -/
abbrev Gap := { w : Text // w.allBlank = true ∧ w ≠ [] }

/-- A word of the language, in any case of its letters. -/
abbrev Spelling (word : String) := { t : Text // t.sameWord word.toList = true }

/-- A name: Latin letters, digits and underscores. -/
abbrev Name := { t : Text // t.all Text.isWordChar = true ∧ t ≠ [] }

/-- A text without white space at its ends. -/
abbrev Trimmed := { t : Text // t.trim = t }

/-- A name and an expression with the sign of an assignment between them. -/
structure Assignment where
  name : Name
  beforeSign : Space
  afterSign : Space
  expr : Trimmed
  expr_ne_nil : expr.1 ≠ []
  /-- The sign is not the start of a comparison. -/
  no_comparison : afterSign.1 = [] → ∀ c ∈ expr.1.head?, c ≠ '=' ∧ c ≠ '>' ∧ c ≠ '<'

/-- A word with a text in parentheses behind it. -/
structure Call (word : String) where
  keyword : Spelling word
  beforeParen : Space
  afterParen : Space
  argument : Trimmed
  beforeClose : Space

/-- The header of a loop. -/
structure Loop where
  keyword : Spelling "foreach"
  beforeParen : Space
  afterParen : Space
  item : Name
  gap : Gap
  inWord : Spelling "in"
  beforeSource : Space
  source : Trimmed
  beforeClose : Space
  /-- The source does not make the word before it longer. -/
  separate : beforeSource.1 = [] → Text.StopsWord source.1

/-- A statement as it is written. -/
inductive Written
  /-- `var name = expr` -/
  | declaration (keyword : Spelling "var") (gap : Gap) (body : Assignment)
  /-- `name = expr` -/
  | assignment (body : Assignment)
  /-- `if(predicate)` -/
  | ifTrue (call : Call "if")
  /-- `else if(predicate)` -/
  | elseIf (keyword : Spelling "else") (gap : Gap) (call : Call "if")
  /-- `foreach(name in source)` -/
  | forEach (loop : Loop)
  /-- `debug(expr)` -/
  | debug (call : Call "debug")

/-- What stands in the body of the tag, the word `var` apart. -/
def Assignment.text (a : Assignment) : Text :=
  a.name ++ (a.beforeSign ++ '=' :: (a.afterSign ++ a.expr))

/-- What stands behind the opening parenthesis. -/
def Call.afterOpen {word : String} (c : Call word) : Text :=
  c.afterParen ++ (c.argument ++ c.beforeClose) ++ [')']

def Call.text {word : String} (c : Call word) : Text :=
  c.keyword ++ (c.beforeParen ++ '(' :: c.afterOpen)

/-- The name of the items and the word behind it. -/
def Loop.itemIn (l : Loop) : Text := l.item ++ (l.gap ++ l.inWord)

/-- What stands behind the opening parenthesis. -/
def Loop.afterOpen (l : Loop) : Text :=
  l.afterParen ++ (l.itemIn ++ (l.beforeSource ++ l.source) ++ l.beforeClose) ++ [')']

def Loop.text (l : Loop) : Text := l.keyword ++ (l.beforeParen ++ '(' :: l.afterOpen)

namespace Written

/-- The body of the tag. -/
def text : Written → Text
  | declaration keyword gap a => keyword ++ (gap ++ a.text)
  | assignment a => a.text
  | ifTrue call => call.text
  | elseIf keyword gap call => keyword ++ (gap ++ call.text)
  | forEach loop => loop.text
  | debug call => call.text

/-- The statement that is written. -/
def statement : Written → Statement
  | declaration _ _ a => .assign a.name a.expr true
  | assignment a => .assign a.name a.expr false
  | ifTrue call => .ifTrue call.argument
  | elseIf _ _ call => .elseIf call.argument
  | forEach loop => .forEach loop.item loop.source
  | debug call => .debug call.argument

end Written

namespace Statement

/-! ## One word after another -/

section Spelled

variable {word : String} (keyword : Spelling word) (hword : word.toList.all Text.isWordChar = true)
include hword

/-- A word of the language is read to its end. -/
theorem afterWord?_spelling {rest : Text} (hrest : Text.StopsWord rest) :
    afterWord? word.toList (keyword ++ rest) = some rest := by
  rw [afterWord?_append hword hrest, afterWord?_of_sameWord keyword.2]
  rfl

theorem all_isWordChar_spelling : keyword.1.all Text.isWordChar = true :=
  all_isWordChar_of_sameWord hword keyword.2

end Spelled

theorem spelling_ne_nil {word : String} (keyword : Spelling word) (hne : word.toList ≠ []) :
    keyword.1 ≠ [] := by
  intro hnil
  have hlower : Text.lower keyword.1 = Text.lower word.toList := eq_of_beq keyword.2
  rw [hnil] at hlower
  exact hne (List.map_eq_nil_iff.1 hlower.symm)

/-- Where one word of the language stands, another one does not. -/
theorem afterWord?_spelling_eq_none {word other : String} (keyword : Spelling other)
    (hword : word.toList.all Text.isWordChar = true)
    (hnone : afterWord? word.toList other.toList = none) {rest : Text}
    (hrest : Text.StopsWord rest) : afterWord? word.toList (keyword ++ rest) = none := by
  rw [afterWord?_append hword hrest, afterWord?_eq_none keyword.2 hnone]
  rfl

theorem splitName?_append {name rest : Text} (hname : name.all Text.isWordChar = true)
    (hne : name ≠ []) (hrest : Text.StopsWord rest) :
    splitName? (name ++ rest) = some (name, rest) := by
  rw [splitName?, Text.splitWord_append hname hrest]
  cases name with
  | nil => exact absurd rfl hne
  | cons c name => rfl

end Statement

/-! ## Assignments -/

namespace Assignment

open Statement

variable (a : Assignment)

/-- What stands behind the sign is not the start of a comparison. -/
theorem head?_afterSign {c : Char} (hc : c = '=' ∨ c = '>' ∨ c = '<') :
    (a.afterSign.1 ++ a.expr.1).head? ≠ some c := by
  intro hhead
  cases hspace : a.afterSign.1 with
  | nil =>
    rw [hspace, List.nil_append] at hhead
    obtain ⟨hequal, hgreater, hless⟩ := a.no_comparison hspace c hhead
    rcases hc with rfl | rfl | rfl
    · exact hequal rfl
    · exact hgreater rfl
    · exact hless rfl
  | cons d w =>
    have hblank : Text.isBlank d = true :=
      List.all_eq_true.1 a.afterSign.2 d (hspace ▸ List.mem_cons_self)
    rw [hspace] at hhead
    obtain rfl : d = c := Option.some.inj hhead
    rcases hc with rfl | rfl | rfl <;> cases hblank

theorem trim_afterSign : Text.trim (a.afterSign ++ a.expr) = a.expr := by
  rw [Text.trim, Text.trimStart_append a.afterSign.2, ← Text.trim, a.expr.2]

/-- **The name and the expression of an assignment** are what is written on the two sides of its
sign. -/
theorem nameAndExpr?_text : nameAndExpr? a.text = some (a.name.1, a.expr.1) := by
  have hrest : Text.StopsWord (a.beforeSign ++ '=' :: (a.afterSign ++ a.expr)) :=
    Text.StopsWord.append a.beforeSign.2 (Text.stopsWord_cons (by decide) _)
  rw [nameAndExpr?, text, splitName?_append a.name.2.1 a.name.2.2 hrest]
  simp only [Text.trimStart_append_cons a.beforeSign.2 (show Text.isBlank '=' = false by decide)]
  rw [if_neg, a.trim_afterSign, if_neg a.expr_ne_nil]
  rintro (h | h | h) <;> exact a.head?_afterSign (by decide) h

/-- An assignment to a name that starts with `var`, or that is this word, is no declaration. -/
theorem declaration?_text : declaration? a.text = none := by
  have hrest : Text.StopsWord (a.beforeSign ++ '=' :: (a.afterSign ++ a.expr)) :=
    Text.StopsWord.append a.beforeSign.2 (Text.stopsWord_cons (by decide) _)
  rw [declaration?, text, afterWord?_append (by decide) hrest]
  cases hname : afterWord? "var".toList a.name with
  | none => rfl
  | some rest =>
    cases rest with
    | nil =>
      -- The name is the word: what follows is no name but the sign.
      simp only [Option.map_some, List.nil_append]
      rw [Text.trimStart_append_cons a.beforeSign.2 (show Text.isBlank '=' = false by decide)]
      exact ite_self none
    | cons c rest =>
      -- The name is longer than the word: what follows is no white space.
      have hc : Text.isWordChar c = true :=
        List.all_eq_true.1 a.name.2.1 c ((isSuffix_of_afterWord? hname).subset List.mem_cons_self)
      simp [Text.startsBlank, Text.isBlank_of_isWordChar hc]

theorem ofBody_assignment : ofBody a.text = .assign a.name a.expr false := by
  rw [ofBody, matchAssignment?, a.declaration?_text, a.nameAndExpr?_text]
  rfl

theorem ofBody_declaration (keyword : Spelling "var") (gap : Gap) :
    ofBody (keyword ++ (gap ++ a.text)) = .assign a.name a.expr true := by
  have hrest : Text.StopsWord (gap ++ a.text) := Text.stopsWord_append gap.2.1 gap.2.2 _
  have htrim : Text.trimStart (gap ++ a.text) = a.text :=
    Text.trimStart_append_word gap.2.1 a.name.2.1 a.name.2.2 _
  have hdeclaration : declaration? (keyword ++ (gap ++ a.text)) = some (a.name.1, a.expr.1) := by
    rw [declaration?, afterWord?_spelling keyword (by decide) hrest]
    simp only [Text.startsBlank_append gap.2.1 gap.2.2, if_true]
    rw [htrim, a.nameAndExpr?_text]
  rw [ofBody, matchAssignment?, hdeclaration]
  rfl

end Assignment

namespace Statement

/-! ## The forms with a word -/

/-- Where a word of the language other than `var` is followed by something else than a sign, there
is no assignment. -/
theorem matchAssignment?_spelling {word : String} (keyword : Spelling word)
    (hword : word.toList.all Text.isWordChar = true) (hne : word.toList ≠ [])
    (hvar : afterWord? "var".toList word.toList = none) {rest : Text}
    (hrest : Text.StopsWord rest) (hsign : (Text.trimStart rest).head? ≠ some '=') :
    matchAssignment? (keyword ++ rest) = none := by
  rw [matchAssignment?, declaration?, afterWord?_spelling_eq_none keyword (by decide) hvar hrest,
    nameAndExpr?, splitName?_append (all_isWordChar_spelling keyword hword)
      (spelling_ne_nil keyword hne) hrest]
  simp only
  split
  · next htrim => exact absurd (by rw [htrim]; rfl) hsign
  · rfl

/-- Behind the word of a form stands an opening parenthesis. -/
theorem stopsWord_open (space : Space) (t : Text) : Text.StopsWord (space ++ '(' :: t) :=
  Text.StopsWord.append space.2 (Text.stopsWord_cons (by decide) t)

theorem trimStart_open (space : Space) (t : Text) :
    Text.trimStart (space ++ '(' :: t) = '(' :: t :=
  Text.trimStart_append_cons space.2 (by decide) t

/-- What is written like a call is no assignment. -/
theorem matchAssignment?_call {word : String} (keyword : Spelling word)
    (hword : word.toList.all Text.isWordChar = true) (hne : word.toList ≠ [])
    (hvar : afterWord? "var".toList word.toList = none) (space : Space) (t : Text) :
    matchAssignment? (keyword ++ (space ++ '(' :: t)) = none := by
  refine matchAssignment?_spelling keyword hword hne hvar (stopsWord_open space t) ?_
  rw [trimStart_open]
  simp

theorem afterCall?_spelling {word : String} (keyword : Spelling word)
    (hword : word.toList.all Text.isWordChar = true) (space : Space) (t : Text) :
    afterCall? word (keyword ++ (space ++ '(' :: t)) = some t := by
  rw [afterCall?, afterWord?_spelling keyword hword (stopsWord_open space t), Option.map_some,
    trimStart_open]
  rfl

section Other

variable {word other : String} (keyword : Spelling other)
  (hword : word.toList.all Text.isWordChar = true)
  (hnone : afterWord? word.toList other.toList = none) {rest : Text} (hrest : Text.StopsWord rest)
include hword hnone hrest

theorem afterCall?_spelling_eq_none : afterCall? word (keyword ++ rest) = none := by
  rw [afterCall?, afterWord?_spelling_eq_none keyword hword hnone hrest]
  rfl

theorem afterWholeWord?_spelling_eq_none : afterWholeWord? word (keyword ++ rest) = none := by
  rw [afterWholeWord?, afterWord?_spelling_eq_none keyword hword hnone hrest]

end Other

/-- What is written like a call, with a word that starts none of the forms before, is a loop or an
inspection if it is one of the forms. -/
theorem ofBody_call {word : String} (keyword : Spelling word)
    (hword : word.toList.all Text.isWordChar = true) (hne : word.toList ≠ [])
    (hnone : ∀ other ∈ ["var", "if", "else", "end"],
      afterWord? other.toList word.toList = none ∧ other.toList.all Text.isWordChar = true)
    (space : Space) (t : Text) :
    ofBody (keyword ++ (space ++ '(' :: t)) =
      ((matchForEach? (keyword ++ (space ++ '(' :: t))).or
        (matchDebug? (keyword ++ (space ++ '(' :: t)))).getD
          (value (keyword ++ (space ++ '(' :: t))) := by
  obtain ⟨hvar, -⟩ := hnone "var" (by simp)
  obtain ⟨hif, hifWord⟩ := hnone "if" (by simp)
  obtain ⟨helse, helseWord⟩ := hnone "else" (by simp)
  obtain ⟨hend, hendWord⟩ := hnone "end" (by simp)
  have hrest := stopsWord_open space t
  rw [ofBody, matchAssignment?_call keyword hword hne hvar, matchIf?, matchElseIf?, matchElse?,
    matchEnd?, afterCall?_spelling_eq_none keyword hifWord hif hrest,
    afterWord?_spelling_eq_none keyword helseWord helse hrest,
    afterWholeWord?_spelling_eq_none keyword helseWord helse hrest,
    afterWholeWord?_spelling_eq_none keyword hendWord hend hrest]
  rfl

/-- What stands before the last parenthesis is taken without the white space around it. -/
theorem arguments_append_paren (t : Text) : arguments (t ++ [')']) = Text.trim t := by
  have htrim : Text.trim (t ++ [')']) = Text.trimStart t ++ [')'] := by
    have hstart : Text.trimStart (t ++ [')']) = Text.trimStart t ++ [')'] := by
      rw [Text.trimStart, List.dropWhile_append, ← Text.trimStart]
      split
      · next hempty =>
        rw [List.isEmpty_iff.1 hempty]
        rfl
      · rfl
    rw [Text.trim, hstart]
    exact Text.trimEnd_append_of_trimEnd_eq (by decide) (List.cons_ne_nil _ _) _
  rw [arguments]
  simp only [htrim, List.getLast?_concat, if_pos, List.dropLast_concat]
  exact Text.trim_trimStart t

end Statement

namespace Call

open Statement

variable {word : String} (c : Call word)

theorem arguments_afterOpen : arguments c.afterOpen = c.argument := by
  rw [afterOpen, arguments_append_paren, Text.trim_between c.afterParen.2 c.beforeClose.2,
    c.argument.2]

theorem ofBody_ifTrue (c : Call "if") : ofBody c.text = .ifTrue c.argument := by
  have hassign : matchAssignment? c.text = none :=
    matchAssignment?_call c.keyword (by decide) (by decide) (by decide) _ _
  have hif : matchIf? c.text = some (.ifTrue c.argument) := by
    rw [matchIf?, text, afterCall?_spelling c.keyword (by decide), Option.map_some,
      c.arguments_afterOpen]
  rw [ofBody, hassign, hif]
  rfl

theorem ofBody_elseIf (c : Call "if") (keyword : Spelling "else") (gap : Gap) :
    ofBody (keyword ++ (gap ++ c.text)) = .elseIf c.argument := by
  have hrest : Text.StopsWord (gap ++ c.text) := Text.stopsWord_append gap.2.1 gap.2.2 _
  have hword := all_isWordChar_spelling c.keyword (by decide)
  have hne := spelling_ne_nil c.keyword (by decide)
  have htrim : Text.trimStart (gap ++ c.text) = c.text :=
    Text.trimStart_append_word gap.2.1 hword hne _
  have hassign : matchAssignment? (keyword ++ (gap ++ c.text)) = none := by
    refine matchAssignment?_spelling keyword (by decide) (by decide) (by decide) hrest ?_
    -- Behind the first word stands a letter of the second one.
    obtain ⟨d, t, ht⟩ := List.exists_cons_of_ne_nil hne
    rw [htrim, text, ht]
    rintro ⟨⟩
    rw [ht] at hword
    cases hword
  have hif : matchIf? (keyword ++ (gap ++ c.text)) = none := by
    rw [matchIf?, afterCall?_spelling_eq_none keyword (by decide) (by decide) hrest]
    rfl
  have helse : matchElseIf? (keyword ++ (gap ++ c.text)) = some (.elseIf c.argument) := by
    rw [matchElseIf?, afterWord?_spelling keyword (by decide) hrest]
    simp only [Text.startsBlank_append gap.2.1 gap.2.2, if_true]
    rw [htrim, text, afterCall?_spelling c.keyword (by decide), Option.map_some,
      c.arguments_afterOpen]
  rw [ofBody, hassign, hif, helse]
  rfl

theorem ofBody_debug (c : Call "debug") : ofBody c.text = .debug c.argument := by
  have hforEach : matchForEach? c.text = none := by
    rw [matchForEach?, text, afterCall?_spelling_eq_none c.keyword (by decide) (by decide)
      (stopsWord_open _ _)]
    rfl
  have hdebug : matchDebug? c.text = some (.debug c.argument) := by
    rw [matchDebug?, text, afterCall?_spelling c.keyword (by decide), Option.map_some,
      c.arguments_afterOpen]
  rw [text, ofBody_call c.keyword (by decide) (by decide) (by decide), ← text, hforEach, hdebug]
  rfl

end Call

namespace Loop

open Statement

variable (l : Loop)

theorem stopsWord_source : Text.StopsWord (l.beforeSource ++ l.source) := by
  by_cases hspace : l.beforeSource.1 = []
  · rw [hspace]
    exact l.separate hspace
  · exact Text.stopsWord_append l.beforeSource.2 hspace l.source

/-- The header is read up to the end of the source. -/
theorem trim_header : Text.trim (l.itemIn ++ (l.beforeSource ++ l.source)) =
    l.itemIn ++ Text.trimEnd (l.beforeSource ++ l.source) := by
  have hstart : Text.trimStart (l.itemIn ++ (l.beforeSource ++ l.source)) =
      l.itemIn ++ (l.beforeSource ++ l.source) := by
    rw [itemIn, List.append_assoc]
    exact Text.trimStart_append_word (w := []) rfl l.item.2.1 l.item.2.2 _
  have hend : Text.trimEnd l.itemIn = l.itemIn := by
    rw [itemIn, ← List.append_assoc]
    have hword := all_isWordChar_spelling l.inWord (by decide)
    exact Text.trimEnd_append_of_trimEnd_eq (Text.trimEnd_eq_of_word hword)
      (spelling_ne_nil l.inWord (by decide)) _
  rw [Text.trim, hstart, Text.trimEnd_append_right hend]

/-- **The name and the source of a loop** are what is written on the two sides of the word `in`. -/
theorem loopHeader?_afterOpen :
    loopHeader? (arguments l.afterOpen) = some (l.item.1, l.source.1) := by
  have hprefix : Text.trimEnd (l.beforeSource ++ l.source) <+: l.beforeSource ++ l.source :=
    List.rdropWhile_prefix _ _
  have hrest := Text.StopsWord.of_prefix hprefix l.stopsWord_source
  have hsource : Text.trim (Text.trimEnd (l.beforeSource ++ l.source)) = l.source := by
    rw [Text.trim_trimEnd, Text.trim, Text.trimStart_append l.beforeSource.2, ← Text.trim,
      l.source.2]
  rw [afterOpen, arguments_append_paren, Text.trim_between l.afterParen.2 l.beforeClose.2,
    trim_header]
  generalize Text.trimEnd (l.beforeSource ++ l.source) = rest at hrest hsource
  have hname : splitName? (l.itemIn ++ rest) = some (l.item.1, l.gap ++ (l.inWord.1 ++ rest)) := by
    rw [itemIn, List.append_assoc, List.append_assoc]
    exact splitName?_append l.item.2.1 l.item.2.2 (Text.stopsWord_append l.gap.2.1 l.gap.2.2 _)
  have hin : afterWholeWord? "in" (Text.trimStart (l.gap ++ (l.inWord.1 ++ rest))) = some rest := by
    rw [Text.trimStart_append_word l.gap.2.1 (all_isWordChar_spelling l.inWord (by decide))
      (spelling_ne_nil l.inWord (by decide)), afterWholeWord?,
      afterWord?_spelling l.inWord (by decide) hrest]
    cases rest with
    | nil => rfl
    | cons c t => simp [hrest c rfl]
  rw [loopHeader?, hname]
  simp only [hin, Option.map_some, hsource]

theorem ofBody_forEach : ofBody l.text = .forEach l.item l.source := by
  have hforEach : matchForEach? l.text = some (.forEach l.item l.source) := by
    rw [matchForEach?, text, afterCall?_spelling l.keyword (by decide), Option.map_some,
      l.loopHeader?_afterOpen]
    rfl
  rw [text, ofBody_call l.keyword (by decide) (by decide) (by decide), ← text, hforEach]
  rfl

end Loop

namespace Written

/-- **Statements are read as they were written**, whatever stands in parentheses or behind the sign
of an assignment, and whatever name an assignment gives a value. -/
theorem ofBody_text (w : Written) : Statement.ofBody w.text = w.statement := by
  cases w with
  | declaration keyword gap a => exact a.ofBody_declaration keyword gap
  | assignment a => exact a.ofBody_assignment
  | ifTrue call => exact call.ofBody_ifTrue
  | elseIf keyword gap call => exact call.ofBody_elseIf keyword gap
  | forEach loop => exact loop.ofBody_forEach
  | debug call => exact call.ofBody_debug

/-- A word of the language is a name where an assignment has one, and what stands in parentheses
may look like another statement. -/
example : Statement.ofBody "var = (a) = b".toList = .assign "var".toList "(a) = b".toList false ∧
    Statement.ofBody "Else\tIF ( else if(x = ')') )".toList =
      .elseIf "else if(x = ')')".toList := by decide

end Written

end Stencil
