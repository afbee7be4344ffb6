import Stencil.Proofs.Expr.KeyPath
import Stencil.Proofs.Statement.Written

/-!
# Names in the bodies of tags

A statement that binds a name takes it from the body of its tag, and so does a tag that reads the
name again: then the name is the whole body, or it has a path behind it.  Such a body is tried
against all forms of statements before it is a value.  What keeps it from being one of them is what
stands behind the name: where neither white space nor the sign of an assignment nor a parenthesis
comes next, no form goes on (`Formless`).

The words `else` and `end` are the exception, since their forms end with the word and ask nothing of
what is behind it but that it makes the word no longer.  So a tag whose body is one of them is no
value, and neither is one in which a path stands behind it (`ofBody_append_of_formless`).

## Main Definitions

* `Statement.boundName?` — the name that a statement binds
* `Statement.Formless` — a text that no form of statements goes on with
* `DottedPath` — an identifier with pieces of a path behind it
-/

namespace Stencil

/-- A text without a dot is its own first piece. -/
theorem Text.splitDot_of_isWordChar {t : Text} (h : ∀ c ∈ t, isWordChar c) :
    splitDot t = (t, none) := by
  refine splitDot_of_not_mem fun hmem => ?_
  exact absurd (h '.' hmem) (by decide)

namespace Statement

/-! ## The names that statements bind -/

/-- A form of statements of another kind is passed over. -/
theorem getD_of_or {o p : Option Statement} {d st : Statement} {k : NodeKind}
    (h : (o.or p).getD d = st) (ho : ∀ {st'}, o = some st' → st'.kind = k) (hst : st.kind ≠ k) :
    p.getD d = st := by
  cases o with
  | none => exact h
  | some st' =>
    obtain rfl : st' = st := h
    exact absurd (ho rfl) hst

/-- A form gives statements of the kind that it makes. -/
theorem kind_of_map {α : Type} {o : Option α} {make : α → Statement} {k : NodeKind}
    {st : Statement} (h : o.map make = some st) (hmake : ∀ x, (make x).kind = k) : st.kind = k := by
  obtain ⟨x, -, rfl⟩ := Option.map_eq_some_iff.1 h
  exact hmake x

theorem kind_of_matchAssignment? {t : Text} {st : Statement} (h : matchAssignment? t = some st) :
    st.kind = .assignment := by
  unfold matchAssignment? at h
  split at h
  · obtain rfl := Option.some.inj h
    rfl
  · exact kind_of_map h fun _ => rfl

theorem kind_of_matchElseIf? {t : Text} {st : Statement} (h : matchElseIf? t = some st) :
    st.kind = .elseIf := by
  unfold matchElseIf? at h
  split at h
  · split at h
    · exact kind_of_map h fun _ => rfl
    · cases h
  · cases h

/-- Loops come from the form of loops only. -/
theorem matchForEach?_of_ofBody {t item source : Text} (h : ofBody t = forEach item source) :
    matchForEach? t = some (forEach item source) := by
  unfold ofBody at h
  have h := getD_of_or h kind_of_matchAssignment? nofun
  have h := getD_of_or h (fun h => kind_of_map h fun _ => rfl) nofun
  have h := getD_of_or h kind_of_matchElseIf? nofun
  have h := getD_of_or h (fun h => kind_of_map h fun _ => rfl) nofun
  have h := getD_of_or h (fun h => kind_of_map h fun _ => rfl) nofun
  cases hloop : matchForEach? t with
  | some st =>
    rw [hloop] at h
    exact congrArg some h
  | none =>
    rw [hloop, Option.none_or, ← Option.or_none (o := matchDebug? t)] at h
    have h := getD_of_or h (fun h => kind_of_map h fun _ => rfl) nofun
    cases h

theorem isWordChar_of_splitName? {t name rest : Text} (h : splitName? t = some (name, rest)) :
    ∀ c ∈ name, Text.isWordChar c := by
  unfold splitName? at h
  split at h
  · cases h
  · next name' rest' _ hsplit =>
    obtain ⟨rfl, rfl⟩ := Prod.mk.inj (Option.some.inj h)
    have hname : t.takeWhile Text.isWordChar = name' := congrArg Prod.fst hsplit
    intro c hc
    rw [← hname] at hc
    exact List.mem_takeWhile_imp hc

theorem isWordChar_of_loopHeader? {t item source : Text} (h : loopHeader? t = some (item, source)) :
    ∀ c ∈ item, Text.isWordChar c := by
  unfold loopHeader? at h
  split at h
  · cases h
  · next name rest hname =>
    obtain ⟨_, -, heq⟩ := Option.map_eq_some_iff.1 h
    obtain ⟨rfl, -⟩ := Prod.mk.inj heq
    exact isWordChar_of_splitName? hname

/-- The name of the items of a loop consists of word characters, and is empty in a malformed
loop. -/
theorem isWordChar_of_ofBody {t item source : Text} (h : ofBody t = forEach item source) :
    ∀ c ∈ item, Text.isWordChar c := by
  obtain ⟨rest, -, hrest⟩ := Option.map_eq_some_iff.1 (matchForEach?_of_ofBody h)
  cases hheader : loopHeader? (arguments rest) with
  | none =>
    rw [hheader] at hrest
    obtain ⟨rfl, -⟩ := forEach.inj hrest
    intro c hc
    cases hc
  | some header =>
    rw [hheader] at hrest
    obtain ⟨rfl, -⟩ := forEach.inj hrest
    exact isWordChar_of_loopHeader? hheader

/-- Assignments come from the form of assignments only. -/
theorem matchAssignment?_of_ofBody {t name expr : Text} {declared : Bool}
    (h : ofBody t = assign name expr declared) :
    matchAssignment? t = some (assign name expr declared) := by
  unfold ofBody at h
  cases hassign : matchAssignment? t with
  | some st =>
    rw [hassign] at h
    exact congrArg some h
  | none =>
    rw [hassign, Option.none_or, ← Option.or_none (o := matchDebug? t)] at h
    have h := getD_of_or h (fun h => kind_of_map h fun _ => rfl) nofun
    have h := getD_of_or h kind_of_matchElseIf? nofun
    have h := getD_of_or h (fun h => kind_of_map h fun _ => rfl) nofun
    have h := getD_of_or h (fun h => kind_of_map h fun _ => rfl) nofun
    have h := getD_of_or h (fun h => kind_of_map h fun _ => rfl) nofun
    have h := getD_of_or h (fun h => kind_of_map h fun _ => rfl) nofun
    cases h

theorem isWordChar_of_nameAndExpr? {t name expr : Text} (h : nameAndExpr? t = some (name, expr)) :
    ∀ c ∈ name, Text.isWordChar c := by
  unfold nameAndExpr? at h
  split at h
  · cases h
  · next name' rest hname =>
    split at h
    · split at h
      · cases h
      · split at h
        · cases h
        · obtain ⟨rfl, -⟩ := Prod.mk.inj (Option.some.inj h)
          exact isWordChar_of_splitName? hname
    · cases h

/-- The name that an assignment binds consists of word characters. -/
theorem isWordChar_of_matchAssignment? {t name expr : Text} {declared : Bool}
    (h : matchAssignment? t = some (assign name expr declared)) :
    ∀ c ∈ name, Text.isWordChar c := by
  unfold matchAssignment? at h
  split at h
  · next name' expr' hdeclaration =>
    obtain ⟨rfl, -, -⟩ := assign.inj (Option.some.inj h)
    unfold declaration? at hdeclaration
    split at hdeclaration
    · split at hdeclaration
      · exact isWordChar_of_nameAndExpr? hdeclaration
      · cases hdeclaration
    · cases hdeclaration
  · obtain ⟨⟨name', expr'⟩, hname, heq⟩ := Option.map_eq_some_iff.1 h
    obtain ⟨rfl, -, -⟩ := assign.inj heq
    exact isWordChar_of_nameAndExpr? hname

/-- The name that a statement gives a value, or that a loop gives one item after another. -/
def boundName? : Statement → Option Text
  | assign name _ _ => some name
  | forEach item _ => some item
  | _ => none

/-- Whatever body a tag has, the name that it binds consists of word characters. -/
theorem isWordChar_of_boundName? {t name : Text} (h : (ofBody t).boundName? = some name) :
    ∀ c ∈ name, Text.isWordChar c := by
  cases hbody : ofBody t with
  | assign bound expr declared =>
    rw [hbody] at h
    obtain rfl : bound = name := Option.some.inj h
    exact isWordChar_of_matchAssignment? (matchAssignment?_of_ofBody hbody)
  | forEach item source =>
    rw [hbody] at h
    obtain rfl : item = name := Option.some.inj h
    exact isWordChar_of_ofBody hbody
  | _ =>
    rw [hbody] at h
    cases h

/-! ## Bodies that start with a name -/

/-- A word that is all that was there is the word that was looked for, in some case. -/
theorem sameWord_of_afterWord? {word t : Text} (h : afterWord? word t = some []) :
    t.sameWord word = true := by
  induction word generalizing t with
  | nil =>
    obtain rfl := Option.some.inj h
    rfl
  | cons c word ih =>
    cases t with
    | nil => cases h
    | cons d t =>
      rw [afterWord?] at h
      split at h
      · next hhead =>
        have htail : Text.lower t = Text.lower word := eq_of_beq (ih h)
        refine beq_iff_eq.2 ?_
        show d.toLower :: Text.lower t = c.toLower :: Text.lower word
        rw [hhead, htail]
      · cases h

/-- A text that no form of statements goes on with: it starts with neither white space nor the sign
of an assignment nor a parenthesis. -/
def Formless (t : Text) : Prop :=
  ∀ c ∈ t.head?, Text.isBlank c = false ∧ c ≠ '=' ∧ c ≠ '('

theorem formless_nil : Formless [] := nofun

theorem formless_cons {c : Char} (hblank : Text.isBlank c = false) (hsign : c ≠ '=')
    (hparen : c ≠ '(') (t : Text) : Formless (c :: t) := by
  rintro _ ⟨⟩
  exact ⟨hblank, hsign, hparen⟩

theorem formless_of_isWordChar {c : Char} (h : Text.isWordChar c = true) (t : Text) :
    Formless (c :: t) := by
  refine formless_cons (Text.isBlank_of_isWordChar h) ?_ ?_ t
  · rintro rfl
    cases h
  · rintro rfl
    cases h

theorem Formless.startsBlank {t : Text} (h : Formless t) : Text.startsBlank t = false := by
  cases t with
  | nil => rfl
  | cons c t => exact (h c rfl).1

theorem Formless.trimStart {t : Text} (h : Formless t) : Text.trimStart t = t := by
  cases t with
  | nil => rfl
  | cons c t => exact List.dropWhile_cons_of_neg (by simp [(h c rfl).1])

section Named

variable {name rest : Text} (hname : name.all Text.isWordChar = true)
  (hstops : Text.StopsWord rest) (hrest : Formless rest)
include hname hstops

/-- A whole word stands in front of a text exactly if the name there is this word. -/
theorem afterWholeWord?_append {word : String} (hword : word.toList.all Text.isWordChar = true) :
    afterWholeWord? word (name ++ rest) =
      if name.sameWord word.toList = true then some rest else none := by
  rw [afterWholeWord?, afterWord?_append hword hstops]
  split_ifs with hsame
  · rw [afterWord?_of_sameWord hsame, Option.map_some, List.nil_append]
    cases rest with
    | nil => rfl
    | cons c rest => simp [hstops c rfl]
  · cases hleft : afterWord? word.toList name with
    | none => rfl
    | some left =>
      cases left with
      | nil => exact absurd (sameWord_of_afterWord? hleft) hsame
      | cons c left =>
        -- The name goes on behind the word.
        have hc : Text.isWordChar c = true :=
          List.all_eq_true.1 hname c ((isSuffix_of_afterWord? hleft).subset List.mem_cons_self)
        simp [hc]

include hrest

/-- Behind a word at the start of a name comes more of the name, or what is behind it. -/
theorem formless_of_afterWord? {word t : Text} (hword : word.all Text.isWordChar = true)
    (h : afterWord? word (name ++ rest) = some t) : Formless t := by
  rw [afterWord?_append hword hstops] at h
  obtain ⟨left, hleft, rfl⟩ := Option.map_eq_some_iff.1 h
  cases left with
  | nil => exact hrest
  | cons c left =>
    refine formless_of_isWordChar ?_ _
    exact List.all_eq_true.1 hname c ((isSuffix_of_afterWord? hleft).subset List.mem_cons_self)

theorem afterCall?_eq_none {word : String} (hword : word.toList.all Text.isWordChar = true) :
    afterCall? word (name ++ rest) = none := by
  rw [afterCall?]
  cases hleft : afterWord? word.toList (name ++ rest) with
  | none => rfl
  | some t =>
    have ht := formless_of_afterWord? hname hstops hrest hword hleft
    rw [Option.map_some, ht.trimStart]
    split
    · next left hparen => exact absurd rfl (ht '(' (by rw [Option.some.inj hparen]; rfl)).2.2
    · rfl

theorem nameAndExpr?_eq_none : nameAndExpr? (name ++ rest) = none := by
  by_cases hne : name = []
  · have hsplit : splitName? (name ++ rest) = none := by
      rw [splitName?, Text.splitWord_append hname hstops, hne]
    rw [nameAndExpr?, hsplit]
  · rw [nameAndExpr?, splitName?_append hname hne hstops]
    dsimp only
    rw [hrest.trimStart]
    split
    · next left => exact absurd rfl (hrest '=' rfl).2.1
    · rfl

theorem matchAssignment?_eq_none : matchAssignment? (name ++ rest) = none := by
  have hdeclaration : declaration? (name ++ rest) = none := by
    rw [declaration?]
    cases hleft : afterWord? "var".toList (name ++ rest) with
    | none => rfl
    | some t =>
      have ht := formless_of_afterWord? hname hstops hrest (by decide) hleft
      dsimp only
      rw [ht.startsBlank, if_neg Bool.false_ne_true]
  rw [matchAssignment?, hdeclaration, nameAndExpr?_eq_none hname hstops hrest]
  rfl

theorem matchElseIf?_eq_none : matchElseIf? (name ++ rest) = none := by
  rw [matchElseIf?]
  cases hleft : afterWord? "else".toList (name ++ rest) with
  | none => rfl
  | some t =>
    have ht := formless_of_afterWord? hname hstops hrest (by decide) hleft
    dsimp only
    rw [ht.startsBlank, if_neg Bool.false_ne_true]

/-- **A name and what belongs to no form is a value**, unless the name is `else` or `end`. -/
theorem ofBody_append_of_formless :
    ofBody (name ++ rest) =
      if name.sameWord "else".toList = true then .otherwise
      else if name.sameWord "end".toList = true then .close
      else .value (name ++ rest) := by
  rw [ofBody, matchAssignment?_eq_none hname hstops hrest, matchIf?,
    afterCall?_eq_none hname hstops hrest (by decide), matchElseIf?_eq_none hname hstops hrest,
    matchElse?, afterWholeWord?_append hname hstops (by decide), matchEnd?,
    afterWholeWord?_append hname hstops (by decide), matchForEach?,
    afterCall?_eq_none hname hstops hrest (by decide), matchDebug?,
    afterCall?_eq_none hname hstops hrest (by decide)]
  split_ifs <;> rfl

end Named

end Statement

/-! ## Paths -/

/-- A path of two pieces or more: an identifier, and behind it identifiers and numerals. -/
structure DottedPath where
  head : { t : Text // t.isIdentifier = true }
  next : KeyPath.Piece
  more : List KeyPath.Piece

namespace DottedPath

/-- The pieces behind the first one, as they are written. -/
def tail (p : DottedPath) : Text := KeyPath.tailText ((p.next :: p.more).map Subtype.val)

/-- A path as it is written. -/
def text (p : DottedPath) : Text := p.head ++ p.tail

theorem formless_tail (p : DottedPath) : Statement.Formless p.tail :=
  Statement.formless_cons (by decide) (by decide) (by decide) _

/-- **A path in the body of a tag is a value**, unless its first piece is `else` or `end` in any
case of the letters: then the tag is read as if the word stood there alone. -/
theorem ofBody_dottedPath (p : DottedPath) :
    Statement.ofBody p.text =
      if p.head.1.sameWord "else".toList = true then .otherwise
      else if p.head.1.sameWord "end".toList = true then .close
      else .value p.text := by
  obtain ⟨c, w, hhead, hc, hw⟩ := Text.exists_of_isIdentifier p.head.2
  by_cases hword : Text.isWordChar c = true
  · refine Statement.ofBody_append_of_formless ?_ (KeyPath.stopsWord_tailText _) p.formless_tail
    rw [hhead, List.all_cons, hword, hw]
    rfl
  · -- The one other character that starts an identifier starts no word of the language.
    obtain rfl : c = '@' := by
      rw [Text.isWordChar_iff] at hword
      rw [Token.startsName_iff] at hc
      exact Char.toNat_inj.1 (show c.toNat = 64 by omega)
    rw [text, hhead]
    rfl

/-- The path `end.date`. -/
def endDate : DottedPath := ⟨⟨"end".toList, by decide⟩, ⟨"date".toList, by decide⟩, []⟩

/-- **A path can close a branch**: the tag that should show the field `date` of the key `end` is
taken for the end of a branch. -/
theorem ofBody_endDate :
    endDate.text = "end.date".toList ∧ Statement.ofBody endDate.text = .close := by decide

end DottedPath

end Stencil
