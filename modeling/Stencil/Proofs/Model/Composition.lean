import Stencil.Proofs.Evaluation.Absence
import Stencil.Proofs.Expr.KeyPath
import Stencil.Proofs.Expr.Lexemes
import Stencil.Proofs.Model.Json
import Stencil.Proofs.Scope.Frames

/-!
# Lookups one after another

Four walks follow a key path: over a value, over JSON data, over values by name, and from the names
of a scope into its model.  Each peels the pieces off from the left in its own way.  All of them
compose: what a path leads to behind a dot is what its second part leads to from the value of the
first (`Value.walk?_append_dot`, `Model.Shipped.composes`, `Scope.result_load_append_dot`).

So it makes no difference where a path is cut.  A name that is bound to the value of a path stands
for the path in front of further pieces, and the parts of a value by their names are the pieces of
its path (`Scope.result_eval_attrs`).

## Main Definitions

* `Model.Composes` — a model whose lookups compose
* `Model.Shipped` — the models of this library
* `Expr.attrs` — the part of a value that names lead to one after the other
-/

namespace Stencil

/-! ## Values -/

namespace Value

/-- The pieces behind a dot lead on from where those before it have led. -/
theorem walk?_append_dot (v : Value) (p q : Text) :
    v.walk? (p ++ '.' :: q) = (v.walk? p).bind fun part => part.walk? q := by
  rw [walk?, Text.segments_append_dot]
  exact List.foldlM_append

/-- No key path leads on from null. -/
theorem walk?_null (path : Text) : null.walk? path = none := by
  obtain ⟨piece, pieces, hpieces⟩ := List.exists_cons_of_ne_nil (Text.segments_ne_nil path)
  have hattr : null.attr? piece = none := ite_self none
  rw [walk?, hpieces, follow?, List.foldlM_cons, hattr]
  rfl

/-- A name is a path of one piece. -/
theorem walk?_of_not_mem {name : Text} (h : '.' ∉ name) (v : Value) :
    v.walk? name = v.attr? name := by
  rw [walk?, Text.segments_of_not_mem h, follow?, List.foldlM_cons]
  exact Option.bind_fun_some (v.attr? name)

end Value

/-! ## Models -/

namespace Model

/-- A model whose lookups compose. -/
def Composes (m : Model) : Prop :=
  ∀ p q, m.resolve (p ++ '.' :: q) = (m.resolve p).bind fun v => v.walk? q

/-- The models of this library.  A model that may be missing is one of them or the empty one. -/
inductive Shipped [Json.Library] : Model → Prop
  | empty : Shipped empty
  | ofValue (v : Value) : Shipped (ofValue v)
  | ofJson (j : Json) : Shipped (ofJson j)
  | ofBindings (bindings : List (Text × Value)) : Shipped (ofBindings bindings)

theorem composes_ofValue (v : Value) : (ofValue v).Composes := fun p q => v.walk?_append_dot p q

/-- The first piece is a name, and the walk from its value composes. -/
theorem composes_ofBindings (bindings : List (Text × Value)) : (ofBindings bindings).Composes := by
  intro p q
  rw [ofBindings]
  dsimp only
  rw [Text.splitDot_append_dot]
  rcases Text.splitDot p with ⟨name, _ | rest⟩
  · rfl
  · show ((bindings.lookup name).bind fun v => v.walk? (rest ++ '.' :: q)) =
      ((bindings.lookup name).bind fun v => v.walk? rest).bind fun v => v.walk? q
    rw [Option.bind_assoc]
    exact Option.bind_congr fun v _ => v.walk?_append_dot rest q

theorem Shipped.composes [Json.Library] {m : Model} (h : m.Shipped) : m.Composes := by
  cases h with
  | empty => exact fun _ _ => rfl
  | ofValue v => exact composes_ofValue v
  | ofJson j =>
    rw [Json.ofJson_eq_ofValue]
    exact composes_ofValue j.toValue
  | ofBindings bindings => exact composes_ofBindings bindings

end Model

/-! ## Scopes -/

namespace Scope

variable {s s' : Scope} {name : Text} {v : Value}

/-- The value behind a name that some frame binds. -/
theorem load_append_dot_of_lookup? (hname : '.' ∉ name) (hv : lookup? name s.frames = some v)
    (q : Text) : s.load (name ++ '.' :: q) = pure (v.walk? q) := by
  rw [load, Text.splitDot_append_dot, Text.splitDot_of_not_mem hname]
  dsimp only
  rw [hv]
  rfl

/-- The lookups of a scope compose if those of its model do. -/
theorem result_load_append_dot (h : s.model.Composes) (p q : Text) :
    (s.load (p ++ '.' :: q)).result = (s.load p).result.bind fun v => v.walk? q := by
  rw [load, load, Text.splitDot_append_dot]
  rcases Text.splitDot p with ⟨name, rest⟩
  dsimp only
  cases lookup? name s.frames with
  | none => exact h p q
  | some v =>
    cases rest with
    | none => rfl
    | some rest => exact v.walk?_append_dot rest q

/-- Other names than the one that is bound lead where they led before. -/
theorem load_of_store (h : s.store name v = (.ok (), s')) {path : Text}
    (hpath : (Text.splitDot path).1 ≠ name) : s'.load path = s.load path := by
  have hmodel : s'.model = s.model := (grows_of_store h).model
  rw [load, load, hmodel]
  dsimp only
  rw [lookup?_of_store h, if_neg hpath]

/-- **A name that is bound to the value of a path stands for the path**, in front of further
pieces. -/
theorem load_append_dot_of_store (hmodel : s.model.Composes) (hname : '.' ∉ name) {p : Text}
    (h : s.store name ((s.load p).result.getD .null) = (.ok (), s')) (q : Text) :
    s'.load (name ++ '.' :: q) = pure (s.load (p ++ '.' :: q)).result := by
  have hbound : lookup? name s'.frames = some ((s.load p).result.getD .null) := by
    rw [lookup?_of_store h, if_pos rfl]
  rw [load_append_dot_of_lookup? hname hbound, result_load_append_dot hmodel]
  -- From null, which stands for a value that is missing, no path leads on.
  cases (s.load p).result with
  | none => exact congrArg pure (Value.walk?_null q)
  | some v => rfl

end Scope

/-! ## Expressions -/

namespace Expr

/-- The part of a value that names lead to one after the other. -/
def attrs (object : Expr) (names : List Text) : Expr := names.foldl attr object

theorem attrs_concat (object : Expr) (names : List Text) (name : Text) :
    object.attrs (names ++ [name]) = .attr (object.attrs names) name := by
  rw [attrs, List.foldl_append]
  rfl

/-- The part by a name is where the name leads from the value of the object. -/
theorem result_eval_attr_of_not_mem (s : Scope) (object : Expr) {name : Text} (h : '.' ∉ name) :
    ((Expr.attr object name).eval s).result =
      (object.eval s).result.bind fun v => v.walk? name := by
  rw [result_eval_attr]
  cases (object.eval s).result with
  | none => rfl
  | some v => exact (v.walk?_of_not_mem h).symm

end Expr

/-- **Parts by names are pieces of a path**: the names behind the value of a path lead where the
path leads with the names behind it. -/
theorem Scope.result_eval_attrs {s : Scope} (h : s.model.Composes) (p : Text) {names : List Text}
    (hnames : ∀ name ∈ names, '.' ∉ name) :
    (((Expr.path p).attrs names).eval s).result =
      (s.load (p ++ KeyPath.tailText names)).result := by
  induction names using List.reverseRecOn with
  | nil =>
    rw [show KeyPath.tailText [] = [] from rfl, List.append_nil]
    rfl
  | append_singleton names name ih =>
    have hlast : '.' ∉ name := hnames name (List.mem_append_right _ (List.mem_singleton_self name))
    have hfront : ∀ name ∈ names, '.' ∉ name := fun name hmem =>
      hnames name (List.mem_append_left _ hmem)
    have htext : p ++ KeyPath.tailText (names ++ [name]) =
        (p ++ KeyPath.tailText names) ++ '.' :: name := by
      simp [KeyPath.tailText]
    rw [Expr.attrs_concat, Expr.result_eval_attr_of_not_mem s _ hlast, ih hfront, htext,
      result_load_append_dot h]

namespace Phrase

/-- A part by its name is written with a name that holds no dot, behind a phrase for the value. -/
theorem exists_of_expr_eq_attr {object : Expr} {name : Text} : (p : Phrase) → p.Spelled →
    Token.Dotless p.tokens → p.expr = .attr object name →
      '.' ∉ name ∧ ∃ q : Phrase, q.expr = object ∧ q.Spelled ∧ Token.Dotless q.tokens
  | attr inner token _, hspelled, hdotless, h => by
    obtain ⟨hobject, rfl⟩ := Expr.attr.inj h
    obtain ⟨hinner, htoken⟩ := Token.dotless_append.mp hdotless
    refine ⟨hspelled.2.not_mem fun text htext => htoken text ?_, inner, hobject, hspelled.1, hinner⟩
    rw [htext]
    exact .tail _ (.head _)
  | parens inner, hspelled, hdotless, h =>
    exists_of_expr_eq_attr inner hspelled (Token.dotless_append.mp hdotless.tail).1 h
  | literal _ _, _, _, h | path _ _, _, _, h | item _ _, _, _, h | not _ _, _, _, h
  | neg _, _, _, h | binary _ _ _ _, _, _, h | list _ _, _, _, h => nomatch h

theorem not_mem_of_expr_eq_attrs {object : Expr} {names : List Text} {p : Phrase}
    (hspelled : p.Spelled) (hdotless : Token.Dotless p.tokens) (h : p.expr = object.attrs names) :
    ∀ name ∈ names, '.' ∉ name := by
  induction names using List.reverseRecOn generalizing p with
  | nil => nofun
  | append_singleton names last ih =>
    rw [Expr.attrs_concat] at h
    obtain ⟨hlast, q, hq, hqspelled, hqdotless⟩ := exists_of_expr_eq_attr p hspelled hdotless h
    intro name hmem
    rcases List.mem_append.1 hmem with hmem | hmem
    · exact ih hqspelled hqdotless hq name hmem
    · rwa [List.mem_singleton.1 hmem]

end Phrase

/-- The names in an expression that was read hold no dots. -/
theorem Expr.not_mem_of_ofText {source : Text} {object : Expr} {names : List Text}
    (h : Expr.ofText source = .ok (object.attrs names)) : ∀ name ∈ names, '.' ∉ name := by
  obtain ⟨p, hp, hspelled, hread⟩ := Expr.exists_phrase_of_ofText h
  have hdotless : Token.Dotless p.tokens := by
    have hall := Token.dotless_readFrom false source
    rwa [show Token.readFrom false source = (p.tokens, none) from hread] at hall
  exact Phrase.not_mem_of_expr_eq_attrs hspelled hdotless hp

/-- **Lookups compose.**  In every model of this library a path with a dot between its parts leads
where the second part leads from the value of the first, and nowhere if that is missing.  So it
does in every scope over such a model: a name that is bound to the value of a path, or to null if
it has none, stands for the path in front of further pieces, and the names that are taken of the
value of a path one after the other lead where the path with these pieces leads, in an expression
as well as in the text of one. -/
theorem Model.Shipped.lookups_compose [Json.Library] {m : Model} (h : m.Shipped) :
    (∀ p q, m.resolve (p ++ '.' :: q) = (m.resolve p).bind fun v => v.walk? q) ∧
      ∀ s : Scope, s.model = m →
        (∀ p name, '.' ∉ name → s.frames ≠ [] →
          ∃ s', s.store name ((s.load p).result.getD .null) = (.ok (), s') ∧
            ∀ q, s'.load (name ++ '.' :: q) = pure (s.load (p ++ '.' :: q)).result ∧
              ((Text.splitDot p).1 ≠ name →
                (s'.load (name ++ '.' :: q)).result = (s'.load (p ++ '.' :: q)).result)) ∧
        (∀ p names, (∀ name ∈ names, '.' ∉ name) →
          (((Expr.path p).attrs names).eval s).result =
            ((Expr.path (p ++ KeyPath.tailText names)).eval s).result) ∧
        ∀ source p names, Expr.ofText source = .ok ((Expr.path p).attrs names) →
          (evaluateExpr s source).result = (s.load (p ++ KeyPath.tailText names)).result := by
  refine ⟨h.composes, ?_⟩
  rintro s rfl
  have hattrs : ∀ p names, (∀ name ∈ names, '.' ∉ name) →
      (((Expr.path p).attrs names).eval s).result =
        (s.load (p ++ KeyPath.tailText names)).result :=
    fun p names hnames => Scope.result_eval_attrs h.composes p hnames
  refine ⟨?_, ?_, ?_⟩
  · intro p name hname hframes
    obtain ⟨s', hstore⟩ := Scope.exists_store hframes name ((s.load p).result.getD .null)
    refine ⟨s', hstore, fun q => ?_⟩
    have hthrough : s'.load (name ++ '.' :: q) = pure (s.load (p ++ '.' :: q)).result :=
      Scope.load_append_dot_of_store h.composes hname hstore q
    refine ⟨hthrough, fun hother => ?_⟩
    have hfirst : (Text.splitDot (p ++ '.' :: q)).1 ≠ name := by
      rwa [Text.splitDot_append_dot]
    rw [hthrough, Scope.load_of_store hstore hfirst]
    rfl
  · intro p names hnames
    rw [hattrs p names hnames, Expr.eval]
  · intro source p names hsource
    rw [evaluateExpr, hsource]
    exact hattrs p names (Expr.not_mem_of_ofText hsource)

/-- The second item of the value of `a.b`. -/
def Phrase.secondItem : Phrase :=
  .attr (.parens (.path "a".toList [(.name "b".toList, "b".toList)])) (.number (.ofNat 1))
    "1".toList

theorem Expr.ofText_secondItem :
    Expr.ofText "(a.b).1".toList = .ok ((Expr.path "a.b".toList).attrs ["1".toList]) := by
  have hread : Token.readAll "(a.b).1".toList = (Phrase.secondItem.tokens, none) := by
    decide +kernel
  have hpieces : ∀ piece ∈ [(Token.name "b".toList, "b".toList)], Text.PieceBy piece.2 piece.1 := by
    simp only [List.forall_mem_cons]
    exact ⟨.inl rfl, List.forall_mem_nil _⟩
  have hspelled : Phrase.secondItem.Spelled := ⟨hpieces, .inr ⟨_, 1, rfl, rfl, rfl⟩⟩
  have hgrouped : Phrase.secondItem.Grouped :=
    ⟨(by decide : Text.IsFree "a".toList), by decide, rfl⟩
  rw [Expr.ofText, hread]
  exact (Expr.ofTokens_tokens hspelled hgrouped).trans (if_pos (by decide))

open Json.Strict in
/-- A path into values by name, cut in front of the number of an item and of a count. -/
theorem Model.Shipped.lookups_compose_item_count :
    let m := Model.ofBindings
      [("a".toList, .map (.ofList [("b".toList, .sequence [.null, .string "xyz".toList])]))]
    let s : Scope := ⟨[.nil], m⟩
    m.resolve "a.b.1.@count".toList =
        (m.resolve "a.b".toList).bind (fun v => v.walk? "1.@count".toList) ∧
      (∃ s', s.store "n".toList ((s.load "a.b".toList).result.getD .null) = (.ok (), s') ∧
        s'.load "n.1.@count".toList = pure (some (.number (.ofNat 3)))) ∧
      (evaluateExpr s "(a.b).1".toList).result = some (.string "xyz".toList) := by
  intro m s
  obtain ⟨hresolve, hscope⟩ := lookups_compose (.ofBindings
    [("a".toList, .map (.ofList [("b".toList, .sequence [.null, .string "xyz".toList])]))])
  obtain ⟨hname, -, hsource⟩ := hscope s rfl
  obtain ⟨s', hstore, hload⟩ := hname "a.b".toList "n".toList (by decide) (List.cons_ne_nil _ _)
  exact ⟨hresolve "a.b".toList "1.@count".toList, ⟨s', hstore, (hload "1.@count".toList).1⟩,
    hsource _ _ _ Expr.ofText_secondItem⟩

end Stencil
