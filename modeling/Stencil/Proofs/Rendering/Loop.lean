import Mathlib
import Stencil.Json.Strict
import Stencil.Proofs.Rendering.Balance
import Stencil.Proofs.Statement.Names

/-!
# Loops

A loop evaluates its source once and then goes through the items one pass after another.  Every pass
opens a frame, binds the item and its number, renders what the loop holds, and closes the frame; the
next pass starts in the scope that is left.  Since a name that is bound further out is bound there
anew, a pass may change scopes below its own frame, and `exists_passes` follows the scope from pass
to pass.  What it says of each pass (`Pass`) holds whatever the passes before it have bound.

The values of a map are those of its entries one after another, and a dictionary has its entries in
increasing order of the keys, whatever it was made of (`Dict.pairwise_toList`).

That the item and its number can be read back depends on their names: a name with a dot would be
read as a key path.  `ofBody` gives loops names without one (`Document.splitDot_of_forEach`).

## Main Definitions

* `Pass` — one pass of a loop, from the scope that the pass before it leaves
* `Value.Lists` — the items of a value
-/

namespace Stencil

open Attempt (andThen_of_ok andThen_assoc andThen_congr done_andThen)

/-! ## The names that loops bind -/

/-- The names that a loop binds are their own first pieces. -/
theorem Document.splitDot_of_forEach {markers : Markers} {source : Text} {d : Document}
    (h : (Document.read markers source).result = .ok d) {n : Node} (hn : n ∈ d.forest.nodes)
    {item items : Text} (hloop : n.statement = .forEach item items) :
    Text.splitDot item = (item, none) ∧
      Text.splitDot (indexName item) = (indexName item, none) := by
  obtain ⟨segment, hstatement, -⟩ := Document.exists_segment_of_read h hn
  rw [hloop] at hstatement
  cases segment with
  | text content => cases hstatement
  | tag tagBody =>
    have hword : ∀ c ∈ item, Text.isWordChar c := Statement.isWordChar_of_ofBody hstatement.symm
    refine ⟨Text.splitDot_of_isWordChar hword, Text.splitDot_of_isWordChar ?_⟩
    intro c hc
    rcases List.mem_append.1 hc with hc | hc
    · exact hword c hc
    · have hsuffix : "Index".toList.all Text.isWordChar = true := by decide
      exact List.all_eq_true.1 hsuffix c hc

theorem ne_indexName (item : Text) : item ≠ indexName item := by
  intro h
  have hlength := congrArg List.length h
  simp [indexName] at hlength

/-- In a pass the item and its number have their values, whatever the names were bound to before. -/
theorem lookup?_of_bindItem {s start : Scope} {item : Text} {i : Nat} {v : Value}
    (h : bindItem s item i v = .ok start) :
    Scope.lookup? item start.frames = some v ∧
      Scope.lookup? (indexName item) start.frames = some (.number (.ofNat i)) := by
  obtain ⟨named, hnamed, hstart⟩ := bindItem_eq_ok.1 h
  have hlookup := Scope.lookup?_of_store hstart
  -- The number is bound last, under a name that is longer than that of the item.
  constructor
  · rw [hlookup, if_neg (ne_indexName item), Scope.lookup?_of_store hnamed, if_pos rfl]
  · rw [hlookup, if_pos rfl]

/-- Where their names are read as names, the item and its number can be read in the pass. -/
theorem load_of_bindItem {s start : Scope} {item : Text} {i : Nat} {v : Value}
    (hitem : Text.splitDot item = (item, none))
    (hindex : Text.splitDot (indexName item) = (indexName item, none))
    (h : bindItem s item i v = .ok start) :
    start.load item = pure (some v) ∧
      start.load (indexName item) = pure (some (.number (.ofNat i))) := by
  obtain ⟨hv, hi⟩ := lookup?_of_bindItem h
  exact ⟨Scope.load_of_lookup? hitem hv, Scope.load_of_lookup? hindex hi⟩

/-- The items of a sequence, or the values of a map in increasing order of its keys. -/
inductive Value.Lists : Value → List Value → Prop
  | sequence (items : List Value) : Lists (.sequence items) items
  | map (entries : Dict Value none) : Lists (.map entries) entries.values

theorem Value.lists_iff {v : Value} {items : List Value} :
    v.Lists items ↔ v.items? = some items := by
  constructor
  · rintro (_ | _) <;> rfl
  · intro h
    cases v with
    | sequence items' =>
      obtain rfl := Option.some.inj h
      exact .sequence _
    | map entries =>
      obtain rfl := Option.some.inj h
      exact .map _
    | _ => cases h

section Library

variable [Json.Library]

/-! ## Passes -/

/-- One pass of a loop, the one for the item `v` with the number `i`, from the scope `s` to the
scope `left`: the item and its number are bound in a frame of their own, what the loop holds is
rendered there, and the frame is closed again. -/
structure Pass (item : Text) (body : Forest) (i : Nat) (v : Value) (s start inner left : Scope) :
    Prop where
  bound : bindItem s item i v = .ok start
  load_item : start.load item = pure (some v)
  load_index : start.load (indexName item) = pure (some (.number (.ofNat i)))
  rendered : (renderBody body start).result = .ok inner
  own_frame : s.Local inner left

/-- **A loop goes through its items one after another**, and each pass starts in the scope that the
one before it leaves. -/
theorem exists_passes {item : Text} {body : Forest} (hbody : body.Fits false)
    (hitem : Text.splitDot item = (item, none))
    (hindex : Text.splitDot (indexName item) = (indexName item, none)) (items : List Value)
    (index : Nat) (s : Scope) :
    ∃ scopes starts inners : Nat → Scope, scopes 0 = s ∧
      (∀ i v, items[i]? = some v →
        Pass item body (index + i) v (scopes i) (starts i) (inners i) (scopes (i + 1))) ∧
      renderItems item (renderBody body) index items s = ⟨.ok (scopes items.length),
        (List.range items.length).flatMap fun i => (renderBody body (starts i)).events⟩ := by
  induction items generalizing index s with
  | nil =>
    refine ⟨fun _ => s, fun _ => s, fun _ => s, rfl, ?_, rfl⟩
    intro i v hv
    rw [List.getElem?_nil] at hv
    cases hv
  | cons v rest ih =>
    obtain ⟨start, inner, left, hstart, hinner, hleft⟩ :=
      exists_pass (yields_renderBody hbody) s item index v
    obtain ⟨hv, hi⟩ := load_of_bindItem hitem hindex hstart
    have hpass : Pass item body index v s start inner left := ⟨hstart, hv, hi, hinner, hleft⟩
    obtain ⟨scopes, starts, inners, hscopes, hpasses, hrender⟩ := ih (index + 1) left
    -- The scopes of the other passes come one place later.
    refine ⟨fun | 0 => s | i + 1 => scopes i, fun | 0 => start | i + 1 => starts i,
      fun | 0 => inner | i + 1 => inners i, rfl, ?_, ?_⟩
    · intro i w hw
      cases i with
      | zero =>
        obtain rfl := Option.some.inj hw
        rw [← hscopes] at hpass
        exact hpass
      | succ i =>
        rw [List.getElem?_cons_succ] at hw
        have hpass' := hpasses i w hw
        rw [Nat.add_assoc, Nat.add_comm 1 i] at hpass'
        exact hpass'
    · rw [renderItems_cons hstart hinner hleft.closed, hrender, List.length_cons,
        List.range_succ_eq_map, List.flatMap_cons, List.flatMap_map]

/-! ## Loops of a document -/

/-- The source of a loop is evaluated once, and nothing else is seen of it. -/
theorem loopItems_of_lists {s : Scope} {source : Text} {v : Value} {items : List Value}
    (hv : (evaluate s source .all).result = some v) (hitems : v.Lists items) :
    loopItems s source = ⟨items, (evaluate s source .all).events⟩ := by
  have hitems' : v.items? = some items := Value.lists_iff.1 hitems
  rw [loopItems, Traced.bind_of_result hv]
  simp only [hitems', Traced.result_pure, Traced.events_pure, List.append_nil]

/-- What a loop without items does: it evaluates its source and takes a note if that has a value. -/
def idleEvents (s : Scope) (source : Text) : List Event :=
  (evaluate s source .all).events ++
    match (evaluate s source .all).result with
    | some v => [.noted (.notIterable v.kind)]
    | none => []

/-- A source without items gives none. -/
theorem loopItems_of_not_lists {s : Scope} {source : Text}
    (h : ∀ v items, (evaluate s source .all).result = some v → ¬ v.Lists items) :
    loopItems s source = ⟨[], idleEvents s source⟩ := by
  rw [loopItems, idleEvents]
  cases hv : (evaluate s source .all).result with
  | none =>
    rw [Traced.bind_of_result hv]
    rfl
  | some v =>
    have hitems : v.items? = none := by
      cases hitems : v.items? with
      | none => rfl
      | some items => exact absurd (Value.lists_iff.2 hitems) (h v items hv)
    rw [Traced.bind_of_result hv]
    simp only [hitems]
    rfl

theorem silent_idleEvents (s : Scope) (source : Text) :
    Traced.Silent ⟨(), idleEvents s source⟩ := by
  intro event hevent
  rcases List.mem_append.1 hevent with hevent | hevent
  · exact silent_evaluate s source .all event hevent
  · split at hevent
    · rw [List.mem_singleton.1 hevent]
      rfl
    · cases hevent

/-- What a loop does: it evaluates its source, and renders what it holds once for each pass. -/
def loopEvents (s : Scope) (source : Text) (body : Forest) (starts : Nat → Scope) (count : Nat) :
    List Event :=
  (evaluate s source .all).events ++
    (List.range count).flatMap fun i => (renderBody body (starts i)).events

/-- Only the passes of a loop write anything. -/
theorem output_loopEvents (s : Scope) (source : Text) (body : Forest) (starts : Nat → Scope)
    (count : Nat) :
    Event.output (loopEvents s source body starts count) =
      (List.range count).flatMap fun i => Event.output (renderBody body (starts i)).events := by
  rw [loopEvents, Event.output_append, (silent_evaluate s source .all).output_eq_nil,
    List.nil_append]
  exact List.flatMap_assoc

theorem renderForest_forEach {n : Node} {item source : Text}
    (hloop : n.statement = .forEach item source) (body rest : Forest) (taken : Bool) (s : Scope) :
    renderForest (.node n body rest) taken s =
      Traced.bind (loopItems s source) fun items =>
        Attempt.andThen (renderItems item (renderBody body) 0 items s.push)
          (renderForest rest taken) := by
  have hpush : loopItems s.push source = loopItems s source := by
    rw [loopItems, loopItems, evaluate_push]
  rw [renderForest_node, renderNode, hloop]
  dsimp only
  rw [hpush, Attempt.bind_andThen]
  simp only [andThen_assoc, done_andThen]

/-- **A loop renders what it holds once for each item, in their order.**  Let the source of a loop
have items in the scope that the loop comes to.  Then there is one pass for each of them: it starts
in the scope that the pass before it leaves, with a frame of its own, in which the item and its
number can be read, and all that the loop does is to evaluate the source once and to render what it
holds in each of these scopes.  A loop whose source has no value, or a value without items, renders
nothing. -/
theorem Document.loop_of_read {markers : Markers} {text : Text} {d : Document}
    (h : (Document.read markers text).result = .ok d) {siblings : Forest}
    (hmem : siblings ∈ d.levels) {n : Node} {body : Forest} (hnode : (n, body) ∈ siblings.trees)
    {item source : Text} (hloop : n.statement = .forEach item source) (rest : Forest)
    (taken : Bool) (s : Scope) :
    (∀ v items, (evaluate s source .all).result = some v → v.Lists items →
      ∃ scopes starts inners : Nat → Scope, scopes 0 = s.push ∧
        (∀ i v, items[i]? = some v →
          Pass item body i v (scopes i) (starts i) (inners i) (scopes (i + 1))) ∧
        renderForest (.node n body rest) taken s =
          Attempt.andThen ⟨.ok (scopes items.length), loopEvents s source body starts items.length⟩
            (renderForest rest taken) ∧
        Event.output (loopEvents s source body starts items.length) =
          (List.range items.length).flatMap fun i =>
            Event.output (renderBody body (starts i)).events) ∧
    ((∀ v items, (evaluate s source .all).result = some v → ¬ v.Lists items) →
      renderForest (.node n body rest) taken s =
        Attempt.andThen ⟨.ok s.push, idleEvents s source⟩ (renderForest rest taken) ∧
      Event.output (idleEvents s source) = [] ∧ Event.shown (idleEvents s source) = []) := by
  have hbody : body.Fits false := by
    have hfits := Document.fits_of_read h hmem
    rw [← Forest.ofTrees_trees siblings] at hfits
    exact hfits.of_mem_ofTrees hnode
  obtain ⟨hitem, hindex⟩ :=
    Document.splitDot_of_forEach h (Document.mem_nodes_of_mem_levels hmem hnode) hloop
  rw [renderForest_forEach hloop]
  constructor
  · intro v items hv hitems
    obtain ⟨scopes, starts, inners, hscopes, hpasses, hrender⟩ :=
      exists_passes hbody hitem hindex items 0 s.push
    simp only [Nat.zero_add] at hpasses
    refine ⟨scopes, starts, inners, hscopes, hpasses, ?_, output_loopEvents _ _ _ _ _⟩
    rw [loopItems_of_lists hv hitems, Traced.bind]
    dsimp only
    rw [hrender, andThen_of_ok rfl, andThen_of_ok rfl, loopEvents, List.append_assoc]
  · intro hnone
    have hsilent := silent_idleEvents s source
    refine ⟨?_, hsilent.output_eq_nil, hsilent.shown_eq_nil⟩
    rw [loopItems_of_not_lists hnone, Traced.bind]
    dsimp only
    rw [renderItems, Rendering.done, andThen_of_ok rfl, andThen_of_ok rfl]
    rfl

end Library

open Json.Strict

/-- A loop over two items. -/
theorem Document.loop_of_read_two_items :
    ∃ (d : Document) (n : Node) (body : Forest) (starts : Nat → Scope),
      (Document.read .standard "{%foreach(x in [null,true])%}y{%end%}".toList).result = .ok d ∧
      (n, body) ∈ d.forest.trees ∧ n.statement = .forEach "x".toList "[null,true]".toList ∧
      (starts 1).load "x".toList = pure (some (.bool true)) ∧
      (starts 1).load "xIndex".toList = pure (some (.number (.ofNat 1))) ∧
      Event.output (renderForest (.node n body .nil) false (Scope.ofModel .empty)).events =
        Event.output (renderBody body (starts 0)).events ++
          Event.output (renderBody body (starts 1)).events := by
  have hread := Document.exists_read .standard "{%foreach(x in [null,true])%}y{%end%}".toList
    (P := fun d => ∃ t ∈ d.forest.trees, t.1.statement = .forEach "x".toList "[null,true]".toList)
    (by decide +kernel)
  obtain ⟨d, hd, ⟨n, body⟩, hnode, hloop⟩ := hread
  have hv : (evaluate (Scope.ofModel .empty) "[null,true]".toList .all).result =
      some (.sequence [.null, .bool true]) := by cbv
  obtain ⟨scopes, starts, inners, -, hpasses, hrender, houtput⟩ :=
    (Document.loop_of_read hd (.head _) hnode hloop .nil false _).1 _ _ hv (.sequence _)
  have hpass := hpasses 1 (.bool true) rfl
  refine ⟨d, n, body, starts, hd, hnode, hloop, hpass.load_item, hpass.load_index, ?_⟩
  have hnothing : ∀ s, Event.output (renderForest .nil false s).events = [] := by
    intro s
    rw [renderForest]
    rfl
  rw [hrender, andThen_of_ok rfl, Event.output_append, houtput, hnothing, List.append_nil]
  simp [List.range_succ]

end Stencil
