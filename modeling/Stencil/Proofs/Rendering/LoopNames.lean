import Stencil.Json.Strict
import Stencil.Proofs.Rendering.Chain
import Stencil.Proofs.Rendering.Loop

/-!
# The names of a loop outside it

Each pass of a loop has a frame of its own, but binding a name goes by the frames that bind it
already.  So the item and its number are bound in the frame of the pass only if no frame around the
loop binds their names; otherwise the value there is overwritten, and stays so behind the loop.

Which values are left is the question what a run leaves alone.  A name has a cell in every frame,
empty or not (`Scope.cells`), and a run that does not bind the name changes none of its cells, as
far as they lie below the frames that the run opens and closes (`spares_renderForest`).  So the last
pass of a loop decides what its names are worth afterwards, unless its body interferes.

## Main Definitions

* `Node.bound`, `Forest.bound` — the names that a node or a forest binds, loops included
* `Scope.cells` — what each frame binds a name to
* `Attempt.Spares` — a run that leaves the cells of a name alone
-/

namespace Stencil

/-- The names that a node binds: that of an assignment, and both names of a loop. -/
def Node.bound (n : Node) : List Text :=
  match n.statement with
  | .assign name _ _ => [name]
  | .forEach item _ => [item, indexName item]
  | _ => []

/-- The names that the nodes of a forest bind, on all levels. -/
def Forest.bound (f : Forest) : List Text := f.nodes.flatMap Node.bound

theorem Forest.bound_node (n : Node) (body rest : Forest) :
    (node n body rest).bound = n.bound ++ (body.bound ++ rest.bound) := by
  rw [bound, nodes, List.flatMap_cons, List.flatMap_append]
  rfl

/-! ## Cells -/

namespace Scope

variable {name other : Text} {v : Value} {s s' : Scope}

/-- What each frame binds a name to, from the innermost frame outwards. -/
def cells (name : Text) (s : Scope) : List (Option Value) := s.frames.map (Dict.get? name)

theorem depth_eq_of_cells (h : s.cells name = s'.cells name) : s.depth = s'.depth := by
  have hlength := congrArg List.length h
  rwa [cells, cells, List.length_map, List.length_map] at hlength

/-- The value of a name is that in its first cell that is not empty. -/
theorem lookup?_eq_findSome? (name : Text) (s : Scope) :
    lookup? name s.frames = (s.cells name).findSome? id := by
  rw [cells]
  induction s.frames with
  | nil => rfl
  | cons frame rest ih =>
    rw [lookup?, List.map_cons, List.findSome?_cons, ih]
    cases Dict.get? name frame <;> rfl

theorem lookup?_eq_of_cells (h : s.cells name = s'.cells name) :
    lookup? name s.frames = lookup? name s'.frames := by
  rw [lookup?_eq_findSome?, lookup?_eq_findSome?, h]

/-- Without the frame of the branch that is open, the first cell falls away. -/
theorem cells_below_true (name : Text) (s : Scope) :
    (s.below true).cells name = (s.cells name).tail := by
  show s.frames.tail.map _ = (s.frames.map _).tail
  rw [List.map_tail]

theorem cells_of_replace? (hne : name ≠ other) {fs gs : List Frame}
    (h : replace? other v fs = some gs) : gs.map (Dict.get? name) = fs.map (Dict.get? name) := by
  induction fs generalizing gs with
  | nil => cases h
  | cons frame rest ih =>
    rw [replace?] at h
    split at h
    · obtain rfl := Option.some.inj h
      rw [List.map_cons, List.map_cons, Dict.get?_insert, if_neg hne]
    · obtain ⟨gs, hgs, rfl⟩ := Option.map_eq_some_iff.1 h
      rw [List.map_cons, List.map_cons, ih hgs]

/-- Binding another name changes no cell. -/
theorem cells_of_store (hne : name ≠ other) (h : s.store other v = (.ok (), s')) :
    s'.cells name = s.cells name := by
  rw [store] at h
  split at h
  · next frames hreplace =>
    obtain rfl := (Prod.mk.inj h).2
    exact cells_of_replace? hne hreplace
  · split at h
    · cases h
    · next frame rest hframes =>
      obtain rfl := (Prod.mk.inj h).2
      rw [cells, cells, hframes, List.map_cons, List.map_cons, Dict.get?_insert, if_neg hne]

/-- A pass of a loop starts with empty cells of all names but its own. -/
theorem cells_of_bindItem {item : Text} {index : Nat} (hname : name ∉ [item, indexName item])
    (h : bindItem s item index v = .ok s') : s'.cells name = s.push.cells name := by
  rw [List.mem_cons, List.mem_singleton, not_or] at hname
  obtain ⟨named, hnamed, hstart⟩ := bindItem_eq_ok.1 h
  rw [cells_of_store hname.2 hstart, cells_of_store hname.1 hnamed]

end Scope

/-! ## Runs that spare a name -/

/-- A run from a scope that leaves the cells of a name alone, as far as `scope` shows of what it
ends in. -/
def Attempt.Spares {α : Type} (name : Text) (s : Scope) (scope : α → Scope) (x : Attempt α) :
    Prop :=
  ∀ a, x.result = .ok a → (scope a).cells name = s.cells name

namespace Attempt.Spares

variable {α β : Type} {name : Text} {s : Scope} {scope : α → Scope} {scope' : β → Scope}

theorem of_ok {x : Attempt α} {a : α} (hx : x.result = .ok a)
    (h : (scope a).cells name = s.cells name) : Spares name s scope x := by
  intro b hb
  rw [hx] at hb
  obtain rfl := Except.ok.inj hb
  exact h

theorem andThen {x : Attempt α} {next : α → Attempt β} (hx : Spares name s scope x)
    (hnext : ∀ a, x.result = .ok a → Spares name (scope a) scope' (next a)) :
    Spares name s scope' (x.andThen next) := by
  intro b hb
  obtain ⟨a, ha, hb⟩ := Attempt.result_andThen_eq_ok.1 hb
  rw [hnext a ha b hb, hx a ha]

theorem bind {x : Traced β} {f : β → Attempt α} (h : ∀ b, Spares name s scope (f b)) :
    Spares name s scope (Traced.bind x f) := h x.result

/-- What a run in a frame spares, it spares below the frame. -/
theorem below {x : Attempt Scope} (h : Spares name s id x) :
    Spares name (s.below true) (Scope.below true) x := by
  intro after hafter
  have hcells : after.cells name = s.cells name := h after hafter
  rw [Scope.cells_below_true, Scope.cells_below_true, hcells]

end Attempt.Spares

open Attempt (Spares andThen_of_ok done_andThen)

variable {name : Text}

theorem spares_closeFrame (s : Scope) :
    Spares name (s.below true) id (Rendering.ofScope (closeFrame s)) := by
  intro left h
  rw [Scope.below_of_closeFrame h]
  rfl

/-- A loop over other names spares a name if its body does. -/
theorem spares_renderItems {item : Text} {body : Scope → Rendering}
    (hname : name ∉ [item, indexName item]) (hbody : ∀ s, Spares name s id (body s)) (index : Nat)
    (items : List Value) (s : Scope) : Spares name s id (renderItems item body index items s) := by
  induction items generalizing index s with
  | nil => exact .of_ok rfl rfl
  | cons v rest ih =>
    simp only [renderItems, Rendering.andThen_eq]
    have hstart : Spares name s (Scope.below true)
        (Rendering.ofScope (bindItem s item index v)) := by
      intro start h
      rw [Scope.cells_below_true, Scope.cells_of_bindItem hname h]
      rfl
    -- The frame of the pass is opened in front of its body and closed behind it.
    refine hstart.andThen fun start _ => (hbody start).below.andThen fun inner _ => ?_
    exact (spares_closeFrame inner).andThen fun left _ => ih (index + 1) left

/-- A path whose first piece no frame binds is a question to the model. -/
theorem Scope.load_of_not_bound {s : Scope} {path : Text}
    (h : ¬ Bound (Text.splitDot path).1 s.frames) :
    s.load path = ⟨s.model.resolve path, [.asked path]⟩ := by
  have hnone : lookup? (Text.splitDot path).1 s.frames = none := by
    rw [lookup?_eq_findSome?, List.findSome?_eq_none_iff]
    intro cell hcell
    obtain ⟨frame, hframe, rfl⟩ := List.mem_map.1 hcell
    cases hget : Dict.get? (Text.splitDot path).1 frame with
    | none => rfl
    | some v => exact absurd ⟨frame, hframe, by rw [Dict.binds, hget]; rfl⟩ h
  rw [load]
  dsimp only
  rw [hnone]

section Library

variable [Json.Library]

theorem spares_assign {other : Text} (hname : name ∉ [other]) (s : Scope) (expr : Text) :
    Spares name s id (assign s other expr) :=
  fun _ h => Scope.cells_of_store (List.ne_of_not_mem_cons hname) (Scope.onward_eq_ok.1 h)

/-- A clause that is taken or not spares what its body spares. -/
theorem spares_renderIf {body : Forest} (hbody : ∀ s, Spares name s id (renderBody body s))
    (test : Traced Bool) (s : Scope) :
    Spares name s (fun r => r.1.below true) (renderIf test body s.push) := by
  refine Spares.bind fun truth => ?_
  cases truth with
  | false => exact .of_ok rfl rfl
  | true => exact (hbody s.push).below.andThen fun inner _ => .of_ok rfl rfl

theorem spares_further {body : Forest} (hbody : ∀ s, Spares name s id (renderBody body s))
    (taken : Bool) (test : Scope → Traced Bool) (s : Scope) :
    Spares name (s.below true) (fun r : Scope × Bool => r.1.below true)
      (Attempt.andThen (Rendering.ofScope (replaceFrame s)) fun s =>
        if taken then .done (s, true) else renderIf (test s) body s) := by
  cases h : closeFrame s with
  | error fault =>
    rw [replaceFrame_of_error h]
    exact fun r hr => nomatch hr
  | ok left =>
    rw [replaceFrame_of_ok h, Rendering.ofScope_ok, Attempt.done_andThen,
      Scope.below_of_closeFrame h]
    cases taken with
    | true => exact .of_ok rfl rfl
    | false => exact spares_renderIf hbody (test left.push) left

/-- **One node** spares the names that neither it nor its body binds, below the frame of the branch
that is open. -/
theorem spares_renderNode {n : Node} {body : Forest} (hname : name ∉ n.bound)
    (hbody : ∀ s, Spares name s id (renderBody body s)) (taken : Bool) (s : Scope) :
    Spares name (s.below n.kind.closes) (fun r => r.1.below n.kind.opens)
      (renderNode n body taken s) := by
  unfold Node.bound at hname
  unfold renderNode Node.kind
  cases hst : n.statement with
  | text | value | debug => exact .of_ok rfl rfl
  | assign other expr =>
    rw [hst] at hname
    exact (spares_assign hname s expr).andThen fun s' _ => .of_ok rfl rfl
  | ifTrue predicate => exact spares_renderIf hbody _ s
  | elseIf predicate => exact spares_further hbody taken (holds · predicate) s
  | otherwise => exact spares_further hbody taken (fun _ => pure true) s
  | close => exact (spares_closeFrame s).andThen fun left _ => .of_ok rfl rfl
  | forEach item source =>
    rw [hst] at hname
    refine Spares.bind fun items => ?_
    have hitems := spares_renderItems hname hbody 0 items s.push
    exact hitems.below.andThen fun s' _ => .of_ok rfl rfl

/-- What siblings hold is cut off to the part of the stack that the siblings leave in place. -/
theorem spares_renderBody_of_renderForest {f : Forest} {opened : Bool} {s : Scope}
    (h : Spares name s (Scope.below opened) (renderForest f false s)) :
    Spares name s id (renderBody f s) := by
  rw [renderBody_eq]
  refine h.andThen fun after hafter => ?_
  have hdepth : (after.below opened).depth = s.depth := Scope.depth_eq_of_cells (h after hafter)
  rw [← hdepth, Scope.truncate_depth_below]
  exact .of_ok rfl rfl

/-- **Siblings spare the names that nothing among them binds**, below the frames of the branches
that are open in front of them and behind them. -/
theorem spares_renderForest {f : Forest} {opened : Bool} (hfits : f.Fits opened)
    (hname : name ∉ f.bound) (taken : Bool) (s : Scope) :
    Spares name (s.below opened) (Scope.below (Forest.openBehind opened f.trees))
      (renderForest f taken s) := by
  induction f generalizing opened taken s with
  | nil => exact .of_ok rfl rfl
  | node n body rest ihb ihr =>
    obtain ⟨rfl, hbody, hrest⟩ := hfits
    rw [Forest.bound_node, List.mem_append, List.mem_append, not_or, not_or] at hname
    obtain ⟨hn, hinside, hbehind⟩ := hname
    rw [renderForest_node]
    have hspared : ∀ s, Spares name s id (renderBody body s) := fun s =>
      spares_renderBody_of_renderForest (ihb hbody hinside false s)
    exact (spares_renderNode hn hspared taken s).andThen fun r _ => ihr hrest hbehind r.2 r.1

theorem spares_renderBody {f : Forest} (hfits : f.Fits false) (hname : name ∉ f.bound) (s : Scope) :
    Spares name s id (renderBody f s) :=
  spares_renderBody_of_renderForest (spares_renderForest hfits hname false s)

/-! ## Loops -/

section Passes

variable {item : Text} {body : Forest} {items : List Value} {scopes starts inners : Nat → Scope}

/-- The passes of a loop keep the names of all frames that the loop finds. -/
theorem sameNames_of_passes
    (hpasses : ∀ i v, items[i]? = some v →
      Pass item body i v (scopes i) (starts i) (inners i) (scopes (i + 1)))
    {i : Nat} (hi : i ≤ items.length) :
    List.Forall₂ Frame.SameNames (scopes 0).frames (scopes i).frames := by
  induction i with
  | zero => exact Frame.SameNames.forall₂_refl _
  | succ i ih =>
    have hpass := hpasses i _ (List.getElem?_eq_getElem hi)
    exact Frame.SameNames.forall₂_trans (ih (Nat.le_of_succ_le hi)) hpass.own_frame.same

/-- A name that was bound before the loop, and that its body spares, is worth behind a pass what it
is worth at its start. -/
theorem lookup?_of_pass (hbody : body.Fits false)
    (hpasses : ∀ i v, items[i]? = some v →
      Pass item body i v (scopes i) (starts i) (inners i) (scopes (i + 1)))
    {name : Text} (hbound : Scope.Bound name (scopes 0).frames) (hname : name ∉ body.bound)
    {i : Nat} (hi : i < items.length) :
    Scope.lookup? name (scopes (i + 1)).frames = Scope.lookup? name (starts i).frames := by
  have hpass := hpasses i _ (List.getElem?_eq_getElem hi)
  have hbound' : Scope.Bound name (scopes i).frames :=
    (Scope.bound_iff_of_sameNames (sameNames_of_passes hpasses (Nat.le_of_lt hi))).1 hbound
  have hcells : (inners i).cells name = (starts i).cells name :=
    spares_renderBody hbody hname (starts i) _ hpass.rendered
  rw [hpass.own_frame.kept name hbound', Scope.lookup?_eq_of_cells hcells]

/-- What such a name is worth behind the loop is decided by the start of the last pass. -/
theorem lookup?_of_last_pass (hbody : body.Fits false)
    (hpasses : ∀ i v, items[i]? = some v →
      Pass item body i v (scopes i) (starts i) (inners i) (scopes (i + 1)))
    {s left : Scope} (hscopes : scopes 0 = s.push) (hleft : s.Local (scopes items.length) left)
    {name : Text} (hbound : Scope.Bound name s.frames) (hname : name ∉ body.bound)
    (hne : items ≠ []) :
    Scope.lookup? name left.frames = Scope.lookup? name (starts (items.length - 1)).frames := by
  have hlength : items.length - 1 + 1 = items.length :=
    Nat.sub_add_cancel (List.length_pos_iff.2 hne)
  have hpushed : Scope.Bound name (scopes 0).frames := by
    rw [hscopes]
    exact Scope.bound_cons.2 (.inr hbound)
  rw [hleft.kept name hbound, ← hlength]
  exact lookup?_of_pass hbody hpasses hpushed hname (Nat.lt_of_succ_le (Nat.le_of_eq hlength))

end Passes

/-- The tag that ends a loop closes the frame in which the passes have left the loop. -/
theorem renderForest_forEach_close {n c : Node} {item source : Text}
    (hloop : n.statement = .forEach item source) (hclose : c.statement = .close)
    (body inside rest : Forest) (taken : Bool) {s after left : Scope} {events : List Event}
    (hitems : renderItems item (renderBody body) 0 (loopItems s source).result s.push =
      ⟨.ok after, events⟩)
    (hleft : closeFrame after = .ok left) :
    renderForest (.node n body (.node c inside rest)) taken s =
      Attempt.andThen ⟨.ok left, (loopItems s source).events ++ events⟩
        (renderForest rest false) := by
  have hend : renderForest (.node c inside rest) taken after = renderForest rest false left := by
    rw [renderForest_node, renderNode_of_close (congrArg Statement.kind hclose), hleft,
      Rendering.ofScope_ok, done_andThen, done_andThen]
  rw [renderForest_forEach hloop, Traced.bind, hitems, andThen_of_ok rfl, andThen_of_ok rfl, hend,
    List.append_assoc]

/-- **What a loop leaves behind.**  Behind the tag that ends a loop, every key path loads as before
the loop if no frame had bound its first piece then, whatever the loop holds, and so does every key
path if the loop had no items.  So the names of the item and its number are those of the loop only,
unless a frame around the loop binds them.  Such a frame keeps what they were bound to last: if
nothing in the loop binds the name of the item, that is the last item, and if nothing in it binds
the name of the number, the number of the last pass. -/
theorem Document.loop_names_of_read {markers : Markers} {text : Text} {d : Document}
    (h : (Document.read markers text).result = .ok d) {siblings : Forest}
    (hmem : siblings ∈ d.levels) {n : Node} {body : Forest} (hnode : (n, body) ∈ siblings.trees)
    {item source : Text} (hloop : n.statement = .forEach item source) (taken : Bool) (s : Scope) :
    let items := (loopItems s source).result
    ∃ (s' : Scope) (events : List Event),
      (∀ (c : Node) (inside rest : Forest), c.statement = .close →
        renderForest (.node n body (.node c inside rest)) taken s =
          Attempt.andThen ⟨.ok s', events⟩ (renderForest rest false)) ∧
      (∀ path, ¬ Scope.Bound (Text.splitDot path).1 s.frames ∨ items = [] →
        s'.load path = s.load path) ∧
      (Scope.Bound item s.frames → item ∉ body.bound → ∀ last, items.getLast? = some last →
        s'.load item = pure (some last)) ∧
      (Scope.Bound (indexName item) s.frames → indexName item ∉ body.bound → items ≠ [] →
        s'.load (indexName item) = pure (some (.number (.ofNat (items.length - 1))))) := by
  intro items
  have hbody : body.Fits false := (Document.fits_of_read h hmem).of_mem_trees hnode
  obtain ⟨hitem, hindex⟩ :=
    Document.splitDot_of_forEach h (Document.mem_nodes_of_mem_levels hmem hnode) hloop
  obtain ⟨scopes, starts, inners, hscopes, hpasses, hrender⟩ :=
    exists_passes hbody hitem hindex items 0 s.push
  simp only [Nat.zero_add] at hpasses
  have hgrows : s.push.Grows [] (scopes items.length) :=
    (yields_renderItems (yields_renderBody hbody) item 0 items s.push).grows _
      (congrArg Traced.result hrender)
  obtain ⟨left, hleft⟩ := Scope.Local.of_grows hgrows
  have hlast : ∀ name, Scope.Bound name s.frames → name ∉ body.bound → items ≠ [] →
      Scope.lookup? name left.frames =
        Scope.lookup? name (starts (items.length - 1)).frames :=
    fun name hbound hname hne => lookup?_of_last_pass hbody hpasses hscopes hleft hbound hname hne
  refine ⟨left, _, fun c inside rest hclose =>
    renderForest_forEach_close hloop hclose body inside rest taken hrender hleft.closed, ?_, ?_, ?_⟩
  · rintro path (hnot | hnil)
    · have hnot' : ¬ Scope.Bound (Text.splitDot path).1 left.frames :=
        mt (Scope.bound_iff_of_sameNames hleft.same).2 hnot
      rw [Scope.load_of_not_bound hnot, Scope.load_of_not_bound hnot', hleft.model]
    · have hclosed := hleft.closed
      rw [hnil, List.length_nil, hscopes] at hclosed
      obtain rfl : s = left := Except.ok.inj hclosed
      rfl
  · intro hbound hname last hlastItem
    have hne : items ≠ [] := by
      rintro hnil
      rw [hnil] at hlastItem
      cases hlastItem
    rw [List.getLast?_eq_getElem?] at hlastItem
    have hstart := lookup?_of_bindItem (hpasses _ _ hlastItem).bound
    exact Scope.load_of_lookup? hitem ((hlast item hbound hname hne).trans hstart.1)
  · intro hbound hname hne
    have hlt : items.length - 1 < items.length := Nat.sub_one_lt_of_lt (List.length_pos_iff.2 hne)
    have hstart := lookup?_of_bindItem (hpasses _ _ (List.getElem?_eq_getElem hlt)).bound
    exact Scope.load_of_lookup? hindex ((hlast _ hbound hname hne).trans hstart.2)

end Library

open Json.Strict

/-- A loop over one item that holds nothing. -/
theorem Document.exists_read_emptyLoop :
    ∃ (d : Document) (n c : Node),
      (Document.read .standard "{%foreach(x in [true])%}{%end%}".toList).result = .ok d ∧
      d.forest = .node n .nil (.node c .nil .nil) ∧
      n.statement = .forEach "x".toList "[true]".toList ∧ c.statement = .close := by
  obtain ⟨d, hd, hshape⟩ := Document.exists_read .standard "{%foreach(x in [true])%}{%end%}".toList
    (P := fun d => d.forest.trees.map (fun t => (t.1.statement, t.2)) =
      [(.forEach "x".toList "[true]".toList, .nil), (.close, .nil)]) (by decide +kernel)
  obtain ⟨⟨n, body⟩, rest, htrees, hn, hrest⟩ := List.map_eq_cons_iff.1 hshape
  obtain ⟨⟨c, inside⟩, last, rfl, hc, hlast⟩ := List.map_eq_cons_iff.1 hrest
  obtain rfl := List.map_eq_nil_iff.1 hlast
  obtain ⟨hloop, rfl⟩ := Prod.mk.inj hn
  obtain ⟨hclose, rfl⟩ := Prod.mk.inj hc
  refine ⟨d, n, c, hd, ?_, hloop, hclose⟩
  rw [← Forest.ofTrees_trees d.forest, htrees]
  rfl

/-- A scope that binds the name of the item of a loop. -/
def boundItem : Scope := ⟨[.ofList [("x".toList, .string "a".toList)]], .empty⟩

theorem loopItems_boundItem : (loopItems boundItem "[true]".toList).result = [.bool true] := by
  cbv

/-- The loop over one item in a scope that binds its name, and not that of its number. -/
theorem Document.loop_names_of_read_bound_item :
    ∃ (d : Document) (s' : Scope),
      (Document.read .standard "{%foreach(x in [true])%}{%end%}".toList).result = .ok d ∧
      (renderForest d.forest false boundItem).result = .ok s' ∧
      s'.load "x".toList = pure (some (.bool true)) ∧
      s'.load "xIndex".toList = boundItem.load "xIndex".toList := by
  obtain ⟨d, n, c, hd, hforest, hloop, hclose⟩ := Document.exists_read_emptyLoop
  have hnode : (n, Forest.nil) ∈ d.forest.trees := by
    rw [hforest]
    exact .head _
  obtain ⟨s', events, hrender, hunbound, hitem, -⟩ :=
    Document.loop_names_of_read hd (.head _) hnode hloop false boundItem
  rw [loopItems_boundItem] at hunbound hitem
  refine ⟨d, s', hd, ?_, ?_, ?_⟩
  · rw [hforest, hrender c .nil .nil hclose]
    rfl
  · exact hitem ⟨_, .head _, rfl⟩ List.not_mem_nil _ rfl
  · refine hunbound "xIndex".toList (.inl ?_)
    rintro ⟨frame, hframe, hbinds⟩
    rw [List.mem_singleton.1 hframe] at hbinds
    exact absurd hbinds (by decide)

/-- **A loop overwrites names that were bound before it**, though it holds nothing that binds them:
the name of its item is left with the last item. -/
theorem Document.loop_overwrites_item :
    ∃ (d : Document) (s' : Scope),
      (Document.read .standard "{%foreach(x in [true])%}{%end%}".toList).result = .ok d ∧
      d.forest.bodies = [.nil, .nil] ∧
      (renderForest d.forest false boundItem).result = .ok s' ∧
      boundItem.load "x".toList = pure (some (.string "a".toList)) ∧
      s'.load "x".toList = pure (some (.bool true)) := by
  obtain ⟨d, n, c, hd, hforest, hloop, hclose⟩ := Document.exists_read_emptyLoop
  have hitems : renderItems "x".toList (renderBody .nil) 0
      (loopItems boundItem "[true]".toList).result boundItem.push =
        ⟨.ok ⟨[.nil, .ofList [("x".toList, .bool true)]], .empty⟩, []⟩ := by
    rw [loopItems_boundItem]
    rfl
  have hrender := renderForest_forEach_close hloop hclose .nil .nil .nil false hitems rfl
  refine ⟨d, ⟨[.ofList [("x".toList, .bool true)]], .empty⟩, hd, ?_, ?_, rfl, rfl⟩
  · rw [hforest]
    rfl
  · rw [hforest, hrender]
    rfl

end Stencil
