import Mathlib.Tactic.Common
import Stencil.Json.Strict
import Stencil.Proofs.Rendering.Siblings
import Stencil.Proofs.Scope.Frames

/-!
# Rendering keeps the stack of frames balanced

Frames are opened by one sibling and closed by another, so a single node may leave the stack one
frame higher than it found it, or close a frame that it did not open.  What stays in place is the
stack *below* the frame that stands for an open branch.  `yields_renderNode` says what one node does
to that part; the shape of siblings (`Forest.Fits`) lets the nodes follow each other, since the part
below what one node leaves open is the part below what the next one closes.  A branch or a pass of a
loop has a frame of its own, and so adds no name below it, whatever it holds.

## Main Definitions

* `Node.assigned`, `Forest.assigned` — the names that siblings assign themselves
* `Scope.below` — a scope without the frame of the branch that is open
* `Attempt.Yields` — what may become of a scope, and when it may lack a frame
-/

namespace Stencil

/-- The name that a node assigns, if it is an assignment. -/
def Node.assigned (n : Node) : List Text :=
  match n.statement with
  | .assign name _ _ => [name]
  | _ => []

/-- The names that siblings assign themselves; what they hold does not count. -/
def Forest.assigned : Forest → List Text
  | nil => []
  | node n _ rest => n.assigned ++ assigned rest

namespace Scope

/-- A scope without the frame of the branch that is open, if one is. -/
def below (opened : Bool) (s : Scope) : Scope :=
  if opened then { s with frames := s.frames.tail } else s

@[simp] theorem below_false (s : Scope) : s.below false = s := rfl

@[simp] theorem below_push (s : Scope) : s.push.below true = s := rfl

theorem below_of_closeFrame {s left : Scope} (h : closeFrame s = .ok left) :
    s.below true = left := by
  obtain ⟨frames, model⟩ := s
  cases frames with
  | nil => cases h
  | cons frame frames => exact Except.ok.inj h

theorem frames_eq_nil_of_closeFrame {s : Scope} {fault : Fault} (h : closeFrame s = .error fault) :
    (s.below true).frames = [] := by
  obtain ⟨frames, model⟩ := s
  cases frames with
  | nil => rfl
  | cons frame frames => cases h

/-- Closing what is open on top of a part of the stack leaves that part. -/
theorem truncate_depth_below (opened : Bool) (s : Scope) :
    s.truncate (s.below opened).depth = s.below opened := by
  cases opened with
  | false => exact s.truncate_depth
  | true =>
    obtain ⟨frames, model⟩ := s
    cases frames with
    | nil => rfl
    | cons frame frames =>
      simp [truncate, below, depth]

/-- A run in a frame of its own keeps the names below the frame. -/
theorem Grows.below_of_push {names : List Text} {s s' : Scope} (h : Grows names s.push s') :
    Grows [] s (s'.below true) :=
  ⟨Keeps.nil_iff.2 h.frames.tail, h.model⟩

theorem Local.grows {s inner left : Scope} (h : Local s inner left) : Grows [] s left :=
  ⟨Keeps.nil_iff.2 h.same, h.model⟩

end Scope

/-! ## Computations that keep the stack below them -/

/-- A computation that starts in a scope may add the given names to it and changes nothing else but
values, as far as `scope` shows of what it ends in.  It only lacks a frame if there was none. -/
structure Attempt.Yields {α : Type} (names : List Text) (s : Scope) (scope : α → Scope)
    (x : Attempt α) : Prop where
  grows : ∀ a, x.result = .ok a → s.Grows names (scope a)
  fault : ∀ fault, x.result = .error fault → s.frames = []

namespace Attempt

variable {α β : Type} {names names' : List Text} {s : Scope} {scope : α → Scope}
  {scope' : β → Scope}

theorem yields_of_ok {x : Attempt α} {a : α} (hx : x.result = .ok a)
    (h : s.Grows names (scope a)) : Yields names s scope x where
  grows b hb := by
    rw [hx] at hb
    obtain rfl := Except.ok.inj hb
    exact h
  fault fault hfault := by
    rw [hx] at hfault
    cases hfault

theorem yields_of_error {x : Attempt α} {fault : Scope.Fault} (hx : x.result = .error fault)
    (h : s.frames = []) : Yields names s scope x where
  grows a ha := by
    rw [hx] at ha
    cases ha
  fault _ _ := h

/-- Where there is a frame, a computation comes to its end. -/
theorem Yields.exists_ok {x : Attempt α} (h : Yields names s scope x) (hs : s.frames ≠ []) :
    ∃ a, x.result = .ok a ∧ s.Grows names (scope a) := by
  cases hx : x.result with
  | ok a => exact ⟨a, rfl, h.grows a hx⟩
  | error fault => exact absurd (h.fault fault hx) hs

/-- One computation after another may add the names of both. -/
theorem Yields.andThen {x : Attempt α} {next : α → Attempt β} (hx : Yields names s scope x)
    (hnext : ∀ a, x.result = .ok a → Yields names' (scope a) scope' (next a)) :
    Yields (names ++ names') s scope' (x.andThen next) := by
  cases h : x.result with
  | error fault =>
    exact yields_of_error (by rw [andThen_of_error h]) (hx.fault fault h)
  | ok a =>
    rw [andThen_of_ok h]
    have hgrows : s.Grows names (scope a) := hx.grows a h
    constructor
    · intro b hb
      exact hgrows.trans ((hnext a h).grows b hb)
    · intro fault hfault
      rw [← hgrows.frames_eq_nil_iff]
      exact (hnext a h).fault fault hfault

/-- What comes before a computation with events of its own changes no scope. -/
theorem Yields.bind {x : Traced β} {f : β → Attempt α} (h : ∀ b, Yields names s scope (f b)) :
    Yields names s scope (Traced.bind x f) :=
  ⟨(h x.result).grows, (h x.result).fault⟩

end Attempt

open Attempt (Yields yields_of_ok yields_of_error)

/-! ## Frames that open and close -/

/-- Closing a frame leaves the stack below it. -/
theorem yields_closeFrame (s : Scope) :
    Yields [] (s.below true) id (Rendering.ofScope (closeFrame s)) where
  grows left h := by
    rw [Scope.below_of_closeFrame h]
    exact Scope.Grows.refl left
  fault _ h := Scope.frames_eq_nil_of_closeFrame h

theorem replaceFrame_of_ok {s left : Scope} (h : closeFrame s = .ok left) :
    replaceFrame s = .ok left.push := by
  rw [replaceFrame, h]
  rfl

theorem replaceFrame_of_error {s : Scope} {fault : Scope.Fault} (h : closeFrame s = .error fault) :
    replaceFrame s = .error fault := by
  rw [replaceFrame, h]
  rfl

/-- A pass starts where first the item and then its number are bound in a new frame. -/
theorem bindItem_eq_ok {s start : Scope} {item : Text} {index : Nat} {v : Value} :
    bindItem s item index v = .ok start ↔
      ∃ named, s.push.store item v = (.ok (), named) ∧
        named.store (indexName item) (.number (.ofNat index)) = (.ok (), start) := by
  simp only [bindItem, ← Scope.onward_eq_ok]
  cases Scope.onward (s.push.store item v) with
  | error fault =>
    constructor
    · rintro ⟨⟩
    · rintro ⟨named, ⟨⟩, -⟩
  | ok named =>
    constructor
    · intro h
      exact ⟨named, rfl, h⟩
    · rintro ⟨_, ⟨⟩, h⟩
      exact h

/-- In a new frame the item and the number of a pass can be bound. -/
theorem exists_bindItem (s : Scope) (item : Text) (index : Nat) (v : Value) :
    ∃ start, bindItem s item index v = .ok start ∧
      s.push.Grows [item, indexName item] start := by
  obtain ⟨named, hnamed⟩ := Scope.exists_store (s := s.push) (List.cons_ne_nil _ _) item v
  have hgrows : s.push.Grows [item] named := Scope.grows_of_store hnamed
  have hframes : named.frames ≠ [] := mt hgrows.frames_eq_nil_iff.1 (List.cons_ne_nil _ _)
  obtain ⟨start, hstart⟩ := Scope.exists_store hframes (indexName item) (.number (.ofNat index))
  exact ⟨start, bindItem_eq_ok.2 ⟨named, hnamed, hstart⟩,
    hgrows.trans (Scope.grows_of_store hstart)⟩

/-! ## Loops -/

variable {body : Scope → Rendering} {names : List Text}

/-- A pass of a loop always comes to its end, and leaves only values behind. -/
theorem exists_pass (hbody : ∀ s, Yields names s id (body s)) (s : Scope) (item : Text)
    (index : Nat) (v : Value) :
    ∃ start inner left, bindItem s item index v = .ok start ∧ (body start).result = .ok inner ∧
      s.Local inner left := by
  obtain ⟨start, hstart, hbound⟩ := exists_bindItem s item index v
  have hframes : start.frames ≠ [] := mt hbound.frames_eq_nil_iff.1 (List.cons_ne_nil _ _)
  obtain ⟨inner, hinner, hgrows⟩ := (hbody start).exists_ok hframes
  obtain ⟨left, hleft⟩ := Scope.Local.of_grows (hbound.trans hgrows)
  exact ⟨start, inner, left, hstart, hinner, hleft⟩

/-- What the passes of a loop come to, one pass at a time. -/
theorem renderItems_cons {item : Text} {index : Nat} {v : Value} {rest : List Value}
    {s start inner left : Scope} (hstart : bindItem s item index v = .ok start)
    (hinner : (body start).result = .ok inner) (hleft : closeFrame inner = .ok left) :
    renderItems item body index (v :: rest) s =
      ⟨(renderItems item body (index + 1) rest left).result,
        (body start).events ++ (renderItems item body (index + 1) rest left).events⟩ := by
  simp only [renderItems, Rendering.andThen_eq]
  rw [Attempt.andThen_of_ok hstart, Attempt.andThen_of_ok hinner, Attempt.andThen_of_ok hleft]
  rfl

/-- **The passes of a loop add no name** to the scope that the loop starts in. -/
theorem yields_renderItems (hbody : ∀ s, Yields names s id (body s)) (item : Text) (index : Nat)
    (items : List Value) (s : Scope) : Yields [] s id (renderItems item body index items s) := by
  induction items generalizing index s with
  | nil => exact yields_of_ok rfl (Scope.Grows.refl s)
  | cons v rest ih =>
    obtain ⟨start, inner, left, hstart, hinner, hleft⟩ := exists_pass hbody s item index v
    rw [renderItems_cons hstart hinner hleft.closed]
    have hrest := ih (index + 1) left
    constructor
    · intro s' hs'
      exact hleft.grows.trans (hrest.grows s' hs')
    · intro fault hfault
      rw [← hleft.grows.frames_eq_nil_iff]
      exact hrest.fault fault hfault

section Library

variable [Json.Library]

/-! ## One node, and siblings -/

/-- An assignment adds its name, and lacks a frame only if there is none. -/
theorem yields_assign (s : Scope) (name expr : Text) : Yields [name] s id (assign s name expr) where
  grows _ h := Scope.grows_of_store (Scope.onward_eq_ok.1 h)
  fault fault h := by
    by_contra hframes
    obtain ⟨s', hs'⟩ := Scope.exists_store hframes name ((evaluate s expr .all).result.getD .null)
    have hassign : (assign s name expr).result = .ok s' := Scope.onward_eq_ok.2 hs'
    rw [hassign] at h
    cases h

/-- A clause that is taken or not leaves the stack below its frame. -/
theorem yields_renderIf {body : Forest} (hbody : ∀ s, Yields body.assigned s id (renderBody body s))
    (test : Traced Bool) (s : Scope) :
    Yields [] s (fun r => r.1.below true) (renderIf test body s.push) := by
  apply Yields.bind
  intro truth
  cases truth with
  | false => exact yields_of_ok rfl (Scope.Grows.refl s)
  | true =>
    obtain ⟨inner, hinner, hgrows⟩ := (hbody s.push).exists_ok (List.cons_ne_nil _ _)
    simp only [if_true]
    rw [Attempt.andThen_of_ok hinner]
    exact yields_of_ok rfl hgrows.below_of_push

/-- A clause that is not the first of its chain leaves the stack below its frame. -/
theorem yields_further {body : Forest} (hbody : ∀ s, Yields body.assigned s id (renderBody body s))
    (taken : Bool) (test : Scope → Traced Bool) (s : Scope) :
    Yields [] (s.below true) (fun r : Scope × Bool => r.1.below true)
      (Attempt.andThen (Rendering.ofScope (replaceFrame s)) fun s =>
        if taken then .done (s, true) else renderIf (test s) body s) := by
  cases h : closeFrame s with
  | error fault =>
    rw [replaceFrame_of_error h]
    exact yields_of_error rfl (Scope.frames_eq_nil_of_closeFrame h)
  | ok left =>
    rw [replaceFrame_of_ok h, Rendering.ofScope_ok, Attempt.done_andThen,
      Scope.below_of_closeFrame h]
    cases taken with
    | true => exact yields_of_ok rfl (Scope.Grows.refl left)
    | false => exact yields_renderIf hbody (test left.push) left

/-- **One node** may add the name that it assigns below the frame of the branch that is open, and no
other. -/
theorem yields_renderNode {n : Node} {body : Forest}
    (hbody : ∀ s, Yields body.assigned s id (renderBody body s)) (taken : Bool) (s : Scope) :
    Yields n.assigned (s.below n.kind.closes) (fun r => r.1.below n.kind.opens)
      (renderNode n body taken s) := by
  unfold renderNode Node.assigned Node.kind
  cases n.statement with
  | text | value | debug => exact yields_of_ok rfl (Scope.Grows.refl s)
  | assign name expr =>
    apply (yields_assign s name expr).andThen
    intro s' _
    exact yields_of_ok rfl (Scope.Grows.refl s')
  | ifTrue predicate => exact yields_renderIf hbody _ s
  | elseIf predicate => exact yields_further hbody taken (holds · predicate) s
  | otherwise => exact yields_further hbody taken (fun _ => pure true) s
  | close =>
    apply (yields_closeFrame s).andThen
    intro left _
    exact yields_of_ok rfl (Scope.Grows.refl left)
  | forEach item source =>
    apply Yields.bind
    intro items
    have hitems := yields_renderItems hbody item 0 items s.push
    obtain ⟨s', hs', hgrows⟩ := hitems.exists_ok (List.cons_ne_nil _ _)
    rw [Attempt.andThen_of_ok hs']
    exact yields_of_ok rfl hgrows.below_of_push

/-- What siblings hold is cut off to the part of the stack that the siblings leave in place. -/
theorem yields_renderBody_of_renderForest {f : Forest} {opened : Bool} {s : Scope}
    (h : Yields f.assigned s (Scope.below opened) (renderForest f false s)) :
    Yields f.assigned s id (renderBody f s) := by
  rw [renderBody_eq]
  have hcut : Yields (f.assigned ++ []) s id (Attempt.andThen (renderForest f false s) fun after =>
      Rendering.done (after.truncate s.depth)) := by
    apply h.andThen
    intro after hafter
    have hdepth : s.depth = (after.below opened).depth := (h.grows after hafter).depth_eq.symm
    rw [hdepth, Scope.truncate_depth_below]
    exact yields_of_ok rfl (Scope.Grows.refl _)
  rwa [List.append_nil] at hcut

/-- **Siblings that fit together** add the names that they assign themselves, and no other, below
the frames of the branches that are open in front of them and behind them. -/
theorem yields_renderForest {f : Forest} {opened : Bool} (hfits : f.Fits opened) (taken : Bool)
    (s : Scope) :
    Yields f.assigned (s.below opened) (Scope.below (Forest.openBehind opened f.trees))
      (renderForest f taken s) := by
  induction f generalizing opened taken s with
  | nil => exact yields_of_ok rfl (Scope.Grows.refl _)
  | node n body rest ihb ihr =>
    obtain ⟨rfl, hbody, hrest⟩ := hfits
    rw [renderForest_node]
    have hinside : ∀ s, Yields body.assigned s id (renderBody body s) := by
      intro s
      exact yields_renderBody_of_renderForest (ihb hbody false s)
    -- The part of the stack that the node leaves in place is the one that the others start from:
    -- the next sibling closes a branch exactly if the node opens one.
    apply (yields_renderNode hinside taken s).andThen
    intro r _
    exact ihr hrest r.2 r.1

/-- What a node of a document holds adds the names that it assigns itself, and no other. -/
theorem yields_renderBody {f : Forest} (hfits : f.Fits false) (s : Scope) :
    Yields f.assigned s id (renderBody f s) :=
  yields_renderBody_of_renderForest (yields_renderForest hfits false s)

/-! ## Documents -/

/-- What is rendered in a frame of its own comes to its end and leaves only values behind. -/
theorem exists_local_renderBody {f : Forest} (hfits : f.Fits false) (s : Scope) :
    ∃ inner left, (renderBody f s.push).result = .ok inner ∧ s.Local inner left := by
  obtain ⟨inner, hinner, hgrows⟩ :=
    (yields_renderBody hfits s.push).exists_ok (List.cons_ne_nil _ _)
  obtain ⟨left, hleft⟩ := Scope.Local.of_grows hgrows
  exact ⟨inner, left, hinner, hleft⟩

/-- A document whose siblings fit together is rendered to its end. -/
theorem Document.exists_render {d : Document} (hfits : d.forest.Fits false) (model : Model) :
    ∃ s, (d.render model).result = .ok s := by
  obtain ⟨inner, left, hinner, hlocal⟩ := exists_local_renderBody hfits (Scope.ofModel model)
  rw [render, Rendering.andThen_eq, Attempt.andThen_of_ok hinner]
  exact ⟨left, hlocal.closed⟩

/-- **Rendering keeps the stack of frames balanced.**  No rendering of a document lacks a frame.
Siblings on any level, rendered in any scope that has a frame, leave as many frames as there were;
all of them bind the names that they bound before, and the innermost one, besides, the names that
these siblings assign themselves and no other frame binds.  So a branch, and likewise a pass of a
loop, leaves no name behind that the scope around it did not bind, and leaves to those that it bound
the values that they had at the end. -/
theorem Document.balanced_of_read {markers : Markers} {source : Text} {d : Document}
    (h : (Document.read markers source).result = .ok d) :
    (∀ model, (d.render model).result = .ok (Scope.ofModel model)) ∧
      ∀ siblings ∈ d.levels, ∀ s : Scope,
        (s.frames ≠ [] → ∃ s', (renderBody siblings s).result = .ok s' ∧ s'.depth = s.depth ∧
          s.Grows siblings.assigned s') ∧
        (∃ inner left, (renderBody siblings s.push).result = .ok inner ∧ s.Local inner left) ∧
        ∀ item index v, ∃ start inner left, bindItem s item index v = .ok start ∧
          (renderBody siblings start).result = .ok inner ∧ s.Local inner left := by
  constructor
  · intro model
    have hfits : d.forest.Fits false := Document.fits_of_read h (.head _)
    obtain ⟨inner, ⟨frames, _⟩, hinner, hlocal⟩ :=
      exists_local_renderBody hfits (Scope.ofModel model)
    obtain rfl : frames = [] := List.forall₂_nil_left_iff.1 hlocal.same
    obtain rfl := hlocal.model
    rw [Document.render, Rendering.andThen_eq, Attempt.andThen_of_ok hinner]
    exact hlocal.closed
  · intro siblings hmem s
    have hfits : siblings.Fits false := Document.fits_of_read h hmem
    refine ⟨?_, exists_local_renderBody hfits s, ?_⟩
    · intro hframes
      obtain ⟨s', hs', hgrows⟩ := (yields_renderBody hfits s).exists_ok hframes
      exact ⟨s', hs', hgrows.depth_eq, hgrows⟩
    · intro item index v
      exact exists_pass (yields_renderBody hfits) s item index v

end Library

open Json.Strict

/-- A branch that the source leaves open, with a loop in it, in the frame of the whole document. -/
theorem Document.balanced_of_read_open_branch :
    ∃ d, (Document.read .standard
        "{% if(a) %}{% b = 1 %}{% foreach(c in a) %}{% b = c %}{% end %}".toList).result = .ok d ∧
      d.levels.map Forest.assigned = [[], ["b".toList], [], ["b".toList], [], []] ∧
      (d.render .empty).result = .ok (Scope.ofModel .empty) ∧
      ∃ s', (renderBody d.forest (Scope.ofModel .empty).push).result = .ok s' ∧ s'.depth = 1 ∧
        (Scope.ofModel .empty).push.Grows d.forest.assigned s' := by
  have hread := Document.exists_read .standard
    "{% if(a) %}{% b = 1 %}{% foreach(c in a) %}{% b = c %}{% end %}".toList
    (P := fun d => d.levels.map Forest.assigned = [[], ["b".toList], [], ["b".toList], [], []])
    (by decide +kernel)
  obtain ⟨d, hd, hassigned⟩ := hread
  obtain ⟨hrender, hlevels⟩ := Document.balanced_of_read hd
  refine ⟨d, hd, hassigned, hrender .empty, ?_⟩
  exact (hlevels d.forest (.head _) (Scope.ofModel .empty).push).1 (List.cons_ne_nil _ _)

end Stencil
