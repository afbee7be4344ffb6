import Stencil.Proofs.Segment.Layout

/-!
# Segments of a source with more behind it

What comes behind a source may change its segments: plain text at its end goes on, and a begin
marker that was dangling may find its end marker.  If all tags of the source are closed and a tag
comes next, neither happens, and the segments of the whole are those of the source and then those of
the rest (`Segment.scanFrom_append_tag`).

This is about the usual markers.  Of markers that overlap with themselves, a part at the end of the
source could be completed by the tag behind it.

## Main Definitions

* `Segment.Closed` — no begin marker of a source is left without its end marker
* `Segment.endTags` — tags that end a number of branches
-/

namespace Stencil.Segment

open Text

/-- The segments make up the whole source: no begin marker is left without an end marker. -/
def Closed (markers : Markers) (source : Text) : Prop :=
  writeAll markers ((scan markers source).map Prod.fst) = source

instance (markers : Markers) (source : Text) : Decidable (Closed markers source) :=
  inferInstanceAs (Decidable (writeAll markers ((scan markers source).map Prod.fst) = source))

/-- Only a begin marker that stands outside all tags and has no end marker behind it can keep a
source from being closed. -/
theorem not_closed_iff {markers : Markers} {source : Text} :
    ¬ Closed markers source ↔
      ∃ t, Layout markers source ((scan markers source).map Prod.fst) (markers.opening ++ t) ∧
        ¬ markers.closing <:+: t := by
  constructor
  · intro hnot
    obtain ⟨rest, h⟩ := exists_layout_scanFrom markers source .start
    rcases h.dangling with rfl | ⟨t, rfl, hnone⟩
    · have hwritten := h.written
      rw [List.append_nil] at hwritten
      exact absurd hwritten hnot
    · exact ⟨t, h, hnone⟩
  · rintro ⟨t, h, -⟩ hclosed
    have hwritten := h.written
    rw [hclosed, List.append_right_eq_self, List.append_eq_nil_iff] at hwritten
    exact markers.opening_ne_nil hwritten.1

/-- The begin marker of a tag behind plain text is the first one. -/
theorem firstAt_opening {t : Text} (h : ¬ Markers.standard.opening <:+: t) (more : Text) :
    FirstAt Markers.standard.opening (t ++ (Markers.standard.opening ++ more)) t :=
  firstAt_pair (by decide) h more

/-- The end marker behind the body of a tag is the first one. -/
theorem firstAt_closing {t : Text} (h : ¬ Markers.standard.closing <:+: t) (more : Text) :
    FirstAt Markers.standard.closing (t ++ Markers.standard.closing ++ more) t := by
  rw [List.append_assoc]
  exact firstAt_pair (by decide) h more

/-- **A tag behind a source whose tags are closed** adds its segments, and changes none. -/
theorem scanFrom_append_tag {t : Text} {place : Position}
    (h : writeAll .standard ((scanFrom .standard place t).map Prod.fst) = t) (more : Text) :
    scanFrom .standard place (t ++ (Markers.standard.opening ++ more)) =
      scanFrom .standard place t ++
        scanFrom .standard (place.after t) (Markers.standard.opening ++ more) := by
  induction hlength : t.length using Nat.strongRecOn generalizing t place with
  | _ n ih =>
    subst hlength
    rcases start_cases .standard t with rfl | ⟨hne, hnone⟩ | ⟨content, after, hne, rfl, hfirst⟩ |
      ⟨after, rfl, hnone⟩ | ⟨body, after, rfl, hfirst⟩
    · rw [scanFrom_nil, List.nil_append, List.nil_append]
      rfl
    · rw [scanFrom_text hne (firstAt_opening hnone more), scanFrom_plain hne hnone]
      rfl
    · rw [scanFrom_text hne hfirst, List.map_cons, writeAll_cons, write] at h
      have hrest := List.append_cancel_left h
      have hshorter := List.length_pos_iff.2 hne
      have hfirst' := hfirst.append (Markers.standard.opening ++ more)
      rw [List.append_assoc, List.append_assoc] at hfirst'
      rw [scanFrom_text hne hfirst, List.append_assoc, List.append_assoc,
        scanFrom_text hne hfirst', ← List.append_assoc Markers.standard.opening,
        ih _ (by simp only [List.length_append]; omega) hrest rfl, ← Position.after_append]
      rfl
    · -- A begin marker without an end marker is no part of any segment.
      rw [scanFrom_dangling hnone] at h
      exact absurd (List.append_eq_nil_iff.1 h.symm).1 Markers.standard.opening_ne_nil
    · rw [scanFrom_tag hfirst, List.map_cons, writeAll_cons, write] at h
      rw [← List.append_assoc Markers.standard.opening,
        ← List.append_assoc Markers.standard.opening] at h
      have hrest := List.append_cancel_left h
      have hshorter := List.length_pos_iff.2 Markers.standard.opening_ne_nil
      have hfirst' := hfirst.append (Markers.standard.opening ++ more)
      rw [List.append_assoc] at hfirst'
      rw [scanFrom_tag hfirst, List.append_assoc Markers.standard.opening,
        List.append_assoc (body ++ Markers.standard.closing), scanFrom_tag hfirst',
        ih _ (by simp only [List.length_append]; omega) hrest rfl, ← Position.after_append]
      simp only [List.append_assoc, List.cons_append]

/-! ## Tags that end branches -/

/-- As many tags that end a branch as are asked for, one right behind another. -/
def endTags (k : Nat) : Text := (List.replicate k "{% end %}".toList).flatten

theorem endTags_succ (k : Nat) :
    endTags (k + 1) = Markers.standard.opening ++
      (" end ".toList ++ Markers.standard.closing ++ endTags k) := by
  rw [endTags, List.replicate_succ, List.flatten_cons]
  rfl

theorem map_scanFrom_endTags (k : Nat) (place : Position) :
    (scanFrom .standard place (endTags k)).map Prod.fst =
      List.replicate k (tag " end ".toList) := by
  induction k generalizing place with
  | zero => rw [show endTags 0 = [] from rfl, scanFrom_nil, List.map_nil, List.replicate_zero]
  | succ k ih =>
    rw [endTags_succ, scanFrom_tag (firstAt_closing (by decide) _), List.map_cons, ih,
      List.replicate_succ]

/-- Behind a source whose tags are closed, tags that end branches are segments of their own. -/
theorem exists_scan_endTags {source : Text} (h : Closed .standard source) (k : Nat) :
    ∃ ends, ends.map Prod.fst = List.replicate k (tag " end ".toList) ∧
      scan .standard (source ++ endTags k) = scan .standard source ++ ends := by
  cases k with
  | zero =>
    refine ⟨[], rfl, ?_⟩
    rw [show endTags 0 = [] from rfl, List.append_nil, List.append_nil]
  | succ k =>
    refine ⟨_, map_scanFrom_endTags (k + 1) (Position.start.after source), ?_⟩
    rw [endTags_succ]
    exact scanFrom_append_tag h _

end Stencil.Segment
