import Stencil.Proofs.Text.Occurrence
import Stencil.Segment

/-!
# How segments lie in a source

The segments of a source, written one after another, are the source again up to a tag that is never
closed; plain text goes as far as the next begin marker, and a tag as far as the next end marker.
`Segment.Layout` states this without a scanner, by where the markers stand in the source, and
`Segment.map_scan_eq_iff` says that the scanner finds the only list of segments with this layout,
whatever the markers have in common with each other.

Both halves of the proof go over the same four cases, one for each way in which the rest of a source
can start: plain text up to its end, plain text in front of a tag, a tag, and a tag without an end.

## Main Definitions

* `Segment.write`, `Segment.writeAll` — segments as they stand in a source
* `Segment.Layout` — the layout of a source as segments, and what is left of it behind them
-/

namespace Stencil.Segment

open Text

/-- A segment as it stands in a source. -/
def write (markers : Markers) : Segment → Text
  | text content => content
  | tag body => markers.opening ++ body ++ markers.closing

/-- Segments as they stand in a source. -/
def writeAll (markers : Markers) (segments : List Segment) : Text :=
  segments.flatMap (write markers)

@[simp] theorem writeAll_nil (markers : Markers) : writeAll markers [] = [] := rfl

@[simp] theorem writeAll_cons (markers : Markers) (segment : Segment) (segments : List Segment) :
    writeAll markers (segment :: segments) = write markers segment ++ writeAll markers segments :=
  List.flatMap_cons

/-- A source lies in segments and a rest behind them. -/
structure Layout (markers : Markers) (source : Text) (segments : List Segment) (rest : Text) :
    Prop where
  /-- The segments are a start of the source. -/
  written : writeAll markers segments ++ rest = source
  /-- What is left is nothing, or a begin marker without an end marker behind it. -/
  dangling : rest = [] ∨ ∃ t, rest = markers.opening ++ t ∧ ¬ markers.closing <:+: t
  text_ne_nil : ∀ content, text content ∈ segments → content ≠ []
  /-- No plain text comes right behind another. -/
  apart : ∀ content after, text content :: after <:+ segments →
    ∀ content', after.head? ≠ some (text content')
  /-- Plain text ends at the first begin marker, or at the end of the source. -/
  text_end : ∀ content after, text content :: after <:+ segments →
    FirstAt markers.opening (content ++ writeAll markers after ++ rest) content ∨
      after = [] ∧ ¬ markers.opening <:+: content ++ writeAll markers after ++ rest
  /-- The body of a tag ends at the first end marker. -/
  tag_end : ∀ body after, tag body :: after <:+ segments →
    FirstAt markers.closing (body ++ markers.closing ++ writeAll markers after ++ rest) body

variable {markers : Markers} {source rest t : Text} {segments : List Segment}

/-! ## One step of the scanner -/

theorem scanFrom_of_none (h : splitAt? markers.opening t = none) (place : Position) :
    scanFrom markers place t = if t = [] then [] else [(text t, ⟨place, place.after t⟩)] := by
  rw [scanFrom]
  split
  · rfl
  · next hsome =>
    rw [h] at hsome
    cases hsome

theorem scanFrom_of_some {before after : Text}
    (h : splitAt? markers.opening t = some (before, after)) (place : Position) :
    scanFrom markers place t =
      (if before = [] then [] else [(text before, ⟨place, place.after before⟩)]) ++
        match splitAt? markers.closing after with
        | none => []
        | some (body, rest) =>
          let closed := (place.after before).after (markers.opening ++ body ++ markers.closing)
          (tag body, ⟨place.after before, closed⟩) :: scanFrom markers closed rest := by
  rw [scanFrom]
  split
  · next hnone =>
    rw [h] at hnone
    cases hnone
  · next before' after' hsome =>
    obtain ⟨rfl, rfl⟩ := Prod.mk.inj (Option.some.inj (h.symm.trans hsome))
    dsimp only
    cases hclosing : splitAt? markers.closing after with
    | none => simp
    | some parts => simp

theorem splitAt?_opening (markers : Markers) (after : Text) :
    splitAt? markers.opening (markers.opening ++ after) = some ([], after) :=
  splitAt?_eq_some_iff.2 ⟨rfl, firstAt_nil (List.prefix_append _ _)⟩

/-- Nothing gives no segment. -/
theorem scanFrom_nil (markers : Markers) (place : Position) : scanFrom markers place [] = [] := by
  have hnone : ¬ markers.opening <:+: [] := fun h => markers.opening_ne_nil (List.infix_nil.1 h)
  rw [scanFrom_of_none (splitAt?_eq_none_iff.2 hnone), if_pos rfl]

/-- A begin marker without an end marker behind it gives no segment. -/
theorem scanFrom_dangling (h : ¬ markers.closing <:+: t) (place : Position) :
    scanFrom markers place (markers.opening ++ t) = [] := by
  rw [scanFrom_of_some (splitAt?_opening markers t), splitAt?_eq_none_iff.2 h]
  rfl

/-- A begin marker and the first end marker behind it make a tag. -/
theorem scanFrom_tag {body : Text}
    (h : FirstAt markers.closing (body ++ markers.closing ++ t) body) (place : Position) :
    scanFrom markers place (markers.opening ++ (body ++ markers.closing ++ t)) =
      (tag body, ⟨place, place.after (markers.opening ++ body ++ markers.closing)⟩) ::
        scanFrom markers (place.after (markers.opening ++ body ++ markers.closing)) t := by
  rw [scanFrom_of_some (splitAt?_opening markers _), splitAt?_eq_some_iff.2 ⟨rfl, h⟩]
  rfl

/-- Plain text in front of a begin marker is a segment of its own, and what comes behind it is read
as it would be by itself. -/
theorem scanFrom_text {content : Text} (hne : content ≠ [])
    (h : FirstAt markers.opening (content ++ (markers.opening ++ t)) content) (place : Position) :
    scanFrom markers place (content ++ (markers.opening ++ t)) =
      (text content, ⟨place, place.after content⟩) ::
        scanFrom markers (place.after content) (markers.opening ++ t) := by
  have hopening : splitAt? markers.opening (content ++ (markers.opening ++ t)) =
      some (content, t) := splitAt?_eq_some_iff.2 ⟨(List.append_assoc _ _ _).symm, h⟩
  rw [scanFrom_of_some hopening, scanFrom_of_some (splitAt?_opening markers t), if_neg hne,
    if_pos rfl]
  rfl

/-- Plain text that no begin marker ends goes on to the end of the source. -/
theorem scanFrom_plain (hne : t ≠ []) (h : ¬ markers.opening <:+: t) (place : Position) :
    scanFrom markers place t = [(text t, ⟨place, place.after t⟩)] := by
  rw [scanFrom_of_none (splitAt?_eq_none_iff.2 h), if_neg hne]

/-- All ways in which the rest of a source can start. -/
theorem start_cases (markers : Markers) (t : Text) :
    t = [] ∨ (t ≠ [] ∧ ¬ markers.opening <:+: t) ∨
      (∃ content after, content ≠ [] ∧ t = content ++ (markers.opening ++ after) ∧
        FirstAt markers.opening t content) ∨
      (∃ after, t = markers.opening ++ after ∧ ¬ markers.closing <:+: after) ∨
      ∃ body after, t = markers.opening ++ (body ++ markers.closing ++ after) ∧
        FirstAt markers.closing (body ++ markers.closing ++ after) body := by
  rcases eq_or_ne t [] with rfl | hne
  · exact .inl rfl
  cases hopening : splitAt? markers.opening t with
  | none => exact .inr (.inl ⟨hne, splitAt?_eq_none_iff.1 hopening⟩)
  | some parts =>
    obtain ⟨before, after⟩ := parts
    obtain ⟨ht, hfirst⟩ := splitAt?_eq_some_iff.1 hopening
    rw [List.append_assoc] at ht
    rcases eq_or_ne before [] with rfl | hbefore
    · cases hclosing : splitAt? markers.closing after with
      | none => exact .inr (.inr (.inr (.inl ⟨after, ht, splitAt?_eq_none_iff.1 hclosing⟩)))
      | some parts =>
        obtain ⟨body, rest⟩ := parts
        obtain ⟨rfl, hclosing⟩ := splitAt?_eq_some_iff.1 hclosing
        exact .inr (.inr (.inr (.inr ⟨body, rest, ht, hclosing⟩)))
    · exact .inr (.inr (.inl ⟨before, after, hbefore, ht, hfirst⟩))

/-! ## The layout that the scanner finds -/

/-- A begin marker without an end marker, or nothing at all, is a rest behind no segments. -/
theorem layout_nil (h : rest = [] ∨ ∃ t, rest = markers.opening ++ t ∧ ¬ markers.closing <:+: t) :
    Layout markers rest [] rest where
  written := rfl
  dangling := h
  text_ne_nil := by simp
  apart := by simp
  text_end := by simp
  tag_end := by simp

/-- Plain text without a begin marker lies in one segment. -/
theorem layout_plain (hne : t ≠ []) (h : ¬ markers.opening <:+: t) :
    Layout markers t [text t] [] where
  written := by simp [write]
  dangling := .inl rfl
  text_ne_nil := by simpa using hne
  apart := by simp [List.suffix_cons_iff]
  text_end := by
    intro content after hsuffix
    obtain ⟨rfl, rfl⟩ : content = t ∧ after = [] := by simpa [List.suffix_cons_iff] using hsuffix
    exact .inr ⟨rfl, by simpa using h⟩
  tag_end := by simp [List.suffix_cons_iff]

/-- What lies in a source behind a tag lies there with the tag, too. -/
theorem Layout.cons_tag (h : Layout markers source segments rest) {body : Text}
    (hbody : FirstAt markers.closing (body ++ markers.closing ++ source) body) :
    Layout markers (markers.opening ++ (body ++ markers.closing ++ source)) (tag body :: segments)
      rest where
  written := by simp [write, ← h.written]
  dangling := h.dangling
  text_ne_nil := by simpa using h.text_ne_nil
  apart := by
    intro content after hsuffix
    exact h.apart content after (by simpa [List.suffix_cons_iff] using hsuffix)
  text_end := by
    intro content after hsuffix
    exact h.text_end content after (by simpa [List.suffix_cons_iff] using hsuffix)
  tag_end := by
    intro body' after hsuffix
    rcases List.suffix_cons_iff.1 hsuffix with heq | hsuffix
    · obtain ⟨hbody', rfl⟩ := List.cons.inj heq
      obtain rfl := tag.inj hbody'
      rwa [List.append_assoc, h.written]
    · exact h.tag_end body' after hsuffix

/-- A source that starts with a begin marker has no plain text in front. -/
theorem Layout.head?_ne_text (h : Layout markers (markers.opening ++ t) segments rest)
    (content : Text) : segments.head? ≠ some (text content) := by
  intro hhead
  obtain ⟨after, rfl⟩ := List.head?_eq_some_iff.1 hhead
  have hopening : markers.opening <+: markers.opening ++ t := List.prefix_append _ _
  have hwritten : content ++ writeAll markers after ++ rest = markers.opening ++ t := h.written
  rcases h.text_end content after (List.suffix_refl _) with hfirst | ⟨-, hnone⟩
  · rw [hwritten] at hfirst
    have hnil := hfirst.unique (firstAt_nil hopening)
    exact h.text_ne_nil content (.head _) hnil
  · rw [hwritten] at hnone
    exact hnone hopening.isInfix

/-- What lies in a source behind plain text lies there with the text, too. -/
theorem Layout.cons_text (h : Layout markers (markers.opening ++ t) segments rest)
    {content : Text} (hne : content ≠ [])
    (hfirst : FirstAt markers.opening (content ++ (markers.opening ++ t)) content) :
    Layout markers (content ++ (markers.opening ++ t)) (text content :: segments) rest where
  written := by simp [write, ← h.written]
  dangling := h.dangling
  text_ne_nil := by simpa using ⟨hne, h.text_ne_nil⟩
  apart := by
    intro content' after hsuffix
    rcases List.suffix_cons_iff.1 hsuffix with heq | hsuffix
    · obtain ⟨-, rfl⟩ := List.cons.inj heq
      exact h.head?_ne_text
    · exact h.apart content' after hsuffix
  text_end := by
    intro content' after hsuffix
    rcases List.suffix_cons_iff.1 hsuffix with heq | hsuffix
    · obtain ⟨hcontent, rfl⟩ := List.cons.inj heq
      obtain rfl := text.inj hcontent
      rw [List.append_assoc, h.written]
      exact .inl hfirst
    · exact h.text_end content' after hsuffix
  tag_end := by
    intro body after hsuffix
    exact h.tag_end body after (by simpa [List.suffix_cons_iff] using hsuffix)

/-- What the scanner finds in a source lies in it. -/
theorem exists_layout_scanFrom (markers : Markers) (t : Text) (place : Position) :
    ∃ rest, Layout markers t ((scanFrom markers place t).map Prod.fst) rest := by
  induction hlength : t.length using Nat.strongRecOn generalizing t place with
  | _ n ih =>
    subst hlength
    rcases start_cases markers t with rfl | ⟨hne, hnone⟩ | ⟨content, after, hne, rfl, hfirst⟩ |
      ⟨after, rfl, hnone⟩ | ⟨body, after, rfl, hfirst⟩
    · refine ⟨[], ?_⟩
      rw [scanFrom_nil]
      exact layout_nil (.inl rfl)
    · refine ⟨[], ?_⟩
      rw [scanFrom_plain hne hnone]
      exact layout_plain hne hnone
    · have hshorter := List.length_pos_iff.2 hne
      obtain ⟨rest, hrest⟩ := ih (markers.opening ++ after).length
        (by simp only [List.length_append]; omega) _ (place.after content) rfl
      refine ⟨rest, ?_⟩
      rw [scanFrom_text hne hfirst]
      exact hrest.cons_text hne hfirst
    · refine ⟨markers.opening ++ after, ?_⟩
      rw [scanFrom_dangling hnone]
      exact layout_nil (.inr ⟨after, rfl, hnone⟩)
    · have hshorter := List.length_pos_iff.2 markers.opening_ne_nil
      obtain ⟨rest, hrest⟩ := ih after.length
        (by simp only [List.length_append]; omega) _
        (place.after (markers.opening ++ body ++ markers.closing)) rfl
      refine ⟨rest, ?_⟩
      rw [scanFrom_tag hfirst]
      exact hrest.cons_tag hfirst

/-! ## No other list has the layout -/

/-- What lies behind the first segment is a layout by itself. -/
theorem Layout.tail {segment : Segment} (h : Layout markers source (segment :: segments) rest) :
    Layout markers (writeAll markers segments ++ rest) segments rest where
  written := rfl
  dangling := h.dangling
  text_ne_nil := fun content hmem => h.text_ne_nil content (.tail _ hmem)
  apart := fun content after hsuffix => h.apart content after (hsuffix.trans (List.suffix_cons _ _))
  text_end := fun content after hsuffix =>
    h.text_end content after (hsuffix.trans (List.suffix_cons _ _))
  tag_end := fun body after hsuffix =>
    h.tag_end body after (hsuffix.trans (List.suffix_cons _ _))

/-- A source that lies in no segments is nothing, or a begin marker without an end marker. -/
theorem Layout.scanFrom_nil (h : Layout markers source [] rest) (place : Position) :
    scanFrom markers place source = [] := by
  obtain rfl : rest = source := h.written
  rcases h.dangling with rfl | ⟨t, rfl, hnone⟩
  · exact scanFrom_nil markers place
  · exact scanFrom_dangling hnone place

/-- The scanner finds the segments of every layout. -/
theorem Layout.map_scanFrom (h : Layout markers source segments rest) (place : Position) :
    (scanFrom markers place source).map Prod.fst = segments := by
  induction segments generalizing source place with
  | nil => rw [h.scanFrom_nil, List.map_nil]
  | cons segment segments ih =>
    have htail := h.tail
    obtain rfl := h.written
    cases segment with
    | text content =>
      have hne := h.text_ne_nil content (.head _)
      rw [writeAll_cons, write, List.append_assoc]
      rcases h.text_end content segments (List.suffix_refl _) with hfirst | ⟨rfl, hnone⟩
      · -- The first begin marker stands where the text ends.
        rw [List.append_assoc] at hfirst
        obtain ⟨t, ht⟩ := (List.prefix_append_right_inj content).1 hfirst.occurs
        rw [← ht] at hfirst htail ⊢
        rw [scanFrom_text hne hfirst, List.map_cons, ih htail]
      · have hrest : rest = [] := by
          rcases h.dangling with hrest | ⟨t, rfl, -⟩
          · exact hrest
          · exact absurd ⟨content, t, by simp⟩ hnone
        subst hrest
        rw [writeAll_nil, List.append_nil, List.append_nil] at hnone ⊢
        rw [scanFrom_plain hne hnone]
        rfl
    | tag body =>
      have hfirst := h.tag_end body segments (List.suffix_refl _)
      rw [List.append_assoc] at hfirst
      have hwritten : writeAll markers (tag body :: segments) ++ rest =
          markers.opening ++ (body ++ markers.closing ++ (writeAll markers segments ++ rest)) := by
        simp [write]
      rw [hwritten, scanFrom_tag hfirst, List.map_cons, ih htail]

/-- **The segments of a source are the only list that lies in it.**  Written one after another they
are a start of the source; what is left is nothing, or a begin marker without an end marker behind
it; plain text is never empty and ends at the first begin marker from its start on, or at the end of
the source if there is none; no plain text comes right behind another; and the body of a tag ends at
the first end marker from its start on. -/
theorem map_scan_eq_iff (markers : Markers) (source : Text) (segments : List Segment) :
    (scan markers source).map Prod.fst = segments ↔
      ∃ rest, Layout markers source segments rest := by
  constructor
  · rintro rfl
    exact exists_layout_scanFrom markers source .start
  · rintro ⟨rest, h⟩
    exact h.map_scanFrom .start

end Stencil.Segment
