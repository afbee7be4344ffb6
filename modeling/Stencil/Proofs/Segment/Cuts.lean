import Stencil.Proofs.Segment.Layout
import Stencil.Proofs.Text.Bytes

/-!
# Segments of bytes

A source can be cut into segments without a look at its characters: its bytes are searched for the
bytes of the markers, and everything is counted in bytes (`Segment.scanBytes`).  Such a cut could
fall inside a character.  It never does: what is found are the segments of the source, with the
offsets that the scanner of characters gives them, as long as numbers of thirty-two bits are enough
for the bytes (`Segment.scanBytes_bytes`).

## Main Definitions

* `Segment.Cut` — a segment by its bytes
* `Segment.scanBytes` — the segments of a source of bytes
-/

namespace Stencil.Segment

open Text

/-- A segment by its bytes. -/
structure Cut where
  /-- Whether the segment is a tag. -/
  isTag : Bool
  /-- The bytes of plain text, or those between the markers of a tag. -/
  content : List UInt8
  /-- The bytes in front of the segment. -/
  start : Nat
  /-- The bytes up to the end of the segment. -/
  stop : Nat
deriving DecidableEq

/-- The bytes of a segment, and of what stands in front of it. -/
def cut : Segment × Span → Cut
  | (text content, span) =>
    ⟨false, bytes content, span.start.offset.toNat, span.stop.offset.toNat⟩
  | (tag body, span) => ⟨true, bytes body, span.start.offset.toNat, span.stop.offset.toNat⟩

/-- Behind a tag fewer bytes are left than before it. -/
theorem length_behind_tag {markers : Markers} {source : List UInt8} {n : Nat}
    (h : findBytes? (bytes markers.opening) source = some n) (m : Nat) :
    ((source.drop n).drop (byteSize markers.opening + m + byteSize markers.closing)).length <
      source.length := by
  have hsource : source ≠ [] := by
    rintro rfl
    obtain ⟨b, wanted, hopening, -⟩ := exists_bytes_of_ne_nil markers.opening_ne_nil
    rw [hopening] at h
    cases h
  have hlength := List.length_pos_iff.2 hsource
  have hopening := List.length_pos_iff.2 markers.opening_ne_nil
  have hle := length_le_byteSize markers.opening
  rw [List.length_drop, List.length_drop]
  omega

/-- The segments of the remaining bytes of a source, which start not in a tag, with as many bytes in
front of them as given. -/
def scanBytesFrom (markers : Markers) (offset : Nat) (source : List UInt8) : List Cut :=
  match _ : findBytes? (bytes markers.opening) source with
  | none => if source = [] then [] else [⟨false, source, offset, offset + source.length⟩]
  | some n =>
    let lead := if n = 0 then [] else [Cut.mk false (source.take n) offset (offset + n)]
    let opened := (source.drop n).drop (byteSize markers.opening)
    match findBytes? (bytes markers.closing) opened with
    | none => lead
    | some m =>
      let size := byteSize markers.opening + m + byteSize markers.closing
      lead ++ ⟨true, opened.take m, offset + n, offset + n + size⟩ ::
        scanBytesFrom markers (offset + n + size) ((source.drop n).drop size)
termination_by source.length
decreasing_by exact length_behind_tag ‹_› m

/-- The segments of a source of bytes. -/
def scanBytes (markers : Markers) (source : List UInt8) : List Cut := scanBytesFrom markers 0 source

variable {markers : Markers} {source : List UInt8}

/-! ## One step of the scanner of bytes -/

theorem scanBytesFrom_of_none (h : findBytes? (bytes markers.opening) source = none)
    (offset : Nat) : scanBytesFrom markers offset source =
      if source = [] then [] else [⟨false, source, offset, offset + source.length⟩] := by
  rw [scanBytesFrom]
  split
  · rfl
  · next hsome =>
    rw [h] at hsome
    cases hsome

theorem scanBytesFrom_of_some {n : Nat} (h : findBytes? (bytes markers.opening) source = some n)
    (offset : Nat) : scanBytesFrom markers offset source =
      (if n = 0 then [] else [⟨false, source.take n, offset, offset + n⟩]) ++
        let opened := (source.drop n).drop (byteSize markers.opening)
        match findBytes? (bytes markers.closing) opened with
        | none => []
        | some m =>
          let size := byteSize markers.opening + m + byteSize markers.closing
          ⟨true, opened.take m, offset + n, offset + n + size⟩ ::
            scanBytesFrom markers (offset + n + size) ((source.drop n).drop size) := by
  rw [scanBytesFrom]
  split
  · next hnone =>
    rw [h] at hnone
    cases hnone
  · next n' hsome =>
    obtain rfl := Option.some.inj (h.symm.trans hsome)
    dsimp only
    cases findBytes? (bytes markers.closing) _ with
    | none => simp
    | some m => rfl

/-! ## Bytes that are a text -/

theorem byteSize_eq_zero_iff {t : Text} : byteSize t = 0 ↔ t = [] := by
  constructor
  · intro h
    have hle := length_le_byteSize t
    exact List.length_eq_zero_iff.1 (by omega)
  · rintro rfl
    rfl

theorem bytes_eq_nil_iff {t : Text} : bytes t = [] ↔ t = [] := by
  rw [← List.length_eq_zero_iff, length_bytes, byteSize_eq_zero_iff]

theorem drop_bytes (s t : Text) : (bytes (s ++ t)).drop (byteSize s) = bytes t := by
  rw [bytes_append, ← length_bytes, List.drop_left]

theorem take_bytes (s t : Text) : (bytes (s ++ t)).take (byteSize s) = bytes s := by
  rw [bytes_append, ← length_bytes, List.take_left]

theorem offset_after (place : Position) (t : Text) :
    (place.after t).offset = place.offset + .ofNat (byteSize t) := by
  induction t generalizing place with
  | nil => exact (UInt32.add_zero _).symm
  | cons c t ih =>
    have hnext : (place.next c).offset = place.offset + .ofNat c.utf8Size := by
      rw [Position.next]
      split <;> rfl
    rw [byteSize_cons, UInt32.ofNat_add, ← UInt32.add_assoc, ← hnext]
    exact ih (place.next c)

/-- As long as there are bits enough, an offset counts bytes. -/
theorem toNat_offset_after {place : Position} {t : Text}
    (h : place.offset.toNat + byteSize t < Nat.pow 2 32) :
    (place.after t).offset.toNat = place.offset.toNat + byteSize t := by
  have hsize : byteSize t < Nat.pow 2 32 := Nat.lt_of_le_of_lt (Nat.le_add_left _ _) h
  rw [offset_after, UInt32.toNat_add, UInt32.toNat_ofNat', Nat.mod_eq_of_lt hsize]
  exact Nat.mod_eq_of_lt h

/-- A tag of bytes is a tag of characters. -/
theorem cut_tag {place : Position} {body : Text}
    (h : place.offset.toNat + byteSize (markers.opening ++ body ++ markers.closing) <
      Nat.pow 2 32) :
    cut (tag body, ⟨place, place.after (markers.opening ++ body ++ markers.closing)⟩) =
      ⟨true, bytes body, place.offset.toNat, place.offset.toNat +
        byteSize (markers.opening ++ body ++ markers.closing)⟩ := by
  rw [cut, toNat_offset_after h]

/-- Plain text of bytes is plain text of characters. -/
theorem cut_text {place : Position} {content : Text}
    (h : place.offset.toNat + byteSize content < Nat.pow 2 32) :
    cut (text content, ⟨place, place.after content⟩) = ⟨false, bytes content,
      place.offset.toNat, place.offset.toNat + byteSize content⟩ := by
  rw [cut, toNat_offset_after h]

/-- What stands in front of a tag is the same in bytes and in characters. -/
theorem map_cut_lead {place : Position} {before : Text} (t : Text)
    (h : place.offset.toNat + byteSize before < Nat.pow 2 32) :
    (if before = [] then [] else [(text before, Span.mk place (place.after before))]).map cut =
      if byteSize before = 0 then []
      else [⟨false, (bytes (before ++ t)).take (byteSize before), place.offset.toNat,
        place.offset.toNat + byteSize before⟩] := by
  by_cases hbefore : before = []
  · subst hbefore
    rfl
  · have hsize : byteSize before ≠ 0 := mt byteSize_eq_zero_iff.1 hbefore
    rw [if_neg hbefore, if_neg hsize, List.map_singleton, cut_text h, take_bytes]

/-- Behind any place, bytes are cut where characters are. -/
theorem scanBytesFrom_bytes (place : Position) {t : Text}
    (h : place.offset.toNat + byteSize t < Nat.pow 2 32) :
    scanBytesFrom markers place.offset.toNat (bytes t) = (scanFrom markers place t).map cut := by
  induction hlength : t.length using Nat.strongRecOn generalizing place t with
  | _ n ih =>
    subst hlength
    have hfind := findBytes?_bytes markers.opening_ne_nil t
    cases hopening : splitAt? markers.opening t with
    | none =>
      rw [hopening, Option.map_none] at hfind
      rw [scanFrom_of_none hopening, scanBytesFrom_of_none hfind]
      by_cases ht : t = []
      · subst ht
        rfl
      · rw [if_neg ht, if_neg (mt bytes_eq_nil_iff.1 ht), List.map_singleton, cut_text h,
          length_bytes]
    | some parts =>
      obtain ⟨before, after⟩ := parts
      rw [hopening, Option.map_some] at hfind
      have ht : t = before ++ (markers.opening ++ after) := by
        rw [eq_of_splitAt? hopening, List.append_assoc]
      have hfind' := findBytes?_bytes markers.closing_ne_nil after
      subst ht
      rw [byteSize_append, byteSize_append] at h
      have hlead : place.offset.toNat + byteSize before < Nat.pow 2 32 := by omega
      rw [scanFrom_of_some hopening, scanBytesFrom_of_some hfind, List.map_append,
        map_cut_lead (markers.opening ++ after) hlead]
      dsimp only
      rw [drop_bytes, drop_bytes, hfind']
      refine congrArg _ ?_
      cases hclosing : splitAt? markers.closing after with
      | none => rfl
      | some parts =>
        obtain ⟨body, rest⟩ := parts
        have hshorter := length_after_tag hopening hclosing
        obtain rfl := eq_of_splitAt? hclosing
        have htag : byteSize markers.opening + byteSize body + byteSize markers.closing =
            byteSize (markers.opening ++ body ++ markers.closing) := by
          rw [byteSize_append, byteSize_append]
        have hsource : markers.opening ++ (body ++ markers.closing ++ rest) =
            markers.opening ++ body ++ markers.closing ++ rest := by
          simp only [List.append_assoc]
        have hoffset := toNat_offset_after hlead
        -- The bytes of the tag and of what stands behind it are among those of the source.
        rw [byteSize_append, byteSize_append, ← Nat.add_assoc, ← hoffset] at h
        have hopened : (place.after before).offset.toNat +
            byteSize (markers.opening ++ body ++ markers.closing) < Nat.pow 2 32 := by omega
        have hclosed := toNat_offset_after hopened
        have hrest := ih rest.length hshorter
          ((place.after before).after (markers.opening ++ body ++ markers.closing)) (by omega) rfl
        rw [hclosed, hoffset] at hrest
        rw [Option.map_some]
        dsimp only
        rw [List.map_cons, cut_tag hopened, hoffset, htag, hsource, drop_bytes, hrest,
          List.append_assoc body, take_bytes]

/-- **Bytes are cut where characters are.**  The segments that are found in the bytes of a source
are the bytes of its segments, and stand between the same offsets. -/
theorem scanBytes_bytes (markers : Markers) {source : Text} (h : byteSize source < Nat.pow 2 32) :
    scanBytes markers (bytes source) = (scan markers source).map cut :=
  scanBytesFrom_bytes .start ((Nat.zero_add _).symm ▸ h)

end Stencil.Segment
