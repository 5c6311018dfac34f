import Bootty.Config.KeymapPieces
import Bootty.Config.KeymapSplice

/-!
# Offsets of keymap texts

An edit of a keymap splices the text by offsets that `root_array_elements`,
`keymap_file.rs:1030–1066`, found in its sanitized copy. They are boundaries of characters of
both, and stand around the text of the same element.
-/

namespace Bootty.Config

open Bootty.Base
open Bootty.Base.Json (Blank Derives Numbers)

variable {N : Type} {numbers : Numbers N}

/-! ### The elements of the root array -/

/-- The range is the text of the value, in the keymap and in its sanitized copy. -/
structure Covers (numbers : Numbers N) (contents sanitized : List Char) (value : Json N)
    (range : Nat × Nat) : Prop where
  start : isCharBoundary contents range.1 = true ∧ isCharBoundary sanitized range.1 = true
  stop : isCharBoundary contents range.2 = true ∧ isCharBoundary sanitized range.2 = true
  value : Derives numbers (.value value) (sliceBytes range.1 range.2 sanitized)
  original : sanitizeJsonc (sliceBytes range.1 range.2 contents) =
    .ok (sliceBytes range.1 range.2 sanitized)

/-- The ranges are in the order of the elements, with spaces and one comma between two of them and
only spaces around. -/
inductive RootLayout (numbers : Numbers N) (sanitized : List Char) :
    List (Json N) → List (Nat × Nat) → Prop
  | empty {before body after : List Char}
      (text : sanitized = before ++ '[' :: (body ++ ']' :: after))
      (front : Blank before) (inside : Blank body) (back : Blank after) :
      RootLayout numbers sanitized [] []
  | elements {before after : List Char} {values : List (Json N)} {segments : List Segment}
      (text : sanitized = before ++ '[' :: (joinSegments segments ++ ']' :: after))
      (front : Blank before) (nonempty : values ≠ [])
      (holds : List.Forall₂ (Segment.Holds numbers) values segments) (back : Blank after) :
      RootLayout numbers sanitized values (ranges (byteLength before + 1) segments)

variable {sanitized : List Char}

/-- An array without elements has no ranges. -/
theorem RootText.elements_blank {before body after : List Char}
    (h : RootText sanitized before body after) (hbody : Blank body) :
    rootArrayElements sanitized = .ok [] := by
  have hskip := (Balanced.of_blank hbody false).elements_append sanitized
    (byteLength before + 1 + byteLength body) (byteLength before + 1) (byteLength before + 1) 0 0
    (fun h ↦ nomatch h) []
  have hnone : trimmedRange sanitized (byteLength before + 1)
      (byteLength before + 1 + byteLength body) = none := by
    have hall : body.all isAsciiWhitespace = true := by
      simpa using spaces_of_blank hbody
    rw [trimmedRange, h.slice]
    simp only [hall, if_true]
  rw [List.append_nil, elementsFrom, hnone] at hskip
  rw [rootArrayElements, h.bounds]
  simp only [h.slice, hskip]
  rfl

variable {values : List (Json N)}

/-- The splitter finds the elements. -/
theorem exists_rootLayout (h : Json.fromStr numbers sanitized = some (.array values)) :
    ∃ elements, rootArrayElements sanitized = .ok elements ∧
      RootLayout numbers sanitized values elements := by
  have ⟨before, body, after, hroot, hbody⟩ := exists_rootText h
  cases values with
  | nil =>
    cases hbody with
    | noItems spaces =>
      exact ⟨[], hroot.elements_blank spaces, .empty hroot.text hroot.front spaces hroot.back⟩
  | cons value values =>
    have ⟨segments, hholds, hjoin⟩ := exists_segments hbody (by simp)
    rw [hjoin] at hroot
    exists ranges (byteLength before + 1) segments
    constructor
    · exact hroot.elements hholds (by simp)
    · exact .elements hroot.text hroot.front (by simp) hholds hroot.back

private theorem le_of_mem_ranges {offset : Nat} {segments : List Segment} {range : Nat × Nat}
    (h : range ∈ ranges offset segments) : offset ≤ range.1 := by
  induction segments generalizing offset with
  | nil => cases h
  | cons segment segments ih =>
    rw [ranges] at h
    cases List.mem_cons.mp h with
    | inl hfirst =>
      rw [hfirst]
      exact Nat.le_add_right ..
    | inr hrest =>
      have hle := ih hrest
      omega

private theorem pairwise_ranges (offset : Nat) (segments : List Segment) :
    (ranges offset segments).Pairwise (·.2 < ·.1) := by
  induction segments generalizing offset with
  | nil => exact .nil
  | cons segment segments ih =>
    rw [ranges, List.pairwise_cons]
    constructor
    · intro range hrange
      have hle := le_of_mem_ranges hrange
      rw [Segment.chars, byteLength_append, byteLength_append] at hle
      show offset + byteLength segment.before + byteLength segment.text < range.1
      omega
    · exact ih _

variable {elements : List (Nat × Nat)}

private theorem RootLayout.pairwise (h : RootLayout numbers sanitized values elements) :
    elements.Pairwise (·.2 < ·.1) := by
  cases h with
  | empty => exact .nil
  | elements => exact pairwise_ranges _ _

private theorem RootLayout.length_eq (h : RootLayout numbers sanitized values elements) :
    values.length = elements.length := by
  cases h with
  | empty => rfl
  | elements _ _ _ holds _ => rw [length_ranges, holds.length_eq]

/-- The text of a value between two cuts is sanitized by itself. -/
theorem covers_of_cuts {contents front text back : List Char} {value : Json N}
    (h : Sanitizes contents sanitized) (htext : sanitized = front ++ (text ++ back))
    (hquotes : track .code front = .code) (hslash : front.getLast? ≠ some '/')
    (hvalue : Derives numbers (.value value) text) :
    Covers numbers contents sanitized value
      (byteLength front, byteLength front + byteLength text) := by
  have ⟨code, hstrip, hcode⟩ := h
  have hbalanced := balanced_value hvalue
  rw [htext] at hcode
  have ⟨first, second, stripped, rest, _, hcut⟩ :=
    exists_cut hstrip hcode hquotes (solid_head hvalue _ _) hslash
  have ⟨inside, second', stripped', rest', _, hcut'⟩ := exists_cut hcut.second hcut.back
    hbalanced.track_eq (solid_last hvalue [] _) hbalanced.getLast?_ne
  have hcontents : contents = first ++ inside ++ second' := by
    rw [hcut.text, hcut'.text, List.append_assoc]
  have hinside : Sanitizes inside text := by
    have ⟨init, c, hlast, hc⟩ := hvalue.last
    have hstripped := hcut'.first []
    have htrailing := hcut'.front
    have ⟨hspace, hcomma⟩ := Json.isLast_spec hc
    rw [hlast] at htrailing
    exists stripped'
    constructor
    · simpa [stripFrom] using hstripped
    · rw [hlast]
      exact trailingFrom_independent hspace hcomma.1 htrailing false
  have hslice : sliceBytes (byteLength front) (byteLength front + byteLength text) contents =
      inside := by
    rw [hcontents]
    exact sliceBytes_append hcut.length.symm (by rw [hcut.length, hcut'.length]) second'
  have hslice' : sliceBytes (byteLength front) (byteLength front + byteLength text) sanitized =
      text := by
    rw [htext, ← List.append_assoc]
    exact sliceBytes_append rfl rfl back
  have hend : byteLength (front ++ text) = byteLength front + byteLength text :=
    byteLength_append front text
  have hend' : byteLength (first ++ inside) = byteLength front + byteLength text := by
    rw [byteLength_append, hcut.length, hcut'.length]
  exact {
    start := by
      constructor
      · rw [hcut.text, ← hcut.length]
        exact isCharBoundary_append first second
      · rw [htext]
        exact isCharBoundary_append front _
    stop := by
      constructor
      · rw [hcontents, ← hend']
        exact isCharBoundary_append (first ++ inside) second'
      · rw [htext, ← hend, ← List.append_assoc]
        exact isCharBoundary_append (front ++ text) back
    value := by
      rw [hslice']
      exact hvalue
    original := by
      rw [hslice, hslice']
      exact sanitizeJsonc_eq_ok.mpr hinside }

/-- Each range covers its element. -/
theorem covers_elements {contents : List Char} (h : Sanitizes contents sanitized)
    (hparse : Json.fromStr numbers sanitized = some (.array values))
    (helements : rootArrayElements sanitized = .ok elements)
    (hlength : values.length = elements.length) :
    List.Forall₂ (Covers numbers contents sanitized) values elements := by
  rw [List.forall₂_iff_get]
  constructor
  · exact hlength
  · intro index hindex hindex'
    have ⟨before, after, front, value, back, segments, segment, segments', hvalues, hfront,
      hsegments, hroot⟩ := exists_rootAt hparse hindex
    have hranges := ranges_at before segments segment segments'
    have hfound := hroot.elements
    rw [helements] at hfound
    rw [← Except.ok.inj hfound, hsegments, List.getElem?_eq_getElem hindex'] at hranges
    have hvalue : values.get ⟨index, hindex⟩ = value := by
      simp [hvalues, ← hfront]
    have ⟨hquotes, hslash⟩ := hroot.front_cut
    rw [hvalue, List.get_eq_getElem, Option.some.inj hranges]
    exact covers_of_cuts h hroot.text hquotes hslash hroot.value.value

/-! ### Sanitizing keeps offsets -/

/-- A text without unterminated comments is sanitized at its offsets: its comments and trailing
commas become spaces and its strings stay; where the copy is an array, the ranges of the elements
are the ranges of their texts. -/
theorem sanitizeJsonc_offsets (numbers : Numbers N) (contents stripped : List Char)
    (h : stripJsoncComments contents = .ok stripped) :
    ∃ sanitized, sanitizeJsonc contents = .ok sanitized ∧
      byteLength sanitized = byteLength contents ∧
      (∃ pieces, Lexes contents pieces) ∧
      (∀ pieces, Lexes contents pieces → sanitized = sanitizedPieces pieces ∧
        ∀ front text back, pieces = front ++ .string text :: back →
          ∀ start, start = byteLength (front.flatMap Piece.chars) →
            sliceBytes start (start + byteLength text) contents = text ∧
              sliceBytes start (start + byteLength text) sanitized = text) ∧
      ∀ values, Json.fromStr numbers sanitized = some (.array values) →
        ∃ elements, rootArrayElements sanitized = .ok elements ∧
          RootLayout numbers sanitized values elements ∧ elements.Pairwise (·.2 < ·.1) ∧
          List.Forall₂ (Covers numbers contents sanitized) values elements := by
  have hstrip : stripFrom (.quote .code) contents = some stripped := by
    unfold stripJsoncComments at h
    split at h
    · cases h
    · next hstrip => rw [hstrip, Except.ok.inj h]
  have ⟨pieces, hpieces⟩ := exists_lexes hstrip
  have hsanitizes := hpieces.sanitizes
  exists sanitizedPieces pieces
  constructor
  · exact sanitizeJsonc_eq_ok.mpr hsanitizes
  constructor
  · rw [byteLength_sanitizedPieces, hpieces.chars]
  constructor
  · exact ⟨pieces, hpieces⟩
  constructor
  · intro pieces' hpieces'
    have hsame : sanitizedPieces pieces = sanitizedPieces pieces' :=
      Except.ok.inj ((sanitizeJsonc_eq_ok.mpr hsanitizes).symm.trans
        (sanitizeJsonc_eq_ok.mpr hpieces'.sanitizes))
    constructor
    · exact hsame
    · rintro front text back rfl start rfl
      rw [hsame]
      exact hpieces'.string_intact rfl
  · intro values hvalues
    have ⟨elements, helements, hlayout⟩ := exists_rootLayout hvalues
    exists elements
    exact ⟨helements, hlayout, hlayout.pairwise,
      covers_elements hsanitizes hvalues helements hlayout.length_eq⟩

/-- `[1,/*é*/"a,]",]` -/
private def offsetSample : List Char :=
  ['[', '1', ',', '/', '*', 'é', '*', '/', '"', 'a', ',', ']', '"', ',', ']']

/-- Two elements behind a comment. -/
theorem sanitizeJsonc_offsets_sample :
    ∃ sanitized, sanitizeJsonc offsetSample = .ok sanitized ∧
      byteLength sanitized = byteLength offsetSample ∧
      ∃ elements, rootArrayElements sanitized = .ok elements ∧
        List.Forall₂ (Covers Json.naturals offsetSample sanitized) [.number 1, .string "a,]"]
          elements := by
  have hstrip : stripJsoncComments offsetSample = .ok ['[', '1', ',', ' ', ' ', ' ', ' ', ' ', ' ',
      '"', 'a', ',', ']', '"', ',', ']'] := by decide +kernel
  have hsanitize : sanitizeJsonc offsetSample = .ok ['[', '1', ',', ' ', ' ', ' ', ' ', ' ', ' ',
      '"', 'a', ',', ']', '"', ' ', ']'] := by decide +kernel
  have ⟨sanitized, hsanitized, hlength, _, _, helements⟩ :=
    sanitizeJsonc_offsets Json.naturals offsetSample _ hstrip
  have hparse : Json.fromStr Json.naturals sanitized =
      some (.array [.number 1, .string "a,]"]) := by
    rw [← Except.ok.inj (hsanitize.symm.trans hsanitized)]
    rfl
  have ⟨elements, hfound, _, _, hcovers⟩ := helements _ hparse
  exact ⟨sanitized, hsanitized, hlength, elements, hfound, hcovers⟩

end Bootty.Config
