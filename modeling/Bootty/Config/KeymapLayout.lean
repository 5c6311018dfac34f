import Bootty.Config.KeymapCuts
import Mathlib.Data.List.Forall2

/-!
# The elements of a keymap text

The root array of a sanitized keymap is a row of values with spaces around them. The scanners find
the brackets and the ranges of the values.
-/

namespace Bootty.Config

open Bootty.Base
open Bootty.Base.Json (Blank Derives Numbers isHead isLast)

variable {N : Type} {numbers : Numbers N}

/-! ### Segments -/

/-- The text of an element with the spaces around it. -/
structure Segment where
  before : List Char
  text : List Char
  after : List Char

/-- The characters of a segment. -/
def Segment.chars (segment : Segment) : List Char :=
  segment.before ++ segment.text ++ segment.after

/-- The segment stands for the value. -/
structure Segment.Holds (numbers : Numbers N) (value : Json N) (segment : Segment) : Prop where
  front : Blank segment.before
  value : Derives numbers (.value value) segment.text
  back : Blank segment.after

/-- The segments with commas between them. -/
def joinSegments : List Segment → List Char
  | [] => []
  | [segment] => segment.chars
  | segment :: next :: rest => segment.chars ++ ',' :: joinSegments (next :: rest)

/-- The segments with a comma behind each. -/
def leading (segments : List Segment) : List Char :=
  segments.flatMap fun segment ↦ segment.chars ++ [',']

/-- The segments with a comma in front of each. -/
def following (segments : List Segment) : List Char :=
  segments.flatMap fun segment ↦ ',' :: segment.chars

theorem joinSegments_append (before : List Segment) (segment : Segment) (after : List Segment) :
    joinSegments (before ++ segment :: after) =
      leading before ++ segment.chars ++ following after := by
  induction before with
  | nil =>
    induction after generalizing segment with
    | nil => simp [joinSegments, leading, following]
    | cons next after ih =>
      have hjoin := ih next
      simp only [List.nil_append] at hjoin ⊢
      rw [joinSegments, hjoin]
      simp [leading, following]
  | cons first before ih =>
    have hjoin : joinSegments (first :: before ++ segment :: after) =
        first.chars ++ ',' :: joinSegments (before ++ segment :: after) := by
      cases before <;> rfl
    rw [hjoin, ih]
    simp [leading]

variable {items : List (Json N)} {body : List Char}

/-- Items have segments. -/
theorem exists_segments (h : Derives numbers (.items items) body) (hitems : items ≠ []) :
    ∃ segments, List.Forall₂ (Segment.Holds numbers) items segments ∧
      body = joinSegments segments := by
  induction items generalizing body with
  | nil => exact absurd rfl hitems
  | cons item rest ih =>
    cases h with
    | @lastItem before text after _ front value back =>
      exists [⟨before, text, after⟩]
      exact ⟨.cons ⟨front, value, back⟩ .nil, rfl⟩
    | @moreItems before text after body _ next rest front value back more =>
      have ⟨segments, hholds, hbody⟩ := ih more (by simp)
      exists ⟨before, text, after⟩ :: segments
      constructor
      · exact .cons ⟨front, value, back⟩ hholds
      · cases hholds with
        | cons hnext hrest =>
          rw [hbody]
          rfl

variable {segments : List Segment}

/-- Segments are items. -/
theorem derives_segments (h : List.Forall₂ (Segment.Holds numbers) items segments)
    (hitems : items ≠ []) :
    Derives numbers (.items items) (joinSegments segments) := by
  induction h with
  | nil => exact absurd rfl hitems
  | cons hholds hrest ih =>
    cases hrest with
    | nil => exact .lastItem hholds.front hholds.value hholds.back
    | cons hnext hmore =>
      exact .moreItems hholds.front hholds.value hholds.back (ih (by simp))

/-! ### The ranges that the scanners find -/

/-- The ranges of the elements, for segments that begin at an offset. -/
def ranges (offset : Nat) : List Segment → List (Nat × Nat)
  | [] => []
  | segment :: rest =>
    (offset + byteLength segment.before,
        offset + byteLength segment.before + byteLength segment.text) ::
      ranges (offset + byteLength segment.chars + 1) rest

theorem length_ranges (offset : Nat) (segments : List Segment) :
    (ranges offset segments).length = segments.length := by
  induction segments generalizing offset with
  | nil => rfl
  | cons segment rest ih => rw [ranges, List.length_cons, ih, List.length_cons]

theorem ranges_get (offset : Nat) (before : List Segment) (segment : Segment)
    (after : List Segment) :
    (ranges offset (before ++ segment :: after))[before.length]? =
      some (offset + byteLength (leading before) + byteLength segment.before,
        offset + byteLength (leading before) + byteLength segment.before +
          byteLength segment.text) := by
  induction before generalizing offset with
  | nil => simp [ranges, leading]
  | cons first before ih =>
    have hcomma : byteLength [','] = 1 := rfl
    have hleading : byteLength (leading (first :: before)) =
        byteLength first.chars + 1 + byteLength (leading before) := by
      rw [leading, List.flatMap_cons, byteLength_append, byteLength_append, hcomma]
      rfl
    rw [List.cons_append, ranges, List.length_cons, List.getElem?_cons_succ, ih, hleading]
    simp only [Nat.add_assoc]

theorem spaces_of_blank {text : List Char} (h : Blank text) :
    ∀ c ∈ text, isAsciiWhitespace c = true :=
  fun c hc ↦ Json.isAsciiWhitespace_of_isSpace (h c hc)

theorem trimEnd_append {front back : List Char} {c : Char} (hc : isAsciiWhitespace c = false)
    (hback : Blank back) : trimEnd (front ++ [c] ++ back) = front ++ [c] := by
  have hspaces : ∀ d ∈ back.reverse, isAsciiWhitespace d = true :=
    fun d hd ↦ spaces_of_blank hback d (List.mem_reverse.mp hd)
  rw [trimEnd, List.reverse_append, List.dropWhile_append_of_pos hspaces]
  simp [hc]

/-- The range of a segment without its spaces. -/
theorem trimmedRange_segment {value : Json N} {segment : Segment}
    (h : segment.Holds numbers value) (before after : List Char) {start stop : Nat}
    (hstart : start = byteLength before)
    (hstop : stop = byteLength before + byteLength segment.chars) :
    trimmedRange (before ++ segment.chars ++ after) start stop =
      some (start + byteLength segment.before,
        start + byteLength segment.before + byteLength segment.text) := by
  have ⟨c, tail, hhead, hc⟩ := h.value.head
  have ⟨init, d, hlast, hd⟩ := h.value.last
  have hchars : segment.chars = segment.before ++ (c :: tail) ++ segment.after := by
    rw [Segment.chars, hhead]
  have hchars' : segment.chars = segment.before ++ init ++ [d] ++ segment.after := by
    rw [Segment.chars, hlast, List.append_assoc segment.before init]
  have hall : segment.chars.all isAsciiWhitespace = false := by
    rw [hchars]
    simp [(Json.isHead_spec hc).1]
  have htake : segment.chars.takeWhile isAsciiWhitespace = segment.before := by
    rw [hchars, List.append_assoc, List.takeWhile_append_of_pos (spaces_of_blank h.front)]
    simp [(Json.isHead_spec hc).1]
  have htrim : trimEnd segment.chars = segment.before ++ segment.text := by
    rw [hchars', trimEnd_append (Json.isLast_spec hd).1 h.back, hlast, List.append_assoc]
  rw [trimmedRange, sliceBytes_append hstart hstop]
  simp only [hall, htake, htrim, Bool.false_eq_true, if_false, byteLength_append, Nat.add_assoc]

private theorem balanced_segment {value : Json N} {segment : Segment}
    (h : segment.Holds numbers value) : Balanced false segment.chars :=
  ((Balanced.of_blank h.front false).append (balanced_value h.value)).append
    (.of_blank h.back false)

variable {before after : List Char}

/-- The loop over the elements finds their ranges. -/
theorem elementsFrom_join (h : List.Forall₂ (Segment.Holds numbers) items segments)
    (hitems : items ≠ []) {contents : List Char} {offset close : Nat}
    (hcontents : contents = before ++ joinSegments segments ++ after)
    (hoffset : offset = byteLength before)
    (hclose : close = byteLength before + byteLength (joinSegments segments)) :
    elementsFrom contents close offset offset 0 0 .code (joinSegments segments) =
      ranges offset segments := by
  induction h generalizing before offset with
  | nil => exact absurd rfl hitems
  | @cons item segment items' segments' hholds hrest ih =>
    have hskip := (balanced_segment hholds).elements_append contents close offset offset 0 0
      (fun h ↦ nomatch h)
    cases hrest with
    | nil =>
      have hend := hskip []
      have hrange := trimmedRange_segment hholds before after hoffset hclose
      rw [← joinSegments, ← hcontents] at hrange
      rw [List.append_nil] at hend
      rw [joinSegments, hend, elementsFrom, hrange]
      rfl
    | @cons next segment' items'' segments'' hnext hmore =>
      have hjoin : joinSegments (segment :: segment' :: segments'') =
          segment.chars ++ ',' :: joinSegments (segment' :: segments'') := rfl
      rw [hjoin] at hcontents hclose ⊢
      have hcontents' : contents = (before ++ segment.chars ++ [',']) ++
          joinSegments (segment' :: segments'') ++ after := by
        rw [hcontents]
        simp
      have hoffset' : offset + byteLength segment.chars + 1 =
          byteLength (before ++ segment.chars ++ [',']) := by
        rw [byteLength_append, byteLength_append, hoffset]
        rfl
      have hclose' : close = byteLength (before ++ segment.chars ++ [',']) +
          byteLength (joinSegments (segment' :: segments'')) := by
        rw [hclose]
        simp only [byteLength_append, byteLength_cons, byteLength_nil]
        omega
      have hfirst : contents = before ++ segment.chars ++
          (',' :: joinSegments (segment' :: segments'') ++ after) := by
        rw [hcontents]
        simp
      have hrange : trimmedRange contents offset (offset + byteLength segment.chars) =
          some (offset + byteLength segment.before,
            offset + byteLength segment.before + byteLength segment.text) := by
        rw [hfirst]
        exact trimmedRange_segment hholds before _ hoffset (by rw [hoffset])
      have hcomma : elementsFrom contents close (offset + byteLength segment.chars) offset 0 0
          .code (',' :: joinSegments (segment' :: segments'')) =
            (trimmedRange contents offset (offset + byteLength segment.chars)).toList ++
              elementsFrom contents close (offset + byteLength segment.chars + 1)
                (offset + byteLength segment.chars + 1) 0 0 .code
                (joinSegments (segment' :: segments'')) := rfl
      rw [hskip, hcomma, hrange, ih (by simp) hcontents' hoffset' hclose']
      rfl

/-! ### The root array -/

/-- A sanitized keymap: the inside of its root array and the spaces around it. -/
structure RootText (sanitized before body after : List Char) : Prop where
  text : sanitized = before ++ '[' :: (body ++ ']' :: after)
  front : Blank before
  inside : Balanced true body
  back : Blank after

variable {sanitized : List Char}

/-- The brackets are found. -/
theorem RootText.bounds (h : RootText sanitized before body after) :
    rootArrayBounds sanitized =
      .ok (byteLength before, byteLength before + 1 + byteLength body) := by
  have hspaces := spaces_of_blank h.front
  have htake : sanitized.takeWhile isAsciiWhitespace = before := by
    rw [h.text, List.takeWhile_append_of_pos hspaces]
    simp [isAsciiWhitespace]
  have hdrop : sanitized.dropWhile isAsciiWhitespace = '[' :: (body ++ ']' :: after) := by
    rw [h.text, List.dropWhile_append_of_pos hspaces]
    simp [isAsciiWhitespace]
  have hmatch : matchingDelimiter sanitized (byteLength before) '[' ']' =
      some (byteLength before + 1 + byteLength body) := by
    rw [matchingDelimiter, h.text, dropBytes_append rfl]
    show matchingDelimiterFrom '[' ']' (byteLength before + 1) 1 .code (body ++ ']' :: after) = _
    rw [h.inside.matching_append _ _ Nat.one_pos]
    rfl
  rw [rootArrayBounds, htake, hdrop]
  simp only [List.head?_cons, if_true, hmatch]

/-- The inside of the root array. -/
theorem RootText.slice (h : RootText sanitized before body after) :
    sliceBytes (byteLength before + 1) (byteLength before + 1 + byteLength body) sanitized =
      body := by
  have htext : sanitized = (before ++ ['[']) ++ body ++ (']' :: after) := by
    rw [h.text]
    simp
  have hopen : byteLength (before ++ ['[']) = byteLength before + 1 := by
    rw [byteLength_append]
    rfl
  rw [htext, sliceBytes_append hopen.symm (by rw [hopen])]

/-- The elements are found. -/
theorem RootText.elements (h : RootText sanitized before (joinSegments segments) after)
    (hholds : List.Forall₂ (Segment.Holds numbers) items segments) (hitems : items ≠ []) :
    rootArrayElements sanitized = .ok (ranges (byteLength before + 1) segments) := by
  have hopen : byteLength (before ++ ['[']) = byteLength before + 1 := by
    rw [byteLength_append]
    rfl
  have htext : sanitized = (before ++ ['[']) ++ joinSegments segments ++ (']' :: after) := by
    rw [h.text]
    simp
  rw [rootArrayElements, h.bounds]
  simp only [h.slice]
  rw [elementsFrom_join hholds hitems htext hopen.symm (by rw [hopen])]

/-- The root values of a text. -/
def Roots (numbers : Numbers N) (text : List Char) (values : List (Json N)) : Prop :=
  ∃ sanitized, Sanitizes text sanitized ∧ Json.fromStr numbers sanitized = some (.array values)

variable {values : List (Json N)}

private theorem derives_array {text : List Char} (h : Derives numbers (.value (.array values)) text)
    :
    ∃ body, text = '[' :: (body ++ [']']) ∧ Derives numbers (.items values) body := by
  cases h with
  | scalar _ _ parsed =>
    unfold Json.parseScalar at parsed
    split at parsed
    · cases parsed
    · split at parsed
      · cases parsed
      · split at parsed
        · cases parsed
        · have ⟨n, _, hn⟩ := Option.map_eq_some_iff.mp parsed
          cases hn
  | array inside => exact ⟨_, rfl, inside⟩

/-- The sanitized text of a root array. -/
theorem exists_rootText (h : Json.fromStr numbers sanitized = some (.array values)) :
    ∃ before body after, RootText sanitized before body after ∧
      Derives numbers (.items values) body := by
  have ⟨before, inner, after, hbefore, hafter, htext, hderives⟩ := Json.derives_of_fromStr h
  have ⟨body, hinner, hbody⟩ := derives_array hderives
  exists before, body, after
  constructor
  · exact {
      text := by rw [htext, hinner]; simp
      front := hbefore
      inside := balanced_items hbody
      back := hafter }
  · exact hbody

/-- The array is read. -/
theorem fromStr_rootText (hbefore : Blank before) (hafter : Blank after)
    (h : Derives numbers (.items values) body) :
    Json.fromStr numbers (before ++ '[' :: (body ++ ']' :: after)) = some (.array values) := by
  have hparse := Json.fromStr_of_derives hbefore hafter (Derives.array h)
  simpa using hparse

end Bootty.Config
