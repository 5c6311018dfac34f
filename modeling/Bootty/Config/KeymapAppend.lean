import Bootty.Config.KeymapSplice

/-!
# Appending to a keymap text

`append_section` looks for elements in the sanitized copy and for a trailing comma in the copy with
its commas. It appends to every root array except one that holds nothing but a comma; that one it
leaves with a comma in front of its first element, which no parser reads.
-/

namespace Bootty.Config

open Bootty.Base
open Bootty.Base.Json (Blank Derives Numbers isHead isLast)

variable {N : Type} {numbers : Numbers N}

/-! ### What is inserted -/

/-- The insertion of `append_section`. -/
def insertion (hasElements hasTrailingComma : Bool) (printed : List Char) : List Char :=
  if hasElements then (if hasTrailingComma then [] else [',']) ++ '\n' :: printed
  else '\n' :: (printed ++ ['\n'])

private theorem blank_newline : Blank ['\n'] := by simp [Json.isSpace]

variable {json : Json N}

private theorem insertion_line {printed : List Char} (h : Printed numbers json printed) :
    Balanced true ('\n' :: printed) ∧ Settled ('\n' :: printed) ∧
      ∀ last rest, closesOr last ('\n' :: printed ++ rest) = false := by
  refine ⟨?_, ?_, ?_⟩
  · exact (Balanced.of_blank blank_newline true).append h.balanced
  · exact (Settled.of_blank blank_newline).append h.settled
  · intro last rest
    exact closesOr_value blank_newline h.derives rest last

private theorem insertion_spec {printed : List Char} (h : Printed numbers json printed)
    (hasElements hasTrailingComma : Bool) :
    Balanced true (insertion hasElements hasTrailingComma printed) ∧
      Settled (insertion hasElements hasTrailingComma printed) ∧
        ∀ rest,
          closesOr false (insertion hasElements hasTrailingComma printed ++ rest) = false := by
  have ⟨hline, hsettled, hcloses⟩ := insertion_line h
  unfold insertion
  split
  · split
    · exact ⟨hline, hsettled, hcloses false⟩
    · refine ⟨.plain (by decide) (by decide) hline, .comma ?_ hsettled, fun rest ↦ rfl⟩
      intro last
      have hclose := hcloses last []
      rwa [List.append_nil] at hclose
  · refine ⟨hline.append (.of_blank blank_newline true), hsettled.append (.of_blank blank_newline),
      ?_⟩
    intro rest
    have hclose := hcloses false (['\n'] ++ rest)
    rwa [← List.append_assoc] at hclose

/-! ### The appended text -/

/-- The spaces in front of the closing bracket, with the comma among them. -/
def CommaTail (dangling : Bool) (blank tail : List Char) : Prop :=
  if dangling then ∃ front back, Blank front ∧ Blank back ∧ tail = front ++ ',' :: back
  else tail = blank

variable {text body : List Char}

/-- The text of `append_section`, whatever stands in the array. -/
theorem appendSection_text (numbers : Numbers N) {sanitized before after init blank : List Char}
    {c : Char} (h : Sanitizes text sanitized) (hroot : RootText sanitized before body after)
    (hsplit : before ++ '[' :: body = init ++ [c] ++ blank)
    (hspace : isAsciiWhitespace c = false) (hcomma : c ≠ ',') (hblank : Blank blank)
    (hwhole : track .code (init ++ [c]) = .code) {json : Json N} (hjson : json.WellFormed) :
    ∃ text' tail printed, appendSection numbers text json = .ok text' ∧
      Printed numbers json printed ∧ CommaTail (danglingComma text) blank tail ∧
        Sanitizes text' (init ++ [c] ++ tail ++
          insertion (body.any (!isAsciiWhitespace ·)) (danglingComma text) printed ++
            ']' :: after) := by
  have ⟨code, hstrip, hcode⟩ := h
  have htext : sanitized = (before ++ '[' :: body) ++ ']' :: after := by
    rw [hroot.text]
    simp
  have hcut := front_cut hroot.front hroot.inside
  rw [htext] at hcode
  have ⟨first, second, stripped, rest, hsplit', hcut⟩ := exists_cut hstrip hcode hcut.1
    (Or.inl ⟨']', after, rfl, by decide⟩) hcut.2
  have hrest : rest = ']' :: after := by
    have ⟨tail, hrest⟩ := exists_cons_of_trailingFrom (by decide) hcut.back
    have hback := hcut.back
    rw [hrest] at hback
    rw [hrest, eq_of_trailingFrom_false hroot.back (List.cons.inj hback).2]
  have hfront := hcut.front
  rw [hrest, closesOr_cons (by decide), hsplit] at hfront
  have hdangling : danglingComma text = (lastSolid stripped == some ',') :=
    danglingComma_eq hroot.back (by rw [hstrip, hsplit', hrest])
  have hclose : byteLength before + 1 + byteLength body = byteLength (before ++ '[' :: body) := by
    have hopen : Char.utf8Size '[' = 1 := rfl
    rw [byteLength_append, byteLength_cons, hopen, Nat.add_assoc]
  have hstripped : byteLength (before ++ '[' :: body) = byteLength stripped := by
    rw [← hcut.front, byteLength_trailingFrom]
  have ⟨printed, hindent, hprinted⟩ : ∃ printed,
      indentLines (json.pretty numbers 0) 2 = printed ∧ Printed numbers json printed :=
    ⟨_, rfl, printed_indentLines hjson 2⟩
  have ⟨hbalanced, hsettled, hopens⟩ := insertion_spec hprinted
    (body.any (!isAsciiWhitespace ·)) (danglingComma text)
  have ⟨tail, htail, hkept⟩ : ∃ tail, CommaTail (danglingComma text) blank tail ∧
      trailingFrom false .code stripped = init ++ [c] ++ tail := by
    cases exists_head_true hspace hcomma hwhole hblank hfront with
    | inl hsame =>
      exists blank
      rw [hdangling, hsame.1]
      exact ⟨by simp [CommaTail, hcomma], hsame.2⟩
    | inr hdrop =>
      have ⟨front, back, hfront, hback, hlast, hkept⟩ := hdrop
      exists front ++ ',' :: back
      rw [hdangling, hlast]
      exact ⟨⟨front, back, hfront, hback, rfl⟩, hkept⟩
  have hsplice := sanitizes_splice hcut.first hcut.whole hbalanced hsettled hcut.second hcut.back
    (by rw [hopens, hkept])
  refine ⟨_, tail, printed, ?_, hprinted, htail, ⟨_, hsplice⟩⟩
  have hsanitized : removeTrailingCommas code = sanitized := by
    rw [removeTrailingCommas_eq, hcode, htext]
  have htake : takeBytes (byteLength before + 1 + byteLength body) code = stripped := by
    rw [hsplit', takeBytes_append (by rw [hclose, hstripped])]
  rw [appendSection, stripJsoncComments, hstrip]
  simp only [hsanitized, hroot.bounds, hroot.slice, htake, hindent]
  rw [hdangling, hcut.text, insertStr_append (by rw [hclose, hcut.length])]
  rfl

/-! ### Arrays with elements -/

private theorem any_of_mem {c : Char} (h : isAsciiWhitespace c = false) (hmem : c ∈ text) :
    text.any (!isAsciiWhitespace ·) = true :=
  List.any_eq_true.mpr ⟨c, hmem, by simp [h]⟩

private theorem any_of_blank (h : Blank text) :
    text.any (!isAsciiWhitespace ·) = false := by
  rw [List.any_eq_false]
  intro c hc
  simp [spaces_of_blank h c hc]

variable {values : List (Json N)}

private theorem appendSection_more {value : Json N} (h : Roots numbers text (values ++ [value]))
    (hjson : json.WellFormed) :
    ∃ text', appendSection numbers text json = .ok text' ∧
      Roots numbers text' (values ++ [value, json]) := by
  obtain ⟨sanitized, hsanitized, hparse⟩ := h
  have hindex : values.length < (values ++ [value]).length := by simp
  obtain ⟨before, after, front, value', back, segments, segment, segments', hvalues, hlength, _,
    hroot⟩ := exists_rootAt hparse hindex
  obtain ⟨hfront, hrest⟩ := List.append_inj hvalues hlength.symm
  obtain rfl := hfront
  obtain ⟨rfl, rfl⟩ := List.cons.inj hrest
  have hback := hroot.back
  cases hback
  obtain ⟨init, c, hlast, hc⟩ := hroot.value.value.last
  obtain ⟨hspace, hcomma, _⟩ := Json.isLast_spec hc
  have hinner : Balanced true (leading segments ++ segment.before ++ segment.text) :=
    ((balanced_leading hroot.front).append (.of_blank hroot.value.front true)).append
      (balanced_value hroot.value.value).mono
  have hcore : before ++ '[' :: (leading segments ++ segment.before ++ segment.text) =
      before ++ '[' :: (leading segments ++ segment.before ++ init) ++ [c] := by
    rw [hlast]
    simp
  have hwhole := (front_cut hroot.root.front hinner).1
  have hbody : joinSegments (segments ++ [segment]) =
      leading segments ++ segment.before ++ segment.text ++ segment.after := by
    rw [joinSegments_append, Segment.chars]
    simp [following]
  have helements : (joinSegments (segments ++ [segment])).any (!isAsciiWhitespace ·) = true := by
    apply any_of_mem hspace
    rw [hbody, hlast]
    simp
  rw [hcore] at hwhole
  obtain ⟨text', tail, printed, hok, hprinted, htail, hresult⟩ := appendSection_text numbers
    hsanitized hroot.root (by rw [hbody, ← hcore]; simp) hspace hcomma hroot.value.back hwhole
    hjson
  exists text'
  constructor
  · exact hok
  · rw [helements, ← hcore] at hresult
    cases hdangling : danglingComma text with
    | false =>
      rw [hdangling] at htail hresult
      have htail : tail = segment.after := htail
      have hholds : List.Forall₂ (Segment.Holds numbers) (values ++ [value, json])
          (segments ++ [segment, ⟨['\n'], printed, []⟩]) :=
        List.rel_append hroot.front (.cons hroot.value
          (.cons ⟨blank_newline, hprinted.derives, Json.blank_nil⟩ .nil))
      apply roots_of_segments hresult _ hroot.root.front hroot.root.back hholds (by simp)
      rw [joinSegments_append, htail]
      simp [Segment.chars, following, insertion]
    | true =>
      rw [hdangling] at htail hresult
      obtain ⟨front, back, hfront, hback, htail⟩ := htail
      have hholds : List.Forall₂ (Segment.Holds numbers) (values ++ [value, json])
          (segments ++ [⟨segment.before, segment.text, front⟩, ⟨back ++ ['\n'], printed, []⟩]) :=
        List.rel_append hroot.front (.cons ⟨hroot.value.front, hroot.value.value, hfront⟩
          (.cons ⟨Json.blank_append.mpr ⟨hback, blank_newline⟩, hprinted.derives, Json.blank_nil⟩
            .nil))
      apply roots_of_segments hresult _ hroot.root.front hroot.root.back hholds (by simp)
      rw [joinSegments_append, htail]
      simp [Segment.chars, following, insertion]

/-! ### Arrays without elements -/

private theorem blank_of_noItems (h : Derives numbers (.items ([] : List (Json N))) body) :
    Blank body := by
  cases h with
  | noItems spaces => exact spaces

private theorem appendSection_first (h : Roots numbers text [])
    (hdangling : danglingComma text = false) (hjson : json.WellFormed) :
    ∃ text', appendSection numbers text json = .ok text' ∧ Roots numbers text' [json] := by
  have ⟨sanitized, hsanitized, hparse⟩ := h
  have ⟨before, body, after, hroot, hbody⟩ := exists_rootText hparse
  have hblank := blank_of_noItems hbody
  have hwhole : track .code (before ++ ['[']) = .code := (front_cut hroot.front (.nil true)).1
  have hsplit : before ++ '[' :: body = before ++ ['['] ++ body := by simp
  have ⟨text', tail, printed, hok, hprinted, htail, hresult⟩ := appendSection_text numbers
    hsanitized hroot hsplit (by decide) (by decide) hblank hwhole hjson
  exists text'
  constructor
  · exact hok
  · rw [hdangling] at htail hresult
    have htail : tail = body := htail
    rw [any_of_blank hblank, htail] at hresult
    have hholds : List.Forall₂ (Segment.Holds numbers) [json]
        [⟨body ++ ['\n'], printed, ['\n']⟩] :=
      .cons ⟨Json.blank_append.mpr ⟨hblank, blank_newline⟩, hprinted.derives, blank_newline⟩ .nil
    apply roots_of_segments hresult _ hroot.front hroot.back hholds (by simp)
    simp [joinSegments, Segment.chars, insertion]

/-- `append_section` appends to an array that holds an element or no comma. -/
theorem appendSection_spec (h : Roots numbers text values)
    (hcomma : values = [] → danglingComma text = false) (hjson : json.WellFormed) :
    ∃ text', appendSection numbers text json = .ok text' ∧
      Roots numbers text' (values ++ [json]) := by
  cases List.eq_nil_or_concat values with
  | inl hnil =>
    rw [hnil] at h ⊢
    exact appendSection_first h (hcomma hnil) hjson
  | inr hconcat =>
    have ⟨front, value, hvalues⟩ := hconcat
    rw [hvalues, List.concat_eq_append] at h ⊢
    have ⟨text', hok, hroots⟩ := appendSection_more h hjson
    exists text'
    constructor
    · exact hok
    · rw [List.append_assoc]
      exact hroots

/-! ### Arrays of a comma -/

/-- A keymap whose first character inside the root array is a comma. -/
def Broken (text : List Char) : Prop :=
  ∃ sanitized before core blank after, Sanitizes text sanitized ∧
    RootText sanitized before (core ++ blank) after ∧ Balanced true core ∧ Blank blank ∧
      core.find? (!isAsciiWhitespace ·) = some ',' ∧
        ∃ init c, core = init ++ [c] ∧ isAsciiWhitespace c = false ∧ c ≠ ','

private theorem find?_blank {blank : List Char} (h : Blank blank) (rest : List Char) :
    (blank ++ rest).find? (!isAsciiWhitespace ·) = rest.find? (!isAsciiWhitespace ·) := by
  have hnone : blank.find? (!isAsciiWhitespace ·) = none := by
    rw [List.find?_eq_none]
    intro c hc
    simp [spaces_of_blank h c hc]
  rw [List.find?_append, hnone]
  rfl

private theorem find?_items (h : Derives numbers (.items values) body) (after : List Char) :
    (body ++ ']' :: after).find? (!isAsciiWhitespace ·) ≠ some ',' := by
  have hvalue : ∀ {front text value} rest, Blank front → Derives numbers (.value value) text →
      (front ++ text ++ rest).find? (!isAsciiWhitespace ·) ≠ some ',' := by
    intro front text value rest hfront hvalue
    have ⟨c, tail, htext, hc⟩ := hvalue.head
    have ⟨hspace, _, _, hcomma, _⟩ := Json.isHead_spec hc
    rw [List.append_assoc, find?_blank hfront, htext]
    simp [hspace, hcomma]
  cases h with
  | noItems spaces =>
    rw [find?_blank spaces]
    simp [isAsciiWhitespace]
  | lastItem front value back =>
    rw [List.append_assoc]
    exact hvalue _ front value
  | moreItems front value back more =>
    rw [List.append_assoc, List.append_assoc]
    exact hvalue _ front value

/-- A broken keymap has no root values. -/
theorem Broken.not_roots (h : Broken text) (values : List (Json N)) :
    ¬ Roots numbers text values := by
  rintro ⟨sanitized, hsanitized, hparse⟩
  have ⟨sanitized', before, core, blank, after, hsanitized', hroot, _, _, hfirst, _⟩ := h
  have ⟨before', body, after', hroot', hbody⟩ := exists_rootText hparse
  have hsame : sanitized' = sanitized := by
    have hok := sanitizeJsonc_eq_ok.mpr hsanitized
    rw [sanitizeJsonc_eq_ok.mpr hsanitized'] at hok
    exact Except.ok.inj hok
  have hinside : ∀ {before body after}, RootText sanitized before body after →
      (sanitized.dropWhile isAsciiWhitespace).tail = body ++ ']' :: after := by
    intro before body after hroot
    rw [hroot.text, List.dropWhile_append_of_pos (spaces_of_blank hroot.front)]
    rfl
  rw [hsame] at hroot
  apply find?_items hbody after'
  rw [← hinside hroot', hinside hroot, List.append_assoc, List.find?_append, hfirst]
  rfl

/-- An array of a comma is broken by a section. -/
theorem appendSection_comma (h : Roots numbers text []) (hdangling : danglingComma text = true)
    (hjson : json.WellFormed) :
    ∃ text', appendSection numbers text json = .ok text' ∧ Broken text' := by
  have ⟨sanitized, hsanitized, hparse⟩ := h
  have ⟨before, body, after, hroot, hbody⟩ := exists_rootText hparse
  have hblank := blank_of_noItems hbody
  have hwhole : track .code (before ++ ['[']) = .code := (front_cut hroot.front (.nil true)).1
  have hsplit : before ++ '[' :: body = before ++ ['['] ++ body := by simp
  have ⟨text', tail, printed, hok, hprinted, htail, hresult⟩ := appendSection_text numbers
    hsanitized hroot hsplit (by decide) (by decide) hblank hwhole hjson
  exists text'
  constructor
  · exact hok
  · rw [hdangling] at htail hresult
    have ⟨front, back, hfront, hback, htail⟩ := htail
    have ⟨init, c, hlast, hc⟩ := hprinted.derives.last
    have ⟨hspace, hcomma, _⟩ := Json.isLast_spec hc
    have hcore : Balanced true (front ++ ',' :: (back ++ '\n' :: printed)) :=
      (Balanced.of_blank hfront true).append (.plain (by decide) (by decide)
        ((Balanced.of_blank hback true).append (insertion_line hprinted).1))
    rw [any_of_blank hblank, htail] at hresult
    refine ⟨_, before, front ++ ',' :: (back ++ '\n' :: printed), ['\n'], after, hresult, ?_,
      hcore, blank_newline, ?_, front ++ ',' :: (back ++ '\n' :: init), c, ?_, hspace, hcomma⟩
    · exact {
        text := by simp [insertion]
        front := hroot.front
        inside := hcore.append (.of_blank blank_newline true)
        back := hroot.back }
    · rw [find?_blank hfront]
      rfl
    · rw [hlast]
      simp

/-- A broken keymap stays broken. -/
theorem appendSection_broken {text : List Char} (h : Broken text) {json : Json N}
    (hjson : json.WellFormed) :
    ∃ text', appendSection numbers text json = .ok text' ∧ Broken text' := by
  have ⟨sanitized, before, core, blank, after, hsanitized, hroot, hcore, hblank, hfirst, init, c,
    hinit, hspace, hcomma⟩ := h
  have hwhole : track .code (before ++ '[' :: init ++ [c]) = .code := by
    have hcut := (front_cut hroot.front hcore).1
    rw [hinit] at hcut
    simpa using hcut
  have hsplit : before ++ '[' :: (core ++ blank) = before ++ '[' :: init ++ [c] ++ blank := by
    rw [hinit]
    simp
  have ⟨text', tail, printed, hok, hprinted, htail, hresult⟩ := appendSection_text numbers
    hsanitized hroot hsplit hspace hcomma hblank hwhole hjson
  have helements : (core ++ blank).any (!isAsciiWhitespace ·) = true := by
    apply any_of_mem hspace
    rw [hinit]
    simp
  have htail' : Balanced true tail := by
    unfold CommaTail at htail
    split at htail
    · have ⟨front, back, hfront, hback, htail⟩ := htail
      rw [htail]
      exact (Balanced.of_blank hfront true).append
        (.plain (by decide) (by decide) (.of_blank hback true))
    · rw [htail]
      exact .of_blank hblank true
  have ⟨init', d, hlast, hd⟩ := hprinted.derives.last
  have ⟨hspace', hcomma', _⟩ := Json.isLast_spec hd
  have hinserted := (insertion_spec hprinted true (danglingComma text)).1
  have hcore' := (hcore.append htail').append hinserted
  rw [helements] at hresult
  exists text'
  constructor
  · exact hok
  · refine ⟨_, before, _, [], after, hresult, ?_, hcore', Json.blank_nil, ?_,
      core ++ tail ++ (if danglingComma text then [] else [',']) ++ '\n' :: init', d, ?_, hspace',
      hcomma'⟩
    · exact {
        text := by rw [hinit]; simp
        front := hroot.front
        inside := hcore'.append (.nil true)
        back := hroot.back }
    · rw [List.append_assoc, List.find?_append, hfirst]
      rfl
    · rw [insertion, if_pos rfl, hlast]
      simp

end Bootty.Config
