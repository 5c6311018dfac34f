import Bootty.Config.KeymapLayout

/-!
# Editing the elements of a keymap text

`replace_section`, `remove_section` and `append_section` do to the root values of a keymap what
they say, except where the array holds nothing but a comma: that comma is a trailing one until an
element is put behind it.
-/

namespace Bootty.Config

open Bootty.Base
open Bootty.Base.Json (Blank Derives Numbers isHead isLast)

variable {N : Type} {numbers : Numbers N}

/-! ### The printed section -/

private theorem intercalate_cons (separator first second : List Char) (rest : List (List Char)) :
    List.intercalate separator (first :: second :: rest) =
      first ++ separator ++ List.intercalate separator (second :: rest) := by
  simp [List.intercalate, List.intersperse]

private theorem indent_linesFrom (width : Nat) (line text : List Char)
    (hline : '\r' ∉ line) (htext : '\r' ∉ text) (hend : text.getLast? ≠ some '\n')
    (hnonempty : text ≠ [] ∨ line ≠ []) :
    ∃ first rest, linesFrom line text = first :: rest ∧
      List.intercalate ['\n'] (first :: rest.map (List.replicate width ' ' ++ ·)) =
        line.reverse ++ Json.reindent width text := by
  fun_induction linesFrom line text with
  | case1 line hempty =>
    rw [List.isEmpty_iff.mp hempty] at hnonempty
    simp at hnonempty
  | case2 line hempty => exact ⟨line.reverse, [], rfl, by simp [Json.reindent]⟩
  | case3 line rest ih =>
    have hrest : rest ≠ [] := by
      rintro rfl
      exact hend rfl
    have hend' : rest.getLast? ≠ some '\n' := by
      intro hlast
      apply hend
      rw [List.getLast?_cons, hlast]
      rfl
    obtain ⟨first, more, hlines, hjoin⟩ := ih (by simp)
      (fun hmem ↦ htext (List.mem_cons_of_mem _ hmem)) hend' (Or.inl hrest)
    have hbreak : Json.reindent width ('\n' :: rest) =
        '\n' :: (List.replicate width ' ' ++ Json.reindent width rest) := by
      simp [Json.reindent]
    rw [List.reverse_nil, List.nil_append] at hjoin
    exists line.reverse, first :: more
    constructor
    · rw [hlines]
      split
      · exact absurd List.mem_cons_self hline
      · rfl
    · rw [List.map_cons, intercalate_cons, hbreak, ← hjoin]
      cases more with
      | nil => simp
      | cons second more =>
        rw [List.map_cons, intercalate_cons, intercalate_cons]
        simp
  | case4 line c rest hc ih =>
    have hcarriage : c ≠ '\r' := by
      rintro rfl
      exact htext List.mem_cons_self
    have hline' : '\r' ∉ c :: line := by
      intro hmem
      cases hmem with
      | head => exact hcarriage rfl
      | tail _ hmem => exact hline hmem
    have hend' : rest.getLast? ≠ some '\n' := by
      intro hlast
      apply hend
      rw [List.getLast?_cons, hlast]
      rfl
    obtain ⟨first, more, hlines, hjoin⟩ := ih hline'
      (fun hmem ↦ htext (List.mem_cons_of_mem _ hmem)) hend' (Or.inr (by simp))
    exists first, more
    constructor
    · exact hlines
    · rw [hjoin, Json.reindent_cons width hc]
      simp

/-- What is put into the text: the section, printed and indented. -/
structure Printed (numbers : Numbers N) (json : Json N) (text : List Char) : Prop where
  derives : Derives numbers (.value json) text
  balanced : Balanced true text
  settled : Settled text

private theorem indentLines_eq {text : List Char} (htext : '\r' ∉ text)
    (hend : text.getLast? ≠ some '\n') (hnonempty : text ≠ []) (width : Nat) :
    indentLines text width = Json.reindent width text := by
  have ⟨first, rest, hlines, hjoin⟩ :=
    indent_linesFrom width [] text (by simp) htext hend (Or.inl hnonempty)
  rw [indentLines, lines, hlines]
  exact hjoin

variable {json : Json N}

/-- A well-formed section is printed as its text, at any indentation. -/
theorem printed_indentLines (h : json.WellFormed) (width : Nat) :
    Printed numbers json (indentLines (json.pretty numbers 0) width) := by
  have hraw : Derives numbers (.value json) (json.pretty numbers 0) := by
    rw [← Json.reindent_zero (json.pretty numbers 0)]
    exact Json.derives_pretty 0 json h 0
  have ⟨init, c, hlast, hc⟩ := hraw.last
  have hend : (json.pretty numbers 0).getLast? ≠ some '\n' := by
    rw [hlast, List.getLast?_concat]
    intro heq
    rw [Option.some.inj heq] at hc
    cases hc
  have hreturn : '\r' ∉ json.pretty numbers 0 := by
    intro hmem
    have := Json.printable_pretty json 0 _ hmem
    revert this
    decide
  have hderives : Derives numbers (.value json) (indentLines (json.pretty numbers 0) width) := by
    rw [indentLines_eq hreturn hend (by rw [hlast]; simp)]
    exact Json.derives_pretty width json h 0
  exact {
    derives := hderives
    balanced := (balanced_value hderives).mono
    settled := settled_of_derives hderives }

/-! ### Where a text is cut -/

/-- A balanced text does not end with the beginning of a comment. -/
theorem Balanced.getLast?_ne {commas : Bool} {text : List Char} (h : Balanced commas text) :
    text.getLast? ≠ some '/' := by
  induction h with
  | nil => simp
  | @plain _ c rest other _ _ ih =>
    cases rest with
    | nil =>
      intro hlast
      rw [List.getLast?_singleton] at hlast
      rw [Option.some.inj hlast] at other
      exact other (by decide)
    | cons d rest => rwa [List.getLast?_cons_cons]
  | @quoted _ body rest _ _ ih | @array _ body rest _ _ _ ih | @object _ body rest _ _ _ ih =>
    rw [← List.cons_append, List.getLast?_append, List.getLast?_cons]
    cases hrest : rest.getLast? with
    | none => simp
    | some c =>
      rw [hrest] at ih
      simpa using ih

/-- What stands in front of a cut: the bracket and a balanced text. -/
theorem front_cut {before inner : List Char} (hbefore : Blank before)
    (hinner : Balanced true inner) :
    track .code (before ++ '[' :: inner) = .code ∧
      (before ++ '[' :: inner).getLast? ≠ some '/' := by
  constructor
  · rw [track_append, (Balanced.of_blank hbefore true).track_eq, track_cons,
      step_code (by decide), hinner.track_eq]
  · rw [List.getLast?_append, List.getLast?_cons]
    cases hlast : inner.getLast? with
    | none => simp
    | some c =>
      have hne := hinner.getLast?_ne
      rw [hlast] at hne
      simpa using hne

private theorem balanced_chars {value : Json N} {segment : Segment}
    (h : segment.Holds numbers value) : Balanced true segment.chars :=
  (((Balanced.of_blank h.front true).append (balanced_value h.value).mono).append
    (.of_blank h.back true))

variable {values : List (Json N)}

theorem balanced_leading {segments : List Segment}
    (h : List.Forall₂ (Segment.Holds numbers) values segments) :
    Balanced true (leading segments) := by
  induction h with
  | nil => exact .nil true
  | cons hholds _ ih =>
    exact ((balanced_chars hholds).append (.plain (by decide) (by decide) (.nil true))).append ih

variable {c : Char}

private theorem closesOr_of_trailingFrom {rest tail : List Char} (hc : isHead c = true)
    (h : trailingFrom false .code rest = c :: tail) : closesOr false rest = false := by
  have ⟨tail', hrest⟩ := exists_cons_of_trailingFrom (Json.isHead_spec hc).1 h
  rw [hrest]
  exact closesOr_head hc false tail'

/-! ### Two cuts -/

/-- A text with a part of its sanitized copy cut out. -/
structure Gap (text front middle back first second stripped rest : List Char) : Prop where
  code : ∃ cut last, stripFrom (.quote .code) text = some (stripped ++ (cut ++ rest)) ∧
    trailingFrom last .code cut = middle
  text : ∃ removed, text = first ++ removed ++ second ∧ byteLength removed = byteLength middle
  length : byteLength first = byteLength front
  first : ∀ tail, stripFrom (.quote .code) (first ++ tail) =
    (stripFrom (.quote .code) tail).map (stripped ++ ·)
  whole : track .code stripped = .code
  front : ∃ last, trailingFrom last .code stripped = front ∧
    (∀ c tail, middle ++ back = c :: tail → isHead c = true → last = false)
  second : stripFrom (.quote .code) second = some rest
  back : trailingFrom false .code rest = back

private theorem exists_gap {text sanitized front middle back : List Char}
    (h : Sanitizes text sanitized) (htext : sanitized = front ++ (middle ++ back))
    (hfront : track .code front = .code) (hslash : front.getLast? ≠ some '/')
    (hsolid : Solid front (middle ++ back)) (hmiddle : Balanced true middle)
    (hsolid' : Solid middle back) :
    ∃ first second stripped rest, Gap text front middle back first second stripped rest := by
  have ⟨code, hstrip, hcode⟩ := h
  rw [htext] at hcode
  have ⟨first, second, stripped, rest, hsplit, hcut⟩ :=
    exists_cut hstrip hcode hfront hsolid hslash
  have ⟨first', second', stripped', rest', hsplit', hcut'⟩ :=
    exists_cut hcut.second hcut.back hmiddle.track_eq hsolid' hmiddle.getLast?_ne
  exists first, second', stripped, rest'
  exact {
    text := ⟨first', by rw [hcut.text, hcut'.text, List.append_assoc], hcut'.length⟩
    length := hcut.length
    first := hcut.first
    whole := hcut.whole
    front := by
      exists closesOr false rest
      constructor
      · exact hcut.front
      · intro c tail hhead hc
        exact closesOr_of_trailingFrom hc (hcut.back.trans hhead)
    second := hcut'.second
    back := hcut'.back
    code := ⟨stripped', _, by rw [hstrip, hsplit, hsplit'], hcut'.front⟩ }

variable {stripped : List Char}

/-- The edited text and its two copies. -/
theorem Gap.splice {text front middle back first second rest : List Char}
    (h : Gap text front middle back first second stripped rest) {insertion : List Char}
    (hbalanced : Balanced true insertion) (hsettled : Settled insertion)
    (hfront : trailingFrom (closesOr false (insertion ++ rest)) .code stripped = front)
    {start stop : Nat} (hstart : start = byteLength front)
    (hstop : stop = byteLength front + byteLength middle) :
    stripFrom (.quote .code) (replaceRange text start stop insertion) =
        some (stripped ++ insertion ++ rest) ∧
      trailingFrom false .code (stripped ++ insertion ++ rest) = front ++ insertion ++ back := by
  have ⟨removed, htext, hremoved⟩ := h.text
  rw [htext, replaceRange_append (by rw [hstart, h.length]) (by rw [hstop, h.length, hremoved])]
  exact sanitizes_splice h.first h.whole hbalanced hsettled h.second h.back hfront

/-! ### The comma behind the last element -/

/-- The last character that is not a space. -/
def lastSolid (text : List Char) : Option Char := text.reverse.find? (!isAsciiWhitespace ·)

private theorem lastSolid_append (front back : List Char) :
    lastSolid (front ++ back) = (lastSolid back).or (lastSolid front) := by
  rw [lastSolid, List.reverse_append, List.find?_append]
  rfl

private theorem lastSolid_blank {text : List Char} (h : Blank text) : lastSolid text = none := by
  rw [lastSolid, List.find?_eq_none]
  intro c hc
  simp [spaces_of_blank h c (List.mem_reverse.mp hc)]

private theorem lastSolid_concat (h : isAsciiWhitespace c = false) (front : List Char) :
    lastSolid (front ++ [c]) = some c := by
  simp [lastSolid, h]

private theorem lastSolid_comma {back : List Char} (h : Blank back) (front : List Char) :
    lastSolid (front ++ ',' :: back) = some ',' := by
  have hsplit : front ++ ',' :: back = front ++ [','] ++ back := by simp
  rw [hsplit, lastSolid_append, lastSolid_blank h, lastSolid_concat (by decide)]
  rfl

/-- The last character but one that is neither a space nor in a comment is a comma. -/
def danglingComma (contents : List Char) : Bool :=
  match stripJsoncComments contents with
  | .error _ => false
  | .ok code => lastSolid (trimEnd code).dropLast == some ','

theorem danglingComma_eq {text after : List Char} (hafter : Blank after)
    (h : stripFrom (.quote .code) text = some (stripped ++ ']' :: after) ) :
    danglingComma text = (lastSolid stripped == some ',') := by
  have htrim : trimEnd (stripped ++ ']' :: after) = stripped ++ [']'] := by
    have hbracket : trimEnd (stripped ++ [']'] ++ after) = stripped ++ [']'] :=
      trimEnd_append (by decide) hafter
    rwa [List.append_assoc, List.singleton_append] at hbracket
  rw [danglingComma, stripJsoncComments, h]
  simp only [htrim, List.dropLast_concat]

/-- The closing bracket is the same before and after trailing commas are removed. -/
theorem exists_bracket {code inner after : List Char} (hinner : track .code inner = .code)
    (hafter : Blank after) (h : trailingFrom false .code code = inner ++ ']' :: after) :
    ∃ stripped, code = stripped ++ ']' :: after ∧ track .code stripped = .code ∧
      trailingFrom true .code stripped = inner := by
  have ⟨stripped, rest, hcode, hlength⟩ : ∃ stripped rest, code = stripped ++ rest ∧
      stripped.length = inner.length := by
    have := congrArg List.length h
    rw [length_trailingFrom, List.length_append] at this
    exists code.take inner.length, code.drop inner.length
    constructor
    · exact (List.take_append_drop ..).symm
    · rw [List.length_take]
      omega
  rw [hcode, trailingFrom_append] at h
  have ⟨hfront, hback⟩ := List.append_inj h (by rw [length_trailingFrom, hlength])
  have hwhole : track .code stripped = .code := by
    rw [← track_trailingFrom (closesOr false rest), hfront, hinner]
  rw [hwhole] at hback
  have ⟨tail, hrest⟩ := exists_cons_of_trailingFrom (by decide) hback
  have htail : tail = after := by
    rw [hrest] at hback
    exact eq_of_trailingFrom_false hafter (List.cons.inj hback).2
  rw [hrest, closesOr_cons (by decide)] at hfront
  exists stripped
  rw [hcode, hrest, htail]
  exact ⟨rfl, hwhole, hfront⟩

variable {blank : List Char}

private theorem exists_head {init : List Char} {last : Bool} (hspace : isAsciiWhitespace c = false)
    (hcomma : c ≠ ',') (hinit : track .code (init ++ [c]) = .code)
    (h : trailingFrom last .code stripped = init ++ [c] ++ blank) :
    ∃ head tail, stripped = head ++ tail ∧ track .code head = .code ∧
      (∀ last, trailingFrom last .code head = init ++ [c]) ∧
        trailingFrom last .code tail = blank ∧ lastSolid head = some c := by
  have ⟨head, tail, hstripped, hlength⟩ : ∃ head tail, stripped = head ++ tail ∧
      head.length = (init ++ [c]).length := by
    have := congrArg List.length h
    rw [length_trailingFrom, List.length_append] at this
    exists stripped.take (init ++ [c]).length, stripped.drop (init ++ [c]).length
    constructor
    · exact (List.take_append_drop ..).symm
    · rw [List.length_take]
      omega
  rw [hstripped, trailingFrom_append] at h
  have ⟨hhead, htail⟩ := List.append_inj h (by rw [length_trailingFrom, hlength])
  have hwhole : track .code head = .code := by
    rw [← track_trailingFrom (closesOr last tail), hhead, hinit]
  rw [hwhole] at htail
  have ⟨init', hconcat⟩ := exists_concat_of_trailingFrom hspace hhead
  exact ⟨head, tail, hstripped, hwhole, trailingFrom_independent hspace hcomma hhead, htail, by
    rw [hconcat, lastSolid_concat hspace]⟩

/-- In front of an element the spaces are spaces. -/
theorem exists_head_false {init : List Char} (hspace : isAsciiWhitespace c = false)
    (hcomma : c ≠ ',') (hinit : track .code (init ++ [c]) = .code) (hblank : Blank blank)
    (h : trailingFrom false .code stripped = init ++ [c] ++ blank) :
    (∀ last, trailingFrom last .code stripped = init ++ [c] ++ blank) ∧
      lastSolid stripped = some c := by
  have ⟨head, tail, hstripped, hwhole, hhead, htail, hsolid⟩ := exists_head hspace hcomma hinit h
  have htail := eq_of_trailingFrom_false hblank htail
  rw [hstripped, htail]
  constructor
  · intro last
    rw [trailingFrom_append, hhead, hwhole, trailingFrom_of_not_mem (comma_not_mem_blank hblank)]
  · rw [lastSolid_append, lastSolid_blank hblank, hsolid]
    rfl

/-- In front of the closing bracket there may be a comma among the spaces. -/
theorem exists_head_true {init : List Char} (hspace : isAsciiWhitespace c = false)
    (hcomma : c ≠ ',') (hinit : track .code (init ++ [c]) = .code) (hblank : Blank blank)
    (h : trailingFrom true .code stripped = init ++ [c] ++ blank) :
    (lastSolid stripped = some c ∧ trailingFrom false .code stripped = init ++ [c] ++ blank) ∨
      ∃ front back, Blank front ∧ Blank back ∧ lastSolid stripped = some ',' ∧
        trailingFrom false .code stripped = init ++ [c] ++ (front ++ ',' :: back) := by
  have ⟨head, tail, hstripped, hwhole, hhead, htail, hsolid⟩ := exists_head hspace hcomma hinit h
  cases eq_or_comma_of_trailingFrom_true hblank htail with
  | inl hsame =>
    apply Or.inl
    rw [hstripped, hsame]
    constructor
    · rw [lastSolid_append, lastSolid_blank hblank, hsolid]
      rfl
    · rw [trailingFrom_append, hhead, hwhole, trailingFrom_of_not_mem (comma_not_mem_blank hblank)]
  | inr hsplit =>
    have ⟨front, back, hfront, hback, htext, _⟩ := hsplit
    apply Or.inr
    exists front, back
    have hkept : trailingFrom false .code (front ++ ',' :: back) = front ++ ',' :: back := by
      have hfixed : Settled front := .of_blank hfront
      have hclose : closesOr false back = false := closesOr_spaces (spaces_of_blank hback) false
      rw [trailingFrom_append, hfixed.fixed, hfixed.whole, trailingFrom,
        if_neg fun hc ↦ by rw [hclose] at hc; exact Bool.noConfusion hc.2.2]
      exact congrArg (front ++ ',' :: ·) (trailingFrom_of_not_mem (comma_not_mem_blank hback) _ _)
    rw [hstripped, htext]
    refine ⟨hfront, hback, ?_, ?_⟩
    · rw [lastSolid_append, lastSolid_comma hback]
      rfl
    · rw [trailingFrom_append, hhead, hwhole, hkept]

/-! ### One element -/

variable {index : Nat}

private theorem forall₂_split {α β : Type} {R : α → β → Prop} {as : List α} {bs : List β}
    (h : List.Forall₂ R as bs) (hindex : index < as.length) :
    ∃ as₁ a as₂ bs₁ b bs₂, as = as₁ ++ a :: as₂ ∧ bs = bs₁ ++ b :: bs₂ ∧ as₁.length = index ∧
      bs₁.length = index ∧ List.Forall₂ R as₁ bs₁ ∧ R a b ∧ List.Forall₂ R as₂ bs₂ := by
  induction h generalizing index with
  | nil => cases hindex
  | @cons a b as bs hab hrest ih =>
    cases index with
    | zero => exact ⟨[], a, as, [], b, bs, rfl, rfl, rfl, rfl, .nil, hab, hrest⟩
    | succ index =>
      have ⟨as₁, a', as₂, bs₁, b', bs₂, has, hbs, hlength, hlength', hfront, hmiddle, hback⟩ :=
        ih (Nat.lt_of_succ_lt_succ hindex)
      exact ⟨a :: as₁, a', as₂, b :: bs₁, b', bs₂, by rw [has]; rfl, by rw [hbs]; rfl,
        by rw [List.length_cons, hlength], by rw [List.length_cons, hlength'], .cons hab hfront,
        hmiddle, hback⟩

/-- A root array with a distinguished element. -/
structure RootAt (numbers : Numbers N) (sanitized : List Char) (before after : List Char)
    (front : List (Json N)) (value : Json N) (back : List (Json N))
    (segments : List Segment) (segment : Segment) (segments' : List Segment) : Prop where
  root : RootText sanitized before (joinSegments (segments ++ segment :: segments')) after
  front : List.Forall₂ (Segment.Holds numbers) front segments
  value : segment.Holds numbers value
  back : List.Forall₂ (Segment.Holds numbers) back segments'

/-- The place of an element of the root. -/
theorem exists_rootAt {sanitized : List Char}
    (h : Json.fromStr numbers sanitized = some (.array values)) (hindex : index < values.length) :
    ∃ before after front value back segments segment segments',
      values = front ++ value :: back ∧ front.length = index ∧ segments.length = index ∧
        RootAt numbers sanitized before after front value back segments segment segments' := by
  have ⟨before, body, after, hroot, hbody⟩ := exists_rootText h
  have hnonempty : values ≠ [] := by
    rintro rfl
    cases hindex
  have ⟨segments, hholds, hjoin⟩ := exists_segments hbody hnonempty
  have ⟨front, value, back, segments₁, segment, segments₂, hvalues, hsegments, hlength, hlength',
    hfront, hvalue, hback⟩ := forall₂_split hholds hindex
  rw [hjoin, hsegments] at hroot
  exact ⟨before, after, front, value, back, segments₁, segment, segments₂, hvalues, hlength,
    hlength', hroot, hfront, hvalue, hback⟩

namespace RootAt

variable {sanitized before after : List Char} {front back : List (Json N)} {value : Json N}
  {segments segments' : List Segment} {segment : Segment}

private theorem holds (h : RootAt numbers sanitized before after front value back segments segment
    segments') :
    List.Forall₂ (Segment.Holds numbers) (front ++ value :: back)
      (segments ++ segment :: segments') :=
  List.rel_append h.front (.cons h.value h.back)

/-- The elements around it. -/
theorem elements (h : RootAt numbers sanitized before after front value back segments segment
    segments') :
    rootArrayElements sanitized =
      .ok (ranges (byteLength before + 1) (segments ++ segment :: segments')) :=
  h.root.elements h.holds (by simp)

/-- The sanitized text around the element. -/
theorem text (h : RootAt numbers sanitized before after front value back segments segment
    segments') :
    sanitized = (before ++ '[' :: (leading segments ++ segment.before)) ++
      (segment.text ++ (segment.after ++ following segments' ++ ']' :: after)) := by
  rw [h.root.text, joinSegments_append, Segment.chars]
  simp

end RootAt

/-- The range of an element. -/
theorem ranges_at (before : List Char) (segments : List Segment) (segment : Segment)
    (segments' : List Segment) :
    (ranges (byteLength before + 1) (segments ++ segment :: segments'))[segments.length]? =
      some (byteLength (before ++ '[' :: (leading segments ++ segment.before)),
        byteLength (before ++ '[' :: (leading segments ++ segment.before)) +
          byteLength segment.text) := by
  have hopen : Char.utf8Size '[' = 1 := rfl
  rw [ranges_get]
  simp only [byteLength_append, byteLength_cons, hopen, Nat.add_assoc]

theorem RootAt.front_cut {sanitized before after : List Char} {front back : List (Json N)}
    {value : Json N} {segments segments' : List Segment} {segment : Segment}
    (h : RootAt numbers sanitized before after front value back segments segment segments') :
    track .code (before ++ '[' :: (leading segments ++ segment.before)) = .code ∧
      (before ++ '[' :: (leading segments ++ segment.before)).getLast? ≠ some '/' :=
  Config.front_cut h.root.front
    ((balanced_leading h.front).append (.of_blank h.value.front true))

/-- A text that is sanitized to segments has their values. -/
theorem roots_of_segments {text sanitized before after : List Char} {segments : List Segment}
    (h : Sanitizes text sanitized)
    (htext : sanitized = before ++ '[' :: (joinSegments segments ++ ']' :: after))
    (hbefore : Blank before) (hafter : Blank after)
    (hholds : List.Forall₂ (Segment.Holds numbers) values segments) (hnonempty : values ≠ []) :
    Roots numbers text values := by
  exists sanitized
  constructor
  · exact h
  · rw [htext]
    exact fromStr_rootText hbefore hafter (derives_segments hholds hnonempty)

theorem solid_head {value : Json N} {text : List Char} (h : Derives numbers (.value value) text)
    (front rest : List Char) : Solid front (text ++ rest) := by
  have ⟨c, tail, htext, hc⟩ := h.head
  rw [htext]
  exact Or.inl ⟨c, tail ++ rest, rfl, (Json.isHead_spec hc).1⟩

theorem solid_last {value : Json N} {text : List Char} (h : Derives numbers (.value value) text)
    (front rest : List Char) : Solid (front ++ text) rest := by
  have ⟨init, c, htext, hc⟩ := h.last
  rw [htext, ← List.append_assoc]
  exact Or.inr ⟨front ++ init, c, rfl, (Json.isLast_spec hc).1⟩

private theorem closesOr_printed {text : List Char} (h : Printed numbers json text)
    (rest : List Char) :
    closesOr false (text ++ rest) = false := by
  have hclose := closesOr_value Json.blank_nil h.derives rest false
  simpa using hclose

/-- `replace_section` sets the element. -/
theorem replaceSection_spec {text : List Char} (h : Roots numbers text values)
    (hindex : index < values.length) (hjson : json.WellFormed) :
    ∃ text', replaceSection numbers text index json = .ok text' ∧
      Roots numbers text' (values.set index json) := by
  have ⟨sanitized, hsanitized, hparse⟩ := h
  have ⟨before, after, front, value, back, segments, segment, segments', hvalues, hlength,
    hlength', hroot⟩ := exists_rootAt hparse hindex
  have ⟨hquotes, hslash⟩ := hroot.front_cut
  have ⟨first, second, stripped, rest, hgap⟩ := exists_gap hsanitized hroot.text hquotes hslash
    (solid_head hroot.value.value _ _) (balanced_value hroot.value.value).mono
    (solid_last hroot.value.value [] _)
  have hrange := ranges_at before segments segment segments'
  rw [hlength'] at hrange
  have ⟨printed, hindent, hprinted⟩ : ∃ printed,
      indentLines (json.pretty numbers 0) (lineColumn text
        (byteLength (before ++ '[' :: (leading segments ++ segment.before)))) = printed ∧
        Printed numbers json printed := ⟨_, rfl, printed_indentLines hjson _⟩
  have hfront : trailingFrom (closesOr false (printed ++ rest)) .code stripped =
      before ++ '[' :: (leading segments ++ segment.before) := by
    have ⟨last, hlast, hhead⟩ := hgap.front
    have ⟨c, tail, htext, hc⟩ := hroot.value.value.head
    rw [closesOr_printed hprinted, ← hlast, hhead c _ (by rw [htext]; rfl) hc]
  have hsplice := hgap.splice hprinted.balanced hprinted.settled hfront rfl rfl
  have hset : values.set index json = front ++ json :: back := by
    rw [hvalues, ← hlength, List.set_append_right _ _ (Nat.le_refl _), Nat.sub_self,
      List.set_cons_zero]
  exists replaceRange text (byteLength (before ++ '[' :: (leading segments ++ segment.before)))
    (byteLength (before ++ '[' :: (leading segments ++ segment.before)) +
      byteLength segment.text) printed
  constructor
  · rw [replaceSection, sanitizeJsonc_eq_ok.mpr hsanitized]
    simp only [hroot.elements, hrange, hindent]
  · have htext : before ++ '[' :: (leading segments ++ segment.before) ++ printed ++
        (segment.after ++ following segments' ++ ']' :: after) =
          before ++ '[' :: (joinSegments (segments ++
            ⟨segment.before, printed, segment.after⟩ :: segments') ++ ']' :: after) := by
      rw [joinSegments_append, Segment.chars]
      simp
    have hholds : List.Forall₂ (Segment.Holds numbers) (front ++ json :: back)
        (segments ++ ⟨segment.before, printed, segment.after⟩ :: segments') :=
      List.rel_append hroot.front
        (.cons ⟨hroot.value.front, hprinted.derives, hroot.value.back⟩ hroot.back)
    rw [hset]
    exact roots_of_segments ⟨_, hsplice⟩ htext hroot.root.front hroot.root.back hholds (by simp)

private theorem removeSection_only {text : List Char} {value : Json N}
    (h : Roots numbers text [value]) :
    ∃ text', removeSection text 0 = .ok text' ∧ Roots numbers text' [] ∧
      danglingComma text' = danglingComma text := by
  obtain ⟨sanitized, hsanitized, hparse⟩ := h
  obtain ⟨before, after, front, value', back, segments, segment, segments', hvalues, hlength,
    hlength', hroot⟩ := exists_rootAt hparse Nat.zero_lt_one
  obtain rfl := List.eq_nil_of_length_eq_zero hlength
  obtain rfl := List.eq_nil_of_length_eq_zero hlength'
  obtain ⟨rfl, rfl⟩ : value = value' ∧ [] = back := List.cons.inj hvalues
  have hback := hroot.back
  cases hback
  obtain ⟨hquotes, hslash⟩ := hroot.front_cut
  have htext := hroot.text
  simp only [leading, following, List.flatMap_nil, List.nil_append, List.append_nil] at *
  obtain ⟨first, second, stripped, rest, hgap⟩ := exists_gap hsanitized htext hquotes hslash
    (solid_head hroot.value.value _ _) (balanced_value hroot.value.value).mono
    (solid_last hroot.value.value [] _)
  obtain ⟨c, tail, hhead, hc⟩ := hroot.value.value.head
  obtain ⟨init, d, hlast, hd⟩ := hroot.value.value.last
  obtain ⟨hspace, hcomma, _⟩ := Json.isLast_spec hd
  have hfront : trailingFrom false .code stripped = before ++ ['['] ++ segment.before := by
    obtain ⟨last, hlast, hclose⟩ := hgap.front
    rw [hclose c _ (by rw [hhead]; rfl) hc] at hlast
    simpa using hlast
  have hopen : track .code (before ++ ['[']) = .code :=
    (Config.front_cut hroot.root.front (.nil true)).1
  obtain ⟨hstripped, hbracket⟩ :=
    exists_head_false (by decide) (by decide) hopen hroot.value.front hfront
  obtain ⟨hstrip, hsplice⟩ := hgap.splice (.nil true) (.of_blank Json.blank_nil)
    (by rw [hstripped]; simp) rfl rfl
  exists replaceRange text (byteLength (before ++ '[' :: segment.before))
    (byteLength (before ++ '[' :: segment.before) + byteLength segment.text) []
  have hrange := ranges_at before [] segment []
  simp only [leading, List.flatMap_nil, List.nil_append, List.length_nil] at hrange
  refine ⟨?_, ⟨_, ⟨_, hstrip, hsplice⟩, ?_⟩, ?_⟩
  · have helements := hroot.elements
    rw [removeSection, sanitizeJsonc_eq_ok.mpr hsanitized]
    simp only [helements, List.nil_append, hrange, length_ranges, List.length_singleton, if_true]
  · have hblank : Blank (segment.before ++ segment.after) :=
      Json.blank_append.mpr ⟨hroot.value.front, hroot.value.back⟩
    have hinside : Derives numbers (.items []) (segment.before ++ segment.after) :=
      .noItems hblank
    have hempty := fromStr_rootText hroot.root.front hroot.root.back hinside
    simpa using hempty
  · obtain ⟨cut, last, hcode, hcut⟩ := hgap.code
    have hafter : track .code segment.after = .code :=
      (Balanced.of_blank hroot.value.back true).track_eq
    obtain ⟨dangling, hrest, _, hdangling⟩ := exists_bracket hafter hroot.root.back hgap.back
    obtain ⟨init', hcut'⟩ := exists_concat_of_trailingFrom hspace (hcut.trans hlast)
    rw [hrest] at hcode hstrip
    rw [danglingComma_eq hroot.root.back (by rw [hstrip, List.append_nil, ← List.append_assoc]),
      danglingComma_eq hroot.root.back (by rw [hcode, ← List.append_assoc, ← List.append_assoc])]
    simp only [lastSolid_append, hbracket, hcut', lastSolid_concat hspace]
    cases eq_or_comma_of_trailingFrom_true hroot.value.back hdangling with
    | inl hblank =>
      rw [hblank, lastSolid_blank hroot.value.back]
      simp [hcomma]
    | inr hsplit =>
      obtain ⟨front, back, _, hback, hsplit, _⟩ := hsplit
      rw [hsplit, lastSolid_comma hback]
      rfl

private theorem removeSection_next {text : List Char} {front back : List (Json N)}
    {value next : Json N} (h : Roots numbers text (front ++ value :: next :: back)) :
    ∃ text', removeSection text front.length = .ok text' ∧
      Roots numbers text' (front ++ next :: back) := by
  obtain ⟨sanitized, hsanitized, hparse⟩ := h
  have hindex : front.length < (front ++ value :: next :: back).length := by simp
  obtain ⟨before, after, front', value', back', segments, segment, segments', hvalues, hlength,
    hlength', hroot⟩ := exists_rootAt hparse hindex
  obtain ⟨hfront, hrest⟩ := List.append_inj hvalues hlength.symm
  obtain rfl := hfront
  obtain ⟨rfl, rfl⟩ := List.cons.inj hrest
  have hback := hroot.back
  cases hback with
  | @cons _ segment₂ _ segments₂ hnext hmore =>
    have htext : sanitized = (before ++ '[' :: (leading segments ++ segment.before)) ++
        ((segment.text ++ (segment.after ++ ',' :: segment₂.before)) ++
          (segment₂.text ++ (segment₂.after ++ following segments₂ ++ ']' :: after))) := by
      rw [hroot.text]
      simp [following, Segment.chars]
    have hmiddle : Balanced true (segment.text ++ (segment.after ++ ',' :: segment₂.before)) :=
      (balanced_value hroot.value.value).mono.append
        ((Balanced.of_blank hroot.value.back true).append
          (.plain (by decide) (by decide) (.of_blank hnext.front true)))
    obtain ⟨hquotes, hslash⟩ := hroot.front_cut
    obtain ⟨first, second, stripped, rest, hgap⟩ := exists_gap hsanitized htext hquotes hslash
      (by rw [List.append_assoc]; exact solid_head hroot.value.value _ _) hmiddle
      (solid_head hnext.value _ _)
    have hstart := ranges_at before segments segment (segment₂ :: segments₂)
    have hstop := ranges_at before (segments ++ [segment]) segment₂ segments₂
    have hleading : leading (segments ++ [segment]) =
        leading segments ++ segment.chars ++ [','] := by
      simp [leading]
    have hend : byteLength (before ++ '[' :: (leading (segments ++ [segment]) ++ segment₂.before)) =
        byteLength (before ++ '[' :: (leading segments ++ segment.before)) +
          byteLength (segment.text ++ (segment.after ++ ',' :: segment₂.before)) := by
      rw [hleading, Segment.chars]
      simp only [byteLength_append, byteLength_cons, byteLength_nil]
      omega
    rw [hend, List.append_assoc, List.singleton_append, List.length_append,
      List.length_singleton, hlength'] at hstop
    rw [hlength'] at hstart
    have hfront : ∀ last, last = false → trailingFrom last .code stripped =
        before ++ '[' :: (leading segments ++ segment.before) := by
      obtain ⟨last, hlast, hclose⟩ := hgap.front
      obtain ⟨c, tail, hhead, hc⟩ := hroot.value.value.head
      rintro _ rfl
      rw [← hlast, hclose c _ (by rw [hhead]; rfl) hc]
    have hclose : closesOr false rest = false := by
      obtain ⟨c, tail, hhead, hc⟩ := hnext.value.head
      exact closesOr_of_trailingFrom hc (hgap.back.trans (by rw [hhead]; rfl))
    have hsplice := hgap.splice (.nil true) (.of_blank Json.blank_nil) (hfront _ hclose) rfl rfl
    have hholds : List.Forall₂ (Segment.Holds numbers) (front ++ next :: back)
        (segments ++ ⟨segment.before, segment₂.text, segment₂.after⟩ :: segments₂) :=
      List.rel_append hroot.front (.cons ⟨hroot.value.front, hnext.value, hnext.back⟩ hmore)
    refine ⟨_, ?_, roots_of_segments ⟨_, hsplice⟩ ?_ hroot.root.front hroot.root.back hholds
      (by simp)⟩
    · rw [removeSection, sanitizeJsonc_eq_ok.mpr hsanitized]
      have hmany : ¬ (segments ++ segment :: segment₂ :: segments₂).length = 1 := by
        simp only [List.length_append, List.length_cons]
        omega
      simp only [hroot.elements, hstart, hstop, length_ranges, if_neg hmany]
    · rw [joinSegments_append, Segment.chars]
      simp

private theorem removeSection_last {text : List Char} {front : List (Json N)}
    {previous value : Json N} (h : Roots numbers text (front ++ [previous, value])) :
    ∃ text', removeSection text (front.length + 1) = .ok text' ∧
      Roots numbers text' (front ++ [previous]) := by
  obtain ⟨sanitized, hsanitized, hparse⟩ := h
  have hindex : front.length < (front ++ [previous, value]).length := by simp
  obtain ⟨before, after, front', value', back', segments, segment, segments', hvalues, hlength,
    hlength', hroot⟩ := exists_rootAt hparse hindex
  obtain ⟨hfront, hrest⟩ := List.append_inj hvalues hlength.symm
  obtain rfl := hfront
  obtain ⟨rfl, rfl⟩ := List.cons.inj hrest
  have hback := hroot.back
  cases hback with
  | @cons _ segment₂ _ segments₂ hnext hmore =>
    cases hmore
    have htext : sanitized = (before ++ '[' :: (leading segments ++ segment.before) ++
        segment.text) ++ ((segment.after ++ ',' :: (segment₂.before ++ segment₂.text)) ++
          (segment₂.after ++ ']' :: after)) := by
      rw [hroot.text]
      simp [following, Segment.chars]
    have hmiddle : Balanced true (segment.after ++ ',' :: (segment₂.before ++ segment₂.text)) :=
      (Balanced.of_blank hroot.value.back true).append (.plain (by decide) (by decide)
        ((Balanced.of_blank hnext.front true).append (balanced_value hnext.value).mono))
    have hinner : Balanced true (leading segments ++ segment.before ++ segment.text) :=
      ((balanced_leading hroot.front).append (.of_blank hroot.value.front true)).append
        (balanced_value hroot.value.value).mono
    have hcut := Config.front_cut hroot.root.front hinner
    rw [← List.cons_append, ← List.append_assoc] at hcut
    have hsolid : Solid (segment.after ++ ',' :: (segment₂.before ++ segment₂.text))
        (segment₂.after ++ ']' :: after) := by
      have hlast := solid_last hnext.value (segment.after ++ ',' :: segment₂.before)
        (segment₂.after ++ ']' :: after)
      simpa using hlast
    obtain ⟨first, second, stripped, rest, hgap⟩ := exists_gap hsanitized htext hcut.1 hcut.2
      (solid_last hroot.value.value _ _) hmiddle hsolid
    have hstart := ranges_at before segments segment [segment₂]
    have hstop := ranges_at before (segments ++ [segment]) segment₂ []
    have hleading : leading (segments ++ [segment]) =
        leading segments ++ segment.chars ++ [','] := by
      simp [leading]
    have hend : byteLength (before ++ '[' :: (leading (segments ++ [segment]) ++
        segment₂.before)) + byteLength segment₂.text =
          byteLength (before ++ '[' :: (leading segments ++ segment.before) ++ segment.text) +
            byteLength (segment.after ++ ',' :: (segment₂.before ++ segment₂.text)) := by
      rw [hleading, Segment.chars]
      simp only [byteLength_append, byteLength_cons, byteLength_nil]
      omega
    rw [hend, List.append_assoc, List.singleton_append, List.length_append,
      List.length_singleton, hlength'] at hstop
    rw [hlength', ← byteLength_append] at hstart
    have hfront : trailingFrom (closesOr false ([] ++ rest)) .code stripped =
        before ++ '[' :: (leading segments ++ segment.before) ++ segment.text := by
      obtain ⟨last, hlast, _⟩ := hgap.front
      obtain ⟨init, c, htail, hc⟩ := hroot.value.value.last
      obtain ⟨hspace, hcomma, _⟩ := Json.isLast_spec hc
      rw [htail, ← List.append_assoc] at hlast ⊢
      exact trailingFrom_independent hspace hcomma hlast _
    have hsplice := hgap.splice (.nil true) (.of_blank Json.blank_nil) hfront rfl rfl
    have hholds : List.Forall₂ (Segment.Holds numbers) (front ++ [previous])
        (segments ++ [⟨segment.before, segment.text, segment₂.after⟩]) :=
      List.rel_append hroot.front
        (.cons ⟨hroot.value.front, hroot.value.value, hnext.back⟩ .nil)
    refine ⟨_, ?_, roots_of_segments ⟨_, hsplice⟩ ?_ hroot.root.front hroot.root.back hholds
      (by simp)⟩
    · rw [removeSection, sanitizeJsonc_eq_ok.mpr hsanitized]
      have hmany : ¬ (segments ++ [segment, segment₂]).length = 1 := by
        simp only [List.length_append, List.length_cons]
        omega
      have hnone : (ranges (byteLength before + 1) (segments ++ [segment, segment₂]))[
          front.length + 1 + 1]? = none := by
        rw [List.getElem?_eq_none_iff, length_ranges, List.length_append, hlength']
        simp
      simp only [hroot.elements, hstart, hstop, hnone, length_ranges, if_neg hmany,
        Nat.add_sub_cancel]
    · rw [joinSegments_append, Segment.chars]
      simp [following]

/-- `remove_section` removes the element. -/
theorem removeSection_spec {text : List Char} (h : Roots numbers text values)
    (hindex : index < values.length) :
    ∃ text', removeSection text index = .ok text' ∧
      Roots numbers text' (values.eraseIdx index) ∧
        (values.length = 1 → danglingComma text' = danglingComma text) := by
  have hvalues : values = values.take index ++ values[index] :: values.drop (index + 1) := by
    rw [← List.drop_eq_getElem_cons hindex, List.take_append_drop]
  have hlength : (values.take index).length = index := by
    rw [List.length_take]
    omega
  have herase : values.eraseIdx index = values.take index ++ values.drop (index + 1) :=
    List.eraseIdx_eq_take_drop_succ values index
  rw [herase]
  cases hback : values.drop (index + 1) with
  | cons next back =>
    rw [hvalues, hback] at h
    have ⟨text', hremove, hroots⟩ := removeSection_next h
    rw [hlength] at hremove
    refine ⟨text', hremove, hroots, ?_⟩
    intro hone
    have := congrArg List.length hback
    rw [List.length_drop, List.length_cons] at this
    omega
  | nil =>
    rw [hvalues, hback] at h
    cases List.eq_nil_or_concat (values.take index) with
    | inl hnil =>
      rw [hnil, List.nil_append] at h
      have hzero : index = 0 := by
        rw [hnil] at hlength
        exact hlength.symm
      have ⟨text', hremove, hroots, hdangling⟩ := removeSection_only h
      rw [hzero]
      exact ⟨text', hremove, by simpa using hroots, fun _ ↦ hdangling⟩
    | inr hconcat =>
      have ⟨front, previous, hfront⟩ := hconcat
      rw [List.concat_eq_append] at hfront
      rw [hfront, List.append_assoc, List.singleton_append] at h
      have hindex' : index = front.length + 1 := by
        rw [hfront, List.length_append] at hlength
        exact hlength.symm
      have ⟨text', hremove, hroots⟩ := removeSection_last h
      rw [← hindex'] at hremove
      refine ⟨text', hremove, by rw [hfront, List.append_nil]; exact hroots, ?_⟩
      intro hone
      omega

end Bootty.Config
