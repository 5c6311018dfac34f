import Bootty.Config.KeymapAppend
import Bootty.Config.KeymapSections

/-!
# The contents of a keymap

What a keymap says: its entries with the options of their sections, in the order of the text, and
which contexts keep the built-in defaults. Both can be told from the root values one by one; the
place of a value only shows in the index of its section.
-/

namespace Bootty.Config

open Bootty.Base
open Bootty.Base.Json (Blank Derives Numbers)

variable {N : Type} {numbers : Numbers N}

/-! ### Rows -/

/-- An entry with what its section says of it. -/
structure KeymapRow (N : Type) where
  context : KeymapContext
  useKeyEquivalents : Bool
  kind : KeymapBindingKind
  entry : KeymapEntry N

namespace KeymapSection

/-- The row of an entry. -/
def row (self : KeymapSection N) (kind : KeymapBindingKind) (entry : KeymapEntry N) :
    KeymapRow N :=
  ⟨self.context, self.useKeyEquivalents, kind, entry⟩

/-- The rows of a section. -/
def rows (self : KeymapSection N) : List (KeymapRow N) :=
  self.unbind.map (self.row .unbind) ++ self.bindings.map (self.row .binding)

/-- The rows of a section. -/
theorem mem_rows {self : KeymapSection N} {row : KeymapRow N} :
    row ∈ self.rows ↔ ∃ kind, ∃ entry ∈ self.entries kind, row = self.row kind entry := by
  unfold rows
  rw [List.mem_append, List.mem_map, List.mem_map]
  constructor
  · rintro (⟨entry, hentry, heq⟩ | ⟨entry, hentry, heq⟩)
    · exact ⟨.unbind, entry, hentry, heq.symm⟩
    · exact ⟨.binding, entry, hentry, heq.symm⟩
  · rintro ⟨kind, entry, hentry, heq⟩
    cases kind with
    | unbind => exact Or.inl ⟨entry, hentry, heq.symm⟩
    | binding => exact Or.inr ⟨entry, hentry, heq.symm⟩

end KeymapSection

namespace KeymapFile

/-- The rows of a file. -/
def rows (self : KeymapFile N) : List (KeymapRow N) := self.sections.flatMap KeymapSection.rows

end KeymapFile

/-! ### Sections of values -/

/-- The sections of root values, the first of which has the index. -/
def sectionsFrom (index : Nat) : List (Json N) → List (KeymapSection N)
  | [] => []
  | value :: rest =>
    (KeymapFile.readSection index value).1.toList ++ sectionsFrom (index + 1) rest

/-- Sections are read one by one. -/
theorem sectionsFrom_append (index : Nat) (front back : List (Json N)) :
    sectionsFrom index (front ++ back) =
      sectionsFrom index front ++ sectionsFrom (index + front.length) back := by
  induction front generalizing index with
  | nil => rfl
  | cons value front ih =>
    have hindex : index + 1 + front.length = index + (value :: front).length := by
      rw [List.length_cons]
      omega
    rw [List.cons_append, sectionsFrom, ih, sectionsFrom, List.append_assoc, hindex]

/-- The file that is read from root values. -/
def fileOf (values : List (Json N)) : KeymapFile N :=
  values.zipIdx.foldl (fun file (value, index) ↦ file.parseSection index value) ⟨[], []⟩

/-- The sections are read one after the other. -/
theorem sections_fileOf (values : List (Json N)) :
    (fileOf values).sections = sectionsFrom 0 values := by
  have hfold : ∀ index (file : KeymapFile N),
      ((values.zipIdx index).foldl (fun file (value, index) ↦ file.parseSection index value)
        file).sections = file.sections ++ sectionsFrom index values := by
    induction values with
    | nil => intro index file; simp [sectionsFrom]
    | cons value rest ih =>
      intro index file
      rw [List.zipIdx_cons, List.foldl_cons, ih, sectionsFrom, ← List.append_assoc]
      rfl
  exact hfold 0 ⟨[], []⟩

variable {index : Nat} {value : Json N} {read : KeymapSection N}

theorem readSection_sourceIndex (h : (KeymapFile.readSection index value).1 = some read) :
    read.sourceIndex = index := by
  rw [KeymapSection.readSection_index index index] at h
  have ⟨other, _, heq⟩ := Option.map_eq_some_iff.mp h
  rw [← heq]

variable {values : List (Json N)}

/-- The range of the indices. -/
theorem sourceIndex_of_mem (h : read ∈ sectionsFrom index values) :
    index ≤ read.sourceIndex ∧ read.sourceIndex < index + values.length := by
  induction values generalizing index with
  | nil => cases h
  | cons value rest ih =>
    rw [sectionsFrom, List.mem_append, Option.mem_toList] at h
    rw [List.length_cons]
    cases h with
    | inl hfirst =>
      rw [readSection_sourceIndex hfirst]
      omega
    | inr hrest =>
      have := ih hrest
      omega

/-- A section among the others comes from a value among the others. -/
theorem exists_value {before after : List (KeymapSection N)}
    (h : sectionsFrom index values = before ++ read :: after) :
    ∃ front value back, values = front ++ value :: back ∧ sectionsFrom index front = before ∧
      (KeymapFile.readSection (index + front.length) value).1 = some read ∧
        sectionsFrom (index + front.length + 1) back = after := by
  induction values generalizing index before with
  | nil => simp [sectionsFrom] at h
  | cons value rest ih =>
    rw [sectionsFrom] at h
    cases hread : (KeymapFile.readSection index value).1 with
    | none =>
      rw [hread] at h
      have ⟨front, found, back, hvalues, hbefore, hfound, hafter⟩ := ih h
      refine ⟨value :: front, found, back, by rw [hvalues]; rfl, ?_, ?_, ?_⟩
      · rw [sectionsFrom, hread, hbefore]
        rfl
      · rw [← hfound, List.length_cons, Nat.add_assoc, Nat.add_comm 1]
      · rw [← hafter, List.length_cons]
        congr 1
        omega
    | some first =>
      rw [hread] at h
      cases before with
      | nil =>
        have ⟨hfirst, hrest⟩ := List.cons.inj h
        refine ⟨[], value, rest, rfl, rfl, ?_, hrest⟩
        rw [← hfirst]
        exact hread
      | cons first' before =>
        have ⟨hfirst, hrest⟩ := List.cons.inj h
        have ⟨front, found, back, hvalues, hbefore, hfound, hafter⟩ := ih hrest
        refine ⟨value :: front, found, back, by rw [hvalues]; rfl, ?_, ?_, ?_⟩
        · rw [sectionsFrom, hread, hbefore, ← hfirst]
          rfl
        · rw [← hfound, List.length_cons, Nat.add_assoc, Nat.add_comm 1]
        · rw [← hafter, List.length_cons]
          congr 1
          omega

/-! ### Rows and defaults of values -/

/-- The section of a value, at no place in particular. -/
def valueSection (value : Json N) : Option (KeymapSection N) := (KeymapFile.readSection 0 value).1

/-- The rows of one element. -/
def valueRows (value : Json N) : List (KeymapRow N) :=
  (valueSection value).toList.flatMap KeymapSection.rows

/-- What a value says of the built-in defaults. -/
def valueDefaults (context : KeymapContext) (value : Json N) : Option Bool :=
  (valueSection value).bind fun read ↦
    if read.context = context then read.useBuiltinDefaults else none

/-- The last value that says something decides. -/
def defaultsOf (context : KeymapContext) (values : List (Json N)) : Option Bool :=
  values.reverse.findSome? (valueDefaults context)

@[simp] theorem defaultsOf_append (context : KeymapContext) (front back : List (Json N)) :
    defaultsOf context (front ++ back) =
      (defaultsOf context back).or (defaultsOf context front) := by
  rw [defaultsOf, List.reverse_append, List.findSome?_append]
  rfl

@[simp] theorem defaultsOf_cons (context : KeymapContext) (value : Json N)
    (back : List (Json N)) :
    defaultsOf context (value :: back) =
      (defaultsOf context back).or (valueDefaults context value) := by
  rw [← List.singleton_append, defaultsOf_append]
  simp [defaultsOf]

private theorem valueSection_eq (h : (KeymapFile.readSection index value).1 = some read) :
    valueSection value = some { read with sourceIndex := 0 } := by
  rw [valueSection, KeymapSection.readSection_index 0 index, h]
  rfl

/-- The rows of a value that is read. -/
theorem valueRows_eq (h : (KeymapFile.readSection index value).1 = some read) :
    valueRows value = read.rows := by
  rw [valueRows, valueSection_eq h]
  exact List.flatMap_singleton ..

theorem valueDefaults_eq (h : (KeymapFile.readSection index value).1 = some read)
    (context : KeymapContext) :
    valueDefaults context value =
      if read.context = context then read.useBuiltinDefaults else none := by
  rw [valueDefaults, valueSection_eq h]
  rfl

theorem valueSection_none (h : (KeymapFile.readSection index value).1 = none) :
    valueSection value = none := by
  rw [valueSection, KeymapSection.readSection_index 0 index, h]
  rfl

theorem rows_sectionsFrom (index : Nat) (values : List (Json N)) :
    (sectionsFrom index values).flatMap KeymapSection.rows = values.flatMap valueRows := by
  induction values generalizing index with
  | nil => rfl
  | cons value rest ih =>
    rw [sectionsFrom, List.flatMap_append, ih, List.flatMap_cons]
    congr 1
    cases hread : (KeymapFile.readSection index value).1 with
    | none => rw [valueRows, valueSection_none hread]
    | some read =>
      rw [valueRows_eq hread]
      exact List.flatMap_singleton ..

/-- The rows of a file. -/
theorem rows_fileOf (values : List (Json N)) :
    (fileOf values).rows = values.flatMap valueRows := by
  rw [KeymapFile.rows, sections_fileOf, rows_sectionsFrom]

theorem defaults_sectionsFrom (context : KeymapContext) (index : Nat) (values : List (Json N)) :
    ((sectionsFrom index values).reverse.filter (·.context = context)).findSome?
      (·.useBuiltinDefaults) = defaultsOf context values := by
  induction values generalizing index with
  | nil => rfl
  | cons value rest ih =>
    rw [sectionsFrom, List.reverse_append, List.filter_append, List.findSome?_append, ih,
      defaultsOf_cons]
    congr 1
    cases hread : (KeymapFile.readSection index value).1 with
    | none =>
      rw [valueDefaults, valueSection_none hread]
      rfl
    | some read =>
      rw [valueDefaults_eq hread]
      by_cases hcontext : read.context = context
      · simp [hcontext]
      · simp [hcontext]

/-- The defaults of a file. -/
theorem useBuiltinDefaults_fileOf (values : List (Json N)) (context : KeymapContext) :
    (fileOf values).useBuiltinDefaults context = (defaultsOf context values).getD true := by
  rw [KeymapFile.useBuiltinDefaults, sections_fileOf, defaults_sectionsFrom]

/-! ### Texts -/

variable {text : List Char}

private theorem sanitizes_spaces (h : text.all isWhitespace = true) :
    stripFrom (.quote .code) text = some text ∧ Sanitizes text text := by
  have hmem : ∀ c ∈ text, isWhitespace c = true := List.all_eq_true.mp h
  have hstrip : stripFrom (.quote .code) text = some text := by
    clear h
    induction text with
    | nil => rfl
    | cons c rest ih =>
      have hc := hmem c List.mem_cons_self
      have hslash : c ≠ '/' := by
        rintro rfl
        revert hc
        decide
      have hquote : c ≠ '"' := by
        rintro rfl
        revert hc
        decide
      rw [strip_cons (fun _ ↦ hslash), step_code hquote,
        ih fun d hd ↦ hmem d (List.mem_cons_of_mem _ hd)]
      rfl
  have hcomma : ',' ∉ text := by
    intro hcomma
    have := hmem ',' hcomma
    revert this
    decide
  exact ⟨hstrip, text, hstrip, trailingFrom_of_not_mem hcomma _ _⟩

private theorem not_spaces {sanitized before body after : List Char} (h : Sanitizes text sanitized)
    (hroot : RootText sanitized before body after) :
    text.all isWhitespace = false := by
  cases hspaces : text.all isWhitespace with
  | false => rfl
  | true =>
    have hsame : sanitized = text := by
      have hok := sanitizeJsonc_eq_ok.mpr h
      rw [sanitizeJsonc_eq_ok.mpr (sanitizes_spaces hspaces).2] at hok
      exact (Except.ok.inj hok).symm
    have hopen : '[' ∈ text := by
      rw [← hsame, hroot.text]
      simp
    have := List.all_eq_true.mp hspaces '[' hopen
    revert this
    decide

/-- A keymap with root values is read from them. -/
theorem parse_of_roots (h : Roots numbers text values) :
    KeymapFile.parse numbers text = .ok (fileOf values) := by
  have ⟨sanitized, hsanitized, hparse⟩ := h
  have ⟨_, _, _, hroot, _⟩ := exists_rootText hparse
  rw [KeymapFile.parse, not_spaces hsanitized hroot, sanitizeJsonc_eq_ok.mpr hsanitized]
  simp only [hparse]
  rfl

/-- A broken keymap is not read. -/
theorem Broken.not_parse (h : Broken text) (file : KeymapFile N) :
    KeymapFile.parse numbers text ≠ .ok file := by
  have ⟨sanitized, before, core, blank, after, hsanitized, hroot, _⟩ := h
  rw [KeymapFile.parse, not_spaces hsanitized hroot, sanitizeJsonc_eq_ok.mpr hsanitized]
  intro hparse
  simp only [Bool.false_eq_true, if_false] at hparse
  split at hparse
  · cases hparse
  · next values hvalues => exact h.not_roots values ⟨sanitized, hsanitized, hvalues⟩
  · cases hparse

/-- Root values have different keys in their objects. -/
theorem Roots.wellFormed (h : Roots numbers text values) : ∀ value ∈ values, value.WellFormed := by
  have ⟨sanitized, _, hparse⟩ := h
  have ⟨_, _, _, _, _, _, hderives⟩ := Json.derives_of_fromStr hparse
  exact Json.wellFormedItems_iff.mp hderives.wellFormed

private theorem roots_initial : Roots numbers initialKeymapContent [] := by
  have hblank : Blank ['\n'] := by simp [Json.isSpace]
  exists initialKeymapContent
  constructor
  · exact ⟨initialKeymapContent, by decide, by decide⟩
  · exact fromStr_rootText Json.blank_nil hblank (.noItems hblank)

/-- Every keymap that is read has root values. -/
theorem exists_roots {file : KeymapFile N} (h : KeymapFile.parse numbers text = .ok file) :
    ∃ values, Roots numbers (editedText text) values ∧ file = fileOf values := by
  unfold KeymapFile.parse at h
  unfold editedText
  split at h
  · next hspaces =>
    rw [if_pos hspaces]
    exact ⟨[], roots_initial, (Except.ok.inj h).symm⟩
  · next hspaces =>
    rw [if_neg hspaces]
    split at h
    · cases h
    · next sanitized hsanitized =>
      split at h
      · cases h
      · next values hvalues =>
        exact ⟨values, ⟨sanitized, sanitizeJsonc_eq_ok.mp hsanitized, hvalues⟩,
          (Except.ok.inj h).symm⟩
      · cases h

/-! ### The comma behind the last element -/

/-- How many elements the root array has. -/
def rootCount (numbers : Numbers N) (text : List Char) : Option Nat :=
  match sanitizeJsonc text with
  | .error _ => none
  | .ok sanitized =>
    match Json.fromStr numbers sanitized with
    | some (.array values) => some values.length
    | _ => none

/-- The root array has so many elements, and a comma behind them. -/
def CommaBehind (numbers : Numbers N) (text : List Char) (count : Nat) : Prop :=
  rootCount numbers text = some count ∧ danglingComma text = true

/-- Whether the array ends in a comma is decidable. -/
instance (text : List Char) (count : Nat) : Decidable (CommaBehind numbers text count) :=
  inferInstanceAs (Decidable (_ ∧ _))

private theorem danglingComma_spaces (h : text.all isWhitespace = true) :
    danglingComma text = false := by
  have ⟨hstrip, _⟩ := sanitizes_spaces h
  rw [danglingComma, stripJsoncComments, hstrip]
  dsimp only
  rw [beq_eq_false_iff_ne]
  intro hlast
  have hmem : ',' ∈ text := by
    have hlast := List.mem_of_find?_eq_some hlast
    have hdrop := (List.dropLast_sublist _).subset (List.mem_reverse.mp hlast)
    exact List.mem_reverse.mp ((List.dropWhile_sublist _).subset (List.mem_reverse.mp hdrop))
  have := List.all_eq_true.mp h ',' hmem
  revert this
  decide

/-- When the array ends in a comma. -/
theorem commaBehind_iff (h : Roots numbers (editedText text) values) (count : Nat) :
    CommaBehind numbers text count ↔
      values.length = count ∧ danglingComma (editedText text) = true := by
  unfold CommaBehind
  unfold editedText at h ⊢
  split
  · next hspaces =>
    have hinitial : danglingComma initialKeymapContent = false := by decide
    simp [danglingComma_spaces hspaces, hinitial]
  · next hspaces =>
    rw [if_neg hspaces] at h
    have ⟨sanitized, hsanitized, hparse⟩ := h
    rw [rootCount, sanitizeJsonc_eq_ok.mpr hsanitized]
    simp [hparse]

end Bootty.Config
