import Bootty.Base.Fallible
import Bootty.Config.KeymapRows

/-!
# Keymap edits

What the edits are for, in terms of the entries and defaults of the file, and when
`update_keymap_jsonc` does it. Two things are lost: a keymap whose root array is left with a comma
and no element is broken by the next section (`append_section` looks for elements where trailing
commas are removed, and for the comma where they are not), and a replacement that stays in its
section is dropped behind a later entry with its keystrokes, or when it is an unbinding of nothing.
-/

namespace Bootty.Config

open Bootty.Base
open Bootty.Base.Json (Numbers)

variable {N : Type} {numbers : Numbers N}

/-! ### What edits are for -/

/-- The row that the target describes. -/
def KeymapBindingTarget.describes [BEq N] (target : KeymapBindingTarget N) (row : KeymapRow N) :
    Bool :=
  decide (row.context = target.context ∧ row.kind = target.kind) && target.matches row.entry

/-- The bindings are appended, each in a section of its own. -/
def Appended (file : KeymapFile N) (bindings : List (KeymapBindingTarget N))
    (file' : KeymapFile N) : Prop :=
  ∃ index, file'.sections =
    file.sections ++ (bindings.zipIdx index).map fun (binding, index) ↦ binding.toSection index

/-- The contexts keep the built-in defaults as before. -/
def KeptDefaults (file file' : KeymapFile N) : Prop :=
  ∀ context, file'.useBuiltinDefaults context = file.useBuiltinDefaults context

/-- Keystrokes of neither the target nor its replacement. -/
def otherKeystrokes (target replacement : KeymapBindingTarget N) (row : KeymapRow N) : Bool :=
  row.entry.keystrokes != target.keystrokes && row.entry.keystrokes != replacement.keystrokes

/-- The context keeps the built-in defaults or not, and nothing else changes. -/
def EditedAsDefaults (file : KeymapFile N) (context : KeymapContext) (enabled : Bool)
    (file' : KeymapFile N) : Prop :=
  file'.rows = file.rows ∧ ∀ other, file'.useBuiltinDefaults other =
    if other = context then enabled else file.useBuiltinDefaults other

/-- The file is edited as the edit says. -/
def EditedAs [BEq N] (file : KeymapFile N) (edit : KeymapEdit N) (file' : KeymapFile N) : Prop :=
  match edit with
  | .add binding => Appended file [binding] file'
  | .replace target replacement .builtIn =>
    Appended file
      (if target.keystrokes ≠ replacement.keystrokes ∨ target.context ≠ replacement.context then
        [{ target with kind := .unbind }, replacement]
      else [replacement]) file'
  | .replace target replacement .user =>
    if file.rows.any target.describes then
      file'.rows.any replacement.describes = true ∧
        file'.rows.filter (otherKeystrokes target replacement) =
          file.rows.filter (otherKeystrokes target replacement) ∧ KeptDefaults file file'
    else Appended file [replacement] file'
  | .remove target .builtIn => Appended file [{ target with kind := .unbind }] file'
  | .remove target .user =>
    file'.rows = file.rows.eraseP target.describes ∧ KeptDefaults file file'
  | .resetContext context =>
    file'.rows = file.rows.filter (·.context ≠ context) ∧ KeptDefaults file file'
  | .setBuiltInDefaults context enabled => EditedAsDefaults file context enabled file'

/-! ### What edits are given -/

/-- A context that `from_str` gives, and a value. -/
def KeymapBindingTarget.Valid (target : KeymapBindingTarget N) : Prop :=
  (∃ value, target.context = .fromStr value) ∧ target.action.toJson.WellFormed

/-- What edits are given. -/
def KeymapEdit.Valid : KeymapEdit N → Prop
  | .add binding => binding.Valid
  | .replace target replacement _ => target.Valid ∧ replacement.Valid
  | .remove target _ => target.Valid
  | .resetContext context | .setBuiltInDefaults context _ => ∃ value, context = .fromStr value

/-! ### When edits do what they are for -/

/-- An action that an entry of the kind can have. -/
def KeymapBindingTarget.Named (binding : KeymapBindingTarget N) : Prop :=
  binding.kind = .unbind → binding.action ≠ .none

/-- Whether the replacement of an entry is found in its section afterwards: no later entry has its
keystrokes and another action. -/
def StaysLast [BEq N] (found : KeymapSection N) (entryIndex : Nat)
    (replacement : KeymapBindingTarget N) : Prop :=
  replacement.Named ∧ ∀ later ∈ (found.entries replacement.kind).drop (entryIndex + 1),
    later.keystrokes = replacement.keystrokes → later.action.beq replacement.action = true

/-- Whether the replacement is in another section. -/
def HeldElsewhere [BEq N] (file : KeymapFile N) (found : KeymapSection N)
    (replacement : KeymapBindingTarget N) : Prop :=
  ∃ other ∈ file.sections, other.sourceIndex ≠ found.sourceIndex ∧
    other.rows.any replacement.describes = true

/-- When the edit of the text is the edit of the file. -/
def EditHolds [BEq N] (numbers : Numbers N) (text : List Char) (file : KeymapFile N) :
    KeymapEdit N → Prop
  | .add _ | .replace _ _ .builtIn | .remove _ .builtIn | .setBuiltInDefaults _ _ =>
    ¬ CommaBehind numbers text 0
  | .remove _ .user | .resetContext _ => True
  | .replace target replacement .user =>
    match findBinding file target with
    | none => ¬ CommaBehind numbers text 0
    | some (found, entryIndex) =>
      if target.context = replacement.context ∧ target.kind = replacement.kind then
        StaysLast found entryIndex replacement ∨ HeldElsewhere file found replacement
      else ¬ (found.bindingCount = 1 ∧ found.bare ∧ CommaBehind numbers text 1)

/-! ### Sections of their own -/

namespace KeymapBindingTarget

variable {binding : KeymapBindingTarget N}

/-- The JSON that `append_binding` writes. -/
def json (binding : KeymapBindingTarget N) : Json N := (binding.toSection noSource).toJson

private theorem context_eq (h : binding.Valid) :
    KeymapContext.fromStr binding.context.asStr = binding.context := by
  have ⟨⟨value, hvalue⟩, _⟩ := h
  rw [hvalue, KeymapContext.fromStr_asStr]

private theorem rows_toSection (binding : KeymapBindingTarget N) (index : Nat) :
    (binding.toSection index).rows =
      [⟨binding.context, false, binding.kind, ⟨binding.keystrokes, binding.action⟩⟩] := by
  unfold toSection
  cases binding.kind <;> rfl

private theorem read_toSection (hvalid : binding.Valid) (hnamed : binding.Named) (index : Nat) :
    (binding.toSection index).Read := by
  have hcontext := context_eq hvalid
  have hempty : ∀ unbind, EntriesRead unbind ([] : List (KeymapEntry N)) :=
    fun _ ↦ ⟨List.nodup_nil, fun _ _ hmem ↦ nomatch hmem⟩
  have hsingle : ∀ unbind, (unbind = true → binding.action ≠ .none) →
      EntriesRead unbind [⟨binding.keystrokes, binding.action⟩] := by
    intro unbind hunbind
    refine ⟨List.nodup_singleton _, fun htrue entry hentry ↦ ?_⟩
    rw [List.mem_singleton.mp hentry]
    exact hunbind htrue
  have hactions : ∀ kind, ∀ entry ∈ (binding.toSection index).entries kind,
      entry.action.toJson.WellFormed := by
    intro kind entry hentry
    have hrow : (binding.toSection index).row kind entry ∈ (binding.toSection index).rows :=
      KeymapSection.mem_rows.mpr ⟨kind, entry, hentry, rfl⟩
    rw [rows_toSection, List.mem_singleton] at hrow
    have hsame : entry = ⟨binding.keystrokes, binding.action⟩ := congrArg KeymapRow.entry hrow
    rw [hsame]
    exact hvalid.2
  unfold toSection at hactions ⊢
  unfold Named at hnamed
  cases hkind : binding.kind with
  | unbind =>
    rw [hkind] at hactions
    exact ⟨hcontext, hsingle true fun _ ↦ hnamed hkind, hempty false, hactions⟩
  | binding =>
    rw [hkind] at hactions
    exact ⟨hcontext, hempty true, hsingle false nofun, hactions⟩

private theorem wellFormed_json (hvalid : binding.Valid) (hnamed : binding.Named) :
    binding.json.WellFormed :=
  KeymapSection.wellFormed_toJson (read_toSection hvalid hnamed noSource).actions

/-- A section of its own is read as such. -/
theorem readSection_json (hvalid : binding.Valid) (hnamed : binding.Named) (index : Nat) :
    (KeymapFile.readSection index binding.json).1 = some (binding.toSection index) := by
  have hread := read_toSection hvalid hnamed noSource
  rw [json, KeymapSection.readSection_toJson hread.context, hread.reread_eq]
  unfold toSection
  cases binding.kind <;> rfl

end KeymapBindingTarget

/-- `append_binding` checks the action of an unbinding. -/
theorem appendBinding_eq_ok {text text' : List Char} {binding : KeymapBindingTarget N} :
    appendBinding numbers text binding = .ok text' ↔
      binding.Named ∧ appendSection numbers text binding.json = .ok text' := by
  unfold appendBinding KeymapBindingTarget.Named KeymapBindingTarget.json
  split
  · next hkind haction => simp [hkind, haction]
  · next hother =>
    constructor
    · exact fun h ↦ ⟨fun hkind haction ↦ hother hkind haction, h⟩
    · exact fun h ↦ h.2

/-! ### Appending -/

/-- A section is appended unless the root array holds nothing but a comma. -/
theorem appendSection_iff {text text' : List Char} {values : List (Json N)}
    (h : Roots numbers text values) {json : Json N} (hjson : json.WellFormed)
    (hok : appendSection numbers text json = .ok text') {P : KeymapFile N → Prop}
    (hP : P (fileOf (values ++ [json]))) :
    (∃ file, KeymapFile.parse numbers text' = .ok file ∧ P file) ↔
      ¬ (values.length = 0 ∧ danglingComma text = true) := by
  by_cases hcomma : values.length = 0 ∧ danglingComma text = true
  · have hnil := List.eq_nil_of_length_eq_zero hcomma.1
    rw [hnil] at h
    have ⟨broken, hbroken, hresult⟩ := appendSection_comma h hcomma.2 hjson
    rw [hok] at hbroken
    obtain rfl := Except.ok.inj hbroken
    constructor
    · rintro ⟨file, hfile, _⟩
      exact absurd hfile (hresult.not_parse file)
    · exact fun hnot ↦ absurd hcomma hnot
  · have ⟨appended, happended, hroots⟩ := appendSection_spec h (by
      intro hnil
      cases hdangling : danglingComma text with
      | false => rfl
      | true => exact absurd ⟨by rw [hnil]; rfl, hdangling⟩ hcomma) hjson
    rw [hok] at happended
    obtain rfl := Except.ok.inj happended
    constructor
    · exact fun _ ↦ hcomma
    · exact fun _ ↦ ⟨_, parse_of_roots hroots, hP⟩

private theorem appended_one (values : List (Json N)) {binding : KeymapBindingTarget N}
    (hvalid : binding.Valid) (hnamed : binding.Named) :
    Appended (fileOf values) [binding] (fileOf (values ++ [binding.json])) := by
  exists values.length
  rw [sections_fileOf, sections_fileOf, sectionsFrom_append, sectionsFrom,
    KeymapBindingTarget.readSection_json hvalid hnamed, Nat.zero_add]
  rfl

private theorem appended_two (values : List (Json N)) {first second : KeymapBindingTarget N}
    (hfirst : first.Valid) (hfirst' : first.Named) (hsecond : second.Valid)
    (hsecond' : second.Named) :
    Appended (fileOf values) [first, second]
      (fileOf (values ++ [first.json] ++ [second.json])) := by
  exists values.length
  rw [sections_fileOf, sections_fileOf, List.append_assoc, sectionsFrom_append,
    List.singleton_append, sectionsFrom, sectionsFrom,
    KeymapBindingTarget.readSection_json hfirst hfirst',
    KeymapBindingTarget.readSection_json hsecond hsecond', Nat.zero_add]
  rfl

/-! ### Finding an entry -/

variable {self : KeymapSection N}

section Finding

variable [BEq N] {target : KeymapBindingTarget N}

private theorem describes_row (hcontext : self.context = target.context) (entry : KeymapEntry N) :
    target.describes (self.row target.kind entry) = target.matches entry := by
  simp [KeymapBindingTarget.describes, KeymapSection.row, hcontext]

private theorem any_rows (self : KeymapSection N) :
    self.rows.any target.describes =
      (decide (self.context = target.context) &&
        (self.entries target.kind).any target.matches) := by
  unfold KeymapSection.rows
  by_cases hcontext : self.context = target.context
  · cases hkind : target.kind <;>
      simp [KeymapBindingTarget.describes, KeymapSection.row, KeymapSection.entries, hcontext,
        hkind, Function.comp_def]
  · simp [KeymapBindingTarget.describes, KeymapSection.row, hcontext, Function.comp_def]

private theorem findIdx?_none (h : (if self.context = target.context then
      ((self.entries target.kind).findIdx? target.matches).map (self, ·) else none) = none) :
    self.rows.any target.describes = false := by
  rw [any_rows]
  split at h
  · rw [Option.map_eq_none_iff, List.findIdx?_eq_none_iff] at h
    have hany : (self.entries target.kind).any target.matches = false := by
      rw [List.any_eq_false]
      intro entry hentry
      simp [h entry hentry]
    rw [hany, Bool.and_false]
  · next hcontext => simp [hcontext]

/-- What `find_binding` finds: the first row that the target describes. -/
theorem findBinding_some {values : List (Json N)} {found : KeymapSection N} {entryIndex : Nat}
    (h : findBinding (fileOf values) target = some (found, entryIndex)) :
    ∃ front value back, values = front ++ value :: back ∧
      (KeymapFile.readSection front.length value).1 = some found ∧
      found.context = target.context ∧
      (found.entries target.kind).findIdx? target.matches = some entryIndex ∧
      ∀ row ∈ front.flatMap valueRows, ¬ target.describes row = true := by
  have ⟨before, read, after, hsections, hread, hbefore⟩ := List.findSome?_eq_some_iff.mp h
  rw [sections_fileOf] at hsections
  have ⟨front, value, back, hvalues, hfront, hvalue, _⟩ := exists_value hsections
  rw [Nat.zero_add] at hvalue
  split at hread
  · next hcontext =>
    have ⟨index, hindex, heq⟩ := Option.map_eq_some_iff.mp hread
    obtain ⟨rfl, rfl⟩ := Prod.mk.inj heq
    refine ⟨front, value, back, hvalues, hvalue, hcontext, hindex, ?_⟩
    intro row hrow
    rw [← rows_sectionsFrom 0, hfront] at hrow
    have ⟨other, hother, hmem⟩ := List.mem_flatMap.mp hrow
    exact List.any_eq_false.mp (findIdx?_none (hbefore other hother)) row hmem
  · cases hread

/-- It finds one if there is one. -/
theorem isSome_findBinding (file : KeymapFile N) :
    (findBinding file target).isSome = file.rows.any target.describes := by
  cases h : findBinding file target with
  | none =>
    symm
    rw [Option.isSome_none, List.any_eq_false]
    intro row hrow
    have ⟨read, hread, hmem⟩ := List.mem_flatMap.mp hrow
    exact List.any_eq_false.mp (findIdx?_none (List.findSome?_eq_none_iff.mp h read hread)) row hmem
  | some result =>
    symm
    have ⟨read, hread, hfound⟩ := List.exists_of_findSome?_eq_some h
    split at hfound
    · next hcontext =>
      have ⟨index, hindex, _⟩ := Option.map_eq_some_iff.mp hfound
      have ⟨hbound, hmatch, _⟩ := List.findIdx?_eq_some_iff_getElem.mp hindex
      have hany : read.rows.any target.describes = true := by
        rw [any_rows, decide_eq_true hcontext, Bool.true_and, List.any_eq_true]
        exact ⟨_, List.getElem_mem hbound, hmatch⟩
      have ⟨row, hrow, hdescribes⟩ := List.any_eq_true.mp hany
      exact List.any_eq_true.mpr ⟨row, List.mem_flatMap.mpr ⟨read, hread, hrow⟩, hdescribes⟩
    · cases hfound

/-- Without the entry the section has the other rows. -/
theorem rows_eraseIdx {found : KeymapSection N} {entryIndex : Nat}
    (hcontext : found.context = target.context)
    (hindex : (found.entries target.kind).findIdx? target.matches = some entryIndex) :
    (found.setEntries target.kind ((found.entries target.kind).eraseIdx entryIndex)).rows =
      found.rows.eraseP target.describes := by
  have hmatches : ∀ entries : List (KeymapEntry N), (entries.map (found.row target.kind)).eraseP
      target.describes = (entries.eraseP target.matches).map (found.row target.kind) := by
    intro entries
    rw [List.eraseP_map]
    congr 2
    funext entry
    exact describes_row hcontext entry
  have herase : (found.entries target.kind).eraseP target.matches =
      (found.entries target.kind).eraseIdx entryIndex := by
    rw [List.eraseP_eq_eraseIdx, hindex]
  have hany : (found.entries target.kind).any target.matches = true := by
    have ⟨hbound, hmatch, _⟩ := List.findIdx?_eq_some_iff_getElem.mp hindex
    exact List.any_eq_true.mpr ⟨_, List.getElem_mem hbound, hmatch⟩
  rw [← herase]
  cases hkind : target.kind with
  | unbind =>
    rw [hkind] at hany hmatches
    have hfound : (found.unbind.map (found.row .unbind)).any target.describes = true := by
      rw [List.any_map, ← hany]
      congr 1
      funext entry
      rw [Function.comp_apply, ← hkind, describes_row hcontext]
    unfold KeymapSection.rows
    rw [List.eraseP_append, if_pos hfound, hmatches]
    rfl
  | binding =>
    rw [hkind] at hmatches
    have hskip : (found.unbind.map (found.row .unbind)).any target.describes = false := by
      simp [KeymapBindingTarget.describes, KeymapSection.row, hkind, Function.comp_def]
    unfold KeymapSection.rows
    rw [List.eraseP_append, if_neg (by rw [hskip]; exact Bool.false_ne_true), hmatches]
    rfl

end Finding

/-! ### One section -/

/-- A keymap with a section that was read from one of its root values. -/
structure SectionAt (numbers : Numbers N) (text : List Char) (front : List (Json N))
    (value : Json N) (back : List (Json N)) (found : KeymapSection N) : Prop where
  roots : Roots numbers text (front ++ value :: back)
  read : (KeymapFile.readSection front.length value).1 = some found

namespace SectionAt

variable {text text' : List Char} {front back : List (Json N)} {value : Json N}
  {found : KeymapSection N}

private theorem section_read (h : SectionAt numbers text front value back found) : found.Read :=
  (KeymapSection.read_of_readSection h.read (h.roots.wellFormed value (by simp))).1

private theorem rows (h : SectionAt numbers text front value back found) :
    (front ++ value :: back).flatMap valueRows =
      front.flatMap valueRows ++ (found.rows ++ back.flatMap valueRows) := by
  rw [List.flatMap_append, List.flatMap_cons, valueRows_eq h.read]

private theorem defaults (h : SectionAt numbers text front value back found)
    (context : KeymapContext) :
    valueDefaults context value =
      if found.context = context then found.useBuiltinDefaults else none :=
  valueDefaults_eq h.read context

/-- `replace_section` puts another value in its place. -/
theorem replace (h : SectionAt numbers text front value back found) {json : Json N}
    (hjson : json.WellFormed)
    (hok : replaceSection numbers text found.sourceIndex json = .ok text') :
    Roots numbers text' (front ++ json :: back) := by
  have hindex : front.length < (front ++ value :: back).length := by simp
  have ⟨replaced, hreplaced, hroots⟩ := replaceSection_spec h.roots hindex hjson
  rw [readSection_sourceIndex h.read, hreplaced] at hok
  rw [← Except.ok.inj hok]
  rw [List.set_append_right _ _ (Nat.le_refl _), Nat.sub_self, List.set_cons_zero] at hroots
  exact hroots

/-- `remove_section` removes the value. -/
theorem remove (h : SectionAt numbers text front value back found)
    (hok : removeSection text found.sourceIndex = .ok text') :
    Roots numbers text' (front ++ back) ∧
      ((front ++ value :: back).length = 1 → danglingComma text' = danglingComma text) := by
  have hindex : front.length < (front ++ value :: back).length := by simp
  have ⟨removed, hremoved, hroots, hdangling⟩ := removeSection_spec h.roots hindex
  rw [readSection_sourceIndex h.read, hremoved] at hok
  rw [← Except.ok.inj hok]
  rw [List.eraseIdx_append_of_length_le (Nat.le_refl _), Nat.sub_self,
    List.eraseIdx_cons_zero] at hroots
  exact ⟨hroots, hdangling⟩

end SectionAt

private theorem length_rows (self : KeymapSection N) : self.rows.length = self.bindingCount := by
  simp [KeymapSection.rows, KeymapSection.bindingCount]

private theorem bare_iff :
    self.bare = true ↔ self.useKeyEquivalents = false ∧ self.useBuiltinDefaults = none := by
  simp [KeymapSection.bare]

/-- The entries of a section are what changes. -/
theorem options_setEntries (self : KeymapSection N) (kind : KeymapBindingKind)
    (entries : List (KeymapEntry N)) :
    (self.setEntries kind entries).context = self.context ∧
      (self.setEntries kind entries).useKeyEquivalents = self.useKeyEquivalents ∧
        (self.setEntries kind entries).useBuiltinDefaults = self.useBuiltinDefaults := by
  cases kind <;> exact ⟨rfl, rfl, rfl⟩

/-- `remove_user_binding` removes the entry, and the section if nothing else is in it. -/
theorem removeUserBinding_spec [BEq N] {target : KeymapBindingTarget N} {text text' : List Char}
    {front back : List (Json N)} {value : Json N} {found : KeymapSection N} {entryIndex : Nat}
    (h : SectionAt numbers text front value back found)
    (hcontext : found.context = target.context)
    (hindex : (found.entries target.kind).findIdx? target.matches = some entryIndex)
    (hfirst : ∀ row ∈ front.flatMap valueRows, ¬ target.describes row = true)
    (hok : removeUserBinding numbers text found entryIndex target.kind = .ok text') :
    ∃ values, Roots numbers text' values ∧
      values.flatMap valueRows =
        ((front ++ value :: back).flatMap valueRows).eraseP target.describes ∧
      (∀ context, defaultsOf context values = defaultsOf context (front ++ value :: back)) ∧
      (values.length = 0 ∧ danglingComma text' = true ↔
        found.bindingCount = 1 ∧ found.bare = true ∧ (front ++ value :: back).length = 1 ∧
          danglingComma text = true) := by
  have hany : found.rows.any target.describes = true := by
    have ⟨hbound, hmatch, _⟩ := List.findIdx?_eq_some_iff_getElem.mp hindex
    rw [any_rows, decide_eq_true hcontext, Bool.true_and, List.any_eq_true]
    exact ⟨_, List.getElem_mem hbound, hmatch⟩
  have herase : ((front ++ value :: back).flatMap valueRows).eraseP target.describes =
      front.flatMap valueRows ++
        (found.rows.eraseP target.describes ++ back.flatMap valueRows) := by
    rw [h.rows, List.eraseP_append_right _ hfirst, List.eraseP_append, if_pos hany]
  rw [herase]
  unfold removeUserBinding at hok
  split at hok
  · next hlast =>
    have ⟨hroots, hdangling⟩ := h.remove hok
    have hnone : found.rows.eraseP target.describes = [] := by
      have ⟨row, hrow, hdescribes⟩ := List.any_eq_true.mp hany
      apply List.eq_nil_of_length_eq_zero
      rw [List.length_eraseP_of_mem hrow hdescribes, length_rows, hlast.1]
    refine ⟨front ++ back, hroots, ?_, ?_, ?_⟩
    · rw [hnone, List.nil_append, List.flatMap_append]
    · intro context
      rw [defaultsOf_append, defaultsOf_append, defaultsOf_cons, h.defaults,
        (bare_iff.mp hlast.2).2]
      simp
    · have hlength : (front ++ back).length + 1 = (front ++ value :: back).length := by
        simp only [List.length_append, List.length_cons]
        omega
      constructor
      · rintro ⟨hempty, hcomma⟩
        have hone : (front ++ value :: back).length = 1 := by omega
        exact ⟨hlast.1, hlast.2, hone, by rw [← hdangling hone, hcomma]⟩
      · rintro ⟨_, _, hone, hcomma⟩
        exact ⟨by omega, by rw [hdangling hone, hcomma]⟩
  · next hlast =>
    have hread := h.section_read.setEntries target.kind
      (List.eraseIdx_sublist (found.entries target.kind) entryIndex)
    have hroots := h.replace (KeymapSection.wellFormed_toJson hread.actions) hok
    have hvalue := KeymapSection.readSection_toJson hread.context 0
    rw [hread.reread_eq] at hvalue
    have ⟨hsame, _, hdefaults⟩ := options_setEntries found target.kind
      ((found.entries target.kind).eraseIdx entryIndex)
    refine ⟨_, hroots, ?_, ?_, ?_⟩
    · rw [← rows_eraseIdx hcontext hindex, List.flatMap_append, List.flatMap_cons,
        valueRows_eq hvalue]
      rfl
    · intro context
      rw [defaultsOf_append, defaultsOf_append, defaultsOf_cons, defaultsOf_cons, h.defaults,
        valueDefaults_eq hvalue]
      simp only [hsame, hdefaults]
    · constructor
      · rintro ⟨hempty, _⟩
        simp at hempty
      · rintro ⟨hone, hbare, _⟩
        exact absurd ⟨hone, hbare⟩ hlast

/-! ### A replacement in its section -/

private theorem filter_rows {other : KeymapSection N} (hcontext : self.context = other.context)
    (hequivalents : self.useKeyEquivalents = other.useKeyEquivalents) (test : String → Bool)
    (h : ∀ kind, (self.entries kind).filter (fun entry ↦ test entry.keystrokes) =
      (other.entries kind).filter (fun entry ↦ test entry.keystrokes)) :
    self.rows.filter (fun row ↦ test row.entry.keystrokes) =
      other.rows.filter (fun row ↦ test row.entry.keystrokes) := by
  have hrow : ∀ kind, self.row kind = other.row kind := by
    intro kind
    unfold KeymapSection.row
    rw [hcontext, hequivalents]
  have hrows : ∀ read : KeymapSection N, read.rows.filter (fun row ↦ test row.entry.keystrokes) =
      ((read.entries .unbind).filter fun entry ↦ test entry.keystrokes).map (read.row .unbind) ++
        ((read.entries .binding).filter fun entry ↦ test entry.keystrokes).map
          (read.row .binding) := by
    intro read
    rw [KeymapSection.rows, List.filter_append, List.filter_map, List.filter_map]
    rfl
  rw [hrows, hrows, h, h, hrow, hrow]

section Replacing

variable {target replacement : KeymapBindingTarget N} {text text' : List Char}
  {front back : List (Json N)} {value : Json N} {found : KeymapSection N} {entryIndex : Nat}

/-- The section with the replacement in the place of the entry. -/
def replaced (found : KeymapSection N) (entryIndex : Nat)
    (target replacement : KeymapBindingTarget N) : KeymapSection N :=
  found.setEntries target.kind ((found.entries target.kind).set entryIndex
    ⟨replacement.keystrokes, replacement.action⟩)

private theorem wellFormed_replaced (h : found.Read) (hvalid : replacement.Valid) :
    (replaced found entryIndex target replacement).toJson.WellFormed := by
  apply KeymapSection.wellFormed_toJson
  intro kind entry hentry
  rw [replaced, KeymapSection.entries_setEntries] at hentry
  split at hentry
  · cases List.mem_or_eq_of_mem_set hentry with
    | inl hold => exact h.actions target.kind entry hold
    | inr hnew =>
      rw [hnew]
      exact hvalid.2
  · exact h.actions kind entry hentry

private theorem readSection_replaced (h : found.Read) :
    (KeymapFile.readSection 0 (replaced found entryIndex target replacement).toJson).1 =
      some ((replaced found entryIndex target replacement).reread 0) := by
  apply KeymapSection.readSection_toJson
  have ⟨hcontext, _⟩ := options_setEntries found target.kind
    ((found.entries target.kind).set entryIndex ⟨replacement.keystrokes, replacement.action⟩)
  rw [replaced, hcontext]
  exact h.context

variable [BEq N]

private theorem any_replaced [ReflBEq N] (h : found.Read) (hvalid : replacement.Valid)
    (hcontext : found.context = target.context)
    (hsame : target.context = replacement.context ∧ target.kind = replacement.kind)
    (hindex : entryIndex < (found.entries target.kind).length) :
    ((replaced found entryIndex target replacement).reread 0).rows.any replacement.describes =
      true ↔ StaysLast found entryIndex replacement := by
  have hcontext' : ((replaced found entryIndex target replacement).reread 0).context =
      replacement.context := by
    rw [← hsame.1, ← hcontext]
    exact (options_setEntries found target.kind _).1
  have hwell : (⟨replacement.keystrokes, replacement.action⟩ :
      KeymapEntry N).action.toJson.WellFormed := hvalid.2
  have hset := exists_mem_reread_set (h.entries target.kind) hindex hwell
  rw [any_rows, decide_eq_true hcontext', Bool.true_and, KeymapSection.entries_reread, replaced,
    KeymapSection.entries_setEntries, if_pos hsame.2.symm, List.any_eq_true, ← hsame.2]
  have hmatches : ∀ entry : KeymapEntry N, replacement.matches entry = true ↔
      entry.keystrokes = replacement.keystrokes ∧
        entry.action.beq replacement.action = true := by
    intro entry
    simp [KeymapBindingTarget.matches]
  simp only [hmatches]
  rw [hset, StaysLast, KeymapBindingTarget.Named, ← hsame.2, decide_eq_true_iff]

private theorem filter_replaced (h : found.Read)
    (hindex : (found.entries target.kind).findIdx? target.matches = some entryIndex) :
    ((replaced found entryIndex target replacement).reread 0).rows.filter
        (otherKeystrokes target replacement) =
      found.rows.filter (otherKeystrokes target replacement) := by
  have ⟨hcontext, hequivalents, _⟩ := options_setEntries found target.kind
    ((found.entries target.kind).set entryIndex ⟨replacement.keystrokes, replacement.action⟩)
  have hcontext : ((replaced found entryIndex target replacement).reread 0).context =
      found.context := hcontext
  have hequivalents : ((replaced found entryIndex target replacement).reread 0).useKeyEquivalents =
      found.useKeyEquivalents := hequivalents
  have ⟨hbound, hmatch, _⟩ := List.findIdx?_eq_some_iff_getElem.mp hindex
  have hkey : ((found.entries target.kind).get ⟨entryIndex, hbound⟩).keystrokes =
      target.keystrokes := by
    simp only [KeymapBindingTarget.matches, Bool.and_eq_true, beq_iff_eq] at hmatch
    exact hmatch.1
  apply filter_rows hcontext hequivalents
    (fun keystrokes ↦ keystrokes != target.keystrokes && keystrokes != replacement.keystrokes)
  intro kind
  rw [KeymapSection.entries_reread, replaced, KeymapSection.entries_setEntries]
  split
  · next hkind =>
    rw [hkind]
    apply filter_reread_set (h.entries target.kind) hbound
      (fun keystrokes ↦ keystrokes != target.keystrokes && keystrokes != replacement.keystrokes)
    · rw [hkey]
      simp
    · simp
  · rw [reread_eq (h.entries kind)]

private theorem heldElsewhere_iff (h : SectionAt numbers text front value back found) :
    HeldElsewhere (fileOf (front ++ value :: back)) found replacement ↔
      (front.flatMap valueRows).any replacement.describes = true ∨
        (back.flatMap valueRows).any replacement.describes = true := by
  have hsections : (fileOf (front ++ value :: back)).sections =
      sectionsFrom 0 front ++ found :: sectionsFrom (front.length + 1) back := by
    rw [sections_fileOf, sectionsFrom_append, sectionsFrom, Nat.zero_add, h.read]
    rfl
  have hindex := readSection_sourceIndex h.read
  have hany : ∀ index (values : List (Json N)),
      (values.flatMap valueRows).any replacement.describes = true ↔
        ∃ read ∈ sectionsFrom index values, read.rows.any replacement.describes = true := by
    intro index values
    rw [← rows_sectionsFrom index, List.any_flatMap, List.any_eq_true]
  rw [hany 0, hany (front.length + 1)]
  unfold HeldElsewhere
  rw [hsections]
  constructor
  · rintro ⟨read, hmem, hother, hrow⟩
    cases List.mem_append.mp hmem with
    | inl hfront => exact Or.inl ⟨read, hfront, hrow⟩
    | inr hrest =>
      cases hrest with
      | head => exact absurd rfl hother
      | tail _ hback => exact Or.inr ⟨read, hback, hrow⟩
  · rintro (⟨read, hmem, hrow⟩ | ⟨read, hmem, hrow⟩)
    · refine ⟨read, List.mem_append_left _ hmem, ?_, hrow⟩
      have := sourceIndex_of_mem hmem
      omega
    · refine ⟨read, List.mem_append_right _ (List.mem_cons_of_mem _ hmem), ?_, hrow⟩
      have := sourceIndex_of_mem hmem
      omega

/-- The replacement of an entry in its section. -/
theorem replaceSection_iff [ReflBEq N] (h : SectionAt numbers text front value back found)
    (hvalid : replacement.Valid) (hcontext : found.context = target.context)
    (hsame : target.context = replacement.context ∧ target.kind = replacement.kind)
    (hindex : (found.entries target.kind).findIdx? target.matches = some entryIndex)
    (hok : replaceSection numbers text found.sourceIndex
      (replaced found entryIndex target replacement).toJson = .ok text') :
    (∃ file, KeymapFile.parse numbers text' = .ok file ∧
        file.rows.any replacement.describes = true ∧
        file.rows.filter (otherKeystrokes target replacement) =
          (fileOf (front ++ value :: back)).rows.filter (otherKeystrokes target replacement) ∧
        KeptDefaults (fileOf (front ++ value :: back)) file) ↔
      StaysLast found entryIndex replacement ∨
        HeldElsewhere (fileOf (front ++ value :: back)) found replacement := by
  have hread := h.section_read
  have hroots := h.replace (wellFormed_replaced hread hvalid) hok
  have hvalue : (KeymapFile.readSection 0 (replaced found entryIndex target replacement).toJson).1 =
      some ((replaced found entryIndex target replacement).reread 0) := readSection_replaced hread
  have ⟨hbound, _⟩ := List.findIdx?_eq_some_iff_getElem.mp hindex
  have hany := any_replaced hread hvalid hcontext hsame hbound
  have hrows := rows_fileOf (front ++ (replaced found entryIndex target replacement).toJson :: back)
  rw [List.flatMap_append, List.flatMap_cons, valueRows_eq hvalue] at hrows
  have hpresent : (fileOf (front ++ (replaced found entryIndex target replacement).toJson ::
      back)).rows.any replacement.describes = true ↔ StaysLast found entryIndex replacement ∨
        HeldElsewhere (fileOf (front ++ value :: back)) found replacement := by
    rw [hrows, heldElsewhere_iff h, ← hany]
    simp only [List.any_append, Bool.or_eq_true]
    tauto
  rw [← hpresent]
  constructor
  · rintro ⟨file, hfile, hholds, _⟩
    rw [parse_of_roots hroots] at hfile
    rw [Except.ok.inj hfile]
    exact hholds
  · intro hholds
    refine ⟨_, parse_of_roots hroots, hholds, ?_, ?_⟩
    · rw [hrows, rows_fileOf, h.rows]
      simp only [List.filter_append, filter_replaced hread hindex]
    · intro context
      have ⟨hsection, _, hdefaults⟩ := options_setEntries found target.kind
        ((found.entries target.kind).set entryIndex
          ⟨replacement.keystrokes, replacement.action⟩)
      have hsection : ((replaced found entryIndex target replacement).reread 0).context =
          found.context := hsection
      have hdefaults : ((replaced found entryIndex target
          replacement).reread 0).useBuiltinDefaults = found.useBuiltinDefaults := hdefaults
      rw [useBuiltinDefaults_fileOf, useBuiltinDefaults_fileOf, defaultsOf_append,
        defaultsOf_append, defaultsOf_cons, defaultsOf_cons, h.defaults, valueDefaults_eq hvalue,
        hsection, hdefaults]

end Replacing

/-! ### Resetting a context -/

/-- The sections of the context lose their entries, from the last one to the first. -/
theorem resetSections_spec {context : KeymapContext} {front back : List (Json N)}
    {text text' : List Char} (h : Roots numbers text (front ++ back))
    (hok : resetSections numbers ((sectionsFrom 0 front).filter fun found ↦
      found.context = context ∧ 0 < found.bindingCount).reverse text = .ok text') :
    ∃ values, Roots numbers text' (values ++ back) ∧
      values.flatMap valueRows = (front.flatMap valueRows).filter (·.context ≠ context) ∧
        ∀ other, defaultsOf other values = defaultsOf other front := by
  induction front using List.reverseRecOn generalizing back text with
  | nil =>
    obtain rfl := Except.ok.inj hok
    exact ⟨[], h, rfl, fun _ ↦ rfl⟩
  | append_singleton front value ih =>
    rw [List.append_assoc, List.singleton_append] at h
    rw [sectionsFrom_append, Nat.zero_add, sectionsFrom, sectionsFrom, List.append_nil,
      List.filter_append, List.reverse_append] at hok
    simp only [List.flatMap_append, List.flatMap_singleton, List.filter_append,
      defaultsOf_append]
    -- the value that takes the place of the last one, if any
    have hstep : ∀ {middle : List (Json N)} {text : List Char},
        Roots numbers text (front ++ (middle ++ back)) →
        resetSections numbers ((sectionsFrom 0 front).filter fun found ↦
          found.context = context ∧ 0 < found.bindingCount).reverse text = .ok text' →
        middle.flatMap valueRows = (valueRows value).filter (·.context ≠ context) →
        (∀ other, defaultsOf other middle = defaultsOf other [value]) →
        ∃ values, Roots numbers text' (values ++ back) ∧
          values.flatMap valueRows = (front.flatMap valueRows).filter (·.context ≠ context) ++
            (valueRows value).filter (·.context ≠ context) ∧
          ∀ other, defaultsOf other values =
            (defaultsOf other [value]).or (defaultsOf other front) := by
      intro middle text hroots hrest hrows hdefaults
      obtain ⟨values, hvalues, hvalueRows, hvalueDefaults⟩ := ih hroots hrest
      rw [← List.append_assoc] at hvalues
      refine ⟨values ++ middle, hvalues, ?_, ?_⟩
      · rw [List.flatMap_append, hvalueRows, hrows]
      · intro other
        rw [defaultsOf_append, hdefaults, hvalueDefaults]
    cases hread : (KeymapFile.readSection front.length value).1 with
    | none =>
      rw [hread] at hok
      apply @hstep [value] text h hok
      · rw [List.flatMap_singleton, valueRows, valueSection_none hread]
        rfl
      · exact fun _ ↦ rfl
    | some found =>
      rw [hread, Option.toList_some] at hok
      have hat : SectionAt numbers text front value back found := ⟨h, hread⟩
      have hvalueRows := valueRows_eq hread
      have hcontext : ∀ row ∈ found.rows, row.context = found.context := by
        intro row hrow
        obtain ⟨kind, entry, _, heq⟩ := KeymapSection.mem_rows.mp hrow
        rw [heq]
        rfl
      by_cases hreset : found.context = context ∧ 0 < found.bindingCount
      · have hnone : (valueRows value).filter (·.context ≠ context) = [] := by
          rw [hvalueRows, List.filter_eq_nil_iff]
          intro row hrow
          simp [hcontext row hrow, hreset.1]
        rw [List.filter_cons_of_pos (by simpa using hreset), List.filter_nil,
          List.reverse_singleton, List.singleton_append, resetSections] at hok
        obtain ⟨updated, hupdated, hrest⟩ := bind_eq_ok.mp hok
        split at hupdated
        · next hbare =>
          have hroots := (hat.remove hupdated).1
          apply @hstep [] updated hroots hrest
          · rw [hnone]
            rfl
          · intro other
            rw [defaultsOf_cons, hat.defaults, (bare_iff.mp hbare).2]
            simp [defaultsOf]
        · have hempty : ({ found with unbind := [], bindings := [] } : KeymapSection N).Read :=
            (hat.section_read.setEntries .unbind (List.nil_sublist _)).setEntries .binding
              (List.nil_sublist _)
          have hroots := hat.replace (KeymapSection.wellFormed_toJson hempty.actions) hupdated
          have hvalue := KeymapSection.readSection_toJson hempty.context 0
          rw [hempty.reread_eq] at hvalue
          apply @hstep [_] updated hroots hrest
          · rw [hnone, List.flatMap_singleton, valueRows_eq hvalue]
            rfl
          · intro other
            rw [defaultsOf_cons, defaultsOf_cons, hat.defaults, valueDefaults_eq hvalue]
      · rw [List.filter_cons_of_neg (by simpa using hreset), List.filter_nil,
          List.reverse_nil, List.nil_append] at hok
        apply @hstep [value] text h hok
        · rw [List.flatMap_singleton, hvalueRows]
          symm
          rw [List.filter_eq_self]
          intro row hrow
          have hother : found.context ≠ context := by
            intro hsame
            have hcount : 0 < found.bindingCount := by
              rw [← length_rows]
              exact List.length_pos_of_mem hrow
            exact hreset ⟨hsame, hcount⟩
          simp [hcontext row hrow, hother]
        · exact fun _ ↦ rfl

/-! ### Setting the defaults -/

private theorem setBuiltinDefaults_found {context : KeymapContext} {enabled : Bool}
    {text text' : List Char} {front back : List (Json N)} {value : Json N}
    {found : KeymapSection N} (h : SectionAt numbers text front value back found)
    (hcontext : found.context = context)
    (hlast : ∀ later ∈ sectionsFrom (front.length + 1) back, later.context ≠ context)
    (hok : replaceSection numbers text found.sourceIndex
      { found with useBuiltinDefaults := some enabled : KeymapSection N }.toJson = .ok text') :
    ∃ file, KeymapFile.parse numbers text' = .ok file ∧
      EditedAsDefaults (fileOf (front ++ value :: back)) context enabled file := by
  have hread := h.section_read
  have hread' : ({ found with useBuiltinDefaults := some enabled } : KeymapSection N).Read :=
    ⟨hread.context, hread.unbind, hread.bindings, fun
      | .unbind => hread.actions .unbind
      | .binding => hread.actions .binding⟩
  have hroots := h.replace (KeymapSection.wellFormed_toJson hread'.actions) hok
  have hvalue := KeymapSection.readSection_toJson hread'.context 0
  rw [hread'.reread_eq] at hvalue
  have hback : defaultsOf context back = none := by
    have hnone : (sectionsFrom (front.length + 1) back).reverse.filter (·.context = context) =
        [] := by
      rw [List.filter_eq_nil_iff]
      intro later hlater
      simpa using hlast later (List.mem_reverse.mp hlater)
    rw [← defaults_sectionsFrom context (front.length + 1), hnone]
    rfl
  refine ⟨_, parse_of_roots hroots, ?_, ?_⟩
  · rw [rows_fileOf, rows_fileOf, h.rows, List.flatMap_append, List.flatMap_cons,
      valueRows_eq hvalue]
    rfl
  · intro other
    rw [useBuiltinDefaults_fileOf, useBuiltinDefaults_fileOf, defaultsOf_append,
      defaultsOf_append, defaultsOf_cons, defaultsOf_cons, h.defaults, valueDefaults_eq hvalue]
    by_cases hother : other = context
    · simp [hother, hback, hcontext]
    · have hfound : ¬ found.context = other := fun heq ↦ hother (heq.symm.trans hcontext)
      simp [hother, hfound]

/-- `set_builtin_defaults` says so in the last section of the context, or in one of its own. -/
theorem setBuiltinDefaults_iff {context : KeymapContext} {enabled : Bool}
    {text text' : List Char} {values : List (Json N)} (h : Roots numbers text values)
    (hcontext : ∃ value, context = .fromStr value)
    (hok : setBuiltinDefaults numbers text (fileOf values) context enabled = .ok text') :
    (∃ file, KeymapFile.parse numbers text' = .ok file ∧
        EditedAsDefaults (fileOf values) context enabled file) ↔
      ¬ (values.length = 0 ∧ danglingComma text = true) := by
  unfold setBuiltinDefaults at hok
  split at hok
  · next found hfound =>
    have ⟨hsame, after, before, hsections, hafter⟩ := List.find?_eq_some_iff_append.mp hfound
    rw [sections_fileOf] at hsections
    have hsections : sectionsFrom 0 values = before.reverse ++ found :: after.reverse := by
      have hreverse := congrArg List.reverse hsections
      simpa using hreverse
    have ⟨front, value, back, hvalues, _, hvalue, hback⟩ := exists_value hsections
    rw [Nat.zero_add] at hvalue hback
    rw [hvalues] at h ⊢
    have hlast : ∀ later ∈ sectionsFrom (front.length + 1) back, later.context ≠ context := by
      intro later hlater
      rw [hback, List.mem_reverse] at hlater
      simpa using hafter later hlater
    have hresult := setBuiltinDefaults_found ⟨h, hvalue⟩ (by simpa using hsame) hlast hok
    constructor
    · rintro _ ⟨hempty, _⟩
      simp at hempty
    · exact fun _ ↦ hresult
  · next hnone =>
    have hread : (⟨context, false, some enabled, [], [], noSource⟩ : KeymapSection N).Read :=
      have hempty : ∀ unbind, EntriesRead unbind ([] : List (KeymapEntry N)) :=
        fun _ ↦ ⟨List.nodup_nil, fun _ _ hmem ↦ nomatch hmem⟩
      have ⟨value, hvalue⟩ := hcontext
      ⟨by rw [hvalue, KeymapContext.fromStr_asStr], hempty true, hempty false, fun
        | .unbind => fun _ hmem ↦ nomatch hmem
        | .binding => fun _ hmem ↦ nomatch hmem⟩
    apply appendSection_iff h (KeymapSection.wellFormed_toJson hread.actions) hok
    have hvalue := KeymapSection.readSection_toJson hread.context 0
    rw [hread.reread_eq] at hvalue
    constructor
    · rw [rows_fileOf, rows_fileOf, List.flatMap_append, List.flatMap_singleton,
        valueRows_eq hvalue]
      exact List.append_nil _
    · intro other
      rw [useBuiltinDefaults_fileOf, useBuiltinDefaults_fileOf, defaultsOf_append,
        defaultsOf_cons, valueDefaults_eq hvalue]
      by_cases hother : other = context
      · simp [hother, defaultsOf]
      · have hne : ¬ context = other := fun heq ↦ hother heq.symm
        simp [hother, hne, defaultsOf]

/-! ### All edits -/

private theorem asUnbind_eq_ok {target unbound : KeymapBindingTarget N} :
    asUnbind target = .ok unbound ↔
      target.action ≠ .none ∧ unbound = { target with kind := .unbind } := by
  unfold asUnbind
  split
  · next hnone => simp [hnone]
  · next hsome =>
    constructor
    · exact fun h ↦ ⟨fun hnone ↦ hsome hnone, (Except.ok.inj h).symm⟩
    · rintro ⟨_, rfl⟩
      rfl

section Edits

variable {text text' : List Char} {values : List (Json N)}

private theorem appendBinding_iff (h : Roots numbers (editedText text) values)
    {binding : KeymapBindingTarget N} (hvalid : binding.Valid)
    (hok : appendBinding numbers (editedText text) binding = .ok text') :
    (∃ file, KeymapFile.parse numbers text' = .ok file ∧
      Appended (fileOf values) [binding] file) ↔ ¬ CommaBehind numbers text 0 := by
  have ⟨hnamed, hok⟩ := appendBinding_eq_ok.mp hok
  rw [commaBehind_iff h]
  exact appendSection_iff h (KeymapBindingTarget.wellFormed_json hvalid hnamed) hok
    (appended_one values hvalid hnamed)

private theorem appendBinding_twice (h : Roots numbers (editedText text) values)
    {first second : KeymapBindingTarget N} (hfirst : first.Valid) (hsecond : second.Valid)
    {updated : List Char} (hok : appendBinding numbers (editedText text) first = .ok updated)
    (hok' : appendBinding numbers updated second = .ok text') :
    (∃ file, KeymapFile.parse numbers text' = .ok file ∧
      Appended (fileOf values) [first, second] file) ↔ ¬ CommaBehind numbers text 0 := by
  have ⟨hnamed, hok⟩ := appendBinding_eq_ok.mp hok
  have ⟨hnamed', hok'⟩ := appendBinding_eq_ok.mp hok'
  have hjson := KeymapBindingTarget.wellFormed_json hfirst hnamed
  have hjson' := KeymapBindingTarget.wellFormed_json hsecond hnamed'
  rw [commaBehind_iff h]
  by_cases hcomma : values.length = 0 ∧ danglingComma (editedText text) = true
  · have hnil := List.eq_nil_of_length_eq_zero hcomma.1
    rw [hnil] at h
    have ⟨broken, hbroken, hfirst⟩ := appendSection_comma h hcomma.2 hjson
    rw [hok] at hbroken
    obtain rfl := Except.ok.inj hbroken
    have ⟨broken', hbroken', hsecond⟩ := @appendSection_broken _ numbers _ hfirst _ hjson'
    rw [hok'] at hbroken'
    obtain rfl := Except.ok.inj hbroken'
    constructor
    · rintro ⟨file, hfile, _⟩
      exact absurd hfile (hsecond.not_parse file)
    · exact fun hnot ↦ absurd hcomma hnot
  · have ⟨appended, happended, hroots⟩ := appendSection_spec h (by
      intro hnil
      cases hdangling : danglingComma (editedText text) with
      | false => rfl
      | true => exact absurd ⟨by rw [hnil]; rfl, hdangling⟩ hcomma) hjson
    rw [hok] at happended
    obtain rfl := Except.ok.inj happended
    rw [appendSection_iff hroots hjson' hok' (appended_two values hfirst hnamed hsecond hnamed')]
    constructor
    · exact fun _ ↦ hcomma
    · rintro _ ⟨hempty, _⟩
      simp at hempty

variable [BEq N]

private theorem filter_eraseP {α : Type} {p q : α → Bool} (h : ∀ a, p a = true → q a = false)
    (as : List α) : (as.eraseP p).filter q = as.filter q := by
  cases List.exists_or_eq_self_of_eraseP p as with
  | inl hsame => rw [hsame]
  | inr hsplit =>
    have ⟨a, front, back, _, ha, has, herase⟩ := hsplit
    rw [herase, has, List.filter_append, List.filter_append,
      List.filter_cons_of_neg (by simp [h a ha])]

private theorem moveBinding_iff [ReflBEq N] {target replacement : KeymapBindingTarget N}
    {front back : List (Json N)} {value : Json N} {found : KeymapSection N} {entryIndex : Nat}
    (h : SectionAt numbers text front value back found)
    (hvalid : replacement.Valid) (hcontext : found.context = target.context)
    (hindex : (found.entries target.kind).findIdx? target.matches = some entryIndex)
    (hfirst : ∀ row ∈ front.flatMap valueRows, ¬ target.describes row = true)
    {updated : List Char}
    (hok : removeUserBinding numbers text found entryIndex target.kind = .ok updated)
    (hok' : appendBinding numbers updated replacement = .ok text') :
    (∃ file, KeymapFile.parse numbers text' = .ok file ∧
        file.rows.any replacement.describes = true ∧
        file.rows.filter (otherKeystrokes target replacement) =
          (fileOf (front ++ value :: back)).rows.filter (otherKeystrokes target replacement) ∧
        KeptDefaults (fileOf (front ++ value :: back)) file) ↔
      ¬ (found.bindingCount = 1 ∧ found.bare = true ∧ (front ++ value :: back).length = 1 ∧
        danglingComma text = true) := by
  have ⟨removed, hroots, hrows, hdefaults, hcomma⟩ :=
    removeUserBinding_spec h hcontext hindex hfirst hok
  have ⟨hnamed, hok'⟩ := appendBinding_eq_ok.mp hok'
  have hread := KeymapBindingTarget.readSection_json hvalid hnamed 0
  rw [← hcomma]
  apply appendSection_iff hroots (KeymapBindingTarget.wellFormed_json hvalid hnamed) hok'
  rw [rows_fileOf, rows_fileOf, List.flatMap_append, List.flatMap_singleton, valueRows_eq hread,
    KeymapBindingTarget.rows_toSection, hrows]
  refine ⟨?_, ?_, ?_⟩
  · have hself := KeymapAction.beq_self hvalid.2
    simp [KeymapBindingTarget.describes, KeymapBindingTarget.matches, hself]
  · rw [List.filter_append, filter_eraseP]
    · simp [otherKeystrokes]
    · intro row hrow
      have hkey : row.entry.keystrokes = target.keystrokes := by
        simp only [KeymapBindingTarget.describes, KeymapBindingTarget.matches, Bool.and_eq_true,
          beq_iff_eq] at hrow
        exact hrow.2.1
      simp [otherKeystrokes, hkey]
  · intro context
    have hnone : (replacement.toSection 0).useBuiltinDefaults = none :=
      (options_setEntries _ _ _).2.2
    rw [useBuiltinDefaults_fileOf, useBuiltinDefaults_fileOf, defaultsOf_append, defaultsOf_cons,
      valueDefaults_eq hread, hnone, hdefaults]
    simp [defaultsOf]

/-- The file is edited, and the text says so. -/
def Edits (numbers : Numbers N) (text' : List Char) (file : KeymapFile N) (edit : KeymapEdit N) :
    Prop :=
  ∃ file', KeymapFile.parse numbers text' = .ok file' ∧ EditedAs file edit file'

private theorem replaceBuiltIn_iff (h : Roots numbers (editedText text) values)
    {target replacement : KeymapBindingTarget N} (htarget : target.Valid)
    (hreplacement : replacement.Valid)
    (hok : applyEdit numbers (editedText text) (fileOf values)
      (.replace target replacement .builtIn) = .ok text') :
    Edits numbers text' (fileOf values) (.replace target replacement .builtIn) ↔
      ¬ CommaBehind numbers text 0 := by
  unfold Edits EditedAs
  have ⟨updated, hupdated, hok⟩ := bind_eq_ok.mp hok
  split at hupdated
  · next hmoved =>
    have ⟨unbound, hunbound, hok'⟩ := bind_eq_ok.mp hupdated
    have ⟨_, heq⟩ := asUnbind_eq_ok.mp hunbound
    rw [heq] at hok'
    have hvalid : ({ target with kind := .unbind } : KeymapBindingTarget N).Valid := htarget
    simp only [if_pos hmoved]
    exact appendBinding_twice h hvalid hreplacement hok' hok
  · next hstays =>
    obtain rfl := Except.ok.inj hupdated
    simp only [if_neg hstays]
    exact appendBinding_iff h hreplacement hok

private theorem replaceUser_iff [ReflBEq N] (h : Roots numbers (editedText text) values)
    {target replacement : KeymapBindingTarget N} (hreplacement : replacement.Valid)
    (hok : applyEdit numbers (editedText text) (fileOf values)
      (.replace target replacement .user) = .ok text') :
    Edits numbers text' (fileOf values) (.replace target replacement .user) ↔
      EditHolds numbers text (fileOf values) (.replace target replacement .user) := by
  have hany : (fileOf values).rows.any target.describes =
      (findBinding (fileOf values) target).isSome := (isSome_findBinding _).symm
  unfold Edits EditedAs EditHolds
  simp only [hany]
  unfold applyEdit at hok
  dsimp only at hok
  cases hfind : findBinding (fileOf values) target with
  | none =>
    rw [hfind] at hok
    exact appendBinding_iff h hreplacement hok
  | some result =>
    have ⟨found, entryIndex⟩ := result
    rw [hfind] at hok
    have ⟨front, value, back, hvalues, hread, hcontext, hindex, hfirst⟩ := findBinding_some hfind
    have hcomma := commaBehind_iff h 1
    rw [hvalues] at h hcomma ⊢
    have hat : SectionAt numbers (editedText text) front value back found := ⟨h, hread⟩
    dsimp only at hok ⊢
    simp only [Option.isSome_some, if_true]
    split at hok
    · next hsame =>
      rw [if_pos hsame]
      exact replaceSection_iff hat hreplacement hcontext hsame hindex hok
    · next hmoved =>
      have ⟨updated, hupdated, hok⟩ := bind_eq_ok.mp hok
      rw [if_neg hmoved, hcomma]
      exact moveBinding_iff hat hreplacement hcontext hindex hfirst hupdated hok

private theorem removeUser_edits (h : Roots numbers (editedText text) values)
    {target : KeymapBindingTarget N}
    (hok : applyEdit numbers (editedText text) (fileOf values) (.remove target .user) =
      .ok text') :
    Edits numbers text' (fileOf values) (.remove target .user) := by
  unfold applyEdit at hok
  dsimp only at hok
  cases hfind : findBinding (fileOf values) target with
  | none =>
    rw [hfind] at hok
    cases hok
  | some result =>
    have ⟨found, entryIndex⟩ := result
    rw [hfind] at hok
    have ⟨front, value, back, hvalues, hread, hcontext, hindex, hfirst⟩ := findBinding_some hfind
    rw [hvalues] at h ⊢
    have ⟨removed, hroots, hrows, hdefaults, _⟩ :=
      removeUserBinding_spec ⟨h, hread⟩ hcontext hindex hfirst hok
    refine ⟨_, parse_of_roots hroots, ?_, ?_⟩
    · rw [rows_fileOf, rows_fileOf, hrows]
    · intro context
      rw [useBuiltinDefaults_fileOf, useBuiltinDefaults_fileOf, hdefaults]

private theorem resetContext_edits (h : Roots numbers (editedText text) values)
    {context : KeymapContext}
    (hok : applyEdit numbers (editedText text) (fileOf values) (.resetContext context) =
      .ok text') :
    Edits numbers text' (fileOf values) (.resetContext context) := by
  unfold applyEdit resetContext at hok
  dsimp only at hok
  rw [sections_fileOf] at hok
  rw [← List.append_nil values] at h
  have ⟨reset, hroots, hrows, hdefaults⟩ := resetSections_spec h hok
  rw [List.append_nil] at hroots
  refine ⟨_, parse_of_roots hroots, ?_, ?_⟩
  · rw [rows_fileOf, rows_fileOf, hrows]
  · intro other
    rw [useBuiltinDefaults_fileOf, useBuiltinDefaults_fileOf, hdefaults]

/-- An edit of the text is the edit of the file exactly when the root array is not left with a
comma and no element before a section is appended, and no later entry takes the place of a
replacement. -/
theorem updateKeymapJsonc_edits_iff [ReflBEq N] {file : KeymapFile N} {edit : KeymapEdit N}
    (hparse : KeymapFile.parse numbers text = .ok file) (hvalid : edit.Valid)
    (hok : updateKeymapJsonc numbers text edit = .ok text') :
    (∃ file', KeymapFile.parse numbers text' = .ok file' ∧ EditedAs file edit file') ↔
      EditHolds numbers text file edit := by
  have ⟨values, hroots, hfile⟩ := exists_roots hparse
  rw [hfile]
  rw [updateKeymapJsonc, parse_of_roots hroots] at hok
  cases edit with
  | add binding => exact appendBinding_iff hroots hvalid hok
  | replace target replacement source =>
    cases source with
    | builtIn => exact replaceBuiltIn_iff hroots hvalid.1 hvalid.2 hok
    | user => exact replaceUser_iff hroots hvalid.2 hok
  | remove target source =>
    cases source with
    | builtIn =>
      have ⟨unbound, hunbound, hok⟩ := bind_eq_ok.mp hok
      have ⟨_, heq⟩ := asUnbind_eq_ok.mp hunbound
      rw [heq] at hok
      exact appendBinding_iff hroots hvalid hok
    | user => exact iff_of_true (removeUser_edits hroots hok) trivial
  | resetContext context => exact iff_of_true (resetContext_edits hroots hok) trivial
  | setBuiltInDefaults context enabled =>
    have hiff := setBuiltinDefaults_iff hroots hvalid hok
    rw [← commaBehind_iff hroots] at hiff
    exact hiff

end Edits

/-- A binding. -/
def copyBinding : KeymapBindingTarget Nat :=
  ⟨.global, "cmd-c", .command "copy" none, .binding⟩

/-- Its section up to the end of the root array. -/
def copySection : List Char :=
  "\n\x7b\n    \"bindings\": \x7b\n      \"cmd-c\": \"copy\"\n    \x7d\n  \x7d\n]".toList

private theorem valid_copyBinding : (KeymapEdit.add copyBinding).Valid :=
  ⟨⟨"Global", by decide⟩, trivial⟩

/-- A binding that takes its place. -/
private def cutBinding : KeymapBindingTarget Nat :=
  ⟨.global, "cmd-x", .command "cut" none, .binding⟩

/-- A keymap of two sections with comments and trailing commas. -/
private def commentedKeymap : List Char :=
  ("[\n  // Editing\n  \x7b \"bindings\": \x7b \"cmd-c\": \"copy\" \x7d \x7d,\n" ++
    "  \x7b \"context\": \"Sidebar\", \"bindings\": \x7b \"n\": \"next\", \x7d \x7d, /* */\n]").toList

/-- A binding of the keymap is replaced. -/
theorem updateKeymapJsonc_edits_commented :
    ∃ file text' file', KeymapFile.parse Json.naturals commentedKeymap = .ok file ∧
      file.sections.length = 2 ∧ KeymapFile.parse Json.naturals text' = .ok file' ∧
      EditedAs file (.replace copyBinding cutBinding .user) file' := by
  have hfile : (KeymapFile.parse Json.naturals commentedKeymap).toOption.map (fun file ↦
      (file.sections.length, (findBinding file copyBinding).map fun found ↦
        ((found.1.entries copyBinding.kind).drop (found.2 + 1)).isEmpty)) =
        some (2, some true) := by
    decide +kernel
  have hvalid : (KeymapEdit.replace copyBinding cutBinding .user).Valid :=
    ⟨⟨⟨"Global", by decide⟩, trivial⟩, ⟨"Global", by decide⟩, trivial⟩
  have hok : (updateKeymapJsonc Json.naturals commentedKeymap
      (.replace copyBinding cutBinding .user)).isOk = true := by
    decide +kernel
  cases hparse : KeymapFile.parse Json.naturals commentedKeymap with
  | error =>
    rw [hparse] at hfile
    cases hfile
  | ok file =>
    rw [hparse] at hfile
    obtain ⟨hlength, hfound⟩ := Prod.mk.inj (Option.some.inj hfile)
    cases hedit : updateKeymapJsonc Json.naturals commentedKeymap
        (.replace copyBinding cutBinding .user) with
    | error =>
      rw [hedit] at hok
      cases hok
    | ok text' =>
      have hholds : EditHolds Json.naturals commentedKeymap file
          (.replace copyBinding cutBinding .user) := by
        obtain ⟨⟨found, entryIndex⟩, hfind, hlast⟩ := Option.map_eq_some_iff.mp hfound
        rw [EditHolds, hfind]
        refine .inl ⟨nofun, ?_⟩
        rw [show (found.entries cutBinding.kind).drop (entryIndex + 1) = [] from
          List.isEmpty_iff.mp hlast]
        exact nofun
      have ⟨file', hfile', hedited⟩ := (updateKeymapJsonc_edits_iff hparse hvalid hedit).mpr hholds
      exact ⟨file, text', file', rfl, hlength, hfile', hedited⟩

/-- A binding that is added to a keymap of a comma makes it unreadable. -/
theorem updateKeymapJsonc_not_edits :
    ¬ ∀ (text text' : List Char) (file : KeymapFile Nat) (edit : KeymapEdit Nat),
      KeymapFile.parse Json.naturals text = .ok file → edit.Valid →
        updateKeymapJsonc Json.naturals text edit = .ok text' →
          ∃ file', KeymapFile.parse Json.naturals text' = .ok file' ∧
            EditedAs file edit file' := by
  intro h
  have hparse : KeymapFile.parse Json.naturals ['[', ',', ']'] = .ok ⟨[], []⟩ := rfl
  have hok : updateKeymapJsonc Json.naturals ['[', ',', ']'] (.add copyBinding) =
      .ok ('[' :: ',' :: copySection) := by
    decide +kernel
  have ⟨file', hfile', _⟩ := h _ _ _ _ hparse valid_copyBinding hok
  have herror : (KeymapFile.parse Json.naturals ('[' :: ',' :: copySection)).isOk = false := by
    decide +kernel
  rw [hfile'] at herror
  cases herror

end Bootty.Config
