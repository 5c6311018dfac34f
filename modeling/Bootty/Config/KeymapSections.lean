import Bootty.Config.KeymapFile
import Mathlib.Data.List.DropRight
import Mathlib.Data.List.Nodup

/-!
# Keymap sections and their JSON

A section that was read from a keymap has different keystrokes in each of its two objects and a
named action in every entry of `unbind`. Written and read again it is the same section. A section
with a keystroke twice comes back with the place of the first entry and the action of the last.
-/

namespace Bootty.Config

open Bootty.Base

variable {N : Type}

/-! ### Contexts -/

private theorem dropWhile_rdropWhile (p : Char → Bool) (text : List Char) :
    ((text.dropWhile p).rdropWhile p).dropWhile p = (text.dropWhile p).rdropWhile p := by
  have ⟨rest, hprefix⟩ := List.rdropWhile_prefix p (l := text.dropWhile p)
  cases hfront : (text.dropWhile p).rdropWhile p with
  | nil => rfl
  | cons c front =>
    rw [hfront] at hprefix
    have hc : p c = false := by
      have hstable := List.dropWhile_idempotent p (l := text)
      rw [← hprefix, List.cons_append, List.dropWhile_cons] at hstable
      split at hstable
      · have hlength := congrArg List.length hstable
        have := List.length_dropWhile_le p (front ++ rest)
        rw [List.length_cons] at hlength
        omega
      · next hc => simpa using hc
    rw [List.dropWhile_cons, hc]
    rfl

private theorem trim_trim (text : String) : trim (trim text) = trim text := by
  have hstable : ∀ chars : List Char,
      (((chars.dropWhile isWhitespace).rdropWhile isWhitespace).dropWhile
        isWhitespace).rdropWhile isWhitespace =
          (chars.dropWhile isWhitespace).rdropWhile isWhitespace := by
    intro chars
    rw [dropWhile_rdropWhile, List.rdropWhile_idempotent]
  unfold trim
  rw [String.toList_ofList]
  exact congrArg String.ofList (hstable text.toList)

/-- A context that was read is read again from its text. -/
theorem KeymapContext.fromStr_asStr (value : String) :
    fromStr (fromStr value).asStr = fromStr value := by
  by_cases hexpression : ∃ text, fromStr value = .expression text
  · have ⟨text, htext⟩ := hexpression
    have htrim : text = trim value := by
      unfold fromStr at htext
      dsimp only at htext
      split at htext
      · cases htext
      · split at htext
        · cases htext
        · split at htext
          · cases htext
          · split at htext
            · cases htext
            · exact (KeymapContext.expression.inj htext).symm
    rw [htext]
    show fromStr text = .expression text
    rw [← htext, htrim]
    unfold fromStr
    rw [trim_trim]
  · cases hcontext : fromStr value with
    | expression text => exact absurd ⟨text, hcontext⟩ hexpression
    | global | sidebar | command | terminal => decide

/-! ### Entries -/

variable {action : KeymapAction (Json N)}

namespace KeymapAction

@[simp] theorem parse_toJson (action : KeymapAction (Json N)) :
    parse action.toJson = .ok action := by
  cases action with
  | none => rfl
  | command name input => cases input <;> rfl

private theorem toJson_of_parse {value : Json N} (h : parse value = .ok action) :
    value = action.toJson := by
  unfold parse at h
  split at h
  all_goals cases h
  all_goals rfl

private theorem toJson_injective {action' : KeymapAction (Json N)}
    (h : action.toJson = action'.toJson) :
    action = action' := by
  have hparse := congrArg parse h
  rw [parse_toJson, parse_toJson] at hparse
  exact Except.ok.inj hparse

end KeymapAction

/-- The entry that is read from a field of `unbind` or `bindings`. -/
def acceptEntry (unbind : Bool) (field : String × Json N) : Option (KeymapEntry N) :=
  (KeymapFile.parseEntry 0 unbind "" field.1 field.2).1

private theorem parseEntry_eq (sourceIndex : Nat) (unbind : Bool) (name keystrokes : String)
    (value : Json N) :
    (KeymapFile.parseEntry sourceIndex unbind name keystrokes value).1 =
      acceptEntry unbind (keystrokes, value) := by
  unfold acceptEntry KeymapFile.parseEntry
  dsimp only
  cases KeymapAction.parse value with
  | error message => rfl
  | ok action =>
    cases action with
    | none =>
      dsimp only
      split <;> rfl
    | command name input => rfl

private theorem acceptEntry_eq_some {unbind : Bool} {field : String × Json N}
    {entry : KeymapEntry N} :
    acceptEntry unbind field = some entry ↔
      field = (entry.keystrokes, entry.action.toJson) ∧
        (unbind = true → entry.action ≠ .none) := by
  have ⟨keystrokes, value⟩ := field
  constructor
  · intro h
    unfold acceptEntry KeymapFile.parseEntry at h
    dsimp only at h
    split at h
    · next hnone =>
      split at h
      · cases h
      · next hbinding =>
        cases h
        rw [KeymapAction.toJson_of_parse hnone]
        exact ⟨rfl, fun hunbind ↦ absurd hunbind hbinding⟩
    · next action hsome hparse =>
      cases h
      rw [KeymapAction.toJson_of_parse hparse]
      exact ⟨rfl, fun _ ↦ hsome⟩
    · cases h
  · rintro ⟨hfield, hnamed⟩
    obtain ⟨rfl, rfl⟩ := Prod.mk.inj hfield
    unfold acceptEntry KeymapFile.parseEntry
    rw [KeymapAction.parse_toJson]
    cases haction : entry.action with
    | none =>
      have hbinding : ¬ unbind = true := fun hunbind ↦ hnamed hunbind haction
      dsimp only
      rw [if_neg hbinding, ← haction]
    | command name input =>
      dsimp only
      rw [← haction]

/-- The field of an entry. -/
def KeymapEntry.field (entry : KeymapEntry N) : String × Json N :=
  (entry.keystrokes, entry.action.toJson)

/-- The entries that are read after these are written. -/
def reread (unbind : Bool) (entries : List (KeymapEntry N)) : List (KeymapEntry N) :=
  (Json.insertFields [] (entries.map KeymapEntry.field)).filterMap (acceptEntry unbind)

/-- Entries with different keystrokes, and named actions where these are needed. -/
structure EntriesRead (unbind : Bool) (entries : List (KeymapEntry N)) : Prop where
  different : (entries.map KeymapEntry.keystrokes).Nodup
  named : unbind = true → ∀ entry ∈ entries, entry.action ≠ .none

private theorem filterMap_acceptEntry {unbind : Bool} {entries : List (KeymapEntry N)}
    (h : unbind = true → ∀ entry ∈ entries, entry.action ≠ .none) :
    (entries.map KeymapEntry.field).filterMap (acceptEntry unbind) = entries := by
  induction entries with
  | nil => rfl
  | cons entry rest ih =>
    have haccept : acceptEntry unbind entry.field = some entry :=
      acceptEntry_eq_some.mpr ⟨rfl, fun hunbind ↦ h hunbind entry List.mem_cons_self⟩
    rw [List.map_cons, List.filterMap_cons_some haccept,
      ih fun hunbind other hother ↦ h hunbind other (List.mem_cons_of_mem _ hother)]

private theorem map_fst_field (entries : List (KeymapEntry N)) :
    (entries.map KeymapEntry.field).map Prod.fst = entries.map KeymapEntry.keystrokes := by
  rw [List.map_map]
  rfl

/-- Entries that were read are read again. -/
theorem reread_eq {unbind : Bool} {entries : List (KeymapEntry N)}
    (h : EntriesRead unbind entries) : reread unbind entries = entries := by
  have hunique : Json.fieldsUnique ([] ++ entries.map KeymapEntry.field) := by
    rw [List.nil_append, Json.fieldsUnique, map_fst_field]
    exact h.different
  rw [reread, Json.insertFields_of_unique hunique, List.nil_append]
  exact filterMap_acceptEntry h.named

private theorem filter_acceptEntry (test : String → Bool) (unbind : Bool)
    (fields : List (String × Json N)) :
    (fields.filterMap (acceptEntry unbind)).filter (fun entry ↦ test entry.keystrokes) =
      (fields.filter fun field ↦ test field.1).filterMap (acceptEntry unbind) := by
  induction fields with
  | nil => rfl
  | cons field rest ih =>
    cases haccept : acceptEntry unbind field with
    | none =>
      rw [List.filterMap_cons_none haccept, ih, List.filter_cons]
      split
      · rw [List.filterMap_cons_none haccept]
      · rfl
    | some entry =>
      have hkey : entry.keystrokes = field.1 := by
        rw [(acceptEntry_eq_some.mp haccept).1]
      rw [List.filterMap_cons_some haccept, List.filter_cons, List.filter_cons, ih, hkey]
      split
      · rw [List.filterMap_cons_some haccept]
      · rfl

/-- Entries with other keystrokes do not matter. -/
theorem filter_reread (test : String → Bool) (unbind : Bool) (entries : List (KeymapEntry N)) :
    (reread unbind entries).filter (fun entry ↦ test entry.keystrokes) =
      reread unbind (entries.filter fun entry ↦ test entry.keystrokes) := by
  have hfields : (entries.map KeymapEntry.field).filter (fun field ↦ test field.1) =
      (entries.filter fun entry ↦ test entry.keystrokes).map KeymapEntry.field :=
    List.filter_map
  rw [reread, filter_acceptEntry, Json.filter_insertFields, hfields]
  rfl

private theorem lookup_field (entries : List (KeymapEntry N)) (keystrokes : String) :
    (entries.map KeymapEntry.field).lookup keystrokes =
      (entries.find? (·.keystrokes = keystrokes)).map (·.action.toJson) := by
  induction entries with
  | nil => rfl
  | cons entry rest ih =>
    rw [List.map_cons, KeymapEntry.field, List.lookup_cons, ih]
    by_cases hkey : entry.keystrokes = keystrokes
    · simp [hkey]
    · rw [beq_false_of_ne (Ne.symm hkey), List.find?_cons_of_neg (by simpa using hkey)]

/-- Of the entries with the same keystrokes the last one is read, where its action can be. -/
theorem mem_reread {unbind : Bool} {entries : List (KeymapEntry N)} {entry : KeymapEntry N} :
    entry ∈ reread unbind entries ↔
      (entries.reverse.find? (·.keystrokes = entry.keystrokes)) = some entry ∧
        (unbind = true → entry.action ≠ .none) := by
  have hunique : Json.fieldsUnique (Json.insertFields [] (entries.map KeymapEntry.field)) :=
    Json.insertFields_unique (by simp [Json.fieldsUnique]) _
  have hlookup : (Json.insertFields [] (entries.map KeymapEntry.field)).lookup entry.keystrokes =
      (entries.reverse.find? (·.keystrokes = entry.keystrokes)).map (·.action.toJson) := by
    rw [Json.lookup_insertFields, ← List.map_reverse, lookup_field, List.lookup_nil, Option.or_none]
  unfold reread
  rw [List.mem_filterMap]
  constructor
  · rintro ⟨field, hmem, haccept⟩
    have ⟨hfield, hnamed⟩ := acceptEntry_eq_some.mp haccept
    have hvalue := Json.lookup_of_mem hunique hmem
    rw [hfield, hlookup] at hvalue
    have ⟨last, hlast, haction⟩ := Option.map_eq_some_iff.mp hvalue
    have hkey : last.keystrokes = entry.keystrokes := by
      simpa using List.find?_some hlast
    have heq : last = entry := by
      have ⟨keystrokes, action⟩ := last
      have ⟨keystrokes', action'⟩ := entry
      rw [show keystrokes = keystrokes' from hkey,
        show action = action' from KeymapAction.toJson_injective haction]
    rw [hlast, heq]
    exact ⟨rfl, hnamed⟩
  · rintro ⟨hlast, hnamed⟩
    rw [hlast] at hlookup
    have ⟨front, back, hfields, _⟩ := List.lookup_eq_some_iff.mp hlookup
    refine ⟨(entry.keystrokes, entry.action.toJson), ?_, acceptEntry_eq_some.mpr ⟨rfl, hnamed⟩⟩
    rw [hfields]
    simp

/-- An action is equal to itself. -/
theorem KeymapAction.beq_self [BEq N] [ReflBEq N] (h : action.toJson.WellFormed) :
    action.beq action = true := by
  cases action with
  | none => rfl
  | command name input =>
    cases input with
    | none => simp [beq]
    | some value =>
      have hvalue : value.WellFormed := (Json.wellFormedItems_iff.mp h) value (by simp)
      have hself : (value == value) = true := Json.beq_self value hvalue
      simp [beq, hself]

private theorem KeymapAction.eq_none_of_beq [BEq N] (h : action.beq .none = true) :
    action = .none := by
  cases action with
  | none => rfl
  | command name input => cases h

section Replaced

variable {unbind : Bool} {entries : List (KeymapEntry N)} {index : Nat} {entry : KeymapEntry N}

private theorem find?_set (hindex : index < entries.length) :
    (entries.set index entry).reverse.find? (·.keystrokes = entry.keystrokes) =
      ((entries.drop (index + 1)).reverse.find? (·.keystrokes = entry.keystrokes)).or
        (some entry) := by
  rw [List.set_eq_take_append_cons_drop, if_pos hindex, List.reverse_append, List.reverse_cons,
    List.append_assoc, List.find?_append, List.singleton_append, List.find?_cons_of_pos (by simp)]

/-- What is in the place of an entry is read unless a later entry has its keystrokes. -/
theorem exists_mem_reread_set [BEq N] [ReflBEq N] (h : EntriesRead unbind entries)
    (hindex : index < entries.length) (haction : entry.action.toJson.WellFormed) :
    (∃ found ∈ reread unbind (entries.set index entry), found.keystrokes = entry.keystrokes ∧
        found.action.beq entry.action = true) ↔
      (unbind = true → entry.action ≠ .none) ∧
        ∀ later ∈ entries.drop (index + 1), later.keystrokes = entry.keystrokes →
          later.action.beq entry.action = true := by
  constructor
  · rintro ⟨found, hfound, hkey, hbeq⟩
    have ⟨hlast, hnamed⟩ := mem_reread.mp hfound
    rw [hkey, find?_set hindex] at hlast
    constructor
    · intro hunbind hnone
      rw [hnone] at hbeq
      exact hnamed hunbind (KeymapAction.eq_none_of_beq hbeq)
    · intro later hlater hsame
      cases hfind : (entries.drop (index + 1)).reverse.find?
          (·.keystrokes = entry.keystrokes) with
      | none =>
        have hne := List.find?_eq_none.mp hfind later (List.mem_reverse.mpr hlater)
        exact absurd (by simpa using hsame) hne
      | some last =>
        rw [hfind] at hlast
        obtain rfl : last = found := Option.some.inj hlast
        have hmem : last ∈ entries.drop (index + 1) :=
          List.mem_reverse.mp (List.mem_of_find?_eq_some hfind)
        have heq : later = last := List.inj_on_of_nodup_map h.different
          (List.mem_of_mem_drop hlater) (List.mem_of_mem_drop hmem) (hsame.trans hkey.symm)
        rw [heq]
        exact hbeq
  · rintro ⟨hnamed, hlater⟩
    cases hfind : (entries.drop (index + 1)).reverse.find? (·.keystrokes = entry.keystrokes) with
    | none =>
      refine ⟨entry, mem_reread.mpr ⟨?_, hnamed⟩, rfl, KeymapAction.beq_self haction⟩
      rw [find?_set hindex, hfind]
      rfl
    | some last =>
      have hkey : last.keystrokes = entry.keystrokes := by simpa using List.find?_some hfind
      have hmem : last ∈ entries.drop (index + 1) :=
        List.mem_reverse.mp (List.mem_of_find?_eq_some hfind)
      refine ⟨last, mem_reread.mpr ⟨?_, ?_⟩, hkey, hlater last hmem hkey⟩
      · rw [hkey, find?_set hindex, hfind]
        rfl
      · exact fun hunbind ↦ h.named hunbind last (List.mem_of_mem_drop hmem)

/-- Entries with other keystrokes than the replaced one and its replacement stay. -/
theorem filter_reread_set (h : EntriesRead unbind entries) (hindex : index < entries.length)
    (test : String → Bool) (hold : test (entries.get ⟨index, hindex⟩).keystrokes = false)
    (hnew : test entry.keystrokes = false) :
    (reread unbind (entries.set index entry)).filter (fun found ↦ test found.keystrokes) =
      entries.filter (fun found ↦ test found.keystrokes) := by
  have hset : (entries.set index entry).filter (fun found ↦ test found.keystrokes) =
      entries.filter (fun found ↦ test found.keystrokes) := by
    have hsplit : entries = entries.take index ++ entries.get ⟨index, hindex⟩ ::
        entries.drop (index + 1) := by
      rw [List.get_eq_getElem, ← List.drop_eq_getElem_cons hindex, List.take_append_drop]
    conv_rhs => rw [hsplit]
    rw [List.set_eq_take_append_cons_drop, if_pos hindex, List.filter_append, List.filter_append,
      List.filter_cons_of_neg (by simp [hnew]), List.filter_cons_of_neg (by simpa using hold)]
  rw [filter_reread, hset]
  apply reread_eq
  exact {
    different := h.different.sublist (List.filter_sublist.map _)
    named := fun hunbind found hfound ↦ h.named hunbind found (List.mem_of_mem_filter hfound) }

end Replaced

/-! ### Sections -/

/-- The object of the entries, where there are any. -/
def entriesJson (entries : List (KeymapEntry N)) : Option (Json N) :=
  if entries.isEmpty then none
  else some (.object (Json.insertFields [] (entries.map KeymapEntry.field)))

private theorem lookup_insertEntries (fields : List (String × Json N)) (kind : KeymapBindingKind)
    (entries : List (KeymapEntry N)) (key : String) (hnew : fields.lookup kind.field = none) :
    (insertEntries fields kind entries).lookup key =
      if key = kind.field then entriesJson entries else fields.lookup key := by
  unfold insertEntries entriesJson
  split
  · next hempty =>
    split
    · next hkey => rw [hkey, hnew]
    · rfl
  · exact Json.lookup_insertField ..

/-- The fields that `to_json` writes. -/
theorem exists_fields (self : KeymapSection N) :
    ∃ fields, self.toJson = .object fields ∧
      fields.lookup "context" =
        (if self.context = .global then none else some (.string self.context.asStr)) ∧
      fields.lookup "use_key_equivalents" =
        (if self.useKeyEquivalents then some (.bool true) else none) ∧
      fields.lookup "use_builtin_defaults" = self.useBuiltinDefaults.map .bool ∧
      fields.lookup "unbind" = entriesJson self.unbind ∧
      fields.lookup "bindings" = entriesJson self.bindings := by
  obtain ⟨options, hoptions⟩ : ∃ options : List (String × Json N), options =
      (let fields := []
      let fields :=
        if self.context = .global then fields
        else Json.insertField fields "context" (.string self.context.asStr)
      let fields :=
        if self.useKeyEquivalents then Json.insertField fields "use_key_equivalents" (.bool true)
        else fields
      self.useBuiltinDefaults.elim fields fun useBuiltinDefaults ↦
        Json.insertField fields "use_builtin_defaults" (.bool useBuiltinDefaults)) := ⟨_, rfl⟩
  have hlookup : ∀ key, options.lookup key =
      if key = "use_builtin_defaults" then self.useBuiltinDefaults.map .bool
      else if key = "use_key_equivalents" then
        if self.useKeyEquivalents then some (.bool true) else none
      else if key = "context" then
        if self.context = .global then none else some (.string self.context.asStr)
      else none := by
    intro key
    rw [hoptions]
    cases self.useBuiltinDefaults <;> by_cases hcontext : self.context = .global <;>
      by_cases hequivalents : self.useKeyEquivalents = true <;>
      simp [hcontext, hequivalents, Json.lookup_insertField]
    all_goals grind
  have hunbind : options.lookup KeymapBindingKind.unbind.field = none := by
    rw [hlookup]
    rfl
  have hbindings : (insertEntries options .unbind self.unbind).lookup
      KeymapBindingKind.binding.field = none := by
    rw [lookup_insertEntries _ _ _ _ hunbind, hlookup]
    rfl
  have hall : ∀ key, (insertEntries (insertEntries options .unbind self.unbind) .binding
      self.bindings).lookup key = if key = "bindings" then entriesJson self.bindings
        else if key = "unbind" then entriesJson self.unbind else options.lookup key := by
    intro key
    rw [lookup_insertEntries _ _ _ _ hbindings, lookup_insertEntries _ _ _ _ hunbind]
    rfl
  have hwritten : self.toJson = .object
      (insertEntries (insertEntries options .unbind self.unbind) .binding self.bindings) := by
    rw [hoptions, KeymapSection.toJson]
    cases self.useBuiltinDefaults <;> rfl
  refine ⟨insertEntries (insertEntries options .unbind self.unbind) .binding self.bindings,
    hwritten, ?_, ?_, ?_, ?_, ?_⟩
  all_goals
    rw [hall]
    try rw [hlookup]
    rfl

private theorem parseEntries_object (sourceIndex : Nat) (unbind : Bool)
    (fields : List (String × Json N)) :
    (KeymapFile.parseEntries sourceIndex (some (.object fields)) unbind).1 =
      fields.filterMap (acceptEntry unbind) := by
  unfold KeymapFile.parseEntries
  apply List.filterMap_congr
  intro field _
  exact parseEntry_eq ..

private theorem parseEntries_entriesJson (sourceIndex : Nat) (unbind : Bool)
    (entries : List (KeymapEntry N)) :
    (KeymapFile.parseEntries sourceIndex (entriesJson entries) unbind).1 =
      reread unbind entries := by
  unfold entriesJson
  split
  · next hempty =>
    rw [List.isEmpty_iff.mp hempty]
    rfl
  · exact parseEntries_object ..

namespace KeymapSection

/-- The section that is read after this one is written. -/
def reread (self : KeymapSection N) (sourceIndex : Nat) : KeymapSection N :=
  { self with
    unbind := Config.reread true self.unbind
    bindings := Config.reread false self.bindings
    sourceIndex := sourceIndex }

variable {self : KeymapSection N}

/-- What is written is read. -/
theorem readSection_toJson (hcontext : KeymapContext.fromStr self.context.asStr = self.context)
    (sourceIndex : Nat) :
    (KeymapFile.readSection sourceIndex self.toJson).1 = some (self.reread sourceIndex) := by
  have ⟨fields, hjson, hname, hequivalents, hdefaults, hunbind, hbindings⟩ := exists_fields self
  have hfields : ∀ context, context = self.context →
      (KeymapFile.parseFields sourceIndex context fields).1 = self.reread sourceIndex := by
    rintro _ rfl
    unfold KeymapFile.parseFields
    rw [hequivalents, hdefaults, hunbind, hbindings]
    simp only [parseEntries_entriesJson]
    unfold reread
    cases self.useKeyEquivalents <;> cases self.useBuiltinDefaults <;> rfl
  unfold KeymapFile.readSection
  rw [hjson]
  simp only [hname]
  by_cases hglobal : self.context = .global
  · simp only [if_pos hglobal]
    rw [hfields .global hglobal.symm]
  · simp only [if_neg hglobal]
    rw [hfields _ hcontext]

/-- What holds of a section that was read. -/
structure Read (read : KeymapSection N) : Prop where
  context : KeymapContext.fromStr read.context.asStr = read.context
  unbind : EntriesRead true read.unbind
  bindings : EntriesRead false read.bindings
  actions : ∀ kind, ∀ entry ∈ read.entries kind, entry.action.toJson.WellFormed

/-- A section that was read is read again. -/
theorem Read.reread_eq (h : self.Read) (sourceIndex : Nat) :
    self.reread sourceIndex = { self with sourceIndex := sourceIndex } := by
  rw [reread, Config.reread_eq h.unbind, Config.reread_eq h.bindings]

/-- The entries of a section that was read. -/
theorem Read.entries (h : self.Read) (kind : KeymapBindingKind) :
    EntriesRead (decide (kind = .unbind)) (self.entries kind) :=
  match kind with
  | .unbind => h.unbind
  | .binding => h.bindings

theorem entries_reread (self : KeymapSection N) (sourceIndex : Nat) (kind : KeymapBindingKind) :
    (self.reread sourceIndex).entries kind =
      Config.reread (decide (kind = .unbind)) (self.entries kind) := by
  cases kind <;> rfl

/-- The entries after a change of one kind. -/
theorem entries_setEntries (self : KeymapSection N) (kind : KeymapBindingKind)
    (entries : List (KeymapEntry N)) (other : KeymapBindingKind) :
    (self.setEntries kind entries).entries other =
      if other = kind then entries else self.entries other := by
  cases kind <;> cases other <;> rfl

/-- A section of which entries are taken away. -/
theorem Read.setEntries (h : self.Read) (kind : KeymapBindingKind) {entries : List (KeymapEntry N)}
    (hsub : entries.Sublist (self.entries kind)) :
    (self.setEntries kind entries).Read := by
  have hsublist : ∀ {unbind : Bool} {all : List (KeymapEntry N)}, EntriesRead unbind all →
      entries.Sublist all → EntriesRead unbind entries := by
    intro unbind all hall hsub
    exact ⟨hall.different.sublist (hsub.map _),
      fun hunbind entry hentry ↦ hall.named hunbind entry (hsub.subset hentry)⟩
  have hactions : ∀ entry ∈ entries, entry.action.toJson.WellFormed :=
    fun entry hentry ↦ h.actions kind entry (hsub.subset hentry)
  cases kind with
  | unbind =>
    exact ⟨h.context, hsublist h.unbind hsub, h.bindings, fun
      | .unbind => hactions
      | .binding => h.actions .binding⟩
  | binding =>
    exact ⟨h.context, h.unbind, hsublist h.bindings hsub, fun
      | .unbind => h.actions .unbind
      | .binding => hactions⟩

private theorem entriesRead_filterMap {unbind : Bool} {fields : List (String × Json N)}
    (h : Json.fieldsUnique fields) :
    EntriesRead unbind (fields.filterMap (acceptEntry unbind)) where
  different := by
    have hsublist : List.Sublist
        ((fields.filterMap (acceptEntry unbind)).map KeymapEntry.keystrokes)
          (fields.map Prod.fst) := by
      clear h
      induction fields with
      | nil => exact .slnil
      | cons field rest ih =>
        cases haccept : acceptEntry unbind field with
        | none =>
          rw [List.filterMap_cons_none haccept]
          exact ih.cons _
        | some entry =>
          rw [List.filterMap_cons_some haccept, List.map_cons, List.map_cons,
            (acceptEntry_eq_some.mp haccept).1]
          exact ih.cons_cons _
    exact List.Nodup.sublist hsublist h
  named := by
    intro hunbind entry hentry
    have ⟨field, _, haccept⟩ := List.mem_filterMap.mp hentry
    exact (acceptEntry_eq_some.mp haccept).2 hunbind

private theorem entriesRead_parseEntries (sourceIndex : Nat) (unbind : Bool)
    {value : Option (Json N)} (h : ∀ v, value = some v → v.WellFormed) :
    EntriesRead unbind (KeymapFile.parseEntries sourceIndex value unbind).1 ∧
      ∀ entry ∈ (KeymapFile.parseEntries sourceIndex value unbind).1,
        entry.action.toJson.WellFormed := by
  have hnone : EntriesRead unbind ([] : List (KeymapEntry N)) ∧
      ∀ entry ∈ ([] : List (KeymapEntry N)), entry.action.toJson.WellFormed :=
    ⟨⟨List.nodup_nil, fun _ _ hmem ↦ nomatch hmem⟩, fun _ hmem ↦ nomatch hmem⟩
  cases value with
  | none => exact hnone
  | some value =>
    cases value with
    | object fields =>
      have hwell := h _ rfl
      rw [parseEntries_object]
      constructor
      · exact entriesRead_filterMap hwell.1
      · intro entry hentry
        have ⟨field, hfield, haccept⟩ := List.mem_filterMap.mp hentry
        have hvalue := Json.wellFormedFields_iff.mp hwell.2 field hfield
        rw [(acceptEntry_eq_some.mp haccept).1] at hvalue
        exact hvalue
    | null | bool | number | string | array => exact hnone

private theorem read_parseFields (sourceIndex : Nat) {context : KeymapContext}
    (hcontext : KeymapContext.fromStr context.asStr = context)
    {fields : List (String × Json N)} (h : ∀ field ∈ fields, field.2.WellFormed) :
    (KeymapFile.parseFields sourceIndex context fields).1.Read := by
  have hvalue : ∀ key v, fields.lookup key = some v → v.WellFormed := by
    intro key v hlookup
    have ⟨front, back, hfields, _⟩ := List.lookup_eq_some_iff.mp hlookup
    exact h (key, v) (by rw [hfields]; simp)
  have hunbind := entriesRead_parseEntries sourceIndex true (hvalue "unbind")
  have hbindings := entriesRead_parseEntries sourceIndex false (hvalue "bindings")
  exact {
    context := hcontext
    unbind := hunbind.1
    bindings := hbindings.1
    actions := fun kind ↦
      match kind with
      | .unbind => hunbind.2
      | .binding => hbindings.2 }

/-- Sections are read as such. -/
theorem read_of_readSection {sourceIndex : Nat} {value : Json N} {read : KeymapSection N}
    (h : (KeymapFile.readSection sourceIndex value).1 = some read) (hvalue : value.WellFormed) :
    read.Read ∧ read.sourceIndex = sourceIndex := by
  unfold KeymapFile.readSection at h
  split at h
  · next fields =>
    have hfields := Json.wellFormedFields_iff.mp hvalue.2
    split at h
    · rw [← Option.some.inj h]
      exact ⟨read_parseFields sourceIndex (by decide) hfields, rfl⟩
    · next context _ =>
      rw [← Option.some.inj h]
      exact ⟨read_parseFields sourceIndex (KeymapContext.fromStr_asStr context) hfields, rfl⟩
    · cases h
  · cases h

/-- The index of a section is the only thing that depends on its place. -/
theorem readSection_index (sourceIndex other : Nat) (value : Json N) :
    (KeymapFile.readSection sourceIndex value).1 =
      (KeymapFile.readSection other value).1.map ({ · with sourceIndex := sourceIndex }) := by
  have hentries : ∀ (lookup : Option (Json N)) unbind,
      (KeymapFile.parseEntries sourceIndex lookup unbind).1 =
        (KeymapFile.parseEntries other lookup unbind).1 := by
    intro lookup unbind
    cases lookup with
    | none => rfl
    | some value =>
      cases value with
      | object fields => rw [parseEntries_object, parseEntries_object]
      | null | bool | number | string | array => rfl
  have hfields : ∀ context (fields : List (String × Json N)),
      (KeymapFile.parseFields sourceIndex context fields).1 =
        { (KeymapFile.parseFields other context fields).1 with sourceIndex := sourceIndex } := by
    intro context fields
    unfold KeymapFile.parseFields
    simp only [hentries]
    congr 1
    · split <;> rfl
    · split <;> rfl
  unfold KeymapFile.readSection
  split
  · split
    · simp only [hfields, Option.map_some]
    · simp only [hfields, Option.map_some]
    · rfl
  · rfl

/-- What is written has different keys. -/
theorem wellFormed_toJson (h : ∀ kind, ∀ entry ∈ self.entries kind, entry.action.toJson.WellFormed)
    :
    self.toJson.WellFormed := by
  have hinsert : ∀ {fields : List (String × Json N)} {key : String} {value : Json N},
      (Json.object fields).WellFormed → value.WellFormed →
        (Json.object (Json.insertField fields key value)).WellFormed := by
    intro fields key value hfields hvalue
    constructor
    · exact Json.insertField_unique hfields.1 key value
    · rw [Json.wellFormedFields_iff]
      intro field hfield
      cases Json.mem_insertField hfield with
      | inl hold => exact Json.wellFormedFields_iff.mp hfields.2 field hold
      | inr hnew => exact hnew ▸ hvalue
  have hentries : ∀ {fields : List (String × Json N)} (kind : KeymapBindingKind),
      (Json.object fields).WellFormed →
        (Json.object (insertEntries fields kind (self.entries kind))).WellFormed := by
    intro fields kind hfields
    unfold insertEntries
    split
    · exact hfields
    · apply hinsert hfields
      constructor
      · exact Json.insertFields_unique (by simp [Json.fieldsUnique]) _
      · rw [Json.wellFormedFields_iff]
        intro field hfield
        cases Json.mem_insertFields hfield with
        | inl hnone => cases hnone
        | inr hmem =>
          have ⟨entry, hentry, heq⟩ := List.mem_map.mp hmem
          rw [← heq]
          exact h kind entry hentry
  unfold toJson
  apply hentries .binding
  apply hentries .unbind
  have hnone : (Json.object ([] : List (String × Json N))).WellFormed :=
    ⟨by simp [Json.fieldsUnique], trivial⟩
  have hcontext : (Json.object (if self.context = .global then []
      else Json.insertField [] "context" (.string self.context.asStr)) : Json N).WellFormed := by
    split
    · exact hnone
    · exact hinsert hnone trivial
  have hequivalents : (Json.object (Json.insertField _ "use_key_equivalents"
      (.bool true))).WellFormed := hinsert hcontext trivial
  cases self.useBuiltinDefaults with
  | none =>
    cases self.useKeyEquivalents with
    | false => exact hcontext
    | true => exact hequivalents
  | some enabled =>
    cases self.useKeyEquivalents with
    | false => exact hinsert hcontext trivial
    | true => exact hinsert hequivalents trivial

end KeymapSection

end Bootty.Config
