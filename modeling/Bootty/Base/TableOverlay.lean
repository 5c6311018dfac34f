import Mathlib.Data.List.Nodup
import Mathlib.Tactic.Common

/-!
# Overlaid tables

Tables whose items are values or tables again. One table is laid over another: tables that both have
under a key are overlaid in turn, and under any other key the upper one's item is taken. Where no
table has a value under a path at which another one has a table, each path has the value of the
uppermost table with one.
-/

namespace Bootty.Base

/-- What is under a key of a table. -/
inductive TableItem (K V : Type) where
  | value (value : V)
  | table (entries : List (K × TableItem K V))

namespace TableItem

variable {K V : Type} [DecidableEq K]

/-- The item under a key. -/
def get (key : K) : List (K × TableItem K V) → Option (TableItem K V)
  | [] => none
  | (other, item) :: entries => if other = key then some item else get key entries

/-- The entries with an item under a key, in its place or at the end. -/
def insert (key : K) (item : TableItem K V) : List (K × TableItem K V) → List (K × TableItem K V)
  | [] => [(key, item)]
  | (other, old) :: entries =>
    if other = key then (key, item) :: entries else (other, old) :: insert key item entries

mutual

/-- An item under another one. -/
def mergeItem (target : TableItem K V) : TableItem K V → TableItem K V
  | .value v => .value v
  | .table overlay =>
    match target with
    | .value _ => .table overlay
    | .table entries => .table (merge entries overlay)

/-- The entries of a table under those of another one. -/
def merge (target : List (K × TableItem K V)) :
    List (K × TableItem K V) → List (K × TableItem K V)
  | [] => target
  | (key, item) :: overlay =>
    merge (insert key (((get key target).map fun old ↦ mergeItem old item).getD item) target)
      overlay

end

/-- The table at a path. -/
def tableAt (entries : List (K × TableItem K V)) : List K → Option (List (K × TableItem K V))
  | [] => some entries
  | key :: path =>
    match get key entries with
    | some (.table entries) => tableAt entries path
    | _ => none

/-- The value at a path. -/
def valueAt (entries : List (K × TableItem K V)) : List K → Option V
  | [] => none
  | key :: path =>
    match get key entries with
    | some (.table entries) => valueAt entries path
    | some (.value v) => if path.isEmpty then some v else none
    | none => none

/-- No table at any path has two items under one key. -/
def WellFormed (entries : List (K × TableItem K V)) : Prop :=
  ∀ path table, tableAt entries path = some table → (table.map Prod.fst).Nodup

/-- What is a table in one table is no value in the other. -/
def Compatible (left right : List (K × TableItem K V)) : Prop :=
  ∀ path, ((tableAt left path).isSome → valueAt right path = none) ∧
    ((tableAt right path).isSome → valueAt left path = none)

variable {key : K} {item : TableItem K V} {entries target overlay : List (K × TableItem K V)}

private theorem get_cons (key : K) (entry : K × TableItem K V)
    (entries : List (K × TableItem K V)) :
    get key (entry :: entries) = if entry.1 = key then some entry.2 else get key entries := rfl

private theorem insert_cons (key : K) (item : TableItem K V) (entry : K × TableItem K V)
    (entries : List (K × TableItem K V)) :
    insert key item (entry :: entries) =
      if entry.1 = key then (key, item) :: entries else entry :: insert key item entries := rfl

@[simp]
theorem get_insert (key : K) (item : TableItem K V) (entries : List (K × TableItem K V))
    (other : K) : get other (insert key item entries) =
      if key = other then some item else get other entries := by
  induction entries with
  | nil => rfl
  | cons entry entries ih =>
    rw [insert_cons]
    by_cases hkey : entry.1 = key
    · rw [if_pos hkey, get_cons, get_cons, hkey]
      split <;> rfl
    · rw [if_neg hkey, get_cons, get_cons, ih]
      by_cases hother : entry.1 = other
      · rw [if_pos hother, if_pos hother, if_neg fun heq ↦ hkey (hother.trans heq.symm)]
      · rw [if_neg hother, if_neg hother]

private theorem get_eq_none : get key entries = none ↔ key ∉ entries.map Prod.fst := by
  induction entries with
  | nil => simp [get]
  | cons entry entries ih =>
    rw [get_cons]
    by_cases hkey : entry.1 = key
    · simp [hkey]
    · rw [if_neg hkey, ih, List.map_cons, List.mem_cons, not_or]
      exact ⟨fun hmem ↦ ⟨fun heq ↦ hkey heq.symm, hmem⟩, And.right⟩

private theorem keys_insert : ∀ other ∈ (insert key item entries).map Prod.fst,
    other = key ∨ other ∈ entries.map Prod.fst := by
  intro other hmem
  by_contra hnot
  rw [not_or] at hnot
  refine absurd hmem (get_eq_none.mp ?_)
  rw [get_insert, if_neg fun heq ↦ hnot.1 heq.symm]
  exact get_eq_none.mpr hnot.2

private theorem nodup_insert (h : (entries.map Prod.fst).Nodup) :
    ((insert key item entries).map Prod.fst).Nodup := by
  induction entries with
  | nil => simp [insert]
  | cons entry entries ih =>
    rw [List.map_cons, List.nodup_cons] at h
    rw [insert_cons]
    by_cases hkey : entry.1 = key
    · rw [if_pos hkey, List.map_cons, List.nodup_cons, ← hkey]
      exact h
    · rw [if_neg hkey, List.map_cons, List.nodup_cons]
      refine ⟨fun hmem ↦ ?_, ih h.2⟩
      rcases keys_insert _ hmem with heq | hmem
      · exact hkey heq
      · exact h.1 hmem

private theorem nodup_merge (h : (target.map Prod.fst).Nodup) :
    ((merge target overlay).map Prod.fst).Nodup := by
  induction overlay generalizing target with
  | nil => rwa [merge]
  | cons entry overlay ih =>
    rw [merge]
    exact ih (nodup_insert h)

/-- What is under a key of a table under another one. -/
theorem get_merge (h : (overlay.map Prod.fst).Nodup) (key : K) :
    get key (merge target overlay) =
      match get key overlay with
      | none => get key target
      | some item => some (((get key target).map fun old ↦ mergeItem old item).getD item) := by
  induction overlay generalizing target with
  | nil => rw [merge, get]
  | cons entry overlay ih =>
    rw [List.map_cons, List.nodup_cons] at h
    rw [merge, ih h.2, get_cons, get_insert]
    by_cases hkey : entry.1 = key
    · rw [if_pos hkey, if_pos hkey, get_eq_none.mpr (hkey ▸ h.1), hkey]
    · rw [if_neg hkey, if_neg hkey]

/-! ### Along a path -/

private theorem tableAt_nil : tableAt entries [] = some entries := rfl

private theorem tableAt_cons (key : K) (path : List K) :
    tableAt entries (key :: path) =
      match get key entries with
      | some (.table inner) => tableAt inner path
      | _ => none := rfl

private theorem valueAt_cons (key : K) (path : List K) :
    valueAt entries (key :: path) =
      match get key entries with
      | some (.table inner) => valueAt inner path
      | some (.value v) => if path.isEmpty then some v else none
      | none => none := rfl

private theorem WellFormed.keys (h : WellFormed entries) : (entries.map Prod.fst).Nodup := h
    [] entries rfl

private theorem WellFormed.inner (h : WellFormed entries) {inner : List (K × TableItem K V)}
    (hget : get key entries = some (.table inner)) : WellFormed inner := by
  intro path table htable
  refine h (key :: path) table ?_
  rw [tableAt_cons, hget]
  exact htable

@[simp]
theorem wellFormed_nil : WellFormed ([] : List (K × TableItem K V)) := by
  intro path table h
  cases path with
  | nil =>
    rw [← Option.some.inj h]
    exact List.nodup_nil
  | cons key path => cases h

private theorem wellFormed_singleton (key : K) (v : V) : WellFormed [(key, .value v)] := by
  intro path table h
  cases path with
  | nil =>
    rw [← Option.some.inj h]
    exact List.nodup_singleton key
  | cons other path =>
    rw [tableAt_cons, get_cons] at h
    by_cases hkey : key = other
    · rw [if_pos hkey] at h
      cases h
    · rw [if_neg hkey] at h
      cases h

private theorem Compatible.inner (h : Compatible target overlay)
    {left right : List (K × TableItem K V)} (hleft : get key target = some (.table left))
    (hright : get key overlay = some (.table right)) : Compatible left right := by
  intro path
  have hpath := h (key :: path)
  simp only [tableAt_cons, valueAt_cons, hleft, hright] at hpath
  exact hpath

/-- Compatible tables have no value under a key of a table. -/
theorem Compatible.not_value (h : Compatible target overlay) {inner : List (K × TableItem K V)}
    {v : V} (htable : get key target = some (.table inner)) :
    get key overlay ≠ some (.value v) := by
  intro hvalue
  have hpath := (h [key]).1
  simp [tableAt_nil, tableAt_cons, valueAt_cons, htable, hvalue] at hpath

private theorem Compatible.not_table (h : Compatible target overlay)
    {inner : List (K × TableItem K V)}
    {v : V} (hvalue : get key target = some (.value v)) :
    get key overlay ≠ some (.table inner) := by
  intro htable
  have hpath := (h [key]).2
  simp [tableAt_nil, tableAt_cons, valueAt_cons, htable, hvalue] at hpath

private theorem WellFormed.merge (htarget : WellFormed target) (hoverlay : WellFormed overlay) :
    WellFormed (merge target overlay) := by
  intro path
  induction path generalizing target overlay with
  | nil =>
    intro table htable
    rw [← Option.some.inj htable]
    exact nodup_merge htarget.keys
  | cons key path ih =>
    intro table htable
    rw [tableAt_cons, get_merge hoverlay.keys] at htable
    cases hitem : get key overlay with
    | none =>
      refine htarget (key :: path) table ?_
      rw [hitem] at htable
      exact htable
    | some item =>
      rw [hitem] at htable
      cases item with
      | value v =>
        cases hold : get key target <;> rw [hold] at htable <;> cases htable
      | table inner =>
        cases hold : get key target with
        | none =>
          rw [hold] at htable
          exact hoverlay.inner hitem path table htable
        | some old =>
          rw [hold] at htable
          cases old with
          | value v => exact hoverlay.inner hitem path table htable
          | table entries => exact ih (htarget.inner hold) (hoverlay.inner hitem) table htable

/-- A path has the upper table's value, or the lower one's. -/
theorem valueAt_merge (hoverlay : WellFormed overlay) (h : Compatible target overlay)
    (path : List K) :
    valueAt (merge target overlay) path = (valueAt overlay path).or (valueAt target path) := by
  induction path generalizing target overlay with
  | nil => rfl
  | cons key path ih =>
    rw [valueAt_cons, valueAt_cons, valueAt_cons, get_merge hoverlay.keys]
    cases hitem : get key overlay with
    | none => rw [Option.none_or]
    | some item =>
      cases hold : get key target with
      | none => rw [Option.or_none]; rfl
      | some old =>
        cases item with
        | value v =>
          cases old with
          | value w => cases path <;> rfl
          | table entries => exact absurd hitem (h.not_value hold)
        | table inner =>
          cases old with
          | value w => exact absurd hitem (h.not_table hold)
          | table entries => exact ih (hoverlay.inner hitem) (h.inner hold hitem)

/-- A path has a table where one of both has one. -/
theorem tableAt_merge (hoverlay : WellFormed overlay) (h : Compatible target overlay)
    (path : List K) :
    (tableAt (merge target overlay) path).isSome =
      ((tableAt overlay path).isSome || (tableAt target path).isSome) := by
  induction path generalizing target overlay with
  | nil => rfl
  | cons key path ih =>
    rw [tableAt_cons, tableAt_cons, tableAt_cons, get_merge hoverlay.keys]
    cases hitem : get key overlay with
    | none => rfl
    | some item =>
      cases hold : get key target with
      | none => rw [Option.isSome_none, Bool.or_false]; rfl
      | some old =>
        cases item with
        | value v =>
          cases old with
          | value w => rfl
          | table entries => exact absurd hitem (h.not_value hold)
        | table inner =>
          cases old with
          | value w => exact absurd hitem (h.not_table hold)
          | table entries => exact ih (hoverlay.inner hitem) (h.inner hold hitem)

end TableItem

/-- A table without two items under one key. -/
structure TableDocument (K V : Type) [DecidableEq K] where
  entries : List (K × TableItem K V)
  wellFormed : TableItem.WellFormed entries

namespace TableDocument

variable {K V : Type} [DecidableEq K]

/-- The document without entries. -/
def empty : TableDocument K V := ⟨[], TableItem.wellFormed_nil⟩

/-- A document of one value. -/
def single (key : K) (v : V) : TableDocument K V :=
  ⟨[(key, .value v)], TableItem.wellFormed_singleton key v⟩

/-- A document under another one. -/
def merge (target overlay : TableDocument K V) : TableDocument K V :=
  ⟨TableItem.merge target.entries overlay.entries, target.wellFormed.merge overlay.wellFormed⟩

/-- The item of a key. -/
def get (document : TableDocument K V) (key : K) : Option (TableItem K V) :=
  TableItem.get key document.entries

/-- The value at a path. -/
def valueAt (document : TableDocument K V) (path : List K) : Option V :=
  TableItem.valueAt document.entries path

/-- There is a table at a path. -/
def HasTable (document : TableDocument K V) (path : List K) : Prop :=
  (TableItem.tableAt document.entries path).isSome

/-- What is a table in one document is a value in none. -/
def Consistent (documents : List (TableDocument K V)) : Prop :=
  ∀ document ∈ documents, ∀ other ∈ documents, ∀ path,
    document.HasTable path → other.valueAt path = none

/-- The value of the last document that has one. -/
def lastValue (documents : List (TableDocument K V)) (path : List K) : Option V :=
  documents.reverse.findSome? (·.valueAt path)

/-- One document stands for several of which the later ones are over the earlier ones. -/
structure Overlays (documents : List (TableDocument K V)) (merged : TableDocument K V) : Prop where
  values : ∀ path, merged.valueAt path = lastValue documents path
  tables : ∀ key path, merged.HasTable (key :: path) ↔
    ∃ document ∈ documents, document.HasTable (key :: path)

variable {front back documents : List (TableDocument K V)} {target overlay : TableDocument K V}

private theorem lastValue_append (front back : List (TableDocument K V)) (path : List K) :
    lastValue (front ++ back) path = (lastValue back path).or (lastValue front path) := by
  rw [lastValue, List.reverse_append, List.findSome?_append]
  rfl

private theorem lastValue_eq_none {path : List K} :
    lastValue documents path = none ↔ ∀ document ∈ documents, document.valueAt path = none := by
  simp [lastValue]

/-- A part of a consistent list is consistent. -/
theorem Consistent.sublist (h : Consistent back) (hsub : ∀ document ∈ front, document ∈ back) :
    Consistent front :=
  fun document hdocument other hother ↦
    h document (hsub document hdocument) other (hsub other hother)

@[simp]
theorem overlays_nil : Overlays [] (empty : TableDocument K V) where
  values path := by cases path <;> rfl
  tables key path := by simp [HasTable, empty, TableItem.tableAt, TableItem.get]

theorem overlays_singleton (document : TableDocument K V) : Overlays [document] document where
  values path := by simp [lastValue]
  tables key path := by simp

/-- A document for some documents under one for others stands for all of them. -/
theorem Overlays.merge (htarget : Overlays front target) (hoverlay : Overlays back overlay)
    (h : Consistent (front ++ back)) : Overlays (front ++ back) (target.merge overlay) := by
  have hnone {some other : List (TableDocument K V)} {left right : TableDocument K V}
      (hsome : ∀ document ∈ some, document ∈ front ++ back)
      (hother : ∀ document ∈ other, document ∈ front ++ back) (hleft : Overlays some left)
      (hright : Overlays other right) (path : List K) (htable : left.HasTable path) :
      right.valueAt path = none := by
    cases path with
    | nil => rfl
    | cons key path =>
      have ⟨document, hdocument, hhas⟩ := (hleft.tables key path).mp htable
      rw [hright.values, lastValue_eq_none]
      exact fun value hvalue ↦
        h document (hsome document hdocument) value (hother value hvalue) _ hhas
  have hfront : ∀ document ∈ front, document ∈ front ++ back :=
    fun _ ↦ List.mem_append_left back
  have hback : ∀ document ∈ back, document ∈ front ++ back :=
    fun _ ↦ List.mem_append_right front
  have hcompatible : TableItem.Compatible target.entries overlay.entries := fun path ↦
    ⟨hnone hfront hback htarget hoverlay path, hnone hback hfront hoverlay htarget path⟩
  constructor
  · intro path
    rw [lastValue_append, ← htarget.values, ← hoverlay.values]
    exact TableItem.valueAt_merge overlay.wellFormed hcompatible path
  · intro key path
    rw [HasTable, TableDocument.merge, TableItem.tableAt_merge overlay.wellFormed hcompatible,
      Bool.or_eq_true]
    constructor
    · rintro (hover | hunder)
      · have ⟨document, hmem, hhas⟩ := (hoverlay.tables key path).mp hover
        exact ⟨document, hback document hmem, hhas⟩
      · have ⟨document, hmem, hhas⟩ := (htarget.tables key path).mp hunder
        exact ⟨document, hfront document hmem, hhas⟩
    · intro ⟨document, hmem, hhas⟩
      rcases List.mem_append.mp hmem with hmem | hmem
      · exact .inr ((htarget.tables key path).mpr ⟨document, hmem, hhas⟩)
      · exact .inl ((hoverlay.tables key path).mpr ⟨document, hmem, hhas⟩)

end TableDocument
end Bootty.Base
