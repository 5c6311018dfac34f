import Mathlib.Data.List.Basic
import Mathlib.Data.List.Nodup
import Mathlib.Data.Set.Function
import Mathlib.Tactic.Common

/-!
# Keys that are kept

An item keeps the key it has in the table in use. Where it has none, it keeps the key of an
earlier table that is not in use, and where it has none there either, it gets a fresh key. Keys
are distinct where the fresh keys are, and an earlier table that lists the keys of some items
keeps them.
-/

namespace Bootty.Base

variable {κ ι : Type} [DecidableEq ι] {inUse earlier : List (κ × ι)} {item : ι} {key : κ}

/-- The first key of an item in a table of keys and items. -/
def keyOf (table : List (κ × ι)) (item : ι) : Option κ :=
  (table.find? fun entry ↦ entry.2 == item).map (·.1)

private theorem mem_of_keyOf (h : keyOf inUse item = some key) : (key, item) ∈ inUse := by
  have ⟨⟨found, other⟩, hfind, hkey⟩ := Option.map_eq_some_iff.mp h
  have hitem : other = item := by simpa using List.find?_some hfind
  cases hkey
  subst hitem
  exact List.mem_of_find?_eq_some hfind

private theorem keyOf_eq_none_iff : keyOf inUse item = none ↔ ∀ key, (key, item) ∉ inUse := by
  rw [keyOf, Option.map_eq_none_iff, List.find?_eq_none]
  constructor
  · intro h key hmem
    exact h (key, item) hmem (beq_self_eq_true item)
  · rintro h ⟨key, other⟩ hmem hitem
    obtain rfl : other = item := by simpa using hitem
    exact h key hmem

/-- The order of a table with one key for an item does not matter. -/
theorem keyOf_perm {table table' : List (κ × ι)} (h : table.Perm table')
    (hitems : (table.map (·.2)).Nodup) : keyOf table item = keyOf table' item := by
  cases hkey : keyOf table' item with
  | none =>
    rw [keyOf_eq_none_iff] at hkey ⊢
    exact fun key hmem ↦ hkey key (h.mem_iff.mp hmem)
  | some key =>
    have hmem : (key, item) ∈ table := h.mem_iff.mpr (mem_of_keyOf hkey)
    cases hother : keyOf table item with
    | none => exact absurd hmem (keyOf_eq_none_iff.mp hother key)
    | some other =>
      have heq := List.inj_on_of_nodup_map hitems (mem_of_keyOf hother) hmem rfl
      rw [(Prod.mk.inj heq).1]

variable [DecidableEq κ]

/-- The first key of an item in a table, of those that are not in use. -/
def unusedKeyOf (inUse table : List (κ × ι)) (item : ι) : Option κ :=
  (table.find? fun entry ↦ entry.2 == item && !inUse.any fun used ↦ used.1 == entry.1).map (·.1)

/-- The key of an item. -/
def keptKey (inUse earlier : List (κ × ι)) (fresh : ι → κ) (item : ι) : κ :=
  ((keyOf inUse item).or (unusedKeyOf inUse earlier item)).getD (fresh item)

/-- Neither table has a key for the item, but keys of the earlier one that are in use. -/
structure Unkept (inUse earlier : List (κ × ι)) (item : ι) : Prop where
  notInUse : ∀ key, (key, item) ∉ inUse
  onlyUsed : ∀ key, (key, item) ∈ earlier → key ∈ inUse.map (·.1)

private theorem mem_of_unusedKeyOf (h : unusedKeyOf inUse earlier item = some key) :
    (key, item) ∈ earlier ∧ key ∉ inUse.map (·.1) := by
  have ⟨⟨found, other⟩, hfind, hkey⟩ := Option.map_eq_some_iff.mp h
  have htest := List.find?_some hfind
  simp only [Bool.and_eq_true, beq_iff_eq, Bool.not_eq_true', List.any_eq_false] at htest
  have ⟨hitem, hunused⟩ := htest
  cases hkey
  subst hitem
  refine ⟨List.mem_of_find?_eq_some hfind, ?_⟩
  intro hmem
  have ⟨used, hused, hsame⟩ := List.mem_map.mp hmem
  exact hunused used hused hsame

private theorem unusedKeyOf_eq_none_iff :
    unusedKeyOf inUse earlier item = none ↔
      ∀ key, (key, item) ∈ earlier → key ∈ inUse.map (·.1) := by
  rw [unusedKeyOf, Option.map_eq_none_iff, List.find?_eq_none]
  constructor
  · intro h key hmem
    have htest := h (key, item) hmem
    simp only [beq_self_eq_true, Bool.true_and, Bool.not_eq_true', Bool.not_eq_false,
      List.any_eq_true, beq_iff_eq] at htest
    exact List.mem_map.mpr htest
  · rintro h ⟨key, other⟩ hmem htest
    simp only [Bool.and_eq_true, beq_iff_eq, Bool.not_eq_true', List.any_eq_false] at htest
    obtain ⟨rfl, hunused⟩ := htest
    have ⟨used, hused, hsame⟩ := List.mem_map.mp (h key hmem)
    exact hunused used hused hsame

/-- The three places a key comes from. -/
theorem keptKey_cases (inUse earlier : List (κ × ι)) (fresh : ι → κ) (item : ι) :
    (keptKey inUse earlier fresh item, item) ∈ inUse ∨
      (keptKey inUse earlier fresh item, item) ∈ earlier ∧
          keptKey inUse earlier fresh item ∉ inUse.map (·.1) ∨
      Unkept inUse earlier item ∧ keptKey inUse earlier fresh item = fresh item := by
  unfold keptKey
  cases hkey : keyOf inUse item with
  | some key => exact .inl (mem_of_keyOf hkey)
  | none =>
    rw [Option.none_or]
    cases hunused : unusedKeyOf inUse earlier item with
    | some key => exact .inr (.inl (mem_of_unusedKeyOf hunused))
    | none =>
      exact .inr (.inr ⟨⟨keyOf_eq_none_iff.mp hkey, unusedKeyOf_eq_none_iff.mp hunused⟩, rfl⟩)

variable {fresh : ι → κ}

/-- A key that is not kept is fresh. -/
theorem keptKey_of_unkept (h : Unkept inUse earlier item) :
    keptKey inUse earlier fresh item = fresh item := by
  rw [keptKey, keyOf_eq_none_iff.mpr h.notInUse, unusedKeyOf_eq_none_iff.mpr h.onlyUsed]
  rfl

/-- Keys are distinct where the tables do not repeat a key and the fresh keys are new. -/
theorem keptKey_injOn {items : Set ι} (hinUse : (inUse.map (·.1)).Nodup)
    (hearlier : (earlier.map (·.1)).Nodup) (hnew : ∀ item ∈ items, Unkept inUse earlier item →
      fresh item ∉ inUse.map (·.1) ∧ fresh item ∉ earlier.map (·.1))
    (hfresh : Set.InjOn fresh {item | item ∈ items ∧ Unkept inUse earlier item}) :
    Set.InjOn (keptKey inUse earlier fresh) items := by
  intro a ha b hb hkeys
  have hcasesA := keptKey_cases inUse earlier fresh a
  have hcasesB := keptKey_cases inUse earlier fresh b
  rw [hkeys] at hcasesA
  rcases hcasesA with hused | ⟨hlisted, hunused⟩ | ⟨hunkept, heq⟩
  · have hkey := List.mem_map_of_mem (f := fun entry : κ × ι ↦ entry.1) hused
    rcases hcasesB with hused' | ⟨hlisted', hunused'⟩ | ⟨hunkept', heq'⟩
    · exact (Prod.mk.inj (List.inj_on_of_nodup_map hinUse hused hused' rfl)).2
    · exact absurd hkey hunused'
    · exact absurd (heq' ▸ hkey) (hnew b hb hunkept').1
  · have hkey := List.mem_map_of_mem (f := fun entry : κ × ι ↦ entry.1) hlisted
    rcases hcasesB with hused' | ⟨hlisted', hunused'⟩ | ⟨hunkept', heq'⟩
    · exact absurd (List.mem_map_of_mem (f := fun entry : κ × ι ↦ entry.1) hused') hunused
    · exact (Prod.mk.inj (List.inj_on_of_nodup_map hearlier hlisted hlisted' rfl)).2
    · exact absurd (heq' ▸ hkey) (hnew b hb hunkept').2
  · have ⟨hnotUsed, hnotListed⟩ := hnew a ha hunkept
    rcases hcasesB with hused' | ⟨hlisted', hunused'⟩ | ⟨hunkept', heq'⟩
    · exact absurd (heq ▸ List.mem_map_of_mem (f := fun entry : κ × ι ↦ entry.1) hused') hnotUsed
    · exact absurd (heq ▸ List.mem_map_of_mem (f := fun entry : κ × ι ↦ entry.1) hlisted')
        hnotListed
    · exact hfresh ⟨ha, hunkept⟩ ⟨hb, hunkept'⟩ (heq.symm.trans heq')

/-- A later table that lists the keys of some items keeps them. -/
theorem keptKey_of_listed {inUse' later : List (κ × ι)} {fresh' : ι → κ}
    (hinUse : inUse'.Perm inUse) (hitems : (inUse.map (·.2)).Nodup)
    (hlater : ∀ entry ∈ later, entry.1 = keptKey inUse earlier fresh entry.2)
    (hlisted : item ∈ later.map (·.2))
    (hnew : Unkept inUse earlier item → fresh item ∉ inUse.map (·.1)) :
    keptKey inUse' later fresh' item = keptKey inUse earlier fresh item := by
  have hkeyOf : keyOf inUse' item = keyOf inUse item :=
    (keyOf_perm hinUse.symm hitems).symm
  rcases keptKey_cases inUse' later fresh' item with hused | ⟨hkept, _⟩ | ⟨hunkept, _⟩
  · cases hkey : keyOf inUse item with
    | none => exact absurd (hinUse.mem_iff.mp hused) (keyOf_eq_none_iff.mp hkey _)
    | some key =>
      rw [keptKey, keptKey, hkeyOf, hkey]
      rfl
  · exact hlater _ hkept
  · -- The item is listed, and its key is not in use for another.
    have ⟨entry, hentry, hitem⟩ := List.mem_map.mp hlisted
    have hentry' : (keptKey inUse earlier fresh item, item) ∈ later := by
      rw [← hitem, ← hlater entry hentry]
      exact hentry
    have hinUse'' := hunkept.onlyUsed _ hentry'
    rw [(hinUse.map (·.1)).mem_iff] at hinUse''
    rcases keptKey_cases inUse earlier fresh item with hused | ⟨_, hunused⟩ | ⟨hnone, heq⟩
    · exact absurd (hinUse.mem_iff.mpr hused) (hunkept.notInUse _)
    · exact absurd hinUse'' hunused
    · exact absurd (heq ▸ hinUse'') (hnew hnone)

/-- Two successive tables of the keys of some items agree on the items they share. -/
theorem eq_of_listed_keys {α α' : Type} {items : List α} {items' : List α'} {itemOf : α → ι}
    {itemOf' : α' → ι} {inUse' later : List (κ × ι)} {fresh' : ι → κ} {key' : κ}
    (hinUse : inUse'.Perm inUse) (hitems : (inUse.map (·.2)).Nodup)
    (hnew : ∀ item, fresh item ∉ inUse.map (·.1))
    (hlater : later = items.map fun x ↦ (keptKey inUse earlier fresh (itemOf x), itemOf x))
    (hmem : (key, item) ∈ later) (hmem' : (key', item) ∈
      items'.map fun x ↦ (keptKey inUse' later fresh' (itemOf' x), itemOf' x)) : key' = key := by
  have hkept : ∀ entry ∈ later, entry.1 = keptKey inUse earlier fresh entry.2 := by
    intro entry hentry
    rw [hlater] at hentry
    have ⟨_, _, heq⟩ := List.mem_map.mp hentry
    rw [← heq]
  have hlisted : item ∈ later.map (·.2) :=
    List.mem_map_of_mem (f := fun entry : κ × ι ↦ entry.2) hmem
  have ⟨_, _, heq⟩ := List.mem_map.mp hmem'
  have ⟨hkey', hitem⟩ := Prod.mk.inj heq
  calc key' = keptKey inUse' later fresh' item := by rw [← hkey', hitem]
    _ = keptKey inUse earlier fresh item :=
      keptKey_of_listed hinUse hitems hkept hlisted fun _ ↦ hnew item
    _ = key := (hkept _ hmem).symm

end Bootty.Base
