import Mathlib.Algebra.BigOperators.Group.List.Basic
import Mathlib.Algebra.Order.Group.Multiset
import Mathlib.Data.List.InsertIdx
import Mathlib.Data.List.Nodup
import Mathlib.Tactic.Abel

/-!
# List edits

Edits of one place of a list: the first element that satisfies a predicate, or the
element at an index. For each edit, what becomes of a sum over the list; with multisets
as values this is what becomes of the elements' contents.
-/

namespace Bootty.Base

/-- Edit the first element that satisfies the predicate: `iter_mut().find(..)`. -/
def modifyFirst {α : Type} (p : α → Bool) (f : α → α) : List α → List α
  | [] => []
  | x :: xs => if p x then f x :: xs else x :: modifyFirst p f xs

section FirstMatch

variable {α : Type} {p : α → Bool}

/-- An edit passes over the elements that do not match. -/
theorem modifyFirst_append_cons {before after : List α} {a : α} (hb : ∀ x ∈ before, p x = false)
    (ha : p a = true) (f : α → α) :
    modifyFirst p f (before ++ a :: after) = before ++ f a :: after := by
  induction before with
  | nil => simp [modifyFirst, ha]
  | cons x xs ih =>
    have hx : p x = false := hb x (by simp)
    rw [List.cons_append, modifyFirst, if_neg (by simp [hx]), ih fun y hy ↦ hb y (by simp [hy])]
    rfl

/-- A first match splits the list. -/
theorem exists_split_of_find? {l : List α} {a : α} (h : l.find? p = some a) :
    ∃ before after, l = before ++ a :: after ∧ (∀ x ∈ before, p x = false) ∧ p a = true := by
  obtain ⟨ha, before, after, rfl, hb⟩ := List.find?_eq_some_iff_append.mp h
  exact ⟨before, after, rfl, by simpa using hb, ha⟩

/-- Without a match nothing is edited. -/
theorem modifyFirst_of_find?_eq_none {l : List α} (h : l.find? p = none) (f : α → α) :
    modifyFirst p f l = l := by
  induction l with
  | nil => rfl
  | cons x xs ih =>
    rw [List.find?_eq_none] at h
    have hx : ¬p x = true := h x (by simp)
    rw [modifyFirst, if_neg hx, ih (by rw [List.find?_eq_none]; exact fun y hy ↦ h y (by simp [hy]))]

/-- The first match of a split list whose front does not match. -/
theorem find?_append_cons {before after : List α} {a : α} (hb : ∀ x ∈ before, p x = false)
    (ha : p a = true) : (before ++ a :: after).find? p = some a := by
  rw [List.find?_append, List.find?_eq_none.mpr (by simpa using hb), List.find?_cons_of_pos ha]
  rfl

theorem modifyFirst_const {l : List α} {a : α} (h : l.find? p = some a) (f : α → α) :
    modifyFirst p f l = modifyFirst p (fun _ ↦ f a) l := by
  obtain ⟨before, after, rfl, hb, ha⟩ := exists_split_of_find? h
  rw [modifyFirst_append_cons hb ha, modifyFirst_append_cons hb ha]

/-- An edited first match that still matches is the first match. -/
theorem find?_modifyFirst {l : List α} {a : α} {f : α → α} (h : l.find? p = some a)
    (hp : p (f a) = true) : (modifyFirst p f l).find? p = some (f a) := by
  obtain ⟨before, after, rfl, hb, ha⟩ := exists_split_of_find? h
  rw [modifyFirst_append_cons hb ha]
  exact find?_append_cons hb hp

/-- The later of two overwrites of the first match wins. -/
theorem modifyFirst_modifyFirst {l : List α} {a b : α} (h : l.find? p = some a)
    (hb : p b = true) (c : α) :
    modifyFirst p (fun _ ↦ c) (modifyFirst p (fun _ ↦ b) l) = modifyFirst p (fun _ ↦ c) l := by
  obtain ⟨before, after, rfl, hbefore, ha⟩ := exists_split_of_find? h
  rw [modifyFirst_append_cons hbefore ha, modifyFirst_append_cons hbefore hb,
    modifyFirst_append_cons hbefore ha]

end FirstMatch

variable {i : Nat} {β : Type}

section Positions

variable {α : Type}

/-- Two cuts of one list, the first not behind the second. -/
theorem exists_between_cuts {a b c d : List α} (h : a ++ b = c ++ d) (hle : a.length ≤ c.length) :
    ∃ mid, c = a ++ mid ∧ b = mid ++ d := by
  rcases List.append_eq_append_iff.mp h with ⟨mid, hc, hb⟩ | ⟨mid, ha, hd⟩
  · exact ⟨mid, hc, hb⟩
  · have hnil : mid = [] := by
      rw [ha, List.length_append] at hle
      exact List.eq_nil_of_length_eq_zero (by omega)
    subst hnil
    exact ⟨[], by simpa using ha.symm, by simpa using hd.symm⟩

/-- An index in range splits the list there. -/
theorem exists_split_of_getElem? {l : List α} {a : α} (h : l[i]? = some a) :
    ∃ before after, l = before ++ a :: after ∧ before.length = i := by
  obtain ⟨hi, rfl⟩ := List.getElem?_eq_some_iff.mp h
  exact ⟨l.take i, l.drop (i + 1), by rw [← List.drop_eq_getElem_cons hi, List.take_append_drop],
    by simp; omega⟩

@[simp] theorem set_split (before after : List α) (a b : α) :
    (before ++ a :: after).set before.length b = before ++ b :: after := by
  rw [List.set_append_right _ _ (Nat.le_refl _), Nat.sub_self, List.set_cons_zero]

@[simp] theorem eraseIdx_split (before after : List α) (a : α) :
    (before ++ a :: after).eraseIdx before.length = before ++ after := by
  rw [List.eraseIdx_append_of_length_le (Nat.le_refl _), Nat.sub_self, List.eraseIdx_cons_zero]

@[simp] theorem insertIdx_split (before after : List α) (a : α) :
    (before ++ after).insertIdx before.length a = before ++ a :: after := by
  induction before with
  | nil => rfl
  | cons b before ih => rw [List.cons_append, List.length_cons, List.insertIdx_succ_cons, ih]; rfl

/-- A found index holds an element that satisfies the predicate. -/
theorem getElem?_of_findIdx? {p : α → Bool} {l : List α} (h : l.findIdx? p = some i) :
    ∃ a, l[i]? = some a ∧ p a = true := by
  obtain ⟨hi, hp, -⟩ := List.findIdx?_eq_some_iff_getElem.mp h
  exact ⟨l[i], List.getElem?_eq_getElem hi, hp⟩

/-- An image other than the erased one stays. -/
theorem mem_map_eraseIdx {l : List α} {a : α} {f : α → β} {b : β} (h : l[i]? = some a)
    (hb : b ∈ l.map f) (hne : f a ≠ b) : b ∈ (l.eraseIdx i).map f := by
  obtain ⟨before, after, rfl, rfl⟩ := exists_split_of_getElem? h
  simp only [List.map_append, List.map_cons, List.mem_append, List.mem_cons] at hb
  simp only [eraseIdx_split, List.map_append, List.mem_append]
  exact hb.imp_right fun hb ↦ hb.resolve_left fun he ↦ hne he.symm

/-- An image other than the overwritten one stays. -/
theorem mem_map_set {l : List α} {a c : α} {f : α → β} {b : β} (h : l[i]? = some a)
    (hb : b ∈ l.map f) (hne : f a ≠ b) : b ∈ (l.set i c).map f := by
  obtain ⟨before, after, rfl, rfl⟩ := exists_split_of_getElem? h
  simp only [List.map_append, List.map_cons, List.mem_append, List.mem_cons] at hb
  simp only [set_split, List.map_append, List.map_cons, List.mem_append, List.mem_cons]
  exact hb.imp_right fun hb ↦ .inr (hb.resolve_left fun he ↦ hne he.symm)

/-- Moving one element to another place permutes the list. -/
theorem perm_insertIdx_eraseIdx {l : List α} {j : Nat} {a : α} (h : l[i]? = some a)
    (hj : j ≤ l.length - 1) : ((l.eraseIdx i).insertIdx j a).Perm l := by
  obtain ⟨before, after, rfl, rfl⟩ := exists_split_of_getElem? h
  rw [eraseIdx_split]
  refine (List.perm_insertIdx a _ (by simpa using hj)).trans ?_
  exact List.perm_middle.symm

end Positions

/-! ### Sums over an edited list -/

section Sums

variable {α M : Type} [AddCommMonoid M]

/-- A sum when one element is replaced. -/
theorem sum_map_set {l : List α} {a : α} (h : l[i]? = some a) (b : α) (f : α → M) :
    ((l.set i b).map f).sum + f a = (l.map f).sum + f b := by
  obtain ⟨before, after, rfl, rfl⟩ := exists_split_of_getElem? h
  simp only [set_split, List.map_append, List.map_cons, List.sum_append, List.sum_cons]
  abel

/-- A sum when one element is removed. -/
theorem sum_map_eraseIdx {l : List α} {a : α} (h : l[i]? = some a) (f : α → M) :
    ((l.eraseIdx i).map f).sum + f a = (l.map f).sum := by
  obtain ⟨before, after, rfl, rfl⟩ := exists_split_of_getElem? h
  simp only [eraseIdx_split, List.map_append, List.map_cons, List.sum_append, List.sum_cons]
  abel

/-- A sum contains the value of each element. -/
theorem exists_sum_map_of_mem {l : List α} {a : α} (h : a ∈ l) (f : α → M) :
    ∃ rest, (l.map f).sum = f a + rest := by
  obtain ⟨i, hi⟩ := List.getElem?_of_mem h
  exact ⟨_, by rw [← sum_map_eraseIdx hi f, add_comm]⟩

/-- A sum when one element is changed. -/
theorem sum_map_modifyFirst {p : α → Bool} {l : List α} {a : α} (h : l.find? p = some a)
    (g : α → α) (f : α → M) :
    ((modifyFirst p g l).map f).sum + f a = (l.map f).sum + f (g a) := by
  obtain ⟨before, after, rfl, hb, ha⟩ := exists_split_of_find? h
  simp only [modifyFirst_append_cons hb ha, List.map_append, List.map_cons, List.sum_append, List.sum_cons]
  abel

theorem sum_map_flatMap (l : List β) (f : β → List α) (g : α → M) :
    ((l.flatMap f).map g).sum = (l.map fun b ↦ ((f b).map g).sum).sum := by
  induction l with
  | nil => rfl
  | cons b l ih =>
    rw [List.flatMap_cons, List.map_append, List.sum_append, ih, List.map_cons, List.sum_cons]

/-- Contents that are distinct over a whole list belong to one element each. -/
theorem eq_of_mem_of_nodup_sum {l : List α} {f : α → Multiset β} (hn : (l.map f).sum.Nodup)
    {a b : α} (ha : a ∈ l) (hb : b ∈ l) {x : β} (hxa : x ∈ f a) (hxb : x ∈ f b) : a = b := by
  induction l with
  | nil => simp at ha
  | cons c l ih =>
    rw [List.map_cons, List.sum_cons, Multiset.nodup_add] at hn
    obtain ⟨-, hrest, hdisjoint⟩ := hn
    have hnot : ∀ d ∈ l, x ∈ f c → x ∉ f d := by
      intro d hd hxc hxd
      obtain ⟨rest, he⟩ := exists_sum_map_of_mem hd f
      exact Multiset.disjoint_left.mp hdisjoint hxc
        (by rw [he]; exact Multiset.mem_add.mpr (.inl hxd))
    rcases List.mem_cons.mp ha with hac | ha <;> rcases List.mem_cons.mp hb with hbc | hb
    · rw [hac, hbc]
    · exact absurd hxb (hnot b hb (hac ▸ hxa))
    · exact absurd hxa (hnot a ha (hbc ▸ hxb))
    · exact ih hrest ha hb

theorem coe_flatMap (l : List β) (f : β → List α) :
    ((l.flatMap f : List α) : Multiset α) = (l.map fun b ↦ (f b : Multiset α)).sum := by
  induction l with
  | nil => rfl
  | cons b l ih => rw [List.flatMap_cons, ← Multiset.coe_add, ih, List.map_cons, List.sum_cons]

/-- A multiset when one element is removed. -/
theorem coe_eraseIdx {l : List α} {a : α} (h : l[i]? = some a) :
    ((l.eraseIdx i : List α) : Multiset α) + {a} = l := by
  obtain ⟨before, after, rfl, rfl⟩ := exists_split_of_getElem? h
  rw [eraseIdx_split]
  simp only [← Multiset.coe_add, ← Multiset.cons_coe, ← Multiset.singleton_add]
  abel

/-- A multiset when one element is replaced. -/
theorem coe_set {l : List α} {a : α} (h : l[i]? = some a) (b : α) :
    ((l.set i b : List α) : Multiset α) + {a} = l + {b} := by
  obtain ⟨before, after, rfl, rfl⟩ := exists_split_of_getElem? h
  rw [set_split]
  simp only [← Multiset.coe_add, ← Multiset.cons_coe, ← Multiset.singleton_add]
  abel

/-- Dropping elements of zero value does not change the sum. -/
theorem sum_map_filter {l : List α} {p : α → Bool} {f : α → M}
    (h : ∀ x ∈ l, p x = false → f x = 0) : ((l.filter p).map f).sum = (l.map f).sum := by
  induction l with
  | nil => rfl
  | cons x xs ih =>
    have ih := ih fun y hy ↦ h y (by simp [hy])
    cases hx : p x with
    | true => rw [List.filter_cons_of_pos hx, List.map_cons, List.sum_cons, ih, List.map_cons,
        List.sum_cons]
    | false =>
      rw [List.filter_cons_of_neg (by simp [hx]), ih, List.map_cons, List.sum_cons,
        h x (by simp) hx, zero_add]

end Sums

/-- Editing the first match without touching an observation keeps the observed list. -/
theorem map_modifyFirst {α : Type} {p : α → Bool} {g : α → α} {f : α → β} (h : ∀ x, f (g x) = f x)
    (l : List α) : (modifyFirst p g l).map f = l.map f := by
  induction l with
  | nil => rfl
  | cons x xs ih =>
    rw [modifyFirst]
    split
    · simp [h]
    · simp [ih]

/-- With unique keys the first match is the only one. -/
theorem modifyFirst_key {α : Type} [DecidableEq β] {key : α → β} {l : List α}
    (h : (l.map key).Nodup) (k : β) (f : α → α) :
    modifyFirst (fun x ↦ key x == k) f l = l.map fun x ↦ if key x = k then f x else x := by
  induction l with
  | nil => rfl
  | cons x xs ih =>
    obtain ⟨hfresh, hnodup⟩ := List.nodup_cons.mp h
    rw [modifyFirst, List.map_cons]
    by_cases hx : key x = k
    · have hrest : (xs.map fun y ↦ if key y = k then f y else y) = xs := by
        conv_rhs => rw [← List.map_id xs]
        apply List.map_congr_left
        intro y hy
        rw [if_neg, id]
        rintro rfl
        exact hfresh (List.mem_map.mpr ⟨y, hy, hx.symm⟩)
      rw [if_pos (beq_iff_eq.mpr hx), if_pos hx, hrest]
    · rw [if_neg (by simpa using hx), if_neg hx, ih hnodup]

/-- With unique keys every element is the first with its key. -/
theorem find?_key {α : Type} [DecidableEq β] {key : α → β} {l : List α} (h : (l.map key).Nodup)
    {a : α} (ha : a ∈ l) : l.find? (fun x ↦ key x == key a) = some a := by
  have ⟨before, after, hsplit⟩ := List.append_of_mem ha
  subst hsplit
  rw [List.map_append, List.map_cons] at h
  apply find?_append_cons
  · intro x hx
    simp only [beq_eq_false_iff_ne]
    exact (List.nodup_append.mp h).2.2 (key x) (List.mem_map_of_mem hx) (key a) (by simp)
  · simp

/-- An element of an edited list is an old element or the edited first match. -/
theorem mem_modifyFirst {α : Type} {p : α → Bool} {g : α → α} {l : List α} {x : α}
    (h : x ∈ modifyFirst p g l) : x ∈ l ∨ ∃ y ∈ l, p y = true ∧ x = g y := by
  induction l with
  | nil => simp [modifyFirst] at h
  | cons y ys ih =>
    rw [modifyFirst] at h
    split at h
    · next hp =>
      rcases List.mem_cons.mp h with rfl | h
      · exact .inr ⟨y, by simp, hp, rfl⟩
      · exact .inl (by simp [h])
    · rcases List.mem_cons.mp h with rfl | h
      · exact .inl (by simp)
      · exact (ih h).imp (fun hm ↦ by simp [hm]) (fun ⟨z, hz, hpz, he⟩ ↦ ⟨z, by simp [hz], hpz, he⟩)

/-- Edits of single positions, each chosen by its input, are edits of every position by the
inputs that choose it. -/
theorem foldl_modify {α : Type} (f : α → β → α) (position : β → Nat) (inputs : List β) (l : List α)
    :
    inputs.foldl (fun l b ↦ l.modify (position b) fun a ↦ f a b) l =
      l.mapIdx fun i a ↦ (inputs.filter (position · == i)).foldl f a := by
  induction inputs generalizing l with
  | nil =>
    apply List.ext_getElem?
    intro i
    simp
  | cons b inputs ih =>
    rw [List.foldl_cons, ih]
    apply List.ext_getElem?
    intro i
    rw [List.getElem?_mapIdx, List.getElem?_mapIdx, List.getElem?_modify]
    by_cases hi : position b = i
    · simp [hi, Function.comp_def]
    · simp [hi]

/-- With distinct keys a lookup finds the entry of its key. -/
theorem lookup_of_mem {α : Type} [DecidableEq α] {table : List (α × β)} {key : α} {value : β}
    (hn : (table.map Prod.fst).Nodup) (h : (key, value) ∈ table) :
    table.lookup key = some value := by
  induction table with
  | nil => cases h
  | cons entry table ih =>
    obtain ⟨hhead, htail⟩ := List.nodup_cons.mp hn
    rw [List.lookup_cons]
    rcases List.mem_cons.mp h with rfl | hmem
    · simp
    · have hne : key ≠ entry.1 := by
        intro heq
        exact hhead (List.mem_map.mpr ⟨(key, value), hmem, heq⟩)
      rw [beq_eq_false_iff_ne.mpr hne]
      exact ih htail hmem

end Bootty.Base
