import Mathlib.Order.Lattice
import Mathlib.Order.Defs.LinearOrder

/-!
# Spans in an order

A span runs from an element of a linear order to another, both included. A list of spans is in
order if neither their beginnings nor their ends go back, while spans may overlap. A step from a
position goes to the nearest span on one side that does not contain the position, and around the
end of the list where there is none.
-/

namespace Bootty.Base

/-- From one element of an order to another. -/
structure Span (α : Type) where
  first : α
  last : α
  deriving DecidableEq, Repr

namespace Span

variable {α : Type} [LinearOrder α]

/-- The element lies in the span. -/
def contains (span : Span α) (x : α) : Bool := !decide (x < span.first) && !decide (span.last < x)

variable {x : α}

private theorem contains_eq_false {span : Span α} :
    span.contains x = false ↔ x < span.first ∨ span.last < x := by
  simp [contains, imp_iff_not_or]

/-- Spans that are not empty, of which none begins or ends before one before it. -/
structure Ordered (spans : List (Span α)) : Prop where
  nonempty : ∀ span ∈ spans, span.first ≤ span.last
  sorted : spans.Pairwise fun span later ↦ span.first ≤ later.first ∧ span.last ≤ later.last

/-- The first span behind `x` that does not contain it, and around the end. -/
def stepForward (spans : List (Span α)) (x : α) : Option (Span α) :=
  (spans.find? fun span ↦ !span.contains x && decide (x < span.first)).or
    ((spans.find? fun span ↦ !span.contains x).or spans.head?)

/-- The last span before `x` that does not contain it, and around the beginning. -/
def stepBack (spans : List (Span α)) (x : α) : Option (Span α) :=
  (spans.reverse.find? fun span ↦ !span.contains x && decide (span.first < x)).or
    ((spans.reverse.find? fun span ↦ !span.contains x).or spans.getLast?)

variable {spans : List (Span α)}

private theorem Ordered.le (h : Ordered spans) {i j : Nat} {span later : Span α} (hij : i ≤ j)
    (hspan : spans[i]? = some span) (hlater : spans[j]? = some later) :
    span.first ≤ later.first ∧ span.last ≤ later.last := by
  by_cases heq : i = j
  · rw [heq, hlater, Option.some.injEq] at hspan
    rw [hspan]
    exact ⟨le_refl _, le_refl _⟩
  · have ⟨hi, hspan'⟩ := List.getElem?_eq_some_iff.mp hspan
    have ⟨hj, hlater'⟩ := List.getElem?_eq_some_iff.mp hlater
    rw [← hspan', ← hlater']
    exact List.pairwise_iff_getElem.mp h.sorted i j hi hj (by omega)

omit [LinearOrder α] in
private theorem find?_eq_some {p : Span α → Bool} {found : Span α}
    (h : spans.find? p = some found) :
    p found = true ∧ ∃ j : Nat, spans[j]? = some found ∧
      ∀ (i : Nat) (span : Span α), i < j → spans[i]? = some span → p span = false := by
  have ⟨hp, j, hj, hfound, hfirst⟩ := List.find?_eq_some_iff_getElem.mp h
  refine ⟨hp, j, by rw [List.getElem?_eq_getElem hj, hfound], ?_⟩
  intro i span hij hspan
  have ⟨hi, hspan'⟩ := List.getElem?_eq_some_iff.mp hspan
  rw [← hspan']
  simpa using hfirst i hij

omit [LinearOrder α] in
private theorem reverse_find?_eq_some {p : Span α → Bool} {found : Span α}
    (h : spans.reverse.find? p = some found) :
    p found = true ∧ ∃ j : Nat, spans[j]? = some found ∧
      ∀ (i : Nat) (span : Span α), j < i → spans[i]? = some span → p span = false := by
  have ⟨hp, j, hj, hlast⟩ := find?_eq_some h
  have hlen := (List.getElem?_eq_some_iff.mp hj).1
  rw [List.length_reverse] at hlen
  rw [List.getElem?_reverse hlen] at hj
  refine ⟨hp, spans.length - 1 - j, hj, ?_⟩
  intro i span hij hspan
  have hi := (List.getElem?_eq_some_iff.mp hspan).1
  apply hlast (spans.length - 1 - i) span (by omega)
  rw [List.getElem?_reverse (by omega), show spans.length - 1 - (spans.length - 1 - i) = i by omega]
  exact hspan

variable {i : Nat} {span : Span α}

/-- From the last beginning on, a step forward goes to the first span. -/
theorem stepForward_of_le (h : Ordered spans) (hle : ∀ other ∈ spans, other.first ≤ x) :
    stepForward spans x = spans.head? := by
  have hnone : (spans.find? fun other ↦
      !other.contains x && decide (x < other.first)) = none := by
    rw [List.find?_eq_none]
    intro other hmem
    simp [not_lt.mpr (hle other hmem)]
  rw [stepForward, hnone, Option.none_or]
  cases hfind : spans.find? fun other ↦ !other.contains x with
  | none => rfl
  | some found =>
    have ⟨houtside, j, hj, hfirst⟩ := find?_eq_some hfind
    have hmem := List.mem_of_getElem? hj
    have hlast : found.last < x := by
      have hside := contains_eq_false.mp (by simpa using houtside)
      exact hside.resolve_left (not_lt.mpr (hle found hmem))
    cases hspans : spans with
    | nil => rw [hspans] at hmem; cases hmem
    | cons head rest =>
      have hhead : spans[0]? = some head := by rw [hspans]; rfl
      by_cases hzero : j = 0
      · rw [hzero, hhead] at hj
        rw [← hj]
        rfl
      · have hcontained := hfirst 0 head (by omega) hhead
        have hbefore := lt_of_le_of_lt (h.le (Nat.zero_le j) hhead hj).2 hlast
        rw [Bool.not_eq_false', contains, Bool.and_eq_true, Bool.not_eq_true',
          Bool.not_eq_true', decide_eq_false_iff_not, decide_eq_false_iff_not] at hcontained
        exact absurd hbefore hcontained.2

/-- A step forward from the beginning of a span goes to the next one exactly if that begins later,
or there is none that does and the next one is like the first. -/
theorem stepForward_iff (h : Ordered spans) (hspan : spans[i]? = some span) :
    stepForward spans span.first = spans[(i + 1) % spans.length]? ↔
      i + 1 = spans.length ∨ ∃ next, spans[i + 1]? = some next ∧
        (span.first < next.first ∨
          (∀ other ∈ spans, other.first ≤ span.first) ∧ spans.head? = some next) := by
  have hi := (List.getElem?_eq_some_iff.mp hspan).1
  by_cases hle : ∀ other ∈ spans, other.first ≤ span.first
  · rw [stepForward_of_le h hle]
    by_cases hend : i + 1 = spans.length
    · simp [hend, List.head?_eq_getElem?]
    · have hnext := List.getElem?_eq_getElem (l := spans) (i := i + 1) (by omega)
      have hnot := hle _ (List.mem_of_getElem? hnext)
      rw [Nat.mod_eq_of_lt (by omega), hnext]
      constructor
      · exact fun hhead ↦ .inr ⟨_, rfl, .inr ⟨hle, hhead⟩⟩
      · rintro (hfalse | ⟨next, hnext', hlt | ⟨_, hhead⟩⟩)
        · exact absurd hfalse hend
        · rw [← Option.some.inj hnext'] at hlt
          exact absurd hlt (not_lt.mpr hnot)
        · rw [hhead, hnext']
  · have ⟨later, hlater, hlt⟩ : ∃ later ∈ spans, span.first < later.first := by
      simpa using hle
    cases hfind : spans.find? fun other ↦
        !other.contains span.first && decide (span.first < other.first) with
    | none =>
      have hnot := List.find?_eq_none.mp hfind later hlater
      have hout := contains_eq_false.mpr (Or.inl hlt)
      simp [hout, hlt] at hnot
    | some found =>
      have ⟨hp, j, hj, hfirst⟩ := find?_eq_some hfind
      have hfound : span.first < found.first := by
        rw [Bool.and_eq_true, decide_eq_true_eq] at hp
        exact hp.2
      have hij : i < j := by
        by_contra hji
        exact absurd hfound (not_lt.mpr (h.le (by omega) hj hspan).1)
      have hlen := (List.getElem?_eq_some_iff.mp hj).1
      have hnext := List.getElem?_eq_getElem (l := spans) (i := i + 1) (by omega)
      rw [stepForward, hfind, Option.some_or, Nat.mod_eq_of_lt (by omega), hnext]
      constructor
      · intro heq
        rw [Option.some.inj heq] at hfound
        exact .inr ⟨_, rfl, .inl hfound⟩
      · rintro (hend | ⟨next, hnext', hlt' | ⟨hle', _⟩⟩)
        · omega
        · by_cases hsame : j = i + 1
          · rw [hsame, hnext] at hj
            exact hj.symm
          · have hskipped := hfirst (i + 1) next (by omega) (by rw [hnext, hnext'])
            have hout := contains_eq_false.mpr (Or.inl hlt')
            simp [hout, hlt'] at hskipped
        · exact absurd hlt (not_lt.mpr (hle' later hlater))

/-- Up to the first end, a step back goes to the last span. -/
theorem stepBack_of_le (h : Ordered spans) (hle : ∀ other ∈ spans, x ≤ other.last) :
    stepBack spans x = spans.getLast? := by
  have hnone : (spans.reverse.find? fun other ↦
      !other.contains x && decide (other.first < x)) = none := by
    rw [List.find?_eq_none]
    intro other hmem
    rw [Bool.and_eq_true, decide_eq_true_eq, Bool.not_eq_true', contains_eq_false]
    rintro ⟨hbefore | hbehind, hfirst⟩
    · exact absurd hfirst (not_lt.mpr (le_of_lt hbefore))
    · exact absurd hbehind (not_lt.mpr (hle other (List.mem_reverse.mp hmem)))
  rw [stepBack, hnone, Option.none_or]
  cases hfind : spans.reverse.find? fun other ↦ !other.contains x with
  | none => rfl
  | some found =>
    have ⟨houtside, j, hj, hlast⟩ := reverse_find?_eq_some hfind
    have hlen := (List.getElem?_eq_some_iff.mp hj).1
    have hbefore : x < found.first := by
      have hside := contains_eq_false.mp (by simpa using houtside)
      exact hside.resolve_right (not_lt.mpr (hle found (List.mem_of_getElem? hj)))
    rw [List.getLast?_eq_getElem?, Option.some_or]
    by_cases hend : j = spans.length - 1
    · rw [← hend, hj]
    · have hgetLast := List.getElem?_eq_getElem (l := spans) (i := spans.length - 1) (by omega)
      have hcontained := hlast _ _ (by omega) hgetLast
      have hlater := lt_of_lt_of_le hbefore (h.le (by omega) hj hgetLast).1
      rw [Bool.not_eq_false', contains, Bool.and_eq_true, Bool.not_eq_true',
        Bool.not_eq_true', decide_eq_false_iff_not, decide_eq_false_iff_not] at hcontained
      exact absurd hlater hcontained.1

/-- A step back from the beginning of a span goes to the one before it exactly if that ends before,
or there is none that does and the one before is like the last. -/
theorem stepBack_iff (h : Ordered spans) (hspan : spans[i]? = some span) :
    stepBack spans span.first = spans[(i + spans.length - 1) % spans.length]? ↔
      i = 0 ∨ ∃ previous, spans[i - 1]? = some previous ∧
        (previous.last < span.first ∨
          (∀ other ∈ spans, span.first ≤ other.last) ∧ spans.getLast? = some previous) := by
  have hi := (List.getElem?_eq_some_iff.mp hspan).1
  by_cases hle : ∀ other ∈ spans, span.first ≤ other.last
  · rw [stepBack_of_le h hle]
    by_cases hzero : i = 0
    · rw [hzero, Nat.zero_add, Nat.mod_eq_of_lt (by omega), List.getLast?_eq_getElem?]
      simp
    · have hprevious := List.getElem?_eq_getElem (l := spans) (i := i - 1) (by omega)
      have hnot := hle _ (List.mem_of_getElem? hprevious)
      rw [show i + spans.length - 1 = i - 1 + spans.length by omega, Nat.add_mod_right,
        Nat.mod_eq_of_lt (by omega), hprevious]
      constructor
      · exact fun hlast ↦ .inr ⟨_, rfl, .inr ⟨hle, hlast⟩⟩
      · rintro (hfalse | ⟨previous, hprevious', hlt | ⟨_, hlast⟩⟩)
        · exact absurd hfalse hzero
        · rw [← Option.some.inj hprevious'] at hlt
          exact absurd hlt (not_lt.mpr hnot)
        · rw [hlast, hprevious']
  · have ⟨before, hbefore, hlt⟩ : ∃ before ∈ spans, before.last < span.first := by
      simpa using hle
    have hp {other : Span α} (hmem : other ∈ spans) (hother : other.last < span.first) :
        (!other.contains span.first && decide (other.first < span.first)) = true := by
      have hfirst := lt_of_le_of_lt (h.nonempty other hmem) hother
      have hout := contains_eq_false.mpr (Or.inr hother)
      simp [hout, hfirst]
    cases hfind : spans.reverse.find? fun other ↦
        !other.contains span.first && decide (other.first < span.first) with
    | none =>
      have hnot := List.find?_eq_none.mp hfind before (List.mem_reverse.mpr hbefore)
      exact absurd (hp hbefore hlt) hnot
    | some found =>
      have ⟨hfoundp, j, hj, hlast⟩ := reverse_find?_eq_some hfind
      have hfound : found.last < span.first := by
        rw [Bool.and_eq_true, decide_eq_true_eq, Bool.not_eq_true', contains_eq_false] at hfoundp
        exact hfoundp.1.resolve_left (not_lt.mpr (le_of_lt hfoundp.2))
      have hji : j < i := by
        by_contra hij
        have hstart := (h.le (by omega) hspan hj).1
        have hend := h.nonempty found (List.mem_of_getElem? hj)
        exact absurd hfound (not_lt.mpr (le_trans hstart hend))
      have hprevious := List.getElem?_eq_getElem (l := spans) (i := i - 1) (by omega)
      rw [stepBack, hfind, Option.some_or,
        show i + spans.length - 1 = i - 1 + spans.length by omega,
        Nat.add_mod_right, Nat.mod_eq_of_lt (by omega), hprevious]
      constructor
      · intro heq
        rw [Option.some.inj heq] at hfound
        exact .inr ⟨_, rfl, .inl hfound⟩
      · rintro (hzero | ⟨previous, hprevious', hlt' | ⟨hle', _⟩⟩)
        · omega
        · by_cases hsame : j = i - 1
          · rw [hsame, hprevious] at hj
            exact hj.symm
          · have hmem := List.mem_of_getElem? (hprevious.trans hprevious')
            have hskipped := hlast (i - 1) previous (by omega) (by rw [hprevious, hprevious'])
            rw [hp hmem hlt'] at hskipped
            cases hskipped
        · exact absurd hlt (not_lt.mpr (hle' before hbefore))

end Span
end Bootty.Base
