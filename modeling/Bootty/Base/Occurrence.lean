/-!
# Occurrences in a history

A history is the list of events so far. A property of an occurrence may look at the events
before it, so it is a predicate on a history and the event that follows it.
-/

namespace Bootty.Base

section Occurrence

variable {ε : Type} {p q : List ε → ε → Prop} {before mid history : List ε} {e : ε}

/-- Among the events `mid`, which follow `before`, one is in `p`. -/
def Occurs (p : List ε → ε → Prop) (before mid : List ε) : Prop :=
  ∃ init e rest, mid = init ++ e :: rest ∧ p (before ++ init) e

/-- Among the events `mid` one is in `p` and a later one in `q`. -/
def OccursThen (p q : List ε → ε → Prop) (before mid : List ε) : Prop :=
  ∃ init e rest, mid = init ++ e :: rest ∧ p (before ++ init) e ∧
    Occurs q (before ++ init ++ [e]) rest

/-- Something in `p` has occurred, and nothing in `q` since. -/
def Since (p q : List ε → ε → Prop) (history : List ε) : Prop :=
  ∃ before e after, history = before ++ e :: after ∧ p before e ∧
    ¬ Occurs q (before ++ [e]) after

@[simp] theorem not_occurs_nil : ¬ Occurs p before [] := by
  rintro ⟨init, e, rest, heq, -⟩
  simp at heq

@[simp] theorem not_occursThen_nil : ¬ OccursThen p q before [] := by
  rintro ⟨init, e, rest, heq, -⟩
  simp at heq

@[simp] theorem not_since_nil : ¬ Since p q [] := by
  rintro ⟨init, e, rest, heq, -⟩
  simp at heq

private theorem concat_eq_append_cons {init rest : List ε} {x : ε}
    (h : mid ++ [e] = init ++ x :: rest) :
    (mid = init ∧ e = x ∧ rest = []) ∨ ∃ rest', rest = rest' ++ [e] ∧ mid = init ++ x :: rest' := by
  cases hrest : rest.reverse with
  | nil =>
    obtain rfl := List.reverse_eq_nil_iff.mp hrest
    obtain ⟨rfl, heq⟩ := List.append_inj' h rfl
    exact .inl ⟨rfl, (List.cons.inj heq).1, rfl⟩
  | cons last others =>
    obtain rfl : rest = others.reverse ++ [last] := by
      rw [← List.reverse_reverse rest, hrest, List.reverse_cons]
    rw [← List.cons_append, ← List.append_assoc] at h
    obtain ⟨rfl, heq⟩ := List.append_inj' h rfl
    obtain rfl := (List.cons.inj heq).1
    exact .inr ⟨others.reverse, rfl, rfl⟩

/-- An event occurs in an extended part if it did before or is the new one. -/
theorem occurs_concat : Occurs p before (mid ++ [e]) ↔ Occurs p before mid ∨ p (before ++ mid) e := by
  constructor
  · rintro ⟨init, x, rest, heq, hp⟩
    obtain ⟨rfl, rfl, -⟩ | ⟨rest', -, rfl⟩ := concat_eq_append_cons heq
    · exact .inr hp
    · exact .inl ⟨init, x, rest', rfl, hp⟩
  · rintro (⟨init, x, rest, rfl, hp⟩ | hp)
    · exact ⟨init, x, rest ++ [e], by simp, hp⟩
    · exact ⟨mid, e, [], rfl, hp⟩

/-- An occurrence is older or the last one. -/
theorem occursThen_concat : OccursThen p q before (mid ++ [e]) ↔
    OccursThen p q before mid ∨ Occurs p before mid ∧ q (before ++ mid) e := by
  constructor
  · rintro ⟨init, x, rest, heq, hp, hq⟩
    obtain ⟨rfl, rfl, rfl⟩ | ⟨rest', rfl, rfl⟩ := concat_eq_append_cons heq
    · exact absurd hq not_occurs_nil
    · obtain hq | hq := occurs_concat.mp hq
      · exact .inl ⟨init, x, rest', rfl, hp, hq⟩
      · refine .inr ⟨⟨init, x, rest', rfl, hp⟩, ?_⟩
        simpa using hq
  · rintro (⟨init, x, rest, rfl, hp, hq⟩ | ⟨⟨init, x, rest, rfl, hp⟩, hq⟩)
    · exact ⟨init, x, rest ++ [e], by simp, hp, occurs_concat.mpr (.inl hq)⟩
    · refine ⟨init, x, rest ++ [e], by simp, hp, occurs_concat.mpr (.inr ?_)⟩
      simpa using hq

/-- It holds since, or from now on. -/
theorem since_concat : Since p q (history ++ [e]) ↔
    p history e ∨ Since p q history ∧ ¬ q history e := by
  constructor
  · rintro ⟨before, x, after, heq, hp, hq⟩
    obtain ⟨rfl, rfl, -⟩ | ⟨after', rfl, rfl⟩ := concat_eq_append_cons heq
    · exact .inl hp
    · rw [occurs_concat, not_or] at hq
      refine .inr ⟨⟨before, x, after', rfl, hp, hq.1⟩, ?_⟩
      simpa using hq.2
  · rintro (hp | ⟨⟨before, x, after, rfl, hp, hq⟩, hnot⟩)
    · exact ⟨history, e, [], rfl, hp, not_occurs_nil⟩
    · refine ⟨before, x, after ++ [e], by simp, hp, ?_⟩
      rw [occurs_concat, not_or]
      exact ⟨hq, by simpa using hnot⟩

end Occurrence
end Bootty.Base
