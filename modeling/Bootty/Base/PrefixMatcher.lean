import Mathlib.Data.List.Infix
import Mathlib.Order.Bounds.Defs

/-!
# Matching a pattern by its prefix length

A matcher keeps how long a prefix of the pattern the stream so far ends with. Where the first
symbol of the pattern occurs nowhere else in it, a mismatch can only restart the match, so the
matcher needs no table of borders: its state is the longest proper prefix that is a suffix.
-/

namespace Bootty.Base

section PrefixMatcher

variable {α : Type} [DecidableEq α] {pattern stream : List α} {first symbol : α} {n : ℕ}

/-- The prefix length after one more symbol, before a whole match is taken back to zero. -/
def advance (pattern : List α) (first : α) (n : ℕ) (symbol : α) : ℕ :=
  if pattern[n]? = some symbol then n + 1 else if symbol = first then 1 else 0

/-- `n` is the length of the longest proper prefix of the pattern that the stream ends with. -/
def IsPrefixLen (pattern stream : List α) (n : ℕ) : Prop :=
  IsGreatest {k | k < pattern.length ∧ pattern.take k <:+ stream} n

omit [DecidableEq α] in
/-- A longer prefix ends an extended stream when the shorter one ended it before. -/
theorem take_succ_suffix_concat (hn : n < pattern.length) :
    pattern.take (n + 1) <:+ stream ++ [symbol] ↔
      pattern.take n <:+ stream ∧ pattern[n]? = some symbol := by
  rw [List.take_succ_eq_append_getElem hn, List.getElem?_eq_getElem hn, Option.some.injEq]
  constructor
  · rintro ⟨before, h⟩
    rw [← List.append_assoc] at h
    have heq := List.append_inj' h rfl
    exact ⟨⟨before, heq.1⟩, (List.cons.inj heq.2).1⟩
  · rintro ⟨⟨before, h⟩, hsymbol⟩
    exact ⟨before, by rw [← List.append_assoc, h, hsymbol]⟩

omit [DecidableEq α] in
/-- No nonempty proper prefix ends the pattern's own prefix when its first symbol is unique. -/
theorem eq_zero_of_take_suffix_take {rest : List α} {k : ℕ} (hfirst : first ∉ rest)
    (hk : k < n) (hn : n ≤ (first :: rest).length)
    (h : (first :: rest).take k <:+ (first :: rest).take n) : k = 0 := by
  by_contra hpos
  have hstart : (first :: rest).take k = ((first :: rest).take n).drop (n - k) := by
    have hdrop := List.suffix_iff_eq_drop.mp h
    rw [List.length_take_of_le hn, List.length_take_of_le (by omega)] at hdrop
    exact hdrop
  have hget : ((first :: rest).take k)[0]? = some first := by
    rw [List.getElem?_take_of_lt (by omega), List.getElem?_cons_zero]
  rw [hstart, List.getElem?_drop, List.getElem?_take_of_lt (by omega),
    show n - k + 0 = n - k - 1 + 1 by omega, List.getElem?_cons_succ] at hget
  exact hfirst (List.mem_of_getElem? hget)

omit [DecidableEq α] in
/-- The empty stream ends with the empty prefix only. -/
theorem isPrefixLen_nil (hpattern : pattern ≠ []) : IsPrefixLen pattern [] 0 := by
  constructor
  · exact ⟨List.length_pos_of_ne_nil hpattern, by simp⟩
  · rintro k ⟨hk, hsuffix⟩
    have hlen := List.IsSuffix.length_le hsuffix
    rw [List.length_take_of_le hk.le] at hlen
    exact hlen

section Advance

variable {rest : List α}

/-- The advanced length is that of the longest prefix, the whole pattern included. -/
theorem isGreatest_advance (hfirst : first ∉ rest)
    (h : IsPrefixLen (first :: rest) stream n) (symbol : α) :
    IsGreatest {k | k ≤ (first :: rest).length ∧ (first :: rest).take k <:+ stream ++ [symbol]}
      (advance (first :: rest) first n symbol) := by
  have ⟨⟨hn, hsuffix⟩, hgreatest⟩ := h
  have hbefore : ∀ k, k + 1 ≤ (first :: rest).length →
      (first :: rest).take (k + 1) <:+ stream ++ [symbol] →
      k ≤ n ∧ (first :: rest).take k <:+ stream ∧ (first :: rest)[k]? = some symbol := by
    intro k hk htake
    have hcut := (take_succ_suffix_concat hk).mp htake
    exact ⟨hgreatest ⟨hk, hcut.1⟩, hcut⟩
  unfold advance
  split
  case isTrue hsymbol =>
    refine ⟨⟨hn, (take_succ_suffix_concat hn).mpr ⟨hsuffix, hsymbol⟩⟩, ?_⟩
    rintro (_ | k) ⟨hk, htake⟩
    · exact Nat.zero_le _
    · exact Nat.succ_le_succ (hbefore k hk htake).1
  case isFalse hmismatch =>
    have hrestart : ∀ k, k + 1 ≤ (first :: rest).length →
        (first :: rest).take (k + 1) <:+ stream ++ [symbol] → k = 0 ∧ first = symbol := by
      intro k hk htake
      have ⟨hle, hcut, hsymbol⟩ := hbefore k hk htake
      have hlt : k < n := by
        apply lt_of_le_of_ne hle
        rintro rfl
        exact hmismatch hsymbol
      have hshort : (first :: rest).take k <:+ (first :: rest).take n := by
        apply List.suffix_of_suffix_length_le hcut hsuffix
        rw [List.length_take_of_le hn.le, List.length_take_of_le (by omega)]
        exact hle
      have hzero := eq_zero_of_take_suffix_take hfirst hlt hn.le hshort
      rw [hzero, List.getElem?_cons_zero, Option.some.injEq] at hsymbol
      exact ⟨hzero, hsymbol⟩
    split
    case isTrue hsymbol =>
      constructor
      · exact ⟨by simp, by simp [hsymbol]⟩
      · rintro (_ | k) ⟨hk, htake⟩
        · exact Nat.zero_le _
        · rw [(hrestart k hk htake).1]
    case isFalse hother =>
      constructor
      · exact ⟨by simp, by simp⟩
      · rintro (_ | k) ⟨hk, htake⟩
        · exact le_rfl
        · exact absurd (hrestart k hk htake).2.symm hother

/-- The matcher completes exactly where the extended stream ends with the pattern. -/
theorem advance_eq_length_iff (hfirst : first ∉ rest)
    (h : IsPrefixLen (first :: rest) stream n) (symbol : α) :
    advance (first :: rest) first n symbol = (first :: rest).length ↔
      first :: rest <:+ stream ++ [symbol] := by
  have hgreatest := isGreatest_advance hfirst h symbol
  constructor
  · intro hfull
    have hsuffix := hgreatest.1.2
    rwa [hfull, List.take_length] at hsuffix
  · intro hsuffix
    apply le_antisymm hgreatest.1.1
    exact hgreatest.2 ⟨le_rfl, by rwa [List.take_length]⟩

/-- Short of a match, the advanced length is the state for the extended stream. -/
theorem IsPrefixLen.advance (hfirst : first ∉ rest)
    (h : IsPrefixLen (first :: rest) stream n)
    (hshort : advance (first :: rest) first n symbol ≠ (first :: rest).length) :
    IsPrefixLen (first :: rest) (stream ++ [symbol])
      (advance (first :: rest) first n symbol) := by
  have hgreatest := isGreatest_advance hfirst h symbol
  constructor
  · exact ⟨lt_of_le_of_ne hgreatest.1.1 hshort, hgreatest.1.2⟩
  · rintro k ⟨hk, htake⟩
    exact hgreatest.2 ⟨hk.le, htake⟩

omit [DecidableEq α] in
/-- After a match nothing of the pattern can be reused. -/
theorem isPrefixLen_zero_of_suffix (hfirst : first ∉ rest) (h : first :: rest <:+ stream) :
    IsPrefixLen (first :: rest) stream 0 := by
  constructor
  · exact ⟨by simp, by simp⟩
  · rintro k ⟨hk, htake⟩
    have hshort : (first :: rest).take k <:+ (first :: rest).take (first :: rest).length := by
      rw [List.take_length]
      apply List.suffix_of_suffix_length_le htake h
      rw [List.length_take_of_le hk.le]
      exact hk.le
    exact (eq_zero_of_take_suffix_take hfirst hk le_rfl hshort).le

end Advance
end PrefixMatcher
end Bootty.Base
