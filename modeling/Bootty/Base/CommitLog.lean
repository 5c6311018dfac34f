import Mathlib.Logic.Function.Basic

/-!
# Logs that are delivered out of order

A log holds the values committed at its places, in their order. A copy receives the values in
any order and judges by a time alone whether one is outdated: it keeps what it shows only
where that is later. `Newest` says which value is current among some of the places, and the
lemmas follow it through commits and deliveries.
-/

namespace Bootty.Base

section CommitLog

variable {σ : Type}

/-- The value of the last of the places `p` that the log has, or `base` where it has none. -/
def Newest (base : Option σ) (log : Nat → Option σ) (p : Nat → Prop) (value : Option σ) : Prop :=
  (value = base ∧ ∀ k, p k → log k = none) ∨
    ∃ j c, p j ∧ log j = some c ∧ value = some c ∧ ∀ k, p k → (log k).isSome → k ≤ j

/-- Times do not decrease along the log, and its base is not later than any entry. -/
structure OrderedLog (time : σ → Int) (base : Option σ) (log : Nat → Option σ) : Prop where
  entries : ∀ j k c d, j ≤ k → log j = some c → log k = some d → time c ≤ time d
  base : ∀ old k c, base = some old → log k = some c → time old ≤ time c

variable {time : σ → Int} {base value value' : Option σ} {log log' : Nat → Option σ}
  {p q : Nat → Prop}

/-- Two views of the same entries show the same value. -/
theorem Newest.unique (h : Newest base log p value) (h' : Newest base log q value')
    (hsame : ∀ k, (log k).isSome → (p k ↔ q k)) : value = value' := by
  have hsome {k : Nat} {c : σ} (hk : log k = some c) : (log k).isSome := by simp [hk]
  rcases h with ⟨rfl, hnone⟩ | ⟨j, c, hpj, hj, rfl, hlast⟩
  · rcases h' with ⟨rfl, -⟩ | ⟨k, d, hqk, hk, rfl, -⟩
    · rfl
    · have hempty := hnone k ((hsame k (hsome hk)).mpr hqk)
      rw [hk] at hempty
      cases hempty
  · rcases h' with ⟨rfl, hnone⟩ | ⟨k, d, hqk, hk, rfl, hlast'⟩
    · have hempty := hnone j ((hsame j (hsome hj)).mp hpj)
      rw [hj] at hempty
      cases hempty
    · have hle := hlast k ((hsame k (hsome hk)).mpr hqk) (hsome hk)
      have hge := hlast' j ((hsame j (hsome hj)).mp hpj) (hsome hj)
      obtain rfl : j = k := Nat.le_antisymm hge hle
      rw [← hj, ← hk]

/-- Only the entries at the places count. -/
theorem Newest.transfer (h : Newest base log p value)
    (hkept : ∀ k c, p k → log k = some c → q k ∧ log' k = some c)
    (hnew : ∀ k c, q k → log' k = some c → p k ∧ log k = some c) :
    Newest base log' q value := by
  rcases h with ⟨hbase, hnone⟩ | ⟨j, c, hpj, hj, hvalue, hlast⟩
  · left
    refine ⟨hbase, fun k hk ↦ ?_⟩
    cases hlog : log' k with
    | none => rfl
    | some c =>
      obtain ⟨hp, hentry⟩ := hnew k c hk hlog
      rw [hnone k hp] at hentry
      cases hentry
  · right
    obtain ⟨hqj, hj'⟩ := hkept j c hpj hj
    refine ⟨j, c, hqj, hj', hvalue, ?_⟩
    intro k hk hsome
    obtain ⟨d, hlog⟩ := Option.isSome_iff_exists.mp hsome
    obtain ⟨hp, hentry⟩ := hnew k d hk hlog
    exact hlast k hp (by simp [hentry])

variable {c : σ}

/-- The entry committed last is the newest of all. -/
theorem newest_commit {n : Nat} (hn : log n = some c) (hend : ∀ k, n < k → log k = none) :
    Newest base log (fun _ ↦ True) (some c) := by
  refine .inr ⟨n, c, trivial, hn, rfl, ?_⟩
  intro k _ hsome
  by_contra hlt
  rw [hend k (by omega)] at hsome
  cases hsome

/-- A commit that is not before what it follows keeps the order. -/
theorem OrderedLog.commit (h : OrderedLog time base log)
    (hstored : Newest base log (fun _ ↦ True) value) {n : Nat} {c : σ}
    (htime : ∀ old, value = some old → time old ≤ time c) (hend : ∀ k, n ≤ k → log k = none)
    (hn : log' n = some c) (hlog : ∀ k, k ≠ n → log' k = log k) : OrderedLog time base log' := by
  have hbefore : ∀ k d, log k = some d → time d ≤ time c := by
    intro k d hk
    rcases hstored with ⟨-, hnone⟩ | ⟨j, last, -, hj, hvalue, hlast⟩
    · rw [hnone k trivial] at hk
      cases hk
    · have hle := hlast k trivial (by simp [hk])
      exact Int.le_trans (h.entries k j d last hle hk hj) (htime last hvalue)
  constructor
  · intro j k d e hle hj hk
    by_cases hjn : j = n
    · by_cases hkn : k = n
      · rw [hjn, hn] at hj
        rw [hkn, hn] at hk
        obtain rfl := Option.some.inj hj
        exact Int.le_of_eq (congrArg time (Option.some.inj hk))
      · rw [hlog k hkn, hend k (by omega)] at hk
        cases hk
    · rw [hlog j hjn] at hj
      by_cases hkn : k = n
      · rw [hkn, hn] at hk
        rw [← Option.some.inj hk]
        exact hbefore j d hj
      · rw [hlog k hkn] at hk
        exact h.entries j k d e hle hj hk
  · intro old k d hold hk
    by_cases hkn : k = n
    · rw [hkn, hn] at hk
      rw [← Option.some.inj hk]
      rcases hstored with ⟨hvalue, -⟩ | ⟨j, last, -, hj, hvalue, -⟩
      · exact htime old (hvalue.trans hold)
      · exact Int.le_trans (h.base old j last hold hj) (htime last hvalue)
    · rw [hlog k hkn] at hk
      exact h.base old k d hold hk

/-- A delivered value that is not before the one shown is the newest, unless a later entry of
the same time was shown: then it must be the same value. -/
theorem Newest.deliver (h : Newest base log p value) (hordered : OrderedLog time base log) {k : Nat}
    (hk : log k = some c) (hshown : ∀ old, value = some old → time old ≤ time c)
    (htie : ∀ j d, p j → k < j → log j = some d → time d = time c → d = c) :
    Newest base log (fun j ↦ p j ∨ j = k) (some c) := by
  right
  rcases h with ⟨-, hnone⟩ | ⟨j, last, hpj, hj, hvalue, hlast⟩
  · refine ⟨k, c, .inr rfl, hk, rfl, ?_⟩
    rintro i (hpi | rfl) hsome
    · rw [hnone i hpi] at hsome
      cases hsome
    · exact Nat.le_refl _
  · by_cases hlate : k < j
    · have htime : time last = time c := Int.le_antisymm (hshown last hvalue)
        (hordered.entries k j c last (Nat.le_of_lt hlate) hk hj)
      have hsame := htie j last hpj hlate hj htime
      refine ⟨j, last, .inl hpj, hj, by rw [hsame], ?_⟩
      rintro i (hpi | rfl) hsome
      · exact hlast i hpi hsome
      · exact Nat.le_of_lt hlate
    · refine ⟨k, c, .inr rfl, hk, rfl, ?_⟩
      rintro i (hpi | rfl) hsome
      · have hle := hlast i hpi hsome
        omega
      · exact Nat.le_refl _

/-- A delivered value that is before the one shown changes nothing. -/
theorem Newest.refuse (h : Newest base log p value) (hordered : OrderedLog time base log) {k : Nat}
    {shown : σ} (hk : log k = some c) (hshown : value = some shown) (hnewer : time c < time shown) :
    Newest base log (fun j ↦ p j ∨ j = k) value := by
  rcases h with ⟨hbase, -⟩ | ⟨j, last, hpj, hj, hvalue, hlast⟩
  · have hle := hordered.base shown k c (hbase.symm.trans hshown) hk
    omega
  · refine .inr ⟨j, last, .inl hpj, hj, hvalue, ?_⟩
    obtain rfl : last = shown := Option.some.inj (hvalue.symm.trans hshown)
    rintro i (hpi | rfl) hsome
    · exact hlast i hpi hsome
    · by_contra hlt
      have hle := hordered.entries j i last c (by omega) hj hk
      omega

end CommitLog
end Bootty.Base
