import Bootty.Base.FreshName
import Bootty.Mux.SessionSnapshot
import Mathlib.Data.List.Basic

/-!
# Generated session names

Model of `crates/bootty-mux/src/session_names.rs:6–31` and `54–99`. A name that is taken gets a
number, and its front is cut so that the whole keeps within the limit. The recogniser asks for the
whole front, so it does not know a name that was cut.
-/

namespace Bootty.Mux

open Bootty.Base

/-- `SESSION_NAME_MAX_BYTES`. -/
def sessionNameMaxBytes : Nat := 256

/-- `str::rsplit_once`. -/
def rsplitOnce (separator : Char) (text : List Char) : Option (List Char × List Char) :=
  (splitOnceAt separator text.reverse).map fun (back, front) ↦ (front.reverse, back.reverse)

/-- The names collected in a `HashSet`, which has a `usize` of them. -/
structure NameSet where
  names : List (List Char)
  addressable : names.length < 2 ^ 64

/-- Whether a name is taken is decidable. -/
instance (name : List Char) (existing : NameSet) : Decidable (name ∈ existing.names) :=
  decidable_of_iff (existing.names.any (name == ·)) (by simp)

/-- The loop of `session_names.rs:26–28`. -/
def boundaryUpTo (name : List Char) : Nat → Nat
  | 0 => 0
  | stop + 1 => if isCharBoundary name (stop + 1) then stop + 1 else boundaryUpTo name stop

/-- `session_names.rs:24–30`. -/
def truncateSessionName (name : List Char) (maxBytes : Nat) : List Char :=
  takeBytes (boundaryUpTo name (min (byteLength name) maxBytes)) name

/-- `session_names.rs:6–22`. -/
def generatedSessionName (candidate : List Char) : List Char :=
  let name := candidate.map fun character ↦ if isControl character then '_' else character
  let name := truncateSessionName name sessionNameMaxBytes
  if name.isEmpty then "bootty".toList else name

/-- The group of a name, empty for a name without one, and its leaf. -/
def groupAndLeaf (name : List Char) : List Char × List Char :=
  (rsplitOnce '/' name).getD ([], name)

/-- What the numbers follow, `session_names.rs:63–64`. -/
def numberedBase (candidate : List Char) : List Char :=
  if (groupAndLeaf candidate).1.isEmpty then (groupAndLeaf candidate).2 else candidate

/-- The number behind a name. -/
def suffixTail (suffix : Nat) : List Char := '-' :: decimal suffix

/-- The name that `session_names.rs:68–71` tries. -/
def triedName (base : List Char) (suffix : Nat) : List Char :=
  truncateSessionName base (sessionNameMaxBytes - byteLength (suffixTail suffix)) ++
    suffixTail suffix

/-- `u128::MAX`. -/
def maxSuffix : Nat := 2 ^ 128 - 1

/-- The loop of `session_names.rs:67–76`. -/
def uniqueFrom (base : List Char) (existing : NameSet) : (fuel suffix : Nat) → Option (List Char)
  | 0, _ => none
  | fuel + 1, suffix =>
    if triedName base suffix ∉ existing.names then some (triedName base suffix)
    else uniqueFrom base existing fuel (min (suffix + 1) maxSuffix)

/-- `session_names.rs:55–77`. -/
def uniqueSessionName (fuel : Nat) (candidate : List Char) (existing : NameSet) :
    Option (List Char) :=
  if candidate ∉ existing.names then some candidate
  else uniqueFrom (numberedBase candidate) existing fuel 2

/-- `session_names.rs:81–99`. -/
def isUniquifiedSessionName (name base : List Char) : Bool :=
  if name = base then true
  else
    let (group, leaf) := groupAndLeaf base
    let stripped := (name.dropPrefix? group).bind
      (·.dropPrefix? (if group.isEmpty then [] else ['/']))
    match stripped with
    | none => false
    | some candidateLeaf =>
      match (candidateLeaf.dropPrefix? leaf).bind (·.dropPrefix? ['-']) with
      | none => false
      | some digits => !digits.isEmpty && digits.all Char.isDigit

/-! ### Cutting -/

private theorem boundaryUpTo_spec (name : List Char) (stop : Nat) :
    boundaryUpTo name stop ≤ stop ∧ isCharBoundary name (boundaryUpTo name stop) = true := by
  induction stop with
  | zero => exact ⟨Nat.le_refl 0, by cases name <;> rfl⟩
  | succ stop ih =>
    unfold boundaryUpTo
    split
    · next hboundary => exact ⟨Nat.le_refl _, hboundary⟩
    · exact ⟨Nat.le_succ_of_le ih.1, ih.2⟩

/-- A name is cut between two characters, within the limit. -/
theorem truncateSessionName_spec (name : List Char) (maxBytes : Nat) :
    (∃ rest, name = truncateSessionName name maxBytes ++ rest) ∧
      byteLength (truncateSessionName name maxBytes) ≤ maxBytes := by
  have ⟨hle, hboundary⟩ := boundaryUpTo_spec name (min (byteLength name) maxBytes)
  have ⟨front, back, hname, hlength⟩ := exists_cut_of_isCharBoundary hboundary
  have hcut : truncateSessionName name maxBytes = front := by
    unfold truncateSessionName
    rw [← hlength]
    exact hname ▸ takeBytes_append rfl back
  rw [hcut]
  exact ⟨⟨back, hname⟩, by omega⟩

variable {name : List Char}

/-- A name within the limit is not cut. -/
theorem truncateSessionName_of_le {maxBytes : Nat} (h : byteLength name ≤ maxBytes) :
    truncateSessionName name maxBytes = name := by
  have hboundary : boundaryUpTo name (byteLength name) = byteLength name := by
    cases hlength : byteLength name with
    | zero => rfl
    | succ stop =>
      have hwhole := isCharBoundary_append name []
      rw [List.append_nil, hlength] at hwhole
      exact if_pos hwhole
  unfold truncateSessionName
  rw [Nat.min_eq_left h, hboundary]
  have htake := @takeBytes_append name _ rfl []
  rwa [List.append_nil] at htake

/-- A generated name is a candidate that a session may have. -/
theorem generatedSessionName_spec (candidate : List Char) :
    generatedSessionName candidate ≠ [] ∧
      (∀ c ∈ generatedSessionName candidate, isControl c = false) ∧
      byteLength (generatedSessionName candidate) ≤ sessionNameMaxBytes := by
  simp only [generatedSessionName]
  generalize hname : (candidate.map fun c ↦ if isControl c then '_' else c) = name
  have ⟨⟨rest, hrest⟩, hlength⟩ := truncateSessionName_spec name sessionNameMaxBytes
  have hplain : ∀ c ∈ name, isControl c = false := by
    intro c hc
    rw [← hname] at hc
    have ⟨d, _, hd⟩ := List.mem_map.mp hc
    split at hd
    · rw [← hd]
      rfl
    · next hcontrol =>
      rw [← hd]
      exact Bool.eq_false_iff.mpr hcontrol
  split
  · exact ⟨by decide, by decide, by decide⟩
  · next hempty =>
    refine ⟨fun hnil ↦ hempty (by rw [hnil]; rfl), ?_, hlength⟩
    intro c hc
    apply hplain
    rw [hrest]
    exact List.mem_append_left _ hc

/-! ### The names that are tried -/

/-- The tried names differ, whatever is cut off. -/
theorem triedName_injective (base : List Char) : Function.Injective (triedName base) := by
  intro j k h
  have ⟨_, hdigits⟩ := append_separator_inj (dash_not_mem_decimal j) (dash_not_mem_decimal k) h
  exact decimal_injective hdigits

private theorem byteLength_suffixTail (suffix : Nat) :
    byteLength (suffixTail suffix) = (decimal suffix).length + 1 := by
  rw [suffixTail, byteLength_cons, byteLength_decimal, Nat.add_comm]
  rfl

variable {suffix : Nat}

/-- A tried name keeps within the limit, as its number has at most 39 digits. -/
theorem byteLength_triedName_le (base : List Char) (h : suffix ≤ maxSuffix) :
    byteLength (triedName base suffix) ≤ sessionNameMaxBytes := by
  have hdigits : (decimal suffix).length ≤ 39 := by
    rw [length_decimal_le_iff (by decide)]
    exact Nat.lt_of_le_of_lt h (by decide)
  have htail := byteLength_suffixTail suffix
  have hcut := (truncateSessionName_spec base
    (sessionNameMaxBytes - byteLength (suffixTail suffix))).2
  have hmax : sessionNameMaxBytes = 256 := rfl
  rw [triedName, byteLength_append]
  omega

variable {base : List Char}

/-- The first free name behind a number is found before the loop gives up. -/
theorem uniqueFrom_spec {existing : NameSet} {last : Nat} (hlast : last ≤ maxSuffix)
    (hfree : triedName base last ∉ existing.names) {fuel : Nat} (hle : suffix ≤ last)
    (hfuel : last - suffix < fuel) :
    ∃ found, suffix ≤ found ∧ found ≤ last ∧
      uniqueFrom base existing fuel suffix = some (triedName base found) ∧
      triedName base found ∉ existing.names ∧
      ∀ k, suffix ≤ k → k < found → triedName base k ∈ existing.names := by
  induction fuel generalizing suffix with
  | zero => exact absurd hfuel (Nat.not_lt_zero _)
  | succ fuel ih =>
    unfold uniqueFrom
    by_cases htaken : triedName base suffix ∈ existing.names
    · have hne : suffix ≠ last := fun heq ↦ hfree (heq ▸ htaken)
      have hnext : min (suffix + 1) maxSuffix = suffix + 1 := by omega
      rw [if_neg (not_not.mpr htaken), hnext]
      have ⟨found, hlow, hhigh, heq, hnot, hbefore⟩ :=
        @ih (suffix + 1) (by omega) (by omega)
      refine ⟨found, by omega, hhigh, heq, hnot, ?_⟩
      intro k hk hless
      by_cases hfirst : k = suffix
      · exact hfirst ▸ htaken
      · exact hbefore k (by omega) hless
    · rw [if_pos htaken]
      exact ⟨suffix, Nat.le_refl _, hle, rfl, htaken, fun k hk hless ↦ by omega⟩

/-! ### Recognition -/

private theorem dropPrefix?_eq_some {text front rest : List Char} :
    text.dropPrefix? front = some rest ↔ text = front ++ rest := by
  rw [List.dropPrefix?_eq_some_iff]
  constructor
  · rintro ⟨front', htext, heq⟩
    rw [htext, beq_iff_eq.mp heq]
  · intro htext
    exact ⟨front, htext, beq_self_eq_true front⟩

private theorem groupAndLeaf_spec (name : List Char) :
    (groupAndLeaf name = ([], name) ∨
      name = (groupAndLeaf name).1 ++ '/' :: (groupAndLeaf name).2) := by
  unfold groupAndLeaf rsplitOnce
  cases hsplit : splitOnceAt '/' name.reverse with
  | none => exact .inl rfl
  | some parts =>
    have ⟨hreverse, _⟩ := @splitOnceAt_eq_some '/' _ parts.1 parts.2 hsplit
    right
    have htwice := congrArg List.reverse hreverse
    rw [List.reverse_reverse] at htwice
    rw [htwice]
    simp

private theorem strip_eq_some {rest : List Char} :
    (((name.dropPrefix? (groupAndLeaf base).1).bind
        (·.dropPrefix? (if (groupAndLeaf base).1.isEmpty then [] else ['/']))).bind
      fun candidateLeaf ↦ (candidateLeaf.dropPrefix? (groupAndLeaf base).2).bind
        (·.dropPrefix? ['-'])) = some rest ↔
    name = numberedBase base ++ '-' :: rest := by
  simp only [Option.bind_eq_some_iff, dropPrefix?_eq_some]
  unfold numberedBase
  have hparts := groupAndLeaf_spec base
  generalize groupAndLeaf base = parts at hparts
  obtain ⟨group, leaf⟩ := parts
  cases group with
  | nil => simp
  | cons c group =>
    rcases hparts with hnil | hbase
    · cases hnil
    · rw [hbase]
      simp

/-- Another name than the base is recognised if it is all that numbers follow, and a number. -/
theorem isUniquifiedSessionName_iff (h : name ≠ base) :
    isUniquifiedSessionName name base = true ↔
      ∃ digits, digits ≠ [] ∧ (∀ c ∈ digits, c.isDigit) ∧
        name = numberedBase base ++ '-' :: digits := by
  have hmatch : isUniquifiedSessionName name base = true ↔
      ∃ digits, (((name.dropPrefix? (groupAndLeaf base).1).bind
        (·.dropPrefix? (if (groupAndLeaf base).1.isEmpty then [] else ['/']))).bind
      fun candidateLeaf ↦ (candidateLeaf.dropPrefix? (groupAndLeaf base).2).bind
        (·.dropPrefix? ['-'])) = some digits ∧ digits ≠ [] ∧ ∀ c ∈ digits, c.isDigit := by
    unfold isUniquifiedSessionName
    rw [if_neg h]
    dsimp only
    split
    · next hnone =>
      simp only [hnone, Option.bind_none]
      simp
    · next candidateLeaf hsome =>
      simp only [hsome, Option.bind_some]
      split
      · next hnone => simp [hnone]
      · next digits hdigits => simp [hdigits]
  rw [hmatch]
  constructor
  · rintro ⟨digits, hstrip, hne, hall⟩
    exact ⟨digits, hne, hall, strip_eq_some.mp hstrip⟩
  · rintro ⟨digits, hne, hall, hname⟩
    exact ⟨digits, strip_eq_some.mpr hname, hne, hall⟩

/-- A tried name is recognised if nothing was cut off. -/
theorem isUniquifiedSessionName_triedName {candidate : List Char}
    (h : triedName (numberedBase candidate) suffix ≠ candidate) :
    isUniquifiedSessionName (triedName (numberedBase candidate) suffix) candidate = true ↔
      triedName (numberedBase candidate) suffix = numberedBase candidate ++ suffixTail suffix := by
  rw [isUniquifiedSessionName_iff h]
  constructor
  · rintro ⟨digits, _, hall, hname⟩
    have hdash : '-' ∉ digits := by
      intro hmem
      cases hall '-' hmem
    have ⟨hbase, _⟩ := append_separator_inj (dash_not_mem_decimal suffix) hdash hname
    rw [triedName, hbase]
  · intro hname
    exact ⟨decimal suffix, decimal_ne_nil suffix, fun _ ↦ isDigit_of_mem_decimal, hname⟩

/-- Nothing is cut off exactly where the whole name keeps within the limit. -/
theorem triedName_eq_iff (h : suffix ≤ maxSuffix) :
    triedName base suffix = base ++ suffixTail suffix ↔
      byteLength (base ++ suffixTail suffix) ≤ sessionNameMaxBytes := by
  constructor
  · intro heq
    rw [← heq]
    exact byteLength_triedName_le base h
  · intro hle
    rw [byteLength_append] at hle
    rw [triedName, truncateSessionName_of_le (by omega)]

/-- A generated name is free, within the limit, cut between characters, and the candidate itself
where that is free. It is recognised if the candidate is free or if some number makes a free name
of it that needs no cut, and not else. -/
theorem uniqueSessionName_spec (candidate : List Char) (existing : NameSet)
    (hlength : byteLength candidate ≤ sessionNameMaxBytes) :
    ∃ name, (∀ fuel, existing.names.length < fuel →
        uniqueSessionName fuel candidate existing = some name) ∧
      name ∉ existing.names ∧
      byteLength name ≤ sessionNameMaxBytes ∧
      (name = candidate ∨ ∃ front rest suffix, numberedBase candidate = front ++ rest ∧
        2 ≤ suffix ∧ name = front ++ suffixTail suffix) ∧
      (candidate ∉ existing.names → name = candidate) ∧
      (isUniquifiedSessionName name candidate = true ↔
        candidate ∉ existing.names ∨
          ∃ suffix, 2 ≤ suffix ∧ numberedBase candidate ++ suffixTail suffix ∉ existing.names ∧
            byteLength (numberedBase candidate ++ suffixTail suffix) ≤ sessionNameMaxBytes) := by
  by_cases htaken : candidate ∈ existing.names
  · generalize hbase : numberedBase candidate = base
    have ⟨last, htwo, hhigh, hfree⟩ := exists_free (triedName_injective base) existing.names 2
    have hlast : last ≤ maxSuffix := by
      have haddressable := existing.addressable
      unfold maxSuffix
      omega
    have ⟨found, hlow, hle, _, hnot, hbefore⟩ :=
      uniqueFrom_spec hlast hfree htwo (Nat.lt_succ_self (last - 2))
    have hmax : found ≤ maxSuffix := Nat.le_trans hle hlast
    have ⟨⟨rest, hcut⟩, _⟩ := truncateSessionName_spec base
      (sessionNameMaxBytes - byteLength (suffixTail found))
    have hother : triedName base found ≠ candidate := fun heq ↦ hnot (heq ▸ htaken)
    refine ⟨triedName base found, ?_, hnot, byteLength_triedName_le base hmax,
      .inr ⟨_, rest, found, hcut, hlow, rfl⟩, fun hfree ↦ absurd htaken hfree, ?_⟩
    · intro fuel hfuel
      rw [uniqueSessionName, if_neg (not_not.mpr htaken), hbase]
      have ⟨found', hlow', _, heq', hnot', hbefore'⟩ :=
        uniqueFrom_spec hlast hfree htwo (show last - 2 < fuel by omega)
      -- Both are the first free number.
      have hsame : found' = found := by
        rcases Nat.lt_trichotomy found' found with hless | hsame | hless
        · exact absurd (hbefore found' hlow' hless) hnot'
        · exact hsame
        · exact absurd (hbefore' found hlow hless) hnot
      rw [heq', hsame]
    · subst hbase
      rw [isUniquifiedSessionName_triedName hother, triedName_eq_iff hmax]
      constructor
      · intro hfits
        refine .inr ⟨found, hlow, ?_, hfits⟩
        rw [← (triedName_eq_iff hmax).mpr hfits]
        exact hnot
      · rintro (hcandidate | ⟨suffix, hsuffix, hnumbered, hfits⟩)
        · exact absurd htaken hcandidate
        · -- A longer number leaves room for a shorter one, and the first free one is not longer.
          have hroom : ∀ k, k ≤ suffix →
              byteLength (numberedBase candidate ++ suffixTail k) ≤ sessionNameMaxBytes := by
            intro k hk
            have hdigits := length_decimal_mono hk
            rw [byteLength_append, byteLength_suffixTail] at hfits ⊢
            omega
          apply hroom
          by_contra hless
          have hmem := hbefore suffix hsuffix (by omega)
          rw [(triedName_eq_iff (by omega)).mpr hfits] at hmem
          exact hnumbered hmem
  · refine ⟨candidate, ?_, htaken, hlength, .inl rfl, fun _ ↦ rfl, ?_⟩
    · intro fuel _
      exact if_pos htaken
    · simp [isUniquifiedSessionName, htaken]

/-- A name that was cut: `aaa…a` of 255 bytes is taken, and its replacement is not recognised. -/
theorem uniqueSessionName_not_recognised :
    let candidate := List.replicate 255 'a'
    let existing : NameSet := ⟨[candidate], by decide⟩
    let name := List.replicate 254 'a' ++ "-2".toList
    byteLength candidate ≤ sessionNameMaxBytes ∧
      uniqueSessionName 2 candidate existing = some name ∧
      isUniquifiedSessionName name candidate = false := by
  decide +kernel

/-- The name of a group's session gets a number. -/
theorem uniqueSessionName_spec_group :
    let candidate := "work/api".toList
    let existing : NameSet := ⟨["work/api".toList, "work/api-2".toList], by decide⟩
    ∃ name, uniqueSessionName 3 candidate existing = some name ∧ name ∉ existing.names ∧
      isUniquifiedSessionName name candidate = true := by
  intro candidate existing
  have ⟨name, hfound, hnot, _, _, _, hrecognised⟩ :=
    uniqueSessionName_spec candidate existing (by decide)
  refine ⟨name, hfound 3 (by decide), hnot, hrecognised.mpr (.inr ⟨3, by decide, ?_, ?_⟩)⟩
  · decide +kernel
  · decide +kernel

end Bootty.Mux
