import Bootty.Base.Text

/-!
# Fuzzy matches

Model of `crates/bootty-host/src/fuzzy.rs`. The characters of the pattern are looked for one after
the other, each after the place of the one before. Lower case of a character is given by a table,
which may have several characters for one, and the ASCII lower case of texts keeps the others.
-/

namespace Bootty.Host

open Bootty.Base

section Greedy

variable {α β : Type}

/-- The first place from `start` on whose element passes. -/
def findFrom (passes : α → Bool) (candidate : List α) (start : Nat) : Option Nat :=
  ((candidate.drop start).findIdx? passes).map (start + ·)

/-- The places of the needles, each the first after the one before: the loop of `fuzzy.rs:28–42`. -/
def greedy (accepts : β → α → Bool) (candidate : List α) : Nat → List β → Option (List Nat)
  | _, [] => some []
  | start, needle :: rest =>
    (findFrom (accepts needle) candidate start).bind fun found ↦
      (greedy accepts candidate (found + 1) rest).map (found :: ·)

/-- The needles are at these places, in this order, from `start` on. -/
inductive Embeds (accepts : β → α → Bool) (candidate : List α) : Nat → List β → List Nat → Prop
  | nil {start : Nat} : Embeds accepts candidate start [] []
  | cons {start place : Nat} {element : α} {needle : β} {rest : List β} {places : List Nat}
    (after : start ≤ place) (there : candidate[place]? = some element)
    (accepted : accepts needle element = true)
    (later : Embeds accepts candidate (place + 1) rest places) :
    Embeds accepts candidate start (needle :: rest) (place :: places)

variable {accepts : β → α → Bool} {candidate : List α}

variable {start : Nat}

private theorem findFrom_eq_some {passes : α → Bool} {found : Nat}
    (h : findFrom passes candidate start = some found) :
    start ≤ found ∧ (∃ element, candidate[found]? = some element ∧ passes element = true) ∧
      ∀ place element, start ≤ place → candidate[place]? = some element → passes element = true →
        found ≤ place := by
  obtain ⟨offset, hoffset, rfl⟩ := Option.map_eq_some_iff.mp h
  obtain ⟨hlength, hpasses, hbefore⟩ := List.findIdx?_eq_some_iff_getElem.mp hoffset
  refine ⟨Nat.le_add_right .., ⟨(candidate.drop start)[offset], ?_, hpasses⟩, ?_⟩
  · rw [← List.getElem?_drop, List.getElem?_eq_getElem hlength]
  · intro place element hplace helement hpass
    by_contra hless
    have hlt : place - start < offset := by omega
    have hget : (candidate.drop start)[place - start]? = some element := by
      rw [List.getElem?_drop, Nat.add_sub_cancel' hplace, helement]
    obtain ⟨hbound, heq⟩ := List.getElem?_eq_some_iff.mp hget
    exact absurd hpass (heq ▸ hbefore (place - start) hlt)

private theorem findFrom_eq_none {passes : α → Bool} (h : findFrom passes candidate start = none)
    {place : Nat} {element : α} (hplace : start ≤ place)
    (helement : candidate[place]? = some element) :
    passes element = false := by
  have hnone := List.findIdx?_eq_none_iff.mp (Option.map_eq_none_iff.mp h)
  refine hnone element (List.mem_iff_getElem?.mpr ⟨place - start, ?_⟩)
  rw [List.getElem?_drop, Nat.add_sub_cancel' hplace, helement]

variable {needles : List β} {places : List Nat}

private theorem Embeds.mono {start' : Nat} (h : Embeds accepts candidate start needles places)
    (hstart : start' ≤ start) :
    Embeds accepts candidate start' needles places := by
  cases h with
  | nil => exact .nil
  | cons after there accepted later => exact .cons (Nat.le_trans hstart after) there accepted later

/-- What the loop finds is there, and no other places of the needles are before it. -/
theorem embeds_greedy (h : greedy accepts candidate start needles = some places) :
    Embeds accepts candidate start needles places ∧
      ∀ others, Embeds accepts candidate start needles others →
        List.Forall₂ (· ≤ ·) places others := by
  induction needles generalizing start places with
  | nil =>
    obtain rfl := Option.some.inj h
    refine ⟨.nil, fun others hothers ↦ ?_⟩
    cases hothers
    exact .nil
  | cons needle rest ih =>
    obtain ⟨found, hfound, hrest⟩ := Option.bind_eq_some_iff.mp h
    obtain ⟨later, hlater, rfl⟩ := Option.map_eq_some_iff.mp hrest
    obtain ⟨hafter, ⟨element, hthere, haccepted⟩, hfirst⟩ := findFrom_eq_some hfound
    obtain ⟨hembeds, hleast⟩ := ih hlater
    refine ⟨.cons hafter hthere haccepted hembeds, fun others hothers ↦ ?_⟩
    cases hothers with
    | cons after there accepted others =>
      have hle := hfirst _ _ after there accepted
      exact .cons hle (hleast _ (others.mono (Nat.succ_le_succ hle)))

/-- The loop finds the needles if they are there in any way. -/
theorem isSome_greedy (h : Embeds accepts candidate start needles places) :
    (greedy accepts candidate start needles).isSome = true := by
  induction needles generalizing start places with
  | nil => rfl
  | cons needle rest ih =>
    cases h with
    | cons after there accepted later =>
      rw [greedy]
      cases hfound : findFrom (accepts needle) candidate start with
      | none =>
        rw [findFrom_eq_none hfound after there] at accepted
        cases accepted
      | some found =>
        have hle := (findFrom_eq_some hfound).2.2 _ _ after there accepted
        rw [Option.bind_some, Option.isSome_map]
        exact ih (later.mono (Nat.succ_le_succ hle))

end Greedy

/-- `FuzzyMatch`. -/
structure FuzzyMatch where
  score : Int
  indices : List Nat
  deriving DecidableEq, Repr

/-- A number as an `i32`, with the nearest one for those that are none. -/
def saturate (value : Int) : Int := max (-2147483648) (min value 2147483647)

/-- The characters between neighbours, `fuzzy.rs:45–49`. -/
def gapsOf : List Nat → Nat
  | first :: second :: rest => (second - first - 1) + gapsOf (second :: rest)
  | _ => 0

/-- The places of the matches of a text that do not overlap: `str::match_indices`, in characters. -/
def matchIndices (pattern : List Char) : Nat → Nat → List Char → List Nat
  | _, _, [] => []
  | place, 0, character :: rest =>
    if pattern.isPrefixOf (character :: rest) then
      place :: matchIndices pattern (place + 1) (pattern.length - 1) rest
    else matchIndices pattern (place + 1) 0 rest
  | place, skip + 1, _ :: rest => matchIndices pattern (place + 1) skip rest

/-- The score of a match at these places, `fuzzy.rs:43–74`. -/
def scoreOf (candidateLower patternLower : List Char) (indices : List Nat) (first last : Nat) :
    Int :=
  let first := saturate first
  let last := saturate last
  let gaps := saturate (gapsOf indices)
  let spread := saturate (saturate (last - first) * 4)
  let score := saturate (10000 - saturate (first * 25))
  let score := saturate (saturate (score - saturate (gaps * 12)) - spread)
  let matched := matchIndices patternLower 0 0 candidateLower
  let score :=
    match matched.head? with
    | some place => saturate (score + saturate (5000 - saturate (saturate place * 20)))
    | none => score
  let score :=
    if matched.any fun place ↦
        place == 0 || !((candidateLower[place - 1]?).any Char.isAlphanum) then
      saturate (score + 1500)
    else score
  if candidateLower = patternLower then saturate (score + 10000) else score

section FuzzyMatch

variable (lowercase : Char → List Char)

/-- A character of the candidate has the needle in its lower case. -/
def acceptsNeedle (needle character : Char) : Bool := (lowercase character).any (· == needle)

/-- The characters that are looked for. -/
def needlesOf (pattern : String) : List Char := (trim pattern).toList.map Char.toLower

/-- `fuzzy_match`. -/
def fuzzyMatch (candidate pattern : String) : Option FuzzyMatch :=
  let needles := needlesOf pattern
  if needles = [] then some ⟨0, []⟩
  else
    (greedy (acceptsNeedle lowercase) candidate.toList 0 needles).bind fun indices ↦
      match indices.head?, indices.getLast? with
      | some first, some last =>
        some ⟨scoreOf (candidate.toList.map Char.toLower) needles indices first last, indices⟩
      | _, _ => none

/-- A match is found exactly if the characters of the trimmed pattern are in the candidate in their
order, and its places are the first ones that can be. -/
theorem fuzzyMatch_leftmost (candidate pattern : String) :
    (∀ found, fuzzyMatch lowercase candidate pattern = some found →
      Embeds (acceptsNeedle lowercase) candidate.toList 0 (needlesOf pattern) found.indices ∧
      ∀ others, Embeds (acceptsNeedle lowercase) candidate.toList 0 (needlesOf pattern) others →
        List.Forall₂ (· ≤ ·) found.indices others) ∧
    ((fuzzyMatch lowercase candidate pattern).isSome = true ↔
      ∃ places, Embeds (acceptsNeedle lowercase) candidate.toList 0 (needlesOf pattern) places) := by
  rw [fuzzyMatch]
  by_cases hempty : needlesOf pattern = []
  · simp only [hempty, if_true]
    refine ⟨fun found hfound ↦ ?_, iff_of_true rfl ⟨[], .nil⟩⟩
    obtain rfl := Option.some.inj hfound
    refine ⟨.nil, fun others hothers ↦ ?_⟩
    cases hothers
    exact .nil
  · simp only [if_neg hempty]
    constructor
    · intro found hfound
      obtain ⟨indices, hindices, hmatch⟩ := Option.bind_eq_some_iff.mp hfound
      split at hmatch
      · obtain rfl := Option.some.inj hmatch
        exact embeds_greedy hindices
      · cases hmatch
    · constructor
      · intro hsome
        obtain ⟨found, hfound⟩ := Option.isSome_iff_exists.mp hsome
        obtain ⟨indices, hindices, -⟩ := Option.bind_eq_some_iff.mp hfound
        exact ⟨indices, (embeds_greedy hindices).1⟩
      · rintro ⟨places, hplaces⟩
        obtain ⟨indices, hindices⟩ := Option.isSome_iff_exists.mp (isSome_greedy hplaces)
        have hne : indices ≠ [] := by
          rintro rfl
          have hnil := (embeds_greedy hindices).1
          generalize needlesOf pattern = needles at hnil hempty
          cases hnil
          exact hempty rfl
        rw [hindices, Option.bind_some, List.head?_eq_some_head hne,
          List.getLast?_eq_some_getLast hne]
        rfl

end FuzzyMatch
end Bootty.Host
