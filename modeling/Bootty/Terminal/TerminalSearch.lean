import Bootty.Base.ByteOffsets
import Mathlib.Data.List.Basic

/-!
# Search in the terminal

Model of `SearchPattern` (`crates/bootty-terminal/src/terminal_search.rs`). The crate `regex` is a
parameter of which only its documented behaviour is used: a search from a byte offset finds the
leftmost-first match at or after it, and an escaped text is a literal.
-/

namespace Bootty.Terminal

open Bootty.Base

/-- `terminal_search.rs:5–9`. -/
structure TerminalSearchOptions where
  regex : Bool := false
  caseSensitive : Bool := false
  deriving DecidableEq, Repr

/-- A compiled expression: `Regex::find_at`, in byte offsets. -/
structure Regex where
  findAt : List Char → Nat → Option (Nat × Nat)

/-- The crate `regex`. An expression is built to be case-insensitive or not. -/
structure RegexCrate where
  escape : List Char → List Char
  build : List Char → Bool → Option Regex

/-- `terminal_search.rs:11–15`. -/
structure SearchPattern where
  regex : Regex
  overlap : Bool

/-- `str::char_indices` from an offset on. -/
def charIndices (offset : Nat) : List Char → List Nat
  | [] => []
  | c :: rest => offset :: charIndices (offset + c.utf8Size) rest

/-- The byte offsets of the characters of a text and of its end. -/
def charOffsets (text : List Char) : List Nat := charIndices 0 text ++ [byteLength text]

/-- `slice::partition_point` at the first offset that is not less than `offset`. -/
def partitionPoint (offsets : List Nat) (offset : Nat) : Nat :=
  (offsets.takeWhile fun other ↦ decide (other < offset)).length

namespace SearchPattern

/-- `terminal_search.rs:18–31`. -/
def new (crate : RegexCrate) (query : List Char) (options : TerminalSearchOptions) :
    Option SearchPattern :=
  let expression := if options.regex then query else crate.escape query
  (crate.build expression (!options.caseSensitive)).map fun regex ↦
    { regex := regex, overlap := !options.regex }

/-- The loop of `terminal_search.rs:43–62`, of at most as many turns as there is fuel. -/
def rangesLoop (pattern : SearchPattern) (text : List Char) : Nat → Nat → Option (List (Nat × Nat))
  | 0, _ => none
  | fuel + 1, offset =>
    if offset < byteLength text then
      match pattern.regex.findAt text offset with
      | none => some []
      | some (foundStart, foundEnd) =>
        let start := partitionPoint (charOffsets text) foundStart
        let stop := partitionPoint (charOffsets text) foundEnd
        let nextCharacter := if pattern.overlap || start == stop then start + 1 else stop
        let rest :=
          match (charOffsets text)[nextCharacter]? with
          | none => some []
          | some next => rangesLoop pattern text fuel next
        if start != stop then rest.map ((start, stop) :: ·) else rest
    else some []

/-- `terminal_search.rs:33–64`. Every turn but the last moves on by a character. -/
def ranges (pattern : SearchPattern) (logical : List Char) : List (Nat × Nat) :=
  (pattern.rangesLoop logical (logical.length + 1) 0).getD []

end SearchPattern

/-! ### What is known of matches -/

/-- The query occurs in a text at a character, under a comparison of characters. -/
def occursAt (same : Char → Char → Bool) (query text : List Char) (start : Nat) : Bool :=
  decide (query.length ≤ text.length - start) &&
    (query.zip (text.drop start)).all fun (a, b) ↦ same a b

/-- The match at or after every boundary of a text is the first of those that `prefer` gives by
the character at which they start. -/
structure Regex.LeftmostFirst (regex : Regex) (prefer : List Char → Nat → Option Nat) : Prop where
  bounded : ∀ text start stop, prefer text start = some stop →
    start ≤ stop ∧ stop ≤ text.length
  found : ∀ text i, i ≤ text.length →
    ∀ foundStart foundEnd,
      regex.findAt text (byteLength (text.take i)) = some (foundStart, foundEnd) →
        ∃ start stop, i ≤ start ∧ prefer text start = some stop ∧
          foundStart = byteLength (text.take start) ∧ foundEnd = byteLength (text.take stop) ∧
          ∀ other, i ≤ other → other < start → prefer text other = none
  notFound : ∀ text i, i ≤ text.length →
    regex.findAt text (byteLength (text.take i)) = none →
      ∀ start, i ≤ start → start ≤ text.length → prefer text start = none

/-- The documented behaviour of the crate: `prefer` gives the match of an expression that is
preferred at a character, and `fold` compares characters without their case. -/
structure RegexCrate.Documented (crate : RegexCrate)
    (prefer : List Char → Bool → List Char → Nat → Option Nat) (fold : Char → Char → Bool) :
    Prop where
  leftmostFirst : ∀ expression caseInsensitive regex,
    crate.build expression caseInsensitive = some regex →
      regex.LeftmostFirst (prefer expression caseInsensitive)
  escaped : ∀ query caseInsensitive text start, start ≤ text.length →
    prefer (crate.escape query) caseInsensitive text start =
      if occursAt (fun a b ↦ if caseInsensitive then fold a b else a == b) query text start then
        some (start + query.length)
      else none

/-- The matches that are not empty, each the first one from the end of the one before on. -/
structure Successive (prefer : Nat → Option Nat) (first : Nat) (ranges : List (Nat × Nat)) :
    Prop where
  preferred : ∀ range ∈ ranges, first ≤ range.1 ∧ range.1 < range.2 ∧
    prefer range.1 = some range.2
  apart : ranges.Pairwise fun range later ↦ range.2 ≤ later.1
  complete : ∀ start stop, first ≤ start → prefer start = some stop → start < stop →
    ∃ range ∈ ranges, range.1 ≤ start ∧ start < range.2

/-- The matches of all characters from one on that are not empty. -/
def matchesFrom (prefer : Nat → Option Nat) (first count : Nat) : List (Nat × Nat) :=
  (List.range' first count).filterMap fun start ↦
    (prefer start).bind fun stop ↦ if start < stop then some (start, stop) else none

/-! ### Byte offsets of characters -/

private theorem charIndices_eq (offset : Nat) (text : List Char) :
    charIndices offset text =
      (List.range text.length).map fun i ↦ offset + byteLength (text.take i) := by
  induction text generalizing offset with
  | nil => rfl
  | cons c rest ih =>
    rw [charIndices, ih, List.length_cons, List.range_succ_eq_map, List.map_cons, List.map_map]
    simp only [List.take_zero, byteLength_nil, Nat.add_zero, List.cons.injEq, true_and]
    apply List.map_congr_left
    intro i _
    simp only [Function.comp_apply, List.take_succ_cons, byteLength_cons]
    omega

private theorem charOffsets_eq (text : List Char) :
    charOffsets text = (List.range (text.length + 1)).map fun i ↦ byteLength (text.take i) := by
  rw [charOffsets, charIndices_eq, List.range_succ, List.map_append, List.map_singleton,
    List.take_length]
  simp only [Nat.zero_add]

variable {i : Nat}

private theorem charOffsets_getElem? {text : List Char} :
    (charOffsets text)[i]? =
      if i ≤ text.length then some (byteLength (text.take i)) else none := by
  rw [charOffsets_eq, List.getElem?_map]
  by_cases h : i ≤ text.length
  · rw [if_pos h, List.getElem?_range (by omega), Option.map_some]
  · rw [if_neg h, List.getElem?_eq_none (by rw [List.length_range]; omega), Option.map_none]

private theorem byteLength_take_lt {text : List Char} {j : Nat} (hij : i < j)
    (hj : j ≤ text.length) :
    byteLength (text.take i) < byteLength (text.take j) := by
  have hsplit : text.take j = text.take i ++ (text.drop i).take (j - i) := by
    rw [← List.take_add, Nat.add_sub_cancel' (Nat.le_of_lt hij)]
  rw [hsplit, byteLength_append]
  cases hmiddle : (text.drop i).take (j - i) with
  | nil =>
    have hlen := congrArg List.length hmiddle
    simp only [List.length_take, List.length_drop, List.length_nil] at hlen
    omega
  | cons c rest =>
    have hpositive := c.utf8Size_pos
    rw [byteLength_cons]
    omega

private theorem length_takeWhile_lt {offsets : List Nat} (hsorted : offsets.Pairwise (· < ·))
    {offset : Nat} (h : offsets[i]? = some offset) :
    (offsets.takeWhile fun other ↦ decide (other < offset)).length = i := by
  induction offsets generalizing i with
  | nil => cases h
  | cons first rest ih =>
    have ⟨hfirst, hrest⟩ := List.pairwise_cons.mp hsorted
    cases i with
    | zero =>
      have heq : first = offset := Option.some.inj h
      rw [List.takeWhile_cons_of_neg (by simp [heq])]
      rfl
    | succ i =>
      rw [List.getElem?_cons_succ] at h
      have hlt := hfirst offset (List.mem_of_getElem? h)
      rw [List.takeWhile_cons_of_pos (by simpa using hlt), List.length_cons, ih hrest h]

/-- The offset of a character is found again. -/
theorem partitionPoint_charOffsets {text : List Char} (h : i ≤ text.length) :
    partitionPoint (charOffsets text) (byteLength (text.take i)) = i := by
  apply length_takeWhile_lt
  · rw [charOffsets_eq, List.pairwise_map]
    apply List.Pairwise.imp_of_mem _ List.pairwise_lt_range
    intro a b _ hb hab
    exact byteLength_take_lt hab (by rw [List.mem_range] at hb; omega)
  · rw [charOffsets_getElem?, if_pos h]

/-! ### One turn -/

variable {fuel : Nat}

section Loop

variable {pattern : SearchPattern} {prefer : List Char → Nat → Option Nat} {text : List Char}

/-- A turn from a character on takes the first match that is found there. -/
theorem SearchPattern.rangesLoop_succ (h : pattern.regex.LeftmostFirst prefer)
    (hi : i < text.length) (fuel : Nat) :
    (pattern.rangesLoop text (fuel + 1) (byteLength (text.take i)) = some [] ∧
        ∀ start, i ≤ start → start ≤ text.length → prefer text start = none) ∨
      ∃ start stop, i ≤ start ∧ prefer text start = some stop ∧
        (∀ other, i ≤ other → other < start → prefer text other = none) ∧
        pattern.rangesLoop text (fuel + 1) (byteLength (text.take i)) =
          let next := if pattern.overlap || start == stop then start + 1 else stop
          let rest :=
            if next ≤ text.length then pattern.rangesLoop text fuel (byteLength (text.take next))
            else some []
          if start != stop then rest.map ((start, stop) :: ·) else rest := by
  have hlt : byteLength (text.take i) < byteLength text := by
    have hend := byteLength_take_lt hi (Nat.le_refl text.length)
    rwa [List.take_length] at hend
  rw [rangesLoop, if_pos hlt]
  cases hfind : pattern.regex.findAt text (byteLength (text.take i)) with
  | none => exact .inl ⟨rfl, h.notFound text i (Nat.le_of_lt hi) hfind⟩
  | some found =>
    have ⟨start, stop, hle, hprefer, hstart, hstop, hfirst⟩ :=
      h.found text i (Nat.le_of_lt hi) found.1 found.2 hfind
    have ⟨hordered, hbound⟩ := h.bounded text start stop hprefer
    right
    refine ⟨start, stop, hle, hprefer, hfirst, ?_⟩
    simp only [hstart, hstop, partitionPoint_charOffsets hbound,
      partitionPoint_charOffsets (Nat.le_trans hordered hbound), charOffsets_getElem?]
    by_cases hnext : (if pattern.overlap || start == stop then start + 1 else stop) ≤ text.length
    · simp only [hnext, if_true]
    · simp only [hnext, if_false]

private theorem SearchPattern.rangesLoop_end (fuel : Nat) :
    pattern.rangesLoop text (fuel + 1) (byteLength (text.take text.length)) = some [] := by
  rw [List.take_length, rangesLoop, if_neg (Nat.lt_irrefl _)]

/-- A loop that ends does so with more fuel, too. -/
theorem SearchPattern.rangesLoop_more {offset : Nat} {ranges : List (Nat × Nat)}
    (h : pattern.rangesLoop text fuel offset = some ranges) (more : Nat) :
    pattern.rangesLoop text (fuel + more) offset = some ranges := by
  induction fuel generalizing offset ranges with
  | zero => cases h
  | succ fuel ih =>
    rw [Nat.add_right_comm]
    rw [rangesLoop] at h ⊢
    by_cases hlt : offset < byteLength text
    · rw [if_pos hlt] at h ⊢
      cases hfind : pattern.regex.findAt text offset with
      | none => simpa only [hfind] using h
      | some found =>
        simp only [hfind] at h ⊢
        cases hnext : (charOffsets text)[if pattern.overlap || partitionPoint (charOffsets text) found.1 ==
            partitionPoint (charOffsets text) found.2 then
              partitionPoint (charOffsets text) found.1 + 1
            else partitionPoint (charOffsets text) found.2]? with
        | none => simpa only [hnext] using h
        | some next =>
          simp only [hnext] at h ⊢
          split at h
          next hne =>
            have ⟨rest, hrest, hranges⟩ := Option.map_eq_some_iff.mp h
            rw [if_pos hne, ih hrest, ← hranges]
            rfl
          next hne => rw [if_neg hne, ih h]
    · rwa [if_neg hlt] at h ⊢

/-! ### All turns -/

private theorem matchesFrom_of_none {prefer : Nat → Option Nat} {first count : Nat}
    (h : ∀ start, first ≤ start → start < first + count → prefer start = none) :
    matchesFrom prefer first count = [] := by
  rw [matchesFrom, List.filterMap_eq_nil_iff]
  intro start hmem
  have hrange := List.mem_range'_1.mp hmem
  rw [h start hrange.1 hrange.2]
  rfl

/-- A pattern with overlaps finds all matches from a character on. -/
theorem SearchPattern.rangesLoop_overlap (h : pattern.regex.LeftmostFirst prefer)
    (hoverlap : pattern.overlap = true) (hi : i ≤ text.length) (hfuel : text.length - i < fuel) :
    pattern.rangesLoop text fuel (byteLength (text.take i)) =
      some (matchesFrom (prefer text) i (text.length - i)) := by
  induction fuel generalizing i with
  | zero => omega
  | succ fuel ih =>
    by_cases hend : i = text.length
    · rw [hend, rangesLoop_end, Nat.sub_self]
      rfl
    · have hlt : i < text.length := by omega
      cases rangesLoop_succ h hlt fuel with
      | inl hnone =>
        rw [hnone.1, matchesFrom_of_none]
        exact fun start hle hbound ↦ hnone.2 start hle (by omega)
      | inr hsome =>
        have ⟨start, stop, hle, hprefer, hfirst, hturn⟩ := hsome
        have ⟨hordered, hbound⟩ := h.bounded text start stop hprefer
        -- Before the match none is found, and the loop goes on behind its first character.
        have hskip : matchesFrom (prefer text) i (text.length - i) =
            matchesFrom (prefer text) start (text.length - start) := by
          have hsplit : List.range' i (text.length - i) =
              List.range' i (start - i) ++ List.range' start (text.length - start) := by
            have happend := @List.range'_append i (start - i) (text.length - start) 1
            rw [show i + 1 * (start - i) = start by omega,
              show start - i + (text.length - start) = text.length - i by omega] at happend
            exact happend.symm
          have hnone := @matchesFrom_of_none (prefer text) i (start - i)
            fun other hother hlt ↦ hfirst other hother (by omega)
          unfold matchesFrom at hnone ⊢
          rw [hsplit, List.filterMap_append, hnone, List.nil_append]
        simp only [hoverlap, Bool.true_or, if_true] at hturn
        rw [hturn, hskip]
        by_cases hlast : start = text.length
        · have hempty : start = stop := by omega
          have hnext : ¬ start + 1 ≤ text.length := by omega
          simp only [hnext, if_false]
          rw [if_neg (by simpa using hempty), hlast, Nat.sub_self]
          rfl
        · have hcons : matchesFrom (prefer text) start (text.length - start) =
              (if start != stop then [(start, stop)] else []) ++
                matchesFrom (prefer text) (start + 1) (text.length - (start + 1)) := by
            unfold matchesFrom
            rw [show text.length - start = text.length - (start + 1) + 1 by omega,
              List.range'_succ, List.filterMap_cons, hprefer]
            by_cases hempty : start = stop
            · simp [hempty]
            · have hlt' : start < stop := by omega
              simp [hempty, hlt']
          have hnext : start + 1 ≤ text.length := by omega
          simp only [hnext, if_true, ih hnext (by omega), hcons]
          by_cases hempty : start = stop
          · simp [hempty]
          · simp [hempty]

/-- A pattern without overlaps finds successive matches. -/
theorem SearchPattern.rangesLoop_successive (h : pattern.regex.LeftmostFirst prefer)
    (hoverlap : pattern.overlap = false) (hi : i ≤ text.length) (hfuel : text.length - i < fuel) :
    ∃ ranges, pattern.rangesLoop text fuel (byteLength (text.take i)) = some ranges ∧
      Successive (prefer text) i ranges := by
  induction fuel generalizing i with
  | zero => omega
  | succ fuel ih =>
    by_cases hend : i = text.length
    · refine ⟨[], by rw [hend, rangesLoop_end], by simp, .nil, ?_⟩
      intro start stop hle hprefer hlt
      have hbound := (h.bounded text start stop hprefer).2
      omega
    · have hlt : i < text.length := by omega
      cases rangesLoop_succ h hlt fuel with
      | inl hnone =>
        refine ⟨[], hnone.1, by simp, .nil, ?_⟩
        intro start stop hle hprefer _
        have hbound := h.bounded text start stop hprefer
        rw [hnone.2 start hle (by omega)] at hprefer
        cases hprefer
      | inr hsome =>
        have ⟨start, stop, hle, hprefer, hfirst, hturn⟩ := hsome
        have ⟨hordered, hbound⟩ := h.bounded text start stop hprefer
        simp only [hoverlap, Bool.false_or] at hturn
        by_cases hempty : start = stop
        · -- An empty match is left out, and the loop goes on behind its character.
          subst hempty
          simp only [beq_self_eq_true, if_true, bne_self_eq_false, Bool.false_eq_true,
            if_false] at hturn
          by_cases hlast : start + 1 ≤ text.length
          · have ⟨ranges, hranges, hsuccessive⟩ := ih hlast (by omega)
            refine ⟨ranges, by rw [hturn, if_pos hlast, hranges], ?_, hsuccessive.apart, ?_⟩
            · intro range hmem
              have hrange := hsuccessive.preferred range hmem
              exact ⟨by omega, hrange.2⟩
            · intro start' stop' hle' hprefer' hlt'
              by_cases hbehind : start + 1 ≤ start'
              · exact hsuccessive.complete start' stop' hbehind hprefer' hlt'
              · by_cases hsame : start' = start
                · rw [hsame, hprefer] at hprefer'
                  cases hprefer'
                  omega
                · rw [hfirst start' hle' (by omega)] at hprefer'
                  cases hprefer'
          · refine ⟨[], by rw [hturn, if_neg hlast], by simp, .nil, ?_⟩
            intro start' stop' hle' hprefer' hlt'
            have hbound' := (h.bounded text start' stop' hprefer').2
            rw [hfirst start' hle' (by omega)] at hprefer'
            cases hprefer'
        · have ⟨ranges, hranges, hsuccessive⟩ := ih (i := stop) hbound (by omega)
          have hne : (start == stop) = false := beq_eq_false_iff_ne.mpr hempty
          simp only [bne, hne, Bool.not_false, if_true, Bool.false_eq_true, if_false,
            hbound] at hturn
          refine ⟨(start, stop) :: ranges, by rw [hturn, hranges]; rfl, ?_, ?_, ?_⟩
          · rw [List.forall_mem_cons]
            refine ⟨⟨hle, by omega, hprefer⟩, ?_⟩
            intro range hmem
            have hrange := hsuccessive.preferred range hmem
            exact ⟨by omega, hrange.2⟩
          · rw [List.pairwise_cons]
            exact ⟨fun range hmem ↦ (hsuccessive.preferred range hmem).1, hsuccessive.apart⟩
          · intro start' stop' hle' hprefer' hlt'
            by_cases hbehind : stop ≤ start'
            · have ⟨range, hmem, hrange⟩ :=
                hsuccessive.complete start' stop' hbehind hprefer' hlt'
              exact ⟨range, List.mem_cons_of_mem _ hmem, hrange⟩
            · by_cases hbefore : start' < start
              · rw [hfirst start' hle' hbefore] at hprefer'
                cases hprefer'
              · exact ⟨(start, stop), List.mem_cons_self, by omega, by omega⟩

end Loop

/-! ### Ranges of a pattern -/

variable {start : Nat}

/-- Where the matches are. -/
theorem mem_matchesFrom {prefer : Nat → Option Nat} {first count stop : Nat} :
    (start, stop) ∈ matchesFrom prefer first count ↔
      first ≤ start ∧ start < first + count ∧ prefer start = some stop ∧ start < stop := by
  rw [matchesFrom, List.mem_filterMap]
  simp only [List.mem_range'_1, Option.bind_eq_some_iff, Option.ite_none_right_eq_some,
    Option.some.injEq, Prod.mk.injEq]
  constructor
  · rintro ⟨start', hrange, stop', hprefer, hlt, rfl, rfl⟩
    exact ⟨hrange.1, hrange.2, hprefer, hlt⟩
  · intro ⟨hle, hlt, hprefer, hne⟩
    exact ⟨start, ⟨hle, hlt⟩, stop, hprefer, hne, rfl, rfl⟩

/-- The matches are in order. -/
theorem pairwise_matchesFrom (prefer : Nat → Option Nat) (first count : Nat) :
    (matchesFrom prefer first count).Pairwise fun range later ↦ range.1 < later.1 := by
  rw [matchesFrom, List.pairwise_filterMap]
  apply List.Pairwise.imp _ List.pairwise_lt_range'
  intro start start' hlt range hrange range' hrange'
  have ⟨stop, _, hstop⟩ := Option.bind_eq_some_iff.mp hrange
  have ⟨stop', _, hstop'⟩ := Option.bind_eq_some_iff.mp hrange'
  rw [Option.ite_none_right_eq_some, Option.some.injEq] at hstop hstop'
  rw [← hstop.2, ← hstop'.2]
  exact hlt

private theorem Successive.pairwise {prefer : Nat → Option Nat} {first : Nat}
    {ranges : List (Nat × Nat)}
    (h : Successive prefer first ranges) :
    ranges.Pairwise fun range later ↦ range.1 < later.1 := by
  apply List.Pairwise.imp_of_mem _ h.apart
  intro range later hmem _ hle
  have hrange := h.preferred range hmem
  omega

/-- A literal occurs where the text from there on begins with it. -/
theorem occursAt_eq_true {query text : List Char} :
    occursAt (fun a b ↦ a == b) query text start = true ↔ query <+: text.drop start := by
  rw [occursAt, Bool.and_eq_true, decide_eq_true_eq, ← List.length_drop]
  generalize text.drop start = rest
  induction query generalizing rest with
  | nil => simp
  | cons c query ih =>
    cases rest with
    | nil => simp
    | cons d rest =>
      rw [List.cons_prefix_cons, ← ih rest, List.length_cons, List.length_cons, List.zip_cons_cons,
        List.all_cons, Bool.and_eq_true, beq_iff_eq, Nat.add_le_add_iff_right]
      exact and_left_comm

section Documented

variable {crate : RegexCrate} {prefer : List Char → Bool → List Char → Nat → Option Nat}
  {fold : Char → Char → Bool} {query : List Char} {options : TerminalSearchOptions}
  {pattern : SearchPattern}

private theorem SearchPattern.new_eq_some
    (h : SearchPattern.new crate query options = some pattern) :
    crate.build (if options.regex then query else crate.escape query) (!options.caseSensitive) =
        some pattern.regex ∧
      pattern.overlap = !options.regex := by
  have ⟨regex, hbuild, hpattern⟩ := Option.map_eq_some_iff.mp h
  rw [← hpattern]
  exact ⟨hbuild, rfl⟩

/-- The ranges of a literal are all its occurrences. -/
theorem SearchPattern.rangesLoop_literal (hcrate : crate.Documented prefer fold)
    (h : SearchPattern.new crate query options = some pattern) (hliteral : options.regex = false)
    (text : List Char) (hfuel : text.length < fuel) :
    pattern.rangesLoop text fuel 0 =
      some (matchesFrom (prefer (crate.escape query) (!options.caseSensitive) text) 0
        text.length) := by
  have ⟨hbuild, hoverlap⟩ := new_eq_some h
  rw [hliteral] at hbuild hoverlap
  exact rangesLoop_overlap (hcrate.leftmostFirst _ _ _ hbuild) hoverlap (Nat.zero_le _) hfuel

/-- What a literal search finds. -/
theorem mem_ranges_literal (hcrate : crate.Documented prefer fold) {text : List Char} {stop : Nat} :
    (start, stop) ∈ matchesFrom (prefer (crate.escape query) (!options.caseSensitive) text) 0
        text.length ↔
      start < text.length ∧ 0 < query.length ∧ stop = start + query.length ∧
        occursAt (fun a b ↦ if !options.caseSensitive then fold a b else a == b) query text
          start = true := by
  rw [mem_matchesFrom, Nat.zero_add]
  constructor
  · intro ⟨_, hlt, hprefer, hne⟩
    rw [hcrate.escaped _ _ _ _ (Nat.le_of_lt hlt), Option.ite_none_right_eq_some,
      Option.some.injEq] at hprefer
    exact ⟨hlt, by omega, hprefer.2.symm, hprefer.1⟩
  · intro ⟨hlt, hpositive, hstop, hoccurs⟩
    refine ⟨Nat.zero_le _, hlt, ?_, by omega⟩
    rw [hcrate.escaped _ _ _ _ (Nat.le_of_lt hlt), if_pos hoccurs, hstop]

/-- The loop ends, with ranges that are not empty, lie in the text and start ever later: for a
literal those of all its occurrences, for an expression its successive matches. -/
theorem SearchPattern.ranges_exact (hcrate : crate.Documented prefer fold)
    (h : SearchPattern.new crate query options = some pattern) (text : List Char) :
    (∀ fuel, text.length < fuel → pattern.rangesLoop text fuel 0 = some (pattern.ranges text)) ∧
      (∀ range ∈ pattern.ranges text, range.1 < range.2 ∧ range.2 ≤ text.length) ∧
      (pattern.ranges text).Pairwise (fun range later ↦ range.1 < later.1) ∧
      (options.regex = false → options.caseSensitive = true → ∀ start stop,
        (start, stop) ∈ pattern.ranges text ↔
          0 < query.length ∧ stop = start + query.length ∧ query <+: text.drop start) ∧
      (options.regex = true →
        Successive (prefer query (!options.caseSensitive) text) 0 (pattern.ranges text)) := by
  have ⟨hbuild, hoverlap⟩ := new_eq_some h
  cases hregex : options.regex with
  | false =>
    have hloop (fuel : Nat) (hfuel : text.length < fuel) :=
      rangesLoop_literal hcrate h hregex text hfuel
    rw [hregex, if_neg Bool.false_ne_true] at hbuild
    have hfirst := hcrate.leftmostFirst _ _ _ hbuild
    have hranges : pattern.ranges text =
        matchesFrom (prefer (crate.escape query) (!options.caseSensitive) text) 0 text.length := by
      rw [ranges, hloop _ (Nat.lt_succ_self _), Option.getD_some]
    rw [hranges]
    refine ⟨hloop, ?_, pairwise_matchesFrom _ _ _, ?_, fun hfalse ↦ by cases hfalse⟩
    · intro range hmem
      have ⟨_, _, hprefer, hlt⟩ := mem_matchesFrom.mp hmem
      exact ⟨hlt, (hfirst.bounded _ _ _ hprefer).2⟩
    · intro _ hcase start stop
      rw [mem_ranges_literal hcrate]
      simp only [hcase, Bool.not_true, Bool.false_eq_true, if_false, occursAt_eq_true]
      constructor
      · exact fun hmem ↦ hmem.2
      · intro hmem
        have hlen := hmem.2.2.length_le
        rw [List.length_drop] at hlen
        exact ⟨by omega, hmem⟩
  | true =>
    rw [hregex, if_pos rfl] at hbuild
    rw [hregex] at hoverlap
    have hfirst := hcrate.leftmostFirst _ _ _ hbuild
    have hloop : ∀ fuel, text.length < fuel → ∃ ranges, pattern.rangesLoop text fuel 0 =
        some ranges ∧ Successive (prefer query (!options.caseSensitive) text) 0 ranges := fun fuel
      hfuel ↦ rangesLoop_successive (i := 0) hfirst hoverlap (Nat.zero_le _) hfuel
    have ⟨ranges, hranges, hsuccessive⟩ := hloop (text.length + 1) (Nat.lt_succ_self _)
    have hdefined : pattern.ranges text = ranges := by
      rw [SearchPattern.ranges, hranges, Option.getD_some]
    rw [hdefined]
    refine ⟨?_, ?_, hsuccessive.pairwise, ?_, fun _ ↦ hsuccessive⟩
    · intro fuel hfuel
      have hmore := rangesLoop_more hranges (fuel - (text.length + 1))
      rwa [Nat.add_sub_cancel' hfuel] at hmore
    · intro range hmem
      have ⟨_, hlt, hprefer⟩ := hsuccessive.preferred range hmem
      exact ⟨hlt, (hfirst.bounded _ _ _ hprefer).2⟩
    · intro hfalse
      cases hfalse

end Documented

/-! ### Literals -/

/-- What an expression without special characters is compiled to. -/
def Regex.literal (query : List Char) : Regex where
  findAt text offset :=
    ((List.range (text.length + 1)).find? fun start ↦
      decide (offset ≤ byteLength (text.take start)) &&
        occursAt (fun a b ↦ a == b) query text start).map fun start ↦
          (byteLength (text.take start), byteLength (text.take (start + query.length)))

/-- The crate on expressions without special characters. -/
def RegexCrate.literals : RegexCrate where
  escape query := query
  build expression _ := some (.literal expression)

/-- The match of an expression without special characters. -/
def literalMatch (query text : List Char) (start : Nat) : Option Nat :=
  if start ≤ text.length ∧ occursAt (fun a b ↦ a == b) query text start = true then
    some (start + query.length)
  else none

private theorem byteLength_take_le {text : List Char} {j : Nat} (hi : i ≤ text.length) :
    byteLength (text.take i) ≤ byteLength (text.take j) ↔ i ≤ j := by
  constructor
  · intro hle
    by_cases hij : j < i
    · have hlt := byteLength_take_lt hij hi
      omega
    · omega
  · intro hij
    rw [← Nat.add_sub_cancel' hij, List.take_add, byteLength_append]
    omega

private theorem Regex.literal_leftmostFirst (query : List Char) :
    (Regex.literal query).LeftmostFirst (literalMatch query) := by
  constructor
  · intro text start stop h
    rw [literalMatch, Option.ite_none_right_eq_some, Option.some.injEq, occursAt, Bool.and_eq_true,
      decide_eq_true_eq] at h
    omega
  · intro text i hi foundStart foundEnd hfind
    have ⟨start, hstart, hfound⟩ := Option.map_eq_some_iff.mp hfind
    rw [List.find?_range_eq_some] at hstart
    have ⟨hmatch, hmem, hfirst⟩ := hstart
    rw [Bool.and_eq_true, decide_eq_true_eq, byteLength_take_le hi] at hmatch
    rw [List.mem_range] at hmem
    refine ⟨start, start + query.length, hmatch.1, ?_, (Prod.mk.inj hfound).1.symm,
      (Prod.mk.inj hfound).2.symm, ?_⟩
    · rw [literalMatch, if_pos ⟨by omega, hmatch.2⟩]
    · intro other hle hlt
      have hnot := hfirst other hlt
      simp only [(byteLength_take_le hi).mpr hle, decide_true, Bool.true_and,
        Bool.not_eq_true'] at hnot
      rw [literalMatch, hnot]
      simp
  · intro text i hi hfind start hle hbound
    rw [Regex.literal, Option.map_eq_none_iff, List.find?_range_eq_none] at hfind
    have hnot := hfind start (by omega)
    simp only [(byteLength_take_le hi).mpr hle, decide_true, Bool.true_and,
      Bool.not_eq_true'] at hnot
    rw [literalMatch, hnot]
    simp

/-- A crate of literals is as documented. -/
theorem RegexCrate.literals_documented :
    RegexCrate.literals.Documented (fun expression _ ↦ literalMatch expression)
      (fun a b ↦ a == b) := by
  constructor
  · intro expression caseInsensitive regex h
    cases h
    exact Regex.literal_leftmostFirst expression
  · intro query caseInsensitive text start hle
    simp only [literalMatch, hle, true_and, literals, ite_self]

/-- The overlapping occurrences of a literal between characters of several bytes. -/
theorem SearchPattern.ranges_exact_sample :
    let pattern : SearchPattern := ⟨.literal ['é', 'é'], true⟩
    pattern.ranges ['é', 'é', 'é', 'a'] = [(0, 2), (1, 3)] ∧
      (pattern.ranges ['é', 'é', 'é', 'a']).Pairwise (fun range later ↦ range.1 < later.1) :=
  ⟨by decide +kernel,
    (@SearchPattern.ranges_exact .literals _ _ ['é', 'é'] { caseSensitive := true } _
      RegexCrate.literals_documented rfl ['é', 'é', 'é', 'a']).2.2.1⟩

end Bootty.Terminal
