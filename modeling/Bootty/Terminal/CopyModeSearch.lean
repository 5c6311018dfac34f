import Bootty.Base.Spans
import Bootty.Terminal.TerminalSearch
import Mathlib.Data.List.DropRight
import Mathlib.Data.Prod.Lex
import Mathlib.Order.Lattice

/-!
# Search in copy mode

The matches of a search on the screen and the one that a step goes to
(`crates/bootty-terminal/src/terminal_engine/copy_mode.rs:543–697` and
`crates/bootty-terminal/src/terminal_engine/logical_search.rs:69–85`). A step forward visits the
match after one whose start the cursor is on, while a step back leaves out those that overlap it.
-/

namespace Bootty.Terminal

open Bootty.Base

/-- `libghostty_vt::terminal::PointCoordinate`. -/
structure PointCoordinate where
  x : Nat
  y : Nat
  deriving DecidableEq, Repr

namespace PointCoordinate

/-- `copy_mode.rs:691–693`. -/
def pointBefore (point cursor : PointCoordinate) : Bool :=
  decide (point.y < cursor.y) || decide (point.y = cursor.y) && decide (point.x < cursor.x)

/-- `copy_mode.rs:695–697`. -/
def pointAfter (point cursor : PointCoordinate) : Bool :=
  decide (cursor.y < point.y) || decide (cursor.y = point.y) && decide (cursor.x < point.x)

/-- The coordinates in the order in which they are compared. -/
def rowFirst (point : PointCoordinate) : ℕ ×ₗ ℕ := toLex (point.y, point.x)

private theorem rowFirst_injective : Function.Injective rowFirst := by
  intro point other h
  have heq := Prod.mk.inj (toLex.injective h)
  cases point
  cases other
  exact congrArg₂ PointCoordinate.mk heq.2 heq.1

/-- Points are in the order in which they are read. -/
instance : LinearOrder PointCoordinate := LinearOrder.lift' rowFirst rowFirst_injective

private theorem lt_iff {point cursor : PointCoordinate} :
    point < cursor ↔ point.y < cursor.y ∨ point.y = cursor.y ∧ point.x < cursor.x :=
  Prod.Lex.toLex_lt_toLex

private theorem le_iff {point cursor : PointCoordinate} :
    point ≤ cursor ↔ point.y < cursor.y ∨ point.y = cursor.y ∧ point.x ≤ cursor.x :=
  Prod.Lex.toLex_le_toLex

private theorem pointBefore_eq (point cursor : PointCoordinate) :
    point.pointBefore cursor = decide (point < cursor) := by
  rw [Bool.eq_iff_iff, decide_eq_true_eq, lt_iff]
  simp [pointBefore]

private theorem pointAfter_eq (point cursor : PointCoordinate) :
    point.pointAfter cursor = decide (cursor < point) := by
  rw [Bool.eq_iff_iff, decide_eq_true_eq, lt_iff]
  simp [pointAfter]

end PointCoordinate

/-- `logical_search.rs:6–10`: the first and the last point of a match. -/
abbrev CopyModeSearchMatch : Type := Span PointCoordinate

/-- The width of a cell. -/
inductive CellWide where
  | narrow
  | wide
  | spacerHead
  | spacerTail
  deriving DecidableEq, Repr

/-- A cell of the screen with the characters of its grapheme. -/
structure ScreenCell where
  wide : CellWide
  graphemes : List Char
  deriving DecidableEq, Repr

/-- A row of the screen, and whether the next one continues it. -/
structure ScreenRow where
  cells : List ScreenCell
  wrapped : Bool
  deriving DecidableEq, Repr

/-- A character of a logical line, with the points at which its cell starts and ends. -/
structure LogicalChar where
  char : Char
  start : PointCoordinate
  stop : PointCoordinate
  deriving DecidableEq, Repr

/-- `copy_mode.rs:15–20`. -/
inductive TerminalSearchDirection where
  | previous
  | current
  | next
  deriving DecidableEq, Repr

/-- `logical_search.rs:69–85`. -/
def copyModeLogicalSearchMatches (line : List LogicalChar) (query : SearchPattern) :
    List CopyModeSearchMatch :=
  (query.ranges (line.map LogicalChar.char)).filterMap fun (start, stop) ↦
    if stop ≤ line.length then
      let matched := (line.take stop).drop start
      (matched.head?).bind fun first ↦ (matched.getLast?).map fun last ↦ ⟨first.start, last.stop⟩
    else none

/-- The characters of a row from a column on, `copy_mode.rs:556–590`. -/
def rowChars (y : Nat) : Nat → List ScreenCell → List LogicalChar
  | _, [] => []
  | x, cell :: cells =>
    if cell.wide = .spacerHead ∨ cell.wide = .spacerTail then rowChars y (x + 1) cells
    else
      let stop : PointCoordinate := ⟨if cell.wide = .wide then x + 1 else x, y⟩
      let chars := if cell.graphemes.isEmpty then [' '] else cell.graphemes
      chars.map (fun char ↦ ⟨char, ⟨x, y⟩, stop⟩) ++ rowChars y (x + 1) cells

/-- The loop of `copy_mode.rs:555–601` over the rows from `y` on. -/
def searchRows (query : SearchPattern) : Nat → List LogicalChar → List ScreenRow →
    List CopyModeSearchMatch
  | _, logical, [] => copyModeLogicalSearchMatches logical query
  | y, logical, row :: rows =>
    let logical := logical ++ rowChars y 0 row.cells
    if row.wrapped then searchRows query (y + 1) logical rows
    else
      copyModeLogicalSearchMatches (logical.rdropWhile (·.char == ' ')) query ++
        searchRows query (y + 1) [] rows

/-- `copy_mode.rs:543–606`. -/
def copyModeSearchMatches (query : SearchPattern) (rows : List ScreenRow) :
    List CopyModeSearchMatch :=
  searchRows query 0 [] rows

/-- `copy_mode.rs:684–689`. -/
def copyModeSearchMatchContains (candidate : CopyModeSearchMatch) (point : PointCoordinate) :
    Bool :=
  !point.pointBefore candidate.first && !point.pointAfter candidate.last

/-- `copy_mode.rs:608–653`. -/
def copyModeSearchTarget (candidates : List CopyModeSearchMatch) (cursor : PointCoordinate) :
    TerminalSearchDirection → Option CopyModeSearchMatch
  | .current =>
    (candidates.find? fun candidate ↦ copyModeSearchMatchContains candidate cursor).or
      ((candidates.find? fun candidate ↦ candidate.first.pointAfter cursor).or candidates.head?)
  | .next =>
    (candidates.find? fun candidate ↦
        !copyModeSearchMatchContains candidate cursor && candidate.first.pointAfter cursor).or
      ((candidates.find? fun candidate ↦ !copyModeSearchMatchContains candidate cursor).or
        candidates.head?)
  | .previous =>
    (candidates.reverse.find? fun candidate ↦
        !copyModeSearchMatchContains candidate cursor && candidate.first.pointBefore cursor).or
      ((candidates.reverse.find? fun candidate ↦
        !copyModeSearchMatchContains candidate cursor).or candidates.getLast?)

/-! ### Steps -/

private theorem copyModeSearchMatchContains_eq (candidate : CopyModeSearchMatch)
    (point : PointCoordinate) :
    copyModeSearchMatchContains candidate point = candidate.contains point := by
  rw [copyModeSearchMatchContains, PointCoordinate.pointBefore_eq, PointCoordinate.pointAfter_eq]
  rfl

private theorem copyModeSearchTarget_next (candidates : List CopyModeSearchMatch)
    (cursor : PointCoordinate) :
    copyModeSearchTarget candidates cursor .next = Span.stepForward candidates cursor := by
  simp only [copyModeSearchTarget, copyModeSearchMatchContains_eq, PointCoordinate.pointAfter_eq]
  rfl

private theorem copyModeSearchTarget_previous (candidates : List CopyModeSearchMatch)
    (cursor : PointCoordinate) :
    copyModeSearchTarget candidates cursor .previous = Span.stepBack candidates cursor := by
  simp only [copyModeSearchTarget, copyModeSearchMatchContains_eq, PointCoordinate.pointBefore_eq]
  rfl

/-! ### Characters of the screen -/

/-- Neither the start nor the stop of a cell is behind those of another. -/
def LogicalChar.Before (char later : LogicalChar) : Prop :=
  char.start ≤ later.start ∧ char.stop ≤ later.stop

/-- The characters lie in a row, from a column on. -/
structure LogicalChar.InRow (y x : Nat) (char : LogicalChar) : Prop where
  startRow : char.start.y = y
  stopRow : char.stop.y = y
  column : x ≤ char.start.x
  width : char.start.x ≤ char.stop.x

private theorem inRow_of_mem_rowChars {y x : Nat} {cells : List ScreenCell} {char : LogicalChar}
    (h : char ∈ rowChars y x cells) : char.InRow y x := by
  induction cells generalizing x with
  | nil => cases h
  | cons cell cells ih =>
    have hlater (hmem : char ∈ rowChars y (x + 1) cells) : char.InRow y x := by
      have hrow := ih hmem
      exact ⟨hrow.startRow, hrow.stopRow, Nat.le_of_succ_le hrow.column, hrow.width⟩
    rw [rowChars] at h
    split at h
    · exact hlater h
    · cases List.mem_append.mp h with
      | inl hmem =>
        have ⟨_, _, hchar⟩ := List.mem_map.mp hmem
        rw [← hchar]
        refine ⟨rfl, rfl, Nat.le_refl x, ?_⟩
        show x ≤ if cell.wide = .wide then x + 1 else x
        split <;> omega
      | inr hmem => exact hlater hmem

private theorem pairwise_rowChars (y x : Nat) (cells : List ScreenCell) :
    (rowChars y x cells).Pairwise LogicalChar.Before := by
  induction cells generalizing x with
  | nil => exact .nil
  | cons cell cells ih =>
    rw [rowChars]
    split
    · exact ih (x + 1)
    · rw [List.pairwise_append]
      refine ⟨?_, ih (x + 1), ?_⟩
      · rw [List.pairwise_map]
        exact List.pairwise_of_forall fun _ _ ↦ ⟨le_refl _, le_refl _⟩
      · intro char hchar later hlater
        have ⟨_, _, heq⟩ := List.mem_map.mp hchar
        have hrow := inRow_of_mem_rowChars hlater
        have hcolumn := hrow.column
        have hwidth := hrow.width
        rw [← heq]
        constructor
        · rw [PointCoordinate.le_iff]
          exact .inr ⟨hrow.startRow.symm, by dsimp only; omega⟩
        · rw [PointCoordinate.le_iff]
          refine .inr ⟨hrow.stopRow.symm, ?_⟩
          dsimp only
          split <;> omega

/-- The characters of the rows from one on. -/
def screenChars : Nat → List ScreenRow → List LogicalChar
  | _, [] => []
  | y, row :: rows => rowChars y 0 row.cells ++ screenChars (y + 1) rows

private theorem le_of_mem_screenChars {y : Nat} {rows : List ScreenRow} {char : LogicalChar}
    (h : char ∈ screenChars y rows) :
    y ≤ char.start.y ∧ y ≤ char.stop.y ∧ char.start ≤ char.stop := by
  induction rows generalizing y with
  | nil => cases h
  | cons row rows ih =>
    cases List.mem_append.mp h with
    | inl hmem =>
      have hrow := inRow_of_mem_rowChars hmem
      have hsame : char.start.y = char.stop.y := hrow.startRow.trans hrow.stopRow.symm
      exact ⟨Nat.le_of_eq hrow.startRow.symm, Nat.le_of_eq hrow.stopRow.symm,
        PointCoordinate.le_iff.mpr (.inr ⟨hsame, hrow.width⟩)⟩
    | inr hmem =>
      have hbelow := ih hmem
      exact ⟨Nat.le_of_succ_le hbelow.1, Nat.le_of_succ_le hbelow.2.1, hbelow.2.2⟩

private theorem pairwise_screenChars (y : Nat) (rows : List ScreenRow) :
    (screenChars y rows).Pairwise LogicalChar.Before := by
  induction rows generalizing y with
  | nil => exact .nil
  | cons row rows ih =>
    rw [screenChars, List.pairwise_append]
    refine ⟨pairwise_rowChars y 0 row.cells, ih (y + 1), ?_⟩
    intro char hchar later hlater
    have hrow := inRow_of_mem_rowChars hchar
    have hbelow := le_of_mem_screenChars hlater
    have hstart := hrow.startRow
    have hstop := hrow.stopRow
    constructor
    · rw [PointCoordinate.le_iff]
      left
      omega
    · rw [PointCoordinate.le_iff]
      left
      omega

/-! ### Logical lines -/

/-- The logical lines of the rows. -/
def searchLines : List LogicalChar → Nat → List ScreenRow → List (List LogicalChar)
  | logical, _, [] => [logical]
  | logical, y, row :: rows =>
    let logical := logical ++ rowChars y 0 row.cells
    if row.wrapped then searchLines logical (y + 1) rows
    else logical.rdropWhile (·.char == ' ') :: searchLines [] (y + 1) rows

private theorem searchRows_eq (query : SearchPattern) (y : Nat) (logical : List LogicalChar)
    (rows : List ScreenRow) :
    searchRows query y logical rows =
      (searchLines logical y rows).flatMap fun line ↦ copyModeLogicalSearchMatches line query := by
  induction rows generalizing y logical with
  | nil => simp [searchRows, searchLines]
  | cons row rows ih =>
    rw [searchRows, searchLines]
    split
    · exact ih (y + 1) _
    · rw [List.flatMap_cons, ih]

/-- The lines are made of characters of the screen. -/
theorem searchLines_sublist (logical : List LogicalChar) (y : Nat) (rows : List ScreenRow) :
    (searchLines logical y rows).flatten.Sublist (logical ++ screenChars y rows) := by
  induction rows generalizing y logical with
  | nil => simp [searchLines, screenChars]
  | cons row rows ih =>
    rw [searchLines, screenChars, ← List.append_assoc]
    split
    · exact ih _ (y + 1)
    · rw [List.flatten_cons]
      have hrest := ih [] (y + 1)
      rw [List.nil_append] at hrest
      exact (List.rdropWhile_prefix _ _).sublist.append hrest

/-- A match starts and stops with characters of its line. -/
theorem mem_copyModeLogicalSearchMatches {chars : List LogicalChar} {start stop : Nat}
    {found : CopyModeSearchMatch} (hlt : start < stop)
    (h : (if stop ≤ chars.length then
        (((chars.take stop).drop start).head?).bind fun first ↦
          (((chars.take stop).drop start).getLast?).map fun last ↦
            (⟨first.start, last.stop⟩ : CopyModeSearchMatch)
      else none) = some found) :
    ∃ first last, chars[start]? = some first ∧ chars[stop - 1]? = some last ∧
      found = ⟨first.start, last.stop⟩ := by
  rw [Option.ite_none_right_eq_some, Option.bind_eq_some_iff] at h
  have ⟨hstop, first, hfirst, hmap⟩ := h
  have ⟨last, hlast, hfound⟩ := Option.map_eq_some_iff.mp hmap
  rw [List.head?_drop, List.getElem?_take_of_lt hlt] at hfirst
  rw [List.getLast?_eq_getElem?, List.length_drop, List.length_take_of_le hstop, List.getElem?_drop,
    List.getElem?_take_of_lt (by omega),
    show start + (stop - start - 1) = stop - 1 by omega] at hlast
  exact ⟨first, last, hfirst, hlast, hfound.symm⟩

/-- The matches of a line are in order if the ranges of the query are. -/
theorem pairwise_copyModeLogicalSearchMatches {chars : List LogicalChar} {query : SearchPattern}
    (hline : chars.Pairwise LogicalChar.Before)
    (hranges : (query.ranges (chars.map LogicalChar.char)).Pairwise fun range later ↦
      range.1 < range.2 ∧ range.1 ≤ later.1 ∧ later.1 < later.2 ∧ range.2 ≤ later.2) :
    (copyModeLogicalSearchMatches chars query).Pairwise fun found later ↦
      found.first ≤ later.first ∧ found.last ≤ later.last := by
  have hbefore {i j : Nat} {char later : LogicalChar} (hij : i ≤ j)
      (hchar : chars[i]? = some char) (hlater : chars[j]? = some later) : char.Before later := by
    by_cases heq : i = j
    · rw [heq, hlater, Option.some.injEq] at hchar
      rw [hchar]
      exact ⟨le_refl _, le_refl _⟩
    · have ⟨hi, hchar'⟩ := List.getElem?_eq_some_iff.mp hchar
      have ⟨hj, hlater'⟩ := List.getElem?_eq_some_iff.mp hlater
      rw [← hchar', ← hlater']
      exact List.pairwise_iff_getElem.mp hline i j hi hj (by omega)
  rw [copyModeLogicalSearchMatches, List.pairwise_filterMap]
  apply hranges.imp
  intro range range' ⟨hlt, hstart, hlt', hstop⟩ found hfound later hlater
  have ⟨first, last, hfirst, hlast, heq⟩ := mem_copyModeLogicalSearchMatches hlt hfound
  have ⟨first', last', hfirst', hlast', heq'⟩ := mem_copyModeLogicalSearchMatches hlt' hlater
  rw [heq, heq']
  exact ⟨(hbefore hstart hfirst hfirst').1, (hbefore (by omega) hlast hlast').2⟩

/-- The matches of all ranges that are in order are so, too. -/
theorem copyModeSearchMatches_ordered {query : SearchPattern}
    (hlt : ∀ text, ∀ range ∈ query.ranges text, range.1 < range.2)
    (hranges : ∀ text, (query.ranges text).Pairwise fun range later ↦
      range.1 ≤ later.1 ∧ range.2 ≤ later.2) (rows : List ScreenRow) :
    Span.Ordered (copyModeSearchMatches query rows) := by
  have hsublist := searchLines_sublist [] 0 rows
  rw [List.nil_append] at hsublist
  have ⟨hlines, hacross⟩ :=
    List.pairwise_flatten.mp ((pairwise_screenChars 0 rows).sublist hsublist)
  have hends {line : List LogicalChar} (hline : line ∈ searchLines [] 0 rows)
      {found : CopyModeSearchMatch} (hfound : found ∈ copyModeLogicalSearchMatches line query) :
      ∃ first last : LogicalChar, first ∈ line ∧ last ∈ line ∧
        found = ⟨first.start, last.stop⟩ ∧ first.start ≤ last.stop := by
    have ⟨range, hmem, hrange⟩ := List.mem_filterMap.mp hfound
    have hpositive := hlt _ range hmem
    have ⟨first, last, hfirst, hlast, heq⟩ := mem_copyModeLogicalSearchMatches hpositive hrange
    refine ⟨first, last, List.mem_of_getElem? hfirst, List.mem_of_getElem? hlast, heq, ?_⟩
    have hscreen : first ∈ screenChars 0 rows :=
      hsublist.subset (List.mem_flatten.mpr ⟨line, hline, List.mem_of_getElem? hfirst⟩)
    have hwidth := (le_of_mem_screenChars hscreen).2.2
    by_cases hsame : range.1 = range.2 - 1
    · rw [← hsame, hfirst, Option.some.injEq] at hlast
      rwa [← hlast]
    · have ⟨hi, hfirst'⟩ := List.getElem?_eq_some_iff.mp hfirst
      have ⟨hj, hlast'⟩ := List.getElem?_eq_some_iff.mp hlast
      have hbefore := List.pairwise_iff_getElem.mp (hlines line hline) _ _ hi hj (by omega)
      rw [hfirst', hlast'] at hbefore
      exact le_trans hwidth hbefore.2
  rw [copyModeSearchMatches, searchRows_eq]
  constructor
  · intro found hmem
    have ⟨line, hline, hfound⟩ := List.mem_flatMap.mp hmem
    have ⟨first, last, _, _, heq, hle⟩ := hends hline hfound
    rw [heq]
    exact hle
  · rw [List.pairwise_flatMap]
    constructor
    · intro line hline
      apply pairwise_copyModeLogicalSearchMatches (hlines line hline)
      apply (hranges _).imp_of_mem
      intro range later hrange hlater hle
      exact ⟨hlt _ range hrange, hle.1, hlt _ later hlater, hle.2⟩
    · apply hacross.imp_of_mem
      intro line line' hline hline' hbefore found hfound later hlater
      have ⟨first, last, hfirst, hlast, heq, _⟩ := hends hline hfound
      have ⟨first', last', hfirst', hlast', heq', _⟩ := hends hline' hlater
      rw [heq, heq']
      exact ⟨(hbefore first hfirst first' hfirst').1, (hbefore last hlast last' hlast').2⟩

/-! ### Steps between the matches of a literal -/

section Literal

variable {crate : RegexCrate} {prefer : List Char → Bool → List Char → Nat → Option Nat}
  {fold : Char → Char → Bool} {query : List Char} {options : TerminalSearchOptions}
  {pattern : SearchPattern}

private theorem copyModeSearchMatches_literal_ordered (hcrate : crate.Documented prefer fold)
    (h : SearchPattern.new crate query options = some pattern) (hliteral : options.regex = false)
    (rows : List ScreenRow) : Span.Ordered (copyModeSearchMatches pattern rows) := by
  have hranges (text : List Char) : pattern.ranges text =
      matchesFrom (prefer (crate.escape query) (!options.caseSensitive) text) 0 text.length := by
    rw [SearchPattern.ranges,
      SearchPattern.rangesLoop_literal hcrate h hliteral text (Nat.lt_succ_self _),
      Option.getD_some]
  apply copyModeSearchMatches_ordered
  · intro text range hmem
    rw [hranges] at hmem
    exact (mem_matchesFrom.mp hmem).2.2.2
  · intro text
    rw [hranges]
    apply (pairwise_matchesFrom _ _ _).imp_of_mem
    intro range later hrange hlater hlt
    obtain ⟨_, _, hstop, _⟩ := (mem_ranges_literal hcrate).mp hrange
    obtain ⟨_, _, hstop', _⟩ := (mem_ranges_literal hcrate).mp hlater
    omega

/-- With the cursor on the start of a match of a literal, a step forward visits the next match
exactly if that starts in a later cell (or there is no later start and it is like the first), and a
step back the match before exactly if that ends before the cursor (or all end at the cursor or
behind it, and it is like the last). -/
theorem copyModeSearchTarget_visits (hcrate : crate.Documented prefer fold)
    (h : SearchPattern.new crate query options = some pattern) (hliteral : options.regex = false)
    {rows : List ScreenRow} {i : Nat} {current : CopyModeSearchMatch}
    (hcurrent : (copyModeSearchMatches pattern rows)[i]? = some current) :
    let found := copyModeSearchMatches pattern rows
    (copyModeSearchTarget found current.first .next = found[(i + 1) % found.length]? ↔
        i + 1 = found.length ∨ ∃ next, found[i + 1]? = some next ∧
          (current.first < next.first ∨
            (∀ other ∈ found, other.first ≤ current.first) ∧ found.head? = some next)) ∧
      (copyModeSearchTarget found current.first .previous =
          found[(i + found.length - 1) % found.length]? ↔
        i = 0 ∨ ∃ previous, found[i - 1]? = some previous ∧
          (previous.last < current.first ∨
            (∀ other ∈ found, current.first ≤ other.last) ∧ found.getLast? = some previous)) := by
  have hordered := copyModeSearchMatches_literal_ordered hcrate h hliteral rows
  dsimp only
  rw [copyModeSearchTarget_next, copyModeSearchTarget_previous]
  exact ⟨Span.stepForward_iff hordered hcurrent, Span.stepBack_iff hordered hcurrent⟩

end Literal

/-- A row of three equal characters. -/
def threeAlike : List ScreenRow :=
  [⟨List.replicate 3 ⟨.narrow, ['a']⟩, false⟩]

/-- Of two matches that overlap, a step back from the second stays on it. -/
theorem copyModeSearchTarget_stays :
    ∃ pattern current, SearchPattern.new .literals ['a', 'a'] {} = some pattern ∧
      (copyModeSearchMatches pattern threeAlike).length = 2 ∧
      (copyModeSearchMatches pattern threeAlike)[1]? = some current ∧
      copyModeSearchTarget (copyModeSearchMatches pattern threeAlike) current.first .previous =
        some current ∧
      (copyModeSearchMatches pattern threeAlike)[(1 + 2 - 1) % 2]? ≠ some current :=
  ⟨⟨.literal ['a', 'a'], true⟩, ⟨⟨1, 0⟩, ⟨2, 0⟩⟩, rfl, by decide +kernel⟩

/-- The steps from the second of two matches that overlap. -/
theorem copyModeSearchTarget_visits_sample :
    let found := copyModeSearchMatches ⟨.literal ['a', 'a'], true⟩ threeAlike
    copyModeSearchTarget found ⟨1, 0⟩ .next = found[(1 + 1) % found.length]? :=
  (@copyModeSearchTarget_visits .literals _ _ ['a', 'a'] {} _ RegexCrate.literals_documented rfl
    rfl threeAlike 1 ⟨⟨1, 0⟩, ⟨2, 0⟩⟩ (by decide +kernel)).1.mpr (.inl (by decide +kernel))

end Bootty.Terminal
