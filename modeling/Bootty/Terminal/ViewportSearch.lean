import Bootty.Terminal.CopyModeSearch
import Bootty.Terminal.Frame

/-!
# Search in the viewport

A search steps through the matches of the rows on the screen and pages through the scrollback where
there is none left (`crates/bootty-terminal/src/terminal_engine.rs:1875–1986, 2050–2068` and
`crates/bootty-terminal/src/terminal_engine/logical_search.rs:12–67, 87–130`). The last page of a
direction shares rows with the one before if the scrollback is not a multiple of the height, so that
a step may go back to a match there.
-/

namespace Bootty.Terminal

open Bootty.Base

/-- A cell of a row as it is rendered. -/
structure ScrollbackCell where
  x : Nat
  invisible : Bool
  text : List Char
  deriving DecidableEq, Repr

/-- A row of the scrollback, and whether the next one continues it. -/
structure ScrollbackRow where
  cells : List ScrollbackCell
  wrapped : Bool
  deriving DecidableEq, Repr

/-- All rows that can be scrolled to, the size of the screen, and the width of a grapheme, which is
Ghostty's. -/
structure Scrollback where
  rows : List ScrollbackRow
  cols : Nat
  height : Nat
  graphemeWidth : List Char → Nat

/-- What a search changes. -/
structure ViewportSearch where
  offset : Nat
  searchQuery : List Char
  searchOptions : TerminalSearchOptions
  searchPattern : Option SearchPattern
  searchActiveIndex : Nat

/-! ### Matches of a frame -/

/-- The row, the first and the last column of a character. -/
abbrev FramePosition : Type := Nat × Nat × Nat

/-- `logical_search.rs:16–26`: the texts of the cells of a row. -/
def rowSlots (cols : Nat) (row : ScrollbackRow) : List (Option (List Char)) :=
  row.cells.foldl
    (fun slots cell ↦
      if !cell.invisible && !cell.text.isEmpty then slots.set cell.x (some cell.text) else slots)
    (List.replicate cols none)

/-- `logical_search.rs:38–60`: the characters of a row from a column on. -/
def rowLogical (graphemeWidth : List Char → Nat) (rowIndex : Nat)
    (slots : List (Option (List Char))) (length col : Nat) : List (Char × FramePosition) :=
  if col < length then
    let chars := slots[col]?.join.getD [' ']
    let width := max (graphemeWidth chars) 1
    chars.map (fun char ↦ (char, rowIndex, col, min (col + width - 1) (slots.length - 1))) ++
      rowLogical graphemeWidth rowIndex slots length (col + width)
  else []
termination_by length - col
decreasing_by omega

/-- `logical_search.rs:104–130`: the rows and columns that are left to join. -/
def joinPositions (row startCol endCol : Nat) : List FramePosition → List FrameSelection
  | [] => [⟨row, startCol, endCol⟩]
  | (nextRow, nextCol, nextEnd) :: rest =>
    if nextRow = row ∧ nextCol ≤ endCol + 1 then joinPositions row startCol nextEnd rest
    else ⟨row, startCol, endCol⟩ :: joinPositions nextRow nextCol nextEnd rest

/-- `logical_search.rs:103–130`. -/
def pushPositionRange : List FramePosition → List FrameSelection
  | [] => []
  | (row, startCol, endCol) :: rest => joinPositions row startCol endCol rest

/-- `logical_search.rs:87–101`. -/
def pushFrameMatches (logical : List (Char × FramePosition)) (query : SearchPattern) :
    List (List FrameSelection) :=
  (query.ranges (logical.map Prod.fst)).filterMap fun (start, stop) ↦
    if start ≤ stop ∧ stop ≤ logical.length then
      some (pushPositionRange (((logical.take stop).drop start).map Prod.snd))
    else none

namespace Scrollback

variable (scrollback : Scrollback)

/-- The characters of a row of the frame, `logical_search.rs:30–60`. -/
def frameRow (rowIndex : Nat) (row : ScrollbackRow) : List (Char × FramePosition) :=
  let slots := rowSlots scrollback.cols row
  let length := if row.wrapped then slots.length else (slots.rdropWhile Option.isNone).length
  rowLogical scrollback.graphemeWidth rowIndex slots length 0

/-- The loop of `logical_search.rs:30–65` over the rows from one on. -/
def searchFrameRows (query : SearchPattern) : Nat → List (Char × FramePosition) →
    List ScrollbackRow → List (List FrameSelection)
  | _, logical, [] => pushFrameMatches logical query
  | rowIndex, logical, row :: rows =>
    let logical := logical ++ scrollback.frameRow rowIndex row
    if row.wrapped then searchFrameRows query (rowIndex + 1) logical rows
    else pushFrameMatches logical query ++ searchFrameRows query (rowIndex + 1) [] rows

/-- `logical_search.rs:12–67`, on the rows that are on the screen. -/
def frameSearchMatches (query : SearchPattern) (offset : Nat) : List (List FrameSelection) :=
  scrollback.searchFrameRows query 0 [] ((scrollback.rows.drop offset).take scrollback.height)

/-- The offset of the last rows. -/
def maxOffset : Nat := scrollback.rows.length - scrollback.height

/-- Scrolling stops at both ends. -/
def scroll (offset : Nat) (delta : Int) : Nat :=
  (max 0 (min ((offset : Int) + delta) scrollback.maxOffset)).toNat

end Scrollback

/-! ### Steps of a search -/

namespace ViewportSearch

variable (scrollback : Scrollback) (crate : RegexCrate)

/-- `terminal_engine.rs:1875–1889`; `none` is a pattern that is not valid. -/
def setSearchQuery (search : ViewportSearch) (query : List Char)
    (options : TerminalSearchOptions) : Option ViewportSearch :=
  if search.searchQuery ≠ query ∨ search.searchOptions ≠ options then do
    let pattern ←
      if query.isEmpty then some none else (SearchPattern.new crate query options).map some
    some { search with
      searchQuery := query, searchOptions := options, searchPattern := pattern,
      searchActiveIndex := 0 }
  else some search

/-- `terminal_engine.rs:2050–2068`: the number of matches on the screen. -/
def extractFrame (search : ViewportSearch) : Nat × ViewportSearch :=
  match search.searchPattern with
  | none => (0, search)
  | some pattern =>
    let searchMatchCount := (scrollback.frameSearchMatches pattern search.offset).length
    if 0 < searchMatchCount then
      (searchMatchCount,
        { search with searchActiveIndex := min search.searchActiveIndex (searchMatchCount - 1) })
    else (searchMatchCount, search)

/-- `terminal_engine.rs:1847–1850`. -/
def scrollViewportDelta (search : ViewportSearch) (delta : Int) : ViewportSearch :=
  { search with offset := scrollback.scroll search.offset delta }

/-- `terminal_engine.rs:1979–1986`. -/
def selectSearchMatch (search : ViewportSearch) (index : Nat) (pulse : Bool) :
    Bool × ViewportSearch :=
  let search := { search with searchActiveIndex := index }
  (true, if pulse then (search.extractFrame scrollback).2 else search)

/-- The loop of `terminal_engine.rs:1937–1957`, of at most as many turns as there is fuel, and
whether it has selected a match. -/
def pageLoop (direction : TerminalSearchDirection) (delta : Int) :
    Nat → ViewportSearch → Option (Bool × ViewportSearch)
  | 0, _ => none
  | fuel + 1, search =>
    let before := search.offset
    let (foundCount, search) :=
      (search.scrollViewportDelta scrollback delta).extractFrame scrollback
    if search.offset = before then some (false, search)
    else if 0 < foundCount then
      let index := if direction = .previous then foundCount - 1 else 0
      some (search.selectSearchMatch scrollback index (direction ≠ .current))
    else pageLoop direction delta fuel search

/-- `terminal_engine.rs:1959–1976`: a search that has found nothing goes back to where it was. -/
def restoreViewport (search : ViewportSearch) (initialOffset visibleCount : Nat) (pulse : Bool) :
    Bool × ViewportSearch :=
  let restoreDelta : Int := (initialOffset : Int) - search.offset
  let (found, search) :=
    if restoreDelta = 0 then (visibleCount, search)
    else (search.scrollViewportDelta scrollback restoreDelta).extractFrame scrollback
  if 0 < found then
    search.selectSearchMatch scrollback (min search.searchActiveIndex (found - 1)) pulse
  else (false, search)

/-- `terminal_engine.rs:1924–1976`: a search that leaves the screen. -/
def searchPages (search : ViewportSearch) (direction : TerminalSearchDirection)
    (visibleCount : Nat) : Option (Bool × ViewportSearch) := do
  let rows : Int := max scrollback.height 1
  let delta := if direction = .next then rows else -rows
  let (selected, after) ← search.pageLoop scrollback direction delta (scrollback.rows.length + 1)
  if selected then some (true, after)
  else some (after.restoreViewport scrollback search.offset visibleCount (direction ≠ .current))

/-- `terminal_engine.rs:1894–1977`. -/
def searchViewportWithOptions (search : ViewportSearch) (query : List Char)
    (direction : TerminalSearchDirection) (options : TerminalSearchOptions) :
    Option (Bool × ViewportSearch) := do
  let search ← search.setSearchQuery crate query options
  if query.isEmpty then some (false, (search.extractFrame scrollback).2)
  else
    let (visibleCount, search) := search.extractFrame scrollback
    if 0 < visibleCount ∧ direction = .current then some (true, search)
    else if 0 < visibleCount ∧ direction = .next ∧ search.searchActiveIndex + 1 < visibleCount then
      some (search.selectSearchMatch scrollback (search.searchActiveIndex + 1) true)
    else if 0 < visibleCount ∧ direction = .previous ∧ 0 < search.searchActiveIndex then
      some (search.selectSearchMatch scrollback (search.searchActiveIndex - 1) true)
    else search.searchPages scrollback direction visibleCount

/-- Successive searches for one query. -/
def searches (query : List Char) (options : TerminalSearchOptions) :
    ViewportSearch → List TerminalSearchDirection → Option ViewportSearch
  | search, [] => some search
  | search, direction :: directions => do
    let (_, search) ← search.searchViewportWithOptions scrollback crate query direction options
    searches query options search directions

end ViewportSearch

/-! ### Matches in the order of the scrollback -/

variable {offset : Nat}

namespace Scrollback

variable {scrollback : Scrollback} {query : SearchPattern}

/-- The matches in a row that is not continued. -/
def rowMatchCount (scrollback : Scrollback) (query : SearchPattern) (row : ScrollbackRow) : Nat :=
  (pushFrameMatches (scrollback.frameRow 0 row) query).length

/-- The matches in the rows above one. -/
def matchesBefore (scrollback : Scrollback) (query : SearchPattern) (y : Nat) : Nat :=
  ((scrollback.rows.take y).map (scrollback.rowMatchCount query)).sum

private theorem rowLogical_chars (graphemeWidth : List Char → Nat) (rowIndex rowIndex' : Nat)
    (slots : List (Option (List Char))) (length col : Nat) :
    (rowLogical graphemeWidth rowIndex slots length col).map Prod.fst =
      (rowLogical graphemeWidth rowIndex' slots length col).map Prod.fst := by
  fun_induction rowLogical graphemeWidth rowIndex slots length col with
  | case1 col hlt chars width ih =>
    rw [rowLogical.eq_1 graphemeWidth rowIndex', if_pos hlt, List.map_append, List.map_append, ih,
      List.map_map, List.map_map]
    rfl
  | case2 col hlt => rw [rowLogical.eq_1 graphemeWidth rowIndex', if_neg hlt]

private theorem length_pushFrameMatches {logical logical' : List (Char × FramePosition)}
    (h : logical.map Prod.fst = logical'.map Prod.fst) :
    (pushFrameMatches logical query).length = (pushFrameMatches logical' query).length := by
  have hlen : logical.length = logical'.length := by simpa using congrArg List.length h
  rw [pushFrameMatches, pushFrameMatches, h, hlen]
  induction query.ranges (logical'.map Prod.fst) with
  | nil => rfl
  | cons range ranges ih =>
    rw [List.filterMap_cons, List.filterMap_cons]
    by_cases hvalid : range.1 ≤ range.2 ∧ range.2 ≤ logical'.length
    · simp only [hvalid, and_self, if_true, List.length_cons, ih]
    · simp only [hvalid, if_false, ih]

private theorem pushFrameMatches_nil : pushFrameMatches [] query = [] := by
  simp [pushFrameMatches, SearchPattern.ranges, SearchPattern.rangesLoop]

/-- Rows that are not continued have the matches of each. -/
theorem length_searchFrameRows {rows : List ScrollbackRow}
    (h : ∀ row ∈ rows, row.wrapped = false) (rowIndex : Nat) :
    (scrollback.searchFrameRows query rowIndex [] rows).length =
      (rows.map (scrollback.rowMatchCount query)).sum := by
  induction rows generalizing rowIndex with
  | nil => rw [searchFrameRows, pushFrameMatches_nil]; rfl
  | cons row rows ih =>
    have ⟨hrow, hrows⟩ := List.forall_mem_cons.mp h
    rw [searchFrameRows, hrow, if_neg Bool.false_ne_true, List.length_append, ih hrows,
      List.map_cons, List.sum_cons, List.nil_append, rowMatchCount]
    congr 1
    exact length_pushFrameMatches (rowLogical_chars _ _ _ _ _ _)

/-- The matches on the screen are those above its last row that are not above its first. -/
theorem matchesBefore_add (query : SearchPattern)
    (h : ∀ row ∈ scrollback.rows, row.wrapped = false) (offset : Nat) :
    scrollback.matchesBefore query offset + (scrollback.frameSearchMatches query offset).length =
      scrollback.matchesBefore query (offset + scrollback.height) := by
  have hrows : ∀ row ∈ (scrollback.rows.drop offset).take scrollback.height, row.wrapped = false :=
    fun row hmem ↦ h row (List.mem_of_mem_drop (List.mem_of_mem_take hmem))
  rw [frameSearchMatches, length_searchFrameRows hrows, matchesBefore, matchesBefore, List.take_add,
    List.map_append, List.sum_append]

private theorem matchesBefore_mono (query : SearchPattern) {y y' : Nat} (h : y ≤ y') :
    scrollback.matchesBefore query y ≤ scrollback.matchesBefore query y' := by
  rw [matchesBefore, matchesBefore, ← Nat.add_sub_cancel' h, List.take_add, List.map_append,
    List.sum_append]
  exact Nat.le_add_right _ _

private theorem matchesBefore_of_le (query : SearchPattern) {y : Nat}
    (h : scrollback.rows.length ≤ y) :
    scrollback.matchesBefore query y = scrollback.matchesBefore query scrollback.rows.length := by
  rw [matchesBefore, matchesBefore, List.take_of_length_le h, List.take_length]

private theorem scroll_of_le {delta : Int} {offset' : Nat} (h : (offset : Int) + delta = offset')
    (hle : offset' ≤ scrollback.maxOffset) :
    scrollback.scroll offset delta = offset' := by
  rw [scroll, h]
  omega

private theorem scroll_add (offset : Nat) (rows : Nat) :
    scrollback.scroll offset rows = min (offset + rows) scrollback.maxOffset := by
  rw [scroll]
  omega

private theorem scroll_sub (h : offset ≤ scrollback.maxOffset) (rows : Nat) :
    scrollback.scroll offset (-(rows : Int)) = offset - rows := by
  rw [scroll]
  omega

end Scrollback

namespace ViewportSearch

variable {scrollback : Scrollback} {crate : RegexCrate} {pattern : SearchPattern}

/-! ### Places -/

/-- A search at an offset, with an active match. -/
def place (search : ViewportSearch) (offset index : Nat) : ViewportSearch :=
  { search with offset := offset, searchActiveIndex := index }

/-- The number of matches on the screen at an offset. -/
def visibleCount (scrollback : Scrollback) (pattern : SearchPattern) (offset : Nat) : Nat :=
  (scrollback.frameSearchMatches pattern offset).length

/-- An index that is not above those of the matches on the screen. -/
def clampIndex (scrollback : Scrollback) (pattern : SearchPattern) (offset index : Nat) : Nat :=
  if 0 < visibleCount scrollback pattern offset then
    min index (visibleCount scrollback pattern offset - 1)
  else index

variable {index : Nat}

private theorem clampIndex_of_lt (h : index < visibleCount scrollback pattern offset) :
    clampIndex scrollback pattern offset index = index := by
  rw [clampIndex, if_pos (by omega)]
  omega

private theorem clampIndex_of_eq_zero (h : visibleCount scrollback pattern offset = 0)
    (index : Nat) :
    clampIndex scrollback pattern offset index = index := by
  rw [clampIndex, if_neg (by omega)]

private theorem extractFrame_place {search : ViewportSearch}
    (h : search.searchPattern = some pattern)
    (offset index : Nat) :
    (search.place offset index).extractFrame scrollback =
      (visibleCount scrollback pattern offset,
        search.place offset (clampIndex scrollback pattern offset index)) := by
  simp only [extractFrame, place, h]
  unfold clampIndex visibleCount
  split <;> rfl

private theorem scrollViewportDelta_place (search : ViewportSearch) (offset index : Nat)
    (delta : Int) :
    (search.place offset index).scrollViewportDelta scrollback delta =
      search.place (scrollback.scroll offset delta) index := rfl

private theorem selectSearchMatch_place {search : ViewportSearch}
    (h : search.searchPattern = some pattern)
    {index' : Nat} (index : Nat) (pulse : Bool)
    (hlt : index' < visibleCount scrollback pattern offset) :
    (search.place offset index).selectSearchMatch scrollback index' pulse =
      (true, search.place offset index') := by
  have hplace : { search.place offset index with searchActiveIndex := index' } =
      search.place offset index' := rfl
  rw [selectSearchMatch]
  simp only [hplace, extractFrame_place h, clampIndex_of_lt hlt, ite_self]

/-! ### Pages -/

section Pages

variable {base : ViewportSearch} (hpattern : base.searchPattern = some pattern)
include hpattern

/-- One turn of the loop from a place. -/
theorem pageLoop_place {direction : TerminalSearchDirection} {delta : Int} {offset' : Nat}
    (hscroll : scrollback.scroll offset delta = offset') (fuel index : Nat) :
    pageLoop scrollback direction delta (fuel + 1) (base.place offset index) =
      if offset' = offset then
        some (false, base.place offset' (clampIndex scrollback pattern offset' index))
      else if 0 < visibleCount scrollback pattern offset' then
        some (true, base.place offset'
          (if direction = .previous then visibleCount scrollback pattern offset' - 1 else 0))
      else pageLoop scrollback direction delta fuel (base.place offset' index) := by
  rw [pageLoop]
  simp only [scrollViewportDelta_place, hscroll, extractFrame_place hpattern]
  show (if offset' = offset then _ else _) = _
  split
  · rfl
  · split
    next hcount =>
      rw [selectSearchMatch_place hpattern]
      split <;> omega
    next hcount => rw [clampIndex_of_eq_zero (by omega)]

variable (hunwrapped : ∀ row ∈ scrollback.rows, row.wrapped = false)
include hunwrapped

/-- Paging forward finds the first page with a match below the screen, or ends at the last rows. -/
theorem pageLoop_next (hheight : 0 < scrollback.height) {fuel : Nat}
    (hlt : offset < scrollback.maxOffset) (hfuel : scrollback.maxOffset - offset < fuel)
    (index : Nat) :
    let first := min (offset + scrollback.height) scrollback.maxOffset
    (∃ page, offset < page ∧ page ≤ scrollback.maxOffset ∧
        pageLoop scrollback .next scrollback.height fuel (base.place offset index) =
          some (true, base.place page 0) ∧
        scrollback.matchesBefore pattern page = scrollback.matchesBefore pattern first ∧
        0 < visibleCount scrollback pattern page) ∨
      pageLoop scrollback .next scrollback.height fuel (base.place offset index) =
          some (false, base.place scrollback.maxOffset index) ∧
        scrollback.matchesBefore pattern (scrollback.maxOffset + scrollback.height) =
          scrollback.matchesBefore pattern first := by
  induction fuel generalizing offset with
  | zero => omega
  | succ fuel ih =>
    intro first
    rw [pageLoop_place hpattern (scrollback.scroll_add offset scrollback.height) fuel index]
    show _ ∨ (if first = offset then _ else _) = _ ∧ _
    have hmoved : first ≠ offset := by omega
    have hbound : first ≤ scrollback.maxOffset := by omega
    rw [if_neg hmoved]
    by_cases hcount : 0 < visibleCount scrollback pattern first
    · left
      rw [if_pos hcount]
      refine ⟨first, by omega, hbound, ?_, rfl, hcount⟩
      rfl
    · rw [if_neg hcount]
      have hnone : scrollback.matchesBefore pattern (first + scrollback.height) =
          scrollback.matchesBefore pattern first := by
        have hadd := scrollback.matchesBefore_add pattern hunwrapped first
        have hzero : (scrollback.frameSearchMatches pattern first).length = 0 := by
          rw [visibleCount] at hcount
          omega
        omega
      by_cases hend : first = scrollback.maxOffset
      · right
        cases fuel with
        | zero => omega
        | succ fuel =>
          have hstay : scrollback.scroll first scrollback.height = first := by
            rw [scrollback.scroll_add]
            omega
          rw [pageLoop_place hpattern hstay fuel index, if_pos rfl,
            clampIndex_of_eq_zero (by omega), ← hend]
          exact ⟨rfl, hnone⟩
      · -- The page after one without matches has none of its rows either.
        have hnext : scrollback.matchesBefore pattern
            (min (first + scrollback.height) scrollback.maxOffset) =
              scrollback.matchesBefore pattern first := by
          have hlower := scrollback.matchesBefore_mono pattern
            (show first ≤ min (first + scrollback.height) scrollback.maxOffset by omega)
          have hupper := scrollback.matchesBefore_mono pattern
            (show min (first + scrollback.height) scrollback.maxOffset ≤
              first + scrollback.height by omega)
          omega
        cases @ih first (by omega) (by omega) with
        | inl hfound =>
          have ⟨page, hpage, hle, hloop, hbefore, hpositive⟩ := hfound
          exact .inl ⟨page, by omega, hle, hloop, hbefore.trans hnext, hpositive⟩
        | inr hnot => exact .inr ⟨hnot.1, hnot.2.trans hnext⟩

/-- Paging back finds the first page with a match above the screen, or ends at the first rows. -/
theorem pageLoop_back (direction : TerminalSearchDirection) (hheight : 0 < scrollback.height)
    {fuel : Nat} (hpositive : 0 < offset) (hle : offset ≤ scrollback.maxOffset)
    (hfuel : offset < fuel) (index : Nat) :
    let last := max offset scrollback.height
    (∃ page index', page < offset ∧ index' < visibleCount scrollback pattern page ∧
        pageLoop scrollback direction (-(scrollback.height : Int)) fuel (base.place offset index) =
          some (true, base.place page index') ∧
        (direction = .previous → index' + 1 = visibleCount scrollback pattern page) ∧
        scrollback.matchesBefore pattern (page + scrollback.height) =
          scrollback.matchesBefore pattern last) ∨
      pageLoop scrollback direction (-(scrollback.height : Int)) fuel (base.place offset index) =
          some (false, base.place 0 index) ∧
        scrollback.matchesBefore pattern last = 0 := by
  induction fuel generalizing offset with
  | zero => omega
  | succ fuel ih =>
    intro last
    have hscroll := scrollback.scroll_sub hle scrollback.height
    rw [pageLoop_place hpattern hscroll fuel index, if_neg (by omega)]
    have hlast : offset - scrollback.height + scrollback.height = last := by omega
    by_cases hcount : 0 < visibleCount scrollback pattern (offset - scrollback.height)
    · left
      rw [if_pos hcount]
      refine ⟨offset - scrollback.height, _, by omega, ?_, rfl, ?_, by rw [hlast]⟩
      · split <;> omega
      · intro hdirection
        rw [if_pos hdirection]
        omega
    · rw [if_neg hcount]
      have hnone : scrollback.matchesBefore pattern last =
          scrollback.matchesBefore pattern (offset - scrollback.height) := by
        have hadd := scrollback.matchesBefore_add pattern hunwrapped
          (offset - scrollback.height)
        have hzero : (scrollback.frameSearchMatches pattern
            (offset - scrollback.height)).length = 0 := by
          rw [visibleCount] at hcount
          omega
        rw [hlast] at hadd
        omega
      by_cases hend : offset - scrollback.height = 0
      · right
        rw [hend] at hcount hnone ⊢
        cases fuel with
        | zero => omega
        | succ fuel =>
          have hstay := scrollback.scroll_sub (Nat.zero_le scrollback.maxOffset) scrollback.height
          rw [Nat.zero_sub] at hstay
          rw [pageLoop_place hpattern hstay fuel index, if_pos rfl,
            clampIndex_of_eq_zero (by omega)]
          exact ⟨rfl, hnone⟩
      · have hnext : scrollback.matchesBefore pattern
            (max (offset - scrollback.height) scrollback.height) =
              scrollback.matchesBefore pattern last := by
          have hlower := scrollback.matchesBefore_mono pattern
            (show offset - scrollback.height ≤
              max (offset - scrollback.height) scrollback.height by omega)
          have hupper := scrollback.matchesBefore_mono pattern
            (show max (offset - scrollback.height) scrollback.height ≤ last by omega)
          omega
        cases @ih (offset - scrollback.height) (by omega) (by omega) (by omega) with
        | inl hfound =>
          have ⟨page, index', hpage, hindex, hloop, hdirection, hbefore⟩ := hfound
          exact .inl ⟨page, index', by omega, hindex, hloop, hdirection, hbefore.trans hnext⟩
        | inr hnot => exact .inr ⟨hnot.1, hnext.symm.trans hnot.2⟩

end Pages

/-! ### Calls -/

private theorem visibleCount_of_height_eq_zero (h : scrollback.height = 0) (offset : Nat) :
    visibleCount scrollback pattern offset = 0 := by
  rw [visibleCount, Scrollback.frameSearchMatches, h, List.take_zero, Scrollback.searchFrameRows,
    Scrollback.pushFrameMatches_nil]
  rfl

private theorem clampIndex_lt (h : 0 < visibleCount scrollback pattern offset) (index : Nat) :
    clampIndex scrollback pattern offset index <
      visibleCount scrollback pattern offset := by
  rw [clampIndex, if_pos h]
  omega

private theorem clampIndex_idem (offset index : Nat) :
    clampIndex scrollback pattern offset (clampIndex scrollback pattern offset index) =
      clampIndex scrollback pattern offset index := by
  by_cases h : 0 < visibleCount scrollback pattern offset
  · exact clampIndex_of_lt (clampIndex_lt h index)
  · rw [clampIndex_of_eq_zero (by omega)]

/-- A search that has found nothing ends where it was. -/
theorem restoreViewport_place {base : ViewportSearch} (hpattern : base.searchPattern = some pattern)
    (hle : offset ≤ scrollback.maxOffset) (offset' index : Nat) (pulse : Bool) :
    (base.place offset' index).restoreViewport scrollback offset
        (visibleCount scrollback pattern offset) pulse =
      (decide (0 < visibleCount scrollback pattern offset),
        base.place offset (clampIndex scrollback pattern offset index)) := by
  have hselect (index : Nat) :
      (if 0 < visibleCount scrollback pattern offset then
          (base.place offset index).selectSearchMatch scrollback
            (min index (visibleCount scrollback pattern offset - 1)) pulse
        else (false, base.place offset index)) =
      (decide (0 < visibleCount scrollback pattern offset),
        base.place offset (clampIndex scrollback pattern offset index)) := by
    by_cases hcount : 0 < visibleCount scrollback pattern offset
    · rw [if_pos hcount, selectSearchMatch_place hpattern _ _ (by omega), decide_eq_true hcount,
        clampIndex, if_pos hcount]
    · rw [if_neg hcount, decide_eq_false hcount, clampIndex_of_eq_zero (by omega)]
  by_cases hsame : offset' = offset
  · have hdelta : (offset : Int) - offset' = 0 := by omega
    rw [hsame] at hdelta ⊢
    rw [restoreViewport]
    simp only [place, hdelta, if_true]
    exact hselect index
  · have hdelta : ¬ (offset : Int) - offset' = 0 := by omega
    have hback : scrollback.scroll offset' ((offset : Int) - offset') = offset :=
      scrollback.scroll_of_le (by omega) hle
    rw [restoreViewport]
    have hoffset : (base.place offset' index).offset = offset' := rfl
    simp only [hoffset, hdelta, if_false, scrollViewportDelta_place, hback,
      extractFrame_place hpattern]
    have hclamped := hselect (clampIndex scrollback pattern offset index)
    rw [clampIndex_idem] at hclamped
    exact hclamped

section Calls

variable {base : ViewportSearch} (hpattern : base.searchPattern = some pattern)
  (hunwrapped : ∀ row ∈ scrollback.rows, row.wrapped = false)
include hpattern hunwrapped

/-- A search forward that leaves the screen ends at the first match of another page, or where it
was. -/
theorem searchPages_next (hheight : 0 < scrollback.height) (hle : offset ≤ scrollback.maxOffset)
    (index : Nat) :
    let first := min (offset + scrollback.height) scrollback.maxOffset
    (∃ page, offset < page ∧ page ≤ scrollback.maxOffset ∧
        (base.place offset index).searchPages scrollback .next
          (visibleCount scrollback pattern offset) = some (true, base.place page 0) ∧
        scrollback.matchesBefore pattern page = scrollback.matchesBefore pattern first ∧
        0 < visibleCount scrollback pattern page) ∨
      (base.place offset index).searchPages scrollback .next
          (visibleCount scrollback pattern offset) =
            some (decide (0 < visibleCount scrollback pattern offset),
              base.place offset (clampIndex scrollback pattern offset index)) ∧
        (offset < scrollback.maxOffset →
          scrollback.matchesBefore pattern (scrollback.maxOffset + scrollback.height) =
            scrollback.matchesBefore pattern first) := by
  intro first
  have hrows : (max (scrollback.height : Int) 1) = scrollback.height := by omega
  have hmax : scrollback.maxOffset ≤ scrollback.rows.length := Nat.sub_le _ _
  have hoffset : (base.place offset index).offset = offset := rfl
  rw [searchPages]
  simp only [if_true, hrows, hoffset]
  by_cases hlt : offset < scrollback.maxOffset
  · cases pageLoop_next hpattern hunwrapped hheight hlt
      (show scrollback.maxOffset - offset < scrollback.rows.length + 1 by omega) index with
    | inl hfound =>
      have ⟨page, hpage, hbound, hloop, hbefore, hpositive⟩ := hfound
      left
      refine ⟨page, hpage, hbound, ?_, hbefore, hpositive⟩
      rw [hloop]
      rfl
    | inr hnot =>
      right
      refine ⟨?_, fun _ ↦ hnot.2⟩
      rw [hnot.1]
      simp only [Option.bind_eq_bind, Option.bind_some, Bool.false_eq_true, if_false,
        restoreViewport_place hpattern hle]
  · right
    have hstay : scrollback.scroll offset scrollback.height = offset := by
      rw [scrollback.scroll_add]
      omega
    refine ⟨?_, fun hlt' ↦ absurd hlt' hlt⟩
    rw [pageLoop_place hpattern hstay, if_pos rfl]
    simp only [Option.bind_eq_bind, Option.bind_some, Bool.false_eq_true, if_false,
      restoreViewport_place hpattern hle, clampIndex_idem]

/-- A search back that leaves the screen ends at a match of another page, or where it was. -/
theorem searchPages_back {direction : TerminalSearchDirection} (hdirection : direction ≠ .next)
    (hheight : 0 < scrollback.height) (hle : offset ≤ scrollback.maxOffset) (index : Nat) :
    let last := max offset scrollback.height
    (∃ page index', page < offset ∧ index' < visibleCount scrollback pattern page ∧
        (base.place offset index).searchPages scrollback direction
          (visibleCount scrollback pattern offset) = some (true, base.place page index') ∧
        (direction = .previous → index' + 1 = visibleCount scrollback pattern page) ∧
        scrollback.matchesBefore pattern (page + scrollback.height) =
          scrollback.matchesBefore pattern last) ∨
      (base.place offset index).searchPages scrollback direction
          (visibleCount scrollback pattern offset) =
            some (decide (0 < visibleCount scrollback pattern offset),
              base.place offset (clampIndex scrollback pattern offset index)) ∧
        (0 < offset → scrollback.matchesBefore pattern last = 0) := by
  intro last
  have hrows : (max (scrollback.height : Int) 1) = scrollback.height := by omega
  have hmax : scrollback.maxOffset ≤ scrollback.rows.length := Nat.sub_le _ _
  have hoffset : (base.place offset index).offset = offset := rfl
  rw [searchPages]
  simp only [hdirection, if_false, hrows, hoffset]
  by_cases hpositive : 0 < offset
  · cases pageLoop_back hpattern hunwrapped direction hheight hpositive hle
      (show offset < scrollback.rows.length + 1 by omega) index with
    | inl hfound =>
      have ⟨page, index', hpage, hindex, hloop, hend, hbefore⟩ := hfound
      left
      refine ⟨page, index', hpage, hindex, ?_, hend, hbefore⟩
      rw [hloop]
      rfl
    | inr hnot =>
      right
      refine ⟨?_, fun _ ↦ hnot.2⟩
      rw [hnot.1]
      simp only [Option.bind_eq_bind, Option.bind_some, Bool.false_eq_true, if_false,
        restoreViewport_place hpattern hle]
  · right
    have hzero : offset = 0 := by omega
    have hstay : scrollback.scroll offset (-(scrollback.height : Int)) = offset := by
      rw [scrollback.scroll_sub hle]
      omega
    refine ⟨?_, fun hlt ↦ absurd hlt hpositive⟩
    rw [pageLoop_place hpattern hstay, if_pos rfl]
    simp only [Option.bind_eq_bind, Option.bind_some, Bool.false_eq_true, if_false,
      restoreViewport_place hpattern hle, clampIndex_idem]

end Calls

/-! ### Runs -/

/-- The pattern of a search is that of its query. -/
def PatternOfQuery (crate : RegexCrate) (search : ViewportSearch) : Prop :=
  search.searchPattern =
    if search.searchQuery.isEmpty then none
    else SearchPattern.new crate search.searchQuery search.searchOptions

/-- The search is for a query, on rows of the scrollback. -/
structure SearchesFor (scrollback : Scrollback) (query : List Char)
    (options : TerminalSearchOptions) (pattern : SearchPattern) (search : ViewportSearch) :
    Prop where
  searchQuery : search.searchQuery = query
  searchOptions : search.searchOptions = options
  searchPattern : search.searchPattern = some pattern
  offset : search.offset ≤ scrollback.maxOffset

/-- The active match is one of those on the screen. -/
def Settled (scrollback : Scrollback) (pattern : SearchPattern) (search : ViewportSearch) : Prop :=
  0 < visibleCount scrollback pattern search.offset →
    search.searchActiveIndex < visibleCount scrollback pattern search.offset

section Runs

variable {query : List Char} {options : TerminalSearchOptions} {search : ViewportSearch}

private theorem SearchesFor.place (h : SearchesFor scrollback query options pattern search)
    {offset : Nat} (hoffset : offset ≤ scrollback.maxOffset) (index : Nat) :
    SearchesFor scrollback query options pattern (search.place offset index) :=
  ⟨h.searchQuery, h.searchOptions, h.searchPattern, hoffset⟩

/-- A search for the same query goes on from the active match on the screen. -/
theorem searchViewportWithOptions_eq (h : SearchesFor scrollback query options pattern search)
    (hquery : query ≠ []) (direction : TerminalSearchDirection) :
    search.searchViewportWithOptions scrollback crate query direction options =
      let visible := visibleCount scrollback pattern search.offset
      let index := clampIndex scrollback pattern search.offset search.searchActiveIndex
      if 0 < visible ∧ direction = .current then some (true, search.place search.offset index)
      else if 0 < visible ∧ direction = .next ∧ index + 1 < visible then
        some (true, search.place search.offset (index + 1))
      else if 0 < visible ∧ direction = .previous ∧ 0 < index then
        some (true, search.place search.offset (index - 1))
      else (search.place search.offset index).searchPages scrollback direction visible := by
  have hset : search.setSearchQuery crate query options = some search := by
    rw [setSearchQuery, h.searchQuery, h.searchOptions]
    simp
  have hextract := @extractFrame_place scrollback _ _ h.searchPattern search.offset
    search.searchActiveIndex
  have hself : search.place search.offset search.searchActiveIndex = search := rfl
  rw [hself] at hextract
  rw [searchViewportWithOptions, hset]
  have hempty : query.isEmpty = false := by
    cases query with
    | nil => exact absurd rfl hquery
    | cons _ _ => rfl
  simp only [Option.bind_eq_bind, Option.bind_some, hempty, Bool.false_eq_true, if_false, hextract]
  refine ite_congr rfl (fun _ ↦ rfl) fun _ ↦ ite_congr rfl (fun hlt ↦ ?_) fun _ ↦
    ite_congr rfl (fun hlt ↦ ?_) fun _ ↦ rfl
  · exact congrArg some (selectSearchMatch_place h.searchPattern _ _ hlt.2.2)
  · have hindex := clampIndex_lt hlt.1 search.searchActiveIndex
    exact congrArg some (selectSearchMatch_place h.searchPattern _ _
      (Nat.lt_of_le_of_lt (Nat.sub_le _ 1) hindex))

/-- A search for the same query leaves an active match on the screen. -/
theorem searchViewportWithOptions_settled
    (hunwrapped : ∀ row ∈ scrollback.rows, row.wrapped = false)
    (hheight : 0 < scrollback.height) (hquery : query ≠ [])
    (h : SearchesFor scrollback query options pattern search)
    (direction : TerminalSearchDirection) :
    ∃ selected after,
      search.searchViewportWithOptions scrollback crate query direction options =
          some (selected, after) ∧
        SearchesFor scrollback query options pattern after ∧
        Settled scrollback pattern after := by
  have hclamped (hpositive : 0 < visibleCount scrollback pattern search.offset) :=
    clampIndex_lt hpositive search.searchActiveIndex
  rw [searchViewportWithOptions_eq h hquery]
  dsimp only
  split
  next hcurrent => exact ⟨true, _, rfl, h.place h.offset _, hclamped⟩
  next =>
    split
    next hnext => exact ⟨true, _, rfl, h.place h.offset _, fun _ ↦ hnext.2.2⟩
    next =>
      split
      next hprevious =>
        refine ⟨true, _, rfl, h.place h.offset _, fun hpositive ↦ ?_⟩
        have hlt := hclamped hpositive
        show clampIndex scrollback pattern search.offset search.searchActiveIndex - 1 < _
        exact Nat.lt_of_le_of_lt (Nat.sub_le _ _) hlt
      next =>
        have hstay : SearchesFor scrollback query options pattern (search.place search.offset
            (clampIndex scrollback pattern search.offset
              (clampIndex scrollback pattern search.offset search.searchActiveIndex))) ∧
          Settled scrollback pattern (search.place search.offset
            (clampIndex scrollback pattern search.offset
              (clampIndex scrollback pattern search.offset search.searchActiveIndex))) := by
          rw [clampIndex_idem]
          exact ⟨h.place h.offset _, hclamped⟩
        by_cases hdirection : direction = .next
        · subst hdirection
          cases searchPages_next h.searchPattern hunwrapped hheight h.offset
              (clampIndex scrollback pattern search.offset search.searchActiveIndex) with
          | inl hfound =>
            have ⟨page, _, hle, hpages, _, hpositive⟩ := hfound
            exact ⟨true, _, hpages, h.place hle 0, fun _ ↦ hpositive⟩
          | inr hnot => exact ⟨_, _, hnot.1, hstay⟩
        · cases searchPages_back h.searchPattern hunwrapped hdirection hheight h.offset
              (clampIndex scrollback pattern search.offset search.searchActiveIndex) with
          | inl hfound =>
            have ⟨page, index, hpage, hindex, hpages, _⟩ := hfound
            have hle := h.offset
            exact ⟨true, _, hpages, h.place (by omega) index, fun _ ↦ hindex⟩
          | inr hnot => exact ⟨_, _, hnot.1, hstay⟩

private theorem setSearchQuery_searchesFor (hquery : query ≠ [])
    (hnew : SearchPattern.new crate query options = some pattern)
    (hpattern : PatternOfQuery crate search) (hoffset : search.offset ≤ scrollback.maxOffset) :
    ∃ after, search.setSearchQuery crate query options = some after ∧
      SearchesFor scrollback query options pattern after := by
  have hempty : query.isEmpty = false := by
    cases query with
    | nil => exact absurd rfl hquery
    | cons _ _ => rfl
  rw [setSearchQuery]
  split
  · simp only [hempty, hnew, Bool.false_eq_true, if_false, Option.map_some, Option.bind_eq_bind,
      Option.bind_some, Option.some.injEq, exists_eq_left']
    exact ⟨rfl, rfl, rfl, hoffset⟩
  next hsame =>
    rw [not_or, not_not, not_not] at hsame
    refine ⟨search, rfl, hsame.1, hsame.2, ?_, hoffset⟩
    rw [PatternOfQuery, hsame.1, hsame.2, hempty, if_neg Bool.false_ne_true] at hpattern
    rw [hpattern, hnew]

/-- After a search for a query all further ones go on from an active match on the screen. -/
theorem searches_settled (hunwrapped : ∀ row ∈ scrollback.rows, row.wrapped = false)
    (hheight : 0 < scrollback.height) (hquery : query ≠ [])
    {directions : List TerminalSearchDirection} {after : ViewportSearch}
    (h : SearchesFor scrollback query options pattern search)
    (hsettled : directions = [] → Settled scrollback pattern search)
    (hrun : search.searches scrollback crate query options directions = some after) :
    SearchesFor scrollback query options pattern after ∧ Settled scrollback pattern after := by
  induction directions generalizing search with
  | nil =>
    rw [searches, Option.some.injEq] at hrun
    rw [← hrun]
    exact ⟨h, hsettled rfl⟩
  | cons direction directions ih =>
    have ⟨selected, next, hnext, hfor, hsettled'⟩ :=
      @searchViewportWithOptions_settled scrollback crate _ _ _ _ hunwrapped hheight hquery h
        direction
    rw [searches, hnext] at hrun
    exact ih hfor (fun _ ↦ hsettled') hrun

end Runs

/-! ### Steps between matches -/

/-- The match that is selected, by its place among all matches of the scrollback. -/
def selectedMatch (scrollback : Scrollback) (search : ViewportSearch) : Option Nat :=
  match search.searchPattern with
  | none => none
  | some pattern =>
    if search.searchActiveIndex < visibleCount scrollback pattern search.offset then
      some (scrollback.matchesBefore pattern search.offset + search.searchActiveIndex)
    else none

/-- From match `i` a search goes to a later one if there is any, and stays otherwise. -/
def MovesForward (scrollback : Scrollback) (pattern : SearchPattern) (i : Nat)
    (search after : ViewportSearch) : Prop :=
  if i + 1 < scrollback.matchesBefore pattern scrollback.rows.length then
    ∃ j, after.selectedMatch scrollback = some j ∧ i < j
  else after.selectedMatch scrollback = some i ∧ after.offset = search.offset

/-- From match `i` a search goes to an earlier one if there is any, and stays otherwise. -/
def MovesBack (scrollback : Scrollback) (i : Nat) (after : ViewportSearch) : Prop :=
  if 0 < i then ∃ j, after.selectedMatch scrollback = some j ∧ j < i
  else after.selectedMatch scrollback = some i

section Moves

variable {query : List Char} {options : TerminalSearchOptions} {search : ViewportSearch}

private theorem selectedMatch_place (hpattern : search.searchPattern = some pattern)
    (hindex : index < visibleCount scrollback pattern offset) :
    (search.place offset index).selectedMatch scrollback =
      some (scrollback.matchesBefore pattern offset + index) := by
  simp only [selectedMatch, place, hpattern, hindex, if_true]

private theorem matchesBefore_le (scrollback : Scrollback) (pattern : SearchPattern)
    (offset : Nat) :
    scrollback.matchesBefore pattern offset ≤
      scrollback.matchesBefore pattern scrollback.rows.length := by
  by_cases h : offset ≤ scrollback.rows.length
  · exact scrollback.matchesBefore_mono pattern h
  · exact Nat.le_of_eq (scrollback.matchesBefore_of_le pattern (by omega))

variable (hunwrapped : ∀ row ∈ scrollback.rows, row.wrapped = false)
include hunwrapped

private theorem matchesBefore_add_visibleCount (pattern : SearchPattern) (offset : Nat) :
    scrollback.matchesBefore pattern offset + visibleCount scrollback pattern offset =
      scrollback.matchesBefore pattern (offset + scrollback.height) :=
  scrollback.matchesBefore_add pattern hunwrapped offset

/-- A step forward that ends on another page goes back exactly if this page is the last one and
begins with a match that is not behind the active one. -/
theorem movesForward_page (h : SearchesFor scrollback query options pattern search)
    (hlast : search.searchActiveIndex + 1 = visibleCount scrollback pattern search.offset)
    {page : Nat} (hpage : search.offset < page) (hle : page ≤ scrollback.maxOffset)
    (hbefore : scrollback.matchesBefore pattern page = scrollback.matchesBefore pattern
      (min (search.offset + scrollback.height) scrollback.maxOffset))
    (hcount : 0 < visibleCount scrollback pattern page) :
    MovesForward scrollback pattern
        (scrollback.matchesBefore pattern search.offset + search.searchActiveIndex) search
        (search.place page 0) ↔
      ¬ (search.searchActiveIndex + 1 = visibleCount scrollback pattern search.offset ∧
        search.offset < scrollback.maxOffset ∧
        scrollback.maxOffset < search.offset + scrollback.height ∧
        scrollback.matchesBefore pattern scrollback.maxOffset ≤
          scrollback.matchesBefore pattern search.offset + search.searchActiveIndex) := by
  have hvisible := matchesBefore_add_visibleCount hunwrapped pattern search.offset
  have hadd := matchesBefore_add_visibleCount hunwrapped pattern page
  have hbound := matchesBefore_le scrollback pattern (page + scrollback.height)
  by_cases hoverlap : scrollback.maxOffset < search.offset + scrollback.height
  · rw [Nat.min_eq_right (by omega)] at hbefore
    by_cases hshared : scrollback.matchesBefore pattern scrollback.maxOffset ≤
        scrollback.matchesBefore pattern search.offset + search.searchActiveIndex
    · -- The first match of the last rows is not behind the active one.
      constructor
      · intro hmoves
        rw [MovesForward, selectedMatch_place h.searchPattern hcount] at hmoves
        split at hmoves
        · have ⟨j, hj, hlt⟩ := hmoves
          rw [Option.some.injEq] at hj
          omega
        · have hsame : page = search.offset := hmoves.2
          omega
      · exact fun hnot ↦ absurd ⟨hlast, by omega, hoverlap, hshared⟩ hnot
    · have hmax := scrollback.matchesBefore_mono pattern (Nat.le_of_lt hoverlap)
      rw [MovesForward, if_pos (by omega), selectedMatch_place h.searchPattern hcount]
      exact ⟨fun _ hbad ↦ hshared hbad.2.2.2, fun _ ↦ ⟨_, rfl, by omega⟩⟩
  · rw [Nat.min_eq_left (by omega)] at hbefore
    rw [MovesForward, if_pos (by omega), selectedMatch_place h.searchPattern hcount]
    exact ⟨fun _ hbad ↦ hoverlap hbad.2.2.1, fun _ ↦ ⟨_, rfl, by omega⟩⟩

/-- A step forward that finds no page stays at the last match of all. -/
theorem movesForward_stay (h : SearchesFor scrollback query options pattern search)
    (hindex : search.searchActiveIndex < visibleCount scrollback pattern search.offset)
    (hlast : search.searchActiveIndex + 1 = visibleCount scrollback pattern search.offset)
    (hnone : search.offset < scrollback.maxOffset →
      scrollback.matchesBefore pattern (scrollback.maxOffset + scrollback.height) =
        scrollback.matchesBefore pattern
          (min (search.offset + scrollback.height) scrollback.maxOffset)) :
    MovesForward scrollback pattern
        (scrollback.matchesBefore pattern search.offset + search.searchActiveIndex) search
        (search.place search.offset search.searchActiveIndex) ↔
      ¬ (search.searchActiveIndex + 1 = visibleCount scrollback pattern search.offset ∧
        search.offset < scrollback.maxOffset ∧
        scrollback.maxOffset < search.offset + scrollback.height ∧
        scrollback.matchesBefore pattern scrollback.maxOffset ≤
          scrollback.matchesBefore pattern search.offset + search.searchActiveIndex) := by
  have hvisible := matchesBefore_add_visibleCount hunwrapped pattern search.offset
  have htotal := matchesBefore_le scrollback pattern (search.offset + scrollback.height)
  have hlen : scrollback.rows.length ≤ scrollback.maxOffset + scrollback.height := by
    rw [Scrollback.maxOffset]
    omega
  have hall := scrollback.matchesBefore_of_le pattern hlen
  have hself := selectedMatch_place h.searchPattern hindex
  by_cases hlt : search.offset < scrollback.maxOffset
  · have hrest := hnone hlt
    by_cases hoverlap : scrollback.maxOffset < search.offset + scrollback.height
    · rw [Nat.min_eq_right (by omega)] at hrest
      have hmax := scrollback.matchesBefore_mono pattern (Nat.le_of_lt hoverlap)
      rw [MovesForward, if_neg (by omega)]
      refine ⟨fun _ hbad ↦ ?_, fun _ ↦ ⟨hself, rfl⟩⟩
      have hshared := hbad.2.2.2
      omega
    · rw [Nat.min_eq_left (by omega)] at hrest
      rw [MovesForward, if_neg (by omega)]
      exact ⟨fun _ hbad ↦ hoverlap hbad.2.2.1, fun _ ↦ ⟨hself, rfl⟩⟩
  · have hoffset : search.offset = scrollback.maxOffset := by
      have hle := h.offset
      omega
    rw [← hoffset] at hall
    rw [MovesForward, if_neg (by omega)]
    exact ⟨fun _ hbad ↦ hlt hbad.2.1, fun _ ↦ ⟨hself, rfl⟩⟩

/-- A step forward goes back exactly if it leaves the screen for the last rows, which share with it
the row of the active match. -/
theorem movesForward_iff (h : SearchesFor scrollback query options pattern search)
    (hquery : query ≠ [])
    (hindex : search.searchActiveIndex < visibleCount scrollback pattern search.offset) :
    ∃ after, search.searchViewportWithOptions scrollback crate query .next options =
        some (true, after) ∧
      (MovesForward scrollback pattern
          (scrollback.matchesBefore pattern search.offset + search.searchActiveIndex) search after ↔
        ¬ (search.searchActiveIndex + 1 = visibleCount scrollback pattern search.offset ∧
          search.offset < scrollback.maxOffset ∧
          scrollback.maxOffset < search.offset + scrollback.height ∧
          scrollback.matchesBefore pattern scrollback.maxOffset ≤
            scrollback.matchesBefore pattern search.offset + search.searchActiveIndex)) := by
  have hvisible := matchesBefore_add_visibleCount hunwrapped pattern search.offset
  have htotal := matchesBefore_le scrollback pattern
    (search.offset + scrollback.height)
  have hheight : 0 < scrollback.height := by
    by_contra hzero
    rw [visibleCount_of_height_eq_zero (by omega)] at hindex
    exact absurd hindex (Nat.not_lt_zero _)
  rw [searchViewportWithOptions_eq h hquery]
  simp only [clampIndex_of_lt hindex]
  have hpositive : 0 < visibleCount scrollback pattern search.offset := by omega
  rw [if_neg (fun hcurrent ↦ by cases hcurrent.2)]
  by_cases hmore : search.searchActiveIndex + 1 < visibleCount scrollback pattern search.offset
  · rw [if_pos ⟨hpositive, trivial, hmore⟩]
    refine ⟨_, rfl, ?_⟩
    rw [MovesForward, if_pos (by omega), selectedMatch_place h.searchPattern hmore]
    constructor
    · intro _ hlast
      omega
    · exact fun _ ↦ ⟨_, rfl, by omega⟩
  · rw [if_neg (fun hnext ↦ hmore hnext.2.2), if_neg (fun hprevious ↦ by cases hprevious.2.1)]
    have hlast : search.searchActiveIndex + 1 = visibleCount scrollback pattern search.offset := by
      omega
    cases searchPages_next h.searchPattern hunwrapped hheight h.offset search.searchActiveIndex with
    | inl hfound =>
      have ⟨page, hpage, hle, hpages, hbefore, hcount⟩ := hfound
      exact ⟨_, hpages, movesForward_page hunwrapped h hlast hpage hle hbefore hcount⟩
    | inr hnot =>
      refine ⟨_, by rw [hnot.1, decide_eq_true hpositive], ?_⟩
      rw [clampIndex_of_lt hindex]
      exact movesForward_stay hunwrapped h hindex hlast hnot.2

/-- A step back that ends on another page stays at the match or goes forward exactly if this page is
the first one and its last match is not before the active one. -/
theorem movesBack_page (h : SearchesFor scrollback query options pattern search)
    (hzero : search.searchActiveIndex = 0) {page : Nat} (hpage : page < search.offset)
    (hindex : index < visibleCount scrollback pattern page)
    (hlast : index + 1 = visibleCount scrollback pattern page)
    (hbefore : scrollback.matchesBefore pattern (page + scrollback.height) =
      scrollback.matchesBefore pattern (max search.offset scrollback.height)) :
    MovesBack scrollback
        (scrollback.matchesBefore pattern search.offset + search.searchActiveIndex)
        (search.place page index) ↔
      0 < search.searchActiveIndex ∨ search.offset = 0 ∨ scrollback.height ≤ search.offset ∨
        scrollback.matchesBefore pattern scrollback.height ≤
          scrollback.matchesBefore pattern search.offset + search.searchActiveIndex ∨
        scrollback.matchesBefore pattern search.offset + search.searchActiveIndex = 0 ∧
          scrollback.matchesBefore pattern scrollback.height = 1 := by
  have hadd := matchesBefore_add_visibleCount hunwrapped pattern page
  by_cases hoverlap : search.offset < scrollback.height
  · rw [Nat.max_eq_right (by omega)] at hbefore
    have hmono := scrollback.matchesBefore_mono pattern (Nat.le_of_lt hoverlap)
    rw [MovesBack, selectedMatch_place h.searchPattern hindex]
    by_cases hshared : scrollback.matchesBefore pattern scrollback.height ≤
        scrollback.matchesBefore pattern search.offset + search.searchActiveIndex
    · rw [if_pos (by omega)]
      exact ⟨fun _ ↦ .inr (.inr (.inr (.inl hshared))), fun _ ↦ ⟨_, rfl, by omega⟩⟩
    · -- The last match of the first rows is not before the active one.
      split
      · constructor
        · intro ⟨j, hj, hlt⟩
          rw [Option.some.injEq] at hj
          omega
        · intro hcondition
          omega
      · rw [Option.some.injEq]
        omega
  · rw [Nat.max_eq_left (by omega)] at hbefore
    rw [MovesBack, if_pos (by omega), selectedMatch_place h.searchPattern hindex]
    exact ⟨fun _ ↦ .inr (.inr (.inl (by omega))), fun _ ↦ ⟨_, rfl, by omega⟩⟩

omit hunwrapped in
/-- A step back that finds no page stays at the first match of all. -/
theorem movesBack_stay (h : SearchesFor scrollback query options pattern search)
    (hindex : search.searchActiveIndex < visibleCount scrollback pattern search.offset)
    (hzero : search.searchActiveIndex = 0)
    (hnone : 0 < search.offset →
      scrollback.matchesBefore pattern (max search.offset scrollback.height) = 0) :
    MovesBack scrollback
        (scrollback.matchesBefore pattern search.offset + search.searchActiveIndex)
        (search.place search.offset search.searchActiveIndex) ↔
      0 < search.searchActiveIndex ∨ search.offset = 0 ∨ scrollback.height ≤ search.offset ∨
        scrollback.matchesBefore pattern scrollback.height ≤
          scrollback.matchesBefore pattern search.offset + search.searchActiveIndex ∨
        scrollback.matchesBefore pattern search.offset + search.searchActiveIndex = 0 ∧
          scrollback.matchesBefore pattern scrollback.height = 1 := by
  have hself := selectedMatch_place h.searchPattern hindex
  have hfirst : scrollback.matchesBefore pattern search.offset = 0 ∧
      (search.offset = 0 ∨ scrollback.matchesBefore pattern
        (max search.offset scrollback.height) = 0) := by
    by_cases hoffset : 0 < search.offset
    · have hrest := hnone hoffset
      have hmono := scrollback.matchesBefore_mono pattern
        (Nat.le_max_left search.offset scrollback.height)
      exact ⟨by omega, .inr hrest⟩
    · have hstart : search.offset = 0 := by omega
      rw [hstart]
      exact ⟨rfl, .inl rfl⟩
  rw [MovesBack, if_neg (by omega)]
  refine ⟨fun _ ↦ ?_, fun _ ↦ hself⟩
  cases hfirst.2 with
  | inl hoffset => exact .inr (.inl hoffset)
  | inr hrest =>
    have hmono := scrollback.matchesBefore_mono pattern
      (Nat.le_max_right search.offset scrollback.height)
    exact .inr (.inr (.inr (.inl (by omega))))

/-- A step back stays at the match or goes forward exactly if it leaves the screen for the first
rows, which share with it the row of the active match, unless this is the first match of all and
alone there. -/
theorem movesBack_iff (h : SearchesFor scrollback query options pattern search)
    (hquery : query ≠ [])
    (hindex : search.searchActiveIndex < visibleCount scrollback pattern search.offset) :
    ∃ after, search.searchViewportWithOptions scrollback crate query .previous options =
        some (true, after) ∧
      (MovesBack scrollback
          (scrollback.matchesBefore pattern search.offset + search.searchActiveIndex) after ↔
        0 < search.searchActiveIndex ∨ search.offset = 0 ∨ scrollback.height ≤ search.offset ∨
          scrollback.matchesBefore pattern scrollback.height ≤
            scrollback.matchesBefore pattern search.offset + search.searchActiveIndex ∨
          scrollback.matchesBefore pattern search.offset + search.searchActiveIndex = 0 ∧
            scrollback.matchesBefore pattern scrollback.height = 1) := by
  have hheight : 0 < scrollback.height := by
    by_contra hzero
    rw [visibleCount_of_height_eq_zero (by omega)] at hindex
    exact absurd hindex (Nat.not_lt_zero _)
  have hpositive : 0 < visibleCount scrollback pattern search.offset := by omega
  rw [searchViewportWithOptions_eq h hquery]
  simp only [clampIndex_of_lt hindex]
  rw [if_neg (fun hcurrent ↦ by cases hcurrent.2), if_neg (fun hnext ↦ by cases hnext.2.1)]
  by_cases hmore : 0 < search.searchActiveIndex
  · rw [if_pos ⟨hpositive, trivial, hmore⟩]
    refine ⟨_, rfl, ?_⟩
    have hbefore :
        search.searchActiveIndex - 1 < visibleCount scrollback pattern search.offset := by
      omega
    rw [MovesBack, if_pos (by omega), selectedMatch_place h.searchPattern hbefore]
    exact ⟨fun _ ↦ .inl hmore, fun _ ↦ ⟨_, rfl, by omega⟩⟩
  · rw [if_neg (fun hprevious ↦ hmore hprevious.2.2)]
    have hzero : search.searchActiveIndex = 0 := by omega
    have hdirection : TerminalSearchDirection.previous ≠ .next := by simp
    cases searchPages_back h.searchPattern hunwrapped hdirection hheight h.offset
        search.searchActiveIndex with
    | inl hfound =>
      have ⟨page, index', hpage, hindex', hpages, hlast, hbefore⟩ := hfound
      exact ⟨_, hpages, movesBack_page hunwrapped h hzero hpage hindex' (hlast rfl) hbefore⟩
    | inr hnot =>
      refine ⟨_, by rw [hnot.1, decide_eq_true hpositive], ?_⟩
      rw [clampIndex_of_lt hindex]
      exact movesBack_stay h hindex hzero hnot.2

/-- In every state that searches for one query reach with a match selected, a further search moves
as its direction says exactly if it does not leave the screen for a page that shares the row of this
match. -/
theorem searches_move {start : ViewportSearch} (hquery : query ≠ [])
    (hnew : SearchPattern.new crate query options = some pattern)
    (hpattern : PatternOfQuery crate start) (hoffset : start.offset ≤ scrollback.maxOffset)
    {direction : TerminalSearchDirection} {directions : List TerminalSearchDirection}
    (hrun : start.searches scrollback crate query options (direction :: directions) = some search)
    {i : Nat} (hselected : search.selectedMatch scrollback = some i) :
    ∃ forward back,
      search.searchViewportWithOptions scrollback crate query .next options =
          some (true, forward) ∧
        search.searchViewportWithOptions scrollback crate query .previous options =
          some (true, back) ∧
        (MovesForward scrollback pattern i search forward ↔
          ¬ (search.searchActiveIndex + 1 = visibleCount scrollback pattern search.offset ∧
            search.offset < scrollback.maxOffset ∧
            scrollback.maxOffset < search.offset + scrollback.height ∧
            scrollback.matchesBefore pattern scrollback.maxOffset ≤ i)) ∧
        (MovesBack scrollback i back ↔
          0 < search.searchActiveIndex ∨ search.offset = 0 ∨ scrollback.height ≤ search.offset ∨
            scrollback.matchesBefore pattern scrollback.height ≤ i ∨
            i = 0 ∧ scrollback.matchesBefore pattern scrollback.height = 1) := by
  have hheight : 0 < scrollback.height := by
    by_contra hzero
    rw [selectedMatch] at hselected
    split at hselected
    · cases hselected
    · rw [visibleCount_of_height_eq_zero (by omega)] at hselected
      cases hselected
  have ⟨first, hfirst, hfor⟩ := setSearchQuery_searchesFor hquery hnew hpattern hoffset
  have hsame : start.searchViewportWithOptions scrollback crate query direction options =
      first.searchViewportWithOptions scrollback crate query direction options := by
    have hagain : first.setSearchQuery crate query options = some first := by
      rw [setSearchQuery, hfor.searchQuery, hfor.searchOptions]
      simp
    rw [searchViewportWithOptions, searchViewportWithOptions, hfirst, hagain]
  rw [searches, hsame] at hrun
  have hnonempty : direction :: directions = [] → Settled scrollback pattern first :=
    fun hnil ↦ by cases hnil
  have ⟨hsearch, _⟩ := searches_settled hunwrapped hheight hquery hfor hnonempty hrun
  rw [selectedMatch, hsearch.searchPattern] at hselected
  dsimp only at hselected
  rw [Option.ite_none_right_eq_some, Option.some.injEq] at hselected
  have ⟨forward, hforward, hmoves⟩ := @movesForward_iff scrollback crate _ _ _ _ hunwrapped
    hsearch hquery hselected.1
  have ⟨back, hback, hmovesBack⟩ := @movesBack_iff scrollback crate _ _ _ _ hunwrapped
    hsearch hquery hselected.1
  rw [hselected.2] at hmoves hmovesBack
  exact ⟨forward, back, hforward, hback, hmoves, hmovesBack⟩

end Moves

/-- A scrollback of three rows, of which the last two hold a match, on a screen of two. -/
def threeRows : Scrollback where
  rows := [⟨[], false⟩, ⟨[⟨0, false, ['a']⟩], false⟩, ⟨[⟨0, false, ['a']⟩], false⟩]
  cols := 1
  height := 2
  graphemeWidth _ := 1

/-- A search that has not begun. -/
def unstarted : ViewportSearch := ⟨0, [], {}, none, 0⟩

/-- A step forward from the first of two matches selects it again. -/
theorem searches_repeat :
    SearchPattern.new .literals ['a'] {} = some ⟨.literal ['a'], true⟩ ∧
      threeRows.matchesBefore ⟨.literal ['a'], true⟩ threeRows.rows.length = 2 ∧
      (unstarted.searches threeRows .literals ['a'] {} [.current]).bind
        (selectedMatch threeRows) = some 0 ∧
      (unstarted.searches threeRows .literals ['a'] {} [.current, .next]).bind
        (selectedMatch threeRows) = some 0 :=
  ⟨rfl, by decide +kernel⟩

private theorem isSome_unstarted :
    (unstarted.searches threeRows .literals ['a'] {} [.current]).isSome := by
  decide +kernel

/-- The step from that match does not move forward. -/
theorem searches_move_sample :
    ∃ search forward,
      unstarted.searches threeRows .literals ['a'] {} [.current] = some search ∧
        search.searchViewportWithOptions threeRows .literals ['a'] .next {} =
          some (true, forward) ∧
        ¬ MovesForward threeRows ⟨.literal ['a'], true⟩ 0 search forward :=
  have ⟨forward, _, hforward, _, hmoves, _⟩ :=
    @searches_move threeRows .literals ⟨.literal ['a'], true⟩ _ {} _ (by decide) unstarted
      (by decide) rfl rfl (by decide) _ _ (Option.some_get isSome_unstarted).symm 0
      (by decide +kernel)
  ⟨_, forward, (Option.some_get isSome_unstarted).symm, hforward,
    fun h ↦ hmoves.mp h (by decide +kernel)⟩

end ViewportSearch
end Bootty.Terminal
