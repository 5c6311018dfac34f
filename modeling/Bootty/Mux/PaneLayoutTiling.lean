import Bootty.Base.ListEdits
import Bootty.Base.Tiling
import Bootty.Mux.PaneLayoutGeometry
import Bootty.Mux.PaneLayoutOps
import Mathlib.Order.CompletePartialOrder

/-!
# What splitting and closing a pane moves

The rectangles of `PaneLayout::rects` (`crates/bootty-mux/src/pane_layout.rs:286–338`) without a
gap tile the area. A pane inserted beside another one (`pane_layout.rs:212–224`) takes half of
its rectangle and moves nothing else; when a pane is removed (`pane_layout.rs:238–252`), its
siblings take over its space in the proportion they had. Both are read off from the raw tree
that `insert_leaf` and `prune_leaf` leave behind, whose picture `normalize` does not change.
-/

namespace Bootty.Terminal.SurfaceRect

open Bootty.Base

/-- The points of a rectangle, with its lower or its upper edges. -/
def cells (lower : Bool) (r : SurfaceRect ℚ) : Set (ℚ × ℚ) :=
  halfOpen lower r.minX r.maxX ×ˢ halfOpen lower r.minY r.maxY

/-- The points of a rectangle without its edges. -/
def interior (r : SurfaceRect ℚ) : Set (ℚ × ℚ) :=
  Set.Ioo r.minX r.maxX ×ˢ Set.Ioo r.minY r.maxY

/-- The rectangle lies inside another one. -/
def Inside (r area : SurfaceRect ℚ) : Prop :=
  area.minX ≤ r.minX ∧ r.maxX ≤ area.maxX ∧ area.minY ≤ r.minY ∧ r.maxY ≤ area.maxY

/-- Width times height. -/
def size (r : SurfaceRect ℚ) : ℚ := r.width * r.height

/-- Both extents are positive. -/
def Extended (r : SurfaceRect ℚ) : Prop := 0 < r.width ∧ 0 < r.height

private theorem interior_subset_cells (lower : Bool) (r : SurfaceRect ℚ) :
    r.interior ⊆ r.cells lower :=
  Set.prod_mono (Ioo_subset_halfOpen lower _ _) (Ioo_subset_halfOpen lower _ _)

/-- A slice of positive extent of a rectangle that has one. -/
theorem Extended.slice {r : SurfaceRect ℚ} (h : r.Extended) (horizontal : Bool) (offset : ℚ)
    {share : ℚ} (hshare : 0 < share) : (r.slice horizontal offset share).Extended := by
  have ⟨hw, hh⟩ := h
  cases horizontal
  · constructor
    · simpa [SurfaceRect.slice, fromMinSize, width] using hw
    · simpa [SurfaceRect.slice, fromMinSize, height] using mul_pos hh hshare
  · constructor
    · simpa [SurfaceRect.slice, fromMinSize, width] using mul_pos hw hshare
    · simpa [SurfaceRect.slice, fromMinSize, height] using hh

private theorem size_slice (horizontal : Bool) (r : SurfaceRect ℚ) (offset share : ℚ) :
    (r.slice horizontal offset share).size = r.size * share := by
  cases horizontal
  · simp only [slice, size, fromMinSize, width, height, Bool.false_eq_true, if_false]
    ring
  · simp only [slice, size, fromMinSize, width, height, if_true]
    ring

/-- Two slices beside one another are disjoint and make up one slice. -/
theorem cells_slice (lower horizontal : Bool) {r : SurfaceRect ℚ} (h : r.Extended) (offset : ℚ)
    {share share' : ℚ} (hshare : 0 ≤ share) (hshare' : 0 ≤ share') :
    Disjoint ((r.slice horizontal offset share).cells lower)
        ((r.slice horizontal (offset + share) share').cells lower) ∧
      (r.slice horizontal offset share).cells lower ∪
          (r.slice horizontal (offset + share) share').cells lower =
        (r.slice horizontal offset (share + share')).cells lower := by
  have ⟨hw, hh⟩ := h
  cases horizontal
  · have hmid : r.minY + r.height * (offset + share) =
        r.minY + r.height * offset + r.height * share := by ring
    have hhi : r.minY + r.height * offset + r.height * (share + share') =
        r.minY + r.height * offset + r.height * share + r.height * share' := by ring
    simp only [slice, cells, fromMinSize, Bool.false_eq_true, if_false, hmid, hhi]
    constructor
    · exact Set.disjoint_prod.mpr (.inr (halfOpen_disjoint lower _ _ _))
    · rw [← Set.prod_union, halfOpen_union lower]
      · exact le_add_of_nonneg_right (mul_nonneg hh.le hshare)
      · exact le_add_of_nonneg_right (mul_nonneg hh.le hshare')
  · have hmid : r.minX + r.width * (offset + share) =
        r.minX + r.width * offset + r.width * share := by ring
    have hhi : r.minX + r.width * offset + r.width * (share + share') =
        r.minX + r.width * offset + r.width * share + r.width * share' := by ring
    simp only [slice, cells, fromMinSize, if_true, hmid, hhi]
    constructor
    · exact Set.disjoint_prod.mpr (.inl (halfOpen_disjoint lower _ _ _))
    · rw [← Set.union_prod, halfOpen_union lower]
      · exact le_add_of_nonneg_right (mul_nonneg hw.le hshare)
      · exact le_add_of_nonneg_right (mul_nonneg hw.le hshare')

/-- The rectangles lie inside the area, have no interior points in common and are together as
large as it. -/
structure Tiles (rects : List (SurfaceRect ℚ)) (area : SurfaceRect ℚ) : Prop where
  inside : ∀ r ∈ rects, r.Inside area
  disjoint : rects.Pairwise fun a b ↦ Disjoint a.interior b.interior
  sizes : (rects.map size).sum = area.size

/-- The form in which a tiling is built: the rectangles with their lower edges partition the
area, and so they do with their upper edges. -/
structure Subdivides (rects : List (SurfaceRect ℚ)) (area : SurfaceRect ℚ) : Prop where
  extended : ∀ r ∈ rects, r.Extended
  cells : ∀ lower, Partitions (rects.map (cells lower)) (area.cells lower)
  sizes : (rects.map size).sum = area.size

namespace Subdivides

private theorem singleton {area : SurfaceRect ℚ} (h : area.Extended) : Subdivides [area] area := by
  constructor
  · simpa using h
  · exact fun lower ↦ .singleton _
  · simp

/-- Subdivisions of two slices beside one another. -/
theorem append {xs ys : List (SurfaceRect ℚ)} {area : SurfaceRect ℚ} {horizontal : Bool}
    {offset share share' : ℚ} (h : area.Extended) (hshare : 0 ≤ share) (hshare' : 0 ≤ share')
    (hx : Subdivides xs (area.slice horizontal offset share))
    (hy : Subdivides ys (area.slice horizontal (offset + share) share')) :
    Subdivides (xs ++ ys) (area.slice horizontal offset (share + share')) := by
  constructor
  · intro r hr
    rcases List.mem_append.mp hr with hr | hr
    · exact hx.extended r hr
    · exact hy.extended r hr
  · intro lower
    have ⟨hdisjoint, hunion⟩ := cells_slice lower horizontal h offset hshare hshare'
    rw [List.map_append]
    exact (hx.cells lower).append (hy.cells lower) hdisjoint hunion
  · rw [List.map_append, List.sum_append, hx.sizes, hy.sizes, size_slice, size_slice, size_slice,
      mul_add]

/-- The parts lie in the area. -/
theorem inside {rects : List (SurfaceRect ℚ)} {area r : SurfaceRect ℚ}
    (h : Subdivides rects area) (hr : r ∈ rects) : r.Inside area := by
  have ⟨hw, hh⟩ := h.extended r hr
  have hx : r.minX < r.maxX := sub_pos.mp hw
  have hy : r.minY < r.maxY := sub_pos.mp hh
  have hlower : (r.minX, r.minY) ∈ area.cells true := by
    apply (h.cells true).subset (List.mem_map_of_mem hr)
    exact ⟨⟨le_rfl, hx⟩, ⟨le_rfl, hy⟩⟩
  have hupper : (r.maxX, r.maxY) ∈ area.cells false := by
    apply (h.cells false).subset (List.mem_map_of_mem hr)
    exact ⟨⟨hx, le_rfl⟩, ⟨hy, le_rfl⟩⟩
  have ⟨⟨hminX, _⟩, ⟨hminY, _⟩⟩ := hlower
  have ⟨⟨_, hmaxX⟩, ⟨_, hmaxY⟩⟩ := hupper
  exact ⟨hminX, hmaxX, hminY, hmaxY⟩

/-- A subdivision is a tiling. -/
theorem tiles {rects : List (SurfaceRect ℚ)} {area : SurfaceRect ℚ}
    (h : Subdivides rects area) : Tiles rects area := by
  constructor
  · exact fun r hr ↦ h.inside hr
  · apply (List.pairwise_map.mp (h.cells true).disjoint).imp
    intro a b hab
    exact hab.mono (interior_subset_cells true a) (interior_subset_cells true b)
  · exact h.sizes

end Subdivides

end Bootty.Terminal.SurfaceRect

namespace Bootty.Mux

open Bootty.Base Bootty.Terminal

namespace Direction

/-- The half of a rectangle on one side. -/
def half (r : SurfaceRect ℚ) : Direction → SurfaceRect ℚ
  | .left => { r with maxX := (r.minX + r.maxX) / 2 }
  | .right => { r with minX := (r.minX + r.maxX) / 2 }
  | .up => { r with maxY := (r.minY + r.maxY) / 2 }
  | .down => { r with minY := (r.minY + r.maxY) / 2 }

/-- The other side. -/
def opposite : Direction → Direction
  | .left => .right
  | .right => .left
  | .up => .down
  | .down => .up

end Direction

namespace MuxPaneLayout

/-! ### The regions tile the area -/

private theorem subdivides_regionsAlong {horizontal : Bool} {total : ℚ} (htotal : 0 < total)
    {area : SurfaceRect ℚ} (harea : area.Extended) {cs : List (MuxPaneLayout ℚ)} {ws : List ℚ}
    (hne : cs ≠ []) (hl : cs.length = ws.length) (hp : ∀ w ∈ ws, 0 < w)
    (ih : ∀ c ∈ cs, ∀ area : SurfaceRect ℚ, area.Extended →
      SurfaceRect.Subdivides ((regions c area).map Prod.snd) area) (o : ℚ) :
    SurfaceRect.Subdivides ((regionsAlong horizontal total area cs ws o).map Prod.snd)
      (area.slice horizontal o (ws.sum / total)) := by
  induction cs generalizing ws o with
  | nil => exact absurd rfl hne
  | cons c cs ihc =>
    cases ws with
    | nil => simp at hl
    | cons w ws =>
      have hw : 0 < w / total := div_pos (hp w (by simp)) htotal
      have hfirst := ih c (by simp) _ (harea.slice horizontal o hw)
      rw [regionsAlong, List.map_append, List.sum_cons, add_div]
      by_cases hcs : cs = []
      · subst hcs
        have hws : ws = [] := List.eq_nil_of_length_eq_zero (by simpa using hl.symm)
        subst hws
        simpa [regionsAlong] using hfirst
      · have hpos : ∀ x ∈ ws, 0 < x := fun x hx ↦ hp x (List.mem_cons_of_mem w hx)
        have hlength : cs.length = ws.length := by simpa using hl
        have hsum : 0 < ws.sum :=
          sum_pos_of_positive hpos (hlength ▸ List.length_pos_iff.mpr hcs)
        have hrest := ihc hcs hlength hpos (fun e he ↦ ih e (by simp [he])) (o + w / total)
        exact hfirst.append harea hw.le (div_pos hsum htotal).le hrest

/-- The regions of an accepted tree subdivide its area. -/
theorem subdivides_regions {t : MuxPaneLayout ℚ} (h : Weighted t) (area : SurfaceRect ℚ)
    (harea : area.Extended) : SurfaceRect.Subdivides ((regions t area).map Prod.snd) area := by
  induction h generalizing area with
  | pane id =>
    rw [regions]
    exact .singleton harea
  | split d ws cs nonempty counts positive _ ih =>
    have hsum : 0 < ws.sum := sum_pos_of_positive positive (by omega)
    have halong := @subdivides_regionsAlong (d == .right) _ hsum _ harea _ _
      (List.length_pos_iff.mp nonempty) counts positive ih 0
    rw [div_self hsum.ne', SurfaceRect.slice_zero_one] at halong
    rw [regions]
    exact halong

private theorem map_fst_regionsAlong {horizontal : Bool} {total : ℚ} {area : SurfaceRect ℚ}
    {cs : List (MuxPaneLayout ℚ)} {ws : List ℚ} (hl : cs.length = ws.length)
    (ih : ∀ c ∈ cs, ∀ area, (regions c area).map Prod.fst = c.leaves) (o : ℚ) :
    (regionsAlong horizontal total area cs ws o).map Prod.fst = leavesOf cs := by
  induction cs generalizing ws o with
  | nil => simp [regionsAlong]
  | cons c cs ihc =>
    cases ws with
    | nil => simp at hl
    | cons w ws =>
      rw [regionsAlong, List.map_append, leavesOf_cons, ih c (by simp),
        ihc (by simpa using hl) fun e he ↦ ih e (by simp [he])]

/-- Every leaf has one region, in the order of the leaves. -/
theorem map_fst_regions {t : MuxPaneLayout ℚ} (h : Weighted t) (area : SurfaceRect ℚ) :
    (regions t area).map Prod.fst = t.leaves := by
  induction h generalizing area with
  | pane id => rw [regions, leaves_pane]; rfl
  | split d ws cs _ counts _ _ ih =>
    rw [regions, leaves_split]
    exact map_fst_regionsAlong counts ih 0

/-! ### Inserting a leaf -/

/-- What an insertion makes of one region: the target's is halved. -/
def halved (pane target : PaneId) (side : Direction) (entry : PaneId × SurfaceRect ℚ) :
    List (PaneId × SurfaceRect ℚ) :=
  if entry.1 = target then
    match side with
    | .left | .up => [(pane, side.half entry.2), (target, side.opposite.half entry.2)]
    | .right | .down => [(target, side.opposite.half entry.2), (pane, side.half entry.2)]
  else [entry]

private theorem regions_splitLeaf (pane target : PaneId) (side : Direction)
    (area : SurfaceRect ℚ) :
    regions (splitLeaf target pane side) area = halved pane target side (target, area) := by
  have hhalf : ∀ a b : ℚ, a + (b - a) * (1 / 2) = (a + b) / 2 := by
    intro a b
    ring
  have hrest : ∀ a b : ℚ, (a + b) / 2 + (b - a) * (1 / 2) = b := by
    intro a b
    ring
  have hall : ∀ a b : ℚ, a + (b - a) = b := by
    intro a b
    ring
  have hdown : (MuxPaneSplitDirection.down == MuxPaneSplitDirection.right) = false := rfl
  cases side <;>
    norm_num [splitLeaf, regions, regionsAlong, halved, SurfaceRect.slice, Direction.half,
      Direction.opposite, SurfaceRect.fromMinSize, SurfaceRect.width, SurfaceRect.height,
      hhalf, hrest, hall, hdown]

private theorem regionsAlong_insertLeaves {pane target : PaneId} {side : Direction}
    {horizontal : Bool} {total : ℚ} {area : SurfaceRect ℚ} {cs : List (MuxPaneLayout ℚ)}
    (ih : ∀ c ∈ cs, ∀ area, regions (insertLeaf pane target side c) area =
      (regions c area).flatMap (halved pane target side)) (ws : List ℚ) (o : ℚ) :
    regionsAlong horizontal total area (insertLeaves pane target side cs) ws o =
      (regionsAlong horizontal total area cs ws o).flatMap (halved pane target side) := by
  induction cs generalizing ws o with
  | nil => simp [insertLeaves, regionsAlong]
  | cons c cs ihc =>
    cases ws with
    | nil => simp [insertLeaves, regionsAlong]
    | cons w ws =>
      rw [insertLeaves, regionsAlong, regionsAlong, List.flatMap_append, ih c (by simp),
        ihc fun e he ↦ ih e (by simp [he])]

/-- Inserting a leaf halves the region of its target and leaves the other regions alone. -/
theorem regions_insertLeaf (pane target : PaneId) (side : Direction) (t : MuxPaneLayout ℚ)
    (area : SurfaceRect ℚ) :
    regions (insertLeaf pane target side t) area =
      (regions t area).flatMap (halved pane target side) := by
  induction t using induct generalizing area with
  | pane id =>
    rw [insertLeaf, regions, List.flatMap_singleton]
    by_cases hid : id = target
    · subst hid
      rw [if_pos rfl, regions_splitLeaf]
    · rw [if_neg hid, regions]
      exact (if_neg hid).symm
  | split d ws cs ih =>
    rw [insertLeaf, regions, regions]
    exact regionsAlong_insertLeaves ih ws 0

/-! ### Pruning a leaf -/

/-- Drawing a canonical tree in an area draws one of its nodes in a box: a child of a split
begins after the shares of the children before it. -/
inductive Draws : MuxPaneLayout ℚ → SurfaceRect ℚ → MuxPaneLayout ℚ → SurfaceRect ℚ → Prop
  | here (t : MuxPaneLayout ℚ) (area : SurfaceRect ℚ) : Draws t area t area
  | child (d : MuxPaneSplitDirection) (area : SurfaceRect ℚ) {before after : List (MuxPaneLayout ℚ)}
      {left right : List ℚ} {c node : MuxPaneLayout ℚ} {w : ℚ} {box : SurfaceRect ℚ}
      (counts : before.length = left.length)
      (drawn : Draws c (area.slice (d == .right) left.sum w) node box) :
      Draws (.split d (left ++ w :: right) (before ++ c :: after)) area node box

/-- The split of which a pane is a child, and the box it is drawn in. -/
structure Parent (t : MuxPaneLayout ℚ) (area : SurfaceRect ℚ) (pane : PaneId) where
  direction : MuxPaneSplitDirection
  before : List (MuxPaneLayout ℚ)
  after : List (MuxPaneLayout ℚ)
  left : List ℚ
  weight : ℚ
  right : List ℚ
  box : SurfaceRect ℚ
  counts : before.length = left.length
  drawn : Draws t area
    (.split direction (left ++ weight :: right) (before ++ .pane pane :: after)) box

namespace Parent

variable {t : MuxPaneLayout ℚ} {area : SurfaceRect ℚ} {pane : PaneId}

/-- The other children of the split. -/
def siblings (parent : Parent t area pane) : List (MuxPaneLayout ℚ) :=
  parent.before ++ parent.after

/-- Their weights. -/
def weights (parent : Parent t area pane) : List ℚ := parent.left ++ parent.right

end Parent

private theorem pruneLeaves_append (pane : PaneId) (xs ys : List (MuxPaneLayout ℚ)) :
    pruneLeaves pane (xs ++ ys) = pruneLeaves pane xs ++ pruneLeaves pane ys := by
  induction xs with
  | nil => rw [List.nil_append, pruneLeaves, List.nil_append]
  | cons x xs ih => rw [List.cons_append, pruneLeaves, pruneLeaves, ih, List.cons_append]

private theorem pruneLeaves_eq_self {pane : PaneId} {cs : List (MuxPaneLayout ℚ)}
    (ih : ∀ c ∈ cs, pruneLeaf pane c = c) : pruneLeaves pane cs = cs := by
  induction cs with
  | nil => rw [pruneLeaves]
  | cons c cs ihc =>
    rw [pruneLeaves, ih c (by simp), ihc fun e he ↦ ih e (by simp [he])]

/-- A tree without the leaf is not changed. -/
theorem pruneLeaf_of_not_mem {pane : PaneId} {t : MuxPaneLayout ℚ} (h : pane ∉ t.leaves) :
    pruneLeaf pane t = t := by
  induction t using induct with
  | pane id => rw [pruneLeaf]
  | split d ws cs ih =>
    rw [leaves_split] at h
    have hchild : ∀ c ∈ cs, pane ∉ c.leaves :=
      fun c hc hmem ↦ h (mem_leavesOf.mpr ⟨c, hc, hmem⟩)
    have hnone : cs.findIdx? (isPane pane) = none := by
      apply List.findIdx?_eq_none_iff.mpr
      intro c hc
      cases c with
      | pane id =>
        have hid := hchild _ hc
        rw [leaves_pane, List.mem_singleton] at hid
        exact beq_eq_false_iff_ne.mpr fun heq ↦ hid heq.symm
      | split d ws cs => rfl
    rw [pruneLeaf, hnone]
    show MuxPaneLayout.split d ws (pruneLeaves pane cs) = _
    rw [pruneLeaves_eq_self fun c hc ↦ ih c hc (hchild c hc)]

private theorem regions_split_append {d : MuxPaneSplitDirection} {left right : List ℚ} {w : ℚ}
    {before after : List (MuxPaneLayout ℚ)} (counts : before.length = left.length)
    (area : SurfaceRect ℚ) (c : MuxPaneLayout ℚ) :
    regions (.split d (left ++ w :: right) (before ++ c :: after)) area =
      regionsAlong (d == .right) (left ++ w :: right).sum area before left 0 ++
        regions c (area.slice (d == .right) (left.sum / (left ++ w :: right).sum)
          (w / (left ++ w :: right).sum)) ++
        regionsAlong (d == .right) (left ++ w :: right).sum area after right
          (left.sum / (left ++ w :: right).sum + w / (left ++ w :: right).sum) := by
  rw [regions, regionsAlong_append _ _ _ counts, zero_add, regionsAlong, List.append_assoc]

private theorem exists_weight {before after : List (MuxPaneLayout ℚ)} {c : MuxPaneLayout ℚ}
    {ws : List ℚ} (counts : (before ++ c :: after).length = ws.length) :
    ∃ left w right, ws = left ++ w :: right ∧ before.length = left.length := by
  have hlt : before.length < ws.length := by
    rw [← counts, List.length_append, List.length_cons]
    omega
  have ⟨left, right, hws, hleft⟩ := exists_split_of_getElem? (List.getElem?_eq_getElem hlt)
  exact ⟨left, _, right, hws, hleft.symm⟩

private theorem not_mem_of_nodup {before after : List (MuxPaneLayout ℚ)} {c : MuxPaneLayout ℚ}
    {pane : PaneId} (hn : (leavesOf (before ++ c :: after)).Nodup) (hpane : pane ∈ c.leaves) :
    (∀ e ∈ before ++ after, pane ∉ e.leaves) ∧ c.leaves.Nodup := by
  rw [leavesOf_append, leavesOf_cons] at hn
  have ⟨_, hrest, hfront⟩ := List.nodup_append.mp hn
  have ⟨hc, _, hback⟩ := List.nodup_append.mp hrest
  constructor
  · intro e he hmem
    rcases List.mem_append.mp he with he | he
    · exact hfront pane (mem_leavesOf.mpr ⟨e, he, hmem⟩) pane
        (List.mem_append_left _ hpane) rfl
    · exact hback pane hpane pane (mem_leavesOf.mpr ⟨e, he, hmem⟩) rfl
  · exact hc

/-- Where the leaf is a child, the tree before and after pruning it is drawn the same outside
that split. -/
theorem exists_parent {pane : PaneId} {t : MuxPaneLayout ℚ} (h : Canonical t)
    (hn : t.leaves.Nodup) (hmem : pane ∈ t.leaves) (hsplit : isPane pane t = false)
    (area : SurfaceRect ℚ) :
    ∃ (parent : Parent t area pane) (front back : List (PaneId × SurfaceRect ℚ)),
      regions t area = front ++ regions (.split parent.direction
          (parent.left ++ parent.weight :: parent.right)
          (parent.before ++ .pane pane :: parent.after)) parent.box ++ back ∧
      regions (pruneLeaf pane t) area = front ++
        regions (.split parent.direction parent.weights parent.siblings) parent.box ++ back := by
  induction h generalizing area with
  | pane id =>
    rw [leaves_pane, List.mem_singleton] at hmem
    simp [isPane, hmem] at hsplit
  | split d ws cs two counts positive unit child alternate ih =>
    rw [pruneLeaf]
    cases hix : cs.findIdx? (isPane pane) with
    | some ix =>
      obtain ⟨before, after, hcs, hbefore⟩ := findIdx?_isPane hix
      subst hcs hbefore
      obtain ⟨left, w, right, hws, hleft⟩ := exists_weight counts
      subst hws
      refine ⟨⟨d, before, after, left, w, right, area, hleft, .here _ _⟩, [], [], ?_, ?_⟩
      · simp
      · show regions (.split d (List.eraseIdx (left ++ w :: right) before.length) _) area = _
        rw [eraseIdx_split, hleft, eraseIdx_split]
        simp [Parent.weights, Parent.siblings]
    | none =>
      rw [leaves_split] at hn hmem
      obtain ⟨c, hc, hpane⟩ := mem_leavesOf.mp hmem
      obtain ⟨before, after, hcs⟩ := List.append_of_mem hc
      subst hcs
      obtain ⟨left, w, right, hws, hleft⟩ := exists_weight counts
      subst hws
      have hnone := List.findIdx?_eq_none_iff.mp hix c hc
      obtain ⟨hothers, hcn⟩ := not_mem_of_nodup hn hpane
      obtain ⟨parent, front, back, hbefore, hafter⟩ := ih c hc hcn hpane (by simpa using hnone)
        (area.slice (d == .right) left.sum w)
      have hpruned : pruneLeaves pane (before ++ c :: after) =
          before ++ pruneLeaf pane c :: after := by
        rw [pruneLeaves_append, pruneLeaves, pruneLeaves_eq_self, pruneLeaves_eq_self]
        · intro e he
          exact pruneLeaf_of_not_mem (hothers e (List.mem_append_right _ he))
        · intro e he
          exact pruneLeaf_of_not_mem (hothers e (List.mem_append_left _ he))
      refine ⟨⟨parent.direction, parent.before, parent.after, parent.left, parent.weight,
        parent.right, parent.box, parent.counts, .child d area hleft parent.drawn⟩,
        regionsAlong (d == .right) 1 area before left 0 ++ front,
        back ++ regionsAlong (d == .right) 1 area after right (left.sum + w), ?_, ?_⟩
      · rw [regions_split_append hleft, unit, div_one, div_one, hbefore]
        simp only [List.append_assoc]
      · show regions (.split d _ (pruneLeaves pane _)) area = _
        rw [hpruned, regions_split_append hleft, unit, div_one, div_one, hafter]
        simp only [List.append_assoc, Parent.weights, Parent.siblings]

/-- What a canonical tree draws is canonical and has an extent if the area has one. -/
theorem Draws.canonical {t node : MuxPaneLayout ℚ} {area box : SurfaceRect ℚ}
    (hd : Draws t area node box) (h : Canonical t) (harea : area.Extended) :
    Canonical node ∧ box.Extended := by
  induction hd with
  | here t area => exact ⟨h, harea⟩
  | child d area counts drawn ih =>
    cases h with
    | split _ _ _ _ _ positive _ child _ =>
      apply ih
      · exact child _ (by simp)
      · exact harea.slice _ _ (positive _ (by simp))

private theorem mem_append_of_key {front middle back : List (PaneId × SurfaceRect ℚ)}
    (hn : ((front ++ middle ++ back).map Prod.fst).Nodup) {id : PaneId}
    (hid : id ∈ middle.map Prod.fst) (r : SurfaceRect ℚ) :
    (id, r) ∈ front ++ middle ++ back ↔ (id, r) ∈ middle := by
  rw [List.map_append, List.map_append] at hn
  have ⟨hinit, _, hback⟩ := List.nodup_append.mp hn
  have ⟨_, _, hfront⟩ := List.nodup_append.mp hinit
  constructor
  · intro hmem
    rcases List.mem_append.mp hmem with hmem | hmem
    · rcases List.mem_append.mp hmem with hmem | hmem
      · exact absurd rfl (hfront id (List.mem_map_of_mem hmem) id hid)
      · exact hmem
    · exact absurd rfl
        (hback id (List.mem_append_right _ hid) id (List.mem_map_of_mem hmem))
  · intro hmem
    exact List.mem_append_left _ (List.mem_append_right _ hmem)

private theorem mem_append_of_not_key {front middle back : List (PaneId × SurfaceRect ℚ)}
    {id : PaneId} (hid : id ∉ middle.map Prod.fst) (r : SurfaceRect ℚ) :
    (id, r) ∈ front ++ middle ++ back ↔ (id, r) ∈ front ++ back := by
  have hnot : (id, r) ∉ middle := fun hmem ↦ hid (List.mem_map_of_mem hmem)
  simp [hnot]

/-- The siblings of a leaf are canonical and have a positive part of their weights. -/
theorem Parent.canonical_sibling {t : MuxPaneLayout ℚ} {area : SurfaceRect ℚ} {pane : PaneId}
    (parent : Parent t area pane)
    (h : Canonical (.split parent.direction (parent.left ++ parent.weight :: parent.right)
      (parent.before ++ .pane pane :: parent.after))) {i : Nat} {c : MuxPaneLayout ℚ} {w : ℚ}
    (hc : parent.siblings[i]? = some c) (hw : parent.weights[i]? = some w) :
    Canonical c ∧ 0 < w / parent.weights.sum := by
  cases h with
  | split _ _ _ _ _ positive _ child _ =>
    have hpositive : ∀ x ∈ parent.weights, 0 < x := by
      intro x hx
      apply positive x
      rcases List.mem_append.mp hx with hx | hx
      · exact List.mem_append_left _ hx
      · exact List.mem_append_right _ (List.mem_cons_of_mem _ hx)
    have hmem := List.mem_of_getElem? hw
    constructor
    · apply child c
      rcases List.mem_append.mp (List.mem_of_getElem? hc) with hc | hc
      · exact List.mem_append_left _ hc
      · exact List.mem_append_right _ (List.mem_cons_of_mem _ hc)
    · exact div_pos (hpositive w hmem)
        (sum_pos_of_positive hpositive (List.length_pos_of_mem hmem))

/-- The siblings are drawn in their order. -/
theorem Parent.map_fst_siblings {t : MuxPaneLayout ℚ} {area : SurfaceRect ℚ} {pane : PaneId}
    (parent : Parent t area pane)
    (h : Canonical (.split parent.direction (parent.left ++ parent.weight :: parent.right)
      (parent.before ++ .pane pane :: parent.after))) :
    (regions (.split parent.direction parent.weights parent.siblings) parent.box).map Prod.fst =
      leavesOf parent.siblings := by
  have hcounts := parent.counts
  cases h with
  | split _ _ _ _ counts _ _ child _ =>
    rw [regions]
    apply map_fst_regionsAlong
    · simp only [List.length_append, List.length_cons] at counts
      simp only [Parent.siblings, Parent.weights, List.length_append]
      omega
    · intro c hc area
      apply map_fst_regions (child c _).weighted
      rcases List.mem_append.mp hc with hc | hc
      · exact List.mem_append_left _ hc
      · exact List.mem_append_right _ (List.mem_cons_of_mem _ hc)

/-- A pruned leaf's siblings share the box of their split in the proportion of their weights. -/
theorem Parent.mem_regions {t : MuxPaneLayout ℚ} {area : SurfaceRect ℚ} {pane : PaneId}
    (parent : Parent t area pane) {front back : List (PaneId × SurfaceRect ℚ)}
    (hn : ((front ++ regions (.split parent.direction parent.weights parent.siblings)
      parent.box ++ back).map Prod.fst).Nodup) {i : Nat} {c : MuxPaneLayout ℚ} {w : ℚ}
    (hc : parent.siblings[i]? = some c) (hw : parent.weights[i]? = some w)
    (hcw : Weighted c) {id : PaneId} (hid : id ∈ c.leaves) (r : SurfaceRect ℚ) :
    (id, r) ∈ front ++ regions (.split parent.direction parent.weights parent.siblings)
        parent.box ++ back ↔
      (id, r) ∈ regions c (parent.box.slice (parent.direction == .right)
        ((parent.weights.take i).sum / parent.weights.sum) (w / parent.weights.sum)) := by
  have ⟨before, after, hsiblings, hbefore⟩ := exists_split_of_getElem? hc
  have ⟨left, right, hweights, hleft⟩ := exists_split_of_getElem? hw
  have htake : parent.weights.take i = left := by
    rw [hweights, ← hleft, List.take_left]
  rw [htake]
  rw [hsiblings, hweights, regions_split_append (hbefore.trans hleft.symm)] at hn ⊢
  rw [← List.append_assoc, ← List.append_assoc, List.append_assoc _ _ back] at hn ⊢
  exact mem_append_of_key hn (by rw [map_fst_regions hcw]; exact hid) r

end MuxPaneLayout

namespace PaneLayout

open MuxPaneLayout

/-- Without a gap the rectangles are the regions of the tree. -/
theorem Wf.rects_zero {l : PaneLayout ℚ} (h : Wf l) {area : SurfaceRect ℚ}
    (harea : area.Extended) : l.rects area 0 = l.root.regions area :=
  rectsIn_zero h.canonical area harea.1.le harea.2.le

private theorem rects_of_normalize {t root : MuxPaneLayout ℚ} (h : t.normalize = some root)
    (focused : PaneId) {area : SurfaceRect ℚ} (harea : area.Extended) :
    (⟨root, focused⟩ : PaneLayout ℚ).rects area 0 = t.regions area := by
  have hzero := rectsIn_zero (canonical_of_normalize h) area harea.1.le harea.2.le
  exact hzero.trans (regions_normalize h area)

/-- The rectangles after an insertion: the target's is halved. -/
theorem rects_insertBeside {l l' : PaneLayout ℚ} {pane target : PaneId} {side : Direction}
    (h : l.insertBeside pane target side = some l') {area : SurfaceRect ℚ}
    (harea : area.Extended) :
    l'.rects area 0 = (l.root.regions area).flatMap (halved pane target side) := by
  unfold insertBeside at h
  split at h
  · cases h
  · split at h
    · next root hr =>
      obtain rfl := Option.some.inj h
      rw [rects_of_normalize hr pane harea, regions_insertLeaf]
    · cases h

private theorem mem_halved {pane target id : PaneId} {side : Direction}
    {entry : PaneId × SurfaceRect ℚ} {r : SurfaceRect ℚ} (ht : id ≠ target) (hp : id ≠ pane) :
    (id, r) ∈ halved pane target side entry ↔ (id, r) = entry := by
  unfold halved
  split
  · next heq =>
    constructor
    · intro hmem
      cases side <;> simp [ht, hp] at hmem
    · rintro rfl
      exact absurd heq ht
  · simp

/-- An insertion moves no other pane and gives each half of the target's rectangle to one of
the two. -/
theorem Wf.rects_insertBeside {l l' : PaneLayout ℚ} (h : Wf l) {pane target : PaneId}
    {side : Direction} (hinsert : l.insertBeside pane target side = some l')
    {area : SurfaceRect ℚ} (harea : area.Extended) :
    (∀ id r, id ≠ target → id ≠ pane →
        ((id, r) ∈ l'.rects area 0 ↔ (id, r) ∈ l.rects area 0)) ∧
      ∃ box, (target, box) ∈ l.rects area 0 ∧ (pane, side.half box) ∈ l'.rects area 0 ∧
        (target, side.opposite.half box) ∈ l'.rects area 0 := by
  have hrects := PaneLayout.rects_insertBeside hinsert harea
  rw [hrects, h.rects_zero harea]
  constructor
  · intro id r ht hp
    simp only [List.mem_flatMap, mem_halved ht hp]
    exact ⟨fun ⟨_, hentry, heq⟩ ↦ heq ▸ hentry, fun hmem ↦ ⟨_, hmem, rfl⟩⟩
  · have htarget : target ∈ (l.root.regions area).map Prod.fst := by
      rw [map_fst_regions h.canonical.weighted]
      unfold PaneLayout.insertBeside at hinsert
      split at hinsert
      · cases hinsert
      · next hguard =>
        simp only [Bool.or_eq_true, Bool.not_eq_true', not_or, Bool.not_eq_false] at hguard
        exact (contains_iff_mem_panes l target).mp hguard.2
    have ⟨⟨id, box⟩, hentry, hid⟩ := List.mem_map.mp htarget
    obtain rfl : id = target := hid
    have hhalves : (pane, side.half box) ∈ halved pane id side (id, box) ∧
        (id, side.opposite.half box) ∈ halved pane id side (id, box) := by
      cases side <;> simp [halved]
    refine ⟨box, hentry, ?_, ?_⟩
    · exact List.mem_flatMap.mpr ⟨_, hentry, hhalves.1⟩
    · exact List.mem_flatMap.mpr ⟨_, hentry, hhalves.2⟩

/-- A removal moves no pane outside the split of the removed one, and the siblings take its
space over in proportion. -/
theorem Wf.rects_remove {l l' : PaneLayout ℚ} (h : Wf l) {pane : PaneId}
    (hremove : l.remove pane = some l') {area : SurfaceRect ℚ} (harea : area.Extended) :
    ∃ parent : Parent l.root area pane,
      (∀ id r, id ≠ pane → id ∉ leavesOf parent.siblings →
        ((id, r) ∈ l'.rects area 0 ↔ (id, r) ∈ l.rects area 0)) ∧
      ∀ (i : Nat) (c : MuxPaneLayout ℚ) (w : ℚ),
        parent.siblings[i]? = some c → parent.weights[i]? = some w →
        ∀ id ∈ c.leaves, ∀ r, (id, r) ∈ l'.rects area 0 ↔
          (id, r) ∈ c.rectsIn 0 (parent.box.slice (parent.direction == .right)
            ((parent.weights.take i).sum / parent.weights.sum) (w / parent.weights.sum)) := by
  unfold PaneLayout.remove at hremove
  split at hremove
  · cases hremove
  · next hguard =>
    simp only [Bool.or_eq_true, Bool.not_eq_true', not_or, Bool.not_eq_true,
      Bool.not_eq_false] at hguard
    have hmem := (contains_iff_mem_panes l pane).mp hguard.2
    have hsplit : isPane pane l.root = false := by
      have hsingle := hguard.1
      unfold isSingle at hsingle
      split at hsingle
      · cases hsingle
      · next hroot => rw [hroot]; rfl
    have ⟨parent, front, back, hbefore, hafter⟩ :=
      exists_parent h.canonical h.nodup hmem hsplit area
    have ⟨hcanonical, hbox⟩ := parent.drawn.canonical h.canonical harea
    have hpruned := h.canonical.weighted_pruneLeaf pane
    have hnodup : ((regions (pruneLeaf pane l.root) area).map Prod.fst).Nodup := by
      rw [map_fst_regions hpruned, leaves_pruneLeaf h.nodup hsplit]
      exact h.nodup.filter _
    split at hremove
    · next root hr =>
      obtain rfl := Option.some.inj hremove
      rw [rects_of_normalize hr _ harea, h.rects_zero harea]
      rw [hafter] at hnodup ⊢
      have hkeys := parent.map_fst_siblings hcanonical
      refine ⟨parent, ?_, ?_⟩
      · intro id r hid hout
        rw [hbefore, mem_append_of_not_key, mem_append_of_not_key]
        · rw [map_fst_regions hcanonical.weighted, leaves_split, leavesOf_append, leavesOf_cons,
            leaves_pane]
          rw [Parent.siblings, leavesOf_append] at hout
          simpa [hid] using hout
        · rw [hkeys]
          exact hout
      · intro i c w hc hw id hid r
        have ⟨hcc, hpositive⟩ := parent.canonical_sibling hcanonical hc hw
        have hslice := hbox.slice (parent.direction == .right)
          ((parent.weights.take i).sum / parent.weights.sum) hpositive
        rw [parent.mem_regions hnodup hc hw hcc.weighted hid,
          rectsIn_zero hcc _ hslice.1.le hslice.2.le]
    · cases hremove

/-- Splitting and closing move only what they should. The rectangles, one for each pane, tile the
area. A pane inserted beside another one takes the half of its rectangle on that side, and every
other pane stays where it is. When a pane is removed, the panes outside the split it is a child
of stay where they are, and the other children fill that split's box in their order, each with
the part of it that its weight is of theirs. -/
theorem Wf.split_and_close_in_place {l : PaneLayout ℚ} (h : Wf l) {area : SurfaceRect ℚ}
    (harea : 0 < area.width ∧ 0 < area.height) :
    ((l.rects area 0).map Prod.fst = l.panes ∧
      SurfaceRect.Tiles ((l.rects area 0).map Prod.snd) area) ∧
    (∀ pane target side l', l.insertBeside pane target side = some l' →
      (∀ id r, id ≠ target → id ≠ pane →
        ((id, r) ∈ l'.rects area 0 ↔ (id, r) ∈ l.rects area 0)) ∧
      ∃ box, (target, box) ∈ l.rects area 0 ∧ (pane, side.half box) ∈ l'.rects area 0 ∧
        (target, side.opposite.half box) ∈ l'.rects area 0) ∧
    ∀ pane l', l.remove pane = some l' → ∃ parent : Parent l.root area pane,
      (∀ id r, id ≠ pane → id ∉ leavesOf parent.siblings →
        ((id, r) ∈ l'.rects area 0 ↔ (id, r) ∈ l.rects area 0)) ∧
      ∀ (i : Nat) (c : MuxPaneLayout ℚ) (w : ℚ),
        parent.siblings[i]? = some c → parent.weights[i]? = some w →
        ∀ id ∈ c.leaves, ∀ r, (id, r) ∈ l'.rects area 0 ↔
          (id, r) ∈ c.rectsIn 0 (parent.box.slice (parent.direction == .right)
            ((parent.weights.take i).sum / parent.weights.sum) (w / parent.weights.sum)) := by
  constructor
  · rw [h.rects_zero harea]
    constructor
    · exact map_fst_regions h.canonical.weighted area
    · exact (subdivides_regions h.canonical.weighted area harea).tiles
  constructor
  · intro pane target side l' hinsert
    exact h.rects_insertBeside hinsert harea
  · intro pane l' hremove
    exact h.rects_remove hremove harea

/-- The first split of a window. -/
theorem split_in_place_single :
    ∃ l', (single "a" : PaneLayout ℚ).insertBeside "b" "a" .right = some l' ∧
      ("b", ⟨1 / 2, 0, 1, 1⟩) ∈ l'.rects ⟨0, 0, 1, 1⟩ 0 ∧
      ("a", ⟨0, 0, 1 / 2, 1⟩) ∈ l'.rects ⟨0, 0, 1, 1⟩ 0 := by
  have harea : 0 < (⟨0, 0, 1, 1⟩ : SurfaceRect ℚ).width ∧
      0 < (⟨0, 0, 1, 1⟩ : SurfaceRect ℚ).height := by
    norm_num [SurfaceRect.width, SurfaceRect.height]
  obtain ⟨l', hl', _⟩ := @Wf.insertBeside _ (wf_single "a") "b" "a" (by simp) (by simp) .right
  obtain ⟨_, box, hbox, hnew, hold⟩ :=
    ((wf_single "a").split_and_close_in_place harea).2.1 "b" "a" .right l' hl'
  obtain rfl : box = ⟨0, 0, 1, 1⟩ := by
    simpa [rects, single, rectsIn] using hbox
  refine ⟨l', hl', ?_, ?_⟩
  · simpa [Direction.half] using hnew
  · simpa [Direction.half, Direction.opposite] using hold

end PaneLayout
end Bootty.Mux
