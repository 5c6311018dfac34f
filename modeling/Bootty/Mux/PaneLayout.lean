import Bootty.Terminal.Geometry

/-!
# Server-owned pane layout

Model of `crates/bootty-mux/src/pane_layout.rs` and of the split tree of
`crates/bootty-mux/src/snapshot.rs:62–76`. The tree keeps the source's two parallel
vectors, so a node whose weight count differs from its child count can be written down
and is rejected by `normalize`. A method that returns `false` leaves its layout
unchanged; here it returns `none`.
-/

namespace Bootty.Mux

open Bootty.Base Bootty.Terminal

/-- `PaneId`. -/
abbrev PaneId := String

/-- `MuxPaneSplitDirection`. -/
inductive MuxPaneSplitDirection where
  | right
  | down
  deriving DecidableEq, Repr

/-- The native split tree, `snapshot.rs:65–73`. -/
inductive MuxPaneLayout (K : Type) where
  | pane (id : PaneId)
  | split (direction : MuxPaneSplitDirection) (weights : List K)
      (children : List (MuxPaneLayout K))

/-- `SplitDirection`. -/
inductive SplitDirection where
  | right
  | down
  deriving DecidableEq, Repr

/-- `Direction`. -/
inductive Direction where
  | left
  | right
  | up
  | down
  deriving DecidableEq, Repr

namespace MuxPaneLayout

variable {K : Type}

/-- The direction of a split; a leaf has none. -/
def direction? : MuxPaneLayout K → Option MuxPaneSplitDirection
  | .pane _ => none
  | .split d _ _ => some d

mutual

/-- The leaves from left to right, `pane_layout.rs:144–158`. -/
def leaves : MuxPaneLayout K → List PaneId
  | .pane id => [id]
  | .split _ _ children => leavesOf children

/-- The leaves of a child list. -/
def leavesOf : List (MuxPaneLayout K) → List PaneId
  | [] => []
  | child :: rest => leaves child ++ leavesOf rest

end

mutual

/-- `pane_layout.rs:362–367`. -/
def firstLeaf : MuxPaneLayout K → Option PaneId
  | .pane id => some id
  | .split _ _ children => firstLeafOf children

/-- The first child's first leaf. -/
def firstLeafOf : List (MuxPaneLayout K) → Option PaneId
  | [] => none
  | child :: _ => firstLeaf child

end

mutual

/-- `pane_layout.rs:368–373`. -/
def contains (pane : PaneId) : MuxPaneLayout K → Bool
  | .pane id => id == pane
  | .split _ _ children => containsAny pane children

/-- Some child contains the pane. -/
def containsAny (pane : PaneId) : List (MuxPaneLayout K) → Bool
  | [] => false
  | child :: rest => contains pane child || containsAny pane rest

end

/-- What `swap_leaves` writes into one leaf. -/
def swapId (first second id : PaneId) : PaneId :=
  if id = first then second else if id = second then first else id

mutual

/-- `pane_layout.rs:374–385`. -/
def swapLeaves (first second : PaneId) : MuxPaneLayout K → MuxPaneLayout K
  | .pane id => .pane (swapId first second id)
  | .split d ws children => .split d ws (swapLeavesOf first second children)

/-- `swap_leaves` over a child list. -/
def swapLeavesOf (first second : PaneId) : List (MuxPaneLayout K) → List (MuxPaneLayout K)
  | [] => []
  | child :: rest => swapLeaves first second child :: swapLeavesOf first second rest

end

mutual

/-- `pane_layout.rs:386–403`; the child counts are compared by the two recursions ending
together. -/
def sameStructure : MuxPaneLayout K → MuxPaneLayout K → Bool
  | .pane a, .pane b => a == b
  | .split a _ ac, .split b _ bc => a == b && sameStructures ac bc
  | _, _ => false

/-- Equal length and pairwise equal structure. -/
def sameStructures : List (MuxPaneLayout K) → List (MuxPaneLayout K) → Bool
  | [], [] => true
  | a :: as, b :: bs => sameStructure a b && sameStructures as bs
  | _, _ => false

end

/-- The leaf position test of `prune_leaf`. -/
def isPane (pane : PaneId) : MuxPaneLayout K → Bool
  | .pane id => id == pane
  | .split _ _ _ => false

mutual

/-- `pane_layout.rs:472–491`. A direct child leaf goes together with its weight; otherwise
every child is pruned. -/
def pruneLeaf (pane : PaneId) : MuxPaneLayout K → MuxPaneLayout K
  | .pane id => .pane id
  | .split d ws children =>
    match children.findIdx? (isPane pane) with
    | some ix => .split d (ws.eraseIdx ix) (children.eraseIdx ix)
    | none => .split d ws (pruneLeaves pane children)

/-- `prune_leaf` on every child. -/
def pruneLeaves (pane : PaneId) : List (MuxPaneLayout K) → List (MuxPaneLayout K)
  | [] => []
  | child :: rest => pruneLeaf pane child :: pruneLeaves pane rest

end

section Scaled

variable [Scalar K]

/-- The two-child split that replaces a target leaf, `pane_layout.rs:451–464`. -/
def splitLeaf (target pane : PaneId) (direction : Direction) : MuxPaneLayout K :=
  let half : K := Scalar.literal (1 / 2)
  match direction with
  | .left => .split .right [half, half] [.pane pane, .pane target]
  | .right => .split .right [half, half] [.pane target, .pane pane]
  | .up => .split .down [half, half] [.pane pane, .pane target]
  | .down => .split .down [half, half] [.pane target, .pane pane]

mutual

/-- `pane_layout.rs:449–471`. -/
def insertLeaf (pane target : PaneId) (direction : Direction) :
    MuxPaneLayout K → MuxPaneLayout K
  | .pane id => if id = target then splitLeaf id pane direction else .pane id
  | .split d ws children => .split d ws (insertLeaves pane target direction children)

/-- `insert_leaf` on every child. -/
def insertLeaves (pane target : PaneId) (direction : Direction) :
    List (MuxPaneLayout K) → List (MuxPaneLayout K)
  | [] => []
  | child :: rest =>
    insertLeaf pane target direction child :: insertLeaves pane target direction rest

end

/-- One iteration of the flattening loop, `pane_layout.rs:78–95`: a child split of the same
direction is spliced with scaled weights. -/
def splice (direction : MuxPaneSplitDirection) (weight : K) (child : MuxPaneLayout K)
    (rest : List (MuxPaneLayout K) × List K) : List (MuxPaneLayout K) × List K :=
  match child with
  | .split inner weights children =>
    if inner = direction then (children ++ rest.1, weights.map (weight * ·) ++ rest.2)
    else (.split inner weights children :: rest.1, weight :: rest.2)
  | .pane id => (.pane id :: rest.1, weight :: rest.2)

/-- The end of `normalize`, `pane_layout.rs:96–106`. -/
def collapse (direction : MuxPaneSplitDirection) (flatChildren : List (MuxPaneLayout K))
    (flatWeights : List K) : Option (MuxPaneLayout K) :=
  match flatChildren with
  | [child] => some child
  | _ =>
    if flatWeights.any (fun w ↦ w ≤ Scalar.literal 0) then none
    else some (.split direction flatWeights flatChildren)

/-- The weight checks of `normalize`, `pane_layout.rs:63–74`. -/
def validWeights (weights : List K) (count : Nat) : Bool :=
  0 < count && count == weights.length &&
    weights.all (fun w ↦ Scalar.isFinite w && !decide (w ≤ Scalar.literal 0)) &&
    Scalar.isFinite (Scalar.total weights)

mutual

/-- Post-order collapse and scaled same-axis splice, `pane_layout.rs:54–106`. -/
def normalize : MuxPaneLayout K → Option (MuxPaneLayout K)
  | .pane id => some (.pane id)
  | .split direction weights children =>
    if validWeights weights children.length then
      match normalizeChildren direction (Scalar.total weights) children weights with
      | some flat => collapse direction flat.1 flat.2
      | none => none
    else none

/-- The loop over `children.into_iter().zip(weights)`. -/
def normalizeChildren (direction : MuxPaneSplitDirection) (total : K) :
    List (MuxPaneLayout K) → List K → Option (List (MuxPaneLayout K) × List K)
  | child :: children, weight :: weights =>
    match normalize child with
    | none => none
    | some child =>
      match normalizeChildren direction total children weights with
      | none => none
      | some rest => some (splice direction (weight / total) child rest)
  | _, _ => some ([], [])

end

mutual

/-- `PaneLayout::rects`, `pane_layout.rs:289–333`, on one node. -/
def rectsIn (gap : K) : MuxPaneLayout K → SurfaceRect K → List (PaneId × SurfaceRect K)
  | .pane id, area => [(id, area)]
  | .split direction weights children, area =>
    let horizontal := direction == .right
    let extent := if horizontal then area.width else area.height
    let usable := max (Scalar.mulAdd gap (Scalar.literal (-((children.length - 1 : Nat) : ℚ))) extent)
      (Scalar.literal 0)
    rectsAlong gap horizontal usable area children weights (Scalar.literal 0)

/-- The loop over the weighted children, carrying the running offset. -/
def rectsAlong (gap : K) (horizontal : Bool) (usable : K) (area : SurfaceRect K) :
    List (MuxPaneLayout K) → List K → K → List (PaneId × SurfaceRect K)
  | child :: children, weight :: weights, offset =>
    let size := usable * weight
    let rect :=
      if horizontal then SurfaceRect.fromMinSize (area.minX + offset) area.minY size area.height
      else SurfaceRect.fromMinSize area.minX (area.minY + offset) area.width size
    rectsIn gap child rect ++
      rectsAlong gap horizontal usable area children weights (offset + (size + gap))
  | _, _, _ => []

end

end Scaled

end MuxPaneLayout

section Neighbor

variable {K : Type} [Scalar K]

/-- `vertical_overlap`. -/
def verticalOverlap (a b : SurfaceRect K) : K :=
  max (min a.maxY b.maxY - max a.minY b.minY) (Scalar.literal 0)

/-- `horizontal_overlap`. -/
def horizontalOverlap (a b : SurfaceRect K) : K :=
  max (min a.maxX b.maxX - max a.minX b.minX) (Scalar.literal 0)

/-- Distance along the axis and perpendicular overlap of a candidate on the right side,
`pane_layout.rs:405–439`. -/
def directionalGap (origin candidate : SurfaceRect K) (direction : Direction) : Option (K × K) :=
  let originX := Scalar.midpoint origin.minX origin.maxX
  let originY := Scalar.midpoint origin.minY origin.maxY
  let candidateX := Scalar.midpoint candidate.minX candidate.maxX
  let candidateY := Scalar.midpoint candidate.minY candidate.maxY
  let (forward, primary, overlap) :=
    match direction with
    | .right => (decide (originX < candidateX), candidate.minX - origin.maxX,
        verticalOverlap origin candidate)
    | .left => (decide (candidateX < originX), origin.minX - candidate.maxX,
        verticalOverlap origin candidate)
    | .down => (decide (originY < candidateY), candidate.minY - origin.maxY,
        horizontalOverlap origin candidate)
    | .up => (decide (candidateY < originY), origin.minY - candidate.maxY,
        horizontalOverlap origin candidate)
  if forward && decide (Scalar.literal 0 < overlap) then some (primary, overlap) else none

/-- `Iterator::min_by` with `total_cmp` on the score: the first of equal minima. -/
def minByScore : List (K × PaneId) → Option (K × PaneId)
  | [] => none
  | x :: xs => some (xs.foldl (fun best y ↦
      if Scalar.totalCmp best.1 y.1 = .gt then y else best) x)

end Neighbor

/-- `pane_layout.rs:108–112`. -/
structure PaneLayout (K : Type) where
  root : MuxPaneLayout K
  focused : PaneId

namespace PaneLayout

variable {K : Type}

/-- `single`. -/
def single (pane : PaneId) : PaneLayout K := ⟨.pane pane, pane⟩

/-- `snapshot`. -/
def snapshot (l : PaneLayout K) : MuxPaneLayout K := l.root

/-- `is_single`. -/
def isSingle (l : PaneLayout K) : Bool :=
  match l.root with
  | .pane _ => true
  | .split _ _ _ => false

/-- `contains`. -/
def contains (l : PaneLayout K) (pane : PaneId) : Bool := l.root.contains pane

/-- `panes`. -/
def panes (l : PaneLayout K) : List PaneId := l.root.leaves

/-- `set_focus`. -/
def setFocus (l : PaneLayout K) (pane : PaneId) : Option (PaneLayout K) :=
  if l.contains pane then some { l with focused := pane } else none

/-- `swap`. -/
def swap (l : PaneLayout K) (first second : PaneId) : Option (PaneLayout K) :=
  if first = second || !l.contains first || !l.contains second then none
  else some { l with root := l.root.swapLeaves first second }

/-- `replace`. -/
def replace (l : PaneLayout K) (pane replacement : PaneId) : Option (PaneLayout K) :=
  if !l.contains pane || l.contains replacement then none
  else some
    { root := l.root.swapLeaves pane replacement
      focused := if l.focused = pane then replacement else l.focused }

section Scaled

variable [Scalar K]

/-- `pane_layout.rs:123–130`; the hash-set size test is duplicate freedom. -/
def fromMuxLayout (layout : MuxPaneLayout K) : Option (PaneLayout K) := do
  let root ← layout.normalize
  let focused ← root.firstLeaf
  let layout : PaneLayout K := ⟨root, focused⟩
  if layout.panes.Nodup then some layout else none

/-- `merge`. -/
def merge (l other : PaneLayout K) : Option (PaneLayout K) :=
  if other.panes.any l.contains then none
  else
    let half : K := Scalar.literal (1 / 2)
    match (MuxPaneLayout.split .right [half, half] [l.root, other.root]).normalize with
    | some root => some ⟨root, other.focused⟩
    | none => none

/-- `insert_beside`. -/
def insertBeside (l : PaneLayout K) (pane target : PaneId) (direction : Direction) :
    Option (PaneLayout K) :=
  if l.contains pane || !l.contains target then none
  else
    match (l.root.insertLeaf pane target direction).normalize with
    | some root => some ⟨root, pane⟩
    | none => none

/-- `split_focused`. -/
def splitFocused (l : PaneLayout K) (pane : PaneId) (direction : SplitDirection) : PaneLayout K :=
  let direction := match direction with
    | .right => Direction.right
    | .down => Direction.down
  (l.insertBeside pane l.focused direction).getD l

/-- `pane_layout.rs:238–252`: a removed focus falls back to the first leaf. -/
def remove (l : PaneLayout K) (pane : PaneId) : Option (PaneLayout K) :=
  if l.isSingle || !l.contains pane then none
  else
    match (l.root.pruneLeaf pane).normalize with
    | some root =>
      some ⟨root, if root.contains l.focused then l.focused else root.firstLeaf.getD l.focused⟩
    | none => none

/-- `move_beside`. -/
def moveBeside (l : PaneLayout K) (pane target : PaneId) (direction : Direction) :
    Option (PaneLayout K) :=
  if pane = target || !l.contains pane || !l.contains target then none
  else
    match l.remove pane with
    | some candidate => candidate.insertBeside pane target direction
    | none => none

/-- `pane_layout.rs:256–271`: drop the panes that are gone, then split in the missing ones. -/
def reconcileWithNewPaneDirection (l : PaneLayout K) (ids : List PaneId)
    (direction : SplitDirection) : PaneLayout K :=
  match ids with
  | [] => l
  | first :: _ =>
    let kept := if l.panes.any ids.contains then l else single first
    let pruned := kept.panes.foldl
      (fun l pane ↦ if ids.contains pane then l else (l.remove pane).getD l) kept
    ids.foldl (fun l pane ↦ if l.contains pane then l else l.splitFocused pane direction) pruned

/-- `reconcile`. -/
def reconcile (l : PaneLayout K) (ids : List PaneId) : PaneLayout K :=
  l.reconcileWithNewPaneDirection ids .right

/-- `resize`. -/
def resize (l : PaneLayout K) (proposed : MuxPaneLayout K) : Option (PaneLayout K) :=
  match fromMuxLayout proposed with
  | none => none
  | some proposed =>
    if l.root.sameStructure proposed.root then some { l with root := proposed.root } else none

/-- `rects`. -/
def rects (l : PaneLayout K) (area : SurfaceRect K) (gap : K) : List (PaneId × SurfaceRect K) :=
  l.root.rectsIn gap area

/-- `pane_layout.rs:340–360`. -/
def neighbor (l : PaneLayout K) (source : PaneId) (direction : Direction)
    (area : SurfaceRect K) (gap : K) : Option PaneId := do
  let rects := l.rects area gap
  let origin ← rects.find? (fun entry ↦ entry.1 == source)
  let scored := (rects.filter (fun entry ↦ entry.1 != source)).filterMap (fun entry ↦ do
    let (primary, overlap) ← directionalGap origin.2 entry.2 direction
    some (Scalar.mulAdd overlap (Scalar.literal (-1 / 1000)) primary, entry.1))
  let best ← minByScore scored
  some best.2

end Scaled

end PaneLayout
end Bootty.Mux
