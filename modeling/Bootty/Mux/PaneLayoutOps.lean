import Bootty.Mux.PaneLayoutCanonical

/-!
# Operations on a pane layout

One law for each method of `PaneLayout`. The first section needs no arithmetic; the
second is about exact weights, where no operation on a well-formed layout fails for want
of a representable weight. `reconcile` is the total one: whatever layout it starts from,
it ends on the requested panes.
-/

namespace Bootty.Mux

namespace PaneLayout

open Bootty.Base Bootty.Terminal MuxPaneLayout

variable {p : PaneId}

section Structural

variable {K : Type}

@[simp] theorem contains_iff_mem_panes (l : PaneLayout K) (p : PaneId) :
    l.contains p = true ↔ p ∈ l.panes := MuxPaneLayout.contains_iff_mem p l.root

/-- What a layout does not contain. -/
theorem contains_eq_false_iff (l : PaneLayout K) (p : PaneId) :
    l.contains p = false ↔ p ∉ l.panes := by
  rw [← contains_iff_mem_panes, Bool.not_eq_true]

@[simp] theorem panes_single (p : PaneId) : (single p : PaneLayout K).panes = [p] := by
  simp [single, panes]

/-- Focusing changes nothing but the focus. -/
theorem setFocus_root (l : PaneLayout K) (p : PaneId) : ((l.setFocus p).getD l).root = l.root := by
  unfold setFocus
  split <;> rfl

variable [Scalar K]

/-- An accepted layout has the leaves of its source, without repetition. -/
theorem fromMuxLayout_eq_some {layout : MuxPaneLayout K} {l : PaneLayout K}
    (h : fromMuxLayout layout = some l) :
    layout.normalize = some l.root ∧ l.panes = layout.leaves ∧ l.panes.Nodup ∧
      l.focused ∈ l.panes := by
  unfold fromMuxLayout at h
  cases hr : layout.normalize with
  | none => simp [hr] at h
  | some root =>
    cases hf : root.firstLeaf with
    | none => simp [hr, hf] at h
    | some focused =>
      simp only [hr, hf, Option.bind_eq_bind, Option.bind_some, Option.ite_none_right_eq_some,
        Option.some.injEq] at h
      obtain ⟨hn, rfl⟩ := h
      exact ⟨rfl, leaves_normalize hr, hn, mem_of_firstLeaf hf⟩

private theorem mem_of_foldl_minBy {xs : List (K × PaneId)} {x : K × PaneId} :
    xs.foldl (fun best y ↦ if Scalar.totalCmp best.1 y.1 = .gt then y else best) x ∈ x :: xs := by
  induction xs generalizing x with
  | nil => simp
  | cons y ys ih =>
    rw [List.foldl_cons]
    split
    · exact List.mem_cons_of_mem _ ih
    · rcases List.mem_cons.mp (ih (x := x)) with h | h
      · rw [h]
        exact List.mem_cons_self
      · exact List.mem_cons_of_mem _ (List.mem_cons_of_mem _ h)

/-- The chosen entry is one of the list. -/
theorem mem_of_minByScore {xs : List (K × PaneId)} {best : K × PaneId}
    (h : minByScore xs = some best) : best ∈ xs := by
  cases xs with
  | nil => simp [minByScore] at h
  | cons x xs =>
    obtain rfl := Option.some.inj h
    exact mem_of_foldl_minBy

/-- Directional navigation only ever names a pane of the layout. -/
theorem neighbor_mem {l : PaneLayout K} {source : PaneId} {direction : Direction}
    {area : SurfaceRect K} {gap : K} (h : l.neighbor source direction area gap = some p) :
    p ∈ l.panes := by
  simp only [neighbor, Option.bind_eq_bind, Option.bind_eq_some_iff] at h
  obtain ⟨origin, -, best, hbest, hp⟩ := h
  obtain rfl := Option.some.inj hp
  obtain ⟨entry, he, hscore⟩ := List.mem_filterMap.mp (mem_of_minByScore hbest)
  obtain ⟨gap, -, hs⟩ := Option.bind_eq_some_iff.mp hscore
  obtain rfl := Option.some.inj hs
  exact mem_leaves_of_mem_rectsIn (List.mem_of_mem_filter he)

end Structural

/-! ### Exact weights -/

/-- A well-formed layout over exact weights. -/
structure Wf (l : PaneLayout ℚ) : Prop where
  canonical : l.root.Canonical
  nodup : l.panes.Nodup
  focused : l.focused ∈ l.panes

theorem wf_single (p : PaneId) : Wf (single p) :=
  ⟨.pane p, by simp, by simp [single, panes]⟩

variable {l : PaneLayout ℚ}

/-- Whatever a snapshot holds, an accepted layout is well formed. -/
theorem wf_of_fromMuxLayout {layout : MuxPaneLayout ℚ} (h : fromMuxLayout layout = some l) :
    Wf l := by
  obtain ⟨hr, -, hn, hf⟩ := fromMuxLayout_eq_some h
  exact ⟨canonical_of_normalize hr, hn, hf⟩

/-- A canonical tree with distinct leaves is accepted as it stands. -/
theorem fromMuxLayout_of_canonical {t : MuxPaneLayout ℚ} (hc : t.Canonical)
    (hn : t.leaves.Nodup) : ∃ l, fromMuxLayout t = some l ∧ l.root = t := by
  obtain ⟨focused, hf⟩ := hc.weighted.firstLeaf
  refine ⟨⟨t, focused⟩, ?_, rfl⟩
  simp [fromMuxLayout, hc.normalize_eq, hf, panes, hn]

theorem Wf.setFocus (h : Wf l) (p : PaneId) : Wf ((l.setFocus p).getD l) := by
  unfold PaneLayout.setFocus
  split
  · next hp => exact ⟨h.canonical, h.nodup, (contains_iff_mem_panes l p).mp hp⟩
  · exact h

/-- Insertion beside a pane of the layout succeeds and adds exactly the new pane. -/
theorem Wf.insertBeside {l : PaneLayout ℚ} (h : Wf l) {p target : PaneId} (hp : p ∉ l.panes)
    (ht : target ∈ l.panes) (direction : Direction) :
    ∃ l', l.insertBeside p target direction = some l' ∧ Wf l' ∧ l'.panes.Perm (p :: l.panes) ∧
      l'.focused = p := by
  obtain ⟨root, hr⟩ := (h.canonical.weighted.insertLeaf p target direction).normalize
  have hleaves : root.leaves = (l.root.insertLeaf p target direction).leaves := leaves_normalize hr
  have hperm : root.leaves.Perm (p :: l.panes) := by
    rw [hleaves, leaves_insertLeaf]
    exact flatMap_inserted_perm h.nodup ht
  have hnodup : root.leaves.Nodup := hperm.nodup_iff.mpr (List.nodup_cons.mpr ⟨hp, h.nodup⟩)
  refine ⟨⟨root, p⟩, ?_, ⟨canonical_of_normalize hr, hnodup, ?_⟩, hperm, rfl⟩
  · have h1 := (contains_eq_false_iff l p).mpr hp
    have h2 := (contains_iff_mem_panes l target).mpr ht
    simp [PaneLayout.insertBeside, h1, h2, hr]
  · exact hperm.mem_iff.mpr (by simp)

/-- Splitting the focused pane succeeds for every pane that is not in the layout yet. -/
theorem Wf.splitFocused (h : Wf l) (hp : p ∉ l.panes) (direction : SplitDirection) :
    Wf (l.splitFocused p direction) ∧ (l.splitFocused p direction).panes.Perm (p :: l.panes) := by
  unfold PaneLayout.splitFocused
  cases direction with
  | right =>
    obtain ⟨l', he, hw, hperm, -⟩ := h.insertBeside hp h.focused .right
    simpa [he] using ⟨hw, hperm⟩
  | down =>
    obtain ⟨l', he, hw, hperm, -⟩ := h.insertBeside hp h.focused .down
    simpa [he] using ⟨hw, hperm⟩

private theorem isSingle_eq_false {q : PaneId} (hp : p ∈ l.panes) (hq : q ∈ l.panes) (hne : p ≠ q) :
    l.isSingle = false := by
  cases hr : l.root with
  | pane id =>
    simp only [panes, hr, leaves_pane, List.mem_singleton] at hp hq
    exact absurd (hp.trans hq.symm) hne
  | split d ws cs => simp [isSingle, hr]

private theorem Wf.remove_of_split (h : Wf l) (hp : p ∈ l.panes) (hs : l.isSingle = false) :
    ∃ l', l.remove p = some l' ∧ Wf l' ∧ l'.panes = l.panes.filter (· ≠ p) := by
  have hpane : isPane p l.root = false := by
    cases hr : l.root with
    | pane id => simp [isSingle, hr] at hs
    | split d ws cs => simp [isPane]
  obtain ⟨root, hr⟩ := (h.canonical.weighted_pruneLeaf p).normalize
  have hleaves : root.leaves = l.panes.filter (· ≠ p) := by
    rw [leaves_normalize hr, leaves_pruneLeaf h.nodup hpane]
    rfl
  have hcanonical := canonical_of_normalize hr
  obtain ⟨first, hfirst⟩ := hcanonical.weighted.firstLeaf
  refine ⟨⟨root, if root.contains l.focused then l.focused else root.firstLeaf.getD l.focused⟩,
    by simp [PaneLayout.remove, hs, (contains_iff_mem_panes l p).mpr hp, hr],
    ⟨hcanonical, ?_, ?_⟩, hleaves⟩
  · change root.leaves.Nodup
    rw [hleaves]
    exact h.nodup.filter _
  · change (if root.contains l.focused then l.focused else root.firstLeaf.getD l.focused) ∈
      root.leaves
    split
    · next hf => exact (MuxPaneLayout.contains_iff_mem _ _).mp hf
    · rw [hfirst]
      exact mem_of_firstLeaf hfirst

/-- Removing one of several panes succeeds and drops exactly that pane. -/
theorem Wf.remove (h : Wf l) {q : PaneId} (hp : p ∈ l.panes) (hq : q ∈ l.panes) (hne : p ≠ q) :
    ∃ l', l.remove p = some l' ∧ Wf l' ∧ l'.panes = l.panes.filter (· ≠ p) :=
  h.remove_of_split hp (isSingle_eq_false hp hq hne)

/-- A removal, done or refused, keeps the layout well formed. -/
theorem Wf.getD_remove (h : Wf l) (p : PaneId) : Wf ((l.remove p).getD l) := by
  by_cases hc : l.isSingle = false ∧ p ∈ l.panes
  · obtain ⟨l', he, hw, -⟩ := h.remove_of_split hc.2 hc.1
    rwa [he]
  · have hnone : l.remove p = none := by
      rw [PaneLayout.remove, if_pos]
      rw [← contains_iff_mem_panes] at hc
      by_contra hno
      simp only [Bool.or_eq_true, not_or, Bool.not_eq_true', Bool.not_eq_false,
        Bool.not_eq_true] at hno
      exact hc hno
    rwa [hnone]

/-- A swap of two panes of the layout succeeds and keeps its panes. -/
theorem Wf.swap (h : Wf l) {a b : PaneId} (ha : a ∈ l.panes) (hb : b ∈ l.panes) (hne : a ≠ b) :
    ∃ l', l.swap a b = some l' ∧ Wf l' ∧ l'.panes = l.panes.map (swapId a b) := by
  have hl : (l.root.swapLeaves a b).leaves = l.panes.map (swapId a b) := leaves_swapLeaves a b l.root
  refine ⟨⟨l.root.swapLeaves a b, l.focused⟩, ?_, ⟨h.canonical.swapLeaves a b, ?_, ?_⟩, hl⟩
  · simp [PaneLayout.swap, hne, (contains_iff_mem_panes l a).mpr ha,
      (contains_iff_mem_panes l b).mpr hb]
  · change (l.root.swapLeaves a b).leaves.Nodup
    rw [hl]
    exact h.nodup.map (swapId_injective a b)
  · change l.focused ∈ (l.root.swapLeaves a b).leaves
    rw [hl, List.mem_map]
    -- The focus may be one of the swapped ids; its preimage is then the other.
    refine ⟨swapId a b l.focused, ?_, ?_⟩
    · unfold swapId
      split_ifs
      · exact hb
      · exact ha
      · exact h.focused
    · unfold swapId
      split_ifs <;> simp_all

/-- Replacing a pane by one outside the layout succeeds and relabels exactly that leaf. -/
theorem Wf.replace (h : Wf l) {r : PaneId} (hp : p ∈ l.panes) (hr : r ∉ l.panes) :
    ∃ l', l.replace p r = some l' ∧ Wf l' ∧ l'.panes = l.panes.map (swapId p r) := by
  have hl : (l.root.swapLeaves p r).leaves = l.panes.map (swapId p r) := leaves_swapLeaves p r l.root
  refine ⟨⟨l.root.swapLeaves p r, if l.focused = p then r else l.focused⟩, ?_,
    ⟨h.canonical.swapLeaves p r, ?_, ?_⟩, hl⟩
  · simp [PaneLayout.replace, (contains_iff_mem_panes l p).mpr hp,
      (contains_eq_false_iff l r).mpr hr]
  · change (l.root.swapLeaves p r).leaves.Nodup
    rw [hl]
    exact h.nodup.map (swapId_injective p r)
  · change (if l.focused = p then r else l.focused) ∈ (l.root.swapLeaves p r).leaves
    rw [hl, List.mem_map]
    refine ⟨l.focused, h.focused, ?_⟩
    have hne : l.focused ≠ r := fun he ↦ hr (he ▸ h.focused)
    simp [swapId, hne]

/-- A swap, done or refused, keeps the layout well formed. -/
theorem Wf.getD_swap (h : Wf l) (a b : PaneId) : Wf ((l.swap a b).getD l) := by
  by_cases hc : a ≠ b ∧ a ∈ l.panes ∧ b ∈ l.panes
  · obtain ⟨l', he, hw, -⟩ := h.swap hc.2.1 hc.2.2 hc.1
    rwa [he]
  · have hnone : l.swap a b = none := by
      rw [PaneLayout.swap, if_pos]
      rw [← contains_iff_mem_panes, ← contains_iff_mem_panes] at hc
      by_contra hno
      simp only [Bool.or_eq_true, decide_eq_true_eq, not_or, Bool.not_eq_true',
        Bool.not_eq_false] at hno
      exact hc ⟨hno.1.1, hno.1.2, hno.2⟩
    rwa [hnone]

/-- A replacement, done or refused, keeps the layout well formed. -/
theorem Wf.getD_replace (h : Wf l) (p r : PaneId) :
    Wf ((l.replace p r).getD l) := by
  by_cases hc : p ∈ l.panes ∧ r ∉ l.panes
  · obtain ⟨l', he, hw, -⟩ := h.replace hc.1 hc.2
    rwa [he]
  · have hnone : l.replace p r = none := by
      rw [PaneLayout.replace, if_pos]
      rw [← contains_iff_mem_panes, ← contains_eq_false_iff] at hc
      by_contra hno
      simp only [Bool.or_eq_true, not_or, Bool.not_eq_true', Bool.not_eq_false,
        Bool.not_eq_true] at hno
      exact hc hno
    rwa [hnone]

/-- Merging two disjoint layouts succeeds and concatenates their panes. -/
theorem Wf.merge {other : PaneLayout ℚ} (h : Wf l) (ho : Wf other)
    (hd : ∀ p ∈ other.panes, p ∉ l.panes) :
    ∃ l', l.merge other = some l' ∧ Wf l' ∧ l'.panes = l.panes ++ other.panes := by
  have hw : Weighted (.split .right [1 / 2, 1 / 2] [l.root, other.root]) := by
    refine .split _ _ _ (by simp) (by simp) ?_ ?_
    · intro w hw
      simp only [List.mem_cons, List.not_mem_nil, or_false, or_self] at hw
      rw [hw]
      norm_num
    · intro c hc
      simp only [List.mem_cons, List.not_mem_nil, or_false] at hc
      rcases hc with rfl | rfl
      · exact h.canonical.weighted
      · exact ho.canonical.weighted
  obtain ⟨root, hr⟩ := hw.normalize
  have hl : root.leaves = l.panes ++ other.panes := by
    rw [leaves_normalize hr]
    simp [panes]
  refine ⟨⟨root, other.focused⟩, ?_, ⟨canonical_of_normalize hr, ?_, ?_⟩, hl⟩
  · have hany : other.panes.any l.contains = false := by
      rw [List.any_eq_false]
      intro p hp
      simpa using hd p hp
    simp only [PaneLayout.merge, hany, Bool.false_eq_true, if_false]
    rw [show (Scalar.literal (1 / 2) : ℚ) = 1 / 2 from rfl, hr]
  · change root.leaves.Nodup
    rw [hl, List.nodup_append]
    exact ⟨h.nodup, ho.nodup, fun a ha b hb he ↦ hd b hb (he ▸ ha)⟩
  · change other.focused ∈ root.leaves
    rw [hl, List.mem_append]
    exact .inr ho.focused

/-- Moving one pane beside another pane of the same layout succeeds. -/
theorem Wf.moveBeside (h : Wf l) {t : PaneId} (hp : p ∈ l.panes) (ht : t ∈ l.panes) (hne : p ≠ t)
    (direction : Direction) :
    ∃ l', l.moveBeside p t direction = some l' ∧ Wf l' ∧ l'.panes.Perm l.panes := by
  obtain ⟨m, hm, hwm, hpm⟩ := h.remove hp ht hne
  have hpn : p ∉ m.panes := by rw [hpm]; simp
  have htm : t ∈ m.panes := by rw [hpm]; simp [ht, hne.symm]
  obtain ⟨l', hl', hw', hperm, -⟩ := hwm.insertBeside hpn htm direction
  refine ⟨l', ?_, hw', hperm.trans ?_⟩
  · simp [PaneLayout.moveBeside, hne, (contains_iff_mem_panes l p).mpr hp,
      (contains_iff_mem_panes l t).mpr ht, hm, hl']
  · have hf : l.panes.filter (· ≠ p) = l.panes.erase p := by
      rw [h.nodup.erase_eq_filter p]
      exact List.filter_congr fun x _ ↦ by by_cases hx : x = p <;> simp [hx]
    rw [hpm, hf]
    exact (List.perm_cons_erase hp).symm

/-! ### Reconciliation -/

variable {ids : List PaneId}

private theorem wf_pruneStep (h : Wf l) (hkeep : ∃ q ∈ l.panes, q ∈ ids) (p : PaneId) :
    ∃ l', (if ids.contains p then l else (l.remove p).getD l) = l' ∧ Wf l' ∧
      ∀ q, q ∈ l'.panes ↔ q ∈ l.panes ∧ (q ∈ ids ∨ q ≠ p) := by
  by_cases hid : p ∈ ids
  · refine ⟨l, if_pos (by simpa using hid), h, fun q ↦ ⟨fun hq ↦ ⟨hq, ?_⟩, And.left⟩⟩
    by_cases he : q = p
    · exact .inl (he ▸ hid)
    · exact .inr he
  · rw [if_neg (by simpa using hid)]
    obtain ⟨q₀, hq₀, hq₀id⟩ := hkeep
    by_cases hp : p ∈ l.panes
    · obtain ⟨m, hm, hwm, hpm⟩ := h.remove hp hq₀ (fun he ↦ hid (he ▸ hq₀id))
      refine ⟨m, by rw [hm, Option.getD_some], hwm, fun q ↦ ?_⟩
      rw [hpm, List.mem_filter, decide_eq_true_eq]
      exact and_congr_right fun _ ↦
        ⟨.inr, fun h1 ↦ h1.elim (fun hq he ↦ hid (he ▸ hq)) id⟩
    · have hnone : l.remove p = none := by
        simp [PaneLayout.remove, (contains_eq_false_iff l p).mpr hp]
      refine ⟨l, by rw [hnone, Option.getD_none], h, fun q ↦ ⟨fun hq ↦ ⟨hq, .inr ?_⟩, And.left⟩⟩
      exact fun he ↦ hp (he ▸ hq)

private theorem foldl_remove (todo : List PaneId) (h : Wf l) (hkeep : ∃ q ∈ l.panes, q ∈ ids) :
    let l' := todo.foldl
      (fun l pane ↦ if ids.contains pane then l else (l.remove pane).getD l) l
    Wf l' ∧ (∀ q, q ∈ l'.panes ↔ q ∈ l.panes ∧ (q ∈ ids ∨ q ∉ todo)) := by
  induction todo generalizing l with
  | nil => exact ⟨h, by simp⟩
  | cons p todo ih =>
    obtain ⟨m, hm, hwm, hmem⟩ := wf_pruneStep h hkeep p
    obtain ⟨q₀, hq₀, hq₀id⟩ := hkeep
    rw [List.foldl_cons, hm]
    obtain ⟨hw, hiff⟩ := ih hwm ⟨q₀, (hmem q₀).mpr ⟨hq₀, .inl hq₀id⟩, hq₀id⟩
    refine ⟨hw, fun q ↦ (hiff q).trans ?_⟩
    rw [hmem, List.mem_cons]
    tauto

private theorem foldl_split (todo : List PaneId) (direction : SplitDirection) (h : Wf l) :
    let l' := todo.foldl (fun l pane ↦ if l.contains pane then l else l.splitFocused pane direction) l
    Wf l' ∧ (∀ q, q ∈ l'.panes ↔ q ∈ l.panes ∨ q ∈ todo) := by
  induction todo generalizing l with
  | nil => exact ⟨h, by simp⟩
  | cons p todo ih =>
    simp only [List.foldl_cons]
    by_cases hp : p ∈ l.panes
    · rw [if_pos ((contains_iff_mem_panes l p).mpr hp)]
      obtain ⟨hw, hm⟩ := ih h
      refine ⟨hw, fun q ↦ (hm q).trans ?_⟩
      constructor
      · exact Or.imp id (fun hq ↦ by simp [hq])
      · rintro (hq | hq)
        · exact .inl hq
        · rcases List.mem_cons.mp hq with rfl | hq
          · exact .inl hp
          · exact .inr hq
    · rw [if_neg (by simpa using hp)]
      obtain ⟨hw, hperm⟩ := h.splitFocused hp direction
      obtain ⟨hw', hm⟩ := ih hw
      refine ⟨hw', fun q ↦ (hm q).trans ?_⟩
      rw [hperm.mem_iff, List.mem_cons, List.mem_cons]
      tauto

/-- Reconciliation with any nonempty request, repeated ids included, ends on the requested
panes. -/
theorem Wf.mem_reconcile (h : Wf l) (hne : ids ≠ []) (direction : SplitDirection) :
    Wf (l.reconcileWithNewPaneDirection ids direction) ∧
      ∀ q, q ∈ (l.reconcileWithNewPaneDirection ids direction).panes ↔ q ∈ ids := by
  obtain ⟨first, rest, rfl⟩ := List.exists_cons_of_ne_nil hne
  simp only [reconcileWithNewPaneDirection]
  -- The layout kept for pruning is well formed and shares a pane with the request.
  have hstart : ∃ kept : PaneLayout ℚ,
      (if l.panes.any (first :: rest).contains then l else single first) = kept ∧ Wf kept ∧
        ∃ q ∈ kept.panes, q ∈ first :: rest := by
    split
    · next hany =>
      obtain ⟨q, hq, hqid⟩ := List.any_eq_true.mp hany
      exact ⟨l, rfl, h, q, hq, by simpa using hqid⟩
    · exact ⟨single first, rfl, wf_single first, first, by simp, by simp⟩
  obtain ⟨kept, hk, hwk, hkeep⟩ := hstart
  rw [hk]
  obtain ⟨hwp, hmp⟩ := foldl_remove kept.panes hwk hkeep
  obtain ⟨hws, hms⟩ := foldl_split (first :: rest) direction hwp
  refine ⟨hws, fun q ↦ (hms q).trans ?_⟩
  constructor
  · rintro (hq | hq)
    · obtain ⟨hq, h1 | h1⟩ := (hmp q).mp hq
      · exact h1
      · exact absurd hq h1
    · exact hq
  · exact .inr

/-- Reconciliation ends on the requested panes from any well-formed layout. -/
theorem Wf.reconcile (h : Wf l) (hne : ids ≠ []) (hn : ids.Nodup) (direction : SplitDirection) :
    Wf (l.reconcileWithNewPaneDirection ids direction) ∧
      (l.reconcileWithNewPaneDirection ids direction).panes.Perm ids := by
  have ⟨hw, hm⟩ := h.mem_reconcile hne direction
  exact ⟨hw, (List.perm_ext_iff_of_nodup hw.nodup hn).mpr hm⟩

private theorem foldl_eq_self {α β : Type} {f : β → α → β} {xs : List α} {b : β}
    (h : ∀ x ∈ xs, f b x = b) : xs.foldl f b = b := by
  induction xs with
  | nil => rfl
  | cons x xs ih =>
    rw [List.foldl_cons, h x (by simp)]
    exact ih (fun y hy ↦ h y (by simp [hy]))

/-- A layout that already shows exactly the requested panes is left alone. -/
theorem reconcile_eq_self {K : Type} [Scalar K] {l : PaneLayout K} (h : ∀ q, q ∈ l.panes ↔ q ∈ ids)
    (direction : SplitDirection) :
    l.reconcileWithNewPaneDirection ids direction = l := by
  cases ids with
  | nil => rfl
  | cons first rest =>
    simp only [reconcileWithNewPaneDirection]
    have hany : l.panes.any (first :: rest).contains = true := by
      rw [List.any_eq_true]
      exact ⟨first, (h first).mpr (by simp), by simp⟩
    rw [if_pos hany, foldl_eq_self (b := l), foldl_eq_self]
    · intro q hq
      rw [if_pos ((contains_iff_mem_panes l q).mpr ((h q).mpr hq))]
    · intro q hq
      rw [if_pos (by simpa using (h q).mp hq)]

end PaneLayout
end Bootty.Mux
