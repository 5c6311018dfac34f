import Bootty.Base.Method
import Bootty.Terminal.DecodedFrames
import Bootty.Terminal.FrameImages
import Bootty.Terminal.FrameStream

/-!
# Hostile updates

`FrameDecoder::insert_image` and `FrameDecoder::apply` of
`crates/bootty-terminal/src/frame_wire.rs:321–471` as methods that change the decoder, under any
updates and images at all: what a rejected call leaves, what an accepted one shows, and how much a
decoder retains.
-/

namespace Bootty.Terminal

open Bootty.Base

section Vt

variable [vt : VtLibrary]

variable {self : FrameDecoder} {update : FrameUpdate}

namespace FrameDecoder

/-- `frame_wire.rs:323–340`. -/
def insertImageCall (content : ImageContent) : Method FrameDecoder WireError Unit := do
  let retained ← .reads fun self ↦ .ok (saturatingAdd (self.images.map (·.2.length)).sum
    (min (self.images.length * imageEntryBytes) usizeMax))
  let old ← .reads fun self ↦ .ok ((self.images.lookup content.key).elim 0 entryCost)
  let available := maxRetainedImageBytes - (retained - old)
  .reads fun _ ↦ ensure (decide (entryCost content.bytes ≤ available)) .imageBudget
  .writes fun self ↦ { self with
    images := (content.key, content.bytes) ::
      self.images.filter fun entry ↦ entry.1 != content.key }

/-- `frame_wire.rs:374–471`; the frame is built beside the decoder, which is written last. -/
def applyCall (update : FrameUpdate) : Method FrameDecoder WireError RenderFrame := do
  let full := update.rows.isFull
  let state := update.state
  .reads fun _ ↦ ensure (state.rowWraps.length == state.rows) .invalidFrame
  let current ← .reads fun self ↦ self.currentRows update
  .reads fun _ ↦ ensure (current.length == state.rows) .invalidRow
  let rowDirty ← .reads fun self ↦ .ok (self.rowDirty full state.toFrameState current)
  let (cells, text) ← .reads fun _ ↦ placeRows state.cols 0 [] current
  let placements ← .reads fun self ↦ state.placements.mapM self.placement
  -- The lineage of the previous frame.
  .reads fun self ↦ ensure (full || self.previous.isSome) .wrongBase
  let frame : RenderFrame := { state.frame with
    dirty := if full then .full else .partialRows
    rowDirty, cells, text
    images :=
      { placements, virtualPlacements := state.virtualPlacements
        virtualPlaceholderRows := state.virtualPlaceholderRows } }
  let keys := state.placements.map (·.key)
  .writes fun self ↦
    { self with images := self.images.filter fun entry ↦ keys.contains entry.1 }
  .writes fun self ↦ { self with previous := some (update.sequence, frame) }
  pure frame

/-- A rejected image leaves the decoder as it was. -/
theorem atomic_insertImageCall (content : ImageContent) : (insertImageCall content).Atomic := by
  apply (Method.reads_reads _).bind_atomic
  intro retained
  apply (Method.reads_reads _).bind_atomic
  intro old
  apply (Method.reads_reads _).bind_atomic
  intro _
  exact (Method.total_writes _).atomic

/-- A rejected update leaves the decoder as it was: every check comes before the first write. -/
theorem atomic_applyCall (update : FrameUpdate) : (applyCall update).Atomic := by
  apply (Method.reads_reads _).bind_atomic
  intro _
  apply (Method.reads_reads _).bind_atomic
  intro current
  apply (Method.reads_reads _).bind_atomic
  intro _
  apply (Method.reads_reads _).bind_atomic
  intro rowDirty
  apply (Method.reads_reads _).bind_atomic
  intro placed
  apply (Method.reads_reads _).bind_atomic
  intro placements
  apply (Method.reads_reads _).bind_atomic
  intro _
  apply Method.Total.atomic
  apply (Method.total_writes _).bind
  intro _
  apply (Method.total_writes _).bind
  intro _
  exact Method.total_pure _

/-- An image is accepted by a call as by `insertImage`. -/
theorem insertImageCall_eq_ok {next : FrameDecoder} {content : ImageContent} {u : Unit} :
    insertImageCall content self = (.ok u, next) ↔ self.insertImage content = .ok next := by
  simp only [insertImageCall, Method.bind_eq_ok, Method.reads_eq_ok, Method.writes_eq_ok,
    ensure_eq_ok, decide_eq_true_eq, insertImage]
  constructor
  · rintro ⟨retained, _, ⟨hretained, rfl⟩, old, _, ⟨hold, rfl⟩, _, _, ⟨hfits, rfl⟩, hnext⟩
    rw [if_neg, hnext]
    rw [Except.ok.inj hretained, Except.ok.inj hold]
    exact Nat.not_lt.mpr hfits
  · intro h
    split at h
    · cases h
    · next hfits =>
      exact ⟨_, self, ⟨rfl, rfl⟩, _, self, ⟨rfl, rfl⟩, (), self,
        ⟨Nat.not_lt.mp hfits, rfl⟩, Except.ok.inj h⟩

/-- The steps of an accepted update. -/
structure Steps (decoder : FrameDecoder) (update : FrameUpdate) (frame : RenderFrame)
    (next : FrameDecoder) (current : List WireRow) : Prop where
  wraps : update.state.rowWraps.length = update.state.rows
  decoded : decoder.currentRows update = .ok current
  length : current.length = update.state.rows
  placed : placeRows update.state.cols 0 [] current = .ok (frame.cells, frame.text)
  placements : update.state.placements.mapM decoder.placement = .ok frame.images.placements
  state : frame.toFrameState = update.state.toFrameState
  dirty : frame.rowDirty =
    decoder.rowDirty update.rows.isFull update.state.toFrameState current
  images : next.images = decoder.images.filter fun entry ↦
    (update.state.placements.map (·.key)).contains entry.1
  shown : next.previous = some (update.sequence, frame)

/-- What a successful update did. -/
theorem applyCall_eq_ok {next : FrameDecoder} {frame : RenderFrame}
    (h : applyCall update self = (.ok frame, next)) :
    ∃ current, Steps self update frame next current := by
  simp only [applyCall, Method.bind_eq_ok, Method.reads_eq_ok, Method.writes_eq_ok,
    Method.pure_eq_ok, ensure_eq_ok, beq_iff_eq] at h
  obtain ⟨_, _, ⟨hwraps, rfl⟩, current, _, ⟨hcurrent, rfl⟩, _, _, ⟨hlength, rfl⟩, rowDirty, _,
    ⟨hdirty, rfl⟩, placed, _, ⟨hplaced, rfl⟩, placements, _, ⟨hplacements, rfl⟩, _, _, ⟨_, rfl⟩,
    _, _, rfl, _, _, rfl, rfl, rfl⟩ := h
  exact ⟨current, hwraps, hcurrent, hlength, hplaced, hplacements, rfl,
    (Except.ok.inj hdirty).symm, rfl, rfl⟩

/-- An update is accepted by `apply` as by a call. -/
theorem exists_applyCall_of_apply {next : FrameDecoder} (h : self.apply update = .ok next) :
    ∃ frame, applyCall update self = (.ok frame, next) := by
  simp only [apply, bind_eq_ok, pure_eq_ok, ensure_eq_ok] at h
  obtain ⟨_, hwraps, current, hcurrent, _, hlength, placed, hplaced, placements, hplacements,
    rfl⟩ := h
  have hbase : (update.rows.isFull || self.previous.isSome) = true := by
    unfold currentRows at hcurrent
    cases hrows : update.rows with
    | full rows => rfl
    | rows base changes =>
      rw [hrows] at hcurrent
      cases hprevious : self.previous with
      | none =>
        rw [hprevious] at hcurrent
        cases hcurrent
      | some previous => rfl
  simp only [applyCall, Method.bind_eq_ok, Method.reads_eq_ok, Method.writes_eq_ok,
    Method.pure_eq_ok, ensure_eq_ok]
  exact ⟨_, (), self, ⟨hwraps, rfl⟩, current, self, ⟨hcurrent, rfl⟩, (), self, ⟨hlength, rfl⟩, _,
    self, ⟨rfl, rfl⟩, placed, self, ⟨hplaced, rfl⟩, placements, self, ⟨hplacements, rfl⟩, (), self,
    ⟨hbase, rfl⟩, (), _, rfl, (), _, rfl, rfl, rfl⟩

end FrameDecoder

/-! ### What an accepted update shows -/

/-- The rows of an update, put over the rows of the previous frame. -/
def mergedRows (previous : Option RenderFrame) : FrameRows → List WireRow
  | .full rows => rows
  | .rows _ changes =>
    changes.foldl (fun merged change ↦ merged.set change.1 change.2) (previous.elim [] rows)

/-- A frame that is shown after an update. -/
structure Accepts (decoder : FrameDecoder) (update : FrameUpdate) (frame : RenderFrame)
    (next : FrameDecoder) : Prop where
  shown : next.frame = some frame
  rowWraps : frame.rowWraps.length = frame.rows
  rowDirty : frame.rowDirty.length = frame.rows
  rowMajor : frame.cells.Pairwise fun a b ↦ a.y ≤ b.y
  inside : ∀ cell ∈ frame.cells, cell.x < frame.cols ∧ cell.y < frame.rows
  contiguous : Contiguous 0 frame.cells frame.text.length
  /-- The length of a vector is a `usize`. -/
  merged : frame.text.length ≤ usizeMax → rows frame = mergedRows decoder.frame update.rows
  placements : List.Forall₂ (fun p placed ↦ placed.imageId = p.key.imageId ∧
    decoder.images.lookup p.key = some placed.data ∧ next.images.lookup p.key = some placed.data)
    update.state.placements frame.images.placements

private theorem applyChanges_eq_foldl {current merged : List WireRow} {seen : List Nat}
    {changes : List (Nat × WireRow)} (h : applyChanges current seen changes = .ok merged) :
    merged = changes.foldl (fun merged change ↦ merged.set change.1 change.2) current := by
  induction changes generalizing current seen with
  | nil => exact (Except.ok.inj h).symm
  | cons change changes ih =>
    unfold applyChanges at h
    split at h
    · cases h
    · exact ih h

private theorem currentRows_eq_merged {current : List WireRow}
    (h : self.currentRows update = .ok current) :
    current = mergedRows self.frame update.rows := by
  unfold FrameDecoder.currentRows at h
  cases hrows : update.rows with
  | full rows =>
    simp only [hrows] at h
    exact (Except.ok.inj h).symm
  | rows base changes =>
    simp only [hrows] at h
    cases hprevious : self.previous with
    | none =>
      rw [hprevious] at h
      cases h
    | some entry =>
      simp only [hprevious] at h
      split at h
      · cases h
      · rw [FrameDecoder.frame, hprevious]
        exact applyChanges_eq_foldl h

omit vt in
private theorem lookup_filter_key {table : ImageTable} {keys : List ImageKey} {key : ImageKey}
    (h : key ∈ keys) :
    (table.filter fun entry ↦ keys.contains entry.1).lookup key = table.lookup key := by
  induction table with
  | nil => rfl
  | cons entry table ih =>
    rw [List.filter_cons, List.lookup_cons]
    by_cases heq : key = entry.1
    · have hkept : keys.contains entry.1 = true := List.contains_iff_mem.mpr (heq ▸ h)
      rw [if_pos hkept, List.lookup_cons, beq_iff_eq.mpr heq]
    · rw [beq_eq_false_iff_ne.mpr heq]
      split
      · rw [List.lookup_cons, beq_eq_false_iff_ne.mpr heq]
        exact ih
      · exact ih

/-- The image of a placement is the one that is retained under its key. -/
theorem placement_eq_ok {p : WirePlacement} {placed : KittyImagePlacement}
    (h : self.placement p = .ok placed) :
    placed.imageId = p.key.imageId ∧ self.images.lookup p.key = some placed.data := by
  simp only [FrameDecoder.placement, bind_eq_ok, pure_eq_ok, context_eq_ok] at h
  obtain ⟨data, hdata, _, _, _, _, _, _, rfl⟩ := h
  exact ⟨rfl, hdata⟩

private theorem accepts_of_applyCall {next : FrameDecoder} {frame : RenderFrame}
    (h : FrameDecoder.applyCall update self = (.ok frame, next)) :
    Accepts self update frame next := by
  obtain ⟨current, hsteps⟩ := FrameDecoder.applyCall_eq_ok h
  obtain ⟨hcells, htext, hvalid⟩ := placeRows_eq_ok hsteps.placed
  have hcols : frame.cols = update.state.cols := by rw [hsteps.state]
  have hrows : frame.rows = update.state.rows := by rw [hsteps.state]
  refine ⟨?_, ?_, ?_, ?_, ?_, ?_, ?_, ?_⟩
  · rw [FrameDecoder.frame, hsteps.shown]
    rfl
  · rw [hrows, hsteps.state]
    exact hsteps.wraps
  · rw [hrows, hsteps.dirty, FrameDecoder.rowDirty, List.length_mapIdx, hsteps.length]
  · rw [hcells]
    exact absoluteRows_rowMajor _ _ _
  · intro cell hcell
    rw [hcells] at hcell
    obtain ⟨_, hlow, row, hrow, origin, horigin, hx⟩ := mem_absoluteRows hcell
    rw [hcols, hrows, hx, ← hsteps.length]
    exact ⟨((hvalid row hrow).inside origin horigin).2, by omega⟩
  · rw [hcells, htext, List.nil_append]
    have hcontiguous := @absoluteRows_contiguous _ _ 0 0 _ hvalid
    rwa [Nat.zero_add] at hcontiguous
  · intro hfits
    rw [← currentRows_eq_merged hsteps.decoded]
    exact rows_of_placeRows (hcols ▸ hsteps.placed) (hsteps.length.trans hrows.symm) hfits
  · have hforall := forall₂_of_mapM_eq_ok hsteps.placements
    rw [hsteps.images]
    have hkeys : ∀ p ∈ update.state.placements, p.key ∈ update.state.placements.map (·.key) :=
      fun p hp ↦ List.mem_map_of_mem hp
    refine ((List.forall₂_and_left _ _).mpr ⟨hkeys, hforall⟩).imp ?_
    rintro p placed ⟨hkey, hplaced⟩
    obtain ⟨hid, hdata⟩ := placement_eq_ok hplaced
    rw [lookup_filter_key hkey]
    exact ⟨hid, hdata, hdata⟩

/-! ### What is retained -/

/-- The images of a decoder are under keys of their own and within the budget. -/
structure Budgeted (decoder : FrameDecoder) : Prop where
  nodup : (decoder.images.map Prod.fst).Nodup
  cost : tableCost decoder.images ≤ maxRetainedImageBytes

omit vt in
private theorem tableCost_filter_le (table : ImageTable) (p : ImageKey × List UInt8 → Bool) :
    tableCost (table.filter p) ≤ tableCost table :=
  (List.filter_sublist.map _).sum_le_sum fun _ _ ↦ Nat.zero_le _

omit vt in
private theorem tableCost_without {table : ImageTable} (h : (table.map Prod.fst).Nodup)
    (key : ImageKey) :
    tableCost (table.filter fun entry ↦ entry.1 != key) +
      (table.lookup key).elim 0 imageCost = tableCost table := by
  induction table with
  | nil => rfl
  | cons entry table ih =>
    have ⟨hnew, hrest⟩ := List.nodup_cons.mp h
    have hcons : tableCost (entry :: table) = imageCost entry.2 + tableCost table := by
      simp [tableCost]
    rw [List.filter_cons, List.lookup_cons, hcons]
    by_cases heq : key = entry.1
    · have hkeep : table.filter (fun other ↦ other.1 != key) = table := by
        apply List.filter_eq_self.mpr
        intro other hother
        rw [bne_iff_ne]
        intro hsame
        exact hnew (List.mem_map.mpr ⟨other, hother, hsame.trans heq⟩)
      rw [if_neg (by simp [heq]), hkeep, beq_iff_eq.mpr heq]
      exact Nat.add_comm _ _
    · have hother : tableCost (entry :: table.filter fun other ↦ other.1 != key) =
          imageCost entry.2 + tableCost (table.filter fun other ↦ other.1 != key) := by
        simp [tableCost]
      rw [if_pos (by simpa using Ne.symm heq), beq_eq_false_iff_ne.mpr heq, hother, ← ih hrest,
        Nat.add_assoc]

/-- An image is accepted if the other images leave room for it. -/
theorem Budgeted.insertImage {next : FrameDecoder} (h : Budgeted self) {content : ImageContent}
    (hinsert : self.insertImage content = .ok next) : Budgeted next := by
  have hcost := h.cost
  have hmax : maxRetainedImageBytes = 128 * 1024 * 1024 := rfl
  have hwithout := tableCost_without h.nodup content.key
  have hretained : saturatingAdd (self.images.map (·.2.length)).sum
      (min (self.images.length * imageEntryBytes) usizeMax) = tableCost self.images := by
    rw [tableCost_eq] at hcost ⊢
    unfold saturatingAdd usizeMax
    omega
  have hold : (self.images.lookup content.key).elim 0 entryCost =
      (self.images.lookup content.key).elim 0 imageCost := by
    cases hlookup : self.images.lookup content.key with
    | none => rfl
    | some bytes =>
      rw [hlookup] at hwithout
      simp only [Option.elim_some, imageCost, entryCost, saturatingAdd, usizeMax] at hwithout ⊢
      omega
  simp only [FrameDecoder.insertImage, hretained, hold] at hinsert
  split at hinsert
  · cases hinsert
  · next hfits =>
    obtain rfl := Except.ok.inj hinsert
    constructor
    · refine List.nodup_cons.mpr ⟨?_, h.nodup.sublist (List.filter_sublist.map _)⟩
      intro hmem
      obtain ⟨entry, hentry, hkey⟩ := List.mem_map.mp hmem
      have hother := (List.mem_filter.mp hentry).2
      rw [bne_iff_ne] at hother
      exact hother hkey
    · have hcons : tableCost ((content.key, content.bytes) ::
          self.images.filter fun entry ↦ entry.1 != content.key) = imageCost content.bytes +
            tableCost (self.images.filter fun entry ↦ entry.1 != content.key) := by
        simp [tableCost]
      rw [hcons]
      simp only [entryCost, saturatingAdd, usizeMax] at hfits
      unfold imageCost
      omega

/-! ### Any sequence of calls -/

/-- What a peer makes a decoder do. -/
inductive DecoderCall where
  | apply (update : FrameUpdate)
  | insertImage (content : ImageContent)

/-- The decoder after a call, whether it succeeded or not. -/
def DecoderCall.run (decoder : FrameDecoder) : DecoderCall → FrameDecoder
  | .apply update => (FrameDecoder.applyCall update decoder).2
  | .insertImage content => (FrameDecoder.insertImageCall content decoder).2

/-- A fresh decoder after some calls. -/
def decoderAfter (calls : List DecoderCall) : FrameDecoder := calls.foldl DecoderCall.run {}

private theorem Budgeted.run {decoder : FrameDecoder} (h : Budgeted decoder) (call : DecoderCall) :
    Budgeted (call.run decoder) := by
  cases call with
  | apply update =>
    show Budgeted (FrameDecoder.applyCall update decoder).2
    generalize hcall : FrameDecoder.applyCall update decoder = after
    have ⟨outcome, next⟩ := after
    cases outcome with
    | error error =>
      rw [FrameDecoder.atomic_applyCall update decoder error next hcall]
      exact h
    | ok frame =>
      have ⟨current, hsteps⟩ := FrameDecoder.applyCall_eq_ok hcall
      constructor
      · rw [hsteps.images]
        exact h.nodup.sublist (List.filter_sublist.map _)
      · rw [hsteps.images]
        exact Nat.le_trans (tableCost_filter_le _ _) h.cost
  | insertImage content =>
    show Budgeted (FrameDecoder.insertImageCall content decoder).2
    generalize hcall : FrameDecoder.insertImageCall content decoder = after
    have ⟨outcome, next⟩ := after
    cases outcome with
    | error error =>
      rw [FrameDecoder.atomic_insertImageCall content decoder error next hcall]
      exact h
    | ok _ => exact h.insertImage (FrameDecoder.insertImageCall_eq_ok.mp hcall)

private theorem budgeted_decoderAfter (calls : List DecoderCall) : Budgeted
    (decoderAfter calls) := by
  have hfold : ∀ decoder, Budgeted decoder → Budgeted (calls.foldl DecoderCall.run decoder) := by
    induction calls with
    | nil => exact fun decoder h ↦ h
    | cons call calls ih => exact fun decoder h ↦ ih _ (h.run call)
  exact hfold {} ⟨List.nodup_nil, Nat.zero_le _⟩

/-- After any calls at all: a rejected call leaves the decoder as it is, an accepted update shows
a well-formed frame of the rows it describes and of retained images, and the images retained are
within the budget. -/
theorem decoderAfter_withstands (calls : List DecoderCall) :
    (∀ update error next, FrameDecoder.applyCall update (decoderAfter calls) = (.error error, next) →
      next = decoderAfter calls) ∧
    (∀ content error next,
      FrameDecoder.insertImageCall content (decoderAfter calls) = (.error error, next) →
        next = decoderAfter calls) ∧
    (∀ update frame next, FrameDecoder.applyCall update (decoderAfter calls) = (.ok frame, next) →
      Accepts (decoderAfter calls) update frame next) ∧
    tableCost (decoderAfter calls).images ≤ maxRetainedImageBytes := by
  refine ⟨?_, ?_, ?_, (budgeted_decoderAfter calls).cost⟩
  · intro update error next
    exact FrameDecoder.atomic_applyCall update (decoderAfter calls) error next
  · intro content error next
    exact FrameDecoder.atomic_insertImageCall content (decoderAfter calls) error next
  · intro update frame next
    exact accepts_of_applyCall

end Vt

/-- An update of one row with an image that was sent, and one with a cell right of the row. -/
private def sampleUpdate (x : Nat) : FrameUpdate :=
  { sequence := 1
    state :=
      { cols := 1, rows := 1, rowWraps := [false], stats := {}
        placements := [⟨⟨1, 0⟩, 1, 2, 1, 1, 0, [0, 0, 1, 1],
          ⟨⟨0⟩, ⟨0⟩, ⟨0⟩, ⟨0⟩⟩⟩]
        virtualPlacements := [], virtualPlaceholderRows := [] }
    rows := .full [{ text := ['a'], cells :=
      [{ x, y := 0, textStart := 0, textLen := 1, fg := none, bg := none, hyperlink := none
         style := ⟨false, false, false, false, false, false, false, false, underlineOf 0⟩ }] }] }

/-- The image is retained, the first update is shown and the second one changes nothing. -/
theorem decoderAfter_withstands_sample :
    let decoder := decoderAfter [.insertImage ⟨⟨1, 0⟩, [255, 255, 255]⟩]
    (∃ frame next, FrameDecoder.applyCall (sampleUpdate 0) decoder = (.ok frame, next) ∧
      Accepts decoder (sampleUpdate 0) frame next) ∧
    (FrameDecoder.applyCall (sampleUpdate 1) decoder).2 = decoder := by
  intro decoder
  have ⟨hrejected, _, haccepted, _⟩ :=
    decoderAfter_withstands [.insertImage ⟨⟨1, 0⟩, [255, 255, 255]⟩]
  constructor
  · exact ⟨_, _, rfl, haccepted (sampleUpdate 0) _ _ rfl⟩
  · exact hrejected (sampleUpdate 1) .invalidFrame _ rfl

end Bootty.Terminal
