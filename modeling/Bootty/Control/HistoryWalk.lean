import Bootty.Control.TerminalHistory
import Mathlib.Data.List.TakeWhile

/-!
# Histories are walked

The walk of `crates/bootty-control/src/terminal_history.rs:136–220` succeeds on the texts of the
grammar within its limit and on no others, and what it pushes is told by the pieces of the text. So
the accepted histories are those of the grammar.
-/

namespace Bootty.Control

open Bootty.Base

/-! ### What the walk reads -/

/-- The walk over a text without its limit: the parts that it pushes. -/
inductive Walks (stripOsc keepStyles : Bool) : List Char → List (List Char) → Prop
  | done : Walks stripOsc keepStyles [] []
  | last {plain : List Char} : plain ≠ [] → (∀ c ∈ plain, isPresentable c) →
      Walks stripOsc keepStyles plain [plain]
  | control {plain controls after : List Char} {part : Option (List Char)}
      {parts : List (List Char)} : (∀ c ∈ plain, isPresentable c) →
      readControl stripOsc keepStyles controls = .ok (part, after) →
      Walks stripOsc keepStyles after parts →
      Walks stripOsc keepStyles (plain ++ controls) (plain :: (part.toList ++ parts))

variable {outputBytes : Nat}

private theorem push_eq_ok {next : Nat} {part : List Char} :
    push outputBytes part = .ok next ↔
      outputBytes + byteLength part ≤ maxHistoryBytes ∧ next = outputBytes + byteLength part := by
  have hlimit : maxHistoryBytes < maxUsize := by decide
  rw [push, checkSize]
  by_cases hsize : outputBytes + byteLength part ≤ maxHistoryBytes
  · rw [Nat.min_eq_left (by omega), if_neg (by omega), ok_bind, Except.ok.injEq]
    exact ⟨fun hnext ↦ ⟨hsize, hnext.symm⟩, fun h ↦ h.2.symm⟩
  · rw [if_pos (by omega)]
    constructor
    · intro h
      cases h
    · intro h
      exact absurd h.1 hsize

theorem escape_not_presentable {c : Char} (h : isPresentable c) : (c != '\x1b') = true := by
  rw [bne_iff_ne]
  rintro rfl
  exact absurd h (by decide)

private theorem takeWhile_presentable {plain : List Char} (h : ∀ c ∈ plain, isPresentable c) :
    plain.takeWhile (· != '\x1b') = plain :=
  List.takeWhile_eq_self_iff.mpr fun c hc ↦ escape_not_presentable (h c hc)

/-- A control begins with an escape. -/
theorem written_eq_cons (sequence : HistoryControl) :
    ∃ tail, sequence.written = '\x1b' :: tail := by
  cases sequence <;> exact ⟨_, rfl⟩

variable {stripOsc keepStyles : Bool}

/-- Characters that are shown end where a control begins. -/
theorem span_controls {plain controls after : List Char} {part : Option (List Char)}
    (hplain : ∀ c ∈ plain, isPresentable c)
    (hcontrol : readControl stripOsc keepStyles controls = .ok (part, after)) :
    (plain ++ controls).takeWhile (· != '\x1b') = plain ∧
      (plain ++ controls).dropWhile (· != '\x1b') = controls ∧
      controls ≠ [] ∧ after.length < controls.length := by
  have hpass : ∀ c ∈ plain, (c != '\x1b') = true := fun c hc ↦
    escape_not_presentable (hplain c hc)
  have ⟨sequence, _, hcontrols, _⟩ := exists_of_readControl hcontrol
  have ⟨tail, hwritten⟩ := written_eq_cons sequence
  rw [hwritten, List.cons_append] at hcontrols
  rw [List.takeWhile_append_of_pos hpass, List.dropWhile_append_of_pos hpass, hcontrols]
  refine ⟨by simp, by simp, by simp, ?_⟩
  simp only [List.length_cons, List.length_append]
  omega

variable {rest : List Char} {parts : List (List Char)}

/-- The walk succeeds where the text is walked within the limit. -/
theorem walkFrom_of_walks (h : Walks stripOsc keepStyles rest parts) {fuel : Nat}
    (hfuel : rest.length ≤ fuel) (hsize : outputBytes + byteLength parts.flatten ≤ maxHistoryBytes)
    :
    walkFrom stripOsc keepStyles fuel outputBytes rest = .ok parts := by
  induction h generalizing fuel outputBytes with
  | done => cases fuel <;> rfl
  | @last plain hne hplain =>
    have htake := takeWhile_presentable hplain
    have hdrop : plain.dropWhile (· != '\x1b') = [] :=
      List.dropWhile_eq_nil_iff.mpr fun c hc ↦ escape_not_presentable (hplain c hc)
    have hpush : push outputBytes plain = .ok (outputBytes + byteLength plain) :=
      push_eq_ok.mpr ⟨by simpa using hsize, rfl⟩
    have hall : plain.all isPresentable = true := List.all_eq_true.mpr hplain
    obtain ⟨fuel, rfl⟩ := Nat.exists_eq_add_one_of_ne_zero
      (Nat.ne_zero_of_lt (Nat.lt_of_lt_of_le (List.length_pos_iff.mpr hne) hfuel))
    rw [walkFrom, if_neg (by simpa using hne), htake, hdrop]
    simp only [hall, ensure, if_true, ok_bind, hpush, List.isEmpty_nil]
  | @control plain controls after part parts hplain hcontrol _ ih =>
    obtain ⟨htake, hdrop, hne, hlength⟩ := span_controls hplain hcontrol
    simp only [List.flatten_cons, List.flatten_append, byteLength_append] at hsize
    have hpush : push outputBytes plain = .ok (outputBytes + byteLength plain) :=
      push_eq_ok.mpr ⟨by omega, rfl⟩
    have hall : plain.all isPresentable = true := List.all_eq_true.mpr hplain
    rw [List.length_append] at hfuel
    obtain ⟨fuel, rfl⟩ := Nat.exists_eq_add_one_of_ne_zero (show fuel ≠ 0 by omega)
    rw [walkFrom, if_neg (by simp [hne]), htake, hdrop]
    simp only [hall, ensure, if_true, ok_bind, hpush, List.isEmpty_iff, hne, if_false, hcontrol]
    cases part with
    | none =>
      simp only [Option.toList_none, List.flatten_nil, byteLength_nil] at hsize
      have htail : walkFrom stripOsc keepStyles fuel (outputBytes + byteLength plain) after =
          .ok parts := ih (by omega) (by omega)
      simp only [htail, ok_bind]
      rfl
    | some part =>
      simp only [Option.toList_some, List.flatten_singleton] at hsize
      have hpart : push (outputBytes + byteLength plain) part =
          .ok (outputBytes + byteLength plain + byteLength part) := push_eq_ok.mpr ⟨by omega, rfl⟩
      have htail : walkFrom stripOsc keepStyles fuel
          (outputBytes + byteLength plain + byteLength part) after = .ok parts :=
        ih (by omega) (by omega)
      simp only [hpart, htail, ok_bind]
      rfl

/-- Where the walk succeeds, the text is walked within the limit. -/
theorem walks_of_walkFrom {fuel : Nat} (hfuel : rest.length ≤ fuel)
    (hbytes : outputBytes ≤ maxHistoryBytes)
    (h : walkFrom stripOsc keepStyles fuel outputBytes rest = .ok parts) :
    Walks stripOsc keepStyles rest parts ∧
      outputBytes + byteLength parts.flatten ≤ maxHistoryBytes := by
  induction fuel generalizing outputBytes rest parts with
  | zero =>
    rw [List.eq_nil_of_length_eq_zero (Nat.le_zero.mp hfuel)]
    cases h
    exact ⟨.done, hbytes⟩
  | succ fuel ih =>
    rw [walkFrom] at h
    by_cases hrest : rest = []
    · subst hrest
      cases h
      exact ⟨.done, hbytes⟩
    rw [if_neg (by simpa using hrest)] at h
    have hsplit : rest.takeWhile (· != '\x1b') ++ rest.dropWhile (· != '\x1b') = rest :=
      List.takeWhile_append_dropWhile
    generalize rest.takeWhile (· != '\x1b') = plain at h hsplit
    generalize rest.dropWhile (· != '\x1b') = controls at h hsplit
    simp only [bind_eq_ok, ensure_eq_ok, push_eq_ok] at h
    obtain ⟨_, hall, _, ⟨hplainSize, rfl⟩, h⟩ := h
    have hplain : ∀ c ∈ plain, isPresentable c := List.all_eq_true.mp hall
    subst hsplit
    by_cases hcontrols : controls = []
    · rw [if_pos (by simpa using hcontrols)] at h
      cases h
      subst hcontrols
      rw [List.append_nil] at hrest ⊢
      exact ⟨.last hrest hplain, by simpa using hplainSize⟩
    · rw [if_neg (by simpa using hcontrols), bind_eq_ok] at h
      obtain ⟨⟨part, after⟩, hcontrol, h⟩ := h
      obtain ⟨_, _, _, hlength⟩ := span_controls hplain hcontrol
      rw [List.length_append] at hfuel
      cases part with
      | none =>
        simp only [bind_eq_ok] at h
        obtain ⟨parts', htail, heq⟩ := h
        cases heq
        obtain ⟨hwalks, hsize⟩ := ih (by omega) hplainSize htail
        refine ⟨.control hplain hcontrol hwalks, ?_⟩
        simp only [List.flatten_cons, byteLength_append]
        omega
      | some part =>
        simp only [bind_eq_ok, push_eq_ok] at h
        obtain ⟨_, ⟨hpartSize, rfl⟩, parts', htail, heq⟩ := h
        cases heq
        obtain ⟨hwalks, hsize⟩ := ih (by omega) hpartSize htail
        refine ⟨.control hplain hcontrol hwalks, ?_⟩
        simp only [List.flatten_cons, byteLength_append]
        omega

/-- There is one walk. -/
theorem Walks.unique {parts' : List (List Char)} (h : Walks stripOsc keepStyles rest parts)
    (h' : Walks stripOsc keepStyles rest parts') : parts = parts' := by
  -- what is walked is kept apart, so that it can be cut in two ways
  obtain ⟨rest', hrest⟩ : ∃ rest', rest = rest' := ⟨rest, rfl⟩
  rw [hrest] at h'
  induction h generalizing rest' parts' with
  | done =>
    cases h' with
    | done => rfl
    | last hne => exact absurd hrest.symm hne
    | control hplain hcontrol =>
      have ⟨_, _, hne, _⟩ := span_controls hplain hcontrol
      exact absurd (List.append_eq_nil_iff.mp hrest.symm).2 hne
  | last hne hpresentable =>
    have hall := takeWhile_presentable hpresentable
    cases h' with
    | done => exact absurd hrest hne
    | last => rw [hrest]
    | @control plain' controls' _ _ _ hplain hcontrol =>
      have ⟨htake, _, hne, _⟩ := span_controls hplain hcontrol
      rw [← hrest, hall] at htake
      rw [htake, List.self_eq_append_right] at hrest
      exact absurd hrest hne
  | control hplain hcontrol _ ih =>
    have ⟨htake, hdrop, hne, _⟩ := span_controls hplain hcontrol
    cases h' with
    | done => exact absurd (List.append_eq_nil_iff.mp hrest).2 hne
    | last hother hpresentable =>
      have hall := takeWhile_presentable hpresentable
      rw [hrest, hall] at htake
      rw [htake, List.append_right_eq_self] at hrest
      exact absurd hrest hne
    | control hplain' hcontrol' hwalks' =>
      have ⟨htake', hdrop', _, _⟩ := span_controls hplain' hcontrol'
      rw [hrest] at htake hdrop
      have hplains := htake.symm.trans htake'
      have hcontrols := hdrop.symm.trans hdrop'
      subst hplains hcontrols
      rw [hcontrol] at hcontrol'
      cases hcontrol'
      rw [ih _ hwalks' rfl]

/-- When a history is kept, and what is. -/
theorem walkHistory_eq_ok {text : List Char} :
    walkHistory text stripOsc keepStyles = .ok parts ↔ byteLength text ≤ maxHistoryBytes ∧
      Walks stripOsc keepStyles text parts ∧ byteLength parts.flatten ≤ maxHistoryBytes := by
  rw [walkHistory, checkSize]
  by_cases hsize : byteLength text ≤ maxHistoryBytes
  · rw [if_neg (by omega), ok_bind]
    constructor
    · intro h
      have ⟨hwalks, hparts⟩ := walks_of_walkFrom (Nat.le_refl _) (Nat.zero_le _) h
      exact ⟨hsize, hwalks, by omega⟩
    · intro ⟨_, hwalks, hparts⟩
      exact walkFrom_of_walks hwalks (Nat.le_refl _) (by omega)
  · rw [if_pos (by omega)]
    constructor
    · intro h
      cases h
    · intro h
      exact absurd h.1 hsize

/-! ### Pieces -/

theorem flatMap_written_text (plain : List Char) :
    (plain.map HistoryPiece.text).flatMap HistoryPiece.written = plain := by
  rw [List.flatMap_map]
  exact List.flatMap_singleton' plain

/-- What is walked is a sequence of valid pieces. -/
theorem Walks.pieces (h : Walks stripOsc keepStyles rest parts) : ∃ pieces : List HistoryPiece,
      (∀ piece ∈ pieces, piece.Valid stripOsc) ∧ rest = pieces.flatMap HistoryPiece.written := by
  induction h with
  | done => exact ⟨[], by simp, rfl⟩
  | @last plain _ hplain =>
    refine ⟨plain.map .text, fun piece hpiece ↦ ?_, (flatMap_written_text plain).symm⟩
    have ⟨c, hc, hpiece⟩ := List.mem_map.mp hpiece
    exact hpiece ▸ hplain c hc
  | @control plain controls after part parts hplain hcontrol _ ih =>
    have ⟨sequence, hvalid, hcontrols, _⟩ := exists_of_readControl hcontrol
    have ⟨pieces, hpieces, hafter⟩ := ih
    refine ⟨plain.map .text ++ .control sequence :: pieces, fun piece hpiece ↦ ?_, ?_⟩
    · rcases List.mem_append.mp hpiece with hpiece | hpiece
      · have ⟨c, hc, hpiece⟩ := List.mem_map.mp hpiece
        exact hpiece ▸ hplain c hc
      · rcases List.mem_cons.mp hpiece with rfl | hpiece
        · exact hvalid
        · exact hpieces piece hpiece
    · rw [List.flatMap_append, flatMap_written_text, List.flatMap_cons, ← hafter, hcontrols]
      rfl

/-- A function on parts that leaves the shown characters as they are. -/
def KeepsText (f : List Char → List Char) : Prop :=
  ∀ plain : List Char, (∀ c ∈ plain, isPresentable c) → f plain = plain

/-- A character before what is walked is walked with the first run of characters. -/
theorem Walks.cons_text (h : Walks stripOsc keepStyles rest parts) {c : Char} (hc : isPresentable c)
    :
    ∃ parts', Walks stripOsc keepStyles (c :: rest) parts' ∧
      ∀ f, KeepsText f → parts'.flatMap f = c :: parts.flatMap f := by
  have hcons {plain : List Char} (hplain : ∀ d ∈ plain, isPresentable d) :
      ∀ d ∈ c :: plain, isPresentable d := List.forall_mem_cons.mpr ⟨hc, hplain⟩
  cases h with
  | done =>
    have hsingle : ∀ d ∈ [c], isPresentable d := hcons (by simp)
    refine ⟨[[c]], .last (by simp) hsingle, fun f hf ↦ ?_⟩
    rw [List.flatMap_singleton, hf [c] hsingle, List.flatMap_nil]
  | last _ hplain =>
    refine ⟨_, .last (by simp) (hcons hplain), fun f hf ↦ ?_⟩
    rw [List.flatMap_singleton, List.flatMap_singleton, hf _ (hcons hplain), hf _ hplain]
  | control hplain hcontrol hafter =>
    refine ⟨_, .control (hcons hplain) hcontrol hafter, fun f hf ↦ ?_⟩
    rw [List.flatMap_cons, List.flatMap_cons, hf _ (hcons hplain), hf _ hplain]
    rfl

variable {pieces : List HistoryPiece}

/-- Valid pieces are walked, and pushed as they are. -/
theorem walks_of_pieces (keepStyles : Bool) (h : ∀ piece ∈ pieces, piece.Valid stripOsc) : ∃ parts,
      Walks stripOsc keepStyles (pieces.flatMap HistoryPiece.written) parts ∧
        ∀ f, KeepsText f →
          parts.flatMap f = pieces.flatMap (HistoryPiece.output f keepStyles) := by
  induction pieces with
  | nil => exact ⟨[], .done, fun _ _ ↦ rfl⟩
  | cons piece pieces ih =>
    have ⟨hpiece, hpieces⟩ := List.forall_mem_cons.mp h
    have ⟨parts, hwalks, hparts⟩ := ih hpieces
    rw [List.flatMap_cons]
    cases piece with
    | text c =>
      have ⟨parts', hwalks', hparts'⟩ := hwalks.cons_text hpiece
      refine ⟨parts', hwalks', fun f hf ↦ ?_⟩
      rw [hparts' f hf, hparts f hf]
      rfl
    | control sequence =>
      have hnone : ∀ c ∈ ([] : List Char), isPresentable c := by simp
      have hcontrol := @readControl_written stripOsc sequence hpiece keepStyles
        (pieces.flatMap HistoryPiece.written)
      refine ⟨_, @Walks.control _ _ [] _ _ _ _ hnone hcontrol hwalks, fun f hf ↦ ?_⟩
      rw [List.flatMap_cons, List.flatMap_append, hparts f hf, hf [] hnone, List.nil_append,
        List.flatMap_cons, HistoryPiece.output]
      cases sequence.pushed keepStyles <;> simp

/-- What the walk pushes is told by the pieces. -/
theorem Walks.flatMap_eq (hpieces : ∀ piece ∈ pieces, piece.Valid stripOsc)
    (h : Walks stripOsc keepStyles (pieces.flatMap HistoryPiece.written) parts)
    {f : List Char → List Char} (hf : KeepsText f) :
    parts.flatMap f = pieces.flatMap (HistoryPiece.output f keepStyles) := by
  have ⟨parts', hwalks, hparts⟩ := walks_of_pieces keepStyles hpieces
  rw [h.unique hwalks]
  exact hparts f hf

/-- What a walk leaves of pieces. -/
theorem Walks.flatten_eq (hpieces : ∀ piece ∈ pieces, piece.Valid stripOsc)
    (h : Walks stripOsc keepStyles (pieces.flatMap HistoryPiece.written) parts) :
    parts.flatten = pieces.flatMap (HistoryPiece.output id keepStyles) := by
  have hkeeps : KeepsText id := fun _ _ ↦ rfl
  rw [← h.flatMap_eq hpieces hkeeps, List.flatMap_id]

theorem HistoryPiece.Valid.of_false {piece : HistoryPiece} (h : piece.Valid false) :
    piece.Valid true := by
  cases piece with
  | text c => exact h
  | control sequence =>
    cases sequence with
    | gap digits => exact h
    | style parts => exact h
    | osc body terminator => cases h.1

/-- With its styles, a piece of a history is pushed as it is written. -/
theorem output_of_valid {piece : HistoryPiece} (h : piece.Valid false) :
    piece.output id true = piece.written := by
  cases piece with
  | text c => rfl
  | control sequence =>
    cases sequence with
    | gap digits => rfl
    | style parts => rfl
    | osc body terminator => cases h.1

theorem flatMap_output_of_valid (h : ∀ piece ∈ pieces, piece.Valid false) :
    pieces.flatMap (HistoryPiece.output id true) = pieces.flatMap HistoryPiece.written :=
  List.flatMap_congr fun piece hpiece ↦ output_of_valid (h piece hpiece)

/-- A history is accepted exactly if it is within the limit and one of the grammar. -/
theorem validateHistory_eq_ok {text : List Char} :
    validateHistory text = .ok () ↔ byteLength text ≤ maxHistoryBytes ∧ IsHistory text := by
  rw [validateHistory, bind_eq_ok]
  constructor
  · intro ⟨parts, hwalk, _⟩
    have ⟨hsize, hwalks, _⟩ := walkHistory_eq_ok.mp hwalk
    exact ⟨hsize, hwalks.pieces⟩
  · intro ⟨hsize, pieces, hpieces, htext⟩
    have ⟨parts, hwalks, _⟩ := walks_of_pieces true hpieces
    have hflatten := hwalks.flatten_eq hpieces
    rw [flatMap_output_of_valid hpieces, ← htext] at hflatten
    rw [← htext] at hwalks
    exact ⟨parts, walkHistory_eq_ok.mpr ⟨hsize, hwalks, hflatten ▸ hsize⟩, rfl⟩

end Bootty.Control
