import Bootty.Base.Utf8
import Bootty.Control.HistoryWalk

/-!
# Restored histories

What `crates/bootty-control/src/terminal_history.rs:25–134` makes of the histories that a terminal
restores. A sanitized capture is a history that shows the text of the capture, and sanitizing it
again changes nothing. The bytes of a history with styles hold no control that is none of the
grammar, and every row ends in the two characters of a terminal.
-/

namespace Bootty.Control

open Bootty.Base

/-! ### Sanitized captures -/

private theorem resolvedPaletteStyle_of_not_mem {part : List Char} (h : '\x1b' ∉ part)
    (palette : Palette) :
    resolvedPaletteStyle part palette = none := by
  have hstart : part.dropPrefix? ['\x1b', '['] = none := by
    cases hdrop : part.dropPrefix? ['\x1b', '['] with
    | none => rfl
    | some rest =>
      rw [dropPrefix?_eq_some.mp hdrop] at h
      simp at h
  rw [resolvedPaletteStyle, hstart]
  rfl

private theorem resolvedPaletteStyle_gap (digits : List Char) (palette : Palette) :
    resolvedPaletteStyle (HistoryControl.gap digits).written palette = none := by
  have hstart : (HistoryControl.gap digits).written.dropPrefix? ['\x1b', '['] =
      some (digits ++ ['C']) := dropPrefix?_eq_some.mpr rfl
  have hsuffix : (digits ++ ['C']).dropSuffix? ['m'] = none := by
    cases hdrop : (digits ++ ['C']).dropSuffix? ['m'] with
    | none => rfl
    | some front =>
      have ⟨last, hsplit, hlast⟩ := List.dropSuffix?_eq_some_iff.mp hdrop
      rw [eq_of_beq hlast, List.append_singleton_inj] at hsplit
      cases hsplit.2
  rw [resolvedPaletteStyle, hstart, Option.bind_eq_bind, Option.bind_some, hsuffix]
  rfl

private theorem keepsText_restyle (palette : Palette) : KeepsText (restyle palette) := by
  intro plain hplain
  have hescape : '\x1b' ∉ plain := fun hmem ↦ absurd (hplain _ hmem) (by decide)
  rw [restyle, resolvedPaletteStyle_of_not_mem hescape, Option.getD_none]

/-- A style with the color of a palette is a style. -/
theorem exists_of_resolvedPaletteStyle {part resolved : List Char} {palette : Palette}
    (h : resolvedPaletteStyle part palette = some resolved) :
    ∃ parts, (HistoryControl.style parts).Valid false ∧
      resolved = (HistoryControl.style parts).written := by
  simp only [resolvedPaletteStyle, Option.bind_eq_bind, Option.bind_eq_some_iff] at h
  have ⟨_, _, parameters, _, h⟩ := h
  split at h
  · next front index _ =>
    split at h
    · next hfront =>
      simp only [Option.bind_eq_some_iff] at h
      have ⟨_, _, color, _, hresolved⟩ := h
      have hnumeral : ∃ n ∈ colorCodes, Numeral front n := by
        simp only [List.mem_cons, List.not_mem_nil, or_false] at hfront
        rcases hfront with rfl | rfl | rfl
        · exact ⟨38, by decide, by simp, by decide, rfl⟩
        · exact ⟨48, by decide, by simp, by decide, rfl⟩
        · exact ⟨58, by decide, by simp, by decide, rfl⟩
      have ⟨n, hcolor, hnumeral⟩ := hnumeral
      have hchannel (channel : UInt8) : channel.toNat ≤ 255 := by
        have hlt := channel.toNat_lt
        omega
      refine ⟨[front, ['2'], decimal color.red.toNat, decimal color.green.toNat,
        decimal color.blue.toNat], ⟨by simp, .direct hnumeral hcolor (numeral_decimal _)
          (hchannel _) (numeral_decimal _) (hchannel _) (numeral_decimal _) (hchannel _) .nil⟩, ?_⟩
      rw [← Option.some.inj hresolved]
      simp [HistoryControl.written, List.intercalate_cons_cons]
    · cases h
  · cases h

variable {piece : HistoryPiece}

/-- A piece of a capture is restyled to pieces of a history that show the same. -/
theorem exists_restyled (palette : Palette) (h : piece.Valid true) :
    ∃ pieces : List HistoryPiece, (∀ other ∈ pieces, other.Valid false) ∧
      pieces.flatMap HistoryPiece.written = piece.output (restyle palette) true ∧
      pieces.flatMap (HistoryPiece.output id false) = piece.output id false := by
  have hsingle {other : HistoryPiece} (hother : other.Valid false) :
      ∀ other' ∈ [other], other'.Valid false := List.forall_mem_singleton.mpr hother
  cases piece with
  | text c => exact ⟨[.text c], hsingle h, rfl, rfl⟩
  | control sequence =>
    cases sequence with
    | gap digits =>
      refine ⟨[.control (.gap digits)], hsingle h, ?_, List.append_nil _⟩
      simp [HistoryPiece.output, HistoryPiece.written, HistoryControl.pushed, restyle,
        resolvedPaletteStyle_gap digits palette]
    | style parts =>
      cases hresolved : resolvedPaletteStyle (HistoryControl.style parts).written palette with
      | none =>
        refine ⟨[.control (.style parts)], hsingle h, ?_, rfl⟩
        simp [HistoryPiece.output, HistoryPiece.written, HistoryControl.pushed, restyle, hresolved]
      | some resolved =>
        obtain ⟨parts', hvalid, hwritten⟩ := exists_of_resolvedPaletteStyle hresolved
        refine ⟨[.control (.style parts')], hsingle hvalid, ?_, rfl⟩
        simp [HistoryPiece.output, HistoryPiece.written, HistoryControl.pushed, restyle, hresolved,
          hwritten]
    | osc body terminator => exact ⟨[], by simp, rfl, rfl⟩

variable {pieces : List HistoryPiece}

/-- Pieces that each become pieces of a history that show the same become such a history. -/
theorem exists_shown_pieces {w : HistoryPiece → List Char}
    (h : ∀ piece ∈ pieces, ∃ others : List HistoryPiece, (∀ other ∈ others, other.Valid false) ∧
      others.flatMap HistoryPiece.written = w piece ∧
      others.flatMap (HistoryPiece.output id false) = piece.output id false) :
    ∃ others : List HistoryPiece, (∀ other ∈ others, other.Valid false) ∧
      others.flatMap HistoryPiece.written = pieces.flatMap w ∧
      others.flatMap (HistoryPiece.output id false) =
        pieces.flatMap (HistoryPiece.output id false) := by
  induction pieces with
  | nil => exact ⟨[], by simp, rfl, rfl⟩
  | cons piece pieces ih =>
    have ⟨hpiece, hpieces⟩ := List.forall_mem_cons.mp h
    have ⟨first, hfirst, hwritten, hshown⟩ := hpiece
    have ⟨rest, hrest, hwritten', hshown'⟩ := ih hpieces
    refine ⟨first ++ rest, fun other hother ↦ ?_, ?_, ?_⟩
    · exact (List.mem_append.mp hother).elim (hfirst other) (hrest other)
    · rw [List.flatMap_append, hwritten, hwritten', List.flatMap_cons]
    · rw [List.flatMap_append, hshown, hshown', List.flatMap_cons]

variable {sequence : HistoryControl}

/-- A control of a history is an escape, a bracket, and no escape any more. -/
theorem exists_written_eq_cons_cons (h : sequence.Valid false) :
    ∃ tail, sequence.written = '\x1b' :: '[' :: tail ∧ '\x1b' ∉ tail := by
  cases sequence with
  | gap digits =>
    have ⟨n, hdigits, _⟩ := h
    refine ⟨digits ++ ['C'], rfl, fun hmem ↦ ?_⟩
    rcases List.mem_append.mp hmem with hmem | hmem
    · exact hdigits.not_mem (by decide) hmem
    · exact absurd hmem (by decide)
  | style parts =>
    refine ⟨[';'].intercalate parts ++ ['m'], rfl, fun hmem ↦ ?_⟩
    rcases List.mem_append.mp hmem with hmem | hmem
    · exact absurd (h.2.isParameter _ hmem) (by decide)
    · exact absurd hmem (by decide)
  | osc body terminator => cases h.1

variable {text front : List Char}

/-- In a history a bracket is behind every escape. -/
theorem IsHistory.bracket {back : List Char} (h : IsHistory text)
    (htext : text = front ++ '\x1b' :: back) : ∃ tail, back = '[' :: tail := by
  have ⟨pieces, hpieces, hwritten⟩ := h
  rw [htext] at hwritten
  clear htext h
  induction pieces generalizing front with
  | nil => simp at hwritten
  | cons piece pieces ih =>
    have ⟨hpiece, hrest⟩ := List.forall_mem_cons.mp hpieces
    rw [List.flatMap_cons] at hwritten
    -- the escape is the first character of the piece, or behind the piece
    cases piece with
    | text c =>
      cases front with
      | nil =>
        exact absurd (List.cons.inj hwritten).1.symm (bne_iff_ne.mp (escape_not_presentable hpiece))
      | cons d front => exact ih hrest (List.cons.inj hwritten).2
    | control sequence =>
      have ⟨tail, hsequence, htail⟩ := exists_written_eq_cons_cons hpiece
      rw [HistoryPiece.written, hsequence] at hwritten
      cases front with
      | nil => exact ⟨_, (List.cons.inj hwritten).2⟩
      | cons d front =>
        have hinside := (List.cons.inj hwritten).2
        have hnot : '\x1b' ∉ '[' :: tail := by simpa using htail
        rcases List.append_eq_append_iff.mp hinside with
          ⟨middle, hsplit, hback⟩ | ⟨middle, _, hback⟩
        · cases middle with
          | nil => exact @ih [] hrest hback
          | cons d middle =>
            rw [List.cons_append, List.cons.injEq] at hback
            rw [hsplit, ← hback.1] at hnot
            simp at hnot
        · exact ih hrest hback.symm

private theorem IsHistory.no_osc (h : IsHistory text) :
    ¬['\x1b', ']'] <:+: text := by
  intro ⟨front, back, htext⟩
  rw [List.append_assoc, List.cons_append, List.singleton_append] at htext
  have ⟨tail, htail⟩ := h.bracket htext.symm
  cases htail

private theorem length_splitOsc (h : ¬['\x1b', ']'] <:+: text) :
    (splitOsc text).length = 1 := by
  fun_induction splitOsc text with
  | case1 => rfl
  | case2 rest => exact absurd ⟨[], rest, rfl⟩ h
  | case3 c rest _ ih =>
    rw [List.length_modifyHead]
    exact ih fun hrest ↦ h (hrest.trans (List.suffix_cons c rest).isInfix)

/-- A history sets no colors. -/
theorem IsHistory.capturePalette (h : IsHistory text) :
    capturePalette text = fun _ ↦ none := by
  have hdrop : (splitOsc text).drop 1 = [] :=
    List.drop_eq_nil_of_le (Nat.le_of_eq (length_splitOsc h.no_osc))
  rw [Control.capturePalette, hdrop, List.foldl_nil]

private theorem resolvedPaletteStyle_none (part : List Char) :
    resolvedPaletteStyle part (fun _ ↦ none) = none := by
  cases hresolved : resolvedPaletteStyle part fun _ ↦ none with
  | none => rfl
  | some resolved =>
    simp only [resolvedPaletteStyle, Option.bind_eq_bind, Option.bind_eq_some_iff] at hresolved
    have ⟨_, _, _, _, h⟩ := hresolved
    split at h
    · split at h
      · simp at h
      · cases h
    · cases h

/-- What sanitizing comes to. -/
theorem sanitizeHistory_eq_ok {result : List Char} :
    sanitizeHistory text = .ok result ↔ ∃ parts, walkHistory text true true = .ok parts ∧
      result = parts.flatMap (restyle (Control.capturePalette text)) ∧
      validateHistory result = .ok () := by
  simp only [sanitizeHistory, bind_eq_ok, Except.ok.injEq]
  constructor
  · rintro ⟨_, _, parts, hwalk, _, hvalid, rfl⟩
    exact ⟨parts, hwalk, rfl, hvalid⟩
  · rintro ⟨parts, hwalk, rfl, hvalid⟩
    have hsize := (walkHistory_eq_ok.mp hwalk).1
    have hcheck : checkSize (byteLength text) maxHistoryBytes = .ok () := by
      rw [checkSize, if_neg (by omega)]
    exact ⟨(), hcheck, parts, hwalk, (), hvalid, rfl⟩

/-- Sanitizing a history changes nothing. -/
theorem sanitizeHistory_of_validate (h : validateHistory text = .ok ()) :
    sanitizeHistory text = .ok text := by
  have ⟨hsize, hhistory⟩ := validateHistory_eq_ok.mp h
  have ⟨pieces, hpieces, htext⟩ := hhistory
  have hcaptured : ∀ piece ∈ pieces, piece.Valid true := fun piece hpiece ↦
    (hpieces piece hpiece).of_false
  have ⟨parts, hwalks, _⟩ := walks_of_pieces true hcaptured
  have hflatten := hwalks.flatten_eq hcaptured
  rw [flatMap_output_of_valid hpieces, ← htext] at hflatten
  rw [← htext] at hwalks
  have hsame : parts.flatMap (restyle (Control.capturePalette text)) = text := by
    have hid : restyle (fun _ ↦ none) = id := by
      funext part
      rw [restyle, resolvedPaletteStyle_none, Option.getD_none, id_eq]
    rw [hhistory.capturePalette, hid, List.flatMap_id, hflatten]
  refine sanitizeHistory_eq_ok.mpr ⟨parts, ?_, hsame.symm, h⟩
  exact walkHistory_eq_ok.mpr ⟨hsize, hwalks, hflatten ▸ hsize⟩

private theorem historyPlainText_of_pieces (h : ∀ piece ∈ pieces, piece.Valid false)
    {shown : List Char}
    (hshown : historyPlainText (pieces.flatMap HistoryPiece.written) = .ok shown) :
    shown = pieces.flatMap (HistoryPiece.output id false) := by
  simp only [historyPlainText, bind_eq_ok, Except.ok.injEq] at hshown
  obtain ⟨parts, hwalk, hflatten⟩ := hshown
  obtain ⟨_, hwalks, _⟩ := walkHistory_eq_ok.mp hwalk
  rw [← hflatten, hwalks.flatten_eq h]

/-- A text without its commands of the operating system, from the inside of one or not. -/
def withoutOsc : Bool → List Char → List Char
  | _, [] => []
  | false, '\x1b' :: ']' :: rest => withoutOsc true rest
  | false, c :: rest => c :: withoutOsc false rest
  | true, '\x07' :: rest => withoutOsc false rest
  | true, '\x1b' :: '\\' :: rest => withoutOsc false rest
  | true, _ :: rest => withoutOsc true rest

example : withoutOsc false "a\x1b]0;t\x07b\x1b[1mc\x1b]8;;\x1b\\d".toList =
    "ab\x1b[1mcd".toList := by decide

private theorem withoutOsc_osc {body terminator : List Char}
    (hbody : ∀ c ∈ body, c ≠ '\x07' ∧ c ≠ '\x1b')
    (hterminator : terminator = ['\x07'] ∨ terminator = ['\x1b', '\\']) (rest : List Char) :
    withoutOsc true (body ++ terminator ++ rest) = withoutOsc false rest := by
  induction body with
  | nil => rcases hterminator with rfl | rfl <;> rfl
  | cons c body ih =>
    have ⟨⟨hbell, hescape⟩, hrest⟩ := List.forall_mem_cons.mp hbody
    rw [List.cons_append, List.cons_append, withoutOsc, ih hrest]
    · exact hbell
    · exact fun _ hc _ ↦ hescape hc

private theorem withoutOsc_plain (h : '\x1b' ∉ front) (rest : List Char) :
    withoutOsc false (front ++ rest) = front ++ withoutOsc false rest := by
  induction front with
  | nil => rfl
  | cons c front ih =>
    rw [List.mem_cons, not_or] at h
    rw [List.cons_append, withoutOsc, ih h.2, List.cons_append]
    exact fun _ hc _ ↦ h.1 hc.symm

/-- A piece of a history stays. -/
theorem withoutOsc_written (h : piece.Valid false) (rest : List Char) :
    withoutOsc false (piece.written ++ rest) = piece.written ++ withoutOsc false rest := by
  cases piece with
  | text c =>
    have hescape : '\x1b' ∉ [c] := fun hmem ↦
      bne_iff_ne.mp (escape_not_presentable h) (List.mem_singleton.mp hmem).symm
    exact withoutOsc_plain hescape rest
  | control sequence =>
    have ⟨tail, hwritten, htail⟩ := exists_written_eq_cons_cons h
    have hbracket : '\x1b' ∉ '[' :: tail := by simpa using htail
    have hplain := withoutOsc_plain hbracket rest
    rw [HistoryPiece.written, hwritten]
    exact congrArg ('\x1b' :: ·) hplain

/-- A piece of a capture is one of a history, or a command of the operating system. -/
theorem valid_false_or_osc (h : piece.Valid true) :
    piece.Valid false ∨ ∃ body terminator, piece = .control (.osc body terminator) := by
  cases piece with
  | text c => exact .inl h
  | control sequence =>
    cases sequence with
    | gap digits => exact .inl h
    | style parts => exact .inl h
    | osc body terminator => exact .inr ⟨body, terminator, rfl⟩

/-- A piece of a capture goes or stays, whatever follows. -/
theorem withoutOsc_append (h : piece.Valid true) :
    (∃ others : List HistoryPiece, (∀ other ∈ others, other.Valid false) ∧
      others.flatMap HistoryPiece.written = withoutOsc false piece.written ∧
      others.flatMap (HistoryPiece.output id false) = piece.output id false) ∧
    ∀ rest, withoutOsc false (piece.written ++ rest) =
      withoutOsc false piece.written ++ withoutOsc false rest := by
  rcases valid_false_or_osc h with hvalid | ⟨body, terminator, rfl⟩
  · have hkept : withoutOsc false piece.written = piece.written := by
      have hwritten := withoutOsc_written hvalid []
      rwa [List.append_nil, withoutOsc, List.append_nil] at hwritten
    rw [hkept]
    exact ⟨⟨[piece], List.forall_mem_singleton.mpr hvalid, List.append_nil _, List.append_nil _⟩,
      withoutOsc_written hvalid⟩
  · have ⟨_, hbody, hterminator⟩ := h
    have hgone (rest : List Char) := withoutOsc_osc hbody hterminator rest
    have hnone : withoutOsc false (HistoryPiece.control (.osc body terminator)).written = [] := by
      have hend := hgone []
      rwa [List.append_nil] at hend
    rw [hnone]
    exact ⟨⟨[], by simp, rfl, rfl⟩, hgone⟩

private theorem withoutOsc_flatMap (h : ∀ piece ∈ pieces, piece.Valid true) :
    withoutOsc false (pieces.flatMap HistoryPiece.written) =
      pieces.flatMap fun piece ↦ withoutOsc false piece.written := by
  induction pieces with
  | nil => rfl
  | cons piece pieces ih =>
    have ⟨hpiece, hpieces⟩ := List.forall_mem_cons.mp h
    rw [List.flatMap_cons, (withoutOsc_append hpiece).2, ih hpieces, List.flatMap_cons]

/-- A sanitized capture is accepted, holds no command of the operating system, shows what the
capture shows without its commands, and stays as it is when it is sanitized again. -/
theorem sanitizeHistory_safe {result : List Char} (h : sanitizeHistory text = .ok result) :
    validateHistory result = .ok () ∧ ¬['\x1b', ']'] <:+: result ∧
      (∀ shown shown', historyPlainText result = .ok shown →
        historyPlainText (withoutOsc false text) = .ok shown' → shown = shown') ∧
      sanitizeHistory result = .ok result := by
  have ⟨parts, hwalk, hresult, hvalid⟩ := sanitizeHistory_eq_ok.mp h
  have ⟨_, hwalks, _⟩ := walkHistory_eq_ok.mp hwalk
  have ⟨pieces, hpieces, htext⟩ := hwalks.pieces
  have ⟨_, hhistory⟩ := validateHistory_eq_ok.mp hvalid
  refine ⟨hvalid, hhistory.no_osc, fun shown shown' hshown hshown' ↦ ?_,
    sanitizeHistory_of_validate hvalid⟩
  rw [htext] at hwalks
  have ⟨restyled, hrestyled, hwritten, hsame⟩ := exists_shown_pieces fun piece hpiece ↦
    exists_restyled (Control.capturePalette text) (hpieces piece hpiece)
  have ⟨kept, hkept, hwithout, hsame'⟩ := exists_shown_pieces fun piece hpiece ↦
    (withoutOsc_append (hpieces piece hpiece)).1
  rw [hresult, hwalks.flatMap_eq hpieces (keepsText_restyle _), ← hwritten] at hshown
  rw [htext, withoutOsc_flatMap hpieces, ← hwithout] at hshown'
  rw [historyPlainText_of_pieces hrestyled hshown, historyPlainText_of_pieces hkept hshown', hsame,
    hsame']

/-! ### Rows -/

/-- A carriage return and a line feed occur as a pair alone. -/
inductive PairedRows {α : Type} (cr lf : α) : List α → Prop
  | nil : PairedRows cr lf []
  | pair {rest : List α} : PairedRows cr lf rest → PairedRows cr lf (cr :: lf :: rest)
  | other {x : α} {rest : List α} : x ≠ cr → x ≠ lf → PairedRows cr lf rest →
      PairedRows cr lf (x :: rest)

private theorem PairedRows.append {α : Type} {cr lf : α} {front back : List α}
    (hfront : PairedRows cr lf front) (hback : PairedRows cr lf back) :
    PairedRows cr lf (front ++ back) := by
  induction hfront with
  | nil => exact hback
  | pair _ ih => exact .pair ih
  | other hcr hlf _ ih => exact .other hcr hlf ih

private theorem pairedRows_of_forall {α : Type} {cr lf : α} {xs : List α}
    (h : ∀ x ∈ xs, x ≠ cr ∧ x ≠ lf) : PairedRows cr lf xs := by
  induction xs with
  | nil => exact .nil
  | cons x xs ih =>
    have ⟨⟨hcr, hlf⟩, hrest⟩ := List.forall_mem_cons.mp h
    exact .other hcr hlf (ih hrest)

/-- Rows of characters are rows of bytes. -/
theorem PairedRows.bytes (h : PairedRows '\r' '\n' text) :
    PairedRows 0x0D 0x0A (textBytes (String.ofList text)) := by
  rw [textBytes_ofList]
  induction h with
  | nil => exact .nil
  | pair _ ih => exact .pair ih
  | @other c rest hcr hlf _ ih =>
    rw [List.flatMap_cons]
    refine (pairedRows_of_forall fun byte hbyte ↦ ?_).append ih
    by_cases hascii : c.toNat < 0x80
    · rw [utf8EncodeChar_ascii hascii, List.mem_singleton] at hbyte
      have hbytes : byte.toNat = c.toNat := by
        rw [hbyte, UInt8.toNat_ofNat', Nat.mod_eq_of_lt (by omega)]
      have hc (n : Nat) (hn : byte.toNat = n) : c = Char.ofNat n := by
        rw [← hn, hbytes, Char.ofNat_toNat]
      exact ⟨fun heq ↦ hcr (hc 13 (heq ▸ rfl)), fun heq ↦ hlf (hc 10 (heq ▸ rfl))⟩
    · have hle := le_of_mem_utf8EncodeChar (Nat.le_of_not_lt hascii) hbyte
      constructor
      · rintro rfl
        exact absurd hle (by decide)
      · rintro rfl
        exact absurd hle (by decide)

/-- The rows of a terminal are paired. -/
theorem pairedRows_normalizeRows (text : List Char) :
    PairedRows '\r' '\n' (normalizeRows text) := by
  rw [normalizeRows]
  induction replaceCrLf text with
  | nil => exact .nil
  | cons c rest ih =>
    rw [List.map_cons, List.flatMap_cons]
    by_cases hcr : c = '\r'
    · rw [if_pos hcr, if_pos rfl]
      exact .pair ih
    rw [if_neg hcr]
    by_cases hlf : c = '\n'
    · rw [if_pos hlf]
      exact .pair ih
    · rw [if_neg hlf]
      exact .other hcr hlf ih

private theorem isHistory_nil : IsHistory [] := ⟨[], by simp, rfl⟩

private theorem IsHistory.append {back : List Char} (hfront : IsHistory front)
    (hback : IsHistory back) :
    IsHistory (front ++ back) := by
  have ⟨pieces, hpieces, hwritten⟩ := hfront
  have ⟨pieces', hpieces', hwritten'⟩ := hback
  refine ⟨pieces ++ pieces', fun piece hpiece ↦ ?_, ?_⟩
  · exact (List.mem_append.mp hpiece).elim (hpieces piece) (hpieces' piece)
  · rw [List.flatMap_append, hwritten, hwritten']

private theorem isHistory_of_presentable (h : ∀ c ∈ text, isPresentable c) :
    IsHistory text := by
  refine ⟨text.map .text, fun piece hpiece ↦ ?_, ?_⟩
  · have ⟨c, hc, hpiece⟩ := List.mem_map.mp hpiece
    exact hpiece ▸ h c hc
  · exact (flatMap_written_text text).symm

private theorem isHistory_of_control (h : sequence.Valid false) :
    IsHistory sequence.written :=
  ⟨[.control sequence], List.forall_mem_singleton.mpr h, (List.append_nil _).symm⟩

/-- A text of a history is read from its end. -/
theorem IsHistory.induction {P : List Char → Prop} {text : List Char} (h : IsHistory text)
    (nil : P []) (char : ∀ c rest, isPresentable c → P rest → P (c :: rest))
    (control : ∀ (sequence : HistoryControl) rest, sequence.Valid false → P rest →
      P (sequence.written ++ rest)) : P text := by
  have ⟨pieces, hpieces, htext⟩ := h
  subst htext
  clear h
  induction pieces with
  | nil => exact nil
  | cons piece pieces ih =>
    have ⟨hpiece, hrest⟩ := List.forall_mem_cons.mp hpieces
    cases piece with
    | text c => exact char c _ hpiece (ih hrest)
    | control sequence => exact control sequence _ hpiece (ih hrest)

/-- A control of a history does not end a row. -/
theorem ne_of_mem_written (h : sequence.Valid false) :
    ∀ c ∈ sequence.written, c ≠ '\r' ∧ c ≠ '\n' := by
  have hparameter {c : Char} (hc : isParameter c) : c ≠ '\r' ∧ c ≠ '\n' := by
    constructor
    · rintro rfl
      exact absurd hc (by decide)
    · rintro rfl
      exact absurd hc (by decide)
  have hbetween {inner : List Char} {last : Char} (hinner : ∀ c ∈ inner, isParameter c)
      (hlast : last ≠ '\r' ∧ last ≠ '\n') :
      ∀ c ∈ '\x1b' :: '[' :: inner ++ [last], c ≠ '\r' ∧ c ≠ '\n' := by
    intro c hc
    rw [List.mem_append, List.mem_cons, List.mem_cons, List.mem_singleton] at hc
    rcases hc with (rfl | rfl | hc) | rfl
    · decide
    · decide
    · exact hparameter (hinner c hc)
    · exact hlast
  cases sequence with
  | gap digits =>
    have ⟨n, hdigits, _⟩ := h
    exact hbetween (isParameter_of_numeral hdigits) (by decide)
  | style parts => exact hbetween h.2.isParameter (by decide)
  | osc body terminator => cases h.1

/-- Characters of a history that are exchanged for characters of one leave a history. -/
theorem IsHistory.flatMap (h : IsHistory text) {g : Char → List Char}
    (hsame : ∀ c, c ≠ '\r' → c ≠ '\n' → g c = [c])
    (hg : ∀ c, isPresentable c → ∀ d ∈ g c, isPresentable d) : IsHistory (text.flatMap g) := by
  refine @IsHistory.induction (fun text ↦ IsHistory (text.flatMap g)) text h isHistory_nil
    (fun c rest hc ih ↦ ?_) fun sequence rest hvalid ih ↦ ?_
  · rw [List.flatMap_cons]
    exact (isHistory_of_presentable (hg c hc)).append ih
  · have hcontrol : sequence.written.flatMap g = sequence.written := by
      have hsingle : sequence.written.flatMap g = sequence.written.flatMap fun c ↦ [c] :=
        List.flatMap_congr fun c hc ↦
          hsame c (ne_of_mem_written hvalid c hc).1 (ne_of_mem_written hvalid c hc).2
      exact hsingle.trans (List.flatMap_singleton' _)
    rw [List.flatMap_append, hcontrol]
    exact (isHistory_of_control hvalid).append ih

/-- A character before a text goes, or stays before what becomes of the text. -/
theorem replaceCrLf_cons (c : Char) (rest : List Char) :
    replaceCrLf (c :: rest) = replaceCrLf rest ∨
      replaceCrLf (c :: rest) = c :: replaceCrLf rest := by
  by_cases hpair : c = '\r' ∧ rest.head? = some '\n'
  · have ⟨hreturn, hhead⟩ := hpair
    have ⟨tail, htail⟩ := List.head?_eq_some_iff.mp hhead
    rw [hreturn, htail]
    exact .inl rfl
  · right
    rw [replaceCrLf]
    rintro tail rfl rfl
    exact hpair ⟨rfl, rfl⟩

private theorem replaceCrLf_append (h : '\r' ∉ front) (rest : List Char) :
    replaceCrLf (front ++ rest) = front ++ replaceCrLf rest := by
  induction front with
  | nil => rfl
  | cons c front ih =>
    rw [List.mem_cons, not_or] at h
    rw [List.cons_append, replaceCrLf, ih h.2, List.cons_append]
    exact fun _ hc _ ↦ h.1 hc.symm

private theorem IsHistory.replaceCrLf (h : IsHistory text) :
    IsHistory (replaceCrLf text) := by
  refine @IsHistory.induction (fun text ↦ IsHistory (Control.replaceCrLf text)) text h
    isHistory_nil (fun c rest hc ih ↦ ?_) fun sequence rest hvalid ih ↦ ?_
  · have hsingle : ∀ d ∈ [c], isPresentable d := List.forall_mem_singleton.mpr hc
    rcases replaceCrLf_cons c rest with hgone | hstays
    · exact hgone ▸ ih
    · exact hstays ▸ (isHistory_of_presentable hsingle).append ih
  · have hreturn : '\r' ∉ sequence.written := fun hmem ↦ (ne_of_mem_written hvalid _ hmem).1 rfl
    rw [replaceCrLf_append hreturn]
    exact (isHistory_of_control hvalid).append ih

private theorem IsHistory.normalizeRows (h : IsHistory text) :
    IsHistory (normalizeRows text) := by
  have hreturns := h.replaceCrLf.flatMap (g := fun c ↦ [if c = '\r' then '\n' else c])
    (fun c hcr _ ↦ by rw [if_neg hcr]) fun c hc ↦ List.forall_mem_singleton.mpr (by
      split
      · rfl
      · exact hc)
  rw [← List.map_eq_flatMap] at hreturns
  refine hreturns.flatMap (fun c _ hlf ↦ if_neg hlf) fun c hc ↦ ?_
  split
  · decide
  · exact List.forall_mem_singleton.mpr hc

/-- The bytes of a history are those of a history with paired rows. -/
theorem styledHistoryBytes_paired (h : validateHistory text = .ok ()) :
    ∃ styled, styledHistoryBytes text = .ok (textBytes (String.ofList styled)) ∧
      IsHistory styled ∧ PairedRows '\r' '\n' styled := by
  have ⟨_, hhistory⟩ := validateHistory_eq_ok.mp h
  have hreset : IsHistory resetStyle ∧ PairedRows '\r' '\n' resetStyle := by
    have hzero : Numeral ['0'] 0 := ⟨by simp, by decide, rfl⟩
    have hvalid : (HistoryControl.style [['0']]).Valid false :=
      ⟨by simp, .plain hzero (by decide) .nil⟩
    exact ⟨isHistory_of_control hvalid, pairedRows_of_forall (by decide)⟩
  have hempty : IsHistory [] ∧ PairedRows '\r' '\n' [] := ⟨isHistory_nil, .nil⟩
  have hend : IsHistory "\r\n".toList ∧ PairedRows '\r' '\n' "\r\n".toList :=
    ⟨isHistory_of_presentable (by decide), .pair .nil⟩
  have happend {front back : List Char} (hfront : IsHistory front ∧ PairedRows '\r' '\n' front)
      (hback : IsHistory back ∧ PairedRows '\r' '\n' back) :
      IsHistory (front ++ back) ∧ PairedRows '\r' '\n' (front ++ back) :=
    ⟨hfront.1.append hback.1, hfront.2.append hback.2⟩
  have hnormalized := And.intro hhistory.normalizeRows (pairedRows_normalizeRows text)
  rw [styledHistoryBytes, h, ok_bind]
  refine ⟨_, rfl, ?_⟩
  have hstyle : IsHistory (if '\x1b' ∈ text then resetStyle else []) ∧
      PairedRows '\r' '\n' (if '\x1b' ∈ text then resetStyle else []) := by
    split
    · exact hreset
    · exact hempty
  refine happend (happend (happend hstyle hnormalized) hstyle) ?_
  split
  · exact hend
  · exact hempty

/-- What is accepted is exactly what the grammar has within the limit; a sanitized capture is safe,
and so are the bytes of what is accepted. -/
theorem history_restored_safely :
    (∀ text, byteLength text ≤ maxHistoryBytes →
      (validateHistory text = .ok () ↔ IsHistory text)) ∧
    (∀ text result, sanitizeHistory text = .ok result →
      validateHistory result = .ok () ∧ ¬['\x1b', ']'] <:+: result ∧
      (∀ shown shown', historyPlainText result = .ok shown →
        historyPlainText (withoutOsc false text) = .ok shown' → shown = shown') ∧
      sanitizeHistory result = .ok result) ∧
    ∀ text, validateHistory text = .ok () → ∃ bytes, styledHistoryBytes text = .ok bytes ∧
      PairedRows 0x0D 0x0A bytes ∧
      ∃ styled, bytes = textBytes (String.ofList styled) ∧ IsHistory styled := by
  refine ⟨fun text hsize ↦ ?_, fun text result ↦ sanitizeHistory_safe, fun text htext ↦ ?_⟩
  · rw [validateHistory_eq_ok]
    exact and_iff_right hsize
  · have ⟨styled, hbytes, hhistory, hpaired⟩ := styledHistoryBytes_paired htext
    exact ⟨_, hbytes, hpaired.bytes, styled, rfl, hhistory⟩

/-- A capture that sets a color, uses it, and has a gap in a row. -/
def sampleCapture : List Char := "\x1b]4;1;rgb:ff/00/80\x07\x1b[38;5;1mab\x1b[0m\x1b[3Cc\nd".toList

/-- A history with colours, a gap and two lines. -/
def sampleHistory : List Char := "\x1b[38;2;255;0;128mab\x1b[0m\x1b[3Cc\nd".toList

/-- A history comes back as it was. -/
theorem history_restored_safely_sample :
    (validateHistory sampleHistory = .ok () ↔ IsHistory sampleHistory) ∧
      sanitizeHistory sampleCapture = .ok sampleHistory ∧
      ¬['\x1b', ']'] <:+: sampleHistory ∧ sanitizeHistory sampleHistory = .ok sampleHistory ∧
      historyPlainText sampleHistory = .ok "ab   c\nd".toList ∧
      ∃ bytes, styledHistoryBytes sampleHistory = .ok bytes ∧ PairedRows 0x0D 0x0A bytes ∧
        ∃ styled, bytes = textBytes (String.ofList styled) ∧ IsHistory styled := by
  have hsanitize : sanitizeHistory sampleCapture = .ok sampleHistory := by decide +kernel
  have hshown : historyPlainText sampleHistory = .ok "ab   c\nd".toList := by decide +kernel
  have ⟨haccepts, hsafe, hstyled⟩ := history_restored_safely
  have ⟨hvalid, hosc, _, hagain⟩ := hsafe _ _ hsanitize
  exact ⟨haccepts _ (by decide +kernel), hsanitize, hosc, hagain, hshown, hstyled _ hvalid⟩

end Bootty.Control
