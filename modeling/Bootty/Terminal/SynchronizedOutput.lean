import Bootty.Base.PrefixMatcher

/-!
# Observed starts of synchronized output

`TerminalEngine::observe_synchronized_output_start` looks for `ESC [ ? 2026 h` in what it is
written (`crates/bootty-terminal/src/terminal_engine.rs:1029–1059`). The stream is cut into
writes anywhere, and whether a start was seen is taken between writes at any time.
-/

namespace Bootty.Terminal

open Bootty.Base

/-- `terminal_engine.rs:1030`: `b"\x1b[?2026h"`. -/
def synchronizedOutputStart : List UInt8 := [0x1B, 0x5B, 0x3F, 0x32, 0x30, 0x32, 0x36, 0x68]

/-- The fields `synchronized_output_prefix_len` and `synchronized_output_observed` of the engine. -/
structure SynchronizedOutput where
  prefixLen : ℕ
  observed : Bool
  deriving DecidableEq

namespace SynchronizedOutput

/-- `terminal_engine.rs:943–944`. -/
def new : SynchronizedOutput := ⟨0, false⟩

/-- `terminal_engine.rs:1043–1053`: one byte inside a partial match. -/
def observeByte (engine : SynchronizedOutput) (byte : UInt8) : SynchronizedOutput :=
  let prefixLen :=
    if some byte = synchronizedOutputStart[engine.prefixLen]? then engine.prefixLen + 1
    else if byte = 0x1B then 1 else 0
  if prefixLen = synchronizedOutputStart.length then { prefixLen := 0, observed := true }
  else { engine with prefixLen }

/-- `terminal_engine.rs:1032–1054`: the loop over what remains. When nothing is matched, it goes
on behind the next ESC. -/
def observeFrom (engine : SynchronizedOutput) : List UInt8 → SynchronizedOutput
  | [] => engine
  | byte :: rest =>
    if engine.prefixLen = 0 then
      match (byte :: rest).idxOf? 0x1B with
      | none => engine
      | some escape =>
        observeFrom { engine with prefixLen := 1 } ((byte :: rest).drop (escape + 1))
    else observeFrom (engine.observeByte byte) rest
termination_by remaining => remaining.length

/-- `terminal_engine.rs:1029–1055`. -/
def observeSynchronizedOutputStart (engine : SynchronizedOutput) (bytes : List UInt8) :
    SynchronizedOutput :=
  engine.observeFrom bytes

/-- `terminal_engine.rs:1057–1059`. -/
def takeSynchronizedOutputObserved (engine : SynchronizedOutput) : Bool × SynchronizedOutput :=
  (engine.observed, { engine with observed := false })

end SynchronizedOutput

/-- A call of the engine that reads or changes the two fields. -/
inductive SynchronizedOutputCall where
  | observe (bytes : List UInt8)
  | take

namespace SynchronizedOutput

open SynchronizedOutputCall

/-- The engine after a call. -/
def call (engine : SynchronizedOutput) : SynchronizedOutputCall → SynchronizedOutput
  | observe bytes => engine.observeSynchronizedOutputStart bytes
  | take => engine.takeSynchronizedOutputObserved.2

/-- The engine after successive calls. -/
def calls (engine : SynchronizedOutput) (made : List SynchronizedOutputCall) :
    SynchronizedOutput :=
  made.foldl call engine

/-- What the takes among successive calls return. -/
def taken (engine : SynchronizedOutput) : List SynchronizedOutputCall → List Bool
  | [] => []
  | observe bytes :: made => (engine.observeSynchronizedOutputStart bytes).taken made
  | take :: made =>
    engine.takeSynchronizedOutputObserved.1 :: engine.takeSynchronizedOutputObserved.2.taken made

end SynchronizedOutput

namespace SynchronizedOutputCall

/-- The bytes of successive calls. -/
def stream : List SynchronizedOutputCall → List UInt8
  | [] => []
  | observe bytes :: made => bytes ++ stream made
  | take :: made => stream made

/-- The bytes observed since the last take, when `since` were before the calls. -/
def sinceTakeFrom (since : List UInt8) : List SynchronizedOutputCall → List UInt8
  | [] => since
  | observe bytes :: made => sinceTakeFrom (since ++ bytes) made
  | take :: made => sinceTakeFrom [] made

/-- The bytes that successive calls observe after the last take among them. -/
def sinceTake (made : List SynchronizedOutputCall) : List UInt8 := sinceTakeFrom [] made

/-- How many takes are among successive calls. -/
def takes : List SynchronizedOutputCall → ℕ
  | [] => 0
  | observe _ :: made => takes made
  | take :: made => takes made + 1

end SynchronizedOutputCall

/-- An occurrence of the start sequence ends at one of the last `recent` bytes of the stream. -/
def StartEndsWithin (stream : List UInt8) (recent : ℕ) : Prop :=
  ∃ before after, stream = before ++ synchronizedOutputStart ++ after ∧ after.length < recent

variable {recent : ℕ}

/-- What one more byte of the stream adds to the occurrences. -/
theorem startEndsWithin_concat {stream : List UInt8} {byte : UInt8} :
    StartEndsWithin (stream ++ [byte]) (recent + 1) ↔
      StartEndsWithin stream recent ∨ synchronizedOutputStart <:+ stream ++ [byte] := by
  constructor
  · rintro ⟨before, after, heq, hlen⟩
    cases hlast : after.reverse with
    | nil =>
      right
      exact ⟨before, by rw [heq, List.reverse_eq_nil_iff.mp hlast, List.append_nil]⟩
    | cons last others =>
      left
      have hafter : after = others.reverse ++ [last] := by
        rw [← List.reverse_reverse after, hlast, List.reverse_cons]
      rw [hafter, ← List.append_assoc] at heq
      rw [hafter, List.length_append, List.length_singleton] at hlen
      exact ⟨before, others.reverse, (List.append_inj' heq rfl).1, by omega⟩
  · rintro (⟨before, after, rfl, hlen⟩ | ⟨before, heq⟩)
    · refine ⟨before, after ++ [byte], by simp, ?_⟩
      rw [List.length_append, List.length_singleton]
      omega
    · exact ⟨before, [], by rw [List.append_nil, heq], Nat.succ_pos recent⟩

/-- No occurrence ends at a byte that was not observed. -/
theorem not_startEndsWithin_zero {stream : List UInt8} : ¬ StartEndsWithin stream 0 := by
  rintro ⟨before, after, heq, hlen⟩
  exact absurd hlen (Nat.not_lt_zero _)

namespace SynchronizedOutput

open SynchronizedOutputCall

/-- The fields say what the stream ends with, and whether a start ended at one of its last
`recent` bytes. -/
structure Tracks (stream : List UInt8) (recent : ℕ) (engine : SynchronizedOutput) : Prop where
  prefixLen : IsPrefixLen synchronizedOutputStart stream engine.prefixLen
  observed : engine.observed = true ↔ StartEndsWithin stream recent

private theorem tracks_new : Tracks [] 0 .new where
  prefixLen := isPrefixLen_nil (by simp [synchronizedOutputStart])
  observed := by simp [new, not_startEndsWithin_zero]

/-- One byte inside a partial match is one step of the matcher. -/
theorem observeByte_eq (engine : SynchronizedOutput) (byte : UInt8) :
    engine.observeByte byte =
      let prefixLen := advance synchronizedOutputStart 0x1B engine.prefixLen byte
      if prefixLen = synchronizedOutputStart.length then { prefixLen := 0, observed := true }
      else { engine with prefixLen } := by
  simp only [observeByte, advance, eq_comm]

variable {engine : SynchronizedOutput}

private theorem Tracks.observeByte {stream : List UInt8} (h : Tracks stream recent engine)
    (byte : UInt8) :
    Tracks (stream ++ [byte]) (recent + 1) (engine.observeByte byte) := by
  have hunique : (0x1B : UInt8) ∉ [0x5B, 0x3F, 0x32, 0x30, 0x32, 0x36, 0x68] := by decide
  have hcomplete := advance_eq_length_iff hunique h.prefixLen byte
  rw [observeByte_eq]
  dsimp only
  split
  case isTrue hfull =>
    have hsuffix := hcomplete.mp hfull
    constructor
    · exact isPrefixLen_zero_of_suffix hunique hsuffix
    · rw [startEndsWithin_concat]
      exact iff_of_true rfl (.inr hsuffix)
  case isFalse hshort =>
    constructor
    · exact h.prefixLen.advance hunique hshort
    · have hnot := mt hcomplete.mpr hshort
      rw [startEndsWithin_concat]
      exact h.observed.trans (or_iff_left hnot).symm

/-- An idle matcher takes up the match at an ESC. -/
theorem observeByte_escape (hidle : engine.prefixLen = 0) :
    engine.observeByte 0x1B = { engine with prefixLen := 1 } := by
  simp [observeByte, hidle, synchronizedOutputStart]

/-- An idle matcher stays as it is at any other byte. -/
theorem observeByte_of_ne (hidle : engine.prefixLen = 0) {byte : UInt8} (hbyte : byte ≠ 0x1B) :
    engine.observeByte byte = engine := by
  have ⟨prefixLen, observed⟩ := engine
  subst hidle
  simp [observeByte, synchronizedOutputStart, hbyte]

/-- An idle matcher stays as it is at bytes without an ESC. -/
theorem foldl_observeByte_of_idle (hidle : engine.prefixLen = 0) {bytes : List UInt8}
    (hbytes : 0x1B ∉ bytes) : bytes.foldl observeByte engine = engine := by
  induction bytes with
  | nil => rfl
  | cons byte rest ih =>
    rw [List.mem_cons, not_or] at hbytes
    rw [List.foldl_cons, observeByte_of_ne hidle (Ne.symm hbytes.1)]
    exact ih hbytes.2

/-- The bytes before the first ESC, the ESC, and the bytes behind it. -/
theorem split_at_escape {bytes : List UInt8} {escape : ℕ}
    (h : bytes.idxOf? 0x1B = some escape) :
    bytes = bytes.take escape ++ 0x1B :: bytes.drop (escape + 1) ∧
      0x1B ∉ bytes.take escape := by
  have ⟨hlt, hescape, hbefore⟩ := List.idxOf?_eq_some_iff.mp h
  constructor
  · rw [← hescape, List.getElem_cons_drop, List.take_append_drop]
  · intro hmem
    have ⟨i, hi, hget⟩ := List.mem_iff_getElem.mp hmem
    rw [List.length_take] at hi
    rw [List.getElem_take] at hget
    exact hbefore i (by omega) hget

/-- Looking for the next ESC is the same as feeding the bytes up to it to an idle matcher. -/
theorem observeFrom_eq_foldl (engine : SynchronizedOutput) (bytes : List UInt8) :
    engine.observeFrom bytes = bytes.foldl observeByte engine := by
  fun_induction observeFrom engine bytes with
  | case1 engine => rfl
  | case2 engine byte rest hidle hnone =>
    exact (foldl_observeByte_of_idle hidle (List.idxOf?_eq_none_iff.mp hnone)).symm
  | case3 engine byte rest hidle escape hsome ih =>
    have ⟨hsplit, hbefore⟩ := split_at_escape hsome
    conv_rhs => rw [hsplit]
    rw [List.foldl_append, foldl_observeByte_of_idle hidle hbefore, List.foldl_cons,
      observeByte_escape hidle]
    exact ih
  | case4 engine byte rest hbusy ih => rw [ih, List.foldl_cons]

private theorem Tracks.observe {stream : List UInt8} (h : Tracks stream recent engine)
    (bytes : List UInt8)
    :
    Tracks (stream ++ bytes) (recent + bytes.length)
      (engine.observeSynchronizedOutputStart bytes) := by
  rw [observeSynchronizedOutputStart, observeFrom_eq_foldl]
  induction bytes generalizing stream recent engine with
  | nil => simpa using h
  | cons byte rest ih =>
    have hrest := ih (h.observeByte byte)
    rw [List.append_assoc, List.singleton_append, Nat.add_assoc, Nat.add_comm 1] at hrest
    exact hrest

private theorem Tracks.take {stream : List UInt8} (h : Tracks stream recent engine) :
    Tracks stream 0 engine.takeSynchronizedOutputObserved.2 where
  prefixLen := h.prefixLen
  observed := by simp [takeSynchronizedOutputObserved, not_startEndsWithin_zero]

/-- The fields keep track of the stream over any calls. -/
theorem Tracks.calls {before since : List UInt8} (h : Tracks before since.length engine)
    (made : List SynchronizedOutputCall) :
    Tracks (before ++ stream made) (sinceTakeFrom since made).length (engine.calls made) := by
  induction made generalizing before since engine with
  | nil =>
    rw [stream, List.append_nil]
    exact h
  | cons made more ih =>
    cases made with
    | observe bytes =>
      have hobserved := h.observe bytes
      rw [← List.length_append] at hobserved
      have hmore := ih hobserved
      rwa [List.append_assoc] at hmore
    | take =>
      have htaken : Tracks before ([] : List UInt8).length (engine.call .take) := Tracks.take h
      exact ih htaken

/-- The takes after some calls return what they return from the engine after those calls. -/
theorem taken_append (engine : SynchronizedOutput) (earlier later : List SynchronizedOutputCall) :
    engine.taken (earlier ++ later) = engine.taken earlier ++ (engine.calls earlier).taken later := by
  induction earlier generalizing engine with
  | nil => rfl
  | cons made more ih =>
    cases made with
    | observe bytes => exact ih _
    | take =>
      rw [List.cons_append, taken, taken, List.cons_append, ih]
      rfl

private theorem length_taken (engine : SynchronizedOutput) (made : List SynchronizedOutputCall) :
    (engine.taken made).length = takes made := by
  induction made generalizing engine with
  | nil => rfl
  | cons made more ih =>
    cases made with
    | observe bytes => exact ih _
    | take => rw [taken, takes, List.length_cons, ih]

/-- A take returns true exactly when a start ends at a byte observed since the take before it. -/
theorem taken_eq_true_iff (earlier later : List SynchronizedOutputCall) :
    (new.taken (earlier ++ .take :: later))[takes earlier]? = some true ↔
      StartEndsWithin (stream earlier) (sinceTake earlier).length := by
  have hnew : Tracks [] ([] : List UInt8).length new := tracks_new
  have htracks := hnew.calls earlier
  rw [taken_append, List.getElem?_append_right (length_taken new earlier).le, length_taken,
    Nat.sub_self, taken, List.getElem?_cons_zero, Option.some.injEq]
  exact htracks.observed

example : new.taken [.observe [0x1B, 0x1B, 0x5B, 0x3F], .take, .observe [0x32, 0x30, 0x32],
    .observe [0x36, 0x68, 0x1B], .take, .take] = [false, true, false] := by
  simp [taken, new, observeSynchronizedOutputStart, observeFrom_eq_foldl, observeByte,
    synchronizedOutputStart, takeSynchronizedOutputObserved]

end SynchronizedOutput
end Bootty.Terminal
