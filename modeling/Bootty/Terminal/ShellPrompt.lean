import Bootty.Base.Occurrence
import Mathlib.Algebra.GroupWithZero.Nat
import Mathlib.Data.List.Induction
import Mathlib.Tactic.Common

/-!
# Leases of the shell prompt

Model of `ShellPrompt` (`crates/bootty-terminal/src/shell_prompt.rs:59–199`). Who owns the line
is decided by six flags; what they mean is said here over the history of operations alone:
since when a prompt is reported, since when the line has been entered, and since when nobody
has touched it.
-/

namespace Bootty.Terminal

open Bootty.Base

/-- `shell_lifecycle.rs:5–10`. -/
inductive ShellEvent where
  | promptStart
  | promptEnd
  | commandStart
  | commandFinish (exitCode : Option Int)

/-- `PromptReport`. -/
inductive PromptReport where
  | ready (shell historyFile : String) (editable : Bool)
  | command (command : String)

/-- `ShellCommandRecord`. -/
structure ShellCommandRecord where
  command : String
  cwd : String
  timestamp : Nat
  exitCode : Option Int

/-- `PromptSnapshot`. -/
structure PromptSnapshot where
  revision : Nat
  editable : Bool
  shell : String
  historyFile : String
  cwd : String
  recent : List ShellCommandRecord

/-- `ShellPrompt`. -/
structure ShellPrompt where
  revision : Nat
  ready : Bool
  untouched : Bool
  atPrompt : Bool
  entered : Bool
  typeahead : Bool
  shell : String
  historyFile : String
  pending : Option ShellCommandRecord
  recent : List ShellCommandRecord

namespace ShellPrompt

/-- The greatest `u64`, where the revision saturates. -/
def maxRevision : Nat := 2 ^ 64 - 1

/-- `new`. -/
def new : ShellPrompt where
  revision := 0
  ready := false
  untouched := true
  atPrompt := false
  entered := false
  typeahead := false
  shell := ""
  historyFile := ""
  pending := none
  recent := []

/-- The number of the next change. -/
def nextRevision (s : ShellPrompt) : Nat := min (s.revision + 1) maxRevision

/-- `shell_prompt.rs:118–122`. -/
def invalidate (s : ShellPrompt) : ShellPrompt :=
  { s with revision := s.nextRevision, ready := false, untouched := false }

/-- `shell_prompt.rs:105–116`. -/
def input (s : ShellPrompt) (enter : Bool) : ShellPrompt :=
  let s :=
    if enter && s.atPrompt then { s with typeahead := false }
    else if s.entered || !s.atPrompt then { s with typeahead := true }
    else s
  let s := if enter then { s with entered := true, atPrompt := false } else s
  s.invalidate

/-- The bytes of the commands and directories that are kept. -/
def recordBytes (recent : List ShellCommandRecord) : Nat :=
  (recent.map fun entry ↦ entry.command.utf8ByteSize + entry.cwd.utf8ByteSize).sum

/-- Old records go until few enough and short enough ones are left. -/
def trimRecent : List ShellCommandRecord → List ShellCommandRecord
  | [] => []
  | record :: rest =>
    if 128 < (record :: rest).length ∨ 128 * 1024 < recordBytes (record :: rest) then
      trimRecent rest
    else record :: rest

/-- `shell_prompt.rs:123–155`. -/
def lifecycle (s : ShellPrompt) : ShellEvent → ShellPrompt
  | .promptStart => { s with revision := s.nextRevision, ready := false }
  | .commandStart => { s with atPrompt := false }.invalidate
  | .commandFinish exitCode =>
    let s := { s.invalidate with untouched := !s.typeahead, entered := false, atPrompt := false }
    match s.pending with
    | some record =>
      { s with pending := none, recent := trimRecent (s.recent ++ [{ record with exitCode }]) }
    | none => s
  | .promptEnd => s

/-- `shell_prompt.rs:156–177`. -/
def report (s : ShellPrompt) (report : PromptReport) (cwd : String) (timestamp : Nat) :
    ShellPrompt :=
  match report with
  | .ready shell historyFile editable =>
    { s with atPrompt := true, shell, historyFile, ready := editable && s.untouched }
  | .command command => { s with pending := some ⟨command, cwd, timestamp, none⟩ }

/-- `shell_prompt.rs:179–188`. -/
def snapshot (s : ShellPrompt) (cwd : String) (terminalAllows : Bool) : PromptSnapshot where
  revision := s.revision
  editable := s.ready && terminalAllows
  shell := s.shell
  historyFile := s.historyFile
  cwd := cwd
  recent := s.recent

/-- The error of a claim that is refused. -/
def claimError : String :=
  "Prompt changed or shell owns its input; return to an empty supported prompt and refresh"

/-- `shell_prompt.rs:192–198`. -/
def claim (s : ShellPrompt) (revision : Nat) (terminalAllows : Bool) :
    Except String ShellPrompt :=
  if !s.ready || !terminalAllows || s.revision != revision then .error claimError
  else .ok s.invalidate

/-! ### Runs -/

/-- What happens to a prompt. -/
inductive Op where
  | input (enter : Bool)
  | invalidate
  | lifecycle (event : ShellEvent)
  | report (report : PromptReport) (cwd : String) (timestamp : Nat)
  | claim (revision : Nat) (terminalAllows : Bool)

/-- A claim that is refused leaves the prompt as it is. -/
def apply (s : ShellPrompt) : Op → ShellPrompt
  | .input enter => s.input enter
  | .invalidate => s.invalidate
  | .lifecycle event => s.lifecycle event
  | .report r cwd timestamp => s.report r cwd timestamp
  | .claim revision terminalAllows =>
    match s.claim revision terminalAllows with
    | .ok next => next
    | .error _ => s

/-- The prompt after a history of operations. -/
def run (history : List Op) : ShellPrompt := history.foldl apply new

@[simp] private theorem run_nil : run [] = new := rfl

@[simp] private theorem run_concat (history : List Op) (op : Op) :
    run (history ++ [op]) = (run history).apply op := by
  simp [run]

/-! ### What a history says -/

/-- The claim is granted where it is made. -/
def Grants (history : List Op) : Op → Prop
  | .claim revision terminalAllows => ∃ next, (run history).claim revision terminalAllows = .ok next
  | _ => False

/-- Input, an invalidation, a granted claim or the start of a command. -/
def Touches (history : List Op) : Op → Prop
  | .input _ | .invalidate | .lifecycle .commandStart => True
  | op => Grants history op

/-- What makes earlier snapshots of the prompt stale. -/
def Outdates (history : List Op) : Op → Prop
  | .lifecycle .promptStart | .lifecycle (.commandFinish _) => True
  | op => Touches history op

/-- A command finishes. -/
def Finishes (_ : List Op) : Op → Prop
  | .lifecycle (.commandFinish _) => True
  | _ => False

/-- A line is entered. -/
def Enters (_ : List Op) : Op → Prop
  | .input true => True
  | _ => False

/-- The shell shows its prompt. -/
def ReportsPrompt (_ : List Op) : Op → Prop
  | .report (.ready _ _ _) _ _ => True
  | _ => False

/-- An Enter, the start of a command and its finish leave the prompt. -/
def LeavesPrompt (_ : List Op) : Op → Prop
  | .input true | .lifecycle .commandStart | .lifecycle (.commandFinish _) => True
  | _ => False

/-- A prompt has been reported and not left since. -/
def AtReportedPrompt (history : List Op) : Prop := Since ReportsPrompt LeavesPrompt history

/-- There was an Enter in this cycle. -/
def EnteredInCycle (history : List Op) : Prop := Since Enters Finishes history

/-- An Enter at a reported prompt. -/
def EntersAtPrompt (history : List Op) (op : Op) : Prop :=
  Enters history op ∧ AtReportedPrompt history

/-- Input that may be waiting in the shell when the next prompt is drawn. -/
def TypesAhead (history : List Op) (op : Op) : Prop :=
  (∃ enter, op = .input enter) ∧ ¬ EntersAtPrompt history op ∧
    (EnteredInCycle history ∨ ¬ AtReportedPrompt history)

/-! ### What an operation does to the flags -/

private theorem granted_iff {s : ShellPrompt} {revision : Nat} {allows : Bool} :
    (∃ next, s.claim revision allows = .ok next) ↔
      s.ready = true ∧ allows = true ∧ s.revision = revision := by
  unfold claim
  split
  · next hrefused =>
    simp only [Bool.or_eq_true, Bool.not_eq_true', bne_iff_ne] at hrefused
    simp only [reduceCtorEq, exists_false, false_iff]
    rintro ⟨hready, hallows, hrevision⟩
    obtain (hnot | hnot) | hnot := hrefused
    · simp [hready] at hnot
    · simp [hallows] at hnot
    · exact hnot hrevision
  · next hgranted =>
    simp only [Bool.or_eq_true, Bool.not_eq_true', bne_iff_ne, not_or, Bool.not_eq_false,
      not_not] at hgranted
    simp [hgranted]

private theorem input_eq (s : ShellPrompt) (enter : Bool) : s.input enter =
    { s with
      revision := s.nextRevision
      ready := false
      untouched := false
      entered := s.entered || enter
      atPrompt := s.atPrompt && !enter
      typeahead := !(enter && s.atPrompt) && (s.typeahead || s.entered || !s.atPrompt) } := by
  obtain ⟨_, _, _, atPrompt, entered, typeahead, _, _, _, _⟩ := s
  cases enter <;> cases atPrompt <;> cases entered <;> cases typeahead <;> rfl

private theorem commandFinish_eq (s : ShellPrompt) (exitCode : Option Int) :
    ∃ pending recent, s.lifecycle (.commandFinish exitCode) =
      { s with
        revision := s.nextRevision
        ready := false
        untouched := !s.typeahead
        entered := false
        atPrompt := false
        pending := pending
        recent := recent } := by
  simp only [lifecycle]
  split
  · exact ⟨_, _, rfl⟩
  · exact ⟨_, _, rfl⟩

private theorem apply_claim (s : ShellPrompt) (revision : Nat) (allows : Bool) :
    (∃ next, s.claim revision allows = .ok next) ∧ s.apply (.claim revision allows) = s.invalidate ∨
      (¬ ∃ next, s.claim revision allows = .ok next) ∧ s.apply (.claim revision allows) = s := by
  cases hclaim : s.claim revision allows with
  | error message => exact .inr ⟨by simp, by simp only [apply, hclaim]⟩
  | ok next =>
    refine .inl ⟨⟨next, rfl⟩, ?_⟩
    simp only [apply, hclaim]
    unfold claim at hclaim
    split at hclaim
    · cases hclaim
    · exact (Except.ok.inj hclaim).symm

private theorem atPrompt_run (history : List Op) :
    (run history).atPrompt = true ↔ AtReportedPrompt history := by
  induction history using List.reverseRecOn with
  | nil => simp [AtReportedPrompt, new]
  | append_singleton history op ih =>
    unfold AtReportedPrompt at ih ⊢
    rw [run_concat, since_concat, ← ih]
    cases op with
    | input enter => cases enter <;> simp [apply, input_eq, ReportsPrompt, LeavesPrompt]
    | invalidate => simp [apply, invalidate, ReportsPrompt, LeavesPrompt]
    | lifecycle event =>
      cases event with
      | commandFinish exitCode =>
        obtain ⟨pending, recent, heq⟩ := commandFinish_eq (run history) exitCode
        simp [apply, heq, ReportsPrompt, LeavesPrompt]
      | _ => simp [apply, lifecycle, invalidate, ReportsPrompt, LeavesPrompt]
    | report r cwd timestamp => cases r <;> simp [apply, report, ReportsPrompt, LeavesPrompt]
    | claim revision allows =>
      obtain ⟨-, heq⟩ | ⟨-, heq⟩ := apply_claim (run history) revision allows
      · simp [heq, invalidate, ReportsPrompt, LeavesPrompt]
      · simp [heq, ReportsPrompt, LeavesPrompt]

private theorem entered_run (history : List Op) :
    (run history).entered = true ↔ EnteredInCycle history := by
  induction history using List.reverseRecOn with
  | nil => simp [EnteredInCycle, new]
  | append_singleton history op ih =>
    unfold EnteredInCycle at ih ⊢
    rw [run_concat, since_concat, ← ih]
    cases op with
    | input enter => cases enter <;> simp [apply, input_eq, Enters, Finishes]
    | invalidate => simp [apply, invalidate, Enters, Finishes]
    | lifecycle event =>
      cases event with
      | commandFinish exitCode =>
        obtain ⟨pending, recent, heq⟩ := commandFinish_eq (run history) exitCode
        simp [apply, heq, Enters, Finishes]
      | _ => simp [apply, lifecycle, invalidate, Enters, Finishes]
    | report r cwd timestamp => cases r <;> simp [apply, report, Enters, Finishes]
    | claim revision allows =>
      obtain ⟨-, heq⟩ | ⟨-, heq⟩ := apply_claim (run history) revision allows
      · simp [heq, invalidate, Enters, Finishes]
      · simp [heq, Enters, Finishes]

/-! ### Revisions -/

private theorem revision_apply (history : List Op) (op : Op) :
    (Outdates history op ∧ (run (history ++ [op])).revision = (run history).nextRevision) ∨
      (¬ Outdates history op ∧ (run (history ++ [op])).revision = (run history).revision) := by
  rw [run_concat]
  cases op with
  | input enter => exact .inl ⟨trivial, by simp only [apply, input_eq]⟩
  | invalidate => exact .inl ⟨trivial, rfl⟩
  | lifecycle event =>
    cases event with
    | promptStart => exact .inl ⟨trivial, rfl⟩
    | promptEnd => exact .inr ⟨id, rfl⟩
    | commandStart => exact .inl ⟨trivial, rfl⟩
    | commandFinish exitCode =>
      obtain ⟨pending, recent, heq⟩ := commandFinish_eq (run history) exitCode
      exact .inl ⟨trivial, by simp only [apply, heq]⟩
  | report r cwd timestamp => cases r <;> exact .inr ⟨id, rfl⟩
  | claim revision allows =>
    obtain ⟨hgranted, heq⟩ | ⟨hrefused, heq⟩ := apply_claim (run history) revision allows
    · exact .inl ⟨hgranted, by rw [heq, invalidate]⟩
    · exact .inr ⟨hrefused, by rw [heq]⟩

private theorem revision_le_length (history : List Op) :
    (run history).revision ≤ history.length := by
  induction history using List.reverseRecOn with
  | nil => simp [new]
  | append_singleton history op ih =>
    rw [List.length_append, List.length_singleton]
    obtain ⟨-, heq⟩ | ⟨-, heq⟩ := revision_apply history op
    · rw [heq, nextRevision]
      omega
    · omega

private theorem revision_of_outdated {before mid : List Op}
    (hlen : (before ++ mid).length < maxRevision) :
    (run before).revision ≤ (run (before ++ mid)).revision ∧
      (Occurs Outdates before mid → (run before).revision < (run (before ++ mid)).revision) := by
  induction mid using List.reverseRecOn with
  | nil => simp
  | append_singleton mid op ih =>
    rw [← List.append_assoc, List.length_append, List.length_singleton] at hlen
    obtain ⟨hle, hlt⟩ := ih (by omega)
    have hbound := revision_le_length (before ++ mid)
    rw [occurs_concat, ← List.append_assoc]
    obtain ⟨houtdates, heq⟩ | ⟨hkeeps, heq⟩ := revision_apply (before ++ mid) op
    · rw [heq, nextRevision, Nat.min_eq_left (by omega)]
      exact ⟨by omega, fun _ ↦ by omega⟩
    · rw [heq]
      exact ⟨hle, fun hoccurs ↦ hlt (hoccurs.resolve_right hkeeps)⟩

/-! ### Ownership of the line -/

private theorem untouched_run (history : List Op) (h : (run history).untouched = true) :
    ¬ Since Touches Finishes history := by
  induction history using List.reverseRecOn with
  | nil => exact not_since_nil
  | append_singleton history op ih =>
    rw [run_concat] at h
    rw [since_concat]
    cases op with
    | input enter => simp [apply, input_eq] at h
    | invalidate => simp [apply, invalidate] at h
    | lifecycle event =>
      cases event with
      | commandStart => simp [apply, lifecycle, invalidate] at h
      | commandFinish exitCode => simp [Touches, Grants, Finishes]
      | promptStart => simpa [Touches, Grants, Finishes] using ih h
      | promptEnd => simpa [Touches, Grants, Finishes] using ih h
    | report r cwd timestamp =>
      have huntouched : (run history).untouched = true := by
        cases r <;> exact h
      simpa [Touches, Grants, Finishes] using ih huntouched
    | claim revision allows =>
      obtain ⟨-, heq⟩ | ⟨hrefused, heq⟩ := apply_claim (run history) revision allows
      · simp [heq, invalidate] at h
      · rw [heq] at h
        rintro (hgranted | ⟨hsince, -⟩)
        · exact hrefused hgranted
        · exact ih h hsince

private theorem untouched_of_ready (history : List Op) (h : (run history).ready = true) :
    (run history).untouched = true := by
  induction history using List.reverseRecOn with
  | nil => rfl
  | append_singleton history op ih =>
    rw [run_concat] at h ⊢
    cases op with
    | input enter => simp [apply, input_eq] at h
    | invalidate => simp [apply, invalidate] at h
    | lifecycle event =>
      cases event with
      | commandFinish exitCode =>
        obtain ⟨pending, recent, heq⟩ := commandFinish_eq (run history) exitCode
        simp [apply, heq] at h
      | promptEnd => exact ih h
      | _ => simp [apply, lifecycle, invalidate] at h
    | report r cwd timestamp =>
      cases r with
      | ready shell historyFile editable =>
        simp only [apply, report, Bool.and_eq_true] at h
        exact h.2
      | command command => exact ih h
    | claim revision allows =>
      obtain ⟨-, heq⟩ | ⟨-, heq⟩ := apply_claim (run history) revision allows
      · simp [heq, invalidate] at h
      · rw [heq] at h ⊢
        exact ih h

variable {history : List Op}

private theorem untouched_apply (op : Op) (h : (run history).untouched = false) :
    (run (history ++ [op])).untouched = false ∨
      Finishes history op ∧ (run history).typeahead = false := by
  rw [run_concat]
  cases op with
  | input enter => exact .inl (by simp only [apply, input_eq])
  | invalidate => exact .inl rfl
  | lifecycle event =>
    cases event with
    | commandFinish exitCode =>
      obtain ⟨pending, recent, heq⟩ := commandFinish_eq (run history) exitCode
      cases htypeahead : (run history).typeahead with
      | true => exact .inl (by simp [apply, heq, htypeahead])
      | false => exact .inr ⟨trivial, rfl⟩
    | commandStart => exact .inl rfl
    | _ => exact .inl h
  | report r cwd timestamp => cases r <;> exact .inl h
  | claim revision allows =>
    obtain ⟨-, heq⟩ | ⟨-, heq⟩ := apply_claim (run history) revision allows
    · exact .inl (by rw [heq, invalidate])
    · exact .inl (by rw [heq, h])

private theorem typeahead_apply (op : Op) (h : (run history).typeahead = true) :
    (run (history ++ [op])).typeahead = true ∨ EntersAtPrompt history op := by
  rw [run_concat]
  cases op with
  | input enter =>
    simp only [EntersAtPrompt, ← atPrompt_run, apply, input_eq, h]
    cases enter <;> cases (run history).atPrompt <;> simp [Enters]
  | invalidate => exact .inl h
  | lifecycle event =>
    cases event with
    | commandFinish exitCode =>
      obtain ⟨pending, recent, heq⟩ := commandFinish_eq (run history) exitCode
      exact .inl (by simp only [apply, heq, h])
    | _ => exact .inl h
  | report r cwd timestamp => cases r <;> exact .inl h
  | claim revision allows =>
    obtain ⟨-, heq⟩ | ⟨-, heq⟩ := apply_claim (run history) revision allows
    · exact .inl (by rw [heq, invalidate, h])
    · exact .inl (by rw [heq, h])

private theorem typeahead_of_typesAhead {op : Op} (h : TypesAhead history op) :
    (run (history ++ [op])).typeahead = true ∧ (run (history ++ [op])).untouched = false := by
  obtain ⟨⟨enter, rfl⟩, hplain, hcycle⟩ := h
  rw [← entered_run, ← atPrompt_run] at hcycle
  rw [EntersAtPrompt, ← atPrompt_run] at hplain
  rw [run_concat]
  simp only [apply, input_eq, and_true]
  cases enter <;> cases hprompt : (run history).atPrompt <;>
    simp_all [Enters]

private theorem taken_after_typeahead {before : List Op} (mid : List Op)
    (htypeahead : (run before).typeahead = true) (huntouched : (run before).untouched = false) :
    OccursThen EntersAtPrompt Finishes before mid ∨
      (run (before ++ mid)).untouched = false ∧
        ((run (before ++ mid)).typeahead = true ∨ Occurs EntersAtPrompt before mid) := by
  induction mid using List.reverseRecOn with
  | nil => simp [htypeahead, huntouched]
  | append_singleton mid op ih =>
    rw [occursThen_concat, occurs_concat, ← List.append_assoc]
    obtain hcleared | ⟨htaken, hremembered⟩ := ih
    · exact .inl (.inl hcleared)
    obtain htaken | ⟨hfinishes, hforgotten⟩ := untouched_apply op htaken
    · refine .inr ⟨htaken, ?_⟩
      obtain hremembered | hentered := hremembered
      · exact (typeahead_apply op hremembered).imp_right .inr
      · exact .inr (.inl hentered)
    · refine .inl (.inr ⟨?_, hfinishes⟩)
      apply hremembered.resolve_left
      simp [hforgotten]

/-! ### The guarantees -/

/-- A claim of a revision is granted only if nothing has happened since the snapshots that
carried the revision, and to nobody else. -/
def ClaimsAreFresh (history : List Op) : Prop :=
  ∀ revision terminalAllows next, (run history).claim revision terminalAllows = .ok next →
    (∀ before mid cwd allows, history = before ++ mid →
      ((run before).snapshot cwd allows).revision = revision → ¬ Occurs Outdates before mid) ∧
    ∀ before mid allows, history = before ++ .claim revision allows :: mid →
      ¬ Grants before (.claim revision allows)

/-- A ready line has not been touched since the last command finished. -/
def ReadyIsUntouched (history : List Op) : Prop :=
  (run history).ready = true → ¬ Since Touches Finishes history

/-- After type-ahead the line gets ready only when a later Enter at a prompt has been
followed by a finish. -/
def TypeaheadHoldsBack (history : List Op) : Prop :=
  ∀ before op after, history = before ++ op :: after → TypesAhead before op →
    (run history).ready = true → OccursThen EntersAtPrompt Finishes (before ++ [op]) after

private theorem claimsAreFresh (history : List Op) (hlen : history.length < maxRevision) :
    ClaimsAreFresh history := by
  intro revision terminalAllows next hclaim
  obtain ⟨-, -, hrevision⟩ := granted_iff.mp ⟨next, hclaim⟩
  have hfresh : ∀ before mid, history = before ++ mid → (run before).revision = revision →
      ¬ Occurs Outdates before mid := by
    rintro before mid rfl hbefore hoccurs
    have hlt := (revision_of_outdated hlen).2 hoccurs
    omega
  refine ⟨fun before mid _ _ heq hsnapshot ↦ hfresh before mid heq hsnapshot, ?_⟩
  intro before mid allows heq hgranted
  obtain ⟨-, -, hbefore⟩ := granted_iff.mp hgranted
  apply hfresh before (.claim revision allows :: mid) heq hbefore
  exact ⟨[], _, mid, rfl, by simpa [Outdates, Touches] using hgranted⟩

private theorem typeaheadHoldsBack (history : List Op) : TypeaheadHoldsBack history := by
  rintro before op after rfl htypes hready
  obtain ⟨htypeahead, huntouched⟩ := typeahead_of_typesAhead htypes
  have htaken := taken_after_typeahead after htypeahead huntouched
  apply htaken.resolve_right
  rintro ⟨hnot, -⟩
  rw [List.append_assoc, List.singleton_append, untouched_of_ready _ hready] at hnot
  cases hnot

/-- A prompt lease is never granted over user input. -/
theorem lease_never_over_user_input (history : List Op) (hlen : history.length < 2 ^ 64 - 1) :
    ClaimsAreFresh history ∧ ReadyIsUntouched history ∧ TypeaheadHoldsBack history := by
  refine ⟨claimsAreFresh history hlen, fun hready ↦ ?_, typeaheadHoldsBack history⟩
  exact untouched_run history (untouched_of_ready history hready)

private def promptReady : Op := .report (.ready "bash" "" true) "/" 0

/-- A command during which the user types on, and a second one that takes the line. -/
private def typedAhead : List Op :=
  [promptReady, .input true, .lifecycle .commandStart, .input false,
    .lifecycle (.commandFinish (some 0)), .lifecycle .promptStart, promptReady, .input true,
    .lifecycle .commandStart, .lifecycle (.commandFinish (some 0)), .lifecycle .promptStart,
    promptReady]

/-- The lease is granted after the second command, which took the input typed ahead. -/
theorem lease_never_over_user_input_typed_ahead :
    ((∃ next, (run typedAhead).claim 9 true = .ok next) ∧
      (run (typedAhead.take 7)).ready = false) ∧
    ClaimsAreFresh typedAhead ∧ ReadyIsUntouched typedAhead ∧ TypeaheadHoldsBack typedAhead :=
  ⟨⟨⟨_, rfl⟩, rfl⟩, lease_never_over_user_input typedAhead (by decide)⟩

/-! ### The records -/

/-- Few enough and short enough records. -/
def WithinLimits (records : List ShellCommandRecord) : Prop :=
  records.length ≤ 128 ∧ recordBytes records ≤ 128 * 1024

/-- The command that is reported and has not finished, after an operation. -/
def pendingAfter (pending : Option ShellCommandRecord) : Op → Option ShellCommandRecord
  | .report (.command command) cwd timestamp => some ⟨command, cwd, timestamp, none⟩
  | .lifecycle (.commandFinish _) => none
  | _ => pending

/-- The command that an operation finishes. -/
def finishedBy (pending : Option ShellCommandRecord) : Op → Option ShellCommandRecord
  | .lifecycle (.commandFinish exitCode) => pending.map fun record ↦ { record with exitCode }
  | _ => none

/-- The commands that finish in a history, each the last that was reported before its finish. -/
def finishedCommands : Option ShellCommandRecord → List Op → List ShellCommandRecord
  | _, [] => []
  | pending, op :: rest =>
    (finishedBy pending op).toList ++ finishedCommands (pendingAfter pending op) rest

/-- The newest of some records, as many of them as the limits allow. -/
structure IsNewest (records newest : List ShellCommandRecord) : Prop where
  suffix : newest <:+ records
  within : WithinLimits newest
  greatest : ∀ kept, kept <:+ records → WithinLimits kept → kept <:+ newest

private theorem recordBytes_concat (records : List ShellCommandRecord)
    (record : ShellCommandRecord) :
    recordBytes (records ++ [record]) = recordBytes records + recordBytes [record] := by
  simp [recordBytes]

variable {records : List ShellCommandRecord}

private theorem WithinLimits.of_concat {record : ShellCommandRecord}
    (h : WithinLimits (records ++ [record])) :
    WithinLimits records := by
  obtain ⟨hlength, hbytes⟩ := h
  rw [List.length_append] at hlength
  rw [recordBytes_concat] at hbytes
  exact ⟨by omega, by omega⟩

private theorem isNewest_trimRecent (records : List ShellCommandRecord) :
    IsNewest records (trimRecent records) := by
  induction records with
  | nil => exact ⟨List.suffix_rfl, by simp [trimRecent, WithinLimits, recordBytes], fun _ h _ ↦ h⟩
  | cons record rest ih =>
    unfold trimRecent
    split
    · next hover =>
      refine ⟨ih.suffix.trans (List.suffix_cons record rest), ih.within, ?_⟩
      intro kept hkept hwithin
      rcases List.suffix_cons_iff.mp hkept with rfl | hrest
      · obtain ⟨hlength, hbytes⟩ := hwithin
        omega
      · exact ih.greatest kept hrest hwithin
    · next hfits =>
      rw [not_or, Nat.not_lt, Nat.not_lt] at hfits
      exact ⟨List.suffix_rfl, hfits, fun _ hkept _ ↦ hkept⟩

private theorem IsNewest.concat {newest : List ShellCommandRecord} (h : IsNewest records newest)
    (record : ShellCommandRecord) :
    IsNewest (records ++ [record]) (trimRecent (newest ++ [record])) := by
  have htrim := isNewest_trimRecent (newest ++ [record])
  obtain ⟨older, holder⟩ := h.suffix
  refine ⟨htrim.suffix.trans ⟨older, ?_⟩, htrim.within, fun kept hkept hwithin ↦
    htrim.greatest kept ?_ hwithin⟩
  · rw [← List.append_assoc, holder]
  · rcases List.suffix_concat_iff.mp hkept with rfl | ⟨before, rfl, hbefore⟩
    · exact List.nil_suffix
    · obtain ⟨dropped, hdropped⟩ := h.greatest before hbefore hwithin.of_concat
      exact ⟨dropped, by rw [← List.append_assoc, hdropped]⟩

private theorem pending_apply (s : ShellPrompt) (op : Op) :
    (s.apply op).pending = pendingAfter s.pending op := by
  cases op with
  | input enter => simp only [apply, input_eq, pendingAfter]
  | invalidate => rfl
  | lifecycle event =>
    cases event with
    | commandFinish exitCode =>
      simp only [apply, lifecycle, pendingAfter]
      split
      · rfl
      · next hnone => exact hnone
    | _ => rfl
  | report r cwd timestamp => cases r <;> rfl
  | claim revision allows =>
    obtain ⟨-, heq⟩ | ⟨-, heq⟩ := apply_claim s revision allows
    · rw [heq]
      rfl
    · rw [heq]
      rfl

private theorem recent_apply (s : ShellPrompt) (op : Op) :
    (s.apply op).recent =
      (finishedBy s.pending op).elim s.recent fun record ↦ trimRecent (s.recent ++ [record]) := by
  cases op with
  | input enter =>
    simp only [apply, input_eq]
    rfl
  | invalidate => rfl
  | lifecycle event =>
    cases event with
    | commandFinish exitCode =>
      cases hpending : s.pending <;>
        simp [apply, lifecycle, invalidate, finishedBy, hpending]
    | _ => rfl
  | report r cwd timestamp => cases r <;> rfl
  | claim revision allows =>
    obtain ⟨-, heq⟩ | ⟨-, heq⟩ := apply_claim s revision allows
    · rw [heq]
      rfl
    · rw [heq]
      rfl

private theorem isNewest_foldl (history : List Op) {s : ShellPrompt} (h : IsNewest records s.recent)
    :
    IsNewest (records ++ finishedCommands s.pending history) (history.foldl apply s).recent := by
  induction history generalizing s records with
  | nil => rwa [finishedCommands, List.append_nil]
  | cons op rest ih =>
    have hrecent := recent_apply s op
    have hnext : IsNewest (records ++ (finishedBy s.pending op).toList) (s.apply op).recent := by
      rw [hrecent]
      cases finishedBy s.pending op with
      | none => rwa [Option.toList_none, List.append_nil]
      | some record => exact h.concat record
    have hlater := ih hnext
    rwa [pending_apply, List.append_assoc] at hlater

/-- A snapshot carries the newest of the commands that have finished, as many as the limits
allow. -/
theorem recent_newest (history : List Op) (cwd : String) (terminalAllows : Bool) :
    IsNewest (finishedCommands none history) ((run history).snapshot cwd terminalAllows).recent := by
  have hnew : IsNewest [] new.recent :=
    ⟨List.suffix_rfl, by simp [WithinLimits, new, recordBytes], fun _ hkept _ ↦ hkept⟩
  exact isNewest_foldl history hnew

end ShellPrompt
end Bootty.Terminal
