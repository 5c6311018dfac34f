import Bootty.Config.KeymapBinding
import Bootty.Config.KeymapSequence

/-!
# The compiled keymap

Model of `crates/bootty-config/src/keymap.rs`: the spellings under which an input is looked up
(`keymap.rs:42–86` and `705–786`), the compiler of bindings and the matcher (`keymap.rs:826–1044`).
`char::to_lowercase` and the quoting of `{:?}` are parameters.
-/

namespace Bootty.Config

open Bootty.Base

/-! ### Inputs -/

/-- `push_without_side`. -/
def pushWithoutSide (candidates : List KeymapModifiers) (modifier : KeymapModifier) :
    List KeymapModifiers :=
  candidates.foldl (fun extended candidate ↦
    let cleared := candidate.setSide none modifier
    if cleared ∈ extended then extended else extended ++ [cleared]) candidates

/-- `input_candidates`. -/
def KeymapModifiers.inputCandidates (modifiers : KeymapModifiers) : List KeymapModifiers :=
  [KeymapModifier.shift, .ctrl, .alt, .command].foldl (fun candidates modifier ↦
    if (modifiers.side modifier).isSome then pushWithoutSide candidates modifier
    else candidates) [modifiers]

/-- `keymap.rs:706–717`. -/
inductive KeymapInput where
  | key (key : KeymapPhysicalKey) (modifiers : KeymapModifiers) (text : Option Char)
  | scroll (up : Bool) (modifiers : KeymapModifiers)

/-- `catch_all_candidates`. -/
def catchAllCandidates (modifiers : KeymapModifiers) : List KeymapTrigger :=
  let candidates := modifiers.inputCandidates.map (⟨·, .catchAll⟩)
  let anywhere : KeymapTrigger := ⟨{}, .catchAll⟩
  if modifiers ≠ {} ∧ anywhere ∉ candidates then candidates ++ [anywhere] else candidates

/-- `candidates`, from most to least specific. -/
def KeymapInput.candidates : KeymapInput → List KeymapTrigger
  | .key physical modifiers text =>
    (modifiers.inputCandidates.flatMap fun modifiers ↦
      ⟨modifiers, .physical physical⟩ ::
        (text.map fun c ↦ (⟨modifiers, .unicode c⟩ : KeymapTrigger)).toList) ++
      catchAllCandidates modifiers
  | .scroll up modifiers =>
    modifiers.inputCandidates.map (⟨·, if up then .scrollUp else .scrollDown⟩) ++
      catchAllCandidates modifiers

/-! ### The program -/

/-- `keymap.rs:827–832`. -/
inductive KeymapMatch (A : Type) where
  | noMatch | pending
  | matched (action : A) (consumed : Bool)
  | consumed
  deriving DecidableEq

/-- What a binding does. -/
inductive CompiledAction (A : Type) where
  | invoke (action : A)
  | unbind (action : A)
  | consume
  deriving DecidableEq

/-- `CompiledBinding`. -/
structure CompiledBinding (A C : Type) where
  context : C
  sequence : List KeymapTrigger
  action : CompiledAction A
  flags : KeymapBindingFlags
  deriving DecidableEq

/-- `keymap.rs:851–854`. -/
structure KeymapProgram (A C : Type) where
  bindings : List (CompiledBinding A C)
  activeSequence : List KeymapTrigger

section Compile

variable {V A C : Type} (debug : String → String)
  (resolveAction : KeymapAction V → Except String (Option A))
  (compileContext : KeymapContext → Except String C)

/-- The action of one binding, or what is said about it. -/
def compileAction (binding : KeymapBindingSnapshot V) :
    Except KeymapDiagnostic (CompiledAction A) :=
  let field := some (binding.kind.field ++ "." ++ binding.keystrokes)
  match binding.kind, binding.action with
  | .unbind, action =>
    match resolveAction action with
    | .ok (some action) => .ok (.unbind action)
    | .ok none => .error ⟨none, field, "an unbind target must name an action"⟩
    | .error message => .error ⟨none, field, message⟩
  | .binding, .none => .ok .consume
  | .binding, .command name input =>
    match resolveAction (.command name input) with
    | .ok (some action) => .ok (.invoke action)
    | .ok none => .ok .consume
    | .error message => .error ⟨none, field, message⟩

/-- One round of `compile`: the compiled binding or its diagnostic. -/
def compileBinding (binding : KeymapBindingSnapshot V) :
    Except KeymapDiagnostic (CompiledBinding A C) :=
  match compileContext binding.context with
  | .error message => .error ⟨none, some "context", message⟩
  | .ok context =>
    match parseKeymapSequence binding.keystrokes with
    | .error error =>
      .error ⟨none, some (binding.kind.field ++ "." ++ binding.keystrokes), error.message debug⟩
    | .ok sequence =>
      match compileAction resolveAction binding with
      | .error diagnostic => .error diagnostic
      | .ok action => .ok ⟨context, sequence.triggers, action, sequence.flags⟩

/-- `compile`. -/
def KeymapProgram.compile (bindings : List (KeymapBindingSnapshot V)) :
    KeymapProgram A C × List KeymapDiagnostic :=
  bindings.foldl (fun (program, diagnostics) binding ↦
    match compileBinding debug resolveAction compileContext binding with
    | .ok compiled => ({ program with bindings := program.bindings ++ [compiled] }, diagnostics)
    | .error diagnostic => (program, diagnostics ++ [diagnostic])) (⟨[], []⟩, [])

end Compile

/-! ### Matching, `keymap.rs:946–1029` -/

section Matching

variable {A C : Type} [DecidableEq A] (toLowercase : Char → List Char)

/-- `trigger_matches`. -/
def triggerMatches (candidate binding : KeymapTrigger) : Bool :=
  candidate.modifiers = binding.modifiers &&
    match candidate.key, binding.key with
    | .unicode candidate, .unicode binding =>
      candidate = binding || toLowercase candidate = toLowercase binding
    | candidate, binding => candidate = binding

/-- What the scan selects: whether more triggers follow, the action, the flags and the trigger
that is remembered. -/
structure Selected (A : Type) where
  pending : Bool
  action : Option A
  flags : KeymapBindingFlags
  trigger : KeymapTrigger

/-- The `find_map` of `next_candidates` over the bindings in reverse; `unbound` grows by the
unbind entries on the way. -/
def selectBinding (active : C → Bool) (activeSequence candidates : List KeymapTrigger)
    (unbound : List (List KeymapTrigger × A)) : List (CompiledBinding A C) → Option (Selected A)
  | [] => none
  | binding :: rest =>
    if !active binding.context then
      selectBinding active activeSequence candidates unbound rest
    else
      match binding.sequence.drop activeSequence.length with
      -- too short for the split, or nothing left to match
      | [] => selectBinding active activeSequence candidates unbound rest
      | trigger :: pending =>
        if binding.sequence.take activeSequence.length = activeSequence ∧
            candidates.any (triggerMatches toLowercase · trigger) then
          match binding.action with
          | .unbind action =>
            selectBinding active activeSequence candidates
              (unbound ++ [(binding.sequence, action)]) rest
          | .invoke action =>
            if (binding.sequence, action) ∈ unbound then
              selectBinding active activeSequence candidates unbound rest
            else some ⟨!pending.isEmpty, some action, binding.flags, trigger⟩
          | .consume => some ⟨!pending.isEmpty, none, binding.flags, trigger⟩
        else selectBinding active activeSequence candidates unbound rest

/-- What follows from the selection: the result and the new active sequence. -/
def respond (activeSequence : List KeymapTrigger) :
    Option (Selected A) → KeymapMatch A × List KeymapTrigger
  | none => if activeSequence.isEmpty then (.noMatch, activeSequence) else (.consumed, [])
  | some selected =>
    if selected.pending then (.pending, activeSequence ++ [selected.trigger])
    else
      match selected.action with
      | none => (.consumed, [])
      | some action => (.matched action selected.flags.consumed, [])

namespace KeymapProgram

/-- `next_candidates`. -/
def nextCandidates (program : KeymapProgram A C) (candidates : List KeymapTrigger)
    (active : C → Bool) : KeymapMatch A × KeymapProgram A C :=
  if candidates.isEmpty then (.noMatch, program)
  else
    let selected := selectBinding toLowercase active program.activeSequence candidates []
      program.bindings.reverse
    let (result, activeSequence) := respond program.activeSequence selected
    (result, { program with activeSequence })

/-- `next`. -/
def next (program : KeymapProgram A C) (input : KeymapInput) (active : C → Bool) :
    KeymapMatch A × KeymapProgram A C :=
  program.nextCandidates toLowercase input.candidates active

/-- The results of a run of inputs under fixed contexts. -/
def run (active : C → Bool) (program : KeymapProgram A C) :
    List (List KeymapTrigger) → List (KeymapMatch A)
  | [] => []
  | candidates :: rest =>
    let next := program.nextCandidates toLowercase candidates active
    next.1 :: run active next.2 rest

end KeymapProgram

end Matching

end Bootty.Config
