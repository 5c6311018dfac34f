import Bootty.Config.KeymapProgram

/-!
# Legacy bindings

Model of `extend_legacy_bindings` (`crates/bootty-config/src/keymap.rs:1294–1314`) with
`split_keybind_entry` (`config/keybind_presets.rs:7–17`): an entry of the configuration is parsed,
printed, and parsed again by the compiler of the keymap.
-/

namespace Bootty.Config

open Bootty.Base

/-- The loop of `split_keybind_entry`: an equals sign ends the trigger unless `+` or `=` follows
it. -/
def splitEntry (trigger : List Char) : List Char → Option (List Char × List Char)
  | [] => none
  | c :: rest =>
    if c = '=' ∧ rest.head? ≠ some '+' ∧ rest.head? ≠ some '=' then some (trigger, rest)
    else splitEntry (trigger ++ [c]) rest

/-- `split_keybind_entry`. -/
def splitKeybindEntry (entry : String) : Option (String × String) :=
  (splitEntry [] entry.toList).map fun (trigger, action) ↦
    (String.ofList trigger, String.ofList action)

example : splitKeybindEntry "cmd+==increase_all_font_sizes:1" =
    some ("cmd+=", "increase_all_font_sizes:1") := by decide +kernel

/-- One round of `extend_legacy_bindings`. -/
def legacyBinding {V : Type} (context : KeymapContext) (entry : String) :
    Option (KeymapBindingSnapshot V) :=
  match splitKeybindEntry entry with
  | none => none
  | some (trigger, action) =>
    match parseKeymapSequence trigger with
    | .error _ => none
    | .ok sequence =>
      some ⟨context, sequence.formatEntry, .command action none, .binding, .builtIn⟩

/-- `extend_legacy_bindings`. -/
def extendLegacyBindings {V : Type} (snapshots : List (KeymapBindingSnapshot V))
    (context : KeymapContext) (entries : List String) : List (KeymapBindingSnapshot V) :=
  snapshots ++ entries.filterMap (legacyBinding context)

private theorem compile_legacyBinding {V A C : Type} {debug : String → String}
    {resolveAction : KeymapAction V → Except String (Option A)}
    {compileContext : KeymapContext → Except String C} {entry trigger action : String}
    {sequence : KeymapSequence} {context : KeymapContext} {compiled : C} {resolved : Option A}
    (hsplit : splitKeybindEntry entry = some (trigger, action))
    (hparse : parseKeymapSequence trigger = .ok sequence)
    (hcontext : compileContext context = .ok compiled)
    (hresolve : resolveAction (.command action none) = .ok resolved) :
    (KeymapProgram.compile debug resolveAction compileContext
        (extendLegacyBindings [] context [entry])).1.bindings.map
        (fun binding ↦ (⟨binding.sequence, binding.flags⟩ : KeymapSequence)) = [sequence] ↔
      parseKeymapSequence sequence.formatEntry = .ok sequence := by
  have hentry : extendLegacyBindings [] context [entry] =
      [(⟨context, sequence.formatEntry, .command action none, .binding, .builtIn⟩ :
        KeymapBindingSnapshot V)] := by
    simp [extendLegacyBindings, legacyBinding, hsplit, hparse]
  rw [hentry]
  have haction : ∃ found, compileAction resolveAction
      ⟨context, sequence.formatEntry, .command action none, .binding, .builtIn⟩ = .ok found := by
    unfold compileAction
    cases resolved with
    | none => exact ⟨.consume, by simp only [hresolve]⟩
    | some found => exact ⟨.invoke found, by simp only [hresolve]⟩
  have ⟨found, hfound⟩ := haction
  cases hagain : parseKeymapSequence sequence.formatEntry with
  | error error =>
    simp [KeymapProgram.compile, compileBinding, hcontext, hagain]
  | ok again =>
    simp [KeymapProgram.compile, compileBinding, hcontext, hagain, hfound]

/-- A sequence survives printing exactly if its text does not spell the space character, and
then a legacy entry compiles to the sequence it was written with. -/
theorem formatEntry_survives_iff (source : String) {sequence : KeymapSequence}
    (hparse : parseKeymapSequence source = .ok sequence) :
    (parseKeymapSequence sequence.formatEntry = .ok sequence ↔ ¬SpellsSpace source.toList) ∧
    ∀ (V A C : Type) (debug : String → String)
      (resolveAction : KeymapAction V → Except String (Option A))
      (compileContext : KeymapContext → Except String C) (entry action : String)
      (context : KeymapContext) (compiled : C) (resolved : Option A),
      splitKeybindEntry entry = some (source, action) → compileContext context = .ok compiled →
      resolveAction (.command action none) = .ok resolved →
      ((KeymapProgram.compile debug resolveAction compileContext
          (extendLegacyBindings [] context [entry])).1.bindings.map
          (fun binding ↦ (⟨binding.sequence, binding.flags⟩ : KeymapSequence)) = [sequence] ↔
        ¬SpellsSpace source.toList) := by
  have hsurvives : parseKeymapSequence sequence.formatEntry = .ok sequence ↔
      ¬SpellsSpace source.toList := by
    have ⟨haccepted, hspace⟩ := parseKeymapSequence_ok hparse
    rw [parse_formatEntry_iff haccepted, hspace]
  constructor
  · exact hsurvives
  · intro V A C debug resolveAction compileContext entry action context compiled resolved hsplit
      hcontext hresolve
    rw [compile_legacyBinding hsplit hparse hcontext hresolve, hsurvives]

/-- A legacy entry with a hyphen. -/
theorem formatEntry_survives_hyphen :
    parseKeymapSequence (KeymapSequence.formatEntry ⟨[⟨{ ctrl := true }, .unicode 'a'⟩], {}⟩) =
      .ok ⟨[⟨{ ctrl := true }, .unicode 'a'⟩], {}⟩ ∧
    (KeymapProgram.compile id (fun _ ↦ .ok (some ())) (fun _ ↦ .ok ())
        (extendLegacyBindings (V := Unit) [] .global ["ctrl-a=new_window"])).1.bindings.map
        (fun binding ↦ (⟨binding.sequence, binding.flags⟩ : KeymapSequence)) =
      [⟨[⟨{ ctrl := true }, .unicode 'a'⟩], {}⟩] :=
  ⟨(formatEntry_survives_iff "ctrl-a" (by decide +kernel)).1.mpr (by decide +kernel),
    ((formatEntry_survives_iff "ctrl-a" (by decide +kernel)).2 Unit Unit Unit id _ _
      "ctrl-a=new_window" "new_window" .global () (some ()) (by decide +kernel) rfl rfl).mpr
      (by decide +kernel)⟩

/-- `SPACE` is accepted and printed as a blank, which is no keystroke; the legacy binding is
lost. -/
theorem not_formatEntry_survives :
    ∃ sequence, parseKeymapSequence "ctrl+SPACE" = .ok sequence ∧
      parseKeymapSequence sequence.formatEntry ≠ .ok sequence ∧
      (KeymapProgram.compile id (fun _ ↦ .ok (some ())) (fun _ ↦ .ok ())
        (extendLegacyBindings (V := Unit) [] .global
          ["ctrl+SPACE=new_window"])).1.bindings = [] := by
  refine ⟨⟨[⟨{ ctrl := true }, .unicode ' '⟩], {}⟩, ?_, ?_, ?_⟩
  · decide +kernel
  · decide +kernel
  · decide +kernel

end Bootty.Config
