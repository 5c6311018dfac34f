import Bootty.Config.KeymapBinding
import Bootty.Config.KeymapJsonc

/-!
# The keymap file

Model of `crates/bootty-config/src/keymap_file.rs:103–639` and `693–811`: reading the sections of a
keymap, and the edits of its text. The texts between comments and the elements of the root array
are in `KeymapJsonc`. What `serde_json` reads and writes is that of `Bootty.Base.Json`.
-/

namespace Bootty.Config

open Bootty.Base

variable {N : Type}

/-- `INITIAL_KEYMAP_CONTENT`. -/
def initialKeymapContent : List Char := "[\n]\n".toList

/-! ### Actions, `keymap_file.rs:62–121` -/

namespace KeymapAction

/-- `to_json`. -/
def toJson : KeymapAction (Json N) → Json N
  | .none => .null
  | .command name .none => .string name
  | .command name (some input) => .array [.string name, input]

/-- `parse`. -/
def parse : Json N → Except String (KeymapAction (Json N))
  | .null => .ok .none
  | .string name => .ok (.command name Option.none)
  | .array [.string name, input] => .ok (.command name (some input))
  | _ => .error "expected null, an action name, or [name, input]"

/-- The derived `==`. -/
def beq [BEq N] : KeymapAction (Json N) → KeymapAction (Json N) → Bool
  | .none, .none => true
  | .command name input, .command name' input' => name == name' && input == input'
  | _, _ => false

end KeymapAction

/-! ### Sections, `keymap_file.rs:140–224` -/

/-- One entry of `unbind` or `bindings`. -/
structure KeymapEntry (N : Type) where
  keystrokes : String
  action : KeymapAction (Json N)

/-- One element of the root array. -/
structure KeymapSection (N : Type) where
  context : KeymapContext
  useKeyEquivalents : Bool
  useBuiltinDefaults : Option Bool
  unbind : List (KeymapEntry N)
  bindings : List (KeymapEntry N)
  sourceIndex : Nat

/-- `insert_entries`. -/
def insertEntries (fields : List (String × Json N)) (kind : KeymapBindingKind)
    (entries : List (KeymapEntry N)) : List (String × Json N) :=
  if entries.isEmpty then fields
  else
    let values := entries.map fun entry ↦ (entry.keystrokes, entry.action.toJson)
    Json.insertField fields kind.field (.object (Json.insertFields [] values))

namespace KeymapSection

/-- `entries`. -/
def entries (self : KeymapSection N) : KeymapBindingKind → List (KeymapEntry N)
  | .unbind => self.unbind
  | .binding => self.bindings

/-- What is written through `entries_mut`. -/
def setEntries (self : KeymapSection N) (kind : KeymapBindingKind)
    (entries : List (KeymapEntry N)) : KeymapSection N :=
  match kind with
  | .unbind => { self with unbind := entries }
  | .binding => { self with bindings := entries }

/-- `binding_count`. -/
def bindingCount (self : KeymapSection N) : Nat := self.unbind.length + self.bindings.length

/-- `to_json`. -/
def toJson (self : KeymapSection N) : Json N :=
  let fields := []
  let fields :=
    if self.context = .global then fields
    else Json.insertField fields "context" (.string self.context.asStr)
  let fields :=
    if self.useKeyEquivalents then Json.insertField fields "use_key_equivalents" (.bool true)
    else fields
  let fields :=
    match self.useBuiltinDefaults with
    | none => fields
    | some useBuiltinDefaults =>
      Json.insertField fields "use_builtin_defaults" (.bool useBuiltinDefaults)
  let fields := insertEntries fields .unbind self.unbind
  .object (insertEntries fields .binding self.bindings)

end KeymapSection

/-! ### Reading, `keymap_file.rs:255–438` -/

/-- `KeymapFile`. -/
structure KeymapFile (N : Type) where
  sections : List (KeymapSection N)
  diagnostics : List KeymapDiagnostic

namespace KeymapFile

/-- `diagnostic`. -/
def diagnostic (sectionIndex : Nat) (field : Option String) (message : String) :
    KeymapDiagnostic :=
  ⟨some sectionIndex, field, message⟩

/-- One entry of `parse_entries`. -/
def parseEntry (sourceIndex : Nat) (unbind : Bool) (field : String) (keystrokes : String)
    (value : Json N) : Option (KeymapEntry N) × List KeymapDiagnostic :=
  match KeymapAction.parse value with
  | .ok .none =>
    if unbind then
      (none, [diagnostic sourceIndex (some (field ++ "." ++ keystrokes))
        "an unbind target must name an action"])
    else (some ⟨keystrokes, .none⟩, [])
  | .ok action => (some ⟨keystrokes, action⟩, [])
  | .error message =>
    (none, [diagnostic sourceIndex (some (field ++ "." ++ keystrokes)) message])

/-- `parse_entries`. -/
def parseEntries (sourceIndex : Nat) (value : Option (Json N)) (unbind : Bool) :
    List (KeymapEntry N) × List KeymapDiagnostic :=
  let field := if unbind then "unbind" else "bindings"
  match value with
  | none => ([], [])
  | some (.object entries) =>
    (entries.filterMap fun (keystrokes, value) ↦
        (parseEntry sourceIndex unbind field keystrokes value).1,
      entries.flatMap fun (keystrokes, value) ↦
        (parseEntry sourceIndex unbind field keystrokes value).2)
  | some _ => ([], [diagnostic sourceIndex (some field) "expected an object"])

/-- The fields that `parse_section` knows. -/
def knownFields : List String :=
  ["context", "use_key_equivalents", "use_builtin_defaults", "unbind", "bindings"]

/-- What `parse_section` reads once the context is known. -/
def parseFields (sourceIndex : Nat) (context : KeymapContext) (fields : List (String × Json N)) :
    KeymapSection N × List KeymapDiagnostic :=
  let (useKeyEquivalents, equivalents) : Bool × List KeymapDiagnostic :=
    match fields.lookup "use_key_equivalents" with
    | none => (false, [])
    | some (.bool value) => (value, [])
    | some _ =>
      (false, [diagnostic sourceIndex (some "use_key_equivalents")
        "expected a boolean; using false"])
  let (useBuiltinDefaults, defaults) : Option Bool × List KeymapDiagnostic :=
    match fields.lookup "use_builtin_defaults" with
    | none => (none, [])
    | some (.bool value) => (some value, [])
    | some _ =>
      (none, [diagnostic sourceIndex (some "use_builtin_defaults")
        "expected a boolean; using the inherited default"])
  let unrecognized := (fields.map Prod.fst).filter (· ∉ knownFields)
  let unbind := parseEntries sourceIndex (fields.lookup "unbind") true
  let bindings := parseEntries sourceIndex (fields.lookup "bindings") false
  (⟨context, useKeyEquivalents, useBuiltinDefaults, unbind.1, bindings.1, sourceIndex⟩,
    equivalents ++ defaults ++
      unrecognized.map (fun field ↦ diagnostic sourceIndex (some field)
        "unrecognized field; the rest of the section was loaded") ++
      unbind.2 ++ bindings.2)

/-- What `parse_section` adds to the file. `KeymapContext::from_str` does not fail. -/
def readSection (sourceIndex : Nat) (value : Json N) :
    Option (KeymapSection N) × List KeymapDiagnostic :=
  match value with
  | .object fields =>
    match fields.lookup "context" with
    | none =>
      let (parsed, diagnostics) := parseFields sourceIndex .global fields
      (some parsed, diagnostics)
    | some (.string context) =>
      let (parsed, diagnostics) := parseFields sourceIndex (.fromStr context) fields
      (some parsed, diagnostics)
    | some _ => (none, [diagnostic sourceIndex (some "context") "expected a string"])
  | _ => (none, [diagnostic sourceIndex none "expected a keymap section object"])

/-- `parse_section`. -/
def parseSection (self : KeymapFile N) (sourceIndex : Nat) (value : Json N) : KeymapFile N :=
  let (parsed, diagnostics) := readSection sourceIndex value
  ⟨self.sections ++ parsed.toList, self.diagnostics ++ diagnostics⟩

/-- `parse`. -/
def parse (numbers : Json.Numbers N) (contents : List Char) :
    Except KeymapParseError (KeymapFile N) :=
  if contents.all isWhitespace then .ok ⟨[], []⟩
  else
    match sanitizeJsonc contents with
    | .error error => .error error
    | .ok sanitized =>
      match Json.fromStr numbers sanitized with
      | none => .error .json
      | some (.array values) =>
        .ok (values.zipIdx.foldl (fun file (value, index) ↦ file.parseSection index value)
          ⟨[], []⟩)
      | some _ => .error .rootMustBeArray

/-- `use_builtin_defaults`. -/
def useBuiltinDefaults (self : KeymapFile N) (context : KeymapContext) : Bool :=
  ((self.sections.reverse.filter (·.context = context)).findSome?
    (·.useBuiltinDefaults)).getD true

end KeymapFile

/-! ### Edits, `keymap_file.rs:450–530` -/

/-- The binding that an edit is about. -/
structure KeymapBindingTarget (N : Type) where
  context : KeymapContext
  keystrokes : String
  action : KeymapAction (Json N)
  kind : KeymapBindingKind

/-- `KeymapEdit`. -/
inductive KeymapEdit (N : Type) where
  | add (binding : KeymapBindingTarget N)
  | replace (target replacement : KeymapBindingTarget N) (targetSource : KeymapBindingSource)
  | remove (target : KeymapBindingTarget N) (targetSource : KeymapBindingSource)
  | resetContext (context : KeymapContext)
  | setBuiltInDefaults (context : KeymapContext) (enabled : Bool)

/-- `as_unbind`. -/
def asUnbind (target : KeymapBindingTarget N) :
    Except KeymapEditError (KeymapBindingTarget N) :=
  match target.action with
  | .none => .error .missingUnbindAction
  | _ => .ok { target with kind := .unbind }

/-- The entry that the target describes. -/
def KeymapBindingTarget.matches [BEq N] (target : KeymapBindingTarget N)
    (entry : KeymapEntry N) : Bool :=
  entry.keystrokes == target.keystrokes && entry.action.beq target.action

/-- `find_binding`. -/
def findBinding [BEq N] (file : KeymapFile N) (target : KeymapBindingTarget N) :
    Option (KeymapSection N × Nat) :=
  file.sections.findSome? fun found ↦
    if found.context = target.context then
      ((found.entries target.kind).findIdx? target.matches).map (found, ·)
    else none

/-- A section of its own for the binding. -/
def KeymapBindingTarget.toSection (binding : KeymapBindingTarget N) (sourceIndex : Nat) :
    KeymapSection N :=
  (⟨binding.context, false, none, [], [], sourceIndex⟩ : KeymapSection N).setEntries binding.kind
    [⟨binding.keystrokes, binding.action⟩]

/-- `usize::MAX`, which no section has for its index. -/
def noSource : Nat := 2 ^ 64 - 1

/-- `append_binding`. -/
def appendBinding (numbers : Json.Numbers N) (contents : List Char)
    (binding : KeymapBindingTarget N) : Except KeymapEditError (List Char) :=
  match binding.kind, binding.action with
  | .unbind, .none => .error .missingUnbindAction
  | _, _ => appendSection numbers contents (binding.toSection noSource).toJson

/-- Without its last entry nothing of the section would be left. -/
def KeymapSection.bare (self : KeymapSection N) : Bool :=
  !self.useKeyEquivalents && self.useBuiltinDefaults.isNone

/-- `remove_user_binding`. -/
def removeUserBinding (numbers : Json.Numbers N) (contents : List Char)
    (found : KeymapSection N) (entryIndex : Nat) (kind : KeymapBindingKind) :
    Except KeymapEditError (List Char) :=
  if found.bindingCount = 1 ∧ found.bare then removeSection contents found.sourceIndex
  else
    let replacement := found.setEntries kind ((found.entries kind).eraseIdx entryIndex)
    replaceSection numbers contents found.sourceIndex replacement.toJson

/-- The loop of `reset_context`. -/
def resetSections (numbers : Json.Numbers N) :
    List (KeymapSection N) → List Char → Except KeymapEditError (List Char)
  | [], updated => .ok updated
  | found :: rest, updated =>
    let step :=
      if found.bare then removeSection updated found.sourceIndex
      else
        replaceSection numbers updated found.sourceIndex
          { found with unbind := [], bindings := [] : KeymapSection N }.toJson
    step >>= resetSections numbers rest

/-- `reset_context`. -/
def resetContext (numbers : Json.Numbers N) (contents : List Char) (file : KeymapFile N)
    (context : KeymapContext) : Except KeymapEditError (List Char) :=
  let sections := file.sections.filter fun found ↦
    found.context = context ∧ 0 < found.bindingCount
  resetSections numbers sections.reverse contents

/-- `set_builtin_defaults`. -/
def setBuiltinDefaults (numbers : Json.Numbers N) (contents : List Char) (file : KeymapFile N)
    (context : KeymapContext) (enabled : Bool) : Except KeymapEditError (List Char) :=
  match file.sections.reverse.find? (·.context = context) with
  | some found =>
    replaceSection numbers contents found.sourceIndex
      { found with useBuiltinDefaults := some enabled : KeymapSection N }.toJson
  | none =>
    appendSection numbers contents
      (⟨context, false, some enabled, [], [], noSource⟩ : KeymapSection N).toJson

/-- What `update_keymap_jsonc` does to a keymap that was read. -/
def applyEdit [BEq N] (numbers : Json.Numbers N) (contents : List Char) (file : KeymapFile N) :
    KeymapEdit N → Except KeymapEditError (List Char)
  | .add binding => appendBinding numbers contents binding
  | .replace target replacement .builtIn =>
    let updated :=
      if target.keystrokes ≠ replacement.keystrokes ∨ target.context ≠ replacement.context then
        asUnbind target >>= appendBinding numbers contents
      else .ok contents
    updated >>= (appendBinding numbers · replacement)
  | .replace target replacement .user =>
    match findBinding file target with
    | none => appendBinding numbers contents replacement
    | some (found, entryIndex) =>
      if target.context = replacement.context ∧ target.kind = replacement.kind then
        let entries := (found.entries target.kind).set entryIndex
          ⟨replacement.keystrokes, replacement.action⟩
        replaceSection numbers contents found.sourceIndex
          (found.setEntries target.kind entries).toJson
      else
        removeUserBinding numbers contents found entryIndex target.kind >>=
          (appendBinding numbers · replacement)
  | .remove target .builtIn => asUnbind target >>= appendBinding numbers contents
  | .remove target .user =>
    match findBinding file target with
    | none => .error .bindingNotFound
    | some (found, entryIndex) =>
      removeUserBinding numbers contents found entryIndex target.kind
  | .resetContext context => resetContext numbers contents file context
  | .setBuiltInDefaults context enabled =>
    setBuiltinDefaults numbers contents file context enabled

/-- The keymap that is edited; one of spaces is an empty one. -/
def editedText (contents : List Char) : List Char :=
  if contents.all isWhitespace then initialKeymapContent else contents

/-- `update_keymap_jsonc`. -/
def updateKeymapJsonc [BEq N] (numbers : Json.Numbers N) (contents : List Char)
    (edit : KeymapEdit N) : Except KeymapEditError (List Char) :=
  match KeymapFile.parse numbers (editedText contents) with
  | .error error => .error (.parse error)
  | .ok file => applyEdit numbers (editedText contents) file edit

end Bootty.Config
