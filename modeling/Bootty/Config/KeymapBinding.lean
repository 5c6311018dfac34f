import Bootty.Base.Text

/-!
# Keymap bindings

The records that the keymap file, the built-in defaults and the matcher share:
`crates/bootty-config/src/keymap_file.rs:13–138` and `226–257`, `keymap.rs:788–795`. The inputs of
commands are values of an arbitrary type `V`.
-/

namespace Bootty.Config

open Bootty.Base

/-- `keymap_file.rs:13–22`. -/
inductive KeymapContext where
  | global | sidebar | command | terminal
  | expression (text : String)
  deriving DecidableEq

namespace KeymapContext

/-- `as_str`. -/
def asStr : KeymapContext → String
  | .global => "Global"
  | .sidebar => "Sidebar"
  | .command => "Command"
  | .terminal => "Terminal"
  | .expression text => text

/-- `from_str`, which accepts every text. -/
def fromStr (value : String) : KeymapContext :=
  let value := trim value
  if value ∈ ["", "Global", "global", "Workspace", "workspace"] then .global
  else if value ∈ ["Sidebar", "sidebar"] then .sidebar
  else if value ∈ ["Command", "command"] then .command
  else if value ∈ ["Terminal", "terminal"] then .terminal
  else .expression value

end KeymapContext

/-- `keymap_file.rs:63–67`. -/
inductive KeymapAction (V : Type) where
  | none
  | command (name : String) (input : Option V)
  deriving DecidableEq

/-- `keymap_file.rs:123–128`. -/
inductive KeymapBindingKind where
  | unbind | binding
  deriving DecidableEq

/-- `field`, and `binding_kind_field` of `keymap.rs:1031–1036`. -/
def KeymapBindingKind.field : KeymapBindingKind → String
  | .unbind => "unbind"
  | .binding => "bindings"

/-- `keymap_file.rs:467–472`. -/
inductive KeymapBindingSource where
  | user | builtIn
  deriving DecidableEq

/-- `keymap_file.rs:226–231`. -/
structure KeymapDiagnostic where
  sectionIndex : Option Nat
  field : Option String
  message : String
  deriving DecidableEq

/-- `keymap.rs:789–795`. -/
structure KeymapBindingSnapshot (V : Type) where
  context : KeymapContext
  keystrokes : String
  action : KeymapAction V
  kind : KeymapBindingKind
  source : KeymapBindingSource

end Bootty.Config
