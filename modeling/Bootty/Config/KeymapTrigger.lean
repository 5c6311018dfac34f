import Bootty.Base.Fallible
import Bootty.Base.Text

/-!
# Keymap triggers

Model of `crates/bootty-config/src/keymap.rs:20–519`: modifiers, physical keys, the trigger with
its printer `format_entry` and its parser `from_str`. Texts are lists of characters.
-/

namespace Bootty.Config

open Bootty.Base

/-! ### Modifiers -/

/-- `keymap.rs:22–26`. -/
inductive KeymapModifierSide where
  | left | right
  deriving DecidableEq

/-- `keymap.rs:30–40`. -/
structure KeymapModifiers where
  shift : Bool := false
  ctrl : Bool := false
  alt : Bool := false
  command : Bool := false
  shiftSide : Option KeymapModifierSide := none
  ctrlSide : Option KeymapModifierSide := none
  altSide : Option KeymapModifierSide := none
  commandSide : Option KeymapModifierSide := none
  deriving DecidableEq

/-- The four fields of the modifiers that come with a side. -/
inductive KeymapModifier where
  | shift | ctrl | alt | command
  deriving DecidableEq

namespace KeymapModifiers

/-- Whether a modifier is pressed. -/
def pressed (modifiers : KeymapModifiers) : KeymapModifier → Bool
  | .shift => modifiers.shift
  | .ctrl => modifiers.ctrl
  | .alt => modifiers.alt
  | .command => modifiers.command

/-- The side of a modifier. -/
def side (modifiers : KeymapModifiers) : KeymapModifier → Option KeymapModifierSide
  | .shift => modifiers.shiftSide
  | .ctrl => modifiers.ctrlSide
  | .alt => modifiers.altSide
  | .command => modifiers.commandSide

/-- A modifier is pressed. -/
def press (modifiers : KeymapModifiers) : KeymapModifier → KeymapModifiers
  | .shift => { modifiers with shift := true }
  | .ctrl => { modifiers with ctrl := true }
  | .alt => { modifiers with alt := true }
  | .command => { modifiers with command := true }

/-- A modifier gets a side. -/
def setSide (modifiers : KeymapModifiers) (side : Option KeymapModifierSide) :
    KeymapModifier → KeymapModifiers
  | .shift => { modifiers with shiftSide := side }
  | .ctrl => { modifiers with ctrlSide := side }
  | .alt => { modifiers with altSide := side }
  | .command => { modifiers with commandSide := side }

end KeymapModifiers

/-! ### Physical keys, `keymap.rs:88–289` -/

/-- `KeymapPhysicalKey`. -/
inductive KeymapPhysicalKey where
  | backquote | backslash | bracketLeft | bracketRight | comma | digit0 | digit1 | digit2
  | digit3 | digit4 | digit5 | digit6 | digit7 | digit8 | digit9 | equal | a | b | c | d | e | f
  | g | h | i | j | k | l | m | n | o | p | q | r | s | t | u | v | w | x | y | z | minus
  | period | quote | semicolon | slash | arrowUp | arrowDown | arrowRight | arrowLeft | delete
  | home | endKey | pageUp | pageDown | space | insert | enter | tab | backspace | escape | f1
  | f2 | f3 | f4 | f5 | f6 | f7 | f8 | f9 | f10 | f11 | f12
  deriving DecidableEq

/-- `keymap.rs:376–389`. -/
inductive KeymapTriggerError where
  | invalidFormat
  deriving DecidableEq

namespace KeymapPhysicalKey

/-- The canonical spelling, the alias and the key of the arms of `parse`. -/
def keys : List (String × String × KeymapPhysicalKey) :=
  [("KeyA", "key_a", .a), ("KeyB", "key_b", .b), ("KeyC", "key_c", .c), ("KeyD", "key_d", .d),
   ("KeyE", "key_e", .e), ("KeyF", "key_f", .f), ("KeyG", "key_g", .g), ("KeyH", "key_h", .h),
   ("KeyI", "key_i", .i), ("KeyJ", "key_j", .j), ("KeyK", "key_k", .k), ("KeyL", "key_l", .l),
   ("KeyM", "key_m", .m), ("KeyN", "key_n", .n), ("KeyO", "key_o", .o), ("KeyP", "key_p", .p),
   ("KeyQ", "key_q", .q), ("KeyR", "key_r", .r), ("KeyS", "key_s", .s), ("KeyT", "key_t", .t),
   ("KeyU", "key_u", .u), ("KeyV", "key_v", .v), ("KeyW", "key_w", .w), ("KeyX", "key_x", .x),
   ("KeyY", "key_y", .y), ("KeyZ", "key_z", .z), ("Digit0", "digit_0", .digit0),
   ("Digit1", "digit_1", .digit1), ("Digit2", "digit_2", .digit2),
   ("Digit3", "digit_3", .digit3), ("Digit4", "digit_4", .digit4),
   ("Digit5", "digit_5", .digit5), ("Digit6", "digit_6", .digit6),
   ("Digit7", "digit_7", .digit7), ("Digit8", "digit_8", .digit8),
   ("Digit9", "digit_9", .digit9), ("Backquote", "backquote", .backquote),
   ("Backslash", "backslash", .backslash), ("BracketLeft", "bracket_left", .bracketLeft),
   ("BracketRight", "bracket_right", .bracketRight), ("Comma", "comma", .comma),
   ("Equal", "equal", .equal), ("Minus", "minus", .minus), ("Period", "period", .period),
   ("Quote", "quote", .quote), ("Semicolon", "semicolon", .semicolon),
   ("Slash", "slash", .slash), ("ArrowUp", "arrow_up", .arrowUp),
   ("ArrowDown", "arrow_down", .arrowDown), ("ArrowRight", "arrow_right", .arrowRight),
   ("ArrowLeft", "arrow_left", .arrowLeft), ("Delete", "delete", .delete),
   ("Home", "home", .home), ("End", "end", .endKey), ("PageUp", "page_up", .pageUp),
   ("PageDown", "page_down", .pageDown), ("Space", "space", .space),
   ("Insert", "insert", .insert), ("Enter", "enter", .enter), ("Tab", "tab", .tab),
   ("Backspace", "backspace", .backspace), ("Escape", "escape", .escape), ("F1", "f1", .f1),
   ("F2", "f2", .f2), ("F3", "f3", .f3), ("F4", "f4", .f4), ("F5", "f5", .f5), ("F6", "f6", .f6),
   ("F7", "f7", .f7), ("F8", "f8", .f8), ("F9", "f9", .f9), ("F10", "f10", .f10),
   ("F11", "f11", .f11), ("F12", "f12", .f12)]

/-- `parse`: unknown names are no physical key unless they begin like one. -/
def parse (input : String) : Except KeymapTriggerError (Option KeymapPhysicalKey) :=
  match keys.find? fun key ↦ input = key.1 || input = key.2.1 with
  | some key => .ok (some key.2.2)
  | none =>
    if "Key".toList.isPrefixOf input.toList || "Digit".toList.isPrefixOf input.toList then
      .error .invalidFormat
    else .ok none

/-- `canonical_name`. -/
def canonicalName : KeymapPhysicalKey → String
  | .backquote => "Backquote" | .backslash => "Backslash" | .bracketLeft => "BracketLeft"
  | .bracketRight => "BracketRight" | .comma => "Comma" | .digit0 => "Digit0"
  | .digit1 => "Digit1" | .digit2 => "Digit2" | .digit3 => "Digit3" | .digit4 => "Digit4"
  | .digit5 => "Digit5" | .digit6 => "Digit6" | .digit7 => "Digit7" | .digit8 => "Digit8"
  | .digit9 => "Digit9" | .equal => "Equal" | .a => "KeyA" | .b => "KeyB" | .c => "KeyC"
  | .d => "KeyD" | .e => "KeyE" | .f => "KeyF" | .g => "KeyG" | .h => "KeyH" | .i => "KeyI"
  | .j => "KeyJ" | .k => "KeyK" | .l => "KeyL" | .m => "KeyM" | .n => "KeyN" | .o => "KeyO"
  | .p => "KeyP" | .q => "KeyQ" | .r => "KeyR" | .s => "KeyS" | .t => "KeyT" | .u => "KeyU"
  | .v => "KeyV" | .w => "KeyW" | .x => "KeyX" | .y => "KeyY" | .z => "KeyZ" | .minus => "Minus"
  | .period => "Period" | .quote => "Quote" | .semicolon => "Semicolon" | .slash => "Slash"
  | .arrowUp => "ArrowUp" | .arrowDown => "ArrowDown" | .arrowRight => "ArrowRight"
  | .arrowLeft => "ArrowLeft" | .delete => "Delete" | .home => "Home" | .endKey => "End"
  | .pageUp => "PageUp" | .pageDown => "PageDown" | .space => "Space" | .insert => "Insert"
  | .enter => "Enter" | .tab => "Tab" | .backspace => "Backspace" | .escape => "Escape"
  | .f1 => "F1" | .f2 => "F2" | .f3 => "F3" | .f4 => "F4" | .f5 => "F5" | .f6 => "F6"
  | .f7 => "F7" | .f8 => "F8" | .f9 => "F9" | .f10 => "F10" | .f11 => "F11" | .f12 => "F12"

end KeymapPhysicalKey

/-! ### Triggers, `keymap.rs:291–363` -/

/-- `KeymapTriggerKey`. -/
inductive KeymapTriggerKey where
  | unicode (c : Char)
  | physical (key : KeymapPhysicalKey)
  | scrollUp | scrollDown | catchAll
  deriving DecidableEq

/-- `KeymapTrigger`. -/
structure KeymapTrigger where
  modifiers : KeymapModifiers
  key : KeymapTriggerKey
  deriving DecidableEq

/-- `modifier_name`. -/
def modifierName : KeymapModifier → Option KeymapModifierSide → String
  | .command, none => "cmd"
  | .command, some .left => "left_cmd"
  | .command, some .right => "right_cmd"
  | .ctrl, none => "ctrl"
  | .ctrl, some .left => "left_ctrl"
  | .ctrl, some .right => "right_ctrl"
  | .alt, none => "alt"
  | .alt, some .left => "left_alt"
  | .alt, some .right => "right_alt"
  | .shift, none => "shift"
  | .shift, some .left => "left_shift"
  | .shift, some .right => "right_shift"

/-- `push_modifier`. -/
def pushModifier (output modifier : List Char) : List Char :=
  if output.isEmpty then modifier else output ++ '+' :: modifier

namespace KeymapTriggerKey

/-- The key as it is printed. -/
def text : KeymapTriggerKey → List Char
  | .unicode c => [c]
  | .physical key => key.canonicalName.toList
  | .scrollUp => "scroll_up".toList
  | .scrollDown => "scroll_down".toList
  | .catchAll => "catch_all".toList

end KeymapTriggerKey

/-- The modifiers in the order in which `format_entry` prints them. -/
def printedModifiers : List KeymapModifier := [.command, .ctrl, .alt, .shift]

namespace KeymapTrigger

/-- The modifiers as they are printed. -/
def formatModifiers (modifiers : KeymapModifiers) : List Char :=
  printedModifiers.foldl (fun output modifier ↦
    if modifiers.pressed modifier then
      pushModifier output (modifierName modifier (modifiers.side modifier)).toList
    else output) []

/-- `format_entry`. -/
def formatEntry (trigger : KeymapTrigger) : List Char :=
  let output := formatModifiers trigger.modifiers
  (if output.isEmpty then output else output ++ ['+']) ++ trigger.key.text

end KeymapTrigger

/-! ### Parsing, `keymap.rs:391–519` -/

/-- `str::eq_ignore_ascii_case`. -/
def eqIgnoreAsciiCase (a b : List Char) : Bool := a.map Char.toLower = b.map Char.toLower

/-- The loop of `split_trigger_parts`: a plus sign ends a part that is not empty. -/
def splitParts (part : List Char) : List Char → List (List Char)
  | [] => [part]
  | c :: rest =>
    if c = '+' ∧ part ≠ [] then part :: splitParts [] rest else splitParts (part ++ [c]) rest

/-- `split_trigger_parts`. -/
def splitTriggerParts (input : List Char) : Except KeymapTriggerError (List (List Char)) :=
  let parts := splitParts [] input
  if parts.any (·.isEmpty) then .error .invalidFormat else .ok parts

/-- `set_modifier`. -/
def setModifier (modifiers : KeymapModifiers) (modifier : KeymapModifier) :
    Except KeymapTriggerError KeymapModifiers :=
  if modifiers.pressed modifier then .error .invalidFormat else .ok (modifiers.press modifier)

/-- `set_sided_modifier`. -/
def setSidedModifier (modifiers : KeymapModifiers) (modifier : KeymapModifier)
    (side : KeymapModifierSide) : Except KeymapTriggerError KeymapModifiers := do
  let pressed ← setModifier modifiers modifier
  if (modifiers.side modifier).isSome then .error .invalidFormat
  else .ok (pressed.setSide (some side) modifier)

/-- The spellings of the modifiers, `keymap.rs:403–447`. -/
def modifierParts : List (String × KeymapModifier × Option KeymapModifierSide) :=
  [("shift", .shift, none), ("ctrl", .ctrl, none), ("control", .ctrl, none),
   ("alt", .alt, none), ("opt", .alt, none), ("option", .alt, none), ("cmd", .command, none),
   ("command", .command, none), ("super", .command, none),
   ("left_shift", .shift, some .left), ("right_shift", .shift, some .right),
   ("left_ctrl", .ctrl, some .left), ("left_control", .ctrl, some .left),
   ("right_ctrl", .ctrl, some .right), ("right_control", .ctrl, some .right),
   ("left_alt", .alt, some .left), ("left_opt", .alt, some .left),
   ("left_option", .alt, some .left), ("right_alt", .alt, some .right),
   ("right_opt", .alt, some .right), ("right_option", .alt, some .right),
   ("left_cmd", .command, some .left), ("left_command", .command, some .left),
   ("left_super", .command, some .left), ("right_cmd", .command, some .right),
   ("right_command", .command, some .right), ("right_super", .command, some .right)]

/-- A part that is no physical key: the keys with a name of their own, the space bar's other
spellings and single characters. -/
def namedKey (part : List Char) : Option KeymapTriggerKey :=
  if eqIgnoreAsciiCase part "scroll_up".toList then some .scrollUp
  else if eqIgnoreAsciiCase part "scroll_down".toList then some .scrollDown
  else if eqIgnoreAsciiCase part "catch_all".toList then some .catchAll
  else if eqIgnoreAsciiCase part "space".toList then some (.unicode ' ')
  else
    match part with
    | [c] => some (.unicode c)
    | _ => none

/-- A part that names a physical key. -/
def physicalPart (part : List Char) : Except KeymapTriggerError (Option KeymapPhysicalKey) :=
  if part = "physical:zero".toList then .ok (some .digit0)
  else KeymapPhysicalKey.parse (String.ofList part)

/-- A part that is no modifier, `keymap.rs:449–480`. -/
def keyPart (part : List Char) : Except KeymapTriggerError KeymapTriggerKey := do
  match ← physicalPart part with
  | some key => pure (.physical key)
  | none => context (namedKey part) .invalidFormat

/-- One part of a trigger. -/
def addPart (parsed : KeymapModifiers × Option KeymapTriggerKey) (part : List Char) :
    Except KeymapTriggerError (KeymapModifiers × Option KeymapTriggerKey) :=
  match modifierParts.lookup (String.ofList part) with
  | some (modifier, none) => do
    let modifiers ← setModifier parsed.1 modifier
    pure (modifiers, parsed.2)
  | some (modifier, some side) => do
    let modifiers ← setSidedModifier parsed.1 modifier side
    pure (modifiers, parsed.2)
  | none => do
    let key ← keyPart part
    if parsed.2.isSome then .error .invalidFormat else pure (parsed.1, some key)

namespace KeymapTrigger

/-- `from_str`. -/
def fromStr (input : List Char) : Except KeymapTriggerError KeymapTrigger := do
  ensure (!input.isEmpty) .invalidFormat
  let parts ← splitTriggerParts input
  let (modifiers, key) ← parts.foldlM addPart ({}, none)
  let key ← context key .invalidFormat
  pure ⟨modifiers, key⟩

end KeymapTrigger

example : (KeymapTrigger.fromStr "right_shift+ctrl++".toList).map KeymapTrigger.formatEntry =
    .ok "ctrl+right_shift++".toList := by decide +kernel

end Bootty.Config
