import Bootty.Base.ByteOffsets
import Bootty.Base.Json

/-!
# Keymap texts

Model of `crates/bootty-config/src/keymap_file.rs:792–1100`: removing comments and trailing commas
from a keymap, finding the elements of its root array, and putting, replacing and removing the
text of one element. Positions are byte offsets into the sanitized copy, which has the length of
the text.
-/

namespace Bootty.Config

open Bootty.Base

variable {N : Type}

/-- `keymap_file.rs:440–448`. -/
inductive KeymapParseError where
  | unterminatedBlockComment
  | rootMustBeArray
  | json
  deriving DecidableEq

/-- `keymap_file.rs:532–544`; printing a value does not fail. -/
inductive KeymapEditError where
  | parse (error : KeymapParseError)
  | bindingNotFound
  | missingUnbindAction
  | missingSection (index : Nat)
  deriving DecidableEq

/-! ### Comments and trailing commas, `keymap_file.rs:913–1011` -/

/-- Whether the scanners are outside of strings, inside one, or behind a backslash in one. -/
inductive QuoteMode where
  | code | string | escaped
  deriving DecidableEq

/-- The mode behind a character. -/
def QuoteMode.step : QuoteMode → Char → QuoteMode
  | .code, c => if c = '"' then .string else .code
  | .string, c => if c = '\\' then .escaped else if c = '"' then .code else .string
  | .escaped, _ => .string

/-- Where `strip_jsonc_comments` is. -/
inductive StripMode where
  | quote (mode : QuoteMode)
  | line
  | block
  deriving DecidableEq

/-- The loops of `strip_jsonc_comments`; `none` is an unterminated comment. -/
def stripFrom : StripMode → List Char → Option (List Char)
  | .block, [] => none
  | _, [] => some []
  | .quote .code, '/' :: '/' :: rest => (stripFrom .line rest).map (' ' :: ' ' :: ·)
  | .quote .code, '/' :: '*' :: rest => (stripFrom .block rest).map (' ' :: ' ' :: ·)
  | .quote mode, c :: rest => (stripFrom (.quote (mode.step c)) rest).map (c :: ·)
  | .line, c :: rest =>
    if c = '\n' then (stripFrom (.quote .code) rest).map ('\n' :: ·)
    else (stripFrom .line rest).map (List.replicate c.utf8Size ' ' ++ ·)
  | .block, '*' :: '/' :: rest => (stripFrom (.quote .code) rest).map (' ' :: ' ' :: ·)
  | .block, c :: rest =>
    if c = '\n' then (stripFrom .block rest).map ('\n' :: ·)
    else (stripFrom .block rest).map (List.replicate c.utf8Size ' ' ++ ·)

/-- `strip_jsonc_comments`. -/
def stripJsoncComments (contents : List Char) : Except KeymapParseError (List Char) :=
  match stripFrom (.quote .code) contents with
  | none => .error .unterminatedBlockComment
  | some stripped => .ok stripped

/-- The next character that is not a space ends an array or an object. -/
def closes (rest : List Char) : Bool :=
  match rest.find? (!isAsciiWhitespace ·) with
  | some c => c == ']' || c == '\x7d'
  | none => false

/-- The loop of `remove_trailing_commas`. -/
def removeTrailingCommasFrom : QuoteMode → List Char → List Char
  | _, [] => []
  | mode, c :: rest =>
    if mode = .code ∧ c = ',' ∧ closes rest then ' ' :: removeTrailingCommasFrom .code rest
    else c :: removeTrailingCommasFrom (mode.step c) rest

/-- `remove_trailing_commas`. -/
def removeTrailingCommas (contents : List Char) : List Char :=
  removeTrailingCommasFrom .code contents

/-- `sanitize_jsonc`. -/
def sanitizeJsonc (contents : List Char) : Except KeymapParseError (List Char) :=
  (stripJsoncComments contents).map removeTrailingCommas

example : sanitizeJsonc "[1, /*,*/] // é".toList = .ok "[1       ]      ".toList := by
  decide +kernel

/-! ### The root array, `keymap_file.rs:1013–1100` -/

/-- The loop of `matching_delimiter` from the byte `index` on. -/
def matchingDelimiterFrom (left right : Char) : Nat → Nat → QuoteMode → List Char → Option Nat
  | _, _, _, [] => none
  | index, depth, mode, c :: rest =>
    let index' := index + c.utf8Size
    if mode = .code ∧ c = left then
      matchingDelimiterFrom left right index' (depth + 1) .code rest
    else if mode = .code ∧ c = right then
      if depth = 0 then none
      else if depth = 1 then some index
      else matchingDelimiterFrom left right index' (depth - 1) .code rest
    else matchingDelimiterFrom left right index' depth (mode.step c) rest

/-- `matching_delimiter`. -/
def matchingDelimiter (contents : List Char) (opening : Nat) (left right : Char) : Option Nat :=
  matchingDelimiterFrom left right opening 0 .code (dropBytes opening contents)

/-- `root_array_bounds`. -/
def rootArrayBounds (contents : List Char) : Except KeymapEditError (Nat × Nat) :=
  let opening := byteLength (contents.takeWhile isAsciiWhitespace)
  if (contents.dropWhile isAsciiWhitespace).head? = some '[' then
    match matchingDelimiter contents opening '[' ']' with
    | none => .error (.parse .rootMustBeArray)
    | some close => .ok (opening, close)
  else .error (.parse .rootMustBeArray)

/-- The text without the spaces at its end. -/
def trimEnd (text : List Char) : List Char :=
  (text.reverse.dropWhile isAsciiWhitespace).reverse

/-- `trimmed_range`. -/
def trimmedRange (contents : List Char) (start stop : Nat) : Option (Nat × Nat) :=
  let slice := sliceBytes start stop contents
  if slice.all isAsciiWhitespace then none
  else
    some (start + byteLength (slice.takeWhile isAsciiWhitespace),
      start + byteLength (trimEnd slice))

/-- The loop of `root_array_elements` over the bytes in front of `close`. -/
def elementsFrom (contents : List Char) (close : Nat) :
    Nat → Nat → Nat → Nat → QuoteMode → List Char → List (Nat × Nat)
  | _, start, _, _, _, [] => (trimmedRange contents start close).toList
  | index, start, objectDepth, arrayDepth, mode, c :: rest =>
    let index' := index + c.utf8Size
    if mode = .code then
      match c with
      | '\x7b' => elementsFrom contents close index' start (objectDepth + 1) arrayDepth .code rest
      | '\x7d' => elementsFrom contents close index' start (objectDepth - 1) arrayDepth .code rest
      | '[' => elementsFrom contents close index' start objectDepth (arrayDepth + 1) .code rest
      | ']' => elementsFrom contents close index' start objectDepth (arrayDepth - 1) .code rest
      | ',' =>
        if objectDepth = 0 ∧ arrayDepth = 0 then
          (trimmedRange contents start index).toList ++
            elementsFrom contents close index' (index + 1) objectDepth arrayDepth .code rest
        else elementsFrom contents close index' start objectDepth arrayDepth .code rest
      | c => elementsFrom contents close index' start objectDepth arrayDepth (mode.step c) rest
    else elementsFrom contents close index' start objectDepth arrayDepth (mode.step c) rest

/-- `root_array_elements`. -/
def rootArrayElements (contents : List Char) : Except KeymapEditError (List (Nat × Nat)) :=
  match rootArrayBounds contents with
  | .error error => .error error
  | .ok (opening, close) =>
    .ok (elementsFrom contents close (opening + 1) (opening + 1) 0 0 .code
      (sliceBytes (opening + 1) close contents))

example : rootArrayElements " [1, [2,3] ,\"é,\"]".toList = .ok [(2, 3), (5, 10), (12, 17)] := by
  decide +kernel

/-! ### Splices, `keymap_file.rs:792–911` -/

/-- `indent_lines`. -/
def indentLines (value : List Char) (width : Nat) : List Char :=
  match lines value with
  | [] => []
  | first :: rest =>
    List.intercalate ['\n'] (first :: rest.map (List.replicate width ' ' ++ ·))

/-- `line_column`. -/
def lineColumn (contents : List Char) (offset : Nat) : Nat :=
  byteLength ((takeBytes offset contents).reverse.takeWhile (· ≠ '\n'))

/-- `append_section`, of the JSON of the section. -/
def appendSection (numbers : Json.Numbers N) (contents : List Char) (json : Json N) :
    Except KeymapEditError (List Char) :=
  match stripJsoncComments contents with
  | .error error => .error (.parse error)
  | .ok commentsRemoved =>
    let sanitized := removeTrailingCommas commentsRemoved
    match rootArrayBounds sanitized with
    | .error error => .error error
    | .ok (opening, close) =>
      let indented := indentLines (json.pretty numbers 0) 2
      let hasElements := (sliceBytes (opening + 1) close sanitized).any (!isAsciiWhitespace ·)
      let hasTrailingComma :=
        (takeBytes close commentsRemoved).reverse.find? (!isAsciiWhitespace ·) == some ','
      let insertion :=
        if hasElements then (if hasTrailingComma then [] else [',']) ++ '\n' :: indented
        else '\n' :: (indented ++ ['\n'])
      .ok (insertStr contents close insertion)

/-- `replace_section`, by the JSON of the section. -/
def replaceSection (numbers : Json.Numbers N) (contents : List Char) (sourceIndex : Nat)
    (json : Json N) : Except KeymapEditError (List Char) :=
  match sanitizeJsonc contents with
  | .error error => .error (.parse error)
  | .ok sanitized =>
    match rootArrayElements sanitized with
    | .error error => .error error
    | .ok elements =>
      match elements[sourceIndex]? with
      | none => .error (.missingSection sourceIndex)
      | some (start, stop) =>
        let replacement :=
          indentLines (json.pretty numbers 0) (lineColumn contents start)
        .ok (replaceRange contents start stop replacement)

/-- `remove_section`. -/
def removeSection (contents : List Char) (sourceIndex : Nat) :
    Except KeymapEditError (List Char) :=
  match sanitizeJsonc contents with
  | .error error => .error (.parse error)
  | .ok sanitized =>
    match rootArrayElements sanitized with
    | .error error => .error error
    | .ok elements =>
      match elements[sourceIndex]? with
      | none => .error (.missingSection sourceIndex)
      | some (start, stop) =>
        if elements.length = 1 then .ok (replaceRange contents start stop [])
        else
          match elements[sourceIndex + 1]? with
          | some (next, _) => .ok (replaceRange contents start next [])
          | none =>
            match elements[sourceIndex - 1]? with
            | none => .error (.missingSection sourceIndex)
            | some (_, previous) => .ok (replaceRange contents previous stop [])

end Bootty.Config
