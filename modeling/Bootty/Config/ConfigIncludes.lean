import Bootty.Base.Fallible
import Bootty.Base.TableOverlay
import Mathlib.Algebra.GroupWithZero.Nat
import Mathlib.Data.Finset.Card

/-!
# Config files that include others

Model of `load_config_graph` and its traversal (`crates/bootty-config/src/config/load.rs:241–363,
414–428, 464–518`). The traversal is a depth-first walk that loads each file once. The document that
it makes of the files has under every path the value of the last file, in order of their first
visits, that has one.
-/

namespace Bootty.Config

open Bootty.Base

/-- A value of a config file that is no table, as far as includes tell values apart. -/
inductive TomlValue where
  | string (text : String)
  | array (items : List TomlValue)
  | other (text : String)

/-- A document of a TOML file. -/
abbrev TomlDocument := TableDocument String TomlValue

/-- What `fs::read_to_string` comes to. -/
inductive FileRead where
  | notFound
  | failed (error : String)
  | text (source : String)

/-- The files of a host, its paths, and the parser of `toml_edit`. -/
structure ConfigFiles where
  /-- `fs::canonicalize`. -/
  canonicalize : String → Option String
  /-- A canonical path is the canonical path of its file. -/
  canonicalize_canonical : ∀ path canonical,
    canonicalize path = some canonical → canonicalize canonical = some canonical
  readToString : String → FileRead
  parse : String → Except String TomlDocument
  /-- `Path::parent`. -/
  parent : String → Option String
  isAbsolute : String → Bool
  /-- `Path::join`. -/
  join : String → String → String

/-- `load.rs:15–27`. -/
structure ConfigLoadError where
  message : String
  deriving DecidableEq

/-- `load.rs:72–78`. -/
structure ConfigDocument where
  document : TomlDocument := .empty
  source : Option String := none

/-- `load.rs:491–494`. -/
structure IncludePath where
  path : String
  optional : Bool

namespace IncludePath

/-- `load.rs:497–508`. -/
def parse (input : String) : IncludePath :=
  match input.toList with
  | '?' :: path => ⟨String.ofList path, true⟩
  | _ => ⟨input, false⟩

/-- `load.rs:510–517`. -/
def resolve (included : IncludePath) (files : ConfigFiles) (baseDir : String) : String :=
  if files.isAbsolute included.path then included.path else files.join baseDir included.path

end IncludePath

/-- `load.rs:282–287`. -/
structure ConfigGraphTraversal where
  stack : List String := []
  loaded : List String := []
  paths : List String := []

namespace ConfigFiles

variable (files : ConfigFiles)

/-- `load.rs:487–489`. -/
def configFileId (path : String) : String := (files.canonicalize path).getD path

/-- `load.rs:241–262`. -/
def loadConfigDocument (path : String) : Except ConfigLoadError (Option ConfigDocument) :=
  match files.readToString path with
  | .notFound => .ok none
  | .failed error => .error ⟨"failed to read config file " ++ path ++ ": " ++ error⟩
  | .text source =>
    match files.parse source with
    | .error error => .error ⟨"failed to parse config file " ++ path ++ ": " ++ error⟩
    | .ok document => .ok (some ⟨document, some source⟩)

/-- `load.rs:267–275`. -/
def loadOrCreateConfigDocument (path : String) : Except ConfigLoadError ConfigDocument :=
  (files.loadConfigDocument path).map (·.getD {})

end ConfigFiles

/-- `load.rs:464–485`. -/
def configDocumentIncludes (document : TomlDocument) (path : String) :
    Except ConfigLoadError (List String) :=
  match document.get "include" with
  | none => .ok []
  | some (.value (.array items)) =>
    items.mapM fun
      | .string text => .ok text
      | _ => .error ⟨"failed to parse config file " ++ path ++
          ": include must contain only strings"⟩
  | some _ =>
    .error ⟨"failed to parse config file " ++ path ++ ": include must be an array of strings"⟩

/-- What a step of the traversal comes to; there is none where the recursion is cut off. -/
abbrev Traversed := Option (Except ConfigLoadError TomlDocument × ConfigGraphTraversal)

namespace ConfigGraphTraversal

variable (files : ConfigFiles)

/-- The files that a file includes are laid over it in order, `load.rs:349–358`. -/
def mergeAll (load : ConfigGraphTraversal → String → Bool → Traversed) (baseDir : String) :
    ConfigGraphTraversal → TomlDocument → List String → Traversed
  | traversal, document, [] => some (.ok document, traversal)
  | traversal, document, input :: inputs =>
    let included := IncludePath.parse input
    match load traversal (included.resolve files baseDir) included.optional with
    | none => none
    | some (.error error, traversal) => some (.error error, traversal)
    | some (.ok overlay, traversal) =>
      mergeAll load baseDir traversal (document.merge overlay) inputs

/-- `load.rs:340–362`. -/
def mergeIncludes (load : ConfigGraphTraversal → String → Bool → Traversed)
    (traversal : ConfigGraphTraversal) (path id : String) (document : TomlDocument) : Traversed :=
  match configDocumentIncludes document path with
  | .error error => some (.error error, traversal)
  | .ok includes =>
    let baseDir := (files.parent path).getD "."
    match mergeAll files load baseDir { traversal with stack := traversal.stack ++ [id] } document
        includes with
    | none => none
    | some (.error error, traversal) => some (.error error, traversal)
    | some (.ok document, traversal) =>
      some (.ok document,
        { traversal with stack := traversal.stack.dropLast, loaded := id :: traversal.loaded })

/-- `load.rs:315–338`, to a depth. -/
def loadMergedDocument : Nat → ConfigGraphTraversal → String → Bool → Traversed
  | 0, _, _, _ => none
  | depth + 1, traversal, path, optional =>
    let id := files.configFileId path
    let traversal := { traversal with paths := traversal.paths ++ [id] }
    if id ∈ traversal.stack then
      some (.error ⟨"config include cycle detected at " ++ path⟩, traversal)
    else if id ∈ traversal.loaded then some (.ok .empty, traversal)
    else
      match files.loadConfigDocument path with
      | .error error => some (.error error, traversal)
      | .ok none =>
        if optional then some (.ok .empty, traversal)
        else some (.error ⟨"config file not found: " ++ path⟩, traversal)
      | .ok (some document) =>
        mergeIncludes files (loadMergedDocument depth) traversal path id document.document

/-- `load.rs:305–313`. -/
def mergeRootDocument (depth : Nat) (traversal : ConfigGraphTraversal) (path : String)
    (document : TomlDocument) : Traversed :=
  let id := files.configFileId path
  mergeIncludes files (loadMergedDocument files depth)
    { traversal with paths := traversal.paths ++ [id] } path id document

end ConfigGraphTraversal

/-- The paths of a snapshot, `load.rs:43–51`; their order and the stamps of the files are left
out. -/
def snapshotPaths (files : ConfigFiles) (paths : List String) : List String :=
  (paths.map files.configFileId).dedup

/-- `load.rs:277–280`. -/
structure ConfigGraphLoad where
  document : Except ConfigLoadError (ConfigDocument × TomlDocument)
  snapshot : List String

/-- `load.rs:289–302`. -/
def loadConfigGraph (files : ConfigFiles) (depth : Nat) (path : String) : Option ConfigGraphLoad :=
  let traversal : ConfigGraphTraversal := { paths := [files.configFileId path] }
  match files.loadOrCreateConfigDocument path with
  | .error error => some ⟨.error error, snapshotPaths files traversal.paths⟩
  | .ok document =>
    (traversal.mergeRootDocument files depth path document.document).map
      fun (merged, traversal) ↦
        ⟨merged.map fun merged ↦ (document, merged), snapshotPaths files traversal.paths⟩

/-! ### The walk -/

/-- The paths that a file includes, and whether these may be missing. -/
def ConfigFiles.includesOf (files : ConfigFiles) (path : String) (document : TomlDocument) :
    Except ConfigLoadError (List (String × Bool)) :=
  (configDocumentIncludes document path).map fun inputs ↦ inputs.map fun input ↦
    let included := IncludePath.parse input
    (included.resolve files ((files.parent path).getD "."), included.optional)

/-- The depth-first walk over some included paths below the files of a stack, where some files have
been seen: the files that it visits for the first time, each before those that it includes, and the
files that have been seen after it. -/
inductive Walks (files : ConfigFiles) : List String → List String → List (String × Bool) →
    List (String × TomlDocument) → List String → Prop
  | nil {stack seen : List String} : Walks files stack seen [] [] seen
  | repeated {stack seen seen' : List String} {path : String} {optional : Bool}
      {rest : List (String × Bool)} {visited : List (String × TomlDocument)} :
      files.configFileId path ∉ stack → files.configFileId path ∈ seen →
      Walks files stack seen rest visited seen' →
      Walks files stack seen ((path, optional) :: rest) visited seen'
  | absent {stack seen seen' : List String} {path : String} {rest : List (String × Bool)}
      {visited : List (String × TomlDocument)} :
      files.configFileId path ∉ stack → files.configFileId path ∉ seen →
      files.loadConfigDocument path = .ok none → Walks files stack seen rest visited seen' →
      Walks files stack seen ((path, true) :: rest) visited seen'
  | visit {stack seen seen' seen'' : List String} {path : String} {optional : Bool}
      {rest inner : List (String × Bool)} {visited visited' : List (String × TomlDocument)}
      {document : ConfigDocument} :
      files.configFileId path ∉ stack → files.configFileId path ∉ seen →
      files.loadConfigDocument path = .ok (some document) →
      files.includesOf path document.document = .ok inner →
      Walks files (stack ++ [files.configFileId path]) seen inner visited seen' →
      Walks files stack (files.configFileId path :: seen') rest visited' seen'' →
      Walks files stack seen ((path, optional) :: rest)
        ((path, document.document) :: (visited ++ visited')) seen''

/-- The walk meets a file of its stack, a file that must not be missing and is, or a malformed
file. -/
inductive WalkFails (files : ConfigFiles) : List String → List String → List (String × Bool) → Prop
  | cycle {stack seen : List String} {path : String} {optional : Bool}
      {rest : List (String × Bool)} : files.configFileId path ∈ stack →
      WalkFails files stack seen ((path, optional) :: rest)
  | missing {stack seen : List String} {path : String} {rest : List (String × Bool)} :
      files.configFileId path ∉ stack → files.configFileId path ∉ seen →
      files.loadConfigDocument path = .ok none → WalkFails files stack seen ((path, false) :: rest)
  | malformed {stack seen : List String} {path : String} {optional : Bool}
      {rest : List (String × Bool)} {error : ConfigLoadError} :
      files.configFileId path ∉ stack → files.configFileId path ∉ seen →
      files.loadConfigDocument path = .error error →
      WalkFails files stack seen ((path, optional) :: rest)
  | malformedIncludes {stack seen : List String} {path : String} {optional : Bool}
      {rest : List (String × Bool)} {document : ConfigDocument} {error : ConfigLoadError} :
      files.configFileId path ∉ stack → files.configFileId path ∉ seen →
      files.loadConfigDocument path = .ok (some document) →
      files.includesOf path document.document = .error error →
      WalkFails files stack seen ((path, optional) :: rest)
  | inside {stack seen : List String} {path : String} {optional : Bool}
      {rest inner : List (String × Bool)} {document : ConfigDocument} :
      files.configFileId path ∉ stack → files.configFileId path ∉ seen →
      files.loadConfigDocument path = .ok (some document) →
      files.includesOf path document.document = .ok inner →
      WalkFails files (stack ++ [files.configFileId path]) seen inner →
      WalkFails files stack seen ((path, optional) :: rest)
  | later {stack seen seen' : List String} {included : String × Bool}
      {rest : List (String × Bool)} {visited : List (String × TomlDocument)} :
      Walks files stack seen [included] visited seen' → WalkFails files stack seen' rest →
      WalkFails files stack seen (included :: rest)

/-- A file is named by one of some paths, or by an include of a visited file. -/
def Named (files : ConfigFiles) (includes : List (String × Bool))
    (visited : List (String × TomlDocument)) (id : String) : Prop :=
  (∃ included ∈ includes, id = files.configFileId included.1) ∨
    ∃ file ∈ visited, ∃ inner, files.includesOf file.1 file.2 = .ok inner ∧
      ∃ included ∈ inner, id = files.configFileId included.1

variable {files : ConfigFiles}

variable {stack seen seen' : List String} {visited visited' : List (String × TomlDocument)}

private theorem Walks.append {seen'' : List String} {xs ys : List (String × Bool)}
    (h : Walks files stack seen xs visited seen') (h' : Walks files stack seen' ys visited' seen'')
    :
    Walks files stack seen (xs ++ ys) (visited ++ visited') seen'' := by
  induction h with
  | nil => exact h'
  | repeated hstack hseen _ ih => exact .repeated hstack hseen (ih h')
  | absent hstack hseen hload _ ih => exact .absent hstack hseen hload (ih h')
  | visit hstack hseen hload hincludes hinner _ _ ih =>
    rw [List.cons_append, List.cons_append, List.append_assoc]
    exact .visit hstack hseen hload hincludes hinner (ih h')

variable {includes : List (String × Bool)}

/-- There is one walk. -/
theorem Walks.unique {seen'' : List String} (h : Walks files stack seen includes visited seen')
    (h' : Walks files stack seen includes visited' seen'') :
    visited = visited' ∧ seen' = seen'' := by
  induction h generalizing visited' seen'' with
  | nil =>
    cases h'
    exact ⟨rfl, rfl⟩
  | repeated _ hseen _ ih =>
    cases h' with
    | repeated _ _ hrest => exact ih hrest
    | absent _ hnot => exact absurd hseen hnot
    | visit _ hnot => exact absurd hseen hnot
  | absent _ hnot hload _ ih =>
    cases h' with
    | repeated _ hseen => exact absurd hseen hnot
    | absent _ _ _ hrest => exact ih hrest
    | visit _ _ hload' => rw [hload] at hload'; cases hload'
  | visit _ hnot hload hincludes _ _ ihInner ih =>
    cases h' with
    | repeated _ hseen => exact absurd hseen hnot
    | absent _ _ hload' => rw [hload] at hload'; cases hload'
    | visit _ _ hload' hincludes' hinner hrest =>
      rw [hload] at hload'
      cases hload'
      rw [hincludes] at hincludes'
      cases hincludes'
      have ⟨hvisited, hseen⟩ := ihInner hinner
      subst hvisited hseen
      have ⟨hvisited, hseen⟩ := ih hrest
      subst hvisited hseen
      exact ⟨rfl, rfl⟩

/-- A walk that comes to its end does not fail. -/
theorem WalkFails.not_walks (h : WalkFails files stack seen includes) :
    ¬Walks files stack seen includes visited seen' := by
  induction h generalizing visited seen' with
  | cycle hstack => intro hwalks; cases hwalks <;> contradiction
  | missing _ hseen hload =>
    intro hwalks
    cases hwalks with
    | repeated _ hmem => exact hseen hmem
    | visit _ _ hload' => rw [hload] at hload'; cases hload'
  | malformed _ hseen hload =>
    intro hwalks
    cases hwalks with
    | repeated _ hmem => exact hseen hmem
    | absent _ _ hload' => rw [hload] at hload'; cases hload'
    | visit _ _ hload' => rw [hload] at hload'; cases hload'
  | malformedIncludes _ hseen hload hincludes =>
    intro hwalks
    cases hwalks with
    | repeated _ hmem => exact hseen hmem
    | absent _ _ hload' => rw [hload] at hload'; cases hload'
    | visit _ _ hload' hincludes' =>
      rw [hload] at hload'
      cases hload'
      rw [hincludes] at hincludes'
      cases hincludes'
  | inside _ hseen hload hincludes _ ih =>
    intro hwalks
    cases hwalks with
    | repeated _ hmem => exact hseen hmem
    | absent _ _ hload' => rw [hload] at hload'; cases hload'
    | visit _ _ hload' hincludes' hinner =>
      rw [hload] at hload'
      cases hload'
      rw [hincludes] at hincludes'
      cases hincludes'
      exact ih hinner
  | later hfirst _ ih =>
    intro hwalks
    cases hwalks with
    | repeated hstack hmem hrest =>
      have ⟨_, hsame⟩ := hfirst.unique (.repeated hstack hmem .nil)
      exact ih (hsame ▸ hrest)
    | absent hstack hmem hload hrest =>
      have ⟨_, hsame⟩ := hfirst.unique (.absent hstack hmem hload .nil)
      exact ih (hsame ▸ hrest)
    | visit hstack hmem hload hincludes hinner hrest =>
      have ⟨_, hsame⟩ := hfirst.unique (.visit hstack hmem hload hincludes hinner .nil)
      exact ih (hsame ▸ hrest)

/-- No file is visited twice, and none that has been seen. -/
theorem Walks.fresh (h : Walks files stack seen includes visited seen') :
    (visited.map fun file ↦ files.configFileId file.1).Nodup ∧
      (∀ id ∈ visited.map fun file ↦ files.configFileId file.1, id ∉ stack ∧ id ∉ seen) ∧
      ∀ id, id ∈ seen' ↔ id ∈ seen ∨ id ∈ visited.map fun file ↦ files.configFileId file.1 := by
  induction h with
  | nil => simp
  | repeated _ _ _ ih => exact ih
  | absent _ _ _ _ ih => exact ih
  | @visit stack seen seen' seen'' path _ _ _ visited visited' _ hstack hseen _ _ _ _ ihInner ih =>
    have ⟨hinnerNodup, hinnerFresh, hinnerSeen⟩ := ihInner
    have ⟨hrestNodup, hrestFresh, hrestSeen⟩ := ih
    simp only [List.map_cons, List.map_append, List.nodup_cons, List.nodup_append, List.mem_append,
      List.mem_cons, List.not_mem_nil, or_false, not_or] at *
    refine ⟨⟨⟨fun hmem ↦ (hinnerFresh _ hmem).1.2 rfl, fun hmem ↦ (hrestFresh _ hmem).2.1 rfl⟩,
      hinnerNodup, hrestNodup, fun id hmem other hother heq ↦ ?_⟩, fun id hmem ↦ ?_, fun id ↦ ?_⟩
    · refine (hrestFresh other hother).2.2 ((hinnerSeen other).mpr (.inr (heq ▸ hmem)))
    · rcases hmem with rfl | hmem | hmem
      · exact ⟨hstack, hseen⟩
      · exact ⟨(hinnerFresh id hmem).1.1, (hinnerFresh id hmem).2⟩
      · exact ⟨(hrestFresh id hmem).1, fun hold ↦
          (hrestFresh id hmem).2.2 ((hinnerSeen id).mpr (.inl hold))⟩
    · rw [hrestSeen, hinnerSeen]
      tauto

/-! ### The traversal -/

/-- A step of the traversal does what the walk over some paths does: it fails where the walk does,
and where it does not, it records what the walk visits and names, and makes a document of the
visited ones. -/
structure Outcome (files : ConfigFiles) (traversal : ConfigGraphTraversal)
    (includes : List (String × Bool)) (makes : List TomlDocument → TomlDocument → Prop)
    (answer : Except ConfigLoadError TomlDocument) (after : ConfigGraphTraversal) : Prop where
  fails : ∀ error, answer = .error error →
    WalkFails files traversal.stack traversal.loaded includes
  walks : ∀ merged, answer = .ok merged → ∃ visited,
    Walks files traversal.stack traversal.loaded includes visited after.loaded ∧
      after.stack = traversal.stack ∧
      (∀ id, id ∈ after.paths ↔ id ∈ traversal.paths ∨ Named files includes visited id) ∧
      makes (visited.map Prod.snd) merged

/-- A document is made of visited ones alone, or of a document that they are laid over. -/
def MadeOf (documents : List TomlDocument) (merged : TomlDocument) : Prop :=
  TableDocument.Consistent documents → TableDocument.Overlays documents merged

/-- The merged document is the overlay of some documents over the first. -/
def MadeOver (document : TomlDocument) (documents : List TomlDocument) (merged : TomlDocument) :
    Prop :=
  ∀ front, TableDocument.Overlays front document → MadeOf (front ++ documents) merged

private theorem WalkFails.cons {stack seen : List String} {included : String × Bool}
    (h : WalkFails files stack seen [included]) (rest : List (String × Bool)) :
    WalkFails files stack seen (included :: rest) := by
  cases h with
  | cycle hstack => exact .cycle hstack
  | missing hstack hseen hload => exact .missing hstack hseen hload
  | malformed hstack hseen hload => exact .malformed hstack hseen hload
  | malformedIncludes hstack hseen hload hincludes =>
    exact .malformedIncludes hstack hseen hload hincludes
  | inside hstack hseen hload hincludes hinner => exact .inside hstack hseen hload hincludes hinner
  | later _ hrest => cases hrest

private theorem named_cons {included : String × Bool} {rest : List (String × Bool)} {id : String} :
    Named files (included :: rest) (visited ++ visited') id ↔
      Named files [included] visited id ∨ Named files rest visited' id := by
  simp only [Named, List.exists_mem_cons_iff, List.mem_append, List.not_mem_nil, false_and,
    exists_false, or_false, or_and_right, exists_or]
  exact or_or_or_comm

/-- What is included is laid over the document in order. -/
theorem mergeAll_outcome {load : ConfigGraphTraversal → String → Bool → Traversed}
    (hload : ∀ traversal path optional, traversal.stack = stack → ∃ answer after,
      load traversal path optional = some (answer, after) ∧
        Outcome files traversal [(path, optional)] MadeOf answer after) (baseDir : String)
    (inputs : List String) (traversal : ConfigGraphTraversal) (hstack : traversal.stack = stack)
    (document : TomlDocument) :
    ∃ answer after,
      traversal.mergeAll files load baseDir document inputs = some (answer, after) ∧
        Outcome files traversal
          (inputs.map fun input ↦
            ((IncludePath.parse input).resolve files baseDir, (IncludePath.parse input).optional))
          (MadeOver document) answer after := by
  induction inputs generalizing traversal document with
  | nil =>
    refine ⟨_, _, rfl, ?_, fun merged hmerged ↦ ⟨[], .nil, rfl, fun id ↦ ?_, ?_⟩⟩
    · intro error herror
      cases herror
    · simp [Named]
    · intro front hfront _
      rw [← Except.ok.inj hmerged, List.map_nil, List.append_nil]
      exact hfront
  | cons input inputs ih =>
    have ⟨answer, middle, hrun, hfirst⟩ := hload traversal
      ((IncludePath.parse input).resolve files baseDir) (IncludePath.parse input).optional hstack
    rw [ConfigGraphTraversal.mergeAll, hrun, List.map_cons]
    cases answer with
    | error error =>
      refine ⟨_, _, rfl, fun _ _ ↦ (hfirst.fails error rfl).cons _, fun merged hmerged ↦ ?_⟩
      cases hmerged
    | ok overlay =>
      have ⟨visited, hwalks, hsame, hpaths, hoverlay⟩ := hfirst.walks overlay rfl
      have ⟨answer, after, hrun', hrest⟩ := ih middle (hsame.trans hstack) (document.merge overlay)
      refine ⟨answer, after, hrun', fun error herror ↦ ?_, fun merged hmerged ↦ ?_⟩
      · have hfails := hrest.fails error herror
        rw [hsame] at hfails
        exact .later hwalks hfails
      · have ⟨visited', hwalks', hsame', hpaths', hmerge⟩ := hrest.walks merged hmerged
        rw [hsame] at hwalks'
        refine ⟨visited ++ visited', hwalks.append hwalks', hsame'.trans hsame, fun id ↦ ?_, ?_⟩
        · rw [hpaths', hpaths, named_cons, or_assoc]
        · intro front hfront hconsistent
          rw [List.map_append, ← List.append_assoc] at hconsistent ⊢
          refine hmerge _ (hfront.merge (hoverlay ?_) ?_) hconsistent
          · exact hconsistent.sublist fun other hmem ↦
              List.mem_append_left _ (List.mem_append_right _ hmem)
          · exact hconsistent.sublist fun other hmem ↦ List.mem_append_left _ hmem

variable {path : String}

private theorem named_visit {optional : Bool} {document : TomlDocument}
    {inner : List (String × Bool)}
    (hinner : files.includesOf path document = .ok inner) {id : String} :
    Named files [(path, optional)] ((path, document) :: visited) id ↔
      id = files.configFileId path ∨ Named files inner visited id := by
  simp [Named, hinner]

variable {document : ConfigDocument}

/-- A file that was read is a visit of the walk, or the walk fails in it. -/
theorem mergeIncludes_outcome {load : ConfigGraphTraversal → String → Bool → Traversed}
    {traversal : ConfigGraphTraversal} (hload : ∀ traversal' path' optional,
      traversal'.stack = traversal.stack ++ [files.configFileId path] → ∃ answer after,
        load traversal' path' optional = some (answer, after) ∧
          Outcome files traversal' [(path', optional)] MadeOf answer after)
    (hstack : files.configFileId path ∉ traversal.stack)
    (hseen : files.configFileId path ∉ traversal.loaded)
    (hdocument : files.loadConfigDocument path = .ok (some document)) (optional : Bool) :
    ∃ answer after,
      ({ traversal with paths := traversal.paths ++ [files.configFileId path] }).mergeIncludes files
          load path (files.configFileId path) document.document = some (answer, after) ∧
        Outcome files traversal [(path, optional)] MadeOf answer after := by
  unfold ConfigGraphTraversal.mergeIncludes
  cases hinputs : configDocumentIncludes document.document path with
  | error error =>
    have hincludes : files.includesOf path document.document = .error error := by
      rw [ConfigFiles.includesOf, hinputs]
      rfl
    refine ⟨_, _, rfl, fun _ _ ↦ .malformedIncludes hstack hseen hdocument hincludes,
      fun merged hmerged ↦ ?_⟩
    cases hmerged
  | ok inputs =>
    let start : ConfigGraphTraversal := ⟨traversal.stack ++ [files.configFileId path],
      traversal.loaded, traversal.paths ++ [files.configFileId path]⟩
    let baseDir := (files.parent path).getD "."
    have hincludes : files.includesOf path document.document = .ok (inputs.map fun input ↦
        ((IncludePath.parse input).resolve files baseDir, (IncludePath.parse input).optional)) := by
      rw [ConfigFiles.includesOf, hinputs]
      rfl
    have ⟨answer, after, hrun, hinner⟩ :=
      mergeAll_outcome hload baseDir inputs start rfl document.document
    simp only [start, baseDir] at hrun
    simp only [hrun]
    cases answer with
    | error error =>
      refine ⟨_, _, rfl, fun _ _ ↦ .inside hstack hseen hdocument hincludes
        (hinner.fails error rfl), fun merged hmerged ↦ ?_⟩
      cases hmerged
    | ok merged =>
      have ⟨visited, hwalks, hsame, hpaths, hmade⟩ := hinner.walks merged rfl
      refine ⟨_, _, rfl, ?_, fun other hother ↦ ?_⟩
      · intro error herror
        cases herror
      rw [← Except.ok.inj hother]
      refine ⟨(path, document.document) :: visited, ?_, ?_, fun id ↦ ?_, ?_⟩
      · have hvisit : Walks files traversal.stack traversal.loaded [(path, optional)] _ _ :=
          .visit hstack hseen hdocument hincludes hwalks .nil
        rwa [List.append_nil] at hvisit
      · simp only [hsame, start, List.dropLast_concat]
      · rw [named_visit hincludes, hpaths]
        simp only [start, List.mem_append, List.mem_singleton, or_assoc]
      · exact hmade [document.document] (TableDocument.overlays_singleton _)

variable {ids : Finset String}

private theorem mem_of_loadConfigDocument
    (hfinite : ∀ path source, files.readToString path = .text source →
      files.configFileId path ∈ ids) (h : files.loadConfigDocument path = .ok (some document)) :
    files.configFileId path ∈ ids := by
  unfold ConfigFiles.loadConfigDocument at h
  split at h
  · cases h
  · cases h
  · next source hread => exact hfinite path source hread

/-- A step to a depth that suffices does what the walk does. -/
theorem loadMergedDocument_outcome
    (hfinite : ∀ path source, files.readToString path = .text source →
      files.configFileId path ∈ ids) {depth : Nat} {traversal : ConfigGraphTraversal}
    (hnodup : traversal.stack.Nodup) (hsubset : ∀ id ∈ traversal.stack, id ∈ ids)
    (hdepth : ids.card < depth + traversal.stack.length) (path : String) (optional : Bool) :
    ∃ answer after,
      traversal.loadMergedDocument files depth path optional = some (answer, after) ∧
        Outcome files traversal [(path, optional)] MadeOf answer after := by
  induction depth generalizing traversal path optional with
  | zero =>
    -- a stack of different files is no longer than all files are many
    have hcard : traversal.stack.toFinset.card ≤ ids.card :=
      Finset.card_le_card fun id hmem ↦ hsubset id (List.mem_toFinset.mp hmem)
    rw [List.toFinset_card_of_nodup hnodup] at hcard
    omega
  | succ depth ih =>
    have hpaths (visited : List (String × TomlDocument)) (hvisited : visited = []) (id : String) :
        id ∈ traversal.paths ++ [files.configFileId path] ↔
          id ∈ traversal.paths ∨ Named files [(path, optional)] visited id := by
      simp [Named, hvisited]
    have hempty : MadeOf [] TableDocument.empty := fun _ ↦ TableDocument.overlays_nil
    unfold ConfigGraphTraversal.loadMergedDocument
    by_cases hstack : files.configFileId path ∈ traversal.stack
    · rw [if_pos hstack]
      refine ⟨_, _, rfl, fun _ _ ↦ .cycle hstack, fun merged hmerged ↦ ?_⟩
      cases hmerged
    rw [if_neg hstack]
    by_cases hseen : files.configFileId path ∈ traversal.loaded
    · rw [if_pos hseen]
      refine ⟨_, _, rfl, ?_, fun merged hmerged ↦ ?_⟩
      · intro error herror
        cases herror
      rw [← Except.ok.inj hmerged]
      exact ⟨[], .repeated hstack hseen .nil, rfl, hpaths [] rfl, hempty⟩
    rw [if_neg hseen]
    cases hdocument : files.loadConfigDocument path with
    | error error =>
      refine ⟨_, _, rfl, fun _ _ ↦ .malformed hstack hseen hdocument, fun merged hmerged ↦ ?_⟩
      cases hmerged
    | ok found =>
      cases found with
      | none =>
        cases optional with
        | false =>
          refine ⟨_, _, rfl, fun _ _ ↦ .missing hstack hseen hdocument, fun merged hmerged ↦ ?_⟩
          cases hmerged
        | true =>
          refine ⟨_, _, rfl, ?_, fun merged hmerged ↦ ?_⟩
          · intro error herror
            cases herror
          rw [← Except.ok.inj hmerged]
          exact ⟨[], .absent hstack hseen hdocument .nil, rfl, hpaths [] rfl, hempty⟩
      | some document =>
        refine mergeIncludes_outcome (fun inner path' optional' hinner ↦ ?_) hstack hseen hdocument
          optional
        have hid := mem_of_loadConfigDocument hfinite hdocument
        refine ih ?_ ?_ ?_ path' optional'
        · rw [hinner]
          rw [← List.concat_eq_append]
          exact hnodup.concat hstack
        · intro id hmem
          rw [hinner] at hmem
          rcases List.mem_append.mp hmem with hmem | hmem
          · exact hsubset id hmem
          · exact List.mem_singleton.mp hmem ▸ hid
        · rw [hinner, List.length_append, List.length_singleton]
          omega

private theorem configFileId_configFileId (files : ConfigFiles) (path : String) :
    files.configFileId (files.configFileId path) = files.configFileId path := by
  unfold ConfigFiles.configFileId
  cases hcanonical : files.canonicalize path with
  | none => simp [hcanonical]
  | some canonical => simp [files.canonicalize_canonical path canonical hcanonical]

private theorem mem_snapshotPaths {paths : List String}
    (hpaths : ∀ id ∈ paths, ∃ path, id = files.configFileId path) (id : String) :
    id ∈ snapshotPaths files paths ↔ id ∈ paths := by
  have hsame : paths.map files.configFileId = paths := by
    refine (List.map_congr_left fun id hmem ↦ ?_).trans (List.map_id paths)
    have ⟨path, hpath⟩ := hpaths id hmem
    rw [hpath, configFileId_configFileId, id_eq]
  rw [snapshotPaths, List.mem_dedup, hsame]

private theorem Named.configFileId {id : String} (h : Named files includes visited id) :
    ∃ path, id = files.configFileId path := by
  rcases h with ⟨included, _, hid⟩ | ⟨_, _, _, _, included, _, hid⟩
  · exact ⟨included.1, hid⟩
  · exact ⟨included.1, hid⟩

/-- A root file that was read is walked from an empty stack. -/
theorem mergeRootDocument_outcome (hfinite : ∀ path source, files.readToString path = .text source →
      files.configFileId path ∈ ids) {depth : Nat} (hdepth : ids.card ≤ depth)
    (hdocument : files.loadConfigDocument path = .ok (some document)) :
    ∃ answer after,
      ({ paths := [files.configFileId path] } : ConfigGraphTraversal).mergeRootDocument files depth
          path document.document = some (answer, after) ∧
        Outcome files { paths := [files.configFileId path] } [(path, true)] MadeOf answer
          after := by
  refine mergeIncludes_outcome (fun inner path' optional hinner ↦ ?_) List.not_mem_nil
    List.not_mem_nil hdocument true
  refine loadMergedDocument_outcome hfinite ?_ ?_ ?_ path' optional
  · rw [hinner]
    exact List.nodup_singleton _
  · intro id hmem
    rw [hinner] at hmem
    exact List.mem_singleton.mp hmem ▸ mem_of_loadConfigDocument hfinite hdocument
  · rw [hinner]
    exact Nat.lt_succ_of_le hdepth

/-- Loading a config file ends, and it fails exactly where the walk from the file does, in which the
file itself may be missing. Where it does not fail, no file is visited twice, every path has the
value of the last visited file with one, if none has a table there, and the snapshot lists the file
and all that the visited files include. -/
theorem loadConfigGraph_overlays (files : ConfigFiles) {ids : Finset String}
    (hfinite : ∀ path source, files.readToString path = .text source →
      files.configFileId path ∈ ids) {depth : Nat} (hdepth : ids.card ≤ depth) (path : String) :
    ∃ load, loadConfigGraph files depth path = some load ∧
      ((∃ error, load.document = .error error) ↔ WalkFails files [] [] [(path, true)]) ∧
      ∀ document merged, load.document = .ok (document, merged) → ∃ visited seen,
        Walks files [] [] [(path, true)] visited seen ∧
        (visited.map fun file ↦ files.configFileId file.1).Nodup ∧
        (TableDocument.Consistent (visited.map Prod.snd) →
          ∀ key, merged.valueAt key = TableDocument.lastValue (visited.map Prod.snd) key) ∧
        ∀ id, id ∈ load.snapshot ↔ Named files [(path, true)] visited id := by
  unfold loadConfigGraph ConfigFiles.loadOrCreateConfigDocument
  cases hdocument : files.loadConfigDocument path with
  | error error =>
    refine ⟨_, rfl, ?_, fun document merged hmerged ↦ ?_⟩
    · exact ⟨fun _ ↦ .malformed List.not_mem_nil List.not_mem_nil hdocument, fun _ ↦ ⟨error, rfl⟩⟩
    · cases hmerged
  | ok found =>
    cases found with
    | none =>
      have hwalks : Walks files [] [] [(path, true)] [] [] :=
        .absent List.not_mem_nil List.not_mem_nil hdocument .nil
      refine ⟨_, rfl, ⟨?_, fun hfails ↦ absurd hwalks hfails.not_walks⟩,
        fun document merged hmerged ↦ ⟨[], [], hwalks, List.nodup_nil, fun _ ↦ ?_, fun id ↦ ?_⟩⟩
      · intro ⟨error, herror⟩
        cases herror
      · cases hmerged
        exact TableDocument.overlays_nil.values
      · have hpaths : ∀ id ∈ [files.configFileId path] ++ [files.configFileId path],
            ∃ path, id = files.configFileId path := by simp
        rw [mem_snapshotPaths hpaths]
        simp [Named]
    | some document =>
      have ⟨answer, after, hrun, hfails, hmakes⟩ :=
        mergeRootDocument_outcome hfinite hdepth hdocument
      refine ⟨⟨answer.map fun merged ↦ (document, merged), snapshotPaths files after.paths⟩, ?_,
        ⟨?_, ?_⟩, ?_⟩
      · exact congrArg (Option.map fun (merged, traversal) ↦
          ConfigGraphLoad.mk (merged.map fun merged ↦ (document, merged))
            (snapshotPaths files traversal.paths)) hrun
      · intro ⟨error, herror⟩
        cases answer with
        | error error => exact hfails error rfl
        | ok merged => cases herror
      · intro hwalk
        cases answer with
        | error error => exact ⟨error, rfl⟩
        | ok merged =>
          have ⟨visited, hwalks, _⟩ := hmakes merged rfl
          exact absurd hwalks hwalk.not_walks
      · intro document' merged' hmerged
        cases answer with
        | error error => cases hmerged
        | ok merged =>
          cases hmerged
          have ⟨visited, hwalks, _, hpaths, hmade⟩ := hmakes _ rfl
          have ⟨hnodup, _⟩ := hwalks.fresh
          refine ⟨visited, after.loaded, hwalks, hnodup, fun h ↦ (hmade h).values, fun id ↦ ?_⟩
          have hid : ∀ id ∈ after.paths, ∃ path, id = files.configFileId path := by
            intro id hmem
            rcases (hpaths id).mp hmem with hmem | hmem
            · exact ⟨path, List.mem_singleton.mp hmem⟩
            · exact hmem.configFileId
          rw [mem_snapshotPaths hid, hpaths]
          refine or_iff_right_of_imp fun hmem ↦ ?_
          exact .inl ⟨_, List.mem_singleton_self _, List.mem_singleton.mp hmem⟩

/-- A file that includes two files, of which the first one includes the other, and one that is
missing. -/
def sampleFiles : ConfigFiles where
  canonicalize := some
  canonicalize_canonical _ _ _ := rfl
  readToString path := if path ∈ ["main", "keys", "fonts"] then .text path else .notFound
  parse source :=
    .ok <| if source = "main" then
      .single "include" (.array [.string "keys", .string "fonts", .string "?gone"])
    else if source = "keys" then .single "include" (.array [.string "fonts"])
    else .single "font" (.string "mono")
  parent _ := none
  isAbsolute _ := false
  join _ path := path

/-- A configuration that includes another one. -/
theorem loadConfigGraph_overlays_sample :
    ∃ load, loadConfigGraph sampleFiles 3 "main" = some load ∧
      ((∃ error, load.document = .error error) ↔ WalkFails sampleFiles [] [] [("main", true)]) ∧
      ∀ document merged, load.document = .ok (document, merged) → ∃ visited seen,
        Walks sampleFiles [] [] [("main", true)] visited seen ∧
        (visited.map fun file ↦ sampleFiles.configFileId file.1).Nodup ∧
        (TableDocument.Consistent (visited.map Prod.snd) →
          ∀ key, merged.valueAt key = TableDocument.lastValue (visited.map Prod.snd) key) ∧
        ∀ id, id ∈ load.snapshot ↔ Named sampleFiles [("main", true)] visited id := by
  refine @loadConfigGraph_overlays sampleFiles {"main", "keys", "fonts"} ?_ 3 (by decide) "main"
  intro path source hread
  by_cases hpath : path ∈ ["main", "keys", "fonts"]
  · simpa [ConfigFiles.configFileId, sampleFiles] using hpath
  · have hmissing : sampleFiles.readToString path = .notFound := if_neg hpath
    rw [hmissing] at hread
    cases hread

end Bootty.Config
