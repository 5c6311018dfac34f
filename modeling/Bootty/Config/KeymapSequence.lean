import Bootty.Config.KeymapSpelling

/-!
# Keymap sequences

Model of `crates/bootty-config/src/keymap.rs:521–703`: the flags of a sequence, its printer
`format_entry` and its parser `parse_keymap_sequence`, which accepts steps separated by white
space or by `>` and modifiers joined by `+` or by `-`. The quoting of `{:?}` in error texts is a
parameter.
-/

namespace Bootty.Config

open Bootty.Base

/-- `keymap.rs:523–528`. -/
structure KeymapBindingFlags where
  consumed : Bool := true
  all : Bool := false
  global : Bool := false
  performable : Bool := false
  deriving DecidableEq

/-- `keymap.rs:549–553`. -/
structure KeymapSequence where
  triggers : List KeymapTrigger
  flags : KeymapBindingFlags
  deriving DecidableEq

/-- `KeymapSequenceError`. -/
inductive KeymapSequenceError where
  | empty
  | flaggedChord
  | duplicateFlag (flag : String)
  | invalidKeystroke (source : List Char)
  deriving DecidableEq

/-- Its `Display`. -/
def KeymapSequenceError.message (debug : String → String) : KeymapSequenceError → String
  | .empty => "keystroke sequence cannot be empty"
  | .flaggedChord => "global/all trigger flags cannot be used with a chord"
  | .duplicateFlag flag => "duplicate trigger flag " ++ debug flag
  | .invalidKeystroke source => "invalid keystroke " ++ debug (String.ofList source)

/-! ### Printing, `keymap.rs:555–579` -/

namespace KeymapSequence

/-- The flags, in the order in which they are printed. -/
def formatFlags (flags : KeymapBindingFlags) : List Char :=
  [(flags.performable, "performable"), (flags.global, "global"), (flags.all, "all"),
    (!flags.consumed, "unconsumed")].flatMap fun (enabled, name) ↦
      if enabled then name.toList ++ [':'] else []

/-- The triggers, with spaces between them. -/
def formatTriggers (triggers : List KeymapTrigger) : List Char :=
  [' '].intercalate (triggers.map KeymapTrigger.formatEntry)

/-- `format_entry`. -/
def formatEntry (sequence : KeymapSequence) : String :=
  String.ofList (formatFlags sequence.flags ++ formatTriggers sequence.triggers)

end KeymapSequence

/-! ### Parsing, `keymap.rs:601–703` -/

/-- One arm of `parse_sequence_flags`; `none` for a text that is no flag. -/
def setFlag (flags : KeymapBindingFlags) (flag : String) :
    Option (Except KeymapSequenceError KeymapBindingFlags) :=
  if flag = "performable" then
    some (if flags.performable then .error (.duplicateFlag flag)
      else .ok { flags with performable := true })
  else if flag = "global" then
    some (if flags.global then .error (.duplicateFlag flag)
      else .ok { flags with global := true })
  else if flag = "all" then
    some (if flags.all then .error (.duplicateFlag flag) else .ok { flags with all := true })
  else if flag = "unconsumed" then
    some (if flags.consumed then .ok { flags with consumed := false }
      else .error (.duplicateFlag flag))
  else none

/-- The loop of `parse_sequence_flags`. -/
def parseSequenceFlags (flags : KeymapBindingFlags) (source : List Char) :
    Except KeymapSequenceError (KeymapBindingFlags × List Char) :=
  match _h : splitOnceAt ':' source with
  | none => .ok (flags, source)
  | some (flag, tail) =>
    match setFlag flags (String.ofList flag) with
    | none => .ok (flags, source)
    | some (.error error) => .error error
    | some (.ok flags) => parseSequenceFlags flags tail
termination_by source.length
decreasing_by
  rw [(splitOnceAt_eq_some _h).1, List.length_append, List.length_cons]
  omega

/-- The arms of `normalize_modifier`. -/
def legacyNames : List (String × String) :=
  [("shift", "shift"), ("ctrl", "ctrl"), ("control", "ctrl"), ("alt", "alt"), ("opt", "alt"),
   ("option", "alt"), ("cmd", "cmd"), ("command", "cmd"), ("super", "cmd"), ("win", "cmd")]

/-- `normalize_modifier`. -/
def normalizeModifier (value : String) : Option String := legacyNames.lookup value

/-- The loop of `parse_legacy_trigger`: modifiers that end with a hyphen, and the rest. -/
def legacyModifiers (rest : List Char) : List String × List Char :=
  match _h : splitOnceAt '-' rest with
  | none => ([], rest)
  | some (candidate, tail) =>
    match normalizeModifier (String.ofList candidate) with
    | none => ([], rest)
    | some modifier =>
      let (modifiers, rest) := legacyModifiers tail
      (modifier :: modifiers, rest)
termination_by rest.length
decreasing_by
  rw [(splitOnceAt_eq_some _h).1, List.length_append, List.length_cons]
  omega

/-- `parse_legacy_trigger`. -/
def parseLegacyTrigger (source : List Char) : Except KeymapSequenceError KeymapTrigger :=
  match KeymapTrigger.fromStr source with
  | .ok trigger => .ok trigger
  | .error _ =>
    let (modifiers, rest) := legacyModifiers source
    if modifiers.isEmpty || rest.isEmpty then .error (.invalidKeystroke source)
    else
      match KeymapTrigger.fromStr (joinParts (modifiers.map String.toList) rest) with
      | .ok trigger => .ok trigger
      | .error _ => .error (.invalidKeystroke source)

/-- The loop of `split_legacy_triggers`: `>` ends a step that is a complete trigger. -/
def splitSteps (step : List Char) : List Char → List (List Char)
  | [] => [step]
  | c :: rest =>
    if c = '>' ∧ (parseLegacyTrigger step).isOk then step :: splitSteps [] rest
    else splitSteps (step ++ [c]) rest

/-- `split_legacy_triggers`. -/
def splitLegacyTriggers (source : List Char) : List (List Char) := splitSteps [] source

/-- `parse_keymap_sequence`. -/
def parseKeymapSequence (source : String) : Except KeymapSequenceError KeymapSequence := do
  let (flags, source) ← parseSequenceFlags {} source.toList
  let triggers ←
    ((splitAsciiWhitespace source).flatMap splitLegacyTriggers).mapM parseLegacyTrigger
  ensure (!triggers.isEmpty) .empty
  ensure (!(1 < triggers.length && (flags.global || flags.all))) .flaggedChord
  pure ⟨triggers, flags⟩

example : (parseKeymapSequence "performable:unconsumed:left_ctrl+right_alt+a ctrl-b").map
    KeymapSequence.formatEntry =
      .ok "performable:unconsumed:left_ctrl+right_alt+a ctrl+b" := by decide +kernel

example : (parseKeymapSequence "ctrl+->alt+>").map KeymapSequence.formatEntry =
    .ok "ctrl+- alt+>" := by decide +kernel

/-! ### What is accepted -/

private theorem spellsSpace_joinParts {parts : List (List Char)} {last : List Char}
    (h : ∀ part ∈ parts, ¬SpellsSpace part) :
    SpellsSpace (joinParts parts last) ↔ SpellsSpace last := by
  induction parts with
  | nil => rfl
  | cons part parts ih =>
    rw [joinParts, spellsSpace_append_cons (by decide),
      ih fun p hp ↦ h p (List.mem_cons_of_mem _ hp)]
    exact or_iff_right (h part List.mem_cons_self)

variable {c : Char}

private theorem mem_joinParts {parts : List (List Char)} {last : List Char}
    (h : c ∈ joinParts parts last) : c = '+' ∨ (∃ part ∈ parts, c ∈ part) ∨ c ∈ last := by
  induction parts with
  | nil => exact .inr (.inr h)
  | cons part parts ih =>
    rw [joinParts, List.mem_append, List.mem_cons] at h
    rcases h with hpart | rfl | hrest
    · exact .inr (.inl ⟨part, List.mem_cons_self, hpart⟩)
    · exact .inl rfl
    · rcases ih hrest with hplus | ⟨p, hp, hc⟩ | hlast
      · exact .inl hplus
      · exact .inr (.inl ⟨p, List.mem_cons_of_mem _ hp, hc⟩)
      · exact .inr (.inr hlast)

private theorem normalizeModifier_some {value modifier : String}
    (h : normalizeModifier value = some modifier) :
    ¬SpellsSpace value.toList ∧ ¬SpellsSpace modifier.toList ∧
      ∀ c ∈ modifier.toList, isAsciiWhitespace c = false := by
  have hnames : ∀ entry ∈ legacyNames, ¬SpellsSpace entry.1.toList ∧
      ¬SpellsSpace entry.2.toList ∧ ∀ c ∈ entry.2.toList, isAsciiWhitespace c = false := by
    decide +kernel
  exact hnames _ (mem_of_lookup h)

private theorem legacyModifiers_spec (source : List Char) :
    (SpellsSpace source ↔ SpellsSpace (legacyModifiers source).2) ∧
      (∀ c ∈ (legacyModifiers source).2, c ∈ source) ∧
      ∀ modifier ∈ (legacyModifiers source).1, ¬SpellsSpace modifier.toList ∧
        ∀ c ∈ modifier.toList, isAsciiWhitespace c = false := by
  fun_induction legacyModifiers source with
  | case1 => simp
  | case2 => simp
  | case3 rest candidate tail hsplit modifier hmodifier modifiers rest' hrec =>
    rename_i ih
    have ⟨htext, _⟩ := splitOnceAt_eq_some hsplit
    have ⟨hcandidate, hfree, hwhite⟩ := normalizeModifier_some hmodifier
    rw [String.toList_ofList] at hcandidate
    rw [hrec] at ih
    have ⟨hspells, hmem, hnames⟩ := ih
    refine ⟨?_, ?_, ?_⟩
    · rw [htext, spellsSpace_append_cons (by decide), or_iff_right hcandidate, hspells]
    · intro c hc
      rw [htext]
      exact List.mem_append_right _ (List.mem_cons_of_mem _ (hmem c hc))
    · intro name hname
      rcases List.mem_cons.mp hname with rfl | hname
      · exact ⟨hfree, hwhite⟩
      · exact hnames name hname

/-- What is known of a trigger that was read from a text without white space. -/
structure ReadFrom (source : List Char) (trigger : KeymapTrigger) : Prop where
  consistent : trigger.modifiers.Consistent
  space : trigger.key = .unicode ' ' ↔ SpellsSpace source
  character : ∀ c, trigger.key = .unicode c → c = ' ' ∨ isAsciiWhitespace c = false

variable {source : List Char} {trigger : KeymapTrigger}

private theorem readFrom_of_fromStr (h : KeymapTrigger.fromStr source = .ok trigger)
    (hfree : ∀ c ∈ source, isAsciiWhitespace c = false) : ReadFrom source trigger := by
  have hspace : ' ' ∉ source := fun hmem ↦ Bool.noConfusion (hfree ' ' hmem)
  have ⟨hconsistent, hspells, hcharacter⟩ := KeymapTrigger.fromStr_ok h hspace
  exact ⟨hconsistent, hspells, fun c hc ↦ (hcharacter c hc).imp id (hfree c)⟩

private theorem readFrom_of_parseLegacyTrigger (h : parseLegacyTrigger source = .ok trigger)
    (hfree : ∀ c ∈ source, isAsciiWhitespace c = false) : ReadFrom source trigger := by
  have ⟨hspells, hrest, hnames⟩ := legacyModifiers_spec source
  unfold parseLegacyTrigger at h
  split at h
  · next hdirect =>
    obtain rfl := Except.ok.inj h
    exact readFrom_of_fromStr hdirect hfree
  simp only at h
  split at h
  · cases h
  split at h
  · next hnormalized =>
    obtain rfl := Except.ok.inj h
    have hread := readFrom_of_fromStr hnormalized (by
      intro c hc
      rcases mem_joinParts hc with rfl | ⟨part, hpart, hc⟩ | hc
      · rfl
      · have ⟨name, hname, heq⟩ := List.mem_map.mp hpart
        exact (hnames name hname).2 c (heq ▸ hc)
      · exact hfree c (hrest c hc))
    refine ⟨hread.consistent, ?_, hread.character⟩
    rw [hread.space, hspells, spellsSpace_joinParts]
    intro part hpart
    have ⟨name, hname, heq⟩ := List.mem_map.mp hpart
    exact heq ▸ (hnames name hname).1
  · cases h

variable {text : List Char}

private theorem spellsSpace_splitSteps {step : List Char} :
    SpellsSpace (step ++ text) ↔ ∃ found ∈ splitSteps step text, SpellsSpace found := by
  fun_induction splitSteps step text with
  | case1 step => simp
  | case2 step c rest hsep ih =>
    rw [hsep.1, spellsSpace_append_cons (by decide), ← List.nil_append rest, ih]
    simp
  | case3 step c rest hsep ih =>
    rw [← ih, List.append_assoc]
    rfl

private theorem mem_of_splitSteps {step found : List Char} (hfound : found ∈ splitSteps step text)
    (hc : c ∈ found) : c ∈ step ++ text := by
  fun_induction splitSteps step text with
  | case1 step =>
    rw [List.mem_singleton] at hfound
    subst hfound
    simpa using hc
  | case2 step x rest hsep ih =>
    rcases List.mem_cons.mp hfound with rfl | hmem
    · simp [hc]
    · have := ih hmem
      simp_all
  | case3 step x rest hsep ih =>
    have := ih hfound
    rw [List.append_assoc] at this
    exact this

private theorem spellsSpace_nil : ¬SpellsSpace [] := by decide

private theorem splitOnP_spec (text : List Char) :
    (SpellsSpace text ↔ ∃ token ∈ text.splitOnP isAsciiWhitespace, SpellsSpace token) ∧
      ∀ token ∈ text.splitOnP isAsciiWhitespace, ∀ c ∈ token, isAsciiWhitespace c = false := by
  induction hn : text.length using Nat.strong_induction_on generalizing text with
  | _ n ih =>
    by_cases hwhite : ∀ c ∈ text, isAsciiWhitespace c = false
    · rw [List.splitOnP_eq_singleton hwhite]
      simpa using hwhite
    · simp only [not_forall, Bool.not_eq_false] at hwhite
      have ⟨c, hmem, hc⟩ := hwhite
      have ⟨front, rest, htext⟩ := List.append_of_mem hmem
      have hsep : c ∈ separators := by
        revert hc
        simp only [isAsciiWhitespace, separators, Bool.or_eq_true, beq_iff_eq, List.mem_cons]
        tauto
      have hlength : front.length + (rest.length + 1) = n := by
        rw [← hn, htext, List.length_append, List.length_cons]
      subst htext
      have ⟨hfront, hfrontFree⟩ := ih front.length (by omega) front rfl
      have ⟨hrest, hrestFree⟩ := ih rest.length (by omega) rest rfl
      rw [List.splitOnP_append_cons _ _ hc, spellsSpace_append_cons hsep, hfront, hrest]
      constructor
      · simp only [List.mem_append, or_and_right, exists_or]
      · intro token htoken
        exact (List.mem_append.mp htoken).elim (hfrontFree token) (hrestFree token)

private theorem spellsSpace_splitAsciiWhitespace (text : List Char) :
    SpellsSpace text ↔ ∃ token ∈ splitAsciiWhitespace text, SpellsSpace token := by
  rw [(splitOnP_spec text).1]
  constructor
  · rintro ⟨token, hmem, hspells⟩
    refine ⟨token, List.mem_filter.mpr ⟨hmem, ?_⟩, hspells⟩
    cases token with
    | nil => exact absurd hspells spellsSpace_nil
    | cons c cs => rfl
  · rintro ⟨token, hmem, hspells⟩
    exact ⟨token, (List.mem_filter.mp hmem).1, hspells⟩

variable {flags : KeymapBindingFlags} {rest : List Char}

private theorem spellsSpace_parseSequenceFlags {flags' : KeymapBindingFlags}
    (h : parseSequenceFlags flags source = .ok (flags', rest)) :
    SpellsSpace source ↔ SpellsSpace rest := by
  fun_induction parseSequenceFlags flags source with
  | case1 | case2 =>
    obtain ⟨_, rfl⟩ := Prod.mk.inj (Except.ok.inj h)
    rfl
  | case3 => cases h
  | case4 flags source flag tail hsplit next hflag ih =>
    have ⟨htext, _⟩ := splitOnceAt_eq_some hsplit
    have hname : ¬SpellsSpace flag := by
      have hnames : ∀ name ∈ ["performable", "global", "all", "unconsumed"],
          ¬SpellsSpace name.toList := by decide +kernel
      rw [← String.toList_ofList (l := flag)]
      apply hnames
      unfold setFlag at hflag
      repeat' split at hflag
      all_goals simp_all
    rw [htext, spellsSpace_append_cons (by decide), or_iff_right hname]
    exact ih h

/-- What is known of a sequence that the parser accepted. -/
structure KeymapSequence.Accepted (sequence : KeymapSequence) : Prop where
  consistent : ∀ trigger ∈ sequence.triggers, trigger.modifiers.Consistent
  character : ∀ trigger ∈ sequence.triggers, ∀ c, trigger.key = .unicode c →
    c = ' ' ∨ isAsciiWhitespace c = false
  nonempty : sequence.triggers ≠ []
  unflagged : 1 < sequence.triggers.length → ¬sequence.flags.global ∧ ¬sequence.flags.all

variable {triggers : List KeymapTrigger}

private theorem readFrom_steps {steps : List (List Char)}
    (h : List.Forall₂ (fun step trigger ↦ parseLegacyTrigger step = .ok trigger) steps triggers)
    (hfree : ∀ step ∈ steps, ∀ c ∈ step, isAsciiWhitespace c = false) :
    (∀ trigger ∈ triggers, ∃ step, ReadFrom step trigger) ∧
      ((∃ trigger ∈ triggers, trigger.key = .unicode ' ') ↔
        ∃ step ∈ steps, SpellsSpace step) := by
  induction h with
  | nil => simp
  | cons hstep _ ih =>
    have hread := readFrom_of_parseLegacyTrigger hstep (hfree _ List.mem_cons_self)
    have ⟨hall, hspace⟩ := ih fun step hmem ↦ hfree step (List.mem_cons_of_mem _ hmem)
    constructor
    · intro trigger htrigger
      rcases List.mem_cons.mp htrigger with rfl | hmem
      · exact ⟨_, hread⟩
      · exact hall trigger hmem
    · simp only [List.mem_cons, exists_eq_or_imp, hspace, hread.space]

variable {sequence : KeymapSequence}

/-- The keys of an accepted sequence are the space character where its text spells it. -/
theorem parseKeymapSequence_ok {source : String} (h : parseKeymapSequence source = .ok sequence) :
    sequence.Accepted ∧ ((∃ trigger ∈ sequence.triggers, trigger.key = .unicode ' ') ↔
      SpellsSpace source.toList) := by
  simp only [parseKeymapSequence, bind_eq_ok, ensure_eq_ok, pure_eq_ok] at h
  obtain ⟨⟨flags, rest⟩, hflags, triggers, htriggers, _, hnonempty, _, hchord, heq⟩ := h
  subst heq
  have hsteps := forall₂_of_mapM_eq_ok htriggers
  have hfree : ∀ step ∈ (splitAsciiWhitespace rest).flatMap splitLegacyTriggers,
      ∀ c ∈ step, isAsciiWhitespace c = false := by
    intro step hstep c hc
    obtain ⟨token, htoken, hmem⟩ := List.mem_flatMap.mp hstep
    exact (splitOnP_spec rest).2 token (List.mem_filter.mp htoken).1 c (mem_of_splitSteps hmem hc)
  obtain ⟨hread, hspace⟩ := readFrom_steps hsteps hfree
  constructor
  · constructor
    · intro trigger htrigger
      obtain ⟨_, hstep⟩ := hread trigger htrigger
      exact hstep.consistent
    · intro trigger htrigger
      obtain ⟨_, hstep⟩ := hread trigger htrigger
      exact hstep.character
    · rintro rfl
      cases hnonempty
    · intro hlong
      simp only at hlong
      simpa [hlong] using hchord
  · rw [hspace, spellsSpace_parseSequenceFlags hflags, spellsSpace_splitAsciiWhitespace rest]
    simp only [List.mem_flatMap, splitLegacyTriggers]
    constructor
    · rintro ⟨step, ⟨token, htoken, hmem⟩, hspells⟩
      exact ⟨token, htoken, spellsSpace_splitSteps.mpr ⟨step, hmem, hspells⟩⟩
    · rintro ⟨token, htoken, hspells⟩
      obtain ⟨step, hmem, hstep⟩ :=
        spellsSpace_splitSteps.mp (show SpellsSpace ([] ++ token) from hspells)
      exact ⟨step, ⟨token, htoken, hmem⟩, hstep⟩

/-! ### Reading a printed sequence -/

private def flagNames : List String := ["performable", "global", "all", "unconsumed"]

private theorem setFlag_eq_none {flag : String} (h : flag ∉ flagNames) :
    setFlag flags flag = none := by
  simp only [flagNames, List.mem_cons, List.not_mem_nil, or_false, not_or] at h
  simp [setFlag, h]

private theorem parseSequenceFlags_flag {flags' : KeymapBindingFlags} {flag : String}
    {tail : List Char} (hflag : flag ∈ flagNames) (h : setFlag flags flag = some (.ok flags')) :
    parseSequenceFlags flags (flag.toList ++ [':'] ++ tail) = parseSequenceFlags flags' tail := by
  have hnames : ∀ name ∈ flagNames, ':' ∉ name.toList := by decide +kernel
  have hsplit : splitOnceAt ':' (flag.toList ++ [':'] ++ tail) = some (flag.toList, tail) := by
    rw [List.append_assoc]
    exact splitOnceAt_append_cons (hnames flag hflag)
  rw [parseSequenceFlags]
  split
  · next hnone => rw [hsplit] at hnone; cases hnone
  · next found rest hfound =>
    rw [hsplit] at hfound
    obtain ⟨rfl, rfl⟩ := Prod.mk.inj (Option.some.inj hfound)
    rw [String.ofList_toList, h]

/-- A text that does not begin with a flag. -/
private def Unflagged (text : List Char) : Prop :=
  ∀ flag ∈ flagNames, ¬flag.toList ++ [':'] <+: text

private theorem parseSequenceFlags_unflagged (h : Unflagged text) :
    parseSequenceFlags flags text = .ok (flags, text) := by
  rw [parseSequenceFlags]
  split
  · rfl
  · next flag tail hsplit =>
    have ⟨htext, _⟩ := splitOnceAt_eq_some hsplit
    rw [setFlag_eq_none]
    intro hflag
    apply h _ hflag
    rw [String.toList_ofList, htext]
    exact ⟨tail, by simp⟩

private theorem parseSequenceFlags_formatFlags (h : Unflagged text) :
    parseSequenceFlags {} (KeymapSequence.formatFlags flags ++ text) = .ok (flags, text) := by
  obtain ⟨consumed, all, global, performable⟩ := flags
  have hperformable : ∀ tail, parseSequenceFlags {}
      ((if performable then "performable".toList ++ [':'] else []) ++ tail) =
        parseSequenceFlags { performable } tail := by
    intro tail
    cases performable
    · rfl
    · exact parseSequenceFlags_flag (by simp [flagNames]) rfl
  have hglobal : ∀ tail, parseSequenceFlags { performable }
      ((if global then "global".toList ++ [':'] else []) ++ tail) =
        parseSequenceFlags { performable, global } tail := by
    intro tail
    cases global
    · rfl
    · exact parseSequenceFlags_flag (by simp [flagNames]) rfl
  have hall : ∀ tail, parseSequenceFlags { performable, global }
      ((if all then "all".toList ++ [':'] else []) ++ tail) =
        parseSequenceFlags { performable, global, all } tail := by
    intro tail
    cases all
    · rfl
    · exact parseSequenceFlags_flag (by simp [flagNames]) rfl
  have hconsumed : ∀ tail, parseSequenceFlags { performable, global, all }
      ((if !consumed then "unconsumed".toList ++ [':'] else []) ++ tail) =
        parseSequenceFlags { performable, global, all, consumed } tail := by
    intro tail
    cases consumed
    · exact parseSequenceFlags_flag (by simp [flagNames]) rfl
    · rfl
  simp only [KeymapSequence.formatFlags, List.flatMap_cons, List.flatMap_nil, List.append_nil,
    List.append_assoc]
  rw [hperformable, hglobal, hall, hconsumed, parseSequenceFlags_unflagged h]

private theorem find?_eq_none_of_plain (h : ∀ c ∈ text, c ∉ separators) :
    text.find? (· ∈ separators) = none := by
  rw [List.find?_eq_none]
  simpa using h

/-- The first separator of a flag is its colon. A printed trigger has another one first, or
begins with it. -/
private theorem unflagged_formatEntry (trigger : KeymapTrigger)
    (hrest : rest = [] ∨ ∃ more, rest = ' ' :: more) :
    Unflagged (trigger.formatEntry ++ rest) := by
  rintro flag hflag ⟨tail, htail⟩
  have hflags : ∀ name ∈ flagNames, name.toList ≠ [] ∧ ∀ c ∈ name.toList, c ∉ separators := by
    decide +kernel
  obtain ⟨hne, hplain⟩ := hflags flag hflag
  have hfirst : (trigger.formatEntry ++ rest).find? (· ∈ separators) = some ':' := by
    rw [← htail, List.append_assoc, List.find?_append, find?_eq_none_of_plain hplain]
    rfl
  have hlast : rest.find? (· ∈ separators) ≠ some ':' := by
    rcases hrest with rfl | ⟨more, rfl⟩
    · simp
    · simp [separators]
  rw [trigger.formatEntry_eq] at hfirst htail
  cases hmodifiers : modifierTexts trigger.modifiers with
  | cons part parts =>
    have hpart := modifierTexts_plain (hmodifiers ▸ List.mem_cons_self : part ∈ _)
    rw [hmodifiers, joinParts, List.append_assoc, List.find?_append,
      find?_eq_none_of_plain hpart.2] at hfirst
    simp [separators] at hfirst
  | nil =>
    rw [hmodifiers, joinParts] at hfirst htail
    rcases trigger.key.text_plain with ⟨c, hkey⟩ | ⟨_, hkey⟩
    · have htext : trigger.key.text = [c] := by
        rw [hkey]
        rfl
      rw [htext] at hfirst htail
      by_cases hc : c = ':'
      · obtain ⟨x, xs, hflag⟩ := List.exists_cons_of_ne_nil hne
        rw [hflag, hc] at htail
        have hx : x = ':' := (List.cons.inj htail).1
        rw [hflag, hx] at hplain
        exact hplain ':' List.mem_cons_self (by decide)
      · by_cases hsep : c ∈ separators
        · simp [hsep, hc] at hfirst
        · rw [List.find?_append, find?_eq_none_of_plain (by simpa using hsep)] at hfirst
          exact hlast hfirst
    · rw [List.find?_append, find?_eq_none_of_plain hkey] at hfirst
      exact hlast hfirst

private theorem unflagged_formatTriggers (h : triggers ≠ []) :
    Unflagged (KeymapSequence.formatTriggers triggers) := by
  have ⟨trigger, rest, htriggers⟩ := List.exists_cons_of_ne_nil h
  subst htriggers
  unfold KeymapSequence.formatTriggers
  cases rest with
  | nil =>
    have := unflagged_formatEntry trigger (.inl rfl)
    simpa using this
  | cons next rest =>
    rw [List.map_cons, List.map_cons, List.intercalate_cons_cons, List.append_assoc]
    exact unflagged_formatEntry trigger (.inr ⟨_, rfl⟩)

private theorem splitAsciiWhitespace_append_cons (front rest : List Char) (hc : isAsciiWhitespace c)
    :
    splitAsciiWhitespace (front ++ c :: rest) =
      splitAsciiWhitespace front ++ splitAsciiWhitespace rest := by
  unfold splitAsciiWhitespace
  rw [List.splitOnP_append_cons _ _ hc, List.filter_append]

private theorem splitAsciiWhitespace_formatTriggers (h : triggers ≠ []) :
    splitAsciiWhitespace (KeymapSequence.formatTriggers triggers) =
      triggers.flatMap fun trigger ↦ splitAsciiWhitespace trigger.formatEntry := by
  unfold KeymapSequence.formatTriggers
  induction triggers with
  | nil => exact absurd rfl h
  | cons trigger rest ih =>
    cases rest with
    | nil => simp
    | cons next rest =>
      rw [List.map_cons, List.map_cons, List.intercalate_cons_cons, List.flatMap_cons,
        List.append_assoc]
      show splitAsciiWhitespace (_ ++ ' ' :: _) = _
      rw [splitAsciiWhitespace_append_cons _ _ rfl]
      congr 1
      exact ih (List.cons_ne_nil _ _)

private theorem splitAsciiWhitespace_of_free (hne : text ≠ [])
    (h : ∀ c ∈ text, isAsciiWhitespace c = false) : splitAsciiWhitespace text = [text] := by
  unfold splitAsciiWhitespace
  rw [List.splitOnP_eq_singleton h]
  simp [hne]

private theorem isAsciiWhitespace_of_not_mem (h : c ∉ separators) :
    isAsciiWhitespace c = false := by
  simp only [separators, List.mem_cons, List.not_mem_nil, or_false, not_or] at h
  simp [isAsciiWhitespace, h]

/-- The modifiers of a printed trigger, each with its plus sign. -/
private def frontText (trigger : KeymapTrigger) : List Char :=
  joinParts (modifierTexts trigger.modifiers) []

private theorem joinParts_append (parts : List (List Char)) (last : List Char) :
    joinParts parts last = joinParts parts [] ++ last := by
  induction parts with
  | nil => rfl
  | cons part parts ih => rw [joinParts, joinParts, ih, List.append_assoc, List.cons_append]

private theorem formatEntry_eq_front (trigger : KeymapTrigger) :
    trigger.formatEntry = frontText trigger ++ trigger.key.text := by
  rw [trigger.formatEntry_eq, joinParts_append]
  rfl

private theorem frontText_free (h : c ∈ frontText trigger) : c = '+' ∨ c ∉ separators := by
  rcases mem_joinParts h with hplus | ⟨part, hpart, hc⟩ | hnil
  · exact .inl hplus
  · exact .inr ((modifierTexts_plain hpart).2 c hc)
  · cases hnil

private theorem frontText_white :
    ∀ c ∈ frontText trigger, isAsciiWhitespace c = false := by
  intro c hc
  rcases frontText_free hc with rfl | hsep
  · rfl
  · exact isAsciiWhitespace_of_not_mem hsep

private theorem not_mem_frontText (hc : c ∈ separators) (hplus : c ≠ '+') :
    c ∉ frontText trigger := by
  intro hmem
  rcases frontText_free hmem with heq | hsep
  · exact hplus heq
  · exact hsep hc

private theorem legacyModifiers_of_free (h : '-' ∉ text) :
    legacyModifiers text = ([], text) := by
  rw [legacyModifiers]
  split
  · rfl
  · next hsplit =>
    rw [splitOnceAt_of_not_mem h] at hsplit
    cases hsplit

private theorem not_isOk_frontText (trigger : KeymapTrigger) :
    (parseLegacyTrigger (frontText trigger)).isOk = false := by
  have herror : ∃ error, KeymapTrigger.fromStr (frontText trigger) = .error error := by
    cases hfront : KeymapTrigger.fromStr (frontText trigger) with
    | error error => exact ⟨error, rfl⟩
    | ok read =>
      simp only [KeymapTrigger.fromStr, bind_eq_ok] at hfront
      obtain ⟨_, _, parts, hparts, _⟩ := hfront
      unfold splitTriggerParts frontText at hparts
      rw [splitParts_joinParts, if_pos] at hparts
      · cases hparts
      · simp [splitParts]
      · intro part hpart
        obtain ⟨hne, hfree⟩ := modifierTexts_plain hpart
        exact ⟨hne, fun hmem ↦ hfree '+' hmem (by decide)⟩
  obtain ⟨error, hfromStr⟩ := herror
  unfold parseLegacyTrigger
  rw [hfromStr, legacyModifiers_of_free (not_mem_frontText (by decide) (by decide))]
  rfl

private theorem splitSteps_of_free {step : List Char} (h : '>' ∉ text) :
    splitSteps step text = [step ++ text] := by
  induction text generalizing step with
  | nil => simp [splitSteps]
  | cons c cs ih =>
    have ⟨hc, hcs⟩ := not_or.mp (mt List.mem_cons.mpr h)
    rw [splitSteps, if_neg fun hsep ↦ hc hsep.1.symm, ih hcs, List.append_assoc]
    rfl

private theorem splitSteps_append_of_free {step : List Char} (h : '>' ∉ text) :
    splitSteps step (text ++ rest) = splitSteps (step ++ text) rest := by
  induction text generalizing step with
  | nil => simp
  | cons c cs ih =>
    have ⟨hc, hcs⟩ := not_or.mp (mt List.mem_cons.mpr h)
    rw [List.cons_append, splitSteps, if_neg fun hsep ↦ hc hsep.1.symm, ih hcs,
      List.append_assoc]
    rfl

private theorem splitLegacyTriggers_formatEntry (trigger : KeymapTrigger) :
    splitLegacyTriggers trigger.formatEntry = [trigger.formatEntry] := by
  unfold splitLegacyTriggers
  rw [formatEntry_eq_front,
    splitSteps_append_of_free (not_mem_frontText (by decide) (by decide)), List.nil_append]
  rcases trigger.key.text_plain with ⟨c, hkey⟩ | ⟨_, hkey⟩
  · have htext : trigger.key.text = [c] := by
      rw [hkey]
      rfl
    rw [htext, splitSteps, if_neg]
    · rfl
    · rw [not_isOk_frontText]
      simp
  · exact splitSteps_of_free fun hmem ↦ hkey '>' hmem (by decide)

/-- The steps that the parser sees in a printed trigger. -/
private def stepsOf (trigger : KeymapTrigger) : List (List Char) :=
  (splitAsciiWhitespace trigger.formatEntry).flatMap splitLegacyTriggers

private theorem stepsOf_of_visible (h : ∀ c, trigger.key = .unicode c → isAsciiWhitespace c = false)
    :
    stepsOf trigger = [trigger.formatEntry] := by
  have hne : trigger.formatEntry ≠ [] := by
    rw [formatEntry_eq_front]
    simp [trigger.key.text_ne_nil]
  have hfree : ∀ c ∈ trigger.formatEntry, isAsciiWhitespace c = false := by
    intro c hc
    rw [formatEntry_eq_front, List.mem_append] at hc
    rcases hc with hfront | htext
    · exact frontText_white c hfront
    · rcases trigger.key.text_plain with ⟨x, hkey⟩ | ⟨_, hkey⟩
      · rw [hkey] at htext
        exact List.mem_singleton.mp htext ▸ h x hkey
      · exact isAsciiWhitespace_of_not_mem (hkey c htext)
  unfold stepsOf
  rw [splitAsciiWhitespace_of_free hne hfree, List.flatMap_cons, List.flatMap_nil,
    List.append_nil, splitLegacyTriggers_formatEntry]

private theorem stepsOf_space (h : trigger.key = .unicode ' ') :
    stepsOf trigger = [] ∨
      ∃ step ∈ stepsOf trigger, (parseLegacyTrigger step).isOk = false := by
  have htext : trigger.formatEntry = frontText trigger ++ ' ' :: [] := by
    rw [formatEntry_eq_front, h]
    rfl
  have hsteps : stepsOf trigger =
      (splitAsciiWhitespace (frontText trigger)).flatMap splitLegacyTriggers := by
    unfold stepsOf
    rw [htext, splitAsciiWhitespace_append_cons _ _ rfl]
    simp [splitAsciiWhitespace]
  by_cases hfront : frontText trigger = []
  · left
    rw [hsteps, hfront]
    rfl
  · right
    refine ⟨frontText trigger, ?_, not_isOk_frontText trigger⟩
    rw [hsteps, splitAsciiWhitespace_of_free hfront frontText_white, List.flatMap_cons,
      splitLegacyTriggers,
      splitSteps_of_free (not_mem_frontText (by decide) (by decide)), List.nil_append]
    exact List.mem_cons_self

private theorem parse_formatEntry_iff_steps (h : sequence.Accepted) :
    parseKeymapSequence sequence.formatEntry = .ok sequence ↔
      (sequence.triggers.flatMap stepsOf).mapM parseLegacyTrigger = .ok sequence.triggers := by
  have hsteps : (splitAsciiWhitespace (KeymapSequence.formatTriggers sequence.triggers)).flatMap
      splitLegacyTriggers = sequence.triggers.flatMap stepsOf := by
    rw [splitAsciiWhitespace_formatTriggers h.nonempty, List.flatMap_assoc]
    rfl
  have hchord : (!(decide (1 < sequence.triggers.length) &&
      (sequence.flags.global || sequence.flags.all))) = true := by
    by_cases hlong : 1 < sequence.triggers.length
    · simp [h.unflagged hlong]
    · simp [hlong]
  unfold parseKeymapSequence KeymapSequence.formatEntry
  rw [String.toList_ofList,
    parseSequenceFlags_formatFlags (unflagged_formatTriggers h.nonempty), ok_bind]
  simp only [hsteps, bind_eq_ok, ensure_eq_ok, pure_eq_ok]
  constructor
  · rintro ⟨triggers, hmapM, _, _, _, _, heq⟩
    rw [hmapM, ← heq]
  · intro hmapM
    exact ⟨_, hmapM, (), by simpa using h.nonempty, (), hchord, rfl⟩

private theorem length_flatMap_lt (hle : ∀ trigger ∈ triggers, (stepsOf trigger).length ≤ 1)
    (hnil : ∃ trigger ∈ triggers, stepsOf trigger = []) :
    (triggers.flatMap stepsOf).length < triggers.length := by
  have hbound : ∀ rest : List KeymapTrigger, (∀ trigger ∈ rest, (stepsOf trigger).length ≤ 1) →
      (rest.flatMap stepsOf).length ≤ rest.length := by
    intro rest hrest
    induction rest with
    | nil => exact Nat.le_refl _
    | cons trigger rest ih =>
      have := hrest trigger List.mem_cons_self
      have := ih fun t ht ↦ hrest t (List.mem_cons_of_mem _ ht)
      rw [List.flatMap_cons, List.length_append, List.length_cons]
      omega
  have ⟨trigger, hmem, hsteps⟩ := hnil
  have ⟨front, rest, htriggers⟩ := List.append_of_mem hmem
  subst htriggers
  have hfront := hbound front fun t ht ↦ hle t (List.mem_append_left _ ht)
  have hrest := hbound rest fun t ht ↦
    hle t (List.mem_append_right _ (List.mem_cons_of_mem _ ht))
  rw [List.flatMap_append, List.flatMap_cons, hsteps, List.nil_append, List.length_append,
    List.length_append, List.length_cons]
  omega

/-- A sequence is read back from its printed form exactly if none of its keys is the space
character. -/
theorem parse_formatEntry_iff (h : sequence.Accepted) :
    parseKeymapSequence sequence.formatEntry = .ok sequence ↔
      ¬∃ trigger ∈ sequence.triggers, trigger.key = .unicode ' ' := by
  have hvisible : ∀ trigger ∈ sequence.triggers, trigger.key ≠ .unicode ' ' →
      stepsOf trigger = [trigger.formatEntry] := by
    intro trigger htrigger hspace
    apply stepsOf_of_visible
    intro c hc
    apply (h.character trigger htrigger c hc).resolve_left
    rintro rfl
    exact hspace hc
  rw [parse_formatEntry_iff_steps h]
  constructor
  · rintro hparse ⟨trigger, htrigger, hspace⟩
    have hsteps := forall₂_of_mapM_eq_ok hparse
    have hok : ∀ step ∈ sequence.triggers.flatMap stepsOf, (parseLegacyTrigger step).isOk := by
      intro step hstep
      have ⟨read, hread⟩ := exists_of_forall₂ hsteps hstep
      rw [hread]
      rfl
    -- no step of a space is a trigger, so it has none
    have hnone : ∀ t ∈ sequence.triggers, t.key = .unicode ' ' → stepsOf t = [] := by
      intro t ht hkey
      apply (stepsOf_space hkey).resolve_right
      rintro ⟨step, hstep, herror⟩
      rw [hok step (List.mem_flatMap.mpr ⟨t, ht, hstep⟩)] at herror
      cases herror
    have hlength : (sequence.triggers.flatMap stepsOf).length < _ := length_flatMap_lt (by
      intro t ht
      by_cases hkey : t.key = .unicode ' '
      · rw [hnone t ht hkey]
        exact Nat.zero_le _
      · rw [hvisible t ht hkey]
        exact Nat.le_refl _) ⟨trigger, htrigger, hnone trigger htrigger hspace⟩
    have := hsteps.length_eq
    omega
  · intro hspace
    have hkeys : ∀ trigger ∈ sequence.triggers, trigger.key ≠ .unicode ' ' :=
      fun trigger htrigger hkey ↦ hspace ⟨trigger, htrigger, hkey⟩
    have hsteps : sequence.triggers.flatMap stepsOf =
        sequence.triggers.map KeymapTrigger.formatEntry := by
      rw [List.map_eq_flatMap]
      exact List.flatMap_congr fun trigger htrigger ↦
        hvisible trigger htrigger (hkeys trigger htrigger)
    rw [hsteps]
    apply mapM_eq_ok
    rw [List.forall₂_map_left_iff, List.forall₂_same]
    intro trigger htrigger
    unfold parseLegacyTrigger
    rw [KeymapTrigger.fromStr_formatEntry (h.consistent trigger htrigger)]

end Bootty.Config
