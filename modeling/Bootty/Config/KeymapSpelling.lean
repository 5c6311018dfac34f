import Bootty.Config.KeymapTrigger
import Mathlib.Data.List.Infix

/-!
# Spellings of a trigger

The printed form of a trigger is read back, whatever its key is. The parser accepts other
spellings as well; of those it is recorded which of them make the key the space character, the
one key whose printed form is white space.
-/

namespace Bootty.Config

open Bootty.Base

/-! ### What is printed -/

/-- A side stands only at a pressed modifier. -/
def KeymapModifiers.Consistent (modifiers : KeymapModifiers) : Prop :=
  ∀ modifier, modifiers.pressed modifier = false → modifiers.side modifier = none

/-- The printed spellings of the pressed modifiers. -/
def modifierTexts (modifiers : KeymapModifiers) : List (List Char) :=
  printedModifiers.flatMap fun modifier ↦
    if modifiers.pressed modifier then [(modifierName modifier (modifiers.side modifier)).toList]
    else []

/-- Texts in front of a last one, each followed by a plus sign. -/
def joinParts : List (List Char) → List Char → List Char
  | [], last => last
  | part :: parts, last => part ++ '+' :: joinParts parts last

/-- The characters with a meaning in a sequence. -/
def separators : List Char := ['+', '-', '>', ':', ' ', '\t', '\n', '\r', Char.ofNat 12]

/-! ### The tables -/

/-- Five characters in a row spell `space`, in another case than the names of the physical
key. -/
def SpellsSpace (text : List Char) : Prop :=
  ∃ word, word <:+: text ∧ eqIgnoreAsciiCase word "space".toList ∧
    word ≠ "space".toList ∧ word ≠ "Space".toList

variable {text : List Char}

private theorem spellsSpace_iff_tails :
    SpellsSpace text ↔ ∃ tail ∈ text.tails, eqIgnoreAsciiCase (tail.take 5) "space".toList ∧
      tail.take 5 ≠ "space".toList ∧ tail.take 5 ≠ "Space".toList := by
  constructor
  · rintro ⟨word, hinside, hcase, hword⟩
    have ⟨tail, hprefix, hsuffix⟩ := List.infix_iff_prefix_suffix.mp hinside
    have hlength := congrArg List.length (of_decide_eq_true hcase)
    rw [List.length_map, List.length_map] at hlength
    have htake : word = tail.take 5 := by
      rw [List.prefix_iff_eq_take.mp hprefix, hlength]
      rfl
    exact ⟨tail, (List.mem_tails _ _).mpr hsuffix, htake ▸ hcase, htake ▸ hword⟩
  · rintro ⟨tail, hsuffix, hword⟩
    have hinside := ((List.mem_tails _ _).mp hsuffix).isInfix
    exact ⟨_, (List.take_prefix 5 tail).isInfix.trans hinside, hword⟩

/-- Whether a text spells the space is decidable. -/
instance (text : List Char) : Decidable (SpellsSpace text) :=
  decidable_of_iff' _ spellsSpace_iff_tails

private theorem keys_table : ∀ entry ∈ KeymapPhysicalKey.keys,
    (entry.2.2.canonicalName.toList ≠ [] ∧
      ∀ c ∈ entry.2.2.canonicalName.toList, c ∉ separators) ∧
    KeymapPhysicalKey.parse entry.2.2.canonicalName = .ok (some entry.2.2) ∧
    modifierParts.lookup entry.2.2.canonicalName = none ∧
    (entry.1.toList.length ≠ 1 ∧ entry.2.1.toList.length ≠ 1) ∧
    ¬SpellsSpace entry.1.toList ∧ ¬SpellsSpace entry.2.1.toList := by
  decide +kernel

private theorem modifiers_table :
    (∀ entry ∈ modifierParts, entry.1.toList.length ≠ 1 ∧ ¬SpellsSpace entry.1.toList) ∧
    ∀ modifier ∈ printedModifiers, ∀ side ∈ [none, some .left, some .right],
      ((modifierName modifier side).toList ≠ [] ∧
        ∀ c ∈ (modifierName modifier side).toList, c ∉ separators) ∧
      modifierParts.lookup (modifierName modifier side) = some (modifier, side) := by
  decide +kernel

private theorem words_table :
    (∀ key ∈ [KeymapTriggerKey.scrollUp, .scrollDown, .catchAll],
      (key.text ≠ [] ∧ ∀ c ∈ key.text, c ∉ separators) ∧
      modifierParts.lookup (String.ofList key.text) = none ∧ keyPart key.text = .ok key) ∧
    (∀ name ∈ ["scroll_up", "scroll_down", "catch_all"],
      ¬"space".toList <:+: name.toList.map Char.toLower) ∧
    (∀ c ∈ separators, c.toLower ∉ "space".toList.map Char.toLower) ∧
    ¬SpellsSpace "physical:zero".toList ∧
    KeymapPhysicalKey.parse "space" = .ok (some .space) ∧
    KeymapPhysicalKey.parse "Space" = .ok (some .space) := by
  decide +kernel

private theorem mem_printedModifiers (modifier : KeymapModifier) :
    modifier ∈ printedModifiers := by
  cases modifier <;> decide

private theorem mem_sides (side : Option KeymapModifierSide) :
    side ∈ [none, some .left, some .right] := by
  rcases side with _ | (_ | _) <;> decide

private theorem modifierName_plain (modifier : KeymapModifier)
    (side : Option KeymapModifierSide) :
    (modifierName modifier side).toList ≠ [] ∧
      ∀ c ∈ (modifierName modifier side).toList, c ∉ separators :=
  (modifiers_table.2 modifier (mem_printedModifiers modifier) side (mem_sides side)).1

private theorem forall_keys {P : KeymapPhysicalKey → Prop}
    (h : ∀ entry ∈ KeymapPhysicalKey.keys, P entry.2.2) (key : KeymapPhysicalKey) : P key := by
  have hmem : key ∈ KeymapPhysicalKey.keys.map (·.2.2) := by cases key <;> decide
  have ⟨entry, hentry, heq⟩ := List.mem_map.mp hmem
  exact heq ▸ h entry hentry

private theorem canonicalName_plain (key : KeymapPhysicalKey) :
    key.canonicalName.toList ≠ [] ∧ ∀ c ∈ key.canonicalName.toList, c ∉ separators := by
  revert key
  apply forall_keys
  exact fun entry hentry ↦ (keys_table entry hentry).1

private theorem parse_canonicalName (key : KeymapPhysicalKey) :
    KeymapPhysicalKey.parse key.canonicalName = .ok (some key) := by
  revert key
  apply forall_keys
  exact fun entry hentry ↦ (keys_table entry hentry).2.1

private theorem lookup_canonicalName (key : KeymapPhysicalKey) :
    modifierParts.lookup key.canonicalName = none := by
  revert key
  apply forall_keys
  exact fun entry hentry ↦ (keys_table entry hentry).2.2.1

variable {modifiers : KeymapModifiers} {part : List Char}

/-- Modifiers have no separators. -/
theorem modifierTexts_plain (h : part ∈ modifierTexts modifiers) :
    part ≠ [] ∧ ∀ c ∈ part, c ∉ separators := by
  have ⟨modifier, _, hpart⟩ := List.mem_flatMap.mp h
  split at hpart
  · rw [List.mem_singleton] at hpart
    subst hpart
    exact modifierName_plain _ _
  · cases hpart

/-- A key's text is one character or has no separator. -/
theorem KeymapTriggerKey.text_plain (key : KeymapTriggerKey) :
    (∃ c, key = .unicode c) ∨ key.text ≠ [] ∧ ∀ c ∈ key.text, c ∉ separators := by
  cases key with
  | unicode c => exact .inl ⟨c, rfl⟩
  | physical key => exact .inr (canonicalName_plain key)
  | scrollUp | scrollDown | catchAll => exact .inr (words_table.1 _ (by simp)).1

theorem KeymapTriggerKey.text_ne_nil (key : KeymapTriggerKey) : key.text ≠ [] := by
  rcases key.text_plain with ⟨c, rfl⟩ | ⟨hne, _⟩
  · exact List.cons_ne_nil _ _
  · exact hne

/-- A trigger is its parts, joined. -/
theorem KeymapTrigger.formatEntry_eq (trigger : KeymapTrigger) :
    trigger.formatEntry = joinParts (modifierTexts trigger.modifiers) trigger.key.text := by
  have hne := fun modifier side ↦ (modifierName_plain modifier side).1
  simp only [KeymapTrigger.formatEntry, KeymapTrigger.formatModifiers, modifierTexts,
    printedModifiers, List.foldl_cons, List.foldl_nil, List.flatMap_cons, List.flatMap_nil]
  by_cases hcommand : trigger.modifiers.pressed .command <;>
    by_cases hctrl : trigger.modifiers.pressed .ctrl <;>
    by_cases halt : trigger.modifiers.pressed .alt <;>
    by_cases hshift : trigger.modifiers.pressed .shift <;>
    simp [hcommand, hctrl, halt, hshift, pushModifier, joinParts, hne]

/-! ### Round trip of a trigger -/

private theorem splitParts_of_free {rest : List Char} (h : '+' ∉ text) :
    splitParts part (text ++ rest) = splitParts (part ++ text) rest := by
  induction text generalizing part with
  | nil => simp
  | cons c cs ih =>
    have ⟨hc, hcs⟩ := not_or.mp (mt List.mem_cons.mpr h)
    rw [List.cons_append, splitParts, if_neg fun hsep ↦ hc hsep.1.symm, ih hcs,
      List.append_assoc]
    rfl

/-- Parts that are joined are split again. -/
theorem splitParts_joinParts {parts : List (List Char)} {last : List Char}
    (h : ∀ part ∈ parts, part ≠ [] ∧ '+' ∉ part) :
    splitParts [] (joinParts parts last) = parts ++ splitParts [] last := by
  induction parts with
  | nil => rfl
  | cons part parts ih =>
    have ⟨hne, hfree⟩ := h part List.mem_cons_self
    rw [joinParts, splitParts_of_free hfree, List.nil_append, splitParts, if_pos ⟨rfl, hne⟩,
      ih fun p hp ↦ h p (List.mem_cons_of_mem _ hp)]
    rfl

private theorem plus_free (h : ∀ c ∈ part, c ∉ separators) : '+' ∉ part := by
  intro hmem
  exact h '+' hmem (by decide)

private theorem splitParts_text (key : KeymapTriggerKey) :
    splitParts [] key.text = [key.text] := by
  rcases key.text_plain with ⟨c, rfl⟩ | ⟨_, hfree⟩
  · show splitParts [] [c] = [[c]]
    simp [splitParts]
  · rw [← List.append_nil key.text, splitParts_of_free (plus_free hfree)]
    simp [splitParts]

private theorem splitTriggerParts_formatEntry (trigger : KeymapTrigger) :
    splitTriggerParts trigger.formatEntry =
      .ok (modifierTexts trigger.modifiers ++ [trigger.key.text]) := by
  have hparts : ∀ part ∈ modifierTexts trigger.modifiers, part ≠ [] ∧ '+' ∉ part := by
    intro part hpart
    have ⟨hne, hfree⟩ := modifierTexts_plain hpart
    exact ⟨hne, plus_free hfree⟩
  unfold splitTriggerParts
  rw [trigger.formatEntry_eq, splitParts_joinParts hparts, splitParts_text, if_neg]
  simp only [List.any_append, List.any_cons, List.any_nil, Bool.or_false, Bool.or_eq_true,
    List.any_eq_true, List.isEmpty_iff, not_or, not_exists, not_and]
  exact ⟨fun part hpart ↦ (hparts part hpart).1, trigger.key.text_ne_nil⟩

/-- `modifiers` with one modifier as `other` has it. -/
def KeymapModifiers.adopt (modifiers other : KeymapModifiers) : KeymapModifier → KeymapModifiers
  | .shift => { modifiers with shift := other.shift, shiftSide := other.shiftSide }
  | .ctrl => { modifiers with ctrl := other.ctrl, ctrlSide := other.ctrlSide }
  | .alt => { modifiers with alt := other.alt, altSide := other.altSide }
  | .command => { modifiers with command := other.command, commandSide := other.commandSide }

private theorem lookup_modifierName (modifier : KeymapModifier)
    (side : Option KeymapModifierSide) :
    modifierParts.lookup (modifierName modifier side) = some (modifier, side) :=
  (modifiers_table.2 modifier (mem_printedModifiers modifier) side (mem_sides side)).2

private theorem foldlM_addPart_modifier {other : KeymapModifiers} {modifier : KeymapModifier}
    {key : Option KeymapTriggerKey} (hpressed : modifiers.pressed modifier = false)
    (hside : modifiers.side modifier = none)
    (hother : other.pressed modifier = false → other.side modifier = none) :
    (if other.pressed modifier then [(modifierName modifier (other.side modifier)).toList]
      else []).foldlM addPart (modifiers, key) = .ok (modifiers.adopt other modifier, key) := by
  split
  · next hon =>
    rw [List.foldlM_cons]
    unfold addPart
    rw [String.ofList_toList, lookup_modifierName]
    cases modifier <;> cases hs : other.side _ <;>
      simp_all [setModifier, setSidedModifier, KeymapModifiers.press, KeymapModifiers.setSide,
        KeymapModifiers.adopt, KeymapModifiers.pressed, KeymapModifiers.side, bind, Except.bind,
        pure, Except.pure]
  · next hoff =>
    have hnone := hother (by simpa using hoff)
    cases modifiers
    cases modifier <;>
      simp_all [KeymapModifiers.adopt, KeymapModifiers.pressed, KeymapModifiers.side, pure,
        Except.pure]

private theorem foldlM_addPart_modifierTexts (h : modifiers.Consistent) :
    (modifierTexts modifiers).foldlM addPart ({}, none) = .ok (modifiers, none) := by
  simp only [modifierTexts, printedModifiers, List.flatMap_cons, List.flatMap_nil,
    List.foldlM_append]
  rw [foldlM_addPart_modifier rfl rfl (h .command), ok_bind,
    foldlM_addPart_modifier rfl rfl (h .ctrl), ok_bind,
    foldlM_addPart_modifier rfl rfl (h .alt), ok_bind,
    foldlM_addPart_modifier rfl rfl (h .shift), ok_bind]
  rfl

variable {c : Char} {name : String}

private theorem ofList_singleton_ne (h : name.toList.length ≠ 1) :
    String.ofList [c] ≠ name := by
  rintro rfl
  rw [String.toList_ofList] at h
  exact h rfl

private theorem parse_singleton (c : Char) :
    KeymapPhysicalKey.parse (String.ofList [c]) = .ok none := by
  have hnames : ∀ entry ∈ KeymapPhysicalKey.keys,
      entry.1.toList.length ≠ 1 ∧ entry.2.1.toList.length ≠ 1 :=
    fun entry hentry ↦ (keys_table entry hentry).2.2.2.1
  have hnone : KeymapPhysicalKey.keys.find? (fun key ↦
      String.ofList [c] = key.1 || String.ofList [c] = key.2.1) = none := by
    rw [List.find?_eq_none]
    intro entry hentry
    have ⟨hname, halias⟩ := hnames entry hentry
    rw [Bool.or_eq_true, decide_eq_true_eq, decide_eq_true_eq]
    exact not_or.mpr ⟨ofList_singleton_ne hname, ofList_singleton_ne halias⟩
  unfold KeymapPhysicalKey.parse
  rw [hnone, if_neg]
  rw [String.toList_ofList]
  simp

private theorem lookup_singleton (c : Char) :
    modifierParts.lookup (String.ofList [c]) = none := by
  have hnames : ∀ entry ∈ modifierParts, entry.1.toList.length ≠ 1 :=
    fun entry hentry ↦ (modifiers_table.1 entry hentry).1
  rw [List.lookup_eq_none_iff]
  intro entry hentry
  exact bne_iff_ne.mpr (ofList_singleton_ne (hnames entry hentry))

private theorem eqIgnoreAsciiCase_singleton {name : List Char} (h : name.length ≠ 1) :
    eqIgnoreAsciiCase [c] name = false := by
  unfold eqIgnoreAsciiCase
  rw [decide_eq_false_iff_not]
  intro heq
  have hlength := congrArg List.length heq
  rw [List.length_map, List.length_map] at hlength
  exact h hlength.symm

private theorem namedKey_singleton (c : Char) : namedKey [c] = some (.unicode c) := by
  unfold namedKey
  simp [eqIgnoreAsciiCase_singleton]

private theorem keyPart_of_physical {key : KeymapPhysicalKey}
    (hzero : part ≠ "physical:zero".toList)
    (h : KeymapPhysicalKey.parse (String.ofList part) = .ok (some key)) :
    keyPart part = .ok (.physical key) := by
  unfold keyPart physicalPart
  rw [if_neg hzero, h]
  rfl

variable {key : KeymapTriggerKey}

private theorem keyPart_of_named (hzero : part ≠ "physical:zero".toList)
    (h : KeymapPhysicalKey.parse (String.ofList part) = .ok none)
    (hnamed : namedKey part = some key) : keyPart part = .ok key := by
  unfold keyPart physicalPart
  rw [if_neg hzero, h, ok_bind, hnamed]
  rfl

private theorem addPart_of_key (hlookup : modifierParts.lookup (String.ofList part) = none)
    (hkey : keyPart part = .ok key) :
    addPart (modifiers, none) part = .ok (modifiers, some key) := by
  unfold addPart
  rw [hlookup]
  show (keyPart part >>= _) = _
  rw [hkey]
  rfl

private theorem addPart_text (modifiers : KeymapModifiers) (key : KeymapTriggerKey) :
    addPart (modifiers, none) key.text = .ok (modifiers, some key) := by
  cases key with
  | unicode c =>
    apply addPart_of_key (lookup_singleton c)
    apply keyPart_of_named _ (parse_singleton c) (namedKey_singleton c)
    simp
  | physical key =>
    have hplain := (canonicalName_plain key).2
    apply addPart_of_key
    · show modifierParts.lookup (String.ofList key.canonicalName.toList) = none
      rw [String.ofList_toList, lookup_canonicalName]
    apply keyPart_of_physical
    · intro heq
      have hname : key.canonicalName.toList = "physical:zero".toList := heq
      rw [hname] at hplain
      exact hplain ':' (by decide) (by decide)
    · show KeymapPhysicalKey.parse (String.ofList key.canonicalName.toList) = _
      rw [String.ofList_toList, parse_canonicalName]
  | scrollUp | scrollDown | catchAll =>
    exact addPart_of_key (words_table.1 _ (by simp)).2.1 (words_table.1 _ (by simp)).2.2

/-- Every trigger that is consistent is read back from its printed form. -/
theorem KeymapTrigger.fromStr_formatEntry {trigger : KeymapTrigger}
    (h : trigger.modifiers.Consistent) : fromStr trigger.formatEntry = .ok trigger := by
  have hne : trigger.formatEntry ≠ [] := by
    rw [formatEntry_eq]
    cases modifierTexts trigger.modifiers with
    | nil => exact trigger.key.text_ne_nil
    | cons part parts => simp [joinParts]
  unfold fromStr
  rw [splitTriggerParts_formatEntry]
  simp only [ok_bind, List.foldlM_append, foldlM_addPart_modifierTexts h, List.foldlM_cons,
    List.foldlM_nil, addPart_text]
  simp [ensure, hne, context, pure, Except.pure, bind, Except.bind]

/-! ### What is accepted -/

theorem mem_of_lookup {β : Type} {names : List (String × β)} {found : β}
    (h : names.lookup name = some found) : (name, found) ∈ names := by
  have ⟨before, after, hsplit, _⟩ := List.lookup_eq_some_iff.mp h
  rw [hsplit]
  simp

private theorem addPart_ok {parsed parsed' : KeymapModifiers × Option KeymapTriggerKey}
    (h : addPart parsed part = .ok parsed') :
    (∃ entry ∈ modifierParts, part = entry.1.toList ∧ parsed'.2 = parsed.2 ∧
        (parsed.1.Consistent → parsed'.1.Consistent)) ∨
      ∃ key, keyPart part = .ok key ∧ parsed.2 = none ∧ parsed' = (parsed.1, some key) := by
  have hpart : ∀ {found}, modifierParts.lookup (String.ofList part) = some found →
      ∃ entry ∈ modifierParts, part = entry.1.toList := by
    intro found hlookup
    exact ⟨_, mem_of_lookup hlookup, String.toList_ofList.symm⟩
  unfold addPart at h
  split at h
  · next modifier hlookup =>
    left
    simp only [bind_eq_ok, pure_eq_ok] at h
    obtain ⟨modifiers, hset, heq⟩ := h
    obtain ⟨entry, hentry, hname⟩ := hpart hlookup
    subst heq
    refine ⟨entry, hentry, hname, rfl, ?_⟩
    intro hconsistent other hother
    unfold setModifier at hset
    split at hset
    · cases hset
    · obtain rfl := Except.ok.inj hset
      have hbefore := hconsistent other
      cases modifier <;> cases other <;>
        simp_all [KeymapModifiers.press, KeymapModifiers.pressed, KeymapModifiers.side]
  · next modifier side hlookup =>
    left
    simp only [setSidedModifier, bind_eq_ok, pure_eq_ok] at h
    obtain ⟨modifiers, ⟨pressed, hset, hside⟩, heq⟩ := h
    obtain ⟨entry, hentry, hname⟩ := hpart hlookup
    subst heq
    refine ⟨entry, hentry, hname, rfl, ?_⟩
    intro hconsistent other hother
    unfold setModifier at hset
    split at hset
    · cases hset
    split at hside
    · cases hside
    · obtain rfl := Except.ok.inj hset
      obtain rfl := Except.ok.inj hside
      have hbefore := hconsistent other
      cases modifier <;> cases other <;>
        simp_all [KeymapModifiers.press, KeymapModifiers.setSide, KeymapModifiers.pressed,
          KeymapModifiers.side]
  · right
    simp only [bind_eq_ok] at h
    obtain ⟨key, hkey, hrest⟩ := h
    split at hrest
    · cases hrest
    · next hnone =>
      have heq : (parsed.1, some key) = parsed' := Except.ok.inj hrest
      exact ⟨key, hkey, by simpa using hnone, heq.symm⟩

private theorem SpellsSpace.of_infix (h : SpellsSpace part) (hinside : part <:+: text) :
    SpellsSpace text := by
  have ⟨word, hword, hspace⟩ := h
  exact ⟨word, hword.trans hinside, hspace⟩

/-- A separator does not occur in the word. -/
theorem spellsSpace_append_cons {front rest : List Char} (hc : c ∈ separators) :
    SpellsSpace (front ++ c :: rest) ↔ SpellsSpace front ∨ SpellsSpace rest := by
  constructor
  · rintro ⟨word, hinside, hcase, hword⟩
    have ⟨_, _, hseparators, _⟩ := words_table
    have hfree : c ∉ word := by
      intro hmem
      have hlower : c.toLower ∈ "space".toList.map Char.toLower := by
        rw [← of_decide_eq_true hcase]
        exact List.mem_map_of_mem hmem
      exact hseparators c hc hlower
    rcases List.infix_append_iff.mp hinside with hleft | hright | ⟨a, b, rfl, hsuffix, hprefix⟩
    · exact .inl ⟨word, hleft, hcase, hword⟩
    · rcases List.infix_cons_iff.mp hright with hfront | hrest
      · cases word with
        | nil => exact .inr ⟨[], List.nil_infix, hcase, hword⟩
        | cons x xs =>
          have ⟨hx, _⟩ := List.cons_prefix_cons.mp hfront
          exact absurd (hx ▸ List.mem_cons_self) hfree
      · exact .inr ⟨word, hrest, hcase, hword⟩
    · cases b with
      | nil =>
        rw [List.append_nil] at hcase hword
        exact .inl ⟨a, hsuffix.isInfix, hcase, hword⟩
      | cons x xs =>
        have ⟨hx, _⟩ := List.cons_prefix_cons.mp hprefix
        exact absurd (hx ▸ by simp) hfree
  · rintro (hfront | hrest)
    · exact hfront.of_infix List.infix_append_left
    · exact hrest.of_infix ((List.suffix_cons c rest).trans (List.suffix_append _ _)).isInfix

private theorem not_spellsSpace_of_lower (h : eqIgnoreAsciiCase text name.toList)
    (hname : ¬"space".toList <:+: name.toList.map Char.toLower) : ¬SpellsSpace text := by
  rintro ⟨word, hinside, hcase, _⟩
  have hlower := hinside.map Char.toLower
  rw [of_decide_eq_true hcase, of_decide_eq_true h] at hlower
  exact hname hlower

private theorem not_spellsSpace_of_length (h : text.length < 5) :
    ¬SpellsSpace text := by
  rintro ⟨word, hinside, hcase, _⟩
  have hlength := congrArg List.length (of_decide_eq_true hcase)
  rw [List.length_map, List.length_map] at hlength
  have hword : word.length = 5 := hlength
  have := hinside.length_le
  omega

private theorem not_spellsSpace_of_parse {key : KeymapPhysicalKey}
    (h : KeymapPhysicalKey.parse (String.ofList part) = .ok (some key)) : ¬SpellsSpace part := by
  have hnames : ∀ entry ∈ KeymapPhysicalKey.keys,
      ¬SpellsSpace entry.1.toList ∧ ¬SpellsSpace entry.2.1.toList :=
    fun entry hentry ↦ (keys_table entry hentry).2.2.2.2
  unfold KeymapPhysicalKey.parse at h
  split at h
  · next entry hfind =>
    have ⟨hname, halias⟩ := hnames entry (List.mem_of_find?_eq_some hfind)
    have hmatch := List.find?_some hfind
    rw [Bool.or_eq_true, decide_eq_true_eq, decide_eq_true_eq] at hmatch
    rcases hmatch with heq | heq
    · rw [← heq, String.toList_ofList] at hname
      exact hname
    · rw [← heq, String.toList_ofList] at halias
      exact halias
  · split at h <;> cases h

private theorem keyPart_eq_space_iff (h : keyPart part = .ok key) (hpart : part ≠ [' ']) :
    key = .unicode ' ' ↔ SpellsSpace part := by
  obtain ⟨_, hnames, _, hzeroName, hspace, hSpace⟩ := words_table
  simp only [keyPart, bind_eq_ok] at h
  obtain ⟨physical, hphysical, h⟩ := h
  unfold physicalPart at hphysical
  cases physical with
  | some found =>
    obtain rfl : KeymapTriggerKey.physical found = key := Except.ok.inj h
    have hnot : ¬SpellsSpace part := by
      split at hphysical
      · next hzero =>
        rw [hzero]
        exact hzeroName
      · exact not_spellsSpace_of_parse hphysical
    simp [hnot]
  | none =>
    rw [context_eq_ok] at h
    have hparse : KeymapPhysicalKey.parse (String.ofList part) = .ok none := by
      split at hphysical
      · cases hphysical
      · exact hphysical
    unfold namedKey at h
    split at h
    · next hcase =>
      obtain rfl := Option.some.inj h
      simp [not_spellsSpace_of_lower hcase (hnames _ (by simp))]
    split at h
    · next hcase =>
      obtain rfl := Option.some.inj h
      simp [not_spellsSpace_of_lower hcase (hnames _ (by simp))]
    split at h
    · next hcase =>
      obtain rfl := Option.some.inj h
      simp [not_spellsSpace_of_lower hcase (hnames _ (by simp))]
    split at h
    · next hcase =>
      -- the two other spellings are the physical key's
      obtain rfl := Option.some.inj h
      refine iff_of_true rfl ⟨part, List.infix_rfl, hcase, ?_, ?_⟩
      · rintro rfl
        rw [String.ofList_toList, hspace] at hparse
        cases hparse
      · rintro rfl
        rw [String.ofList_toList, hSpace] at hparse
        cases hparse
    split at h
    · next c _ _ _ _ =>
      obtain rfl := Option.some.inj h
      refine iff_of_false ?_ (not_spellsSpace_of_length (by simp))
      intro heq
      exact hpart (by rw [KeymapTriggerKey.unicode.inj heq])
    · cases h

private theorem keyPart_unicode (h : keyPart part = .ok (.unicode c)) : c = ' ' ∨ c ∈ part := by
  simp only [keyPart, bind_eq_ok] at h
  obtain ⟨physical, _, h⟩ := h
  cases physical with
  | some found => cases h
  | none =>
    rw [context_eq_ok] at h
    unfold namedKey at h
    split at h
    · cases h
    split at h
    · cases h
    split at h
    · cases h
    split at h
    · obtain rfl := KeymapTriggerKey.unicode.inj (Option.some.inj h)
      exact .inl rfl
    split at h
    · obtain rfl := KeymapTriggerKey.unicode.inj (Option.some.inj h)
      exact .inr List.mem_cons_self
    · cases h

private theorem spellsSpace_splitParts :
    SpellsSpace (part ++ text) ↔ ∃ found ∈ splitParts part text, SpellsSpace found := by
  fun_induction splitParts part text with
  | case1 part => simp
  | case2 part c rest hsep ih =>
    rw [hsep.1, spellsSpace_append_cons (by decide), ← List.nil_append rest, ih]
    simp
  | case3 part c rest hsep ih =>
    rw [← ih, List.append_assoc]
    rfl

private theorem mem_of_splitParts {found : List Char} (hfound : found ∈ splitParts part text)
    (hc : c ∈ found) : c ∈ part ++ text := by
  fun_induction splitParts part text with
  | case1 part =>
    rw [List.mem_singleton] at hfound
    subst hfound
    simpa using hc
  | case2 part x rest hsep ih =>
    rcases List.mem_cons.mp hfound with rfl | hmem
    · simp [hc]
    · have := ih hmem
      simp_all
  | case3 part x rest hsep ih =>
    have := ih hfound
    rw [List.append_assoc] at this
    exact this

private theorem foldlM_addPart_ok {parts : List (List Char)}
    {parsed parsed' : KeymapModifiers × Option KeymapTriggerKey}
    (h : parts.foldlM addPart parsed = .ok parsed') (hparts : ∀ part ∈ parts, part ≠ [' ']) :
    (parsed.1.Consistent → parsed'.1.Consistent) ∧
      (parsed'.2 = some (.unicode ' ') ↔
        parsed.2 = some (.unicode ' ') ∨ ∃ part ∈ parts, SpellsSpace part) ∧
      ∀ c, parsed'.2 = some (.unicode c) →
        parsed.2 = some (.unicode c) ∨ c = ' ' ∨ ∃ part ∈ parts, c ∈ part := by
  have hnames : ∀ entry ∈ modifierParts, ¬SpellsSpace entry.1.toList :=
    fun entry hentry ↦ (modifiers_table.1 entry hentry).2
  induction parts generalizing parsed with
  | nil =>
    obtain rfl := Except.ok.inj h
    exact ⟨id, by simp, fun c ↦ .inl⟩
  | cons part parts ih =>
    rw [List.foldlM_cons, bind_eq_ok] at h
    have ⟨next, hpart, hrest⟩ := h
    have ⟨hconsistent, hspace, hunicode⟩ :=
      ih hrest fun p hp ↦ hparts p (List.mem_cons_of_mem _ hp)
    rcases addPart_ok hpart with
      ⟨entry, hentry, hname, hkey, hmodifiers⟩ | ⟨key, hkey, hnone, heq⟩
    · have hnot : ¬SpellsSpace part := hname ▸ hnames entry hentry
      rw [hkey] at hspace hunicode
      refine ⟨fun hc ↦ hconsistent (hmodifiers hc), ?_, ?_⟩
      · rw [hspace]
        simp [hnot]
      · intro c hc
        rcases hunicode c hc with hold | hnew | ⟨p, hp, hmem⟩
        · exact .inl hold
        · exact .inr (.inl hnew)
        · exact .inr (.inr ⟨p, List.mem_cons_of_mem _ hp, hmem⟩)
    · subst heq
      refine ⟨hconsistent, ?_, ?_⟩
      · rw [hspace, hnone, Option.some.injEq,
          keyPart_eq_space_iff hkey (hparts part List.mem_cons_self)]
        simp
      · intro c hc
        right
        rcases hunicode c hc with heq | hnew | ⟨p, hp, hmem⟩
        · rw [Option.some.inj heq] at hkey
          exact (keyPart_unicode hkey).imp id fun hmem ↦ ⟨part, List.mem_cons_self, hmem⟩
        · exact .inl hnew
        · exact .inr ⟨p, List.mem_cons_of_mem _ hp, hmem⟩

/-- An accepted trigger is consistent, and its key is the space character exactly if the text
spells it. -/
theorem KeymapTrigger.fromStr_ok {input : List Char} {trigger : KeymapTrigger}
    (h : fromStr input = .ok trigger) (hspace : ' ' ∉ input) :
    trigger.modifiers.Consistent ∧ (trigger.key = .unicode ' ' ↔ SpellsSpace input) ∧
      ∀ c, trigger.key = .unicode c → c = ' ' ∨ c ∈ input := by
  simp only [fromStr, splitTriggerParts, bind_eq_ok, context_eq_ok, pure_eq_ok] at h
  obtain ⟨_, _, parts, hparts, ⟨modifiers, found⟩, hfold, key, hkey, heq⟩ := h
  split at hparts
  · cases hparts
  obtain rfl := Except.ok.inj hparts
  subst heq
  have hfree : ∀ part ∈ splitParts [] input, part ≠ [' '] := by
    rintro part hpart rfl
    exact hspace (mem_of_splitParts hpart List.mem_cons_self)
  obtain ⟨hconsistent, hspells, hunicode⟩ := foldlM_addPart_ok hfold hfree
  have hfound : found = some key := hkey
  refine ⟨hconsistent ?_, ?_, ?_⟩
  · intro modifier _
    cases modifier <;> rfl
  · rw [hfound, Option.some.injEq] at hspells
    rw [hspells, ← List.nil_append input, spellsSpace_splitParts]
    simp
  · intro c hc
    rcases hunicode c (hfound.trans (congrArg some hc)) with hnone | hc | ⟨part, hpart, hc⟩
    · cases hnone
    · exact .inl hc
    · exact .inr (mem_of_splitParts hpart hc)

end Bootty.Config
