import Bootty.Base.Json

/-!
# The grammar of JSON

What text stands for what value, and that the parser reads exactly this. The text that the pretty
printer writes, at any indentation, stands for the value printed.
-/

namespace Bootty.Base.Json

variable {N : Type} {numbers : Numbers N}

/-- Spaces only. -/
def Blank (text : List Char) : Prop := ∀ c ∈ text, isSpace c = true

@[simp] theorem blank_nil : Blank [] := by simp [Blank]

variable {front : List Char}

@[simp] theorem blank_append {back : List Char} :
    Blank (front ++ back) ↔ Blank front ∧ Blank back := by
  simp only [Blank, List.mem_append]
  constructor
  · intro h
    exact ⟨fun c hc ↦ h c (.inl hc), fun c hc ↦ h c (.inr hc)⟩
  · intro h c hc
    exact hc.elim (h.1 c) (h.2 c)

variable {c : Char} {rest : List Char}

@[simp] theorem blank_cons :
    Blank (c :: rest) ↔ isSpace c = true ∧ Blank rest := by
  simp [Blank]

/-- What a text can stand for: a value, the inside of an array or of an object. -/
inductive Node (N : Type) where
  | value (value : Json N)
  | items (items : List (Json N))
  | members (members : List (String × Json N))

/-- The text in front of a member's value: its name in quotes and a colon. -/
inductive Label : String → List Char → Prop
  | mk {before body name between after : List Char} (front : Blank before) (quoted : Quoted body)
      (decoded : decodeString body = some name) (middle : Blank between) (back : Blank after) :
      Label (String.ofList name) (before ++ '"' :: (body ++ '"' :: (between ++ ':' :: after)))

/-- The text stands for the node. -/
inductive Derives (numbers : Numbers N) : Node N → List Char → Prop
  | scalar {lexeme : List Char} {value : Json N} (nonempty : lexeme ≠ [])
      (chars : ∀ c ∈ lexeme, isScalar c = true)
      (parsed : parseScalar numbers lexeme = some value) :
      Derives numbers (.value value) lexeme
  | string {body s : List Char} (quoted : Quoted body) (decoded : decodeString body = some s) :
      Derives numbers (.value (.string (String.ofList s))) ('"' :: (body ++ ['"']))
  | array {items : List (Json N)} {body : List Char}
      (inside : Derives numbers (.items items) body) :
      Derives numbers (.value (.array items)) ('[' :: (body ++ [']']))
  | object {members : List (String × Json N)} {body : List Char}
      (inside : Derives numbers (.members members) body) :
      Derives numbers (.value (.object (insertFields [] members)))
        ('\x7b' :: (body ++ ['\x7d']))
  | noItems {blank : List Char} (spaces : Blank blank) : Derives numbers (.items []) blank
  | lastItem {before text after : List Char} {item : Json N} (front : Blank before)
      (value : Derives numbers (.value item) text) (back : Blank after) :
      Derives numbers (.items [item]) (before ++ text ++ after)
  | moreItems {before text after body : List Char} {item next : Json N} {rest : List (Json N)}
      (front : Blank before) (value : Derives numbers (.value item) text) (back : Blank after)
      (more : Derives numbers (.items (next :: rest)) body) :
      Derives numbers (.items (item :: next :: rest)) (before ++ text ++ after ++ ',' :: body)
  | noMembers {blank : List Char} (spaces : Blank blank) : Derives numbers (.members []) blank
  | lastMember {front text after : List Char} {name : String} {value : Json N}
      (label : Label name front) (inside : Derives numbers (.value value) text)
      (back : Blank after) : Derives numbers (.members [(name, value)]) (front ++ text ++ after)
  | moreMembers {front text after body : List Char} {name : String} {value : Json N}
      {next : String × Json N} {rest : List (String × Json N)} (label : Label name front)
      (inside : Derives numbers (.value value) text) (back : Blank after)
      (more : Derives numbers (.members (next :: rest)) body) :
      Derives numbers (.members ((name, value) :: next :: rest))
        (front ++ text ++ after ++ ',' :: body)

/-! ### The ends of a value's text -/

/-- A character of a literal name or of a number. -/
def isWordChar (c : Char) : Bool := isNumberChar c || c.isAlpha

/-- The first character of a value. -/
def isHead (c : Char) : Bool := isWordChar c || c == '"' || c == '[' || c == '\x7b'

/-- The last character of a value. -/
def isLast (c : Char) : Bool := isWordChar c || c == '"' || c == ']' || c == '\x7d'

private theorem ne_of_isWordChar {d : Char} (h : isWordChar c = true) (hd : isWordChar d = false) :
    c ≠ d := by
  intro heq
  rw [heq, hd] at h
  cases h

variable {value : Json N}

/-- What numbers and names are made of. -/
theorem parseScalar_chars {lexeme : List Char} (h : parseScalar numbers lexeme = some value) :
    ∀ c ∈ lexeme, isWordChar c = true := by
  unfold parseScalar at h
  split at h
  · next hword =>
    rw [hword]
    decide
  · split at h
    · next hword =>
      rw [hword]
      decide
    · split at h
      · next hword =>
        rw [hword]
        decide
      · have ⟨n, hparse, _⟩ := Option.map_eq_some_iff.mp h
        intro c hc
        rw [isWordChar, numbers.parse_chars _ _ hparse c hc]
        rfl

/-- What a value does not begin with. -/
theorem isHead_spec (h : isHead c = true) :
    isAsciiWhitespace c = false ∧ c ≠ ']' ∧ c ≠ '\x7d' ∧ c ≠ ',' ∧ c ≠ '/' := by
  simp only [isHead, Bool.or_eq_true, beq_iff_eq] at h
  obtain ((h | rfl) | rfl) | rfl := h
  · have hne {d : Char} (hd : isWordChar d = false) : c ≠ d := ne_of_isWordChar h hd
    simp only [isAsciiWhitespace, Bool.or_eq_false_iff, beq_eq_false_iff_ne]
    exact ⟨⟨⟨⟨⟨hne (by decide), hne (by decide)⟩, hne (by decide)⟩, hne (by decide)⟩,
      hne (by decide)⟩, hne (by decide), hne (by decide), hne (by decide), hne (by decide)⟩
  all_goals decide

/-- What a value does not end with. -/
theorem isLast_spec (h : isLast c = true) :
    isAsciiWhitespace c = false ∧ c ≠ ',' ∧ c ≠ '/' := by
  simp only [isLast, Bool.or_eq_true, beq_iff_eq] at h
  obtain ((h | rfl) | rfl) | rfl := h
  · have hhead : isHead c = true := by simp [isHead, h]
    have ⟨hspace, _, _, hcomma, hslash⟩ := isHead_spec hhead
    exact ⟨hspace, hcomma, hslash⟩
  all_goals decide

theorem isAsciiWhitespace_of_isSpace (h : isSpace c = true) :
    isAsciiWhitespace c = true := by
  rw [isAsciiWhitespace, ← isSpace, h]
  rfl

private theorem isSpace_eq_false (h : isAsciiWhitespace c = false) : isSpace c = false := by
  rw [isAsciiWhitespace, ← isSpace, Bool.or_eq_false_iff] at h
  exact h.1

variable {text : List Char}

/-- How a value begins. -/
theorem Derives.head (h : Derives numbers (.value value) text) :
    ∃ c tail, text = c :: tail ∧ isHead c = true := by
  cases h with
  | scalar nonempty chars parsed =>
    cases text with
    | nil => exact absurd rfl nonempty
    | cons c tail =>
      exists c, tail
      simp [isHead, parseScalar_chars parsed c]
  | string | array | object => exact ⟨_, _, rfl, by decide⟩

/-- How a value ends. -/
theorem Derives.last {value : Json N} {text : List Char} (h : Derives numbers (.value value) text) :
    ∃ front c, text = front ++ [c] ∧ isLast c = true := by
  cases h with
  | scalar nonempty chars parsed =>
    exists text.dropLast, text.getLast nonempty
    constructor
    · exact (List.dropLast_concat_getLast nonempty).symm
    · simp [isLast, parseScalar_chars parsed _ (List.getLast_mem nonempty)]
  | string quoted => exact ⟨_, _, (List.cons_append ..).symm, by decide⟩
  | array inside => exact ⟨_, _, (List.cons_append ..).symm, by decide⟩
  | object inside => exact ⟨_, _, (List.cons_append ..).symm, by decide⟩

/-! ### Soundness -/

variable {blank : List Char}

private theorem skipSpaces_append (h : Blank blank) (rest : List Char) :
    skipSpaces (blank ++ rest) = skipSpaces rest :=
  List.dropWhile_append_of_pos h

private theorem skipSpaces_cons (h : isSpace c = false) (rest : List Char) :
    skipSpaces (c :: rest) = c :: rest := by
  simp [skipSpaces, h]

private theorem exists_skipSpaces (text : List Char) :
    ∃ blank, Blank blank ∧ text = blank ++ skipSpaces text := by
  exists text.takeWhile isSpace
  constructor
  · exact fun c hc ↦ List.all_eq_true.mp List.all_takeWhile c hc
  · exact List.takeWhile_append_dropWhile.symm

private theorem parseString_eq_some {s : String} (h : parseString text = some (s, rest)) :
    ∃ body decoded, Quoted body ∧ decodeString body = some decoded ∧ s = String.ofList decoded ∧
      text = body ++ '"' :: rest := by
  unfold parseString at h
  split at h
  · cases h
  · next body tail hsplit =>
    split at h
    · cases h
    · next decoded hdecoded =>
      cases h
      have ⟨hquoted, htext⟩ := splitQuoted_eq_some hsplit
      exact ⟨body, decoded, hquoted, hdecoded, rfl, htext⟩

/-- What the three functions of the parser read with a given fuel. -/
private structure Reads (numbers : Numbers N) (fuel : Nat) : Prop where
  value : ∀ text value rest, parseValue numbers fuel text = some (value, rest) →
    ∃ blank inner, Blank blank ∧ text = blank ++ inner ++ rest ∧
      Derives numbers (.value value) inner
  items : ∀ text items rest, parseItems numbers fuel text = some (items, rest) →
    ∃ item tail inner, items = item :: tail ∧ text = inner ++ ']' :: rest ∧
      Derives numbers (.items items) inner
  members : ∀ text members rest, parseMembers numbers fuel text = some (members, rest) →
    ∃ member tail inner, members = member :: tail ∧ text = inner ++ '\x7d' :: rest ∧
      Derives numbers (.members members) inner

variable {fuel : Nat}

private theorem reads_value (ih : Reads numbers fuel)
    (h : parseValue numbers (fuel + 1) text = some (value, rest)) :
    ∃ blank inner, Blank blank ∧ text = blank ++ inner ++ rest ∧
      Derives numbers (.value value) inner := by
  have ⟨blank, hblank, htext⟩ := exists_skipSpaces text
  suffices hinner : ∃ inner, skipSpaces text = inner ++ rest ∧
      Derives numbers (.value value) inner by
    have ⟨inner, hskip, hderives⟩ := hinner
    exact ⟨blank, inner, hblank, by rw [List.append_assoc, ← hskip, ← htext], hderives⟩
  unfold parseValue at h
  split at h
  · cases h
  · next tail hskip =>
    rw [hskip]
    split at h
    · next tail' hskip' =>
      cases h
      have ⟨inside, hinside, htail⟩ := exists_skipSpaces tail
      rw [hskip'] at htail
      exact ⟨_, by rw [htail]; simp, .array (.noItems hinside)⟩
    · next =>
      have ⟨⟨items, rest'⟩, hparse, heq⟩ := Option.map_eq_some_iff.mp h
      cases heq
      have ⟨item, more, inner, _, hinner, hderives⟩ := ih.items _ _ _ hparse
      exact ⟨_, by rw [hinner]; simp, .array hderives⟩
  · next tail hskip =>
    rw [hskip]
    split at h
    · next tail' hskip' =>
      cases h
      have ⟨inside, hinside, htail⟩ := exists_skipSpaces tail
      rw [hskip'] at htail
      exact ⟨_, by rw [htail]; simp, .object (.noMembers hinside)⟩
    · next =>
      have ⟨⟨members, rest'⟩, hparse, heq⟩ := Option.map_eq_some_iff.mp h
      cases heq
      have ⟨member, more, inner, _, hinner, hderives⟩ := ih.members _ _ _ hparse
      exact ⟨_, by rw [hinner]; simp, .object hderives⟩
  · next tail hskip =>
    rw [hskip]
    have ⟨⟨s, rest'⟩, hparse, heq⟩ := Option.map_eq_some_iff.mp h
    cases heq
    have ⟨body, decoded, hquoted, hdecoded, hs, htail⟩ := parseString_eq_some hparse
    rw [hs]
    exact ⟨_, by rw [htail]; simp, .string hquoted hdecoded⟩
  · next c tail _ _ _ hskip =>
    rw [hskip]
    have ⟨scalar, hparse, heq⟩ := Option.map_eq_some_iff.mp h
    cases heq
    have hnonempty : (c :: tail).takeWhile isScalar ≠ [] := by
      intro hempty
      rw [hempty] at hparse
      simp [parseScalar, numbers.parse_nil] at hparse
    have hchars : ∀ d ∈ (c :: tail).takeWhile isScalar, isScalar d = true :=
      fun d hd ↦ List.all_eq_true.mp List.all_takeWhile d hd
    exact ⟨_, List.takeWhile_append_dropWhile.symm, .scalar hnonempty hchars hparse⟩

variable {items : List (Json N)}

private theorem reads_items (ih : Reads numbers fuel)
    (h : parseItems numbers (fuel + 1) text = some (items, rest)) :
    ∃ item tail inner, items = item :: tail ∧ text = inner ++ ']' :: rest ∧
      Derives numbers (.items items) inner := by
  unfold parseItems at h
  split at h
  · cases h
  · next item behind hvalue =>
    have ⟨before, inner, hbefore, htext, hderives⟩ := ih.value _ _ _ hvalue
    have ⟨after, hafter, hbehind⟩ := exists_skipSpaces behind
    split at h
    · next hskip =>
      cases h
      rw [hskip] at hbehind
      exists item, [], before ++ inner ++ after
      constructor
      · rfl
      · constructor
        · rw [htext, hbehind]
          simp
        · exact .lastItem hbefore hderives hafter
    · next tail hskip =>
      have ⟨⟨more, rest'⟩, hparse, heq⟩ := Option.map_eq_some_iff.mp h
      cases heq
      have ⟨next, others, body, hmore, htail, hbody⟩ := ih.items _ _ _ hparse
      rw [hskip] at hbehind
      subst hmore
      exists item, next :: others, before ++ inner ++ after ++ ',' :: body
      constructor
      · rfl
      · constructor
        · rw [htext, hbehind, htail]
          simp
        · exact .moreItems hbefore hderives hafter hbody
    · cases h

private theorem reads_members (ih : Reads numbers fuel) {members : List (String × Json N)}
    (h : parseMembers numbers (fuel + 1) text = some (members, rest)) :
    ∃ member tail inner, members = member :: tail ∧ text = inner ++ '\x7d' :: rest ∧
      Derives numbers (.members members) inner := by
  have ⟨before, hbefore, htext⟩ := exists_skipSpaces text
  unfold parseMembers at h
  split at h
  · next tail hquote =>
    split at h
    · cases h
    · next key behind hkey =>
      have ⟨body, decoded, hquoted, hdecoded, hname, htail⟩ := parseString_eq_some hkey
      have ⟨between, hbetween, hbehind⟩ := exists_skipSpaces behind
      split at h
      · next valueText hcolon =>
        split at h
        · cases h
        · next value afterValue hvalue =>
          have ⟨blank, inner, hblank, hvalueText, hderives⟩ := ih.value _ _ _ hvalue
          have ⟨after, hafter, hafterValue⟩ := exists_skipSpaces afterValue
          have hlabel := Label.mk hbefore hquoted hdecoded hbetween hblank
          rw [← hname] at hlabel
          split at h
          · next hclose =>
            cases h
            rw [hclose] at hafterValue
            refine ⟨_, _, _, rfl, ?_, .lastMember hlabel hderives hafter⟩
            rw [htext, hquote, htail, hbehind, hcolon, hvalueText, hafterValue]
            simp
          · next tail' hcomma =>
            have ⟨⟨more, rest'⟩, hparse, heq⟩ := Option.map_eq_some_iff.mp h
            cases heq
            have ⟨next, others, body', hmore, htail', hbody⟩ := ih.members _ _ _ hparse
            rw [hcomma] at hafterValue
            subst hmore
            refine ⟨_, _, _, rfl, ?_, .moreMembers hlabel hderives hafter hbody⟩
            rw [htext, hquote, htail, hbehind, hcolon, hvalueText, hafterValue, htail']
            simp
          · cases h
      · cases h
  · cases h

private theorem reads (numbers : Numbers N) (fuel : Nat) : Reads numbers fuel := by
  induction fuel with
  | zero =>
    constructor
    all_goals
      intro text result rest h
      simp [parseValue, parseItems, parseMembers] at h
  | succ fuel ih =>
    constructor
    · intro text value rest h
      exact reads_value ih h
    · intro text items rest h
      exact reads_items ih h
    · intro text members rest h
      exact reads_members ih h

/-- What the parser accepts stands for the value it returns. -/
theorem derives_of_fromStr (h : fromStr numbers text = some value) :
    ∃ before inner after, Blank before ∧ Blank after ∧ text = before ++ inner ++ after ∧
      Derives numbers (.value value) inner := by
  unfold fromStr at h
  split at h
  · cases h
  · next parsed rest hparse =>
    split at h
    · next hrest =>
      cases h
      have ⟨before, inner, hbefore, htext, hderives⟩ := (reads numbers _).value _ _ _ hparse
      exact ⟨before, inner, rest, hbefore, List.all_eq_true.mp hrest, htext, hderives⟩
    · cases h

/-! ### Completeness -/

/-- A literal name or a number cannot go on in the text. -/
def Ends (text : List Char) : Prop := ∀ c tail, text = c :: tail → isScalar c = false

private theorem ends_nil : Ends [] := by
  intro c tail h
  cases h

private theorem ends_cons (h : isScalar c = false) (tail : List Char) : Ends (c :: tail) := by
  intro d tail' heq
  cases heq
  exact h

private theorem ends_append (hblank : Blank blank) (hrest : Ends rest) :
    Ends (blank ++ rest) := by
  cases blank with
  | nil => exact hrest
  | cons c tail =>
    apply ends_cons
    simp [isScalar, (blank_cons.mp hblank).1]

variable {body : List Char}

private theorem parseString_append {s : List Char} (hquoted : Quoted body)
    (hdecoded : decodeString body = some s) (rest : List Char) :
    parseString (body ++ '"' :: rest) = some (String.ofList s, rest) := by
  rw [parseString, splitQuoted_append hquoted]
  simp only [hdecoded]

private theorem parseValue_append (hblank : Blank blank) (fuel : Nat) (text : List Char) :
    parseValue numbers fuel (blank ++ text) = parseValue numbers fuel text := by
  cases fuel with
  | zero => rfl
  | succ fuel => rw [parseValue, parseValue, skipSpaces_append hblank]

/-- The characters that follow a value in a node. -/
private def Parsed (numbers : Numbers N) (text : List Char) : Node N → Prop
  | .value value => ∀ fuel rest, text.length ≤ fuel → Ends rest →
      parseValue numbers fuel (text ++ rest) = some (value, rest)
  | .items items => items ≠ [] → ∀ fuel rest, text.length < fuel →
      parseItems numbers fuel (text ++ ']' :: rest) = some (items, rest)
  | .members members => members ≠ [] → ∀ fuel rest, text.length < fuel →
      parseMembers numbers fuel (text ++ '\x7d' :: rest) = some (members, rest)

private theorem parsed_scalar {lexeme : List Char} (nonempty : lexeme ≠ [])
    (chars : ∀ c ∈ lexeme, isScalar c = true) (parsed : parseScalar numbers lexeme = some value) :
    Parsed numbers lexeme (.value value) := by
  intro fuel rest hfuel hrest
  cases lexeme with
  | nil => exact absurd rfl nonempty
  | cons c tail =>
    cases fuel with
    | zero => simp at hfuel
    | succ fuel =>
      have hc := chars c List.mem_cons_self
      simp only [isScalar, Bool.and_eq_true, bne_iff_ne, Bool.not_eq_true'] at hc
      have htake : (c :: tail ++ rest).takeWhile isScalar = c :: tail := by
        rw [List.takeWhile_append_of_pos chars]
        cases rest with
        | nil => simp
        | cons d rest => simp [hrest d rest rfl]
      have hdrop : (c :: tail ++ rest).dropWhile isScalar = rest := by
        rw [List.dropWhile_append_of_pos chars]
        cases rest with
        | nil => rfl
        | cons d rest => simp [hrest d rest rfl]
      rw [parseValue, List.cons_append, skipSpaces_cons hc.1.1.1.1.1.1.1]
      split
      · next heq => cases heq
      · next heq => exact absurd (List.cons.inj heq).1 hc.1.1.1.1.1.1.2
      · next heq => exact absurd (List.cons.inj heq).1 hc.1.1.1.1.2
      · next heq => exact absurd (List.cons.inj heq).1 hc.2
      · next heq =>
        rw [← heq, ← List.cons_append, htake, hdrop, parsed]
        rfl

private theorem skipSpaces_items {item : Json N} {rest : List (Json N)}
    (h : Derives numbers (.items (item :: rest)) body) (tail : List Char) :
    ∃ c more, skipSpaces (body ++ tail) = c :: more ∧ isHead c = true := by
  cases h with
  | lastItem front value back | moreItems front value back more =>
    have ⟨c, more, htext, hc⟩ := value.head
    rw [htext]
    simp only [List.append_assoc, List.cons_append]
    rw [skipSpaces_append front, skipSpaces_cons (isSpace_eq_false (isHead_spec hc).1)]
    exact ⟨c, _, rfl, hc⟩

private theorem skipSpaces_members {member : String × Json N} {rest : List (String × Json N)}
    (h : Derives numbers (.members (member :: rest)) body) (tail : List Char) :
    ∃ more, skipSpaces (body ++ tail) = '"' :: more := by
  cases h with
  | lastMember label inside back | moreMembers label inside back more =>
    cases label with
    | mk front quoted decoded middle back =>
      simp only [List.append_assoc, List.cons_append]
      rw [skipSpaces_append front, skipSpaces_cons (by decide)]
      exact ⟨_, rfl⟩

private theorem parsed_array (inside : Derives numbers (.items items) body)
    (ih : Parsed numbers body (.items items)) :
    Parsed numbers ('[' :: (body ++ [']'])) (.value (.array items)) := by
  intro fuel rest hfuel hrest
  cases fuel with
  | zero => simp at hfuel
  | succ fuel =>
    simp only [List.length_cons, List.length_append, List.length_nil] at hfuel
    rw [parseValue, List.cons_append, skipSpaces_cons (by decide), List.append_assoc,
      List.singleton_append]
    cases items with
    | nil =>
      cases inside with
      | noItems spaces =>
        simp only [skipSpaces_append spaces, skipSpaces_cons (show isSpace ']' = false by decide)]
    | cons item more =>
      have ⟨c, tail, hskip, hc⟩ := skipSpaces_items inside (']' :: rest)
      have hparse := ih (by simp) fuel rest (by omega)
      simp only [hskip]
      split
      · next heq => exact absurd (List.cons.inj heq).1 (isHead_spec hc).2.1
      · rw [hparse]
        rfl

private theorem parsed_object {members : List (String × Json N)}
    (inside : Derives numbers (.members members) body) (ih : Parsed numbers body (.members members))
    :
    Parsed numbers ('\x7b' :: (body ++ ['\x7d'])) (.value (.object (insertFields [] members))) := by
  intro fuel rest hfuel hrest
  cases fuel with
  | zero => simp at hfuel
  | succ fuel =>
    simp only [List.length_cons, List.length_append, List.length_nil] at hfuel
    rw [parseValue, List.cons_append, skipSpaces_cons (by decide), List.append_assoc,
      List.singleton_append]
    cases members with
    | nil =>
      cases inside with
      | noMembers spaces =>
        simp only [skipSpaces_append spaces,
          skipSpaces_cons (show isSpace '\x7d' = false by decide)]
        rfl
    | cons member more =>
      have ⟨tail, hskip⟩ := skipSpaces_members inside ('\x7d' :: rest)
      have hparse := ih (by simp) fuel rest (by omega)
      simp only [hskip]
      rw [hparse]
      rfl

variable {after : List Char}

private theorem parsed_item {before : List Char} {item : Json N} (front : Blank before)
    (back : Blank after) (ih : Parsed numbers text (.value item)) (hfuel : text.length ≤ fuel)
    {next : Char} (hnext : isScalar next = false) (rest : List Char) :
    parseValue numbers fuel (before ++ text ++ after ++ next :: rest) =
      some (item, after ++ next :: rest) := by
  rw [List.append_assoc, List.append_assoc, parseValue_append front]
  exact ih fuel _ hfuel (ends_append back (ends_cons hnext rest))

private theorem parsed_member {name : String} (label : Label name front) (back : Blank after)
    (ih : Parsed numbers text (.value value)) (hfuel : text.length ≤ fuel) {next : Char}
    (hnext : isScalar next = false) (hspace : isSpace next = false) {rest : List Char}
    {result : Option (List (String × Json N) × List Char)}
    (hresult : (match next :: rest with
      | '\x7d' :: rest => some ([(name, value)], rest)
      | ',' :: rest =>
        (parseMembers numbers fuel rest).map fun (members, rest) ↦
          ((name, value) :: members, rest)
      | _ => none) = result) :
    parseMembers numbers (fuel + 1) (front ++ text ++ after ++ next :: rest) = result := by
  cases label with
  | mk before quoted decoded middle after' =>
    have hvalue := ih fuel (after ++ next :: rest) hfuel (ends_append back (ends_cons hnext rest))
    simp only [List.append_assoc, List.cons_append]
    rw [parseMembers, skipSpaces_append before, skipSpaces_cons (by decide)]
    simp only [parseString_append quoted decoded, skipSpaces_append middle,
      skipSpaces_cons (show isSpace ':' = false by decide), parseValue_append after', hvalue,
      skipSpaces_append back, skipSpaces_cons hspace]
    exact hresult

private theorem parsed {node : Node N} (h : Derives numbers node text) :
    Parsed numbers text node := by
  induction h with
  | scalar nonempty chars parsed => exact parsed_scalar nonempty chars parsed
  | string quoted decoded =>
    intro fuel rest hfuel hrest
    cases fuel with
    | zero => simp at hfuel
    | succ fuel =>
      rw [parseValue, List.cons_append, skipSpaces_cons (by decide), List.append_assoc,
        List.singleton_append]
      simp only [parseString_append quoted decoded, Option.map_some]
  | array inside ih => exact parsed_array inside ih
  | object inside ih => exact parsed_object inside ih
  | noItems => exact fun h ↦ absurd rfl h
  | lastItem front value back ih =>
    intro _ fuel rest hfuel
    simp only [List.length_append] at hfuel
    cases fuel with
    | zero => omega
    | succ fuel =>
      rw [parseItems, parsed_item front back ih (by omega) (by decide)]
      simp only [skipSpaces_append back, skipSpaces_cons (show isSpace ']' = false by decide)]
  | moreItems front value back more ihValue ihMore =>
    intro _ fuel rest hfuel
    simp only [List.length_append, List.length_cons] at hfuel
    cases fuel with
    | zero => omega
    | succ fuel =>
      rw [parseItems, List.append_assoc, List.cons_append,
        parsed_item front back ihValue (by omega) (by decide)]
      simp only [skipSpaces_append back, skipSpaces_cons (show isSpace ',' = false by decide)]
      rw [ihMore (by simp) fuel rest (by omega)]
      rfl
  | noMembers => exact fun h ↦ absurd rfl h
  | lastMember label inside back ih =>
    intro _ fuel rest hfuel
    simp only [List.length_append] at hfuel
    cases fuel with
    | zero => omega
    | succ fuel =>
      exact parsed_member label back ih (by omega) (by decide) (by decide) rfl
  | moreMembers label inside back more ihValue ihMore =>
    intro _ fuel rest hfuel
    simp only [List.length_append, List.length_cons] at hfuel
    cases fuel with
    | zero => omega
    | succ fuel =>
      rw [List.append_assoc, List.cons_append,
        parsed_member label back ihValue (by omega) (by decide) (by decide) rfl]
      simp only
      rw [ihMore (by simp) fuel rest (by omega)]
      rfl

/-- The parser accepts every text that stands for a value. -/
theorem fromStr_of_derives {before inner : List Char} (hbefore : Blank before)
    (hafter : Blank after) (h : Derives numbers (.value value) inner) :
    fromStr numbers (before ++ inner ++ after) = some value := by
  have hends : Ends after := by
    rw [← List.append_nil after]
    exact ends_append hafter ends_nil
  have hparse : parseValue numbers ((before ++ inner ++ after).length + 1)
      (before ++ inner ++ after) = some (value, after) := by
    rw [List.append_assoc, parseValue_append hbefore]
    apply parsed h _ _ _ hends
    simp only [List.length_append]
    omega
  rw [fromStr, hparse]
  simp only
  rw [if_pos (List.all_eq_true.mpr hafter)]

/-! ### Values that are read or printed -/

/-- Every value in a node is well formed. -/
def Node.WellFormed : Node N → Prop
  | .value v => v.WellFormed
  | .items vs => ∀ v ∈ vs, v.WellFormed
  | .members fields => ∀ field ∈ fields, field.2.WellFormed

/-- What is read is well formed. -/
theorem Derives.wellFormed {node : Node N} (h : Derives numbers node text) :
    node.WellFormed := by
  induction h with
  | scalar nonempty chars parsed =>
    unfold parseScalar at parsed
    split at parsed
    · cases parsed
      trivial
    · split at parsed
      · cases parsed
        trivial
      · split at parsed
        · cases parsed
          trivial
        · have ⟨n, _, hn⟩ := Option.map_eq_some_iff.mp parsed
          cases hn
          trivial
  | string => trivial
  | array inside ih => exact wellFormedItems_iff.mpr ih
  | object inside ih =>
    constructor
    · exact insertFields_unique (show fieldsUnique [] by simp [fieldsUnique]) _
    · apply wellFormedFields_iff.mpr
      intro field hfield
      cases mem_insertFields hfield with
      | inl hnone => cases hnone
      | inr hmember => exact ih field hmember
  | noItems | noMembers => exact fun _ h ↦ nomatch h
  | lastItem front value back ih =>
    intro item hitem
    rw [List.mem_singleton.mp hitem]
    exact ih
  | moreItems front value back more ihValue ihMore =>
    intro item hitem
    cases hitem with
    | head => exact ihValue
    | tail _ hmem => exact ihMore item hmem
  | lastMember label inside back ih =>
    intro member hmember
    rw [List.mem_singleton.mp hmember]
    exact ih
  | moreMembers label inside back more ihValue ihMore =>
    intro member hmember
    cases hmember with
    | head => exact ihValue
    | tail _ hmem => exact ihMore member hmem

/-- Indent every line but the first. -/
def reindent (width : Nat) (text : List Char) : List Char :=
  text.flatMap fun c ↦ if c = '\n' then '\n' :: List.replicate width ' ' else [c]

theorem reindent_zero (text : List Char) : reindent 0 text = text := by
  have hsame : (fun c ↦ if c = '\n' then '\n' :: List.replicate 0 ' ' else [c]) =
      fun c : Char ↦ [c] := by
    funext c
    split
    · next h => rw [h]; rfl
    · rfl
  rw [reindent, hsame, List.flatMap_singleton']

section Pretty

variable (width : Nat)

private theorem reindent_append (front back : List Char) :
    reindent width (front ++ back) = reindent width front ++ reindent width back :=
  List.flatMap_append

private theorem reindent_nil : reindent width [] = [] := rfl

theorem reindent_cons (h : c ≠ '\n') (rest : List Char) :
    reindent width (c :: rest) = c :: reindent width rest := by
  simp [reindent, h]

private theorem reindent_of_not_mem (h : '\n' ∉ text) : reindent width text = text := by
  induction text with
  | nil => rfl
  | cons c rest ih =>
    rw [reindent_cons width (fun hc ↦ h (hc ▸ List.mem_cons_self)),
      ih fun hmem ↦ h (List.mem_cons_of_mem _ hmem)]

private theorem blank_reindent_newline (depth : Nat) : Blank (reindent width (newline depth)) := by
  intro c hc
  have ⟨d, hd, hmem⟩ := List.mem_flatMap.mp hc
  split at hmem
  · cases hmem with
    | head => decide
    | tail _ hmem =>
      rw [List.eq_of_mem_replicate hmem]
      decide
  · next hline =>
    rw [List.mem_singleton.mp hmem]
    cases hd with
    | head => exact absurd rfl hline
    | tail _ hmem =>
      rw [List.eq_of_mem_replicate hmem]
      decide

/-- A string in its quotes has no control characters. -/
theorem le_toNat_of_mem_quote {s : String} {d : Char} (h : d ∈ quote s) : 0x20 ≤ d.toNat := by
  have hescape : ∀ c, ∀ d ∈ escapeChar c, 0x20 ≤ d.toNat := by
    intro c
    unfold escapeChar
    split
    · next short hshort =>
      have ⟨front, back, hsplit, _⟩ := List.lookup_eq_some_iff.mp hshort
      have hmem : (c, short) ∈ shortEscapes := by
        rw [hsplit]
        simp
      have htable : ∀ pair ∈ shortEscapes, ∀ d ∈ ['\\', pair.2], 0x20 ≤ d.toNat := by decide
      exact htable _ hmem
    · split
      · have hhex : ∀ n < 16, 0x20 ≤ (hexChar n).toNat := by decide
        have hhigh := hhex (c.toNat / 16) (by omega)
        have hlow := hhex (c.toNat % 16) (by omega)
        simp [hhigh, hlow]
      · next hcontrol =>
        intro d hd
        rw [List.mem_singleton.mp hd]
        exact Nat.le_of_not_lt hcontrol
  simp only [quote, encodeString, List.mem_cons, List.mem_append, List.mem_flatMap,
    List.not_mem_nil, or_false] at h
  obtain rfl | ⟨c, _, hd⟩ | rfl := h
  · decide
  · exact hescape c d hd
  · decide

private theorem newline_not_mem_quote (s : String) : '\n' ∉ quote s := by
  intro h
  have := le_toNat_of_mem_quote h
  revert this
  decide

private theorem isScalar_of_isNumberChar (h : isNumberChar c = true) :
    isScalar c = true ∧ c ≠ '\n' := by
  simp only [isNumberChar, Bool.or_eq_true, beq_iff_eq] at h
  obtain ((((h | rfl) | rfl) | rfl) | rfl) | rfl := h
  · have hne : ∀ d, d.isDigit = false → c ≠ d := by
      intro d hd heq
      rw [heq, hd] at h
      cases h
    simp [isScalar, isSpace, hne]
  all_goals decide

/-- The number's text stands for it. -/
theorem derives_number (n : N) : Derives numbers (.value (.number n)) (numbers.print n) := by
  have hparse := numbers.parse_print n
  have hchars := numbers.parse_chars _ _ hparse
  have hword : ∀ word : List Char, word.all isNumberChar = false → numbers.print n ≠ word := by
    intro word hother heq
    rw [← heq, List.all_eq_true.mpr hchars] at hother
    cases hother
  apply Derives.scalar
  · intro hempty
    rw [hempty, numbers.parse_nil] at hparse
    cases hparse
  · exact fun c hc ↦ (isScalar_of_isNumberChar (hchars c hc)).1
  · rw [parseScalar, if_neg (hword _ (by decide)), if_neg (hword _ (by decide)),
      if_neg (hword _ (by decide)), hparse]
    rfl

private theorem reindent_number (n : N) :
    reindent width (numbers.print n) = numbers.print n := by
  apply reindent_of_not_mem
  intro hmem
  exact (isScalar_of_isNumberChar (numbers.parse_chars _ _ (numbers.parse_print n) _ hmem)).2 rfl

private theorem derives_quote (s : String) : Derives numbers (.value (.string s)) (quote s) := by
  have h : Derives numbers (.value (.string (String.ofList s.toList))) (quote s) :=
    .string (quoted_encodeString s) (decodeString_encodeString s)
  rwa [String.ofList_toList] at h

private theorem derives_word {word : List Char} (hnonempty : word ≠ [])
    (hchars : ∀ c ∈ word, isScalar c = true ∧ c ≠ '\n')
    (hparse : parseScalar numbers word = some value) :
    Derives numbers (.value value) (reindent width word) := by
  rw [reindent_of_not_mem]
  · exact .scalar hnonempty (fun c hc ↦ (hchars c hc).1) hparse
  · exact fun hmem ↦ (hchars _ hmem).2 rfl

private theorem derives_prettyItems (depth inner : Nat) (item : Json N) (rest : List (Json N))
    (h : ∀ v ∈ item :: rest,
      Derives numbers (.value v) (reindent width (pretty numbers inner v))) :
    Derives numbers (.items (item :: rest)) (reindent width (newline inner ++
      pretty numbers inner item ++ prettyItems numbers inner rest ++ newline depth)) := by
  have hfront := blank_reindent_newline width inner
  have hback := blank_reindent_newline width depth
  induction rest generalizing item with
  | nil =>
    simp only [prettyItems, List.append_nil, reindent_append]
    exact .lastItem hfront (h item List.mem_cons_self) hback
  | cons next rest ih =>
    have hmore := ih next fun v hv ↦ h v (List.mem_cons_of_mem _ hv)
    have hitem := Derives.moreItems hfront (h item List.mem_cons_self) blank_nil hmore
    simpa [prettyItems, reindent_append, reindent_cons] using hitem

private theorem label_quote (inner : Nat) (key : String) :
    Label key (reindent width (newline inner ++ quote key ++ ": ".toList)) := by
  have h := Label.mk (blank_reindent_newline width inner) (quoted_encodeString key)
    (decodeString_encodeString key) blank_nil (show Blank [' '] by simp [isSpace])
  rw [String.ofList_toList] at h
  rw [reindent_append, reindent_append, reindent_of_not_mem width (newline_not_mem_quote key),
    reindent_of_not_mem width (show '\n' ∉ ": ".toList by decide)]
  simpa [quote] using h

private theorem derives_prettyFields (depth inner : Nat) (key : String) (value : Json N)
    (rest : List (String × Json N))
    (h : ∀ field ∈ (key, value) :: rest,
      Derives numbers (.value field.2) (reindent width (pretty numbers inner field.2))) :
    Derives numbers (.members ((key, value) :: rest)) (reindent width (newline inner ++
      quote key ++ ": ".toList ++ pretty numbers inner value ++
      prettyFields numbers inner rest ++ newline depth)) := by
  have hback := blank_reindent_newline width depth
  induction rest generalizing key value with
  | nil =>
    have hfield := Derives.lastMember (label_quote width inner key) (h _ List.mem_cons_self) hback
    simpa only [prettyFields, List.append_nil, reindent_append] using hfield
  | cons next rest ih =>
    have ⟨nextKey, nextValue⟩ := next
    have hmore := ih nextKey nextValue fun field hfield ↦ h field (List.mem_cons_of_mem _ hfield)
    have hfield := Derives.moreMembers (label_quote width inner key) (h _ List.mem_cons_self)
      blank_nil hmore
    simpa [prettyFields, reindent_append, reindent_cons, reindent_nil] using hfield

/-- No control characters but line breaks. -/
def Printable (text : List Char) : Prop := ∀ c ∈ text, c = '\n' ∨ 0x20 ≤ c.toNat

/-- Whether a text can be printed is decidable. -/
instance (text : List Char) : Decidable (Printable text) :=
  inferInstanceAs (Decidable (∀ c ∈ text, c = '\n' ∨ 0x20 ≤ c.toNat))

private theorem printable_append {back : List Char} :
    Printable (front ++ back) ↔ Printable front ∧ Printable back := by
  simp only [Printable, List.mem_append]
  constructor
  · intro h
    exact ⟨fun c hc ↦ h c (.inl hc), fun c hc ↦ h c (.inr hc)⟩
  · intro h c hc
    exact hc.elim (h.1 c) (h.2 c)

private theorem printable_cons :
    Printable (c :: rest) ↔ (c = '\n' ∨ 0x20 ≤ c.toNat) ∧ Printable rest := by
  simp [Printable]

private theorem printable_newline (depth : Nat) : Printable (newline depth) := by
  intro c hc
  cases hc with
  | head => exact Or.inl rfl
  | tail _ hmem =>
    rw [List.eq_of_mem_replicate hmem]
    decide

private theorem printable_quote (s : String) : Printable (quote s) :=
  fun _ hc ↦ Or.inr (le_toNat_of_mem_quote hc)

private theorem printable_items {depth : Nat}
    (h : ∀ item ∈ items, Printable (pretty numbers depth item)) :
    Printable (prettyItems numbers depth items) := by
  induction items with
  | nil => simp [prettyItems, Printable]
  | cons item rest ih =>
    rw [prettyItems]
    simp only [printable_append, printable_cons]
    exact ⟨by decide, ⟨printable_newline depth, h item List.mem_cons_self⟩,
      ih fun other hother ↦ h other (List.mem_cons_of_mem _ hother)⟩

private theorem printable_fields {depth : Nat} {fields : List (String × Json N)}
    (h : ∀ field ∈ fields, Printable (pretty numbers depth field.2)) :
    Printable (prettyFields numbers depth fields) := by
  induction fields with
  | nil => simp [prettyFields, Printable]
  | cons field rest ih =>
    have ⟨key, value⟩ := field
    rw [prettyFields]
    simp only [printable_append, printable_cons]
    exact ⟨by decide, ⟨⟨⟨printable_newline depth, printable_quote key⟩, by decide⟩,
      h _ List.mem_cons_self⟩, ih fun other hother ↦ h other (List.mem_cons_of_mem _ hother)⟩

/-- What is printed has no control characters but line breaks. -/
theorem printable_pretty (value : Json N) (depth : Nat) :
    Printable (pretty numbers depth value) := by
  induction value using Json.inductionOn generalizing depth with
  | null =>
    rw [pretty]
    decide
  | bool value =>
    cases value with
    | true =>
      rw [pretty]
      decide
    | false =>
      rw [pretty]
      decide
  | number n =>
    intro c hc
    have hchar := numbers.parse_chars _ _ (numbers.parse_print n) c hc
    apply Or.inr
    by_contra hcontrol
    have hcode : ∀ code < 0x20, isNumberChar (Char.ofNat code) = false := by decide
    have := hcode c.toNat (Nat.lt_of_not_le hcontrol)
    rw [Char.ofNat_toNat, hchar] at this
    cases this
  | string s =>
    rw [pretty]
    exact printable_quote s
  | array items ih =>
    cases items with
    | nil =>
      rw [pretty]
      decide
    | cons item rest =>
      rw [pretty]
      simp only [printable_append, printable_cons]
      exact ⟨by decide, ⟨⟨⟨printable_newline _, ih item List.mem_cons_self _⟩,
        printable_items fun other hother ↦ ih other (List.mem_cons_of_mem _ hother) _⟩,
        printable_newline _⟩, by decide, by simp [Printable]⟩
  | object fields ih =>
    cases fields with
    | nil =>
      rw [pretty]
      decide
    | cons field rest =>
      have ⟨key, value⟩ := field
      rw [pretty]
      simp only [printable_append, printable_cons]
      exact ⟨by decide, ⟨⟨⟨⟨⟨printable_newline _, printable_quote key⟩, by decide⟩,
        ih _ List.mem_cons_self _⟩,
        printable_fields fun other hother ↦ ih other (List.mem_cons_of_mem _ hother) _⟩,
        printable_newline _⟩, by decide, by simp [Printable]⟩

/-- The printed text of a well-formed value stands for it, at any indentation. -/
theorem derives_pretty (value : Json N) (h : value.WellFormed) (depth : Nat) :
    Derives numbers (.value value) (reindent width (pretty numbers depth value)) := by
  induction value using Json.inductionOn generalizing depth with
  | null =>
    rw [pretty]
    exact derives_word width (by decide) (by decide) rfl
  | bool value =>
    cases value with
    | true =>
      rw [pretty]
      exact derives_word width (by decide) (by decide) rfl
    | false =>
      rw [pretty]
      exact derives_word width (by decide) (by decide) rfl
  | number n =>
    rw [pretty, reindent_number]
    exact derives_number n
  | string s =>
    rw [pretty, reindent_of_not_mem width (newline_not_mem_quote s)]
    exact derives_quote s
  | array items ih =>
    have hitems := wellFormedItems_iff.mp h
    cases items with
    | nil => exact .array (.noItems blank_nil)
    | cons item rest =>
      have hinside := derives_prettyItems width depth (depth + 1) item rest
        fun v hv ↦ ih v hv (hitems v hv) (depth + 1)
      rw [pretty, reindent_cons width (by decide), reindent_append,
        reindent_of_not_mem width (show '\n' ∉ [']'] by decide)]
      exact .array hinside
  | object fields ih =>
    have ⟨hunique, hfields⟩ := h
    have hfields := wellFormedFields_iff.mp hfields
    have hfold : insertFields [] fields = fields := insertFields_of_unique hunique
    cases fields with
    | nil => exact .object (.noMembers blank_nil)
    | cons field rest =>
      have ⟨key, value⟩ := field
      have hinside := derives_prettyFields width depth (depth + 1) key value rest
        fun field hfield ↦ ih field hfield (hfields field hfield) (depth + 1)
      have hobject := Derives.object hinside
      rw [hfold] at hobject
      rw [pretty, reindent_cons width (by decide), reindent_append,
        reindent_of_not_mem width (show '\n' ∉ ['\x7d'] by decide)]
      exact hobject

end Pretty

end Bootty.Base.Json
