import Bootty.Base.JsonGrammar
import Bootty.Config.KeymapJsonc

/-!
# Scanning keymap texts

How the scanners of keymap texts go through JSON, and how the removal of comments and trailing
commas behaves where a text is cut: outside of strings and next to a character that is not a
space.
-/

namespace Bootty.Config

open Bootty.Base
open Bootty.Base.Json (Blank Quoted Derives Numbers isSpace isHead isLast)

variable {N : Type} {numbers : Numbers N}

/-! ### The quotes -/

/-- The mode behind a text. -/
def track (mode : QuoteMode) (text : List Char) : QuoteMode := text.foldl QuoteMode.step mode

@[simp] theorem track_nil (mode : QuoteMode) : track mode [] = mode := rfl

@[simp] theorem track_cons (mode : QuoteMode) (c : Char) (rest : List Char) :
    track mode (c :: rest) = track (mode.step c) rest := rfl

@[simp] theorem track_append (mode : QuoteMode) (front back : List Char) :
    track mode (front ++ back) = track (track mode front) back :=
  List.foldl_append

variable {c : Char}

theorem step_code (h : c ≠ '"') : QuoteMode.step .code c = .code := by
  simp [QuoteMode.step, h]

theorem step_string (hquote : c ≠ '"') (hslash : c ≠ '\\') :
    QuoteMode.step .string c = .string := by
  simp [QuoteMode.step, hquote, hslash]

variable {body : List Char}

theorem track_quoted (h : Quoted body) : track .string body = .string := by
  induction h with
  | nil => rfl
  | escape c _ ih => exact ih
  | plain hquote hslash _ ih =>
    rw [track_cons, step_string hquote hslash]
    exact ih

/-- A character that does not begin a comment is copied. -/
theorem strip_cons {mode : QuoteMode} {rest : List Char} (h : mode = .code → c ≠ '/') :
    stripFrom (.quote mode) (c :: rest) =
      (stripFrom (.quote (mode.step c)) rest).map (c :: ·) := by
  rw [stripFrom]
  · intro rest hmode hc
    exact absurd hc (h hmode)
  · intro rest hmode hc
    exact absurd hc (h hmode)

/-! ### Texts with matching brackets -/

/-- A text with whole strings and matching brackets, without comments; commas outside of brackets
only if `commas`. -/
inductive Balanced : Bool → List Char → Prop
  | nil (commas : Bool) : Balanced commas []
  | plain {commas : Bool} {c : Char} {rest : List Char}
      (other : c ∉ ['"', '[', ']', '\x7b', '\x7d', '/']) (comma : c = ',' → commas = true)
      (more : Balanced commas rest) : Balanced commas (c :: rest)
  | quoted {commas : Bool} {body rest : List Char} (inside : Quoted body)
      (more : Balanced commas rest) : Balanced commas ('"' :: (body ++ '"' :: rest))
  | array {commas : Bool} {inner rest : List Char} (inside : Balanced true inner)
      (more : Balanced commas rest) : Balanced commas ('[' :: (inner ++ ']' :: rest))
  | object {commas : Bool} {inner rest : List Char} (inside : Balanced true inner)
      (more : Balanced commas rest) : Balanced commas ('\x7b' :: (inner ++ '\x7d' :: rest))

variable {text : List Char}

namespace Balanced

variable {commas : Bool}

theorem mono (h : Balanced commas text) :
    Balanced true text := by
  induction h with
  | nil => exact .nil true
  | plain other _ _ ih => exact .plain other (fun _ ↦ rfl) ih
  | quoted inside _ ih => exact .quoted inside ih
  | array inside _ _ ih => exact .array inside ih
  | object inside _ _ ih => exact .object inside ih

/-- Balanced texts one after the other. -/
theorem append {front back : List Char} (hfront : Balanced commas front)
    (hback : Balanced commas back) : Balanced commas (front ++ back) := by
  induction hfront with
  | nil => exact hback
  | plain other comma _ ih => exact .plain other comma (ih hback)
  | quoted inside _ ih =>
    have h := Balanced.quoted inside (ih hback)
    simpa using h
  | array inside _ _ ih =>
    have h := Balanced.array inside (ih hback)
    simpa using h
  | object inside _ _ ih =>
    have h := Balanced.object inside (ih hback)
    simpa using h

theorem of_blank (h : Blank text) (commas : Bool) : Balanced commas text := by
  induction text with
  | nil => exact .nil commas
  | cons c rest ih =>
    have ⟨hc, hrest⟩ := Json.blank_cons.mp h
    have hother : ∀ d, isSpace d = false → c ≠ d := by
      intro d hd heq
      rw [heq, hd] at hc
      cases hc
    apply Balanced.plain
    · intro hmem
      have htable : ∀ d ∈ ['"', '[', ']', '\x7b', '\x7d', '/'], isSpace d = false := by decide
      exact hother c (htable c hmem) rfl
    · intro hcomma
      exact absurd hcomma (hother ',' (by decide))
    · exact ih hrest

private theorem ne_of_other {d : Char} (h : c ∉ ['"', '[', ']', '\x7b', '\x7d', '/'])
    (hd : d ∈ ['"', '[', ']', '\x7b', '\x7d', '/']) : c ≠ d := by
  intro heq
  exact h (heq ▸ hd)

/-- The mode behind a balanced text is the one in front of it. -/
theorem track_eq (h : Balanced commas text) :
    track .code text = .code := by
  induction h with
  | nil => rfl
  | plain other _ _ ih =>
    rw [track_cons, step_code (ne_of_other other (by decide))]
    exact ih
  | quoted inside _ ih =>
    show track .string (_ ++ '"' :: _) = .code
    rw [track_append, track_quoted inside]
    exact ih
  | array inside _ ihInside ih | object inside _ ihInside ih =>
    show track .code (_ ++ _ :: _) = .code
    rw [track_append, ihInside]
    exact ih

/-- The inside of a string is copied. -/
theorem strip_inside (h : Quoted body) (rest : List Char) :
    stripFrom (.quote .string) (body ++ rest) =
      (stripFrom (.quote .string) rest).map (body ++ ·) := by
  have hstring : ∀ c tail, stripFrom (.quote .string) (c :: tail) =
      (stripFrom (.quote (QuoteMode.step .string c)) tail).map (c :: ·) :=
    fun _ _ ↦ strip_cons fun h ↦ nomatch h
  have hescaped : ∀ c tail, stripFrom (.quote .escaped) (c :: tail) =
      (stripFrom (.quote .string) tail).map (c :: ·) :=
    fun _ _ ↦ strip_cons fun h ↦ nomatch h
  induction h with
  | nil => simp
  | escape c _ ih =>
    rw [List.cons_append, hstring, List.cons_append]
    show (stripFrom (.quote .escaped) _).map _ = _
    rw [hescaped, ih]
    simp [Function.comp_def]
  | @plain c tail hquote hslash _ ih =>
    rw [List.cons_append, hstring, step_string hquote hslash, ih]
    simp [Function.comp_def]

theorem strip_quoted (h : Quoted body) (rest : List Char) :
    stripFrom (.quote .string) (body ++ '"' :: rest) =
      (stripFrom (.quote .code) rest).map (body ++ '"' :: ·) := by
  have hclose : stripFrom (.quote .string) ('"' :: rest) =
      (stripFrom (.quote .code) rest).map ('"' :: ·) := strip_cons fun h ↦ nomatch h
  rw [strip_inside h, hclose]
  simp [Function.comp_def]

/-- A balanced text has no comments. -/
theorem strip_append (h : Balanced commas text) (rest : List Char) :
    stripFrom (.quote .code) (text ++ rest) =
      (stripFrom (.quote .code) rest).map (text ++ ·) := by
  induction h generalizing rest with
  | nil => simp
  | plain other _ _ ih =>
    rw [List.cons_append, strip_cons fun _ ↦ ne_of_other other (by decide),
      step_code (ne_of_other other (by decide)), ih]
    simp [Function.comp_def]
  | @quoted _ body tail inside _ ih =>
    rw [List.cons_append, strip_cons (by decide)]
    show (stripFrom (.quote .string) (body ++ '"' :: tail ++ rest)).map ('"' :: ·) = _
    rw [List.append_assoc, List.cons_append, strip_quoted inside, ih]
    simp [Function.comp_def]
  | @array _ inner tail inside _ ihInside ih | @object _ inner tail inside _ ihInside ih =>
    rw [List.cons_append, strip_cons (by decide), step_code (by decide), List.append_assoc,
      ihInside, List.cons_append, strip_cons (by decide), step_code (by decide), ih]
    simp [Function.comp_def]

private theorem matching_cons {mode : QuoteMode} (h : mode = .code → c ≠ '[' ∧ c ≠ ']')
    (index depth : Nat) (rest : List Char) :
    matchingDelimiterFrom '[' ']' index depth mode (c :: rest) =
      matchingDelimiterFrom '[' ']' (index + c.utf8Size) depth (mode.step c) rest := by
  rw [matchingDelimiterFrom, if_neg fun hc ↦ (h hc.1).1 hc.2, if_neg fun hc ↦ (h hc.1).2 hc.2]

private theorem matching_quoted (h : Quoted body) (index depth : Nat) (rest : List Char) :
    matchingDelimiterFrom '[' ']' index depth .string (body ++ '"' :: rest) =
      matchingDelimiterFrom '[' ']' (index + byteLength body + 1) depth .code rest := by
  induction h generalizing index with
  | nil => rfl
  | @escape c tail _ ih =>
    have hescape : matchingDelimiterFrom '[' ']' index depth .string
        ('\\' :: c :: (tail ++ '"' :: rest)) = matchingDelimiterFrom '[' ']'
          (index + 1 + c.utf8Size) depth .string (tail ++ '"' :: rest) := rfl
    rw [List.cons_append, List.cons_append, hescape, ih]
    simp only [byteLength_cons, Nat.add_assoc]
    rfl
  | @plain c tail hquote hslash _ ih =>
    have hplain : matchingDelimiterFrom '[' ']' index depth .string (c :: (tail ++ '"' :: rest)) =
        matchingDelimiterFrom '[' ']' (index + c.utf8Size) depth (QuoteMode.step .string c)
          (tail ++ '"' :: rest) := rfl
    rw [List.cons_append, hplain, step_string hquote hslash, ih]
    simp only [byteLength_cons, Nat.add_assoc]

/-- Inside the root array a balanced text does not end it. -/
theorem matching_append (h : Balanced commas text) (index depth : Nat) (hdepth : 0 < depth)
    (rest : List Char) :
    matchingDelimiterFrom '[' ']' index depth .code (text ++ rest) =
      matchingDelimiterFrom '[' ']' (index + byteLength text) depth .code rest := by
  induction h generalizing index depth rest with
  | nil => simp
  | plain other _ _ ih =>
    rw [List.cons_append, matching_cons fun _ ↦ ⟨ne_of_other other (by decide),
      ne_of_other other (by decide)⟩, step_code (ne_of_other other (by decide)), ih _ _ hdepth]
    simp only [byteLength_cons, Nat.add_assoc]
  | @quoted _ body tail inside _ ih =>
    rw [List.cons_append, matching_cons (by decide)]
    show matchingDelimiterFrom '[' ']' _ depth .string (body ++ '"' :: tail ++ rest) = _
    rw [List.append_assoc, List.cons_append, matching_quoted inside, ih _ _ hdepth]
    simp only [byteLength_cons, byteLength_append, Nat.add_assoc]
    rfl
  | @array _ inner tail inside _ ihInside ih =>
    have hopen : matchingDelimiterFrom '[' ']' index depth .code
        ('[' :: (inner ++ ']' :: (tail ++ rest))) =
          matchingDelimiterFrom '[' ']' (index + 1) (depth + 1) .code
            (inner ++ ']' :: (tail ++ rest)) := rfl
    have hclose : matchingDelimiterFrom '[' ']' (index + 1 + byteLength inner) (depth + 1) .code
        (']' :: (tail ++ rest)) =
          matchingDelimiterFrom '[' ']' (index + 1 + byteLength inner + 1) depth .code
            (tail ++ rest) := by
      rw [matchingDelimiterFrom, if_neg (by decide), if_pos (by decide), if_neg (by omega),
        if_neg (by omega)]
      rfl
    rw [List.cons_append, List.append_assoc, List.cons_append, hopen,
      ihInside _ _ (Nat.succ_pos _), hclose, ih _ _ hdepth]
    simp only [byteLength_cons, byteLength_append, Nat.add_assoc]
    rfl
  | @object _ inner tail inside _ ihInside ih =>
    rw [List.cons_append, matching_cons (by decide), step_code (by decide), List.append_assoc,
      List.cons_append, ihInside _ _ hdepth, matching_cons (by decide), step_code (by decide),
      ih _ _ hdepth]
    simp only [byteLength_cons, byteLength_append, Nat.add_assoc]

/-! The elements of the root array -/

section Elements

variable (contents : List Char) (close : Nat)

private theorem elements_quoted (h : Quoted body) (index start objectDepth arrayDepth : Nat)
    (rest : List Char) :
    elementsFrom contents close index start objectDepth arrayDepth .string
        (body ++ '"' :: rest) =
      elementsFrom contents close (index + byteLength body + 1) start objectDepth arrayDepth .code
        rest := by
  induction h generalizing index with
  | nil => rfl
  | @escape c tail _ ih =>
    have hescape : elementsFrom contents close index start objectDepth arrayDepth .string
        ('\\' :: c :: (tail ++ '"' :: rest)) = elementsFrom contents close
          (index + 1 + c.utf8Size) start objectDepth arrayDepth .string (tail ++ '"' :: rest) := rfl
    rw [List.cons_append, List.cons_append, hescape, ih]
    simp only [byteLength_cons, Nat.add_assoc]
    rfl
  | @plain c tail hquote hslash _ ih =>
    have hplain : elementsFrom contents close index start objectDepth arrayDepth .string
        (c :: (tail ++ '"' :: rest)) = elementsFrom contents close (index + c.utf8Size) start
          objectDepth arrayDepth (QuoteMode.step .string c) (tail ++ '"' :: rest) := rfl
    rw [List.cons_append, hplain, step_string hquote hslash, ih]
    simp only [byteLength_cons, Nat.add_assoc]

private theorem elements_cons (h : c ∉ ['"', '[', ']', '\x7b', '\x7d', '/'])
    {objectDepth arrayDepth : Nat} (hcomma : c = ',' → ¬ (objectDepth = 0 ∧ arrayDepth = 0))
    (index start : Nat) (rest : List Char) :
    elementsFrom contents close index start objectDepth arrayDepth .code (c :: rest) =
      elementsFrom contents close (index + c.utf8Size) start objectDepth arrayDepth .code
        rest := by
  have hquote : c ≠ '"' := ne_of_other h (by decide)
  conv_lhs => unfold elementsFrom
  simp only [if_true]
  split
  · exact absurd (by decide) h
  · exact absurd (by decide) h
  · exact absurd (by decide) h
  · exact absurd (by decide) h
  · rw [if_neg (hcomma rfl)]
  · rw [step_code hquote]

/-- A balanced text without commas, or inside an element, is part of the element. -/
theorem elements_append (h : Balanced commas text) (index start objectDepth arrayDepth : Nat)
    (hdepth : commas = true → ¬ (objectDepth = 0 ∧ arrayDepth = 0)) (rest : List Char) :
    elementsFrom contents close index start objectDepth arrayDepth .code (text ++ rest) =
      elementsFrom contents close (index + byteLength text) start objectDepth arrayDepth .code
        rest := by
  induction h generalizing index objectDepth arrayDepth rest with
  | nil => simp
  | @plain _ c tail other comma _ ih =>
    rw [List.cons_append, elements_cons contents close other fun hc ↦ hdepth (comma hc),
      ih _ _ _ hdepth]
    simp only [byteLength_cons, Nat.add_assoc]
  | @quoted _ body tail inside _ ih =>
    have hopen : elementsFrom contents close index start objectDepth arrayDepth .code
        ('"' :: (body ++ '"' :: (tail ++ rest))) = elementsFrom contents close (index + 1) start
          objectDepth arrayDepth .string (body ++ '"' :: (tail ++ rest)) := rfl
    rw [List.cons_append, List.append_assoc, List.cons_append, hopen,
      elements_quoted contents close inside, ih _ _ _ hdepth]
    simp only [byteLength_cons, byteLength_append, Nat.add_assoc]
    rfl
  | @array _ inner tail inside _ ihInside ih =>
    have hopen : elementsFrom contents close index start objectDepth arrayDepth .code
        ('[' :: (inner ++ ']' :: (tail ++ rest))) = elementsFrom contents close (index + 1) start
          objectDepth (arrayDepth + 1) .code (inner ++ ']' :: (tail ++ rest)) := rfl
    have hclose : elementsFrom contents close (index + 1 + byteLength inner) start objectDepth
        (arrayDepth + 1) .code (']' :: (tail ++ rest)) = elementsFrom contents close
          (index + 1 + byteLength inner + 1) start objectDepth arrayDepth .code
            (tail ++ rest) := rfl
    rw [List.cons_append, List.append_assoc, List.cons_append, hopen,
      ihInside _ _ _ (fun _ ↦ by omega), hclose, ih _ _ _ hdepth]
    simp only [byteLength_cons, byteLength_append, Nat.add_assoc]
    rfl
  | @object _ inner tail inside _ ihInside ih =>
    have hopen : elementsFrom contents close index start objectDepth arrayDepth .code
        ('\x7b' :: (inner ++ '\x7d' :: (tail ++ rest))) = elementsFrom contents close (index + 1)
          start (objectDepth + 1) arrayDepth .code (inner ++ '\x7d' :: (tail ++ rest)) := rfl
    have hclose : elementsFrom contents close (index + 1 + byteLength inner) start
        (objectDepth + 1) arrayDepth .code ('\x7d' :: (tail ++ rest)) = elementsFrom contents close
          (index + 1 + byteLength inner + 1) start objectDepth arrayDepth .code
            (tail ++ rest) := rfl
    rw [List.cons_append, List.append_assoc, List.cons_append, hopen,
      ihInside _ _ _ (fun _ ↦ by omega), hclose, ih _ _ _ hdepth]
    simp only [byteLength_cons, byteLength_append, Nat.add_assoc]
    rfl

end Elements

end Balanced

private theorem balanced_word {word : List Char}
    (h : ∀ c ∈ word, Json.isWordChar c = true) : Balanced false word := by
  induction word with
  | nil => exact .nil false
  | cons c rest ih =>
    have hc := h c List.mem_cons_self
    apply Balanced.plain
    · intro hmem
      have htable : ∀ d ∈ ['"', '[', ']', '\x7b', '\x7d', '/'], Json.isWordChar d = false := by
        decide
      rw [htable c hmem] at hc
      cases hc
    · intro hcomma
      rw [hcomma] at hc
      cases hc
    · exact ih fun d hd ↦ h d (List.mem_cons_of_mem _ hd)

/-- The commas of a node that stand outside of brackets. -/
private def hasCommas : Json.Node N → Bool
  | .value _ => false
  | _ => true

private theorem balanced_label {name : String} (h : Json.Label name text) :
    Balanced true text := by
  cases h with
  | mk front quoted decoded middle back =>
    apply (Balanced.of_blank front true).append
    apply Balanced.quoted quoted
    apply (Balanced.of_blank middle true).append
    exact .plain (by decide) (by decide) (.of_blank back true)

private theorem balanced_node {node : Json.Node N} (h : Derives numbers node text) :
    Balanced (hasCommas node) text := by
  induction h with
  | scalar _ _ parsed => exact balanced_word (Json.parseScalar_chars parsed)
  | string quoted => exact .quoted quoted (.nil false)
  | array _ ih => exact .array ih (.nil false)
  | object _ ih => exact .object ih (.nil false)
  | noItems spaces | noMembers spaces => exact .of_blank spaces true
  | lastItem front _ back ih =>
    exact ((Balanced.of_blank front true).append ih.mono).append (.of_blank back true)
  | moreItems front _ back _ ihValue ihMore =>
    apply (((Balanced.of_blank front true).append ihValue.mono).append (.of_blank back true)).append
    exact .plain (by decide) (fun _ ↦ rfl) ihMore
  | lastMember label _ back ih =>
    exact ((balanced_label label).append ih.mono).append (.of_blank back true)
  | moreMembers label _ back _ ihValue ihMore =>
    apply (((balanced_label label).append ihValue.mono).append (.of_blank back true)).append
    exact .plain (by decide) (fun _ ↦ rfl) ihMore

/-- Values are balanced. -/
theorem balanced_value {value : Json N} (h : Derives numbers (.value value) text) :
    Balanced false text :=
  balanced_node h

/-- Items are balanced, their commas apart. -/
theorem balanced_items {items : List (Json N)} (h : Derives numbers (.items items) text) :
    Balanced true text :=
  balanced_node h

end Bootty.Config
