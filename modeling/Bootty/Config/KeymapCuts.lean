import Bootty.Config.KeymapScan

/-!
# Cutting keymap texts

A sanitized keymap is cut outside of strings and next to a character that is not a space. The text
can be cut at the same offset, and the two parts can be sanitized apart, up to a comma in front of
the cut: whether it is a trailing one depends on what follows.
-/

namespace Bootty.Config

open Bootty.Base
open Bootty.Base.Json (Blank Derives Numbers isSpace isHead isLast)

variable {N : Type} {numbers : Numbers N}

/-! ### Trailing commas -/

/-- `closes`, for a text that is followed by one that closes or not. -/
def closesOr (last : Bool) (rest : List Char) : Bool :=
  match rest.find? (!isAsciiWhitespace ·) with
  | some c => c == ']' || c == '\x7d'
  | none => last

/-- `removeTrailingCommasFrom`, for a text that is followed by one that closes or not. -/
def trailingFrom (last : Bool) : QuoteMode → List Char → List Char
  | _, [] => []
  | mode, c :: rest =>
    if mode = .code ∧ c = ',' ∧ closesOr last rest then ' ' :: trailingFrom last .code rest
    else c :: trailingFrom last (mode.step c) rest

private theorem trailingFrom_cons (last : Bool) (mode : QuoteMode) (c : Char) (rest : List Char) :
    trailingFrom last mode (c :: rest) =
      if mode = .code ∧ c = ',' ∧ closesOr last rest then ' ' :: trailingFrom last .code rest
      else c :: trailingFrom last (mode.step c) rest := rfl

/-- The scan by its mode. -/
theorem removeTrailingCommas_eq (text : List Char) :
    removeTrailingCommas text = trailingFrom false .code text := by
  have hfrom : ∀ mode, removeTrailingCommasFrom mode text = trailingFrom false mode text := by
    induction text with
    | nil => exact fun _ ↦ rfl
    | cons c rest ih =>
      intro mode
      rw [removeTrailingCommasFrom, trailingFrom_cons, ih, ih]
      rfl
  exact hfrom .code

theorem closesOr_append (last : Bool) (front back : List Char) :
    closesOr last (front ++ back) = closesOr (closesOr last back) front := by
  unfold closesOr
  rw [List.find?_append]
  cases front.find? (!isAsciiWhitespace ·) <;> rfl

variable {c : Char}

theorem closesOr_cons (h : isAsciiWhitespace c = false) (last : Bool) (rest : List Char) :
    closesOr last (c :: rest) = (c == ']' || c == '\x7d') := by
  simp [closesOr, h]

theorem closesOr_head (h : isHead c = true) (last : Bool) (rest : List Char) :
    closesOr last (c :: rest) = false := by
  have ⟨hspace, hbracket, hbrace, _⟩ := Json.isHead_spec h
  simp [closesOr_cons hspace, hbracket, hbrace]

variable {text : List Char}

theorem closesOr_spaces (h : ∀ c ∈ text, isAsciiWhitespace c = true) (last : Bool) :
    closesOr last text = last := by
  have hnone : text.find? (!isAsciiWhitespace ·) = none := by
    rw [List.find?_eq_none]
    intro c hc
    simp [h c hc]
  rw [closesOr, hnone]

/-- The parts of a text are treated one after the other. -/
theorem trailingFrom_append (last : Bool) (mode : QuoteMode) (front back : List Char) :
    trailingFrom last mode (front ++ back) =
      trailingFrom (closesOr last back) mode front ++
        trailingFrom last (track mode front) back := by
  induction front generalizing mode with
  | nil => rfl
  | cons c rest ih =>
    rw [List.cons_append, trailingFrom_cons, trailingFrom_cons, closesOr_append]
    split
    · next hcomma =>
      rw [ih, track_cons, hcomma.1, hcomma.2.1]
      rfl
    · rw [ih, track_cons, List.cons_append]

/-- The scan keeps the length. -/
theorem length_trailingFrom (last : Bool) (mode : QuoteMode) (text : List Char) :
    (trailingFrom last mode text).length = text.length := by
  induction text generalizing mode with
  | nil => rfl
  | cons c rest ih =>
    rw [trailingFrom_cons]
    split <;> rw [List.length_cons, ih, List.length_cons]

theorem byteLength_trailingFrom (last : Bool) (mode : QuoteMode) (text : List Char) :
    byteLength (trailingFrom last mode text) = byteLength text := by
  induction text generalizing mode with
  | nil => rfl
  | cons c rest ih =>
    rw [trailingFrom_cons]
    split
    · next hcomma =>
      rw [byteLength_cons, ih, byteLength_cons, hcomma.2.1]
      rfl
    · rw [byteLength_cons, ih, byteLength_cons]

/-- The scan keeps the strings. -/
theorem track_trailingFrom (last : Bool) (mode : QuoteMode) (text : List Char) :
    track mode (trailingFrom last mode text) = track mode text := by
  induction text generalizing mode with
  | nil => rfl
  | cons c rest ih =>
    rw [trailingFrom_cons]
    split
    · next hcomma =>
      rw [hcomma.1, hcomma.2.1]
      exact ih .code
    · rw [track_cons, track_cons, ih]

/-- The inside of a string is copied. -/
theorem trailingFrom_inside {body : List Char} (h : Json.Quoted body) (last : Bool)
    (rest : List Char) :
    trailingFrom last .string (body ++ rest) = body ++ trailingFrom last .string rest := by
  have hcopy : ∀ mode, mode ≠ .code → ∀ c tail, trailingFrom last mode (c :: tail) =
      c :: trailingFrom last (mode.step c) tail := by
    intro mode hmode c tail
    rw [trailingFrom_cons, if_neg fun hc ↦ hmode hc.1]
  induction h with
  | nil => rfl
  | escape c _ ih =>
    rw [List.cons_append, hcopy .string (by decide), List.cons_append]
    show _ :: trailingFrom last .escaped _ = _
    rw [hcopy .escaped (by decide)]
    exact congrArg (fun tail ↦ '\\' :: c :: tail) ih
  | plain hquote hslash _ ih =>
    rw [List.cons_append, hcopy .string (by decide), step_string hquote hslash, ih,
      List.cons_append]

/-- Where no comma is, nothing changes. -/
theorem trailingFrom_of_not_mem (h : ',' ∉ text) (last : Bool) (mode : QuoteMode) :
    trailingFrom last mode text = text := by
  induction text generalizing mode with
  | nil => rfl
  | cons c rest ih =>
    have hc : c ≠ ',' := fun hc ↦ h (hc ▸ List.mem_cons_self)
    rw [trailingFrom_cons, if_neg fun hcomma ↦ hc hcomma.2.1,
      ih fun hmem ↦ h (List.mem_cons_of_mem _ hmem)]

theorem comma_not_mem_blank (h : Blank text) : ',' ∉ text := by
  intro hmem
  have := h ',' hmem
  cases this

/-- Behind a text that ends with neither a space nor a comma, it does not matter what follows. -/
theorem trailingFrom_concat (hspace : isAsciiWhitespace c = false) (hcomma : c ≠ ',')
    (front : List Char) (last last' : Bool) (mode : QuoteMode) :
    trailingFrom last mode (front ++ [c]) = trailingFrom last' mode (front ++ [c]) := by
  have hlast : ∀ last mode, trailingFrom last mode [c] = [c] := fun last mode ↦
    trailingFrom_of_not_mem (by simpa using hcomma.symm) last mode
  rw [trailingFrom_append, trailingFrom_append, closesOr_cons hspace, closesOr_cons hspace, hlast,
    hlast]

variable {blank : List Char}

/-- Spaces that stay come from spaces, if nothing closes behind them. -/
theorem eq_of_trailingFrom_false (hblank : Blank blank) (h : trailingFrom false .code text = blank)
    : text = blank := by
  induction text generalizing blank with
  | nil => exact h
  | cons c rest ih =>
    rw [trailingFrom_cons] at h
    split at h
    · next hcomma =>
      subst h
      have hrest := ih (Json.blank_cons.mp hblank).2 rfl
      have hspaces : ∀ d ∈ rest, isAsciiWhitespace d = true := by
        intro d hd
        rw [hrest] at hd
        exact Json.isAsciiWhitespace_of_isSpace ((Json.blank_cons.mp hblank).2 d hd)
      rw [closesOr_spaces hspaces] at hcomma
      cases hcomma.2.2
    · next =>
      subst h
      have ⟨hc, hrest⟩ := Json.blank_cons.mp hblank
      have hstep : QuoteMode.step .code c = .code := by
        apply step_code
        intro hquote
        rw [hquote] at hc
        cases hc
      rw [hstep] at hrest ⊢
      rw [← ih hrest rfl]

/-- In front of a bracket, spaces that stay come from spaces and one comma at most. -/
theorem eq_or_comma_of_trailingFrom_true (hblank : Blank blank)
    (h : trailingFrom true .code text = blank) :
    text = blank ∨ ∃ front back, Blank front ∧ Blank back ∧ text = front ++ ',' :: back ∧
      blank = front ++ ' ' :: back := by
  induction text generalizing blank with
  | nil => exact Or.inl h
  | cons c rest ih =>
    rw [trailingFrom_cons] at h
    split at h
    · next hcomma =>
      subst h
      have hback := (Json.blank_cons.mp hblank).2
      cases ih hback rfl with
      | inl hrest =>
        apply Or.inr
        exists [], rest
        rw [← hrest] at hback
        exact ⟨Json.blank_nil, hback, by rw [hcomma.2.1]; rfl, by rw [← hrest]; rfl⟩
      | inr hrest =>
        -- a second comma would keep the first one
        have ⟨front, back, hfront, _, htext, _⟩ := hrest
        have hspaces : ∀ d ∈ front, isAsciiWhitespace d = true :=
          fun d hd ↦ Json.isAsciiWhitespace_of_isSpace (hfront d hd)
        rw [htext, closesOr_append, closesOr_spaces hspaces] at hcomma
        cases hcomma.2.2
    · next =>
      subst h
      have ⟨hc, hback⟩ := Json.blank_cons.mp hblank
      have hstep : QuoteMode.step .code c = .code := by
        apply step_code
        intro hquote
        rw [hquote] at hc
        cases hc
      rw [hstep] at hback ⊢
      cases ih hback rfl with
      | inl hrest => exact Or.inl (by rw [← hrest])
      | inr hrest =>
        have ⟨front, back, hfront, hback, htext, hblank⟩ := hrest
        apply Or.inr
        exists c :: front, back
        exact ⟨Json.blank_cons.mpr ⟨hc, hfront⟩, hback, by rw [htext]; rfl, by rw [hblank]; rfl⟩

/-! ### Texts without trailing commas -/

/-- A text with whole strings and without trailing commas, whatever follows. -/
structure Settled (text : List Char) : Prop where
  whole : track .code text = .code
  fixed : ∀ last, trailingFrom last .code text = text

variable {front back rest : List Char}

namespace Settled

/-- Settled texts one after the other. -/
theorem append (hfront : Settled front) (hback : Settled back) :
    Settled (front ++ back) where
  whole := by rw [track_append, hfront.whole, hback.whole]
  fixed last := by rw [trailingFrom_append, hfront.fixed, hfront.whole, hback.fixed]

theorem of_not_mem (hquote : '"' ∉ text) (hcomma : ',' ∉ text) :
    Settled text where
  whole := by
    induction text with
    | nil => rfl
    | cons c rest ih =>
      rw [track_cons, step_code fun hc ↦ hquote (hc ▸ List.mem_cons_self)]
      exact ih (fun h ↦ hquote (List.mem_cons_of_mem _ h))
        fun h ↦ hcomma (List.mem_cons_of_mem _ h)
  fixed last := trailingFrom_of_not_mem hcomma last .code

theorem of_blank (h : Blank text) : Settled text := by
  apply of_not_mem
  · intro hmem
    have := h '"' hmem
    cases this
  · exact comma_not_mem_blank h

theorem of_quoted {body : List Char} (h : Json.Quoted body) :
    Settled ('"' :: (body ++ ['"'])) where
  whole := by
    show track .string (body ++ ['"']) = .code
    rw [track_append, track_quoted h]
    rfl
  fixed last := by
    show '"' :: trailingFrom last .string (body ++ ['"']) = _
    rw [trailingFrom_inside h]
    rfl

/-- A comma in front of something that does not close. -/
theorem comma (h : ∀ last, closesOr last rest = false) (hrest : Settled rest) :
    Settled (',' :: rest) where
  whole := hrest.whole
  fixed last := by
    rw [trailingFrom_cons, if_neg fun hc ↦ by rw [h] at hc; exact Bool.noConfusion hc.2.2]
    exact congrArg (',' :: ·) (hrest.fixed last)

end Settled

/-- The first character of a text that begins a value is behind spaces. -/
theorem closesOr_value {value : Json N} (hblank : Blank blank)
    (h : Derives numbers (.value value) text) (rest : List Char) (last : Bool) :
    closesOr last (blank ++ text ++ rest) = false := by
  have ⟨c, tail, htext, hc⟩ := h.head
  have hspaces : ∀ d ∈ blank, isAsciiWhitespace d = true :=
    fun d hd ↦ Json.isAsciiWhitespace_of_isSpace (hblank d hd)
  rw [List.append_assoc, closesOr_append, closesOr_spaces hspaces, htext, List.cons_append,
    closesOr_head hc]

private theorem closesOr_items {item : Json N} {items : List (Json N)}
    (h : Derives numbers (.items (item :: items)) text) (last : Bool) :
    closesOr last text = false := by
  cases h with
  | lastItem front value back => exact closesOr_value front value _ last
  | moreItems front value back more =>
    rw [List.append_assoc]
    exact closesOr_value front value _ last

private theorem closesOr_members {member : String × Json N} {members : List (String × Json N)}
    (h : Derives numbers (.members (member :: members)) text) (last : Bool) :
    closesOr last text = false := by
  cases h with
  | lastMember label inside back | moreMembers label inside back more =>
    cases label with
    | mk front =>
      have hspaces : ∀ d ∈ _, isAsciiWhitespace d = true :=
        fun d hd ↦ Json.isAsciiWhitespace_of_isSpace (front d hd)
      simp only [List.append_assoc]
      rw [closesOr_append, closesOr_spaces hspaces]
      exact closesOr_cons (by decide) _ _

private theorem settled_label {name : String} (h : Json.Label name text) :
    Settled text := by
  cases h with
  | @mk before body name between after front quoted decoded middle back =>
    have hcolon : Settled (':' :: after) :=
      (Settled.of_not_mem (by decide) (by decide) : Settled [':']).append (.of_blank back)
    have hlabel := (Settled.of_blank front).append ((Settled.of_quoted quoted).append
      ((Settled.of_blank middle).append hcolon))
    simpa using hlabel

/-- JSON has no trailing commas. -/
theorem settled_of_derives {node : Json.Node N} (h : Derives numbers node text) : Settled text := by
  induction h with
  | scalar _ _ parsed =>
    have hchars := Json.parseScalar_chars parsed
    apply Settled.of_not_mem
    · intro hmem
      have := hchars '"' hmem
      cases this
    · intro hmem
      have := hchars ',' hmem
      cases this
  | string quoted => exact .of_quoted quoted
  | array _ ih =>
    have hopen : Settled ['['] := .of_not_mem (by decide) (by decide)
    exact (hopen.append ih).append (.of_not_mem (by decide) (by decide) : Settled [']'])
  | object _ ih =>
    have hopen : Settled ['\x7b'] := .of_not_mem (by decide) (by decide)
    exact (hopen.append ih).append (.of_not_mem (by decide) (by decide) : Settled ['\x7d'])
  | noItems spaces | noMembers spaces => exact .of_blank spaces
  | lastItem front _ back ih => exact ((Settled.of_blank front).append ih).append (.of_blank back)
  | moreItems front _ back more ihValue ihMore =>
    exact (((Settled.of_blank front).append ihValue).append (.of_blank back)).append
      (.comma (closesOr_items more) ihMore)
  | lastMember label _ back ih => exact ((settled_label label).append ih).append (.of_blank back)
  | moreMembers label _ back more ihValue ihMore =>
    exact (((settled_label label).append ihValue).append (.of_blank back)).append
      (.comma (closesOr_members more) ihMore)

/-! ### Comments -/

/-- A cut next to a character that is not a space. -/
def Solid (front back : List Char) : Prop :=
  (∃ c tail, back = c :: tail ∧ isAsciiWhitespace c = false) ∨
    ∃ init c, front = init ++ [c] ∧ isAsciiWhitespace c = false

/-- The quotes, where the text is not in a comment. -/
def StripMode.quotes : StripMode → QuoteMode
  | .quote mode => mode
  | .line | .block => .code

/-- The text in front of a cut is stripped apart from what follows. -/
structure StripCut (mode : StripMode) (text front back : List Char) (first second : List Char) :
    Prop where
  text : text = first ++ second
  length : byteLength first = byteLength front
  first : ∀ rest, stripFrom mode (first ++ rest) = (stripFrom (.quote .code) rest).map (front ++ ·)
  second : stripFrom (.quote .code) second = some back

private theorem solid_spaces {spaces output : List Char}
    (hspaces : ∀ c ∈ spaces, isAsciiWhitespace c = true)
    (houtput : front ++ back = spaces ++ output) (h : Solid front back) :
    ∃ front', front = spaces ++ front' ∧ output = front' ++ back ∧ Solid front' back := by
  cases List.append_eq_append_iff.mp houtput with
  | inl hinside =>
    have ⟨middle, hsplit, hback⟩ := hinside
    cases middle with
    | nil =>
      rw [List.append_nil] at hsplit
      rw [List.nil_append] at hback
      exists []
      constructor
      · rw [List.append_nil, hsplit]
      · constructor
        · exact hback.symm
        · cases h with
          | inl hhead => exact Or.inl hhead
          | inr hlast =>
            have ⟨init, c, hfront, hc⟩ := hlast
            have hmem : c ∈ spaces := by
              rw [hsplit, hfront]
              simp
            rw [hspaces c hmem] at hc
            cases hc
    | cons d middle =>
      cases h with
      | inl hhead =>
        have ⟨c, tail, hcons, hc⟩ := hhead
        rw [hback] at hcons
        have hmem : c ∈ spaces := by
          rw [hsplit, ← (List.cons.inj hcons).1]
          simp
        rw [hspaces c hmem] at hc
        cases hc
      | inr hlast =>
        have ⟨init, c, hfront, hc⟩ := hlast
        have hmem : c ∈ spaces := by
          rw [hsplit, hfront]
          simp
        rw [hspaces c hmem] at hc
        cases hc
  | inr hbehind =>
    have ⟨front', hfront, houtput⟩ := hbehind
    exists front'
    constructor
    · exact hfront
    · constructor
      · exact houtput
      · cases h with
        | inl hhead => exact Or.inl hhead
        | inr hlast =>
          have ⟨init, c, hinit, hc⟩ := hlast
          cases List.eq_nil_or_concat front' with
          | inl hnil =>
            rw [hnil, List.append_nil] at hfront
            have hmem : c ∈ spaces := by
              rw [← hfront, hinit]
              simp
            rw [hspaces c hmem] at hc
            cases hc
          | inr hconcat =>
            have ⟨init', c', hfront'⟩ := hconcat
            apply Or.inr
            exists init', c'
            constructor
            · simpa using hfront'
            · have hlast : front.getLast? = some c := by simp [hinit]
              rw [hfront, hfront'] at hlast
              simp at hlast
              rw [hlast]
              exact hc

private theorem StripCut.nil (h : stripFrom (.quote .code) text = some back) :
    StripCut (.quote .code) text [] back [] text where
  text := rfl
  length := rfl
  first rest := by simp
  second := h

private theorem StripCut.step {mode mode' : StripMode} {first second : List Char}
    (h : StripCut mode' text front back first second) {read written : List Char}
    (hlength : byteLength read = byteLength written)
    (hstep : ∀ rest, stripFrom mode (read ++ (first ++ rest)) =
      (stripFrom mode' (first ++ rest)).map (written ++ ·)) :
    StripCut mode (read ++ text) (written ++ front) back (read ++ first) second where
  text := by rw [h.text, List.append_assoc]
  length := by rw [byteLength_append, byteLength_append, hlength, h.length]
  first rest := by
    rw [List.append_assoc, hstep, h.first]
    simp [Function.comp_def]
  second := h.second

private theorem blank_replicate (count : Nat) :
    ∀ c ∈ List.replicate count ' ', isAsciiWhitespace c = true := by
  intro c hc
  rw [List.eq_of_mem_replicate hc]
  decide

private theorem byteLength_replicate (count : Nat) :
    byteLength (List.replicate count ' ') = count := by
  have hsize : Char.utf8Size ' ' = 1 := rfl
  simp [byteLength, hsize]

/-- The text can be cut where the stripped text is. -/
private def CutsAt (mode : StripMode) (text back : List Char) : Prop :=
  ∀ front : List Char, stripFrom mode text = some (front ++ back) →
    track mode.quotes front = .code →
      (mode = .quote .code ∧ front = []) ∨ Solid front back →
        front.getLast? ≠ some '/' → ∃ first second, StripCut mode text front back first second

private theorem cutsAt_spaces {mode mode' : StripMode} (read written : List Char)
    (hmode : mode.quotes = .code) (hmode' : mode'.quotes = .code)
    (hwritten : ∀ c ∈ written, isAsciiWhitespace c = true)
    (hlength : byteLength read = byteLength written)
    (hstrip : stripFrom mode (read ++ rest) = (stripFrom mode' rest).map (written ++ ·))
    (hstep : ∀ front first second, StripCut mode' rest front back first second → ∀ tail,
      stripFrom mode (read ++ (first ++ tail)) =
        (stripFrom mode' (first ++ tail)).map (written ++ ·)) (ih : CutsAt mode' rest back) :
    CutsAt mode (read ++ rest) back := by
  intro front h hquotes hsolid hslash
  by_cases hstart : mode = .quote .code ∧ front = []
  · obtain ⟨rfl, rfl⟩ := hstart
    exact ⟨[], read ++ rest, .nil h⟩
  · rw [hstrip] at h
    have ⟨output, houtput, heq⟩ := Option.map_eq_some_iff.mp h
    have ⟨front', hfront, hsplit, hsolid'⟩ :=
      solid_spaces hwritten heq.symm (hsolid.resolve_left hstart)
    have hquotes' : track mode'.quotes front' = .code := by
      have hcode : track .code written = .code := by
        apply Settled.whole
        apply Settled.of_not_mem
        · intro hmem
          cases hwritten _ hmem
        · intro hmem
          cases hwritten _ hmem
      rw [hfront, track_append, hmode, hcode] at hquotes
      rw [hmode']
      exact hquotes
    have hslash' : front'.getLast? ≠ some '/' := by
      intro hlast
      rw [hfront, List.getLast?_append, hlast] at hslash
      exact hslash rfl
    rw [hsplit] at houtput
    have ⟨first, second, hcut⟩ := ih front' houtput hquotes' (Or.inr hsolid') hslash'
    rw [hfront]
    exact ⟨read ++ first, second, hcut.step hlength (hstep front' first second hcut)⟩

variable {mode : QuoteMode}

private theorem cutsAt_copy
    (hcomment : ∀ d tail, mode = .code → c = '/' → rest = d :: tail → d ≠ '/' ∧ d ≠ '*')
    (ih : CutsAt (.quote (mode.step c)) rest back) : CutsAt (.quote mode) (c :: rest) back := by
  intro front h hquotes hsolid hslash
  by_cases hstart : (StripMode.quote mode) = .quote .code ∧ front = []
  · obtain ⟨hmode, hfront⟩ := hstart
    rw [hmode, hfront] at h ⊢
    exact ⟨[], c :: rest, .nil h⟩
  · have hsolid := hsolid.resolve_left hstart
    have hcopy : ∀ tail,
        (∀ d tail', mode = .code → c = '/' → tail = d :: tail' → d ≠ '/' ∧ d ≠ '*') →
        stripFrom (.quote mode) (c :: tail) =
          (stripFrom (.quote (mode.step c)) tail).map (c :: ·) := by
      intro tail htail
      rw [stripFrom]
      · intro tail' hmode hc heq
        exact (htail '/' tail' hmode hc heq).1 rfl
      · intro tail' hmode hc heq
        exact (htail '*' tail' hmode hc heq).2 rfl
    rw [hcopy rest hcomment] at h
    obtain ⟨output, houtput, heq⟩ := Option.map_eq_some_iff.mp h
    cases front with
    | nil =>
      have hmode : mode = .code := hquotes
      exact absurd ⟨by rw [hmode], rfl⟩ hstart
    | cons d front' =>
      obtain ⟨hd, houtput'⟩ := List.cons.inj heq
      subst hd
      rw [houtput'] at houtput
      have hsolid' : (StripMode.quote (mode.step c) = .quote .code ∧ front' = []) ∨
          Solid front' back := by
        cases hsolid with
        | inl hhead => exact Or.inr (Or.inl hhead)
        | inr hlast =>
          cases List.eq_nil_or_concat front' with
          | inl hnil =>
            rw [hnil] at hquotes ⊢
            have hcode : mode.step c = .code := hquotes
            exact Or.inl ⟨by rw [hcode], rfl⟩
          | inr hconcat =>
            obtain ⟨init, e, hinit, he⟩ := hlast
            obtain ⟨init', e', hfront'⟩ := hconcat
            have hlast : (c :: front').getLast? = some e := by simp [hinit]
            rw [hfront', List.concat_eq_append, ← List.cons_append, List.getLast?_concat] at hlast
            have heq : e' = e := Option.some.inj hlast
            exact Or.inr (Or.inr ⟨init', e', by simpa using hfront', by rw [heq]; exact he⟩)
      have hslash' : front'.getLast? ≠ some '/' := by
        intro hlast
        apply hslash
        rw [List.getLast?_cons, hlast]
        rfl
      obtain ⟨first, second, hcut⟩ := ih front' houtput hquotes hsolid' hslash'
      exists [c] ++ first, second
      show StripCut _ ([c] ++ rest) ([c] ++ front') back ([c] ++ first) second
      apply hcut.step rfl
      intro tail
      apply hcopy
      intro d tail' hmode hc hd
      cases first with
      | nil =>
        have hnil : front' = [] := by
          cases front' with
          | nil => rfl
          | cons e front' =>
            have hlength := hcut.length
            have := e.utf8Size_pos
            simp only [byteLength_nil, byteLength_cons] at hlength
            omega
        rw [hnil, hc] at hslash
        exact absurd rfl hslash
      | cons e first =>
        have hrest := hcut.text
        rw [← (List.cons.inj hd).1]
        exact hcomment e _ hmode hc hrest

private theorem cutsAt (mode : StripMode) (text back : List Char) :
    CutsAt mode text back := by
  have htwo : ∀ c ∈ [' ', ' '], isAsciiWhitespace c = true := by decide
  fun_induction stripFrom mode text with
  | case1 =>
    intro front h
    cases h
  | case2 mode hblock =>
    intro front h hquotes hsolid hslash
    have hnil : stripFrom mode [] = some [] := by
      cases mode with
      | block => exact absurd rfl hblock
      | quote | line => rfl
    rw [hnil] at h
    have ⟨hfront, hback⟩ := List.append_eq_nil_iff.mp (Option.some.inj h).symm
    have hstart : mode = .quote .code ∧ front = [] := by
      cases hsolid with
      | inl hstart => exact hstart
      | inr hsolid =>
        have hnone : ¬ Solid front back := by
          rw [hfront, hback]
          rintro (⟨c, tail, heq, _⟩ | ⟨init, c, heq, _⟩)
          · cases heq
          · simp at heq
        exact absurd hsolid hnone
    rw [hstart.1, hstart.2, hback]
    exact ⟨[], [], .nil rfl⟩
  | case3 rest ih =>
    exact cutsAt_spaces ['/', '/'] [' ', ' '] rfl rfl htwo rfl rfl (fun _ _ _ _ _ ↦ rfl) ih
  | case4 rest ih =>
    exact cutsAt_spaces ['/', '*'] [' ', ' '] rfl rfl htwo rfl rfl (fun _ _ _ _ _ ↦ rfl) ih
  | case5 mode c rest hline hblock ih =>
    apply cutsAt_copy _ ih
    intro d tail hmode hc hrest
    constructor
    · rintro rfl
      exact hline tail hmode hc hrest
    · rintro rfl
      exact hblock tail hmode hc hrest
  | case6 rest ih =>
    exact cutsAt_spaces ['\n'] ['\n'] rfl rfl (by decide) rfl rfl (fun _ _ _ _ _ ↦ rfl) ih
  | case7 c rest hc ih =>
    have hline : ∀ tail, stripFrom .line ([c] ++ tail) =
        (stripFrom .line tail).map (List.replicate c.utf8Size ' ' ++ ·) := by
      intro tail
      rw [List.singleton_append, stripFrom, if_neg hc]
    apply cutsAt_spaces [c] _ rfl rfl (blank_replicate c.utf8Size) _ (hline rest)
      (fun _ _ _ _ _ ↦ hline _) ih
    rw [byteLength_replicate]
    simp
  | case8 rest ih =>
    exact cutsAt_spaces ['*', '/'] [' ', ' '] rfl rfl htwo rfl rfl (fun _ _ _ _ _ ↦ rfl) ih
  | case9 rest hclose ih =>
    have hline : ∀ tail, stripFrom .block (['\n'] ++ tail) =
        (stripFrom .block tail).map (['\n'] ++ ·) := by
      intro tail
      rw [List.singleton_append, stripFrom, if_pos rfl]
      · rfl
      · intro rest heq
        cases heq
    exact cutsAt_spaces ['\n'] ['\n'] rfl rfl (by decide) rfl (hline rest)
      (fun _ _ _ _ _ ↦ hline _) ih
  | case10 c rest hclose hc ih =>
    have hblock : ∀ tail, (∀ tail', c = '*' → tail = '/' :: tail' → False) →
        stripFrom .block ([c] ++ tail) =
          (stripFrom .block tail).map (List.replicate c.utf8Size ' ' ++ ·) := by
      intro tail htail
      rw [List.singleton_append, stripFrom, if_neg hc]
      exact htail
    apply cutsAt_spaces [c] _ rfl rfl (blank_replicate c.utf8Size) _ (hblock rest hclose) _ ih
    · rw [byteLength_replicate]
      simp
    · intro front first second hcut tail
      apply hblock
      intro tail' hstar heq
      cases first with
      | nil =>
        -- a cut inside a comment: nothing can be stripped apart
        have hnone := hcut.first []
        cases hnone
      | cons d first =>
        have hrest := hcut.text
        rw [(List.cons.inj heq).1] at hrest
        exact hclose _ hstar hrest

/-- The text can be cut where the stripped text is cut. -/
theorem exists_stripCut (h : stripFrom (.quote .code) text = some (front ++ back))
    (hquotes : track .code front = .code) (hsolid : Solid front back)
    (hslash : front.getLast? ≠ some '/') :
    ∃ first second, StripCut (.quote .code) text front back first second :=
  cutsAt (.quote .code) text back front h hquotes (Or.inr hsolid) hslash

/-! ### Comments and trailing commas -/

/-- The text and its stripped copy are cut where the sanitized copy is. -/
structure Cut (text front back first second stripped rest : List Char) : Prop where
  text : text = first ++ second
  length : byteLength first = byteLength front
  first : ∀ tail, stripFrom (.quote .code) (first ++ tail) =
    (stripFrom (.quote .code) tail).map (stripped ++ ·)
  whole : track .code stripped = .code
  front : trailingFrom (closesOr false rest) .code stripped = front
  second : stripFrom (.quote .code) second = some rest
  back : trailingFrom false .code rest = back

private theorem trailingFrom_singleton (last : Bool) (mode : QuoteMode) (c : Char) :
    trailingFrom last mode [c] = [c] ∨ c = ',' ∧ trailingFrom last mode [c] = [' '] := by
  rw [trailingFrom_cons]
  split
  · next h => exact Or.inr ⟨h.2.1, rfl⟩
  · exact Or.inl rfl

variable {stripped : List Char}

/-- A last character that is not a space was there before. -/
theorem exists_concat_of_trailingFrom {last : Bool} {init : List Char}
    (hc : isAsciiWhitespace c = false) (h : trailingFrom last mode stripped = init ++ [c]) :
    ∃ init', stripped = init' ++ [c] := by
  cases List.eq_nil_or_concat stripped with
  | inl hnil =>
    rw [hnil] at h
    simp [trailingFrom] at h
  | inr hconcat =>
    have ⟨init', d, hstripped⟩ := hconcat
    rw [List.concat_eq_append] at hstripped
    rw [hstripped, trailingFrom_append] at h
    cases trailingFrom_singleton last (track mode init') d with
    | inl hsame =>
      rw [hsame] at h
      rw [List.singleton_inj.mp (List.append_inj' h rfl).2] at hstripped
      exact ⟨init', hstripped⟩
    | inr hcomma =>
      rw [hcomma.2] at h
      rw [← List.singleton_inj.mp (List.append_inj' h rfl).2] at hc
      cases hc

/-- A first character that is not a space was there before. -/
theorem exists_cons_of_trailingFrom {last : Bool} {tail : List Char}
    (hc : isAsciiWhitespace c = false) (h : trailingFrom last mode stripped = c :: tail) :
    ∃ tail', stripped = c :: tail' := by
  cases stripped with
  | nil => cases h
  | cons d rest =>
    rw [trailingFrom_cons] at h
    split at h
    · rw [← (List.cons.inj h).1] at hc
      cases hc
    · rw [(List.cons.inj h).1]
      exact ⟨rest, rfl⟩

/-- If the text in front of a cut ends with neither a space nor a comma, what follows does not
matter. -/
theorem trailingFrom_independent {init : List Char} {last : Bool}
    (hspace : isAsciiWhitespace c = false) (hcomma : c ≠ ',')
    (h : trailingFrom last .code stripped = init ++ [c]) (last' : Bool) :
    trailingFrom last' .code stripped = init ++ [c] := by
  have ⟨init', hstripped⟩ := exists_concat_of_trailingFrom hspace h
  rw [hstripped] at h ⊢
  rw [← h]
  exact trailingFrom_concat hspace hcomma init' last' last .code

private theorem solid_of_trailingFrom {last : Bool}
    (h : Solid (trailingFrom last .code stripped) (trailingFrom false mode rest)) :
    Solid stripped rest := by
  cases h with
  | inl hhead =>
    have ⟨c, tail, heq, hc⟩ := hhead
    have ⟨tail', hrest⟩ := exists_cons_of_trailingFrom hc heq
    exact Or.inl ⟨c, tail', hrest, hc⟩
  | inr hlast =>
    have ⟨init, c, heq, hc⟩ := hlast
    have ⟨init', hstripped⟩ := exists_concat_of_trailingFrom hc heq
    exact Or.inr ⟨init', c, hstripped, hc⟩

private theorem getLast?_of_trailingFrom {last : Bool}
    (h : (trailingFrom last .code stripped).getLast? ≠ some '/') :
    stripped.getLast? ≠ some '/' := by
  intro hlast
  have ⟨init, hinit⟩ := List.getLast?_eq_some_iff.mp hlast
  apply h
  rw [hinit, trailingFrom_append]
  cases trailingFrom_singleton last (track .code init) '/' with
  | inl hsame => rw [hsame, List.getLast?_concat]
  | inr hcomma => exact absurd hcomma.1 (by decide)

/-- A sanitized text can be cut outside of strings and next to a character that is not a space. -/
theorem exists_cut {code : List Char} (hstrip : stripFrom (.quote .code) text = some code)
    (hsanitized : trailingFrom false .code code = front ++ back)
    (hquotes : track .code front = .code) (hsolid : Solid front back)
    (hslash : front.getLast? ≠ some '/') :
    ∃ first second stripped rest, code = stripped ++ rest ∧
      Cut text front back first second stripped rest := by
  have hlength : front.length ≤ code.length := by
    have := congrArg List.length hsanitized
    rw [length_trailingFrom, List.length_append] at this
    omega
  have ⟨stripped, rest, hcode, hstripped⟩ : ∃ stripped rest, code = stripped ++ rest ∧
      stripped.length = front.length := by
    exists code.take front.length, code.drop front.length
    constructor
    · exact (List.take_append_drop ..).symm
    · rw [List.length_take]
      omega
  rw [hcode, trailingFrom_append] at hsanitized
  have ⟨hfront, hback⟩ := List.append_inj hsanitized (by rw [length_trailingFrom, hstripped])
  have hwhole : track .code stripped = .code := by
    rw [← track_trailingFrom (closesOr false rest), hfront, hquotes]
  rw [hwhole] at hback
  have hsolid' : Solid stripped rest := by
    rw [← hfront, ← hback] at hsolid
    exact solid_of_trailingFrom hsolid
  have hslash' : stripped.getLast? ≠ some '/' := by
    rw [← hfront] at hslash
    exact getLast?_of_trailingFrom hslash
  rw [hcode] at hstrip
  have ⟨first, second, hcut⟩ := exists_stripCut hstrip hwhole hsolid' hslash'
  exists first, second, stripped, rest
  constructor
  · exact hcode
  · exact { hcut with
      length := by rw [hcut.length, ← hfront, byteLength_trailingFrom]
      whole := hwhole
      front := hfront
      back := hback }

/-- What a text is sanitized to. -/
def Sanitizes (text sanitized : List Char) : Prop :=
  ∃ code, stripFrom (.quote .code) text = some code ∧ trailingFrom false .code code = sanitized

/-- What a sanitized text is. -/
theorem sanitizeJsonc_eq_ok {sanitized : List Char} :
    sanitizeJsonc text = .ok sanitized ↔ Sanitizes text sanitized := by
  unfold sanitizeJsonc stripJsoncComments Sanitizes
  cases stripFrom (.quote .code) text with
  | none => simp [Except.map]
  | some code => simp [Except.map, removeTrailingCommas_eq]

/-- A text between the two parts of a cut, in place of what stood there. -/
theorem sanitizes_splice {first second insertion : List Char}
    (hfirst : ∀ tail, stripFrom (.quote .code) (first ++ tail) =
      (stripFrom (.quote .code) tail).map (stripped ++ ·)) (hwhole : track .code stripped = .code)
    (hbalanced : Balanced true insertion) (hsettled : Settled insertion)
    (hsecond : stripFrom (.quote .code) second = some rest)
    (hback : trailingFrom false .code rest = back)
    (hfront : trailingFrom (closesOr false (insertion ++ rest)) .code stripped = front) :
    stripFrom (.quote .code) (first ++ insertion ++ second) = some (stripped ++ insertion ++ rest) ∧
      trailingFrom false .code (stripped ++ insertion ++ rest) = front ++ insertion ++ back := by
  constructor
  · rw [List.append_assoc, hfirst, hbalanced.strip_append, hsecond]
    simp
  · rw [List.append_assoc, trailingFrom_append, hfront, hwhole, trailingFrom_append,
      hsettled.fixed, hsettled.whole, hback, List.append_assoc]

end Bootty.Config
