import Bootty.Config.KeymapCuts

/-!
# The pieces of a keymap text

What the comments, the string literals and the trailing commas of a keymap text are, said without
the scanners, and what `sanitize_jsonc`, `keymap_file.rs:909–982`, makes of each.
-/

namespace Bootty.Config

open Bootty.Base
open Bootty.Base.Json (Quoted)

/-! ### Pieces -/

/-- A character outside of strings and comments, a string literal with its quotes, or a comment. -/
inductive Piece where
  | code (c : Char)
  | string (text : List Char)
  | comment (text : List Char)
  deriving DecidableEq

/-- The characters of a piece. -/
def Piece.chars : Piece → List Char
  | .code c => [c]
  | .string text | .comment text => text

/-- The text is made of the pieces. The last string literal may be unclosed. -/
inductive Lexes : List Char → List Piece → Prop
  | nil : Lexes [] []
  | code {c : Char} {rest : List Char} {pieces : List Piece} (quote : c ≠ '"')
      (comment : c = '/' → rest.head? ≠ some '/' ∧ rest.head? ≠ some '*')
      (more : Lexes rest pieces) : Lexes (c :: rest) (.code c :: pieces)
  | string {body rest : List Char} {pieces : List Piece} (inside : Quoted body)
      (more : Lexes rest pieces) :
      Lexes ('"' :: (body ++ '"' :: rest)) (.string ('"' :: (body ++ ['"'])) :: pieces)
  | unclosed {body escape : List Char} (inside : Quoted body)
      (escapes : escape = [] ∨ escape = ['\\']) :
      Lexes ('"' :: (body ++ escape)) [.string ('"' :: (body ++ escape))]
  | line {body rest : List Char} {pieces : List Piece} (inside : '\n' ∉ body)
      (stop : rest = [] ∨ rest.head? = some '\n') (more : Lexes rest pieces) :
      Lexes ('/' :: '/' :: (body ++ rest)) (.comment ('/' :: '/' :: body) :: pieces)
  | block {body rest : List Char} {pieces : List Piece} (inside : ¬ ['*', '/'] <:+: body)
      (more : Lexes rest pieces) :
      Lexes ('/' :: '*' :: (body ++ '*' :: '/' :: rest))
        (.comment ('/' :: '*' :: (body ++ ['*', '/'])) :: pieces)

variable {text : List Char} {pieces : List Piece}

/-- The pieces make the text. -/
theorem Lexes.chars (h : Lexes text pieces) :
    pieces.flatMap Piece.chars = text := by
  induction h with
  | nil => rfl
  | code _ _ _ ih | string _ _ ih | line _ _ _ ih | block _ _ ih => simp [Piece.chars, ih]
  | unclosed => simp [Piece.chars]

/-- Spaces of the same length in place of a comment; its newlines are kept. -/
def blanked (text : List Char) : List Char :=
  text.flatMap fun c ↦ if c = '\n' then ['\n'] else List.replicate c.utf8Size ' '

/-- The next character that is neither a space nor in a comment ends an array or an object. -/
def closesNext : List Piece → Bool
  | [] => false
  | .code c :: rest => if isAsciiWhitespace c then closesNext rest else c == ']' || c == '\x7d'
  | .string _ :: _ => false
  | .comment _ :: rest => closesNext rest

/-- The pieces with spaces in place of the comments and of the trailing commas. -/
def sanitizedPieces : List Piece → List Char
  | [] => []
  | .code c :: rest => (if c = ',' ∧ closesNext rest then ' ' else c) :: sanitizedPieces rest
  | .string text :: rest => text ++ sanitizedPieces rest
  | .comment text :: rest => blanked text ++ sanitizedPieces rest

@[simp] theorem blanked_nil : blanked [] = [] := rfl

@[simp] theorem blanked_append (front back : List Char) :
    blanked (front ++ back) = blanked front ++ blanked back := by
  simp [blanked]

private theorem blanked_cons (c : Char) (rest : List Char) :
    blanked (c :: rest) =
      (if c = '\n' then ['\n'] else List.replicate c.utf8Size ' ') ++ blanked rest := rfl

variable {c : Char}

private theorem mem_blanked (h : c ∈ blanked text) : c = '\n' ∨ c = ' ' := by
  have ⟨d, _, hc⟩ := List.mem_flatMap.mp h
  split at hc
  · exact Or.inl (List.mem_singleton.mp hc)
  · exact Or.inr (List.eq_of_mem_replicate hc)

private theorem isAsciiWhitespace_of_blanked :
    ∀ c ∈ blanked text, isAsciiWhitespace c = true := by
  intro c hc
  cases mem_blanked hc with
  | inl hnewline =>
    rw [hnewline]
    decide
  | inr hspace =>
    rw [hspace]
    decide

private theorem byteLength_blanked (text : List Char) : byteLength
    (blanked text) = byteLength text := by
  have hspace : Char.utf8Size ' ' = 1 := rfl
  induction text with
  | nil => rfl
  | cons c rest ih =>
    rw [blanked_cons, byteLength_append, ih, byteLength_cons]
    split
    · next hc =>
      rw [hc]
      rfl
    · simp [byteLength, hspace]

/-- In front of any piece, the text before it has kept its length. -/
theorem exists_sanitizedPieces (front back : List Piece) :
    ∃ before, sanitizedPieces (front ++ back) = before ++ sanitizedPieces back ∧
      byteLength before = byteLength (front.flatMap Piece.chars) := by
  induction front with
  | nil => exact ⟨[], rfl, rfl⟩
  | cons piece front ih =>
    have ⟨before, hbefore, hlength⟩ := ih
    cases piece with
    | code c =>
      exists (if c = ',' ∧ closesNext (front ++ back) then ' ' else c) :: before
      constructor
      · rw [List.cons_append, sanitizedPieces, hbefore]
        rfl
      · simp only [List.flatMap_cons, Piece.chars, List.singleton_append, byteLength_cons, hlength]
        split
        · next hcomma =>
          rw [hcomma.1]
          rfl
        · rfl
    | string text =>
      exists text ++ before
      simp [sanitizedPieces, hbefore, Piece.chars, hlength]
    | comment text =>
      exists blanked text ++ before
      simp [sanitizedPieces, hbefore, Piece.chars, hlength, byteLength_blanked]

theorem byteLength_sanitizedPieces (pieces : List Piece) :
    byteLength (sanitizedPieces pieces) = byteLength (pieces.flatMap Piece.chars) := by
  have ⟨before, hbefore, hlength⟩ := exists_sanitizedPieces pieces []
  rw [List.append_nil] at hbefore
  rw [hbefore, sanitizedPieces, List.append_nil, hlength]

/-! ### The comment stripper -/

/-- The piece, without its text if it is a comment. -/
def Piece.stripped : Piece → List Char
  | .code c => [c]
  | .string text => text
  | .comment text => blanked text

private theorem strip_code {rest : List Char} (hquote : c ≠ '"')
    (hcomment : c = '/' → rest.head? ≠ some '/' ∧ rest.head? ≠ some '*') :
    stripFrom (.quote .code) (c :: rest) = (stripFrom (.quote .code) rest).map (c :: ·) := by
  rw [stripFrom]
  · rw [step_code hquote]
  · rintro tail - hc rfl
    exact (hcomment hc).1 rfl
  · rintro tail - hc rfl
    exact (hcomment hc).2 rfl

variable {body : List Char}

private theorem strip_line {rest : List Char} (hbody : '\n' ∉ body)
    (hstop : rest = [] ∨ rest.head? = some '\n') :
    stripFrom .line (body ++ rest) =
      (stripFrom (.quote .code) rest).map (blanked body ++ ·) := by
  induction body with
  | nil =>
    cases rest with
    | nil => rfl
    | cons c tail =>
      have hc : c = '\n' := by simpa using hstop
      rw [hc, strip_cons fun _ ↦ by decide]
      simp [stripFrom, QuoteMode.step, Function.comp_def]
  | cons c body ih =>
    have hc : c ≠ '\n' := fun hc ↦ hbody (hc ▸ List.mem_cons_self)
    have hrest : '\n' ∉ body := fun hmem ↦ hbody (List.mem_cons_of_mem c hmem)
    rw [List.cons_append, stripFrom, if_neg hc, ih hrest, blanked_cons, if_neg hc]
    simp [Function.comp_def]

private theorem not_infix_of_cons (h : ¬ ['*', '/'] <:+: c :: body) :
    ¬ ['*', '/'] <:+: body ∧ (c = '*' → body.head? ≠ some '/') := by
  constructor
  · intro hinside
    exact h (hinside.trans (List.suffix_cons c body).isInfix)
  · intro hc hhead
    cases body with
    | nil => cases hhead
    | cons d body =>
      have hd : d = '/' := by simpa using hhead
      rw [hc, hd] at h
      exact h (List.prefix_append ['*', '/'] body).isInfix

private theorem strip_block (h : ¬ ['*', '/'] <:+: body) (rest : List Char) :
    stripFrom .block (body ++ '*' :: '/' :: rest) =
      (stripFrom (.quote .code) rest).map (blanked (body ++ ['*', '/']) ++ ·) := by
  induction body with
  | nil => rfl
  | cons c body ih =>
    have ⟨hbody, hstar⟩ := not_infix_of_cons h
    have hopen : ∀ tail, c = '*' → body ++ '*' :: '/' :: rest = '/' :: tail → False := by
      intro tail hc htail
      cases body with
      | nil => cases htail
      | cons d body =>
        apply hstar hc
        rw [(List.cons.inj htail).1]
        rfl
    rw [List.cons_append, stripFrom, ih hbody, List.cons_append, blanked_cons]
    · split <;> simp [Function.comp_def]
    · exact hopen

/-- The comments of a text are blanked. -/
theorem Lexes.strip (h : Lexes text pieces) :
    stripFrom (.quote .code) text = some (pieces.flatMap Piece.stripped) := by
  induction h with
  | nil => rfl
  | code quote comment _ ih =>
    rw [strip_code quote comment, ih]
    rfl
  | string inside _ ih =>
    rw [strip_cons (by decide)]
    show (stripFrom (.quote .string) _).map _ = _
    rw [Balanced.strip_quoted inside, ih]
    simp [Piece.stripped]
  | unclosed inside escapes =>
    rw [strip_cons (by decide)]
    show (stripFrom (.quote .string) _).map _ = _
    rw [Balanced.strip_inside inside]
    rcases escapes with rfl | rfl <;> simp [stripFrom, Piece.stripped]
  | line inside stop _ ih =>
    rw [stripFrom, strip_line inside stop, ih]
    simp [Piece.stripped, blanked_cons]
    rfl
  | block inside _ ih =>
    rw [stripFrom, strip_block inside, ih]
    simp [Piece.stripped, blanked_cons]
    rfl

/-- The text behind an opening quote: a string literal and pieces. -/
private def Literal (text : List Char) : Prop :=
  (∃ body rest pieces, Quoted body ∧ text = body ++ '"' :: rest ∧ Lexes rest pieces) ∨
    ∃ body escape, Quoted body ∧ (escape = [] ∨ escape = ['\\']) ∧ text = body ++ escape

/-- What the stripper still reads, by where it is. -/
private def StillReads : StripMode → List Char → Prop
  | .quote .code, text => ∃ pieces, Lexes text pieces
  | .quote .string, text => Literal text
  | .quote .escaped, text => text = [] ∨ ∃ c rest, text = c :: rest ∧ Literal rest
  | .line, text => ∃ body rest pieces, '\n' ∉ body ∧ (rest = [] ∨ rest.head? = some '\n') ∧
      text = body ++ rest ∧ Lexes rest pieces
  | .block, text => ∃ body rest pieces, ¬ ['*', '/'] <:+: body ∧
      text = body ++ '*' :: '/' :: rest ∧ Lexes rest pieces

private theorem lexes_literal (h : Literal text) :
    ∃ pieces, Lexes ('"' :: text) pieces := by
  rcases h with ⟨body, rest, pieces, hbody, rfl, hpieces⟩ | ⟨body, escape, hbody, hescape, rfl⟩
  · exact ⟨_, .string hbody hpieces⟩
  · exact ⟨_, .unclosed hbody hescape⟩

private theorem Literal.extend {front : List Char} (hfront : Quoted front) (h : Literal text) :
    Literal (front ++ text) := by
  rcases h with ⟨body, rest, pieces, hbody, rfl, hpieces⟩ | ⟨body, escape, hbody, hescape, rfl⟩
  · exact Or.inl ⟨front ++ body, rest, pieces, hfront.append hbody, by simp, hpieces⟩
  · exact Or.inr ⟨front ++ body, escape, hfront.append hbody, hescape, by simp⟩

private theorem not_infix_cons (h : ¬ ['*', '/'] <:+: body)
    (hstar : c = '*' → body.head? ≠ some '/') : ¬ ['*', '/'] <:+: c :: body := by
  intro hinside
  cases List.infix_cons_iff.mp hinside with
  | inl hprefix =>
    have ⟨tail, htail⟩ := hprefix
    have ⟨hc, hbody⟩ := List.cons.inj htail
    apply hstar hc.symm
    rw [← hbody]
    rfl
  | inr hinside => exact h hinside

private theorem stillReads (mode : StripMode) (text stripped : List Char)
    (h : stripFrom mode text = some stripped) : StillReads mode text := by
  fun_induction stripFrom mode text generalizing stripped with
  | case1 => cases h
  | case2 mode hblock =>
    cases mode with
    | block => exact absurd rfl hblock
    | line => exact ⟨[], [], [], by simp, Or.inl rfl, rfl, .nil⟩
    | quote mode =>
      cases mode with
      | code => exact ⟨[], .nil⟩
      | string => exact Or.inr ⟨[], [], .nil, Or.inl rfl, rfl⟩
      | escaped => exact Or.inl rfl
  | case3 rest ih =>
    obtain ⟨tail, htail, _⟩ := Option.map_eq_some_iff.mp h
    obtain ⟨body, rest, pieces, hbody, hstop, hrest, hpieces⟩ := ih tail htail
    rw [hrest]
    exact ⟨_, .line hbody hstop hpieces⟩
  | case4 rest ih =>
    obtain ⟨tail, htail, _⟩ := Option.map_eq_some_iff.mp h
    obtain ⟨body, rest, pieces, hbody, hrest, hpieces⟩ := ih tail htail
    rw [hrest]
    exact ⟨_, .block hbody hpieces⟩
  | case5 mode c rest hline hblock ih =>
    obtain ⟨tail, htail, _⟩ := Option.map_eq_some_iff.mp h
    have hrest := ih tail htail
    cases mode with
    | code =>
      by_cases hquote : c = '"'
      · rw [hquote] at hrest ⊢
        exact lexes_literal hrest
      · rw [step_code hquote] at hrest
        obtain ⟨pieces, hpieces⟩ := hrest
        exists .code c :: pieces
        apply Lexes.code hquote _ hpieces
        intro hc
        cases rest with
        | nil => simp
        | cons d rest =>
          constructor
          · intro hd
            exact hline rest rfl hc (by simpa using hd)
          · intro hd
            exact hblock rest rfl hc (by simpa using hd)
    | string =>
      by_cases hslash : c = '\\'
      · rw [hslash] at hrest ⊢
        rcases hrest with rfl | ⟨d, rest, rfl, hrest⟩
        · exact Or.inr ⟨[], ['\\'], .nil, Or.inr rfl, rfl⟩
        · exact hrest.extend (.escape d .nil)
      · by_cases hquote : c = '"'
        · rw [hquote] at hrest ⊢
          obtain ⟨pieces, hpieces⟩ := hrest
          exact Or.inl ⟨[], rest, pieces, .nil, rfl, hpieces⟩
        · rw [step_string hquote hslash] at hrest
          exact Literal.extend (.plain hquote hslash .nil) hrest
    | escaped => exact Or.inr ⟨c, rest, rfl, hrest⟩
  | case6 rest ih =>
    obtain ⟨tail, htail, _⟩ := Option.map_eq_some_iff.mp h
    obtain ⟨pieces, hpieces⟩ := ih tail htail
    exact ⟨[], '\n' :: rest, .code '\n' :: pieces, by simp, Or.inr rfl, rfl,
      .code (by decide) (fun hc ↦ absurd hc (by decide)) hpieces⟩
  | case7 c rest hc ih =>
    obtain ⟨tail, htail, _⟩ := Option.map_eq_some_iff.mp h
    obtain ⟨body, rest, pieces, hbody, hstop, hrest, hpieces⟩ := ih tail htail
    exists c :: body, rest, pieces
    exact ⟨by simp [hbody, Ne.symm hc], hstop, by rw [hrest]; rfl, hpieces⟩
  | case8 rest ih =>
    obtain ⟨tail, htail, _⟩ := Option.map_eq_some_iff.mp h
    obtain ⟨pieces, hpieces⟩ := ih tail htail
    exact ⟨[], rest, pieces, by simp, rfl, hpieces⟩
  | case9 rest hclose ih =>
    obtain ⟨tail, htail, _⟩ := Option.map_eq_some_iff.mp h
    obtain ⟨body, rest, pieces, hbody, hrest, hpieces⟩ := ih tail htail
    have hinside := not_infix_cons (c := '\n') hbody fun hc ↦ absurd hc (by decide)
    exact ⟨'\n' :: body, rest, pieces, hinside, by rw [hrest]; rfl, hpieces⟩
  | case10 c rest hclose hc ih =>
    obtain ⟨tail, htail, _⟩ := Option.map_eq_some_iff.mp h
    obtain ⟨body, rest', pieces, hbody, hrest, hpieces⟩ := ih tail htail
    have hstar : c = '*' → body.head? ≠ some '/' := by
      intro hc hhead
      obtain ⟨body', hbody'⟩ := List.head?_eq_some_iff.mp hhead
      rw [hbody'] at hrest
      exact hclose _ hc hrest
    exact ⟨c :: body, rest', pieces, not_infix_cons hbody hstar, by rw [hrest]; rfl, hpieces⟩

/-- A text that can be stripped has pieces. -/
theorem exists_lexes {stripped : List Char} (h : stripFrom (.quote .code) text = some stripped) :
    ∃ pieces, Lexes text pieces :=
  stillReads (.quote .code) text stripped h

/-! ### The comma remover -/

private theorem closesOr_blanked (last : Bool) (text rest : List Char) :
    closesOr last (blanked text ++ rest) = closesOr last rest := by
  rw [closesOr_append, closesOr_spaces isAsciiWhitespace_of_blanked]

/-- What stands behind a comma is seen through the comments. -/
theorem Lexes.closes (h : Lexes text pieces) :
    closesOr false (pieces.flatMap Piece.stripped) = closesNext pieces := by
  induction h with
  | nil => rfl
  | @code c rest pieces _ _ _ ih =>
    rw [List.flatMap_cons, Piece.stripped, List.singleton_append, closesNext]
    split
    · next hc =>
      have hspace : ∀ d ∈ [c], isAsciiWhitespace d = true := by simpa using hc
      have hskip := closesOr_append false [c] (pieces.flatMap Piece.stripped)
      rw [closesOr_spaces hspace, List.singleton_append] at hskip
      rw [hskip, ih]
    · next hc => exact closesOr_cons (by simpa using hc) _ _
  | string | unclosed => exact closesOr_cons (by decide) _ _
  | line _ _ _ ih | block _ _ ih =>
    rw [List.flatMap_cons, Piece.stripped, closesOr_blanked, ih]
    rfl

private theorem track_blanked (text : List Char) : track .code (blanked text) = .code := by
  have hsettled : Settled (blanked text) := by
    apply Settled.of_not_mem
    · intro hmem
      cases mem_blanked hmem <;> contradiction
    · intro hmem
      cases mem_blanked hmem <;> contradiction
  exact hsettled.whole

private theorem trailingFrom_blanked (last : Bool) (text rest : List Char) :
    trailingFrom last .code (blanked text ++ rest) =
      blanked text ++ trailingFrom last .code rest := by
  rw [trailingFrom_append, track_blanked, trailingFrom_of_not_mem]
  intro hmem
  cases mem_blanked hmem <;> contradiction

/-- The trailing commas of a text without its comments are blanked. -/
theorem Lexes.trailing (h : Lexes text pieces) :
    trailingFrom false .code (pieces.flatMap Piece.stripped) = sanitizedPieces pieces := by
  induction h with
  | nil => rfl
  | @code c rest pieces quote _ more ih =>
    rw [List.flatMap_cons, Piece.stripped, List.singleton_append, trailingFrom, more.closes,
      step_code quote, ih, sanitizedPieces]
    simp only [true_and]
    split <;> rfl
  | string inside _ ih =>
    have hstring := Settled.of_quoted inside
    rw [List.flatMap_cons, Piece.stripped, trailingFrom_append, hstring.fixed, hstring.whole, ih]
    rfl
  | unclosed inside escapes =>
    rw [List.flatMap_cons, List.flatMap_nil, List.append_nil, Piece.stripped]
    show '"' :: trailingFrom false .string _ = _
    rw [trailingFrom_inside inside]
    rcases escapes with rfl | rfl <;> simp [trailingFrom, sanitizedPieces]
  | line _ _ _ ih | block _ _ ih =>
    rw [List.flatMap_cons, Piece.stripped, trailingFrom_blanked, ih]
    rfl

/-- A text is sanitized piece by piece. -/
theorem Lexes.sanitizes (h : Lexes text pieces) :
    Sanitizes text (sanitizedPieces pieces) :=
  ⟨_, h.strip, h.trailing⟩

/-- Each string literal stands where it stood. -/
theorem Lexes.string_intact {contents : List Char} {front back : List Piece}
    (h : Lexes contents (front ++ .string text :: back)) {start : Nat}
    (hstart : start = byteLength (front.flatMap Piece.chars)) :
    sliceBytes start (start + byteLength text) contents = text ∧
      sliceBytes start (start + byteLength text)
        (sanitizedPieces (front ++ .string text :: back)) = text := by
  have ⟨before, hbefore, hlength⟩ := exists_sanitizedPieces front (.string text :: back)
  have hcontents : contents =
      front.flatMap Piece.chars ++ text ++ back.flatMap Piece.chars := by
    rw [← h.chars]
    simp [Piece.chars]
  constructor
  · rw [hcontents]
    exact sliceBytes_append hstart (by rw [hstart]) _
  · rw [hbefore, sanitizedPieces, ← List.append_assoc]
    exact sliceBytes_append (by rw [hstart, hlength]) (by rw [hstart, hlength]) _

end Bootty.Config
