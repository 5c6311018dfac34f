import Bootty.Terminal.WriteIngress
import Mathlib.Data.List.Chain

/-!
# Sanitizing of Kitty's graphics

The loop of `sanitize_kitty_graphics_commands`
(`crates/bootty-terminal/src/terminal_engine/write_ingress.rs:312–394`) over the packets of a write.
It removes the invalid fields from the control part of every packet and leaves all else as it is,
so that its own scan finds the same packets in what it returns.
-/

namespace Bootty.Terminal

open Bootty.Base

/-- `write_ingress.rs:312–315`. -/
structure SanitizedKittyGraphics where
  bytes : List UInt8
  touched : Bool
  deriving DecidableEq, Repr

/-- What the loop over the packets changes. -/
structure KittyGraphicsScan where
  out : Option (List UInt8)
  pending : List UInt8
  remaining : List UInt8
  touched : Bool

variable {start : Nat}

private theorem findBytes_pos {remaining : List UInt8}
    (h : findBytes kittyStart remaining = some start) : 0 < remaining.length := by
  cases remaining with
  | nil => cases h
  | cons byte rest => exact Nat.zero_lt_succ _

/-- `write_ingress.rs:322–357`. What is split off lies within the bytes, so that no checked split
ends the loop. -/
def KittyGraphicsScan.run (scan : KittyGraphicsScan) : KittyGraphicsScan :=
  match _hstart : findBytes kittyStart scan.remaining with
  | none => scan
  | some start =>
    let packet := scan.remaining.drop start
    let payload := packet.drop kittyStart.length
    match findOscTerminator payload with
    | none => { scan with touched := true }
    | some (payloadLen, terminatorLen) =>
      let terminated := payload.drop payloadLen
      let terminator := terminated.take terminatorLen
      let rest := terminated.drop terminatorLen
      let payload := payload.take payloadLen
      let control := payload.takeWhile (· != 0x3B)
      let body := payload.drop control.length
      match sanitizeKittyGraphicsControl control with
      | none => run { scan with remaining := rest, touched := true }
      | some sanitized =>
        let output := scan.out.getD [] ++ scan.pending.take (scan.pending.length - packet.length) ++
          kittyStart ++ sanitized ++ body ++ terminator
        run { out := some output, pending := rest, remaining := rest, touched := true }
termination_by scan.remaining.length
decreasing_by
  all_goals
    have hpos := findBytes_pos _hstart
    have hlen : kittyStart.length = 3 := by decide +kernel
    simp only [List.length_drop, hlen]
    omega

/-- `write_ingress.rs:317–366`. -/
def sanitizeKittyGraphics (data : List UInt8) : SanitizedKittyGraphics :=
  let scan := KittyGraphicsScan.run ⟨none, data, data, false⟩
  { bytes := scan.out.elim data (· ++ scan.pending), touched := scan.touched }

/-- A part of a write: a byte outside packets, a packet, or the packet without an end. -/
inductive KittyPiece where
  | outside (byte : UInt8)
  | packet (control body terminator : List UInt8)
  | unterminated (rest : List UInt8)
  deriving DecidableEq, Repr

/-- The parts of a write that the scan finds. -/
def kittyPieces : List UInt8 → List KittyPiece
  | [] => []
  | byte :: rest =>
    if kittyStart.isPrefixOf (byte :: rest) then
      let payload := (byte :: rest).drop 3
      match findOscTerminator payload with
      | none => [.unterminated payload]
      | some (payloadLen, terminatorLen) =>
        let control := (payload.take payloadLen).takeWhile (· != 0x3B)
        .packet control ((payload.take payloadLen).drop control.length)
            ((payload.drop payloadLen).take terminatorLen) ::
          kittyPieces (rest.drop (2 + payloadLen + terminatorLen))
    else .outside byte :: kittyPieces rest
termination_by data => data.length
decreasing_by all_goals simp only [List.length_cons, List.length_drop]; omega

/-- The fields of a control part that are valid, with the commas between them. -/
def keepValidFields (control : List UInt8) : List UInt8 :=
  [0x2C].intercalate ((control.splitOn 0x2C).filter validKittyGraphicsField)

namespace KittyPiece

/-- The bytes of a part. -/
def written : KittyPiece → List UInt8
  | outside byte => [byte]
  | packet control body terminator => kittyStart ++ control ++ body ++ terminator
  | unterminated rest => kittyStart ++ rest

/-- A part without the invalid fields of its control part. -/
def sanitize : KittyPiece → KittyPiece
  | packet control body terminator => packet (keepValidFields control) body terminator
  | piece => piece

end KittyPiece

private theorem KittyPiece.written_outside (byte : UInt8) (more : List UInt8) :
    (outside byte).sanitize.written ++ more = byte :: more := rfl

/-! ### Fields -/

section Intercalate

variable {α : Type} {separator : α}

/-- What holds of the separator and of all elements of the parts holds of what they are joined
to. -/
theorem forall_mem_intercalate {P : α → Prop} (hseparator : P separator) {parts : List (List α)} :
    (∀ x ∈ [separator].intercalate parts, P x) ↔ ∀ part ∈ parts, ∀ x ∈ part, P x := by
  induction parts with
  | nil => simp
  | cons part parts ih =>
    cases parts with
    | nil => simp
    | cons next parts =>
      rw [List.intercalate_cons_cons, List.forall_mem_cons, ← ih]
      simp only [List.mem_append, List.mem_singleton]
      constructor
      · exact fun h ↦ ⟨fun x hx ↦ h x (.inl (.inl hx)), fun x hx ↦ h x (.inr hx)⟩
      · rintro ⟨hpart, hrest⟩ x ((hx | rfl) | hx)
        · exact hpart x hx
        · exact hseparator
        · exact hrest x hx

/-- A relation to which the separator is neutral is that of the parts. -/
theorem isChain_intercalate {R : α → α → Prop} (hleft : ∀ x, R x separator)
    (hright : ∀ x, R separator x) {parts : List (List α)} :
    ([separator].intercalate parts).IsChain R ↔ ∀ part ∈ parts, part.IsChain R := by
  induction parts with
  | nil => simp
  | cons part parts ih =>
    cases parts with
    | nil => simp
    | cons next parts =>
      rw [List.intercalate_cons_cons, List.forall_mem_cons, ← ih, List.append_assoc,
        List.isChain_append, List.singleton_append, List.isChain_cons]
      constructor
      · exact fun h ↦ ⟨h.1, h.2.1.2⟩
      · intro h
        refine ⟨h.1, ⟨fun y _ ↦ hright y, h.2⟩, ?_⟩
        intro x _ y hy
        rw [List.head?_cons, Option.mem_some_iff] at hy
        exact hy ▸ hleft x

private theorem notMem_of_mem_splitOn [BEq α] [LawfulBEq α] {text part : List α}
    (h : part ∈ text.splitOn separator) : separator ∉ part := by
  induction text generalizing part with
  | nil =>
    rw [List.splitOn_nil, List.mem_singleton] at h
    rw [h]
    exact List.not_mem_nil
  | cons x text ih =>
    rw [List.splitOn_cons_eq_if_modifyHead] at h
    split at h
    · cases List.mem_cons.mp h with
      | inl h => exact h ▸ List.not_mem_nil
      | inr h => exact ih h
    next hne =>
      cases hsplit : text.splitOn separator with
      | nil => exact absurd hsplit (List.splitOn_ne_nil separator text)
      | cons first parts =>
        rw [hsplit, List.modifyHead_cons, List.mem_cons] at h
        cases h with
        | inl h =>
          rw [h, List.mem_cons, not_or]
          refine ⟨fun heq ↦ hne (by rw [heq]; exact beq_self_eq_true x), ?_⟩
          exact ih (by rw [hsplit]; exact List.mem_cons_self)
        | inr h => exact ih (by rw [hsplit]; exact List.mem_cons_of_mem _ h)

end Intercalate

private theorem keepValidFields_of_valid {control : List UInt8}
    (h : ∀ field ∈ control.splitOn 0x2C, validKittyGraphicsField field = true) :
    keepValidFields control = control := by
  rw [keepValidFields, List.filter_eq_self.mpr h, List.intercalate_splitOn]

/-- The fields that are left are valid. -/
theorem valid_of_mem_keepValidFields {control field : List UInt8}
    (h : field ∈ (keepValidFields control).splitOn 0x2C) :
    validKittyGraphicsField field = true := by
  by_cases hnil : (control.splitOn 0x2C).filter validKittyGraphicsField = []
  · rw [keepValidFields, hnil, List.intercalate_nil, List.splitOn_nil, List.mem_singleton] at h
    rw [h]
    rfl
  · rw [keepValidFields, List.splitOn_intercalate _ _ hnil] at h
    · exact List.of_mem_filter h
    · exact fun part hmem ↦ notMem_of_mem_splitOn (List.mem_of_mem_filter hmem)

private theorem keepValidFields_idem (control : List UInt8) :
    keepValidFields (keepValidFields control) = keepValidFields control :=
  keepValidFields_of_valid fun _ ↦ valid_of_mem_keepValidFields

/-- What holds of the comma and of all bytes of a control part holds of what is left of it. -/
theorem forall_mem_keepValidFields {P : UInt8 → Prop} (hcomma : P 0x2C) {control : List UInt8}
    (h : ∀ byte ∈ control, P byte) : ∀ byte ∈ keepValidFields control, P byte := by
  rw [keepValidFields, forall_mem_intercalate hcomma]
  rw [← @List.intercalate_splitOn _ control _ _ 0x2C, forall_mem_intercalate hcomma] at h
  exact fun field hmem ↦ h field (List.mem_of_mem_filter hmem)

private theorem isChain_keepValidFields {R : UInt8 → UInt8 → Prop} (hleft : ∀ byte, R byte 0x2C)
    (hright : ∀ byte, R 0x2C byte) {control : List UInt8} (h : control.IsChain R) :
    (keepValidFields control).IsChain R := by
  rw [keepValidFields, isChain_intercalate hleft hright]
  rw [← @List.intercalate_splitOn _ control _ _ 0x2C, isChain_intercalate hleft hright] at h
  exact fun field hmem ↦ h field (List.mem_of_mem_filter hmem)

private theorem sanitizeKittyGraphicsControl_eq (control : List UInt8) :
    sanitizeKittyGraphicsControl control =
      if (control.splitOn 0x2C).all validKittyGraphicsField then none
      else some (keepValidFields control) := rfl

private theorem sanitizeKittyGraphicsControl_getD (control : List UInt8) :
    (sanitizeKittyGraphicsControl control).getD control = keepValidFields control := by
  rw [sanitizeKittyGraphicsControl_eq]
  split
  next h => exact (keepValidFields_of_valid (List.all_eq_true.mp h)).symm
  next => rfl

/-! ### Terminators -/

/-- No terminator is in the bytes. -/
structure Unterminated (bytes : List UInt8) : Prop where
  noBell : ∀ byte ∈ bytes, byte ≠ 0x07
  noEnd : bytes.IsChain fun byte next ↦ ¬ (byte = 0x1B ∧ next = 0x5C)

/-- A BEL, or an ESC and a backslash. -/
def IsTerminator (bytes : List UInt8) : Prop := bytes = [0x07] ∨ bytes = [0x1B, 0x5C]

private theorem IsTerminator.head {terminator : List UInt8} (h : IsTerminator terminator)
    (more : List UInt8) : (terminator ++ more).head? ≠ some 0x5C := by
  cases h with
  | inl h => simp [h]
  | inr h => simp [h]

private theorem Unterminated.nil : Unterminated [] := ⟨fun _ h ↦ absurd h List.not_mem_nil, .nil⟩

private theorem unterminated_cons {byte : UInt8} {bytes : List UInt8} :
    Unterminated (byte :: bytes) ↔
      byte ≠ 0x07 ∧ ¬ (byte = 0x1B ∧ bytes.head? = some 0x5C) ∧ Unterminated bytes := by
  constructor
  · intro h
    have ⟨hhead, hchain⟩ := List.isChain_cons.mp h.noEnd
    have hmem := List.forall_mem_cons.mp h.noBell
    exact ⟨hmem.1, fun hend ↦ hhead _ hend.2 ⟨hend.1, rfl⟩, hmem.2, hchain⟩
  · intro ⟨hbyte, hend, h⟩
    constructor
    · exact List.forall_mem_cons.mpr ⟨hbyte, h.noBell⟩
    · rw [List.isChain_cons]
      refine ⟨fun next hnext hboth ↦ hend ⟨hboth.1, ?_⟩, h.noEnd⟩
      rw [← hboth.2]
      exact hnext

/-- The first terminator is found. -/
theorem findOscTerminator_of_unterminated {front terminator : List UInt8}
    (hfront : Unterminated front) (hterminator : IsTerminator terminator) (more : List UInt8) :
    findOscTerminator (front ++ (terminator ++ more)) = some (front.length, terminator.length) := by
  induction front with
  | nil =>
    cases hterminator with
    | inl h => rw [h]; rfl
    | inr h => rw [h]; rfl
  | cons byte front ih =>
    have ⟨hbyte, hend, hrest⟩ := unterminated_cons.mp hfront
    have hhead : ¬ (byte = 0x1B ∧ (front ++ (terminator ++ more)).head? = some 0x5C) := by
      intro ⟨hesc, hhead⟩
      cases front with
      | nil => exact hterminator.head more hhead
      | cons next front => exact hend ⟨hesc, hhead⟩
    rw [List.cons_append, findOscTerminator, if_neg hbyte, if_neg hhead, ih hrest]
    rfl

variable {data : List UInt8}

/-- What is found is the first terminator. -/
theorem findOscTerminator_eq_some {len terminatorLen : Nat}
    (h : findOscTerminator data = some (len, terminatorLen)) :
    ∃ front terminator more, data = front ++ (terminator ++ more) ∧ front.length = len ∧
      terminator.length = terminatorLen ∧ Unterminated front ∧ IsTerminator terminator := by
  induction data generalizing len with
  | nil => cases h
  | cons byte rest ih =>
    unfold findOscTerminator at h
    split at h
    next hbell =>
      cases h
      exact ⟨[], [0x07], rest, by rw [hbell]; rfl, rfl, rfl, .nil, .inl rfl⟩
    next hbell =>
      split at h
      next hend =>
        cases h
        cases rest with
        | nil => cases hend.2
        | cons next rest =>
          have hnext : next = 0x5C := Option.some.inj hend.2
          exact ⟨[], [0x1B, 0x5C], rest, by rw [hend.1, hnext]; rfl, rfl, rfl, .nil, .inr rfl⟩
      next hend =>
        obtain ⟨⟨len', terminatorLen'⟩, hfind, heq⟩ := Option.map_eq_some_iff.mp h
        obtain ⟨rfl, rfl⟩ := Prod.mk.inj heq
        obtain ⟨front, terminator, more, hrest, hlen, hterminator, hfront, hbytes⟩ := ih hfind
        refine ⟨byte :: front, terminator, more, by rw [hrest]; rfl, by rw [List.length_cons, hlen],
          hterminator, ?_, hbytes⟩
        rw [unterminated_cons]
        refine ⟨hbell, fun hboth ↦ hend ⟨hboth.1, ?_⟩, hfront⟩
        rw [hrest, List.head?_append_of_ne_nil _ (by rintro rfl; cases hboth.2)]
        exact hboth.2

/-! ### Packets -/

/-- The parts of a packet as the scan finds them. -/
structure PacketParts (control body terminator : List UInt8) : Prop where
  noSemicolon : 0x3B ∉ control
  semicolon : body = [] ∨ body.head? = some 0x3B
  unterminated : Unterminated (control ++ body)
  isTerminator : IsTerminator terminator

private theorem kittyStart_length : kittyStart.length = 3 := by decide +kernel

private theorem kittyStart_cons : kittyStart = 0x1B :: kittyStart.tail := by decide +kernel

private theorem kittyStart_append (payload : List UInt8) :
    kittyStart ++ payload = 0x1B :: (kittyStart.tail ++ payload) := by
  rw [kittyStart_cons]
  rfl

private theorem drop_takeWhile_semicolon (front : List UInt8) :
    front.drop (front.takeWhile (· != 0x3B)).length = front.dropWhile (· != 0x3B) := by
  have hdrop := @List.drop_left _ (front.takeWhile (· != 0x3B)) (front.dropWhile (· != 0x3B))
  rw [List.takeWhile_append_dropWhile] at hdrop
  exact hdrop

namespace PacketParts

variable {control body terminator : List UInt8}

private theorem takeWhile (h : PacketParts control body terminator) :
    (control ++ body).takeWhile (· != 0x3B) = control := by
  have hcontrol : ∀ byte ∈ control, (byte != 0x3B) = true := by
    intro byte hmem
    exact bne_iff_ne.mpr fun heq ↦ h.noSemicolon (heq ▸ hmem)
  rw [List.takeWhile_append_of_pos hcontrol]
  cases hbody : body with
  | nil => simp
  | cons first rest =>
    have hfirst : first = 0x3B := by simpa [hbody] using h.semicolon
    simp [hfirst]

/-- What the scan splits at the first semicolon. -/
theorem of_unterminated {front : List UInt8} (hfront : Unterminated front)
    (hterminator : IsTerminator terminator) :
    PacketParts (front.takeWhile (· != 0x3B))
      (front.drop (front.takeWhile (· != 0x3B)).length) terminator := by
  rw [drop_takeWhile_semicolon]
  constructor
  · intro hmem
    have hne := List.all_eq_true.mp List.all_takeWhile _ hmem
    simp at hne
  · have hhead := List.head?_dropWhile_not (· != 0x3B) front
    cases hdrop : front.dropWhile (· != 0x3B) with
    | nil => exact .inl rfl
    | cons first rest =>
      rw [hdrop] at hhead
      right
      simpa using hhead
  · rw [List.takeWhile_append_dropWhile]
    exact hfront
  · exact hterminator

/-- A packet stays one without its invalid fields. -/
theorem sanitize (h : PacketParts control body terminator) :
    PacketParts (keepValidFields control) body terminator := by
  constructor
  · intro hmem
    have hne := forall_mem_keepValidFields (P := (· ≠ 0x3B)) (by decide)
      (fun byte hbyte heq ↦ h.noSemicolon (heq ▸ hbyte)) _ hmem
    exact hne rfl
  · exact h.semicolon
  · constructor
    · rw [List.forall_mem_append]
      have hboth := List.forall_mem_append.mp h.unterminated.noBell
      exact ⟨forall_mem_keepValidFields (by decide) hboth.1, hboth.2⟩
    · have ⟨hcontrol, hbody, _⟩ := List.isChain_append.mp h.unterminated.noEnd
      rw [List.isChain_append]
      refine ⟨isChain_keepValidFields ?_ ?_ hcontrol, hbody, ?_⟩
      · intro byte hend
        exact absurd hend.2 (by decide)
      · intro byte hend
        exact absurd hend.1 (by decide)
      · -- The payload begins with a semicolon.
        intro last _ first hfirst hend
        cases h.semicolon with
        | inl hnil =>
          rw [hnil] at hfirst
          cases hfirst
        | inr hsome =>
          rw [hsome, Option.mem_some_iff] at hfirst
          rw [← hfirst] at hend
          exact absurd hend.2 (by decide)
  · exact h.isTerminator

/-- The scan finds the end of the packet. -/
theorem findOscTerminator (h : PacketParts control body terminator) (more : List UInt8) :
    findOscTerminator (control ++ body ++ (terminator ++ more)) =
      some ((control ++ body).length, terminator.length) :=
  findOscTerminator_of_unterminated h.unterminated h.isTerminator more

end PacketParts

/-- Every write begins with a byte outside packets, a packet without an end, or a packet. -/
theorem kitty_induction {motive : List UInt8 → Prop} (nil : motive [])
    (outside : ∀ byte rest, ¬ kittyStart <+: byte :: rest → motive rest → motive (byte :: rest))
    (unterminated : ∀ payload, findOscTerminator payload = none → motive (kittyStart ++ payload))
    (packet : ∀ control body terminator more, PacketParts control body terminator → motive more →
      motive ((KittyPiece.packet control body terminator).written ++ more))
    (data : List UInt8) : motive data := by
  induction hlen : data.length using Nat.strong_induction_on generalizing data with
  | _ len ih =>
    cases data with
    | nil => exact nil
    | cons byte rest =>
      by_cases hstart : kittyStart <+: byte :: rest
      · have ⟨payload, hpayload⟩ := hstart
        rw [← hpayload] at hlen ⊢
        cases hfind : findOscTerminator payload with
        | none => exact unterminated payload hfind
        | some found =>
          have ⟨front, terminator, more, hsplit, _, _, hfront, hterminator⟩ :=
            findOscTerminator_eq_some hfind
          have hparts := PacketParts.of_unterminated hfront hterminator
          have hwhole := packet _ _ _ more hparts (ih more.length (by
            rw [← hlen, hsplit]
            simp only [List.length_append, kittyStart_length]
            omega) more rfl)
          rw [KittyPiece.written, List.append_assoc kittyStart, drop_takeWhile_semicolon,
            List.takeWhile_append_dropWhile] at hwhole
          rw [hsplit]
          simpa only [List.append_assoc] using hwhole
      · exact outside byte rest hstart (ih rest.length (by
          rw [← hlen]
          exact Nat.lt_succ_self _) rest rfl)

/-! ### Parts of a write -/

private theorem kittyPieces_outside {byte : UInt8} {rest : List UInt8}
    (h : ¬ kittyStart <+: byte :: rest) :
    kittyPieces (byte :: rest) = .outside byte :: kittyPieces rest := by
  rw [kittyPieces, if_neg (by rw [List.isPrefixOf_iff_prefix]; exact h)]

private theorem kittyPieces_unterminated {payload : List UInt8}
    (h : findOscTerminator payload = none) :
    kittyPieces (kittyStart ++ payload) = [.unterminated payload] := by
  have hstart := List.isPrefixOf_iff_prefix.mpr (List.prefix_append kittyStart payload)
  have hdrop : (kittyStart ++ payload).drop 3 = payload := List.drop_left' kittyStart_length
  rw [kittyStart_append] at hstart hdrop ⊢
  rw [kittyPieces, if_pos hstart]
  simp only [hdrop, h]

private theorem kittyPieces_packet {control body terminator : List UInt8}
    (h : PacketParts control body terminator) (more : List UInt8) :
    kittyPieces ((KittyPiece.packet control body terminator).written ++ more) =
      .packet control body terminator :: kittyPieces more := by
  have hwhole : (KittyPiece.packet control body terminator).written ++ more =
      kittyStart ++ (control ++ body ++ (terminator ++ more)) := by
    simp only [KittyPiece.written, List.append_assoc]
  have hstart := List.isPrefixOf_iff_prefix.mpr
    (List.prefix_append kittyStart (control ++ body ++ (terminator ++ more)))
  have hdrop : (kittyStart ++ (control ++ body ++ (terminator ++ more))).drop 3 =
      control ++ body ++ (terminator ++ more) := List.drop_left' kittyStart_length
  have hrest : (kittyStart ++ (control ++ body ++ (terminator ++ more))).drop
      (3 + ((control ++ body).length + terminator.length)) = more := by
    rw [← List.drop_drop, hdrop, ← List.drop_drop, List.drop_left, List.drop_left]
  rw [hwhole]
  rw [kittyStart_append] at hstart hdrop hrest ⊢
  rw [kittyPieces, if_pos hstart]
  rw [show 3 + ((control ++ body).length + terminator.length) =
    2 + (control ++ body).length + terminator.length + 1 by omega, List.drop_succ_cons] at hrest
  simp only [hdrop, h.findOscTerminator, List.take_left, List.drop_left, h.takeWhile, hrest]

/-- The parts make up the write. -/
theorem flatMap_written_kittyPieces (data : List UInt8) :
    (kittyPieces data).flatMap KittyPiece.written = data := by
  induction data using kitty_induction with
  | nil => rw [kittyPieces]; rfl
  | outside byte rest hstart ih =>
    rw [kittyPieces_outside hstart, List.flatMap_cons, ih]
    rfl
  | unterminated payload hfind => rw [kittyPieces_unterminated hfind, List.flatMap_singleton]; rfl
  | packet control body terminator more hparts ih =>
    rw [kittyPieces_packet hparts, List.flatMap_cons, ih]

private theorem sanitizeKittyGraphicsCommands_eq (data : List UInt8) :
    sanitizeKittyGraphicsCommands data =
      ((kittyPieces data).map KittyPiece.sanitize).flatMap KittyPiece.written := by
  fun_induction sanitizeKittyGraphicsCommands data with
  | case1 => rw [kittyPieces]; rfl
  | case2 byte rest hstart hfind =>
    have ⟨payload, hpayload⟩ := List.isPrefixOf_iff_prefix.mp hstart
    rw [← hpayload, List.drop_left' kittyStart_length] at hfind
    rw [← hpayload, kittyPieces_unterminated hfind, List.map_singleton, List.flatMap_singleton]
    rfl
  | case3 byte rest hstart payloadLen terminatorLen hfind payload control sanitized ih =>
    rw [kittyPieces, if_pos hstart]
    simp only [hfind, List.map_cons, List.flatMap_cons, ih, KittyPiece.sanitize, KittyPiece.written,
      sanitized, control, payload, sanitizeKittyGraphicsControl_getD, List.append_assoc,
      List.drop_drop]
  | case4 byte rest hstart ih =>
    rw [List.isPrefixOf_iff_prefix] at hstart
    rw [kittyPieces_outside hstart, List.map_cons, List.flatMap_cons, ih]
    rfl

private theorem take_sanitized (data : List UInt8) {count : Nat} (hcount : count ≤ 3) :
    (((kittyPieces data).map KittyPiece.sanitize).flatMap KittyPiece.written).take count =
      data.take count := by
  induction data using kitty_induction generalizing count with
  | nil => rw [kittyPieces]; rfl
  | outside byte rest hstart ih =>
    rw [kittyPieces_outside hstart, List.map_cons, List.flatMap_cons]
    cases count with
    | zero => rfl
    | succ count =>
      rw [KittyPiece.written_outside, List.take_succ_cons, List.take_succ_cons, ih (by omega)]
  | unterminated payload hfind =>
    rw [kittyPieces_unterminated hfind, List.map_singleton, List.flatMap_singleton]
    rfl
  | packet control body terminator more hparts ih =>
    rw [kittyPieces_packet hparts, List.map_cons, List.flatMap_cons]
    simp only [KittyPiece.sanitize, KittyPiece.written, List.append_assoc]
    rw [List.take_append_of_le_length (by rw [kittyStart_length]; exact hcount),
      List.take_append_of_le_length (by rw [kittyStart_length]; exact hcount)]

/-- The scan finds the same parts in what is returned. -/
theorem kittyPieces_sanitized (data : List UInt8) :
    kittyPieces (((kittyPieces data).map KittyPiece.sanitize).flatMap KittyPiece.written) =
      (kittyPieces data).map KittyPiece.sanitize := by
  induction data using kitty_induction with
  | nil => rw [kittyPieces, List.map_nil, List.flatMap_nil, kittyPieces]
  | outside byte rest hstart ih =>
    rw [kittyPieces_outside hstart, List.map_cons, List.flatMap_cons]
    have hstart' : ¬ kittyStart <+:
        byte :: ((kittyPieces rest).map KittyPiece.sanitize).flatMap KittyPiece.written := by
      rw [List.prefix_iff_eq_take, kittyStart_length, List.take_succ_cons] at hstart ⊢
      rw [take_sanitized rest (by omega)]
      exact hstart
    rw [KittyPiece.written_outside, kittyPieces_outside hstart', ih]
    rfl
  | unterminated payload hfind =>
    rw [kittyPieces_unterminated hfind, List.map_singleton, List.flatMap_singleton]
    exact kittyPieces_unterminated hfind
  | packet control body terminator more hparts ih =>
    rw [kittyPieces_packet hparts, List.map_cons, List.flatMap_cons, KittyPiece.sanitize,
      kittyPieces_packet hparts.sanitize, ih]

/-! ### The loop -/

private theorem findBytes_kittyStart (h : findBytes kittyStart data = some start) :
    kittyStart <+: data.drop start ∧
      sanitizeKittyGraphicsCommands data =
        data.take start ++ sanitizeKittyGraphicsCommands (data.drop start) := by
  induction data generalizing start with
  | nil => cases h
  | cons byte rest ih =>
    unfold findBytes at h
    split at h
    next hstart =>
      cases h
      exact ⟨List.isPrefixOf_iff_prefix.mp hstart, rfl⟩
    next hstart =>
      have ⟨start', hfind, heq⟩ := Option.map_eq_some_iff.mp h
      rw [← heq, List.drop_succ_cons, List.take_succ_cons, sanitizeKittyGraphicsCommands,
        if_neg hstart, (ih hfind).2]
      exact ⟨(ih hfind).1, rfl⟩

private theorem findBytes_kittyStart_none (h : findBytes kittyStart data = none) :
    ¬ kittyStart <:+: data ∧ sanitizeKittyGraphicsCommands data = data := by
  induction data with
  | nil =>
    rw [sanitizeKittyGraphicsCommands]
    exact ⟨by decide +kernel, rfl⟩
  | cons byte rest ih =>
    unfold findBytes at h
    split at h
    · cases h
    next hstart =>
      obtain ⟨hnone, hsame⟩ := ih (Option.map_eq_none_iff.mp h)
      rw [sanitizeKittyGraphicsCommands, if_neg hstart, hsame, List.infix_cons_iff, not_or]
      exact ⟨⟨by rw [← List.isPrefixOf_iff_prefix]; exact hstart, hnone⟩, rfl⟩

private theorem sanitizeKittyGraphicsCommands_packet {control body terminator : List UInt8}
    (h : PacketParts control body terminator) (more : List UInt8) :
    sanitizeKittyGraphicsCommands ((KittyPiece.packet control body terminator).written ++ more) =
      (KittyPiece.packet (keepValidFields control) body terminator).written ++
        sanitizeKittyGraphicsCommands more := by
  rw [sanitizeKittyGraphicsCommands_eq, kittyPieces_packet h, sanitizeKittyGraphicsCommands_eq]
  rfl

private theorem elim_out {out : Option (List UInt8)} {pending : List UInt8}
    (h : out = none → pending = data) : out.elim data (· ++ pending) = out.getD [] ++ pending := by
  cases out with
  | none => exact (h rfl).symm
  | some output => rfl

private theorem packet_found {remaining : List UInt8} {payloadLen terminatorLen : Nat}
    (hfind : findBytes kittyStart remaining = some start)
    (hterminator : findOscTerminator ((remaining.drop start).drop kittyStart.length) =
      some (payloadLen, terminatorLen)) :
    let payload := (remaining.drop start).drop kittyStart.length
    let control := (payload.take payloadLen).takeWhile (· != 0x3B)
    let body := (payload.take payloadLen).drop control.length
    let terminator := (payload.drop payloadLen).take terminatorLen
    let rest := (payload.drop payloadLen).drop terminatorLen
    remaining.drop start = (KittyPiece.packet control body terminator).written ++ rest ∧
      sanitizeKittyGraphicsCommands remaining = remaining.take start ++
        ((KittyPiece.packet (keepValidFields control) body terminator).written ++
          sanitizeKittyGraphicsCommands rest) := by
  have ⟨⟨payload, hpayload⟩, hsanitized⟩ := findBytes_kittyStart hfind
  rw [hsanitized]
  rw [← hpayload, List.drop_left] at hterminator
  rw [← hpayload, List.drop_left]
  have ⟨front, terminator, rest, hsplit, hfrontLen, hterminatorLen, hfront, hend⟩ :=
    findOscTerminator_eq_some hterminator
  have hparts := PacketParts.of_unterminated hfront hend
  subst hsplit hfrontLen hterminatorLen
  simp only [List.take_left, List.drop_left, List.append_cancel_left_eq]
  rw [← sanitizeKittyGraphicsCommands_packet hparts]
  have hwhole : (KittyPiece.packet (front.takeWhile (· != 0x3B))
      (front.drop (front.takeWhile (· != 0x3B)).length) terminator).written ++ rest =
        kittyStart ++ (front ++ (terminator ++ rest)) := by
    rw [KittyPiece.written, List.append_assoc kittyStart, drop_takeWhile_semicolon,
      List.takeWhile_append_dropWhile]
    simp only [List.append_assoc]
  rw [hwhole]
  exact ⟨rfl, rfl⟩

/-- The loop writes out what is before the bytes that remain and rewrites the rest. -/
theorem KittyGraphicsScan.run_eq (scan : KittyGraphicsScan) {data skipped : List UInt8}
    (hpending : scan.pending = skipped ++ scan.remaining)
    (hdata : scan.out = none → scan.pending = data) :
    scan.run.out.elim data (· ++ scan.run.pending) =
        scan.out.getD [] ++ skipped ++ sanitizeKittyGraphicsCommands scan.remaining ∧
      scan.run.touched = (scan.touched || (findBytes kittyStart scan.remaining).isSome) := by
  fun_induction KittyGraphicsScan.run scan generalizing skipped with
  | case1 scan hfind =>
    have ⟨_, hsame⟩ := findBytes_kittyStart_none hfind
    rw [hsame, hfind]
    exact ⟨by rw [elim_out hdata, hpending, List.append_assoc], by simp⟩
  | case2 scan start hfind packet payload =>
    rename_i hterminator
    have ⟨⟨tail, htail⟩, hsanitized⟩ := findBytes_kittyStart hfind
    have hsame : sanitizeKittyGraphicsCommands scan.remaining = scan.remaining := by
      simp only [payload, packet, ← htail, List.drop_left] at hterminator
      rw [hsanitized, ← htail, sanitizeKittyGraphicsCommands_eq,
        kittyPieces_unterminated hterminator, List.map_singleton, List.flatMap_singleton,
        KittyPiece.sanitize, KittyPiece.written, htail, List.take_append_drop]
      · intro control body terminator h
        cases h
    rw [hsame, hfind]
    exact ⟨by rw [elim_out hdata, hpending, List.append_assoc], by simp⟩
  | case3 scan start hfind packet payload payloadLen terminatorLen hterminator terminated rest
      payload' control hvalid =>
    rename_i ih
    have ⟨hpacket, hsanitized⟩ := packet_found hfind hterminator
    have hcontrol : keepValidFields control = control := by
      rw [← sanitizeKittyGraphicsControl_getD, hvalid]
      rfl
    have ⟨hbytes, htouched⟩ := @ih (skipped ++ (scan.remaining.take start ++
      (KittyPiece.packet control (payload'.drop control.length)
        (terminated.take terminatorLen)).written)) (by
      show scan.pending = _ ++ rest
      rw [hpending, List.append_assoc, List.append_assoc, ← hpacket, List.take_append_drop]) hdata
    rw [show keepValidFields _ = control from hcontrol] at hsanitized
    rw [hbytes, htouched, hsanitized, hfind]
    constructor
    · simp only [List.append_assoc]
      rfl
    · simp
  | case4 scan start hfind packet payload payloadLen terminatorLen hterminator terminated terminator
      rest payload' control body sanitized hsome output =>
    rename_i ih
    have ⟨hpacket, hsanitized⟩ := packet_found hfind hterminator
    have hcontrol : sanitized = keepValidFields control := by
      rw [← sanitizeKittyGraphicsControl_getD, hsome]
      rfl
    have ⟨hbytes, htouched⟩ := @ih [] rfl (fun h ↦ by cases h)
    rw [hbytes, htouched, hsanitized, hfind]
    have hprefix : scan.pending.take (scan.pending.length - packet.length) =
        skipped ++ scan.remaining.take start := by
      have hsplit : scan.pending = skipped ++ scan.remaining.take start ++ packet := by
        rw [hpending, List.append_assoc, List.take_append_drop]
      rw [hsplit, List.length_append, Nat.add_sub_cancel, List.take_left]
    constructor
    · simp only [Option.getD_some, output, hprefix, hcontrol, KittyPiece.written, List.append_assoc,
        List.append_nil]
      rfl
    · simp

/-- The loop rewrites every packet that is found and nothing else. -/
theorem sanitizeKittyGraphics_bytes (data : List UInt8) :
    (sanitizeKittyGraphics data).bytes = sanitizeKittyGraphicsCommands data :=
  (@KittyGraphicsScan.run_eq ⟨none, data, data, false⟩ data [] rfl
    fun _ ↦ rfl).1

private theorem sanitizeKittyGraphics_touched (data : List UInt8) :
    (sanitizeKittyGraphics data).touched = (findBytes kittyStart data).isSome :=
  (@KittyGraphicsScan.run_eq ⟨none, data, data, false⟩ data [] rfl
    fun _ ↦ rfl).2

/-- The invalid fields of every packet, and nothing else, are removed from a write. The scan of
what is left finds the same packets, of which no field is invalid, so that sanitizing it again
changes nothing. -/
theorem sanitizeKittyGraphics_complete (data : List UInt8) :
    (kittyPieces data).flatMap KittyPiece.written = data ∧
      (sanitizeKittyGraphics data).bytes =
        ((kittyPieces data).map KittyPiece.sanitize).flatMap KittyPiece.written ∧
      kittyPieces (sanitizeKittyGraphics data).bytes =
        (kittyPieces data).map KittyPiece.sanitize ∧
      (∀ control body terminator,
        KittyPiece.packet control body terminator ∈ kittyPieces (sanitizeKittyGraphics data).bytes →
          ∀ field ∈ control.splitOn 0x2C, validKittyGraphicsField field = true) ∧
      (sanitizeKittyGraphics (sanitizeKittyGraphics data).bytes).bytes =
        (sanitizeKittyGraphics data).bytes ∧
      ((sanitizeKittyGraphics data).touched = true ↔ kittyStart <:+: data) := by
  rw [sanitizeKittyGraphics_bytes, sanitizeKittyGraphics_bytes, sanitizeKittyGraphics_touched,
    sanitizeKittyGraphicsCommands_eq data]
  refine ⟨flatMap_written_kittyPieces data, rfl, kittyPieces_sanitized data, ?_, ?_, ?_⟩
  · intro control body terminator hmem field hfield
    rw [kittyPieces_sanitized, List.mem_map] at hmem
    have ⟨piece, _, hpiece⟩ := hmem
    cases piece with
    | outside byte => cases hpiece
    | unterminated rest => cases hpiece
    | packet control' body' terminator' =>
      cases hpiece
      exact valid_of_mem_keepValidFields hfield
  · rw [sanitizeKittyGraphicsCommands_eq, kittyPieces_sanitized, List.map_map]
    congr 1
    apply List.map_congr_left
    intro piece _
    cases piece with
    | outside byte => rfl
    | unterminated rest => rfl
    | packet control body terminator =>
      simp only [Function.comp_apply, KittyPiece.sanitize, keepValidFields_idem]
  · cases hfind : findBytes kittyStart data with
    | none => simp [(findBytes_kittyStart_none hfind).1]
    | some start =>
      have hwithin :=
        (findBytes_kittyStart hfind).1.isInfix.trans (List.drop_suffix start data).isInfix
      simp [hwithin]

end Bootty.Terminal
