import Bootty.Base.ByteStream
import Bootty.Base.ListEdits
import Bootty.Base.Socket

/-!
# Frames of the native mux

Model of the wire framing of `crates/bootty-mux/src/native/protocol.rs:227–283` and `303–366`: a
big-endian length, a kind and a payload. `FrameReader::poll` decodes what a socket delivers in
its own buffer and comes back from a timeout with nothing lost; `read_blocking` asks for the
parts of a frame one by one.
-/

namespace Bootty.Mux.Native

open Bootty.Base

/-- `MAX_FRAME_BYTES`: the kind and the payload of one frame. -/
def maxFrameBytes : Nat := 32 * 1024 * 1024

/-- `protocol.rs:227–231`. -/
structure Frame where
  kind : UInt8
  bytes : List UInt8
  deriving DecidableEq, Repr

/-- An error with a text of its own, or one of the stream. -/
inductive ProtocolError where
  | text (message : String)
  | read (error : ReadError)
  | write
  deriving DecidableEq, Repr

/-- `u32::to_be_bytes`. -/
def toBeBytes (n : Nat) : List UInt8 :=
  [UInt8.ofNat (n / 2 ^ 24), UInt8.ofNat (n / 2 ^ 16), UInt8.ofNat (n / 2 ^ 8), UInt8.ofNat n]

/-- `u32::from_be_bytes`. -/
def fromBeBytes (bytes : List UInt8) : Nat := bytes.foldl (fun n byte ↦ n * 256 + byte.toNat) 0

/-- `protocol.rs:303–314`. -/
def Frame.length (frame : Frame) : Except ProtocolError Nat :=
  let length := frame.bytes.length + 1
  if length ≤ maxFrameBytes then .ok length
  else .error (.text s!"mux frame exceeds {maxFrameBytes} bytes")

/-- `protocol.rs:316–323`. -/
def payloadLength (length : Nat) : Except ProtocolError Nat :=
  if 1 ≤ length ∧ length ≤ maxFrameBytes then .ok (length - 1)
  else .error (.text s!"invalid mux frame length {length}")

/-- `protocol.rs:360–366`; the flush is one more write that may fail. -/
def writeBlocking (writer : Sink UInt8) (frame : Frame) :
    Except ProtocolError Unit × Sink UInt8 :=
  match frame.length with
  | .error error => (.error error, writer)
  | .ok length =>
    match writer.writeAll (toBeBytes length) with
    | (false, writer) => (.error .write, writer)
    | (true, writer) =>
      match writer.writeAll [frame.kind] with
      | (false, writer) => (.error .write, writer)
      | (true, writer) =>
        match writer.writeAll frame.bytes with
        | (false, writer) => (.error .write, writer)
        | (true, writer) =>
          match writer.writeAll [] with
          | (false, writer) => (.error .write, writer)
          | (true, writer) => (.ok (), writer)

/-- `protocol.rs:343–356`. -/
def readBlocking (reader : Socket UInt8) : Except ProtocolError Frame × Socket UInt8 :=
  match reader.readExact 4 with
  | (.error error, reader) => (.error (.read error), reader)
  | (.ok header, reader) =>
    match payloadLength (fromBeBytes header) with
    | .error error => (.error error, reader)
    | .ok length =>
      match reader.readExact 1 with
      | (.error error, reader) => (.error (.read error), reader)
      | (.ok kind, reader) =>
        match reader.readExact length with
        | (.error error, reader) => (.error (.read error), reader)
        | (.ok bytes, reader) => (.ok ⟨kind.headD 0, bytes⟩, reader)

/-- `protocol.rs:233–237`. -/
structure FrameReader where
  buffer : List UInt8 := []
  deriving DecidableEq, Repr

namespace FrameReader

/-- A whole frame at the front of the buffer, `protocol.rs:243–260`, and what is left. -/
def takeFrame (buffer : List UInt8) : Except ProtocolError (Option (Frame × List UInt8)) :=
  if 4 ≤ buffer.length then
    match payloadLength (fromBeBytes (buffer.take 4)) with
    | .error error => .error error
    | .ok payload =>
      let total := payload + 5
      if total ≤ buffer.length then
        match buffer[4]? with
        | none => .error (.text "missing mux frame kind")
        | some kind => .ok (some (⟨kind, (buffer.take total).drop 5⟩, buffer.drop total))
      else .ok none
  else .ok none

/-- `protocol.rs:241–282`; `none` is an idle timeout. -/
def poll (self : FrameReader) (reader : Socket UInt8) :
    Except ProtocolError (Option Frame) × FrameReader × Socket UInt8 :=
  match takeFrame self.buffer with
  | .error error => (.error error, self, reader)
  | .ok (some (frame, rest)) => (.ok (some frame), ⟨rest⟩, reader)
  | .ok none =>
    match _hread : reader.read 8192 with
    | (.ok [], reader) => (.error (.text "native mux stream closed"), self, reader)
    | (.ok (byte :: bytes), reader) => poll ⟨self.buffer ++ byte :: bytes⟩ reader
    | (.error (.paused .interrupted), reader) => poll self reader
    | (.error (.paused _), reader) => (.ok none, self, reader)
    | (.error error, reader) => (.error (.read error), self, reader)
termination_by reader.remaining
decreasing_by
  · exact Socket.remaining_read (by decide) _hread (.inr ⟨_, _, rfl⟩)
  · exact Socket.remaining_read (by decide) _hread (.inl ⟨_, rfl⟩)

end FrameReader

/-! ### What a byte string stands for -/

/-- The bytes of a frame on the wire. -/
def Frame.encode (frame : Frame) : List UInt8 :=
  toBeBytes (frame.bytes.length + 1) ++ frame.kind :: frame.bytes

/-- A frame that may be sent. -/
def Frame.Fits (frame : Frame) : Prop := frame.bytes.length + 1 ≤ maxFrameBytes

/-- The length a header announces. -/
def headerLength (bytes : List UInt8) : Option Nat :=
  if 4 ≤ bytes.length then some (fromBeBytes (bytes.take 4)) else none

/-- The length is one no frame has. -/
def BadLength (length : Nat) : Prop := length = 0 ∨ maxFrameBytes < length

/-- The bytes begin with a header of such a length. -/
def BadHeader (bytes : List UInt8) (length : Nat) : Prop :=
  headerLength bytes = some length ∧ BadLength length

/-- The bytes end before their first frame does. -/
def Short (bytes : List UInt8) : Prop :=
  ∀ length, headerLength bytes = some length →
    ¬BadLength length ∧ bytes.length < length + 4

private theorem length_toBeBytes (n : Nat) : (toBeBytes n).length = 4 := rfl

private theorem fromBeBytes_toBeBytes {n : Nat} (h : n < 2 ^ 32) : fromBeBytes
    (toBeBytes n) = n := by
  simp only [fromBeBytes, toBeBytes, List.foldl_cons, List.foldl_nil, UInt8.toNat_ofNat']
  omega

/-- A header is determined by the length it announces. -/
theorem toBeBytes_fromBeBytes {bytes : List UInt8} (h : bytes.length = 4) :
    toBeBytes (fromBeBytes bytes) = bytes := by
  match bytes, h with
  | [a, b, c, d], _ =>
    have ha := a.toNat_lt
    have hb := b.toNat_lt
    have hc := c.toNat_lt
    have hd := d.toNat_lt
    simp only [toBeBytes, fromBeBytes, List.foldl_cons, List.foldl_nil, List.cons.injEq,
      ← UInt8.toNat_inj, UInt8.toNat_ofNat', and_true]
    omega

/-- The error of a header no frame has. -/
def badLengthError (length : Nat) : ProtocolError := .text s!"invalid mux frame length {length}"

private theorem payloadLength_of_bad {length : Nat} (h : BadLength length) :
    payloadLength length = .error (badLengthError length) := by
  unfold BadLength at h
  rw [payloadLength, if_neg (by omega), badLengthError]

private theorem payloadLength_of_good {length : Nat} (h : ¬BadLength length) :
    payloadLength length = .ok (length - 1) := by
  unfold BadLength at h
  rw [payloadLength, if_pos (by omega)]

/-- A bad header stays one, whatever follows. -/
theorem BadHeader.append {bytes : List UInt8} {length : Nat} (h : BadHeader bytes length)
    (more : List UInt8) : BadHeader (bytes ++ more) length := by
  have ⟨hheader, hbad⟩ := h
  unfold headerLength at hheader
  split at hheader
  · next hfour =>
    refine ⟨?_, hbad⟩
    rw [headerLength, if_pos (by rw [List.length_append]; omega), List.take_append_of_le_length hfour]
    exact hheader
  · cases hheader

variable {frame : Frame}

/-- The header of an encoded frame announces its length. -/
theorem headerLength_encode (h : frame.Fits) (more : List UInt8) :
    headerLength (frame.encode ++ more) = some (frame.bytes.length + 1) := by
  have hsmall : frame.bytes.length + 1 < 2 ^ 32 := Nat.lt_of_le_of_lt h (by decide)
  have htake : (frame.encode ++ more).take 4 = toBeBytes (frame.bytes.length + 1) := by
    rw [Frame.encode, List.append_assoc]
    exact List.take_left' (length_toBeBytes _)
  rw [headerLength, if_pos, htake, fromBeBytes_toBeBytes hsmall]
  rw [List.length_append, Frame.encode, List.length_append, length_toBeBytes]
  omega

private theorem length_encode (frame : Frame) :
    frame.encode.length = frame.bytes.length + 1 + 4 := by
  rw [Frame.encode, List.length_append, length_toBeBytes, List.length_cons]
  omega

/-- A header, a kind and enough bytes are a frame and what follows it. -/
theorem encode_of_parts {header tail : List UInt8} (kind : UInt8) (hheader : header.length = 4)
    (hgood : ¬BadLength (fromBeBytes header)) (henough : fromBeBytes header - 1 ≤ tail.length) :
    Frame.Fits ⟨kind, tail.take (fromBeBytes header - 1)⟩ ∧
      header ++ kind :: tail =
        Frame.encode ⟨kind, tail.take (fromBeBytes header - 1)⟩ ++
          tail.drop (fromBeBytes header - 1) := by
  unfold BadLength at hgood
  have hlength : (tail.take (fromBeBytes header - 1)).length + 1 = fromBeBytes header := by
    rw [List.length_take]
    omega
  constructor
  · show (tail.take (fromBeBytes header - 1)).length + 1 ≤ maxFrameBytes
    omega
  · rw [Frame.encode, hlength, toBeBytes_fromBeBytes hheader]
    simp

/-- What is found at the front of some bytes: a bad header, nothing whole, or a frame. -/
def Front (bytes : List UInt8) : Except ProtocolError (Option (Frame × List UInt8)) → Prop
  | .error error => ∃ length, BadHeader bytes length ∧ error = badLengthError length
  | .ok none => Short bytes
  | .ok (some (frame, rest)) => frame.Fits ∧ bytes = frame.encode ++ rest

namespace FrameReader

/-- The front of the buffer is what `poll` takes it for. -/
theorem front_takeFrame (buffer : List UInt8) : Front buffer (takeFrame buffer) := by
  unfold takeFrame
  split
  · next hfour =>
    have hheader : headerLength buffer = some (fromBeBytes (buffer.take 4)) := if_pos hfour
    by_cases hbad : BadLength (fromBeBytes (buffer.take 4))
    · rw [payloadLength_of_bad hbad]
      exact ⟨_, ⟨hheader, hbad⟩, rfl⟩
    · rw [payloadLength_of_good hbad]
      dsimp only
      split
      · next htotal =>
        have hfive : buffer[4]? = some buffer[4] := List.getElem?_eq_getElem (by omega)
        have ⟨header, tail, hbuffer, hlength⟩ := exists_split_of_getElem? hfive
        rw [hfive]
        dsimp only
        generalize buffer[4] = kind at hbuffer
        subst hbuffer
        have htake : (header ++ kind :: tail).take 4 = header := List.take_left' hlength
        rw [htake] at hbad htotal ⊢
        simp only [List.length_append, List.length_cons] at htotal
        have henough : fromBeBytes header - 1 ≤ tail.length := by omega
        have ⟨hfits, hsplit⟩ := encode_of_parts kind hlength hbad henough
        have hsum : fromBeBytes header - 1 + 5 = (header ++ [kind]).length +
            (fromBeBytes header - 1) := by
          simp only [List.length_append, List.length_singleton]
          omega
        have hbytes : ((header ++ kind :: tail).take (fromBeBytes header - 1 + 5)).drop 5 =
            tail.take (fromBeBytes header - 1) := by
          rw [List.append_cons, hsum, List.take_length_add_append, List.drop_left' (by simp [hlength])]
        have hrest : (header ++ kind :: tail).drop (fromBeBytes header - 1 + 5) =
            tail.drop (fromBeBytes header - 1) := by
          rw [List.append_cons, hsum, List.drop_length_add_append]
        rw [hbytes, hrest]
        exact ⟨hfits, hsplit⟩
      · next htotal =>
        intro length hlength
        obtain rfl := Option.some.inj (hheader.symm.trans hlength)
        refine ⟨hbad, ?_⟩
        unfold BadLength at hbad
        omega
  · next hfour =>
    intro length hlength
    rw [headerLength, if_neg hfour] at hlength
    cases hlength

end FrameReader

/-- Two encoded frames at the front of the same bytes are one. -/
theorem encode_append_inj {f g : Frame} {rest rest' : List UInt8} (hf : f.Fits) (hg : g.Fits)
    (h : f.encode ++ rest = g.encode ++ rest') : f = g ∧ rest = rest' := by
  have hlength : f.bytes.length + 1 = g.bytes.length + 1 := by
    apply Option.some.inj
    rw [← headerLength_encode hf rest, ← headerLength_encode hg rest', h]
  have ⟨hencode, hrest⟩ := List.append_inj h (by rw [length_encode, length_encode, hlength])
  have hparts : f.kind :: f.bytes = g.kind :: g.bytes := by
    rw [Frame.encode, Frame.encode, hlength] at hencode
    exact List.append_cancel_left hencode
  have ⟨hkind, hbytes⟩ := List.cons.inj hparts
  have ⟨kind, bytes⟩ := f
  have ⟨kind', bytes'⟩ := g
  exact ⟨by rw [show kind = kind' from hkind, show bytes = bytes' from hbytes], hrest⟩

private theorem Frame.Fits.not_bad (h : frame.Fits) :
    ¬BadLength (frame.bytes.length + 1) := by
  unfold Frame.Fits at h
  unfold BadLength
  omega

/-- Nothing else is at the front of the bytes. -/
theorem Front.unique {bytes : List UInt8}
    {found found' : Except ProtocolError (Option (Frame × List UInt8))}
    (h : Front bytes found) (h' : Front bytes found') : found = found' := by
  -- A bad header, a short text and a frame exclude one another.
  have hbadShort : ∀ length, BadHeader bytes length → ¬Short bytes :=
    fun length hbad hshort ↦ (hshort length hbad.1).1 hbad.2
  have hbadFrame : ∀ length (frame : Frame) rest, BadHeader bytes length → frame.Fits →
      bytes ≠ frame.encode ++ rest := by
    intro length frame rest hbad hfits heq
    have hheader := hbad.1
    rw [heq, headerLength_encode hfits] at hheader
    exact hfits.not_bad (Option.some.inj hheader ▸ hbad.2)
  have hshortFrame : ∀ (frame : Frame) rest, Short bytes → frame.Fits →
      bytes ≠ frame.encode ++ rest := by
    intro frame rest hshort hfits heq
    subst heq
    have hlong := (hshort _ (headerLength_encode hfits rest)).2
    rw [List.length_append, length_encode] at hlong
    omega
  match found, found', h, h' with
  | .error _, .error _, ⟨length, hbad, herror⟩, ⟨length', hbad', herror'⟩ =>
    obtain rfl := Option.some.inj (hbad.1.symm.trans hbad'.1)
    rw [herror, herror']
  | .ok none, .ok none, _, _ => rfl
  | .ok (some (f, rest)), .ok (some (g, rest')), ⟨hf, heq⟩, ⟨hg, heq'⟩ =>
    have ⟨hsame, hrest⟩ := encode_append_inj hf hg (heq.symm.trans heq')
    rw [hsame, hrest]
  | .error _, .ok none, ⟨length, hbad, _⟩, hshort => exact absurd hshort (hbadShort length hbad)
  | .ok none, .error _, hshort, ⟨length, hbad, _⟩ => exact absurd hshort (hbadShort length hbad)
  | .error _, .ok (some (f, rest)), ⟨length, hbad, _⟩, ⟨hf, heq⟩ =>
    exact absurd heq (hbadFrame length f rest hbad hf)
  | .ok (some (f, rest)), .error _, ⟨hf, heq⟩, ⟨length, hbad, _⟩ =>
    exact absurd heq (hbadFrame length f rest hbad hf)
  | .ok none, .ok (some (f, rest)), hshort, ⟨hf, heq⟩ =>
    exact absurd heq (hshortFrame f rest hshort hf)
  | .ok (some (f, rest)), .ok none, ⟨hf, heq⟩, hshort =>
    exact absurd heq (hshortFrame f rest hshort hf)

/-- The end of the stream, as `poll` reports it. -/
def closeError (s : Socket UInt8) : ProtocolError :=
  if s.fails then .read .failed else .text "native mux stream closed"

variable {self self' : FrameReader} {reader reader' : Socket UInt8}

namespace FrameReader

/-- What the outcome of a poll says about the bytes that are still to be decoded. -/
def Polled (self : FrameReader) (reader : Socket UInt8) (self' : FrameReader)
    (reader' : Socket UInt8) : Except ProtocolError (Option Frame) → Prop
  | .ok (some frame) => Front (self.buffer ++ reader.rest)
      (.ok (some (frame, self'.buffer ++ reader'.rest)))
  | .ok none => self'.buffer ++ reader'.rest = self.buffer ++ reader.rest ∧
      reader'.turns.length < reader.turns.length
  | .error error =>
      Front (self.buffer ++ reader.rest) (.error error) ∨
        Front (self.buffer ++ reader.rest) (.ok none) ∧ error = closeError reader

private theorem Polled.of_read {self₁ : FrameReader} {reader₁ : Socket UInt8}
    {outcome : Except ProtocolError (Option Frame)} (h : Polled self₁ reader₁ self' reader' outcome)
    (hbytes : self₁.buffer ++ reader₁.rest = self.buffer ++ reader.rest)
    (hsuffix : reader₁.turns.IsSuffix reader.turns) (hfails : reader₁.fails = reader.fails) :
    Polled self reader self' reader' outcome := by
  match outcome, h with
  | .ok (some frame), h =>
    unfold Polled at h ⊢
    rw [← hbytes]
    exact h
  | .ok none, ⟨hsame, hturns⟩ =>
    exact ⟨hsame.trans hbytes, Nat.lt_of_lt_of_le hturns hsuffix.length_le⟩
  | .error error, h =>
    simp only [Polled, hbytes, closeError, hfails] at h ⊢
    exact h

/-- One poll, in one statement: it reports the front of the bytes, buffered and still to come,
or comes back from a timeout. -/
theorem poll_spec {outcome : Except ProtocolError (Option Frame)}
    (h : self.poll reader = (outcome, self', reader')) :
    Polled self reader self' reader' outcome ∧ reader'.turns.IsSuffix reader.turns ∧
      reader'.fails = reader.fails := by
  fun_induction poll self reader with
  | case1 self reader error hfront =>
    obtain ⟨rfl, rfl, rfl⟩ := by simpa using h
    have ⟨length, hbad, herror⟩ : Front self.buffer (.error error) := hfront ▸ front_takeFrame _
    exact ⟨.inl ⟨length, hbad.append _, herror⟩, List.suffix_rfl, rfl⟩
  | case2 self reader frame rest hfront =>
    obtain ⟨rfl, rfl, rfl⟩ := by simpa using h
    have ⟨hfits, hbuffer⟩ : Front self.buffer (.ok (some (frame, rest))) :=
      hfront ▸ front_takeFrame _
    refine ⟨⟨hfits, ?_⟩, List.suffix_rfl, rfl⟩
    rw [hbuffer, List.append_assoc]
  | case3 self reader hfront next hread =>
    obtain ⟨rfl, rfl, rfl⟩ := by simpa using h
    have hshort : Front self.buffer (.ok none) := hfront ▸ front_takeFrame _
    have ⟨⟨hend, _, hcloses⟩, hsuffix, hfails⟩ := Socket.read_spec (by decide) hread
    refine ⟨.inr ⟨?_, ?_⟩, hsuffix, hfails⟩
    · rw [hend, List.append_nil]
      exact hshort
    · simp [closeError, hcloses]
  | case4 self reader hfront byte bytes next hread ih =>
    have ⟨⟨hrest, _⟩, hsuffix, hfails⟩ := Socket.read_spec (by decide) hread
    have ⟨hpolled, hlater, hsame⟩ := ih h
    refine ⟨hpolled.of_read ?_ hsuffix hfails, hlater.trans hsuffix, hsame.trans hfails⟩
    rw [hrest, List.append_assoc]
  | case5 self reader hfront next hread ih =>
    have ⟨⟨_, hrest⟩, hsuffix, hfails⟩ := Socket.read_spec (by decide) hread
    have ⟨hpolled, hlater, hsame⟩ := ih h
    refine ⟨hpolled.of_read ?_ hsuffix hfails, hlater.trans hsuffix, hsame.trans hfails⟩
    rw [hrest]
  | case6 self reader hfront pause next hother hread =>
    obtain ⟨rfl, rfl, rfl⟩ := by simpa using h
    have ⟨⟨hturns, hrest⟩, hsuffix, hfails⟩ := Socket.read_spec (by decide) hread
    refine ⟨⟨by rw [hrest], ?_⟩, hsuffix, hfails⟩
    rw [hturns, List.length_cons]
    omega
  | case7 self reader hfront error next _ hother hread =>
    obtain ⟨rfl, rfl, rfl⟩ := by simpa using h
    have hshort : Front self.buffer (.ok none) := hfront ▸ front_takeFrame _
    have ⟨hspec, hsuffix, hfails⟩ := Socket.read_spec (by decide) hread
    cases error with
    | paused pause => exact (hother pause rfl).elim
    | unexpectedEof => cases hspec
    | failed =>
      have ⟨hend, _, hbroken⟩ := hspec
      refine ⟨.inr ⟨?_, ?_⟩, hsuffix, hfails⟩
      · rw [hend, List.append_nil]
        exact hshort
      · simp [closeError, hbroken]

end FrameReader

/-- What the outcome of a blocking read says about the bytes. -/
def BlockingRead (s s' : Socket UInt8) : Except ProtocolError Frame → Prop
  | .ok frame => Front s.rest (.ok (some (frame, s'.rest)))
  | .error error => Front s.rest (.error error) ∨
      Front s.rest (.ok none) ∧ error = .read s.endError

/-- The blocking reader reports the front of the bytes. -/
theorem readBlocking_spec {s s' : Socket UInt8} (h : s.Blocking)
    {outcome : Except ProtocolError Frame} (hread : readBlocking s = (outcome, s')) :
    s'.Blocking ∧ s'.fails = s.fails ∧ BlockingRead s s' outcome := by
  unfold readBlocking at hread
  have ⟨s₁, hblocking₁, hfails₁, hheader⟩ := s.readExact_spec 4 h
  rcases hheader with ⟨hfour, hrest₁, hheader⟩ | ⟨hlength, hheader⟩
  · simp only [hheader] at hread
    have hannounced : headerLength s.rest = some (fromBeBytes (s.rest.take 4)) := if_pos hfour
    by_cases hbad : BadLength (fromBeBytes (s.rest.take 4))
    · rw [payloadLength_of_bad hbad] at hread
      obtain ⟨rfl, rfl⟩ := Prod.mk.inj hread
      exact ⟨hblocking₁, hfails₁, .inl ⟨_, ⟨hannounced, hbad⟩, rfl⟩⟩
    · rw [payloadLength_of_good hbad] at hread
      -- A stream that ends inside the frame.
      have hends : s.rest.length < fromBeBytes (s.rest.take 4) + 4 → Front s.rest (.ok none) := by
        intro hlength length hlength'
        obtain rfl := Option.some.inj (hannounced.symm.trans hlength')
        exact ⟨hbad, hlength⟩
      have hpositive : 1 ≤ fromBeBytes (s.rest.take 4) := by
        unfold BadLength at hbad
        omega
      have hleft : s₁.rest.length = s.rest.length - 4 := by rw [hrest₁, List.length_drop]
      have ⟨s₂, hblocking₂, hfails₂, hkind⟩ := s₁.readExact_spec 1 hblocking₁
      rcases hkind with ⟨hone, hrest₂, hkind⟩ | ⟨hlength, hkind⟩
      · simp only [hkind] at hread
        have ⟨s₃, hblocking₃, hfails₃, hbytes⟩ :=
          s₂.readExact_spec (fromBeBytes (s.rest.take 4) - 1) hblocking₂
        have hleft₂ : s₂.rest.length = s.rest.length - 5 := by
          rw [hrest₂, List.length_drop]
          omega
        rcases hbytes with ⟨henough, hrest₃, hbytes⟩ | ⟨hlength, hbytes⟩
        · simp only [hbytes] at hread
          obtain ⟨rfl, rfl⟩ := Prod.mk.inj hread
          refine ⟨hblocking₃, hfails₃.trans (hfails₂.trans hfails₁), ?_⟩
          unfold BlockingRead
          cases hrest : s₁.rest with
          | nil => simp [hrest] at hone
          | cons kind tail =>
            have htail : s₂.rest = tail := by rw [hrest₂, hrest]; rfl
            rw [htail] at henough hrest₃
            have ⟨hfits, hsplit⟩ := encode_of_parts kind
              (List.length_take_of_le hfour) hbad henough
            rw [← hrest, hrest₁, List.take_append_drop] at hsplit
            rw [htail, hrest₃]
            exact ⟨hfits, hsplit⟩
        · simp only [hbytes] at hread
          obtain ⟨rfl, rfl⟩ := Prod.mk.inj hread
          refine ⟨hblocking₃, hfails₃.trans (hfails₂.trans hfails₁), .inr ⟨hends (by omega), ?_⟩⟩
          rw [Socket.endError, Socket.endError, hfails₂, hfails₁]
      · simp only [hkind] at hread
        obtain ⟨rfl, rfl⟩ := Prod.mk.inj hread
        refine ⟨hblocking₂, hfails₂.trans hfails₁, .inr ⟨hends (by omega), ?_⟩⟩
        rw [Socket.endError, Socket.endError, hfails₁]
  · simp only [hheader] at hread
    obtain ⟨rfl, rfl⟩ := Prod.mk.inj hread
    refine ⟨hblocking₁, hfails₁, .inr ⟨?_, rfl⟩⟩
    intro length hannounced
    rw [headerLength, if_neg (by omega)] at hannounced
    cases hannounced

/-! ### Whole streams -/

namespace FrameReader

/-- What is still to be decoded, and the turns of the socket. -/
private def left (self : FrameReader) (reader : Socket UInt8) : Nat :=
  (self.buffer ++ reader.rest).length + reader.turns.length

private theorem left_poll {found : Option Frame}
    (h : self.poll reader = (.ok found, self', reader')) :
    left self' reader' < left self reader := by
  have ⟨hpolled, hsuffix, _⟩ := poll_spec h
  have hturns := hsuffix.length_le
  cases found with
  | none =>
    have ⟨hbytes, hpause⟩ := hpolled
    rw [left, left, hbytes]
    omega
  | some frame =>
    have ⟨_, hbytes⟩ := hpolled
    rw [left, left, hbytes, @List.length_append _ frame.encode, length_encode]
    omega

/-- Polling until the first error: the frames, and that error. -/
def pollAll (self : FrameReader) (reader : Socket UInt8) : List Frame × ProtocolError :=
  match _hpoll : self.poll reader with
  | (.error error, _, _) => ([], error)
  | (.ok none, self, reader) => self.pollAll reader
  | (.ok (some frame), self, reader) =>
    let (frames, error) := self.pollAll reader
    (frame :: frames, error)
termination_by left self reader
decreasing_by
  · exact left_poll _hpoll
  · exact left_poll _hpoll

end FrameReader

private theorem remaining_readBlocking {s s' : Socket UInt8} (h : readBlocking s = (.ok frame, s'))
    : s'.remaining < s.remaining := by
  unfold readBlocking at h
  split at h
  · cases (Prod.mk.inj h).1
  · next header s₁ hheader =>
    split at h
    · cases (Prod.mk.inj h).1
    · split at h
      · cases (Prod.mk.inj h).1
      · next kind s₂ hkind =>
        split at h
        · cases (Prod.mk.inj h).1
        · next bytes s₃ hbytes =>
          obtain rfl := (Prod.mk.inj h).2
          have hfirst := (Socket.remaining_readExact hheader).2 (by decide)
          have hsecond := (Socket.remaining_readExact hkind).1
          have hthird := (Socket.remaining_readExact hbytes).1
          omega

/-- Reading until the first error: the frames, and that error. -/
def readAll (s : Socket UInt8) : List Frame × ProtocolError :=
  match _hread : readBlocking s with
  | (.error error, _) => ([], error)
  | (.ok frame, s) =>
    let (frames, error) := readAll s
    (frame :: frames, error)
termination_by s.remaining
decreasing_by exact remaining_readBlocking _hread

/-- The frames that some bytes begin with, and the tail at which a decoder stops: a bad header
or an unfinished frame. -/
structure Decodes (bytes : List UInt8) (frames : List Frame) (tail : List UInt8) : Prop where
  split : bytes = frames.flatMap Frame.encode ++ tail
  fits : ∀ frame ∈ frames, frame.Fits
  stops : (∃ length, BadHeader tail length) ∨ Short tail

/-- The error at the tail: the bad length, or the end of the stream. -/
def stopError (tail : List UInt8) (close : ProtocolError) : ProtocolError :=
  match headerLength tail with
  | some length => if length = 0 ∨ maxFrameBytes < length then badLengthError length else close
  | none => close

/-- Every byte string is frames and a tail. -/
theorem exists_decodes (bytes : List UInt8) : ∃ frames tail, Decodes bytes frames tail := by
  -- By induction on the length: a frame at the front leaves fewer bytes.
  induction hlength : bytes.length using Nat.strongRecOn generalizing bytes with
  | ind n ih =>
    have hfront := FrameReader.front_takeFrame bytes
    match FrameReader.takeFrame bytes, hfront with
    | .error _, ⟨length, hbad, _⟩ => exact ⟨[], bytes, rfl, by simp, .inl ⟨length, hbad⟩⟩
    | .ok none, hshort => exact ⟨[], bytes, rfl, by simp, .inr hshort⟩
    | .ok (some (frame, rest)), ⟨hfits, hbytes⟩ =>
      have hless : rest.length < n := by
        rw [← hlength, hbytes, List.length_append, length_encode]
        omega
      have ⟨frames, tail, hsplit, hall, hstops⟩ := ih rest.length hless rest rfl
      refine ⟨frame :: frames, tail, ?_, ?_, hstops⟩
      · rw [hbytes, hsplit, List.flatMap_cons, List.append_assoc]
      · exact List.forall_mem_cons.mpr ⟨hfits, hall⟩

namespace Decodes

variable {bytes tail : List UInt8} {frames : List Frame}

/-- What is at the front decides how the bytes decode. -/
theorem of_front_frame (h : Decodes bytes frames tail) {rest : List UInt8}
    (hfront : Front bytes (.ok (some (frame, rest)))) :
    ∃ frames', frames = frame :: frames' ∧ Decodes rest frames' tail := by
  cases frames with
  | nil =>
    have hbytes : bytes = tail := h.split
    subst hbytes
    rcases h.stops with ⟨length, hbad⟩ | hshort
    · have hother : Front bytes (.error (badLengthError length)) := ⟨length, hbad, rfl⟩
      cases hfront.unique hother
    · have hother : Front bytes (.ok none) := hshort
      cases hfront.unique hother
  | cons f frames =>
    have ⟨hf, hfits⟩ := List.forall_mem_cons.mp h.fits
    have hsplit := h.split
    rw [List.flatMap_cons, List.append_assoc] at hsplit
    have ⟨hsame, hrest⟩ := encode_append_inj hfront.1 hf (hfront.2.symm.trans hsplit)
    exact ⟨frames, by rw [hsame], hrest, hfits, h.stops⟩

private theorem eq_nil_of_front (h : Decodes bytes frames tail)
    (hfront : ∀ found, Front bytes found → ∀ frame rest, found ≠ .ok (some (frame, rest))) :
    frames = [] ∧ bytes = tail := by
  cases frames with
  | nil => exact ⟨rfl, h.split⟩
  | cons f frames =>
    have ⟨hf, _⟩ := List.forall_mem_cons.mp h.fits
    have hsplit := h.split
    rw [List.flatMap_cons, List.append_assoc] at hsplit
    have hother : Front bytes (.ok (some (f, frames.flatMap Frame.encode ++ tail))) :=
      ⟨hf, hsplit⟩
    exact absurd rfl (hfront _ hother f _)

private theorem of_front_error (h : Decodes bytes frames tail) {error : ProtocolError}
    (hfront : Front bytes (.error error)) (close : ProtocolError) :
    frames = [] ∧ error = stopError tail close := by
  have ⟨hnil, hbytes⟩ := h.eq_nil_of_front fun found hfound frame rest heq ↦ by
    subst heq
    cases hfront.unique hfound
  have ⟨length, ⟨hheader, hbad⟩, herror⟩ := hfront
  refine ⟨hnil, ?_⟩
  rw [hbytes] at hheader
  unfold stopError
  rw [hheader, herror]
  exact (if_pos hbad).symm

private theorem of_front_none (h : Decodes bytes frames tail) (hfront : Front bytes (.ok none))
    (close : ProtocolError) : frames = [] ∧ close = stopError tail close := by
  have ⟨hnil, hbytes⟩ := h.eq_nil_of_front fun found hfound frame rest heq ↦ by
    subst heq
    cases hfront.unique hfound
  refine ⟨hnil, ?_⟩
  subst hbytes
  unfold stopError
  cases hheader : headerLength bytes with
  | none => rfl
  | some length => exact (if_neg (hfront length hheader).1).symm

/-- Frames that may be sent decode to themselves. -/
theorem of_frames (h : ∀ frame ∈ frames, frame.Fits) :
    Decodes (frames.flatMap Frame.encode) frames [] := by
  refine ⟨by simp, h, .inr ?_⟩
  intro length hheader
  cases hheader

end Decodes

/-- Polling yields the frames, whatever the cuts and the pauses. -/
theorem FrameReader.pollAll_of_decodes (self : FrameReader) (reader : Socket UInt8)
    {frames : List Frame} {tail : List UInt8}
    (h : Decodes (self.buffer ++ reader.rest) frames tail) :
    self.pollAll reader = (frames, stopError tail (closeError reader)) := by
  fun_induction pollAll self reader generalizing frames with
  | case1 self reader error self' reader' hpoll =>
    have ⟨hpolled, _⟩ := poll_spec hpoll
    rcases hpolled with hfront | ⟨hfront, herror⟩
    · have ⟨hnil, hstop⟩ := h.of_front_error hfront (closeError reader)
      rw [hnil, hstop]
    · have ⟨hnil, hstop⟩ := h.of_front_none hfront (closeError reader)
      rw [hnil, herror, ← hstop]
  | case2 self reader self' reader' hpoll ih =>
    have ⟨⟨hbytes, _⟩, _, hfails⟩ := poll_spec hpoll
    rw [ih (hbytes ▸ h), closeError, hfails, closeError]
  | case3 self reader frame self' reader' hpoll rest error hrec ih =>
    have ⟨hfront, _, hfails⟩ := poll_spec hpoll
    have ⟨frames', hframes, hrest⟩ := h.of_front_frame hfront
    have heq := hrec.symm.trans (ih hrest)
    rw [closeError, hfails, ← closeError] at heq
    rw [hframes, (Prod.mk.inj heq).1, (Prod.mk.inj heq).2]

/-- Blocking reads yield the same frames. -/
theorem readAll_of_decodes (s : Socket UInt8) (hblocking : s.Blocking) {frames : List Frame}
    {tail : List UInt8} (h : Decodes s.rest frames tail) :
    readAll s = (frames, stopError tail (.read s.endError)) := by
  fun_induction readAll s generalizing frames with
  | case1 s error s' hread =>
    have ⟨_, _, hspec⟩ := readBlocking_spec hblocking hread
    rcases hspec with hfront | ⟨hfront, herror⟩
    · have ⟨hnil, hstop⟩ := h.of_front_error hfront (.read s.endError)
      rw [hnil, hstop]
    · have ⟨hnil, hstop⟩ := h.of_front_none hfront (.read s.endError)
      rw [hnil, herror, ← hstop]
  | case2 s frame s' hread rest error hrec ih =>
    have ⟨hblocking', hfails, hfront⟩ := readBlocking_spec hblocking hread
    have ⟨frames', hframes, hrest⟩ := h.of_front_frame hfront
    have heq := hrec.symm.trans (ih hblocking' hrest)
    rw [Socket.endError, hfails, ← Socket.endError] at heq
    rw [hframes, (Prod.mk.inj heq).1, (Prod.mk.inj heq).2]

/-- A frame that is accepted is on the wire, and may be sent. -/
theorem writeBlocking_spec {writer writer' : Sink UInt8}
    (h : writeBlocking writer frame = (.ok (), writer')) :
    frame.Fits ∧ writer'.written = writer.written ++ frame.encode := by
  unfold writeBlocking at h
  split at h
  · cases (Prod.mk.inj h).1
  · next length hlength =>
    simp only [Frame.length] at hlength
    split at hlength
    · next hfits =>
      obtain rfl := Except.ok.inj hlength
      refine ⟨hfits, ?_⟩
      split at h
      · cases (Prod.mk.inj h).1
      · next w₁ hheader =>
        split at h
        · cases (Prod.mk.inj h).1
        · next w₂ hkind =>
          split at h
          · cases (Prod.mk.inj h).1
          · next w₃ hbytes =>
            split at h
            · cases (Prod.mk.inj h).1
            · next w₄ hflush =>
              obtain rfl := (Prod.mk.inj h).2
              rw [Sink.written_of_writeAll hflush, Sink.written_of_writeAll hbytes,
                Sink.written_of_writeAll hkind, Sink.written_of_writeAll hheader, Frame.encode]
              simp
    · cases hlength

/-- Writing frames one after the other, until one is not accepted. -/
def writeFrames (writer : Sink UInt8) : List Frame → Except ProtocolError Unit × Sink UInt8
  | [] => (.ok (), writer)
  | frame :: frames =>
    match writeBlocking writer frame with
    | (.error error, writer) => (.error error, writer)
    | (.ok (), writer) => writeFrames writer frames

private theorem writeFrames_spec {writer writer' : Sink UInt8} {frames : List Frame}
    (h : writeFrames writer frames = (.ok (), writer')) :
    (∀ frame ∈ frames, frame.Fits) ∧
      writer'.written = writer.written ++ frames.flatMap Frame.encode := by
  induction frames generalizing writer with
  | nil =>
    obtain rfl := (Prod.mk.inj h).2
    simp
  | cons frame frames ih =>
    unfold writeFrames at h
    split at h
    · cases (Prod.mk.inj h).1
    · next next hwrite =>
      have ⟨hfits, hwritten⟩ := writeBlocking_spec hwrite
      have ⟨hall, hlast⟩ := ih h
      refine ⟨List.forall_mem_cons.mpr ⟨hfits, hall⟩, ?_⟩
      rw [hlast, hwritten, List.flatMap_cons, List.append_assoc]

/-- Polling a socket that is cut and interrupted anywhere and reading a blocking one yield the
same frames of the same bytes: those that were written, if the bytes were written as frames, and
else all frames up to the first header with a length that no frame has, at which both fail, or
up to an unfinished frame, at which both find the end of the stream. -/
theorem pollAll_and_readAll_agree (poller reader : Socket UInt8)
    (hsame : reader.rest = poller.rest) (hblocking : reader.Blocking) :
    (∀ frames sink sink', sink.written = [] → writeFrames sink frames = (.ok (), sink') →
      poller.rest = sink'.written →
      (∀ frame ∈ frames, frame.bytes.length ≤ maxFrameBytes - 1) ∧
        FrameReader.pollAll {} poller = (frames, closeError poller) ∧
        readAll reader = (frames, .read reader.endError)) ∧
    ∃ frames tail, Decodes poller.rest frames tail ∧
      FrameReader.pollAll {} poller = (frames, stopError tail (closeError poller)) ∧
      readAll reader = (frames, stopError tail (.read reader.endError)) := by
  constructor
  · intro frames sink sink' hempty hwrites hrest
    have ⟨hfits, hwritten⟩ := writeFrames_spec hwrites
    rw [hempty, List.nil_append, ← hrest] at hwritten
    have hdecodes := Decodes.of_frames hfits
    rw [← hwritten] at hdecodes
    refine ⟨fun frame hmem ↦ Nat.le_sub_of_add_le (hfits frame hmem), ?_, ?_⟩
    · exact FrameReader.pollAll_of_decodes {} poller hdecodes
    · exact readAll_of_decodes reader hblocking (hsame ▸ hdecodes)
  · have ⟨frames, tail, hdecodes⟩ := exists_decodes poller.rest
    refine ⟨frames, tail, hdecodes, ?_, ?_⟩
    · exact FrameReader.pollAll_of_decodes {} poller hdecodes
    · exact readAll_of_decodes reader hblocking (hsame ▸ hdecodes)

/-- Two frames, cut inside the first header and between the frames' bytes. -/
theorem pollAll_and_readAll_agree_two :
    let bytes := [0, 0, 0, 1, 0, 0, 0, 0, 2, 1, 7]
    let poller : Socket UInt8 :=
      ⟨bytes, [.deliver 1, .pause .timedOut, .deliver 5, .pause .interrupted], false⟩
    let reader : Socket UInt8 := ⟨bytes, [.deliver 0, .pause .interrupted], true⟩
    FrameReader.pollAll {} poller =
        ([⟨0, []⟩, ⟨1, [7]⟩], .text "native mux stream closed") ∧
      readAll reader = ([⟨0, []⟩, ⟨1, [7]⟩], .read .failed) := by
  intro bytes poller reader
  have hblocking : reader.Blocking := by
    intro pause hmem
    simpa [reader] using hmem
  have hwrites := (pollAll_and_readAll_agree poller reader rfl hblocking).1
    [⟨0, []⟩, ⟨1, [7]⟩] ⟨[], fun _ ↦ none⟩ _ rfl rfl rfl
  exact hwrites.2

end Bootty.Mux.Native
