import Mathlib.Data.List.Induction
import Bootty.Base.Base64
import Bootty.Terminal.WriteIngress

/-!
# Images for the clipboard

Model of `ClipboardWrite` (`crates/bootty-terminal/src/clipboard_write.rs`), which assembles an
image from the packets of a program. An image is made of the data of one allowed write and of
nothing that failed on the way.
-/

namespace Bootty.Terminal

open Bootty.Base

/-- `clipboard_write.rs:4`. -/
def maxImage : Nat := 16 * 1024 * 1024

/-- `clipboard_write.rs:5–10`. -/
structure ImageWrite where
  id : List Char
  mime : String
  data : List UInt8
  deriving DecidableEq, Repr

/-- `clipboard_write.rs:11–15`. -/
inductive ClipboardResult where
  | reply (bytes : List UInt8)
  | image (image : ImageWrite)
  deriving DecidableEq, Repr

/-- `clipboard_write.rs:16–19`. -/
structure ClipboardWrite where
  active : Option ImageWrite := none
  deriving DecidableEq, Repr

/-- A packet that is a text with a valid id: what is before and after its first semicolon. -/
structure ClipboardPacket where
  id : List Char
  metadata : List Char
  data : List Char
  deriving DecidableEq, Repr

/-- The bytes of which an id is made. -/
def isIdByte (byte : UInt8) : Bool :=
  0x30 ≤ byte && byte ≤ 0x39 || 0x41 ≤ byte && byte ≤ 0x5A || 0x61 ≤ byte && byte ≤ 0x7A ||
    (textBytes "-_.+").contains byte

/-- `clipboard_write.rs:112–120`. -/
def reply (kind : String) (id : List Char) (status : String) : List UInt8 :=
  let id := ((textBytes (String.ofList id)).take 128).filter isIdByte
  textBytes "\x1b]5522;type=" ++ textBytes kind ++ textBytes ":status=" ++ textBytes status ++
    textBytes ":id=" ++ id ++ textBytes "\x1b\\"

/-- The types of the images that are accepted. -/
def imageMimes : List String :=
  ["image/png", "image/jpeg", "image/jpg", "image/gif", "image/webp"]

/-- The value of the first field with a key, `clipboard_write.rs:36–42`. -/
def metadataField (metadata : List Char) (key : String) : Option (List Char) :=
  (((metadata.splitOn ':').filterMap (splitOnceAt '=')).find? fun (k, _) ↦ k == key.toList).map
    Prod.snd

/-- The value of a field. -/
def ClipboardPacket.field (packet : ClipboardPacket) (key : String) : Option (List Char) :=
  metadataField packet.metadata key

/-- `clipboard_write.rs:29–50`: the packet that all branches read, where it is valid. -/
def parsePacket (bytes : List UInt8) : Option ClipboardPacket :=
  if maxPacket < bytes.length then none
  else
    (fromUtf8 bytes).bind fun text ↦
      let (metadata, data) := (splitOnceAt ';' text.toList).getD (text.toList, [])
      let id := (metadataField metadata "id").getD []
      let idBytes := textBytes (String.ofList id)
      if 128 < idBytes.length ∨ idBytes.all isIdByte = false then none
      else some ⟨id, metadata, data⟩

section Feed

/-! `STANDARD.decode` of the crate `base64` is a parameter. -/

variable (decode : List UInt8 → Option (List UInt8))

/-- The type that a packet carries, if it is accepted, `clipboard_write.rs:82–93`. -/
def acceptedMime (mime : Option (List Char)) : Option String :=
  ((mime.bind fun m ↦ decode (textBytes (String.ofList m))).bind fromUtf8).filter
    fun mime ↦ imageMimes.contains mime

namespace ClipboardWrite

/-- Nothing is assembled. -/
def new : ClipboardWrite := {}

/-- `clipboard_write.rs:25–27`. -/
def reset (_ : ClipboardWrite) : ClipboardWrite := { active := none }

/-- `clipboard_write.rs:106–110`. -/
def fail (write : ClipboardWrite) (status : String) : Option ClipboardResult × ClipboardWrite :=
  (write.active.map fun image ↦ .reply (reply "write" image.id status), { active := none })

/-- A packet of data, `clipboard_write.rs:71–102`. -/
def feedData (write : ClipboardWrite) (packet : ClipboardPacket) (allowed : Bool) :
    Option ClipboardResult × ClipboardWrite :=
  match write.active with
  | none => (none, write)
  | some active =>
    if !allowed then write.fail "EPERM"
    else if packet.field "mime" = none ∧ packet.data = [] then
      if active.data.isEmpty then
        (some (.reply (reply "write" active.id "EINVAL")), { active := none })
      else (some (.image active), { active := none })
    else
      match acceptedMime decode (packet.field "mime") with
      | none => write.fail "EINVAL"
      | some mime =>
        match decode (textBytes (String.ofList packet.data)) with
        | none => write.fail "EINVAL"
        | some chunk =>
          if chunk.isEmpty ∨ 4096 < chunk.length ∨ maxImage < active.data.length + chunk.length ∨
              (active.mime ≠ "" ∧ active.mime ≠ mime) then
            write.fail "EINVAL"
          else (none, { active := some { active with mime := mime, data := active.data ++ chunk } })

/-- `clipboard_write.rs:28–105`. -/
def feed (write : ClipboardWrite) (bytes : List UInt8) (allowed : Bool) :
    Option ClipboardResult × ClipboardWrite :=
  match parsePacket bytes with
  | none => write.fail "EINVAL"
  | some packet =>
    match (packet.field "type").map String.ofList with
    | some "read" => (some (.reply (reply "read" packet.id "ENOSYS")), write)
    | some "write" =>
      if !allowed then (some (.reply (reply "write" packet.id "EPERM")), write.reset)
      else if (packet.field "loc").any (· != "clipboard".toList) then
        (some (.reply (reply "write" packet.id "ENOSYS")), write.reset)
      else (none, { active := some ⟨packet.id, "", []⟩ })
    | some "wdata" => write.feedData decode packet allowed
    | some "walias" => write.fail "ENOSYS"
    | _ => write.fail "EINVAL"

end ClipboardWrite

/-! ### Histories -/

/-- What happens to a `ClipboardWrite`. -/
inductive ClipboardEvent where
  | packet (bytes : List UInt8) (allowed : Bool)
  | reset
  deriving DecidableEq, Repr

namespace ClipboardEvent

/-- The event is a valid packet of a type. -/
def HasType (event : ClipboardEvent) (packet : ClipboardPacket) (allowed : Bool)
    (kind : String) : Prop :=
  ∃ bytes, event = .packet bytes allowed ∧ parsePacket bytes = some packet ∧
    packet.field "type" = some kind.toList

/-- The event begins a write, allowed or not. -/
def IsWrite (event : ClipboardEvent) : Prop :=
  ∃ packet allowed, event.HasType packet allowed "write"

/-- The event asks what is in the clipboard. -/
def IsRead (event : ClipboardEvent) : Prop :=
  ∃ packet allowed, event.HasType packet allowed "read"

/-- The event begins a write to the clipboard that is allowed. -/
def AllowsWrite (event : ClipboardEvent) (id : List Char) : Prop :=
  ∃ packet, event.HasType packet true "write" ∧ packet.id = id ∧
    ∀ loc, packet.field "loc" = some loc → loc = "clipboard".toList

/-- The event is allowed and carries data of an image. -/
def CarriesChunk (event : ClipboardEvent) (mime : String) (chunk : List UInt8) : Prop :=
  ∃ packet, event.HasType packet true "wdata" ∧
    acceptedMime decode (packet.field "mime") = some mime ∧
    decode (textBytes (String.ofList packet.data)) = some chunk ∧ chunk ≠ []

/-- The event is allowed and ends the data of an image. -/
def EndsWrite (event : ClipboardEvent) : Prop :=
  ∃ packet, event.HasType packet true "wdata" ∧ packet.field "mime" = none ∧ packet.data = []

end ClipboardEvent

/-- The events since the beginning of a write carry the data of an image of a type. -/
inductive Assembles (mime : String) : List ClipboardEvent → List UInt8 → Prop
  | nil : Assembles mime [] []
  | read {events : List ClipboardEvent} {data : List UInt8} {event : ClipboardEvent} :
      Assembles mime events data → event.IsRead → Assembles mime (events ++ [event]) data
  | chunk {events : List ClipboardEvent} {data : List UInt8} {event : ClipboardEvent}
      {chunk : List UInt8} :
      Assembles mime events data → event.CarriesChunk decode mime chunk →
        Assembles mime (events ++ [event]) (data ++ chunk)

variable {decode} {events : List ClipboardEvent}

/-- Where no data came yet, they can be of any type. -/
theorem Assembles.of_nil {mime mime' : String} (h : Assembles decode mime events []) :
    Assembles decode mime' events [] := by
  generalize hdata : ([] : List UInt8) = data at h
  induction h with
  | nil => exact .nil
  | read _ hread ih => exact (ih hdata).read hread
  | chunk _ hcarries _ =>
    have ⟨_, _, _, _, hne⟩ := hcarries
    exact absurd (List.append_eq_nil_iff.mp hdata.symm).2 hne

variable {write : ClipboardWrite} {packet : ClipboardPacket} {allowed : Bool} {image : ImageWrite}

namespace ClipboardWrite

variable (decode) in
/-- One event. -/
def step (write : ClipboardWrite) : ClipboardEvent → Option ClipboardResult × ClipboardWrite
  | .packet bytes allowed => write.feed decode bytes allowed
  | .reset => (none, write.reset)

variable (decode) in
/-- The state after some events. -/
def after (events : List ClipboardEvent) : ClipboardWrite :=
  events.foldl (fun write event ↦ (write.step decode event).2) new

@[simp]
theorem after_concat (events : List ClipboardEvent) (event : ClipboardEvent) :
    after decode (events ++ [event]) = ((after decode events).step decode event).2 := by
  simp [after]

/-! ### One event -/

@[simp]
theorem fail_active (write : ClipboardWrite) (status : String) :
    (write.fail status).2.active = none := rfl

@[simp]
theorem fail_image (write : ClipboardWrite) (status : String) (image : ImageWrite) :
    (write.fail status).1 ≠ some (.image image) := by
  cases h : write.active <;> simp [fail, h]

private theorem fail_of_idle (h : write.active = none) (status : String) :
    (write.fail status).1 = none := by
  simp [fail, h]

private theorem acceptedMime_mem {mime : Option (List Char)} {accepted : String}
    (h : acceptedMime decode mime = some accepted) : accepted ∈ imageMimes := by
  have ⟨_, hmem⟩ := Option.filter_eq_some_iff.mp h
  simpa using hmem

variable (decode) in
/-- What a packet of data does. -/
theorem feedData_cases (write : ClipboardWrite) (packet : ClipboardPacket) (allowed : Bool) :
    (write.active = none ∧ write.feedData decode packet allowed = (none, write)) ∨
    (∃ status, write.feedData decode packet allowed = write.fail status) ∨
    (∃ bytes, write.feedData decode packet allowed = (some (.reply bytes), { active := none })) ∨
    (∃ old, write.active = some old ∧ allowed = true ∧ packet.field "mime" = none ∧
      packet.data = [] ∧ old.data ≠ [] ∧
      write.feedData decode packet allowed = (some (.image old), { active := none })) ∨
    ∃ old mime chunk, write.active = some old ∧ allowed = true ∧
      acceptedMime decode (packet.field "mime") = some mime ∧
      decode (textBytes (String.ofList packet.data)) = some chunk ∧ chunk ≠ [] ∧
      old.data.length + chunk.length ≤ maxImage ∧ (old.mime = "" ∨ old.mime = mime) ∧
      write.feedData decode packet allowed =
        (none, { active := some ⟨old.id, mime, old.data ++ chunk⟩ }) := by
  unfold feedData
  cases hactive : write.active with
  | none => exact .inl ⟨rfl, rfl⟩
  | some old =>
    right
    by_cases hallowed : allowed = false
    · exact .inl ⟨"EPERM", by simp [hallowed]⟩
    simp only [if_neg (show ¬(!allowed) = true by simpa using hallowed)]
    by_cases hend : packet.field "mime" = none ∧ packet.data = []
    · rw [if_pos hend]
      right
      cases hempty : old.data.isEmpty with
      | true => exact .inl ⟨_, rfl⟩
      | false =>
        exact .inr (.inl ⟨old, rfl, by simpa using hallowed, hend.1, hend.2,
          by simpa using hempty, rfl⟩)
    rw [if_neg hend]
    cases hmime : acceptedMime decode (packet.field "mime") with
    | none => exact .inl ⟨_, rfl⟩
    | some mime =>
      cases hchunk : decode (textBytes (String.ofList packet.data)) with
      | none => exact .inl ⟨_, rfl⟩
      | some chunk =>
        by_cases hbad : chunk.isEmpty ∨ 4096 < chunk.length ∨
            maxImage < old.data.length + chunk.length ∨ (old.mime ≠ "" ∧ old.mime ≠ mime)
        · exact .inl ⟨_, if_pos hbad⟩
        · have hgood := hbad
          simp only [not_or, not_and_or, not_not, List.isEmpty_iff, Nat.not_lt] at hgood
          obtain ⟨hne, _, hlength, hsame⟩ := hgood
          exact .inr (.inr (.inr ⟨old, mime, chunk, rfl, by simpa using hallowed, rfl, rfl, hne,
            hlength, hsame, if_neg hbad⟩))

/-- What a packet of data leaves of an image. -/
theorem feedData_active (h : (write.feedData decode packet allowed).2.active = some image) :
    ∃ old mime chunk, write.active = some old ∧ allowed = true ∧
      acceptedMime decode (packet.field "mime") = some mime ∧
      decode (textBytes (String.ofList packet.data)) = some chunk ∧ chunk ≠ [] ∧
      old.data.length + chunk.length ≤ maxImage ∧ (old.mime = "" ∨ old.mime = mime) ∧
      image = ⟨old.id, mime, old.data ++ chunk⟩ := by
  rcases feedData_cases decode write packet allowed with ⟨hnone, heq⟩ | ⟨status, heq⟩ |
    ⟨bytes, heq⟩ | ⟨old, _, _, _, _, _, heq⟩ |
    ⟨old, mime, chunk, hactive, hallowed, hmime, hchunk, hne, hlength, hsame, heq⟩
  · simp [heq, hnone] at h
  · simp [heq] at h
  · simp [heq] at h
  · simp [heq] at h
  · rw [heq] at h
    exact ⟨old, mime, chunk, hactive, hallowed, hmime, hchunk, hne, hlength, hsame,
      (Option.some.inj h).symm⟩

/-- A packet of data yields an image when it ends the data that were assembled. -/
theorem feedData_image (h : (write.feedData decode packet allowed).1 = some (.image image)) :
    write.active = some image ∧ allowed = true ∧ packet.field "mime" = none ∧
      packet.data = [] ∧ image.data ≠ [] := by
  rcases feedData_cases decode write packet allowed with ⟨_, heq⟩ | ⟨status, heq⟩ | ⟨bytes, heq⟩ |
    ⟨old, hactive, hallowed, hmime, hdata, hne, heq⟩ | ⟨_, _, _, _, _, _, _, _, _, _, heq⟩
  · simp [heq] at h
  · simp [heq] at h
  · simp [heq] at h
  · rw [heq] at h
    obtain rfl := ClipboardResult.image.inj (Option.some.inj h)
    exact ⟨hactive, hallowed, hmime, hdata, hne⟩
  · simp [heq] at h

/-- A packet of data that has an outcome ends the write. -/
theorem feedData_outcome (h : (write.feedData decode packet allowed).1.isSome) :
    (write.feedData decode packet allowed).2.active = none := by
  rcases feedData_cases decode write packet allowed with ⟨hnone, heq⟩ | ⟨status, heq⟩ |
    ⟨bytes, heq⟩ | ⟨_, _, _, _, _, _, heq⟩ | ⟨_, _, _, _, _, _, _, _, _, _, heq⟩
  · rw [heq]
    exact hnone
  · rw [heq]
    exact fail_active write status
  · rw [heq]
  · rw [heq]
  · simp [heq] at h

end ClipboardWrite

variable {event : ClipboardEvent}

/-- A packet has one type. -/
theorem ClipboardEvent.HasType.kind_eq {other : ClipboardPacket} {permitted : Bool}
    {kind kind' : String} (h : event.HasType packet allowed kind)
    (h' : event.HasType other permitted kind') : kind = kind' := by
  have ⟨bytes, hevent, hparse, hkind⟩ := h
  have ⟨bytes', hevent', hparse', hkind'⟩ := h'
  rw [hevent] at hevent'
  injection hevent' with hbytes
  rw [← hbytes, hparse] at hparse'
  injection hparse' with hpacket
  rw [← hpacket, hkind] at hkind'
  exact String.toList_inj.mp (Option.some.inj hkind')

namespace ClipboardWrite

variable (decode) in
/-- What an event can be, and what it does. -/
theorem step_cases (write : ClipboardWrite) (event : ClipboardEvent) :
    (event.IsRead ∧ (write.step decode event).2 = write ∧
      ∃ bytes, (write.step decode event).1 = some (.reply bytes)) ∨
    (event.IsWrite ∧ (∃ bytes, (write.step decode event).1 = some (.reply bytes)) ∧
      (write.step decode event).2.active = none) ∨
    (event.IsWrite ∧ (write.step decode event).1 = none ∧
      ∃ id, event.AllowsWrite id ∧ (write.step decode event).2.active = some ⟨id, "", []⟩) ∨
    (∃ packet allowed, event.HasType packet allowed "wdata" ∧
      write.step decode event = write.feedData decode packet allowed) ∨
    (∃ status, write.step decode event = write.fail status) ∨
    write.step decode event = (none, write.reset) := by
  cases event with
  | reset => exact .inr (.inr (.inr (.inr (.inr rfl))))
  | packet bytes allowed =>
    simp only [step, feed]
    cases hparse : parsePacket bytes with
    | none => exact .inr (.inr (.inr (.inr (.inl ⟨_, rfl⟩))))
    | some packet =>
      have htype (kind : String) (h : (packet.field "type").map String.ofList = some kind) :
          (ClipboardEvent.packet bytes allowed).HasType packet allowed kind := by
        have ⟨text, htext, hkind⟩ := Option.map_eq_some_iff.mp h
        exact ⟨bytes, rfl, hparse, by simp [htext, ← hkind]⟩
      simp only
      split
      next h => exact .inl ⟨⟨packet, allowed, htype _ h⟩, rfl, _, rfl⟩
      next h =>
        have hwrite : (ClipboardEvent.packet bytes allowed).IsWrite :=
          ⟨packet, allowed, htype _ h⟩
        by_cases hallowed : allowed = false
        · exact .inr (.inl ⟨hwrite, by simp [hallowed], by simp [hallowed, reset]⟩)
        have htrue : allowed = true := by simpa using hallowed
        by_cases hloc : (packet.field "loc").any (· != "clipboard".toList) = true
        · exact .inr (.inl ⟨hwrite, by simp only [htrue, hloc]; simp,
            by simp only [htrue, hloc]; simp [reset]⟩)
        · refine .inr (.inr (.inl
            ⟨hwrite, ?_, packet.id, ⟨packet, htrue ▸ htype _ h, rfl, ?_⟩, ?_⟩))
          · simp only [htrue, if_neg hloc, Bool.not_true, Bool.false_eq_true, if_false]
          · intro loc hsome
            simpa [hsome] using hloc
          · simp only [htrue, if_neg hloc, Bool.not_true, Bool.false_eq_true, if_false]
      next h => exact .inr (.inr (.inr (.inl ⟨packet, allowed, htype _ h, rfl⟩)))
      next h => exact .inr (.inr (.inr (.inr (.inl ⟨_, rfl⟩))))
      next h => exact .inr (.inr (.inr (.inr (.inl ⟨_, rfl⟩))))

/-- An image that is assembled after an event was begun by it, left by it, or made longer. -/
theorem step_active (h : (write.step decode event).2.active = some image) :
    (event.AllowsWrite image.id ∧ image.mime = "" ∧ image.data = []) ∨
    (event.IsRead ∧ write.active = some image) ∨
    ∃ old mime chunk, write.active = some old ∧ event.CarriesChunk decode mime chunk ∧
      mime ∈ imageMimes ∧ chunk ≠ [] ∧ old.data.length + chunk.length ≤ maxImage ∧
      (old.mime = "" ∨ old.mime = mime) ∧ image = ⟨old.id, mime, old.data ++ chunk⟩ := by
  rcases step_cases decode write event with ⟨hread, hsame, _⟩ | ⟨_, _, hnone⟩ |
    ⟨_, _, id, hallows, hnew⟩ | ⟨packet, allowed, htype, hstep⟩ | ⟨status, hstep⟩ | hstep
  · exact .inr (.inl ⟨hread, hsame ▸ h⟩)
  · simp [hnone] at h
  · rw [hnew] at h
    injection h with himage
    subst himage
    exact .inl ⟨hallows, rfl, rfl⟩
  · rw [hstep] at h
    have ⟨old, mime, chunk, hactive, hallowed, hmime, hchunk, hne, hlength, hsame, himage⟩ :=
      feedData_active h
    exact .inr (.inr ⟨old, mime, chunk, hactive, ⟨packet, hallowed ▸ htype, hmime, hchunk, hne⟩,
      acceptedMime_mem hmime, hne, hlength, hsame, himage⟩)
  · simp [hstep] at h
  · simp [hstep, reset] at h

/-- After an outcome there is no image to assemble, unless it answers a read. -/
theorem step_outcome (h : (write.step decode event).1.isSome) (hread : ¬event.IsRead) :
    (write.step decode event).2.active = none := by
  rcases step_cases decode write event with ⟨hisRead, _⟩ | ⟨_, _, hnone⟩ | ⟨_, hnone, _⟩ |
    ⟨packet, allowed, _, hstep⟩ | ⟨status, hstep⟩ | hstep
  · exact absurd hisRead hread
  · exact hnone
  · simp [hnone] at h
  · rw [hstep] at h ⊢
    exact feedData_outcome h
  · simp [hstep]
  · simp [hstep, reset]

/-- Without an image to assemble only a write begins one, and only a write or a read has an
outcome. -/
theorem step_idle (h : write.active = none) (hwrite : ¬event.IsWrite) :
    (write.step decode event).2.active = none ∧
      ((write.step decode event).1.isSome → event.IsRead) := by
  rcases step_cases decode write event with ⟨hisRead, hsame, _⟩ | ⟨hisWrite, _⟩ | ⟨hisWrite, _⟩ |
    ⟨packet, allowed, _, hstep⟩ | ⟨status, hstep⟩ | hstep
  · exact ⟨hsame.symm ▸ h, fun _ ↦ hisRead⟩
  · exact absurd hisWrite hwrite
  · exact absurd hisWrite hwrite
  · simp [hstep, feedData, h]
  · simp [hstep, fail_of_idle h]
  · simp [hstep, reset]

/-- An image is the result of the event that ends its data. -/
theorem step_image (h : (write.step decode event).1 = some (.image image)) :
    write.active = some image ∧ event.EndsWrite ∧ image.data ≠ [] := by
  rcases step_cases decode write event with ⟨_, _, bytes, hreply⟩ | ⟨_, ⟨bytes, hreply⟩, _⟩ |
    ⟨_, hnone, _⟩ | ⟨packet, allowed, htype, hstep⟩ | ⟨status, hstep⟩ | hstep
  · simp [hreply] at h
  · simp [hreply] at h
  · simp [hnone] at h
  · rw [hstep] at h
    have ⟨hactive, hallowed, hmime, hdata, hne⟩ := feedData_image h
    exact ⟨hactive, ⟨packet, hallowed ▸ htype, hmime, hdata⟩, hne⟩
  · exact absurd (hstep ▸ h) (fail_image write status image)
  · simp [hstep] at h

/-! ### Whole histories -/

/-- An image that is being assembled after some events was begun by one of them, and the events
since carry its data. -/
theorem after_active (h : (after decode events).active = some image) :
    ∃ before write middle, events = before ++ write :: middle ∧ write.AllowsWrite image.id ∧
      Assembles decode image.mime middle image.data ∧ image.data.length ≤ maxImage ∧
      (image.data = [] ∧ image.mime = "" ∨ image.mime ∈ imageMimes) := by
  induction events using List.reverseRecOn generalizing image with
  | nil => simp [after, new] at h
  | append_singleton events event ih =>
    rw [after_concat] at h
    rcases step_active h with ⟨hallows, hmime, hdata⟩ | ⟨hread, hactive⟩ |
      ⟨old, mime, chunk, hactive, hcarries, hmem, hne, hlength, hsame, rfl⟩
    · refine ⟨events, event, [], rfl, hallows, hdata ▸ .nil, by simp [hdata], .inl ⟨hdata, hmime⟩⟩
    · have ⟨before, write, middle, hevents, hallows, hassembles, hrest⟩ := ih hactive
      exact ⟨before, write, middle ++ [event], by simp [hevents], hallows,
        hassembles.read hread, hrest⟩
    · have ⟨before, write, middle, hevents, hallows, hassembles, _, hmime⟩ := ih hactive
      refine ⟨before, write, middle ++ [event], by simp [hevents], hallows, ?_,
        by simpa using hlength,
        .inr hmem⟩
      rcases hsame with hempty | rfl
      · -- the first data give the image its type
        have hdata : old.data = [] := by
          rcases hmime with ⟨hdata, _⟩ | hmime
          · exact hdata
          · simp [hempty, imageMimes] at hmime
        rw [hdata] at hassembles ⊢
        exact hassembles.of_nil.chunk hcarries
      · exact hassembles.chunk hcarries

@[simp]
theorem after_append_cons (before : List ClipboardEvent) (event : ClipboardEvent)
    (events : List ClipboardEvent) :
    after decode (before ++ event :: events) =
      events.foldl (fun write event ↦ (write.step decode event).2)
        ((after decode before).step decode event).2 := by
  simp [after]

/-- Without an image to assemble there is none until a write. -/
theorem idle_until_write (h : write.active = none) (hevents : ∀ event ∈ events, ¬event.IsWrite) :
    (events.foldl (fun write event ↦ (write.step decode event).2) write).active = none := by
  induction events generalizing write with
  | nil => exact h
  | cons event events ih =>
    have ⟨hhead, htail⟩ := List.forall_mem_cons.mp hevents
    exact ih (step_idle h hhead).1 htail

/-- Between two outcomes there is a write, unless they answer reads. -/
theorem write_between {before middle : List ClipboardEvent} {first second : ClipboardEvent}
    (hfirst : ((after decode before).step decode first).1.isSome) (hread : ¬first.IsRead)
    (hsecond : ((after decode (before ++ first :: middle)).step decode second).1.isSome)
    (hread' : ¬second.IsRead) : ∃ write ∈ middle ++ [second], write.IsWrite := by
  by_contra hnone
  have hevents : ∀ event ∈ middle ++ [second], ¬event.IsWrite :=
    fun event hmem hwrite ↦ hnone ⟨event, hmem, hwrite⟩
  have hidle : (after decode (before ++ first :: middle)).active = none := by
    rw [after_append_cons]
    exact idle_until_write (step_outcome hfirst hread) fun event hmem ↦
      hevents event (List.mem_append_left _ hmem)
  exact hread' ((step_idle hidle (hevents second (by simp))).2 hsecond)

end ClipboardWrite

private theorem ClipboardEvent.IsRead.not_write (h : event.IsRead) :
    ¬event.IsWrite := by
  intro ⟨_, _, hwrite⟩
  have ⟨_, _, hread⟩ := h
  exact absurd (hread.kind_eq hwrite) (by decide)

/-- No event that carries data of an image begins another write. -/
theorem Assembles.not_write {mime : String} {data : List UInt8}
    (h : Assembles decode mime events data) :
    ∀ event ∈ events, ¬event.IsWrite := by
  induction h with
  | nil => simp
  | read _ hread ih =>
    intro event hmem
    rcases List.mem_append.mp hmem with hmem | hmem
    · exact ih event hmem
    · exact List.mem_singleton.mp hmem ▸ hread.not_write
  | chunk _ hcarries ih =>
    intro event hmem
    rcases List.mem_append.mp hmem with hmem | hmem
    · exact ih event hmem
    · intro ⟨_, _, hwrite⟩
      have ⟨_, hdata, _⟩ := List.mem_singleton.mp hmem ▸ hcarries
      exact absurd (hdata.kind_eq hwrite) (by decide)

namespace ClipboardWrite

variable (decode) in
/-- An image is made of all data of the last write, which was allowed and of which nothing failed,
and a write has at most one outcome. -/
theorem images_all_or_nothing :
    (∀ events event image, ((after decode events).step decode event).1 = some (.image image) →
      event.EndsWrite ∧ image.mime ∈ imageMimes ∧ image.data ≠ [] ∧
        image.data.length ≤ maxImage ∧
        ∃ before write middle, events = before ++ write :: middle ∧
          write.AllowsWrite image.id ∧ Assembles decode image.mime middle image.data ∧
          (∀ other ∈ middle, ¬other.IsWrite) ∧
          ∀ earlier failed later, write :: middle = earlier ++ failed :: later →
            ((after decode (before ++ earlier)).step decode failed).1.isSome → failed.IsRead) ∧
    ∀ before first middle second,
      ((after decode before).step decode first).1.isSome → ¬first.IsRead →
      ((after decode (before ++ first :: middle)).step decode second).1.isSome → ¬second.IsRead →
        ∃ write ∈ middle ++ [second], write.IsWrite := by
  refine ⟨fun events event image himage ↦ ?_, fun _ _ _ _ ↦ write_between⟩
  have ⟨hactive, hends, hdata⟩ := step_image himage
  have ⟨before, write, middle, hevents, hallows, hassembles, hlength, hmime⟩ :=
    after_active hactive
  have hmem : image.mime ∈ imageMimes := by
    rcases hmime with ⟨hempty, _⟩ | hmem
    · exact absurd hempty hdata
    · exact hmem
  refine ⟨hends, hmem, hdata, hlength, before, write, middle, hevents, hallows, hassembles,
    hassembles.not_write, fun earlier failed later hsplit hsome ↦ ?_⟩
  by_contra hread
  -- the image would be a second outcome of the write
  have hsecond :
      ((after decode (before ++ earlier ++ failed :: later)).step decode event).1.isSome := by
    rw [List.append_assoc, ← hsplit, ← hevents, himage]
    rfl
  have hisData :
      ∀ kind, (∃ packet allowed, event.HasType packet allowed kind) → kind = "wdata" := by
    intro kind ⟨_, _, hkind⟩
    have ⟨_, hwdata, _⟩ := hends
    exact hkind.kind_eq hwdata
  have ⟨other, hother, hwrite⟩ := write_between hsome hread hsecond fun hisRead ↦
    absurd (hisData _ hisRead) (by decide)
  rcases List.mem_append.mp hother with hlater | hlast
  · refine hassembles.not_write other ?_ hwrite
    cases earlier with
    | nil => exact (List.cons.inj hsplit).2 ▸ hlater
    | cons head earlier =>
      rw [(List.cons.inj hsplit).2]
      exact List.mem_append_right _ (List.mem_cons_of_mem _ hlater)
  · rw [List.mem_singleton.mp hlast] at hwrite
    exact absurd (hisData _ hwrite) (by decide)

/-- The image of three bytes of a program. -/
theorem images_all_or_nothing_sample :
    let packet (text : String) := ClipboardEvent.packet (textBytes text) true
    let events := [packet "type=write:id=a", packet "type=wdata:mime=aW1hZ2UvcG5n;AQID"]
    let write := after Base64.decodeStandard events
    (write.step Base64.decodeStandard (packet "type=wdata")).1 =
        some (.image ⟨['a'], "image/png", [1, 2, 3]⟩) ∧
      ∃ before write middle, events = before ++ write :: middle ∧ write.AllowsWrite ['a'] := by
  intro packet events write
  have himage : (write.step Base64.decodeStandard (packet "type=wdata")).1 =
      some (.image ⟨['a'], "image/png", [1, 2, 3]⟩) := by
    decide +kernel
  have ⟨_, _, _, _, before, write, middle, hevents, hallows, _⟩ :=
    (images_all_or_nothing Base64.decodeStandard).1 events (packet "type=wdata") _ himage
  exact ⟨himage, before, write, middle, hevents, hallows⟩

end ClipboardWrite
end Feed
end Bootty.Terminal
