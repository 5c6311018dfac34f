import Bootty.Base.ByteStream
import Bootty.Base.Fallible
import Bootty.Base.Text
import Mathlib.Algebra.GroupWithZero.Nat
import Mathlib.Logic.Function.Basic

/-!
# File transfers

Model of `crates/bootty-host/src/jobs/transfer.rs`: the copy loop and the framing of its lines
(`transfer.rs:111–193`), both sides of an upload and of a download (`transfer.rs:322–398`). The
streams are cut by their transport as it likes. SHA-256 and `serde_json` are parameters; the
text of an operating system error is not in the source and is left empty.
-/

namespace Bootty.Host.Transfer

open Bootty.Base

/-! ### Values on the wire -/

/-- `transfer.rs:94–98`. -/
structure Receipt where
  bytes : Nat
  sha256 : String
  deriving DecidableEq

/-- The two requests of `transfer.rs:75–93` that copy between paths. -/
inductive WireRequest where
  | upload (path : String) (bytes : Nat)
  | download (path : String)

/-- `serde_json` for one type: the encoding without its line end, and the decoder of a line. -/
structure Json (V : Type) where
  encode : V → List UInt8
  decode : String → Option V

/-- The payload of the command line: `serde_json` below unpadded base64. -/
structure Payload where
  encode : WireRequest → String
  decode : String → Option WireRequest

/-- `serde_json` for the two values that travel as lines. -/
structure Wire where
  receipt : Json Receipt
  length : Json Nat
  payload : Payload

/-- The end of a line. -/
def newline : UInt8 := 10

/-- What the decoder of a line gets to see. -/
def Json.decodeLine {V : Type} (json : Json V) (text : List UInt8) : Option V :=
  (fromUtf8 text).bind json.decode

/-- A value's line is one line, and its decoder gives the value back. -/
structure Json.RoundTrips {V : Type} (json : Json V) (value : V) : Prop where
  newline : newline ∉ json.encode value
  decode : json.decodeLine (json.encode value ++ [Transfer.newline]) = some value

/-- `{byte:02x}`. -/
def hexByte (byte : UInt8) : String :=
  String.ofList [Nat.digitChar (byte.toNat / 16), Nat.digitChar (byte.toNat % 16)]

/-- A digest in hexadecimal. -/
def hex (digest : List UInt8) : String := String.join (digest.map hexByte)

/-- The text of an I/O error, which nothing looks at. -/
def ioError : String := ""

/-! ### Copying, `transfer.rs:139–177` -/

/-- `vec![0; 64 * 1024]`. -/
def bufferSize : Nat := 64 * 1024

/-- The loop of `copy_bytes`: `copied` has been read, written and hashed. What is written stays
written when the copy fails. -/
def copyLoop {σ : Type} (reader : Reader σ UInt8) (total : Nat)
    (progress : Nat → Except String Unit) (copied : List UInt8) (input : σ)
    (output : Sink UInt8) : Except String (List UInt8 × σ) × Sink UInt8 :=
  match progress copied.length with
  | .error error => (.error error, output)
  | .ok () =>
    if copied.length < total then
      let size := min (total - copied.length) bufferSize
      match reader.read input size with
      | none => (.error ioError, output)
      | some (chunk, input) =>
        if chunk = [] then (.error "Transfer ended before all bytes arrived", output)
        else
          match output.writeAll chunk with
          | (false, output) => (.error ioError, output)
          | (true, output) => copyLoop reader total progress (copied ++ chunk) input output
    else (.ok (copied, input), output)
termination_by total - copied.length
decreasing_by
  have := List.length_pos_iff.mpr ‹¬ _ = []›
  rw [List.length_append]
  omega

/-- `copy_bytes`: the receipt is of everything that was copied. -/
def copyBytes {σ : Type} (hash : List UInt8 → List UInt8) (reader : Reader σ UInt8)
    (total : Nat) (progress : Nat → Except String Unit) (input : σ) (output : Sink UInt8) :
    Except String (Receipt × σ) × Sink UInt8 :=
  match copyLoop reader total progress [] input output with
  | (.ok (copied, input), output) => (.ok (⟨copied.length, hex (hash copied)⟩, input), output)
  | (.error error, output) => (.error error, output)

/-! ### Lines, `transfer.rs:178–193` -/

/-- How long a line may be. -/
def lineLimit : Nat := 16 * 1024

/-- `line`. -/
def line {V : Type} (json : Json V) (input : BufReader UInt8) :
    Except String (V × BufReader UInt8) := do
  let (text, input) ← context (input.readUntil newline lineLimit) ioError
  let decoded ← context (fromUtf8 text) "stream did not contain valid UTF-8"
  ensure (0 < text.length && text.length < lineLimit && text.getLast? == some newline)
    "Incomplete transfer response; destination completion is unconfirmed"
  let value ← context (json.decode decoded) "decode transfer response"
  pure (value, input)

/-- `write_line`: the encoding, then the line end. -/
def writeLine {V : Type} (json : Json V) (value : V) (output : Sink UInt8) :
    Except String Unit × Sink UInt8 :=
  match output.writeAll (json.encode value) with
  | (false, output) => (.error ioError, output)
  | (true, output) =>
    match output.writeAll [newline] with
    | (false, output) => (.error ioError, output)
    | (true, output) => (.ok (), output)

/-! ### Destinations, `transfer.rs:115–138` -/

/-- What exists under a path. -/
abbrev Files := String → Option (List UInt8)

/-- The file system of a destination as one transfer meets it: when the destination is checked
and when it is published, by then changed by others as they like, with the failures of its
calls. -/
structure Volume where
  files : Files
  later : Files
  existsFails : Bool
  stageFails : Bool
  syncFails : Bool
  persistFails : Bool
  faults : Nat → Option Nat

/-- `Path::is_absolute`. -/
def isAbsolute (path : String) : Bool := path.toList.head? == some '/'

/-- `destination`: an empty staged file beside the path, which must be free. -/
def destination (volume : Volume) (path : String) : Except String (Sink UInt8) := do
  ensure (isAbsolute path) "Destination path must be absolute on its host"
  ensure (!volume.existsFails) ioError
  ensure (volume.files path).isNone "Destination already exists; transfers never replace files"
  ensure (!volume.stageFails) "stage destination"
  pure ⟨[], volume.faults⟩

/-- `publish`: `persist_noclobber` creates the path with the staged content, or fails when
something exists there. A transfer that does not get here leaves the files alone. -/
def publish (volume : Volume) (staged : Sink UInt8) (path : String) : Except String Files := do
  ensure (!volume.syncFails) ioError
  ensure ((volume.later path).isNone && !volume.persistFails)
    "publish destination without replacing an existing file"
  pure (Function.update volume.later path (some staged.written))

/-! ### Sources, `transfer.rs:100–114` and `131–138` -/

/-- 1 TiB. -/
def transferLimit : Nat := 1024 ^ 4

/-- An opened file: what its reads deliver, its length when it was opened, and whether length and
modification time are the same after the copy. -/
structure SourceFile where
  stream : Source UInt8
  regular : Bool
  length : Nat
  unchanged : Bool

/-- `source`. -/
def source (opened : Except String SourceFile) (path : String) : Except String SourceFile := do
  ensure (isAbsolute path) "Source path must be absolute on its host"
  let file ← opened
  ensure file.regular "Transfer source must be a regular file"
  ensure (file.length ≤ transferLimit) "Transfer source exceeds the 1 TiB limit"
  pure file

/-! ### The remote side, `transfer.rs:364–408` -/

/-- What `serve_transfer` returns, the files it leaves and what it has answered. -/
structure Served where
  result : Except String Unit
  files : Files
  stdout : Sink UInt8

section Sides

variable (hash : List UInt8 → List UInt8) (wire : Wire)

/-- The `Upload` arm up to its answer. -/
def receiveUpload (volume : Volume) (path : String) (bytes : Nat) (stdin : BufReader UInt8) :
    Except String (Receipt × Files) := do
  ensure (bytes ≤ transferLimit) "Upload exceeds the 1 TiB limit"
  let staged ← destination volume path
  match copyBytes hash BufReader.reader bytes (fun _ ↦ .ok ()) stdin staged with
  | (.error error, _) => .error error
  | (.ok (received, stdin), staged) => do
    let (sent, stdin) ← line wire.receipt stdin
    ensure (sent.bytes == received.bytes && sent.sha256 == received.sha256)
      "Upload checksum mismatch"
    let (rest, _) ← context (stdin.read 1) ioError
    ensure rest.isEmpty "Unexpected bytes after upload"
    let files ← publish volume staged path
    pure (received, files)

/-- The `Upload` arm. -/
def serveUpload (volume : Volume) (path : String) (bytes : Nat) (stdin : BufReader UInt8)
    (stdout : Sink UInt8) : Served :=
  match receiveUpload hash wire volume path bytes stdin with
  | .error error => ⟨.error error, volume.later, stdout⟩
  | .ok (received, files) =>
    let (result, stdout) := writeLine wire.receipt received stdout
    ⟨result, files, stdout⟩

/-- The `Download` arm. -/
def serveDownload (volume : Volume) (opened : Except String SourceFile) (path : String)
    (stdout : Sink UInt8) : Served :=
  match source opened path with
  | .error error => ⟨.error error, volume.later, stdout⟩
  | .ok file =>
    match writeLine wire.length file.length stdout with
    | (.error error, stdout) => ⟨.error error, volume.later, stdout⟩
    | (.ok (), stdout) =>
      match copyBytes hash Source.reader file.length (fun _ ↦ .ok ()) file.stream stdout with
      | (.error error, stdout) => ⟨.error error, volume.later, stdout⟩
      | (.ok (sent, _), stdout) =>
        if file.unchanged then
          let (result, stdout) := writeLine wire.receipt sent stdout
          ⟨result, volume.later, stdout⟩
        else
          ⟨.error "Source changed during transfer; destination was not published",
            volume.later, stdout⟩

/-- `serve_transfer`. -/
def serveTransfer (volume : Volume) (opened : Except String SourceFile) (payload : String)
    (stdin : BufReader UInt8) (stdout : Sink UInt8) : Served :=
  if 32 * 1024 < payload.utf8ByteSize then
    ⟨.error "Transfer request exceeds its bound", volume.later, stdout⟩
  else
    match wire.payload.decode payload with
    | none => ⟨.error ioError, volume.later, stdout⟩
    | some (.upload path bytes) => serveUpload hash wire volume path bytes stdin stdout
    | some (.download path) => serveDownload hash wire volume opened path stdout

/-! ### The local side, `transfer.rs:322–360` -/

/-- The upload branch of `remote_copy` on a spawned child; `progress` fails once the job is
cancelled. With the result, what the child's input has been sent. -/
def remoteUpload (progress : String → Nat → Except String Unit) (file : SourceFile)
    (input : Sink UInt8) (output : BufReader UInt8) : Except String Receipt × Sink UInt8 :=
  match copyBytes hash Source.reader file.length (progress "uploading") file.stream input with
  | (.error error, input) => (.error error, input)
  | (.ok (sent, _), input) =>
    if !file.unchanged then
      (.error "Source changed during transfer; destination was not published", input)
    else
      match progress "verifying remote destination" sent.bytes with
      | .error error => (.error error, input)
      | .ok () =>
        match writeLine wire.receipt sent input with
        | (.error error, input) => (.error error, input)
        | (.ok (), input) =>
          (do
            let (received, _) ← line wire.receipt output
            ensure (sent.bytes == received.bytes && sent.sha256 == received.sha256)
              "Remote destination checksum does not match"
            pure received, input)

/-- The download branch of `remote_copy`. -/
def remoteDownload (progress : String → Nat → Except String Unit) (volume : Volume)
    (path : String) (output : BufReader UInt8) : Except String (Receipt × Files) := do
  let (total, output) ← line wire.length output
  ensure (total ≤ transferLimit) "Remote file exceeds the 1 TiB limit"
  let staged ← destination volume path
  match copyBytes hash BufReader.reader total (progress "downloading") output staged with
  | (.error error, _) => .error error
  | (.ok (received, output), staged) => do
    let (sent, _) ← line wire.receipt output
    ensure (sent.bytes == received.bytes && sent.sha256 == received.sha256)
      "Downloaded checksum does not match"
    progress "committing" total
    let files ← publish volume staged path
    pure (received, files)

end Sides

/-! ### What the parts do -/

variable {error : String} {receipt : Receipt}

section Copy

variable {σ : Type} {reader : Reader σ UInt8} {total : Nat}
  {progress : Nat → Except String Unit} {copied : List UInt8} {input input' : σ}
  {output output' : Sink UInt8}

private theorem chunk_bounded {chunk : List UInt8} (hlt : copied.length < total)
    (hread : reader.read input (min (total - copied.length) bufferSize) = some (chunk, input')) :
    (copied ++ chunk).length ≤ total := by
  have hbounded := (reader.sound _ _ _ _ hread).bounded
  rw [List.length_append]
  omega

/-- A copy that succeeds has moved exactly the requested number of bytes, from the front of the
stream to the end of the output. -/
private theorem copyLoop_ok {all : List UInt8} (hle : copied.length ≤ total)
    (h : copyLoop reader total progress copied input output = (.ok (all, input'), output')) :
    ∃ moved, all = copied ++ moved ∧ all.length = total ∧
      reader.pending input = moved ++ reader.pending input' ∧
      output'.written = output.written ++ moved := by
  fun_induction copyLoop reader total progress copied input output with
  | case1 | case2 | case3 | case4 => cases (Prod.mk.inj h).1
  | case5 copied input output _ hlt size chunk next hread _ output₁ hwrite =>
    rename_i ih
    have ⟨moved, hall, htotal, hpending, hwritten⟩ := ih (chunk_bounded hlt hread) h
    have hsplit := (reader.sound _ _ _ _ hread).split
    refine ⟨chunk ++ moved, ?_, htotal, ?_, ?_⟩
    · rw [hall, List.append_assoc]
    · rw [hsplit, hpending, List.append_assoc]
    · rw [hwritten, Sink.written_of_writeAll hwrite, List.append_assoc]
  | case6 copied input output _ hdone =>
    obtain ⟨hresult, rfl⟩ := Prod.mk.inj h
    obtain ⟨rfl, rfl⟩ := Prod.mk.inj (Except.ok.inj hresult)
    exact ⟨[], by simp, by omega, by simp, by simp⟩

private theorem copyLoop_error (hle : copied.length ≤ total)
    (h : copyLoop reader total progress copied input output = (.error error, output')) :
    ∃ moved, moved <+: reader.pending input ∧ (copied ++ moved).length ≤ total ∧
      output'.written = output.written ++ moved := by
  fun_induction copyLoop reader total progress copied input output with
  | case1 | case2 | case3 =>
    obtain rfl := (Prod.mk.inj h).2
    exact ⟨[], List.nil_prefix, by simpa using hle, by simp⟩
  | case4 copied input output _ hlt size chunk next hread _ output₁ hwrite =>
    obtain rfl := (Prod.mk.inj h).2
    have ⟨kept, hkept⟩ := Sink.written_of_failed hwrite
    have hbounded := chunk_bounded hlt hread
    refine ⟨chunk.take kept, ?_, ?_, hkept⟩
    · rw [(reader.sound _ _ _ _ hread).split]
      exact (List.take_prefix _ _).trans (List.prefix_append _ _)
    · rw [List.length_append] at hbounded ⊢
      have := List.length_take_le' kept chunk
      omega
  | case5 copied input output _ hlt size chunk next hread _ output₁ hwrite =>
    rename_i ih
    have ⟨moved, hmoved, hlength, hwritten⟩ := ih (chunk_bounded hlt hread) h
    refine ⟨chunk ++ moved, ?_, ?_, ?_⟩
    · rw [(reader.sound _ _ _ _ hread).split]
      exact (List.prefix_append_right_inj chunk).mpr hmoved
    · rw [← List.append_assoc]
      exact hlength
    · rw [hwritten, Sink.written_of_writeAll hwrite, List.append_assoc]
  | case6 => cases (Prod.mk.inj h).1

variable {hash : List UInt8 → List UInt8}

private theorem copyBytes_ok
    (h : copyBytes hash reader total progress input output = (.ok (receipt, input'), output')) :
    ∃ moved, receipt = ⟨total, hex (hash moved)⟩ ∧ moved.length = total ∧
      reader.pending input = moved ++ reader.pending input' ∧
      output'.written = output.written ++ moved := by
  unfold copyBytes at h
  split at h
  · next copied rest output₁ hloop =>
    obtain ⟨hresult, rfl⟩ := Prod.mk.inj h
    obtain ⟨rfl, rfl⟩ := Prod.mk.inj (Except.ok.inj hresult)
    have ⟨moved, hall, htotal, hpending, hwritten⟩ := copyLoop_ok (Nat.zero_le _) hloop
    rw [List.nil_append] at hall
    subst hall
    exact ⟨copied, by rw [htotal], htotal, hpending, hwritten⟩
  · cases (Prod.mk.inj h).1

private theorem copyBytes_error
    (h : copyBytes hash reader total progress input output = (.error error, output')) :
    ∃ moved, moved <+: reader.pending input ∧ moved.length ≤ total ∧
      output'.written = output.written ++ moved := by
  unfold copyBytes at h
  split at h
  · cases (Prod.mk.inj h).1
  · next hloop =>
    obtain ⟨_, rfl⟩ := Prod.mk.inj h
    exact copyLoop_error (Nat.zero_le _) hloop

end Copy

section Lines

variable {V : Type} {json : Json V} {value : V}

/-- A value read is the decoding of the stream's first line, which is within the limit. -/
theorem line_ok {input input' : BufReader UInt8} (h : line json input = .ok (value, input')) :
    ∃ text, input.pending = text ++ input'.pending ∧ EndsAt newline text ∧
      text.length < lineLimit ∧ json.decodeLine text = some value := by
  simp only [line, bind_eq_ok, context_eq_ok, ensure_eq_ok, pure_eq_ok] at h
  obtain ⟨⟨text, rest⟩, hread, decoded, hutf8, _, hensure, decodedValue, hdecode, heq⟩ := h
  obtain ⟨rfl, rfl⟩ := Prod.mk.inj heq
  simp only [Bool.and_eq_true, decide_eq_true_eq, beq_iff_eq] at hensure
  obtain ⟨hsplit, _, hends⟩ := BufReader.readUntil_spec hread
  refine ⟨text, hsplit, ?_, hensure.1.2, ?_⟩
  · rcases hends with hends | ⟨hfree, _⟩
    · exact hends
    · exact absurd (List.mem_of_getLast? hensure.2) hfree
  · simp only [Json.decodeLine, hutf8, Option.bind_some, hdecode]

/-- Nothing is decoded from an empty stream. -/
theorem line_ne_ok_of_nil {input input' : BufReader UInt8} (hnil : input.pending = []) :
    line json input ≠ .ok (value, input') := by
  intro h
  have ⟨text, hsplit, ⟨front, hfront, _⟩, _⟩ := line_ok h
  rw [hnil, hfront] at hsplit
  simp at hsplit

private theorem writeLine_ok {output output' : Sink UInt8}
    (h : writeLine json value output = (.ok (), output')) :
    output'.written = output.written ++ (json.encode value ++ [newline]) := by
  unfold writeLine at h
  split at h
  · cases (Prod.mk.inj h).1
  · next output₁ hencode =>
    split at h
    · cases (Prod.mk.inj h).1
    · next output₂ hend =>
      obtain ⟨_, rfl⟩ := Prod.mk.inj h
      rw [Sink.written_of_writeAll hend, Sink.written_of_writeAll hencode, List.append_assoc]

/-- A line that could not be written is there in part. -/
theorem writeLine_error {output output' : Sink UInt8}
    (h : writeLine json value output = (.error error, output')) :
    ∃ part, part <+: json.encode value ++ [newline] ∧
      output'.written = output.written ++ part := by
  unfold writeLine at h
  split at h
  · next output₁ hencode =>
    obtain ⟨_, rfl⟩ := Prod.mk.inj h
    have ⟨kept, hkept⟩ := Sink.written_of_failed hencode
    exact ⟨_, (List.take_prefix kept _).trans (List.prefix_append _ _), hkept⟩
  · next output₁ hencode =>
    split at h
    · next output₂ hend =>
      obtain ⟨_, rfl⟩ := Prod.mk.inj h
      have ⟨kept, hkept⟩ := Sink.written_of_failed hend
      refine ⟨json.encode value ++ [newline].take kept, ?_, ?_⟩
      · exact (List.prefix_append_right_inj _).mpr (List.take_prefix kept _)
      · rw [hkept, Sink.written_of_writeAll hencode, List.append_assoc]
    · cases (Prod.mk.inj h).1

end Lines

/-! ### What is published -/

/-- The stream is the bytes `b`, one line that decodes to their receipt, and its end. -/
structure Verified (hash : List UInt8 → List UInt8) (wire : Wire) (n : Nat)
    (stream b : List UInt8) : Prop where
  length : b.length = n
  receipt : ∃ text, stream = b ++ text ∧ EndsAt newline text ∧ text.length < lineLimit ∧
    wire.receipt.decodeLine text = some ⟨n, hex (hash b)⟩

/-- The path, at which nothing was, holds the content; nothing else has changed. -/
structure Published (volume : Volume) (path : String) (content : List UInt8) (files : Files) :
    Prop where
  created : volume.later path = none
  files : files = Function.update volume.later path (some content)

section Publication

variable {hash : List UInt8 → List UInt8} {wire : Wire} {volume : Volume} {path : String}
  {files : Files}

private theorem written_of_destination {staged : Sink UInt8}
    (h : destination volume path = .ok staged) : staged.written = [] := by
  simp only [destination, bind_eq_ok, pure_eq_ok] at h
  obtain ⟨_, _, _, _, _, _, _, _, heq⟩ := h
  rw [← heq]

private theorem published_of_publish {staged : Sink UInt8}
    (h : publish volume staged path = .ok files) :
    Published volume path staged.written files := by
  simp only [publish, bind_eq_ok, ensure_eq_ok, pure_eq_ok, Bool.and_eq_true,
    Option.isNone_iff_eq_none] at h
  obtain ⟨_, _, _, ⟨hnone, _⟩, heq⟩ := h
  exact ⟨hnone, heq.symm⟩

private theorem receipt_eq {sent received : Receipt}
    (h : (sent.bytes == received.bytes && sent.sha256 == received.sha256) = true) :
    sent = received := by
  rw [Bool.and_eq_true, beq_iff_eq, beq_iff_eq] at h
  cases sent
  cases received
  rw [Receipt.mk.injEq]
  exact h

variable {bytes : Nat} {stdin : BufReader UInt8}

private theorem receiveUpload_ok {received : Receipt}
    (h : receiveUpload hash wire volume path bytes stdin = .ok (received, files)) :
    ∃ b, Verified hash wire bytes stdin.pending b ∧ Published volume path b files := by
  simp only [receiveUpload, bind_eq_ok] at h
  obtain ⟨_, _, staged, hstaged, h⟩ := h
  split at h
  · cases h
  next hcopy =>
  simp only [bind_eq_ok, context_eq_ok, ensure_eq_ok, pure_eq_ok] at h
  obtain ⟨⟨sent, afterLine⟩, hline, _, hsame, ⟨rest, last⟩, hrest, _, hempty, files', hpublish,
    heq⟩ := h
  obtain ⟨rfl, rfl⟩ := Prod.mk.inj heq
  obtain ⟨b, hreceipt, hlength, hpending, hwritten⟩ := copyBytes_ok hcopy
  obtain ⟨text, hsplit, hends, hshort, hdecode⟩ := line_ok hline
  have hsent : sent = _ := receipt_eq hsame
  -- the read of one byte found the end
  have hend : afterLine.pending = [] := by
    have hpiece := BufReader.piece_of_read hrest
    exact (hpiece.progress (List.isEmpty_iff.mp hempty)).resolve_left (by decide)
  rw [hend, List.append_nil] at hsplit
  refine ⟨b, ⟨hlength, text, ?_, hends, hshort, ?_⟩, ?_⟩
  · rw [← hsplit]
    exact hpending
  · rw [hdecode, hsent, hreceipt]
  · have hpublished := published_of_publish hpublish
    rwa [hwritten, written_of_destination hstaged, List.nil_append] at hpublished

private theorem serveUpload_spec {stdout : Sink UInt8} {served : Served}
    (h : serveUpload hash wire volume path bytes stdin stdout = served) :
    served.files = volume.later ∧ served.stdout = stdout ∨
      ∃ b, Verified hash wire bytes stdin.pending b ∧ Published volume path b served.files := by
  subst h
  unfold serveUpload
  split
  · left
    exact ⟨rfl, rfl⟩
  · next hreceive =>
    right
    exact receiveUpload_ok hreceive

private theorem serveTransfer_upload {opened : Except String SourceFile} {payload : String}
    {stdout : Sink UInt8} (hdecode : wire.payload.decode payload = some (.upload path bytes)) :
    let served := serveTransfer hash wire volume opened payload stdin stdout
    served.files = volume.later ∧ served.stdout = stdout ∨
      ∃ b, Verified hash wire bytes stdin.pending b ∧ Published volume path b served.files := by
  unfold serveTransfer
  split
  · left
    exact ⟨rfl, rfl⟩
  · rw [hdecode]
    exact serveUpload_spec rfl

/-- A client that gets a receipt has sent the bytes it read and something more, and was
answered. -/
private theorem remoteUpload_ok {progress : String → Nat → Except String Unit} {file : SourceFile}
    {input pipe : Sink UInt8} {output : BufReader UInt8}
    (h : remoteUpload hash wire progress file input output = (.ok receipt, pipe)) :
    ∃ b rest, b <+: file.stream.rest ∧ b.length = file.length ∧
      receipt = ⟨file.length, hex (hash b)⟩ ∧ pipe.written = input.written ++ b ++ rest ∧
      output.pending ≠ [] := by
  unfold remoteUpload at h
  split at h
  · cases (Prod.mk.inj h).1
  next sent input' input₁ hcopy =>
  split at h
  · cases (Prod.mk.inj h).1
  split at h
  · cases (Prod.mk.inj h).1
  split at h
  · cases (Prod.mk.inj h).1
  next input₂ hwrite =>
  obtain ⟨hresult, rfl⟩ := Prod.mk.inj h
  simp only [bind_eq_ok, ensure_eq_ok, pure_eq_ok] at hresult
  obtain ⟨⟨received, _⟩, hline, _, hsame, heq⟩ := hresult
  have hsent : sent = received := receipt_eq hsame
  obtain ⟨b, hreceipt, hlength, hpending, hwritten⟩ := copyBytes_ok hcopy
  refine ⟨b, wire.receipt.encode sent ++ [newline], ?_, hlength, ?_, ?_, ?_⟩
  · exact ⟨_, hpending.symm⟩
  · rw [← hreceipt, hsent, ← heq]
  · rw [writeLine_ok hwrite, hwritten]
  · intro hnil
    exact line_ne_ok_of_nil hnil hline

private theorem remoteDownload_ok {progress : String → Nat → Except String Unit}
    {output : BufReader UInt8}
    (h : remoteDownload hash wire progress volume path output = .ok (receipt, files)) :
    ∃ text b rest, output.pending = text ++ (b ++ rest) ∧ EndsAt newline text ∧ rest ≠ [] ∧
      wire.length.decodeLine text = some b.length ∧
      receipt = ⟨b.length, hex (hash b)⟩ ∧ Published volume path b files := by
  simp only [remoteDownload, bind_eq_ok] at h
  obtain ⟨⟨total, afterLine⟩, hlength, _, _, staged, hstaged, h⟩ := h
  split at h
  · cases h
  next received afterBytes staged' hcopy =>
  simp only [bind_eq_ok, ensure_eq_ok, pure_eq_ok] at h
  obtain ⟨⟨sent, _⟩, hline, _, hsame, _, _, files', hpublish, heq⟩ := h
  obtain ⟨rfl, rfl⟩ := Prod.mk.inj heq
  obtain ⟨text, hsplit, hends, _, hdecode⟩ := line_ok hlength
  obtain ⟨b, hreceipt, hbytes, hpending, hwritten⟩ := copyBytes_ok hcopy
  have htotal : b.length = total := hbytes
  have hbuffered : afterLine.pending = b ++ afterBytes.pending := hpending
  refine ⟨text, b, afterBytes.pending, ?_, hends, ?_, ?_, ?_, ?_⟩
  · rw [hsplit, hbuffered]
  · intro hnil
    exact line_ne_ok_of_nil hnil hline
  · rw [hdecode, htotal]
  · rw [hreceipt, htotal]
  · have hpublished := published_of_publish hpublish
    rwa [hwritten, written_of_destination hstaged, List.nil_append] at hpublished

/-- What a server answers to a download request: at most a part of the length's line; or that
line and a front of the file, with more only after all of it. -/
inductive Answer (wire : Wire) (file : SourceFile) (answer : List UInt8) : Prop where
  | cutLine (part : answer <+: wire.length.encode file.length ++ [newline])
  | bytes (moved rest : List UInt8)
      (whole : answer = wire.length.encode file.length ++ [newline] ++ (moved ++ rest))
      (front : moved <+: file.stream.rest) (bounded : moved.length ≤ file.length)
      (complete : rest ≠ [] → moved.length = file.length)

private theorem serveDownload_answer {opened : Except String SourceFile}
    {faults : Nat → Option Nat} :
    let served := serveDownload hash wire volume opened path ⟨[], faults⟩
    served.stdout.written = [] ∨
      ∃ file, opened = .ok file ∧ Answer wire file served.stdout.written := by
  unfold serveDownload
  split
  · exact .inl rfl
  next file hsource =>
  right
  simp only [source, bind_eq_ok, ensure_eq_ok, pure_eq_ok] at hsource
  obtain ⟨_, _, opened', hopened, _, _, _, _, heq⟩ := hsource
  subst heq
  refine ⟨opened', hopened, ?_⟩
  split
  · next hwrite =>
    obtain ⟨part, hpart, hwritten⟩ := writeLine_error hwrite
    apply Answer.cutLine
    rw [hwritten]
    exact hpart
  next output₁ hwrite =>
  have hline := writeLine_ok hwrite
  rw [List.nil_append] at hline
  split
  · next hcopy =>
    obtain ⟨moved, hmoved, hlength, hwritten⟩ := copyBytes_error hcopy
    refine .bytes moved [] ?_ hmoved hlength (absurd rfl)
    rw [hwritten, hline, List.append_nil]
  next sent rest output₂ hcopy =>
  obtain ⟨moved, _, hlength, hpending, hwritten⟩ := copyBytes_ok hcopy
  have hfront : moved <+: opened'.stream.rest := ⟨_, hpending.symm⟩
  split
  · obtain ⟨part, hpart⟩ : ∃ part,
        (writeLine wire.receipt sent output₂).2.written = output₂.written ++ part := by
      cases hlast : writeLine wire.receipt sent output₂ with
      | mk result output₃ =>
        cases result with
        | ok => exact ⟨_, writeLine_ok hlast⟩
        | error =>
          obtain ⟨part, _, hwritten⟩ := writeLine_error hlast
          exact ⟨part, hwritten⟩
    refine .bytes moved part ?_ hfront (Nat.le_of_eq hlength) fun _ ↦ hlength
    rw [hpart, hwritten, hline, List.append_assoc]
  · refine .bytes moved [] ?_ hfront (Nat.le_of_eq hlength) fun _ ↦ hlength
    rw [hwritten, hline, List.append_nil]

private theorem bytes_of_answer {file : SourceFile} {answer text b rest : List UInt8}
    (hlength : wire.length.RoundTrips file.length) (h : Answer wire file answer)
    (hsplit : text ++ (b ++ rest) <+: answer) (hends : EndsAt newline text) (hrest : rest ≠ [])
    (hdecode : wire.length.decodeLine text = some b.length) :
    b <+: file.stream.rest ∧ b.length = file.length := by
  have hline : EndsAt newline (wire.length.encode file.length ++ [newline]) :=
    ⟨_, rfl, hlength.newline⟩
  have ⟨more, hmore⟩ := hsplit
  cases h with
  | cutLine part =>
    have ⟨missing, hmissing⟩ := part
    -- the line is read whole, and then nothing is left
    rw [← hmore, List.append_assoc, List.append_assoc] at hmissing
    have ⟨htext, hnil⟩ := hends.eq_of_append hline
      (hmissing.trans (List.append_nil _).symm)
    simp only [List.append_eq_nil_iff] at hnil
    exact absurd hnil.1.2 hrest
  | bytes moved stuff whole front bounded complete =>
    rw [whole, List.append_assoc] at hmore
    have ⟨htext, heq⟩ := hends.eq_of_append hline hmore
    rw [htext, hlength.decode] at hdecode
    have hb : b.length = file.length := (Option.some.inj hdecode).symm
    rw [List.append_assoc] at heq
    have hmoved : moved.length = file.length := by
      by_cases hstuff : stuff = []
      · -- all that was moved is taken
        have hcount := congrArg List.length heq
        simp only [hstuff, List.length_append, List.length_nil] at hcount
        omega
      · exact complete hstuff
    have ⟨hsame, _⟩ := List.append_inj heq (hb.trans hmoved.symm)
    rw [hsame]
    exact ⟨front, hmoved⟩

end Publication

/-- Only verified content is published. Whatever arrives on the server's input, it creates the
destination of an upload with the bytes of a verified stream or leaves the files alone. A client
that returns a receipt for an upload or a download, over a transport that may cut what was
written short, returns that of the bytes which the sending side read and which are published. -/
theorem transfer_publishes_verified (hash : List UInt8 → List UInt8) (wire : Wire) :
    (∀ volume opened payload path n stdin stdout,
      wire.payload.decode payload = some (.upload path n) →
      let served := serveTransfer hash wire volume opened payload stdin stdout
      served.files = volume.later ∨
        ∃ b, Verified hash wire n stdin.pending b ∧ Published volume path b served.files) ∧
    (∀ volume opened path stdin faults (progress : String → Nat → Except String Unit) file
        faults' output receipt pipe,
      let request := WireRequest.upload path file.length
      let served := serveTransfer hash wire volume opened (wire.payload.encode request) stdin
        ⟨[], faults⟩
      wire.payload.decode (wire.payload.encode request) = some request →
      remoteUpload hash wire progress file ⟨[], faults'⟩ output = (.ok receipt, pipe) →
      stdin.pending <+: pipe.written → output.pending <+: served.stdout.written →
      ∃ b, b <+: file.stream.rest ∧ b.length = file.length ∧
        receipt = ⟨b.length, hex (hash b)⟩ ∧ Published volume path b served.files) ∧
    (∀ remote opened path stdin faults (progress : String → Nat → Except String Unit) volume
        localPath output receipt files,
      let request := WireRequest.download path
      let served := serveTransfer hash wire remote opened (wire.payload.encode request) stdin
        ⟨[], faults⟩
      wire.payload.decode (wire.payload.encode request) = some request →
      (∀ file, opened = .ok file → wire.length.RoundTrips file.length) →
      remoteDownload hash wire progress volume localPath output = .ok (receipt, files) →
      output.pending <+: served.stdout.written →
      ∃ file b, opened = .ok file ∧ b <+: file.stream.rest ∧ b.length = file.length ∧
        receipt = ⟨b.length, hex (hash b)⟩ ∧ Published volume localPath b files) := by
  refine ⟨?_, ?_, ?_⟩
  · intro volume opened payload path n stdin stdout hdecode
    exact (serveTransfer_upload hdecode).imp And.left id
  · intro volume opened path stdin faults progress file faults' output receipt pipe request
      served hpayload hclient hstdin houtput
    have ⟨b, rest, hread, hlength, hreceipt, hpipe, hanswered⟩ := remoteUpload_ok hclient
    rcases serveTransfer_upload hpayload with ⟨_, hsilent⟩ | ⟨b', hverified, hpublished⟩
    · -- a server that does not publish does not answer
      have hwritten : served.stdout.written = [] := congrArg Sink.written hsilent
      rw [hwritten] at houtput
      exact absurd (List.prefix_nil.mp houtput) hanswered
    · have ⟨text, hstream, _⟩ := hverified.receipt
      have ⟨missing, hmissing⟩ := hstdin
      rw [hstream, hpipe, List.nil_append, List.append_assoc] at hmissing
      have ⟨hsame, _⟩ := List.append_inj hmissing (hverified.length.trans hlength.symm)
      rw [hsame] at hpublished
      refine ⟨b, hread, hlength, ?_, hpublished⟩
      rw [hreceipt, hlength]
  · intro remote opened path stdin faults progress volume localPath output receipt files request
      served hpayload hroundTrips hclient houtput
    have ⟨text, b, rest, hsplit, hends, hrest, hdecode, hreceipt, hpublished⟩ :=
      remoteDownload_ok hclient
    have hanswer : served.stdout.written = [] ∨
        ∃ file, opened = .ok file ∧ Answer wire file served.stdout.written := by
      simp only [served, serveTransfer, hpayload]
      split
      · exact .inl rfl
      · exact serveDownload_answer
    rw [hsplit] at houtput
    rcases hanswer with hnil | ⟨file, hopened, hanswer⟩
    · rw [hnil, List.prefix_nil, List.append_eq_nil_iff, List.append_eq_nil_iff] at houtput
      exact absurd houtput.2.2 hrest
    · have ⟨hread, hlength⟩ :=
        bytes_of_answer (hroundTrips file hopened) hanswer houtput hends hrest hdecode
      exact ⟨file, b, hopened, hread, hlength, hreceipt, hpublished⟩

/-- The digest of the byte `a`. -/
private def sampleDigest : List UInt8 :=
  [0xca, 0x97, 0x81, 0x12, 0xca, 0x1b, 0xbd, 0xca,
    0xfa, 0xc2, 0x31, 0xb3, 0x9a, 0x23, 0xdc, 0x4d,
    0xa7, 0x86, 0xef, 0xf8, 0x14, 0x7c, 0x4e, 0x72,
    0xb9, 0x80, 0x77, 0x85, 0xaf, 0xee, 0x48, 0xbb]

private def sampleReceipt : String :=
  "\x7b\"bytes\":1,\"sha256\":\"" ++ hex sampleDigest ++ "\"\x7d"

/-- The encodings of one upload and one download of that byte. -/
private def sampleWire : Wire where
  receipt := ⟨fun _ ↦ textBytes sampleReceipt, fun text ↦
    if text = sampleReceipt ++ "\n" then some ⟨1, hex sampleDigest⟩ else none⟩
  length := ⟨fun _ ↦ textBytes "1", fun text ↦ if text = "1\n" then some 1 else none⟩
  payload :=
    { encode request :=
        match request with
        | .upload _ _ => "eyJvcGVyYXRpb24iOiJ1cGxvYWQiLCJwYXRoIjoiL2IiLCJieXRlcyI6MX0"
        | .download _ => "eyJvcGVyYXRpb24iOiJkb3dubG9hZCIsInBhdGgiOiIvYiJ9"
      decode text :=
        if text = "eyJvcGVyYXRpb24iOiJ1cGxvYWQiLCJwYXRoIjoiL2IiLCJieXRlcyI6MX0" then
          some (.upload "/b" 1)
        else if text = "eyJvcGVyYXRpb24iOiJkb3dubG9hZCIsInBhdGgiOiIvYiJ9" then some (.download "/b")
        else none }

private def sampleStream (bytes : List UInt8) : BufReader UInt8 :=
  ⟨[], ⟨bytes, fun _ ↦ .atMost 2⟩, 8192, by decide⟩

private def sampleVolume : Volume :=
  ⟨fun _ ↦ none, fun _ ↦ none, false, false, false, false, fun _ ↦ none⟩

private def sampleFile : SourceFile := ⟨⟨[97], fun _ ↦ .atMost 0⟩, true, 1, true⟩

private def sampleReceiptLine : List UInt8 := textBytes (sampleReceipt ++ "\n")

private def sampleProgress : String → Nat → Except String Unit := fun _ _ ↦ .ok ()

private def sampleDownload : Except String (Receipt × Files) :=
  remoteDownload (fun _ ↦ sampleDigest) sampleWire sampleProgress sampleVolume "/c"
    (sampleStream (textBytes "1\n" ++ 97 :: sampleReceiptLine))

private def sampleServed : Served :=
  serveTransfer (fun _ ↦ sampleDigest) sampleWire sampleVolume (.error "")
    (sampleWire.payload.encode (.upload "/b" 1)) (sampleStream (97 :: sampleReceiptLine))
    ⟨[], fun _ ↦ none⟩

/-- The byte is uploaded, and downloaded again. -/
theorem transfer_publishes_verified_byte :
    (∃ b, Verified (fun _ ↦ sampleDigest) sampleWire 1 (97 :: sampleReceiptLine) b ∧
      Published sampleVolume "/b" b sampleServed.files) ∧
    (∃ b, b <+: sampleFile.stream.rest ∧ b.length = 1 ∧
      (⟨1, hex sampleDigest⟩ : Receipt) = ⟨b.length, hex sampleDigest⟩ ∧
      Published sampleVolume "/b" b sampleServed.files) ∧
    (∃ files file b, sampleDownload = .ok (⟨1, hex sampleDigest⟩, files) ∧
      (.ok sampleFile : Except String SourceFile) = .ok file ∧ b <+: file.stream.rest ∧
      b.length = file.length ∧ (⟨1, hex sampleDigest⟩ : Receipt) = ⟨b.length, hex sampleDigest⟩ ∧
      Published sampleVolume "/c" b files) := by
  have ⟨hserve, hupload, hdownload⟩ :=
    transfer_publishes_verified (fun _ ↦ sampleDigest) sampleWire
  refine ⟨?_, ?_, ?_⟩
  · have hcreated : sampleServed.files "/b" = some [97] := by decide +kernel
    rcases hserve sampleVolume (.error "") (sampleWire.payload.encode (.upload "/b" 1)) "/b" 1
      (sampleStream (97 :: sampleReceiptLine)) ⟨[], fun _ ↦ none⟩ rfl with hsame | hpublished
    · have hfiles : sampleServed.files = sampleVolume.later := hsame
      rw [hfiles] at hcreated
      cases hcreated
    · exact hpublished
  · exact hupload sampleVolume (.error "") "/b" (sampleStream (97 :: sampleReceiptLine))
      (fun _ ↦ none) sampleProgress sampleFile (fun _ ↦ none) (sampleStream sampleReceiptLine)
      ⟨1, hex sampleDigest⟩ _ rfl (Prod.ext (by decide +kernel) rfl) (by decide +kernel)
      (by decide +kernel)
  · have hreceipt : sampleDownload.map Prod.fst = .ok ⟨1, hex sampleDigest⟩ := by
      decide +kernel
    cases hclient : sampleDownload with
    | error error =>
      rw [hclient] at hreceipt
      cases hreceipt
    | ok next =>
      rw [hclient] at hreceipt
      obtain ⟨received, files⟩ := next
      cases hreceipt
      have ⟨file, b, hpublished⟩ := hdownload sampleVolume (.ok sampleFile) "/b" (sampleStream [])
        (fun _ ↦ none) sampleProgress sampleVolume "/c" _ _ files rfl
        (fun f hf ↦ by
          cases hf
          exact ⟨by decide +kernel, by decide +kernel⟩)
        hclient (by decide +kernel)
      exact ⟨files, file, b, rfl, hpublished⟩

end Bootty.Host.Transfer
