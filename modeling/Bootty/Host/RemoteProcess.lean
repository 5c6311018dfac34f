import Bootty.Base.Machine
import Mathlib.Algebra.GroupWithZero.Nat

/-!
# Remote processes

Model of `serve_process` (`crates/bootty-host/src/remote_link/server.rs:246–295`) with the threads
that `spawn` starts (`remote_link/process.rs:59–98` and `164–188`): the reader of frames, the
writer of the child's input, the two readers of its output and the loop that sends it. The child
neither reads its input nor exits until it is cancelled. What the client sends, when it arrives,
what the child prints and how much the client takes are events of the environment. The capacity of
the child's input is what the operating system's buffer takes of these very writes, which is less
than its size where it counts pages or, as a terminal may, drops what it has no room for.
-/

namespace Bootty.Host.RemoteProcess

/-! ### Frames, `protocol.rs:10–20` -/

/-- `CHUNK`. -/
def chunk : Nat := 32 * 1024

/-- The bound of both channels. -/
def channelBound : Nat := 8

/-- `protocol.rs:24–28`. -/
structure RemoteTerminalSize where
  cols : Nat
  rows : Nat

/-- The kinds of frames that the server tells apart. -/
inductive FrameKind where
  | input | resize | eof | cancel | other
  deriving DecidableEq

/-- `Frame`. -/
structure Frame where
  kind : FrameKind
  bytes : List UInt8

/-- `process.rs:13–17`. -/
inductive Input where
  | bytes (bytes : List UInt8)
  | resize (size : RemoteTerminalSize)
  | eof

/-- `protocol.rs:69–73`. -/
inductive RemoteOutput where
  | stdout (bytes : List UInt8)
  | stderr (bytes : List UInt8)
  | exit (code : Int)

/-- What the reader makes of a frame: the message, whether input has ended, and whether it calls
`cancel`. -/
structure Accepted where
  message : Input
  ended : Bool
  cancels : Bool

section Process

variable (decodeSize : List UInt8 → Option RemoteTerminalSize) (terminal : Bool)

/-- The `match` of the reader; `none` is its `bail!`. -/
def accept (ended : Bool) (frame : Frame) : Option Accepted :=
  match frame.kind with
  | .input =>
    if !ended && decide (frame.bytes.length ≤ chunk) then some ⟨.bytes frame.bytes, ended, false⟩
    else none
  | .resize =>
    if terminal && decide (frame.bytes.length ≤ 128) then
      match decodeSize frame.bytes with
      | none => none
      | some size =>
        if size.cols = 0 ∨ size.rows = 0 then none else some ⟨.resize size, ended, false⟩
    else none
  | .eof => if frame.bytes.isEmpty && !ended then some ⟨.eof, true, false⟩ else none
  | .cancel => if frame.bytes.isEmpty then some ⟨.eof, true, true⟩ else none
  | .other => none

/-- Every frame is accepted by the reader. -/
def acceptsAll (ended : Bool) : List Frame → Bool
  | [] => true
  | frame :: rest =>
    match accept decodeSize terminal ended frame with
    | none => false
    | some accepted => acceptsAll accepted.ended rest

/-! ### The tasks and threads -/

/-- The thread that writes the child's input. -/
inductive Writer where
  | idle
  | writing (rest : List UInt8)
  | stopped

/-- Everything the threads of one process share. -/
structure Serving where
  undelivered : List Frame
  /-- Frames that have arrived and are not read. -/
  stream : List Frame
  ended : Bool
  /-- The message whose `send` the reader awaits. -/
  holding : Option Input
  channel : List Input
  writer : Writer
  /-- What the child's input buffer holds; `none` once it is closed. -/
  stdin : Option (List UInt8)
  cancelled : Bool
  /-- The chunk that the reader of `stdout` or `stderr` holds. -/
  captured : Bool → Option (List UInt8)
  output : List RemoteOutput
  exited : Bool
  /-- `serve_process` has returned. -/
  returned : Bool
  /-- Frames that the client takes before it blocks. -/
  credit : Nat
  sent : List RemoteOutput

/-- The process has been spawned. -/
def serve (frames : List Frame) : Serving :=
  ⟨frames, [], false, none, [], .idle, some [], false, fun _ ↦ none, [], false, false, 0,
    []⟩

/-- What the threads, the client and the child do. -/
inductive Event where
  | readFrame | send | receive
  | write (count : Nat)
  | finishWrite | failWrite
  | forward (stderr : Bool)
  | relay
  | exit (code : Int)
  | deliver
  | print (stderr : Bool) (chunk : List UInt8)
  | take

/-- The events of the server and its threads. -/
def Event.isServer : Event → Bool
  | .deliver | .print _ _ | .take => false
  | _ => true

variable (capacity : Nat)

/-- One step. A `write` moves what the buffer has room for. -/
def step (s : Serving) : Event → Option Serving
  | .readFrame =>
    if s.returned then none
    else
      match s.holding, s.stream with
      | none, frame :: rest =>
        match accept decodeSize terminal s.ended frame with
        -- the error ends `serve_process`, which drops the process
        | none => some { s with stream := rest, cancelled := true, returned := true }
        | some accepted =>
          some { s with
            stream := rest
            ended := accepted.ended
            holding := some accepted.message
            cancelled := s.cancelled || accepted.cancels }
      | _, _ => none
  | .send =>
    match s.holding, s.writer with
    | some _, .stopped => some { s with holding := none }
    | some message, _ =>
      if s.channel.length < channelBound then
        some { s with holding := none, channel := s.channel ++ [message] }
      else none
    | none, _ => none
  | .receive =>
    match s.writer, s.channel with
    | .idle, .bytes bytes :: rest =>
      some { s with channel := rest, writer := if s.stdin.isSome then .writing bytes else .idle }
    | .idle, .eof :: rest =>
      some { s with channel := rest, stdin := if terminal then s.stdin else none }
    | .idle, .resize _ :: rest => some { s with channel := rest }
    | _, _ => none
  | .write count =>
    match s.writer, s.stdin with
    | .writing rest, some held =>
      if 0 < count ∧ count ≤ rest.length ∧ held.length + count ≤ capacity then
        some { s with writer := .writing (rest.drop count), stdin := some (held ++ rest.take count) }
      else none
    | _, _ => none
  | .finishWrite =>
    match s.writer with
    | .writing [] => some { s with writer := .idle }
    | _ => none
  | .failWrite =>
    match s.writer with
    | .writing _ => if s.cancelled then some { s with writer := .stopped } else none
    | _ => none
  | .forward stderr =>
    match s.captured stderr with
    | some chunk =>
      if s.output.length < channelBound then
        some { s with
          captured := fun other ↦ if other = stderr then none else s.captured other
          output := s.output ++ [if stderr then .stderr chunk else .stdout chunk] }
      else none
    | none => none
  | .relay =>
    match s.output with
    | output :: rest =>
      if 0 < s.credit ∧ !s.returned then
        some { s with
          output := rest
          credit := s.credit - 1
          sent := s.sent ++ [output]
          returned := match output with | .exit _ => true | _ => false }
      else none
    | [] => none
  | .exit code =>
    if s.cancelled ∧ !s.exited ∧ (s.captured false).isNone ∧ (s.captured true).isNone ∧
        s.output.length < channelBound then
      some { s with exited := true, output := s.output ++ [.exit code] }
    else none
  | .deliver =>
    match s.undelivered with
    | frame :: rest => some { s with undelivered := rest, stream := s.stream ++ [frame] }
    | [] => none
  | .print stderr printed =>
    if printed ≠ [] ∧ printed.length ≤ chunk ∧ (s.captured stderr).isNone ∧ !s.exited then
      some { s with
        captured := fun other ↦ if other = stderr then some printed else s.captured other }
    else none
  | .take => some { s with credit := s.credit + 1 }

/-- Cancellation has arrived, `cancel` has not been called, and the server cannot go on. -/
structure Stuck (s : Serving) : Prop where
  arrived : ∃ frame ∈ s.stream, frame.kind = .cancel
  uncancelled : s.cancelled = false
  blocked : ∀ event, event.isServer = true →
    step decodeSize terminal capacity s event = none

end Process

end Bootty.Host.RemoteProcess
