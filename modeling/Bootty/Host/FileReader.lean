import Mathlib.Algebra.GroupWithZero.Nat
import Mathlib.Data.List.Basic

/-!
# Cached reads of a file

Model of `FileReader` for a local file (`crates/bootty-host/src/file_reader.rs:35–131, 133–282,
370–386`). The file may change at any time: every look at it is given the file as it is then. A
source that must not change is recognised by its length and revision, and a log, which may grow, by
its length and the last bytes of what was there when it was opened. Sources on other hosts are left
out, and any operation on the file may fail.
-/

namespace Bootty.Host

/-- `MAX_FILE_CHUNK`. -/
def maxFileChunk : Nat := 1024 * 1024

/-- `LOG_TAIL_BYTES`. -/
def logTailBytes : Nat := 64

/-- The greatest `u64`, as a bound of positions. -/
def maxPosition : Nat := 2 ^ 64 - 1

/-- The file at one time. -/
structure OpenFile where
  bytes : List UInt8
  revision : String
  deriving DecidableEq, Repr

/-- Which changes of the source are accepted. -/
inductive SourceChanges where
  | refused
  | appended
  deriving DecidableEq, Repr

/-- `SourceGuard`, with the revision and the length of its descriptor. -/
structure SourceGuard where
  revision : String
  len : Nat
  changes : SourceChanges
  tail : List UInt8
  deriving DecidableEq, Repr

namespace SourceGuard

/-- The error for a source that changed. -/
def sourceChanged : String := "File source changed; reopen the file"

/-- The last bytes before `len`. -/
def logTail (file : OpenFile) (len : Nat) : Except String (List UInt8) :=
  let start := len - logTailBytes
  if file.bytes.length < len then .error sourceChanged
  else .ok ((file.bytes.drop start).take (len - start))

/-- `SourceGuard::open`, for a descriptor with this revision and length. -/
def openGuard (file : OpenFile) (revision : String) (len : Nat) (changes : SourceChanges) :
    Except String SourceGuard :=
  match changes with
  | .refused =>
    if file.bytes.length = len ∧ file.revision = revision then .ok ⟨revision, len, .refused, []⟩
    else .error sourceChanged
  | .appended =>
    if file.bytes.length < len then .error sourceChanged
    else
      (logTail file file.bytes.length).map fun tail ↦
        ⟨file.revision, file.bytes.length, .appended, tail⟩

/-- `SourceGuard::check`. -/
def check (guard : SourceGuard) (file : OpenFile) : Bool :=
  match guard.changes with
  | .refused => file.bytes.length = guard.len && file.revision = guard.revision
  | .appended =>
    guard.len ≤ file.bytes.length && (logTail file guard.len).toOption == some guard.tail

end SourceGuard

/-- The reader of a local file. The chunk in the cache begins at `cacheStart`. -/
structure FileReader where
  guard : SourceGuard
  position : Nat
  cacheStart : Nat
  cache : List UInt8
  cancelled : Bool
  deriving DecidableEq, Repr

/-- The file at the times at which one read looks at it: before it begins, before the bytes are
read, when they are, and after. -/
structure Looks where
  first : OpenFile
  before : OpenFile
  during : OpenFile
  after : OpenFile

/-- `io::SeekFrom`. -/
inductive SeekFrom where
  | start (offset : Nat)
  | fromEnd (offset : Int)
  | current (offset : Int)
  deriving DecidableEq, Repr

namespace FileReader

/-- A reader at the beginning of a source. -/
def ofGuard (guard : SourceGuard) : FileReader := ⟨guard, 0, 0, [], false⟩

/-- `len`. -/
def len (r : FileReader) : Nat := r.guard.len

/-- The error for a cancelled source. -/
def cancellation : String := "File source cancelled or timed out"

/-- `read_range`, `file_reader.rs:370–386`. -/
def readRange (guard : SourceGuard) (looks : Looks) (offset length : Nat) :
    Except String (List UInt8) :=
  if maxFileChunk < length then .error "File range exceeds its bound"
  else if guard.len < offset ∨ guard.len - offset < length then
    .error "File range is outside the file"
  else if !guard.check looks.before then .error SourceGuard.sourceChanged
  else if looks.during.bytes.length < offset + length then
    .error "File source ended before the requested range"
  else if !guard.check looks.after then .error SourceGuard.sourceChanged
  else .ok ((looks.during.bytes.drop offset).take length)

/-- The offset in the cache of the position, if it is there. -/
def cached (r : FileReader) : Option Nat :=
  if r.cacheStart ≤ r.position ∧ r.position - r.cacheStart < r.cache.length then
    some (r.position - r.cacheStart)
  else none

/-- The bytes of the cache from an offset on go to the output. -/
def copyOut (r : FileReader) (offset outLen : Nat) : Except String (List UInt8) × FileReader :=
  let bytes := (r.cache.drop offset).take outLen
  (.ok bytes, { r with position := min (r.position + bytes.length) maxPosition })

/-- `read`, `file_reader.rs:220–266`. -/
def read (r : FileReader) (looks : Looks) (outLen : Nat) :
    Except String (List UInt8) × FileReader :=
  if r.cancelled then (.error cancellation, r)
  else if !r.guard.check looks.first then (.error SourceGuard.sourceChanged, r)
  else if outLen = 0 ∨ r.len ≤ r.position then (.ok [], r)
  else
    match r.cached with
    | some offset => r.copyOut offset outLen
    | none =>
      match readRange r.guard looks r.position (min (r.len - r.position) maxFileChunk) with
      | .error error => (.error error, { r with cache := [], cancelled := true })
      | .ok bytes => copyOut { r with cache := bytes, cacheStart := r.position } 0 outLen

/-- Where a seek goes. -/
def target (len position : Nat) : SeekFrom → Int
  | .start offset => offset
  | .fromEnd offset => len + offset
  | .current offset => position + offset

/-- `seek`, `file_reader.rs:269–282`. -/
def seek (r : FileReader) (goal : SeekFrom) : Except String Nat × FileReader :=
  if r.cancelled then (.error cancellation, r)
  else
    let position := target r.len r.position goal
    if 0 ≤ position ∧ position ≤ maxPosition then
      (.ok position.toNat, { r with position := position.toNat })
    else (.error "Invalid file seek", r)

/-! ### One read -/

/-- A source that passes the guard before and after has had the contents in between. -/
def Noticed (guard : SourceGuard) (contents : List UInt8) (looks : Looks) : Prop :=
  guard.check looks.before = true → guard.check looks.after = true →
    looks.during.bytes.take guard.len = contents

/-- The cache holds what is at its place in the contents. -/
structure Caches (contents : List UInt8) (r : FileReader) : Prop where
  len : contents.length = r.len
  bounded : r.len ≤ maxPosition
  inside : r.cacheStart + r.cache.length ≤ r.len ∨ r.cache = []
  cache : r.cache = (contents.drop r.cacheStart).take r.cache.length

variable {contents : List UInt8} {r : FileReader}

variable {guard : SourceGuard}

private theorem caches_ofGuard (hlen : contents.length = guard.len)
    (hbounded : guard.len ≤ maxPosition) :
    Caches contents (ofGuard guard) :=
  ⟨hlen, hbounded, .inr rfl, rfl⟩

private theorem readRange_eq_ok {looks : Looks} {offset length : Nat} {bytes : List UInt8}
    (h : readRange guard looks offset length = .ok bytes) (hnoticed : Noticed guard contents looks)
    :
    offset + length ≤ guard.len ∧ bytes = (contents.drop offset).take length := by
  rw [readRange] at h
  split at h
  · cases h
  split at h
  · cases h
  next hrange =>
  split at h
  · cases h
  next hbefore =>
  split at h
  · cases h
  next hlength =>
  split at h
  · cases h
  next hafter =>
  rw [not_or] at hrange
  rw [Bool.not_eq_true', Bool.not_eq_false] at hbefore hafter
  have hinside : offset + length ≤ guard.len := by omega
  refine ⟨hinside, ?_⟩
  rw [← hnoticed hbefore hafter, ← Except.ok.inj h, List.drop_take, List.take_take,
    Nat.min_eq_left (by omega)]

/-- What one read says of a plain read of the contents at the position. -/
structure ReadsAt (contents : List UInt8) (position outLen : Nat) (bytes : List UInt8) : Prop where
  slice : bytes = (contents.drop position).take bytes.length
  fits : bytes.length ≤ outLen
  ends : bytes = [] ↔ outLen = 0 ∨ contents.length ≤ position

/-- Bytes of the cache are bytes of the contents, and some are there. -/
theorem copyOut_spec (h : Caches contents r) {offset outLen : Nat} (hout : 0 < outLen)
    (hoffset : offset < r.cache.length) (hposition : r.position = r.cacheStart + offset) :
    ∃ bytes,
      r.copyOut offset outLen = (.ok bytes, { r with position := r.position + bytes.length }) ∧
      ReadsAt contents r.position outLen bytes := by
  have hinside : r.cacheStart + r.cache.length ≤ r.len := h.inside.resolve_right fun hempty ↦ by
    rw [hempty] at hoffset
    cases hoffset
  have hbytes : (r.cache.drop offset).take outLen =
      (contents.drop r.position).take (min outLen (r.cache.length - offset)) := by
    conv_lhs => rw [h.cache]
    rw [List.drop_take, List.drop_drop, List.take_take, ← hposition]
  have hlen := h.len
  have hlength : ((r.cache.drop offset).take outLen).length =
      min outLen (r.cache.length - offset) := by
    rw [List.length_take, List.length_drop]
  refine ⟨(r.cache.drop offset).take outLen, ?_, ?_, ?_, ?_⟩
  · have hbounded := h.bounded
    rw [copyOut, Nat.min_eq_left]
    rw [hlength]
    omega
  · rw [hlength]
    exact hbytes
  · rw [hlength]
    exact Nat.min_le_left ..
  · rw [← List.length_eq_zero_iff, hlength]
    have hsome : 0 < min outLen (r.cache.length - offset) :=
      Nat.lt_min.mpr ⟨hout, Nat.sub_pos_of_lt hoffset⟩
    omega

/-- A read that succeeds is a read of the contents, and keeps the cache right. -/
theorem read_spec (h : Caches contents r) {looks : Looks} {outLen : Nat}
    (hnoticed : Noticed r.guard contents looks) :
    Caches contents (r.read looks outLen).2 ∧
      ((∃ error, (r.read looks outLen).1 = .error error ∧
          (r.read looks outLen).2.position = r.position) ∨
        ∃ bytes, (r.read looks outLen).1 = .ok bytes ∧
          (r.read looks outLen).2.position = r.position + bytes.length ∧
          ReadsAt contents r.position outLen bytes) := by
  rw [read]
  split
  · exact ⟨h, .inl ⟨_, rfl, rfl⟩⟩
  split
  · exact ⟨h, .inl ⟨_, rfl, rfl⟩⟩
  split
  · next hend =>
    refine ⟨h, .inr ⟨[], rfl, rfl, rfl, Nat.zero_le _, iff_of_true rfl ?_⟩⟩
    rwa [h.len]
  next hmore =>
  rw [not_or] at hmore
  have hpositive : 0 < outLen := Nat.pos_of_ne_zero hmore.1
  split
  · next offset hcached =>
    obtain ⟨⟨hstart, hless⟩, heq⟩ := Option.ite_none_right_eq_some.mp hcached
    have hoffset : offset = r.position - r.cacheStart := (Option.some.inj heq).symm
    obtain ⟨bytes, hcopy, hreads⟩ := copyOut_spec h hpositive (hoffset ▸ hless) (by omega)
    rw [hcopy]
    exact ⟨⟨h.len, h.bounded, h.inside, h.cache⟩, .inr ⟨bytes, rfl, rfl, hreads⟩⟩
  · split
    · exact ⟨⟨h.len, h.bounded, .inr rfl, rfl⟩, .inl ⟨_, rfl, rfl⟩⟩
    · next bytes hrange =>
      obtain ⟨hinside, hbytes⟩ := readRange_eq_ok hrange hnoticed
      have hlen := h.len
      have hchunk : 0 < maxFileChunk := by decide
      have hguard : r.guard.len = r.len := rfl
      have hlength : bytes.length = min (r.len - r.position) maxFileChunk := by
        rw [hbytes, List.length_take, List.length_drop, h.len]
        omega
      have hcaches : Caches contents { r with cache := bytes, cacheStart := r.position } := by
        refine ⟨h.len, h.bounded, .inl ?_, ?_⟩
        · show r.position + bytes.length ≤ r.len
          omega
        · show bytes = (contents.drop r.position).take bytes.length
          rw [hlength]
          exact hbytes
      have hsome : 0 < bytes.length := by omega
      obtain ⟨out, hcopy, hreads⟩ := copyOut_spec hcaches hpositive hsome rfl
      rw [hcopy]
      exact ⟨⟨hcaches.len, hcaches.bounded, hcaches.inside, hcaches.cache⟩,
        .inr ⟨out, rfl, rfl, hreads⟩⟩

/-! ### Every history of reads and seeks -/

/-- What is done with a reader. -/
inductive ReaderOp where
  | read (looks : Looks) (outLen : Nat)
  | seek (goal : SeekFrom)
  /-- Another thread cancels the source. -/
  | cancel

/-- What it answers. -/
inductive ReaderResult where
  | bytes (result : Except String (List UInt8))
  | position (result : Except String Nat)
  | done

/-- One operation. -/
def apply (r : FileReader) : ReaderOp → ReaderResult × FileReader
  | .read looks outLen => (.bytes (r.read looks outLen).1, (r.read looks outLen).2)
  | .seek goal => (.position (r.seek goal).1, (r.seek goal).2)
  | .cancel => (.done, { r with cancelled := true })

/-- The answers to some operations. -/
def run (r : FileReader) : List ReaderOp → List ReaderResult
  | [] => []
  | op :: ops => (r.apply op).1 :: run (r.apply op).2 ops

/-- A plain cursor over the contents, with reads that may be short and operations that may fail
without moving it, gives these results. -/
inductive Plays (contents : List UInt8) : Nat → List ReaderOp → List ReaderResult → Prop
  | nil {position : Nat} : Plays contents position [] []
  | read {position : Nat} {looks : Looks} {outLen : Nat} {bytes : List UInt8}
    {ops : List ReaderOp} {results : List ReaderResult}
    (reads : ReadsAt contents position outLen bytes)
    (rest : Plays contents (position + bytes.length) ops results) :
    Plays contents position (.read looks outLen :: ops) (.bytes (.ok bytes) :: results)
  | readFailed {position : Nat} {looks : Looks} {outLen : Nat} {error : String}
    {ops : List ReaderOp} {results : List ReaderResult}
    (rest : Plays contents position ops results) :
    Plays contents position (.read looks outLen :: ops) (.bytes (.error error) :: results)
  | seek {position : Nat} {goal : SeekFrom} {next : Nat} {ops : List ReaderOp}
    {results : List ReaderResult} (there : target contents.length position goal = next)
    (rest : Plays contents next ops results) :
    Plays contents position (.seek goal :: ops) (.position (.ok next) :: results)
  | seekFailed {position : Nat} {goal : SeekFrom} {error : String} {ops : List ReaderOp}
    {results : List ReaderResult} (rest : Plays contents position ops results) :
    Plays contents position (.seek goal :: ops) (.position (.error error) :: results)
  | cancel {position : Nat} {ops : List ReaderOp} {results : List ReaderResult}
    (rest : Plays contents position ops results) :
    Plays contents position (.cancel :: ops) (.done :: results)

private theorem read_guard (r : FileReader) (looks : Looks) (outLen : Nat) :
    (r.read looks outLen).2.guard = r.guard := by
  rw [read]
  split
  · rfl
  split
  · rfl
  split
  · rfl
  split
  · rfl
  split <;> rfl

private theorem seek_cases (r : FileReader) (goal : SeekFrom) :
    (∃ error, r.seek goal = (.error error, r)) ∨
      ∃ next : Nat, target r.len r.position goal = next ∧
        r.seek goal = (.ok next, { r with position := next }) := by
  rw [seek]
  split
  · exact .inl ⟨_, rfl⟩
  simp only
  split
  · next hinside =>
    refine .inr ⟨(target r.len r.position goal).toNat, (Int.toNat_of_nonneg hinside.1).symm, rfl⟩
  · exact .inl ⟨_, rfl⟩

/-- The induction is on the history, with the cache of the reader as the invariant. -/
theorem plays_run {ops : List ReaderOp} (h : Caches contents r)
    (hnoticed : ∀ looks outLen, .read looks outLen ∈ ops → Noticed r.guard contents looks) :
    Plays contents r.position ops (r.run ops) := by
  induction ops generalizing r with
  | nil => exact .nil
  | cons op ops ih =>
    have hrest : ∀ looks outLen, .read looks outLen ∈ ops → Noticed r.guard contents looks :=
      fun looks outLen hmem ↦ hnoticed looks outLen (List.mem_cons_of_mem _ hmem)
    rw [run]
    cases op with
    | read looks outLen =>
      have hlooks : Noticed r.guard contents looks := hnoticed looks outLen List.mem_cons_self
      obtain ⟨hcaches, hresult⟩ := @read_spec contents r h looks outLen hlooks
      have hplays := ih hcaches (by rw [read_guard]; exact hrest)
      rw [apply]
      rcases hresult with ⟨error, hok, hposition⟩ | ⟨bytes, hok, hposition, hreads⟩
      · rw [hposition] at hplays
        rw [hok]
        exact .readFailed hplays
      · rw [hposition] at hplays
        rw [hok]
        exact .read hreads hplays
    | seek goal =>
      rw [apply]
      rcases r.seek_cases goal with ⟨error, heq⟩ | ⟨next, hthere, heq⟩
      · rw [heq]
        exact .seekFailed (ih h hrest)
      · rw [heq]
        have hnext : Caches contents { r with position := next } :=
          ⟨h.len, h.bounded, h.inside, h.cache⟩
        exact .seek (h.len ▸ hthere) (ih hnext hrest)
    | cancel =>
      have hnext : Caches contents { r with cancelled := true } :=
        ⟨h.len, h.bounded, h.inside, h.cache⟩
      exact .cancel (ih hnext hrest)

/-- Reads of something up to the first that gives nothing give all that was left. -/
theorem Plays.flatten {position : Nat} {ops : List ReaderOp} {results : List ReaderResult}
    (h : Plays contents position ops results) {chunks : List (List UInt8)}
    (hops : ∀ op ∈ ops, ∃ looks outLen, op = .read looks outLen ∧ 0 < outLen)
    (hresults : results = (chunks ++ [[]]).map (ReaderResult.bytes ∘ Except.ok)) :
    chunks.flatten = contents.drop position := by
  induction h generalizing chunks with
  | nil => simp at hresults
  | @read position looks outLen bytes ops results reads rest ih =>
    have hrest : ∀ op ∈ ops, ∃ looks outLen, op = .read looks outLen ∧ 0 < outLen :=
      fun op hop ↦ hops op (List.mem_cons_of_mem _ hop)
    obtain ⟨_, _, heq, hpositive⟩ := hops _ List.mem_cons_self
    cases heq
    cases chunks with
    | nil =>
      simp only [List.nil_append, List.map_singleton, Function.comp_apply, List.cons.injEq,
        ReaderResult.bytes.injEq, Except.ok.injEq] at hresults
      have hend := (reads.ends.mp hresults.1).resolve_left (Nat.ne_of_gt hpositive)
      rw [List.flatten_nil, List.drop_eq_nil_of_le hend]
    | cons chunk chunks =>
      simp only [List.cons_append, List.map_cons, Function.comp_apply, List.cons.injEq,
        ReaderResult.bytes.injEq, Except.ok.injEq] at hresults
      obtain ⟨hchunk, hlater⟩ := hresults
      subst hchunk
      rw [List.flatten_cons, ih hrest hlater, ← List.drop_drop]
      have happend := List.take_append_drop bytes.length (contents.drop position)
      rwa [← reads.slice] at happend
  | readFailed rest ih =>
    cases chunks <;> simp at hresults
  | seek | seekFailed | cancel =>
    obtain ⟨_, _, heq, -⟩ := hops _ List.mem_cons_self
    cases heq

private theorem openGuard_len {file : OpenFile} {revision : String} {len : Nat}
    {changes : SourceChanges}
    (h : SourceGuard.openGuard file revision len changes = .ok guard) :
    file.bytes.length = guard.len := by
  cases changes with
  | refused =>
    rw [SourceGuard.openGuard] at h
    split at h
    · next hsame =>
      rw [← Except.ok.inj h]
      exact hsame.1
    · cases h
  | appended =>
    rw [SourceGuard.openGuard] at h
    split at h
    · cases h
    · cases htail : SourceGuard.logTail file file.bytes.length with
      | error error =>
        rw [htail] at h
        cases h
      | ok tail =>
        rw [htail] at h
        rw [← Except.ok.inj h]

/-- Whatever is read and sought, the reader with its cache gives what a plain cursor over the file
as it was opened gives; and reads up to the end give the whole file. -/
theorem reader_plays {file : OpenFile} {revision : String} {len : Nat} {changes : SourceChanges}
    {guard : SourceGuard} {ops : List ReaderOp}
    (hopen : SourceGuard.openGuard file revision len changes = .ok guard)
    (hfits : file.bytes.length ≤ maxPosition)
    (hnoticed : ∀ looks outLen, .read looks outLen ∈ ops → Noticed guard file.bytes looks) :
    Plays file.bytes 0 ops ((ofGuard guard).run ops) ∧
      ∀ chunks, (∀ op ∈ ops, ∃ looks outLen, op = .read looks outLen ∧ 0 < outLen) →
        (ofGuard guard).run ops = (chunks ++ [[]]).map (ReaderResult.bytes ∘ Except.ok) →
        chunks.flatten = file.bytes := by
  have hlen := openGuard_len hopen
  have hplays : Plays file.bytes 0 ops ((ofGuard guard).run ops) :=
    plays_run (caches_ofGuard hlen (hlen ▸ hfits)) hnoticed
  refine ⟨hplays, fun chunks hops hresults ↦ ?_⟩
  rw [hplays.flatten hops hresults, List.drop_zero]

/-- A file of five bytes. -/
def sampleFile : OpenFile := ⟨[1, 2, 3, 4, 5], "r"⟩

/-- Three reads of a file that does not change. -/
def sampleOps : List ReaderOp :=
  List.replicate 3 (.read ⟨sampleFile, sampleFile, sampleFile, sampleFile⟩ 3)

/-- A file that is read in two parts. -/
theorem reader_plays_sample :
    ([[1, 2, 3], [4, 5]] : List (List UInt8)).flatten = sampleFile.bytes := by
  have hopen : SourceGuard.openGuard sampleFile "r" 5 .refused = .ok ⟨"r", 5, .refused, []⟩ := rfl
  have hnoticed : ∀ looks outLen, .read looks outLen ∈ sampleOps →
      Noticed ⟨"r", 5, .refused, []⟩ sampleFile.bytes looks := by
    intro looks outLen hmem
    obtain ⟨rfl, -⟩ := ReaderOp.read.inj (List.eq_of_mem_replicate hmem)
    exact fun _ _ ↦ rfl
  have hops : ∀ op ∈ sampleOps, ∃ looks outLen, op = .read looks outLen ∧ 0 < outLen :=
    fun op hop ↦ ⟨_, 3, List.eq_of_mem_replicate hop, Nat.succ_pos 2⟩
  exact (reader_plays hopen (by decide) hnoticed).2 [[1, 2, 3], [4, 5]] hops rfl

end FileReader
end Bootty.Host
