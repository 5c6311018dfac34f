import Bootty.Base.Machine
import Bootty.Control.Subscriptions

/-!
# Detached commands

Model of the tasks of `ControlState` (`crates/bootty-control/src/state.rs:94–164`), of the cell in
which the parties of a command agree whether it starts
(`crates/bootty-control/src/command/cancellation.rs:9–47`), and of the threads that start and finish
tasks (`crates/bootty-control/src/server.rs:377–424`). The table is behind a lock and the cell is
atomic, so each of their methods is one step. Outcomes are of any type, and a cell is known by a
number.
-/

namespace Bootty.Control

open Bootty.Base

/-- `MAX_TASKS`. -/
def maxTasks : Nat := 64

/-- `CommandCancellation`, as the value of its cell. -/
inductive CommandCancellation where
  | pending
  | started
  | cancelled
  deriving DecidableEq, Repr

namespace CommandCancellation

/-- The result, and the cell after it. -/
def cancel : CommandCancellation → Bool × CommandCancellation
  | .pending => (true, .cancelled)
  | cell => (false, cell)

/-- `try_start`. -/
def tryStart : CommandCancellation → Bool × CommandCancellation
  | .pending => (true, .started)
  | cell => (false, cell)

end CommandCancellation

/-- `TaskState`. -/
inductive TaskState (O : Type) where
  | running
  | cancelling
  | completed (outcome : O)
  deriving DecidableEq, Repr

/-- `TaskRecord`. -/
structure TaskRecord (O : Type) where
  ownerPid : Nat
  cancellation : Nat
  state : TaskState O
  deriving DecidableEq, Repr

/-- The fields `tasks` and `completed_tasks` of `ControlState`. -/
structure TaskTable (O : Type) where
  tasks : Std.ExtTreeMap String (TaskRecord O)
  completed : List String

variable {O : Type}

/-- The task has an outcome. -/
def TaskRecord.Done (record : TaskRecord O) : Prop := ∃ outcome, record.state = .completed outcome

/-- Whether a task is done is decidable. -/
instance (record : TaskRecord O) : Decidable record.Done :=
  match h : record.state with
  | .completed outcome => isTrue ⟨outcome, h⟩
  | .running | .cancelling => isFalse (by rintro ⟨_, h'⟩; rw [h] at h'; cases h')

/-- What `cancel_all_tasks` does to the state of a task. -/
def TaskRecord.cancelled (record : TaskRecord O) : TaskRecord O :=
  match record.state with
  | .running => { record with state := .cancelling }
  | _ => record

namespace TaskTable

/-- The loop of `state.rs:99–104`, and whether it ends with room for a task. -/
def makeRoom (tasks : Std.ExtTreeMap String (TaskRecord O)) :
    (completed : List String) → Bool × TaskTable O
  | [] => (tasks.size < maxTasks, ⟨tasks, []⟩)
  | task :: rest =>
    if maxTasks ≤ tasks.size then makeRoom (tasks.erase task) rest
    else (true, ⟨tasks, task :: rest⟩)

/-- `state.rs:94–115`. -/
def startTask (table : TaskTable O) (ownerPid cancellation : Nat) (random : RandomIds) :
    Except RpcError String × TaskTable O :=
  let (room, table) := makeRoom table.tasks table.completed
  if !room then (.error ⟨-32001, "task limit reached", none⟩, table)
  else
    match random.ids.find? fun id ↦ !table.tasks.contains id with
    | none => (.error ⟨-32603, "generate capability ID: " ++ random.failure, none⟩, table)
    | some id =>
      (.ok id, { table with tasks := table.tasks.insert id ⟨ownerPid, cancellation, .running⟩ })

/-- A task with this cell is running. -/
def running (table : TaskTable O) (cell : Nat) : Bool :=
  table.tasks.toList.any fun entry ↦
    entry.2.cancellation == cell && entry.2.state matches .running

/-- `remove_task`. -/
def removeTask (table : TaskTable O) (task : String) : TaskTable O :=
  { table with tasks := table.tasks.erase task }

/-- `state.rs:121–129`. -/
def finishTask (table : TaskTable O) (task : String) (outcome : O) : TaskTable O :=
  match table.tasks[task]? with
  | none => table
  | some record =>
    if record.Done then table
    else
      ⟨table.tasks.insert task { record with state := .completed outcome },
        table.completed ++ [task]⟩

end TaskTable

/-- The table, the cells of the commands, and the threads that have put a task in the table: those
that have not submitted its command yet, and those that wait for its outcome. The last field is
not in the code: whether all tasks have been cancelled for a shutdown. -/
structure TaskServer (O : Type) where
  table : TaskTable O
  cells : Nat → CommandCancellation
  nextCell : Nat
  starting : List (String × Nat)
  waiting : List (String × Nat)
  shutdown : Bool

/-- What clients and tasks do. -/
inductive TaskEvent (O : Type) where
  | start (ownerPid : Nat) (random : RandomIds)
  /-- The queue of the application takes the command, or does not. -/
  | enqueued (task : String) (cell : Nat)
  | refused (task : String) (cell : Nat)
  /-- The thread that waits has an outcome, or could not be started. -/
  | finish (task : String) (cell : Nat) (outcome : O)
  | cancel (task : String)
  | cancelAll
  /-- A party of a command cancels it or starts it. -/
  | cancelCell (cell : Nat)
  | tryStart (cell : Nat)

namespace TaskServer

/-- A task is told to stop. -/
def cancelCell (s : TaskServer O) (cell : Nat) : TaskServer O :=
  { s with cells := Function.update s.cells cell (s.cells cell).cancel.2 }

/-- `cancel_task`, `state.rs:145–154`. -/
def cancelTask (s : TaskServer O) (task : String) : TaskServer O :=
  match s.table.tasks[task]? with
  | some ⟨ownerPid, cell, .running⟩ =>
    if (s.cells cell).cancel.1 then
      { s.cancelCell cell with
        table := { s.table with
          tasks := s.table.tasks.insert task ⟨ownerPid, cell, .cancelling⟩ } }
    else s
  | _ => s

/-- `cancel_all_tasks`, `state.rs:156–163`: the cells of the running tasks are cancelled unless
they have been started. -/
def cancelAllTasks (s : TaskServer O) : TaskServer O :=
  { s with
    table := { s.table with tasks := s.table.tasks.map fun _ record ↦ record.cancelled }
    cells := fun cell ↦
      if s.table.running cell then (s.cells cell).cancel.2 else s.cells cell
    shutdown := true }

/-- One event, where it can happen. -/
def step (s : TaskServer O) : TaskEvent O → Option (TaskServer O)
  | .start ownerPid random =>
    match s.table.startTask ownerPid s.nextCell random with
    | (.ok task, table) =>
      some { s with
        table
        cells := Function.update s.cells s.nextCell .pending
        nextCell := s.nextCell + 1
        starting := s.starting ++ [(task, s.nextCell)] }
    | (.error _, table) => some { s with table }
  | .enqueued task cell =>
    if (task, cell) ∈ s.starting then
      some { s with
        starting := s.starting.erase (task, cell), waiting := s.waiting ++ [(task, cell)] }
    else none
  | .refused task cell =>
    if (task, cell) ∈ s.starting then
      some { s with
        starting := s.starting.erase (task, cell), table := s.table.removeTask task }
    else none
  | .finish task cell outcome =>
    if (task, cell) ∈ s.waiting then
      some { s with
        waiting := s.waiting.erase (task, cell), table := s.table.finishTask task outcome }
    else none
  | .cancel task => some (s.cancelTask task)
  | .cancelAll => some s.cancelAllTasks
  | .cancelCell cell => some (s.cancelCell cell)
  | .tryStart cell =>
    some { s with cells := Function.update s.cells cell (s.cells cell).tryStart.2 }

/-- No task has been started. -/
def new : TaskServer O := ⟨⟨∅, []⟩, fun _ ↦ .pending, 0, [], [], false⟩

end TaskServer

/-! ### The table -/

namespace TaskRecord

variable {record : TaskRecord O}

private theorem not_done_running {ownerPid cell : Nat} :
    ¬Done (⟨ownerPid, cell, .running⟩ : TaskRecord O) := by
  rintro ⟨outcome, h⟩
  cases h

@[simp] theorem cancelled_cancellation : record.cancelled.cancellation = record.cancellation := by
  rw [cancelled]
  split <;> rfl

@[simp] theorem cancelled_ownerPid : record.cancelled.ownerPid = record.ownerPid := by
  rw [cancelled]
  split <;> rfl

private theorem cancelled_of_done (h : record.Done) : record.cancelled = record := by
  obtain ⟨outcome, hstate⟩ := h
  rw [cancelled, hstate]

@[simp] theorem done_cancelled : record.cancelled.Done ↔ record.Done := by
  constructor
  · rintro ⟨outcome, h⟩
    rw [cancelled] at h
    split at h
    · cases h
    · exact ⟨outcome, h⟩
  · intro h
    rwa [cancelled_of_done h]

end TaskRecord

variable {R : Type}

private theorem lookup_insert (tasks : Std.ExtTreeMap String R) (task : String) (record : R)
    (id : String) :
    (tasks.insert task record)[id]? = if task = id then some record else tasks[id]? := by
  simp [Std.ExtTreeMap.getElem?_insert]

private theorem lookup_erase (tasks : Std.ExtTreeMap String R) (task id : String) :
    (tasks.erase task)[id]? = if task = id then none else tasks[id]? := by
  simp [Std.ExtTreeMap.getElem?_erase]

variable {task : String}

private theorem contains_of_lookup {tasks : Std.ExtTreeMap String R} {record : R}
    (h : tasks[task]? = some record) : tasks.contains task = true := by
  rw [Std.ExtTreeMap.contains_eq_isSome_getElem?, h]
  rfl

/-- The table is bounded, and lists exactly the tasks that are done. -/
structure TaskTable.Ok (table : TaskTable O) : Prop where
  size : table.tasks.size ≤ maxTasks
  completed : ∀ task, task ∈ table.completed ↔
    ∃ record, table.tasks[task]? = some record ∧ record.Done
  nodup : table.completed.Nodup

namespace TaskTable.Ok

variable {table : TaskTable O}

private theorem evict (h : table.Ok) {rest : List String}
    (hcompleted : table.completed = task :: rest) :
    Ok ⟨table.tasks.erase task, rest⟩ := by
  have hnodup := h.nodup
  rw [hcompleted, List.nodup_cons] at hnodup
  constructor
  · exact Std.ExtTreeMap.size_erase_le.trans h.size
  · intro id
    have hid := h.completed id
    rw [hcompleted, List.mem_cons] at hid
    simp only [lookup_erase]
    by_cases hsame : task = id
    · simp [← hsame, hnodup.1]
    · rw [if_neg hsame, ← hid]
      exact ⟨.inr, fun hmem ↦ hmem.resolve_left (Ne.symm hsame)⟩
  · exact hnodup.2

/-- Only one task has to go, and only the task that was done first goes. -/
theorem makeRoom_cases (h : table.Ok) :
    (table.tasks.size < maxTasks ∧ makeRoom table.tasks table.completed = (true, table)) ∨
    (table.tasks.size = maxTasks ∧ table.completed = [] ∧
      makeRoom table.tasks table.completed = (false, table)) ∨
    ∃ task rest, table.tasks.size = maxTasks ∧ table.completed = task :: rest ∧
      (table.tasks.erase task).size < maxTasks ∧
      makeRoom table.tasks table.completed = (true, ⟨table.tasks.erase task, rest⟩) := by
  cases hcompleted : table.completed with
  | nil =>
    have htable : (⟨table.tasks, []⟩ : TaskTable O) = table := by rw [← hcompleted]
    rw [makeRoom, htable]
    by_cases hroom : table.tasks.size < maxTasks
    · exact .inl ⟨hroom, by rw [decide_eq_true hroom]⟩
    · exact .inr (.inl ⟨Nat.le_antisymm h.size (Nat.le_of_not_lt hroom), rfl,
        by rw [decide_eq_false hroom]⟩)
  | cons task rest =>
    rw [makeRoom]
    by_cases hfull : maxTasks ≤ table.tasks.size
    · obtain ⟨record, hrecord, -⟩ :=
        (h.completed task).mp (hcompleted ▸ List.mem_cons_self)
      have hsize : (table.tasks.erase task).size < maxTasks := by
        rw [Std.ExtTreeMap.size_erase, if_pos (contains_of_lookup hrecord)]
        have := h.size
        have : 0 < maxTasks := by decide
        omega
      refine .inr (.inr ⟨task, rest, Nat.le_antisymm h.size hfull, rfl, hsize, ?_⟩)
      rw [if_pos hfull]
      cases rest with
      | nil => rw [makeRoom, decide_eq_true hsize]
      | cons next rest => rw [makeRoom, if_neg (Nat.not_le_of_lt hsize)]
    · rw [if_neg hfull, ← hcompleted]
      exact .inl ⟨Nat.lt_of_not_le hfull, rfl⟩

/-- A task that is not done comes in. -/
theorem insert (h : table.Ok) {record : TaskRecord O} (hroom : table.tasks.size < maxTasks)
    (hnew : table.tasks[task]? = none) (hdone : ¬record.Done) :
    Ok { table with tasks := table.tasks.insert task record } := by
  constructor
  · exact Std.ExtTreeMap.size_insert_le.trans hroom
  · intro id
    rw [h.completed id]
    simp only [lookup_insert]
    by_cases hsame : task = id
    · simp [← hsame, hnew, hdone]
    · rw [if_neg hsame]
  · exact h.nodup

/-- A task that is not done goes. -/
theorem removeTask (h : table.Ok) {record : TaskRecord O}
    (hrecord : table.tasks[task]? = some record) (hdone : ¬record.Done) :
    (table.removeTask task).Ok := by
  constructor
  · exact Std.ExtTreeMap.size_erase_le.trans h.size
  · intro id
    rw [TaskTable.removeTask, h.completed id]
    simp only [lookup_erase]
    by_cases hsame : task = id
    · simp [← hsame, hrecord, hdone]
    · rw [if_neg hsame]
  · exact h.nodup

/-- Tasks are cancelled. -/
theorem cancelled (h : table.Ok) {tasks : Std.ExtTreeMap String (TaskRecord O)}
    (hsize : tasks.size = table.tasks.size)
    (hrecords : ∀ id : String, tasks[id]? = table.tasks[id]? ∨
      tasks[id]? = table.tasks[id]?.map TaskRecord.cancelled) :
    Ok { table with tasks } := by
  constructor
  · exact hsize.trans_le h.size
  · intro id
    rw [h.completed id]
    rcases hrecords id with hsame | hchange
    · rw [hsame]
    · rw [hchange]
      cases table.tasks[id]? with
      | none => simp
      | some record => simp
  · exact h.nodup

private theorem finishTask_eq {record : TaskRecord O} (hrecord : table.tasks[task]? = some record)
    (hdone : ¬record.Done) (outcome : O) :
    table.finishTask task outcome =
      ⟨table.tasks.insert task { record with state := .completed outcome },
        table.completed ++ [task]⟩ := by
  rw [TaskTable.finishTask, hrecord]
  exact if_neg hdone

private theorem finishTask (h : table.Ok) {record : TaskRecord O}
    (hrecord : table.tasks[task]? = some record) (hdone : ¬record.Done) (outcome : O) :
    (table.finishTask task outcome).Ok := by
  have hnew : task ∉ table.completed := by
    rw [h.completed]
    rintro ⟨found, hfound, hnot⟩
    obtain rfl := Option.some.inj (hrecord.symm.trans hfound)
    exact hdone hnot
  rw [finishTask_eq hrecord hdone]
  constructor
  · rw [Std.ExtTreeMap.size_insert, if_pos (contains_of_lookup hrecord)]
    exact h.size
  · intro id
    rw [List.mem_append, List.mem_singleton, h.completed id]
    simp only [lookup_insert]
    by_cases hsame : task = id
    · rw [if_pos hsame]
      exact ⟨fun _ ↦ ⟨_, rfl, outcome, rfl⟩, fun _ ↦ .inr hsame.symm⟩
    · rw [if_neg hsame]
      exact ⟨fun hmem ↦ hmem.resolve_right (Ne.symm hsame), .inl⟩
  · rw [List.nodup_append]
    exact ⟨h.nodup, by simp, fun id hid other hother hsame ↦
      hnew (List.mem_singleton.mp hother ▸ hsame ▸ hid)⟩

end TaskTable.Ok

/-! ### The threads -/

/-- Each task that is not done has one thread, which has the task's cell. -/
structure TaskTable.Served (table : TaskTable O) (threads : List (String × Nat)) : Prop where
  mem : ∀ task cell, (task, cell) ∈ threads ↔
    ∃ record, table.tasks[task]? = some record ∧ record.cancellation = cell ∧ ¬record.Done
  nodup : threads.Nodup

namespace TaskTable.Served

variable {table : TaskTable O} {threads : List (String × Nat)}

private theorem perm {threads' : List (String × Nat)} (h : table.Served threads)
    (hperm : threads'.Perm threads) : table.Served threads' :=
  ⟨fun task cell ↦ hperm.mem_iff.trans (h.mem task cell), hperm.nodup_iff.mpr h.nodup⟩

/-- A done task has no thread. -/
theorem evict {record : TaskRecord O} {completed : List String} (h : table.Served threads)
    (hrecord : table.tasks[task]? = some record) (hdone : record.Done) :
    Served ⟨table.tasks.erase task, completed⟩ threads := by
  constructor
  · intro id cell
    rw [h.mem]
    simp only [lookup_erase]
    by_cases hsame : task = id
    · subst hsame
      simp [hrecord, hdone]
    · rw [if_neg hsame]
  · exact h.nodup

private theorem insert {cell : Nat} {record : TaskRecord O} (h : table.Served threads)
    (hnew : table.tasks[task]? = none) (hcell : record.cancellation = cell) (hdone : ¬record.Done) :
    Served { table with tasks := table.tasks.insert task record } (threads ++ [(task, cell)]) := by
  constructor
  · intro id cell'
    rw [List.mem_append, List.mem_singleton, Prod.mk.injEq, h.mem]
    simp only [lookup_insert]
    by_cases hsame : task = id
    · subst hsame
      simp [hnew, hcell, hdone, eq_comm]
    · rw [if_neg hsame]
      exact or_iff_left fun heq ↦ hsame heq.1.symm
  · rw [List.nodup_append]
    refine ⟨h.nodup, by simp, fun entry hentry other hother hsame ↦ ?_⟩
    obtain rfl := List.mem_singleton.mp hother
    subst hsame
    obtain ⟨found, hfound, -⟩ := (h.mem task cell).mp hentry
    rw [hnew] at hfound
    cases hfound

/-- The task of a thread leaves the unfinished tasks, and the thread ends. -/
theorem leave {cell : Nat} {table' : TaskTable O} (h : table.Served threads)
    (hmem : (task, cell) ∈ threads)
    (hgone : ∀ record, table'.tasks[task]? = some record → record.Done)
    (hother : ∀ id, task ≠ id → table'.tasks[id]? = table.tasks[id]?) :
    table'.Served (threads.erase (task, cell)) := by
  obtain ⟨record, hrecord, hcell, hdone⟩ := (h.mem task cell).mp hmem
  constructor
  · intro id cell'
    rw [h.nodup.mem_erase_iff, h.mem]
    by_cases hsame : task = id
    · subst hsame
      simp only [hrecord, Option.some.injEq]
      constructor
      · rintro ⟨hne, found, rfl, rfl, -⟩
        exact absurd (by rw [hcell]) hne
      · rintro ⟨found, hfound, -, hnot⟩
        exact absurd (hgone found hfound) hnot
    · rw [hother id hsame]
      exact and_iff_right fun heq ↦ hsame (Prod.ext_iff.mp heq).1.symm
  · exact h.nodup.erase _

/-- Tasks are cancelled. -/
theorem cancelled {table' : TaskTable O} (h : table.Served threads)
    (hrecords : ∀ id : String, table'.tasks[id]? = table.tasks[id]? ∨
      table'.tasks[id]? = table.tasks[id]?.map TaskRecord.cancelled) : table'.Served threads := by
  constructor
  · intro id cell
    rw [h.mem]
    rcases hrecords id with hsame | hchange
    · rw [hsame]
    · rw [hchange]
      cases table.tasks[id]? with
      | none => simp
      | some record => simp
  · exact h.nodup

end TaskTable.Served

/-! ### The cells -/

/-- No two tasks have the same cell, and the command of a cancelled task does not start any more. It
can have started before only if the tasks were cancelled for a shutdown. -/
structure TaskTable.Cells (table : TaskTable O) (cells : Nat → CommandCancellation)
    (nextCell : Nat) (shutdown : Bool) : Prop where
  fresh : ∀ (task : String) record, table.tasks[task]? = some record →
    record.cancellation < nextCell
  apart : ∀ (task task' : String) record record', table.tasks[task]? = some record →
    table.tasks[task']? = some record' → record.cancellation = record'.cancellation → task = task'
  cancelling : ∀ (task : String) record, table.tasks[task]? = some record →
    record.state = .cancelling → cells record.cancellation ≠ .pending ∧
      (shutdown = false → cells record.cancellation = .cancelled)

namespace TaskTable.Cells

variable {table table' : TaskTable O} {cells cells' : Nat → CommandCancellation} {nextCell : Nat}
  {shutdown shutdown' : Bool}

/-- A step that adds no task. -/
theorem keep (h : table.Cells cells nextCell shutdown)
    (hcells : ∀ cell, cells cell ≠ .pending → cells' cell = cells cell)
    (hshutdown : shutdown' = false → shutdown = false)
    (hrecords : ∀ (task : String) record', table'.tasks[task]? = some record' →
      ∃ record, table.tasks[task]? = some record ∧ record'.cancellation = record.cancellation ∧
        (record'.state = .cancelling → record.state = .cancelling ∨
          cells' record.cancellation ≠ .pending ∧
            (shutdown' = false → cells' record.cancellation = .cancelled))) :
    table'.Cells cells' nextCell shutdown' := by
  constructor
  · intro task record' hrecord'
    obtain ⟨record, hrecord, hcell, -⟩ := hrecords task record' hrecord'
    rw [hcell]
    exact h.fresh task record hrecord
  · intro task task' first second hfirst hsecond hsame
    obtain ⟨record, hrecord, hcell, -⟩ := hrecords task first hfirst
    obtain ⟨other, hother, hcell', -⟩ := hrecords task' second hsecond
    exact h.apart task task' record other hrecord hother (hcell ▸ hcell' ▸ hsame)
  · intro task record' hrecord' hstate
    obtain ⟨record, hrecord, hcell, hcancelling⟩ := hrecords task record' hrecord'
    rw [hcell]
    rcases hcancelling hstate with hbefore | hnow
    · obtain ⟨hsettled, hcancelled⟩ := h.cancelling task record hrecord hbefore
      rw [hcells _ hsettled]
      exact ⟨hsettled, fun hoff ↦ hcancelled (hshutdown hoff)⟩
    · exact hnow

/-- Fewer tasks. -/
theorem mono (h : table.Cells cells nextCell shutdown)
    (hrecords : ∀ (task : String) record, table'.tasks[task]? = some record →
      table.tasks[task]? = some record) : table'.Cells cells nextCell shutdown :=
  h.keep (fun _ _ ↦ rfl) id fun task record' hrecord' ↦
    ⟨record', hrecords task record' hrecord', rfl, .inl⟩

/-- A new task has a new cell. -/
theorem insert (h : table.Cells cells nextCell shutdown) {ownerPid : Nat} :
    Cells { table with tasks := table.tasks.insert task ⟨ownerPid, nextCell, .running⟩ }
      (Function.update cells nextCell .pending) (nextCell + 1) shutdown := by
  have hother : ∀ (id : String) record, table.tasks[id]? = some record →
      record.cancellation ≠ nextCell :=
    fun id record hrecord ↦ Nat.ne_of_lt (h.fresh id record hrecord)
  constructor
  · intro id record hrecord
    rw [lookup_insert] at hrecord
    by_cases hsame : task = id
    · rw [if_pos hsame] at hrecord
      cases hrecord
      exact Nat.lt_succ_self nextCell
    · rw [if_neg hsame] at hrecord
      exact Nat.lt_succ_of_lt (h.fresh id record hrecord)
  · intro id id' first second hfirst hsecond hcell
    rw [lookup_insert] at hfirst hsecond
    by_cases hid : task = id <;> by_cases hid' : task = id'
    · exact hid.symm.trans hid'
    · rw [if_pos hid] at hfirst
      rw [if_neg hid'] at hsecond
      cases hfirst
      exact absurd hcell.symm (hother id' second hsecond)
    · rw [if_neg hid] at hfirst
      rw [if_pos hid'] at hsecond
      cases hsecond
      exact absurd hcell (hother id first hfirst)
    · rw [if_neg hid] at hfirst
      rw [if_neg hid'] at hsecond
      exact h.apart id id' first second hfirst hsecond hcell
  · intro id record hrecord hstate
    rw [lookup_insert] at hrecord
    by_cases hsame : task = id
    · rw [if_pos hsame] at hrecord
      cases hrecord
      cases hstate
    · rw [if_neg hsame] at hrecord
      rw [Function.update_of_ne (hother id record hrecord)]
      exact h.cancelling id record hrecord hstate

end TaskTable.Cells

/-! ### A task is started -/

namespace TaskTable

variable {table : TaskTable O} {ownerPid cell : Nat} {random : RandomIds}

/-- The table once there is room: the task that was done first has gone, if there was no room. -/
structure Roomy (table room : TaskTable O) : Prop where
  size : room.tasks.size < maxTasks
  before : table.tasks.size < maxTasks ∨ table.completed ≠ []
  kept : ∀ (id : String) record, table.tasks[id]? = some record →
    room.tasks[id]? = some record ∨
      record.Done ∧ table.tasks.size = maxTasks ∧ table.completed.head? = some id
  sub : ∀ (id : String) record, room.tasks[id]? = some record → table.tasks[id]? = some record

/-- What a request for a new task can do. -/
inductive Started (table : TaskTable O) (ownerPid cell : Nat) :
    Except RpcError String × TaskTable O → Prop
  | full (size : table.tasks.size = maxTasks) (completed : table.completed = []) :
    Started table ownerPid cell (.error ⟨-32001, "task limit reached", none⟩, table)
  | noId {room : TaskTable O} (roomy : Roomy table room) (ok : room.Ok)
    (served : ∀ {threads}, table.Served threads → room.Served threads) (message : String) :
    Started table ownerPid cell (.error ⟨-32603, message, none⟩, room)
  | started {room : TaskTable O} (roomy : Roomy table room) (ok : room.Ok)
    (served : ∀ {threads}, table.Served threads → room.Served threads) {task : String}
    (unused : room.tasks[task]? = none) :
    Started table ownerPid cell
      (.ok task, { room with tasks := room.tasks.insert task ⟨ownerPid, cell, .running⟩ })

private theorem Ok.started (h : table.Ok) :
    Started table ownerPid cell (table.startTask ownerPid cell random) := by
  have hid : ∀ {room : TaskTable O}, makeRoom table.tasks table.completed = (true, room) →
      Roomy table room → room.Ok → (∀ {threads}, table.Served threads → room.Served threads) →
      Started table ownerPid cell (table.startTask ownerPid cell random) := by
    intro room hroom hroomy hok hserved
    simp only [startTask, hroom, Bool.not_true, Bool.false_eq_true, if_false]
    cases hfind : random.ids.find? fun id ↦ !room.tasks.contains id with
    | none => exact .noId hroomy hok hserved _
    | some task =>
      refine .started hroomy hok hserved ?_
      have hunused := List.find?_some hfind
      rw [Bool.not_eq_true', Std.ExtTreeMap.contains_eq_isSome_getElem?,
        Option.isSome_eq_false_iff, Option.isNone_iff_eq_none] at hunused
      exact hunused
  rcases h.makeRoom_cases with ⟨hsize, hroom⟩ | ⟨hsize, hcompleted, hroom⟩ |
      ⟨oldest, rest, hsize, hcompleted, hless, hroom⟩
  · exact hid hroom ⟨hsize, .inl hsize, fun _ _ hrecord ↦ .inl hrecord,
      fun _ _ hrecord ↦ hrecord⟩ h id
  · simp only [startTask, hroom, Bool.not_false, if_true]
    exact .full hsize hcompleted
  · obtain ⟨record, hrecord, hdone⟩ := (h.completed oldest).mp (hcompleted ▸ List.mem_cons_self)
    have hsome : table.completed ≠ [] := by
      rw [hcompleted]
      exact List.cons_ne_nil oldest rest
    refine hid hroom ⟨hless, .inr hsome, fun id found hfound ↦ ?_, fun id found hfound ↦ ?_⟩
      (h.evict hcompleted) fun hserved ↦ hserved.evict hrecord hdone
    · simp only [lookup_erase]
      by_cases hsame : oldest = id
      · subst hsame
        obtain rfl := Option.some.inj (hrecord.symm.trans hfound)
        exact .inr ⟨hdone, hsize, by rw [hcompleted]; rfl⟩
      · exact .inl (by rwa [if_neg hsame])
    · simp only [lookup_erase] at hfound
      by_cases hsame : oldest = id
      · rw [if_pos hsame] at hfound
        cases hfound
      · rwa [if_neg hsame] at hfound

/-- A task is refused for want of room exactly when the table is full of tasks that are not done. -/
theorem Ok.startTask_eq_limit (h : table.Ok) :
    (table.startTask ownerPid cell random).1 = .error ⟨-32001, "task limit reached", none⟩ ↔
      table.tasks.size = maxTasks ∧
        ∀ (task : String) record, table.tasks[task]? = some record → ¬record.Done := by
  have hnone : table.completed = [] ↔
      ∀ (task : String) record, table.tasks[task]? = some record → ¬record.Done := by
    rw [List.eq_nil_iff_forall_not_mem]
    refine forall_congr' fun task ↦ ?_
    rw [h.completed]
    simp only [not_exists, not_and]
  rw [← hnone]
  have hstarted : Started table ownerPid cell (table.startTask ownerPid cell random) := h.started
  generalize table.startTask ownerPid cell random = result at hstarted ⊢
  have hroomy : ∀ {room}, Roomy table room →
      ¬(table.tasks.size = maxTasks ∧ table.completed = []) :=
    fun hroom hfull ↦ hroom.before.elim (Nat.ne_of_lt · hfull.1) (· hfull.2)
  cases hstarted with
  | full size completed => exact iff_of_true rfl ⟨size, completed⟩
  | noId roomy ok served message => exact iff_of_false (by simp) (hroomy roomy)
  | started roomy ok served unused => exact iff_of_false (by simp) (hroomy roomy)

end TaskTable

/-! ### The server -/

namespace TaskServer

variable {s s' : TaskServer O}

/-- The threads that have put a task in the table. -/
def threads (s : TaskServer O) : List (String × Nat) := s.starting ++ s.waiting

/-- What every event keeps. -/
structure Sound (s : TaskServer O) : Prop where
  table : s.table.Ok
  served : s.table.Served s.threads
  cells : s.table.Cells s.cells s.nextCell s.shutdown

/-- What a step does to the tasks of the table: an outcome stays until it is the oldest in a full
table and a new task needs room, and a task that is not done stays as it is until its own thread
gives it up or records its outcome. -/
structure KeepsTasks (s : TaskServer O) (e : TaskEvent O) (s' : TaskServer O) : Prop where
  done : ∀ (task : String) record, s.table.tasks[task]? = some record → record.Done →
    s'.table.tasks[task]? = some record ∨
      s.table.tasks.size = maxTasks ∧ s.table.completed.head? = some task ∧
        ∃ ownerPid random, e = .start ownerPid random
  unfinished : ∀ (task : String) record, s.table.tasks[task]? = some record → ¬record.Done →
    e = .refused task record.cancellation ∧ s'.table.tasks[task]? = none ∨
      ∃ record', s'.table.tasks[task]? = some record' ∧ record'.ownerPid = record.ownerPid ∧
        record'.cancellation = record.cancellation ∧
        ∀ outcome, record'.state = .completed outcome →
          e = .finish task record.cancellation outcome
  finish : ∀ task cell outcome, e = .finish task cell outcome → ∃ record,
    s.table.tasks[task]? = some record ∧ record.cancellation = cell ∧
      s'.table.tasks[task]? = some { record with state := .completed outcome }

/-- A cell that is settled stays so. -/
theorem cancel_of_ne {cell : CommandCancellation} (h : cell ≠ .pending) : cell.cancel.2 = cell := by
  cases cell with
  | pending => exact absurd rfl h
  | started | cancelled => rfl

theorem cancel_settled (cell : CommandCancellation) : cell.cancel.2 ≠ .pending := by
  cases cell <;> simp [CommandCancellation.cancel]

theorem tryStart_of_ne {cell : CommandCancellation} (h : cell ≠ .pending) :
    cell.tryStart.2 = cell := by
  cases cell with
  | pending => exact absurd rfl h
  | started | cancelled => rfl

/-- A cell is written with what a method leaves, which keeps what is settled. -/
theorem update_of_settled {cells : Nat → CommandCancellation} {cell : Nat}
    {next : CommandCancellation} (hnext : cells cell ≠ .pending → next = cells cell) (other : Nat)
    (h : cells other ≠ .pending) : Function.update cells cell next other = cells other := by
  by_cases hsame : other = cell
  · subst hsame
    rw [Function.update_self, hnext h]
  · rw [Function.update_of_ne hsame]

private theorem cancelTask_cases (s : TaskServer O) (task : String) :
    s.cancelTask task = s ∨ ∃ ownerPid cell,
      s.table.tasks[task]? = some ⟨ownerPid, cell, .running⟩ ∧ s.cells cell = .pending ∧
      s.cancelTask task =
        { s.cancelCell cell with
          table := { s.table with
            tasks := s.table.tasks.insert task ⟨ownerPid, cell, .cancelling⟩ } } := by
  rw [cancelTask]
  split
  · next ownerPid cell hrecord =>
    cases hcell : s.cells cell with
    | pending => exact .inr ⟨ownerPid, cell, hrecord, hcell, if_pos rfl⟩
    | started | cancelled => exact .inl (if_neg Bool.false_ne_true)
  · exact .inl rfl

private theorem cancelAllTasks_cells (s : TaskServer O) (cell : Nat) :
    s.cancelAllTasks.cells cell =
      if s.table.running cell then (s.cells cell).cancel.2 else s.cells cell :=
  rfl

/-- The tasks after a task is cancelled, or all are. -/
theorem cancelTask_lookup (s : TaskServer O) (task id : String) :
    (s.cancelTask task).table.tasks[id]? = s.table.tasks[id]? ∨
      (s.cancelTask task).table.tasks[id]? = s.table.tasks[id]?.map TaskRecord.cancelled := by
  rcases s.cancelTask_cases task with hsame | ⟨ownerPid, cell, hrecord, -, heq⟩
  · rw [hsame]
    exact .inl rfl
  · rw [heq]
    simp only [lookup_insert]
    by_cases hid : task = id
    · subst hid
      rw [if_pos rfl, hrecord]
      exact .inr rfl
    · rw [if_neg hid]
      exact .inl rfl

private theorem cancelAllTasks_lookup (s : TaskServer O) (id : String) :
    s.cancelAllTasks.table.tasks[id]? = s.table.tasks[id]?.map TaskRecord.cancelled := by
  rw [cancelAllTasks, Std.ExtTreeMap.getElem?_map]

private theorem KeepsTasks.cancelled {e : TaskEvent O}
    (he : ∀ task cell outcome, e ≠ .finish task cell outcome)
    (hrecords : ∀ id : String, s'.table.tasks[id]? = s.table.tasks[id]? ∨
      s'.table.tasks[id]? = s.table.tasks[id]?.map TaskRecord.cancelled) : s.KeepsTasks e s' := by
  constructor
  · intro task record hrecord hdone
    rcases hrecords task with hsame | hchange
    · exact .inl (hsame.trans hrecord)
    · rw [hchange, hrecord, Option.map_some, TaskRecord.cancelled_of_done hdone]
      exact .inl rfl
  · intro task record hrecord hdone
    refine .inr ?_
    rcases hrecords task with hsame | hchange
    · exact ⟨record, hsame.trans hrecord, rfl, rfl, fun outcome h ↦ absurd ⟨outcome, h⟩ hdone⟩
    · refine ⟨record.cancelled, by rw [hchange, hrecord]; rfl, by simp, by simp, ?_⟩
      exact fun outcome h ↦ absurd (TaskRecord.done_cancelled.mp ⟨outcome, h⟩) hdone
  · exact fun task cell outcome heq ↦ absurd heq (he task cell outcome)

/-- The task of a thread is given up, or has its outcome. -/
theorem KeepsTasks.leave {e : TaskEvent O} {cell : Nat} (hmem : (task, cell) ∈ s.threads)
    (h : s.Sound) (hother : ∀ id, task ≠ id → s'.table.tasks[id]? = s.table.tasks[id]?)
    (hself : ∀ record, s.table.tasks[task]? = some record →
      e = .refused task cell ∧ s'.table.tasks[task]? = none ∨
        ∃ outcome, e = .finish task cell outcome ∧
          s'.table.tasks[task]? = some { record with state := .completed outcome }) :
    s.KeepsTasks e s' := by
  obtain ⟨own, hown, rfl, hnot⟩ := (h.served.mem task cell).mp hmem
  constructor
  · intro id record hrecord hdone
    by_cases hsame : task = id
    · subst hsame
      obtain rfl := Option.some.inj (hown.symm.trans hrecord)
      exact absurd hdone hnot
    · exact .inl ((hother id hsame).trans hrecord)
  · intro id record hrecord hdone
    by_cases hsame : task = id
    · subst hsame
      obtain rfl := Option.some.inj (hown.symm.trans hrecord)
      rcases hself own hown with hrefused | ⟨outcome, he, hrecord'⟩
      · exact .inl hrefused
      · refine .inr ⟨_, hrecord', rfl, rfl, fun other hstate ↦ ?_⟩
        rw [he, TaskState.completed.inj hstate]
    · exact .inr ⟨record, (hother id hsame).trans hrecord, rfl, rfl,
        fun outcome hstate ↦ absurd ⟨outcome, hstate⟩ hdone⟩
  · intro id cell' outcome heq
    rcases hself own hown with ⟨he, -⟩ | ⟨found, he, hrecord'⟩
    · rw [he] at heq
      cases heq
    · rw [he] at heq
      cases heq
      exact ⟨own, hown, rfl, hrecord'⟩

/-- There is room for a task, which may come in. -/
theorem KeepsTasks.start {room : TaskTable O} {ownerPid : Nat} {random : RandomIds}
    (h : TaskTable.Roomy s.table room)
    (hrecords : ∀ (id : String) record, room.tasks[id]? = some record →
      s'.table.tasks[id]? = some record) : s.KeepsTasks (.start ownerPid random) s' := by
  constructor
  · intro task record hrecord hdone
    rcases h.kept task record hrecord with hkept | ⟨-, hsize, holdest⟩
    · exact .inl (hrecords task record hkept)
    · exact .inr ⟨hsize, holdest, ownerPid, random, rfl⟩
  · intro task record hrecord hdone
    rcases h.kept task record hrecord with hkept | ⟨hnot, -⟩
    · exact .inr ⟨record, hrecords task record hkept, rfl, rfl,
        fun outcome hstate ↦ absurd ⟨outcome, hstate⟩ hdone⟩
    · exact absurd hnot hdone
  · intro task cell outcome heq
    cases heq

/-! ### The steps -/

private theorem sound_new : Sound (new : TaskServer O) := by
  have hnone : ∀ task : String, (new : TaskServer O).table.tasks[task]? = none := fun task ↦ by
    simp [new]
  refine ⟨⟨?_, fun task ↦ ?_, List.nodup_nil⟩, ⟨fun task cell ↦ ?_, List.nodup_nil⟩, ?_, ?_, ?_⟩
  · simp [new]
  · simp [new]
  · simp [new, threads]
  · simp [hnone]
  · simp [hnone]
  · simp [hnone]

private theorem sound_start {ownerPid : Nat} {random : RandomIds} (h : s.Sound)
    (hstep : s.step (.start ownerPid random) = some s') :
    s'.Sound ∧ s.KeepsTasks (.start ownerPid random) s' := by
  have hstarted : TaskTable.Started s.table ownerPid s.nextCell
      (s.table.startTask ownerPid s.nextCell random) := h.table.started
  simp only [step] at hstep
  generalize s.table.startTask ownerPid s.nextCell random = result at hstarted hstep
  cases hstarted with
  | full size completed =>
    obtain rfl := Option.some.inj hstep
    exact ⟨h, .cancelled (by simp) fun _ ↦ .inl rfl⟩
  | noId roomy ok served message =>
    obtain rfl := Option.some.inj hstep
    exact ⟨⟨ok, served h.served, h.cells.mono roomy.sub⟩, .start roomy fun _ _ hrecord ↦ hrecord⟩
  | @started room roomy ok served task unused =>
    obtain rfl := Option.some.inj hstep
    refine ⟨⟨ok.insert roomy.size unused TaskRecord.not_done_running, ?_,
      (h.cells.mono roomy.sub).insert⟩, .start roomy fun id record hrecord ↦ ?_⟩
    · refine ((served h.served).insert unused rfl TaskRecord.not_done_running).perm ?_
      rw [threads, threads, List.append_assoc, List.append_assoc]
      exact List.perm_append_comm.append_left s.starting
    · simp only [lookup_insert]
      rw [if_neg]
      · exact hrecord
      · rintro rfl
        rw [unused] at hrecord
        cases hrecord

private theorem sound_enqueued {cell : Nat} (h : s.Sound)
    (hstep : s.step (.enqueued task cell) = some s') :
    s'.Sound ∧ s.KeepsTasks (.enqueued task cell) s' := by
  obtain ⟨hmem, heq⟩ := Option.ite_none_right_eq_some.mp hstep
  obtain rfl := Option.some.inj heq
  refine ⟨⟨h.table, h.served.perm ?_, h.cells⟩, .cancelled (by simp) fun _ ↦ .inl rfl⟩
  rw [threads, ← List.append_assoc, ← List.erase_append_left _ hmem]
  have hcons := List.perm_cons_erase (List.mem_append_left s.waiting hmem)
  exact (List.perm_append_singleton ..).trans hcons.symm

private theorem sound_refused {cell : Nat} (h : s.Sound)
    (hstep : s.step (.refused task cell) = some s') :
    s'.Sound ∧ s.KeepsTasks (.refused task cell) s' := by
  obtain ⟨hmem, heq⟩ := Option.ite_none_right_eq_some.mp hstep
  obtain rfl := Option.some.inj heq
  have hthread : (task, cell) ∈ s.threads := List.mem_append_left _ hmem
  obtain ⟨record, hrecord, hcell, hdone⟩ := (h.served.mem task cell).mp hthread
  have hself : (s.table.removeTask task).tasks[task]? = none := by
    rw [TaskTable.removeTask, lookup_erase, if_pos rfl]
  have hother : ∀ id : String, task ≠ id →
      (s.table.removeTask task).tasks[id]? = s.table.tasks[id]? := by
    intro id hne
    rw [TaskTable.removeTask, lookup_erase, if_neg hne]
  refine ⟨⟨h.table.removeTask hrecord hdone, ?_, h.cells.mono fun id found hfound ↦ ?_⟩,
    .leave hthread h hother fun _ _ ↦ .inl ⟨rfl, hself⟩⟩
  · rw [threads, ← List.erase_append_left _ hmem]
    refine h.served.leave hthread (fun found hfound ↦ ?_) hother
    rw [hself] at hfound
    cases hfound
  · by_cases hsame : task = id
    · subst hsame
      rw [hself] at hfound
      cases hfound
    · rwa [hother id hsame] at hfound

private theorem sound_finish {cell : Nat} {outcome : O} (h : s.Sound)
    (hstep : s.step (.finish task cell outcome) = some s') :
    s'.Sound ∧ s.KeepsTasks (.finish task cell outcome) s' := by
  obtain ⟨hmem, heq⟩ := Option.ite_none_right_eq_some.mp hstep
  obtain rfl := Option.some.inj heq
  have hthread : (task, cell) ∈ s.threads := List.mem_append_right _ hmem
  obtain ⟨record, hrecord, hcell, hdone⟩ := (h.served.mem task cell).mp hthread
  have hself : (s.table.finishTask task outcome).tasks[task]? =
      some { record with state := .completed outcome } := by
    rw [TaskTable.Ok.finishTask_eq hrecord hdone]
    exact (lookup_insert ..).trans (if_pos rfl)
  have hother : ∀ id : String, task ≠ id →
      (s.table.finishTask task outcome).tasks[id]? = s.table.tasks[id]? := by
    intro id hne
    rw [TaskTable.Ok.finishTask_eq hrecord hdone]
    exact (lookup_insert ..).trans (if_neg hne)
  refine ⟨⟨h.table.finishTask hrecord hdone outcome, ?_,
    h.cells.keep (fun _ _ ↦ rfl) id fun id found hfound ↦ ?_⟩,
    .leave hthread h hother fun own hown ↦ .inr ⟨outcome, rfl, ?_⟩⟩
  · have hnot : (task, cell) ∉ s.starting := fun hstarting ↦
      (List.nodup_append.mp h.served.nodup).2.2 _ hstarting _ hmem rfl
    rw [threads, ← List.erase_append_right _ hnot]
    refine h.served.leave hthread (fun found hfound ↦ ?_) hother
    rw [hself] at hfound
    obtain rfl := Option.some.inj hfound
    exact ⟨outcome, rfl⟩
  · by_cases hsame : task = id
    · subst hsame
      obtain rfl := Option.some.inj (hself.symm.trans hfound)
      exact ⟨record, hrecord, rfl, by simp⟩
    · exact ⟨found, (hother id hsame).symm.trans hfound, rfl, .inl⟩
  · obtain rfl := Option.some.inj (hrecord.symm.trans hown)
    exact hself

private theorem sound_cancelCell {cell : Nat} (h : s.Sound)
    (hstep : s.step (.cancelCell cell) = some s') :
    s'.Sound ∧ s.KeepsTasks (.cancelCell cell) s' := by
  obtain rfl := Option.some.inj hstep
  refine ⟨⟨h.table, h.served, ?_⟩, .cancelled (by simp) fun _ ↦ .inl rfl⟩
  exact h.cells.keep (update_of_settled cancel_of_ne) id fun task record hrecord ↦
    ⟨record, hrecord, rfl, .inl⟩

private theorem sound_tryStart {cell : Nat} (h : s.Sound)
    (hstep : s.step (.tryStart cell) = some s') :
    s'.Sound ∧ s.KeepsTasks (.tryStart cell) s' := by
  obtain rfl := Option.some.inj hstep
  refine ⟨⟨h.table, h.served, ?_⟩, .cancelled (by simp) fun _ ↦ .inl rfl⟩
  exact h.cells.keep (update_of_settled tryStart_of_ne) id fun task record hrecord ↦
    ⟨record, hrecord, rfl, .inl⟩

private theorem sound_cancel (h : s.Sound) (hstep : s.step (.cancel task) = some s') :
    s'.Sound ∧ s.KeepsTasks (.cancel task) s' := by
  obtain rfl := Option.some.inj hstep
  have hlookup := s.cancelTask_lookup task
  refine ⟨?_, .cancelled (by simp) hlookup⟩
  rcases s.cancelTask_cases task with hsame | ⟨ownerPid, cell, hrecord, hpending, heq⟩
  · rwa [hsame]
  rw [heq] at hlookup ⊢
  refine ⟨h.table.cancelled ?_ hlookup, h.served.cancelled hlookup,
    h.cells.keep (update_of_settled cancel_of_ne) id fun id record' hrecord' ↦ ?_⟩
  · rw [Std.ExtTreeMap.size_insert, if_pos (contains_of_lookup hrecord)]
  · simp only [lookup_insert] at hrecord'
    by_cases hsame : task = id
    · subst hsame
      rw [if_pos rfl] at hrecord'
      obtain rfl := Option.some.inj hrecord'
      refine ⟨_, hrecord, rfl, fun _ ↦ .inr ?_⟩
      simp [cancelCell, hpending, CommandCancellation.cancel]
    · rw [if_neg hsame] at hrecord'
      exact ⟨record', hrecord', rfl, .inl⟩

private theorem sound_cancelAll (h : s.Sound) (hstep : s.step .cancelAll = some s') :
    s'.Sound ∧ s.KeepsTasks .cancelAll s' := by
  obtain rfl := Option.some.inj hstep
  have hlookup := s.cancelAllTasks_lookup
  refine ⟨⟨h.table.cancelled Std.ExtTreeMap.size_map fun id ↦ .inr (hlookup id),
    h.served.cancelled fun id ↦ .inr (hlookup id),
    h.cells.keep (fun cell hcell ↦ ?_) (fun hoff ↦ ?_) fun id record' hrecord' ↦ ?_⟩,
    .cancelled (by simp) fun id ↦ .inr (hlookup id)⟩
  · rw [cancelAllTasks_cells]
    split
    · exact cancel_of_ne hcell
    · rfl
  · cases hoff
  · rw [hlookup] at hrecord'
    obtain ⟨record, hrecord, rfl⟩ := Option.map_eq_some_iff.mp hrecord'
    refine ⟨record, hrecord, by simp, fun hstate ↦ ?_⟩
    cases hbefore : record.state with
    | cancelling => exact .inl rfl
    | completed outcome =>
      rw [TaskRecord.cancelled_of_done ⟨outcome, hbefore⟩, hbefore] at hstate
      cases hstate
    | running =>
      refine .inr ⟨?_, fun hoff ↦ by cases hoff⟩
      rw [cancelAllTasks_cells, if_pos]
      · exact cancel_settled _
      · rw [TaskTable.running, List.any_eq_true]
        refine ⟨(id, record), Std.ExtTreeMap.mem_toList_iff_getElem?_eq_some.mpr hrecord, ?_⟩
        simp [hbefore]

/-- In every run the table is sound, and each step keeps the tasks; a task is refused for want of
room exactly when the table is full of tasks that are not done. -/
theorem task_table_sound (h : Reaches step anyStep new s) :
    s.Sound ∧ (∀ e s', s.step e = some s' → s.KeepsTasks e s') ∧
      ∀ ownerPid cell random,
        (s.table.startTask ownerPid cell random).1 = .error ⟨-32001, "task limit reached", none⟩ ↔
          s.table.tasks.size = maxTasks ∧
            ∀ (task : String) record, s.table.tasks[task]? = some record → ¬record.Done := by
  have hstep : ∀ (s : TaskServer O) e s', s.Sound → s.step e = some s' →
      s'.Sound ∧ s.KeepsTasks e s' := by
    intro s e s' h hstep
    cases e with
    | start => exact sound_start h hstep
    | enqueued => exact sound_enqueued h hstep
    | refused => exact sound_refused h hstep
    | finish => exact sound_finish h hstep
    | cancel => exact sound_cancel h hstep
    | cancelAll => exact sound_cancelAll h hstep
    | cancelCell => exact sound_cancelCell h hstep
    | tryStart => exact sound_tryStart h hstep
  have hsound : s.Sound := h.invariant sound_new fun s e s' h _ next ↦ (hstep s e s' h next).1
  exact ⟨hsound, fun e s' next ↦ (hstep s e s' hsound next).2,
    fun _ _ _ ↦ hsound.table.startTask_eq_limit⟩

/-- The first task is cancelled before its command starts, and its thread records that. -/
def sampleEvents : List (TaskEvent Nat) :=
  [.start 7 ⟨["a"], ""⟩, .enqueued "a" 0, .start 8 ⟨["a", "b"], ""⟩, .cancel "a", .tryStart 0,
    .finish "a" 0 1]

/-- A task ends while another one starts. -/
theorem task_table_sound_sample : ∃ s : TaskServer Nat,
    s.table.completed = ["a"] ∧ s.starting = [("b", 1)] ∧ s.Sound ∧
      ∀ e s', s.step e = some s' → s.KeepsTasks e s' := by
  have hrun : (runEvents step anyTest new sampleEvents).map
      (fun s ↦ s.table.completed == ["a"] && s.starting == [("b", 1)]) = some true := by
    decide +kernel
  obtain ⟨s, hreaches, hgoal⟩ := exists_reaches_anyStep hrun
  rw [Bool.and_eq_true, beq_iff_eq, beq_iff_eq] at hgoal
  obtain ⟨hsound, hkeeps, -⟩ := task_table_sound hreaches
  exact ⟨s, hgoal.1, hgoal.2, hsound, hkeeps⟩

end TaskServer
end Bootty.Control
