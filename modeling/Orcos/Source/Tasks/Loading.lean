import Mathlib.Logic.Function.Basic
import Orcos.Source.IDMap
import Orcos.Source.PagedRam.Ownership

/-!
# Loading tasks from files

Source: src/source/process/TaskManager.cc, `loadTaskFromFile` and `removeTask`;
src/source/process/Task.cc, `getIdOfNextCreatedTask` and the constructor of `Task`;
src/source/inc/Bitmap.hh, `getNextID`, `freeID`.

Any number of calls of `loadTaskFromFile` interleave between the steps they do on the map
of free ids, the page map and the list of tasks. The map of free ids has no lock, so that each
access to one of its words is a step, and so is each of the two sections of `alloc_physical`; a
call may also be one of `removeTask`. How reading and checking the file end is an input. The mapping of the image
and its arguments are left out. A task is known by its id.
-/
namespace Orcos.Source.Tasks
open PagedRam Lib.WordBits

/-- The cast to `TaskIdT`, which has eight bits. -/
def taskIdOf (id : Int) : Nat := (id % 2 ^ 8).toNat

/-- Where a call is, with its local `tid` and the id of the `Task` it made. In `getNextID` it is
at a word of the map, or about to clear a bit of the word that it has read; in `freeID` it is
about to set one. A removal is before `freeID`, or in it. It has found pages for the image or for a stack, which are not marked yet, where
it has `searched`. -/
inductive LoadPhase where
  | idle
  | drawing (i : Nat)
  | taking (i : Nat) (word : BitVec 32)
  | drawn (nextId : Nat)
  | giving (nextId : Nat) (word : BitVec 32)
  | chosen (tid : Nat)
  | searched (tid areaStart areaSize : Nat)
  | placed (tid : Nat)
  | loaded (tid : Nat)
  | valid (tid : Nat)
  | constructing (tid i : Nat)
  | naming (tid i : Nat) (word : BitVec 32)
  | created (tid id : Nat)
  | stackSearched (tid id areaStart areaSize : Nat)
  | equipped (tid id : Nat)
  | finished (tid id : Nat)
  | removing (tid : Nat)
  | leaving (tid : Nat) (word : BitVec 32)
  | failed (error : ErrorT)
  deriving DecidableEq

namespace LoadPhase

/-- The `tid` and the id of a `Task` that is not on the list yet. -/
def made : LoadPhase → Option (Nat × Nat)
  | .created tid id => some (tid, id)
  | .stackSearched tid id _ _ => some (tid, id)
  | .equipped tid id => some (tid, id)
  | _ => none

/-- The start and the size of the area that is still to be marked. -/
def area : LoadPhase → Option (Nat × Nat)
  | .searched _ areaStart areaSize => some (areaStart, areaSize)
  | .stackSearched _ _ areaStart areaSize => some (areaStart, areaSize)
  | _ => none

end LoadPhase

structure Loader (layout : Layout) where
  freeTaskIDs : IDMap
  pages : PageMap layout
  taskDatabase : List Nat
  calls : Nat → LoadPhase

variable {layout : Layout}

namespace Loader

inductive Op where
  | draw (call : Nat)
  | access (call : Nat)
  | allocate (call fileSize : Nat)
  | mark (call : Nat)
  | read (call : Nat) (error : ErrorT)
  | check (call : Nat) (error : ErrorT)
  | construct (call : Nat)
  | allocateStack (call : Nat)
  | announce (call : Nat)
  | remove (call tid : Nat)

variable (s : Loader layout) (call : Nat)

def setCall (phase : LoadPhase) : Loader layout :=
  { s with calls := Function.update s.calls call phase }

/-- `getIdOfNextCreatedTask` begins. -/
def draw : Loader layout :=
  match s.calls call with
  | .idle => s.setCall call (.drawing 0)
  | _ => s

def setWord (i : Nat) (word : BitVec 32) : Loader layout :=
  { s with freeTaskIDs := { s.freeTaskIDs with map := s.freeTaskIDs.map.set i word } }

/-- A round of the loop of `getNextID`: where the call goes with a word that has a free id, with
one that has none, and behind the last one. -/
def searchWord (i : Nat) (found : BitVec 32 → LoadPhase) (next last : LoadPhase) : LoadPhase :=
  match s.freeTaskIDs.map[i]? with
  | none => last
  | some word => if word.clz.toNat < 32 then found word else next

/-- The store of `getNextID`. -/
def takeID (i : Nat) (word : BitVec 32) : Loader layout :=
  s.setWord i (word &&& ~~~mask word.clz.toNat)

/-- Where the call goes with the word of an id that it gives back, and where with what is no id. -/
def freeWord (id : Nat) (found : BitVec 32 → LoadPhase) (last : LoadPhase) : LoadPhase :=
  if id < s.freeTaskIDs.ids then
    match s.freeTaskIDs.map[id / 32]? with
    | some word => found word
    | none => last
  else last

/-- The store of `freeID`. -/
def giveID (id : Nat) (word : BitVec 32) : Loader layout :=
  s.setWord (id / 32) (word ||| mask (id % 32))

/-- The test of the id that `getIdOfNextCreatedTask` returns. -/
def choice (nextId : Nat) : LoadPhase := if nextId = 0 then .failed cError else .chosen nextId

/-- The next access of a call to the map of free ids. -/
def access : Loader layout :=
  match s.calls call with
  | .drawing i =>
    s.setCall call (s.searchWord i (.taking i) (.drawing (i + 1)) (.drawn (taskIdOf (-1))))
  | .taking i word =>
    (s.takeID i word).setCall call (.drawn (taskIdOf (word.clz.toNat + i * 32 : Nat)))
  | .drawn nextId => s.setCall call (s.freeWord nextId (.giving nextId) (choice nextId))
  | .giving nextId word => (s.giveID nextId word).setCall call (choice nextId)
  | .constructing tid i =>
    s.setCall call (s.searchWord i (.naming tid i) (.constructing tid (i + 1))
      (.created tid (taskIdOf (-1))))
  | .naming tid i word =>
    (s.takeID i word).setCall call (.created tid (taskIdOf (word.clz.toNat + i * 32 : Nat)))
  | .removing tid => s.setCall call (s.freeWord tid (.leaving tid) .idle)
  | .leaving tid word => (s.giveID tid word).setCall call .idle
  | _ => s

/-- The memory for the file, up to the end of the first section of `alloc_physical`. -/
def allocate (taskSize : Nat) : Loader layout :=
  match s.calls call with
  | .chosen tid =>
    match searchPhysical s.pages taskSize tid with
    | .answered pages taskStart => { s with pages := pages }.setCall call
        (if taskStart = 0 then .failed cError else .placed tid)
    | .found areaStart areaSize => s.setCall call (.searched tid areaStart areaSize)
  | _ => s

/-- `markAsUsed` in `alloc_physical`. A call that it stops the kernel in stays where it is. -/
def mark : Loader layout :=
  match s.calls call with
  | .searched tid areaStart areaSize =>
    match markAsUsed s.pages areaStart (areaStart + areaSize) tid with
    | none => s
    | some pages => { s with pages := pages }.setCall call
        (if areaStart = 0 then .failed cError else .placed tid)
  | .stackSearched tid id areaStart areaSize =>
    match markAsUsed s.pages areaStart (areaStart + areaSize) id with
    | none => s
    | some pages => { s with pages := pages }.setCall call (.equipped tid id)
  | _ => s

/-- The file could not be read, or is no valid task: its pages are given back. -/
def abandon (tid : Nat) (error : ErrorT) : Loader layout :=
  { s with pages := freeAll s.pages tid }.setCall call (.failed error)

def read (error : ErrorT) : Loader layout :=
  match s.calls call with
  | .placed tid => if error < 0 then s.abandon call tid error else s.setCall call (.loaded tid)
  | _ => s

def check (error : ErrorT) : Loader layout :=
  match s.calls call with
  | .loaded tid => if error < 0 then s.abandon call tid error else s.setCall call (.valid tid)
  | _ => s

/-- `new Task(tt)` begins to draw the id. -/
def construct : Loader layout :=
  match s.calls call with
  | .valid tid => s.setCall call (.constructing tid 0)
  | _ => s

/-- The stack of the first thread, when there is memory for it, up to the end of the first section
of `alloc_physical`. -/
def allocateStack (stackSize : Nat) : Loader layout :=
  match s.calls call with
  | .created tid id =>
    match searchPhysical s.pages stackSize id with
    | .answered pages _ => { s with pages := pages }.setCall call (.equipped tid id)
    | .found areaStart areaSize => s.setCall call (.stackSearched tid id areaStart areaSize)
  | _ => s

/-- `addTail`. -/
def announce : Loader layout :=
  match s.calls call with
  | .equipped tid id =>
    { s with taskDatabase := s.taskDatabase ++ [id] }.setCall call (.finished tid id)
  | _ => s

/-- `removeTask`, up to the `freeID` of `terminate`: the task is live no longer. -/
def remove (tid : Nat) : Loader layout :=
  match s.calls call with
  | .idle =>
    if tid ∈ s.taskDatabase then
      { s with pages := freeAll s.pages tid, taskDatabase := s.taskDatabase.erase tid }.setCall call
        (.removing tid)
    else s
  | _ => s

def step (stackSize : Nat) : Op → Loader layout
  | .draw call => s.draw call
  | .access call => s.access call
  | .allocate call fileSize => s.allocate call (alignCeil fileSize 0x100000)
  | .mark call => s.mark call
  | .read call error => s.read call error
  | .check call error => s.check call error
  | .construct call => s.construct call
  | .allocateStack call => s.allocateStack call stackSize
  | .announce call => s.announce call
  | .remove call tid => s.remove call tid

end Loader

end Orcos.Source.Tasks

/-! ## The ids of tasks and threads

Source: src/source/process/Task.cc, the constructors of `Task`, `terminate`,
`getIdOfNextCreatedTask`; src/source/process/Thread.cc, the constructor of `Thread`,
`terminate`; src/source/process/TaskManager.cc, `removeTask`, `terminateThread`.

Objects are known by their places in the lists, since their ids may be equal. The two halves
of `getIdOfNextCreatedTask` are steps of their own, and `drawn` has the ids between them.
-/
namespace Orcos.Source.Tasks

/-- `MAX_NUM_TASKS`. -/
abbrev maxNumTasks : Nat := 16

/-- The size of `Thread::freeIDMap`. -/
abbrev maxNumThreads : Nat := 1024

/-- The conversion to `ThreadIdT`, which has sixteen bits. -/
def threadIdOf (id : Int) : Nat := (id % 2 ^ 16).toNat

/-- A task with the ids of its threads. -/
structure LiveTask where
  id : Nat
  threads : List Nat
  deriving DecidableEq

structure Ids where
  freeTaskIDs : IDMap
  freeIDMap : IDMap
  drawn : List Nat
  tasks : List LiveTask

/-- `freeID` with an id that is not negative. -/
def giveBackID (m : IDMap) (id : Nat) : IDMap := (m.freeID id).getD m

namespace Ids

/-- Nothing was created yet. `beyond` is the value of `1ul << 32`. -/
def start (beyond : BitVec 32) : Ids where
  freeTaskIDs := .fresh beyond maxNumTasks
  freeIDMap := .fresh beyond maxNumThreads
  drawn := []
  tasks := []

inductive Op where
  | createKernelTask
  | createTask
  | createThread (task : Nat)
  | terminateThread (task thread : Nat)
  | removeTask (task : Nat)
  | draw
  | giveBack (i : Nat)

variable (s : Ids)

/-- `Task::Task()`, which makes no thread. -/
def createKernelTask : Ids :=
  { s with
    freeTaskIDs := s.freeTaskIDs.getNextID.1
    tasks := s.tasks ++ [⟨taskIdOf s.freeTaskIDs.getNextID.2, []⟩] }

/-- The constructor of `Thread`, for the task at this place. -/
def createThread (task : Nat) : Ids :=
  match s.tasks[task]? with
  | none => s
  | some t => { s with
      freeIDMap := s.freeIDMap.getNextID.1
      tasks := s.tasks.set task
        { t with threads := t.threads ++ [threadIdOf s.freeIDMap.getNextID.2] } }

/-- `Task::Task(tasktbl)`, with the initial thread. -/
def createTask : Ids := s.createKernelTask.createThread s.tasks.length

/-- `removeTask`: `terminate` frees the ids of the threads that are left, then that of the
task. -/
def removeTask (task : Nat) : Ids :=
  match s.tasks[task]? with
  | none => s
  | some t => { s with
      freeIDMap := t.threads.foldl giveBackID s.freeIDMap
      freeTaskIDs := giveBackID s.freeTaskIDs t.id
      tasks := s.tasks.eraseIdx task }

/-- The thread at this place leaves its task. -/
def removeThread (task : Nat) (t : LiveTask) (thread id : Nat) : Ids :=
  { s with
    freeIDMap := giveBackID s.freeIDMap id
    tasks := s.tasks.set task { t with threads := t.threads.eraseIdx thread } }

/-- `terminateThread`: a task goes with its last thread. -/
def terminateThread (task thread : Nat) : Ids :=
  match s.tasks[task]? with
  | none => s
  | some t =>
    match t.threads[thread]? with
    | none => s
    | some id =>
      if t.threads.eraseIdx thread = [] then
        (s.removeThread task t thread id).removeTask task
      else s.removeThread task t thread id

/-- `getNextID` in `getIdOfNextCreatedTask`. -/
def draw : Ids :=
  { s with
    freeTaskIDs := s.freeTaskIDs.getNextID.1
    drawn := s.drawn ++ [taskIdOf s.freeTaskIDs.getNextID.2] }

/-- `freeID` in `getIdOfNextCreatedTask`. -/
def giveBack (i : Nat) : Ids :=
  match s.drawn[i]? with
  | none => s
  | some id =>
    { s with freeTaskIDs := giveBackID s.freeTaskIDs id, drawn := s.drawn.eraseIdx i }

def step : Op → Ids
  | .createKernelTask => s.createKernelTask
  | .createTask => s.createTask
  | .createThread task => s.createThread task
  | .terminateThread task thread => s.terminateThread task thread
  | .removeTask task => s.removeTask task
  | .draw => s.draw
  | .giveBack i => s.giveBack i

/-- The ids of the live tasks. -/
def taskIds : List Nat := s.tasks.map LiveTask.id

/-- The ids of the live threads. -/
def threadIds : List Nat := s.tasks.flatMap LiveTask.threads

end Ids

end Orcos.Source.Tasks
