import Orcos.Source.Files.Directory
import Orcos.Source.Hal.HatCalls
import Orcos.Source.PagedRam.Ownership
import Orcos.Source.Tasks.Images
import Orcos.Source.Tasks.Loading

/-!
# The image of a task that is loaded

Source: src/source/process/TaskManager.cc, `loadTaskFromFile`; src/source/inc/stringtools.cc,
`strncat`, `strncpy`.

One call, with all that it writes to the image and all that it maps. The id that it has drawn,
and what `readBytes` delivers and returns, are inputs, and so are the mappings that
`new Task(tt)` makes in the new address space for the stack of the first thread. The physical
memory is mapped 1:1, so that an address is the same in both.
-/
namespace Orcos.Source.Tasks
open Lib.ByteMemory Hal PagedRam

/-- `LOG_TASK_SPACE_START` is not 0. -/
structure LoadConfig where
  image : ImageConfig
  board : Platform
  logTaskSpaceStart : Nat
  real : logTaskSpaceStart ≠ 0

/-- The file: its size and name, the bytes that `readBytes` delivers, and what it returns. -/
structure TaskFile where
  fileSize : Nat
  name : List (BitVec 8)
  contents : List (BitVec 8)
  readBytes : ErrorT

/-- The kernel at the call; the arguments are absent when their pointer is null. -/
structure LoadRequest (layout : Layout) where
  pages : PageMap layout
  hat : HatLayer
  memory : Memory
  taskDatabase : List (Option TaskTable)
  tid : Nat
  currentTask : Nat
  file : TaskFile
  arguments : Option (List (BitVec 8))
  argLength : Nat
  stackMappings : List Mapping

/-- Bytes written to an address and those behind it, which wrap around. -/
structure Stored where
  address : Nat
  bytes : List (BitVec 8)

/-- How far an address is behind another one. -/
def offsetFrom (start x : Nat) : Nat := (x + 2 ^ 32 - start % 2 ^ 32) % 2 ^ 32

/-- The memory after a write. -/
def store (m : Memory) (w : Stored) : Memory := fun x =>
  if offsetFrom w.address x < w.bytes.length then w.bytes.getD (offsetFrom w.address x) 0 else m x

/-- What a call leaves; without a result it has not returned. -/
structure Load (layout : Layout) where
  result : Option ErrorT
  pages : PageMap layout
  hat : HatLayer
  writes : List Stored

def temporaryRights : Rights := ⟨3, hatCacheInhibit, true⟩

def taskRights : Rights := ⟨7, hatCacheWriteBack, true⟩

/-- The length of the area for the arguments, in sixteen bits, and at most 256. -/
def alignedArgLength (argLength : Nat) : Nat :=
  if argLength > 0 then min ((argLength + 4) / 4 * 4 % 2 ^ 16) 256 else argLength

/-- How many bytes of the arguments fit behind the name. -/
def remainingLen (fileNameLen argLength : Nat) : Int :=
  let remaining : Int := 255 - fileNameLen - 1 - argLength
  if remaining > argLength then argLength else remaining

/-- The name of the file and the arguments at `args`. -/
def writeArguments (args : Nat) (name arguments : List (BitVec 8)) (argLength : Nat) :
    List Stored :=
  let named := name.take 255
  let fileNameLen := named.length
  let remaining := remainingLen fileNameLen argLength
  [⟨args, [0]⟩, ⟨args, named ++ [0]⟩, ⟨args + 255, [0]⟩] ++
    (if fileNameLen < 255 then [⟨args + fileNameLen, [32]⟩, ⟨args + fileNameLen + 1, [0]⟩]
      else []) ++
    (if remaining > 0 then
      [⟨args + fileNameLen + 1, Files.strncpy arguments remaining.toNat⟩] else []) ++
    [⟨args + 255, [0]⟩]

variable {layout : Layout} (c : LoadConfig) (r : LoadRequest layout)

/-- `map` at a given address. -/
def mapTo (hat : HatLayer) (log phys size : Nat) (rights : Rights) (pid : Nat) : HatLayer :=
  ((hat.map c.board log phys size rights pid).map Prod.fst).getD hat

def taskSize : Nat := alignCeil r.file.fileSize 0x100000

/-- What `readBytes` writes: not more than it is asked for. -/
def imageBytes : List (BitVec 8) := r.file.contents.take r.file.fileSize

/-- The memory with the image. -/
def imageMemory (taskStart : Nat) : Memory := copyInto r.memory taskStart (imageBytes r)

/-- `tt->task_heap_start - LOG_TASK_SPACE_START`. -/
def heapOffset (taskStart : Nat) : Nat :=
  wordSub (taskTableAt (imageMemory r taskStart) taskStart).taskHeapStart c.logTaskSpaceStart

/-- What is written before the task runs: the arguments, if there are any. -/
def argumentWrites (taskStart : Nat) : List Stored :=
  match r.arguments with
  | none => []
  | some arguments => writeArguments (wordAdd taskStart (heapOffset c r taskStart)) r.file.name
      arguments (alignedArgLength r.argLength)

/-- The image in the address space of the running task. -/
def mapTemporarily (taskStart : Nat) : HatLayer :=
  mapTo c (r.hat.unmapAll c.board r.tid) taskStart taskStart (taskSize r) temporaryRights
    r.currentTask

/-- The image and the stack in the address space of the new task. -/
def mapTask (hat : HatLayer) (taskStart : Nat) : HatLayer :=
  (mapTo c hat c.logTaskSpaceStart taskStart (taskSize r) taskRights r.tid).mapAll c.board
    r.stackMappings r.tid

/-- The part behind `checkValidTask` for a valid task. -/
def prepareTask (pages : PageMap layout) (hat : HatLayer) (taskStart : Nat) : Load layout :=
  ⟨some cOk, pages, ((mapTask c r hat taskStart).unmap taskStart r.currentTask).1,
    ⟨taskStart, imageBytes r⟩ :: argumentWrites c r taskStart⟩

/-- An exit behind the temporary mapping. -/
def abandonTask (pages : PageMap layout) (hat : HatLayer) (taskStart : Nat) (error : ErrorT) :
    Load layout :=
  ⟨some error, freeAll pages r.tid, (hat.unmap taskStart r.currentTask).1,
    [⟨taskStart, imageBytes r⟩]⟩

/-- The part behind the allocation; `checkValidTask` gets as many rounds of its loop. -/
def loadImage (pages : PageMap layout) (taskStart rounds : Nat) : Load layout :=
  let hat := mapTemporarily c r taskStart
  if r.file.readBytes < 0 then abandonTask r pages hat taskStart r.file.readBytes
  else
    match checkValidTask c.image (imageMemory r taskStart) r.taskDatabase taskStart rounds with
    | none => ⟨none, pages, hat, [⟨taskStart, imageBytes r⟩]⟩
    | some error =>
      if error < 0 then abandonTask r pages hat taskStart error
      else prepareTask c r pages hat taskStart

def loadTaskFromFile (rounds : Nat) : Load layout :=
  if r.tid = 0 then ⟨some cError, r.pages, r.hat, []⟩
  else
    match allocPhysical r.pages (taskSize r) r.tid with
    | none => ⟨none, r.pages, r.hat.unmapAll c.board r.tid, []⟩
    | some (pages, taskStart) =>
      if taskStart = 0 then ⟨some cError, pages, r.hat.unmapAll c.board r.tid, []⟩
      else loadImage c r pages taskStart rounds

end Orcos.Source.Tasks

/-! ## The initial tasks

Source: src/source/process/TaskManager.cc, `TaskManager::initialize`; src/source/process/Task.cc,
`getIdOfNextCreatedTask`.

The entries lie behind the number of tasks, and what lies behind the table is read as entries
too. An image is read where the temporary mapping shows it. Names of tasks and the memory for
the stack of a first thread are left out.
-/
namespace Orcos.Source.Tasks
open Lib.ByteMemory Lib.Loop Hal PagedRam

/-- `InitTasks_t`; a null pointer is absent. The mappings for the stack of the first thread are
an input. -/
structure InitTask where
  tasktable : Nat
  size : Nat
  name : Option (List (BitVec 8))
  arguments : Option (List (BitVec 8))
  stackMappings : List Mapping

/-- What `initialize` finds and changes. -/
structure Startup (layout : Layout) where
  memory : Memory
  hat : HatLayer
  pages : PageMap layout
  freeTaskIDs : IDMap
  taskDatabase : List (Option TaskTable)

def getIdOfNextCreatedTask (freeTaskIDs : IDMap) : IDMap × Nat :=
  let nextId := taskIdOf freeTaskIDs.getNextID.2
  ((freeTaskIDs.getNextID.1.freeID nextId).getD freeTaskIDs.getNextID.1, nextId)

/-- The memory as a mapping of `phys` to `log` shows it. -/
def shownAt (m : Memory) (log phys : Nat) : Memory := fun x => m (wordAdd phys (wordSub x log))

/-- The name and the arguments of an initial task at `args`. -/
def writeInitialArguments (args : Nat) (taskname arguments : List (BitVec 8)) : List Stored :=
  let named := taskname.take 255
  let tasknameLen := named.length
  let remaining : Int := 255 - tasknameLen - 1
  [⟨args, [0]⟩, ⟨args, named ++ [0]⟩, ⟨args + 255, [0]⟩] ++
    (if tasknameLen < 255 then [⟨args + tasknameLen, [32]⟩] else []) ++
    (if remaining > 0 then
      [⟨args + tasknameLen + 1, Files.strncpy arguments remaining.toNat⟩] else []) ++
    [⟨args + 255, [0]⟩]

def kernelRights : Rights := ⟨7, hatCacheInhibit, true⟩

/-- The characters of "init". -/
def initName : List (BitVec 8) := [105, 110, 105, 116]

variable {layout : Layout} (c : LoadConfig) (s : Startup layout) (t : InitTask)

/-- The image where it is checked, and its control block. -/
def checkedImage : Memory × Nat :=
  if c.image.hatLayer then (shownAt s.memory c.logTaskSpaceStart t.tasktable, c.logTaskSpaceStart)
  else (s.memory, t.tasktable)

def checkEntry (rounds : Nat) : Option ErrorT :=
  checkValidTask c.image (checkedImage c s t).1 s.taskDatabase (checkedImage c s t).2 rounds

/-- The mapping for the task, and the one for the kernel. -/
def mapEntry : HatLayer :=
  mapTo c
    (mapTo c s.hat c.logTaskSpaceStart t.tasktable t.size taskRights
      (getIdOfNextCreatedTask s.freeTaskIDs).2)
    c.logTaskSpaceStart t.tasktable t.size kernelRights 0

/-- What an invalid entry leaves. -/
def dropTask : Startup layout :=
  if c.image.hatLayer then
    { s with
      hat := ((mapEntry c s t).unmap c.logTaskSpaceStart 0).1
      freeTaskIDs := (getIdOfNextCreatedTask s.freeTaskIDs).1 }
  else s

/-- The part of the loop's body behind the check. Where `markAsUsed` stops the kernel it has no
result. -/
def loadTask : Option (Startup layout) :=
  let tt := taskTableAt (checkedImage c s t).1 (checkedImage c s t).2
  if c.image.hatLayer then
    let drawn := getIdOfNextCreatedTask s.freeTaskIDs
    let taskEnd := wordSub (wordAdd t.tasktable t.size) 1
    (markAsUsed s.pages t.tasktable taskEnd drawn.2).map fun pages =>
      let args := wordAdd t.tasktable (wordSub tt.taskHeapStart c.logTaskSpaceStart)
      { memory := match t.arguments with
          | none => s.memory
          | some arguments =>
            (writeInitialArguments args (t.name.getD initName) arguments).foldl store s.memory
        hat := (((mapEntry c s t).mapAll c.board t.stackMappings
          (taskIdOf drawn.1.getNextID.2)).unmap c.logTaskSpaceStart 0).1
        pages := pages
        freeTaskIDs := drawn.1.getNextID.1
        taskDatabase := s.taskDatabase ++ [some tt] }
  else
    some { s with
      freeTaskIDs := s.freeTaskIDs.getNextID.1
      taskDatabase := s.taskDatabase ++ [some tt] }

/-- The body of the loop for one entry: whether the task was loaded, and what is left. -/
def visit (rounds : Nat) : Option (Bool × Startup layout) :=
  (checkEntry c s t rounds).bind fun error =>
    if error ≠ cOk then some (false, dropTask c s t)
    else (loadTask c s t).map (Prod.mk true)

/-- The loop: `i`, the entry that `initTask` points to, and the entries visited and loaded so
far. -/
structure Walk (layout : Layout) where
  i : Nat
  initTask : Nat
  startup : Startup layout
  visited : List Nat
  loaded : List Nat

/-- What a visited entry leaves. Behind `continue` the pointer stays. -/
def Walk.next (w : Walk layout) (r : Bool × Startup layout) : Walk layout where
  i := (w.i + 1) % 2 ^ 8
  initTask := if r.1 then w.initTask + 1 else w.initTask
  startup := r.2
  visited := w.visited ++ [w.initTask]
  loaded := if r.1 then w.loaded ++ [w.initTask] else w.loaded

def initializeRound (entries : Nat → InitTask) (numTasks checks : Nat) (w : Walk layout) :
    Round (Walk layout) (Option (Walk layout)) :=
  if w.i ≤ numTasks then
    (visit c w.startup (entries w.initTask) checks).elim (.done none) fun r => .again (w.next r)
  else .done (some w)

/-- `initialize`, for a table of so many tasks. It has no result if it does not return in these
rounds of its loop and of each check. -/
def taskManagerInitialize (entries : Nat → InitTask) (tasktable checks rounds : Nat) :
    Option (Walk layout) :=
  (loop (initializeRound c entries (tasktable % 2 ^ 8) checks) rounds ⟨1, 0, s, [], []⟩).join

end Orcos.Source.Tasks
