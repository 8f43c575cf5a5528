import Orcos.Source.PagedRam.Ownership

/-!
# The memory of tasks and threads

Source: src/source/process/TaskManager.cc, `removeTask`, `terminateThread` and the
allocation of `loadTaskFromFile`; src/source/process/Thread.cc, the constructor and the
destructor of `Thread`.

A task is known by its id, which is the owner of its pages, a thread by its place in the
list. A terminated thread is deleted later by the memory manager, in any order. Memory is
handed out for a live task at any time: the image of a task, its heap, the stacks. A call of
`alloc_physical` is one step: for areas from 1 MB on, which it looks for and marks in two
critical sections, it is taken that nobody else gets pages in between.
-/
namespace Orcos.Source.Tasks
open PagedRam

/-- What `alloc_physical` was called with, and its answer (zero on failure). -/
structure Area where
  pid : Nat
  size : Nat
  start : Nat
  deriving DecidableEq

/-- A thread that waits for its deletion. `orphan` is no field of the source: it records
that the task of the thread has been removed. -/
structure DeadThread where
  stack : Area
  orphan : Bool
  deriving DecidableEq

/-- The page map with the areas of live tasks, the stacks of live threads and the threads
that wait for their deletion. -/
structure TaskMemory (layout : Layout) where
  pages : PageMap layout
  tasks : List Nat
  memory : List Area
  threads : List Area
  dead : List DeadThread

variable {layout : Layout}

/-- `physicalEndAddr`; `reserved` is `RESERVED_BYTES_FOR_STACKFRAME`. -/
def Area.physicalEndAddr (reserved : Nat) (stack : Area) : Nat :=
  wordSub (wordAdd stack.start stack.size) reserved

/-- The constructor of `Thread`, and its destructor right after it. -/
def createAndDestroy (reserved : Nat) (pages : PageMap layout) (stackSize pid : Nat) :
    Option (PageMap layout) :=
  (allocPhysical pages stackSize pid).map fun answer =>
    (freePhysical answer.1 answer.2
      (Area.physicalEndAddr reserved ⟨pid, stackSize, answer.2⟩)).1

/-- The bytes `alloc_physical` takes for a size. -/
def takenSize (size : Nat) : Nat :=
  if size < 0x100000 then roundSize size else wholePages size * 0x100000

/-- The 4 KB unit number `u` was handed out with the area. -/
def Area.Allocated (layout : Layout) (area : Area) (u : Nat) : Prop :=
  area.start ≠ 0 ∧ area.start ≤ layout.memStart + u * 4096 ∧
    layout.memStart + u * 4096 < area.start + takenSize area.size ∧ u < layout.numPages * 256

instance (area : Area) (u : Nat) : Decidable (area.Allocated layout u) :=
  inferInstanceAs (Decidable (_ ∧ _ ∧ _ ∧ _))

namespace TaskMemory

inductive Op where
  | create (tid : Nat)
  | allocate (tid size : Nat)
  | spawn (tid stackSize : Nat)
  | terminate (thread : Nat)
  | kill (tid : Nat)
  | delete (i : Nat)

variable (reserved : Nat) (s : TaskMemory layout)

/-- Memory for a task, whose area is kept when there was enough. -/
def allocate (tid size : Nat) : TaskMemory layout :=
  match allocPhysical s.pages size tid with
  | none => s
  | some (pages, start) =>
    if start = 0 then { s with pages := pages }
    else { s with pages := pages, memory := s.memory ++ [⟨tid, size, start⟩] }

/-- The constructor of `Thread`: it does not look whether it got a stack. -/
def spawn (tid stackSize : Nat) : TaskMemory layout :=
  match allocPhysical s.pages stackSize tid with
  | none => s
  | some (pages, start) =>
    { s with pages := pages, threads := s.threads ++ [⟨tid, stackSize, start⟩] }

/-- `removeTask`. Threads that still live are terminated, but not scheduled for their
deletion. -/
def removeTask (tid : Nat) : TaskMemory layout where
  pages := freeAll s.pages tid
  tasks := s.tasks.filter (· ≠ tid)
  memory := s.memory.filter (·.pid ≠ tid)
  threads := s.threads.filter (·.pid ≠ tid)
  dead := s.dead.map fun d => if d.stack.pid = tid then { d with orphan := true } else d

/-- The thread leaves its task, which goes with its last thread. -/
def detach (thread : Nat) (pid : Nat) : TaskMemory layout :=
  if (s.threads.eraseIdx thread).any (·.pid = pid) then
    { s with threads := s.threads.eraseIdx thread }
  else { s with threads := s.threads.eraseIdx thread }.removeTask pid

/-- `terminateThread`. The deletion is scheduled after the task was removed. -/
def terminateThread (thread : Nat) : TaskMemory layout :=
  match s.threads[thread]? with
  | none => s
  | some stack =>
    { s.detach thread stack.pid with
      dead := (s.detach thread stack.pid).dead ++
        [⟨stack, decide (stack.pid ∉ (s.detach thread stack.pid).tasks)⟩] }

/-- A dead thread is gone, and its destructor left this map. -/
def withoutDead (i : Nat) (pages : PageMap layout) : TaskMemory layout :=
  { s with pages := pages, dead := s.dead.eraseIdx i }

/-- The destructor of `Thread`. -/
def delete (i : Nat) : TaskMemory layout :=
  match s.dead[i]? with
  | none => s
  | some d => s.withoutDead i
      (freePhysical s.pages d.stack.start (d.stack.physicalEndAddr reserved)).1

theorem withoutDead_pages (i : Nat) (pages : PageMap layout) :
    (s.withoutDead i pages).pages = pages := rfl

def step : Op → TaskMemory layout
  | .create tid => { s with tasks := s.tasks ++ [tid] }
  | .allocate tid size => s.allocate tid size
  | .spawn tid stackSize => s.spawn tid stackSize
  | .terminate thread => s.terminateThread thread
  | .kill tid => s.removeTask tid
  | .delete i => s.delete reserved i

/-- Unit number `u` is freed by the deletion of the dead thread. -/
def Frees (i u : Nat) : Prop :=
  s.pages.owner u ≠ none ∧ (s.delete reserved i).pages.owner u = none

/-- Unit number `u` belongs to a live task or a live thread. -/
def InUse (u : Nat) : Prop := ∃ area ∈ s.memory ++ s.threads, area.Allocated layout u

instance (i u : Nat) : Decidable (s.Frees reserved i u) := inferInstanceAs (Decidable (_ ∧ _))

instance (u : Nat) : Decidable (s.InUse u) :=
  inferInstanceAs (Decidable (∃ area ∈ s.memory ++ s.threads, area.Allocated layout u))

end TaskMemory

/-- Nothing is live. -/
def freshTaskMemory (layout : Layout) : TaskMemory layout :=
  ⟨PageMap.allFree layout, [], [], [], []⟩

end Orcos.Source.Tasks
