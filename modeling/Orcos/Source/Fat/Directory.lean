import Orcos.Source.Fat.DirectoryEntry

/-!
# FAT directories

Source: src/source/filesystem/fat/FATDirectory.cc and
src/source/filesystem/Directory.cc, `add` and `get`.

A sector has 16 entries. A pointer to an entry is the number of the entry in the
buffer. The iterator and the buffer are shared by all directories; their mutex,
the cache of the partition and the log are left out. The test of `getNextEntry`
whether the entry number is -1 is never true, as the number is unsigned.

Loops follow links of the medium and need not end, so they run for a number of
rounds. No result also means that characters are written outside of an array
or through a null pointer.
-/
namespace Orcos.Source.Fat
open Lib.ByteMemory Lib.Loop

/-- A `FATDirectory`. Its content, the resources, is in the order in which they
were added. -/
structure FATDirectory where
  myclusterNum : Nat
  sector : Nat
  lastEntry : Nat
  lastEntrySector : Nat
  populated : Bool
  content : List Resource
  deriving DecidableEq

variable (fs : FATFileSystem)

section Populate

variable (fresh : Memory)

/-- The variables of `populateDirectory` that find the entries. -/
structure Cursor where
  medium : Medium
  buffer : Memory
  sectorNumber : Nat
  currentCluster : Nat
  currentEntry : Nat

def Cursor.slot (c : Cursor) : Slot :=
  ⟨c.sectorNumber, c.currentEntry, entryAt c.buffer c.currentEntry⟩

/-- How `populateDirectory` goes on behind an entry. -/
inductive Advance
  | at (c : Cursor)
  | ended (c : Cursor)
  | failed (c : Cursor)

def Cursor.advance (c : Cursor) : Advance :=
  if 16 ≤ c.currentEntry + 1 then
    let (m, nextSectorNumber) := fs.getNextSector c.medium c.sectorNumber c.currentCluster false
    if nextSectorNumber = EOC then .ended { c with medium := m }
    else
      let c := { c with
        sectorNumber := nextSectorNumber
        currentCluster := fs.sectorToCluster nextSectorNumber }
      match m.readSectors nextSectorNumber with
      | (m, .error _) => .failed { c with medium := m }
      | (m, .ok buffer) => .at { c with
        medium := m
        buffer := buffer
        currentEntry := 0 }
  else .at { c with currentEntry := c.currentEntry + 1 }

/-- How the loop of `populateDirectory` ends. -/
inductive Populated
  | ended (c : Cursor) (names : Names)
  | failed (c : Cursor) (names : Names)
  | outside

def populateEntry (s : Cursor × Names) : Round (Cursor × Names) Populated :=
  let (c, names) := s
  if c.slot.entry.name0 = 0 then .done (.ended c names)
  else
    match takeEntry fs fresh c.slot names with
    | none => .done .outside
    | some names =>
      match c.advance fs with
      | .at c => .again (c, names)
      | .ended c => .done (.ended c names)
      | .failed c => .done (.failed c names)

/-- The state before the first entry is looked at; the error of the first read
otherwise. -/
def FATDirectory.start (d : FATDirectory) (m : Medium) : Medium × Except ErrorT (Cursor × Names) :=
  match m.readSectors d.sector with
  | (m, .error error) => (m, .error error)
  | (m, .ok buffer) =>
    (m, .ok (⟨m, buffer, d.sector, d.myclusterNum, 0⟩, ⟨none, 0, none, d.content⟩))

def FATDirectory.populateDirectory (rounds : Nat) (d : FATDirectory) (m : Medium)
    (buffer : Memory) :
    Option (Medium × Memory × FATDirectory) :=
  let d := { d with lastEntry := 0 }
  match d.start m with
  | (m, .error _) => some (m, buffer, d)
  | (_, .ok start) =>
    match loop (populateEntry fs fresh) rounds start with
    | some (.ended c names) => some (c.medium, c.buffer, { d with
        lastEntry := c.currentEntry
        lastEntrySector := c.sectorNumber
        populated := true
        content := names.resources })
    | some (.failed c names) => some (c.medium, c.buffer, { d with content := names.resources })
    | some .outside => none
    | none => none

end Populate

section Iterator

/-- The iterator over the entries, its buffer and the directory it is used for. -/
structure DirState where
  medium : Medium
  buffer : Memory
  currentSectorEntry : Nat
  currentCluster : Nat
  currentSector : Nat
  dir : FATDirectory

namespace DirState

variable (s : DirState)

/-- The buffer is written back if asked for. -/
def writeBuffer (writeBack : Bool) : DirState × ErrorT :=
  if writeBack then
    let (m, error) := s.medium.writeSectors s.currentSector s.buffer
    ({ s with medium := m }, error)
  else (s, cOk)

/-- The iterator is where the directory ends. -/
def setLast : DirState :=
  { s with dir := { s.dir with
      lastEntry := s.currentSectorEntry
      lastEntrySector := s.currentSector } }

/-- The entry behind the last one of the directory. The cluster of the iterator
is set only when it is a new one. -/
def extend (writeBack : Bool) : DirState × Option Nat :=
  if 16 ≤ s.currentSectorEntry + 1 then
    let (s, error) := s.writeBuffer writeBack
    if isError error then (s, none)
    else
      let (m, nextSector) := fs.getNextSector s.medium s.currentSector s.currentCluster false
      if nextSector = EOC then
        let (m, sector) := fs.getNextSector m s.currentSector s.currentCluster true
        let s := { s with
          medium := m
          currentSector := sector }
        if sector = EOC then (s, none)
        else
          ({ s with
            currentCluster := fs.sectorToCluster sector
            buffer := fun _ => 0
            currentSectorEntry := 0 }.setLast, some 0)
      else
        let (m, read) := m.readSectors nextSector
        let s := { s with
          medium := m
          currentSector := nextSector }
        match read with
        | .error _ => (s, none)
        | .ok buffer => ({ s with
            buffer := buffer
            currentSectorEntry := 0 }.setLast, some 0)
  else ({ s with currentSectorEntry := s.currentSectorEntry + 1 }.setLast,
    some (s.currentSectorEntry + 1))

def getNextEntry (writeBack allocate : Bool) : DirState × Option Nat :=
  if s.currentSectorEntry = s.dir.lastEntry ∧ s.currentSector = s.dir.lastEntrySector then
    if allocate then s.extend fs writeBack else (s, none)
  else
    let s := { s with currentSectorEntry := s.currentSectorEntry + 1 }
    if 16 ≤ s.currentSectorEntry then
      let (s, error) := s.writeBuffer writeBack
      if isError error then (s, none)
      else
        let (m, sector) := fs.getNextSector s.medium s.currentSector s.currentCluster false
        let s := { s with
          medium := m
          currentSector := sector }
        if sector = EOC then (s, none)
        else
          let (m, read) := m.readSectors sector
          let s := { s with
            medium := m
            currentCluster := fs.sectorToCluster sector }
          match read with
          | .error _ => (s, none)
          | .ok buffer => ({ s with
              buffer := buffer
              currentSectorEntry := 0 }, some 0)
    else (s, some s.currentSectorEntry)

/-- Whether the sector is one of the directory is decided by its number. -/
def synchEntries : DirState :=
  if s.dir.sector ≤ s.currentSector ∧ s.currentSector ≤ s.dir.lastEntrySector then
    { s with medium := (s.medium.writeSectors s.currentSector s.buffer).1 }
  else s

/-- The sector is read whether or not this succeeds. -/
def readSector (sector : Nat) : DirState :=
  let (m, read) := s.medium.readSectors sector
  { s with
    medium := m
    buffer := read.toOption.getD s.buffer }

/-- Both arguments are 16-bit words. -/
def moveToEntry (entryInSector entrysector : Nat) : DirState × Option Nat :=
  let entryInSector := entryInSector % 2 ^ 16
  let entrysector := entrysector % 2 ^ 16
  if 16 ≤ entryInSector then (s, none)
  else if s.medium.sectors ≤ entrysector then (s, none)
  else
    ({ s with
      currentSectorEntry := entryInSector
      currentSector := entrysector
      currentCluster := fs.sectorToCluster entrysector }.readSector entrysector, some entryInSector)

def resetToFirstEntry : DirState × Option Nat :=
  let s := { s with
    currentSectorEntry := 0
    currentSector := s.dir.sector }
  if s.medium.sectors < s.dir.sector then (s, none)
  else
    ({ s with currentCluster := fs.sectorToCluster s.dir.sector }.readSector s.dir.sector, some 0)

/-- The entry is set in the buffer. -/
def setEntry (number : Nat) (e : DirEntry) : DirState :=
  { s with buffer := putEntry s.buffer number e }

end DirState

end Iterator

section Allocate

variable (name : List Byte)

/-- `get`: the length of the name is a byte. -/
def FATDirectory.find (d : FATDirectory) : Option Resource :=
  d.content.find? fun res =>
    res.name.length = name.length % 2 ^ 8 ∧ name.take res.name.length = res.name

/-- The variables of the search for free entries. -/
structure FreeSearch where
  state : DirState
  entry : Option Nat
  freeEntries : Nat
  freeEntrySector : Nat
  freeEntryNum : Nat

def searchEntry (longEntries : Nat) (s : FreeSearch) : Round FreeSearch FreeSearch :=
  match s.entry with
  | none => .done s
  | some number =>
    let e := entryAt s.state.buffer number
    if e.name0 = 0 then .done s
    else
      let s :=
        if e.Free then
          if s.freeEntrySector = 0 then { s with
            freeEntries := s.freeEntries + 1
            freeEntrySector := s.state.currentSector
            freeEntryNum := s.state.currentSectorEntry }
          else { s with freeEntries := s.freeEntries + 1 }
        else { s with
          freeEntries := 0
          freeEntrySector := 0 }
      if e.Free ∧ s.freeEntries = longEntries + 1 then .done s
      else
        let (state, entry) := s.state.getNextEntry fs false false
        .again { s with
          state := state
          entry := entry }

/-- The entries are set one after the other, each behind the one before. -/
def writeLongEntries : List DirEntry → DirState → Option Nat → Option (DirState × Option Nat)
  | [], s, entry => some (s, entry)
  | _ :: _, _, none => none
  | e :: es, s, some number =>
    let (s, entry) := (s.setEntry number e).getNextEntry fs true true
    writeLongEntries es s entry

/-- What `allocateEntry` answers: the short entry and the places. -/
structure Allocation where
  entry : DirEntry
  fileEntrySector : Nat
  fileSectorEntry : Nat
  longNameEntrySector : Nat
  longNameSectorEntry : Nat

/-- The end of `allocateEntry`: an end of the table behind entries that were
appended. -/
def finishEntry (append : Bool) (a : Allocation) (s : DirState) : DirState × Option Allocation :=
  if append then
    match s.getNextEntry fs true true with
    | (s, none) => (s, none)
    | (s, some number) => ((s.setEntry number fun _ => 0).synchEntries, some a)
  else (s.synchEntries, some a)

/-- The part of `allocateEntry` that writes the entries. -/
def enterEntries (attr fileCluster : Nat) (append : Bool) (s : DirState) (entry : Option Nat) :
    Option (DirState × Option Allocation) :=
  let longNameEntrySector := s.currentSector
  let longNameSectorEntry := s.currentSectorEntry
  match writeLongEntries fs ((List.range (longEntries name)).map (longEntry name)) s entry with
  | none => none
  | some (s, none) => some (s, none)
  | some (s, some number) =>
    let e := shortEntry name attr fileCluster
    some (finishEntry fs append
      ⟨e, s.currentSector, s.currentSectorEntry, longNameEntrySector, longNameSectorEntry⟩
      (s.setEntry number e))

/-- The entries are appended unless enough free ones were found. -/
def FreeSearch.Appends (search : FreeSearch) : Prop := search.freeEntries ≠ longEntries name + 1

instance (search : FreeSearch) : Decidable (search.Appends name) :=
  inferInstanceAs (Decidable (_ ≠ _))

/-- The iterator where the first entry goes to. -/
def FreeSearch.place (search : FreeSearch) : DirState × Option Nat :=
  let (s, entry) := match search.entry with
    | none => search.state.getNextEntry fs false true
    | some number => (search.state, some number)
  if search.Appends name then (s, entry)
  else s.moveToEntry fs search.freeEntryNum search.freeEntrySector

/-- The part of `allocateEntry` behind the search. -/
def placeEntry (attr cluster : Nat) (search : FreeSearch) :
    Option (DirState × Option Allocation) :=
  let (s, entry) := search.place fs name
  if cluster = 0 then
    let (m, fileCluster) := fs.allocateCluster s.medium
    let s := { s with medium := m }
    if fileCluster = EOC then some (s, none)
    else enterEntries fs name attr fileCluster (search.Appends name) s entry
  else enterEntries fs name attr cluster (search.Appends name) s entry

/-- The part of `allocateEntry` behind the look-up of the name. -/
def insertEntry (rounds attr cluster : Nat) (s : DirState) :
    Option (DirState × Option Allocation) :=
  if 255 < name.length then some (s, none)
  else
    match s.resetToFirstEntry fs with
    | (s, none) => some (s, none)
    | (s, some number) =>
      (loop (searchEntry fs (longEntries name)) rounds ⟨s, some number, 0, 0, 0⟩).bind
        (placeEntry fs name attr cluster)

/-- The entries of the directory are known. -/
def DirState.populate (rounds : Nat) (fresh : Memory) (s : DirState) : Option DirState :=
  if s.dir.populated then some s
  else (s.dir.populateDirectory fs fresh rounds s.medium s.buffer).map fun (m, buffer, dir) =>
    { s with
      medium := m
      buffer := buffer
      dir := dir }

/-- A new entry; a cluster of 0 stands for a new cluster. -/
def allocateEntry (rounds : Nat) (fresh : Memory) (attr cluster : Nat) (s : DirState) :
    Option (DirState × Option Allocation) :=
  (s.populate fs rounds fresh).bind fun s =>
    if (s.dir.find name).isSome then some (s, none)
    else insertEntry fs name rounds attr cluster s

/-- A call of `allocateEntry` gets to the end of its search. -/
structure Reaches (rounds : Nat) (fresh : Memory) (s : DirState) (search : FreeSearch) : Prop where
  searched : ∃ s₁ s₂ number, s.populate fs rounds fresh = some s₁ ∧ s₁.dir.find name = none ∧
    s₁.resetToFirstEntry fs = (s₂, some number) ∧
    loop (searchEntry fs (longEntries name)) rounds ⟨s₂, some number, 0, 0, 0⟩ = some search
  short : name.length ≤ 255

variable {fs name}

theorem Reaches.allocateEntry_eq {rounds : Nat} {fresh : Memory} {s : DirState}
    {search : FreeSearch} (reaches : Reaches fs name rounds fresh s search) (attr cluster : Nat) :
    allocateEntry fs name rounds fresh attr cluster s = placeEntry fs name attr cluster search := by
  obtain ⟨s₁, s₂, number, populated, unknown, reset, ended⟩ := reaches.searched
  rw [allocateEntry, populated, Option.bind_some, unknown, if_neg (by decide), insertEntry,
    if_neg (Nat.not_lt.mpr reaches.short), reset]
  simp only [ended, Option.bind_some]

/-- A call that makes an entry has placed it. -/
theorem reaches_of_allocateEntry {rounds attr cluster : Nat} {fresh : Memory} {s s' : DirState}
    {a : Allocation}
    (made : allocateEntry fs name rounds fresh attr cluster s = some (s', some a)) :
    ∃ search, Reaches fs name rounds fresh s search ∧
      placeEntry fs name attr cluster search = some (s', some a) := by
  rw [allocateEntry, Option.bind_eq_some_iff] at made
  obtain ⟨s₁, populated, made⟩ := made
  split at made
  · cases made
  · next unknown =>
    rw [insertEntry] at made
    split at made
    · cases made
    · next short =>
      cases reset : s₁.resetToFirstEntry fs with
      | mk s₂ entry =>
        rw [reset] at made
        cases entry with
        | none => cases made
        | some number =>
          obtain ⟨search, ended, placed⟩ := Option.bind_eq_some_iff.mp made
          exact ⟨search, ⟨⟨s₁, s₂, number, populated, Option.not_isSome_iff_eq_none.mp unknown,
            reset, ended⟩, Nat.le_of_not_lt short⟩, placed⟩

end Allocate

section Remove

/-- The contents of an entry that was removed. -/
def removedEntry : DirEntry := fun i => if i.val = 0 then 0xE5 else 0

/-- The short entry is removed; the last entry of the directory becomes its end. -/
def removeShort (number : Nat) (s : DirState) : DirState :=
  let s := s.setEntry number removedEntry
  match s.getNextEntry fs true false with
  | (s, none) => (s.setEntry number fun _ => 0).synchEntries
  | (s, some _) => s.synchEntries

end Remove

end Orcos.Source.Fat
