import Orcos.Lib.Guarding
import Orcos.Source.Fat.Directory
import Orcos.Source.Fat.File

/-!
# The mutex of the FAT buffers

Source: src/source/filesystem/fat/FATDirectory.cc, `populateDirectory`, `allocateEntry`,
`removeFileEntries`; src/source/filesystem/fat/FATFile.cc, `readBytes`, `writeBytes`, `seek`;
src/source/synchro/Mutex.cc, `acquire`, `release`.

The calls as programs around `FATAccess`. What they do with the buffers and the partition is
taken in the steps of the functions that they call, each with the outcomes that the partition
has at that time. A program that uses up its rounds has not returned, nor has one that writes
outside of an array or through a null pointer.
-/
namespace Orcos.Source.Fat.FATAccess
open Lib.ByteMemory Lib.Loop Lib.Guarding

/-- What the mutex is for: the partition and the buffers for files and for directories. -/
structure Sectors where
  medium : Medium
  fileBuffer : Memory
  directoryBuffer : Memory

variable {α : Type} (fs : FATFileSystem)

section Files

/-- An access to the buffer for files. -/
def onFile (file : FATFile) (f : FileState → FileState × α) : Prog Sectors (FATFile × α) :=
  .act fun sectors =>
    let (s, a) := f ⟨sectors.medium, sectors.fileBuffer, file⟩
    ((s.file, a), { sectors with
      medium := s.medium
      fileBuffer := s.buffer })

/-- The loop of `readBytes` and the returns behind it. -/
def readLoop (length : Nat) (file : FATFile) (readlength : Nat) (bytes : List Byte) :
    Prog Sectors (FATFile × FileState.Answer) :=
  if _more : 0 < readlength then do
    let sectorPos := file.sectorPos
    let rest := readlength - sectorLen sectorPos readlength
    let (file, read) ← onFile file fun s => s.readSector readlength
    match read with
    | .error error =>
      .unlock
      return (file, ⟨error, bytes, length⟩)
    | .ok read =>
      if readlength < 512 - sectorPos then readLoop length file rest (bytes ++ read)
      else
        let (file, more) ← onFile file fun s => s.nextSector fs false
        if more then readLoop length file rest (bytes ++ read)
        else
          .unlock
          return (file, ⟨cEOF, bytes ++ read, (bytes ++ read).length⟩)
  else do
    .unlock
    return (file, ⟨cOk, bytes, bytes.length⟩)
termination_by readlength
decreasing_by
  all_goals exact Nat.sub_lt _more (sectorLen_pos (FATFile.sectorPos_lt _) _more)

def readBytes (file : FATFile) (length : Nat) : Prog Sectors (FATFile × FileState.Answer) :=
  let rest := wordSub file.filesize file.position
  let readlength := if rest < length then rest else length
  if readlength = 0 then return (file, ⟨cEOF, [], length⟩)
  else do
    .lock
    readLoop fs length file readlength []

/-- The end of `writeBytes`, with the size in the entry of the file. -/
def updateSize (file : FATFile) : Prog Sectors (FATFile × ErrorT) :=
  if file.filesize < file.position then do
    let (file, error) ← onFile file fun s => s.updateSize
    .unlock
    return (file, error)
  else do
    .unlock
    return (file, cOk)

/-- The loop of `writeBytes` and the returns behind it. -/
def writeLoop (file : FATFile) (bytes : List Byte) (newSector : Bool) :
    Prog Sectors (FATFile × ErrorT) :=
  if _more : 0 < bytes.length then do
    let sectorPos := file.sectorPos
    let rest := bytes.drop (sectorLen sectorPos bytes.length)
    let (file, error) ← onFile file fun s => s.writeSector bytes newSector
    if isError error then
      .unlock
      return (file, error)
    else if bytes.length < 512 - sectorPos then writeLoop file rest newSector
    else
      let (file, more) ← onFile file fun s => s.nextSector fs true
      if more then writeLoop file rest (file.filesize < file.position)
      else
        .unlock
        return (file, cDeviceMemoryExhausted)
  else updateSize file
termination_by bytes.length
decreasing_by
  all_goals
    rw [List.length_drop]
    exact Nat.sub_lt _more (sectorLen_pos (FATFile.sectorPos_lt _) _more)

def writeBytes (file : FATFile) (bytes : List Byte) : Prog Sectors (FATFile × ErrorT) := do
  .lock
  writeLoop fs file bytes false

/-- The loop of `seek` and the returns behind it. -/
def seekLoop (file : FATFile) (seekValue : Int) : Prog Sectors (FATFile × ErrorT) :=
  if _more : 0 < seekValue then
    let sectorPos := file.sectorPos
    let len := sectorLen sectorPos seekValue.toNat
    let passed := { file with position := wordAdd file.position len }
    if seekValue.toNat < 512 - sectorPos then seekLoop passed (seekValue - len)
    else do
      let (file, more) ← onFile passed fun s => s.nextSector fs false
      if more then seekLoop file (seekValue - len)
      else
        .unlock
        return (file, cError)
  else do
    .unlock
    return (file, cOk)
termination_by seekValue.toNat
decreasing_by
  all_goals exact toNat_sub_lt _more (sectorLen_pos (FATFile.sectorPos_lt _) (by omega))

/-- The file is filled up with zeros; errors are not looked at. -/
def fillLoop (file : FATFile) (fillLength : Nat) : Prog Sectors FATFile :=
  if _more : 0 < fillLength then
    if 512 < fillLength then do
      let (file, _) ← writeBytes fs file (FileState.zeros 512)
      fillLoop file (fillLength - 512)
    else do
      let (file, _) ← writeBytes fs file (FileState.zeros fillLength)
      return file
  else return file
termination_by fillLength
decreasing_by omega

/-- The call of itself for the end of the file is in the mutex. -/
def seek : Nat → FATFile → Int → Prog Sectors (FATFile × ErrorT)
  | 0, _, _ => .pending
  | rounds + 1, file, seekValue =>
    if seekValue = 0 then return (file, cOk)
    else do
      .lock
      let newPosition := file.newPosition seekValue
      if newPosition < file.position then seekLoop fs (file.rewind fs) (int4 newPosition)
      else if file.filesize < newPosition then
        let (file, _) ← seek rounds file (int4 (wordSub file.filesize file.position))
        let file ← fillLoop fs file (wordSub newPosition file.filesize)
        return (file, cOk)
      else seekLoop fs file seekValue

end Files

section Directories

variable (fresh : Memory)

/-- An access to the buffer for directories; the state has the partition and the buffer of an
earlier time. -/
def onDirectory (s : DirState) (f : DirState → DirState × α) : Prog Sectors (DirState × α) :=
  .act fun sectors =>
    let (s, a) := f { s with
      medium := sectors.medium
      buffer := sectors.directoryBuffer }
    ((s, a), { sectors with
      medium := s.medium
      directoryBuffer := s.buffer })

/-- The buffer as `populateDirectory` leaves it behind an entry. -/
def Sectors.entered (sectors : Sectors) : Round (Cursor × Names) Populated → Sectors
  | .again (c, _) | .done (.ended c _) | .done (.failed c _) => { sectors with
    medium := c.medium
    directoryBuffer := c.buffer }
  | .done .outside => sectors

def populateLoop : Nat → FATDirectory → Cursor × Names → Prog Sectors FATDirectory
  | 0, _, _ => .pending
  | rounds + 1, d, (c, names) => do
    let round ← .act fun sectors =>
      let round := populateEntry fs fresh ({ c with
        medium := sectors.medium
        buffer := sectors.directoryBuffer }, names)
      (round, sectors.entered round)
    match round with
    | .again s => populateLoop rounds d s
    | .done (.ended c names) => return { d with
        lastEntry := c.currentEntry
        lastEntrySector := c.sectorNumber
        populated := true
        content := names.resources }
    | .done (.failed _ names) => return { d with content := names.resources }
    | .done .outside => .pending

def populateDirectory (rounds : Nat) (d : FATDirectory) : Prog Sectors FATDirectory := do
  let d := { d with lastEntry := 0 }
  let start ← .act fun sectors =>
    match d.start sectors.medium with
    | (m, .error _) => (none, { sectors with medium := m })
    | (m, .ok (c, names)) => (some (c, names), { sectors with
        medium := m
        directoryBuffer := c.buffer })
  match start with
  | none => return d
  | some start => populateLoop fs fresh rounds d start

variable (name : List Byte)

/-- The search of `allocateEntry` for free entries. -/
def searchLoop : Nat → FreeSearch → Prog Sectors FreeSearch
  | 0, _ => .pending
  | rounds + 1, search => do
    let (_, round) ← onDirectory search.state fun s =>
      match searchEntry fs (longEntries name) { search with state := s } with
      | .again search => (search.state, Round.again search)
      | .done search => (search.state, Round.done search)
    match round with
    | .again search => searchLoop rounds search
    | .done search => return search

/-- The entries are set one after the other, each behind the one before. -/
def writeLongEntries : List DirEntry → DirState → Option Nat → Prog Sectors (DirState × Option Nat)
  | [], s, entry => return (s, entry)
  | _ :: _, _, none => .pending
  | e :: es, s, some number => do
    let (s, entry) ← onDirectory s fun s => (s.setEntry number e).getNextEntry fs true true
    writeLongEntries es s entry

/-- The end of `allocateEntry`. -/
def finishEntry (append : Bool) (a : Allocation) (s : DirState) :
    Prog Sectors (DirState × Option Allocation) :=
  if append then do
    let (s, entry) ← onDirectory s fun s => s.getNextEntry fs true true
    match entry with
    | none =>
      .unlock
      return (s, none)
    | some number =>
      let (s, _) ← onDirectory s fun s => ((s.setEntry number fun _ => 0).synchEntries, ())
      .unlock
      return (s, some a)
  else do
    let (s, _) ← onDirectory s fun s => (s.synchEntries, ())
    .unlock
    return (s, some a)

/-- The part of `allocateEntry` that writes the entries. -/
def enterEntries (attr fileCluster : Nat) (append : Bool) (s : DirState) (entry : Option Nat) :
    Prog Sectors (DirState × Option Allocation) := do
  let longNameEntrySector := s.currentSector
  let longNameSectorEntry := s.currentSectorEntry
  let (s, entry) ←
    writeLongEntries fs ((List.range (longEntries name)).map (longEntry name)) s entry
  match entry with
  | none =>
    .unlock
    return (s, none)
  | some number =>
    let e := shortEntry name attr fileCluster
    let (s, _) ← onDirectory s fun s => (s.setEntry number e, ())
    finishEntry fs append
      ⟨e, s.currentSector, s.currentSectorEntry, longNameEntrySector, longNameSectorEntry⟩ s

/-- The part of `allocateEntry` behind the search. -/
def placeEntry (attr cluster : Nat) (search : FreeSearch) :
    Prog Sectors (DirState × Option Allocation) := do
  let (s, entry) ← onDirectory search.state fun s =>
    ({ search with state := s } : FreeSearch).place fs name
  if cluster = 0 then
    let (s, fileCluster) ← onDirectory s fun s =>
      let (m, fileCluster) := fs.allocateCluster s.medium
      ({ s with medium := m }, fileCluster)
    if fileCluster = EOC then
      .unlock
      return (s, none)
    else enterEntries fs name attr fileCluster (search.Appends name) s entry
  else enterEntries fs name attr cluster (search.Appends name) s entry

/-- The part of `allocateEntry` in the mutex; a name that is too long ends it at once. -/
def insertEntry (rounds attr cluster : Nat) (s : DirState) :
    Prog Sectors (DirState × Option Allocation) := do
  .lock
  if 255 < name.length then return (s, none)
  else
    let (s, entry) ← onDirectory s fun s => s.resetToFirstEntry fs
    match entry with
    | none =>
      .unlock
      return (s, none)
    | some number =>
      let search ← searchLoop fs name rounds ⟨s, some number, 0, 0, 0⟩
      placeEntry fs name attr cluster search

/-- The entries of the directory are known; this is in front of the mutex. -/
def populate (rounds : Nat) (s : DirState) : Prog Sectors DirState :=
  if s.dir.populated then return s
  else do
    let dir ← populateDirectory fs fresh rounds s.dir
    return { s with dir := dir }

def allocateEntry (rounds attr cluster : Nat) (s : DirState) :
    Prog Sectors (DirState × Option Allocation) := do
  let s ← populate fs fresh rounds s
  if (s.dir.find name).isSome then return (s, none)
  else insertEntry fs name rounds attr cluster s

variable (file : FATFile)

/-- The part of `removeFileEntries` behind the entries of the long name. -/
def removeShort (rounds : Nat) (freeClusterChain : Bool) (s : DirState) :
    Prog Sectors (DirState × ErrorT) := do
  let (s, entry) ← onDirectory s fun s =>
    s.moveToEntry fs file.directoryEntryNumber file.directorySector
  match entry with
  | none =>
    .unlock
    return (s, cError)
  | some number =>
    let (s, _) ← onDirectory s fun s => (Fat.removeShort fs number s, ())
    if freeClusterChain then
      let (s, freed) ← onDirectory s fun s =>
        match fs.freeClusterChain rounds s.medium file.clusterStart with
        | none => (s, false)
        | some (m, _) => ({ s with medium := m }, true)
      if freed then
        .unlock
        return (s, cOk)
      else .pending
    else
      .unlock
      return (s, cOk)

/-- The loop over the entries of a long name. -/
def removeLong (freeClusterChain : Bool) : Nat → DirState → Option Nat →
    Prog Sectors (DirState × ErrorT)
  | 0, _, _ => .pending
  | _ + 1, s, none => do
    .unlock
    return (s, cError)
  | rounds + 1, s, some number => do
    let (s, entry) ← onDirectory s fun s =>
      (s.setEntry number removedEntry).getNextEntry fs true false
    if s.currentSector = file.directorySector ∧
        s.currentSectorEntry = file.directoryEntryNumber then
      removeShort fs file rounds freeClusterChain s
    else removeLong freeClusterChain rounds s entry

def removeFileEntries (rounds : Nat) (freeClusterChain : Bool) (s : DirState) :
    Prog Sectors (DirState × ErrorT) := do
  .lock
  match file.longname with
  | none => removeShort fs file rounds freeClusterChain s
  | some (sector, number) =>
    let (s, entry) ← onDirectory s fun s => s.moveToEntry fs number sector
    removeLong fs file freeClusterChain rounds s entry

end Directories

/-- A call, with what it works with. -/
inductive Call
  | populateDirectory (fs : FATFileSystem) (fresh : Memory) (rounds : Nat) (d : FATDirectory)
  | allocateEntry (fs : FATFileSystem) (fresh : Memory) (rounds : Nat) (name : List Byte)
      (attr cluster : Nat) (s : DirState)
  | removeFileEntries (fs : FATFileSystem) (rounds : Nat) (file : FATFile) (freeClusterChain : Bool)
      (s : DirState)
  | readBytes (fs : FATFileSystem) (file : FATFile) (length : Nat)
  | writeBytes (fs : FATFileSystem) (file : FATFile) (bytes : List Byte)
  | seek (fs : FATFileSystem) (rounds : Nat) (file : FATFile) (seekValue : Int)

def Call.program : Call → Prog Sectors Unit
  | .populateDirectory fs fresh rounds d => do
    let _ ← FATAccess.populateDirectory fs fresh rounds d
  | .allocateEntry fs fresh rounds name attr cluster s => do
    let _ ← FATAccess.allocateEntry fs fresh name rounds attr cluster s
  | .removeFileEntries fs rounds file freeClusterChain s => do
    let _ ← FATAccess.removeFileEntries fs file rounds freeClusterChain s
  | .readBytes fs file length => do
    let _ ← FATAccess.readBytes fs file length
  | .writeBytes fs file bytes => do
    let _ ← FATAccess.writeBytes fs file bytes
  | .seek fs rounds file seekValue => do
    let _ ← FATAccess.seek fs rounds file seekValue

end Orcos.Source.Fat.FATAccess
