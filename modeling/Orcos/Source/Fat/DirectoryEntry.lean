import Orcos.Source.Fat.FileSystem

/-!
# Entries of a FAT directory and the resources made from them

Source: src/source/filesystem/fat/FATDirectory.cc, the parts of
`populateDirectory` and `allocateEntry` that look at or make one entry, and
`generateShortName`; src/source/inc/stringtools.cc, `strlen`, `strnlower`,
`ascii2unicode` and `unicode2ascii`; the constructors of `FATFile` and
`FATDirectory`.

A character is a byte. A string is the list of the bytes of its array; what
counts of it ends before the first zero.
-/
namespace Orcos.Source.Fat
open Lib.ByteMemory

abbrev Byte := BitVec 8

/-- The 32 bytes of an entry. -/
abbrev DirEntry := Fin 32 → Byte

def ATTR_VOLUME_ID : Nat := 0x08
def ATTR_DIRECTORY : Nat := 0x10
def ATTR_ARCHIVE : Nat := 0x20
def ATTR_LONG_NAME : Nat := 0x0F
def ATTR_LONG_NAME_MASK : Nat := 0x3F

def space : Byte := 0x20
def dot : Byte := 0x2E
def underscore : Byte := 0x5F

/-- The entry of a number in a sector. -/
def entryAt (buffer : Memory) (number : Nat) : DirEntry := fun i => buffer (number * 32 + i)

def putEntry (buffer : Memory) (number : Nat) (e : DirEntry) : Memory := fun x =>
  if x / 32 = number then e ⟨x % 32, Nat.mod_lt x (by decide)⟩ else buffer x

section Strings

/-- The characters of a string. -/
def cstring (s : List Byte) : List Byte := s.takeWhile (· ≠ 0)

def strlen (s : List Byte) : Nat := (cstring s).length

/-- Lower case for the first characters of a string. -/
def strnlower : List Byte → Nat → List Byte
  | c :: s, count + 1 =>
    if c = 0 then c :: s
    else (if 0x41 ≤ c ∧ c ≤ 0x5A then c ||| 0x60 else c) :: strnlower s count
  | s, _ => s

/-- Bytes of UTF-16 for each character. -/
def ascii2unicode (s : List Byte) : List Byte :=
  s.flatMap fun code => [code, if code ≠ 0xff then 0 else 0xff]

/-- Removes trailing spaces from a position on; answers where the last other
character is. Bytes behind the array are taken for no space. -/
def shortnameStrip (name : List Byte) : Nat → List Byte × Nat
  | 0 => (name, 0)
  | i + 1 => if name.getD (i + 1) 0 = space then shortnameStrip (name.set (i + 1) 0) i
    else (name, i + 1)

/-- `memcpy` into an array; `none` when it does not fit. -/
def overwrite (s : List Byte) (pos : Nat) (bytes : List Byte) : Option (List Byte) :=
  if pos + bytes.length ≤ s.length then
    some (s.take pos ++ bytes ++ s.drop (pos + bytes.length))
  else none

def chkSum (name : List Byte) : Byte :=
  name.foldl (fun sum c => (if sum &&& 1 ≠ 0 then 0x80 else 0) + (sum >>> 1) + c) 0

end Strings

namespace DirEntry

variable (e : DirEntry)

def ofBytes (bytes : List Byte) : DirEntry := fun i => bytes.getD i 0

/-- `DIR_Name[0]`, which is `LDIR_Ord` in an entry of a long name. -/
def name0 : Nat := (e 0).toNat

def attr : Nat := (e 11).toNat

/-- `LDIR_Chksum`. -/
def chksum : Byte := e 13

/-- `DIR_CrtTimeTenth`, at the same place. -/
def crtTimeTenth : Nat := (e 13).toNat

/-- `DIR_Name`. -/
def dirName : List Byte := [e 0, e 1, e 2, e 3, e 4, e 5, e 6, e 7, e 8, e 9, e 10]

def fstClusHI : Nat := (e 20).toNat + (e 21).toNat * 2 ^ 8

def fstClusLO : Nat := (e 26).toNat + (e 27).toNat * 2 ^ 8

def fileSize : Nat :=
  (e 28).toNat + (e 29).toNat * 2 ^ 8 + (e 30).toNat * 2 ^ 16 + (e 31).toNat * 2 ^ 24

def cluster : Nat := e.fstClusHI <<< 16 ||| e.fstClusLO

/-- What `unicode2ascii` takes from `LDIR_Name`, `LDIR_Name2` and `LDIR_Name3`. -/
def longChars : List Byte :=
  [e 1, e 3, e 5, e 7, e 9, e 14, e 16, e 18, e 20, e 22, e 24, e 28, e 30]

/-- The number of the part of a long name. -/
def order : Nat := e.name0 &&& 0x3F

def Free : Prop := e.name0 = 0xE5

def LongName : Prop := e.attr &&& ATTR_LONG_NAME_MASK = ATTR_LONG_NAME

/-- The part of a long name that comes first on the medium. -/
def First : Prop := e.name0 &&& 0x40 = 0x40

def Volume : Prop := e.attr = ATTR_VOLUME_ID

instance : Decidable e.Free := inferInstanceAs (Decidable (_ = _))
instance : Decidable e.LongName := inferInstanceAs (Decidable (_ = _))
instance : Decidable e.First := inferInstanceAs (Decidable (_ = _))
instance : Decidable e.Volume := inferInstanceAs (Decidable (_ = _))

end DirEntry

/-- An entry and its place. -/
structure Slot where
  sector : Nat
  number : Nat
  entry : DirEntry

/-- A `FATFile`; `longname` is the place of its first entry, when it has entries
of a long name. -/
structure FATFile where
  name : List Byte
  filesize : Nat
  attr : Nat
  position : Nat
  clusterStart : Nat
  currentSector : Nat
  currentCluster : Nat
  directorySector : Nat
  directoryEntryNumber : Nat
  longname : Option (Nat × Nat)
  deriving DecidableEq

/-- What a directory holds. Of a directory in it only the name and the first
cluster are known at first. -/
inductive Resource
  | directory (name : List Byte) (cluster : Nat)
  | file (f : FATFile)
  deriving DecidableEq

def Resource.name : Resource → List Byte
  | .directory name _ => name
  | .file f => f.name

/-- The constructor of a file. -/
def FATFile.ofEntry (fs : FATFileSystem) (name : List Byte) (slot : Slot)
    (longname : Option (Nat × Nat)) : FATFile where
  name := name
  filesize := slot.entry.fileSize
  attr := slot.entry.attr
  position := 0
  clusterStart := slot.entry.cluster
  currentSector := fs.clusterToSector slot.entry.cluster
  currentCluster := slot.entry.cluster
  directorySector := slot.sector
  directoryEntryNumber := slot.number
  longname := longname

section Decode

/-- The variables of `populateDirectory` that the entries change, and the
resources added so far. `longNameEntry` has the sector and the number of the
first entry of a long name. -/
structure Names where
  longname : Option (List Byte)
  chksum : Byte
  longNameEntry : Option (Nat × Nat)
  resources : List Resource
  deriving DecidableEq

/-- A new array for a long name of so many parts. -/
def nameBuffer (fresh : Memory) (n : Nat) : List Byte := (List.range (13 * n)).map fresh ++ [0]

/-- An entry of a long name; `none` when its characters are written outside of the
array. -/
def takeLong (fresh : Memory) (slot : Slot) (s : Names) : Option Names :=
  let e := slot.entry
  let n := e.order
  let s := if e.First then
      { s with
        longname := some (nameBuffer fresh n)
        chksum := e.chksum
        longNameEntry := some (slot.sector, slot.number) }
    else s
  let s := if e.chksum ≠ s.chksum then { s with longname := none, longNameEntry := none } else s
  match s.longname with
  | none => some s
  | some longname =>
    if 0 < n then
      (overwrite longname (13 * (n - 1)) e.longChars).map fun longname =>
        { s with longname := some longname }
    else some s

/-- The array with the name of an entry that has no long name. -/
def dosName (e : DirEntry) : List Byte :=
  let name := e.dirName ++ [0, 0, 0, 0, 0]
  let name := if e.crtTimeTenth &&& 1 <<< 3 ≠ 0 then strnlower name 8 else name
  if e.crtTimeTenth &&& 1 <<< 4 ≠ 0 then name.take 8 ++ strnlower (name.drop 8) 3 else name

def directoryName (e : DirEntry) : List Byte := cstring (shortnameStrip (dosName e) 9).1

def fileName (e : DirEntry) : List Byte :=
  let (name, last) := shortnameStrip (dosName e) 7
  let lastpos := last + 1
  let ext := (name.drop 8).take 3
  if ext.getD 0 0 ≠ space then
    cstring (((((name.set lastpos dot).set (lastpos + 1) (ext.getD 0 0)).set (lastpos + 2)
      (ext.getD 1 0)).set (lastpos + 3) (ext.getD 2 0)).set (lastpos + 4) 0)
  else cstring (name.set lastpos 0)

/-- The name in the array for a long name. The position is a byte. -/
def longName (longname : List Byte) : List Byte :=
  cstring (shortnameStrip longname ((strlen longname + 255) % 2 ^ 8)).1

/-- The resource of an entry that is not part of a long name. -/
def namedResource (fs : FATFileSystem) (slot : Slot) (s : Names) : Resource :=
  let e := slot.entry
  let longname := s.longname.filter fun _ => chkSum e.dirName = s.chksum
  if e.attr &&& ATTR_DIRECTORY ≠ 0 then
    .directory (longname.elim (directoryName e) longName) e.cluster
  else .file (.ofEntry fs (longname.elim (fileName e) longName) slot s.longNameEntry)

/-- An entry that is not part of a long name. -/
def takeShort (fs : FATFileSystem) (slot : Slot) (s : Names) : Names :=
  if slot.entry.Volume then s
  else
    { s with
      longname := none
      longNameEntry := none
      resources := s.resources ++ [namedResource fs slot s] }

/-- What `populateDirectory` does with an entry. -/
def takeEntry (fs : FATFileSystem) (fresh : Memory) (slot : Slot) (s : Names) : Option Names :=
  if slot.entry.Free then some s
  else if slot.entry.LongName then takeLong fresh slot s
  else some (takeShort fs slot s)

end Decode

section Encode

variable (name : List Byte)

/-- The position of the last dot among the first 255 characters. -/
def dotpos : Option Nat :=
  (List.range (min name.length 255)).reverse.find? fun i => name.getD i 0 = dot

/-- A character of a short name. -/
def fatChar (val : Byte) : Byte :=
  if val < 32 then underscore
  else if 122 < val then underscore
  else if 96 < val then val - 32
  else val

/-- So many characters from a position on; the string ends with a zero. -/
def chars (pos len : Nat) : List Byte := ((name ++ [0]).drop pos).take len

/-- The first `n` bytes of an array that held other bytes before. -/
def padded (s : List Byte) (byte : Byte) (n : Nat) : List Byte :=
  s ++ List.replicate (n - s.length) byte

def generateShortName : List Byte :=
  -- the end of the name is looked for in its first 255 bytes only
  let len := if name.length < 255 then name.length else 0
  let shortname :=
    match dotpos name with
    | none => padded (chars name 0 (if 10 < len then 8 else len)) space 11
    | some dotpos =>
      let extLen := (((len + 256 - dotpos) % 2 ^ 8) + 255) % 2 ^ 8
      padded (chars name 0 (min dotpos 8)) space 8 ++
        padded (chars name (dotpos + 1) (min extLen 3)) space 3
  shortname.map fatChar

/-- The number of entries for a long name. -/
def longEntries : Nat := name.length / 13 + if 0 < name.length % 13 then 1 else 0

/-- The `i`-th entry of a long name. -/
def longEntry (i : Nat) : DirEntry :=
  let part := longEntries name - i
  let ord := if i = 0 then part ||| 0x40 else part
  let last := name.length - (longEntries name - 1) * 13
  let len := if i = 0 then (if last < 13 then last + 1 else last) else 13
  let temp := padded (chars name (13 * (part - 1)) len) 0xff 13
  .ofBytes ([BitVec.ofNat 8 ord] ++ ascii2unicode (temp.take 5) ++
    [BitVec.ofNat 8 ATTR_LONG_NAME, 0, chkSum (generateShortName name)] ++
    ascii2unicode ((temp.drop 5).take 6) ++ [0, 0] ++ ascii2unicode (temp.drop 11))

/-- The entry that is written behind those of the long name. -/
def shortEntry (attr cluster : Nat) : DirEntry :=
  .ofBytes (generateShortName name ++
    [BitVec.ofNat 8 attr, 0, 0, 0, 0, 0, 0, 0, 0, BitVec.ofNat 8 (cluster / 2 ^ 16),
      BitVec.ofNat 8 (cluster / 2 ^ 24), 0, 0, 0, 0, BitVec.ofNat 8 cluster,
      BitVec.ofNat 8 (cluster / 2 ^ 8), 0, 0, 0, 0])

/-- The entries of a file or directory, in their order. -/
def newEntries (attr cluster : Nat) : List DirEntry :=
  (List.range (longEntries name)).map (longEntry name) ++ [shortEntry name attr cluster]

end Encode

end Orcos.Source.Fat
