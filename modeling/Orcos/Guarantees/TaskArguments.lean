import Orcos.Guarantees.ImageAreas

/-!
# The arguments of a task

Source: src/source/process/TaskManager.cc, `loadTaskFromFile`; src/source/syscalls/sc_process.cc,
`sc_task_run`.

The length of the arguments is rounded up, taken off the room behind the name, and limits it
again: longer arguments are cut, or left out, and then no zero is put behind them.
-/
namespace Orcos.Guarantees.TaskArguments
open Lib.ByteMemory Source Source.Tasks Source.PagedRam ImageAreas

section Specification

/-- The bytes from an address on. -/
def area (m : Memory) (args : Nat) : Memory := fun i => m ((args + i) % 2 ^ 32)

/-- What the area is to have: so much as fits in 255 bytes. -/
def argumentText (name arguments : List (BitVec 8)) : List (BitVec 8) :=
  (name ++ 32 :: arguments).take 255

/-- The length of the arguments rounded up, with room for a zero, and at most 256. -/
def roundedLength (argLength : Nat) : Nat :=
  if argLength = 0 then 0 else min (4 * (argLength / 4 + 1) % 2 ^ 16) 256

/-- How many bytes there are for the arguments behind a name of `n` bytes. The rounded length is
taken off what is left, and limits it again. -/
def room (n argLength : Nat) : Nat :=
  min (roundedLength argLength) (254 - n - roundedLength argLength)

/-- There is nothing to copy, or room for some of it, and what does not get into that room is
there before. -/
def Complete (before : Memory) (name arguments : List (BitVec 8)) (argLength : Nat) : Prop :=
  254 ≤ name.length ∨ arguments = [] ∨
    0 < room name.length argLength ∧
      ∀ i, name.length + 1 + room name.length argLength ≤ i →
        i ≤ (name ++ 32 :: arguments).length → i < 255 →
          before i = (name ++ 32 :: arguments).getD i 0

variable {layout : Layout} (c : LoadConfig) (r : LoadRequest layout) (rounds : Nat)

/-- Where the arguments go. -/
def argumentArea (taskStart : Nat) : Nat := wordAdd taskStart (heapOffset c r taskStart)

/-- A task that is loaded has the text in its area, with a zero behind it, and besides the image
only the 256 bytes of the area are written. -/
def Right : Prop :=
  ∀ pages taskStart arguments, Allocates r pages taskStart → Valid c r rounds taskStart →
    r.arguments = some arguments →
    let args := argumentArea c r taskStart
    let text := argumentText r.file.name arguments
    let writes := (loadTaskFromFile c r rounds).writes
    bytesAt (area (writes.foldl store r.memory) args) 0 (text.length + 1) = text ++ [0] ∧
      ∃ own, writes = ⟨taskStart, imageBytes r⟩ :: own ∧
        ∀ w ∈ own, args ≤ w.address ∧ w.address + w.bytes.length ≤ args + 256

/-- With the image in its place the arguments are complete. -/
def Completes : Prop :=
  ∀ pages taskStart arguments, Allocates r pages taskStart → Valid c r rounds taskStart →
    r.arguments = some arguments →
    Complete (area (store r.memory ⟨taskStart, imageBytes r⟩) (argumentArea c r taskStart))
      r.file.name arguments r.argLength

/-- The arguments have no zero. -/
def IsString : Prop := ∀ arguments, r.arguments = some arguments → ∀ b ∈ arguments, b ≠ 0

end Specification

section Areas

variable {m f : Memory} {args i : Nat} {writes : List Stored}

/-- A write at an offset of the area. -/
def place (f : Memory) (w : Stored) : Memory := copyInto f w.address w.bytes

def shift (args : Nat) (w : Stored) : Stored := ⟨args + w.address, w.bytes⟩

theorem place_apply (f : Memory) (a : Nat) (bytes : List (BitVec 8)) (i : Nat) :
    place f ⟨a, bytes⟩ i =
      if a ≤ i ∧ i < a + bytes.length then bytes.getD (i - a) 0 else f i := rfl

theorem store_apply (m : Memory) (a : Nat) (bytes : List (BitVec 8)) (x : Nat) :
    store m ⟨a, bytes⟩ x =
      if offsetFrom a x < bytes.length then bytes.getD (offsetFrom a x) 0 else m x := rfl

theorem area_store {w : Stored} (fits : w.address + w.bytes.length ≤ 256) (inside : i < 256) :
    area (store m (shift args w)) args i = place (area m args) w i := by
  obtain ⟨d, bytes⟩ := w
  dsimp only at fits
  have apart : offsetFrom (args + d) ((args + i) % 2 ^ 32) =
      if d ≤ i then i - d else i + 2 ^ 32 - d := by
    rw [offsetFrom]
    split <;> omega
  have shifted : shift args ⟨d, bytes⟩ = ⟨args + d, bytes⟩ := rfl
  rw [area, shifted, store_apply, place_apply, apart]
  by_cases behind : d ≤ i
  · rw [if_pos behind]
    by_cases within : i - d < bytes.length
    · rw [if_pos within, if_pos (by omega)]
    · rw [if_neg within, if_neg (by omega), area]
  · rw [if_neg behind, if_neg (by omega), if_neg (by omega), area]

/-- Writes to the area, by their offsets. -/
theorem area_foldl (fits : ∀ w ∈ writes, w.address + w.bytes.length ≤ 256)
    (same : ∀ i < 256, area m args i = f i) (inside : i < 256) :
    area ((writes.map (shift args)).foldl store m) args i = writes.foldl place f i := by
  induction writes generalizing m f with
  | nil => exact same i inside
  | cons w writes ih =>
    rw [List.map_cons, List.foldl_cons, List.foldl_cons]
    apply ih (fun w' member => fits w' (List.mem_cons_of_mem _ member))
    intro j below
    rw [area_store (fits w List.mem_cons_self) below, place_apply, place_apply, same j below]

end Areas

section Arguments

variable {f : Memory} {name arguments : List (BitVec 8)} {argLength i : Nat}

theorem writeArguments_shift (args : Nat) :
    writeArguments args name arguments argLength =
      (writeArguments 0 name arguments argLength).map (shift args) := by
  simp only [writeArguments, List.map_append, List.map_cons, List.map_nil, shift,
    apply_ite (List.map (shift args)), Nat.zero_add, Nat.add_zero, Nat.add_assoc]

theorem alignedArgLength_eq (argLength : Nat) :
    alignedArgLength argLength = roundedLength argLength := by
  rw [alignedArgLength, roundedLength]
  split <;> split <;> omega

theorem remainingLen_eq (n argLength : Nat) :
    (remainingLen n (alignedArgLength argLength)).toNat = room n argLength := by
  rw [remainingLen, alignedArgLength_eq, room]
  split <;> omega

theorem getD_strncpy (src : List (BitVec 8)) {maxChars j : Nat} (inside : j < maxChars) :
    (Files.strncpy src maxChars).getD j 0 = src.getD j 0 := by
  rw [Files.strncpy]
  by_cases known : j < src.length
  · rw [List.getD_append _ _ _ _ (by rw [List.length_take]; omega)]
    simp [List.getD_eq_getElem?_getD, inside]
  · rw [List.getD_append_right _ _ _ _ (by rw [List.length_take]; omega),
      List.getD_eq_default src _ (by omega)]
    split
    · cases j - (src.take maxChars).length <;> rfl
    · rfl

theorem place_singleton (f : Memory) (a : Nat) (b : BitVec 8) (i : Nat) :
    place f ⟨a, [b]⟩ i = if i = a then b else f i := by
  rw [place_apply]
  by_cases here : i = a
  · rw [if_pos here, here, List.length_singleton, if_pos (by omega), Nat.sub_self]
    rfl
  · rw [if_neg here, List.length_singleton, if_neg (by omega)]

theorem place_name (f : Memory) (name : List (BitVec 8)) (i : Nat) :
    place f ⟨0, name ++ [0]⟩ i =
      if i < name.length then name.getD i 0 else if i = name.length then 0 else f i := by
  rw [place_apply, List.length_append, List.length_singleton]
  by_cases inside : i < name.length
  · rw [if_pos inside, if_pos (by omega), Nat.sub_zero, List.getD_append _ _ _ _ inside]
  · rw [if_neg inside]
    by_cases here : i = name.length
    · rw [if_pos here, if_pos (by omega), here, Nat.sub_zero,
        List.getD_append_right _ _ _ _ (Nat.le_refl _), Nat.sub_self]
      rfl
    · rw [if_neg here, if_neg (by omega)]

/-- The bytes that are copied behind the name. -/
theorem place_arguments (f : Memory) (arguments : List (BitVec 8)) (a k i : Nat) :
    place f ⟨a, Files.strncpy arguments k⟩ i =
      if a ≤ i ∧ i < a + min (arguments.length + 1) k then arguments.getD (i - a) 0 else f i := by
  rw [place_apply, Files.length_strncpy]
  by_cases inside : a ≤ i ∧ i < a + min (arguments.length + 1) k
  · rw [if_pos inside, if_pos inside, getD_strncpy arguments (by omega)]
  · rw [if_neg inside, if_neg inside]

/-- The bytes of the area after the writes, but for the last one. -/
theorem written_apply (inside : i < 255) :
    (writeArguments 0 name arguments (alignedArgLength argLength)).foldl place f i =
      if i < name.length then name.getD i 0
      else if i = name.length then 32
      else if i < name.length + 1 + min (arguments.length + 1) (room name.length argLength) then
        arguments.getD (i - (name.length + 1)) 0
      else if i = name.length + 1 then 0 else f i := by
  have length : (name.take 255).length = min 255 name.length := List.length_take
  have within := remainingLen_eq (name.take 255).length argLength
  rw [writeArguments]
  simp only [List.foldl_append, List.foldl_cons, List.foldl_nil, Nat.zero_add]
  rw [place_singleton, if_neg (by omega)]
  by_cases short : name.length < 255
  · rw [List.take_of_length_le (by omega)] at length within ⊢
    have copied : (if remainingLen name.length (alignedArgLength argLength) > 0 then
        [⟨name.length + 1, Files.strncpy arguments
          (remainingLen name.length (alignedArgLength argLength)).toNat⟩] else []).foldl place
        (place (place (place (place (place f ⟨0, [0]⟩) ⟨0, name ++ [0]⟩) ⟨255, [0]⟩)
          ⟨name.length, [32]⟩) ⟨name.length + 1, [0]⟩) i =
        if name.length + 1 ≤ i ∧
            i < name.length + 1 + min (arguments.length + 1) (room name.length argLength) then
          arguments.getD (i - (name.length + 1)) 0
        else place (place (place (place (place f ⟨0, [0]⟩) ⟨0, name ++ [0]⟩) ⟨255, [0]⟩)
          ⟨name.length, [32]⟩) ⟨name.length + 1, [0]⟩ i := by
      by_cases some_ : remainingLen name.length (alignedArgLength argLength) > 0
      · rw [if_pos some_, List.foldl_cons, List.foldl_nil, place_arguments, within]
      · rw [if_neg some_, if_neg (by omega), List.foldl_nil]
    rw [if_pos short, List.foldl_cons, List.foldl_cons, List.foldl_nil, copied]
    simp only [place_singleton, place_name]
    split_ifs <;> first | rfl | omega
  · have none_ : ¬remainingLen (name.take 255).length (alignedArgLength argLength) > 0 := by
      rw [room] at within
      omega
    rw [if_neg (by omega), if_neg none_]
    simp only [List.foldl_nil, place_singleton, place_name]
    rw [if_neg (by omega), if_pos (by omega), if_pos (by omega)]
    simp [List.getD_eq_getElem?_getD, inside]

theorem written_last :
    (writeArguments 0 name arguments argLength).foldl place f 255 = 0 := by
  rw [writeArguments, List.foldl_append, List.foldl_cons, List.foldl_nil, Nat.zero_add,
    place_singleton, if_pos rfl]

theorem argumentText_length (name arguments : List (BitVec 8)) :
    (argumentText name arguments).length = min 255 (name.length + (arguments.length + 1)) := by
  rw [argumentText, List.length_take, List.length_append, List.length_cons]

/-- The text and the zero behind it, byte by byte. -/
theorem bytesAt_text_iff (m : Memory) (text : List (BitVec 8)) :
    bytesAt m 0 (text.length + 1) = text ++ [0] ↔ ∀ i ≤ text.length, m i = text.getD i 0 := by
  have ends : ∀ i ≤ text.length, (text ++ [0]).getD i 0 = text.getD i 0 := fun i inside => by
    rcases Nat.lt_or_eq_of_le inside with below | here
    · exact List.getD_append _ _ _ _ below
    · rw [List.getD_append_right _ _ _ _ (Nat.le_of_eq here.symm), here, Nat.sub_self,
        List.getD_eq_default text _ (Nat.le_refl _)]
      rfl
  constructor
  · intro equal i inside
    have below : i < (bytesAt m 0 (text.length + 1)).length := by
      rw [length_bytesAt]
      omega
    have there := getElem_bytesAt below
    rw [Nat.zero_add] at there
    rw [← there, ← ends i inside, ← equal, List.getD_eq_getElem _ _ below]
  · intro same
    apply List.ext_getElem (by simp)
    intro i below below'
    have inside : i ≤ text.length := by
      rw [length_bytesAt] at below
      omega
    rw [getElem_bytesAt, Nat.zero_add, same i inside, ← ends i inside,
      List.getD_eq_getElem _ _ below']

theorem argumentText_getD (i : Nat) :
    (argumentText name arguments).getD i 0 =
      if i < 255 then (name ++ 32 :: arguments).getD i 0 else 0 := by
  rw [argumentText, List.getD_eq_getElem?_getD, List.getElem?_take, List.getD_eq_getElem?_getD]
  split <;> rfl

/-- What the whole text has at a place. -/
theorem whole_getD (name arguments : List (BitVec 8)) (i : Nat) :
    (name ++ 32 :: arguments).getD i 0 =
      if i < name.length then name.getD i 0
      else if i = name.length then 32 else arguments.getD (i - (name.length + 1)) 0 := by
  rcases Nat.lt_trichotomy i name.length with below | here | behind
  · rw [if_pos below, List.getD_append _ _ _ _ below]
  · rw [if_neg (by omega), if_pos here, here, List.getD_append_right _ _ _ _ (Nat.le_refl _),
      Nat.sub_self]
    rfl
  · rw [if_neg (by omega), if_neg (by omega), List.getD_append_right _ _ _ _ (by omega)]
    obtain ⟨k, rfl⟩ := Nat.exists_eq_add_of_lt behind
    rw [show name.length + k + 1 - name.length = k + 1 by omega,
      show name.length + k + 1 - (name.length + 1) = k by omega]
    rfl

/-- The text is in the area if and only if the arguments are complete. -/
theorem text_iff (string : ∀ b ∈ arguments, b ≠ 0) :
    (∀ i ≤ (argumentText name arguments).length,
      (writeArguments 0 name arguments (alignedArgLength argLength)).foldl place f i =
        (argumentText name arguments).getD i 0) ↔ Complete f name arguments argLength := by
  have length := argumentText_length name arguments
  have total : (name ++ 32 :: arguments).length = name.length + (arguments.length + 1) := by
    rw [List.length_append, List.length_cons]
  constructor
  · intro same
    by_cases long : 254 ≤ name.length
    · exact .inl long
    by_cases none_ : arguments = []
    · exact .inr (.inl none_)
    have some_ : 0 < arguments.length := List.length_pos_of_ne_nil none_
    right
    right
    have copied : 0 < room name.length argLength := by
      by_contra nothing
      -- the zero behind the name stays
      have first := same (name.length + 1) (by omega)
      rw [written_apply (by omega), if_neg (by omega), if_neg (by omega), if_neg (by omega),
        if_pos rfl, argumentText_getD, if_pos (by omega), whole_getD, if_neg (by omega),
        if_neg (by omega), Nat.sub_self, List.getD_eq_getElem _ _ some_] at first
      exact string _ (List.getElem_mem some_) first.symm
    refine ⟨copied, fun i behind inside below => ?_⟩
    have there := same i (by omega)
    rw [written_apply below, if_neg (by omega), if_neg (by omega), if_neg (by omega),
      if_neg (by omega), argumentText_getD, if_pos below] at there
    exact there
  · intro complete i inside
    by_cases last : i = 255
    · rw [last, written_last, argumentText_getD, if_neg (by omega)]
    have below : i < 255 := by omega
    rw [written_apply below, argumentText_getD, if_pos below]
    by_cases named : i ≤ name.length
    · rw [whole_getD]
      split_ifs <;> first | rfl | omega
    have whole := whole_getD name arguments i
    rw [if_neg (by omega), if_neg (by omega)] at whole
    rw [if_neg (by omega), if_neg (by omega)]
    by_cases copied : i < name.length + 1 +
        min (arguments.length + 1) (room name.length argLength)
    · rw [if_pos copied, whole]
    · rw [if_neg copied]
      rcases complete with long | none_ | ⟨some_, rest⟩
      · omega
      · have empty : arguments.length = 0 := by rw [none_]; rfl
        have here : i = name.length + 1 := by omega
        rw [if_pos here, whole, none_]
        rfl
      · rw [if_neg (by omega)]
        exact rest i (by omega) (by omega) below

end Arguments
section Calls

variable {layout : Layout} {c : LoadConfig} {r : LoadRequest layout} {rounds taskStart : Nat}
  {pages : PageMap layout} {arguments : List (BitVec 8)}

/-- What a call writes for a valid task. -/
theorem writes_valid (allocates : Allocates r pages taskStart) (valid : Valid c r rounds taskStart)
    (given : r.arguments = some arguments) :
    (loadTaskFromFile c r rounds).writes = ⟨taskStart, imageBytes r⟩ ::
      writeArguments (argumentArea c r taskStart) r.file.name arguments
        (alignedArgLength r.argLength) := by
  have course : Course c r rounds taskStart (loadTaskFromFile c r rounds) := course allocates
  generalize loadTaskFromFile c r rounds = load at course
  cases course with
  | waits waits => exact absurd valid.returns waits
  | abandons _ invalid => exact absurd valid invalid
  | prepares _ => rw [prepareTask, argumentWrites, given, argumentArea]

/-- The text is in the area of one call. -/
theorem stored_iff (allocates : Allocates r pages taskStart) (valid : Valid c r rounds taskStart)
    (given : r.arguments = some arguments) (string : ∀ b ∈ arguments, b ≠ 0) :
    bytesAt (area ((loadTaskFromFile c r rounds).writes.foldl store r.memory)
        (argumentArea c r taskStart)) 0 ((argumentText r.file.name arguments).length + 1) =
      argumentText r.file.name arguments ++ [0] ↔
    Complete (area (store r.memory ⟨taskStart, imageBytes r⟩) (argumentArea c r taskStart))
      r.file.name arguments r.argLength := by
  rw [bytesAt_text_iff, ← text_iff string]
  have length := argumentText_length r.file.name arguments
  apply forall₂_congr
  intro i inside
  have fits : ∀ w ∈ writeArguments 0 r.file.name arguments (alignedArgLength r.argLength),
      w.address + w.bytes.length ≤ 256 := fun w member => by
    have within := (writeArguments_within member).2
    omega
  rw [writes_valid allocates valid given, List.foldl_cons, writeArguments_shift,
    area_foldl fits (fun _ _ => rfl) (by omega)]

theorem load_right_iff (string : IsString r) : Right c r rounds ↔ Completes c r rounds := by
  constructor
  · intro right pages taskStart arguments allocates valid given
    exact (stored_iff allocates valid given (string _ given)).1
      (right pages taskStart arguments allocates valid given).1
  · intro completes pages taskStart arguments allocates valid given
    constructor
    · exact (stored_iff allocates valid given (string _ given)).2
        (completes pages taskStart arguments allocates valid given)
    · exact ⟨_, writes_valid allocates valid given, fun w member => writeArguments_within member⟩

end Calls

theorem string_request (n : Nat) : IsString (request n) := by
  intro arguments given b member
  cases given
  rw [List.eq_of_mem_replicate member]
  decide

/-- Arguments of 127 characters are cut. -/
theorem load_right_iff_cut :
    Right config (request 127) 1 ↔ Completes config (request 127) 1 :=
  load_right_iff (string_request 127)

/-- Of 126 characters behind sh, 124 are copied, without a zero. -/
theorem arguments_cut : ¬ ∀ (c : LoadConfig) (r : LoadRequest .twoPages) (rounds : Nat),
    IsString r → Right c r rounds := by
  intro all
  have right := all config (request 126) 1 (string_request 126)
  have allocated : (allocPhysical (PageMap.allFree .twoPages) (taskSize (request 126)) 1).any
      (fun answer => answer.2 = 0x100000) = true := by decide +kernel
  obtain ⟨⟨pages, taskStart⟩, result, start⟩ := (Option.any_eq_true _ _).mp allocated
  have here : taskStart = 0x100000 := of_decide_eq_true start
  subst here
  have allocates : Allocates (request 126) pages 0x100000 := ⟨Nat.one_ne_zero, result, by decide⟩
  have valid : Valid config (request 126) 1 0x100000 :=
    ⟨by decide, cOk, by decide +kernel, by decide⟩
  have stored := (right pages 0x100000 _ allocates valid rfl).1
  have complete := (stored_iff allocates valid rfl (string_request 126 _ rfl)).1 stored
  rcases complete with long | none_ | ⟨_, rest⟩
  · exact absurd long (by decide)
  · exact absurd none_ (List.cons_ne_nil _ _)
  · exact absurd (rest 127 (by decide +kernel) (by decide +kernel) (by decide)) (by decide +kernel)

end Orcos.Guarantees.TaskArguments
