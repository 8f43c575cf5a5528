import Orcos.Source.Usb.USBHostController

/-!
# The parse of a device's descriptors

Source: src/source/arch/shared/usb/USBHostController.cc, `enumerateDevice`.

The parse follows the length fields of the device. The property and the condition on the answers
under which it holds are stated apart from the loops: by the places where the descriptors begin.
-/
namespace Orcos.Guarantees.DeviceEnumeration
open Lib.ByteMemory Source Source.Usb

section Specification

/-- A read is inside the bytes received, a store inside the array of five endpoints. -/
def Inside : Access → Prop
  | .read received offset length => offset + length ≤ received
  | .store endpoint => endpoint < 5

variable {δ : Type}

/-- The enumeration ends, and all that it has accessed is inside. -/
def Safe (run : Nat → Option (Enumeration δ)) : Prop :=
  ∃ fuel e, run fuel = some e ∧ ∀ access ∈ e.accesses, Inside access

variable (m : Memory) (received : Nat)

/-- Where the descriptor behind the one at `descr` begins. -/
def following (descr : Nat) : Nat := descr + (m descr).toNat

/-- Where the `k`-th descriptor behind that of the interface begins. -/
def place (k : Nat) : Nat := (following m)^[k] 18

/-- How many bytes the code has counted at a place: it adds the length the interface descriptor
states, and goes on behind the 9 bytes it has. -/
def counted (descr : Nat) : Nat := descr - 9 + (m 9).toNat

def totalLength : Nat := read16 m 2

/-- A custom descriptor that the code can skip. -/
structure Custom (descr : Nat) : Prop where
  inside : descr + 2 ≤ received
  type : m (descr + 1) ≠ 5
  before : counted m descr < totalLength m
  nonempty : 0 < (m descr).toNat

/-- An endpoint descriptor behind which the code goes on. -/
structure Endpoint (descr : Nat) : Prop where
  before : counted m descr ≤ totalLength m
  type : m (descr + 1) = 5

/-- The first `skipped` descriptors are custom ones with a length; behind them the type of an
endpoint descriptor, or the end, is received; and each endpoint that the code comes to is one of
the first four, and received as a whole if it begins before the end. -/
def Orderly : Prop :=
  ∃ skipped,
    (∀ k < skipped, Custom m received (place m k)) ∧
    place m skipped + 2 ≤ received ∧
    (m (place m skipped + 1) = 5 ∨ totalLength m ≤ counted m (place m skipped)) ∧
    ∀ i < (m 13).toNat, (∀ j < i, Endpoint m (place m (skipped + j))) →
      i < 4 ∧ (counted m (place m (skipped + i)) ≤ totalLength m →
        place m (skipped + i) + 7 ≤ received)

/-- The configuration descriptor, if it is received, is orderly. -/
def ConfigurationFits (m : Memory) (a : Answers δ) : Prop :=
  ∀ bytes, a.configuration = some bytes →
    Orderly (clearAndReceive m (bytes.take 0xff)) (bytes.take 0xff).length

/-- The device gets an address. -/
def Addressed (freeDeviceIDs : IDMap) (a : Answers δ) : Prop :=
  freeDeviceIDs.getNextID.2 ≠ -1 ∧ 0 ≤ a.setAddress

/-- A first answer below 18 bytes is followed by a second one of at least 18. -/
def DescriptionFits (m : Memory) (retLen : Nat) (a : Answers δ) : Prop :=
  if retLen < 18 then ∀ again, a.secondDescriptor = some again →
    18 ≤ again.length ∧ ConfigurationFits (copyInto m 0 (again.take 0x40)) a
  else ConfigurationFits m a

/-- The first answer has a byte, and is as long as this byte says; the others are only looked at
when that length is valid, the port is reset and the device gets an address. -/
def Fits (m : Memory) (a : Answers δ) (dev : USBDevice δ) (freeDeviceIDs : IDMap) : Prop :=
  ∀ bytes, a.deviceDescriptor = some bytes →
    let m := copyInto m 0 (bytes.take 0x40)
    1 ≤ bytes.length ∧ (0 < (m 0).toNat ∧ (m 0).toNat ≤ 18 → (m 0).toNat ≤ bytes.length ∧
      (¬(dev.parent.isNone ∧ isError a.resetPort) → Addressed freeDeviceIDs a →
        DescriptionFits m bytes.length a))

end Specification

section Parse

variable {m : Memory} {received : Nat}

theorem counted_following {descr : Nat} (behind : 9 ≤ descr) :
    counted m descr + (m descr).toNat = counted m (following m descr) := by
  simp only [counted, following]
  omega

/-- What the loop over custom descriptors has found when it ends. -/
structure Skipped (m : Memory) (received descr : Nat) (k : Nat) : Prop where
  custom : ∀ j < k, Custom m received ((following m)^[j] descr)
  inside : (following m)^[k] descr + 2 ≤ received
  last : m ((following m)^[k] descr + 1) = 5 ∨ totalLength m ≤ counted m ((following m)^[k] descr)

theorem skipUnknown_skipped (fuel descr : Nat) (behind : 9 ≤ descr) (accesses : List Access)
    (last bytesRead : Nat)
    (ran : skipUnknown m received (totalLength m) fuel descr (counted m descr) =
      some (accesses, last, bytesRead))
    (inside : ∀ access ∈ accesses, Inside access) :
    ∃ k, Skipped m received descr k ∧ last = (following m)^[k] descr ∧
      bytesRead = counted m last := by
  induction fuel generalizing descr accesses with
  | zero => cases ran
  | succ fuel ih =>
    rw [skipUnknown] at ran
    by_cases custom : m (descr + 1) ≠ 5 ∧ counted m descr < totalLength m
    · rw [if_pos custom] at ran
      obtain ⟨⟨accesses, last, bytesRead⟩, looped, same⟩ := Option.map_eq_some_iff.mp ran
      cases same
      rw [counted_following behind] at looped
      have received_ : descr + 1 + 1 ≤ received := inside (.read received (descr + 1) 1) (by simp)
      obtain ⟨k, skipped, rfl, rfl⟩ := ih (following m descr) (by simp only [following]; omega)
        accesses looped fun access later => inside access (by simp [later])
      have nonempty : 0 < (m descr).toNat := by
        -- an empty descriptor is its own successor, and the loop does not end there
        by_contra empty
        have stays : following m descr = descr := by simp only [following]; omega
        have fixed : (following m)^[k] (following m descr) = descr := by
          rw [stays]
          exact Function.iterate_fixed stays k
        have ends := skipped.last
        rw [fixed] at ends
        exact ends.elim custom.1 (by omega)
      refine ⟨k + 1, ⟨fun j below => ?_, skipped.inside, skipped.last⟩, rfl, rfl⟩
      cases j with
      | zero => exact ⟨received_, custom.1, custom.2, nonempty⟩
      | succ j => exact skipped.custom j (by omega)
    · rw [if_neg custom] at ran
      simp only [Option.some.injEq, Prod.mk.injEq] at ran
      obtain ⟨rfl, rfl, rfl⟩ := ran
      have received_ : descr + 1 + 1 ≤ received := inside (.read received (descr + 1) 1) (by simp)
      refine ⟨0, ⟨fun j below => absurd below (by omega), received_, ?_⟩, rfl, rfl⟩
      by_cases type : m (descr + 1) = 5
      · exact .inl type
      · exact .inr (not_lt.mp fun before => custom ⟨type, before⟩)

theorem skipUnknown_of_skipped (k descr : Nat) (behind : 9 ≤ descr)
    (skipped : Skipped m received descr k) :
    ∃ accesses, skipUnknown m received (totalLength m) (k + 1) descr (counted m descr) =
      some (accesses, (following m)^[k] descr, counted m ((following m)^[k] descr)) ∧
      ∀ access ∈ accesses, Inside access := by
  induction k generalizing descr with
  | zero =>
    have ends : ¬(m (descr + 1) ≠ 5 ∧ counted m descr < totalLength m) := by
      rcases skipped.last with type | over_
      · exact fun custom => custom.1 type
      · exact fun custom => absurd custom.2 (not_lt.mpr over_)
    refine ⟨[.read received (descr + 1) 1], ?_, fun access member => ?_⟩
    · rw [skipUnknown, if_neg ends]
      rfl
    · rw [List.mem_singleton.mp member]
      exact skipped.inside
  | succ k ih =>
    have custom := skipped.custom 0 (by omega)
    have rest : Skipped m received (following m descr) k :=
      ⟨fun j below => skipped.custom (j + 1) (by omega), skipped.inside, skipped.last⟩
    obtain ⟨accesses, ran, inside⟩ := ih (following m descr) (by simp only [following]; omega) rest
    refine ⟨.read received (descr + 1) 1 :: .read received descr 1 :: accesses, ?_, ?_⟩
    · rw [skipUnknown, if_pos ⟨custom.type, custom.before⟩]
      dsimp only
      rw [counted_following behind]
      exact Option.map_eq_some_iff.mpr ⟨_, ran, rfl⟩
    · have here : descr + 2 ≤ received := custom.inside
      intro access member
      rcases List.mem_cons.mp member with rfl | member
      · exact here
      rcases List.mem_cons.mp member with rfl | member
      · exact (by omega : descr + 1 ≤ received)
      · exact inside access member

/-- The endpoints from the place on are stored and read inside. -/
def EndpointsFit (m : Memory) (received descr i remaining : Nat) : Prop :=
  ∀ n < remaining, (∀ j < n, Endpoint m ((following m)^[j] descr)) →
    i + n < 4 ∧ (counted m ((following m)^[n] descr) ≤ totalLength m →
      (following m)^[n] descr + 7 ≤ received)

/-- The first endpoint, and those behind it if the code goes on. -/
theorem endpointsFit_succ (descr i remaining : Nat) :
    EndpointsFit m received descr i (remaining + 1) ↔
      (i < 4 ∧ (counted m descr ≤ totalLength m → descr + 7 ≤ received)) ∧
        (Endpoint m descr → EndpointsFit m received (following m descr) (i + 1) remaining) := by
  constructor
  · intro fits
    refine ⟨fits 0 (by omega) fun j below => absurd below (by omega), fun first n below rest => ?_⟩
    have next := fits (n + 1) (by omega) fun j before => by
      cases j with
      | zero => exact first
      | succ j => exact rest j (by omega)
    exact ⟨by omega, next.2⟩
  · rintro ⟨first, later⟩ n below endpoints
    cases n with
    | zero => exact first
    | succ n =>
      have next := later (endpoints 0 (by omega)) n (by omega) fun j before =>
        endpoints (j + 1) (by omega)
      exact ⟨by omega, next.2⟩

variable {δ : Type}

theorem readEndpoints_inside (remaining i descr : Nat) (behind : 9 ≤ descr) (dev : USBDevice δ) :
    (∀ access ∈ (readEndpoints m received (totalLength m) remaining i descr (counted m descr)
      dev).1, Inside access) ↔ EndpointsFit m received descr i remaining := by
  induction remaining generalizing i descr dev with
  | zero =>
    apply iff_of_true
    · intro access member
      cases member
    · intro n below
      exact absurd below (by omega)
  | succ remaining ih =>
    have stored : Inside (.store (i + 1)) ↔ i < 4 := Nat.succ_lt_succ_iff
    have read : Inside (.read received descr 7) ↔ descr + 7 ≤ received := Iff.rfl
    rw [endpointsFit_succ, readEndpoints]
    dsimp only
    by_cases beyond : counted m descr > totalLength m
    · rw [if_pos beyond, List.forall_mem_singleton, stored]
      have stops : ¬Endpoint m descr := fun endpoint => absurd endpoint.before (by omega)
      constructor
      · exact fun few => ⟨⟨few, fun within => absurd within (by omega)⟩,
          fun goes => absurd goes stops⟩
      · exact fun fits => fits.1.1
    · have within : counted m descr ≤ totalLength m := by omega
      by_cases type : m (descr + 1) = 5
      · have goes : Endpoint m descr := ⟨within, type⟩
        rw [if_neg beyond, if_neg (not_not.mpr type), counted_following behind]
        simp only [List.cons_append, List.nil_append, List.forall_mem_cons, stored, read]
        have rest := ih (i + 1) (following m descr) (by simp only [following]; omega)
        constructor
        · rintro ⟨few, inside, _, later⟩
          exact ⟨⟨few, fun _ => inside⟩, fun _ => (rest _).mp later⟩
        · rintro ⟨⟨few, inside⟩, later⟩
          exact ⟨few, inside within, few, (rest _).mpr (later goes)⟩
      · have stops : ¬Endpoint m descr := fun endpoint => type endpoint.type
        rw [if_neg beyond, if_pos type]
        simp only [List.forall_mem_cons, stored, read]
        constructor
        · rintro ⟨few, inside, _⟩
          exact ⟨⟨few, fun _ => inside⟩, fun goes => absurd goes stops⟩
        · rintro ⟨⟨few, inside⟩, _⟩
          exact ⟨few, inside within, few, fun access member => by cases member⟩

/-- The parse of a configuration that is received. -/
theorem parse_inside_iff (dev : USBDevice δ) :
    (∃ fuel skipped descr bytesRead,
      skipUnknown m received (totalLength m) fuel 18 (9 + (m 9).toNat) =
        some (skipped, descr, bytesRead) ∧
      ∀ access ∈ [.read received 0 9, .read received 9 9] ++ skipped ++
        (readEndpoints m received (totalLength m) (m 13).toNat 0 descr bytesRead dev).1,
        Inside access) ↔
    Orderly m received := by
  have start : 9 + (m 9).toNat = counted m 18 := by simp only [counted]
  have places : ∀ k, 18 ≤ place m k := fun k => by
    induction k with
    | zero => exact Nat.le_refl 18
    | succ k ih =>
      rw [place, Function.iterate_succ_apply']
      exact le_trans ih (Nat.le_add_right _ _)
  have shifted : ∀ k n, (following m)^[n] (place m k) = place m (k + n) := fun k n => by
    rw [place, ← Function.iterate_add_apply, Nat.add_comm, place]
  have fits : ∀ k, EndpointsFit m received (place m k) 0 (m 13).toNat ↔
      ∀ i < (m 13).toNat, (∀ j < i, Endpoint m (place m (k + j))) →
        i < 4 ∧ (counted m (place m (k + i)) ≤ totalLength m →
          place m (k + i) + 7 ≤ received) := fun k => by
    simp only [EndpointsFit, shifted, Nat.zero_add]
  rw [start]
  constructor
  · rintro ⟨fuel, skipped, descr, bytesRead, ran, inside⟩
    obtain ⟨k, found, rfl, rfl⟩ := skipUnknown_skipped fuel 18 (by omega) skipped descr bytesRead
      ran fun access member => inside access (by simp [member])
    have behind : 9 ≤ place m k := le_trans (by omega) (places k)
    refine ⟨k, found.custom, found.inside, found.last, (fits k).mp ?_⟩
    apply (readEndpoints_inside (m 13).toNat 0 (place m k) behind dev).mp
    exact fun access member => inside access (List.mem_append_right _ member)
  · rintro ⟨k, custom, inside, last, endpoints⟩
    obtain ⟨skipped, ran, read⟩ := skipUnknown_of_skipped k 18 (by omega) ⟨custom, inside, last⟩
    refine ⟨k + 1, skipped, _, _, ran, ?_⟩
    have stored := (readEndpoints_inside (m 13).toNat 0 _ (le_trans (by omega) (places k)) dev).mpr
      ((fits k).mpr endpoints)
    have long : 18 ≤ received := le_trans (le_trans (places k) (Nat.le_add_right _ 2)) inside
    have header : ∀ access ∈ [Access.read received 0 9, .read received 9 9], Inside access := by
      simp only [List.forall_mem_cons, Inside]
      exact ⟨by omega, by omega, fun access member => by cases member⟩
    intro access member
    rcases List.mem_append.mp member with member | member
    · rcases List.mem_append.mp member with member | member
      · exact header access member
      · exact read access member
    · exact stored access member

end Parse

section Stages

variable {δ : Type} {m : Memory} {a : Answers δ} {e : Enumeration δ}

/-- What has been accessed so far is inside. -/
def SoFar (e : Enumeration δ) : Prop := ∀ access ∈ e.accesses, Inside access

theorem soFar_access (e : Enumeration δ) (accesses : List Access) :
    SoFar (e.access accesses) ↔ SoFar e ∧ ∀ access ∈ accesses, Inside access :=
  List.forall_mem_append

theorem soFar_loadDriver : SoFar (loadDriver a e) ↔ SoFar e := by
  unfold loadDriver
  split
  · apply (soFar_access _ _).trans
    exact and_iff_left fun access member => by
      rw [List.mem_singleton.mp member]
      exact (by decide : 1 < 5)
  · split
    · exact Iff.rfl
    · exact Iff.rfl

theorem soFar_setConfiguration (result : ErrorT) :
    SoFar (setConfiguration a e result) ↔ SoFar e := by
  unfold setConfiguration
  split
  · exact Iff.rfl
  · split
    · exact Iff.rfl
    · exact soFar_loadDriver

theorem safe_some {e : Enumeration δ} : Safe (fun _ => some e) ↔ SoFar e := by
  constructor
  · rintro ⟨_, _, ran, inside⟩
    cases ran
    exact inside
  · exact fun inside => ⟨0, e, rfl, inside⟩

/-- The parse decides what is accessed; the steps behind it add nothing outside. -/
theorem configure_parsed {bytes : List (BitVec 8)} (configuration : a.configuration = some bytes)
    (fuel : Nat) {skipped : List Access} {descr bytesRead : Nat} {data : List (BitVec 8)}
    {m' : Memory} (data_eq : data = bytes.take 0xff) (m'_eq : m' = clearAndReceive m data)
    {dev : USBDevice δ}
    (dev_eq : dev = { e.dev with ifDescr := bytesAt m' 9 9, numEndpoints := (m' 13).toNat })
    (looped : skipUnknown m' data.length (totalLength m') fuel 18 (9 + (m' 9).toNat) =
      some (skipped, descr, bytesRead)) :
    ∃ e', configure m a e fuel = some e' ∧ (SoFar e' ↔ SoFar e ∧
      ∀ access ∈ [.read data.length 0 9, .read data.length 9 9] ++ skipped ++
        (readEndpoints m' data.length (totalLength m') (m' 13).toNat 0 descr bytesRead dev).1,
        Inside access) := by
  subst data_eq m'_eq dev_eq
  simp only [configure, configuration, dataPhase]
  simp only [totalLength] at looped ⊢
  rw [looped]
  exact ⟨_, rfl, (soFar_setConfiguration _).trans (soFar_access _ _)⟩

theorem configure_safe_iff :
    Safe (configure m a e) ↔ SoFar e ∧ ConfigurationFits m a := by
  cases configuration : a.configuration with
  | none =>
    have refused : configure m a e = fun _ => some (e.return_ cError) := by
      funext fuel
      simp only [configure, configuration]
    have fits : ConfigurationFits m a := fun bytes stated => by simp [configuration] at stated
    rw [refused, safe_some]
    exact (and_iff_left fits).symm
  | some bytes =>
    have orderly : ConfigurationFits m a ↔
        Orderly (clearAndReceive m (bytes.take 0xff)) (bytes.take 0xff).length := by
      simp [ConfigurationFits, configuration]
    rw [orderly, ← parse_inside_iff { e.dev with
      ifDescr := bytesAt (clearAndReceive m (bytes.take 0xff)) 9 9,
      numEndpoints := (clearAndReceive m (bytes.take 0xff) 13).toNat }]
    constructor
    · rintro ⟨fuel, e', ran, inside⟩
      cases looped : skipUnknown (clearAndReceive m (bytes.take 0xff))
          (bytes.take 0xff).length (totalLength (clearAndReceive m (bytes.take 0xff)))
          fuel 18 (9 + (clearAndReceive m (bytes.take 0xff) 9).toNat) with
      | none =>
        simp only [totalLength] at looped
        simp only [configure, configuration, dataPhase, looped] at ran
        cases ran
      | some found =>
        obtain ⟨skipped, descr, bytesRead⟩ := found
        obtain ⟨e'', stopped, both⟩ := configure_parsed configuration fuel rfl rfl rfl looped
        cases ran.symm.trans stopped
        obtain ⟨before, parsed⟩ := both.mp inside
        exact ⟨before, fuel, skipped, descr, bytesRead, looped, parsed⟩
    · rintro ⟨before, fuel, skipped, descr, bytesRead, looped, parsed⟩
      obtain ⟨e', ran, both⟩ := configure_parsed configuration fuel rfl rfl rfl looped
      exact ⟨fuel, e', ran, both.mpr ⟨before, parsed⟩⟩

theorem describeAgain_safe_iff :
    Safe (describeAgain m a e) ↔ SoFar e ∧ ∀ again, a.secondDescriptor = some again →
      18 ≤ again.length ∧ ConfigurationFits (copyInto m 0 (again.take 0x40)) a := by
  cases answer : a.secondDescriptor with
  | none =>
    have refused : describeAgain m a e = fun _ => some (e.return_ cError) := by
      funext fuel
      simp only [describeAgain, answer]
    rw [refused, safe_some]
    exact (and_iff_left fun again stated => by cases stated).symm
  | some again =>
    have goes : describeAgain m a e = configure (copyInto m 0 (again.take 0x40)) a
        ({ e with dev := e.dev.copyDescriptor (copyInto m 0 (again.take 0x40)) 18 }.access
          [.read (again.take 0x40).length 0 18]) := by
      funext fuel
      simp only [describeAgain, answer, dataPhase]
    have whole : Inside (.read (again.take 0x40).length 0 18) ↔ 18 ≤ again.length := by
      simp only [Inside, List.length_take]
      omega
    rw [goes, configure_safe_iff, soFar_access, List.forall_mem_singleton, whole, and_assoc]
    simp only [Option.some.injEq, forall_eq']
    exact Iff.rfl

theorem address_safe_iff (retLen : Nat) :
    Safe (address m a retLen e) ↔
      SoFar e ∧ (Addressed e.freeDeviceIDs a → DescriptionFits m retLen a) := by
  unfold DescriptionFits
  cases drawn : e.freeDeviceIDs.getNextID with
  | mk ids nextId =>
    have addressed : Addressed e.freeDeviceIDs a ↔ nextId ≠ -1 ∧ 0 ≤ a.setAddress := by
      rw [Addressed, drawn]
    rw [addressed]
    by_cases full : nextId = -1
    · have refused : address m a retLen e =
          fun _ => some ({ e with freeDeviceIDs := ids }.return_ cError) := by
        funext fuel
        simp only [address, drawn, if_pos full]
      rw [refused, safe_some]
      exact (and_iff_left fun fits => absurd full fits.1).symm
    have same : SoFar ({ e with freeDeviceIDs := ids }.assign nextId) ↔ SoFar e := by
      apply (soFar_access _ _).trans
      exact and_iff_left (List.forall_mem_singleton.mpr (by decide : 0 < 5))
    by_cases failed : a.setAddress < 0
    · have refused : address m a retLen e =
          fun _ => some (({ e with freeDeviceIDs := ids }.assign nextId).return_ cError) := by
        funext fuel
        simp only [address, drawn, if_neg full, if_pos failed]
      rw [refused, safe_some]
      exact same.trans (and_iff_left fun fits => absurd fits.2 (not_le.mpr failed)).symm
    have goes : nextId ≠ -1 ∧ 0 ≤ a.setAddress := ⟨full, not_lt.mp failed⟩
    rw [forall_prop_of_true goes]
    by_cases short : retLen < 18
    · have next : address m a retLen e =
          describeAgain m a ({ e with freeDeviceIDs := ids }.assign nextId) := by
        funext fuel
        simp only [address, drawn, if_neg full, if_neg failed, if_pos short]
      rw [next, describeAgain_safe_iff, same, if_pos short]
    · have next : address m a retLen e =
          configure m a ({ e with freeDeviceIDs := ids }.assign nextId) := by
        funext fuel
        simp only [address, drawn, if_neg full, if_neg failed, if_neg short]
      rw [next, configure_safe_iff, same, if_neg short]

theorem describe_safe_iff :
    Safe (describe m a e) ↔ SoFar e ∧ Fits m a e.dev e.freeDeviceIDs := by
  cases answer : a.deviceDescriptor with
  | none =>
    have refused : describe m a e = fun _ => some (e.return_ cError) := by
      funext fuel
      simp only [describe, answer]
    rw [refused, safe_some]
    exact (and_iff_left fun bytes stated => by simp [answer] at stated).symm
  | some bytes =>
    have stated : Fits m a e.dev e.freeDeviceIDs ↔ 1 ≤ bytes.length ∧
        (0 < (copyInto m 0 (bytes.take 0x40) 0).toNat ∧
          (copyInto m 0 (bytes.take 0x40) 0).toNat ≤ 18 →
        (copyInto m 0 (bytes.take 0x40) 0).toNat ≤ bytes.length ∧
        (¬(e.dev.parent.isNone ∧ isError a.resetPort) → Addressed e.freeDeviceIDs a →
          DescriptionFits (copyInto m 0 (bytes.take 0x40)) bytes.length a)) := by
      simp only [Fits, answer, Option.some.injEq, forall_eq']
    rw [stated]
    generalize first : copyInto m 0 (bytes.take 0x40) = m'
    have one : Inside (.read (bytes.take 0x40).length 0 1) ↔ 1 ≤ bytes.length := by
      simp only [Inside, List.length_take]
      omega
    have begun : SoFar (e.access [.read (bytes.take 0x40).length 0 1]) ↔
        SoFar e ∧ 1 ≤ bytes.length := by
      rw [soFar_access, List.forall_mem_singleton, one]
    by_cases valid : 0 < (m' 0).toNat ∧ (m' 0).toNat ≤ 18
    · rw [forall_prop_of_true valid]
      have short : (bytes.take 0x40).length < 18 ↔ bytes.length < 18 := by
        rw [List.length_take]
        omega
      have copied : Inside (.read (bytes.take 0x40).length 0 (m' 0).toNat) ↔
          (m' 0).toNat ≤ bytes.length := by
        simp only [Inside, List.length_take]
        omega
      have touched : SoFar ((e.access [.read (bytes.take 0x40).length 0 1]).copyDescriptor m'
            (bytes.take 0x40).length (m' 0).toNat) ↔
          SoFar e ∧ 1 ≤ bytes.length ∧ (m' 0).toNat ≤ bytes.length := by
        apply (soFar_access _ _).trans
        rw [List.forall_mem_singleton, copied, ← and_assoc]
        exact and_congr_left fun _ => begun
      by_cases reset : e.dev.parent.isNone ∧ isError a.resetPort
      · have refused : describe m a e = fun _ => some
            (((e.access [.read (bytes.take 0x40).length 0 1]).copyDescriptor m'
              (bytes.take 0x40).length (m' 0).toNat).return_ a.resetPort) := by
          funext fuel
          simp only [describe, answer, dataPhase, first, if_pos valid]
          exact if_pos reset
        rw [refused, safe_some]
        apply touched.trans
        have unreached : ∀ {p : Prop}, ¬(e.dev.parent.isNone ∧ isError a.resetPort) → p :=
          fun fits => absurd reset fits
        exact and_congr_right fun _ => and_congr_right fun _ => (and_iff_left unreached).symm
      · have next : describe m a e = address m' a (bytes.take 0x40).length
            ((e.access [.read (bytes.take 0x40).length 0 1]).copyDescriptor m'
              (bytes.take 0x40).length (m' 0).toNat) := by
          funext fuel
          simp only [describe, answer, dataPhase, first, if_pos valid]
          exact if_neg reset
        rw [next, address_safe_iff, touched, forall_prop_of_true reset]
        have same : DescriptionFits m' (bytes.take 0x40).length a ↔
            DescriptionFits m' bytes.length a := by
          simp only [DescriptionFits, short]
        rw [same]
        simp only [and_assoc]
        exact Iff.rfl
    · have refused : describe m a e = fun _ => some
          ((e.access [.read (bytes.take 0x40).length 0 1]).return_ cError) := by
        funext fuel
        simp only [describe, answer, dataPhase, first, if_neg valid]
      rw [refused, safe_some]
      apply begun.trans
      exact and_congr_right fun _ => (and_iff_left fun fits => absurd fits valid).symm

/-- A device whose configuration has, behind the interface, a descriptor of length zero. -/
def stuckAnswers : Answers Unit where
  deviceDescriptor := some [18, 1, 0, 2, 0, 0, 0, 64, 0x24, 4, 0, 1, 0, 1, 1, 2, 3, 1]
  resetPort := cOk
  setAddress := 0
  secondDescriptor := none
  configuration := some [9, 2, 25, 0, 1, 1, 0, 0x80, 50, 9, 4, 0, 0, 1, 0xff, 0, 0, 0,
    0, 0x24, 0, 0, 0, 0, 0]
  setConfiguration := 0
  hub := ()
  driver := none

end Stages

end Orcos.Guarantees.DeviceEnumeration
