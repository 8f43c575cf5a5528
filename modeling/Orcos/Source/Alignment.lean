import Mathlib.Algebra.Order.Ring.Int
import Mathlib.Data.Nat.Basic

/-!
Error codes of library/inc/error.h that the modelled functions return, and the macros
`isError` and `isOk`. An error is a negative value.
-/
namespace Orcos.Source

abbrev ErrorT := Int

def cOk : ErrorT := 0
def cEOF : ErrorT := 0
def cInvalidPath : ErrorT := -6
def cError : ErrorT := -1000
def cResourceNotRemovable : ErrorT := -1006
def cWrongResourceType : ErrorT := -1007
def cResourceAlreadyExists : ErrorT := -1009
def cResourceRemoved : ErrorT := -1010
def cResourceNotOwned : ErrorT := -1013
def cResourceNotWriteable : ErrorT := -1014
def cResourceNotReadable : ErrorT := -1015
def cInvalidResource : ErrorT := -1016
def cNotImplemented : ErrorT := -1001
def cNullPointerProvided : ErrorT := -1002
def cNoData : ErrorT := -1008
def cTimeout : ErrorT := -1019
def cInvalidConcurrentAccess : ErrorT := -1020
def cNotConnected : ErrorT := -400
def cSocketAlreadyBoundError : ErrorT := -403
def cSocketAlreadyListened : ErrorT := -406
def cInvalidSocketType : ErrorT := -407
def cErrorConnecting : ErrorT := -408
def cTCPEnqueueFailed : ErrorT := -404
def cErrorBindingPort : ErrorT := -409
def cErrorAllocatingMemory : ErrorT := -105
def cNoValidChunkAddress : ErrorT := -102
def cDeviceMemoryExhausted : ErrorT := -103
def cDatabaseOverflow : ErrorT := -500
def cElementNotInDatabase : ErrorT := -501
def cIndexOutOfBounds : ErrorT := -502
def cInvalidArgument : ErrorT := -600
def cInvalidCBHeader : ErrorT := -300
def cTaskCRCFailed : ErrorT := -301

def isError (errcode : ErrorT) : Bool := errcode < cOk
def isOk (errcode : ErrorT) : Bool := errcode = 0

end Orcos.Source

/-!
Arithmetic of addresses: unsigned 32-bit words, held as numbers.

Source: src/source/inc/Alignment.hh. The rounding to a power of two clears the
low bits by a mask.
-/
namespace Orcos.Source

/-- The sum of two words. -/
def wordAdd (a b : Nat) : Nat := (a + b) % 2 ^ 32

/-- The difference of two words. -/
def wordSub (a b : Nat) : Nat := (a + 2 ^ 32 - b) % 2 ^ 32

theorem wordAdd_eq {a b : Nat} (inside : a + b < 2 ^ 32) : wordAdd a b = a + b :=
  Nat.mod_eq_of_lt inside

theorem wordSub_eq {a b : Nat} (less : b ≤ a) (inside : a < 2 ^ 32) : wordSub a b = a - b := by
  rw [wordSub]
  omega

/-- `(addr & ~(n - 1))`. -/
def alignFloor (addr n : Nat) : Nat := (BitVec.ofNat 32 addr &&& ~~~BitVec.ofNat 32 (n - 1)).toNat

/-- `alignFloor(addr + (n - 1), n)`. -/
def alignCeil (addr n : Nat) : Nat := alignFloor (addr + (n - 1)) n

/-- For a power of two the mask rounds down to a multiple. -/
theorem alignFloor_eq {addr k n : Nat} (inside : addr < 2 ^ 32) (power : n = 2 ^ k)
    (small : k ≤ 32) : alignFloor addr n = addr / n * n := by
  subst power
  refine Nat.eq_of_testBit_eq fun i => ?_
  have low : 2 ^ k - 1 < 2 ^ 32 := by
    have := Nat.pow_le_pow_right (n := 2) (by decide) small
    have := Nat.two_pow_pos k
    omega
  rw [Nat.mul_comm, Nat.testBit_two_pow_mul, Nat.testBit_div_two_pow, alignFloor]
  change BitVec.getLsbD _ i = _
  rw [BitVec.getLsbD_and, BitVec.getLsbD_not]
  simp only [BitVec.getLsbD_ofNat, Nat.testBit_two_pow_sub_one]
  by_cases high : k ≤ i
  · by_cases word : i < 32
    · simp [high, word, Nat.not_lt.mpr high]
    · have clear : addr.testBit i = false :=
        Nat.testBit_lt_two_pow (Nat.lt_of_lt_of_le inside (Nat.pow_le_pow_right (by decide)
          (by omega)))
      simp [high, word, clear]
  · have below : i < 32 := by omega
    simp [high, below, Nat.lt_of_not_le high]

theorem alignFloor_lt (addr n : Nat) : alignFloor addr n < 2 ^ 32 := BitVec.isLt _

/-- The word is a multiple, also when the address wrapped around. -/
theorem dvd_alignFloor (addr : Nat) {k n : Nat} (power : n = 2 ^ k) (small : k ≤ 32) :
    n ∣ alignFloor addr n := by
  have wrapped : alignFloor addr n = alignFloor (addr % 2 ^ 32) n := by
    have same : BitVec.ofNat 32 (addr % 2 ^ 32) = BitVec.ofNat 32 addr :=
      BitVec.eq_of_toNat_eq (by simp)
    rw [alignFloor, alignFloor, same]
  rw [wrapped, alignFloor_eq (Nat.mod_lt _ (by decide)) power small]
  exact Nat.dvd_mul_left _ _

theorem alignCeil_eq {addr k n : Nat} (inside : addr + (n - 1) < 2 ^ 32) (power : n = 2 ^ k)
    (small : k ≤ 32) : alignCeil addr n = (addr + (n - 1)) / n * n :=
  alignFloor_eq inside power small

end Orcos.Source
