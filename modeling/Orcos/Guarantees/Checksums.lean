import Orcos.Source.Crc32

/-!
# Checksums of memory areas

Source: src/source/inc/crc32.c, `crc32`, `crc_32_tab`, `make_crc_table`, `update_crc`.

The entries of the table are what eight bit steps make of a byte. As what is added to the
register above its lowest byte is only shifted meanwhile, a step with the table is eight steps
with the bits of the message.
-/
namespace Orcos.Guarantees.Checksums
open Lib.ByteMemory Source

/-- One bit of the message is shifted into the register. -/
def crcBit (crc : BitVec 32) (bit : Bool) : BitVec 32 :=
  if crc.getLsbD 0 ^^ bit then 0xEDB88320 ^^^ (crc >>> 1) else crc >>> 1

/-- The bits of a message, each byte from its lowest bit on. -/
def messageBits (bytes : List (BitVec 8)) : List Bool :=
  bytes.flatMap fun octet => (List.range 8).map octet.getLsbD

/-- The register after a message. -/
def bitwise (crc : BitVec 32) (bytes : List (BitVec 8)) : BitVec 32 :=
  (messageBits bytes).foldl crcBit crc

/-- The bytes of an area. -/
def areaAt (m : Memory) : Nat → Nat → List (BitVec 8)
  | _, 0 => []
  | buf, len + 1 => m buf :: areaAt m (wordAdd buf 1) len

variable {m : Memory} {crc x z : BitVec 32} {n : Nat}

/-- What is added to the register decides with its lowest bit, and is shifted. -/
theorem crcBit_xor (x z : BitVec 32) (bit : Bool) :
    crcBit (x ^^^ z) bit = crcBit x (z.getLsbD 0 ^^ bit) ^^^ (z >>> 1) := by
  rw [crcBit, crcBit, BitVec.getLsbD_xor, Bool.xor_assoc, BitVec.ushiftRight_xor_distrib]
  split
  · rw [BitVec.xor_assoc]
  · rfl

theorem makeCrcEntry_succ (n : Nat) (x : BitVec 32) :
    makeCrcEntry (n + 1) x = makeCrcEntry n (crcBit x false) := by
  have lowest : x &&& 1 ≠ 0 ↔ x.getLsbD 0 = true := by
    rw [show (1 : BitVec 32) = 1#32 from rfl, BitVec.and_one_eq_setWidth_ofBool_getLsbD]
    cases x.getLsbD 0 <;> decide
  rw [makeCrcEntry, crcBit, Bool.xor_false]
  simp only [lowest]

/-- The bits of a number go into the register one after the other, or all at once. -/
theorem foldl_crcBit (fits : z >>> n = 0) :
    ((List.range n).map z.getLsbD).foldl crcBit crc = makeCrcEntry n (crc ^^^ z) := by
  induction n generalizing crc z with
  | zero =>
    rw [BitVec.ushiftRight_zero] at fits
    rw [fits]
    exact (BitVec.xor_zero (x := crc)).symm
  | succ n ih =>
    have later : (z.getLsbD ∘ Nat.succ) = (z >>> 1).getLsbD := by
      funext i
      rw [Function.comp_apply, BitVec.getLsbD_ushiftRight, Nat.add_comm 1 i]
    have rest : z >>> 1 >>> n = 0 := by
      rw [← BitVec.shiftRight_add, Nat.add_comm 1 n]
      exact fits
    rw [List.range_succ_eq_map, List.map_cons, List.map_map, List.foldl_cons, later, ih rest,
      makeCrcEntry_succ, crcBit_xor, Bool.xor_false]

/-- What lies above the bits that are shifted out is only shifted. -/
theorem makeCrcEntry_xor (clear : ∀ i < n, z.getLsbD i = false) :
    makeCrcEntry n (x ^^^ z) = makeCrcEntry n x ^^^ (z >>> n) := by
  induction n generalizing x z with
  | zero => rw [BitVec.ushiftRight_zero, makeCrcEntry, makeCrcEntry]
  | succ n ih =>
    have above (i : Nat) (less : i < n) : (z >>> 1).getLsbD i = false := by
      rw [BitVec.getLsbD_ushiftRight]
      exact clear (1 + i) (by omega)
    rw [makeCrcEntry_succ, crcBit_xor, clear 0 (Nat.succ_pos n), Bool.xor_false, ih above,
      makeCrcEntry_succ, ← BitVec.shiftRight_add, Nat.add_comm 1 n]

theorem getD_crc32Tab (low : n < 256) : crc32Tab.getD n 0 = makeCrcEntry 8 (BitVec.ofNat 32 n) := by
  rw [crc32Tab_eq, List.getD_eq_getElem?_getD, List.getElem?_map, List.getElem?_range low]
  rfl

/-- A number is its lowest byte and what lies above, where a byte that is added does not show. -/
theorem xor_octet (crc : BitVec 32) (octet : BitVec 8) :
    crc ^^^ octet.setWidth 32 =
      ((crc ^^^ octet.setWidth 32).setWidth 8).setWidth 32 ^^^ (crc >>> 8 <<< 8) := by
  apply BitVec.eq_of_getLsbD_eq
  intro i inside
  by_cases low : i < 8
  · simp [inside, low]
  · simp [inside, low, BitVec.getLsbD_of_ge octet i (by omega),
      Nat.add_sub_cancel' (Nat.le_of_not_lt low)]

theorem ushiftRight_shiftLeft_ushiftRight (crc : BitVec 32) :
    crc >>> 8 <<< 8 >>> 8 = crc >>> 8 := by
  apply BitVec.eq_of_getLsbD_eq
  intro i inside
  by_cases top : 8 + i < 32
  · simp [top, inside]
  · simp [BitVec.getLsbD_of_ge crc (8 + i) (by omega), top, inside]

/-- A step with the table is eight steps with the bits of the byte. -/
theorem updc32_eq (octet : BitVec 8) (crc : BitVec 32) :
    updc32 octet crc = bitwise crc [octet] := by
  have bits : octet.getLsbD = (octet.setWidth 32).getLsbD := by
    funext i
    rw [BitVec.getLsbD_setWidth]
    by_cases inside : i < 8
    · simp [show i < 32 by omega]
    · simp [BitVec.getLsbD_of_ge octet i (by omega)]
  have fits : octet.setWidth 32 >>> 8 = 0 := by
    apply BitVec.eq_of_getLsbD_eq
    intro i _
    rw [BitVec.getLsbD_ushiftRight, BitVec.getLsbD_setWidth,
      BitVec.getLsbD_of_ge octet (8 + i) (by omega)]
    simp
  have index : ((crc ^^^ octet.setWidth 32) &&& 0xff).toNat =
      ((crc ^^^ octet.setWidth 32).setWidth 8).toNat := by
    rw [BitVec.toNat_and, BitVec.toNat_setWidth]
    exact Nat.and_two_pow_sub_one_eq_mod _ 8
  have clear : ∀ i < 8, (crc >>> 8 <<< 8).getLsbD i = false := by
    intro i less
    simp [less]
  have entry : makeCrcEntry 8 (crc ^^^ octet.setWidth 32) =
      makeCrcEntry 8 (((crc ^^^ octet.setWidth 32).setWidth 8).setWidth 32) ^^^ (crc >>> 8) := by
    rw [xor_octet, makeCrcEntry_xor clear, ushiftRight_shiftLeft_ushiftRight, ← xor_octet]
  rw [updc32, index, getD_crc32Tab (BitVec.isLt _), bitwise, messageBits, List.flatMap_singleton,
    bits, foldl_crcBit fits, entry, BitVec.ofNat_toNat]

/-- The loop over an area is the bitwise computation over its bytes. -/
theorem crc32From_eq (m : Memory) (buf len : Nat) (crc : BitVec 32) :
    crc32From m buf len crc = bitwise crc (areaAt m buf len) := by
  induction len generalizing buf crc with
  | zero => rfl
  | succ len ih =>
    rw [crc32From, ih, updc32_eq, areaAt]
    simp [bitwise, messageBits]

theorem areaAt_add (m : Memory) (buf len more : Nat) :
    areaAt m buf (len + more) = areaAt m buf len ++ areaAt m ((wordAdd · 1)^[len] buf) more := by
  induction len generalizing buf with
  | zero =>
    rw [Nat.zero_add]
    rfl
  | succ len ih =>
    rw [Nat.add_right_comm, areaAt, areaAt, ih]
    rfl

/-- The checksum of an area is the complement of what the bitwise computation leaves for its
bytes, and for a longer area it goes on with the bytes behind. -/
theorem crc32_bitwise (m : Memory) (buf len more : Nat) :
    crc32 m buf len = ~~~bitwise 0xFFFFFFFF (areaAt m buf len) ∧
      crc32 m buf (len + more) =
        ~~~bitwise (~~~crc32 m buf len) (areaAt m ((wordAdd · 1)^[len] buf) more) := by
  refine ⟨by rw [crc32, crc32From_eq], ?_⟩
  rw [crc32, crc32, crc32From_eq, crc32From_eq, areaAt_add, BitVec.not_not, bitwise, bitwise,
    bitwise, messageBits, List.flatMap_append, List.foldl_append]
  rfl

end Orcos.Guarantees.Checksums
