import Mathlib.Data.Nat.Basic
import Mathlib.Tactic.Common

/-!
# Packed arrays

Arrays of 12-bit, 16-bit and 28-bit entries in a little-endian byte array, which is a function from
an index to its byte. Two entries of 12 bits share three bytes; an entry of 28 bits is the lower
part of a double word whose upper 4 bits are kept. For each width `get` after `set` gives the value
at the same index and the old entry at every other one.
-/

namespace Packed

/-- A byte array, as the function from an index to its byte. -/
abbrev Bytes := Nat → UInt8

/-- The array with the byte at `i` replaced. -/
def put (F : Bytes) (i : Nat) (b : UInt8) : Bytes := fun j => if j = i then b else F j

/-- The byte that is put. -/
theorem put_self (F : Bytes) (i : Nat) (b : UInt8) : put F i b i = b := by simp [put]

/-- The other bytes stay. -/
theorem put_of_ne {F : Bytes} {i j : Nat} {b : UInt8} (h : j ≠ i) : put F i b j = F j := by
  simp [put, h]

section
variable (F : Bytes) (c v : Nat)

/-! ## 12 bits -/

/-- The 12-bit entry `c`, in the bytes `c + c / 2` and the next one. -/
def get12 : Nat :=
  let wc := (F (c + c / 2)).toNat + (F (c + c / 2 + 1)).toNat * 256
  if c % 2 = 1 then wc / 16 else wc % 4096

/-- The first byte of a 12-bit entry: an odd one has its lower 4 bits in the upper half. -/
def lo12 (b : UInt8) : UInt8 :=
  if c % 2 = 1 then UInt8.ofNat (b.toNat % 16 + v % 16 * 16) else UInt8.ofNat v

/-- The second byte of a 12-bit entry: an even one has its upper 4 bits in the lower half. -/
def hi12 (b : UInt8) : UInt8 :=
  if c % 2 = 1 then UInt8.ofNat (v / 16) else UInt8.ofNat (b.toNat / 16 * 16 + v / 256 % 16)

/-- The array with the 12-bit entry `c` replaced. -/
def set12 : Bytes :=
  put (put F (c + c / 2) (lo12 c v (F (c + c / 2)))) (c + c / 2 + 1)
    (hi12 c v (F (c + c / 2 + 1)))

/-- An entry has 12 bits. -/
theorem get12_lt : get12 F c < 4096 := by
  have h₁ := (F (c + c / 2)).toNat_lt
  have h₂ := (F (c + c / 2 + 1)).toNat_lt
  simp only [get12]
  split <;> omega

variable {F} in
/-- An entry whose last byte is that of an entry of 12 ones is not 0. -/
theorem get12_ne_zero {G : Bytes} {c : Nat} (h : get12 F c = 0xFFF)
    (hb : G (c + c / 2 + 1) = F (c + c / 2 + 1)) : get12 G c ≠ 0 := by
  have h₁ := (F (c + c / 2)).toNat_lt
  have h₂ := (G (c + c / 2)).toNat_lt
  simp only [get12] at h ⊢
  rw [hb]
  split at h
  · rename_i hodd
    rw [if_pos hodd]
    omega
  · rename_i hodd
    rw [if_neg hodd]
    omega

/-- A 12-bit entry that is set. -/
theorem get12_set12 : get12 (set12 F c v) c = v % 4096 := by
  have h₁ := (F (c + c / 2)).toNat_lt
  have h₂ := (F (c + c / 2 + 1)).toNat_lt
  have hlo : set12 F c v (c + c / 2) = lo12 c v (F (c + c / 2)) := by
    rw [set12, put_of_ne (by omega), put_self]
  have hhi : set12 F c v (c + c / 2 + 1) = hi12 c v (F (c + c / 2 + 1)) := put_self _ _ _
  simp only [get12, hlo, hhi, lo12, hi12]
  split
  · simp only [UInt8.toNat_ofNat']
    omega
  · simp only [UInt8.toNat_ofNat']
    omega

variable {c}

/-- The entries of the two halves of a shared byte do not disturb each other. -/
theorem get12_set12_of_ne {e : Nat} (h : e ≠ c) : get12 (set12 F c v) e = get12 F e := by
  have h₁ := (F (c + c / 2)).toNat_lt
  have h₂ := (F (c + c / 2 + 1)).toNat_lt
  -- only the neighbour that shares a byte can see the store
  rcases Nat.lt_trichotomy (e + e / 2 + 1) (c + c / 2) with hlt | heq | hgt
  · simp only [get12, set12]
    rw [put_of_ne (by omega), put_of_ne (by omega), put_of_ne (by omega), put_of_ne (by omega)]
  · have hodd : c % 2 = 1 ∧ e % 2 = 0 := by omega
    have hfst : set12 F c v (e + e / 2) = F (e + e / 2) := by
      rw [set12, put_of_ne (by omega), put_of_ne (by omega)]
    have hsnd : set12 F c v (e + e / 2 + 1) = lo12 c v (F (e + e / 2 + 1)) := by
      rw [set12, put_of_ne (by omega), heq, put_self]
    simp only [get12, hfst, hsnd, lo12, hodd.1, hodd.2, if_true, Nat.zero_ne_one, if_false,
      UInt8.toNat_ofNat']
    omega
  · rcases Nat.lt_trichotomy (c + c / 2 + 1) (e + e / 2) with hlt | heq | hgt'
    · simp only [get12, set12]
      rw [put_of_ne (by omega), put_of_ne (by omega), put_of_ne (by omega), put_of_ne (by omega)]
    · have hodd : c % 2 = 0 ∧ e % 2 = 1 := by omega
      have hfst : set12 F c v (e + e / 2) = hi12 c v (F (e + e / 2)) := by
        rw [set12, heq, put_self]
      have hsnd : set12 F c v (e + e / 2 + 1) = F (e + e / 2 + 1) := by
        rw [set12, put_of_ne (by omega), put_of_ne (by omega)]
      have h₃ := (F (e + e / 2)).toNat_lt
      simp only [get12, hfst, hsnd, hi12, hodd.1, hodd.2, if_true, Nat.zero_ne_one, if_false,
        UInt8.toNat_ofNat']
      omega
    · omega

variable (c)

/-! ## 16 bits -/

/-- The 16-bit entry `c`. -/
def get16 : Nat := (F (2 * c + 1)).toNat * 256 + (F (2 * c)).toNat

/-- The array with the 16-bit entry `c` replaced. -/
def set16 : Bytes := put (put F (2 * c) (UInt8.ofNat v)) (2 * c + 1) (UInt8.ofNat (v / 256))

/-- An entry has 16 bits. -/
theorem get16_lt : get16 F c < 65536 := by
  have h₁ := (F (2 * c)).toNat_lt
  have h₂ := (F (2 * c + 1)).toNat_lt
  unfold get16
  omega

/-- A 16-bit entry that is set. -/
theorem get16_set16 : get16 (set16 F c v) c = v % 65536 := by
  have hlo : set16 F c v (2 * c) = UInt8.ofNat v := by
    rw [set16, put_of_ne (by omega), put_self]
  have hhi : set16 F c v (2 * c + 1) = UInt8.ofNat (v / 256) := put_self _ _ _
  simp only [get16, hlo, hhi, UInt8.toNat_ofNat']
  omega

variable {c}

/-- The other 16-bit entries stay. -/
theorem get16_set16_of_ne {e : Nat} (h : e ≠ c) : get16 (set16 F c v) e = get16 F e := by
  simp only [get16, set16]
  rw [put_of_ne (by omega), put_of_ne (by omega), put_of_ne (by omega), put_of_ne (by omega)]

variable (c)

/-! ## 28 bits -/

/-- The double word at entry `c`. -/
def get32 : Nat :=
  (((F (4 * c + 3)).toNat * 256 + (F (4 * c + 2)).toNat) * 256 + (F (4 * c + 1)).toNat) * 256 +
    (F (4 * c)).toNat

/-- The array with the double word at entry `c` replaced. -/
def set32 : Bytes :=
  put (put (put (put F (4 * c) (UInt8.ofNat v)) (4 * c + 1) (UInt8.ofNat (v / 256))) (4 * c + 2)
    (UInt8.ofNat (v / 65536))) (4 * c + 3) (UInt8.ofNat (v / 16777216))

/-- The 28-bit entry `c`. -/
def get28 : Nat := get32 F c % 0x10000000

/-- The array with the 28-bit entry `c` replaced; the upper 4 bits are kept. -/
def set28 : Bytes := set32 F c (v % 0x10000000 + get32 F c / 0x10000000 * 0x10000000)

/-- An entry has 32 bits. -/
theorem get32_lt : get32 F c < 4294967296 := by
  have h₀ := (F (4 * c)).toNat_lt
  have h₁ := (F (4 * c + 1)).toNat_lt
  have h₂ := (F (4 * c + 2)).toNat_lt
  have h₃ := (F (4 * c + 3)).toNat_lt
  unfold get32
  omega

/-- The upper 4 bits do not count. -/
theorem get28_lt : get28 F c < 0x10000000 := Nat.mod_lt _ (by decide)

/-- A 32-bit entry that is set. -/
theorem get32_set32 : get32 (set32 F c v) c = v % 4294967296 := by
  have h₀ : set32 F c v (4 * c) = UInt8.ofNat v := by
    rw [set32, put_of_ne (by omega), put_of_ne (by omega), put_of_ne (by omega), put_self]
  have h₁ : set32 F c v (4 * c + 1) = UInt8.ofNat (v / 256) := by
    rw [set32, put_of_ne (by omega), put_of_ne (by omega), put_self]
  have h₂ : set32 F c v (4 * c + 2) = UInt8.ofNat (v / 65536) := by
    rw [set32, put_of_ne (by omega), put_self]
  have h₃ : set32 F c v (4 * c + 3) = UInt8.ofNat (v / 16777216) := put_self _ _ _
  simp only [get32, h₀, h₁, h₂, h₃, UInt8.toNat_ofNat']
  omega

/-- A 28-bit entry that is set. -/
theorem get28_set28 : get28 (set28 F c v) c = v % 0x10000000 := by
  have hlt := get32_lt F c
  rw [get28, set28, get32_set32]
  omega

variable {c}

/-- The bytes of the other 32-bit entries stay. -/
theorem set32_of_ne {i : Nat} (h : i < 4 * c ∨ 4 * c + 4 ≤ i) : set32 F c v i = F i := by
  rw [set32, put_of_ne (by omega), put_of_ne (by omega), put_of_ne (by omega), put_of_ne (by omega)]

/-- The other entries stay, with their upper 4 bits. -/
theorem get32_set28_of_ne {e : Nat} (h : e ≠ c) : get32 (set28 F c v) e = get32 F e := by
  rw [get32, get32, set28, set32_of_ne _ _ (by omega), set32_of_ne _ _ (by omega),
    set32_of_ne _ _ (by omega), set32_of_ne _ _ (by omega)]

/-- The other 28-bit entries stay. -/
theorem get28_set28_of_ne {e : Nat} (h : e ≠ c) : get28 (set28 F c v) e = get28 F e := by
  rw [get28, get28, get32_set28_of_ne F v h]

/-- The upper 4 bits of every double word are kept. -/
theorem get32_set28_div (e : Nat) :
    get32 (set28 F c v) e / 0x10000000 = get32 F e / 0x10000000 := by
  by_cases h : e = c
  · have hlt := get32_lt F c
    rw [h, set28, get32_set32]
    omega
  · rw [get32_set28_of_ne F v h]

end

end Packed
