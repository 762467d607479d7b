import Mathlib.Data.Nat.Basic
import Mathlib.Tactic.Common

/-!
# Bytes, words and sectors

The program handles the FAT structures as byte arrays with little-endian words in them
(`ff.c:92`). A sector is the function from an offset to its byte; only the offsets below the
sector size `SS` are ever stored to. Words are natural numbers, and the places where a 32-bit
operation of the source can wrap are written out with `add32`, `sub32` or a remainder.
-/

namespace FatFs

/-- The sector size, `SS(fs)` with `FF_MIN_SS = FF_MAX_SS = 512`. Source: `ff.c:264`. -/
abbrev SS : Nat := 512

/-- The number of 32-bit words, the modulus of `DWORD`, `LBA_t` and `UINT` arithmetic. -/
abbrev W32 : Nat := 4294967296

/-- Subtraction of 32-bit words. -/
def sub32 (a b : Nat) : Nat := (a + W32 - b) % W32

/-- Addition of 32-bit words. -/
def add32 (a b : Nat) : Nat := (a + b) % W32

/-- A sector, as the function from an offset to its byte. -/
abbrev Sector := Nat → UInt8

namespace Sector

/-- A sector of zeros. -/
def zero : Sector := fun _ => 0

/-- The store `s[o] = b`. -/
def set (s : Sector) (o : Nat) (b : UInt8) : Sector := fun i => if i = o then b else s i

/-- `memset(s + o, b, n)`. -/
def fill (s : Sector) (o n : Nat) (b : UInt8) : Sector :=
  fun i => if o ≤ i ∧ i < o + n then b else s i

/-- `memcpy(s + o, bs, bs.length)`. -/
def copy (s : Sector) (o : Nat) (bs : List UInt8) : Sector :=
  fun i => if o ≤ i ∧ i < o + bs.length then bs.getD (i - o) 0 else s i

/-- The `n` bytes from offset `o` on. -/
def bytes (s : Sector) (o n : Nat) : List UInt8 := (List.range n).map fun i => s (o + i)

/-- The sector that starts at the head of a list of bytes. -/
def ofList (bs : List UInt8) : Sector := fun i => bs.getD i 0

end Sector

/-- Load a 2-byte little-endian word. Source: `ld_word` (`ff.c:620`). -/
def ldWord (s : Sector) (o : Nat) : Nat := (s (o + 1)).toNat * 256 + (s o).toNat

/-- Load a 4-byte little-endian word. Source: `ld_dword` (`ff.c:629`). -/
def ldDword (s : Sector) (o : Nat) : Nat :=
  (((s (o + 3)).toNat * 256 + (s (o + 2)).toNat) * 256 + (s (o + 1)).toNat) * 256 + (s o).toNat

/-- Store a 2-byte word in little-endian. Source: `st_word` (`ff.c:658`). -/
def stWord (s : Sector) (o v : Nat) : Sector :=
  (s.set o (UInt8.ofNat v)).set (o + 1) (UInt8.ofNat (v / 256))

/-- Store a 4-byte word in little-endian. Source: `st_dword` (`ff.c:664`). -/
def stDword (s : Sector) (o v : Nat) : Sector :=
  (((s.set o (UInt8.ofNat v)).set (o + 1) (UInt8.ofNat (v / 256))).set (o + 2)
    (UInt8.ofNat (v / 65536))).set (o + 3) (UInt8.ofNat (v / 16777216))

theorem add32_of_lt {a b : Nat} (h : a + b < W32) : add32 a b = a + b := Nat.mod_eq_of_lt h

theorem add32_lt (a b : Nat) : add32 a b < W32 := Nat.mod_lt _ (by decide)

theorem sub32_of_le {a b : Nat} (ha : a < W32) (h : b ≤ a) : sub32 a b = a - b := by
  unfold sub32 W32 at *
  omega

theorem sub32_lt (a b : Nat) : sub32 a b < W32 := Nat.mod_lt _ (by decide)

section
variable {s : Sector} {o v : Nat}

@[simp] theorem Sector.set_self {b : UInt8} : s.set o b o = b := by simp [Sector.set]

theorem Sector.set_of_ne {b : UInt8} {i : Nat} (h : i ≠ o) : s.set o b i = s i := by
  simp [Sector.set, h]

theorem ldWord_lt : ldWord s o < 65536 := by
  have h₀ := (s o).toNat_lt
  have h₁ := (s (o + 1)).toNat_lt
  unfold ldWord
  omega

theorem ldDword_lt : ldDword s o < W32 := by
  have h₀ := (s o).toNat_lt
  have h₁ := (s (o + 1)).toNat_lt
  have h₂ := (s (o + 2)).toNat_lt
  have h₃ := (s (o + 3)).toNat_lt
  unfold ldDword W32
  omega

/-- A word is a function of the two bytes it is stored in. -/
theorem ldWord_congr {t : Sector} (h : ∀ i, o ≤ i → i < o + 2 → s i = t i) :
    ldWord s o = ldWord t o := by
  rw [ldWord, ldWord, h o (by omega) (by omega), h (o + 1) (by omega) (by omega)]

/-- A double word is a function of the four bytes it is stored in. -/
theorem ldDword_congr {t : Sector} (h : ∀ i, o ≤ i → i < o + 4 → s i = t i) :
    ldDword s o = ldDword t o := by
  rw [ldDword, ldDword, h o (by omega) (by omega), h (o + 1) (by omega) (by omega),
    h (o + 2) (by omega) (by omega), h (o + 3) (by omega) (by omega)]

/-- A stored word is loaded back, reduced to 16 bits. -/
@[simp] theorem ldWord_stWord : ldWord (stWord s o v) o = v % 65536 := by
  simp only [ldWord, stWord, Sector.set]
  simp
  omega

/-- A store of a word leaves the other bytes. -/
theorem stWord_of_ne {i : Nat} (h : i < o ∨ o + 2 ≤ i) : stWord s o v i = s i := by
  rw [stWord, Sector.set_of_ne (by omega), Sector.set_of_ne (by omega)]

/-- A stored double word is loaded back, reduced to 32 bits. -/
@[simp] theorem ldDword_stDword : ldDword (stDword s o v) o = v % W32 := by
  simp only [ldDword, stDword, Sector.set, W32]
  simp
  omega

/-- A store of a double word leaves the other bytes. -/
theorem stDword_of_ne {i : Nat} (h : i < o ∨ o + 4 ≤ i) : stDword s o v i = s i := by
  rw [stDword, Sector.set_of_ne (by omega), Sector.set_of_ne (by omega),
    Sector.set_of_ne (by omega), Sector.set_of_ne (by omega)]

end

end FatFs
