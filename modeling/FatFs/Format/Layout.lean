import FatFs.Model.Mkfs
import Mathlib

/-!
# The layout a format chooses

`f_mkfs` chooses the cluster size and the FAT sub-type in a loop of rounds; each round sizes the
areas, pads them so that the data area starts on an erase block boundary, and counts the clusters
that are left. `Accepted` says what the areas of the layout satisfy that the loop ends with
(`chooseLayout_accepted`). It has clusters unless the sub-type is FAT12: there the source has a
lower limit before the padding only, so the padding can leave less than one cluster. `FilledUp` is
the condition on the parameters for that (`empties_iff`).
-/

namespace FatFs

open Run

/-- The next multiple of `m` from `a` on. -/
def roundUp (a m : Nat) : Nat := (a + m - 1) / m * m

/-- The sectors from `a` to the next multiple of `m`. -/
def padding (a m : Nat) : Nat := roundUp a m - a

/-- Rounding up adds less than the unit. -/
theorem roundUp_bounds (a : Nat) {m : Nat} (hm : 0 < m) :
    a ≤ roundUp a m ∧ roundUp a m < a + m := by
  have h₁ := Nat.div_mul_le_self (a + m - 1) m
  have h₂ := Nat.lt_div_mul_add (a := a + m - 1) hm
  unfold roundUp
  omega

/-- The padding fills up to the next multiple of the unit. -/
theorem add_padding (a : Nat) {m : Nat} (hm : 0 < m) : a + padding a m = roundUp a m := by
  have h := roundUp_bounds a hm
  unfold padding
  omega

/-- The padding is less than the unit. -/
theorem padding_lt (a : Nat) {m : Nat} (hm : 0 < m) : padding a m < m := by
  have h := roundUp_bounds a hm
  unfold padding
  omega

/-- A cluster size in sectors that FAT can have. -/
def IsAu (n : Nat) : Prop :=
  n = 1 ∨ n = 2 ∨ n = 4 ∨ n = 8 ∨ n = 16 ∨ n = 32 ∨ n = 64 ∨ n = 128

instance (n : Nat) : Decidable (IsAu n) := by unfold IsAu; infer_instance

/-- The powers of two up to 128 are cluster sizes. -/
theorem isAu_pow : ∀ k ≤ 7, IsAu (2 ^ k) := by decide

/-- A cluster has 1 to 128 sectors. -/
theorem IsAu.bounds {n : Nat} (h : IsAu n) : 1 ≤ n ∧ n ≤ 128 := by
  unfold IsAu at h
  omega

/-! ## The parameters -/

/-- The ranges that `f_mkfs` puts the parameters of a format in. -/
structure MkfsEnv.Sane (e : MkfsEnv) : Prop where
  szVol : 128 ≤ e.szVol
  top : e.bVol + e.szVol < W32
  bVol : e.bVol = 0 ∨ e.bVol = 63
  szBlk : ∃ k ≤ 15, e.szBlk = 2 ^ k
  nFat : e.nFat = 1 ∨ e.nFat = 2
  nRoot : 16 ≤ e.nRoot ∧ e.nRoot ≤ 32768 ∧ e.nRoot % 16 = 0

/-- The erase block has a sector. -/
theorem MkfsEnv.Sane.blk {e : MkfsEnv} (h : e.Sane) : 0 < e.szBlk ∧ e.szBlk ≤ 32768 := by
  obtain ⟨k, hk, he⟩ := h.szBlk
  rw [he]
  exact ⟨Nat.two_pow_pos k, Nat.pow_le_pow_right (by omega) hk⟩

/-- A number that passes the source's test for a single bit is a power of 2. -/
theorem pow_of_and {n : Nat} (h₀ : n ≠ 0) (h : n &&& (n - 1) = 0) : ∃ k, n = 2 ^ k :=
  (Nat.and_sub_one_eq_zero_iff_isPowerOfTwo h₀).1 h

/-- The parameters of a drive that is large enough are sane. -/
theorem mkfsEnv_sane {opt : MKFS_PARM} {sectors blk : Nat} (hs : sectors < W32)
    (hv : 128 ≤ (mkfsEnv opt sectors blk).szVol) : (mkfsEnv opt sectors blk).Sane := by
  refine { szVol := hv, top := ?_, bVol := ?_, szBlk := ?_, nFat := ?_, nRoot := ?_ }
  · simp only [mkfsEnv]
    split <;> simp only [N_SEC_TRACK] at * <;> omega
  · simp only [mkfsEnv]
    split
    · exact .inr rfl
    · exact .inl rfl
  · simp only [mkfsEnv]
    generalize (if opt.align = 0 then blk else opt.align) = b
    split
    · exact ⟨0, by omega, rfl⟩
    · rename_i hb
      obtain ⟨k, rfl⟩ := pow_of_and (n := b) (by omega) (by omega)
      refine ⟨k, ?_, rfl⟩
      by_contra hk
      have : 2 ^ 16 ≤ 2 ^ k := Nat.pow_le_pow_right (by omega) (by omega)
      omega
  · simp only [mkfsEnv]
    split <;> omega
  · simp only [mkfsEnv, SS, SZDIRE]
    split <;> omega

/-- The cluster size that the options ask for is one that FAT can have. -/
theorem mkfsAu_isAu (opt : MKFS_PARM) : mkfsAu opt = 0 ∨ IsAu (mkfsAu opt) := by
  unfold mkfsAu
  simp only [SS]
  split
  · rename_i h
    by_cases h₀ : opt.auSize = 0
    · simp [h₀]
    obtain ⟨k, hk⟩ := pow_of_and h₀ h.2
    rw [hk]
    split
    · exact .inr (by decide)
    · rename_i hle
      rcases Nat.lt_or_ge k 9 with hlt | hge
      · have : 2 ^ k < 2 ^ 9 := Nat.pow_lt_pow_right (by omega) hlt
        exact .inl (by omega)
      · have hdiv : 2 ^ k / 512 = 2 ^ (k - 9) := Nat.pow_div hge (by omega)
        rw [hdiv] at hle ⊢
        refine .inr (isAu_pow _ ?_)
        by_contra hk
        have : 2 ^ 8 ≤ 2 ^ (k - 9) := Nat.pow_le_pow_right (by omega) (by omega)
        omega
  · simp

/-- The automatic cluster size of a FAT12/16 volume of `n` units of 4096 sectors. -/
theorem autoAu_cst (n : Nat) :
    n < 1 ∧ autoAu n cst = 1 ∨ 1 ≤ n ∧ n < 4 ∧ autoAu n cst = 2 ∨
      4 ≤ n ∧ n < 16 ∧ autoAu n cst = 4 ∨ 16 ≤ n ∧ n < 64 ∧ autoAu n cst = 8 ∨
      64 ≤ n ∧ n < 256 ∧ autoAu n cst = 16 ∨ 256 ≤ n ∧ n < 512 ∧ autoAu n cst = 32 ∨
      512 ≤ n ∧ autoAu n cst = 64 := by
  simp only [autoAu, cst]
  split_ifs <;> omega

/-- The cluster size from the table is a power of two. -/
theorem autoAu_isAu (n : Nat) {l : List Nat} (h : l = cst ∨ l = cst32) : IsAu (autoAu n l) := by
  rcases h with rfl | rfl
  · have := autoAu_cst n
    unfold IsAu
    omega
  · simp only [autoAu, cst32]
    split_ifs <;> decide

/-! ## One round -/

/-- The size of the reserved area, the FATs and the root directory of a layout. -/
def MkfsLayout.system (l : MkfsLayout) (e : MkfsEnv) : Nat :=
  l.szRsv + l.szFat * e.nFat + l.szDir

/-- The areas of a layout follow one another from the base of the volume. -/
structure Stacked (e : MkfsEnv) (l : MkfsLayout) : Prop where
  fsty : l.fsty ≠ .none
  pau : IsAu l.pau
  szRsv : 1 ≤ l.szRsv ∧ (l.fsty = .fat32 → 32 ≤ l.szRsv)
  bFat : l.bFat = e.bVol + l.szRsv
  szDir : l.szDir = if l.fsty = .fat32 then 0 else e.nRoot / 16

/-- The size of the FAT in sectors for `n` clusters of 12 bits. -/
def fat12Size (n : Nat) : Nat := ((n * 3 + 1) / 2 + 514) / 512

/-- The size of a FAT12 is enough for its entries, and does not wrap around. -/
theorem fat12Size_bounds {n : Nat} (h : n ≤ MAX_FAT12) :
    ((n * 3 + 1) / 2 + 3 + SS - 1) % W32 / SS = fat12Size n ∧
      (neededFat .fat12 (n + 2) + 511) / 512 ≤ fat12Size n ∧ fat12Size n ≤ (4 * n + 519) / 512 ∧
      fat12Size n ≤ 0x800000 := by
  have hmod : ((n * 3 + 1) / 2 + 3 + SS - 1) % W32 = (n * 3 + 1) / 2 + 514 := by
    rw [Nat.mod_eq_of_lt] <;> simp only [SS, W32, MAX_FAT12] at * <;> omega
  have hneed : neededFat .fat12 (n + 2) = (n * 3 + 1) / 2 + 3 := by
    have h₁ : neededFat .fat12 (n + 2) = (n + 2) * 3 / 2 + (n + 2) % 2 := rfl
    rcases Nat.mod_two_eq_zero_or_one n with h₂ | h₂ <;> omega
  rw [hmod, hneed]
  simp only [MAX_FAT12] at h
  refine ⟨rfl, ?_, ?_, ?_⟩ <;> unfold fat12Size <;> omega

/-- The sizes of the areas before the data area is aligned. -/
structure Sized (e : MkfsEnv) (au : Nat) (l : MkfsLayout) : Prop extends Stacked e l where
  pau_eq : l.pau = au
  nClst : l.nClst = e.szVol / au
  szRsv_eq : l.szRsv = if l.fsty = .fat32 then 32 else 1
  szFat_le : l.szFat ≤ 0x800000
  small : l.nClst < 0x20000000 → l.szFat ≤ (4 * l.nClst + 519) / 512
  room : l.nClst < 0x20000000 → (neededFat l.fsty (l.nClst + 2) + 511) / 512 ≤ l.szFat
  fat12 : l.fsty = .fat12 ↔ l.nClst ≤ MAX_FAT12 ∧ l.fsty ≠ .fat32
  szFat12 : l.fsty = .fat12 → l.szFat = fat12Size l.nClst

variable {e : MkfsEnv}

/-- The first layout of a FAT16 or FAT32 volume has a FAT for its clusters. -/
theorem preLayout_sized (he : e.Sane) {fsty : FsType} (hf : fsty = .fat16 ∨ fsty = .fat32)
    {pau : Nat} (hp : IsAu pau) : Sized e pau (preLayout e fsty pau) := by
  have hle : e.szVol / pau ≤ e.szVol := Nat.div_le_self _ _
  have ht := he.top
  have hb := he.bVol
  have hlt : e.szVol / pau < W32 := by omega
  rcases hf with rfl | rfl
  · rcases Nat.lt_or_ge MAX_FAT12 (e.szVol / pau) with h₁ | h₁
    · refine { fsty := ?_, pau := hp, szRsv := ?_, bFat := ?_, szDir := ?_,
               pau_eq := rfl, nClst := rfl, szRsv_eq := ?_, szFat_le := ?_, small := ?_, room := ?_,
               fat12 := ?_, szFat12 := ?_ }
      all_goals
        simp [preLayout, h₁, add32, neededFat, SZDIRE] <;>
        simp only [SS, W32, MAX_FAT12] at * <;> omega
    · have h₁' : ¬MAX_FAT12 < e.szVol / pau := by omega
      obtain ⟨hsz, hroom, hsmall, hmax⟩ := fat12Size_bounds h₁
      have hl : preLayout e .fat16 pau = ⟨.fat12, pau, e.szVol / pau, 1, fat12Size (e.szVol / pau),
          e.nRoot / 16, e.bVol + 1⟩ := by
        simp only [preLayout, reduceCtorEq, if_false, h₁', hsz, SZDIRE]
        rw [add32_of_lt (by simp only [W32] at *; omega),
          Nat.mul_div_mul_right _ 16 (by omega : 0 < 32)]
      rw [hl]
      exact
        { fsty := by simp
          pau := hp
          szRsv := by simp
          bFat := rfl
          szDir := by simp
          pau_eq := rfl
          nClst := rfl
          szRsv_eq := by simp
          szFat_le := hmax
          small := fun _ => hsmall
          room := fun _ => hroom
          fat12 := by simpa using h₁
          szFat12 := fun _ => rfl }
  · refine { fsty := ?_, pau := hp, szRsv := ?_, bFat := ?_, szDir := ?_,
               pau_eq := rfl, nClst := rfl, szRsv_eq := ?_, szFat_le := ?_, small := ?_, room := ?_,
               fat12 := ?_, szFat12 := ?_ }
    all_goals simp [preLayout, add32, neededFat] <;> simp only [SS, W32] at * <;> omega

section
variable {au : Nat} {l : MkfsLayout} (he : e.Sane) (h : Sized e au l)

include he h

/-- The system area is far below 32 bits. -/
theorem Sized.system_le : l.system e ≤ 0x1001000 := by
  have h₁ := h.szFat_le
  have h₂ := h.szRsv_eq
  have h₃ := h.szDir
  have h₄ := he.nRoot
  have h₅ : l.szFat * e.nFat ≤ l.szFat * 2 := Nat.mul_le_mul_left _ (by have := he.nFat; omega)
  unfold MkfsLayout.system
  split at h₂ <;> simp only [*, if_true, if_false] at h₃ <;> omega

/-- The base of the data area does not wrap around. -/
theorem Sized.bData_eq : l.bData e.nFat = e.bVol + l.system e := by
  have h₁ := h.system_le he
  have h₂ := he.bVol
  have h₃ := h.bFat
  unfold MkfsLayout.bData MkfsLayout.system at *
  rw [Nat.mod_eq_of_lt (by simp only [W32]; omega)]
  omega

/-- The number of sectors to the next block boundary, as the source computes it. -/
theorem Sized.pad_eq (up : Nat) (hup : up = add32 (l.bData e.nFat) (e.szBlk - 1)) :
    sub32 (up - (up &&& (e.szBlk - 1))) (l.bData e.nFat) =
      padding (e.bVol + l.system e) e.szBlk := by
  have h₁ := h.system_le he
  have h₂ := he.bVol
  obtain ⟨hpos, hle⟩ := he.blk
  have hb := roundUp_bounds (e.bVol + l.system e) hpos
  obtain ⟨k, -, hk⟩ := he.szBlk
  rw [h.bData_eq he] at hup ⊢
  rw [add32_of_lt (by simp only [W32]; omega)] at hup
  have hand : up - (up &&& (e.szBlk - 1)) = roundUp (e.bVol + l.system e) e.szBlk := by
    have hdm := Nat.div_add_mod up e.szBlk
    have hup' : up = e.bVol + l.system e + e.szBlk - 1 := by omega
    rw [hk, Nat.and_two_pow_sub_one_eq_mod, ← hk, roundUp, ← hup', Nat.mul_comm]
    omega
  rw [hand, sub32_of_le (by simp only [W32]; omega) hb.1]
  rfl

omit h

/-- The alignment adds `p` sectors to the system areas. -/
structure Padded (e : MkfsEnv) (p : Nat) (l l' : MkfsLayout) : Prop extends Stacked e l' where
  fsty_eq : l'.fsty = l.fsty
  pau_eq : l'.pau = l.pau
  system : l'.system e = l.system e + p
  szRsv_le : l'.szRsv ≤ l.szRsv + p
  szFat_ge : l.szFat ≤ l'.szFat
  szFat_le : l'.szFat ≤ l.szFat + p
  szFat32 : l.fsty = .fat32 → l'.szFat = l.szFat

omit he in
/-- The reserved area stays large enough when the alignment extends it. -/
theorem Stacked.szRsv_add {l : MkfsLayout} (h : Stacked e l) (n : Nat) :
    1 ≤ l.szRsv + n ∧ (l.fsty = .fat32 → 32 ≤ l.szRsv + n) :=
  ⟨Nat.le_add_right_of_le h.szRsv.1, fun h32 => Nat.le_add_right_of_le (h.szRsv.2 h32)⟩

/-- Pad the system areas of a FAT12/16 volume by expanding the FATs. -/
theorem Stacked.pad_fat {l : MkfsLayout} (h : Stacked e l) (h32 : l.fsty ≠ .fat32) {p : Nat}
    (hb : add32 l.bFat 1 = l.bFat + 1) :
    Padded e p l (if p % e.nFat ≠ 0 then
      { l with szRsv := l.szRsv + 1, bFat := add32 l.bFat 1, szFat := l.szFat + (p - 1) / e.nFat }
      else { l with szFat := l.szFat + p / e.nFat }) := by
  have hbf := h.bFat
  split
  · -- one sector of the padding goes to the reserved area, the rest is halved
    rename_i hodd
    have h2 : e.nFat = 2 := by
      refine he.nFat.resolve_left fun h1 => hodd ?_
      rw [h1, Nat.mod_one]
    rw [h2] at hodd
    refine { toStacked := ⟨h.fsty, h.pau, h.szRsv_add _, ?_, h.szDir⟩, fsty_eq := rfl,
             pau_eq := rfl, system := ?_, szRsv_le := ?_, szFat_ge := ?_, szFat_le := ?_,
             szFat32 := fun h => absurd h h32 }
    all_goals simp only [MkfsLayout.system, hb, h2]
    all_goals omega
  · rename_i heven
    refine { toStacked := ⟨h.fsty, h.pau, h.szRsv, hbf, h.szDir⟩, fsty_eq := rfl, pau_eq := rfl,
             system := ?_, szRsv_le := Nat.le_add_right _ _, szFat_ge := Nat.le_add_right _ _,
             szFat_le := Nat.add_le_add_left (Nat.div_le_self _ _) _,
             szFat32 := fun h => absurd h h32 }
    simp only [MkfsLayout.system]
    rcases he.nFat with h1 | h2
    · rw [h1, Nat.div_one]
      omega
    · rw [h2] at heven ⊢
      omega

include h

/-- The alignment moves the end of the system areas to the next block boundary. -/
theorem Sized.align : Padded e (padding (e.bVol + l.system e) e.szBlk) l (l.align e) := by
  have hsys := h.system_le he
  have hb := he.bVol
  have hpos := he.blk
  have hpad := padding_lt (e.bVol + l.system e) hpos.1
  have hn := h.pad_eq he _ rfl
  have hbf := h.bFat
  unfold MkfsLayout.align
  simp only [hn]
  generalize padding (e.bVol + l.system e) e.szBlk = p at hpad
  have hadd : ∀ n ≤ 32768, add32 l.bFat n = l.bFat + n := by
    intro n hle
    unfold MkfsLayout.system at hsys
    exact add32_of_lt (by simp only [W32]; omega)
  split
  · refine { toStacked := ⟨h.fsty, h.pau, h.szRsv_add _, ?_, h.szDir⟩, fsty_eq := rfl,
             pau_eq := rfl, system := ?_, szRsv_le := Nat.le_refl _, szFat_ge := Nat.le_refl _,
             szFat_le := Nat.le_add_right _ _, szFat32 := fun _ => rfl }
    all_goals simp only [MkfsLayout.system, hadd p (by omega)]
    all_goals omega
  · exact h.pad_fat he ‹_› (hadd 1 (by omega))

end

/-- The sub-types by their number of clusters, but FAT12 may have none. -/
def Typed (fsty : FsType) (n : Nat) : Prop :=
  fsty = .fat12 ∧ n ≤ MAX_FAT12 ∨ fsty = .fat16 ∧ MAX_FAT12 < n ∧ n ≤ MAX_FAT16 ∨
    fsty = .fat32 ∧ MAX_FAT16 < n ∧ n ≤ MAX_FAT32

/-- What the layout satisfies that `f_mkfs` writes. -/
structure Accepted (e : MkfsEnv) (l : MkfsLayout) : Prop extends Stacked e l where
  szRsv_lt : l.szRsv < 65536
  szFat_lt : l.szFat < W32 ∧ (l.fsty ≠ .fat32 → l.szFat < 65536)
  fits : l.system e ≤ e.szVol
  nClst : l.nClst = (e.szVol - l.system e) / l.pau
  typed : Typed l.fsty l.nClst
  room : (neededFat l.fsty (l.nClst + 2) + 511) / 512 ≤ l.szFat

/-- The number of clusters is the quotient of the rest of the volume, or is too large for FAT12/16
because the system areas are larger than the volume. -/
theorem clusters_cases (he : e.Sane) {l : MkfsLayout} (hp : IsAu l.pau)
    (hs : l.system e ≤ 0x2000000) :
    l.system e ≤ e.szVol ∧ l.clusters e = (e.szVol - l.system e) / l.pau ∨
      e.szVol < l.system e ∧ MAX_FAT16 < l.clusters e := by
  have ht := he.top
  have hmod : (l.szRsv + l.szFat * e.nFat + l.szDir) % W32 = l.system e :=
    Nat.mod_eq_of_lt (by unfold MkfsLayout.system at hs; simp only [W32]; omega)
  unfold MkfsLayout.clusters
  rw [hmod]
  rcases Nat.lt_or_ge e.szVol (l.system e) with hlt | hge
  · right
    have hsub : sub32 e.szVol (l.system e) = e.szVol + W32 - l.system e :=
      Nat.mod_eq_of_lt (by omega)
    refine ⟨hlt, ?_⟩
    rw [hsub]
    unfold IsAu at hp
    simp only [W32, MAX_FAT16] at *
    rcases hp with h | h | h | h | h | h | h | h <;> rw [h] <;> omega
  · left
    exact ⟨hge, by rw [sub32_of_le (by omega) hge]⟩

/-- The cluster size that a round uses. Source: `ff.c:6206-6222`. -/
def roundAu (e : MkfsEnv) (p : FsType × Nat) : Nat :=
  if p.2 ≠ 0 then p.2
  else if p.1 = .fat32 then autoAu (e.szVol / 0x20000) cst32 else autoAu (e.szVol / 0x1000) cst

/-- The sub-type and the cluster size that a round starts from. -/
def RoundOk (p : FsType × Nat) : Prop := (p.1 = .fat16 ∨ p.1 = .fat32) ∧ (p.2 = 0 ∨ IsAu p.2)

/-- A round has a valid cluster size. -/
theorem RoundOk.au {p : FsType × Nat} (h : RoundOk p) : IsAu (roundAu e p) := by
  unfold roundAu
  split
  · exact h.2.resolve_left ‹_›
  · split
    · exact autoAu_isAu _ (.inr rfl)
    · exact autoAu_isAu _ (.inl rfl)

/-- What a round does: it gives up, ends with the aligned layout, or goes on. -/
inductive RoundCase (e : MkfsEnv) (p : FsType × Nat) (pre l : MkfsLayout) (n : Nat) :
    (FsType × Nat) ⊕ Except FRESULT MkfsLayout → Prop
  | abort (h : e.szVol < pre.system e + roundAu e p * 16 ∨ pre.fsty = .fat32 ∨
        l.fsty = .fat12 ∧ MAX_FAT12 < n ∨ l.fsty = .fat16 ∧ (p.2 ≠ 0 ∨ 64 < roundAu e p * 2)) :
      RoundCase e p pre l n (.inr (.error .mkfsAborted))
  | done (h32 : pre.fsty = .fat32 → MAX_FAT16 < pre.nClst ∧ pre.nClst ≤ MAX_FAT32)
      (hsize : pre.system e + roundAu e p * 16 ≤ e.szVol)
      (hty : l.fsty = .fat12 ∧ n ≤ MAX_FAT12 ∨ l.fsty = .fat16 ∧ MAX_FAT12 < n ∧ n ≤ MAX_FAT16 ∨
        l.fsty = .fat32 ∧ MAX_FAT16 < n) :
      RoundCase e p pre l n (.inr (.ok { l with nClst := n }))
  | halve (hl : l.fsty = .fat32) (h0 : p.2 = 0) (hne : roundAu e p / 2 ≠ 0) :
      RoundCase e p pre l n (.inl (.fat32, roundAu e p / 2))
  | double (hl : l.fsty = .fat16) (h0 : p.2 = 0) (hle : roundAu e p * 2 ≤ 128) :
      RoundCase e p pre l n (.inl (.fat16, roundAu e p * 2))
  | switch (hl : l.fsty = .fat16) (hau : p.2 ≠ 0 ∨ 64 < roundAu e p * 2) :
      RoundCase e p pre l n (.inl (.fat32, p.2))

/-- A round ends with a layout or a refusal, or tries again with another size or type. -/
theorem layoutRound_cases (he : e.Sane) {p : FsType × Nat} (hp : RoundOk p) :
    RoundCase e p (preLayout e p.1 (roundAu e p)) ((preLayout e p.1 (roundAu e p)).align e)
      (((preLayout e p.1 (roundAu e p)).align e).clusters e) (layoutRound e p) := by
  obtain ⟨fsty, szAu⟩ := p
  have hpre := preLayout_sized he hp.1 (hp.au (e := e))
  have hb := hpre.bData_eq he
  have hal := hpre.align he
  have hau := (hp.au (e := e)).bounds
  have hsys := hpre.system_le he
  have hbv := he.bVol
  simp only at hpre hb hal hsys ⊢
  have hsz : sub32 (add32 (e.bVol + (preLayout e fsty (roundAu e (fsty, szAu))).system e)
      (roundAu e (fsty, szAu) * 16)) e.bVol =
      (preLayout e fsty (roundAu e (fsty, szAu))).system e + roundAu e (fsty, szAu) * 16 := by
    rw [add32_of_lt (by simp only [W32]; omega), sub32_of_le (by simp only [W32]; omega) (by omega)]
    omega
  have hau' : (if szAu ≠ 0 then szAu else if fsty = .fat32 then autoAu (e.szVol / 0x20000) cst32
      else autoAu (e.szVol / 0x1000) cst) = roundAu e (fsty, szAu) := rfl
  simp only [layoutRound, hau', hb, hsz]
  generalize hpr : preLayout e fsty (roundAu e (fsty, szAu)) = pre at *
  generalize pre.align e = l at *
  generalize l.clusters e = n at *
  have hfs := hal.fsty
  split
  · rename_i h32
    exact .abort (.inr (.inl h32.1))
  rename_i h32
  split
  · exact .abort (.inl (by omega))
  rename_i hsize
  have hdone : (l.fsty = .fat12 ∧ n ≤ MAX_FAT12 ∨ l.fsty = .fat16 ∧ MAX_FAT12 < n ∧ n ≤ MAX_FAT16 ∨
      l.fsty = .fat32 ∧ MAX_FAT16 < n) →
      RoundCase e (fsty, szAu) pre l n (.inr (.ok { l with nClst := n })) :=
    .done (fun h => by by_contra hlt; exact h32 ⟨h, by omega⟩) (by omega)
  generalize (.inr (.ok { l with nClst := n }) :
    (FsType × Nat) ⊕ Except FRESULT MkfsLayout) = d at hdone ⊢
  cases hl : l.fsty with
  | none => exact absurd hl hfs
  | fat12 =>
    simp only
    split
    · exact .abort (.inr (.inr (.inl ⟨hl, by omega⟩)))
    · exact hdone (.inl ⟨hl, by omega⟩)
  | fat16 =>
    have habort : szAu ≠ 0 ∨ 64 < roundAu e (fsty, szAu) * 2 →
        RoundCase e (fsty, szAu) pre l n (.inr (.error .mkfsAborted)) :=
      fun h => .abort (.inr (.inr (.inr ⟨hl, h⟩)))
    simp only
    split
    · split
      · exact .double hl (by omega) (by omega)
      · split
        · exact .switch hl (by omega)
        · split
          · exact .double hl (by omega) (by omega)
          · exact habort (by omega)
    · split
      · split
        · exact .double hl (by omega) (by omega)
        · exact habort (by omega)
      · exact hdone (.inr (.inl ⟨hl, by omega, by omega⟩))
  | fat32 =>
    simp only
    split
    · split
      · exact .halve hl (by omega) (by omega)
      · exact .abort (.inr (.inl (hal.fsty_eq ▸ hl)))
    · exact hdone (.inr (.inr ⟨hl, by omega⟩))

/-- More clusters need no smaller FAT. -/
theorem neededFat_mono (fsty : FsType) {m n : Nat} (h : m ≤ n) :
    neededFat fsty m ≤ neededFat fsty n := by
  cases fsty <;> simp only [neededFat] <;> omega

/-- The FAT of the aligned layout has room for its clusters, which are about as many as before. -/
theorem Sized.cluster_bound {au n : Nat} {pre : MkfsLayout} (h : Sized e au pre) (hau : 1 ≤ au)
    {sys : Nat} (hn : n = (e.szVol - sys) / au) (hs : sys ≤ e.szVol) :
    n ≤ pre.nClst ∧ pre.nClst ≤ n + sys := by
  have hpn := h.nClst
  rw [hn, hpn]
  refine ⟨Nat.div_le_div_right (Nat.sub_le _ _), ?_⟩
  calc e.szVol / au = (e.szVol - sys + sys) / au := by rw [Nat.sub_add_cancel hs]
    _ ≤ (e.szVol - sys + sys * au) / au :=
        Nat.div_le_div_right (Nat.add_le_add_left (Nat.le_mul_of_pos_right _ hau) _)
    _ = (e.szVol - sys) / au + sys := Nat.add_mul_div_right _ _ hau

/-- The layout that a round ends with is accepted. -/
theorem layoutRound_accepted (he : e.Sane) {p : FsType × Nat} (hp : RoundOk p) {l : MkfsLayout}
    (h : layoutRound e p = .inr (.ok l)) : Accepted e l := by
  have hau := hp.au (e := e)
  have hpre := preLayout_sized he hp.1 hau
  have hal := hpre.align he
  have hcase := layoutRound_cases he hp
  rw [h] at hcase
  have hsys := hpre.system_le he
  have hpad := padding_lt (e.bVol + (preLayout e p.1 (roundAu e p)).system e) he.blk.1
  have hblk := he.blk.2
  generalize roundAu e p = au at *
  generalize preLayout e p.1 au = pre at *
  generalize pre.align e = l' at *
  generalize padding (e.bVol + pre.system e) e.szBlk = q at *
  cases hcase with
  | done h32 hsize hty =>
    have hpe := hal.pau_eq.trans hpre.pau_eq
    have hfe := hal.fsty_eq
    have hst := hal.system
    have hle : pre.nClst ≤ e.szVol := by
      rw [hpre.nClst]
      exact Nat.div_le_self _ _
    have hcl := clusters_cases he hal.pau (by omega)
    simp only [MAX_FAT12, MAX_FAT16, MAX_FAT32] at hcl hty h32
    have hsmall := hpre.small
    have hmul : pre.szFat * e.nFat ≤ pre.szFat * 2 :=
      Nat.mul_le_mul_left _ (by have := he.nFat; omega)
    have hpsys : pre.system e = pre.szRsv + pre.szFat * e.nFat + pre.szDir := rfl
    have hrsv := hpre.szRsv_eq
    have hdir := hpre.szDir
    have hroot := he.nRoot
    have hfits : l'.system e ≤ e.szVol := by
      rcases hty with ⟨_, h12⟩ | ⟨_, -, h16⟩ | ⟨h, -⟩
      · omega
      · omega
      · -- FAT32: the FATs are small against the volume, and the padding is too
        obtain ⟨hlo, hhi⟩ := h32 (hfe ▸ h)
        rw [if_pos (hfe ▸ h)] at hrsv hdir
        have := hsmall (by omega)
        omega
    have hn : l'.clusters e = (e.szVol - l'.system e) / l'.pau := by omega
    obtain ⟨hn₁, hn₂⟩ := hpre.cluster_bound hau.bounds.1 (hpe ▸ hn) hfits
    generalize l'.clusters e = n at *
    have hlt : pre.nClst < 0x20000000 := by
      rcases hty with ⟨_, h12⟩ | ⟨_, -, h16⟩ | ⟨h, -⟩
      · omega
      · omega
      · have := (h32 (hfe ▸ h)).2
        omega
    have hs := hsmall hlt
    refine { toStacked := ⟨hal.fsty, hal.pau, hal.szRsv, hal.bFat, hal.szDir⟩, szRsv_lt := ?_,
             szFat_lt := ⟨?_, fun h => ?_⟩, fits := hfits, nClst := hn, typed := ?_, room := ?_ }
    · have := hal.szRsv_le
      show l'.szRsv < 65536
      split at hrsv <;> omega
    · have := hal.szFat_le
      show l'.szFat < W32
      simp only [W32]
      omega
    · have := hal.szFat_le
      show l'.szFat < 65536
      have h' : pre.fsty ≠ .fat32 := hfe ▸ h
      rw [if_neg h'] at hrsv hdir
      have h16 : n ≤ 0xFFF5 := by
        rcases hty with ⟨_, h12⟩ | ⟨_, -, h16⟩ | ⟨h32, -⟩
        · omega
        · exact h16
        · exact absurd h32 h
      omega
    · rcases hty with ⟨h, h12⟩ | ⟨h, h16⟩ | ⟨h, hlo⟩
      · exact .inl ⟨h, h12⟩
      · exact .inr (.inl ⟨h, h16⟩)
      · exact .inr (.inr ⟨h, hlo, Nat.le_trans hn₁ (h32 (hfe ▸ h)).2⟩)
    · calc (neededFat l'.fsty (n + 2) + 511) / 512
          ≤ (neededFat pre.fsty (pre.nClst + 2) + 511) / 512 := by
            rw [hfe]
            exact Nat.div_le_div_right (Nat.add_le_add_right (neededFat_mono _ (by omega)) _)
        _ ≤ pre.szFat := hpre.room hlt
        _ ≤ l'.szFat := hal.szFat_ge

/-! ## The loop -/

/-- The layout that the rounds end with, in at most `n` rounds. -/
def chooseLayout (e : MkfsEnv) : Nat → FsType × Nat → Option (Except FRESULT MkfsLayout)
  | 0, _ => none
  | n + 1, p =>
    match layoutRound e p with
    | .inl p' => chooseLayout e n p'
    | .inr r => some r

/-- The loop of `f_mkfs` leaves the state alone. -/
theorem loop_layoutRound (e : MkfsEnv) (w : State) : ∀ (n : Nat) (p : FsType × Nat),
    (loop (fun p => pure (layoutRound e p)) n p : M (Except FRESULT MkfsLayout)) w =
      (chooseLayout e n p).map (·, w)
  | 0, _ => rfl
  | n + 1, p => by
    rw [loop, chooseLayout, pure_bind]
    cases layoutRound e p with
    | inl p' => exact loop_layoutRound e w n p'
    | inr r => rfl

/-- A bound on the rounds to come: the cluster size is adjusted once, and FAT16 is given up once. -/
def roundsLeft (p : FsType × Nat) : Nat :=
  (if p.1 = .fat16 then 1 else 0) + (if p.2 = 0 then 1 else 0)

/-- A round that goes on starts the next one from admissible values, with fewer rounds to come. -/
theorem layoutRound_next (he : e.Sane) {p p' : FsType × Nat} (hp : RoundOk p)
    (h : layoutRound e p = .inl p') : RoundOk p' ∧ roundsLeft p' < roundsLeft p := by
  have hau := hp.au (e := e)
  have hal := (preLayout_sized he hp.1 hau).align he
  have hcase := layoutRound_cases he hp
  rw [h] at hcase
  have h16 : ((preLayout e p.1 (roundAu e p)).align e).fsty = .fat16 → p.1 = .fat16 := by
    intro hl
    rw [hal.fsty_eq] at hl
    refine hp.1.resolve_right fun h32 => ?_
    simp [preLayout, h32] at hl
  unfold IsAu at hau
  cases hcase with
  | halve hl h0 hne =>
    refine ⟨⟨.inr rfl, .inr (by unfold IsAu; omega)⟩, ?_⟩
    simp [roundsLeft, h0, hne]
  | double hl h0 hle =>
    refine ⟨⟨.inl rfl, .inr (by unfold IsAu; omega)⟩, ?_⟩
    have hne : roundAu e p * 2 ≠ 0 := by omega
    simp only [roundsLeft, h0, h16 hl, hne, if_true, if_false]
    omega
  | switch hl =>
    refine ⟨⟨.inr rfl, hp.2⟩, ?_⟩
    simp [roundsLeft, h16 hl]

/-- The rounds end, and a layout they end with is accepted. -/
theorem chooseLayout_accepted (he : e.Sane) : ∀ {n : Nat} {p : FsType × Nat}, RoundOk p →
    roundsLeft p < n →
    ∃ r, chooseLayout e n p = some r ∧ ∀ l, r = .ok l → Accepted e l
  | n + 1, p, hp, hn => by
    rw [chooseLayout]
    cases h : layoutRound e p with
    | inl p' =>
      obtain ⟨hp', hlt⟩ := layoutRound_next he hp h
      exact chooseLayout_accepted he hp' (by omega)
    | inr r =>
      refine ⟨r, rfl, fun l hr => ?_⟩
      rw [hr] at h
      exact layoutRound_accepted he hp h

/-- The rounds give up with `FR_MKFS_ABORTED`. -/
theorem chooseLayout_error (he : e.Sane) {res : FRESULT} : ∀ {n : Nat} {p : FsType × Nat},
    RoundOk p → chooseLayout e n p = some (.error res) → res = .mkfsAborted
  | 0, _, _, h => by cases h
  | n + 1, p, hp, h => by
    rw [chooseLayout] at h
    have hcase := layoutRound_cases he hp
    cases hr : layoutRound e p with
    | inl p' =>
      rw [hr] at h
      exact chooseLayout_error he (layoutRound_next he hp hr).1 h
    | inr r =>
      rw [hr] at h hcase
      cases h
      cases hcase
      rfl

/-! ## Volumes without clusters -/

/-- The size of the system areas of a FAT12 volume with clusters of `au` sectors, before the data
area is aligned. -/
def fat12System (e : MkfsEnv) (au : Nat) : Nat :=
  1 + fat12Size (e.szVol / au) * e.nFat + e.nRoot / 16

/-- The start of the data area in the volume after the alignment. -/
def fat12Start (e : MkfsEnv) (au : Nat) : Nat :=
  roundUp (e.bVol + fat12System e au) e.szBlk - e.bVol

/-- A volume small enough for FAT12 with clusters of `au` sectors that the alignment of the data
area fills up to less than one cluster, but not beyond its end. -/
structure FilledUp (e : MkfsEnv) (au : Nat) : Prop where
  small : e.szVol / au ≤ MAX_FAT12
  large : fat12System e au + au * 16 ≤ e.szVol
  start : fat12Start e au ≤ e.szVol
  rest : e.szVol < fat12Start e au + au

/-- The cluster size with which a FAT12 volume is created: the one asked for, else the automatic one
or, if that makes too many clusters, its double. -/
def fat12Au (e : MkfsEnv) (szAu : Nat) : Nat :=
  if szAu ≠ 0 then szAu
  else if e.szVol / autoAu (e.szVol / 0x1000) cst ≤ MAX_FAT12 then autoAu (e.szVol / 0x1000) cst
  else autoAu (e.szVol / 0x1000) cst * 2

/-- Rounding up keeps the order. -/
theorem roundUp_mono {a b : Nat} (m : Nat) (h : a ≤ b) : roundUp a m ≤ roundUp b m :=
  Nat.mul_le_mul_right _ (Nat.div_le_div_right (by omega))

/-- The data area is aligned to the erase block. -/
theorem start_eq (he : e.Sane) (sys : Nat) :
    sys + padding (e.bVol + sys) e.szBlk = roundUp (e.bVol + sys) e.szBlk - e.bVol := by
  have := add_padding (e.bVol + sys) he.blk.1
  omega

/-- The FAT12 layout of a round. -/
theorem Sized.system_fat12 {au : Nat} {l : MkfsLayout} (h : Sized e au l) (h12 : l.fsty = .fat12) :
    l.system e = fat12System e au := by
  have hr := h.szRsv_eq
  have hd := h.szDir
  rw [if_neg (by rw [h12]; simp)] at hr hd
  rw [MkfsLayout.system, hr, hd, h.szFat12 h12, h.nClst, fat12System]

/-- A round for FAT32 lays out a FAT32 volume. -/
theorem preLayout_fat32 {fsty : FsType} (hf : fsty = .fat16 ∨ fsty = .fat32) (au : Nat) :
    (preLayout e fsty au).fsty = .fat32 ↔ fsty = .fat32 := by
  rcases hf with rfl | rfl
  · simp only [preLayout, reduceCtorEq, if_false, iff_false]
    split <;> simp
  · simp [preLayout]

/-- A round ends with a layout without clusters exactly for a volume that the alignment fills up. -/
theorem layoutRound_empty (he : e.Sane) {p : FsType × Nat} (hp : RoundOk p) :
    (∃ l, layoutRound e p = .inr (.ok l) ∧ l.nClst = 0) ↔
      p.1 = .fat16 ∧ FilledUp e (roundAu e p) := by
  have hau := hp.au (e := e)
  have hpre := preLayout_sized he hp.1 hau
  have hal := hpre.align he
  have hcase := layoutRound_cases he hp
  have h32 := preLayout_fat32 (e := e) hp.1 (roundAu e p)
  have hsys := hpre.system_le he
  have hpe := hal.pau_eq.trans hpre.pau_eq
  have hpad := padding_lt (e.bVol + (preLayout e p.1 (roundAu e p)).system e) he.blk.1
  have hblk := he.blk.2
  generalize preLayout e p.1 (roundAu e p) = pre at *
  generalize pre.align e = l' at *
  have hst := hal.system
  have hle : l'.system e ≤ 0x2000000 := by omega
  rw [start_eq he] at hst
  -- what the alignment of a FAT12 layout gives
  have h12 : pre.fsty = .fat12 → l'.system e = fat12Start e (roundAu e p) := by
    intro h
    rw [hst, hpre.system_fat12 h, fat12Start]
  constructor
  · rintro ⟨l, hl, hn⟩
    have hacc := layoutRound_accepted he hp hl
    rw [hl] at hcase
    cases hcase with
    | done _ hsize hty =>
      simp only [MAX_FAT12, MAX_FAT16] at hn hty
      have hty' : pre.fsty = .fat12 := by
        rw [← hal.fsty_eq]
        exact (hty.resolve_right (by omega)).1
      have hfit : l'.system e ≤ e.szVol := hacc.fits
      have hcl : l'.clusters e = (e.szVol - l'.system e) / l'.pau := hacc.nClst
      rw [hn, hpe, h12 hty'] at hcl
      rw [h12 hty'] at hfit
      refine ⟨hp.1.resolve_right fun h => ?_, ?_, ?_, hfit, ?_⟩
      · rw [h32.2 h] at hty'
        cases hty'
      · rw [← hpre.nClst]
        exact (hpre.fat12.1 hty').1
      · rw [← hpre.system_fat12 hty']
        exact hsize
      · have := Nat.lt_of_div_eq_zero hau.bounds.1 hcl.symm
        omega
  · rintro ⟨h16, hf⟩
    have hty' : pre.fsty = .fat12 := by
      refine hpre.fat12.2 ⟨?_, fun h => ?_⟩
      · rw [hpre.nClst]
        exact hf.small
      · rw [h32.1 h] at h16
        cases h16
    have hsys12 := h12 hty'
    have hfe := hal.fsty_eq.trans hty'
    have hn : l'.clusters e = 0 := by
      have hst := hf.start
      have hre := hf.rest
      rcases clusters_cases he hal.pau hle with ⟨_, h⟩ | ⟨h, -⟩
      · rw [h, hsys12, hpe]
        exact Nat.div_eq_of_lt (by omega)
      · omega
    have hlarge := hf.large
    rw [← hpre.system_fat12 hty'] at hlarge
    rw [hn] at hcase
    generalize layoutRound e p = r at *
    cases hcase with
    | abort h =>
      rw [hty', hfe] at h
      simp at h
      omega
    | done => exact ⟨_, rfl, rfl⟩
    | halve hl | double hl | switch hl =>
      rw [hl] at hfe
      cases hfe

/-- The rounds end with a layout without clusters. -/
def Empties (e : MkfsEnv) (n : Nat) (p : FsType × Nat) : Prop :=
  ∃ l, chooseLayout e n p = some (.ok l) ∧ l.nClst = 0

/-- From FAT32 the rounds never end without clusters. -/
theorem not_empties_fat32 (he : e.Sane) : ∀ {n : Nat} {p : FsType × Nat}, RoundOk p →
    p.1 = .fat32 → ¬Empties e n p
  | 0, _, _, _ => by
    rintro ⟨l, hl, -⟩
    cases hl
  | n + 1, p, hp, h32 => by
    rintro ⟨l, hl, hn⟩
    rw [chooseLayout] at hl
    cases hr : layoutRound e p with
    | inl p' =>
      rw [hr] at hl
      have hcase := layoutRound_cases he hp
      rw [hr] at hcase
      obtain ⟨hp', -⟩ := layoutRound_next he hp hr
      refine not_empties_fat32 he hp' ?_ ⟨l, hl, hn⟩
      cases hcase with
      | halve | switch => rfl
      | double hl' =>
        rw [((preLayout_sized he hp.1 hp.au).align he).fsty_eq,
          (preLayout_fat32 hp.1 _).2 h32] at hl'
        cases hl'
    | inr r =>
      rw [hr] at hl
      cases hl
      obtain ⟨h16, -⟩ := (layoutRound_empty he hp).1 ⟨l, hr, hn⟩
      rw [h32] at h16
      cases h16

/-- With a fixed cluster size the first round decides. -/
theorem empties_fixed (he : e.Sane) {au : Nat} (ha : IsAu au) (n : Nat) :
    Empties e (n + 1) (.fat16, au) ↔ FilledUp e au := by
  have hp : RoundOk (.fat16, au) := ⟨.inl rfl, .inr ha⟩
  have hne : au ≠ 0 := by have := ha.bounds; omega
  have hau : roundAu e (.fat16, au) = au := if_pos hne
  have hround := layoutRound_empty he hp
  rw [hau] at hround
  constructor
  · rintro ⟨l, hl, hn⟩
    rw [chooseLayout] at hl
    cases hr : layoutRound e (.fat16, au) with
    | inl p' =>
      rw [hr] at hl
      have hcase := layoutRound_cases he hp
      rw [hr] at hcase
      cases hcase with
      | halve _ h0 | double _ h0 => exact absurd h0 hne
      | switch =>
        exact absurd ⟨l, hl, hn⟩ (not_empties_fat32 he (layoutRound_next he hp hr).1 rfl)
    | inr r =>
      rw [hr] at hl
      cases hl
      exact (hround.1 ⟨l, hr, hn⟩).2
  · intro hf
    obtain ⟨l, hl, hn⟩ := hround.2 ⟨rfl, hf⟩
    exact ⟨l, by rw [chooseLayout, hl], hn⟩

/-- The system areas of FAT16 are larger than those of FAT12 with clusters of twice the size, and
still small against a volume of at most twice the number of clusters. -/
theorem Sized.system_fat16 (he : e.Sane) {a : Nat} {l : MkfsLayout} (h : Sized e a l)
    (h16 : l.fsty = .fat16) (hm : MAX_FAT12 < e.szVol / a) (hs : e.szVol / (a * 2) ≤ MAX_FAT12) :
    fat12System e (a * 2) ≤ l.system e ∧ l.system e + a * 16 ≤ e.szVol := by
  have hr := h.szRsv_eq
  have hd := h.szDir
  rw [if_neg (by rw [h16]; simp)] at hr hd
  have hn := h.nClst
  have hdm := Nat.div_mul_le_self e.szVol a
  rw [← Nat.div_div_eq_div_mul] at hs
  rw [← hn] at hm hs hdm
  simp only [MAX_FAT12] at hm hs
  have hsmall := h.small (by omega)
  have hroom := h.room (by omega)
  rw [h16] at hroom
  simp only [neededFat] at hroom
  have hroot := he.nRoot
  have ha : 4086 * a ≤ l.nClst * a := Nat.mul_le_mul_right _ (by omega)
  have ha1 : 1 ≤ a := by
    have := h.pau.bounds
    rw [h.pau_eq] at this
    exact this.1
  have hge : fat12Size (l.nClst / 2) ≤ l.szFat := by
    unfold fat12Size
    omega
  rw [MkfsLayout.system, hr, hd, fat12System, ← Nat.div_div_eq_div_mul, ← hn]
  rcases he.nFat with h1 | h2
  · rw [h1]
    omega
  · rw [h2]
    omega

/-- A volume that the alignment fills up at the double of the automatic cluster size gets there:
FAT16 leaves too few clusters in the first round. -/
theorem layoutRound_doubles (he : e.Sane) {a : Nat} (ha : a = autoAu (e.szVol / 0x1000) cst)
    (hm : MAX_FAT12 < e.szVol / a) (hf : FilledUp e (a * 2)) :
    layoutRound e (.fat16, 0) = .inl (.fat16, a * 2) := by
  have hp : RoundOk (.fat16, 0) := ⟨.inl rfl, .inl rfl⟩
  have hau : roundAu e (.fat16, 0) = a := by rw [ha]; rfl
  have hia : IsAu a := hau ▸ hp.au
  have hcase := layoutRound_cases he hp
  have hpre := preLayout_sized he hp.1 hia
  have hal := hpre.align he
  rw [hau] at hcase
  have hpe := hal.pau_eq.trans hpre.pau_eq
  have h16 : (preLayout e .fat16 a).fsty = .fat16 := by simp [preLayout, hm]
  obtain ⟨hsys, hsize⟩ := hpre.system_fat16 he h16 hm hf.small
  have hle := hpre.system_le he
  have hpad := padding_lt (e.bVol + (preLayout e .fat16 a).system e) he.blk.1
  have hblk := he.blk.2
  generalize preLayout e .fat16 a = pre at *
  generalize pre.align e = l at *
  have hst := hal.system
  have hfe := hal.fsty_eq.trans h16
  -- the data area starts at least as late as with FAT12
  have hstart : fat12Start e (a * 2) ≤ l.system e := by
    rw [hst, start_eq he]
    exact Nat.sub_le_sub_right (roundUp_mono _ (by omega)) _
  have hrest := hf.rest
  have hn : l.clusters e ≤ MAX_FAT12 ∨ MAX_FAT16 < l.clusters e := by
    rcases clusters_cases he hal.pau (by omega) with ⟨hin, h⟩ | ⟨-, h⟩
    · left
      rw [h, hpe]
      refine Nat.le_trans (Nat.div_le_of_le_mul (?_ : _ ≤ a * 2)) (by decide)
      omega
    · exact .inr h
  have h64 : a * 2 ≤ 64 := by
    by_contra hlt
    have hauto := autoAu_cst (e.szVol / 0x1000)
    have hsm := hf.small
    rw [← ha] at hauto
    rw [show a = 64 by omega] at hsm
    simp only [MAX_FAT12] at hsm
    omega
  generalize layoutRound e (.fat16, 0) = r at *
  cases hcase with
  | abort h =>
    rw [hfe, h16, hau] at h
    simp only [reduceCtorEq, false_and, false_or, true_and, ne_eq, not_true] at h
    omega
  | done _ _ h =>
    rw [hfe] at h
    simp only [reduceCtorEq, false_and, false_or, or_false, true_and] at h
    omega
  | halve hl =>
    rw [hl] at hfe
    cases hfe
  | double => rw [hau]
  | switch _ h =>
    rw [hau] at h
    exact absurd h (by simp only [ne_eq, not_true, false_or]; omega)

/-- The rounds from FAT16 with an automatic cluster size end without clusters in the first one, or
in the second one at twice the cluster size. -/
theorem empties_auto (he : e.Sane) {a : Nat} (ha : a = autoAu (e.szVol / 0x1000) cst) (n : Nat) :
    Empties e (n + 2) (.fat16, 0) ↔
      FilledUp e a ∨ MAX_FAT12 < e.szVol / a ∧ FilledUp e (a * 2) := by
  have hp : RoundOk (.fat16, 0) := ⟨.inl rfl, .inl rfl⟩
  have hround := layoutRound_empty he hp
  have hau : roundAu e (.fat16, 0) = a := by rw [ha]; rfl
  have hia : IsAu a := hau ▸ hp.au
  rw [hau] at hround
  constructor
  · rintro ⟨l, hl, hn⟩
    rw [chooseLayout] at hl
    cases hr : layoutRound e (.fat16, 0) with
    | inl p' =>
      rw [hr] at hl
      have hcase := layoutRound_cases he hp
      have hal := (preLayout_sized he hp.1 hia).align he
      have hok := (layoutRound_next he hp hr).1
      rw [hr, hau] at hcase
      cases hcase with
      | halve | switch => exact absurd ⟨l, hl, hn⟩ (not_empties_fat32 he hok rfl)
      | double h16 =>
        rw [hau] at hok hl
        refine .inr ⟨?_, (empties_fixed he (hok.2.resolve_left ?_) n).1 ⟨l, hl, hn⟩⟩
        · by_contra hle
          rw [hal.fsty_eq] at h16
          simp [preLayout, hle] at h16
        · have := hia.bounds
          simp only
          omega
    | inr r =>
      rw [hr] at hl
      cases hl
      exact .inl (hround.1 ⟨l, hr, hn⟩).2
  · rintro (hf | ⟨hm, hf⟩)
    · obtain ⟨l, hl, hn⟩ := hround.2 ⟨rfl, hf⟩
      exact ⟨l, by rw [chooseLayout, hl], hn⟩
    · have hd := layoutRound_doubles he ha hm hf
      have hia2 : IsAu (a * 2) :=
        (layoutRound_next he hp hd).1.2.resolve_left (by have := hia.bounds; simp only; omega)
      obtain ⟨l, hl, hn⟩ := (empties_fixed he hia2 n).2 hf
      exact ⟨l, by rw [chooseLayout, hd]; exact hl, hn⟩

/-- The rounds from FAT16 end with a layout without clusters exactly for a volume that the alignment
fills up at the cluster size for FAT12. -/
theorem empties_iff (he : e.Sane) {szAu : Nat} (ha : szAu = 0 ∨ IsAu szAu) (n : Nat) :
    Empties e (n + 2) (.fat16, szAu) ↔ FilledUp e (fat12Au e szAu) := by
  rcases ha with rfl | ha
  · rw [empties_auto he rfl n, fat12Au, if_neg (by simp)]
    split
    · rename_i hle
      exact ⟨fun h => h.resolve_right fun h' => by omega, .inl⟩
    · rename_i hlt
      exact ⟨fun h => (h.resolve_left fun h' => hlt h'.small).2, fun h => .inr ⟨by omega, h⟩⟩
  · have hne : szAu ≠ 0 := by have := ha.bounds; omega
    rw [fat12Au, if_pos hne]
    exact empties_fixed he ha (n + 1)

end FatFs
