import FatFs.Fat.Count

/-!
# The scans of `f_getfree`

`f_getfree` counts the free clusters with two loops: on FAT12 it asks `get_fat` for the entry of
each cluster, on FAT16 and FAT32 it runs over the sectors of the FAT. The first stops at the stored
value 1, which `get_fat` uses as an error code; the second counts the entries 0 and 1, which belong
to no cluster. Where neither happens both give the number of free clusters (`fGetfree_exact_iff`).
-/

namespace FatFs

open Run

/-- The number of zero entries from `lo` up to `hi`. -/
def Geometry.zeros (g : Geometry) (L : Nat → Sector) (lo hi : Nat) : Nat :=
  ((Finset.Ico lo hi).filter fun c => g.entry L c = 0).card

section
variable {g : Geometry} {L : Nat → Sector}

theorem Geometry.zeros_self (lo : Nat) : g.zeros L lo lo = 0 := by
  simp [zeros]

theorem Geometry.zeros_succ {lo hi : Nat} (h : lo ≤ hi) :
    g.zeros L lo (hi + 1) = if g.entry L hi = 0 then g.zeros L lo hi + 1 else g.zeros L lo hi := by
  have hico : Finset.Ico lo (hi + 1) = insert hi (Finset.Ico lo hi) := by
    ext c
    simp only [Finset.mem_Ico, Finset.mem_insert]
    omega
  unfold zeros
  rw [hico, Finset.filter_insert]
  split
  · exact Finset.card_insert_of_notMem (by simp)
  · rfl

/-- The entries 0 and 1 are counted apart. -/
theorem Geometry.zeros_reserved (h : 2 ≤ g.nFatent) : g.zeros L 0 g.nFatent =
    (if g.entry L 0 = 0 then 1 else 0) + (if g.entry L 1 = 0 then 1 else 0) + g.free L := by
  have hsplit : ∀ n, g.zeros L 0 (2 + n) =
      (if g.entry L 0 = 0 then 1 else 0) + (if g.entry L 1 = 0 then 1 else 0) +
        g.zeros L 2 (2 + n) := by
    intro n
    induction n with
    | zero =>
      rw [Nat.add_zero, zeros_self, zeros_succ (Nat.zero_le 1),
        zeros_succ (Nat.zero_le 0), zeros_self]
      split <;> split <;> rfl
    | succ n ih =>
      rw [← Nat.add_assoc, zeros_succ (Nat.zero_le _), zeros_succ (Nat.le_add_right 2 n), ih]
      split <;> rfl
  have := hsplit (g.nFatent - 2)
  rwa [Nat.add_sub_cancel' h] at this

end

/-- What a scan of the FAT keeps: it only reads. -/
structure Scanned (g : Geometry) (w w' : State) : Prop where
  inv : Inv g w'
  good : w'.Flushable
  same : Same g w w'
  sectors : w'.disk.sectors = w.disk.sectors

section
variable {g : Geometry} (hg : g.Sound) {w : State}

include hg

theorem Scanned.entry {w' : State} (h : Scanned g w w') {c : Nat} (hc : c < g.nFatent) :
    g.entry w'.logical c = g.entry w.logical c := hg.entry_same h.same hc

theorem Scanned.getFat {w₁ : State} (h : Scanned g w w₁) (ho : g.FatOn w) {c : Nat}
    (hc : g.IsClust c) :
    Returns (getFat c) w₁ fun r w' => Scanned g w w' ∧ r = g.entry w.logical c := by
  refine (getFat_inv hg h.inv c).mono fun r w' h' => ?_
  have hval := h'.full h.good (ho.kept h.sectors) hc
  rw [h.entry hg hc.2] at hval
  exact ⟨⟨h'.inv, h'.good h.good, h.same.trans h'.same, h'.kept.sectors.trans h.sectors⟩, hval⟩

omit hg in
/-- The value that `get_fat` answers: 1 for a number that is no cluster. -/
def Geometry.link (g : Geometry) (L : Nat → Sector) (c : Nat) : Nat :=
  if 2 ≤ c ∧ c < g.nFatent then g.entry L c else 1

omit hg in
theorem Geometry.link_of_clust (g : Geometry) (L : Nat → Sector) {c : Nat} (hc : g.IsClust c) :
    g.link L c = g.entry L c := if_pos hc

omit hg in
theorem Geometry.link_lt (g : Geometry) (L : Nat → Sector) (c : Nat) : g.link L c < DISKERR := by
  have h₁ := g.entry_lt L c
  have h₂ := g.entryMod_le
  unfold link
  simp only [DISKERR]
  split <;> omega

/-- `get_fat` answers the link of every number. -/
theorem Scanned.link {w₁ : State} (h : Scanned g w w₁) (ho : g.FatOn w) (c : Nat) :
    Returns (FatFs.getFat c) w₁ fun r w' => Scanned g w w' ∧ r = g.link w.logical c := by
  by_cases hc : g.IsClust c
  · rw [g.link_of_clust w.logical hc]
    exact h.getFat hg ho hc
  · have hlink : g.link w.logical c = 1 := if_neg hc
    rw [hlink, FatFs.getFat, returns_bind, returns_get, returns_ite, h.inv.geo]
    refine ⟨fun _ => returns_pure.2 ⟨h, rfl⟩, fun hin => absurd ⟨by omega, by omega⟩ hc⟩

/-- The FAT12 scan. -/
theorem free12_scan (hw : Inv g w) (hf : w.Flushable) (ho : g.FatOn w) :
    Returns (loop free12Round g.nFatent (2, 0)) w fun r _ =>
      (r = .ok (g.free w.logical) ∧ ∀ c, g.IsClust c → g.entry w.logical c ≠ 1) ∨
      (r = .error .intErr ∧ ∃ c, g.IsClust c ∧ g.entry w.logical c = 1) := by
  have hent := hg.entries
  -- the clusters below `p.1` are counted, and none of them holds 1
  refine Returns.loop (I := fun n p w' => Scanned g w w' ∧ g.nFatent - p.1 ≤ n ∧ g.IsClust p.1 ∧
      p.2 = g.zeros w.logical 2 p.1 ∧ ∀ c, 2 ≤ c → c < p.1 → g.entry w.logical c ≠ 1)
    (n := g.nFatent - 2) (fun n p w₁ hinv => ?_)
    ⟨⟨hw, hf, .refl g w, rfl⟩, Nat.le_refl _, ⟨Nat.le_refl _, hent⟩, by rw [Geometry.zeros_self],
      fun c _ _ => by omega⟩ (by omega)
  obtain ⟨h₁, hn, hc, hcount, hno⟩ := hinv
  rw [free12Round, returns_bind]
  refine (h₁.getFat hg ho hc).mono fun r w₂ hpost => ?_
  obtain ⟨h₂, hr⟩ := hpost
  have hlt := g.entry_lt w.logical p.1
  have hmod := g.entryMod_le
  simp only [returns_ite, returns_pure, returns_bind, returns_get, h₂.inv.geo]
  refine ⟨fun hd => ?_, fun _ => ⟨fun h1 => ?_, fun h1 => ?_⟩⟩
  · rw [hd, DISKERR] at hr
    omega
  · exact .inr ⟨rfl, p.1, hc, hr ▸ h1⟩
  have hno' : ∀ c, 2 ≤ c → c < p.1 + 1 → g.entry w.logical c ≠ 1 := fun c h2 hlt => by
    rcases Nat.lt_succ_iff_lt_or_eq.1 hlt with h | rfl
    · exact hno c h2 h
    · rwa [← hr]
  have hcount' : (if r = 0 then p.2 + 1 else p.2) = g.zeros w.logical 2 (p.1 + 1) := by
    rw [Geometry.zeros_succ hc.1, hr, hcount]
  refine ⟨fun hlt => ⟨g.nFatent - (p.1 + 1), by have := hc.2; omega, h₂, Nat.le_refl _,
    ⟨by have := hc.1; omega, hlt⟩, hcount', hno'⟩, fun hge => ?_⟩
  have hlast : p.1 + 1 = g.nFatent := by
    have := hc.2
    omega
  rw [hlast] at hcount' hno'
  exact .inl ⟨by rw [hcount']; rfl, fun c hc => hno' c hc.1 hc.2⟩

omit hg in
/-- The size of an entry in the scan of the sectors. -/
def Geometry.entrySize (g : Geometry) : Nat := if g.fsType = .fat16 then 2 else 4

omit hg in
/-- Before the round for the entry `j` of the scan of the sectors: the entries below `j` are
counted, and the window holds the sector of the entry unless the round starts a new one. -/
structure Scanning (g : Geometry) (w : State) (j : Nat) (p : FreeScan) (w' : State) : Prop
    extends Scanned g w w' where
  lt : j < g.nFatent
  clst : p.clst = g.nFatent - j
  i : p.i = j * g.entrySize % SS
  sect : p.sect = g.fatbase + j * g.entrySize / SS + if p.i = 0 then 0 else 1
  win : p.i ≠ 0 → w'.win = w.logical (g.fatbase + j * g.entrySize / SS)
  nfree : p.nfree = g.zeros w.logical 0 j

/-- The entries are inside the FAT. -/
theorem entrySize_inside (h12 : g.fsType ≠ .fat12) {j : Nat} (hj : j < g.nFatent) :
    j * g.entrySize < g.fsize * SS := by
  unfold Geometry.entrySize
  cases hf : g.fsType with
  | none => exact absurd hf hg.fsType
  | fat12 => exact absurd hf h12
  | fat16 =>
    have := hg.byte16 hf hj
    rw [if_pos rfl]
    omega
  | fat32 =>
    have := hg.byte32 hf hj
    rw [if_neg (by decide)]
    omega

/-- The value that the scan reads from the sector of an entry. -/
theorem scan_value (h12 : g.fsType ≠ .fat12) (L : Nat → Sector) (j : Nat) :
    (if g.fsType = .fat16 then ldWord (L (g.fatbase + j * g.entrySize / SS)) (j * g.entrySize % SS)
      else ldDword (L (g.fatbase + j * g.entrySize / SS)) (j * g.entrySize % SS) % 0x10000000) =
      g.entry L j := by
  unfold Geometry.entrySize
  cases hf : g.fsType with
  | none => exact absurd hf hg.fsType
  | fat12 => exact absurd hf h12
  | fat16 =>
    rw [if_pos rfl, if_pos rfl, ← Geometry.ldWord_entry hf L j, Nat.mul_comm 2 j]
  | fat32 =>
    rw [if_neg (by decide), if_neg (by decide), ← Geometry.ldDword_entry hf L j, Nat.mul_comm 4 j]

/-- The start of a round: the sector of the entry is in the window. -/
theorem Scanning.move (h12 : g.fsType ≠ .fat12) (ho : g.FatOn w) {j : Nat} {p : FreeScan}
    {w₁ : State} (h : Scanning g w j p w₁) :
    Returns (if p.i = 0 then moveWindow p.sect else pure .ok) w₁ fun r w₂ =>
      r = .ok ∧ Scanned g w w₂ ∧ w₂.win = w.logical (g.fatbase + j * g.entrySize / SS) := by
  rw [returns_ite]
  refine ⟨fun hi => ?_, fun hi => returns_pure.2 ⟨rfl, h.toScanned, h.win hi⟩⟩
  have hin := entrySize_inside hg h12 h.lt
  have hfat := Geometry.inFat_byte hin
  have hsect : p.sect = add32 g.fatbase (j * g.entrySize / SS) := by
    rw [hg.add32_fat hin, h.sect, if_pos hi, Nat.add_zero]
  rw [hsect]
  refine (moveFat hg h.inv hin).mono fun r w₂ h₂ => ?_
  obtain rfl : r = .ok := (h₂.good h.good).2 (by
    have := hfat.2
    unfold Geometry.FatOn at ho
    rw [h.sectors]
    omega)
  refine ⟨rfl, ⟨h₂.inv, (h₂.good h.good).1, h.same.trans h₂.same,
    h₂.kept.sectors.trans h.sectors⟩, ?_⟩
  rw [h₂.filled rfl, h.same _ hfat.not_inFat2]

omit hg in
/-- The position of the next entry. -/
theorem entrySize_next (j : Nat) :
    (j * g.entrySize % SS + g.entrySize) % SS = (j + 1) * g.entrySize % SS ∧
    j * g.entrySize / SS + 1 =
      (j + 1) * g.entrySize / SS + if (j + 1) * g.entrySize % SS = 0 then 0 else 1 := by
  have h : g.entrySize = 2 ∨ g.entrySize = 4 := by
    unfold Geometry.entrySize
    split
    · exact .inl rfl
    · exact .inr rfl
  simp only [SS]
  rcases h with h | h <;> rw [h] <;> constructor <;> (try split) <;> omega

/-- The scan of the sectors counts the zero entries of the FAT, the reserved ones with them. -/
theorem free_scan (h12 : g.fsType ≠ .fat12) (hw : Inv g w) (hf : w.Flushable) (ho : g.FatOn w) :
    Returns (loop freeRound (g.nFatent + 1) ⟨g.nFatent, g.fatbase, 0, 0⟩) w fun r _ =>
      r = .ok (g.zeros w.logical 0 g.nFatent) := by
  have hent := hg.entries
  refine Returns.loop (I := fun n p w' => ∃ j, Scanning g w j p w' ∧ p.clst ≤ n)
    (n := g.nFatent) (fun n p w₁ hinv => ?_)
    ⟨0, ⟨⟨hw, hf, .refl g w, rfl⟩, by omega, rfl, by simp, by simp, by simp,
      by rw [Geometry.zeros_self]⟩, Nat.le_refl _⟩ (Nat.lt_succ_self _)
  obtain ⟨j, h₁, hn⟩ := hinv
  have hj := h₁.lt
  rw [freeRound, returns_bind]
  refine (h₁.move hg h12 ho).mono fun r w₂ hpost => ?_
  obtain ⟨hr, h₂, hwin⟩ := hpost
  simp only [returns_ite, returns_pure, returns_bind, returns_get, hr, ne_eq, not_true_eq_false,
    false_imp_iff, not_false_eq_true, true_imp_iff, true_and]
  obtain ⟨hnext, hdiv⟩ := entrySize_next (g := g) j
  have hsect : (if p.i = 0 then add32 p.sect 1 else p.sect) =
      g.fatbase + j * g.entrySize / SS + 1 := by
    have hs := h₁.sect
    split
    · rename_i hi
      rw [if_pos hi, Nat.add_zero] at hs
      have hin := (Geometry.inFat_byte (entrySize_inside hg h12 hj)).2
      have hsize := hw.size
      unfold Geometry.FatOn at ho
      rw [hs, add32_of_lt (by omega)]
    · rename_i hi
      rw [hs, if_neg hi]
  rw [hsect, hwin, h₂.inv.geo, h₁.i, scan_value hg h12]
  have hcount : (if g.entry w.logical j = 0 then p.nfree + 1 else p.nfree) =
      g.zeros w.logical 0 (j + 1) := by
    rw [Geometry.zeros_succ (Nat.zero_le j), h₁.nfree]
  rw [hcount, h₁.clst]
  refine ⟨fun hlast => ?_, fun hmore => ⟨n - 1, ?_, j + 1, ⟨h₂, by omega, ?_, ?_, ?_, fun hne => ?_,
    rfl⟩, ?_⟩⟩
  · have : j + 1 = g.nFatent := by omega
    rw [round_inr, this]
  · have := h₁.clst
    omega
  · simp only
    omega
  · exact hnext
  · show g.fatbase + j * g.entrySize / SS + 1 = _ + if (j * g.entrySize % SS + g.entrySize) % SS = 0
      then 0 else 1
    rw [hnext]
    omega
  · have hne : (j + 1) * g.entrySize % SS ≠ 0 := by
      rw [← hnext]
      exact hne
    rw [if_neg hne] at hdiv
    rw [hwin, Nat.add_right_cancel hdiv]
  · have := h₁.clst
    simp only
    omega

end

/-- The FAT contents on which the scans count the clusters: on FAT12 no cluster has the value 1,
else the entries 0 and 1 are in use. -/
def Geometry.Countable (g : Geometry) (L : Nat → Sector) : Prop :=
  if g.fsType = .fat12 then ∀ c, g.IsClust c → g.entry L c ≠ 1
  else g.entry L 0 ≠ 0 ∧ g.entry L 1 ≠ 0

/-- `f_getfree` on a volume whose number of free clusters is not known: the run and its result. -/
theorem fGetfree_scan {g : Geometry} (hg : g.Sound) {w : State} (hw : Inv g w) (hf : w.Flushable)
    (ho : g.FatOn w) {path rest : List UInt8} (hm : mountVolume path 0 w = some ((.ok, rest), w))
    (hunknown : g.nFatent - 2 < w.freeClst) :
    Returns (fGetfree path) w fun r _ =>
      if g.fsType = .fat12 then
        (r = (.ok, g.free w.logical) ∧ ∀ c, g.IsClust c → g.entry w.logical c ≠ 1) ∨
        (r = (.intErr, 0) ∧ ∃ c, g.IsClust c ∧ g.entry w.logical c = 1)
      else r = (.ok, g.zeros w.logical 0 g.nFatent) := by
  rw [fGetfree, returns_bind]
  refine ⟨_, w, hm, ?_⟩
  simp only [if_true, returns_bind, returns_get, returns_ite, hw.geo]
  refine ⟨fun h => absurd h (by omega), fun _ => ⟨fun h12 => ?_, fun h12 => ?_⟩⟩
  · simp only [if_pos h12]
    refine (free12_scan hg hw hf ho).mono fun r w₁ h => ?_
    rcases h with ⟨rfl, h⟩ | ⟨rfl, h⟩
    · simp only [returns_bind, returns_modify, returns_pure]
      exact .inl ⟨trivial, h⟩
    · exact returns_pure.2 (.inr ⟨rfl, h⟩)
  · simp only [if_neg h12]
    refine (free_scan hg h12 hw hf ho).mono fun r w₁ h => ?_
    subst h
    simp only [returns_bind, returns_modify, returns_pure]

/-- `f_getfree` counts exactly the free clusters if and only if the FAT is countable. -/
theorem fGetfree_exact_iff {g : Geometry} (hg : g.Sound) {w : State} (hw : Inv g w)
    (hf : w.Flushable) (ho : g.FatOn w) {path rest : List UInt8}
    (hm : mountVolume path 0 w = some ((.ok, rest), w)) (hunknown : g.nFatent - 2 < w.freeClst) :
    Returns (fGetfree path) w fun r _ =>
      (r = (.ok, g.free w.logical) ∧ r.2 ≤ g.nFatent - 2) ↔ g.Countable w.logical := by
  refine (fGetfree_scan hg hw hf ho hm hunknown).mono fun r _ h => ?_
  have hle := g.free_le w.logical
  have hent := hg.entries
  unfold Geometry.Countable
  split at h
  · rename_i h12
    rw [if_pos h12]
    rcases h with ⟨rfl, h⟩ | ⟨rfl, c, hc, h1⟩
    · exact ⟨fun _ => h, fun _ => ⟨rfl, hle⟩⟩
    · refine ⟨fun h => ?_, fun h => absurd h1 (h c hc)⟩
      cases h.1
  · rename_i h12
    rw [if_neg h12, h, Geometry.zeros_reserved (by omega)]
    constructor
    · rintro ⟨hz, -⟩
      have hz := (Prod.mk.inj hz).2
      constructor
      · intro h0
        rw [if_pos h0] at hz
        omega
      · intro h1
        rw [if_pos h1] at hz
        omega
    · rintro ⟨h0, h1⟩
      rw [if_neg h0, if_neg h1, Nat.zero_add]
      exact ⟨rfl, by omega⟩

/-- The plain volume is countable, and `f_getfree` finds its clusters free. -/
theorem fGetfree_exact_plain : ∃ w, mountVolume [] 0 (registeredOn (fuzzDisk plainImage)) =
      some ((.ok, []), w) ∧ w.geo.Countable w.logical ∧
    Returns (fGetfree []) w fun r _ =>
      r = (.ok, w.geo.free w.logical) ∧ r.2 ≤ w.geo.nFatent - 2 := by
  have h : (mountVolume [] 0 (registeredOn (fuzzDisk plainImage))).map (fun r =>
      ((r.1, r.2.geo, r.2.freeClst, r.2.disk.sectors),
        (List.range 126).all fun c => r.2.geo.entry r.2.logical c != 1)) =
      some ((((.ok, []), ⟨.fat12, 2, 16, 1, 126, 1, 0, 1, 3, 4, 1⟩, 0xFFFFFFFF, 128)), true) := by
    decide +kernel
  obtain ⟨⟨r, w⟩, hm, h⟩ := Option.map_eq_some_iff.1 h
  simp only [Prod.mk.injEq, List.all_eq_true, List.mem_range, bne_iff_ne] at h
  obtain ⟨⟨rfl, hgeo, hfree, hsec⟩, hone⟩ := h
  obtain ⟨hg, hi, hf⟩ := fuzzDisk_mounted plainImage_mountsSound hm
  have hcount : w.geo.Countable w.logical := by
    unfold Geometry.Countable
    rw [if_pos (by rw [hgeo])]
    exact fun c hc => hone c (by have := hc.2; rw [hgeo] at this; exact this)
  have hagain := (mountVolume_again (registeredOn (fuzzDisk plainImage)) [] 0 _ _ hm).2 rfl
    (by rw [hgeo]; decide)
  refine ⟨w, hm, hcount, (fGetfree_exact_iff hg hi hf ?_ hagain ?_).mono
    fun r _ h => h.2 hcount⟩
  · unfold Geometry.FatOn
    rw [hgeo, hsec]
    decide
  · rw [hgeo, hfree]
    decide

/-- A boot sector of a FAT16 volume of 4104 sectors: 1 sector per cluster, 1 reserved sector, 1 FAT
of 16 sectors, 16 root entries. -/
def zeroFatBoot : List (Nat × UInt8) :=
  [(0, 0xEB), (12, 2), (13, 1), (14, 1), (16, 1), (17, 16), (19, 8), (20, 16), (22, 16),
    (510, 0x55), (511, 0xAA)]

/-- An image with this boot sector and zeros behind it, so also in the FAT entries 0 and 1. -/
def zeroFatImage : List UInt8 := (List.range 512).map ((bootImage 128 zeroFatBoot).data 0)

/-- On the volume with an empty FAT `f_getfree` counts the entries 0 and 1, more than there are
clusters. -/
theorem fGetfree_counts_reserved : ∃ w, mountVolume [] 0 (registeredOn (fuzzDisk zeroFatImage)) =
      some ((.ok, []), w) ∧ w.geo.FatOn w ∧ w.geo.nFatent - 2 < w.freeClst ∧
    Returns (fGetfree []) w fun r _ => r.1 = .ok ∧ r.2 = w.geo.free w.logical + 2 := by
  have h : (mountVolume [] 0 (registeredOn (fuzzDisk zeroFatImage))).map (fun r =>
      ((r.1, r.2.geo, r.2.freeClst, r.2.disk.sectors),
        r.2.geo.entry r.2.logical 0, r.2.geo.entry r.2.logical 1)) =
      some ((((.ok, []), ⟨.fat16, 1, 16, 1, 4088, 16, 0, 1, 17, 18, 1⟩, 0xFFFFFFFF, 128)),
        0, 0) := by
    decide +kernel
  obtain ⟨⟨r, w⟩, hm, h⟩ := Option.map_eq_some_iff.1 h
  simp only [Prod.mk.injEq] at h
  obtain ⟨⟨rfl, hgeo, hfree, hsec⟩, h0, h1⟩ := h
  have hsound : (fuzzDisk zeroFatImage).MountsSound :=
    Disk.mountsSound_of (b := 0) (by decide +kernel) (by decide +kernel) (by decide +kernel)
  obtain ⟨hg, hi, hf⟩ := fuzzDisk_mounted hsound hm
  have hon : w.geo.FatOn w := by
    unfold Geometry.FatOn
    rw [hgeo, hsec]
    decide
  have hunknown : w.geo.nFatent - 2 < w.freeClst := by
    rw [hgeo, hfree]
    decide
  have hagain := (mountVolume_again (registeredOn (fuzzDisk zeroFatImage)) [] 0 _ _ hm).2 rfl
    (by rw [hgeo]; decide)
  refine ⟨w, hm, hon, hunknown, (fGetfree_scan hg hi hf hon hagain hunknown).mono
    fun r _ h => ?_⟩
  rw [if_neg (by rw [hgeo]; decide), Geometry.zeros_reserved (by have := hg.entries; omega),
    if_pos h0, if_pos h1] at h
  rw [h]
  exact ⟨rfl, Nat.add_comm _ _⟩

end FatFs
