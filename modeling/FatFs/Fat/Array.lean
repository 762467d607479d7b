import FatFs.Fat.Exact

/-!
# The FAT as an array

`get_fat` and `put_fat` on a volume whose FAT is on the device, from every state of the window, are
the access functions of an array of 12, 16 or 28 bit entries with the indices `2 .. n_fatent - 1`
(`fat_array`). They load sectors of the first FAT only (`FatLoads`), which rests on the FAT size
that the mount has checked, and outside the FATs they change nothing.
-/

namespace FatFs

open Run

/-- A run from `w` to `w'` has loaded sectors of the first FAT only, one at a time. It may have
flushed the window. -/
structure FatLoads (g : Geometry) (w w' : State) : Prop where
  geo : w'.geo = g
  loads : ∃ l, w'.disk.log = l ++ w.disk.log ∧ ∀ s n, .read s n ∈ l → g.InFat s ∧ n = 1

section
variable {g : Geometry} {w : State}

/-- Nothing is loaded when nothing is done. -/
theorem FatLoads.refl (h : w.geo = g) : FatLoads g w w := ⟨h, [], rfl, nofun⟩

/-- A transfer that is no load, or loads a sector of the FAT. -/
theorem FatLoads.note {w' : State} (h : FatLoads g w w') {a : Access}
    (ha : ∀ s n, a = .read s n → g.InFat s ∧ n = 1) : FatLoads g w (w'.note a) := by
  obtain ⟨l, hl, hp⟩ := h.loads
  refine ⟨h.geo, a :: l, ?_, fun s n hmem => ?_⟩
  · show a :: w'.disk.log = a :: l ++ w.disk.log
    rw [hl]
    rfl
  · rcases List.mem_cons.1 hmem with he | hmem
    · exact ha s n he.symm
    · exact hp s n hmem

/-- A write loads no sector. -/
theorem diskWrite_fatLoads (buff : Nat → Sector) (s c : Nat) :
    Keeps (FatLoads g w) (diskWrite buff s c) := by
  unfold diskWrite
  exact .get fun _ _ => .bind (.modify fun w' h => h.note (a := .write s c) nofun) fun _ => .ite
    (fun _ => .bind (.modify fun _ h => ⟨h.geo, h.loads⟩) fun _ => .pure _) fun _ => .pure _

/-- `sync_window` loads no sector. -/
theorem syncWindow_fatLoads : Keeps (FatLoads g w) syncWindow := by
  unfold syncWindow
  exact .get fun _ _ => .ite (fun _ => .bind (diskWrite_fatLoads _ _ _) fun _ => .ite
    (fun _ => .bind (.modify fun _ h => ⟨h.geo, h.loads⟩) fun _ => .ite
      (fun _ => .bind (diskWrite_fatLoads _ _ _) fun _ => .pure _) fun _ => .pure _)
        fun _ => .pure _) fun _ => .pure _

/-- `move_window` to the FAT loads a sector of the FAT. -/
theorem moveWindow_fatLoads {s : Nat} (hs : g.InFat s) : Keeps (FatLoads g w) (moveWindow s) := by
  have hread : Keeps (FatLoads g w) (diskRead s 1) := by
    unfold diskRead
    refine .get fun _ _ => .bind (.modify fun w' h => h.note (a := .read s 1) ?_) fun _ => .ite
      (fun _ => .pure _) fun _ => .pure _
    rintro _ _ ⟨⟩
    exact ⟨hs, rfl⟩
  unfold moveWindow
  refine .get fun _ _ => .ite (fun _ => .bind syncWindow_fatLoads fun _ => .ite (fun _ =>
    .bind hread
    fun buff => ?_) fun _ => .pure _) fun _ => .pure _
  cases buff with
  | none => exact .bind (.modify fun _ h => ⟨h.geo, h.loads⟩) fun _ => .pure _
  | some buff => exact .bind (.modify fun _ h => ⟨h.geo, h.loads⟩) fun _ => .pure _

end

section
variable {g : Geometry} (hg : g.Sound)

include hg

/-- The window moves to a byte of the FAT. -/
theorem moveByte_fatLoads {w : State} {i : Nat} (hi : i < g.fsize * SS) :
    Keeps (FatLoads g w) (moveWindow (add32 g.fatbase (i / SS))) := by
  rw [hg.add32_fat hi]
  exact moveWindow_fatLoads (Geometry.inFat_byte hi)

/-- Every sector that `get_fat` loads is in the first FAT. -/
theorem getFat_fatLoads {w : State} (c : Nat) : Keeps (FatLoads g w) (getFat c) := by
  unfold getFat
  refine .get fun w' h => ?_
  rw [h.geo]
  refine .ite (fun _ => .pure _) fun hc => ?_
  have hlt : c < g.nFatent := by omega
  cases hf : g.fsType with
  | none => exact .pure _
  | fat12 =>
    have hb := hg.byte12 hf hlt
    exact .bind (moveByte_fatLoads hg (by omega)) fun _ => .ite (fun _ => .pure _) fun _ => .get
      fun _ _ => .bind (moveByte_fatLoads hg hb) fun _ => .ite (fun _ => .pure _) fun _ => .get
        fun _ _ => .pure _
  | fat16 =>
    have hb := hg.byte16 hf hlt
    have hdiv : c / (SS / 2) = 2 * c / SS := by
      simp only [SS]
      omega
    simp only [hdiv]
    exact .bind (moveByte_fatLoads hg (by omega)) fun _ => .ite (fun _ => .pure _) fun _ => .get
      fun _ _ => .pure _
  | fat32 =>
    have hb := hg.byte32 hf hlt
    have hdiv : c / (SS / 4) = 4 * c / SS := by
      simp only [SS]
      omega
    simp only [hdiv]
    exact .bind (moveByte_fatLoads hg (by omega)) fun _ => .ite (fun _ => .pure _) fun _ => .get
      fun _ _ => .pure _

/-- Every sector that `put_fat` loads is in the first FAT. -/
theorem putFat_fatLoads {w : State} (c v : Nat) : Keeps (FatLoads g w) (putFat c v) := by
  have hmod : ∀ f, Keeps (FatLoads g w) (modWin f) := fun f => .modify fun _ h => ⟨h.geo, h.loads⟩
  unfold putFat
  refine .get fun w' h => ?_
  rw [h.geo]
  refine .ite (fun hc => ?_) fun _ => .pure _
  cases hf : g.fsType with
  | none => exact .pure _
  | fat12 =>
    have hb := hg.byte12 hf hc.2
    exact .bind (moveByte_fatLoads hg (by omega)) fun _ => .ite (fun _ => .pure _) fun _ => .bind
      (hmod _) fun _ => .bind (moveByte_fatLoads hg hb) fun _ => .ite (fun _ => .pure _) fun _ =>
        .bind (hmod _) fun _ => .pure _
  | fat16 =>
    have hb := hg.byte16 hf hc.2
    have hdiv : c / (SS / 2) = 2 * c / SS := by
      simp only [SS]
      omega
    simp only [hdiv]
    exact .bind (moveByte_fatLoads hg (by omega)) fun _ => .ite (fun _ => .pure _) fun _ => .bind
      (hmod _) fun _ => .pure _
  | fat32 =>
    have hb := hg.byte32 hf hc.2
    have hdiv : c / (SS / 4) = 4 * c / SS := by
      simp only [SS]
      omega
    simp only [hdiv]
    exact .bind (moveByte_fatLoads hg (by omega)) fun _ => .ite (fun _ => .pure _) fun _ => .bind
      (hmod _) fun _ => .pure _

/-- The upper 4 bits of the double words of a FAT32 are kept. -/
theorem FatWrite.top {w w' : State} {c v : Nat} (h : FatWrite g w c v .ok w')
    (hf : g.fsType = .fat32) {d : Nat} (hd : d < g.nFatent) :
    Packed.get32 (g.fatByte w'.logical) d / 0x10000000 =
      Packed.get32 (g.fatByte w.logical) d / 0x10000000 := by
  have hb := hg.byte32 hf hd
  have hbytes : ∀ i < g.fsize * SS, g.fatByte w'.logical i =
      Packed.set28 (g.fatByte w.logical) c v i := fun i hi => by
    rw [h.bytes rfl i hi, Geometry.setEntry, hf]
  rw [← Packed.get32_set28_div (g.fatByte w.logical) v d, Packed.get32, Packed.get32]
  rw [hbytes _ (by omega), hbytes _ (by omega), hbytes _ (by omega), hbytes _ (by omega)]

omit hg in
/-- What `put_fat` to the entry of the cluster `c` has done from the state `w`. -/
structure Put (g : Geometry) (w : State) (c v : Nat) (r : FRESULT) (w₁ : State) : Prop where
  res : r = .ok
  loads : FatLoads g w w₁
  frame : ∀ s, ¬g.InFat s → ¬g.InFat2 s → w₁.logical s = w.logical s
  self : Returns (getFat c) w₁ fun x _ => x = v % g.entryMod
  other : ∀ d, g.IsClust d → d ≠ c → Returns (getFat d) w fun x _ => Returns (getFat d) w₁
    fun y _ => y = x
  top : g.fsType = .fat32 → ∀ d < g.nFatent, Packed.get32 (g.fatByte w₁.logical) d / 0x10000000 =
    Packed.get32 (g.fatByte w.logical) d / 0x10000000

section
variable {w : State} (hw : Inv g w) (hf : w.Flushable) (ho : g.FatOn w)

include hw hf ho

/-- `get_fat` of a valid cluster answers its entry, and loads from the FAT only. -/
theorem getFat_clust {c : Nat} (hc : g.IsClust c) :
    Returns (getFat c) w fun x w₁ => x = g.entry w.logical c ∧ Same g w w₁ ∧ FatLoads g w w₁ :=
  ((getFat_inv hg hw c).and_ensures (getFat_fatLoads hg c w (.refl hw.geo))).mono
    fun _ _ ⟨h, hl⟩ => ⟨h.full hf ho hc, h.same, hl⟩

/-- `put_fat` of a valid cluster sets its entry, and loads from the FAT only. -/
theorem putFat_clust {c : Nat} (hc : g.IsClust c) (v : Nat) :
    Returns (putFat c v) w (Put g w c v) := by
  refine ((putFat_inv hg hw c v).and_ensures (putFat_fatLoads hg c v w (.refl hw.geo))).mono
    fun r w₁ ⟨h, hl⟩ => ?_
  obtain rfl := h.full hf ho hc
  have hget : ∀ {d : Nat}, g.IsClust d →
      Returns (getFat d) w₁ fun x _ => x = g.entry w₁.logical d :=
    fun hd => (getFat_clust hg h.inv (h.good hf) (ho.kept h.kept.sectors) hd).mono
      fun _ _ hx => hx.1
  refine ⟨rfl, hl, h.frame, (hget hc).mono fun x _ hx => ?_, fun d hd hne => ?_,
    fun hf32 d hd => h.top hg hf32 hd⟩
  · rw [hx, h.entry_self hg]
  · refine (getFat_clust hg hw hf ho hd).mono fun x _ ⟨hx, _⟩ => (hget hd).mono fun y _ hy => ?_
    rw [hx, hy, h.entry_other hg hd.2 hne]

end

/-- FAT entry access is a lawful array. -/
theorem fat_array {w : State} (hw : Inv g w) (hf : w.Flushable) (ho : g.FatOn w) (c : Nat) :
    (g.IsClust c →
      (∀ v, Returns (putFat c v) w (Put g w c v)) ∧
      (Returns (putFat c 0xFFFFFFFF) w fun _ w₁ => Returns (getFat c) w₁ fun x _ => g.nFatent ≤ x) ∧
      Returns (getFat c) w fun _ w₁ => FatLoads g w w₁ ∧
        ∀ s, ¬g.InFat s → ¬g.InFat2 s → w₁.logical s = w.logical s) ∧
    (¬g.IsClust c → getFat c w = some (1, w) ∧ ∀ v, putFat c v w = some (.intErr, w)) := by
  refine ⟨fun hc => ⟨fun v => putFat_clust hg hw hf ho hc v, ?_, ?_⟩, fun hc => ⟨?_, fun v => ?_⟩⟩
  · refine (putFat_clust hg hw hf ho hc _).mono fun _ w₁ h => h.self.mono fun x _ hx => ?_
    rw [hx]
    exact hg.endMark_ge
  · exact (getFat_clust hg hw hf ho hc).mono fun _ w₁ ⟨_, hs, hl⟩ => ⟨hl, fun s _ hs₂ => hs s hs₂⟩
  · unfold Geometry.IsClust at hc
    rw [getFat, get_bind_apply, hw.geo, if_pos (by omega)]
    rfl
  · unfold Geometry.IsClust at hc
    rw [putFat, get_bind_apply, hw.geo, if_neg hc]
    rfl

end

/-- The hypotheses are met by a mounted volume: the entry of the cluster 4 is replaced, and the one
of the cluster 3 is kept. -/
theorem fat_array_cycle : ∃ w, mountVolume [] 0 (registeredOn (fuzzDisk cycleImage)) =
      some ((.ok, []), w) ∧ w.geo.IsClust 4 ∧
    Returns (putFat 4 0x12345) w (fun r w₁ => r = .ok ∧ Returns (getFat 4) w₁ fun x _ =>
      x = 0x12345 % w.geo.entryMod) ∧ getFat 126 w = some (1, w) := by
  obtain ⟨w, hm, hg, hi, hf, ho, hn, -⟩ := cycleImage_mounted
  have h4 : w.geo.IsClust 4 := ⟨by decide, by omega⟩
  refine ⟨w, hm, h4, (((fat_array hg hi hf ho 4).1 h4).1 0x12345).mono fun r w₁ h =>
    ⟨h.res, h.self⟩, ((fat_array hg hi hf ho 126).2 fun h => ?_).1⟩
  have := h.2
  omega

end FatFs
