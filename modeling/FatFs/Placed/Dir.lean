import FatFs.Path.Follow
import FatFs.Total.File

/-!
# Invariants that the primitives keep

`Closed g A I` says that the state property `I` is kept by everything the module does to a volume
with the geometry `g`: moving and flushing the window, storing to a window on a sector in `A`,
stretching, removing and clearing chains, the direct transfers of `f_write`, and the FSInfo update.
The functions of the interface consist of these, so every closed property is an invariant of whole
runs. This module and `FatFs.Placed.File` prove that for the functions one by one; the point is
where the window is when it is stored to. `DIR.At` says that a directory object stands on an entry
of its table, so its sector is in the root directory or in the data area.
-/

namespace FatFs

open Run

/-- A property that the primitives of the module keep while a volume with geometry `g` is mounted.
`A` holds of the sectors that directory entries and file data may be stored to. -/
structure Closed (g : Geometry) (A : Nat → Prop) (I : State → Prop) : Prop where
  inv : ∀ {w}, I w → Inv g w
  area : ∀ {s}, g.InArea s → A s
  note : ∀ {w} a, I w → I (w.note a)
  move : ∀ s, Keeps I (moveWindow s)
  sync : Keeps I syncWindow
  store : ∀ {w} t, I w → A w.winsect → I { w with win := t, wflag := true }
  create : ∀ c, Keeps I (createChain c)
  /-- `pclst` is 0 or the predecessor of the chain to remove. -/
  remove : ∀ {w} c p, I w → (p ≠ 0 → g.entry w.logical p = c) →
    Ensures (removeChain c p) w fun _ w' => I w'
  clear : ∀ c, g.IsClust c → Keeps I (dirClear c)
  direct : ∀ buff sect cc, 0 < cc → (∀ k < cc, g.InArea (sect + k)) →
    Keeps I (writeDirect buff sect cc)
  /-- The re-pointed window on the growing edge of a file, with the store behind it. -/
  edge : ∀ {w} s t, I w → w.wflag = false → g.InArea s →
    I { w with winsect := s, win := t, wflag := true }
  info : Keeps I syncFs
  last : ∀ {w} n, n < W32 → I w → I { w with lastClst := n }
  /-- The free clusters are counted only when their number is not known. -/
  count : ∀ {w} n, n ≤ g.nFatent → I w → g.nFatent - 2 < w.freeClst → g.fatbase < w.disk.sectors →
    I { w with freeClst := n, fsiFlag := w.fsiFlag ||| 1 }

/-- The window re-pointed to a sector of the data area and stored to. -/
theorem Inv.edge {g : Geometry} (hg : g.Sound) {w : State} (hw : Inv g w) {s : Nat}
    (hs : g.InArea s) (t : Sector) : Inv g { w with winsect := s, win := t, wflag := true } :=
  { geo := hw.geo
    reliable := hw.reliable
    size := hw.size
    coherent := fun h => by cases h
    winsect := hg.inArea_lt hs
    fat := fun h => absurd hs (hg.not_inArea_of_inFat h)
    info := hw.info }

/-- The successor in the same block. -/
theorem mod_succ_of_ne {n m : Nat} (h : (n + 1) % m ≠ 0) : (n + 1) % m = n % m + 1 := by
  rcases Nat.eq_zero_or_pos m with rfl | hm
  · rw [Nat.mod_zero, Nat.mod_zero]
  rw [← Nat.mod_add_mod]
  refine Nat.mod_eq_of_lt (Nat.lt_of_le_of_ne (Nat.mod_lt n hm) fun he => h ?_)
  rw [← Nat.mod_add_mod, he, Nat.mod_self]

/-- The directory object stands on an entry of its table: in the static root directory, or in a
cluster of the data area. -/
structure DIR.At (g : Geometry) (dp : DIR) : Prop where
  sect : (dp.clust = 0 ∧ g.fsType ≠ .fat32 ∧ dp.dptr / SZDIRE < g.nRootdir ∧
      dp.sect = g.dirbase + dp.dptr / SS) ∨
    (dp.clust ≠ 0 ∧ clst2sect g dp.clust ≠ 0 ∧
      dp.sect = clst2sect g dp.clust + dp.dptr / SS % g.csize)
  dir : dp.dir = dp.dptr % SS
  aligned : dp.dptr % SZDIRE = 0

section
variable {g : Geometry} {A : Nat → Prop} {I : State → Prop} (hg : g.Sound) (hI : Closed g A I)

include hg

/-- The sector of the entry is in the root directory or in the data area. -/
theorem DIR.At.inArea {dp : DIR} (h : dp.At g) : g.InArea dp.sect := by
  rcases h.sect with ⟨_, hf, hlt, hs⟩ | ⟨_, hc, hs⟩
  · have hdb := hg.dirbase hf
    have hda := hg.database
    have hrs := hg.rootSize
    rw [hs]
    unfold Geometry.InArea
    simp only [SZDIRE, SS] at *
    omega
  · rw [hs]
    exact hg.inArea_clst2sect hc (Nat.mod_lt _ hg.csize_pos)

/-- A place in a table is in a sector of the volume. -/
theorem DIR.At.sect_ne {dp : DIR} (h : dp.At g) : dp.sect ≠ 0 := by
  have h₁ := (h.inArea hg).1
  have h₂ := hg.area_pos
  omega

/-- The state after the window was moved to the sector of a directory entry: a store is allowed. -/
def Shown (I : State → Prop) (dp : DIR) (w : State) : Prop := I w ∧ w.winsect = dp.sect

include hI

/-- A store in the window that shows the sector of the directory entry. -/
theorem Shown.store {dp : DIR} {w : State} (h : Shown I dp w) (hd : dp.At g) (t : Sector) :
    I { w with win := t, wflag := true } := by
  refine hI.store t h.1 ?_
  rw [h.2]
  exact hI.area (hd.inArea hg)

/-- `get_fat` keeps the property, and answers the entry of a cluster or an error. -/
theorem getFat_closed {w : State} (hw : I w) (c : Nat) : Ensures (getFat c) w fun r w' =>
    I w' ∧ FatRead g w c r w' :=
  (getFat_keeps hI.move c w hw).and (getFat_inv hg (hI.inv hw) c).ensures

/-- `move_window` keeps a closed property, and moves the window when it succeeds. -/
theorem moveWindow_closed {w : State} (hw : I w) (s : Nat) : Ensures (moveWindow s) w fun r w' =>
    I w' ∧ (r = .ok → w'.winsect = s) :=
  (hI.move s w hw).and ((moveWindow_inv hg (hI.inv hw) s).ensures.mono fun _ _ h => h.winsect)

/-! ## Walking through a table -/

omit hg hI in
/-- `dir_sdi` succeeds with the sector of the offset. -/
theorem sdiEnd_ok {dp : DIR} {clst sect ofs : Nat} (h : (sdiEnd dp clst sect ofs).1 = .ok) :
    sect ≠ 0 ∧ (sdiEnd dp clst sect ofs).2 =
      { dp with clust := clst, sect := add32 sect (ofs / SS), dir := ofs % SS } := by
  unfold sdiEnd at h ⊢
  split at h
  · cases h
  · exact ⟨‹_›, by rw [if_neg ‹_›]⟩

omit hI in
/-- A place in the static root table. -/
theorem sdiEnd_static {dp : DIR} {clst ofs : Nat} (hc : clst = 0) (hd : dp.dptr = ofs)
    (hlt : ofs / SZDIRE < g.nRootdir) (hal : ofs % SZDIRE = 0)
    (h : (sdiEnd dp clst g.dirbase ofs).1 = .ok) :
    (sdiEnd dp clst g.dirbase ofs).2.At g := by
  have hf : g.fsType ≠ .fat32 := fun hf => by
    rw [hg.rootType.1 hf] at hlt
    exact Nat.not_lt_zero _ hlt
  have hdb := hg.dirbase hf
  have hda := hg.database
  have hdl := hg.database_lt
  have hrs := hg.rootSize
  rw [(sdiEnd_ok h).2]
  refine ⟨.inl ⟨hc, hf, by rw [hd]; exact hlt, ?_⟩, by rw [hd], by rw [hd]; exact hal⟩
  show add32 g.dirbase (ofs / SS) = g.dirbase + dp.dptr / SS
  rw [hd]
  refine add32_of_lt ?_
  simp only [SZDIRE, SS] at *
  omega

omit hI in
/-- A place in a table of clusters. -/
theorem sdiEnd_clust {dp : DIR} {clst ofs : Nat} (hc : clst ≠ 0)
    (hs : ofs / SS = dp.dptr / SS % g.csize) (hm : ofs % SS = dp.dptr % SS)
    (hal : dp.dptr % SZDIRE = 0) (h : (sdiEnd dp clst (clst2sect g clst) ofs).1 = .ok) :
    (sdiEnd dp clst (clst2sect g clst) ofs).2.At g := by
  obtain ⟨hne, he⟩ := sdiEnd_ok h
  have harea := hg.inArea_clst2sect hne (Nat.mod_lt (dp.dptr / SS) hg.csize_pos)
  rw [he]
  refine ⟨.inr ⟨hc, hne, ?_⟩, hm, hal⟩
  show add32 (clst2sect g clst) (ofs / SS) = clst2sect g clst + dp.dptr / SS % g.csize
  rw [hs]
  exact add32_of_lt (hg.inArea_lt harea)

/-- The loop of `dir_sdi` leaves with the offset inside a cluster. -/
theorem sdiRound_closed {w : State} (hw : I w) {ofs : Nat} {p : Nat × Nat} (h0 : p.1 ≠ 0)
    (hd : p.2 / SS % g.csize = ofs / SS % g.csize) (hm : p.2 % SS = ofs % SS) :
    Ensures (sdiRound (g.csize * SS) p) w fun r w' => I w' ∧
      (∀ q, r = .inl q → q.1 ≠ 0 ∧ q.2 / SS % g.csize = ofs / SS % g.csize ∧ q.2 % SS = ofs % SS) ∧
      (∀ q, r = .inr (.ok q) → q.1 ≠ 0 ∧ q.2 / SS = ofs / SS % g.csize ∧ q.2 % SS = ofs % SS) ∧
      ∀ e, r = .inr (.error e) → e ≠ .ok := by
  rw [sdiRound]
  simp only [ensures_ite, ensures_pure, ensures_bind, ensures_get]
  refine ⟨fun hle => ?_, fun hlt => ⟨hw, by simp, ?_, by simp⟩⟩
  · refine (getFat_closed hg hI hw _).mono fun c w₁ hpost => ?_
    obtain ⟨h₁, _⟩ := hpost
    refine ⟨fun _ => ⟨h₁, by simp⟩,
      fun _ => ⟨fun _ => ⟨h₁, by simp⟩, fun hcl => ⟨h₁, ?_, by simp, by simp⟩⟩⟩
    rintro _ ⟨⟩
    refine ⟨by omega, ?_, ?_⟩
    · have hsub : (p.2 - g.csize * SS) / SS = p.2 / SS - g.csize := by
        rw [Nat.mul_comm, Nat.sub_mul_div]
      rw [hsub, ← hd]
      refine (Nat.mod_eq_sub_mod ?_).symm
      rw [ge_iff_le, Nat.le_div_iff_mul_le (by decide)]
      exact hle
    · rw [← hm]
      simp only [SS] at hle ⊢
      omega
  · rintro _ ⟨⟩
    refine ⟨h0, ?_, hm⟩
    rw [← hd]
    refine (Nat.mod_eq_of_lt (Nat.div_lt_of_lt_mul ?_)).symm
    rw [Nat.mul_comm]
    omega

/-- `dir_sdi` finds a place in the table. -/
theorem dirSdi_closed {w : State} (hw : I w) (dp : DIR) (ofs : Nat) :
    Ensures (dirSdi dp ofs) w fun r w' => I w' ∧ (r.1 = .ok → r.2.At g) := by
  rw [dirSdi, ensures_bind, ensures_get, (hI.inv hw).geo]
  simp only [ensures_ite, ensures_pure, ensures_bind]
  refine ⟨fun _ => ⟨hw, by simp⟩, fun hofs => ?_⟩
  have hal : ofs % SZDIRE = 0 := by
    by_contra hne
    exact hofs (.inr hne)
  refine ⟨fun hc => ⟨fun _ => ⟨hw, by simp⟩, fun hlt => ⟨hw, fun hr => ?_⟩⟩, fun hc => ?_⟩
  · exact sdiEnd_static hg hc rfl (Nat.lt_of_not_le hlt) hal hr
  · refine (Ensures.loop (I := fun p w' => I w' ∧ p.1 ≠ 0 ∧
        p.2 / SS % g.csize = ofs / SS % g.csize ∧ p.2 % SS = ofs % SS)
      (Q := fun r w' => I w' ∧ (∀ p, r = .ok p → p.1 ≠ 0 ∧ p.2 / SS = ofs / SS % g.csize ∧
        p.2 % SS = ofs % SS) ∧ ∀ e, r = .error e → e ≠ .ok)
      (fun p w₁ hinv => ?_) _ ⟨hw, hc, rfl, rfl⟩).mono fun r w' hpost => ?_
    · obtain ⟨h₁, h0, hd, hm⟩ := hinv
      refine (sdiRound_closed hg hI h₁ h0 hd hm).mono fun r w₂ hpost => ?_
      obtain ⟨h₂, hl, hr, he⟩ := hpost
      cases r with
      | inl q => exact ⟨h₂, hl q rfl⟩
      | inr r => exact ⟨h₂, fun q hq => hr q (by rw [hq]), fun e hq => he e (by rw [hq])⟩
    · obtain ⟨h', hp, he⟩ := hpost
      cases r with
      | error res => exact ensures_pure.2 ⟨h', fun hr => absurd hr (he res rfl)⟩
      | ok p =>
        obtain ⟨h0, hs, hm⟩ := hp p rfl
        exact ensures_pure.2 ⟨h', fun hr => sdiEnd_clust hg h0 hs hm hal hr⟩

omit hI in
/-- Entering a valid cluster of a dynamic table. -/
theorem DIR.enter_at (dp : DIR) {c ofs : Nat} (hc : g.IsClust c) (hofs : ofs / SS % g.csize = 0)
    (hal : ofs % SZDIRE = 0) : (dp.enter g c ofs).At g := by
  have h2 := hc.1
  unfold DIR.enter
  refine ⟨.inr ⟨by dsimp only; omega, ?_, ?_⟩, by dsimp only, hal⟩
  · dsimp only
    exact hg.clst2sect_pos hc
  · dsimp only
    rw [hofs, Nat.add_zero]

/-- The stretching of a table goes on in the new cluster. -/
theorem dirStretch_closed {w : State} (hw : I w) (dp : DIR) (ofs : Nat) :
    Ensures (dirStretch dp ofs) w fun r w' => I w' ∧
      (r.1 = .ok → ∃ c, g.IsClust c ∧ r.2 = dp.enter g c ofs) := by
  rw [dirStretch, ensures_bind]
  refine ((hI.create dp.clust w hw).and (createChain_inv hg (hI.inv hw) dp.clust).ensures).mono
    fun c w₁ hpost => ?_
  obtain ⟨h₁, hc⟩ := hpost
  simp only [ensures_ite, ensures_pure, ensures_bind, ensures_get]
  refine ⟨fun _ => ⟨h₁, by simp⟩, fun h0 => ⟨fun _ => ⟨h₁, by simp⟩, fun h1 =>
    ⟨fun _ => ⟨h₁, by simp⟩, fun hd => ?_⟩⟩⟩
  have hcl := hc.isClust h0 h1 hd
  refine (hI.clear c hcl w₁ h₁).mono fun r w₂ h₂ => ⟨fun _ => ⟨h₂, by simp⟩, fun _ =>
    ⟨h₂, fun _ => ?_⟩⟩
  rw [(hI.inv h₂).geo]
  exact ⟨c, hcl, rfl⟩

omit hI in
/-- The next entry in the same sector. -/
theorem DIR.At.next {dp : DIR} (h : dp.At g) (hm : (dp.dptr + SZDIRE) % SS ≠ 0) :
    DIR.At g { dp with dptr := dp.dptr + SZDIRE, dir := (dp.dptr + SZDIRE) % SS } := by
  have hal := h.aligned
  have hrs := hg.rootSize
  have hq : (dp.dptr + SZDIRE) / SS = dp.dptr / SS := by
    simp only [SZDIRE, SS] at *
    omega
  refine ⟨?_, rfl, ?_⟩
  · rcases h.sect with ⟨hc, hf, hlt, hs⟩ | ⟨hc, hn, hs⟩
    · refine .inl ⟨hc, hf, ?_, ?_⟩
      · simp only [SZDIRE, SS] at *
        omega
      · dsimp only
        rw [hq]
        exact hs
    · refine .inr ⟨hc, hn, ?_⟩
      dsimp only
      rw [hq]
      exact hs
  · simp only [SZDIRE] at *
    omega

omit hI in
/-- The first entry of the next sector of the table. -/
theorem DIR.At.nextSect {dp : DIR} (h : dp.At g) (hm : (dp.dptr + SZDIRE) % SS = 0)
    (hroot : dp.clust = 0 → (dp.dptr + SZDIRE) / SZDIRE < g.nRootdir)
    (hclust : dp.clust ≠ 0 → (dp.dptr + SZDIRE) / SS % g.csize ≠ 0) :
    DIR.At g { dp with
      sect := add32 dp.sect 1, dptr := dp.dptr + SZDIRE, dir := (dp.dptr + SZDIRE) % SS } := by
  have hal := h.aligned
  have hq : (dp.dptr + SZDIRE) / SS = dp.dptr / SS + 1 := by
    simp only [SZDIRE, SS] at *
    omega
  refine ⟨?_, rfl, ?_⟩
  · rcases h.sect with ⟨hc, hf, hlt, hs⟩ | ⟨hc, hn, hs⟩
    · refine .inl ⟨hc, hf, hroot hc, ?_⟩
      have hdb := hg.dirbase hf
      have hda := hg.database
      have hdl := hg.database_lt
      have hrs := hg.rootSize
      dsimp only
      rw [hq, hs, ← Nat.add_assoc, add32_of_lt]
      simp only [SZDIRE, SS] at *
      omega
    · refine .inr ⟨hc, hn, ?_⟩
      have hne := hclust hc
      have hlt := hg.inArea_lt (hg.inArea_clst2sect hn (Nat.mod_lt ((dp.dptr + SZDIRE) / SS)
        hg.csize_pos))
      rw [hq] at hne hlt
      have hstep := mod_succ_of_ne hne
      dsimp only
      rw [hq, hs, hstep, ← Nat.add_assoc, add32_of_lt]
      omega
  · simp only [SZDIRE] at *
    omega

/-- `dir_next` from an entry of the table stands on the next entry if it succeeds. -/
theorem dirNext_closed {w : State} (hw : I w) (dp : DIR) (stretch : Bool) :
    Ensures (dirNext dp stretch) w fun r w' => I w' ∧ (dp.At g → r.1 = .ok → r.2.At g) := by
  rw [dirNext, ensures_bind, ensures_get, (hI.inv hw).geo]
  by_cases hlt : MAX_DIR ≤ dp.dptr + SZDIRE
  · simp only [hlt, if_true, ensures_pure]
    exact ⟨hw, by simp⟩
  simp only [hlt, if_false, ensures_ite, ensures_pure, ensures_bind, hg.and_csize]
  refine ⟨fun _ => ⟨hw, by simp⟩, fun _ => ⟨fun hm => ⟨fun hc => ⟨fun _ => ⟨hw, by simp⟩, fun hr =>
    ⟨hw, fun hd _ => ?_⟩⟩, fun hc => ⟨fun h0 => ?_, fun hne => ⟨hw, fun hd _ => ?_⟩⟩⟩,
      fun hm => ⟨hw, fun hd _ => hd.next hg hm⟩⟩⟩
  · exact hd.nextSect hg hm (fun _ => by omega) fun h => absurd hc h
  · have hal : dp.At g → (dp.dptr + SZDIRE) % SZDIRE = 0 := fun hd => by
      rw [Nat.add_mod_right]
      exact hd.aligned
    refine (getFat_closed hg hI hw _).mono fun c w₁ hpost => ?_
    obtain ⟨h₁, hr⟩ := hpost
    refine ⟨fun _ => ⟨h₁, by simp⟩, fun h1 =>
      ⟨fun _ => ⟨h₁, by simp⟩, fun hdk => ⟨fun _ => ⟨fun _ => ?_, fun _ => ⟨h₁, by simp⟩⟩,
        fun hin => ⟨h₁, fun hd _ => ?_⟩⟩⟩⟩
    · refine (dirStretch_closed hg hI h₁ _ _).mono fun r w₂ hpost => ?_
      obtain ⟨h₂, h⟩ := hpost
      refine ⟨h₂, fun hd hr => ?_⟩
      obtain ⟨c, hc, he⟩ := h hr
      rw [he]
      exact DIR.enter_at hg _ hc h0 (hal hd)
    · exact DIR.enter_at hg _ ⟨by omega, by omega⟩ h0 (hal hd)
  · exact hd.nextSect hg hm (fun h => absurd h hc) fun _ => hne

/-- `dir_next` keeps a closed property. -/
theorem dirNext_keeps (dp : DIR) (stretch : Bool) : Keeps I (dirNext dp stretch) :=
  fun _ hw => (dirNext_closed hg hI hw dp stretch).mono fun _ _ h => h.1

/-! ## Entries -/

/-- `dir_alloc` leaves the window on the entry it reserved. -/
theorem dirAlloc_closed {w : State} (hw : I w) (dp : DIR) (nEnt : Nat) :
    Ensures (dirAlloc dp nEnt) w fun r w' => I w' ∧ (r.1 = .ok → r.2.At g) := by
  rw [dirAlloc, ensures_bind]
  refine (dirSdi_closed hg hI hw dp 0).mono fun r w₁ hpost => ?_
  obtain ⟨h₁, hat⟩ := hpost
  simp only [ensures_ite, ensures_pure, ensures_bind]
  refine ⟨fun hr => ?_, fun hr => ⟨h₁, fun h => ?_⟩⟩
  · refine (Ensures.loop (I := fun p w' => I w' ∧ p.1.At g)
      (Q := fun r w' => I w' ∧ (r.1 = .ok → r.2.At g)) (fun p w₂ hinv => ?_) _
      ⟨h₁, hat hr⟩).mono fun r w' hpost => ⟨hpost.1, fun hr => hpost.2 ?_⟩
    · obtain ⟨h₂, hp⟩ := hinv
      rw [allocRound, ensures_bind]
      refine (moveWindow_closed hg hI h₂ _).mono fun r w₃ hpost => ?_
      obtain ⟨h₃, _⟩ := hpost
      simp only [ensures_ite, ensures_pure, ensures_bind, ensures_get]
      refine ⟨fun hne => ⟨h₃, fun h => absurd h hne⟩, fun _ => ⟨fun _ => ⟨h₃, fun _ => hp⟩, fun _ =>
        (dirNext_closed hg hI h₃ _ true).mono fun r w₄ hpost => ?_⟩⟩
      obtain ⟨h₄, h⟩ := hpost
      exact ⟨fun hr => ⟨h₄, h hp hr⟩, fun _ => ⟨h₄, h hp⟩⟩
    · split at hr
      · cases hr
      · exact hr
  · split at h
    · cases h
    · exact absurd h hr

/-- `dir_find` shows the entry it found in the window. -/
theorem dirFind_closed {w : State} (hw : I w) (dp : DIR) :
    Ensures (dirFind dp) w fun r w' => I w' ∧ (r.1 = .ok → r.2.At g ∧ w'.winsect = r.2.sect) := by
  rw [dirFind, ensures_bind]
  refine (dirSdi_closed hg hI hw dp 0).mono fun r w₁ hpost => ?_
  obtain ⟨h₁, hat⟩ := hpost
  simp only [ensures_ite, ensures_pure]
  refine ⟨fun hne => ⟨h₁, fun h => absurd h hne⟩, fun hr => ?_⟩
  refine Ensures.loop (I := fun d w' => I w' ∧ d.At g) (fun d w₂ hinv => ?_) _
    ⟨h₁, hat (by simpa using hr)⟩
  obtain ⟨h₂, hd⟩ := hinv
  rw [findEntRound, ensures_bind]
  refine (moveWindow_closed hg hI h₂ _).mono fun r w₃ hpost => ?_
  obtain ⟨h₃, hws⟩ := hpost
  simp only [ensures_ite, ensures_pure, ensures_bind, ensures_get]
  have hd' : ∀ a, DIR.At g { d with attr := a } := fun a => ⟨hd.sect, hd.dir, hd.aligned⟩
  refine ⟨fun hne => ⟨h₃, fun h => absurd h hne⟩, fun hok => ⟨fun _ => ⟨h₃, by simp⟩, fun _ =>
    ⟨fun _ => ⟨h₃, fun _ => ⟨hd' _, hws (by simpa using hok)⟩⟩, fun _ =>
      (dirNext_closed hg hI h₃ _ false).mono fun r w₄ hpost => ?_⟩⟩⟩
  obtain ⟨h₄, h⟩ := hpost
  exact ⟨fun hr => ⟨h₄, h (hd' _) hr⟩, fun hne => ⟨h₄, fun hr => absurd hr hne⟩⟩

/-- `dir_register` leaves the window on the new entry. -/
theorem dirRegister_closed {w : State} (hw : I w) (dp : DIR) :
    Ensures (dirRegister dp) w fun r w' => I w' ∧
      (r.1 = .ok → r.2.At g ∧ w'.winsect = r.2.sect) := by
  rw [dirRegister, ensures_bind]
  refine (dirAlloc_closed hg hI hw dp 1).mono fun r w₁ hpost => ?_
  obtain ⟨h₁, hat⟩ := hpost
  simp only [ensures_ite, ensures_pure, ensures_bind]
  refine ⟨fun hr => ?_, fun hne => ⟨h₁, fun h => absurd h hne⟩⟩
  refine (moveWindow_closed hg hI h₁ _).mono fun res w₂ hpost => ?_
  obtain ⟨h₂, hws⟩ := hpost
  refine ⟨fun hok => ?_, fun hne =>
    ⟨h₂, fun h => absurd h hne⟩⟩
  rw [modWin, ensures_modify]
  exact ⟨Shown.store hg hI ⟨h₂, hws hok⟩ (hat hr) _, fun _ => ⟨hat hr, hws hok⟩⟩

/-- `dir_remove` stores in the sector of its entry. -/
theorem dirRemove_closed {w : State} (hw : I w) {dp : DIR} (hd : dp.At g) :
    Ensures (dirRemove dp) w fun _ w' => I w' := by
  rw [dirRemove, ensures_bind]
  refine (moveWindow_closed hg hI hw _).mono fun r w₁ ⟨h₁, hws⟩ => ?_
  simp only [ensures_ite, ensures_pure, ensures_bind, modWin, ensures_modify]
  exact ⟨fun hok => Shown.store hg hI ⟨h₁, hws hok⟩ hd _, fun _ => h₁⟩

/-! ## Following a path -/

/-- What `follow_path` leaves on success: the root directory for an empty path, else the entry of
the object in the window. -/
structure Followed (g : Geometry) (I : State → Prop) (dp : DIR) (w : State) : Prop where
  inv : I w
  at_ : dp.At g
  shown : hasBits dp.nsflag NS_NONAME = false → w.winsect = dp.sect

/-- `follow_path` keeps a closed property and finds a place in a table. -/
theorem followPath_closed {w : State} (hw : I w) (dp : DIR) (path : List UInt8) :
    Ensures (followPath dp path) w fun r w' => I w' ∧ (r.1 = .ok → Followed g I r.2 w') := by
  rw [followPath, ensures_bind, ensures_get]
  simp only [ensures_ite]
  refine ⟨fun _ => ?_, fun _ => Ensures.loop (I := fun _ w' => I w') (fun p w₁ h₁ => ?_) _ hw⟩
  · refine ((dirSdi_closed hg hI hw _ 0).and (dirSdi_sameName _ 0 w)).mono
      fun r w₁ hpost => ?_
    obtain ⟨⟨h₁, hat⟩, hn⟩ := hpost
    refine ⟨h₁, fun hr => ⟨h₁, hat hr, fun h => ?_⟩⟩
    rw [hn.2] at h
    exact absurd h (show ¬hasBits NS_NONAME NS_NONAME = false by decide)
  · rw [followRound, ensures_bind, ensures_get]
    cases createName w₁.charSigned p.1 p.2 with
    | mk r q =>
      cases r with
      | ok =>
        rw [ensures_bind]
        refine (dirFind_closed hg hI h₁ _).mono fun r w₂ hpost => ?_
        obtain ⟨h₂, hf⟩ := hpost
        simp only [followFound, ensures_ite, ensures_pure, ensures_bind, ensures_get]
        exact ⟨fun hne => ⟨fun _ => ⟨h₂, by simp⟩, fun _ => ⟨h₂, fun h => absurd h hne⟩⟩,
          fun hok => ⟨fun _ => ⟨h₂, fun _ => ⟨h₂, (hf (by simpa using hok)).1,
            fun _ => (hf (by simpa using hok)).2⟩⟩, fun _ => ⟨fun _ => ⟨h₂, by simp⟩, fun _ => h₂⟩⟩⟩
      | _ => exact ensures_pure.2 ⟨h₁, by simp⟩

/-- `follow_path` keeps a closed property. -/
theorem followPath_keeps (dp : DIR) (path : List UInt8) : Keeps I (followPath dp path) :=
  fun _ hw => (followPath_closed hg hI hw dp path).mono fun _ _ h => h.1

/-- `dir_sdi` keeps a closed property. -/
theorem dirSdi_keeps (dp : DIR) (ofs : Nat) : Keeps I (dirSdi dp ofs) :=
  fun _ hw => (dirSdi_closed hg hI hw dp ofs).mono fun _ _ h => h.1

/-- `dir_read` keeps a closed property. -/
theorem dirRead_keeps (dp : DIR) (vol : Bool) : Keeps I (dirRead dp vol) := by
  unfold dirRead
  refine .bind (.loop (fun p => ?_) _ _) fun _ => .pure _
  unfold readRound
  exact .ite (fun _ => .pure _) fun _ => .bind (hI.move _) fun _ => .ite (fun _ => .pure _) fun _ =>
    .get fun _ _ => .ite (fun _ => .pure _) fun _ => .ite (fun _ => .pure _) fun _ => .bind
      (dirNext_keeps hg hI _ _) fun _ => .ite (fun _ => .pure _) fun _ => .pure _

end

end FatFs
