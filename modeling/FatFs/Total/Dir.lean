import FatFs.Fat.Chain
import FatFs.Path.Segments
import FatFs.Model.Tree

/-!
# Directory functions on any image

The functions on directory tables and paths return on every image and keep the window invariant.
The walks through a table are bounded by the offset limit `MAX_DIR`, whatever the chain of the
directory looks like, and the walk along a path by its length.
-/

namespace FatFs

open Run

section
variable {g : Geometry} (hg : g.Sound)

include hg

/-! ## The window functions -/

/-- `sync_window` keeps the state well formed. -/
theorem syncWindow_preserves : Preserves (Inv g) syncWindow :=
  fun _ hw => (syncWindow_inv hg hw).mono fun _ _ h => h.inv

/-- `move_window` keeps the state well formed, whatever the sector. -/
theorem moveWindow_preserves (s : Nat) : Preserves (Inv g) (moveWindow s) :=
  fun _ hw => (moveWindow_inv hg hw s).mono fun _ _ h => h.inv

/-- `get_fat` keeps the state well formed, whatever the cluster number. -/
theorem getFat_preserves (c : Nat) : Preserves (Inv g) (getFat c) :=
  fun _ hw => (getFat_inv hg hw c).mono fun _ _ h => h.inv

/-- `remove_chain` returns on every FAT, cyclic chains included. -/
theorem removeChain_preserves (c p : Nat) : Preserves (Inv g) (removeChain c p) :=
  fun _ hw => (removeChain_inv hg hw c p).mono fun _ _ h => h.inv

/-- `create_chain` returns on every FAT. -/
theorem createChain_preserves (c : Nat) : Preserves (Inv g) (createChain c) :=
  fun _ hw => (createChain_inv hg hw c).mono fun _ _ h => h.fat.inv

omit hg in
/-- A change of the window makes it no less well formed. -/
theorem modWin_preserves (f : Sector → Sector) : Preserves (Inv g) (modWin f) :=
  .modify fun _ hw => hw.store _

/-! ## `dir_clear` -/

/-- The state while `dir_clear` writes zeros to the sectors from `sect` on: `k` are written. -/
structure Clearing (csize : Nat) (w₁ : State) (sect k : Nat) (w : State) : Prop where
  kept : Kept w₁ w
  clean : w.wflag = false
  winsect : w.winsect = sect
  win : w.win = Sector.zero
  le : k ≤ csize
  on : 0 < k → sect + k ≤ w₁.disk.sectors
  data : ∀ s, w.disk.data s = if sect ≤ s ∧ s < sect + k then Sector.zero else w₁.disk.data s

omit hg in
/-- Before the first sector of the cluster is written. -/
theorem Clearing.start {w₁ w : State} {csize sect : Nat} (hk : Kept w₁ w) (hc : w.wflag = false)
    (hs : w.winsect = sect) (hz : w.win = Sector.zero) (hd : w.disk.data = w₁.disk.data) :
    Clearing csize w₁ sect 0 w :=
  ⟨hk, hc, hs, hz, Nat.zero_le _, fun h => absurd h (Nat.lt_irrefl 0),
    fun s => by rw [if_neg (by omega), hd]⟩

omit hg in
/-- The loop of `dir_clear` writes the sectors one by one and stops at the end of the device. -/
theorem clearLoop_inv {w₁ w : State} {csize sect : Nat} (hrel : w₁.disk.Reliable)
    (hlt : ∀ k < csize, sect + k < W32) (hw : Clearing csize w₁ sect 0 w) :
    Returns (loop (clearRound sect csize) (csize + 1) 0) w fun k w' =>
      Clearing csize w₁ sect k w' ∧ (k = csize ∨ w₁.disk.sectors ≤ sect + k) := by
  refine Returns.loop (I := fun n k w' => Clearing csize w₁ sect k w' ∧ csize - k ≤ n)
    (fun n k w₂ ⟨h₂, hn⟩ => ?_) ⟨hw, Nat.le_refl _⟩ (by omega)
  rw [clearRound, returns_ite]
  refine ⟨fun hk => ?_, fun hk => returns_pure.2 ⟨h₂, .inl (by have := h₂.le; omega)⟩⟩
  have hadd : add32 sect k = sect + k := add32_of_lt (hlt k hk)
  have hserves : w₂.disk.serves (sect + k) 1 = true ↔ sect + k < w₁.disk.sectors := by
    rw [(h₂.kept.reliable hrel).serves, Disk.inBounds_iff, h₂.kept.sectors]
    omega
  simp only [returns_bind, returns_get, returns_diskWrite, hadd, returns_ite,
    returns_pure, hserves]
  refine ⟨fun hin => ⟨fun _ => ?_, by simp⟩, fun hout => ⟨fun he => ?_, fun _ => ?_⟩⟩
  · refine ⟨csize - (k + 1), by omega, ⟨⟨h₂.kept.geo, h₂.kept.fsiFlag, h₂.kept.lastClst,
      h₂.kept.freeClst, h₂.kept.registered, h₂.kept.fsid, h₂.kept.charSigned, h₂.kept.sectors,
      h₂.kept.blockSize, h₂.kept.fault⟩, h₂.clean, h₂.winsect, h₂.win, hk, fun _ => by omega,
      fun s => ?_⟩, Nat.le_refl _⟩
    rw [State.store_data, State.note_data, h₂.data s, h₂.win]
    by_cases hs : s = sect + k
    · rw [if_pos (by omega), if_pos (by omega)]
    · rw [if_neg (by omega)]
      by_cases hin' : sect ≤ s ∧ s < sect + k
      · rw [if_pos hin', if_pos (by omega)]
      · rw [if_neg hin', if_neg (by omega)]
  · split at he <;> cases he
  · exact ⟨⟨⟨h₂.kept.geo, h₂.kept.fsiFlag, h₂.kept.lastClst, h₂.kept.freeClst,
      h₂.kept.registered, h₂.kept.fsid, h₂.kept.charSigned, h₂.kept.sectors, h₂.kept.blockSize,
      h₂.kept.fault⟩, h₂.clean, h₂.winsect, h₂.win, h₂.le, h₂.on, h₂.data⟩, .inr (by omega)⟩

/-- What `dir_clear` does to the table of the cluster `c`. -/
structure Cleared (g : Geometry) (w : State) (c : Nat) (r : FRESULT) (w' : State) : Prop where
  kept : Kept w w'
  inv : Inv g w'
  res : r = .ok ∨ r = .diskErr
  frame : ∀ s, ¬g.InFat2 s → (s < clst2sect g c ∨ clst2sect g c + g.csize ≤ s) →
    w'.logical s = w.logical s
  ok : r = .ok → w'.winsect = clst2sect g c ∧ w'.win = Sector.zero ∧ clst2sect g c <
    w.disk.sectors ∧
    ∀ s, clst2sect g c ≤ s → s < clst2sect g c + g.csize → w'.logical s = Sector.zero
  full : w.Flushable → clst2sect g c + g.csize ≤ w.disk.sectors → r = .ok ∧ w'.Flushable

/-- The outcome of `dir_clear` from that of its loop, for the sectors from `sect` on. -/
theorem Clearing.inv {w w₁ w' : State} {sect k : Nat} (h₁ : SyncInv g w .ok w₁)
    (hs : g.InArea sect) (h : Clearing g.csize w₁ sect k w')
    (hend : k = g.csize ∨ w₁.disk.sectors ≤ sect + k) : Inv g w' := by
  have hsec := h.kept.sectors
  have hcs := hg.csize_pos
  refine ⟨h.kept.geo.trans h₁.inv.geo, h.kept.reliable h₁.inv.reliable, ?_, fun _ hon => ?_, ?_,
    fun hfat => ?_, ?_⟩
  · rw [hsec]
    exact h₁.inv.size
  · rw [h.winsect, hsec] at hon
    rw [h.win, h.winsect, h.data, if_pos (by omega)]
  · rw [h.winsect]
    exact hg.inArea_lt hs
  · rw [h.winsect] at hfat
    exact absurd hs (hg.not_inArea_of_inFat hfat)
  · rw [h.kept.fsiFlag, hsec]
    exact h₁.inv.info

/-- Clearing a table changes no sector outside the root directory and the data area. -/
theorem Cleared.outside {w w' : State} {c : Nat} {r : FRESULT} (h : Cleared g w c r w')
    (hc : g.IsClust c) {s : Nat} (hs : ¬g.InArea s) (hs₂ : ¬g.InFat2 s) :
    w'.logical s = w.logical s := by
  refine h.frame s hs₂ ?_
  by_contra hin
  have harea := hg.inArea_clst hc (show s - clst2sect g c < g.csize by omega)
  rw [Nat.add_sub_cancel' (by omega)] at harea
  exact hs harea

/-- `dir_clear` returns: it writes one sector after the other, or several in one transfer. -/
theorem dirClear_inv {w : State} (hw : Inv g w) {c : Nat} (hc : g.IsClust c) :
    Returns (dirClear c) w (Cleared g w c) := by
  have hlt : ∀ k < g.csize, clst2sect g c + k < W32 := fun k hk =>
    hg.inArea_lt (hg.inArea_clst hc hk)
  rw [dirClear, returns_bind]
  refine (syncWindow_inv hg hw).mono fun r w₁ h₁ => ?_
  simp only [returns_ite, returns_pure, returns_bind, returns_get, returns_modify]
  refine ⟨fun hne => ?_, fun hok => ?_⟩
  · refine ⟨h₁.kept, h₁.inv, .inr rfl, fun s hs _ => h₁.same s hs, by simp, fun hf _ => ?_⟩
    exact absurd (h₁.good hf) hne
  obtain rfl : r = .ok := by simpa using hok
  have hgeo := h₁.inv.geo
  simp only [hgeo]
  have hstart : Clearing g.csize w₁ (clst2sect g c) 0
      { w₁ with geo := g, winsect := clst2sect g c, win := Sector.zero } :=
    .start ⟨hgeo.symm, rfl, rfl, rfl, rfl, rfl, rfl, rfl, rfl, rfl⟩ (h₁.clean rfl) (by dsimp only)
      (by dsimp only) (by dsimp only)
  refine (clearLoop_inv h₁.inv.reliable hlt hstart).mono fun k w' hpost => ?_
  obtain ⟨h', hend⟩ := hpost
  have harea : g.InArea (clst2sect g c) := by simpa using hg.inArea_clst hc hg.csize_pos
  have hlog : ∀ s, w'.logical s = w'.disk.data s := logical_of_clean h'.clean
  have hle := h'.le
  have hsec₁ := h₁.kept.sectors
  refine ⟨h₁.kept.trans h'.kept, h'.inv hg h₁ harea hend, by split <;> simp, fun s hs hout => ?_,
    fun hr => ?_, fun hf hon => ?_⟩
  · rw [hlog, h'.data, if_neg (by omega), ← logical_of_clean (h₁.clean rfl), h₁.same s hs]
  · have hkc : k = g.csize := by
      by_contra hne
      rw [if_neg hne] at hr
      cases hr
    have hcs := hg.csize_pos
    have hon := h'.on (by omega)
    refine ⟨h'.winsect, h'.win, by omega, fun s h₂ h₃ => ?_⟩
    rw [hlog, h'.data, if_pos (by omega)]
  · refine ⟨by rw [if_pos (by omega)], fun hd => ?_⟩
    rw [h'.clean] at hd
    cases hd

/-! ## Walking through a table -/

/-- `dir_sdi` returns: the offset bounds the clusters that it follows. -/
theorem dirSdi_preserves (dp : DIR) (ofs : Nat) : Preserves (Inv g) (dirSdi dp ofs) := by
  unfold dirSdi
  refine .get fun w hw => .ite (fun _ => .pure _) fun hofs => .ite
    (fun _ => .ite (fun _ => .pure _) fun _ => .pure _)
    fun _ => .bind (.loop (fun p => p.2 / SS) (fun p w₁ h₁ => ?_) ?_) fun r => ?_
  · -- every round passes a whole cluster
    have hcs := hg.csize_pos
    rw [sdiRound, hw.geo]
    simp only [returns_ite, returns_pure, returns_bind, returns_get]
    refine ⟨fun hle => ?_, fun _ => ⟨h₁, by simp⟩⟩
    refine (getFat_inv hg h₁ _).mono fun c w₂ h₂ => ⟨fun _ => ⟨h₂.inv, by simp⟩, fun _ =>
      ⟨fun _ => ⟨h₂.inv, by simp⟩, fun _ => ⟨h₂.inv, ?_⟩⟩⟩
    rintro _ ⟨⟩
    simp only [SS] at hle ⊢
    omega
  · simp only [SS, MAX_DIR] at hofs ⊢
    omega
  · cases r <;> exact .pure _

omit hg in
/-- The first entry of a table that was just cleared is taken. -/
theorem allocRound_cleared {w : State} {dp : DIR} (hs : w.winsect = dp.sect)
    (hz : w.win = Sector.zero) : allocRound 1 (dp, 0) w = some (.inr (.ok, dp), w) := by
  have hb : w.win dp.dir = DDEM ∨ w.win dp.dir = 0 := .inr (by rw [hz]; rfl)
  have hmove : moveWindow dp.sect w = some (.ok, w) := by
    rw [moveWindow, get_bind_apply, if_neg (not_not.2 hs.symm)]
    rfl
  have hround : Returns (allocRound 1 (dp, 0)) w fun r w' => r = .inr (.ok, dp) ∧ w' = w := by
    rw [allocRound, returns_bind]
    refine ⟨_, _, hmove, ?_⟩
    simp only [ne_eq, not_true_eq_false, if_false, returns_bind, returns_get]
    rw [if_pos ⟨hb, if_pos hb⟩]
    exact returns_pure.2 ⟨rfl, rfl⟩
  obtain ⟨r, w', hm, rfl, rfl⟩ := hround
  exact hm

/-- `dir_next` moves to the next entry below `MAX_DIR`, or leaves the table. -/
def Stepped (g : Geometry) (dp : DIR) (r : FRESULT × DIR) (w' : State) : Prop :=
  Inv g w' ∧ (r.1 = .ok → r.2.dptr = dp.dptr + SZDIRE ∧ dp.dptr + SZDIRE < MAX_DIR)

/-- The number of entries from the current one to the limit of the table. -/
def DIR.entriesLeft (dp : DIR) : Nat := (MAX_DIR - dp.dptr) / SZDIRE

omit hg in
/-- A directory object that moves on to the next entry has fewer entries left. -/
theorem DIR.entriesLeft_lt {dp d : DIR} (h : d.dptr = dp.dptr + SZDIRE)
    (hlt : dp.dptr + SZDIRE < MAX_DIR) : d.entriesLeft < dp.entriesLeft := by
  unfold DIR.entriesLeft
  rw [h]
  simp only [SZDIRE, MAX_DIR] at *
  omega

omit hg in
/-- No directory has more entries left than its size limit allows. -/
theorem DIR.entriesLeft_le (dp : DIR) : dp.entriesLeft < MAX_DIR / SZDIRE + 1 := by
  unfold DIR.entriesLeft
  simp only [SZDIRE, MAX_DIR] at *
  omega

omit hg in
/-- `create_chain` answers a valid cluster unless it reports an error. -/
theorem Created.isClust {w w' : State} {c r : Nat} (h : Created g w c r w') (h0 : r ≠ 0)
    (h1 : r ≠ 1) (hd : r ≠ DISKERR) : g.IsClust r := by
  rcases h.out with h | h | h | h | h
  · exact absurd h h0
  · exact absurd h h1
  · exact absurd h hd
  · exact h.1
  · exact h.1

/-- `dir_next` behind the last cluster of a table; the new cluster is cleared. -/
theorem dirStretch_inv {w : State} (hw : Inv g w) (dp : DIR) (ofs : Nat) :
    Returns (dirStretch dp ofs) w fun r w' => Inv g w' ∧ (r.1 = .ok → r.2.dptr = ofs) := by
  rw [dirStretch, returns_bind]
  refine (createChain_inv hg hw _).mono fun c w₁ h₁ => ?_
  simp only [returns_ite, returns_pure, returns_bind, returns_get]
  refine ⟨fun _ => ⟨h₁.fat.inv, by simp⟩, fun h0 => ⟨fun _ => ⟨h₁.fat.inv, by simp⟩, fun h1 =>
    ⟨fun _ => ⟨h₁.fat.inv, by simp⟩, fun hd => ?_⟩⟩⟩
  refine (dirClear_inv hg h₁.fat.inv (h₁.isClust h0 h1 hd)).mono fun r w₂ h₂ => ?_
  exact ⟨fun _ => ⟨h₂.inv, by simp⟩, fun _ => ⟨h₂.inv, fun _ => rfl⟩⟩

/-- `dir_next` returns, at the next entry when it succeeds. -/
theorem dirNext_inv {w : State} (hw : Inv g w) (dp : DIR) (stretch : Bool) :
    Returns (dirNext dp stretch) w (Stepped g dp) := by
  rw [dirNext, returns_bind, returns_get]
  by_cases hlt : MAX_DIR ≤ dp.dptr + SZDIRE
  · simp only [hlt, if_true, returns_pure]
    exact ⟨hw, by simp⟩
  simp only [hlt, if_false, returns_ite, returns_pure, returns_bind]
  have hlt : dp.dptr + SZDIRE < MAX_DIR := Nat.lt_of_not_le hlt
  refine ⟨fun _ => ⟨hw, by simp⟩, fun _ => ?_⟩
  refine ⟨fun _ => ⟨fun _ => ⟨fun _ => ⟨hw, by simp⟩, fun _ => ⟨hw, fun _ => ⟨rfl, hlt⟩⟩⟩,
    fun _ => ⟨fun _ => ?_, fun _ => ⟨hw, fun _ => ⟨rfl, hlt⟩⟩⟩⟩, fun _ => ⟨hw, fun _ => ⟨rfl, hlt⟩⟩⟩
  refine (getFat_inv hg hw _).mono fun c w₁ h₁ => ⟨fun _ => ⟨h₁.inv, by simp⟩, fun _ =>
    ⟨fun _ => ⟨h₁.inv, by simp⟩, fun _ => ⟨fun _ => ⟨fun _ => ?_, fun _ => ⟨h₁.inv, by simp⟩⟩,
      fun _ => ⟨h₁.inv, fun _ => ⟨rfl, hlt⟩⟩⟩⟩⟩
  exact (dirStretch_inv hg h₁.inv _ _).mono fun r w₂ h₂ => ⟨h₂.1, fun hr => ⟨h₂.2 hr, hlt⟩⟩

/-- `dir_next` keeps the state well formed. -/
theorem dirNext_preserves (dp : DIR) (stretch : Bool) : Preserves (Inv g) (dirNext dp stretch) :=
  fun _ hw => (dirNext_inv hg hw dp stretch).mono fun _ _ h => h.1

/-- `dir_alloc` returns, by the entries that are left. -/
theorem dirAlloc_preserves (dp : DIR) (nEnt : Nat) : Preserves (Inv g) (dirAlloc dp nEnt) := by
  unfold dirAlloc
  refine .bind (dirSdi_preserves hg _ _) fun r => .ite (fun _ => .bind
    (.loop (fun p => p.1.entriesLeft) (fun p w hw => ?_) (DIR.entriesLeft_le _)) fun r => .pure _)
      fun _ => .pure _
  rw [allocRound, returns_bind]
  refine (moveWindow_inv hg hw _).mono fun r w₁ h₁ => ?_
  simp only [returns_ite, returns_pure, returns_bind, returns_get]
  refine ⟨fun _ => ⟨h₁.inv, by simp⟩, fun _ => ⟨fun _ => ⟨h₁.inv, by simp⟩, fun _ => ?_⟩⟩
  refine (dirNext_inv hg h₁.inv _ _).mono fun r w₂ h₂ => ⟨fun hr => ⟨h₂.1, ?_⟩,
    fun _ => ⟨h₂.1, by simp⟩⟩
  rintro _ ⟨⟩
  exact DIR.entriesLeft_lt (h₂.2 hr).1 (h₂.2 hr).2

/-- One round of `dir_read` ends the search or goes on to the next entry. -/
theorem readRound_inv {w : State} (hw : Inv g w) (vol : Bool) (p : FRESULT × DIR) :
    Returns (readRound vol p) w fun r w' => Inv g w' ∧ (∀ p', r = .inl p' →
      p'.2.entriesLeft < p.2.entriesLeft) := by
  rw [readRound, returns_ite]
  refine ⟨fun _ => returns_pure.2 ⟨hw, by simp⟩, fun _ => ?_⟩
  rw [returns_bind]
  refine (moveWindow_inv hg hw _).mono fun r w₁ h₁ => ?_
  simp only [returns_ite, returns_pure, returns_bind, returns_get]
  refine ⟨fun _ => ⟨h₁.inv, by simp⟩, fun _ => ⟨fun _ => ⟨h₁.inv, by simp⟩, fun _ =>
    ⟨fun _ => ⟨h₁.inv, by simp⟩, fun _ => ?_⟩⟩⟩
  refine (dirNext_inv hg h₁.inv _ _).mono fun r w₂ h₂ => ⟨fun hr => ⟨h₂.1, ?_⟩,
    fun _ => ⟨h₂.1, by simp⟩⟩
  rintro _ ⟨⟩
  exact DIR.entriesLeft_lt (h₂.2 hr).1 (h₂.2 hr).2

/-- `dir_read` returns, by the entries that are left. -/
theorem dirRead_preserves (dp : DIR) (vol : Bool) : Preserves (Inv g) (dirRead dp vol) := by
  unfold dirRead
  exact .bind (.loop (fun p => p.2.entriesLeft) (fun p w hw => readRound_inv hg hw vol p)
    (DIR.entriesLeft_le _)) fun r => .pure _

/-- `dir_find` returns, by the entries that are left. -/
theorem dirFind_preserves (dp : DIR) : Preserves (Inv g) (dirFind dp) := by
  unfold dirFind
  refine .bind (dirSdi_preserves hg _ _) fun r => .ite (fun _ => .pure _) fun _ =>
    .loop DIR.entriesLeft (fun d w hw => ?_) (DIR.entriesLeft_le _)
  rw [findEntRound, returns_bind]
  refine (moveWindow_inv hg hw _).mono fun r w₁ h₁ => ?_
  simp only [returns_ite, returns_pure, returns_bind, returns_get]
  refine ⟨fun _ => ⟨h₁.inv, by simp⟩, fun _ => ⟨fun _ => ⟨h₁.inv, by simp⟩, fun _ =>
    ⟨fun _ => ⟨h₁.inv, by simp⟩, fun _ => ?_⟩⟩⟩
  refine (dirNext_inv hg h₁.inv _ _).mono fun r w₂ h₂ => ⟨fun hr => ⟨h₂.1, ?_⟩,
    fun _ => ⟨h₂.1, by simp⟩⟩
  rintro _ ⟨⟩
  exact DIR.entriesLeft_lt (h₂.2 hr).1 (h₂.2 hr).2

/-- `dir_register` finds a free entry and writes it in the window. -/
theorem dirRegister_preserves (dp : DIR) : Preserves (Inv g) (dirRegister dp) := by
  unfold dirRegister
  exact .bind (dirAlloc_preserves hg _ _) fun r => .ite (fun _ => .bind
    (moveWindow_preserves hg _) fun r => .ite (fun _ => .bind (modWin_preserves _) fun _ => .pure _)
      fun _ => .pure _) fun _ => .pure _

/-- `dir_remove` marks the entry in the window. -/
theorem dirRemove_preserves (dp : DIR) : Preserves (Inv g) (dirRemove dp) := by
  unfold dirRemove
  exact .bind (moveWindow_preserves hg _) fun r => .ite (fun _ => .bind (modWin_preserves _)
    fun _ => .pure _) fun _ => .pure _

/-! ## Following a path -/

omit hg in
/-- The loop of `create_name` takes a byte of the path for each byte of the name. -/
theorem nameLoop_length : ∀ {p : List UInt8} {i ni : Nat} {sfn : List UInt8} {e : NameEnd},
    nameLoop p i ni sfn = some e → e.path.length < p.length ∨ (e.path = [] ∧ e.i = i)
  | [], i, ni, sfn, e, h => by
    cases h
    exact .inr ⟨rfl, rfl⟩
  | c :: p, i, ni, sfn, e, h => by
    have hrec : ∀ {i' ni' sfn'}, nameLoop p i' ni' sfn' = some e → e.path.length <
        (c :: p).length :=
      fun h' => by
        rcases nameLoop_length h' with h' | ⟨h', _⟩
        · exact Nat.lt_succ_of_lt h'
        · rw [h']
          exact Nat.succ_pos _
    left
    rw [nameLoop] at h
    split at h
    · cases h
      exact Nat.lt_succ_self _
    split at h
    · cases h
      exact Nat.lt_succ_of_le (List.dropWhile_sublist (l := p) isSeparator).length_le
    split at h
    · split at h
      · cases h
      · exact hrec h
    · split at h
      · cases h
      · exact hrec h

omit hg in
/-- Every segment that `create_name` takes shortens the path. -/
theorem createName_length {charSigned : Bool} {dp : DIR} {p : List UInt8}
    (h : (createName charSigned dp p).1 = .ok) :
    (createName charSigned dp p).2.2.length < p.length := by
  unfold createName at h ⊢
  cases hn : nameLoop p 0 8 (List.replicate 11 0x20) with
  | none =>
    rw [hn] at h
    cases h
  | some e =>
    rw [hn] at h
    by_cases hi : e.i = 0
    · simp [hi] at h
    · simp only [hi, if_false]
      exact (nameLoop_length hn).resolve_right fun h => hi h.2

/-- `follow_path` returns: every round takes a name off the path. -/
theorem followPath_preserves (dp : DIR) (path : List UInt8) :
    Preserves (Inv g) (followPath dp path) := by
  unfold followPath
  refine .get fun _ _ => .ite (fun _ => dirSdi_preserves hg _ _) fun _ =>
    .loop (fun p => p.2.length) (fun p w hw => ?_) (Nat.lt_succ_self _)
  rw [followRound, returns_bind, returns_get]
  cases hn : createName w.charSigned p.1 p.2 with
  | mk r q =>
    cases r with
    | ok =>
      rw [returns_bind]
      refine (dirFind_preserves hg _ _ hw).mono fun r w₁ h₁ => ?_
      simp only [followFound, returns_ite, returns_pure, returns_bind, returns_get]
      refine ⟨fun _ => ⟨fun _ => ⟨h₁, by simp⟩, fun _ => ⟨h₁, by simp⟩⟩, fun _ =>
        ⟨fun _ => ⟨h₁, by simp⟩, fun _ => ⟨fun _ => ⟨h₁, by simp⟩, fun _ => ⟨h₁, ?_⟩⟩⟩⟩
      rintro _ ⟨⟩
      have hok : (createName w.charSigned p.1 p.2).1 = .ok := by rw [hn]
      have hlen := createName_length hok
      rw [hn] at hlen
      exact hlen
    | _ => exact returns_pure.2 ⟨hw, by simp⟩

end

end FatFs
