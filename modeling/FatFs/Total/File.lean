import FatFs.Total.Dir
import FatFs.Window.Transfer

/-!
# File functions on any image

The functions on files return on every image and keep the window invariant, for every file object:
the cursor, the cluster and the sector it holds may be anything. The places that go around
`move_window` are treated one by one: the FSInfo record in `sync_fs`, the direct transfers of
`f_read` and `f_write`, and the growing edge of `f_write`.
-/

namespace FatFs

open Run

section
variable {g : Geometry} (hg : g.Sound)

include hg

/-- Whatever cluster number `clst2sect` accepts, its sectors are in the data area. -/
theorem Geometry.Sound.inArea_clst2sect {c k : Nat} (h : clst2sect g c ≠ 0) (hk : k < g.csize) :
    g.InArea (clst2sect g c + k) := by
  have hn : ¬sub32 g.nFatent 2 ≤ sub32 c 2 := by
    intro hle
    rw [clst2sect, if_pos hle] at h
    exact h rfl
  have hlt := hg.nFatent_lt
  have hent := hg.entries
  have hsub : sub32 g.nFatent 2 = g.nFatent - 2 :=
    sub32_of_le (by simp only [DISKERR] at hlt; simp only [W32]; omega) (by omega)
  -- the number is the one of a valid cluster up to wrap-around
  have hc : g.IsClust (sub32 c 2 + 2) := ⟨by omega, by omega⟩
  have heq : clst2sect g c = clst2sect g (sub32 c 2 + 2) := by
    have h₂ : sub32 (sub32 c 2 + 2) 2 = sub32 c 2 := by
      rw [sub32_of_le (by simp only [DISKERR] at hlt; simp only [W32]; omega) (by omega),
        Nat.add_sub_cancel]
    simp only [clst2sect, h₂]
  rw [heq]
  exact hg.inArea_clst hc hk

/-! ## `sync_fs` -/

/-- What `sync_fs` does: it may write the FSInfo record to the sector after the boot sector. -/
structure FsSynced (g : Geometry) (w : State) (r : FRESULT) (w' : State) : Prop where
  inv : Inv g w'
  sectors : w'.disk.sectors = w.disk.sectors
  registered : w'.registered = w.registered
  fsid : w'.fsid = w.fsid
  charSigned : w'.charSigned = w.charSigned
  freeClst : w'.freeClst = w.freeClst
  lastClst : w'.lastClst = w.lastClst
  fsiFlag : w'.fsiFlag = w.fsiFlag ∨ w'.fsiFlag = 0
  clean : r = .ok → w'.wflag = false
  frame : ∀ s, ¬g.InFat2 s → (s = g.volbase + 1 → w.fsiFlag ≠ 1 ∨ g.fsType ≠ .fat32) →
    w'.logical s = w.logical s
  good : w.Flushable → r = .ok

/-- `sync_fs` returns; the FSInfo record is built in the window once that is flushed. -/
theorem syncFs_inv {w : State} (hw : Inv g w) : Returns syncFs w (FsSynced g w) := by
  rw [syncFs, returns_bind]
  refine (syncWindow_inv hg hw).mono fun r w₁ h₁ => ?_
  have hk := h₁.kept
  simp only [returns_ite, returns_pure, returns_bind, returns_get, returns_modify,
    diskSync, if_true]
  refine ⟨fun hok => ⟨fun hf => ⟨fun ht => ?_, fun ht => ?_⟩, fun hf => ?_⟩, fun hne => ?_⟩
  · -- the FSInfo sector is on the device, as the FAT begins behind it
    have hlt := hw.info (by rw [← hk.fsiFlag]; exact hf)
    have hvol := hg.volbase
    have hdb := hg.database_lt
    have hle : g.fatbase ≤ g.database := by have := hg.database; omega
    rw [h₁.inv.geo] at ht ⊢
    have hsect : add32 g.volbase 1 = g.volbase + 1 := add32_of_lt (by omega)
    have hserves : w₁.disk.serves (g.volbase + 1) 1 = true := by
      rw [h₁.inv.reliable.serves, Disk.inBounds_iff, hk.sectors]
      omega
    rw [hsect, returns_diskWrite]
    refine ⟨fun _ => ?_, fun hn => absurd hserves hn⟩
    refine ⟨⟨rfl, h₁.inv.reliable, h₁.inv.size, fun _ _ => ?_, ?_, fun _ => ?_, by simp⟩,
      hk.sectors, hk.registered, hk.fsid, hk.charSigned, hk.freeClst, hk.lastClst, .inr rfl,
      fun _ => h₁.clean hok, fun s hs hs' => ?_, fun _ => rfl⟩
    · simp [State.store_data]
    · simp only [State.store_winsect, State.note_winsect]
      omega
    · simp only [State.store_winsect, State.note_winsect, State.store_sectors, State.note_sectors]
      rw [hk.sectors]
      omega
    · have hne : s ≠ g.volbase + 1 := fun he => by
        rcases hs' he with h | h
        · exact h (by rw [← hk.fsiFlag]; exact hf)
        · exact h ht
      refine (logical_of_clean ?_ s).trans ?_
      · exact h₁.clean hok
      rw [State.store_data, if_neg (by omega), ← h₁.same s hs, logical_of_clean (h₁.clean hok)]
      rfl
  · exact ⟨⟨h₁.inv.geo, h₁.inv.reliable, h₁.inv.size, h₁.inv.coherent, h₁.inv.winsect, h₁.inv.fat,
      by simp⟩, hk.sectors, hk.registered, hk.fsid, hk.charSigned, hk.freeClst, hk.lastClst,
      .inr rfl, fun _ => h₁.clean hok, fun s hs _ => h₁.same s hs, fun _ => rfl⟩
  · exact ⟨h₁.inv, hk.sectors, hk.registered, hk.fsid, hk.charSigned, hk.freeClst, hk.lastClst,
      .inl hk.fsiFlag, fun _ => h₁.clean hok, fun s hs _ => h₁.same s hs, fun _ => rfl⟩
  · exact ⟨h₁.inv, hk.sectors, hk.registered, hk.fsid, hk.charSigned, hk.freeClst, hk.lastClst,
      .inl hk.fsiFlag, fun h => absurd h hne, fun s hs _ => h₁.same s hs,
      fun hf => absurd (h₁.good hf) hne⟩

/-- `sync_fs` keeps the state well formed. -/
theorem syncFs_preserves : Preserves (Inv g) syncFs :=
  fun _ hw => (syncFs_inv hg hw).mono fun _ _ h => h.inv

/-! ## Reading -/

/-- The step of `f_read` to the cluster of the pointer: `get_fat` is its only access. -/
theorem readClust_preserves (fp : FIL) (csect : Nat) : Preserves (Inv g) (readClust fp csect) := by
  unfold readClust
  exact .ite (fun _ => .bind (.ite (fun _ => .pure _) fun _ => getFat_preserves hg _) fun c => .ite
    (fun _ => .pure _) fun _ => .ite (fun _ => .pure _) fun _ => .pure _) fun _ => .pure _

/-- The read of a part of a sector takes at least one byte off the count. -/
theorem readWindow_inv {w : State} (hw : Inv g w) (fp : FIL) {btr : Nat} (hb : 0 < btr)
    (acc : List UInt8) : Returns (readWindow fp btr acc) w fun r w' =>
      Inv g w' ∧ ∀ p, r = .inl p → p.2.1 < btr := by
  have hlt : fp.fptr % SS < SS := Nat.mod_lt _ (by decide)
  rw [readWindow, returns_bind]
  refine (moveWindow_inv hg hw _).mono fun r w₁ h₁ => ?_
  simp only [returns_ite, returns_pure, returns_bind, returns_get]
  refine ⟨fun _ => ⟨h₁.inv, by simp⟩, fun _ => ⟨h₁.inv, ?_⟩⟩
  rintro _ ⟨⟩
  simp only [SS] at hlt ⊢
  omega

omit hg in
/-- The sectors of a direct transfer, clipped at the cluster boundary. -/
theorem clip_pos {csize csect n : Nat} (hn : 0 < n) (hc : csect < csize) :
    0 < (if csize < csect + n then csize - csect else n) ∧
      (if csize < csect + n then csize - csect else n) ≤ n ∧
      csect + (if csize < csect + n then csize - csect else n) ≤ csize := by
  split <;> omega

/-- The cluster size is a power of two, so the mask gives a sector of the cluster. -/
theorem Geometry.Sound.csect_lt (n : Nat) : n &&& (g.csize - 1) < g.csize := by
  rw [hg.and_csize]
  exact Nat.mod_lt _ hg.csize_pos

/-- One round of `f_read` takes at least one byte off the count: the loop ends. -/
theorem fReadRound_inv {w : State} (hw : Inv g w) (p : FIL × Nat × List UInt8) :
    Returns (fReadRound p) w fun r w' => Inv g w' ∧ ∀ p', r = .inl p' → p'.2.1 < p.2.1 := by
  obtain ⟨fp, btr, acc⟩ := p
  rw [fReadRound]
  simp only [returns_ite, returns_pure]
  refine ⟨fun _ => ⟨hw, by simp⟩, fun hb => ⟨fun _ => ?_, fun _ =>
    readWindow_inv hg hw fp (by omega) acc⟩⟩
  simp only [returns_bind, returns_get]
  refine (readClust_preserves hg _ _ w hw).mono fun r w₁ h₁ => ?_
  cases r with
  | error res => exact returns_pure.2 ⟨h₁, by simp⟩
  | ok fp₁ =>
    rw [hw.geo]
    simp only [returns_ite, returns_pure, returns_bind]
    refine ⟨fun _ => ⟨h₁, by simp⟩, fun _ => ⟨fun hcc => ?_, fun _ =>
      readWindow_inv hg h₁ _ (by omega) acc⟩⟩
    rw [returns_diskRead]
    refine ⟨fun _ => ?_, fun _ => returns_pure.2 ⟨h₁.note _, by simp⟩⟩
    simp only [returns_bind, returns_get, returns_pure]
    refine ⟨h₁.note _, ?_⟩
    rintro _ ⟨⟩
    obtain ⟨hpos, hle, -⟩ := clip_pos hcc (hg.csect_lt (fp.fptr / SS))
    simp only [SS] at hpos hle hcc ⊢
    omega

/-- `f_read` returns, by the bytes that are left to read. -/
theorem fRead_preserves (fp : FIL) (btr : Nat) : Preserves (Inv g) (fRead fp btr) := by
  unfold fRead
  refine .bind (.get fun _ _ => .pure _) fun r => .ite (fun _ => .pure _) fun _ => .ite
    (fun _ => .pure _) fun _ => .ite (fun _ => .pure _) fun _ => .loop (fun p => p.2.1)
      (fun p w hw => fReadRound_inv hg hw p) (Nat.lt_succ_self _)

/-! ## Writing -/

/-- The step of `f_write` to the cluster of the pointer, which may be allocated. -/
theorem writeClust_preserves (fp : FIL) (csect : Nat) :
    Preserves (Inv g) (writeClust fp csect) := by
  unfold writeClust
  exact .ite (fun _ => .bind (.ite (fun _ => .ite (fun _ => createChain_preserves hg _)
    fun _ => .pure _) fun _ => createChain_preserves hg _) fun c => .ite (fun _ => .pure _)
      fun _ => .ite (fun _ => .pure _) fun _ => .ite (fun _ => .pure _) fun _ => .pure _)
    fun _ => .pure _

/-- One round of `f_write` takes at least one byte off the buffer: the loop ends. -/
theorem fWriteRound_inv {w : State} (hw : Inv g w) (p : FIL × List UInt8 × Nat) :
    Returns (fWriteRound p) w fun r w' =>
      Inv g w' ∧ ∀ p', r = .inl p' → p'.2.1.length < p.2.1.length := by
  obtain ⟨fp, buff, bw⟩ := p
  have hlt : fp.fptr % SS < SS := Nat.mod_lt _ (by decide)
  -- the window path makes at least one byte
  have hwin : buff ≠ [] → ∀ fp' : FIL, ∀ n, n = min (SS - fp'.fptr % SS) buff.length →
      (buff.drop n).length < buff.length := fun hb fp' n hn => by
    have hpos : 0 < buff.length := List.length_pos_iff.2 hb
    have := Nat.mod_lt fp'.fptr (show 0 < SS by decide)
    rw [List.length_drop]
    omega
  rw [fWriteRound]
  simp only [returns_ite, returns_pure]
  refine ⟨fun _ => ⟨hw, by simp⟩, fun hb => ⟨fun _ => ?_, fun _ => ?_⟩⟩
  · simp only [returns_bind, returns_get]
    refine (writeClust_preserves hg _ _ w hw).mono fun r w₁ h₁ => ?_
    rcases r with res | _ | fp₁
    · exact returns_pure.2 ⟨h₁, by simp⟩
    · exact returns_pure.2 ⟨h₁, by simp⟩
    simp only [returns_bind, returns_get]
    have hsync : Preserves (Inv g) (if w₁.winsect = fp₁.sect then syncWindow else pure .ok) :=
      .ite (fun _ => syncWindow_preserves hg) fun _ => .pure _
    refine (hsync w₁ h₁).mono fun r w₂ h₂ => ?_
    rw [hw.geo]
    simp only [returns_ite, returns_pure]
    refine ⟨fun _ => ⟨h₂, by simp⟩, fun _ => ⟨fun _ => ⟨h₂, by simp⟩, fun hs => ?_⟩⟩
    have hcs := hg.csect_lt (fp.fptr / SS)
    have harea := hg.inArea_clst2sect hs hcs
    have hadd : add32 (clst2sect g fp₁.clust) (fp.fptr / SS &&& (g.csize - 1)) =
        clst2sect g fp₁.clust + (fp.fptr / SS &&& (g.csize - 1)) := add32_of_lt (hg.inArea_lt harea)
    rw [hadd]
    refine ⟨fun hcc => ?_, fun _ => ?_⟩
    · obtain ⟨hpos, hle, hcl⟩ := clip_pos hcc hcs
      have htop := hg.inArea_lt (hg.inArea_clst2sect hs (Nat.sub_lt hg.csize_pos Nat.one_pos))
      rw [returns_bind]
      refine (writeDirect_inv h₂ buff hpos (by omega)).mono fun r w₃ h₃ => ?_
      simp only [returns_ite, returns_pure]
      refine ⟨fun _ => ⟨h₃.inv, by simp⟩, fun _ => ⟨h₃.inv, ?_⟩⟩
      rintro _ ⟨⟩
      simp only [SS, List.length_drop] at hpos hle hcc ⊢
      omega
    · refine (growEdge_inv hg h₂ fp₁ harea buff bw).mono fun r w₃ h₃ => ?_
      rcases h₃ with ⟨⟨_, rfl⟩, h, -⟩ | ⟨rfl, h⟩
      · exact ⟨h, by simp⟩
      · refine ⟨h.inv, ?_⟩
        rintro _ ⟨⟩
        exact hwin hb fp₁ _ rfl
  · refine (writeWindow_inv hg hw fp buff bw).mono fun r w₁ h₁ => ?_
    rcases h₁ with ⟨rfl, h, -⟩ | ⟨rfl, h⟩
    · exact ⟨h, by simp⟩
    · refine ⟨h.inv, ?_⟩
      rintro _ ⟨⟩
      exact hwin hb fp _ rfl

/-- `f_write` returns, by the bytes that are left to write. -/
theorem fWrite_preserves (fp : FIL) (buff : List UInt8) : Preserves (Inv g) (fWrite fp buff) := by
  unfold fWrite
  refine .bind (.get fun _ _ => .pure _) fun r => .ite (fun _ => .pure _) fun _ => .ite
    (fun _ => .pure _) fun _ => .ite (fun _ => .pure _) fun _ =>
      .bind (.loop (fun p => p.2.1.length)
      (fun p w hw => fWriteRound_inv hg hw p) ?_) fun r => .pure _
  simp only [List.length_take]
  omega

/-! ## Synchronising and closing -/

/-- `f_sync` rewrites the directory entry in the window and syncs the volume. -/
theorem fSync_preserves (fp : FIL) : Preserves (Inv g) (fSync fp) := by
  unfold fSync
  exact .bind (.get fun _ _ => .pure _) fun r => .ite (fun _ => .bind (moveWindow_preserves hg _)
    fun r => .ite (fun _ => .get fun _ _ => .bind (modWin_preserves _) fun _ => .bind
      (syncFs_preserves hg) fun r => .pure _) fun _ => .pure _) fun _ => .pure _

/-- `f_close` is `f_sync` and the invalidation of the file object. -/
theorem fClose_preserves (fp : FIL) : Preserves (Inv g) (fClose fp) := by
  unfold fClose
  exact .bind (fSync_preserves hg _) fun r => .ite (fun _ => .bind (.get fun _ _ => .pure _)
    fun r => .pure _) fun _ => .pure _

/-! ## Seeking and truncating -/

/-- The walk of `f_lseek` returns: every round takes a cluster off the offset. -/
theorem seekFollow_preserves (fp : FIL) (clst : Nat) {ofs : Nat} (hofs : ofs < W32) :
    Preserves (Inv g) (seekFollow fp clst ofs) := by
  unfold seekFollow
  refine .ite (fun _ => .get fun w hw => .bind (.loop (fun p => p.2.2 / SS) (fun p w₁ h₁ => ?_) ?_)
    fun r => ?_) fun _ => .pure _
  · -- every round passes a whole cluster
    obtain ⟨fp, clst, ofs⟩ := p
    have hcs := hg.csize_pos
    have hlt : g.csize * SS < ofs → (ofs - g.csize * SS) / SS < ofs / SS := fun h => by
      simp only [SS] at *
      omega
    rw [seekRound, hw.geo]
    simp only [returns_ite, returns_pure, returns_bind, returns_get]
    refine ⟨fun hgo => ⟨fun _ => ?_, fun _ => ?_⟩, fun _ => ⟨h₁, by simp⟩⟩
    · refine (createChain_preserves hg _ _ h₁).mono fun c w₂ h₂ => ⟨fun _ => ⟨h₂, by simp⟩, fun _ =>
        ⟨fun _ => ⟨h₂, by simp⟩, fun _ => ⟨fun _ => ⟨h₂, by simp⟩, fun _ => ⟨h₂, ?_⟩⟩⟩⟩
      rintro _ ⟨⟩
      exact hlt hgo
    · refine (getFat_preserves hg _ _ h₁).mono fun c w₂ h₂ => ⟨fun _ => ⟨h₂, by simp⟩, fun _ =>
        ⟨fun _ => ⟨h₂, by simp⟩, fun _ => ⟨h₂, ?_⟩⟩⟩
      rintro _ ⟨⟩
      exact hlt hgo
  · simp only [SS, W32] at hofs ⊢
    omega
  · rcases r with _ | ⟨fp, clst, ofs⟩
    · exact .pure _
    · exact .ite (fun _ => .ite (fun _ => .pure _) fun _ => .pure _) fun _ => .pure _

/-- `f_lseek` returns, for every offset that a 32-bit number can be. -/
theorem fLseek_preserves (fp : FIL) {ofs : Nat} (hofs : ofs < W32) :
    Preserves (Inv g) (fLseek fp ofs) := by
  have hclip : (if fp.objsize < ofs ∧ (!hasBits fp.flag FA_WRITE) = true then fp.objsize else ofs) <
      W32 := by
    split <;> omega
  unfold fLseek
  refine .bind (.get fun _ _ => .pure _) fun r => .ite (fun _ => .pure _) fun _ => .ite
    (fun _ => .pure _) fun _ => .get fun _ _ => .ite (fun _ => .ite
      (fun _ => seekFollow_preserves hg _ _ (by omega)) fun _ => .ite (fun _ => .bind
        (createChain_preserves hg _) fun c => .ite (fun _ => .pure _) fun _ =>
          .ite (fun _ => .pure _)
          fun _ => seekFollow_preserves hg _ _ hclip) fun _ => seekFollow_preserves hg _ _ hclip)
      fun _ => .pure _

/-- `f_truncate` removes the rest of the chain, by `remove_chain`. -/
theorem fTruncate_preserves (fp : FIL) : Preserves (Inv g) (fTruncate fp) := by
  unfold fTruncate truncChain
  exact .bind (.get fun _ _ => .pure _) fun r => .ite (fun _ => .pure _) fun _ => .ite
    (fun _ => .pure _) fun _ => .ite (fun _ => .pure _) fun _ => .ite (fun _ => .bind (.ite
      (fun _ => .bind (removeChain_preserves hg _ _) fun r => .pure _) fun _ => .bind
        (getFat_preserves hg _) fun c => .ite (fun _ => .pure _) fun _ => .ite (fun _ => .pure _)
          fun _ => .get fun _ _ => .ite (fun _ => .bind (removeChain_preserves hg _ _) fun r =>
            .pure _) fun _ => .pure _) fun r => .pure _) fun _ => .pure _

/-! ## Opening -/

omit hg in
/-- The hint for the next free cluster is not part of what is well formed. -/
theorem Inv.setLast {w : State} (hw : Inv g w) (n : Nat) : Inv g { w with lastClst := n } :=
  ⟨hw.geo, hw.reliable, hw.size, hw.coherent, hw.winsect, hw.fat, hw.info⟩

/-- `f_open` empties an existing file: its entry is rewritten and its chain removed. -/
theorem truncEntry_preserves (dj : DIR) : Preserves (Inv g) (truncEntry dj) := by
  unfold truncEntry
  exact .get fun _ _ => .bind (modWin_preserves _) fun _ => .ite (fun _ => .bind
    (removeChain_preserves hg _ _) fun r => .ite (fun _ => .bind (moveWindow_preserves hg _)
      fun r => .bind (.modify fun w hw => hw.setLast _) fun _ => .pure _) fun _ => .pure _)
    fun _ => .pure _

/-- `f_open` with a creating mode: the entry is registered, or an existing file is emptied. -/
theorem openCreate_preserves (res : FRESULT) (dj : DIR) (mode : UInt8) :
    Preserves (Inv g) (openCreate res dj mode) := by
  unfold openCreate
  exact .ite
    (fun _ => .ite (fun _ => .bind (dirRegister_preserves hg _) fun r => .ite
      (fun _ => .bind (truncEntry_preserves hg _) fun r => .pure _) fun _ => .pure _)
      fun _ => .pure _)
    fun _ => .ite (fun _ => .pure _) fun _ => .ite (fun _ => .pure _) fun _ => .ite
      (fun _ => .bind (truncEntry_preserves hg _) fun r => .pure _) fun _ => .pure _

/-- `f_open` with the appending mode follows the chain to the end of the file. -/
theorem appendSeek_preserves {fp : FIL} (h : fp.objsize < W32) :
    Preserves (Inv g) (appendSeek fp) := by
  unfold appendSeek
  refine .get fun w hw => .bind (.loop (fun p => p.2 / SS) (fun p w₁ h₁ => ?_) ?_) fun r => ?_
  · have hcs := hg.csize_pos
    rw [appendRound, hw.geo]
    simp only [returns_ite, returns_pure, returns_bind]
    refine ⟨fun hgo => ?_, fun _ => ⟨h₁, by simp⟩⟩
    refine (getFat_preserves hg _ _ h₁).mono fun c w₂ h₂ => ⟨fun _ => ⟨h₂, by simp⟩, fun _ =>
      ⟨fun _ => ⟨h₂, by simp⟩, fun _ => ⟨h₂, ?_⟩⟩⟩
    rintro _ ⟨⟩
    simp only [SS] at hgo ⊢
    omega
  · simp only [SS, W32] at h ⊢
    omega
  · exact .ite (fun _ => .ite (fun _ => .pure _) fun _ => .pure _) fun _ => .pure _

/-- `f_open` fills the file object from the directory entry, and may append. -/
theorem openFil_preserves (fp : FIL) (dj : DIR) (mode : UInt8) :
    Preserves (Inv g) (openFil fp dj mode) := by
  unfold openFil
  refine .get fun _ _ => .ite (fun _ => appendSeek_preserves hg ?_) fun _ => .pure _
  exact ldDword_lt

end

end FatFs
