import FatFs.Store.Trunc

/-!
# Synchronising a file

`f_sync` stores the start cluster and the size of a modified file in its directory entry and flushes
the window. It changes nothing of the file, and nothing else on the volume but the 32 bytes of that
entry and the FSInfo record. After it the device holds the logical content of the volume.
-/

namespace FatFs

open Run Splice

/-- What `f_sync` does. -/
structure Synced (g : Geometry) (w : State) (fp : FIL) (r : FRESULT × FIL) (w' : State) : Prop where
  res : r.1 = .ok
  fil : r.2 = if hasBits fp.flag FA_MODIFIED then { fp with flag := fp.flag &&&
    ~~~FA_MODIFIED } else fp
  stable : Stable g w'
  sectors : w'.disk.sectors = w.disk.sectors
  fat : ∀ s, g.InFat s → w'.logical s = w.logical s
  entry : w'.logical fp.dirSect = if hasBits fp.flag FA_MODIFIED then
    syncEntry g (w.logical fp.dirSect) fp.dirPtr fp else w.logical fp.dirSect
  data : ∀ s, g.InArea s → s ≠ fp.dirSect → w'.logical s = w.logical s
  clean : hasBits fp.flag FA_MODIFIED = true → w'.wflag = false

section
variable {g : Geometry} {w w' : State} {cs : List Nat} {fp : FIL}

theorem Synced.touches (hg : g.Sound) {r : FRESULT × FIL} (h : Synced g w fp r w') (cs : List Nat) :
    Touches g w fp cs w' cs := by
  refine ⟨h.stable, h.sectors, fun _ hc hn => absurd hc hn, fun _ hc hn => absurd hc hn,
    fun _ he _ _ => hg.entry_congr h.fat he.2, fun s hs _ => ?_⟩
  by_cases he : s = fp.dirSect
  · rw [he, h.entry]
    split
    · exact .inr ⟨rfl, rfl⟩
    · exact .inl rfl
  · exact .inl (h.data s hs he)

/-- The window of a stable state is stored to at a sector of the volume outside the FAT. -/
theorem Stable.store (hg : g.Sound) (h : Stable g w) (hs : g.InArea w.winsect) (t : Sector) :
    Stable g { w with win := t, wflag := true } :=
  h.of_frame hg ((onDevice_closed hg).store t h.dev hs) (fun s hf => by
    rw [logical_store, if_neg fun he => hg.not_inArea_of_inFat hf (by rw [he]; exact hs)]) rfl

/-- `sync_fs` on a stable state. -/
theorem syncFs_stable (hg : g.Sound) (hs : Stable g w) : Returns syncFs w fun r w' => r = .ok ∧
    Stable g w' ∧ w'.disk.sectors = w.disk.sectors ∧ w'.wflag = false ∧
    (∀ s, g.fatbase ≤ s → ¬g.InFat2 s → w'.logical s = w.logical s) := by
  refine ((syncFs_inv hg hs.dev.inv).and_ensures ((onDevice_closed hg).info w hs.dev)).mono
    fun r w' hpost => ?_
  obtain ⟨h, hdev⟩ := hpost
  have hok := h.good hs.dev.good
  exact ⟨hok, hs.of_frame hg hdev (fun s hf => h.area hs.dev hf.1 hf.not_inFat2) h.freeClst,
    h.sectors, h.clean hok, fun s hle hn => h.area hs.dev hle hn⟩

/-- `f_sync` on a file with its directory entry in the area of the directories and data. -/
theorem fSync_store (hg : g.Sound) (hs : Stable g w) (h : fp.Holds g w cs)
    (hdir : g.InArea fp.dirSect) :
    Returns (fSync fp) w (Synced g w fp) := by
  rw [fSync, returns_bind]
  refine ⟨_, _, validate_holds hg hs h, returns_ite.2 ?_⟩
  refine ⟨fun hmod => ?_, fun hmod => returns_pure.2 ?_⟩
  · have hm := hmod.2
    rw [returns_bind]
    refine (moveWindow_stable hg hs hdir).mono fun r w₁ hpost => ?_
    obtain ⟨rfl, hs₁, hsec₁, hsame, hws, hwin⟩ := hpost
    rw [if_pos rfl, returns_bind, returns_get, returns_bind, returns_modWin, returns_bind]
    have hs₂ := hs₁.store hg (by rw [hws]; exact hdir) (syncEntry w₁.geo w₁.win fp.dirPtr fp)
    refine (syncFs_stable hg hs₂).mono fun r w₃ hpost => returns_pure.2 ?_
    obtain ⟨rfl, hs₃, hsec₃, hclean, hframe⟩ := hpost
    have hother : ∀ s, g.fatbase ≤ s → ¬g.InFat2 s → s ≠ fp.dirSect → w₃.logical s =
        w.logical s := by
      intro s hle hn hne
      rw [hframe s hle hn, logical_store, if_neg (by rw [hws]; exact hne), hsame s hn]
    have hge : ∀ {s}, g.InArea s → g.fatbase ≤ s := fun hin =>
      Nat.le_trans (Nat.le_add_right _ _) hin.1
    refine ⟨rfl, by rw [if_pos hm], hs₃, hsec₃.trans hsec₁, fun s hf => ?_, ?_, fun s hin hne => ?_,
      fun _ => hclean⟩
    · exact hother s hf.1 hf.not_inFat2 fun he => hg.not_inArea_of_inFat hf (by rw [he]; exact hdir)
    · rw [if_pos hm, hframe _ (hge hdir) hdir.not_inFat2, logical_store, if_pos hws.symm, hwin,
        hs₁.dev.inv.geo]
    · exact hother s (hge hin) hin.not_inFat2 hne
  · have hm : ¬hasBits fp.flag FA_MODIFIED = true := fun hm => hmod ⟨rfl, hm⟩
    exact ⟨rfl, by rw [if_neg hm], hs, rfl, fun _ _ => rfl, by rw [if_neg hm], fun _ _ _ => rfl,
      fun hm' => absurd hm' hm⟩

end

end FatFs
