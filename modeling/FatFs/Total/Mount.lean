import FatFs.Mount.Layout
import FatFs.Window.Invariant

/-!
# Mounting and the window invariant

`State.Ready` is what holds between calls on a reliable device: while a volume is mounted its
geometry is sound and the window invariant holds. A mount establishes it, given that the volume it
finds has a sound layout (`Disk.MountsSound`); a mount that fails leaves no volume mounted.
-/

namespace FatFs

open Run

/-- The volume that a mount of the device accepts, if any, has a sound layout. -/
def Disk.MountsSound (d : Disk) : Prop :=
  ∀ b g, d.volumeSector = some b → readBPB (d.data b) b = some g → g.Sound

/-- A layout that fits is mounted soundly. -/
theorem Disk.LayoutFits.mountsSound {d : Disk} (h : d.LayoutFits) : d.MountsSound :=
  fun b _ hb hg => ((readBPB_some hg).sound (h b hb)).1

/-- A volume whose numbers do not wrap around is sound. -/
theorem Disk.mountsSound_of {d : Disk} {b : Nat} (hv : d.volumeSector = some b)
    (hsys : bpbSystem (d.data b) < 2 ^ 32) (htot : b + bpbTotSec (d.data b) ≤ 2 ^ 32) :
    d.MountsSound := by
  refine Disk.LayoutFits.mountsSound fun b' hb => ?_
  rw [hv] at hb
  cases hb
  exact ⟨hsys, htot⟩

/-- What holds between calls. -/
structure State.Ready (w : State) : Prop where
  reliable : w.disk.Reliable
  /-- The device is addressable. -/
  size : w.disk.sectors < W32
  mounted : w.geo.fsType ≠ .none → w.geo.Sound ∧ Inv w.geo w

/-- A mounted volume with the window invariant is ready. -/
theorem State.Ready.of_inv {g : Geometry} {w : State} (hg : g.Sound) (hw : Inv g w) : w.Ready :=
  ⟨hw.reliable, hw.size, fun _ => by rw [hw.geo]; exact ⟨hg, hw⟩⟩

/-- The mount ID is not part of what is sound. -/
theorem Geometry.Sound.withId {g : Geometry} (h : g.Sound) (n : Nat) :
    Geometry.Sound { g with id := n } := by
  obtain ⟨⟩ := h
  constructor <;> assumption

/-- The window after the volume was found and the FSInfo sector was read: clean, on a sector that
was loaded or invalid. -/
structure Loaded (b : Nat) (w : State) : Prop where
  clean : w.wflag = false
  coherent : w.Coherent
  winsect : w.winsect = b ∨ w.winsect < w.disk.sectors ∨ w.winsect = 0xFFFFFFFF
  info : w.fsiFlag ≠ 1

/-- The reading of the FSInfo record leaves a clean window. -/
theorem loadFsInfo_loaded {w : State} {fmt : FsType} {s : Sector} {b : Nat} (hc : w.wflag = false)
    (hh : w.Holds b) (hsz : w.disk.sectors < W32) :
    Returns (loadFsInfo fmt s b) w fun _ w' => Loaded b w' := by
  have hco : w.Coherent := fun _ _ => by rw [hh.1, hh.2]
  rw [loadFsInfo, returns_bind, returns_modify, returns_ite]
  refine ⟨fun _ => ?_, fun _ => returns_pure.2 ⟨hc, hco, .inl hh.2, by simp⟩⟩
  rw [returns_bind]
  refine (moveWindow_spec _ _).mono fun r w' h => ?_
  have hl : Loaded b w' := by
    cases h with
    | same => exact ⟨hc, hco, .inl hh.2, by simp⟩
    | moved hk _ hc' hws hwin hlt hf =>
      refine ⟨hc', fun _ _ => by rw [hwin, hws], .inr (.inl ?_), ?_⟩
      · rw [hws, hk.sectors]
        exact hlt
      · rw [hk.fsiFlag]
        simp
    | stuck _ _ hd => exact absurd hd (by simp [hc])
    | lost hk _ hc' hws hwin hf _ =>
      refine ⟨hc', fun _ hon => ?_, .inr (.inr hws), ?_⟩
      · rw [hws, hk.sectors] at hon
        simp only [W32] at hsz hon
        omega
      · rw [hk.fsiFlag]
        simp
  simp only [returns_ite, returns_modify, returns_pure]
  refine ⟨fun _ => ?_, fun _ => hl⟩
  split <;> exact ⟨hl.clean, hl.coherent, hl.winsect, by simp⟩

/-- The boot sector of the volume is on the device. -/
theorem Disk.volumeSector_lt {d : Disk} {b : Nat} (h : d.volumeSector = some b) :
    b < d.sectors := by
  have hv : ∀ {s : Nat}, d.isVBR s = true → s < d.sectors := fun h => by
    simp only [Disk.isVBR, Bool.and_eq_true, decide_eq_true_eq] at h
    exact h.1.1
  unfold Disk.volumeSector at h
  split at h
  · cases h
    exact hv ‹_›
  split at h
  · have hb := List.find?_some h
    simp only [Bool.and_eq_true] at hb
    exact hv hb.2
  · cases h

/-- A volume that was just mounted has the window invariant. -/
theorem Loaded.inv {g : Geometry} {w : State} {b : Nat} (hg : g.Sound) (hgeo : w.geo = g)
    (h : Loaded b w) (hr : w.disk.Reliable) (hsz : w.disk.sectors < W32)
    (hb : b < w.disk.sectors) : Inv g w where
  geo := hgeo
  reliable := hr
  size := hsz
  coherent := h.coherent
  winsect := by
    simp only [W32] at hsz ⊢
    rcases h.winsect with h | h | h <;> omega
  fat := fun hf => by
    rcases h.winsect with h | h | h
    · omega
    · exact h
    · rw [h] at hf
      exact absurd hf hg.not_inFat_invalid
  info := fun hi => absurd hi h.info

/-- A mount of the drive that succeeds establishes the window invariant, one that fails keeps the
filesystem object. -/
theorem mountDrive_inv {w : State} (hr : w.disk.Reliable) (hsz : w.disk.sectors < W32)
    (hs : w.disk.MountsSound) :
    Returns mountDrive w fun r w' => w'.disk.Reliable ∧ w'.disk.sectors = w.disk.sectors ∧
      (r = .ok → w'.geo.Sound ∧ Inv w'.geo w') ∧ (r ≠ .ok → w'.geo = w.geo) := by
  rw [mountDrive, returns_bind]
  refine ((findVolume_spec hr).and (findVolume_clean w)).mono fun r w₁ hpost => ?_
  obtain ⟨⟨hl, h⟩, hc⟩ := hpost
  simp only [returns_ite, returns_pure, returns_bind, returns_get]
  have hfail : ∀ {res : FRESULT}, res ≠ .ok → w₁.disk.Reliable ∧ w₁.disk.sectors = w.disk.sectors ∧
      (res = .ok → w₁.geo.Sound ∧ Inv w₁.geo w₁) ∧ (res ≠ .ok → w₁.geo = w.geo) :=
    fun hne => ⟨hl.reliable, hl.sectors, fun h => absurd h hne, fun _ => hl.geo⟩
  cases hv : w.disk.volumeSector with
  | none => exact ⟨fun _ => hfail (by simp), fun _ => ⟨fun _ => hfail (by simp), fun h' => by
      simp only [hv] at h
      omega⟩⟩
  | some b =>
    simp only [hv] at h
    obtain ⟨rfl, hh⟩ := h
    refine ⟨by omega, fun _ => ⟨by omega, fun _ => ?_⟩⟩
    rw [hh.1, hh.2, hl.data]
    cases hb : readBPB (w.disk.data b) b with
    | none => exact returns_pure.2 (hfail (by simp))
    | some g =>
      have hg := hs b g hv hb
      rw [returns_bind]
      refine ((loadFsInfo_spec hl.reliable hc).and
        (loadFsInfo_loaded hc hh (by rw [hl.sectors]; exact hsz))).mono fun _ w₂ hpost => ?_
      obtain ⟨hl₂, h₂⟩ := hpost
      simp only [returns_bind, returns_modify, returns_pure]
      have ht := hl.trans hl₂
      refine ⟨ht.reliable, ht.sectors, fun _ => ⟨hg.withId _, ?_⟩, fun h => absurd rfl h⟩
      refine Loaded.inv (b := b) (hg.withId _) rfl ⟨h₂.clean, h₂.coherent, h₂.winsect, h₂.info⟩
        ht.reliable ?_ ?_
      · exact ht.sectors ▸ hsz
      · exact ht.sectors ▸ Disk.volumeSector_lt hv

/-- A call that mounts the volume if needed leaves the module ready, and a volume mounted if it
succeeds. -/
theorem mountVolume_ready {w : State} (hw : w.Ready)
    (hs : w.geo.fsType = .none → w.disk.MountsSound) (path : List UInt8) (mode : UInt8) :
    Returns (mountVolume path mode) w fun r w' =>
      w'.Ready ∧ (r.1 = .ok → w'.geo.fsType ≠ .none) := by
  rw [mountVolume, returns_bind, returns_get]
  obtain ⟨known, rest⟩ := getLdnumber w.charSigned path
  cases known with
  | false => exact returns_pure.2 ⟨hw, by simp⟩
  | true =>
    simp only [returns_ite, returns_pure, returns_bind, returns_modify]
    refine ⟨fun _ => ⟨hw, by simp⟩, fun _ => ⟨fun hm => ⟨fun _ => ⟨hw, by simp⟩,
      fun _ => ⟨hw, fun _ => hm.1⟩⟩, fun hm => ?_⟩⟩
    have hnone : w.geo.fsType = .none := by
      by_contra hne
      exact hm ⟨hne, rfl⟩
    refine ⟨by simp [diskInitialize], fun _ => ⟨by simp [diskInitialize], fun _ => ?_⟩⟩
    refine (mountDrive_inv (w := { w with geo := { w.geo with fsType := .none } }) hw.reliable
      hw.size (hs hnone)).mono fun r w₁ hpost => ?_
    obtain ⟨h₁, h₂, h₃, h₄⟩ := hpost
    by_cases hr : r = .ok
    · exact ⟨.of_inv (h₃ hr).1 (h₃ hr).2, fun _ => (h₃ hr).1.fsType⟩
    · refine ⟨⟨h₁, by rw [h₂]; exact hw.size, fun hne => ?_⟩, fun h => absurd h hr⟩
      rw [h₄ hr] at hne
      exact absurd rfl hne

/-- After a mount the window is clean. -/
theorem mountVolume_clean {w : State} (hb : w.geo.fsType = .none) (path : List UInt8)
    (mode : UInt8) :
    Ensures (mountVolume path mode) w fun r w' => r.1 = .ok → w'.wflag = false := by
  have hmove : ∀ s, Keeps (fun w : State => w.wflag = false) (moveWindow s) := fun s w hc => by
    refine (moveWindow_spec w s).ensures.mono fun _ w' h => ?_
    cases h with
    | same => exact hc
    | moved _ _ hc' => exact hc'
    | stuck _ _ hd => exact absurd hd (by simp [hc])
    | lost _ _ hc' => exact hc'
  have hload : ∀ fmt s b, Keeps (fun w : State => w.wflag = false) (loadFsInfo fmt s b) := by
    intro fmt s b
    unfold loadFsInfo
    refine .bind (.modify fun _ h => h) fun _ => .ite (fun _ => .bind (hmove _) fun _ => .ite
      (fun _ => .modify fun w h => ?_) fun _ => .pure _) fun _ => .pure _
    split
    · exact h
    · exact h
  have hdrive : ∀ u : State, Ensures mountDrive u fun _ w' => w'.wflag = false := by
    intro u
    rw [mountDrive, ensures_bind]
    refine (findVolume_clean u).ensures.mono fun r w₁ hc => ?_
    simp only [ensures_ite, ensures_pure, ensures_bind, ensures_get]
    refine ⟨fun _ => hc, fun _ => ⟨fun _ => hc, fun _ => ?_⟩⟩
    cases readBPB w₁.win w₁.winsect with
    | none => exact ensures_pure.2 hc
    | some g =>
      simp only [ensures_bind, ensures_modify, ensures_pure]
      exact hload _ _ _ w₁ hc
  exact mountVolume_drive hb ((hdrive _).mono fun _ _ h _ => h)

end FatFs
