import FatFs.Fat.Info

/-!
# A volume that is wholly on the device

On a device that has every sector of the volume the window can always be flushed: it is dirty only
on a sector of the FAT, of the root directory or of the data area. `OnDevice` adds this to the
invariant with the FSInfo record in the reserved area; it is closed, so it holds in every run
(`Reaches.onDevice`).
-/

namespace FatFs

open Run

/-- The volume is wholly on the device, and the window can be flushed. -/
structure OnDevice (g : Geometry) (w : State) : Prop where
  info : State.InfoInside g w
  on : g.volEnd ≤ w.disk.sectors
  good : w.Flushable

section
variable {g : Geometry}

/-- A volume on its device is well formed. -/
theorem OnDevice.inv {w : State} (h : OnDevice g w) : Inv g w := h.info.1

/-- A clean window has nothing to flush. -/
theorem State.Flushable.of_clean {w : State} (h : w.wflag = false) : w.Flushable :=
  fun hd => absurd hd (by simp [h])

/-- A record that is due is not in the FAT. -/
theorem OnDevice.record {w : State} (h : OnDevice g w) (h1 : w.fsiFlag = 1) :
    g.volbase + 1 < g.fatbase := by
  refine h.info.2.resolve_left fun hoff => ?_
  unfold State.InfoOff at hoff
  rw [h1] at hoff
  exact absurd hoff (by decide)

/-- The first FAT is on the device. -/
theorem OnDevice.fatOn (hg : g.Sound) {w : State} (h : OnDevice g w) : g.FatOn w := hg.fatOn h.on

/-- The data area is on the device. -/
theorem Geometry.InArea.on {w : State} (h : OnDevice g w) {s : Nat} (hs : g.InArea s) :
    s < w.disk.sectors :=
  Nat.lt_of_lt_of_le hs.2 h.on

/-- The sectors of the root directory and the data area are not FSInfo sectors. -/
theorem FsSynced.area {w w' : State} {r : FRESULT} (h : FsSynced g w r w') (hw : OnDevice g w)
    {s : Nat} (hs : g.fatbase ≤ s) (hs₂ : ¬g.InFat2 s) : w'.logical s = w.logical s :=
  h.frame s hs₂ fun he => .inl fun h1 => by
    have := hw.record h1
    omega

/-- The volume stays on its device, whatever the API stores. -/
theorem onDevice_closed (hg : g.Sound) : Closed g g.InArea (OnDevice g) where
  inv := OnDevice.inv
  area := id
  note := fun a h => ⟨(infoInside_closed hg).note a h.info, h.on, h.good⟩
  move := fun s w h => (((infoInside_closed hg).move s w h.info).and
    (moveWindow_inv hg h.inv s).ensures).mono fun _ _ ⟨h₁, h₂⟩ =>
      ⟨h₁, by rw [h₂.kept.sectors]; exact h.on, (h₂.good h.good).1⟩
  sync := fun w h => (((infoInside_closed hg).sync w h.info).and
    (syncWindow_inv hg h.inv).ensures).mono fun _ _ ⟨h₁, h₂⟩ =>
      ⟨h₁, by rw [h₂.kept.sectors]; exact h.on, .of_clean (h₂.clean (h₂.good h.good))⟩
  store := fun t h hs => ⟨(infoInside_closed hg).store t h.info trivial, h.on, fun _ => hs.on h⟩
  create := fun c w h => (((infoInside_closed hg).create c w h.info).and
    (createChain_inv hg h.inv c).ensures).mono fun _ _ ⟨h₁, h₂⟩ =>
      ⟨h₁, by rw [h₂.fat.sectors]; exact h.on, h₂.fat.good h.good⟩
  remove := fun {w} c p h hp => (((infoInside_closed hg).remove c p h.info hp).and
    (removeChain_inv hg h.inv c p).ensures).mono fun _ _ ⟨h₁, h₂⟩ =>
      ⟨h₁, by rw [h₂.sectors]; exact h.on, h₂.good h.good⟩
  clear := fun c hc w h => (((infoInside_closed hg).clear c hc w h.info).and
    (dirClear_inv hg h.inv hc).ensures).mono fun _ _ ⟨h₁, h₂⟩ => by
      refine ⟨h₁, by rw [h₂.kept.sectors]; exact h.on, (h₂.full h.good ?_).2⟩
      have hcs := hg.csize_pos
      have := (hg.inArea_clst hc (show g.csize - 1 < g.csize by omega)).on h
      omega
  direct := fun buff sect cc hcc hs w h => by
    have hle : sect + cc ≤ W32 := by
      have := hg.inArea_lt (hs (cc - 1) (by omega))
      omega
    exact (((infoInside_closed hg).direct buff sect cc hcc hs w h.info).and
      (writeDirect_inv h.inv buff hcc hle).ensures).mono fun _ _ ⟨h₁, h₂⟩ =>
        ⟨h₁, by rw [h₂.kept.sectors]; exact h.on, h₂.good h.good⟩
  edge := fun s t h hc hs =>
    ⟨(infoInside_closed hg).edge s t h.info hc hs, h.on, fun _ => hs.on h⟩
  info := fun w h => (((infoInside_closed hg).info w h.info).and
    (syncFs_inv hg h.inv).ensures).mono fun _ _ ⟨h₁, h₂⟩ =>
      ⟨h₁, by rw [h₂.sectors]; exact h.on, .of_clean (h₂.clean (h₂.good h.good))⟩
  last := fun n hn h => ⟨(infoInside_closed hg).last n hn h.info, h.on, h.good⟩
  count := fun n hle h hn hon =>
    ⟨(infoInside_closed hg).count n hle h.info hn hon, h.on, h.good⟩

end

/-- A session right after the mount of a volume that is wholly on the device, with the FSInfo record
in the reserved area if it is enabled. -/
structure Session.OnMedium (w₀ : State) (s : Session) : Prop extends s.JustMounted w₀ where
  info : s.w.InfoOff ∨ s.w.geo.volbase + 1 < s.w.geo.fatbase
  on : s.w.geo.volEnd ≤ s.w.disk.sectors

/-- A session on a good medium works on a volume that is on its device. -/
theorem Session.OnMedium.onDevice {w₀ : State} {s : Session} (h : s.OnMedium w₀) :
    s.w.geo.Sound ∧ OnDevice s.w.geo s.w := by
  obtain ⟨hg, hi, hc, -⟩ := h.inv
  exact ⟨hg, ⟨hi, h.info⟩, h.on, .of_clean hc⟩

/-- In every run from such a session the volume is wholly on the device, and the file objects store
to the root directory and the data area only. -/
theorem Reaches.onDevice {w₀ : State} {s t : Session} (hs : s.OnMedium w₀)
    (h : Reaches (fun _ c => c.OnVolume) s t) :
    t.Placed s.w.geo s.w.geo.InArea (OnDevice s.w.geo) :=
  h.closed hs.onDevice.1 (onDevice_closed hs.onDevice.1) (hs.noneOpen.placed hs.onDevice.2)

/-- What the mount of a volume establishes. -/
theorem registeredOn_mounted {d : Disk} (hr : d.Reliable) (hsz : d.sectors < W32)
    (hs : d.MountsSound) {w : State} (hm : mountVolume [] 0 (registeredOn d) =
    some ((.ok, []), w)) :
    w.geo.Sound ∧ Inv w.geo w ∧ w.Flushable := by
  have h : Session.JustMounted (registeredOn d) ⟨w, fun _ => {}, fun _ => {}⟩ :=
    ⟨hr, hsz, hs, rfl, ⟨[], 0, [], hm⟩, fun _ h => by cases h⟩
  obtain ⟨hg, hi, hc, -⟩ := h.inv
  exact ⟨hg, hi, .of_clean hc⟩

/-- What the mount of the image of a fuzzing input establishes. -/
theorem fuzzDisk_mounted {image : List UInt8} (hs : (fuzzDisk image).MountsSound) {w : State}
    (hm : mountVolume [] 0 (registeredOn (fuzzDisk image)) = some ((.ok, []), w)) :
    w.geo.Sound ∧ Inv w.geo w ∧ w.Flushable :=
  registeredOn_mounted (fun _ => rfl) (show 128 < W32 by decide) hs hm

end FatFs
