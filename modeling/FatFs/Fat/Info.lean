import FatFs.Handle.Stale

/-!
# The FSInfo record

`sync_fs` writes the FSInfo record to the sector after the boot sector when `fsi_flag` says that the
allocation information changed. Whether it may is decided at the mount, by the number in
`BPB_FSInfo32` alone, and carried through `fsi_flag`: bit 7 disables the record and nothing clears
it. On a volume with more than one reserved sector the record is in the reserved area, and a flush
changes no FAT entry, directory entry or file byte (`syncFs_neutral`). With one reserved sector the
sector after the boot sector is the first one of the FAT, and the record destroys it.
-/

namespace FatFs

open Run

/-- The FSInfo record is disabled. -/
def State.InfoOff (w : State) : Prop := hasBits w.fsiFlag 0x80 = true

/-- Counting a change of the allocation does not enable the record. -/
theorem infoOff_or {f : UInt8} (h : hasBits f 0x80 = true) : hasBits (f ||| 1) 0x80 = true := by
  have he : (f ||| 1) &&& 0x80 = f &&& 0x80 := by
    apply UInt8.eq_of_toBitVec_eq
    simp only [UInt8.toBitVec_and, UInt8.toBitVec_or, BitVec.and_or_distrib_right]
    simp
  unfold hasBits at h ⊢
  rw [he]
  exact h

/-- The record is enabled and disabled by its flag alone. -/
theorem State.InfoOff.of_eq {w w' : State} (h : w.InfoOff) (he : w'.fsiFlag = w.fsiFlag) :
    w'.InfoOff := by
  unfold State.InfoOff
  rw [he]
  exact h

/-! ## Nothing enables the record -/

/-- A write to the device does not enable the record. -/
theorem diskWrite_infoOff (buff : Nat → Sector) (s c : Nat) :
    Keeps State.InfoOff (diskWrite buff s c) := by
  unfold diskWrite
  exact .get fun _ _ => .bind (.modify fun _ h => h) fun _ => .ite (fun _ => .bind
    (.modify fun _ h => h) fun _ => .pure _) fun _ => .pure _

/-- `sync_window` does not enable the record. -/
theorem syncWindow_infoOff : Keeps State.InfoOff syncWindow :=
  fun w h => (syncWindow_spec w).ensures.mono fun _ _ hp => State.InfoOff.of_eq h hp.kept.fsiFlag

/-- `move_window` does not enable the record. -/
theorem moveWindow_infoOff (s : Nat) : Keeps State.InfoOff (moveWindow s) := by
  intro w h
  refine (moveWindow_spec w s).ensures.mono fun _ _ hp => ?_
  cases hp with
  | same => exact h
  | moved hk => exact State.InfoOff.of_eq h hk.fsiFlag
  | stuck hk => exact State.InfoOff.of_eq h hk.fsiFlag
  | lost hk => exact State.InfoOff.of_eq h hk.fsiFlag

/-- `put_fat` does not enable the record. -/
theorem putFat_infoOff (c v : Nat) : Keeps State.InfoOff (putFat c v) :=
  putFat_keeps moveWindow_infoOff (fun _ => .modify fun _ h => h) c v

/-- `create_chain` marks the record as due, which does not enable it. -/
theorem createChain_infoOff (c : Nat) : Keeps State.InfoOff (createChain c) := by
  refine createChain_keeps (getFat_keeps moveWindow_infoOff) putFat_infoOff (fun w n h => ?_) c
  unfold State.allocated
  split
  · exact infoOff_or h
  · exact h

/-- `remove_chain` marks the record as due, which does not enable it. -/
theorem removeChain_infoOff (c p : Nat) : Keeps State.InfoOff (removeChain c p) := by
  refine removeChain_keeps (getFat_keeps moveWindow_infoOff) putFat_infoOff (fun w h => ?_) c p
  unfold State.freed
  split
  · exact infoOff_or h
  · exact h

/-- `dir_clear` does not enable the record. -/
theorem dirClear_infoOff (c : Nat) : Keeps State.InfoOff (dirClear c) := by
  have hround : ∀ sect csize n, Keeps State.InfoOff (clearRound sect csize n) := fun _ _ _ => by
    unfold clearRound
    exact .ite (fun _ => .get fun _ _ => .bind (diskWrite_infoOff _ _ _) fun _ => .ite
      (fun _ => .pure _) fun _ => .pure _) fun _ => .pure _
  unfold dirClear
  exact .bind syncWindow_infoOff fun _ => .ite (fun _ => .pure _) fun _ => .get fun _ _ => .bind
    (.modify fun w h => State.InfoOff.of_eq (w := w) h rfl) fun _ => .bind (.loop (hround _ _) _ _)
      fun _ => .pure _

/-- The direct write of `f_write` does not enable the record. -/
theorem writeDirect_infoOff (buff : List UInt8) (sect cc : Nat) :
    Keeps State.InfoOff (writeDirect buff sect cc) := by
  unfold writeDirect
  refine .bind (diskWrite_infoOff _ _ _) fun _ => .ite (fun _ => .bind (.modify fun w h => ?_)
    fun _ => .pure _) fun _ => .pure _
  split
  · exact h
  · exact h

/-- A disabled record is not written. -/
theorem syncFs_infoOff : Keeps State.InfoOff syncFs := by
  unfold syncFs
  refine .bind syncWindow_infoOff fun _ => .ite (fun _ => .get fun w h => .ite (fun h1 => ?_)
    fun _ => .bind (.pure _) fun _ => .pure _) fun _ => .pure _
  unfold State.InfoOff at h
  rw [h1] at h
  exact absurd h (by decide)

/-! ## The record is in the reserved area -/

/-- The FSInfo record is disabled or its sector is behind the boot sector and before the FAT. -/
def State.InfoInside (g : Geometry) (w : State) : Prop :=
  Inv g w ∧ (w.InfoOff ∨ g.volbase + 1 < g.fatbase)

/-- A record that is disabled, up to a proposition about the volume, stays disabled. -/
theorem infoOff_closed {g : Geometry} (hg : g.Sound) (p : Prop) :
    Closed g (fun _ => True) (fun w => Inv g w ∧ (w.InfoOff ∨ p)) where
  inv := And.left
  area := fun _ => trivial
  note := fun a h => ⟨h.1.note a, h.2⟩
  move := fun s => (moveWindow_preserves hg s).keeps.and ((moveWindow_infoOff s).or_const _)
  sync := (syncWindow_preserves hg).keeps.and (syncWindow_infoOff.or_const _)
  store := fun t h _ => ⟨h.1.store t, h.2⟩
  create := fun c => (createChain_preserves hg c).keeps.and ((createChain_infoOff c).or_const _)
  remove := fun {w} c p h _ =>
    (removeChain_preserves hg c p).keeps.and ((removeChain_infoOff c p).or_const _) w h
  clear := fun c hc =>
    Keeps.and (fun w hw => (dirClear_inv hg hw hc).ensures.mono fun _ _ h => h.inv)
    ((dirClear_infoOff c).or_const _)
  direct := fun buff sect cc hcc hs => by
    have hle : sect + cc ≤ W32 := by
      have := hg.inArea_lt (hs (cc - 1) (by omega))
      omega
    exact Keeps.and (fun w hw => (writeDirect_inv hw buff hcc hle).ensures.mono fun _ _ h => h.inv)
      ((writeDirect_infoOff buff sect cc).or_const _)
  edge := fun s t h _ hs => ⟨h.1.edge hg hs t, h.2⟩
  info := (syncFs_preserves hg).keeps.and (syncFs_infoOff.or_const _)
  last := fun n _ h => ⟨h.1.setLast n, h.2⟩
  count := fun n _ h _ hon => ⟨h.1.setFree n hon, h.2.imp_left infoOff_or⟩

/-- A record in the reserved area stays there. -/
theorem infoInside_closed {g : Geometry} (hg : g.Sound) :
    Closed g (fun _ => True) (State.InfoInside g) :=
  infoOff_closed hg _

/-! ## The mount decides -/

/-- The volume of the device does not enable an FSInfo record in its FAT: not a FAT32 volume with
one reserved sector whose `BPB_FSInfo32` is 1. -/
def Disk.InfoReserved (d : Disk) : Prop :=
  ∀ b, d.volumeSector = some b → subType (bpbClusters (d.data b)) = .fat32 →
    ldWord (d.data b) BPB_FSInfo32 = 1 → ldWord (d.data b) BPB_RsvdSecCnt ≠ 1

/-- A mount enables the record only on a FAT32 volume with `BPB_FSInfo32` 1. -/
theorem loadFsInfo_info (fmt : FsType) (s : Sector) (b : Nat) (w : State) :
    Ensures (loadFsInfo fmt s b) w fun _ w' =>
      w'.InfoOff ∨ (fmt = .fat32 ∧ ldWord s BPB_FSInfo32 = 1) := by
  rw [loadFsInfo, ensures_bind, ensures_modify, ensures_ite]
  refine ⟨fun h _ _ _ => .inr h, fun _ => ensures_pure.2 (.inl ?_)⟩
  exact show hasBits 0x80 0x80 = true by decide

/-- Where a mount that succeeds leaves the record: disabled, or enabled by the boot sector. -/
theorem mountDrive_info {w : State} (hr : w.disk.Reliable) :
    Ensures mountDrive w fun r w' => r = .ok → ∃ b g, w.disk.volumeSector = some b ∧
      readBPB (w.disk.data b) b = some g ∧ w'.geo = { g with id := (w.fsid + 1) % 65536 } ∧
      (w'.InfoOff ∨ (g.fsType = .fat32 ∧ ldWord (w.disk.data b) BPB_FSInfo32 = 1)) := by
  rw [mountDrive, ensures_bind]
  refine (findVolume_spec hr).ensures.mono fun r w₁ hpost => ?_
  obtain ⟨hl, h⟩ := hpost
  simp only [ensures_ite, ensures_pure, ensures_bind, ensures_get]
  refine ⟨by simp, fun _ => ⟨by simp, fun hlt => ?_⟩⟩
  cases hv : w.disk.volumeSector with
  | none =>
    rw [hv] at h
    exact absurd h hlt
  | some b =>
    rw [hv] at h
    obtain ⟨rfl, hwin, hws⟩ := h
    rw [hl.data] at hwin
    rw [hwin, hws]
    cases hg : readBPB (w.disk.data b) b with
    | none => exact ensures_pure.2 (by simp)
    | some g =>
      simp only [ensures_bind, ensures_modify, ensures_pure]
      refine (loadFsInfo_info g.fsType (w.disk.data b) b w₁).mono fun _ w₂ h₂ _ => ?_
      exact ⟨b, g, rfl, hg, by rw [hl.fsid], h₂⟩

/-- What holds between calls: the module is ready, and the record of a mounted volume is disabled or
in the reserved area. -/
structure State.InfoReady (w : State) : Prop where
  ready : w.Ready
  info : w.geo.fsType ≠ .none → w.InfoOff ∨ w.geo.volbase + 1 < w.geo.fatbase

/-- A mounted volume with its record in the reserved area is ready. -/
theorem State.InfoReady.of_inside {g : Geometry} (hg : g.Sound) {w : State}
    (h : State.InfoInside g w) : w.InfoReady :=
  ⟨.of_inv hg h.1, fun _ => by rw [h.1.geo]; exact h.2⟩

/-- A boot sector that enables the record and has more than one reserved sector. -/
theorem Analysed.info_lt {s : Sector} {b sys : Nat} {g : Geometry} (h : Analysed s b sys g)
    (hg : g.Sound) (h1 : ldWord s BPB_RsvdSecCnt ≠ 1) : g.volbase + 1 < g.fatbase := by
  have h₁ := h.rsvd
  have h₂ := h.volbase
  have h₃ := h.fatbase
  have h₄ := hg.volbase
  have h₅ : ldWord s BPB_RsvdSecCnt < 65536 := ldWord_lt
  unfold add32 W32 at *
  omega

/-- The FAT type of the volume is that of the number of clusters. -/
theorem readBPB_fsType {s : Sector} {b : Nat} {g : Geometry} (h : readBPB s b = some g) :
    g.fsType = subType (bpbClusters s) := by
  unfold readBPB at h
  split at h
  · cases h
    rfl
  · cases h

/-- A mount of a device whose record is in the reserved area. -/
theorem mountVolume_infoReady {w : State} (hw : w.InfoReady)
    (hs : w.geo.fsType = .none → w.disk.MountsSound ∧ w.disk.InfoReserved) (path : List UInt8)
    (mode : UInt8) : Ensures (mountVolume path mode) w fun _ w' => w'.InfoReady := by
  rw [mountVolume, ensures_bind, ensures_get]
  obtain ⟨known, rest⟩ := getLdnumber w.charSigned path
  cases known with
  | false => exact ensures_pure.2 hw
  | true =>
    simp only [ensures_ite, ensures_pure, ensures_bind, ensures_modify]
    refine ⟨fun _ => hw, fun _ => ⟨fun _ => ⟨fun _ => hw, fun _ => hw⟩, fun hm => ?_⟩⟩
    have hnone : w.geo.fsType = .none := by
      by_contra hne
      exact hm ⟨hne, rfl⟩
    obtain ⟨hsound, hinfo⟩ := hs hnone
    refine ⟨by simp [diskInitialize], fun _ => ⟨by simp [diskInitialize], fun _ => ?_⟩⟩
    refine ((mountDrive_inv (w := { w with geo := { w.geo with fsType := .none } })
      hw.ready.reliable
      hw.ready.size hsound).ensures.and (mountDrive_info hw.ready.reliable)).mono
      fun r w₁ hpost => ?_
    obtain ⟨⟨h₁, h₂, h₃, h₄⟩, h₅⟩ := hpost
    by_cases hr : r = .ok
    · obtain ⟨b, g, hv, hg, hgeo, hi⟩ := h₅ hr
      refine ⟨.of_inv (h₃ hr).1 (h₃ hr).2, fun _ => hi.imp_right fun hinfo32 => ?_⟩
      obtain ⟨hf, hone⟩ := hinfo32
      rw [hgeo]
      refine (readBPB_some hg).info_lt (hsound b g hv hg) (hinfo b hv ?_ hone)
      rw [← readBPB_fsType hg]
      exact hf
    · have hblank : w₁.geo.fsType = .none := by rw [h₄ hr]
      exact ⟨⟨h₁, by rw [h₂]; exact hw.ready.size, fun hne => absurd hblank hne⟩, fun hne =>
        absurd hblank hne⟩

/-! ## Runs -/

/-- The condition on a call: if it mounts a volume, the volume does not enable an FSInfo record in
its FAT. -/
def Call.MountsInfo (s : Session) (c : Call) : Prop :=
  (s.w.geo.fsType = .none ∨ ∃ fs path opt, c = .mount fs path opt ∧ opt ≠ 0) →
    s.w.disk.InfoReserved

/-- `f_mount` of a device whose record is in the reserved area, or without a mount. -/
theorem fMount_infoReady {w : State} (hw : w.InfoReady) (fs : Bool) (path : List UInt8) {opt : Nat}
    (hs : opt ≠ 0 → w.disk.MountsSound ∧ w.disk.InfoReserved) :
    Ensures (fMount fs path opt) w fun _ w' => w'.InfoReady := by
  rw [fMount, ensures_bind, ensures_get]
  obtain ⟨known, rest⟩ := getLdnumber w.charSigned path
  cases known with
  | false => exact ensures_pure.2 hw
  | true =>
    have h₁ : ∀ w' : State, (w' = if w.registered = true ∨ fs = true then
        { w with registered := fs, geo := { w.geo with fsType := .none } } else w) →
        w'.InfoReady ∧ w'.disk = w.disk := by
      rintro _ rfl
      split
      · exact ⟨⟨⟨hw.ready.reliable, hw.ready.size, fun h => absurd rfl h⟩, fun h =>
          absurd rfl h⟩, rfl⟩
      · exact ⟨hw, rfl⟩
    obtain ⟨hr, hd⟩ := h₁ _ rfl
    simp only [ensures_bind, ensures_modify, ensures_ite, ensures_pure]
    exact ⟨fun _ => hr, fun hne =>
      mountVolume_infoReady hr (fun _ => by rw [hd]; exact hs hne) path 0⟩

/-- One call of a run. -/
theorem exec_infoReady {s t : Session} {c : Call} {r : FRESULT} (hs : s.w.InfoReady)
    (hc : c.MountsSound s) (hi : c.MountsInfo s) (he : exec s c = some (r, t)) : t.w.InfoReady := by
  -- a call on a mounted volume
  have hmounted : ∀ {u : Session}, u.w.InfoReady → u.w.geo.fsType ≠ .none → c.OnVolume →
      exec u c = some (r, t) → t.w.InfoReady := by
    intro u hu hm hcv hue
    obtain ⟨hg, hinv⟩ := hu.ready.mounted hm
    have hplaced : u.Placed u.w.geo (fun _ => True) (State.InfoInside u.w.geo) :=
      ⟨⟨hinv, hu.info hm⟩, fun f _ _ => ⟨trivial, fun _ _ => trivial⟩⟩
    exact .of_inside hg (exec_closed hg (infoInside_closed hg) hplaced hcv hue).inv
  by_cases hcv : c.OnVolume
  · by_cases hm : s.w.geo.fsType = .none
    · rcases exec_blank hm hcv he with h | ⟨path, mode, res, p, w₁, h₁, h⟩
      · rw [h]
        exact hs
      · have hw₁ := mountVolume_infoReady hs (fun h => ⟨hc (.inl h), hi (.inl h)⟩) path mode _ _ h₁
        rcases h with ⟨_, h⟩ | ⟨_, h⟩
        · rw [h]
          exact hw₁
        · have hf := ((mountVolume_ready hs.ready (fun h => hc (.inl h)) path mode).of_eq h₁).2 ‹_›
          exact hmounted (u := s.step w₁) hw₁ hf hcv (h hf)
    · exact hmounted hs hm hcv he
  · cases c with
    | mount fs path opt =>
      rw [exec] at he
      obtain ⟨a, w, hp, hw⟩ := Session.run_ensures (fMount_infoReady hs fs path fun h =>
        ⟨hc (.inr ⟨_, _, _, rfl, h⟩), hi (.inr ⟨_, _, _, rfl, h⟩)⟩) he
      cases hp
      exact hw
    | _ => exact absurd trivial hcv

/-- `f_mkfs` unmounts the volume and keeps the device reliable. -/
theorem fMkfs_infoReady {w : State} (hw : w.InfoReady)
    (hreg : w.geo.fsType ≠ .none → w.registered = true) (path : List UInt8) (opt : Option MKFS_PARM)
    (len : Option Nat) : Ensures (fMkfs path opt len) w fun _ w' => w'.InfoReady := by
  have hwrite : ∀ buff s c, Keeps (fun w : State => w.disk.Reliable ∧ w.disk.sectors < W32 ∧
      w.geo.fsType = .none) (diskWrite buff s c) := fun buff s c => by
    unfold diskWrite
    exact .get fun _ _ => .bind (.modify fun _ h => h) fun _ => .ite
      (fun _ => .bind (.modify fun _ h => h) fun _ => .pure _) fun _ => .pure _
  have hstart : w.unmounted.disk.Reliable ∧ w.unmounted.disk.sectors < W32 ∧
      w.unmounted.geo.fsType = .none := by
    unfold State.unmounted
    split
    · exact ⟨hw.ready.reliable, hw.ready.size, rfl⟩
    · rename_i hno
      exact ⟨hw.ready.reliable, hw.ready.size, by_contra fun hne => hno (hreg hne)⟩
  refine (fMkfs_keeps hwrite path opt len hstart).mono fun _ w' h => ?_
  rcases h with rfl | ⟨h₁, h₂, h₃⟩
  · exact hw
  · exact ⟨⟨h₁, h₂, fun hne => absurd h₃ hne⟩, fun hne => absurd h₃ hne⟩

/-- The condition on a step: if it mounts a volume, the layout of the volume does not wrap, and it
does not enable an FSInfo record in its FAT. `f_mkfs` mounts nothing. -/
def Act.MountsInfo (s : Session) : Act → Prop
  | .call c => c.MountsSound s ∧ c.MountsInfo s
  | .mkfs _ _ _ => True

/-- A run of calls and formats leaves the record disabled or in the reserved area. -/
theorem Visits.infoReady {s t : Session} (hs : s.w.InfoReady)
    (hreg : s.w.geo.fsType ≠ .none → s.w.registered = true)
    (h : Visits (fun u a => a.MountsInfo u) s t) :
    t.w.InfoReady ∧ (t.w.geo.fsType ≠ .none → t.w.registered = true) := by
  induction h with
  | refl => exact ⟨hs, hreg⟩
  | @step t u a r _ hc he ih =>
    refine ⟨?_, (exec_stepSpec he).registered ih.2⟩
    cases a with
    | call c => exact exec_infoReady ih.1 hc.1 hc.2 he
    | mkfs path opt len =>
      rw [Act.exec] at he
      obtain ⟨b, w, hp, hw⟩ := Session.run_ensures (fMkfs_infoReady ih.1 ih.2 path opt len) he
      cases hp
      exact hw

/-- Flushing changes no FAT entry and no sector of the root directory or the data area of the
logical volume, and the FSInfo record, if it is to be written, goes to the reserved area. -/
structure FlushNeutral (w : State) : Prop where
  content : Returns syncFs w fun _ w' =>
    (∀ c, w.geo.IsClust c → w.geo.entry w'.logical c = w.geo.entry w.logical c) ∧
      ∀ s, w.geo.InArea s → w'.logical s = w.logical s
  record : w.fsiFlag = 1 → w.geo.fsType = .fat32 →
    w.geo.volbase < w.geo.volbase + 1 ∧ w.geo.volbase + 1 < w.geo.fatbase

/-- The record is written in front of the FAT, to a sector of its own. -/
theorem State.InfoReady.flushNeutral {w : State} (hw : w.InfoReady) (hm : w.geo.fsType ≠ .none) :
    FlushNeutral w := by
  obtain ⟨hg, hi⟩ := hw.ready.mounted hm
  have hrec : w.fsiFlag = 1 → w.geo.volbase + 1 < w.geo.fatbase := fun h1 => by
    refine (hw.info hm).resolve_left fun hoff => ?_
    unfold State.InfoOff at hoff
    rw [h1] at hoff
    exact absurd hoff (by decide)
  refine ⟨(syncFs_inv hg hi).mono fun r w' h => ?_, fun h1 _ => ⟨by omega, hrec h1⟩⟩
  -- the sectors from the FAT on are not the one of the record
  have hframe : ∀ s, w.geo.fatbase ≤ s → ¬w.geo.InFat2 s → w'.logical s = w.logical s :=
    fun s hs hs₂ => h.frame s hs₂ fun he => .inl fun h1 => by
      have := hrec h1
      omega
  refine ⟨fun c hc => hg.entry_congr (fun s hs => hframe s hs.1 hs.not_inFat2) hc.2, fun s hs =>
    hframe s ?_ hs.not_inFat2⟩
  have := hs.1
  omega

/-- In every run of calls and formats whose mounts find a volume with a sound layout that does not
enable an FSInfo record in its FAT, flushing is neutral after every step. -/
theorem syncFs_neutral {d : Disk} (hr : d.Reliable) (hsz : d.sectors < W32) (charSigned : Bool)
    (files : Nat → FIL) (dirs : Nat → DIR) {t : Session}
    (h : Visits (fun u a => a.MountsInfo u) (Session.start d charSigned files dirs) t)
    (hm : t.w.geo.fsType ≠ .none) : FlushNeutral t.w := by
  have hstart : (Session.start d charSigned files dirs).w.InfoReady :=
    ⟨Session.start_ready hr hsz charSigned files dirs, fun h => absurd rfl h⟩
  exact (h.infoReady hstart fun h => absurd rfl h).1.flushNeutral hm

/-- A device of 1024 sectors with the boot sector of a FAT32 volume with `n` reserved sectors and
one FAT of 516 sectors. The sector after the boot sector holds an FSInfo record of 100 free
clusters, and the end of the chain of the root directory in the place of the FAT entry 2. -/
def infoDisk (n : UInt8) : Disk where
  sectors := 1024
  data := fun s =>
    if s = 0 then
      [(0, 0xEB), (12, 2), (13, 1), (14, n), (16, 1), (32, 0x34), (33, 2), (34, 1), (36, 4),
        (37, 2), (44, 2), (48, 1), (82, 0x46), (83, 0x41), (84, 0x54), (85, 0x33), (86, 0x32),
        (87, 0x20), (88, 0x20), (89, 0x20), (510, 0x55), (511, 0xAA)].foldl
        (fun t p => t.set p.1 p.2) Sector.zero
    else if s = 1 then stDword (fsInfo 100 4) 8 0x0FFFFFFF
    else Sector.zero
  blockSize := 1
  fault := fun _ => false
  log := []

/-- The program that starts on the device with no object open. -/
def infoStart (n : UInt8) : Session := Session.start (infoDisk n) true (fun _ => {}) fun _ => {}

/-- With two reserved sectors the hypotheses are met by a run that creates a file and writes to it.
The record is due at the end of the run. -/
theorem syncFs_neutral_written :
    ∃ t, execAll [.mount true [] 1, .open 0 [0x41] (FA_WRITE ||| FA_CREATE_ALWAYS), .write 0 [0x42]]
        (infoStart 2) = some t ∧ t.w.fsiFlag = 1 ∧ t.w.geo.fsType = .fat32 ∧ FlushNeutral t.w := by
  have h : ((exec (infoStart 2) (.mount true [] 1)).bind fun p =>
      (exec p.2 (.open 0 [0x41] (FA_WRITE ||| FA_CREATE_ALWAYS))).bind fun q =>
      (exec q.2 (.write 0 [0x42])).map fun r => (p.2.w.geo.fsType, q.2.w.geo.fsType,
        r.2.w.fsiFlag, r.2.w.geo.fsType)) = some (.fat32, .fat32, 1, .fat32) := by decide +kernel
  obtain ⟨⟨_, s⟩, hs, h⟩ := Option.bind_eq_some_iff.1 h
  obtain ⟨⟨_, t⟩, ht, h⟩ := Option.bind_eq_some_iff.1 h
  obtain ⟨⟨_, u⟩, hu, h⟩ := Option.map_eq_some_iff.1 h
  simp only [Prod.mk.injEq] at h
  obtain ⟨hfs, hft, hflag, hfu⟩ := h
  have hv : (infoDisk 2).volumeSector = some 0 := by decide +kernel
  have hsound : (infoDisk 2).MountsSound :=
    Disk.mountsSound_of hv (by decide +kernel) (by decide +kernel)
  have hinfo : (infoDisk 2).InfoReserved := by
    intro b hb _ _
    rw [hv] at hb
    cases hb
    decide +kernel
  -- only the first step mounts a volume
  have hopen : (Act.call (.open 0 [0x41] (FA_WRITE ||| FA_CREATE_ALWAYS))).MountsInfo s := by
    refine ⟨fun h => ?_, fun h => ?_⟩ <;> simp [hfs] at h
  have hwrite : (Act.call (.write 0 [0x42])).MountsInfo t := by
    refine ⟨fun h => ?_, fun h => ?_⟩ <;> simp [hft] at h
  have hrun : Visits (fun u a => a.MountsInfo u) (infoStart 2) u :=
    ((Visits.refl.call ⟨fun _ => hsound, fun _ => hinfo⟩ hs).call hopen ht).call hwrite hu
  refine ⟨u, ?_, hflag, hfu, syncFs_neutral (fun _ => rfl) (show 1024 < W32 by decide) true
    (fun _ => {}) (fun _ => {}) hrun (by rw [hfu]; decide)⟩
  simp only [execAll, hs, ht, hu, Option.bind_some]

/-- With one reserved sector the record destroys the first sector of the FAT: the entry of the
cluster that a written file has is free after the flush. -/
theorem syncFs_destroys_fat :
    ∃ t, execAll [.mount true [] 1, .open 0 [0x41] (FA_WRITE ||| FA_CREATE_ALWAYS),
        .write 0 [0x42]] (infoStart 1) = some t ∧ t.w.geo.fsType = .fat32 ∧ ¬FlushNeutral t.w := by
  have h : ((execAll [.mount true [] 1, .open 0 [0x41] (FA_WRITE ||| FA_CREATE_ALWAYS),
      .write 0 [0x42]] (infoStart 1)).bind fun t => (syncFs t.w).map fun r =>
        (t.w.geo, t.w.geo.entry t.w.logical 5, t.w.geo.entry r.2.logical 5)) =
      some (⟨.fat32, 1, 0, 1, 65585, 516, 0, 1, 2, 517, 1⟩, 0x0FFFFFFF, 0) := by decide +kernel
  obtain ⟨t, he, h⟩ := Option.bind_eq_some_iff.1 h
  obtain ⟨⟨r, w⟩, hw, h⟩ := Option.map_eq_some_iff.1 h
  simp only [Prod.mk.injEq] at h
  obtain ⟨hg, hbefore, hafter⟩ := h
  refine ⟨t, he, by rw [hg], fun hn => ?_⟩
  have hsame := (hn.content.of_eq hw).1 5 (by rw [hg]; exact ⟨by decide, by decide⟩)
  rw [hbefore, hafter] at hsame
  cases hsame

end FatFs
