import FatFs.Format.Write
import FatFs.Fat.Entry
import FatFs.Total.Mount

/-!
# Formatting and mounting

`f_mkfs` on a reliable drive as a whole (`fMkfs_spec`): when it succeeds, which sectors it writes
and what they hold. A mount then takes the chosen layout from the boot sector, and the volume is
empty. The exception are volumes that the alignment of the data area fills up: the format succeeds,
but the volume has no clusters and no mount accepts it. `fMkfs_mounts_iff` says that this is the
only one.
-/

namespace FatFs

open Run

/-! ## The partition table -/

section
variable {sys nHd nxt sz : Nat}

/-- The MBR with one partition. -/
def makeMBR (sys nHd nxt sz : Nat) : Sector :=
  stWord (makePTE Sector.zero MBR_Table sys nHd nxt sz) BS_55AA 0xAA55

/-- The partition table is no boot sector. -/
theorem makeMBR_classify : classify (makeMBR sys nHd nxt sz) = 2 := by
  have h₀ : makeMBR sys nHd nxt sz BS_JmpBoot = 0 := by
    unfold makeMBR makePTE
    simp (disch := decide) only [stWord_of_ne, stDword_of_ne, Sector.set_of_ne]
    rfl
  have hs : ldWord (makeMBR sys nHd nxt sz) BS_55AA = 0xAA55 := ldWord_stWord
  rw [classify]
  simp only [h₀, hs]
  rw [if_neg (by simp), if_pos trivial]

/-- The first entry of the table has the start of the volume. -/
theorem makeMBR_start (h : nxt < W32) :
    ldDword (makeMBR sys nHd nxt sz) (MBR_Table + PTE_StLba) = nxt := by
  unfold makeMBR makePTE
  simp (disch := decide) only [ldDword_stWord_of_ne, ldDword_set_of_ne, ldDword_stDword_of_ne,
    ldDword_stDword]
  exact Nat.mod_eq_of_lt h

end

/-- The partition that `f_mkfs` asks for is the rest of the drive after the first track. -/
theorem partLoop_mkfs {szDrv szVol sys nHd : Nat} (hd : N_SEC_TRACK + szVol = szDrv)
    (hv : 128 ≤ szVol) (hw : szDrv < W32) :
    partLoop szDrv sys nHd [szVol, 0] MBR_Table N_SEC_TRACK Sector.zero =
      makePTE Sector.zero MBR_Table sys nHd N_SEC_TRACK szVol := by
  have hadd : add32 N_SEC_TRACK szVol = szDrv := by rw [add32_of_lt (by omega), hd]
  have h₁ : N_SEC_TRACK < szDrv := by omega
  have h₂ : ¬szVol ≤ 100 := by omega
  have h₃ : ¬szDrv < N_SEC_TRACK := by omega
  have h₄ : szVol ≠ 0 := by omega
  simp [partLoop, hadd, h₁, h₂, h₃, h₄]

/-- `create_partition` writes the table of one partition to sector 0. -/
theorem createPartition_filled {w : State} {szVol sys : Nat} (hr : w.disk.Reliable)
    (hd : N_SEC_TRACK + szVol = w.disk.sectors) (hv : 128 ≤ szVol) (hw : w.disk.sectors < W32) :
    Returns (createPartition [szVol, 0] sys) w fun r w' => r = .ok ∧
      ∃ nHd, Filled 0 1 (fun _ => makeMBR sys nHd N_SEC_TRACK szVol) w w' := by
  rw [createPartition, returns_bind, returns_get]
  simp only [partLoop_mkfs hd hv hw]
  rw [returns_bind]
  refine (diskWrite_filled hr (by omega) (by omega)).mono fun r w' ⟨hok, hf⟩ => ?_
  rw [returns_pure, hok]
  exact ⟨rfl, _, hf⟩

/-! ## The format -/

/-- The parameters of a format of the device. -/
def Disk.mkfsEnv (d : Disk) (opt : Option MKFS_PARM) : MkfsEnv :=
  FatFs.mkfsEnv (opt.getD defopt) d.sectors d.blockSize

/-- The sub-type and the cluster size that the choice of the layout starts from. -/
def Disk.mkfsStart (d : Disk) (opt : Option MKFS_PARM) : FsType × Nat :=
  (if hasBits (d.mkfsEnv opt).fsopt FM_FAT then .fat16 else .fat32, mkfsAu (opt.getD defopt))

/-- The sectors that a format may write: the volume, and the MBR unless the volume is the drive. -/
def MkfsEnv.Touched (e : MkfsEnv) (s : Nat) : Prop :=
  InRange e.bVol e.szVol s ∨ hasBits e.fsopt FM_SFD = false ∧ s = 0

/-- The call of `f_mkfs` gets to the choice of the layout. -/
structure Admitted (w : State) (path : List UInt8) (opt : Option MKFS_PARM) (len : Option Nat) :
    Prop where
  drive : (getLdnumber w.charSigned path).1 = true
  buffer : SS ≤ len.getD 0
  size : 128 ≤ (w.disk.mkfsEnv opt).szVol
  type : hasBits (w.disk.mkfsEnv opt).fsopt FM_FAT = true ∨
    hasBits (w.disk.mkfsEnv opt).fsopt FM_FAT32 = true

/-- The call of `f_mkfs` formats the drive with the layout `l`. -/
structure Formats (w : State) (path : List UInt8) (opt : Option MKFS_PARM) (len : Option Nat)
    (l : MkfsLayout) : Prop extends Admitted w path opt len where
  layout : chooseLayout (w.disk.mkfsEnv opt) 8 (w.disk.mkfsStart opt) = some (.ok l)

/-- The volume is the drive, or the partition after the first track. -/
theorem mkfsEnv_location {d : Disk} {opt : Option MKFS_PARM} (h : 128 ≤ (d.mkfsEnv opt).szVol) :
    hasBits (d.mkfsEnv opt).fsopt FM_SFD = true ∧ (d.mkfsEnv opt).bVol = 0 ∧
        (d.mkfsEnv opt).szVol = d.sectors ∨
      hasBits (d.mkfsEnv opt).fsopt FM_SFD = false ∧ (d.mkfsEnv opt).bVol = N_SEC_TRACK ∧
        N_SEC_TRACK + (d.mkfsEnv opt).szVol = d.sectors := by
  unfold Disk.mkfsEnv FatFs.mkfsEnv at *
  simp only at *
  generalize hasBits ((opt.getD defopt).fmt &&& (FM_ANY ||| FM_SFD)) FM_SFD = b at *
  cases b with
  | true => simp
  | false =>
    simp only [Bool.not_false, true_and] at *
    split at h
    · rename_i hlt
      refine .inr ⟨if_pos hlt, ?_⟩
      rw [if_pos hlt]
      omega
    · simp only [N_SEC_TRACK] at *
      omega

section
variable {d : Disk} {opt : Option MKFS_PARM}

/-- The first round has a valid type and cluster size. -/
theorem mkfsStart_roundOk : RoundOk (d.mkfsStart opt) := by
  refine ⟨?_, mkfsAu_isAu _⟩
  unfold Disk.mkfsStart
  split
  · exact .inl rfl
  · exact .inr rfl

/-- The layout is found within the rounds of the loop. -/
theorem roundsLeft_lt (p : FsType × Nat) : roundsLeft p < 8 := by
  unfold roundsLeft
  split <;> split <;> omega

end

/-- The formatted volume is where a mount finds it. -/
theorem volumeSector_sfd {e : MkfsEnv} (he : e.Sane) {l : MkfsLayout} (hl : Accepted e l)
    {d : Disk} (hf : Formatted e l d) (hb : e.bVol = 0) (hd : 0 < d.sectors) :
    d.volumeSector = some 0 := by
  have hcl := (makeVBR_boot he hl).classify_eq he hl
  have hv : d.isVBR 0 = true := by
    have hboot := hf.boot
    rw [hb] at hboot
    simp [Disk.isVBR, hd, hboot, hcl]
  rw [Disk.volumeSector, if_pos hv]

/-- A volume in a partition is found through the table. -/
theorem volumeSector_mbr {e : MkfsEnv} (he : e.Sane) {l : MkfsLayout} (hl : Accepted e l)
    {d : Disk} (hf : Formatted e l d) (hb : e.bVol = N_SEC_TRACK) (hd : N_SEC_TRACK < d.sectors)
    {sys nHd sz : Nat} (hm : d.data 0 = makeMBR sys nHd N_SEC_TRACK sz) :
    d.volumeSector = some N_SEC_TRACK := by
  have hcl := (makeVBR_boot he hl).classify_eq he hl
  have h₀ : d.isVBR 0 = false := by simp [Disk.isVBR, hm, makeMBR_classify]
  have h₁ : d.isVBR N_SEC_TRACK = true := by
    have hboot := hf.boot
    rw [hb] at hboot
    simp [Disk.isVBR, hd, hboot, hcl]
  have hp : d.partitions = N_SEC_TRACK :: d.partitions.tail := by
    have hst : ldDword (makeMBR sys nHd N_SEC_TRACK sz) (MBR_Table + PTE_StLba) = N_SEC_TRACK :=
      makeMBR_start (by decide)
    rw [Disk.partitions, hm]
    simp only [List.range, List.range.loop, List.map_cons, List.tail_cons, Nat.zero_mul,
      Nat.add_zero, hst]
  rw [Disk.volumeSector, if_neg (by simp [h₀]), hm, makeMBR_classify, if_pos rfl, hp,
    List.find?_cons, h₁]
  rfl

/-- The state when `f_mkfs` has blanked the filesystem object. -/
def State.blanked (w : State) (path : List UInt8) : State :=
  if (getLdnumber w.charSigned path).1 ∧ w.registered then
    { w with geo := { w.geo with fsType := .none } }
  else w

/-- What a call of `f_mkfs` does on a reliable drive. -/
structure MkfsPost (w : State) (path : List UInt8) (opt : Option MKFS_PARM) (len : Option Nat)
    (r : FRESULT) (w' : State) : Prop where
  wrote : Wrote (w.disk.mkfsEnv opt).Touched (w.blanked path) w'
  ok_iff : r = .ok ↔ ∃ l, Formats w path opt len l
  formatted : ∀ l, Formats w path opt len l → Formatted (w.disk.mkfsEnv opt) l w'.disk ∧
    w'.disk.volumeSector = some (w.disk.mkfsEnv opt).bVol

section
variable {w : State} {path : List UInt8} {opt : Option MKFS_PARM} {len : Option Nat}

/-- Unmounting does not touch the device. -/
@[simp] theorem State.blanked_disk : (w.blanked path).disk = w.disk := by
  unfold State.blanked
  split <;> rfl

/-- A call that is refused writes nothing. -/
theorem MkfsPost.refused {r : FRESULT} (hne : r ≠ .ok) (h : ∀ l, ¬Formats w path opt len l) :
    MkfsPost w path opt len r (w.blanked path) where
  wrote := .refl _ _
  ok_iff := ⟨fun hr => absurd hr hne, fun ⟨l, hl⟩ => absurd hl (h l)⟩
  formatted := fun l hl => absurd hl (h l)

/-- The parameters that `f_mkfs` admits are sane. -/
theorem Admitted.sane (h : Admitted w path opt len) (hs : w.disk.sectors < W32) :
    (w.disk.mkfsEnv opt).Sane :=
  mkfsEnv_sane hs h.size

/-- The layout that `f_mkfs` writes is an accepted one. -/
theorem Formats.accepted {l : MkfsLayout} (h : Formats w path opt len l)
    (hs : w.disk.sectors < W32) : Accepted (w.disk.mkfsEnv opt) l := by
  obtain ⟨r, hr, hacc⟩ := chooseLayout_accepted (h.sane hs) mkfsStart_roundOk (roundsLeft_lt _)
  rw [h.layout] at hr
  cases hr
  exact hacc l rfl

/-- The end of `f_mkfs`, after the volume was written. -/
theorem fMkfs_finish {l : MkfsLayout} (h : Formats w path opt len l) (hr : w.disk.Reliable)
    (hs : w.disk.sectors < W32) {w₁ : State}
    (hw : Wrote (InRange (w.disk.mkfsEnv opt).bVol (w.disk.mkfsEnv opt).szVol) (w.blanked path) w₁)
    (hf : Formatted (w.disk.mkfsEnv opt) l w₁.disk) (sys : Nat) :
    Returns (if hasBits (w.disk.mkfsEnv opt).fsopt FM_SFD then pure .ok
      else createPartition [(w.disk.mkfsEnv opt).szVol, 0] sys) w₁ fun r w' => r = .ok ∧
        MkfsPost w path opt len .ok w' := by
  have he := h.sane hs
  have hl := h.accepted hs
  have hsec := hw.sectors
  rw [State.blanked_disk] at hsec
  have hpost : ∀ w', Wrote (w.disk.mkfsEnv opt).Touched (w.blanked path) w' →
      Formatted (w.disk.mkfsEnv opt) l w'.disk →
      w'.disk.volumeSector = some (w.disk.mkfsEnv opt).bVol → MkfsPost w path opt len .ok w' := by
    intro w' hw' hf' hv
    refine ⟨hw', ⟨fun _ => ⟨l, h⟩, fun _ => rfl⟩, fun l' hl' => ?_⟩
    have heq := h.layout.symm.trans hl'.layout
    cases heq
    exact ⟨hf', hv⟩
  have hvol := h.size
  rcases mkfsEnv_location h.size with ⟨hsfd, hb, hv⟩ | ⟨hsfd, hb, hv⟩
  · rw [if_pos hsfd, returns_pure]
    refine ⟨rfl, hpost w₁ (hw.mono fun s hs => .inl hs) hf ?_⟩
    rw [hb]
    exact volumeSector_sfd he hl hf hb (by omega)
  · rw [if_neg (by simp [hsfd])]
    refine (createPartition_filled (hw.toKept.reliable (by simpa using hr)) (by omega) hvol
      (by omega)).mono fun r w₂ ⟨hok, nHd, hfill⟩ => ⟨hok, ?_⟩
    have hsec₂ := hfill.sectors
    -- the volume starts after the MBR
    have hsame : ∀ s, N_SEC_TRACK ≤ s → w₂.disk.data s = w₁.disk.data s := fun s hge =>
      hfill.outside s fun hin => by have := hin.2; simp only [N_SEC_TRACK] at hge; omega
    have hbf := hl.bFat
    have hf₂ : Formatted (w.disk.mkfsEnv opt) l w₂.disk :=
      ⟨by rw [hsame _ (by omega), hf.boot], fun h32 => by rw [hsame _ (by omega), hf.info h32],
        fun s h₁ h₂ => by rw [hsame _ (by omega), hf.fats s h₁ h₂],
        fun s h₁ h₂ => by rw [hsame _ (by omega), hf.root s h₁ h₂]⟩
    refine hpost w₂ ((hw.mono fun s hs => .inl hs).trans (hfill.toWrote.mono fun s hs =>
      .inr ⟨hsfd, by have := hs.2; omega⟩)) hf₂ ?_
    rw [hb]
    exact volumeSector_mbr he hl hf₂ hb (by omega) (hfill.inside 0 (by omega) (by omega))

/-- `f_mkfs` on a reliable drive. -/
theorem fMkfs_spec (hr : w.disk.Reliable) (hs : w.disk.sectors < W32) :
    Returns (fMkfs path opt len) w (MkfsPost w path opt len) := by
  rw [fMkfs, returns_bind, returns_get]
  cases hd : getLdnumber w.charSigned path with
  | mk known rest =>
  cases known with
  | false =>
    have hb : w.blanked path = w := by simp [State.blanked, hd]
    have h : MkfsPost w path opt len .invalidDrive (w.blanked path) :=
      .refused (by simp) fun l hl => by simpa [hd] using hl.drive
    rw [hb] at h
    exact returns_pure.2 h
  | true =>
    have hb : (if w.registered then { w with geo := { w.geo with fsType := .none } } else w) =
        w.blanked path := by simp [State.blanked, hd]
    simp only [returns_bind, returns_modify]
    rw [hb]
    have he : mkfsEnv (opt.getD defopt) w.disk.sectors w.disk.blockSize = w.disk.mkfsEnv opt := rfl
    simp only [he, hasBits, diskInitialize, UInt8.zero_and, bne_self_eq_false, Bool.false_eq_true,
      if_false, returns_ite, returns_pure]
    refine ⟨fun h => .refused (by simp) fun l hl => ?_, fun hbuf =>
      ⟨fun h => .refused (by simp) fun l hl => ?_, fun hsize =>
        ⟨fun h => .refused (by simp) fun l hl => ?_, fun htype => ?_⟩⟩⟩
    · have := hl.buffer
      simp only [SS] at *
      omega
    · have := hl.size
      omega
    · have := hl.type
      simp_all [hasBits]
    have hadm : Admitted w path opt len :=
      ⟨by rw [hd], by simp only [SS] at *; omega, by omega,
        by simpa [hasBits, imp_iff_not_or] using htype⟩
    have hsane := hadm.sane hs
    obtain ⟨r, hchoose, -⟩ := chooseLayout_accepted hsane
      (mkfsStart_roundOk : RoundOk (w.disk.mkfsStart opt)) (roundsLeft_lt _)
    rw [returns_bind]
    refine ⟨r, w.blanked path, ?_, ?_⟩
    · rw [loop_layoutRound]
      show (chooseLayout _ 8 (w.disk.mkfsStart opt)).map _ = _
      rw [hchoose]
      rfl
    cases r with
    | error res =>
      have hres := chooseLayout_error hsane mkfsStart_roundOk hchoose
      refine returns_pure.2 (.refused (by simp [hres]) fun l hl => ?_)
      rw [hl.layout] at hchoose
      cases hchoose
    | ok l =>
      have hfor : Formats w path opt len l := ⟨hadm, hchoose⟩
      have hr' : (w.blanked path).disk.Reliable := by simpa using hr
      rw [returns_bind]
      refine (writeVolume_formatted hsane (hfor.accepted hs) (by simp only [SS] at *; omega) hr'
        ?_).mono fun r₁ w₁ hpost => ?_
      · rw [State.blanked_disk]
        rcases mkfsEnv_location hadm.size with ⟨-, hb, hv⟩ | ⟨-, hb, hv⟩ <;> omega
      · obtain ⟨hok, hw, hf⟩ := hpost
        simp only [hok, ne_eq, not_true, if_false]
        have hfin := fMkfs_finish hfor hr hs hw hf (systemId l.fsty (w.disk.mkfsEnv opt).szVol)
        rw [returns_bind]
        refine hfin.mono fun r₂ w₂ hpost => ?_
        obtain ⟨hok₂, hpost⟩ := hpost
        simp only [hok₂, not_true, if_false, diskSync, returns_bind, returns_pure]
        exact hpost

end

/-! ## The mount -/

/-- Mounting a blank filesystem object that is registered. -/
theorem mountVolume_volume {w : State} (hr : w.disk.Reliable) (hreg : w.registered = true)
    (hb : w.geo.fsType = .none) {path rest : List UInt8} {mode : UInt8}
    (hd : getLdnumber w.charSigned path = (true, rest)) :
    Returns (mountVolume path mode) w fun r w' => r.2 = rest ∧ w'.disk.data = w.disk.data ∧
      match w.disk.volumeSector.bind fun b => readBPB (w.disk.data b) b with
      | some g => r.1 = .ok ∧ w'.geo = { g with id := (w.fsid + 1) % 65536 }
      | none => r.1 ≠ .ok := by
  rw [mountVolume, returns_bind, returns_get]
  simp only [hd, returns_ite, returns_pure, returns_bind, returns_modify]
  refine ⟨by simp [hreg], fun _ => ⟨fun h => absurd hb h.1, fun _ => ⟨by simp [diskInitialize],
    fun _ => ⟨by simp [diskInitialize], fun _ => ?_⟩⟩⟩⟩
  refine (mountDrive_spec (w := { w with geo := { w.geo with fsType := .none } })
    hr).mono fun r w₁ hpost => ?_
  obtain ⟨hdata, _, h⟩ := hpost
  exact ⟨trivial, hdata, h⟩

/-- The volume is empty: the root directory is clear, and every cluster is free but the one of the
root directory of FAT32. -/
structure EmptyVolume (g : Geometry) (L : Nat → Sector) : Prop where
  root : g.fsType ≠ .fat32 → ∀ s, g.dirbase ≤ s → s < g.database → L s = Sector.zero
  root32 : g.fsType = .fat32 → g.dirbase = 2 ∧
    ∀ k < g.csize, L (clst2sect g g.dirbase + k) = Sector.zero
  free : ∀ c, g.IsClust c → ¬(g.fsType = .fat32 ∧ c = 2) → g.entry L c = 0
  rootEnd : g.fsType = .fat32 → g.entry L 2 = 0x0FFFFFFF

section
variable {e : MkfsEnv} (he : e.Sane) {l : MkfsLayout} (hl : Accepted e l)

include he hl

/-- The layout that was written mounts as a sound volume inside its partition. -/
theorem Accepted.geometry_sound (hn : l.nClst ≠ 0) :
    (l.geometry e).Sound ∧ (l.geometry e).volEnd ≤ e.bVol + e.szVol := by
  have hb := makeVBR_boot he hl
  have hbpb := hb.readBPB_eq he hl
  rw [if_neg hn] at hbpb
  have htot := hb.totSec he
  have hsys : bpbSystem (makeVBR e l) = l.system e := by
    rw [bpbSystem, hb.fatSz hl, hb.rsvdSecCnt, hb.numFATs, hb.rootEntCnt, MkfsLayout.system,
      hl.szDir]
    split <;> rfl
  have htop := he.top
  have hfits := hl.fits
  have h := (readBPB_some hbpb).sound ⟨by rw [hsys]; simp only [W32] at *; omega,
    by rw [htot]; simp only [W32] at *; omega⟩
  rw [htot] at h
  exact h

omit hl in
/-- The bytes of the first FAT. -/
theorem Formatted.fatByte {d : Disk} (hf : Formatted e l d) {i : Nat} (hi : i < l.szFat * SS) :
    (l.geometry e).fatByte d.data i = if i < SS then makeFatHead l.fsty i else 0 := by
  have hdiv : i / SS < l.szFat := Nat.div_lt_of_lt_mul (by rwa [Nat.mul_comm])
  have hle : l.szFat ≤ l.szFat * e.nFat := Nat.le_mul_of_pos_right _ (by have := he.nFat; omega)
  show d.data (l.bFat + i / SS) (i % SS) = _
  rw [hf.fats _ (Nat.le_add_right _ _) (by omega), fatsContent, Nat.add_sub_cancel_left,
    Nat.mod_eq_of_lt hdiv]
  simp only [SS] at *
  split
  · rw [if_pos (by omega), Nat.mod_eq_of_lt (by omega)]
  · rw [if_neg (by omega)]
    rfl

omit he hl in
/-- The head of a FAT has the two reserved entries, and on FAT32 the one of the root directory. -/
theorem makeFatHead_zero {fsty : FsType} {i : Nat}
    (hi : 12 ≤ i ∨ fsty ≠ .fat32 ∧ 4 ≤ i ∨ fsty = .fat12 ∧ i = 3) : makeFatHead fsty i = 0 := by
  cases fsty with
  | fat32 =>
    simp only [makeFatHead]
    rw [stDword_of_ne (by simp at hi; omega), stDword_of_ne (by simp at hi; omega),
      stDword_of_ne (by simp at hi; omega)]
    rfl
  | fat12 =>
    rcases Decidable.em (i = 3) with rfl | hne
    · decide
    · simp only [makeFatHead]
      rw [stDword_of_ne (by omega)]
      rfl
  | _ =>
    simp only [makeFatHead]
    rw [stDword_of_ne (by simp at hi; omega)]
    rfl

/-- The formatted volume is empty. -/
theorem Formatted.empty {d : Disk} (hf : Formatted e l d) (hn : l.nClst ≠ 0) :
    EmptyVolume (l.geometry e) d.data := by
  obtain ⟨hg, -⟩ := hl.geometry_sound he hn
  have hfsz : (l.geometry e).fsize = l.szFat := rfl
  have hty : (l.geometry e).fsType = l.fsty := rfl
  have hbyte : ∀ i < l.szFat * SS, 12 ≤ i ∨ l.fsty ≠ .fat32 ∧ 4 ≤ i ∨ l.fsty = .fat12 ∧ i = 3 →
      (l.geometry e).fatByte d.data i = 0 := by
    intro i hi h
    rw [hf.fatByte he hi, makeFatHead_zero h]
    exact ite_self 0
  refine ⟨fun h32 s hlo hhi => ?_, fun h32 => ⟨if_pos h32, fun k hk => ?_⟩, fun c hc hne => ?_,
    fun h32 => ?_⟩
  · rw [hg.dirbase h32] at hlo
    rw [hg.database] at hhi
    rw [hty] at h32
    have hr : (l.geometry e).nRootdir / 16 = l.szDir := by
      rw [hl.szDir, if_neg h32]
      exact congrArg (· / 16) (if_neg h32)
    have hcomm : (l.geometry e).nFats * (l.geometry e).fsize = l.szFat * e.nFat := Nat.mul_comm _ _
    rw [hcomm] at hlo hhi
    rw [hr] at hhi
    refine hf.root s hlo ?_
    rw [MkfsLayout.rootSize, if_neg h32]
    exact hhi
  · rw [hty] at h32
    have h2 : (l.geometry e).dirbase = 2 := if_pos h32
    have hcl : (l.geometry e).IsClust 2 := ⟨Nat.le_refl _, by have := hg.entries; omega⟩
    have hdat : (l.geometry e).database = l.bFat + l.szFat * e.nFat := by
      show e.bVol + l.system e = _
      rw [MkfsLayout.system, hl.szDir, if_pos h32, hl.bFat]
      omega
    rw [h2, hg.clst2sect_eq hcl, hdat]
    refine hf.root _ (by omega) ?_
    rw [MkfsLayout.rootSize, if_pos h32]
    have : k < l.pau := hk
    omega
  · have hlt := hc.2
    have h2 := hc.1
    unfold Geometry.entry Geometry.entryOf
    cases hfs : l.fsty with
    | none => exact absurd hfs hl.fsty
    | fat12 =>
      have hin := hg.byte12 (hty.trans hfs) hlt
      rw [hfsz] at hin
      rw [hty, hfs]
      simp only [Packed.get12]
      rw [hbyte _ (by omega) (by simp [hfs]; omega), hbyte _ (by omega) (by simp [hfs]; omega)]
      simp
    | fat16 =>
      have hin := hg.byte16 (hty.trans hfs) hlt
      rw [hfsz] at hin
      rw [hty, hfs]
      simp only [Packed.get16]
      rw [hbyte _ (by omega) (by simp [hfs]; omega), hbyte _ (by omega) (by simp [hfs]; omega)]
      simp
    | fat32 =>
      have hin := hg.byte32 (hty.trans hfs) hlt
      rw [hfsz] at hin
      have h3 : c ≠ 2 := fun h => hne ⟨hfs, h⟩
      rw [hty, hfs]
      simp only [Packed.get28, Packed.get32]
      rw [hbyte _ (by omega) (by omega), hbyte _ (by omega) (by omega),
        hbyte _ (by omega) (by omega), hbyte _ (by omega) (by omega)]
      simp
  · have hin := hg.byte32 h32 (c := 2) (by have := hg.entries; omega)
    rw [hfsz] at hin
    unfold Geometry.entry Geometry.entryOf
    rw [h32]
    rw [hty] at h32
    simp only [Packed.get28, Packed.get32]
    rw [hf.fatByte he (by omega), hf.fatByte he (by omega), hf.fatByte he (by omega),
      hf.fatByte he (by omega), h32]
    decide

end

/-- What `f_mkfs` is for. It returns, writes only to the volume that it lays out and the MBR, and
after a success every mount of the drive finds the chosen layout and an empty volume. -/
def FormatMounts (w : State) (path : List UInt8) (opt : Option MKFS_PARM) (len : Option Nat) :
    Prop :=
  Returns (fMkfs path opt len) w fun r w' =>
    Wrote (w.disk.mkfsEnv opt).Touched (w.blanked path) w' ∧
    (r = .ok → ∃ l, chooseLayout (w.disk.mkfsEnv opt) 8 (w.disk.mkfsStart opt) = some (.ok l) ∧
      ∀ v drive rest mode, v.disk = w'.disk → v.registered = true → v.geo.fsType = .none →
        getLdnumber v.charSigned drive = (true, rest) →
        Returns (mountVolume drive mode) v fun r' v' => r' = (.ok, rest) ∧
          v'.geo = { l.geometry (w.disk.mkfsEnv opt) with id := v'.geo.id } ∧
          EmptyVolume v'.geo v'.logical)

section
variable {w : State} {path : List UInt8} {opt : Option MKFS_PARM} {len : Option Nat}

/-- The format chooses a layout without clusters exactly for a FAT12 volume that the alignment of
the data area fills up. -/
theorem Formats.nClst_zero {l : MkfsLayout} (h : Formats w path opt len l)
    (hs : w.disk.sectors < W32) :
    l.nClst = 0 ↔ hasBits (w.disk.mkfsEnv opt).fsopt FM_FAT = true ∧
      FilledUp (w.disk.mkfsEnv opt) (fat12Au (w.disk.mkfsEnv opt) (mkfsAu (opt.getD defopt))) := by
  have he := h.sane hs
  have hlay := h.layout
  have hemp : l.nClst = 0 ↔ Empties (w.disk.mkfsEnv opt) 8 (w.disk.mkfsStart opt) := by
    refine ⟨fun h0 => ⟨l, hlay, h0⟩, fun ⟨l', hl', h0⟩ => ?_⟩
    rw [hlay] at hl'
    cases hl'
    exact h0
  rw [hemp]
  cases hf : hasBits (w.disk.mkfsEnv opt).fsopt FM_FAT with
  | true =>
    have hst : w.disk.mkfsStart opt = (.fat16, mkfsAu (opt.getD defopt)) := by
      rw [Disk.mkfsStart, hf]
      rfl
    rw [hst, empties_iff he (mkfsAu_isAu _) 6]
    exact ⟨fun h => ⟨rfl, h⟩, fun h => h.2⟩
  | false =>
    have h32 : (w.disk.mkfsStart opt).1 = .fat32 := by
      rw [Disk.mkfsStart, hf]
      rfl
    exact ⟨fun h => absurd h (not_empties_fat32 he mkfsStart_roundOk h32), fun h => by
      have := h.1
      cases this⟩

/-- `f_mkfs` keeps the signedness of `char`. -/
theorem MkfsPost.charSigned {r : FRESULT} {w' : State} (h : MkfsPost w path opt len r w') :
    w'.charSigned = w.charSigned := by
  have := h.wrote.charSigned
  unfold State.blanked at this
  split at this <;> exact this

/-- `f_mkfs` keeps a reliable device reliable. -/
theorem MkfsPost.reliable {r : FRESULT} {w' : State} (h : MkfsPost w path opt len r w')
    (hr : w.disk.Reliable) : w'.disk.Reliable :=
  h.wrote.toKept.reliable (by rwa [State.blanked_disk])

/-- A mount after the format analyses the boot sector that the format wrote. -/
theorem MkfsPost.mount {r : FRESULT} {w' : State} (h : MkfsPost w path opt len r w')
    (hr : w.disk.Reliable) (hs : w.disk.sectors < W32) {l : MkfsLayout}
    (hl : Formats w path opt len l) {v : State} (hd : v.disk = w'.disk)
    (hreg : v.registered = true) (hb : v.geo.fsType = .none) {drive rest : List UInt8}
    {mode : UInt8} (hv : getLdnumber v.charSigned drive = (true, rest)) :
    Returns (mountVolume drive mode) v fun r' v' => r'.2 = rest ∧ v'.disk.data = w'.disk.data ∧
      if l.nClst = 0 then r'.1 ≠ .ok
      else r'.1 = .ok ∧
        v'.geo = { l.geometry (w.disk.mkfsEnv opt) with id := (v.fsid + 1) % 65536 } := by
  obtain ⟨hf, hvol⟩ := h.formatted l hl
  have hbpb : (v.disk.volumeSector.bind fun b => readBPB (v.disk.data b) b) =
      if l.nClst = 0 then none else some (l.geometry (w.disk.mkfsEnv opt)) := by
    rw [hd, hvol, Option.bind_some, hf.boot]
    exact (makeVBR_boot (hl.sane hs) (hl.accepted hs)).readBPB_eq (hl.sane hs) (hl.accepted hs)
  have hvr : v.disk.Reliable := by
    rw [hd]
    exact h.reliable hr
  refine (mountVolume_volume hvr hreg hb hv).mono fun r' v' ⟨hrest, hdata, hm⟩ => ?_
  rw [hbpb] at hm
  refine ⟨hrest, by rw [hdata, hd], ?_⟩
  split at hm
  · rename_i g hg
    split at hg
    · cases hg
    · cases hg
      rw [if_neg ‹_›]
      exact hm
  · rename_i hg
    split at hg
    · rw [if_pos ‹_›]
      exact hm
    · cases hg

/-- A format that fills the volume up cannot be mounted. -/
theorem FormatMounts.not_filledUp (hr : w.disk.Reliable) (hs : w.disk.sectors < W32)
    (h : FormatMounts w path opt len) : ¬(Admitted w path opt len ∧
      hasBits (w.disk.mkfsEnv opt).fsopt FM_FAT = true ∧
      FilledUp (w.disk.mkfsEnv opt) (fat12Au (w.disk.mkfsEnv opt) (mkfsAu (opt.getD defopt)))) := by
  rintro ⟨hadm, hfat, hfill⟩
  have hst : w.disk.mkfsStart opt = (.fat16, mkfsAu (opt.getD defopt)) := by
    rw [Disk.mkfsStart, hfat]
    rfl
  obtain ⟨l, hlay, h0⟩ := (empties_iff (hadm.sane hs) (mkfsAu_isAu _) 6).2 hfill
  rw [← hst] at hlay
  have hl : Formats w path opt len l := ⟨hadm, hlay⟩
  obtain ⟨r, w', hm, ⟨-, hmount⟩, hpost⟩ := Returns.and h (fMkfs_spec hr hs)
  obtain ⟨l', -, hall⟩ := hmount (hpost.ok_iff.2 ⟨l, hl⟩)
  cases hd : getLdnumber w.charSigned path with
  | mk known rest =>
  have hk := hadm.drive
  rw [hd] at hk
  cases hk
  -- the object registered on the formatted drive
  let v : State := { w' with registered := true, geo := { w'.geo with fsType := .none } }
  have hv : getLdnumber v.charSigned path = (true, rest) := by
    show getLdnumber w'.charSigned path = _
    rw [hpost.charSigned, hd]
  obtain ⟨r', v', hm', ⟨hok, -⟩, -, -, hno⟩ := (hall v path rest 0 rfl rfl rfl hv).and
    (hpost.mount hr hs hl (v := v) rfl rfl rfl hv)
  rw [if_pos h0, hok] at hno
  exact hno rfl

/-- A format does what it is for exactly unless it fills up a FAT12 volume. -/
theorem fMkfs_mounts_iff (hr : w.disk.Reliable) (hs : w.disk.sectors < W32) :
    FormatMounts w path opt len ↔ ¬(Admitted w path opt len ∧
      hasBits (w.disk.mkfsEnv opt).fsopt FM_FAT = true ∧
      FilledUp (w.disk.mkfsEnv opt) (fat12Au (w.disk.mkfsEnv opt) (mkfsAu (opt.getD defopt)))) := by
  refine ⟨fun h => h.not_filledUp hr hs, fun h => ?_⟩
  refine (fMkfs_spec hr hs).mono fun r w' hpost => ⟨hpost.wrote, fun hok => ?_⟩
  obtain ⟨l, hl⟩ := hpost.ok_iff.1 hok
  have hne : l.nClst ≠ 0 := fun h0 => h ⟨hl.toAdmitted, (hl.nClst_zero hs).1 h0⟩
  refine ⟨l, hl.layout, fun v drive rest mode hd hreg hb hv => ?_⟩
  refine ((hpost.mount hr hs hl hd hreg hb hv).and_ensures (mountVolume_clean hb drive mode)).mono
    fun r' v' ⟨⟨hrest, hdata, hm⟩, hclean⟩ => ?_
  rw [if_neg hne] at hm
  obtain ⟨hok', hgeo⟩ := hm
  have hlog : v'.logical = w'.disk.data := by
    funext s
    rw [State.logical, hclean hok', if_neg (by simp), hdata]
  have hemp := (hpost.formatted l hl).1.empty (hl.sane hs) (hl.accepted hs) hne
  refine ⟨Prod.ext hok' hrest, by rw [hgeo], ?_⟩
  rw [hgeo, hlog]
  exact ⟨hemp.root, hemp.root32, hemp.free, hemp.rootEnd⟩

end

/-- A drive of `n` blank sectors. -/
def blankDisk (n : Nat) : Disk := ⟨n, fun _ => Sector.zero, 1, fun _ => false, []⟩

/-- The default format of a drive of 4096 sectors can be mounted. -/
theorem fMkfs_mounts_default :
    FormatMounts (registeredOn (blankDisk 4096)) [] none (some 512) := by
  refine (fMkfs_mounts_iff (fun _ => rfl) (by decide)).2 fun h => ?_
  have hrest := h.2.2.rest
  revert hrest
  decide +kernel

/-- The format of a drive of 128 sectors with an alignment of 128 sectors succeeds, but the drive
cannot be mounted then. -/
theorem fMkfs_unmountable :
    (fMkfs [] (some ⟨FM_FAT ||| FM_SFD, 1, 128, 512, 0⟩) (some 512)
      (registeredOn (blankDisk 128))).map (·.1) = some .ok ∧
    (((fMkfs [] (some ⟨FM_FAT ||| FM_SFD, 1, 128, 512, 0⟩) (some 512)
      (registeredOn (blankDisk 128))).bind fun p => mountVolume [] 0 p.2).map (·.1)) =
        some (.noFilesystem, []) ∧
    ¬FormatMounts (registeredOn (blankDisk 128)) []
      (some ⟨FM_FAT ||| FM_SFD, 1, 128, 512, 0⟩) (some 512) := by
  refine ⟨by decide +kernel, by decide +kernel, fun h =>
    h.not_filledUp (fun _ => rfl) (by decide) ?_⟩
  exact ⟨⟨by decide, by decide, by decide, by decide⟩, by decide, by decide +kernel,
    by decide +kernel, by decide +kernel, by decide +kernel⟩

end FatFs
