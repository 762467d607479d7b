import FatFs.Access.ReadOnly
import FatFs.Total.Calls

/-!
# Runs on any image

The results about whole runs from the image of a fuzzing input: every call returns, and the window
is a coherent write-back cache whenever a call has returned. Between the calls of one function the
window functions work under the same invariant (`WindowKept`), except in `f_write` between the
re-pointing of the window to the growing edge and the store behind it.
-/

namespace FatFs

open Run

/-- The device after an image was loaded: 128 sectors, zero behind the image. Source:
`fuzz_disk_load` (`diskio_fuzz.c:12`). -/
def fuzzDisk (image : List UInt8) : Disk where
  sectors := 128
  data := fun s i => if s < 128 ∧ i < SS then image.getD (s * SS + i) 0 else 0
  blockSize := 1
  fault := fun _ => false
  log := []

/-- The session of a program that starts on a device. -/
def Session.start (d : Disk) (charSigned : Bool) (files : Nat → FIL) (dirs : Nat → DIR) : Session :=
  ⟨State.initial d charSigned, files, dirs⟩

theorem Session.start_ready {d : Disk} (hr : d.Reliable) (hs : d.sectors < W32) (charSigned : Bool)
    (files : Nat → FIL) (dirs : Nat → DIR) : (Session.start d charSigned files dirs).w.Ready :=
  ⟨hr, hs, fun h => absurd rfl h⟩

/-- An image of a plain volume of 128 sectors. -/
def plainImage : List UInt8 := (List.range 512).map ((bootImage 128 plainBoot).data 0)

theorem plainImage_mountsSound : (fuzzDisk plainImage).MountsSound :=
  Disk.mountsSound_of (b := 0) (by decide +kernel) (by decide +kernel) (by decide +kernel)

/-- The program that starts on the image with no object open. -/
def plainStart : Session := Session.start (fuzzDisk plainImage) true (fun _ => {}) fun _ => {}

/-- What the functions that touch the window do while a volume with geometry `g` is mounted, from
every state with the window invariant: on success and on failure the invariant holds again. -/
structure WindowKept (g : Geometry) : Prop where
  /-- `move_window` shows the logical content and changes it in the second FAT at most. -/
  move : ∀ w, Inv g w → ∀ s, Returns (moveWindow s) w fun r w' => Inv g w' ∧
    (∀ t, ¬g.InFat2 t → w'.logical t = w.logical t) ∧
    (r = .ok → s < w.disk.sectors → w'.win = w'.logical s)
  /-- `sync_window` makes the device equal to the logical content. -/
  sync : ∀ w, Inv g w → Returns syncWindow w fun r w' => Inv g w' ∧
    (r = .ok → ∀ s, w'.disk.data s = w'.logical s ∧
      (¬g.InFat2 s → w'.disk.data s = w.logical s))
  /-- A direct read of `f_read` delivers the logical content of its sectors. -/
  read : ∀ w, Inv g w → ∀ sect cc, sect + cc ≤ W32 → Inv g (w.note (.read sect cc)) ∧
    overlay (fun k => w.disk.data (sect + k)) w.wflag w.win (sub32 w.winsect sect) cc =
      (List.range (SS * cc)).map fun i => w.logical (sect + i / SS) (i % SS)
  /-- A direct write of `f_write`. -/
  write : ∀ w, Inv g w → ∀ buff sect cc, 0 < cc → sect + cc ≤ W32 →
    Returns (writeDirect buff sect cc) w (DirectWrite g w buff sect cc)
  /-- The growing edge of `f_write` with the store behind it. -/
  edge : ∀ w, Inv g w → ∀ fp sect, g.InArea sect → ∀ buff bw,
    Returns (do
      if (← growEdge fp sect) ≠ .ok then return .inr (.diskErr, fp.abort .diskErr, bw)
      else writeWindow { fp with sect := sect } buff bw) w fun _ w' => Inv g w'
  /-- `dir_clear`. -/
  clear : ∀ w, Inv g w → ∀ c, g.IsClust c → Returns (dirClear c) w fun _ w' => Inv g w'
  /-- `sync_fs` with the FSInfo record. -/
  info : ∀ w, Inv g w → Returns syncFs w fun _ w' => Inv g w'

theorem Geometry.Sound.windowKept {g : Geometry} (hg : g.Sound) : WindowKept g where
  move := fun w hw s => (moveWindow_inv hg hw s).mono fun r w' h =>
    ⟨h.inv, h.same, fun hr hs => h.win hr hs⟩
  sync := fun w hw => (syncWindow_inv hg hw).mono fun r w' h => ⟨h.inv, fun hr s => by
    have hc := logical_of_clean (h.clean hr) s
    exact ⟨hc.symm, fun hs => by rw [← hc, h.same s hs]⟩⟩
  read := fun w hw sect cc hs => ⟨hw.note _, overlay_logical hw.winsect hs⟩
  write := fun w hw buff sect cc hcc hs => writeDirect_inv hw buff hcc hs
  edge := fun w hw fp sect hs buff bw => (growEdge_inv hg hw fp hs buff bw).mono fun r w' h => by
    rcases h with ⟨_, h, _⟩ | ⟨_, h⟩
    · exact h
    · exact h.inv
  clear := fun w hw c hc => (dirClear_inv hg hw hc).mono fun _ _ h => h.inv
  info := fun w hw => (syncFs_inv hg hw).mono fun _ _ h => h.inv

/-- After every call of every run, while a volume is mounted, the window is coherent, and every
function that touches it keeps it so. -/
theorem window_coherent {d : Disk} (hr : d.Reliable) (hsz : d.sectors < W32) (charSigned : Bool)
    (files : Nat → FIL) (dirs : Nat → DIR) {t : Session}
    (h : Reaches (fun u c => c.MountsSound u) (Session.start d charSigned files dirs) t)
    (hm : t.w.geo.fsType ≠ .none) :
    t.w.Coherent ∧ Inv t.w.geo t.w ∧ WindowKept t.w.geo := by
  obtain ⟨hg, hi⟩ := (h.ready (Session.start_ready hr hsz charSigned files dirs)).mounted hm
  exact ⟨hi.coherent, hi, hg.windowKept⟩

/-- The hypotheses are met by a run that mounts a plain volume, creates a file and writes to it. The
window is dirty at the end. -/
theorem window_coherent_plain :
    ∃ t, execAll [.mount true [] 1, .open 0 [0x41] (FA_WRITE ||| FA_CREATE_ALWAYS), .write 0 [0x42]]
        plainStart = some t ∧ t.w.wflag = true ∧
      t.w.Coherent ∧ Inv t.w.geo t.w ∧ WindowKept t.w.geo := by
  have h : ((exec plainStart (.mount true [] 1)).bind fun p =>
      (exec p.2 (.open 0 [0x41] (FA_WRITE ||| FA_CREATE_ALWAYS))).bind fun q =>
      (exec q.2 (.write 0 [0x42])).map fun r => (p.2.w.geo.fsType, q.2.w.geo.fsType, r.2.w.wflag,
        r.2.w.geo.fsType)) = some (.fat12, .fat12, true, .fat12) := by decide +kernel
  obtain ⟨⟨_, s⟩, hs, h⟩ := Option.bind_eq_some_iff.1 h
  obtain ⟨⟨_, t⟩, ht, h⟩ := Option.bind_eq_some_iff.1 h
  obtain ⟨⟨_, u⟩, hu, h⟩ := Option.map_eq_some_iff.1 h
  simp only [Prod.mk.injEq] at h
  obtain ⟨hfs, hft, hflag, hfu⟩ := h
  -- only the first call mounts a volume
  have hopen : (Call.open 0 [0x41] (FA_WRITE ||| FA_CREATE_ALWAYS)).MountsSound s := fun h => by
    simp [hfs] at h
  have hwrite : (Call.write 0 [0x42]).MountsSound t := fun h => by
    simp [hft] at h
  refine ⟨u, ?_, hflag, window_coherent (fun _ => rfl) (show 128 < W32 by decide) true (fun _ => {})
    (fun _ => {}) (.call (.call (.call .refl (fun _ => plainImage_mountsSound) hs) hopen ht)
    hwrite hu) (by rw [hfu]; decide)⟩
  simp only [execAll, hs, ht, hu, Option.bind_some]

/-- The steps of `f_write` up to its last `move_window`, for a file without a cluster on the first
byte. -/
def writeToEdge (fp : FIL) : M (Option (Nat × FRESULT)) := do
  match ← writeClust fp 0 with
  | .ok (some fp) =>
    let sect := clst2sect (← get).geo fp.clust
    let _ ← growEdge fp sect
    let res ← moveWindow sect
    return some (sect, res)
  | _ => return none

/-- A file is created and its first byte written: `move_window` answers `FR_OK` for sector 4, which
is on the device and holds zeros, while the window still holds a byte of the FAT. -/
theorem writeToEdge_stale :
    ∃ t, execAll [.mount true [] 1, .open 0 [0x41] (FA_WRITE ||| FA_CREATE_ALWAYS)] plainStart =
        some t ∧
      ∃ w, writeToEdge (t.files 0) t.w = some (some (4, .ok), w) ∧ 4 < w.disk.sectors ∧
        w.win 3 = 0xFF ∧ w.logical 4 3 = 0 := by
  have h : ((execAll [.mount true [] 1, .open 0 [0x41] (FA_WRITE ||| FA_CREATE_ALWAYS)]
      plainStart).bind fun t => (writeToEdge (t.files 0) t.w).map fun r =>
        (r.1, decide (4 < r.2.disk.sectors), r.2.win 3, r.2.logical 4 3)) =
      some (some (4, .ok), true, 0xFF, 0) := by decide +kernel
  obtain ⟨t, he, ht⟩ := Option.bind_eq_some_iff.1 h
  obtain ⟨⟨r, w⟩, hw, hr⟩ := Option.map_eq_some_iff.1 ht
  simp only [Prod.mk.injEq, decide_eq_true_eq] at hr
  obtain ⟨rfl, h₁, h₂, h₃⟩ := hr
  exact ⟨t, he, w, hw, h₁, h₂, h₃⟩

end FatFs
