import FatFs.Fat.Record
import FatFs.Store.Acts

/-!
# Durability

`f_sync` on a file that is marked as modified leaves the window clean, so the device alone has the
volume then. The boot sector stays in a run (`Frozen`), and a later mount of the device finds the
volume again with every file that is not marked as modified, at its path and with its bytes
(`runActs_durable`).
-/

namespace FatFs

open Run

/-- The volume was mounted from the device `d`: its boot sector is found there, and what a run
leaves alone is as on `d`. -/
structure MountedFrom (g : Geometry) (d : Disk) (w : State) : Prop where
  frozen : Frozen g d w
  found : d.volumeSector = some g.volbase
  bpb : readBPB (d.data g.volbase) g.volbase = some { g with id := 0 }
  alone : g.Alone d

/-- The volume has a file with these bytes at the path. -/
def HasFile (g : Geometry) (L : Nat → Sector) (signed : Bool) (path : List UInt8)
    (bytes : List UInt8) : Prop :=
  ∃ rest q cs, getLdnumber signed path = (true, rest) ∧ PathTo g L signed rest q ∧
    IsFile g L (q.clst g L) (ldDword (L q.sect) (q.dptr % SS + DIR_FileSize)) cs ∧
    g.content L cs (ldDword (L q.sect) (q.dptr % SS + DIR_FileSize)) = bytes

/-! ## The number of the mount -/

section
variable {g : Geometry} {L : Nat → Sector} (n : Nat)

/-- The tables do not depend on the mount ID. -/
theorem Table.withId {p : Pos} {ps : List Pos} (h : Table g L p ps) :
    Table { g with id := n } L p ps := by
  induction h with
  | terminator h0 => exact .terminator h0
  | last hne hn => exact .last hne hn
  | entry hne hn _ ih => exact .entry hne hn ih

/-- The paths do not depend on the mount ID. -/
theorem Leads.withId {signed : Bool} {c par : Nat} {path fn : List UInt8}
    (h : Leads g L signed c path par fn) : Leads { g with id := n } L signed c path par fn := by
  induction h with
  | last hn hlast => exact .last hn hlast
  | into hn hlast ht hf hdir _ ih => exact .into hn hlast (ht.withId n) hf hdir ih

/-- The number that a mount gives the volume does not matter for its content. -/
theorem HasFile.withId {signed : Bool} {path bytes : List UInt8}
    (h : HasFile g L signed path bytes) :
    HasFile { g with id := n } L signed path bytes := by
  obtain ⟨rest, q, cs, hl, ⟨par, fn, ps, hp, ht, hf⟩, hfile, hb⟩ := h
  exact ⟨rest, q, cs, hl, ⟨par, fn, ps, hp.withId n, ht.withId n, hf⟩,
    ⟨⟨hfile.chain, hfile.clust, hfile.start⟩, hfile.length⟩, hb⟩

end

/-! ## What a run leaves alone -/

section
variable {g : Geometry} (hg : g.Sound) {w w' : State} {fp : FIL} {cs : List Nat}

include hg

/-- The file object of a file of the volume is placed. -/
theorem FIL.Holds.safe (h : fp.Holds g w cs) (hd : g.InArea fp.dirSect) : fp.Safe g g.InArea := by
  refine fun _ _ => ⟨hd, fun _ hne => ?_⟩
  have hpos : 0 < fp.fptr := Nat.pos_of_ne_zero fun hz => hne (by rw [hz, Nat.zero_mod])
  have hc := h.clust hpos
  have hmod : fp.fptr % (g.csize * SS) ≠ 0 := fun hz => hne (Nat.mod_eq_zero_of_dvd
    (Nat.dvd_trans (Nat.dvd_mul_left SS g.csize) (Nat.dvd_of_mod_eq_zero hz)))
  rw [pred_div_of_mod hmod] at hc
  rw [h.sect hne]
  exact (hg.sectAt_inClust hc).inArea hg (h.file.clust _ (List.mem_of_getElem? hc))

variable {A : Nat → Prop} {I : State → Prop} (hI : Closed g A I)

include hI

/-- A call on a file keeps a closed property. -/
theorem FIL.call_closed (hw : I w) (hp : fp.Safe g A) (op : Op) :
    Ensures (fp.call op) w fun r w' => I w' ∧ r.2.Safe g A := by
  cases op with
  | read btr =>
    rw [FIL.call, ensures_bind]
    exact (fRead_closed hg hI hw hp btr).mono fun r w' h => ensures_pure.2 h
  | write buff =>
    rw [FIL.call, ensures_bind]
    exact (fWrite_closed hg hI hw hp buff).mono fun r w' h => ensures_pure.2 h
  | lseek ofs =>
    rw [FIL.call, ensures_bind]
    exact (fLseek_closed hg hI hw hp ofs).mono fun r w' h => ensures_pure.2 h
  | truncate =>
    rw [FIL.call, ensures_bind]
    exact (fTruncate_closed hg hI hw hp).mono fun r w' h => ensures_pure.2 h
  | sync =>
    rw [FIL.call, ensures_bind]
    exact (fSync_closed hg hI hw hp).mono fun r w' h => ensures_pure.2 h

/-- An act on a file keeps a closed property. -/
theorem FIL.act_closed (hw : I w) (hp : fp.Safe g A) (path : List UInt8) (act : FileAct) :
    Ensures (fp.act path act) w fun r w' => I w' ∧ r.2.Safe g A := by
  cases act with
  | op op => exact FIL.call_closed hg hI hw hp op
  | «open» mode =>
    rw [FIL.act, ensures_bind]
    exact (fOpen_closed hg hI hw fp path mode).mono fun r w' h => ensures_pure.2 h
  | close =>
    rw [FIL.act, ensures_bind]
    exact (fClose_closed hg hI hw hp).mono fun r w' h => ensures_pure.2 h

/-- Runs keep every closed property. -/
theorem runActs_closed {ι : Type} [DecidableEq ι] (paths : ι → List UInt8)
    (acts : List (ι × FileAct)) {files : ι → FIL} (hw : I w) (hp : ∀ i, (files i).Safe g A) :
    Ensures (runActs paths acts files) w fun r w' => I w' ∧ ∀ i, (r.2 i).Safe g A := by
  induction acts generalizing w files with
  | nil => exact ensures_pure.2 ⟨hw, hp⟩
  | cons a acts ih =>
    obtain ⟨i, act⟩ := a
    rw [runActs, ensures_bind]
    refine (FIL.act_closed hg hI hw (hp i) (paths i) act).mono fun r w₁ hpost => ?_
    rw [ensures_bind]
    refine (ih hpost.1 fun j => ?_).mono fun rs w₂ hpost => ensures_pure.2 hpost
    by_cases hj : j = i
    · subst hj
      rw [Function.update_self]
      exact hpost.2
    · rw [Function.update_of_ne hj]
      exact hp j

end

/-! ## The mount -/

/-- Mounting the device again, with nothing left of the module's own state, finds the volume as it
was. -/
theorem MountedFrom.remount {g : Geometry} (hg : g.Sound) {d : Disk} {w v : State}
    (h : MountedFrom g d w) (hclean : w.wflag = false) (hdisk : v.disk = w.disk)
    (hreg : v.registered = true) (hblank : v.geo.fsType = .none) {drive rest : List UInt8}
    (hdrive : getLdnumber v.charSigned drive = (true, rest)) (mode : UInt8) :
    Returns (mountVolume drive mode) v fun r v' => r = (.ok, rest) ∧
      v'.logical = w.logical ∧ v'.charSigned = v.charSigned ∧ ∃ n, v'.geo = { g with id := n } := by
  have hrel : v.disk.Reliable := by
    rw [hdisk]
    exact h.frozen.inv.reliable
  have hdata : ∀ s, ¬g.Volatile s → w.disk.data s = d.data s := fun s hs => by
    rw [← logical_of_clean hclean s]
    exact h.frozen.content s hs
  have hfound : v.disk.volumeSector = some g.volbase := by
    rw [hdisk]
    exact volumeSector_frozen hg h.alone h.found h.frozen.sectors hdata
  have hboot : v.disk.data g.volbase = d.data g.volbase := by
    rw [hdisk]
    exact hdata _ (hg.not_volatile (Nat.le_refl _))
  have hmount : Returns (mountVolume drive mode) v _ := mountVolume_volume hrel hreg hblank hdrive
  refine ((hmount.and_ensures (mountVolume_clean hblank drive mode)).and_ensures
    (mountVolume_host v drive mode)).mono fun r v' hpost => ?_
  obtain ⟨⟨⟨hrest, hd, hm⟩, hc⟩, hhost, -⟩ := hpost
  rw [hfound, Option.bind_some, hboot, h.bpb] at hm
  obtain ⟨hok, hgeo⟩ := hm
  refine ⟨Prod.ext hok hrest, funext fun s => ?_, hhost.charSigned, _, hgeo⟩
  rw [logical_of_clean (hc hok), logical_of_clean hclean, hd, hdisk]

/-- The volume of the two files was mounted from `twoClusters`. -/
theorem twoOpen_mountedFrom {w : State} {a b : FIL}
    (hrun : (mountVolume [] 0 >>= fun _ => twoOpen) (registeredOn twoClusters) = some ((a, b), w)) :
    MountedFrom w.geo twoClusters w := by
  have h : (mountVolume [] 0 (registeredOn twoClusters)).map (fun r => (r.1, r.2.geo)) =
      some ((.ok, []), ⟨.fat12, 2, 16, 1, 126, 1, 0, 1, 3, 4, 1⟩) := by
    decide +kernel
  obtain ⟨⟨r, w₀⟩, hm, h⟩ := Option.map_eq_some_iff.1 h
  simp only [Prod.mk.injEq] at h
  obtain ⟨rfl, hgeo⟩ := h
  have hsound : twoClusters.MountsSound :=
    Disk.mountsSound_of (b := 0) (by decide +kernel) (by decide +kernel) (by decide +kernel)
  have hjust : Session.JustMounted (registeredOn twoClusters) ⟨w₀, fun _ => {}, fun _ => {}⟩ :=
    ⟨fun _ => rfl, show 128 < W32 by decide, hsound, rfl, ⟨[], 0, [], hm⟩, fun _ h => by cases h⟩
  have hg : w₀.geo.Sound := hjust.inv.1
  have hfrozen : Frozen w₀.geo twoClusters w₀ := hjust.frozen .refl
  have hopen : ∀ fp path mode, Keeps (Frozen w₀.geo twoClusters) (fOpen fp path mode) :=
    fun fp path mode w hw =>
      (fOpen_closed hg (frozen_closed hg) hw fp path mode).mono fun _ _ h => h.1
  have hkeep : Keeps (Frozen w₀.geo twoClusters) twoOpen :=
    .bind (hopen _ _ _) fun _ => .bind (hopen _ _ _) fun _ => .pure _
  rw [bind_apply_of_some hm] at hrun
  have hf := hkeep w₀ hfrozen _ _ hrun
  have hwg : w.geo = w₀.geo := hf.inv.geo
  rw [hwg]
  refine ⟨hf, ?_, ?_, .inl (by rw [hgeo])⟩
  · rw [hgeo]
    decide +kernel
  · rw [hgeo]
    decide +kernel

section
variable {ι : Type} [DecidableEq ι] {g : Geometry} (hg : g.Sound) {w : State} {home : ι → Pos}
  {paths : ι → List UInt8} {files : ι → FIL} {chains : ι → List Nat}

omit [DecidableEq ι] in
/-- A file that is closed or not marked as modified is at its path. -/
theorem Shelved.hasFile (h : Shelved g w home paths files chains) {j : ι}
    (hj : hasBits (standing g w.logical home files j).flag FA_MODIFIED = false) :
    HasFile g w.logical w.charSigned (paths j) ((shelf g w home files chains).docs j).bytes := by
  obtain ⟨rest, hl, hto⟩ := h.path j
  obtain ⟨hs, hp⟩ := h.standing_place j
  obtain ⟨hsc, hsz⟩ := (h.tree.record j hj).shadow hs hp
  have hfile := (h.tree.holds j).file
  rw [← hsc, ← hsz] at hfile
  refine ⟨rest, home j, chains j, hl, hto, hfile, ?_⟩
  change g.content w.logical (chains j) (FIL.shadow g w.logical (home j)).objsize =
    g.content w.logical (chains j) (standing g w.logical home files j).objsize
  rw [hsz]

include hg

omit [DecidableEq ι] in
/-- The file objects of the shelf store in the data area only. -/
theorem Shelved.safe (h : Shelved g w home paths files chains) (i : ι) :
    (files i).Safe g g.InArea := by
  intro hfs
  have hi : standing g w.logical home files i = files i := by
    unfold standing
    rw [if_pos hfs]
  have hh := h.tree.holds i
  have ha := h.tree.area i
  rw [hi] at hh ha
  exact hh.safe hg ha hfs

omit hg in
/-- A sync does not change what the files hold. -/
theorem Shelf.Step.sync_docs {b : Nat} {readOnly : ι → Bool} {v v' : Shelf ι} {i : ι} {r : Reply}
    (h : v.Step b readOnly i (.op .sync) r v') : v'.docs = v.docs := by
  cases h with
  | op _ hs => rw [hs.sync_eq]
  | noOp => rfl

/-- `f_sync` on a file that is marked as modified. -/
theorem Shelved.sync (h : Shelved g w home paths files chains) {d : Disk} (hm : MountedFrom g d w)
    {i : ι} (hfs : (files i).fs = true) (hmark : hasBits (files i).flag FA_MODIFIED = true) :
    Returns (fSync (files i)) w fun r w' => r.1 = .ok ∧ MountedFrom g d w' ∧ w'.wflag = false ∧
      w'.charSigned = w.charSigned ∧ ∃ chains',
        Shelved g w' home paths (Function.update files i r.2) chains' ∧
        hasBits r.2.flag FA_MODIFIED = false ∧ r.2.fs = true ∧
        (shelf g w' home (Function.update files i r.2) chains').docs =
        (shelf g w home files chains).docs := by
  have hi : standing g w.logical home files i = files i := by
    unfold standing
    rw [if_pos hfs]
  have hh := h.tree.holds i
  have ha := h.tree.area i
  rw [hi] at hh ha
  have hop : Op.sync.Fits := trivial
  have hact := h.op hg i hop
  rw [FIL.act, FIL.call, returns_bind] at hact
  refine (((hact.and_ensures (fSync_store hg h.tree.stable hh ha).ensures).and_ensures
    (fSync_closed hg (frozen_closed hg) hm.frozen (h.safe hg i))).and_ensures
    (fSync_host (files i) w rfl)).mono fun r w' hpost => ?_
  obtain ⟨⟨⟨hacted, hsync⟩, hfrozen, -⟩, hhost, -⟩ := hpost
  obtain ⟨chains', hacted⟩ := returns_pure.1 hacted
  have hfil := hsync.fil
  rw [if_pos hmark] at hfil
  refine ⟨hsync.res, ⟨hfrozen, hm.found, hm.bpb, hm.alone⟩, hsync.clean hmark,
    congrArg Host.charSigned hhost, chains', hacted.shelved, ?_, ?_, hacted.step.sync_docs⟩
  · rw [hfil]
    exact hasBits_unmark _
  · rw [hfil]
    exact hfs

/-- What is synchronised survives. After any run, `f_sync` on a file that is marked as modified
leaves a device from which a later mount has every file that is closed or not marked as modified, at
its path and with its bytes. -/
theorem runActs_durable (h : Shelved g w home paths files chains) {d : Disk}
    (hm : MountedFrom g d w) {acts : List (ι × FileAct)} (hfits : ∀ a ∈ acts, a.2.Fits)
    (hord : Orderly (readOnlyAt w.logical home) (fun i => (files i).fs) acts) :
    Returns (runActs paths acts files) w fun r w₁ => ∃ chains₁,
      (shelf g w home files chains).Run (g.csize * SS) (readOnlyAt w.logical home) acts r.1
        (shelf g w₁ home r.2 chains₁) ∧
      ∀ i, (r.2 i).fs = true → hasBits (r.2 i).flag FA_MODIFIED = true →
        Returns (fSync (r.2 i)) w₁ fun s w₂ => s.1 = .ok ∧
          ∀ v : State, v.disk = w₂.disk → v.registered = true → v.geo.fsType = .none →
            v.charSigned = w.charSigned → ∀ drive rest mode,
            getLdnumber v.charSigned drive = (true, rest) →
            Returns (mountVolume drive mode) v fun m v' => m = (.ok, rest) ∧
              ∀ j, (j = i ∨ (r.2 j).fs = false ∨ hasBits (r.2 j).flag FA_MODIFIED = false) →
                HasFile v'.geo v'.logical v'.charSigned (paths j)
                  ((shelf g w₁ home r.2 chains₁).docs j).bytes := by
  refine ((h.run hg hfits hord).and_ensures
    (runActs_closed hg (frozen_closed hg) paths acts
    hm.frozen (h.safe hg))).mono fun r w₁ hpost => ?_
  obtain ⟨⟨chains₁, hsh, hrun, hhost⟩, hfrozen, -⟩ := hpost
  refine ⟨chains₁, hrun, fun i hfs hmark => ?_⟩
  have hm₁ : MountedFrom g d w₁ := ⟨hfrozen, hm.found, hm.bpb, hm.alone⟩
  refine (hsh.sync hg hm₁ hfs hmark).mono fun s w₂ hpost => ?_
  obtain ⟨hok, hm₂, hclean, hsig, chains₂, hsh₂, hunmarked, hopen, hdocs⟩ := hpost
  refine ⟨hok, fun v hdisk hreg hblank hv drive rest mode hdrive => ?_⟩
  refine (hm₂.remount hg hclean hdisk hreg hblank hdrive mode).mono fun m v' hpost => ?_
  obtain ⟨hres, hlog, hsig', n, hgeo⟩ := hpost
  refine ⟨hres, fun j hj => ?_⟩
  have hfile : HasFile g w₂.logical w₂.charSigned (paths j)
      ((shelf g w₂ home (Function.update r.2 i s.2) chains₂).docs j).bytes := by
    refine hsh₂.hasFile ?_
    unfold standing
    by_cases he : j = i
    · subst he
      rw [Function.update_self, if_pos hopen]
      exact hunmarked
    · rw [Function.update_of_ne he]
      split
      · rename_i hjs
        rcases hj with hj | hj | hj
        · exact absurd hj he
        · exact absurd (hj.symm.trans hjs) Bool.false_ne_true
        · exact hj
      · exact FIL.shadow_flag
  rw [hgeo, hlog, hsig', hv,
    ← show w₁.charSigned = w.charSigned from congrArg Host.charSigned hhost, ← hsig, ← hdocs]
  exact hfile.withId n

end

/-- The hypotheses are met by the two files, when `A` is opened and written. -/
theorem runActs_durable_pair : ∃ w a b, (mountVolume [] 0 >>= fun _ => twoOpen)
      (registeredOn twoClusters) = some ((a, b), w) ∧
    Returns (runActs pairPaths [(true, .open FA_WRITE), (true, .op (.write [1]))] fun _ => {}) w
      fun r w₁ => ∃ chains₁,
        (shelf w.geo w pairHome (fun _ => {}) pairChains).Run (w.geo.csize * SS)
          (readOnlyAt w.logical pairHome) [(true, .open FA_WRITE), (true, .op (.write [1]))] r.1
          (shelf w.geo w₁ pairHome r.2 chains₁) ∧
        ∀ i, (r.2 i).fs = true → hasBits (r.2 i).flag FA_MODIFIED = true →
          Returns (fSync (r.2 i)) w₁ fun s w₂ => s.1 = .ok ∧
            ∀ v : State, v.disk = w₂.disk → v.registered = true → v.geo.fsType = .none →
              v.charSigned = w.charSigned → ∀ drive rest mode,
              getLdnumber v.charSigned drive = (true, rest) →
              Returns (mountVolume drive mode) v fun m v' => m = (.ok, rest) ∧
                ∀ j, (j = i ∨ (r.2 j).fs = false ∨ hasBits (r.2 j).flag FA_MODIFIED = false) →
                  HasFile v'.geo v'.logical v'.charSigned (pairPaths j)
                    ((shelf w.geo w₁ pairHome r.2 chains₁).docs j).bytes := by
  obtain ⟨w, a, b, hrun, hg, hsh, hro⟩ := twoOpen_shelved
  have hfits : ∀ a ∈ [(true, FileAct.open FA_WRITE), (true, .op (.write [1]))], a.2.Fits := by
    simp [FileAct.Fits, Op.Fits, W32, accessModes]
  have hord : Orderly (readOnlyAt w.logical pairHome) (fun _ => false)
      [(true, FileAct.open FA_WRITE), (true, .op (.write [1]))] := by
    simp [Orderly, FileAct.after, hro]
  exact ⟨w, a, b, hrun, runActs_durable hg hsh (twoOpen_mountedFrom hrun) hfits hord⟩

end FatFs
