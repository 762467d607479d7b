import FatFs.Fat.Info

/-!
# The two copies of the FAT

On a volume with two FATs the device holds two copies of every FAT sector. Only `sync_window` writes
the second one, behind the first, when the window is in the first FAT by an unsigned range test. The
invariant `Mirrored` says that the copies agree on the device and that the dirty window is not in
the second FAT, so a pending change of the first FAT is reflected when it is flushed. It is closed,
hence an invariant of every run (`fats_agree`).
-/

namespace FatFs

open Run

/-- The second FAT on the device is a copy of the first. -/
def Disk.FatsAgree (g : Geometry) (d : Disk) : Prop :=
  ∀ k < g.fsize, d.data (g.fatbase + g.fsize + k) = d.data (g.fatbase + k)

/-- The copies of the FAT agree on the device, and a pending change is not one of the second. -/
structure Paired (g : Geometry) (w : State) : Prop where
  /-- Both copies are on the device. -/
  on : g.fatbase + 2 * g.fsize ≤ w.disk.sectors
  agree : w.disk.FatsAgree g
  dirty : w.wflag = true → ¬g.InFat2 w.winsect

/-- The invariant: the copies agree, and the FSInfo record is not in one of them. -/
structure Mirrored (g : Geometry) (w : State) : Prop where
  info : State.InfoInside g w
  pair : Paired g w

/-- A mirrored state is well formed. -/
theorem Mirrored.inv {g : Geometry} {w : State} (h : Mirrored g w) : Inv g w := h.info.1

section
variable {g : Geometry} (hg : g.Sound) (h2 : g.nFats = 2)

include h2

/-- The second FAT follows the first one. -/
theorem inFat2_iff {s : Nat} :
    g.InFat2 s ↔ g.fatbase + g.fsize ≤ s ∧ s < g.fatbase + 2 * g.fsize := by
  unfold Geometry.InFat2
  rw [h2]
  simp

/-- A write that stays out of both FATs keeps the copies equal. -/
theorem Disk.FatsAgree.of_frame {d d' : Disk} (h : d.FatsAgree g)
    (hd : ∀ s, g.InFat s ∨ g.InFat2 s → d'.data s = d.data s) : d'.FatsAgree g := by
  intro k hk
  rw [hd _ (.inr ((inFat2_iff h2).2 ⟨by omega, by omega⟩)), hd _ (.inl ⟨by omega, by omega⟩)]
  exact h k hk

include hg

/-- A dirty window in the first FAT is written to both copies. -/
theorem syncWindow_mirrors {w : State} (hw : Mirrored g w) : Ensures syncWindow w fun r w' =>
    r = .ok → w.wflag = true → ∀ k < g.fsize, w.winsect = g.fatbase + k →
      w'.disk.data (g.fatbase + k) = w.win ∧ w'.disk.data (g.fatbase + g.fsize + k) = w.win := by
  have hdb := hg.database
  have hdl := hg.database_lt
  rw [h2] at hdb
  rw [syncWindow, ensures_bind, ensures_get, ensures_ite]
  refine ⟨fun _ => ?_, fun hc => ensures_pure.2 fun _ hd => absurd hd hc⟩
  rw [ensures_bind]
  refine (returns_diskWrite.2 ⟨fun _ => ?_, fun _ => ?_⟩).ensures
  · simp only [ensures_ite, ensures_bind, ensures_modify, ensures_pure]
    refine ⟨fun _ => ⟨fun hm => ?_, fun hm _ _ k hk hws => ?_⟩, by simp⟩
    · -- the second write is inside the device, so it is served
      refine (returns_diskWrite.2 ⟨fun _ _ _ k hk hws => ?_, fun hs _ _ k hk hws => ?_⟩).ensures
      · have hadd : add32 w.winsect w.geo.fsize = g.fatbase + g.fsize + k := by
          rw [hw.inv.geo, hws, add32_of_lt (by omega)]
          omega
        rw [hadd, hws]
        simp only [State.store_data, State.note_data]
        refine ⟨?_, ?_⟩
        · rw [if_neg (by omega), if_pos (by omega)]
        · rw [if_pos (by omega)]
      · refine absurd ?_ hs
        have hrel : Disk.Reliable (State.disk
            { (w.note (.write w.winsect 1)).store (fun _ => w.win) w.winsect 1 with
              wflag := false }) :=
          hw.inv.reliable
        rw [hrel.serves, Disk.inBounds_iff, hw.inv.geo, hws, add32_of_lt (by omega)]
        have := hw.pair.on
        simp only [State.store_sectors, State.note_sectors]
        omega
    · refine absurd ⟨?_, by rw [hw.inv.geo]; exact h2⟩ hm
      rw [hw.inv.geo, hws]
      exact hg.sub32_of_inFat ⟨by omega, by omega⟩
  · rw [ensures_ite]
    refine ⟨fun h => ?_, fun _ => ensures_pure.2 (by simp)⟩
    split at h <;> cases h

/-- Flushing the window keeps the copies equal. -/
theorem syncWindow_paired {w : State} (hw : Mirrored g w) :
    Ensures syncWindow w fun r w' => Paired g w' ∧ (r = .ok → w'.wflag = false) := by
  refine ((syncWindow_spec w).ensures.and (syncWindow_mirrors hg h2 hw)).mono
    fun r w' ⟨hp, hm⟩ => ?_
  have hon : g.fatbase + 2 * g.fsize ≤ w'.disk.sectors := by
    rw [hp.kept.sectors]
    exact hw.pair.on
  rcases hp.out with ⟨rfl, hc, hf, -⟩ | ⟨rfl, hd, hd', hdata, -⟩
  · refine ⟨⟨hon, fun k hk => ?_, fun hd => absurd hd (by simp [hc])⟩, fun _ => hc⟩
    have h1 : g.InFat (g.fatbase + k) := ⟨by omega, by omega⟩
    have h2' : g.InFat2 (g.fatbase + g.fsize + k) := (inFat2_iff h2).2 ⟨by omega, by omega⟩
    by_cases hhit : w.wflag = true ∧ w.winsect = g.fatbase + k
    · obtain ⟨hfst, hsnd⟩ := hm rfl hhit.1 k hk hhit.2
      rw [hfst, hsnd]
    · -- neither sector is written
      have hfst : w'.disk.data (g.fatbase + k) = w.disk.data (g.fatbase + k) := by
        rcases hf (g.fatbase + k) with h | ⟨h, _⟩
        · rw [h, State.logical, if_neg fun h => hhit ⟨h.1, h.2.symm⟩]
        · exact absurd (hg.inFat2_of_mirrors hw.inv.geo hw.inv.winsect h) h1.not_inFat2
      have hsnd : w'.disk.data (g.fatbase + g.fsize + k) =
          w.disk.data (g.fatbase + g.fsize + k) := by
        rcases hf (g.fatbase + g.fsize + k) with h | ⟨⟨hd, _, hsub, he⟩, _⟩
        · rw [h, State.logical, if_neg fun h => hw.pair.dirty h.1 (by rw [← h.2]; exact h2')]
        · rw [hw.inv.geo] at hsub he
          have hin := hg.inFat_of_sub32 hw.inv.winsect hsub
          have hdb := hg.database
          have hdl := hg.database_lt
          rw [h2] at hdb
          have := hin.2
          rw [add32_of_lt (by omega)] at he
          exact absurd ⟨hd, by omega⟩ hhit
      rw [hfst, hsnd]
      exact hw.pair.agree k hk
  · refine ⟨⟨hon, fun k hk => by rw [hdata]; exact hw.pair.agree k hk, fun _ => ?_⟩, by simp⟩
    rw [hp.winsect]
    exact hw.pair.dirty hd

/-- `sync_window` writes a sector of the first FAT to the second one too. -/
theorem syncWindow_mirrored : Keeps (Mirrored g) syncWindow :=
  fun w hw => (((infoInside_closed hg).sync w hw.info).and (syncWindow_paired hg h2 hw)).mono
    fun _ _ ⟨h, h'⟩ => ⟨h, h'.1⟩

/-- A move of the window flushes it and shows a sector, clean. -/
theorem moveWindow_mirrored (s : Nat) : Keeps (Mirrored g) (moveWindow s) := by
  intro w hw
  have hpair : Ensures (moveWindow s) w fun _ w' => Paired g w' := by
    rw [moveWindow, ensures_bind, ensures_get, ensures_ite]
    refine ⟨fun _ => ?_, fun _ => ensures_pure.2 hw.pair⟩
    rw [ensures_bind]
    refine (syncWindow_paired hg h2 hw).mono fun r w₁ hpost => ?_
    obtain ⟨h₁, hc⟩ := hpost
    rw [ensures_ite]
    refine ⟨fun hok => ?_, fun _ => ensures_pure.2 h₁⟩
    have hclean : ∀ w' : State, w'.disk.data = w₁.disk.data → w'.disk.sectors = w₁.disk.sectors →
        w'.wflag = w₁.wflag → Paired g w' := fun w' hd hs hf =>
      ⟨by rw [hs]; exact h₁.on, fun k hk => by rw [hd]; exact h₁.agree k hk, fun h => by
        rw [hf, hc hok] at h
        cases h⟩
    rw [ensures_bind]
    refine (returns_diskRead.2 ⟨fun _ => ?_, fun _ => ?_⟩).ensures
    · simp only [ensures_bind, ensures_modify, ensures_pure]
      exact hclean _ rfl rfl rfl
    · simp only [ensures_bind, ensures_modify, ensures_pure]
      exact hclean _ rfl rfl rfl
  refine (((infoInside_closed hg).move s w hw.info).and hpair).mono fun _ _ hpost => ?_
  obtain ⟨h, h'⟩ := hpost
  exact ⟨h, h'⟩

omit hg h2 in
/-- A store to a window that is not in the second FAT. -/
theorem Mirrored.store {w : State} (hw : Mirrored g w) (t : Sector) (hs : ¬g.InFat2 w.winsect) :
    Mirrored g { w with win := t, wflag := true } :=
  ⟨⟨hw.inv.store t, hw.info.2⟩, hw.pair.on, hw.pair.agree, fun _ => hs⟩

/-- A FAT entry is changed in the first FAT. -/
theorem putFat_mirrored (c v : Nat) : Keeps (Mirrored g) (putFat c v) := by
  -- one byte of the FAT: the window is moved to its sector and stored to
  have hstep : ∀ {i : Nat} {w : State}, i < g.fsize * SS → Mirrored g w →
      Ensures (moveWindow (add32 g.fatbase (i / SS))) w fun r w' => Mirrored g w' ∧
        (r = .ok → ∀ t, Mirrored g { w' with win := t, wflag := true }) := by
    intro i w hi hw
    refine ((moveWindow_mirrored hg h2 _ w hw).and (moveFat hg hw.inv hi).ensures).mono
      fun r w' hpost => ?_
    obtain ⟨h, hm⟩ := hpost
    refine ⟨h, fun hr t => h.store t ?_⟩
    rw [hm.winsect hr]
    exact (Geometry.inFat_byte hi).not_inFat2
  intro w hw
  rw [putFat, ensures_bind, ensures_get, ensures_ite, hw.inv.geo]
  refine ⟨fun hc => ?_, fun _ => ensures_pure.2 hw⟩
  cases hf : g.fsType with
  | none => exact ensures_pure.2 hw
  | fat12 =>
    have hb := hg.byte12 hf hc.2
    simp only [ensures_bind, ensures_ite, ensures_pure, modWin, ensures_modify]
    refine (hstep (by omega) hw).mono fun r w₁ hpost => ?_
    obtain ⟨h₁, hs₁⟩ := hpost
    refine ⟨fun _ => h₁, fun hok => ?_⟩
    refine (hstep hb (hs₁ (by simpa using hok) _)).mono fun r₂ w₂ hpost => ?_
    obtain ⟨h₂, hs₂⟩ := hpost
    exact ⟨fun _ => h₂, fun hok₂ => hs₂ (by simpa using hok₂) _⟩
  | fat16 =>
    have hb := hg.byte16 hf hc.2
    have hdiv : c / (SS / 2) = 2 * c / SS := by simp only [SS]; omega
    simp only [ensures_bind, ensures_ite, ensures_pure, modWin, ensures_modify, hdiv]
    refine (hstep (by omega) hw).mono fun r w₁ hpost => ?_
    obtain ⟨h₁, hs₁⟩ := hpost
    exact ⟨fun _ => h₁, fun hok => hs₁ (by simpa using hok) _⟩
  | fat32 =>
    have hb := hg.byte32 hf hc.2
    have hdiv : c / (SS / 4) = 4 * c / SS := by simp only [SS]; omega
    simp only [ensures_bind, ensures_ite, ensures_pure, modWin, ensures_modify, hdiv]
    refine (hstep (by omega) hw).mono fun r w₁ hpost => ?_
    obtain ⟨h₁, hs₁⟩ := hpost
    exact ⟨fun _ => h₁, fun hok => hs₁ (by simpa using hok) _⟩

omit h2 in
/-- The FAT begins on the device. -/
theorem Mirrored.fatbase_lt {w : State} (hw : Mirrored g w) : g.fatbase < w.disk.sectors := by
  have h₁ := hw.pair.on
  have h₂ := hg.fsize_pos
  omega

/-- `create_chain` keeps the copies equal. -/
theorem createChain_mirrored (c : Nat) : Keeps (Mirrored g) (createChain c) := by
  refine createChain_keeps (getFat_keeps (moveWindow_mirrored hg h2)) (putFat_mirrored hg h2)
    (fun w n hw => ?_) c
  have hi := (FatOnly.allocated hw.inv (hw.fatbase_lt hg) n).inv
  unfold State.allocated at hi ⊢
  split at hi
  · rw [if_pos ‹_›]
    exact ⟨⟨hi, hw.info.2.imp_left infoOff_or⟩, hw.pair.on, hw.pair.agree, hw.pair.dirty⟩
  · rw [if_neg ‹_›]
    exact ⟨⟨hi, hw.info.2⟩, hw.pair.on, hw.pair.agree, hw.pair.dirty⟩

/-- `remove_chain` keeps the copies equal. -/
theorem removeChain_mirrored (c p : Nat) : Keeps (Mirrored g) (removeChain c p) := by
  refine removeChain_keeps (getFat_keeps (moveWindow_mirrored hg h2)) (putFat_mirrored hg h2)
    (fun w hw => ?_) c p
  have hi := (FatOnly.freed hw.inv (hw.fatbase_lt hg)).inv
  unfold State.freed at hi ⊢
  split at hi
  · rw [if_pos ‹_›]
    exact ⟨⟨hi, hw.info.2.imp_left infoOff_or⟩, hw.pair.on, hw.pair.agree, hw.pair.dirty⟩
  · rw [if_neg ‹_›]
    exact hw

/-- A direct write that stays in the root directory and the data area. -/
theorem Paired.stored {w : State} (hw : Paired g w) (buff : Nat → Sector) {sect cc : Nat}
    (hs : ∀ k < cc, g.InArea (sect + k)) (a : Access) :
    Paired g ((w.note a).store buff sect cc) := by
  refine ⟨hw.on, hw.agree.of_frame h2 fun s hfat => ?_, hw.dirty⟩
  rw [State.store_data, if_neg fun hin => ?_]
  · rfl
  have harea := hs (s - sect) (by omega)
  rw [Nat.add_sub_cancel' hin.1] at harea
  rcases hfat with hfat | hfat
  · exact hg.not_inArea_of_inFat hfat harea
  · exact harea.not_inFat2 hfat

/-- A write to the data area keeps the copies equal. -/
theorem diskWrite_paired (buff : Nat → Sector) {sect cc : Nat}
    (hs : ∀ k < cc, g.InArea (sect + k)) :
    Keeps (Paired g) (diskWrite buff sect cc) := fun _ hw =>
  (returns_diskWrite.2 ⟨fun _ => hw.stored hg h2 buff hs _, fun _ =>
  ⟨hw.on, hw.agree, hw.dirty⟩⟩).ensures

/-- The direct write of `f_write` keeps the copies equal. -/
theorem writeDirect_paired (buff : List UInt8) {sect cc : Nat}
    (hs : ∀ k < cc, g.InArea (sect + k)) :
    Keeps (Paired g) (writeDirect buff sect cc) := by
  unfold writeDirect
  refine .bind (diskWrite_paired hg h2 _ hs) fun _ => .ite (fun _ => .bind (.modify fun w hw => ?_)
    fun _ => .pure _) fun _ => .pure _
  split
  · exact ⟨hw.on, hw.agree, fun h => by cases h⟩
  · exact hw

omit hg h2 in
/-- A clean window may be anywhere. -/
theorem Paired.repoint {w : State} (hw : Paired g w) (hc : w.wflag = false) (s : Nat) (t : Sector) :
    Paired g { w with geo := g, winsect := s, win := t } :=
  ⟨hw.on, hw.agree, fun h => absurd h (by simp [hc])⟩

/-- `dir_clear` writes to the data area. -/
theorem dirClear_mirrored {c : Nat} (hc : g.IsClust c) : Keeps (Mirrored g) (dirClear c) := by
  intro w hw
  have hpair : Ensures (dirClear c) w fun _ w' => Paired g w' := by
    rw [dirClear, ensures_bind]
    refine ((syncWindow_mirrored hg h2 w hw).and (syncWindow_paired hg h2 hw)).mono
      fun r w₁ hpost => ?_
    obtain ⟨h₁, _, hclean⟩ := hpost
    rw [ensures_ite]
    refine ⟨fun _ => ensures_pure.2 h₁.pair, fun hok => ?_⟩
    have hc₁ : w₁.wflag = false := hclean (by simpa using hok)
    simp only [ensures_bind, ensures_get, ensures_modify, ensures_pure]
    rw [h₁.inv.geo]
    refine Keeps.loop (I := Paired g) (fun n => ?_) _ _ _ (h₁.pair.repoint hc₁ _ _)
    · unfold clearRound
      refine .ite (fun hn => .get fun w _ =>
          .bind (diskWrite_paired hg h2 _ fun k hk => ?_) fun _ =>
        .ite (fun _ => .pure _) fun _ => .pure _) fun _ => .pure _
      have harea := hg.inArea_clst hc hn
      rw [add32_of_lt (hg.inArea_lt harea), Nat.lt_one_iff.1 hk, Nat.add_zero]
      exact harea
  refine (((infoInside_closed hg).clear c hc w hw.info).and hpair).mono fun _ _ hpost => ?_
  obtain ⟨h, h'⟩ := hpost
  exact ⟨h, h'⟩

/-- `sync_fs` writes the FSInfo record in front of the FATs. -/
theorem syncFs_mirrored : Keeps (Mirrored g) syncFs := by
  intro w hw
  have hpair : Ensures syncFs w fun _ w' => Paired g w' := by
    rw [syncFs, ensures_bind]
    refine ((syncWindow_mirrored hg h2 w hw).and (syncWindow_paired hg h2 hw)).mono
      fun r w₁ hpost => ?_
    obtain ⟨h₁, _, hclean⟩ := hpost
    simp only [ensures_ite, ensures_bind, ensures_get, ensures_modify, ensures_pure, diskSync]
    refine ⟨fun hok => ⟨fun h1 => ⟨fun _ => ?_, fun _ => ?_⟩, fun _ => h₁.pair⟩, fun _ => h₁.pair⟩
    · -- the record is in the reserved area
      have hlt : g.volbase + 1 < g.fatbase := h₁.info.2.resolve_left fun hoff => by
        unfold State.InfoOff at hoff
        rw [h1] at hoff
        exact absurd hoff (by decide)
      have hdl := hg.database_lt
      have hdb := hg.database
      have hadd : add32 w₁.geo.volbase 1 = g.volbase + 1 := by
        rw [h₁.inv.geo]
        exact add32_of_lt (by omega)
      have hd : ∀ h : w₁.wflag = true, ¬g.InFat2 (add32 w₁.geo.volbase 1) := fun h =>
        absurd h (by simp [hclean hok])
      refine (returns_diskWrite.2 ⟨fun _ => ⟨h₁.pair.on, ?_, hd⟩, fun _ =>
        ⟨h₁.pair.on, ?_, hd⟩⟩).ensures
      · refine h₁.pair.agree.of_frame h2 fun s hfat => ?_
        rw [State.store_data, if_neg fun hin => ?_]
        · rfl
        rw [hadd] at hin
        rcases hfat with ⟨hge, _⟩ | hfat
        · omega
        · have := ((inFat2_iff h2).1 hfat).1
          omega
      · exact h₁.pair.agree
    · exact ⟨h₁.pair.on, h₁.pair.agree, h₁.pair.dirty⟩
  refine (((infoInside_closed hg).info w hw.info).and hpair).mono fun _ _ hpost => ?_
  obtain ⟨h, h'⟩ := hpost
  exact ⟨h, h'⟩

/-- The copies are kept equal by every store that the API makes. -/
theorem mirrored_closed : Closed g g.InArea (Mirrored g) where
  inv := Mirrored.inv
  area := id
  note := fun a h => ⟨(infoInside_closed hg).note a h.info, h.pair.on, h.pair.agree, h.pair.dirty⟩
  move := moveWindow_mirrored hg h2
  sync := syncWindow_mirrored hg h2
  store := fun t h hs => h.store t hs.not_inFat2
  create := createChain_mirrored hg h2
  remove := fun {w} c p h _ => removeChain_mirrored hg h2 c p w h
  clear := fun _ hc => dirClear_mirrored hg h2 hc
  direct := fun buff sect cc hcc hs w hw => (((infoInside_closed hg).direct buff sect cc hcc hs w
    hw.info).and (writeDirect_paired hg h2 buff hs w hw.pair)).mono fun _ _ ⟨h, h'⟩ => ⟨h, h'⟩
  edge := fun s t h hc hs => ⟨(infoInside_closed hg).edge s t h.info hc hs, h.pair.on, h.pair.agree,
    fun _ => hs.not_inFat2⟩
  info := syncFs_mirrored hg h2
  last := fun n hn h => ⟨(infoInside_closed hg).last n hn h.info, h.pair.on, h.pair.agree,
    h.pair.dirty⟩
  count := fun n hle h hn hon => ⟨(infoInside_closed hg).count n hle h.info hn hon, h.pair.on,
    h.pair.agree, h.pair.dirty⟩

end

/-! ## Runs -/

/-- The copies of the FAT agree on the device, and a change of the first that is pending in the
window reaches both when the window is flushed. -/
structure NeverDiverge (g : Geometry) (w : State) : Prop where
  agree : w.disk.FatsAgree g
  reflected : w.wflag = true → ∀ k < g.fsize, w.winsect = g.fatbase + k →
    Returns syncWindow w fun r w' => r = .ok ∧
      w'.disk.data (g.fatbase + k) = w.win ∧ w'.disk.data (g.fatbase + g.fsize + k) = w.win

/-- Equal copies whose pending change is in the first one do not diverge. -/
theorem Mirrored.neverDiverge {g : Geometry} (hg : g.Sound) (h2 : g.nFats = 2) {w : State}
    (hw : Mirrored g w) : NeverDiverge g w := by
  refine ⟨hw.pair.agree, fun hd k hk hws => ?_⟩
  have hlt : w.winsect < w.disk.sectors := hw.inv.fat ⟨by omega, by omega⟩
  refine ((syncWindow_inv hg hw.inv).and_ensures (syncWindow_mirrors hg h2 hw)).mono
    fun r w' ⟨h, hm⟩ => ?_
  have hok : r = .ok := h.good fun _ => hlt
  exact ⟨hok, hm hok hd k hk hws⟩

/-- From the mount of a volume with two equal FATs on the device, and with the FSInfo record in the
reserved area if it is enabled, the copies do not diverge in any run. -/
theorem fats_agree {w₀ : State} {s t : Session} (hs : s.JustMounted w₀) (h2 : s.w.geo.nFats = 2)
    (hinfo : s.w.InfoOff ∨ s.w.geo.volbase + 1 < s.w.geo.fatbase)
    (hon : s.w.geo.fatbase + 2 * s.w.geo.fsize ≤ s.w.disk.sectors)
    (heq : s.w.disk.FatsAgree s.w.geo) (h : Reaches (fun _ c => c.OnVolume) s t) :
    NeverDiverge s.w.geo t.w := by
  obtain ⟨hg, hi, hc, -⟩ := hs.inv
  have hstart : Mirrored s.w.geo s.w := ⟨⟨hi, hinfo⟩, hon, heq, fun hd => absurd hd (by simp [hc])⟩
  exact (h.closed hg (mirrored_closed hg h2) (hs.noneOpen.placed hstart)).inv.neverDiverge hg h2

/-- The hypotheses are met by a plain volume with two FATs of one sector, and the run that creates a
directory changes the FAT. -/
theorem fats_agree_plain : ∃ w t u, mountVolume [] 0 (registeredOn (fuzzDisk plainImage)) =
      some ((.ok, []), w) ∧ exec ⟨w, fun _ => {}, fun _ => {}⟩ (.mkdir [0x41]) = some (.ok, t) ∧
    exec t (.mkdir [0x42]) = some (.ok, u) ∧ NeverDiverge w.geo u.w := by
  have h : ((mountVolume [] 0 (registeredOn (fuzzDisk plainImage))).bind fun r =>
      (exec ⟨r.2, fun _ => {}, fun _ => {}⟩ (.mkdir [0x41])).bind fun p =>
        (exec p.2 (.mkdir [0x42])).map fun q =>
          (r.1, r.2.geo, r.2.fsiFlag, r.2.disk.sectors, p.1, q.1)) =
      some ((.ok, []), ⟨.fat12, 2, 16, 1, 126, 1, 0, 1, 3, 4, 1⟩, 0x80, 128, .ok, .ok) := by
    decide +kernel
  obtain ⟨⟨r, w⟩, hm, h⟩ := Option.bind_eq_some_iff.1 h
  obtain ⟨⟨p, t⟩, ht, h⟩ := Option.bind_eq_some_iff.1 h
  obtain ⟨⟨q, u⟩, hu, h⟩ := Option.map_eq_some_iff.1 h
  simp only [Prod.mk.injEq] at h
  obtain ⟨rfl, hgeo, hfsi, hsec, rfl, rfl⟩ := h
  have hjust : Session.JustMounted (registeredOn (fuzzDisk plainImage))
      ⟨w, fun _ => {}, fun _ => {}⟩ :=
    ⟨fun _ => rfl, show 128 < W32 by decide, plainImage_mountsSound, rfl, ⟨[], 0, [], hm⟩,
      fun _ h => by cases h⟩
  refine ⟨w, t, u, hm, ht, hu,
    fats_agree hjust (by rw [hgeo]) (.inl ?_) (by rw [hgeo, hsec]; decide) ?_
    (.call (c := .mkdir [0x42]) (.call (c := .mkdir [0x41]) .refl trivial ht) trivial hu)⟩
  · unfold State.InfoOff
    rw [hfsi]
    decide
  · have hd := hjust.inv.2.2.2
    rw [hgeo]
    intro k hk
    rw [hd]
    obtain rfl : k = 0 := Nat.lt_one_iff.1 hk
    have hz : ∀ s, 0 < s → (fuzzDisk plainImage).data s = Sector.zero := fun s hs => by
      funext i
      have hlen : plainImage.length ≤ s * SS + i := by
        rw [plainImage, List.length_map, List.length_range]
        simp only [SS]
        omega
      show (if s < 128 ∧ i < SS then plainImage.getD (s * SS + i) 0 else 0) = 0
      rw [List.getD_eq_default _ _ hlen, ite_self]
    exact (hz 2 (by decide)).trans (hz 1 (by decide)).symm

end FatFs
