import FatFs.Store.Write

/-!
# Reading from a file

`f_read` delivers the bytes of the file from the cursor on, whatever of them is still in the dirty
window: whole sectors are read from the device with the window laid over them, the rest through the
window.
-/

namespace FatFs

open Run Splice

/-- The `n` bytes of a file from the byte `p` on. -/
def Geometry.piece (g : Geometry) (L : Nat → Sector) (cs : List Nat) (p n : Nat) : List UInt8 :=
  (List.range n).map fun i => g.byteAt L cs (p + i)

section
variable {g : Geometry} {L : Nat → Sector} {cs : List Nat}

@[simp] theorem Geometry.piece_length (p n : Nat) : (g.piece L cs p n).length = n := by
  simp [Geometry.piece]

theorem Geometry.piece_append (p m n : Nat) :
    g.piece L cs p m ++ g.piece L cs (p + m) n = g.piece L cs p (m + n) := by
  unfold Geometry.piece
  rw [List.range_add, List.map_append, List.map_map]
  refine congrArg _ (List.map_congr_left fun i _ => ?_)
  rw [Function.comp_apply, Nat.add_assoc]

/-- A piece inside the file is a piece of its content. -/
theorem Geometry.piece_eq {p n size : Nat} (h : p + n ≤ size) :
    g.piece L cs p n = ((g.content L cs size).drop p).take n := by
  refine List.ext_getElem? fun k => ?_
  rw [List.getElem?_take]
  split
  · rename_i hk
    rw [List.getElem?_drop, Geometry.content_getElem? (by omega)]
    simp [Geometry.piece, List.getElem?_range hk]
  · rename_i hk
    exact List.getElem?_eq_none (by rw [Geometry.piece_length]; omega)

/-- A piece of one sector. -/
theorem Geometry.piece_sector {p n : Nat} (h : p % SS + n ≤ SS) :
    (L (g.sectAt cs p)).bytes (p % SS) n = g.piece L cs p n := by
  refine List.map_congr_left fun i hi => ?_
  have hi' := List.mem_range.1 hi
  have hdiv : (p + i) / SS = p / SS := by simp only [SS] at *; omega
  have hmod : (p + i) % SS = p % SS + i := by simp only [SS] at *; omega
  unfold Geometry.byteAt
  rw [(Geometry.sectAt_congr hdiv).1, hmod]

/-- A piece of whole sectors of one cluster. -/
theorem Geometry.piece_sectors {p cc : Nat} (h0 : p % SS = 0)
    (h : p / SS % g.csize + cc ≤ g.csize) :
    ((List.range (SS * cc)).map fun i => L (g.sectAt cs p + i / SS) (i % SS)) =
      g.piece L cs p (SS * cc) := by
  refine List.map_congr_left fun i hi => ?_
  have hi' := List.mem_range.1 hi
  have hlt : i / SS < cc := Nat.div_lt_of_lt_mul hi'
  have hdiv : (p + i) / SS = (p + i / SS * SS) / SS := by simp only [SS] at *; omega
  have hmod : (p + i) % SS = i % SS := by simp only [SS] at *; omega
  unfold Geometry.byteAt
  rw [(Geometry.sectAt_congr hdiv).1, (Geometry.sectAt_add (by omega)).1, hmod]

end

/-- The file object after the cursor was moved by a read: the file is the same, and so is the
logical content of the volume. -/
structure Moves (g : Geometry) (w : State) (fp : FIL) (cs : List Nat) (fp' : FIL) (w' : State) :
    Prop where
  stable : Stable g w'
  sectors : w'.disk.sectors = w.disk.sectors
  same : Same g w w'
  holds : fp'.Holds g w' cs
  objsize : fp'.objsize = fp.objsize
  flag : fp'.flag = fp.flag
  dirSect : fp'.dirSect = fp.dirSect
  dirPtr : fp'.dirPtr = fp.dirPtr

section
variable {g : Geometry} {w w₁ w₂ : State} {fp fp₁ fp₂ : FIL} {cs : List Nat}

theorem Moves.refl (hs : Stable g w) (h : fp.Holds g w cs) : Moves g w fp cs fp w :=
  ⟨hs, rfl, .refl g w, h, rfl, rfl, rfl, rfl⟩

theorem Moves.trans (h : Moves g w fp cs fp₁ w₁) (h' : Moves g w₁ fp₁ cs fp₂ w₂) :
    Moves g w fp cs fp₂ w₂ :=
  ⟨h'.stable, h'.sectors.trans h.sectors, h.same.trans h'.same, h'.holds,
    h'.objsize.trans h.objsize,
    h'.flag.trans h.flag, h'.dirSect.trans h.dirSect, h'.dirPtr.trans h.dirPtr⟩

variable (hg : g.Sound)

include hg

theorem Moves.grows (h : Moves g w fp cs fp₁ w₁) : Grows g w cs w₁ cs :=
  .of_same hg h.stable h.sectors h.same cs

/-- The bytes of the file stay. -/
theorem Moves.piece (h : Moves g w fp cs fp₁ w₁) {p n : Nat} (hn : p + n ≤ fp.objsize)
    (hl : fp.Holds g w cs) : g.piece w₁.logical cs p n = g.piece w.logical cs p n := by
  refine List.map_congr_left fun i hi => ?_
  have hlt := hl.div_lt hg (k := p + i) (by have := List.mem_range.1 hi; omega)
  have hin := hg.sectAt_inClust (List.getElem?_eq_getElem hlt)
  unfold Geometry.byteAt
  rw [h.same _ (hin.inArea hg (hl.file.clust _ (List.getElem_mem hlt))).not_inFat2]

/-- A state with the same logical content outside the second FAT. -/
theorem Stable.of_same (hs : Stable g w) (hd : OnDevice g w₁) (h : Same g w w₁)
    (hn : w₁.freeClst = w.freeClst) : Stable g w₁ :=
  hs.of_frame hg hd (fun s hi => h s hi.not_inFat2) hn

/-- The cursor moved by `n` bytes inside the cluster it is in. -/
theorem FIL.Holds.move (h : fp.Holds g w cs) (hs : Stable g w₁)
    (hsec : w₁.disk.sectors = w.disk.sectors) (hsame : Same g w w₁) {n c s : Nat}
    (hc : cs[fp.fptr / (g.csize * SS)]? = some c) (hn : 0 < n)
    (hin : fp.fptr % (g.csize * SS) + n ≤ g.csize * SS) (hle : fp.fptr + n ≤ fp.objsize)
    (hsect : (fp.fptr + n) % SS ≠ 0 → fp.fptr % SS + n < SS ∧ s = g.sectAt cs fp.fptr) :
    Moves g w fp cs { fp with fptr := add32 fp.fptr n, clust := c, sect := s } w₁ := by
  have hsz := h.size
  have hb := hg.bcs_pos
  have hdm := Nat.div_add_mod fp.fptr (g.csize * SS)
  rw [Nat.mul_comm] at hdm
  have hpred : (fp.fptr + n - 1) / (g.csize * SS) = fp.fptr / (g.csize * SS) := by
    refine Nat.div_eq_of_lt_le (by omega) ?_
    rw [Nat.add_mul, Nat.one_mul]
    omega
  rw [add32_of_lt (by omega)]
  refine ⟨hs, hsec, hsame, ⟨⟨?_, h.file.length⟩, hsz, h.fs, h.id, h.err, hle, fun _ => ?_,
    fun hne => ?_⟩, rfl, rfl, rfl, rfl⟩
  · exact h.file.toIsChain.congr fun e hm => hg.entry_same hsame (h.file.clust e hm).2
  · simp only
    rw [hpred]
    exact hc
  · obtain ⟨hlt, hs'⟩ := hsect hne
    simp only
    rw [hs', (Geometry.sectAt_congr (show (fp.fptr + n) / SS = fp.fptr / SS by
      simp only [SS] at *; omega)).1]

/-- Moving the window of a stable state to a sector of the volume. -/
theorem moveWindow_stable (hs : Stable g w) {s : Nat} (ha : g.InArea s) :
    Returns (moveWindow s) w fun r w' => r = .ok ∧ Stable g w' ∧
      w'.disk.sectors = w.disk.sectors ∧ Same g w w' ∧ w'.winsect = s ∧ w'.win = w.logical s := by
  refine ((moveWindow_inv hg hs.dev.inv s).and_ensures ((onDevice_closed hg).move s w hs.dev)).mono
    fun r w' hpost => ?_
  obtain ⟨h, hdev⟩ := hpost
  have hon := ha.on hs.dev
  obtain rfl := (h.good hs.dev.good).2 hon
  exact ⟨rfl, hs.of_same hg hdev h.same h.kept.freeClst, h.kept.sectors, h.same, h.winsect rfl,
    by rw [h.win rfl hon, h.same s ha.not_inFat2]⟩

/-- Reading an entry of a stable state. -/
theorem getFat_stable (hs : Stable g w) {c : Nat} (hc : g.IsClust c) :
    Returns (getFat c) w fun r w' => r = g.entry w.logical c ∧ Stable g w' ∧
      w'.disk.sectors = w.disk.sectors ∧ Same g w w' := by
  refine ((getFat_inv hg hs.dev.inv c).and_ensures
    (getFat_keeps (onDevice_closed hg).move c w hs.dev)).mono fun r w' hpost => ?_
  obtain ⟨h, hdev⟩ := hpost
  exact ⟨h.full hs.dev.good (hs.dev.fatOn hg) hc, hs.of_same hg hdev h.same h.kept.freeClst,
    h.kept.sectors, h.same⟩

/-- The current cluster for a read on a sector boundary before the end of the file. -/
theorem readClust_store (hs : Stable g w) (h : fp.Holds g w cs) (h0 : fp.fptr % SS = 0)
    (hlt : fp.fptr < fp.objsize) :
    Returns (readClust fp (fp.fptr / SS % g.csize)) w fun r w' =>
      ∃ c, r = .ok { fp with clust := c } ∧ cs[fp.fptr / (g.csize * SS)]? = some c ∧ Stable g w' ∧
        w'.disk.sectors = w.disk.sectors ∧ Same g w w' := by
  have hidx := h.div_lt hg hlt
  have hch := h.file.toIsChain
  have hmax := hg.nFatent_lt
  rw [readClust, returns_ite]
  refine ⟨fun hcs => ?_, fun hcs => returns_pure.2 ?_⟩
  · have hb := (csect_eq_zero_iff h0).1 hcs
    have hcl := hch.clust _ (List.getElem_mem hidx)
    rw [returns_bind, returns_ite]
    have hrest : ∀ {v w'}, v = cs[fp.fptr / (g.csize * SS)] → Stable g w' →
        w'.disk.sectors = w.disk.sectors → Same g w w' →
        Returns (if v < 2 then (return .error .intErr : M (Except FRESULT FIL))
          else if v = DISKERR then return .error .diskErr else return .ok { fp with clust := v }) w'
          fun r w' => ∃ c, r = .ok { fp with clust := c } ∧
            cs[fp.fptr / (g.csize * SS)]? = some c ∧ Stable g w' ∧
            w'.disk.sectors = w.disk.sectors ∧ Same g w w' := by
      intro v w' hv hst hsec hsame
      have h2 := hcl.1
      have hlt := hcl.2
      rw [if_neg (by omega), if_neg (by omega), returns_pure]
      exact ⟨v, rfl, by rw [hv]; exact List.getElem?_eq_getElem hidx, hst, hsec, hsame⟩
    refine ⟨fun hz => returns_pure.2 (hrest ?_ hs rfl (.refl g w)), fun hz => ?_⟩
    · have hne : fp.sclust ≠ 0 := fun hs0 => by
        rw [hch.nil_iff.2 hs0] at hidx
        exact Nat.not_lt_zero _ hidx
      have hhead := hch.head hne
      simp only [hz, Nat.zero_div]
      rw [List.getElem?_eq_some_iff] at hhead
      exact hhead.2.symm
    · have hpos : 0 < fp.fptr := Nat.pos_of_ne_zero hz
      have hpc := h.clust hpos
      have hsucc := pred_div_succ hb hpos
      refine (getFat_stable hg hs (hch.clust _ (List.mem_of_getElem? hpc))).mono
        fun v w' hpost => ?_
      obtain ⟨hv, hst, hsec, hsame⟩ := hpost
      refine hrest ?_ hst hsec hsame
      rw [hv]
      refine hch.chain.link _ _ _ hpc ?_
      rw [hsucc]
      exact List.getElem?_eq_getElem hidx
  · have hne : fp.fptr % (g.csize * SS) ≠ 0 := fun hz => hcs ((csect_eq_zero_iff h0).2 hz)
    have hpos : 0 < fp.fptr := Nat.pos_of_ne_zero fun hz => hne (by rw [hz, Nat.zero_mod])
    have hcl := h.clust hpos
    rw [pred_div_of_mod hne] at hcl
    exact ⟨fp.clust, rfl, hcl, hs, rfl, .refl g w⟩

/-- The place of the cursor in its cluster. -/
theorem Geometry.Sound.mod_bcs (p : Nat) :
    p % (g.csize * SS) = p / SS % g.csize * SS + p % SS ∧ p / SS % g.csize < g.csize := by
  refine ⟨?_, Nat.mod_lt _ hg.csize_pos⟩
  rw [Nat.mul_comm g.csize, Nat.mod_mul, Nat.mul_comm SS, Nat.add_comm]

/-- The rest of a sector is read through the window. -/
theorem readWindow_store (h : fp.Holds g w cs) (hs : Stable g w₁)
    (hsec : w₁.disk.sectors = w.disk.sectors) (hsame : Same g w w₁) {c btr : Nat}
    (hc : cs[fp.fptr / (g.csize * SS)]? = some c) (hbtr : 0 < btr)
    (hle : fp.fptr + btr ≤ fp.objsize) (acc : List UInt8) :
    Returns (readWindow { fp with clust := c, sect := g.sectAt cs fp.fptr } btr acc) w₁ fun r w' =>
      ∃ n fp', 0 < n ∧ n ≤ btr ∧ fp'.fptr = fp.fptr + n ∧ Moves g w fp cs fp' w' ∧
        r = .inl (fp', btr - n, acc ++ g.piece w.logical cs fp.fptr n) := by
  have hsz := h.size
  have hcl := h.file.clust c (List.mem_of_getElem? hc)
  have harea := (hg.sectAt_inClust hc).inArea hg hcl
  have hsm := Nat.mod_lt fp.fptr (show 0 < SS by decide)
  obtain ⟨hmod, hcs⟩ := hg.mod_bcs fp.fptr
  have hmul : (fp.fptr / SS % g.csize + 1) * SS ≤ g.csize * SS := Nat.mul_le_mul_right _ hcs
  rw [Nat.add_mul, Nat.one_mul] at hmul
  rw [readWindow, returns_bind]
  refine (moveWindow_stable hg hs harea).mono fun r w₂ hpost => ?_
  obtain ⟨rfl, hs₂, hsec₂, hsame₂, _, hwin⟩ := hpost
  simp only [ne_eq, not_true_eq_false, if_false, returns_bind, returns_get, returns_pure]
  refine ⟨min (SS - fp.fptr % SS) btr, _, by omega, Nat.min_le_right _ _, ?_,
    h.move hg hs₂ (hsec₂.trans hsec) (hsame.trans hsame₂) (n := min (SS - fp.fptr % SS) btr) hc
      (by omega) (by omega) (by omega) fun hne => ⟨?_, rfl⟩, ?_⟩
  · exact add32_of_lt (by omega)
  · simp only [SS] at *
    omega
  · rw [hwin, hsame _ harea.not_inFat2, Geometry.piece_sector (by omega)]

/-- One round of the loop of `f_read` with bytes left to read. -/
theorem fReadRound_store (hs : Stable g w) (h : fp.Holds g w cs) {btr : Nat} (hbtr : 0 < btr)
    (hle : fp.fptr + btr ≤ fp.objsize) (acc : List UInt8) :
    Returns (fReadRound (fp, btr, acc)) w fun r w' =>
      ∃ n fp', 0 < n ∧ n ≤ btr ∧ fp'.fptr = fp.fptr + n ∧ Moves g w fp cs fp' w' ∧
        r = .inl (fp', btr - n, acc ++ g.piece w.logical cs fp.fptr n) := by
  have hsz := h.size
  rw [fReadRound]
  simp only [Nat.ne_of_gt hbtr, if_false]
  rw [returns_ite]
  refine ⟨fun h0 => ?_, fun h0 => ?_⟩
  · rw [returns_bind, returns_get, hs.dev.inv.geo, hg.and_csize, returns_bind]
    refine (readClust_store hg hs h h0 (by omega)).mono fun r w₁ hpost => ?_
    obtain ⟨c, rfl, hc, hs₁, hsec, hsame⟩ := hpost
    have hcl := h.file.clust c (List.mem_of_getElem? hc)
    obtain ⟨hmod, hcs⟩ := hg.mod_bcs fp.fptr
    have hin := hg.inArea_clst hcl hcs
    have hsect : add32 (clst2sect g c) (fp.fptr / SS % g.csize) = g.sectAt cs fp.fptr := by
      rw [add32_of_lt (hg.inArea_lt hin), Geometry.sectAt, List.getD_eq_getElem?_getD, hc]
      rfl
    have hsect' : g.sectAt cs fp.fptr = clst2sect g c + fp.fptr / SS % g.csize := by
      rw [← hsect, add32_of_lt (hg.inArea_lt hin)]
    simp only [hg.clst2sect_pos hcl, if_false, hsect]
    rw [returns_ite]
    refine ⟨fun hcc => ?_, fun hcc => readWindow_store hg h hs₁ hsec hsame hc hbtr hle acc⟩
    -- whole sectors
    generalize hk : (if g.csize < fp.fptr / SS % g.csize + btr / SS then
      g.csize - fp.fptr / SS % g.csize else btr / SS) = cc
    have hk' : 0 < cc ∧ fp.fptr / SS % g.csize + cc ≤ g.csize ∧ cc ≤ btr / SS := by
      rw [← hk]
      split <;> omega
    have hbl : SS * cc ≤ btr := by
      have := Nat.mul_le_mul_left SS hk'.2.2
      have := Nat.mul_div_le btr SS
      omega
    have hlast := hg.inArea_clst hcl (show fp.fptr / SS % g.csize + cc - 1 < g.csize by omega)
    have hlt := hg.inArea_lt hlast
    have hserve : w₁.disk.serves (g.sectAt cs fp.fptr) cc = true := by
      rw [hs₁.dev.inv.reliable.serves, Disk.inBounds_iff]
      have := hlast.on hs₁.dev
      omega
    rw [returns_bind, returns_diskRead]
    refine ⟨fun _ => ?_, fun hn => absurd hserve hn⟩
    simp only [returns_bind, returns_get, returns_pure]
    have hs₂ : Stable g (w₁.note (.read (g.sectAt cs fp.fptr) cc)) :=
      hs₁.of_same hg ((onDevice_closed hg).note _ hs₁.dev) (fun _ _ => rfl) rfl
    have hmv := h.move hg hs₂ hsec hsame (n := SS * cc) (s := fp.sect) hc
      (Nat.mul_pos (by decide) hk'.1) ?_ (by omega) fun hne => ?_
    · refine ⟨SS * cc, _, Nat.mul_pos (by decide) hk'.1, hbl, ?_, hmv, ?_⟩
      · exact add32_of_lt (by omega)
      · simp only [State.note_wflag, State.note_win, State.note_winsect]
        rw [overlay_logical hs₁.dev.inv.winsect (by omega), Geometry.piece_sectors h0 hk'.2.1]
        rw [(Moves.piece hg ⟨hs₁, hsec, hsame, h.congr fun e hm => hg.entry_same hsame
          (h.file.clust e hm).2, rfl, rfl, rfl, rfl⟩ (by omega) h : g.piece w₁.logical cs _ _ = _)]
    · rw [hmod, h0, Nat.add_zero, Nat.mul_comm SS cc, ← Nat.add_mul]
      exact Nat.mul_le_mul_right _ hk'.2.1
    · exact absurd (by simp only [SS] at *; omega) hne
  · have hb : fp.fptr % (g.csize * SS) ≠ 0 := fun hz => h0 (by
      rw [← Nat.mod_mod_of_dvd fp.fptr (Nat.dvd_mul_left SS g.csize), hz, Nat.zero_mod])
    have hp : 0 < fp.fptr := Nat.pos_of_ne_zero fun hz => h0 (by rw [hz, Nat.zero_mod])
    have hc := h.clust hp
    rw [pred_div_of_mod hb] at hc
    have hw := readWindow_store hg h hs rfl (.refl g w) hc hbtr hle acc
    rw [← h.sect h0] at hw
    exact hw

omit hg in
/-- What `f_read` does: it delivers the bytes of the file from the cursor on. -/
structure ReadFrom (g : Geometry) (w : State) (fp : FIL) (cs : List Nat) (btr : Nat)
    (r : FRESULT × FIL × List UInt8) (w' : State) : Prop where
  res : r.1 = .ok
  bytes : r.2.2 = ((g.content w.logical cs fp.objsize).drop fp.fptr).take btr
  fptr : r.2.1.fptr = fp.fptr + r.2.2.length
  moves : Moves g w fp cs r.2.1 w'

/-- `f_read` on a file. -/
theorem fRead_store (hs : Stable g w) (h : fp.Holds g w cs) (hflag : hasBits fp.flag FA_READ = true)
    (btr : Nat) : Returns (fRead fp btr) w (ReadFrom g w fp cs btr) := by
  have hsize := h.size
  have hin := h.inside
  rw [fRead, returns_bind]
  refine ⟨_, _, validate_holds hg hs h, ?_⟩
  have hremain : sub32 fp.objsize fp.fptr = fp.objsize - fp.fptr := sub32_of_le hsize hin
  have hclip : (if fp.objsize - fp.fptr < btr then fp.objsize - fp.fptr else btr) =
      min btr (fp.objsize - fp.fptr) := by
    split <;> omega
  simp only [ne_eq, not_true_eq_false, if_false, h.err, hflag, Bool.not_true, Bool.false_eq_true,
    hremain, hclip]
  obtain ⟨total, htotal⟩ : ∃ n, n = min btr (fp.objsize - fp.fptr) := ⟨_, rfl⟩
  rw [← htotal]
  refine Returns.loop (I := fun n p w' => p.2.1 ≤ n ∧ p.1.fptr + p.2.1 = fp.fptr + total ∧
      fp.fptr ≤ p.1.fptr ∧ p.2.2 = g.piece w.logical cs fp.fptr (p.1.fptr - fp.fptr) ∧
      Moves g w fp cs p.1 w') (n := total) (fun n p w₁ hinv => ?_)
    ⟨Nat.le_refl _, rfl, Nat.le_refl _, ?_, .refl hs h⟩ (Nat.lt_succ_self _)
  · obtain ⟨fp₁, left, acc⟩ := p
    obtain ⟨hn, hleft, hfrom, hacc, hm⟩ := hinv
    simp only at hn hleft hfrom hacc hm
    have hobj := hm.objsize
    by_cases h0 : left = 0
    · rw [fReadRound]
      simp only [h0, if_true, returns_pure]
      have hlen : acc.length = total := by rw [hacc, Geometry.piece_length]; omega
      refine ⟨rfl, ?_, by simp only; omega, hm⟩
      simp only
      have hpiece : g.piece w.logical cs fp.fptr total =
          ((g.content w.logical cs fp.objsize).drop fp.fptr).take total :=
        Geometry.piece_eq (by omega)
      rw [hacc, show fp₁.fptr - fp.fptr = total by omega, hpiece]
      rcases Nat.le_total btr (fp.objsize - fp.fptr) with hb | hb
      · rw [show total = btr by omega]
      · have hall : ((g.content w.logical cs fp.objsize).drop fp.fptr).length = total := by
          rw [List.length_drop, Geometry.content_length]
          omega
        rw [List.take_of_length_le (Nat.le_of_eq hall), List.take_of_length_le (by omega)]
    · refine (fReadRound_store hg hm.stable hm.holds (Nat.pos_of_ne_zero h0) (by omega) acc).mono
        fun r w₂ hpost => ?_
      obtain ⟨m, fp₂, hm0, hml, hfp₂, hm₂, rfl⟩ := hpost
      refine ⟨left - m, by omega, Nat.le_refl _, by simp only; omega, by simp only; omega, ?_,
        hm.trans hm₂⟩
      simp only
      rw [hacc, hm.piece hg (by omega) h, show fp₁.fptr = fp.fptr + (fp₁.fptr - fp.fptr) by omega,
        Nat.add_sub_cancel_left, Geometry.piece_append]
      congr 1
      omega
  · simp only [Nat.sub_self]
    rfl

end

end FatFs
