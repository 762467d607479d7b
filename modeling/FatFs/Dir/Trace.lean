import FatFs.Dir.Refused
import FatFs.Dir.Slots

/-!
# What a refused `f_mkdir` leaves on the medium

`f_mkdir` marks the cluster of the new directory in the FAT, clears its table, and registers the
directory last. Clearing the table writes the window back, so the mark is on the medium before a
refusal, and the refusal takes it back in the window only. When the volume is then unmounted, the
window is discarded, and the cluster stays marked (`mkdir_traceless_iff`). This happens exactly
where the entry cannot be made in the parent directory after a cluster was allocated
(`LateRefusal`).
-/

namespace FatFs

open Run

/-! ## The FAT on the medium -/

/-- The first FAT on the medium is that of `d`, and a store to the window is not for it. -/
structure FatRests (g : Geometry) (d : Nat → Sector) (w : State) : Prop where
  inv : Inv g w
  data : ∀ s, g.InFat s → w.disk.data s = d s
  window : w.wflag = true → ¬g.InFat w.winsect

section
variable {g : Geometry} (hg : g.Sound) {d : Nat → Sector}

include hg

/-- Moving the window writes no sector of the first FAT but its own, and that only to leave it. -/
theorem moveWindow_data {w : State} (hw : Inv g w) (s : Nat) :
    Ensures (moveWindow s) w fun _ w' => ∀ t, g.InFat t →
      (w.wflag = true → t = w.winsect → s = w.winsect) → w'.disk.data t = w.disk.data t := by
  have hflushed : s ≠ w.winsect → ∀ {w'}, Flushed w w' → ∀ t, g.InFat t →
      (w.wflag = true → t = w.winsect → s = w.winsect) → w'.disk.data t = w.disk.data t := by
    intro hne w' hf t ht hstay
    rcases hf t with he | ⟨hm, -⟩
    · rw [he]
      exact if_neg fun h => hne (hstay h.1 h.2)
    · exact absurd (hg.inFat2_of_mirrors hw.geo hw.winsect hm) ht.not_inFat2
  refine (moveWindow_spec w s).ensures.mono fun r w' h => ?_
  cases h with
  | same => exact fun _ _ _ => rfl
  | moved _ hne _ _ _ _ hf => exact hflushed hne hf
  | stuck _ _ _ _ _ _ hdata => exact fun t _ _ => by rw [hdata]
  | lost _ hne _ _ _ hf => exact hflushed hne hf

theorem moveWindow_rests (s : Nat) : Keeps (FatRests g d) (moveWindow s) := fun w h => by
  have hdirty : Ensures (moveWindow s) w fun _ w' => w'.wflag = true → ¬g.InFat w'.winsect := by
    refine (moveWindow_spec w s).ensures.mono fun r w' h' => ?_
    cases h' with
    | same => exact h.window
    | moved _ _ hc => exact fun hd => by rw [hc] at hd; cases hd
    | stuck _ _ hd _ hs => exact fun _ => by rw [hs]; exact h.window hd
    | lost _ _ hc => exact fun hd => by rw [hc] at hd; cases hd
  refine (((moveWindow_inv hg h.inv s).ensures.and (moveWindow_data hg h.inv s)).and hdirty).mono
    fun r w' ⟨⟨hi, hd⟩, hwin⟩ => ⟨hi.inv, fun t ht => ?_, hwin⟩
  rw [hd t ht fun hdirty he => absurd (he ▸ ht) (h.window hdirty), h.data t ht]

/-- Where an entry holds the end mark on the medium, changing it in the window does not free it
there. -/
theorem putFat_pending {w : State} (h : FatRests g d w) {c : Nat} (hc : g.IsClust c)
    (hend : g.entry d c = 0xFFFFFFFF % g.entryMod) (v : Nat) :
    Ensures (putFat c v) w fun _ w' => g.entry w'.disk.data c ≠ 0 := by
  have hrest : ∀ {w'}, FatRests g d w' → g.entry w'.disk.data c ≠ 0 := fun h' => by
    rw [hg.entry_congr h'.data hc.2, hend]
    have := hg.endMark_ge
    have := hg.entries
    omega
  rw [putFat, ensures_bind, ensures_get, h.inv.geo]
  rw [ensures_ite]
  refine ⟨fun _ => ?_, fun _ => ensures_pure.2 (hrest h)⟩
  cases hf : g.fsType with
  | none => exact absurd hf hg.fsType
  | fat12 =>
    have hi := hg.byte12 hf hc.2
    have hadd := hg.add32_fat hi
    simp only [ensures_bind, ensures_ite, ensures_pure, modWin, ensures_modify]
    refine (moveWindow_rests hg _ w h).mono fun r w₁ h₁ => ⟨fun _ => hrest h₁, fun _ => ?_⟩
    -- the last byte of the entry is in the sector that the window is on at the end
    refine (moveWindow_data hg (h₁.inv.store _) _).mono fun r w₂ h₂ => ?_
    have hbyte : g.fatByte w₂.disk.data (c + c / 2 + 1) = g.fatByte d (c + c / 2 + 1) := by
      unfold Geometry.fatByte
      rw [h₂ _ (Geometry.inFat_byte hi) fun _ he => by rw [hadd, ← he],
        h₁.data _ (Geometry.inFat_byte hi)]
    have hlast : g.entry w₂.disk.data c ≠ 0 := by
      unfold Geometry.entry Geometry.entryOf Geometry.entryMod at *
      simp only [hf] at *
      exact Packed.get12_ne_zero hend hbyte
    exact ⟨fun _ => hlast, fun _ => hlast⟩
  | fat16 =>
    simp only [ensures_bind, ensures_ite, ensures_pure, modWin, ensures_modify]
    exact (moveWindow_rests hg _ w h).mono fun r w₁ h₁ => ⟨fun _ => hrest h₁, fun _ => hrest h₁⟩
  | fat32 =>
    simp only [ensures_bind, ensures_ite, ensures_pure, modWin, ensures_modify]
    exact (moveWindow_rests hg _ w h).mono fun r w₁ h₁ => ⟨fun _ => hrest h₁, fun _ => hrest h₁⟩

/-- Freeing a cluster that holds the end mark on the medium leaves it in use there. -/
theorem removeChain_pending {w : State} (h : FatRests g d w) (hf : w.Flushable) (ho : g.FatOn w)
    {c : Nat} (hc : g.IsClust c) (hend : g.entry d c = 0xFFFFFFFF % g.entryMod)
    (hlog : g.nFatent ≤ g.entry w.logical c) :
    Ensures (removeChain c 0) w fun _ w' => g.entry w'.disk.data c ≠ 0 := by
  obtain ⟨w₁, w₂, hget, -, hput, -, hm⟩ := removeChain_once hg h.inv hf ho hc hlog
  have h₁ := getFat_keeps (moveWindow_rests hg) c w h _ _ hget
  have h₂ := putFat_pending hg h₁ hc hend 0 _ _ hput
  intro r w' hm'
  rw [hm] at hm'
  cases hm'
  unfold State.freed
  split <;> exact h₂

omit hg in
/-- Clearing a table writes the window back first. -/
theorem dirClear_clean (c : Nat) (w : State) :
    Ensures (dirClear c) w fun r w' => r = .ok → w'.wflag = false := by
  have hwrite : ∀ buff s n,
      Keeps (fun w => w.wflag = false) (diskWrite buff s n) := fun buff s n => by
    unfold diskWrite
    exact .get fun _ _ => .bind (.modify fun _ h => h) fun _ => .ite
      (fun _ => .bind (.modify fun _ h => h) fun _ => .pure _) fun _ => .pure _
  have hround : ∀ sect csize n, Keeps (fun w => w.wflag = false) (clearRound sect csize n) :=
    fun sect csize n => by
      unfold clearRound
      exact .ite (fun _ => .get fun _ _ => .bind (hwrite _ _ _) fun _ => .ite (fun _ => .pure _)
        fun _ => .pure _) fun _ => .pure _
  rw [dirClear, ensures_bind]
  refine (syncWindow_spec w).ensures.mono fun r w₁ h₁ => ?_
  simp only [ensures_ite, ensures_pure, ensures_bind, ensures_get, ensures_modify]
  refine ⟨fun _ => by simp, fun hok => ?_⟩
  have hclean : w₁.wflag = false := by
    rcases h₁.out with ⟨-, hc, -⟩ | ⟨rfl, -⟩
    · exact hc
    · exact absurd (by simp) hok
  have hloop := Keeps.loop (hround (clst2sect w₁.geo c) w₁.geo.csize) (w₁.geo.csize + 1) 0
    { w₁ with winsect := clst2sect w₁.geo c, win := Sector.zero } hclean
  exact hloop.mono fun _ _ h _ => h

omit hg in
theorem syncFs_res : Yields (fun _ => True) (fun r => r = .ok ∨ r = .diskErr) syncFs := by
  have hwin : Yields (fun _ => True) (fun r => r = .ok ∨ r = .diskErr) syncWindow := fun w _ =>
    (syncWindow_spec w).ensures.mono fun r w' h => ⟨trivial, h.out.imp (·.1) (·.1)⟩
  have hsync : Yields (fun _ => True) (fun r : FRESULT => r = .ok ∨ r = .diskErr)
      (do return if (← diskSync) = .ok then .ok else .diskErr) :=
    (keeps_true _).then fun r => .pure (by split <;> simp)
  unfold syncFs
  exact .bind hwin fun r hr => .ite (fun _ => .get fun w _ => .ite (fun _ => (keeps_true _).then
    fun _ => .ite (fun _ => (keeps_true _).then fun _ => (keeps_true _).then fun _ => hsync)
      fun _ => hsync) fun _ => hsync) fun _ => .pure hr

/-! ## The parent directory behind the allocation -/

/-- The new directory is not in a table of the volume, so the tables are kept. -/
theorem Drafted.agreeOn {w w₁ w₂ : State} {c : Nat} (h₁ : Created g w 0 c w₁) (hc : g.IsClust c)
    (h₂ : Drafted g w₁ c w₂) {p : Pos} (hin : ∀ q, Along g w.logical p q → q.Inside g ∧
      (q.clust = 0 ∨ g.entry w.logical q.clust ≠ 0)) : AgreeOn g w.logical w₂.logical p := by
  obtain ⟨hfree, hlink, -, -⟩ := h₁.taken hg hc
  intro q hq
  obtain ⟨hq, hused⟩ := hin q hq
  rcases hq with ⟨h0, hlo, hhi⟩ | ⟨hqc, k, hk, hs⟩
  · have hbase : g.database ≤ clst2sect g c := by
      rw [hg.clst2sect_eq hc]
      exact Nat.le_add_right _ _
    have hfat₂ : ¬g.InFat2 q.sect := fun h => by
      have := h.2.2
      omega
    refine ⟨?_, ?_⟩
    · rw [h₂.frame _ hfat₂ (.inl (by omega)), h₁.fat.frame _ (hg.not_inFat_of_ge hlo) hfat₂]
    · rw [h0]
      exact (if_neg (by omega)).trans (if_neg (by omega)).symm
  · have hne : q.clust ≠ c := fun he => by
      rw [he] at hused
      have := hc.1
      rcases hused with h | h
      · omega
      · exact h hfree
    have harea := hg.inArea_clst hqc hk
    refine ⟨?_, ?_⟩
    · rw [hs, h₂.frame _ harea.not_inFat2 ?_,
        h₁.fat.frame _ (fun hf => hg.not_inArea_of_inFat hf harea) harea.not_inFat2]
      by_contra hn
      exact hne (hg.clst2sect_inj hqc hc hk
        (show clst2sect g q.clust + k - clst2sect g c < g.csize by omega) (by omega)).1
    · rw [g.link_of_clust _ hqc, g.link_of_clust _ hqc, h₂.entry hg hc hqc.2, hlink _ hqc.2,
        if_neg fun h => h.2 rfl, if_neg hne]

omit hg in
/-- One cluster is left, so that none is left behind the allocation of it. -/
def LastCluster (g : Geometry) (w : State) : Prop :=
  w.freeClst = 1 ∨ ∀ e e', g.IsClust e → g.IsClust e' → g.entry w.logical e = 0 →
    g.entry w.logical e' = 0 → e = e'

theorem Drafted.exhausted {w w₁ w₂ : State} {c : Nat} (h₁ : Created g w 0 c w₁) (hc : g.IsClust c)
    (h₂ : Drafted g w₁ c w₂) : Exhausted g w₂ ↔ LastCluster g w := by
  obtain ⟨hfree, hlink, hne, hcount⟩ := h₁.taken hg hc
  have hent : ∀ e, g.IsClust e → (g.entry w₂.logical e ≠ 0 ↔
      (g.entry w.logical e = 0 → e = c)) := by
    intro e he
    rw [h₂.entry hg hc he.2, hlink e he.2, if_neg fun h => h.2 rfl]
    by_cases hec : e = c
    · rw [if_pos hec]
      have := hg.endMark_ge
      have := hg.entries
      exact ⟨fun _ _ => hec, fun _ => by omega⟩
    · rw [if_neg hec]
      exact ⟨fun h h0 => absurd h0 h, fun h h0 => hec (h h0)⟩
  refine or_congr ?_ ?_
  · rw [h₂.freeClst, hcount]
    have := hg.entries
    split <;> omega
  · constructor
    · intro h e e' he he' h0 h0'
      rw [(hent e he).1 (h e he) h0, (hent e' he').1 (h e' he') h0']
    · intro h e he
      exact (hent e he).2 fun h0 => h e c he hc h0 hfree

/-- The state in which the new directory is registered: its table is written, and the FAT on the
medium is that of the volume. -/
theorem mkdirTable_draft {w : State} (hw : Inv g w) (hf : w.Flushable)
    (hon : g.volEnd ≤ w.disk.sectors) {c : Nat} (hc : g.IsClust c) (dj : DIR) :
    ∃ w₁, mkdirTable dj c w = dirRegister dj w₁ ∧ Drafted g w c w₁ ∧ FatRests g w₁.disk.data w₁ ∧
      ∀ s, g.InFat s → w₁.disk.data s = w₁.logical s := by
  have hcs := hg.csize_pos
  have hend : clst2sect g c + g.csize ≤ w.disk.sectors := by
    refine Nat.le_trans ?_ hon
    have hlast := (hg.inArea_clst hc (show g.csize - 1 < g.csize by omega)).2
    unfold Geometry.volEnd
    omega
  obtain ⟨res, w₁, hm, h₁, hclean⟩ := (dirClear_inv hg hw hc).and_ensures (dirClear_clean c w)
  obtain rfl : res = .ok := (h₁.full hf hend).1
  obtain ⟨hs, -, hsect, -⟩ := h₁.ok rfl
  have hclean := hclean rfl
  have harea := hg.inArea_clst hc hcs
  rw [Nat.add_zero, ← hs] at harea
  have hnot : ¬g.InFat w₁.winsect := fun h => hg.not_inArea_of_inFat h harea
  refine ⟨{ w₁ with win := dotEntries w₁.geo w₁.win c dj.sclust, wflag := true }, ?_, ?_, ?_,
    fun s hs' => ?_⟩
  · rw [mkdirTable, bind_apply_of hm, if_pos rfl, get_bind_apply]
    rfl
  · refine ⟨h₁.inv.store _, fun _ => ?_, h₁.kept.sectors, fun s hs₂ hout => ?_, h₁.kept.freeClst⟩
    · show w₁.winsect < w₁.disk.sectors
      rw [hs, h₁.kept.sectors]
      exact hsect
    · rw [logical_store, if_neg (by omega), h₁.frame s hs₂ hout]
  · exact ⟨h₁.inv.store _, fun _ _ => rfl, fun _ => hnot⟩
  · have hne : s ≠ w₁.winsect := fun he => hnot (he ▸ hs')
    rw [logical_store, if_neg hne, logical_of_clean hclean]

end

/-! ## The call -/

/-- The directories of the volume can be walked through, their clusters are in use, and no entry of
the FAT holds the value 1. -/
structure TreeConsistent (g : Geometry) (L : Nat → Sector) : Prop where
  browsable : Browsable g L
  used : ∀ c, IsDir g L c → ∀ q, Along g L (g.dirStart c) q → q.clust = 0 ∨ g.entry L q.clust ≠ 0
  links : ∀ e, g.IsClust e → g.entry L e ≠ 1

/-- A new directory gets a cluster, and then cannot be registered in the directory `par`. -/
def LateIn (g : Geometry) (w : State) (par : Nat) : Prop :=
  ¬Exhausted g w ∧ ∃ r, Full g w.logical (g.dirStart par) r ∧ (r.Stuck ∨ LastCluster g w)

/-- The path names a missing object in a directory of the volume, where a new directory is refused
late. -/
def LateRefusal (g : Geometry) (w : State) (path : List UInt8) : Prop :=
  ∃ rest par fn ps, getLdnumber w.charSigned path = (true, rest) ∧
    Leads g w.logical w.charSigned 0 (rest.dropWhile isSeparator) par fn ∧
    Table g w.logical (g.dirStart par) ps ∧ ps.find? (Pos.fits w.logical fn) = none ∧ LateIn g w par

/-- The part of `f_mkdir` behind the search for the name. -/
def mkdirNew (dj : DIR) : M FRESULT := do
  let dcl ← createChain 0
  let (res, dj) ←
    (if dcl = 0 then pure (.denied, dj)
    else if dcl = 1 then pure (.intErr, dj)
    else if dcl = DISKERR then pure (.diskErr, dj)
    else mkdirTable dj dcl)
  if res = .ok then
    let g := (← get).geo
    modWin fun s => mkdirEntry g s dj.dir dcl
    syncFs
  else
    let _ ← removeChain dcl 0
    return res

theorem fMkdir_eq (path : List UInt8) : fMkdir path = (do
    let (res, path) ← mountVolume path FA_WRITE
    if res = .ok then
      let (res, dj) ← followPath {} path
      if res = .ok then return .exist
      else if res = .noFile then mkdirNew dj
      else return res
    else return res) := rfl

/-- Either a cluster that was free is marked on the medium, or the request succeeds or nothing is
written. -/
structure Traced (g : Geometry) (w : State) (P : Prop) (r : FRESULT) (w' : State) : Prop where
  late : P → r = .denied ∧ ∃ c, g.IsClust c ∧ g.entry w.disk.data c = 0 ∧ g.entry w'.disk.data c ≠ 0
  early : ¬P → r = .ok ∨ r = .diskErr ∨ w'.disk.data = w.disk.data

section
variable {g : Geometry} (hg : g.Sound)

include hg

/-- With a cluster at hand the new directory is refused late exactly if its entry cannot be made. -/
theorem Drafted.crowded {w w₁ w₂ : State} {c : Nat} (hw : Inv g w) (hf : w.Flushable)
    (hon : g.volEnd ≤ w.disk.sectors) (hcons : TreeConsistent g w.logical) (h₁ : Created g w 0 c w₁)
    (hc : g.IsClust c) (h₂ : Drafted g w₁ c w₂) {par : Nat} (hdir : IsDir g w.logical par) :
    (Crowded g w₂ par ↔ LateIn g w par) ∧ ∃ ps, Table g w₂.logical (g.dirStart par) ps := by
  obtain ⟨hstart, ps, ht⟩ := hcons.browsable par hdir
  obtain ⟨hfree, -, hne, -⟩ := h₁.taken hg hc
  have hagree : AgreeOn g w.logical w₂.logical (g.dirStart par) :=
    h₂.agreeOn hg h₁ hc fun q hq => ⟨hq.inside_dir hg hon hw hf hstart, hcons.used par hdir q hq⟩
  have hex : ¬Exhausted g w := fun h => h.elim hne fun h => h c hc hfree
  refine ⟨?_, ps, ht.congr hagree⟩
  unfold Crowded LateIn
  rw [and_iff_right hex]
  exact exists_congr fun r => and_congr (ht.full_congr hagree)
    (or_congr_right (h₂.exhausted hg h₁ hc))

theorem mkdirNew_traced {w : State} (hw : Inv g w) (hclean : w.wflag = false)
    (hon : g.volEnd ≤ w.disk.sectors) (hcons : TreeConsistent g w.logical) {dj : DIR}
    (hdir : IsDir g w.logical dj.sclust) :
    Returns (mkdirNew dj) w (Traced g w (LateIn g w dj.sclust)) := by
  have hf : w.Flushable := .of_clean hclean
  have hquiet : Quiet w.disk.data w :=
    ⟨hclean, rfl, fun _ => by rw [hw.geo]; exact hg.csize.imp fun _ h => h.2⟩
  rw [mkdirNew, returns_bind]
  refine ((createChain_inv hg hw 0).and_ensures
    (createChain_full_keeps (getFat_keeps moveWindow_quiet) hquiet 0)).mono
    fun c w₁ ⟨h₁, hfull⟩ => ?_
  obtain ⟨hne1, hned⟩ := h₁.full hf (hg.fatOn hon) hcons.links (.inl rfl)
  rw [returns_bind]
  by_cases h0 : c = 0
  · -- no cluster is left, and nothing was written
    rw [if_pos h0, returns_pure]
    dsimp only
    rw [if_neg (by decide), returns_bind, h0]
    refine ⟨_, _, removeChain_zero w₁, ?_⟩
    refine returns_pure.2 ⟨fun hl =>
      absurd (h₁.none h0).2.2 hl.1, fun _ => .inr (.inr (hfull h0).2.1)⟩
  · have hc := h₁.isClust h0 hne1 hned
    have hon₁ : g.volEnd ≤ w₁.disk.sectors := by
      rw [h₁.fat.sectors]
      exact hon
    obtain ⟨hfree, hlink, -, -⟩ := h₁.taken hg hc
    obtain ⟨w₂, hrun, hdraft, hrests, hfat⟩ :=
      mkdirTable_draft hg h₁.fat.inv (h₁.fat.good hf) hon₁ hc dj
    obtain ⟨hcrowd, ps, ht⟩ := hdraft.crowded hg hw hf hon hcons h₁ hc hdir
    have hmark : g.entry w₂.logical c = 0xFFFFFFFF % g.entryMod := by
      rw [hdraft.entry hg hc hc.2, hlink c hc.2, if_neg fun h => h.2 rfl, if_pos rfl]
    have hge := hg.endMark_ge
    have hent := hg.entries
    have hlinks : ∀ e, g.IsClust e → g.entry w₂.logical e ≠ 1 := fun e he => by
      rw [hdraft.entry hg hc he.2, hlink e he.2, if_neg fun h => h.2 rfl]
      split
      · omega
      · exact hcons.links e he
    have hon₂ : g.volEnd ≤ w₂.disk.sectors := by
      rw [hdraft.sectors]
      exact hon₁
    obtain ⟨⟨res, d⟩, w₃, hm, hden, hok⟩ := dirRegister_exact hg hon₂ hdraft.inv hdraft.good hlinks
      (hcons.browsable _ hdir).1 ht
    rw [if_neg h0, if_neg hne1, if_neg hned]
    refine ⟨_, _, hrun.trans hm, ?_⟩
    dsimp only at hden hok ⊢
    by_cases hl : LateIn g w dj.sclust
    · obtain rfl := hden (hcrowd.2 hl)
      have hseen : Seen g w₂ w₃ :=
        dirRegister_refused hg (fun _ => Seen.inv) (moveWindow_seen hg w₂)
        (.refl hdraft.inv) dj _ _ hm (.inl rfl)
      have hrests₃ : FatRests g w₂.disk.data w₃ := dirRegister_refused hg (fun _ => FatRests.inv)
        (moveWindow_rests hg) hrests dj _ _ hm (.inl rfl)
      rw [if_neg (by decide), returns_bind]
      have hpend := removeChain_pending hg hrests₃ (hseen.good hdraft.good)
        (hg.fatOn (by rw [hseen.sectors]; exact hon₂)) hc (by rw [hg.entry_congr hfat hc.2, hmark])
        (by rw [hg.entry_same hseen.same hc.2, hmark]; exact hge)
      refine ((removeChain_inv hg hseen.inv c 0).and_ensures hpend).mono fun _ w₄ ⟨_, h₄⟩ =>
        returns_pure.2 ⟨fun _ => ⟨rfl, c, hc, ?_, h₄⟩, fun h => absurd hl h⟩
      rwa [show w.logical = w.disk.data from funext (logical_of_clean hclean)] at hfree
    · obtain rfl := hok fun h => hl (hcrowd.1 h)
      rw [if_pos rfl, returns_bind, returns_get, returns_bind, returns_modWin]
      have hinv : Inv g w₃ := (dirRegister_preserves hg dj w₂ hdraft.inv).of_eq hm
      refine ((syncFs_preserves hg _ (hinv.store _)).and_ensures (syncFs_res _ trivial)).mono
        fun r w₄ ⟨_, _, hr⟩ => ⟨fun h => absurd h hl, fun _ => ?_⟩
      exact hr.imp_right .inl

theorem fMkdir_traced {w : State} (hw : Inv g w) (hclean : w.wflag = false)
    (hreg : w.registered = true) (hon : g.volEnd ≤ w.disk.sectors)
    (hcons : TreeConsistent g w.logical) (path : List UInt8) :
    Returns (fMkdir path) w (Traced g w (LateRefusal g w path)) := by
  have hkept : ∀ {r : FRESULT} {w' : State}, w'.disk.data = w.disk.data → ¬LateRefusal g w path →
      Traced g w (LateRefusal g w path) r w' := fun hd hl =>
    ⟨fun h => absurd h hl, fun _ => .inr (.inr hd)⟩
  rw [fMkdir_eq, returns_bind]
  rcases hld : getLdnumber w.charSigned path with ⟨known, rest⟩
  cases known with
  | false =>
    have hmount : mountVolume path FA_WRITE w = some ((.invalidDrive, rest), w) := by
      rw [mountVolume, get_bind_apply, hld]
      rfl
    refine ⟨_, _, hmount, returns_pure.2 (hkept rfl ?_)⟩
    rintro ⟨rest', par, fn, ps, h, -⟩
    rw [hld] at h
    cases h
  | true =>
    refine ⟨_, _, mountVolume_mounted FA_WRITE hld hreg (by rw [hw.geo]; exact hg.fsType), ?_⟩
    dsimp only
    rw [if_pos rfl, returns_bind]
    have hf : w.Flushable := .of_clean hclean
    have hquiet : Quiet w.disk.data w :=
      ⟨hclean, rfl, fun _ => by rw [hw.geo]; exact hg.csize.imp fun _ h => h.2⟩
    refine (((followPath_leads hg hon hcons.browsable ⟨hw, hf, .refl g w, rfl⟩ {} rest).and_ensures
      (followPath_of_move moveWindow_quiet {} rest w hquiet)).and_ensures (followPath_of_move
        (moveWindow_freeClst w.freeClst) {} rest w rfl)).mono
          fun r w₁ hpost => ?_
    obtain ⟨res, dj⟩ := r
    obtain ⟨⟨⟨h₁, hans⟩, hq⟩, hk⟩ := hpost
    have hdata : w₁.disk.data = w.disk.data := hq.2.1
    have hlog : w₁.logical = w.logical := by
      funext s
      rw [logical_of_clean hq.1, logical_of_clean hclean, hdata]
    -- a path that leads nowhere is refused before anything is written
    have hnone : (∀ par fn, ¬Leads g w.logical w.charSigned 0 (rest.dropWhile isSeparator) par fn) →
        ¬LateRefusal g w path := by
      rintro hno ⟨rest', par, fn, ps, h, hl, -⟩
      rw [hld] at h
      cases h
      exact hno par fn hl
    dsimp only at hans ⊢
    rcases hans with ⟨rfl, -, hno⟩ | ⟨ps, hdir, hl, ht, -, hfind⟩ | ⟨hres, hno⟩
    · rw [if_pos rfl]
      exact returns_pure.2 (hkept hdata (hnone hno))
    · have hiff : LateRefusal g w path ↔
          ps.find? (Pos.fits w.logical dj.fn) = none ∧ LateIn g w dj.sclust := by
        constructor
        · rintro ⟨rest', par, fn, ps', h, hl', ht', hf', hlate⟩
          rw [hld] at h
          cases h
          obtain ⟨rfl, rfl⟩ := hl.unique hl'
          rw [ht.unique ht']
          exact ⟨hf', hlate⟩
        · rintro ⟨hf', hlate⟩
          exact ⟨rest, dj.sclust, dj.fn, ps, hld, hl, ht, hf', hlate⟩
      cases hf' : ps.find? (Pos.fits w.logical dj.fn) with
      | none =>
        rw [hf'] at hfind hiff
        obtain rfl : res = .noFile := hfind
        rw [if_neg (by decide), if_pos rfl]
        have hlate : LateIn g w₁ dj.sclust ↔ LateRefusal g w path := by
          rw [hiff, and_iff_right rfl, LateIn, LateIn, Exhausted, Exhausted, LastCluster,
            LastCluster, hlog, hk]
        refine (mkdirNew_traced hg h₁.inv hq.1 (by rw [h₁.sectors]; exact hon) (hlog ▸ hcons)
          (hlog ▸ hdir)).mono fun r w₂ h₂ => ?_
        rw [hlate] at h₂
        exact ⟨fun h => by rw [← hdata]; exact h₂.late h,
          fun h => by rw [← hdata]; exact h₂.early h⟩
      | some q =>
        rw [hf'] at hfind hiff
        obtain rfl : res = .ok := hfind.1
        rw [if_pos rfl]
        refine returns_pure.2 (hkept hdata fun h => ?_)
        cases (hiff.1 h).1
    · have hne : res ≠ .ok ∧ res ≠ .noFile := by
        rcases hres with h | h
        · exact ⟨fun he => by simp [he] at h, fun he => by simp [he] at h⟩
        · exact ⟨fun he => by simp [he] at h, fun he => by simp [he] at h⟩
      rw [if_neg hne.1, if_neg hne.2]
      exact returns_pure.2 (hkept hdata (hnone hno))

end

/-- The FAT entries and the directory entries on the medium are the same. -/
structure Traceless (g : Geometry) (d d' : Nat → Sector) : Prop where
  entries : ∀ c < g.nFatent, g.entry d' c = g.entry d c
  root : ∀ s, g.fatbase + g.nFats * g.fsize ≤ s → s < g.database → d' s = d s
  clusters : ∀ c, g.IsClust c → g.entry d c ≠ 0 → ∀ k < g.csize,
    d' (clst2sect g c + k) = d (clst2sect g c + k)

theorem Traceless.refl (g : Geometry) (d : Nat → Sector) : Traceless g d d :=
  ⟨fun _ _ => rfl, fun _ _ _ => rfl, fun _ _ _ _ _ => rfl⟩

/-- A directory is created, and the volume unmounted. -/
def mkdirUnmount (path vol : List UInt8) (opt : Nat) : M FRESULT := do
  let r ← fMkdir path
  let _ ← fMount false vol opt
  return r

/-- Unmounting does not access the medium. -/
theorem fMount_unmount (w : State) (vol : List UInt8) (opt : Nat) :
    Returns (fMount false vol opt) w fun _ w' => w'.disk = w.disk := by
  rw [fMount, returns_bind, returns_get]
  rcases getLdnumber w.charSigned vol with ⟨known, rest⟩
  cases known with
  | false => exact returns_pure.2 rfl
  | true =>
    have hmount : ∀ w' : State, w'.registered = false → w'.disk = w.disk →
        Returns (mountVolume vol 0) w' fun _ w'' => w''.disk = w.disk := fun w' hr hd => by
      rw [mountVolume, returns_bind, returns_get]
      rcases getLdnumber w'.charSigned vol with ⟨known, rest⟩
      cases known with
      | false => exact returns_pure.2 hd
      | true =>
        dsimp only
        rw [if_pos (by rw [hr]; rfl)]
        exact returns_pure.2 hd
    dsimp only
    rw [returns_bind, returns_modify, returns_ite]
    have hoff : ∀ w' : State, w'.registered = false → w'.disk = w.disk →
        (opt = 0 → Returns (pure .ok : M FRESULT) w' fun _ w'' => w''.disk = w.disk) ∧
        (¬opt = 0 → Returns (do let (res, _) ← mountVolume vol 0; return res : M FRESULT) w'
          fun _ w'' => w''.disk = w.disk) := fun w' hr hd =>
      ⟨fun _ => returns_pure.2 hd, fun _ => returns_bind.2 ((hmount w' hr hd).mono
        fun _ _ h => returns_pure.2 h)⟩
    by_cases hr : w.registered = true
    · rw [if_pos (.inl hr)]
      exact hoff _ rfl rfl
    · rw [if_neg fun h => h.elim hr (by decide)]
      exact hoff w (by simpa using hr) rfl

/-- A refused `f_mkdir` leaves no trace on the medium unless it is refused late. -/
theorem mkdir_traceless_iff {g : Geometry} (hg : g.Sound) {w : State} (hw : Inv g w)
    (hclean : w.wflag = false) (hreg : w.registered = true) (hon : g.volEnd ≤ w.disk.sectors)
    (hcons : TreeConsistent g w.logical) (path vol : List UInt8) (opt : Nat) :
    Returns (mkdirUnmount path vol opt) w (fun r w' => r ≠ .ok → r ≠ .diskErr →
      Traceless g w.disk.data w'.disk.data) ↔ ¬LateRefusal g w path := by
  have hmkdir := fMkdir_traced hg hw hclean hreg hon hcons path
  rw [mkdirUnmount, returns_bind]
  constructor
  · intro h hlate
    obtain ⟨r, w₁, -, hrun, htr⟩ := h.and hmkdir
    obtain ⟨rfl, c, hc, hfree, hmark⟩ := htr.late hlate
    rw [returns_bind] at hrun
    obtain ⟨_, w₂, -, hrun, hdisk⟩ := hrun.and (fMount_unmount w₁ vol opt)
    have htl := returns_pure.1 hrun (by decide) (by decide)
    rw [hdisk] at htl
    exact hmark ((htl.entries c hc.2).trans hfree)
  · intro hlate
    refine hmkdir.mono fun r w₁ htr => ?_
    rw [returns_bind]
    refine (fMount_unmount w₁ vol opt).mono fun _ w₂ hdisk => returns_pure.2 fun hok herr => ?_
    rcases htr.early hlate with h | h | h
    · exact absurd h hok
    · exact absurd h herr
    · rw [hdisk, h]
      exact .refl g _

/-! ## A volume with a full root directory -/

/-- The places are those of a table without a terminator, in its order. -/
def isTable (g : Geometry) (L : Nat → Sector) : List Pos → Bool
  | [] => false
  | [p] => p.head L != 0 && match p.next g L with
    | .error .noFile => true
    | _ => false
  | p :: q :: ps => p.head L != 0 && (p.next g L).toOption == some q && isTable g L (q :: ps)

theorem isTable_sound {g : Geometry} {L : Nat → Sector} : ∀ {p : Pos} {ps : List Pos},
    isTable g L (p :: ps) = true → Table g L p (p :: ps)
  | p, [], h => by
    rw [isTable, Bool.and_eq_true, bne_iff_ne] at h
    refine .last h.1 ?_
    split at h
    · assumption
    · cases h.2
  | p, q :: ps, h => by
    rw [isTable, Bool.and_eq_true, Bool.and_eq_true, bne_iff_ne, beq_iff_eq] at h
    cases hn : p.next g L with
    | error e =>
      rw [hn] at h
      cases h.1.2
    | ok r =>
      rw [hn] at h
      cases h.1.2
      exact .entry h.1.1 hn (isTable_sound h.2)

/-- The places of the static root directory stay there. -/
theorem Along.static {g : Geometry} {L : Nat → Sector} {p q : Pos} (h : Along g L p q)
    (h0 : p.clust = 0) : q.clust = 0 := by
  induction h with
  | refl => exact h0
  | @next p q _ hn _ ih =>
    refine ih ?_
    unfold Pos.next at hn
    rw [if_pos h0] at hn
    split at hn
    · cases hn
    · split at hn
      · split at hn
        · cases hn
        · cases hn
          exact h0
      · cases hn
        exact h0

/-- A volume whose only directory is a static root directory without sub-directories. -/
theorem TreeConsistent.of_root {g : Geometry} {L : Nat → Sector} {p : Pos} {ps : List Pos}
    (hf : g.fsType ≠ .fat32) (hstart : g.dirStart 0 = p) (h0 : p.clust = 0)
    (ht : isTable g L (p :: ps) = true) (hsub : (p :: ps).all fun q => !q.isSubdir L)
    (hlinks : ∀ e, g.IsClust e → g.entry L e ≠ 1) : TreeConsistent g L := by
  have htable := isTable_sound ht
  have hroot : ∀ c, IsDir g L c → c = 0 := fun c hc => by
    induction hc with
    | root => rfl
    | @sub c qs q _ ht' hq hs ih =>
      rw [ih, hstart] at ht'
      rw [← htable.unique ht'] at hq
      have := List.all_eq_true.1 hsub q hq
      rw [hs] at this
      cases this
  refine ⟨fun c hc => ?_, fun c hc q hq => ?_, hlinks⟩
  · rw [hroot c hc, hstart]
    exact ⟨.inl ⟨rfl, fun h => absurd h hf⟩, _, htable⟩
  · rw [hroot c hc, hstart] at hq
    exact .inl (hq.static h0)

/-- The volume with the full root directory is consistent. -/
theorem fullRoot_consistent {w : State}
    (hm : mountVolume [] 0 (registeredOn fullRoot) = some ((.ok, []), w)) :
    TreeConsistent w.geo w.logical ∧ w.wflag = false ∧ w.registered = true := by
  have h : (mountVolume [] 0 (registeredOn fullRoot)).map (fun r =>
      ((r.2.geo, r.2.wflag, r.2.registered),
      isTable r.2.geo r.2.logical ((List.range 16).map fun i => ⟨32 * i, 0, 3⟩) &&
        ((List.range 16).map fun i => (⟨32 * i, 0, 3⟩ : Pos)).all (fun q =>
        !q.isSubdir r.2.logical) &&
        (List.range 126).all fun e => r.2.geo.entry r.2.logical e != 1)) =
      some ((⟨.fat12, 2, 16, 1, 126, 1, 0, 1, 3, 4, 1⟩, false, true), true) := by
    decide +kernel
  rw [hm, Option.map_some, Option.some.injEq, Prod.mk.injEq, Prod.mk.injEq, Prod.mk.injEq] at h
  obtain ⟨⟨hgeo, hclean, hreg⟩, h⟩ := h
  rw [Bool.and_eq_true, Bool.and_eq_true] at h
  refine ⟨.of_root (by rw [hgeo]; decide) (by rw [hgeo]; rfl) rfl h.1.1 h.1.2 fun e he => ?_,
    hclean, hreg⟩
  have hlt := he.2
  rw [hgeo] at hlt
  simpa using List.all_eq_true.1 h.2 e (List.mem_range.2 hlt)

/-- The run of `f_mkdir` on this volume with a name that is not there. -/
theorem fullRoot_run {w : State}
    (hm : mountVolume [] 0 (registeredOn fullRoot) = some ((.ok, []), w)) :
    ∃ w', mkdirUnmount [0x5A] [] 0 w = some (.denied, w') ∧
      ¬Traceless w.geo w.disk.data w'.disk.data := by
  have h : (mountVolume [] 0 (registeredOn fullRoot)).bind (fun r =>
      (mkdirUnmount [0x5A] [] 0 r.2).map
      fun q => (q.1, r.2.geo.nFatent, r.2.geo.entry r.2.disk.data 2,
        r.2.geo.entry q.2.disk.data 2)) =
      some (.denied, 126, 0, 0xFFF) := by
    decide +kernel
  rw [hm, Option.bind_some] at h
  obtain ⟨⟨r, w'⟩, hr, h⟩ := Option.map_eq_some_iff.1 h
  simp only [Prod.mk.injEq] at h
  obtain ⟨rfl, hn, hfree, hmark⟩ := h
  refine ⟨w', hr, fun ht => ?_⟩
  have := ht.entries 2 (by omega)
  omega

/-- On the volume with the full root directory the refusal of `f_mkdir` leaves a cluster marked on
the medium. -/
theorem mkdir_trace_full : ∃ w w', mountVolume [] 0 (registeredOn fullRoot) = some ((.ok, []), w) ∧
    w.wflag = false ∧ TreeConsistent w.geo w.logical ∧
    mkdirUnmount [0x5A] [] 0 w = some (.denied, w') ∧
    ¬Traceless w.geo w.disk.data w'.disk.data := by
  obtain ⟨w, hm, -⟩ := fullRoot_mounted
  obtain ⟨hcons, hclean, -⟩ := fullRoot_consistent hm
  obtain ⟨w', hr, ht⟩ := fullRoot_run hm
  exact ⟨w, w', hm, hclean, hcons, hr, ht⟩

/-- The hypotheses are met by this volume, where the new directory is refused late. -/
theorem mkdir_traceless_iff_full : ∃ w, mountVolume [] 0 (registeredOn fullRoot) =
      some ((.ok, []), w) ∧ LateRefusal w.geo w [0x5A] := by
  obtain ⟨w, hm, hg, hi, -, hon⟩ := fullRoot_mounted
  obtain ⟨hcons, hclean, hreg⟩ := fullRoot_consistent hm
  obtain ⟨w', hr, ht⟩ := fullRoot_run hm
  refine ⟨w, hm, by_contra fun hlate => ht ?_⟩
  exact ((mkdir_traceless_iff hg hi hclean hreg hon hcons [0x5A] [] 0).2 hlate).of_eq hr (by decide)
    (by decide)

end FatFs
