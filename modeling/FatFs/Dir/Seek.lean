import FatFs.Access.Clean
import FatFs.Fat.Exact
import FatFs.Placed.Dir

/-!
# Stepping and seeking in a directory

`dir_sdi` finds an entry of a directory by a division and a walk along the chain, `dir_next` entry
by entry by tests for the sector and the cluster boundary. Both arrive at the place `DIR.entryAt`,
which is given by the number of the entry alone, and both fail if there is none: the entry is behind
the limit of a directory or the end of the static root directory, or the chain is broken, ends, or
cannot be read before it (`dirSteps_dirSdi`).

`get_fat` gives the same answer however often it is asked (`getFat_steady`), also on a device that
ends inside the FAT or refuses to take the window.
-/

namespace FatFs

open Run

/-- A state in a run from `w` that only looked at FAT entries. -/
structure Steady (g : Geometry) (w w' : State) : Prop where
  inv : Inv g w'
  same : Same g w w'
  sectors : w'.disk.sectors = w.disk.sectors
  good : w'.Flushable ↔ w.Flushable

/-- Nothing is changed when nothing is done. -/
theorem Steady.refl {g : Geometry} {w : State} (h : Inv g w) : Steady g w w :=
  ⟨h, .refl g w, rfl, .rfl⟩

/-- Two steps that only read. -/
theorem Steady.trans {g : Geometry} {w₁ w₂ w₃ : State} (h : Steady g w₁ w₂) (h' : Steady g w₂ w₃) :
    Steady g w₁ w₃ :=
  ⟨h'.inv, h.same.trans h'.same, h'.sectors.trans h.sectors, h'.good.trans h.good⟩

/-- The answer of `get_fat`. -/
def State.answer (w : State) (c : Nat) : Nat := ((getFat c w).map Prod.fst).getD 1

/-- The number that is reached from `c` over `k` answers of `get_fat`. -/
def State.follow (w : State) (c : Nat) : Nat → Nat
  | 0 => c
  | k + 1 => w.answer (w.follow c k)

/-- The sectors of the FAT entry of `c` can be loaded. -/
def Geometry.EntryOn (g : Geometry) (w : State) (c : Nat) : Prop :=
  w.Flushable ∧ ∀ s ∈ g.fatSects c, s < w.disk.sectors

/-- The same entries are on the device. -/
theorem Steady.entryOn {g : Geometry} {w w' : State} (h : Steady g w w') (c : Nat) :
    g.EntryOn w' c ↔ g.EntryOn w c := by
  unfold Geometry.EntryOn
  rw [h.good, h.sectors]

/-- A window that was moved clean could be flushed. -/
theorem moveWindow_flushable (w : State) (s : Nat) : Returns (moveWindow s) w fun _ w' =>
    s ≠ w.winsect → w'.wflag = false → w.Flushable := by
  rw [moveWindow, returns_bind, returns_get, returns_ite]
  refine ⟨fun _ => ?_, fun hs => returns_pure.2 fun hne => absurd hne hs⟩
  rw [returns_bind]
  refine (syncWindow_spec w).mono fun r w₁ h₁ => ?_
  rcases h₁.out with ⟨rfl, _, _, hf⟩ | ⟨rfl, _, hd, _, _⟩
  · simp only [returns_ite, returns_bind, returns_diskRead, returns_modify, returns_pure]
    exact ⟨fun _ => ⟨fun _ _ _ => hf, fun _ _ _ => hf⟩, by simp⟩
  · simp only [returns_ite, returns_pure]
    exact ⟨by simp, fun _ _ hc => by rw [hd] at hc; cases hc⟩

/-- What `get_fat` answers for the number `c` in the state `w`. -/
structure Answer (g : Geometry) (w : State) (c r : Nat) : Prop where
  out : ¬g.IsClust c → r = 1
  on : g.IsClust c → g.EntryOn w c → r = g.entry w.logical c
  off : g.IsClust c → ¬g.EntryOn w c → r = DISKERR

/-- `get_fat` has one answer for a cluster. -/
theorem Answer.unique {g : Geometry} {w : State} {c r r' : Nat} (h : Answer g w c r)
    (h' : Answer g w c r') : r = r' := by
  by_cases hc : g.IsClust c
  · by_cases ho : g.EntryOn w c
    · rw [h.on hc ho, h'.on hc ho]
    · rw [h.off hc ho, h'.off hc ho]
  · rw [h.out hc, h'.out hc]

section
variable {g : Geometry} (hg : g.Sound)

include hg

/-- Moving the window to the FAT succeeds exactly if the window can be flushed and the sector is on
the device. -/
theorem moveFat_steady {w : State} (hw : Inv g w) {i : Nat} (hi : i < g.fsize * SS) :
    Returns (moveWindow (add32 g.fatbase (i / SS))) w fun r w' => Steady g w w' ∧
      (r = .ok ↔ w.Flushable ∧ add32 g.fatbase (i / SS) < w.disk.sectors) ∧
      (r = .ok → w'.win = w.logical (g.fatbase + i / SS)) := by
  refine ((moveFat hg hw hi).and ((moveWindow_spec w _).and (moveWindow_flushable w _))).mono
    fun r w' ⟨h, hp, hfl⟩ => ?_
  rw [hg.add32_fat hi] at hp hfl ⊢
  have hback : (w'.Flushable → w.Flushable) ∧ (r = .ok → w.Flushable) := by
    cases hp with
    | same hs => exact ⟨id, fun hr _ => by rw [← hs]; exact h.onDevice hr⟩
    | moved _ hne hc => exact ⟨fun _ => hfl hne hc, fun _ => hfl hne hc⟩
    | stuck hk _ _ hd hs _ _ hrel =>
      refine ⟨fun hf => ?_, by simp⟩
      have h₁ := hf hd
      have h₂ := hrel hw.reliable
      rw [hs, hk.sectors] at h₁
      omega
    | lost _ hne hc => exact ⟨fun _ => hfl hne hc, by simp⟩
  exact ⟨⟨h.inv, h.same, h.kept.sectors, hback.1, fun hf => (h.good hf).1⟩,
    ⟨fun hr => ⟨hback.2 hr, h.onDevice hr⟩, fun ⟨hf, hon⟩ => (h.good hf).2 hon⟩, h.filled⟩

/-- The answer is the same after a step that only reads. -/
theorem Answer.steady {w w' : State} (hs : Steady g w w') {c r : Nat} (h : Answer g w' c r) :
    Answer g w c r where
  out := h.out
  on hc ho := by rw [← hg.entry_same hs.same hc.2]; exact h.on hc ((hs.entryOn c).2 ho)
  off hc ho := h.off hc fun ho' => ho ((hs.entryOn c).1 ho')

/-- `get_fat` gives its answer, and only reads. -/
theorem getFat_answer {w : State} (hw : Inv g w) (c : Nat) :
    Returns (getFat c) w fun r w' => Steady g w w' ∧ Answer g w c r := by
  rw [getFat, returns_bind, returns_get, returns_ite, hw.geo]
  refine ⟨fun hc => returns_pure.2 ⟨.refl hw, fun _ => rfl, fun hcl => ?_, fun hcl => ?_⟩,
    fun hc => ?_⟩
  · exact absurd hc (by have := hcl.1; have := hcl.2; omega)
  · exact absurd hc (by have := hcl.1; have := hcl.2; omega)
  have hcl : g.IsClust c := ⟨by omega, by omega⟩
  have hfail : ∀ {w'}, Steady g w w' → ¬g.EntryOn w c → Steady g w w' ∧ Answer g w c DISKERR :=
    fun hs hn => ⟨hs, fun h => absurd hcl h, fun _ ho => absurd ho hn, fun _ _ => rfl⟩
  have hread : ∀ {w' r}, Steady g w w' → g.EntryOn w c → r = g.entry w.logical c →
      Steady g w w' ∧ Answer g w c r :=
    fun hs ho hr => ⟨hs, fun h => absurd hcl h, fun _ _ => hr, fun _ hn => absurd ho hn⟩
  have hon : g.EntryOn w c ↔ w.Flushable ∧ ∀ s ∈ g.fatSects c, s < w.disk.sectors := .rfl
  cases hf : g.fsType with
  | none => exact absurd hf hg.fsType
  | fat12 =>
    have hb := hg.byte12 hf hcl.2
    have hentry : ∀ L, g.entry L c = Packed.get12 (g.fatByte L) c := fun L => by
      simp only [Geometry.entry, Geometry.entryOf, hf]
    have hsects : g.fatSects c =
        [add32 g.fatbase ((c + c / 2) / SS), add32 g.fatbase ((c + c / 2 + 1) / SS)] := by
      simp only [Geometry.fatSects, hf]
    simp only [hsects, List.forall_mem_cons] at hon
    simp only [returns_bind, returns_ite, returns_pure, returns_get]
    refine (moveFat_steady hg hw (by omega)).mono fun r w₁ hpost => ?_
    obtain ⟨h₁, hr, hv⟩ := hpost
    refine ⟨fun hne => hfail h₁ fun ho => ?_, fun hok => ?_⟩
    · exact hne (hr.2 ⟨(hon.1 ho).1, (hon.1 ho).2.1⟩)
    have hok' : r = .ok := by simpa using hok
    refine (moveFat_steady hg h₁.inv hb).mono fun r₂ w₂ hpost => ?_
    obtain ⟨h₂, hr₂, hv₂⟩ := hpost
    refine ⟨fun hne => hfail (h₁.trans h₂) fun ho => ?_, fun hok₂ => ?_⟩
    · refine hne (hr₂.2 ⟨h₁.good.2 (hon.1 ho).1, ?_⟩)
      rw [h₁.sectors]
      exact (hon.1 ho).2.2.1
    · have hok₂' : r₂ = .ok := by simpa using hok₂
      have hlt := (hr₂.1 hok₂').2
      rw [h₁.sectors] at hlt
      refine hread (h₁.trans h₂) (hon.2 ⟨(hr.1 hok').1, (hr.1 hok').2, hlt, by simp⟩) ?_
      rw [hentry, hv hok', hv₂ hok₂', h₁.same _ (Geometry.inFat_byte hb).not_inFat2]
      rfl
  | fat16 =>
    have hb := hg.byte16 hf hcl.2
    have hdiv : c / (SS / 2) = 2 * c / SS := by simp only [SS]; omega
    have hsects : g.fatSects c = [add32 g.fatbase (2 * c / SS)] := by
      simp only [Geometry.fatSects, hf, hdiv]
    simp only [hsects, List.forall_mem_cons] at hon
    simp only [returns_bind, returns_ite, returns_pure, returns_get, hdiv]
    refine (moveFat_steady hg hw (by omega)).mono fun r w₁ hpost => ?_
    obtain ⟨h₁, hr, hv⟩ := hpost
    refine ⟨fun hne => hfail h₁ fun ho => ?_, fun hok => ?_⟩
    · exact hne (hr.2 ⟨(hon.1 ho).1, (hon.1 ho).2.1⟩)
    · have hok' : r = .ok := by simpa using hok
      refine hread h₁ (hon.2 ⟨(hr.1 hok').1, (hr.1 hok').2, by simp⟩) ?_
      rw [hv hok', Geometry.ldWord_entry hf]
  | fat32 =>
    have hb := hg.byte32 hf hcl.2
    have hdiv : c / (SS / 4) = 4 * c / SS := by simp only [SS]; omega
    have hsects : g.fatSects c = [add32 g.fatbase (4 * c / SS)] := by
      simp only [Geometry.fatSects, hf, hdiv]
    simp only [hsects, List.forall_mem_cons] at hon
    simp only [returns_bind, returns_ite, returns_pure, returns_get, hdiv]
    refine (moveFat_steady hg hw (by omega)).mono fun r w₁ hpost => ?_
    obtain ⟨h₁, hr, hv⟩ := hpost
    refine ⟨fun hne => hfail h₁ fun ho => ?_, fun hok => ?_⟩
    · exact hne (hr.2 ⟨(hon.1 ho).1, (hon.1 ho).2.1⟩)
    · have hok' : r = .ok := by simpa using hok
      refine hread h₁ (hon.2 ⟨(hr.1 hok').1, (hr.1 hok').2, by simp⟩) ?_
      rw [hv hok', Geometry.ldDword_entry hf]

/-- The answer that is computed from the state is that of `get_fat`. -/
theorem State.answer_answer {w : State} (hw : Inv g w) (c : Nat) : Answer g w c (w.answer c) := by
  obtain ⟨r, w', he, _, h⟩ := getFat_answer hg hw c
  have hr : w.answer c = r := by rw [State.answer, he]; rfl
  rw [hr]
  exact h

/-- `get_fat` gives the same answer in every state that was reached by asking. -/
theorem getFat_steady {w w₁ : State} (hw : Inv g w) (h : Steady g w w₁) (c : Nat) :
    Returns (getFat c) w₁ fun r w₂ => r = w.answer c ∧ Steady g w w₂ :=
  (getFat_answer hg h.inv c).mono fun _ _ ⟨h₂, hr⟩ =>
    ⟨(hr.steady hg h).unique (w.answer_answer hg hw c), h.trans h₂⟩

/-! ## Following the answers -/

/-- A walk that arrives at a cluster came from one. -/
theorem State.follow_clust {w : State} (hw : Inv g w) {c j : Nat}
    (h : g.IsClust (w.follow c (j + 1))) : g.IsClust (w.follow c j) := by
  by_contra hn
  have h1 : w.follow c (j + 1) = 1 := (w.answer_answer hg hw _).out hn
  rw [h1] at h
  exact absurd h.1 (by decide)

/-- The numbers before a valid cluster are valid clusters. -/
theorem State.follow_clust_of_le {w : State} (hw : Inv g w) {c i j : Nat} (hij : i ≤ j)
    (h : g.IsClust (w.follow c j)) : g.IsClust (w.follow c i) := by
  induction j, hij using Nat.le_induction with
  | base => exact h
  | succ j _ ih => exact ih (State.follow_clust hg hw h)

/-- An answer that is a valid cluster is the FAT entry. -/
theorem State.follow_eq_chain {w : State} (hw : Inv g w) {c j : Nat}
    (h : g.IsClust (w.follow c j)) : w.follow c j = g.chain w.logical c j := by
  induction j with
  | zero => rfl
  | succ j ih =>
    have hj := State.follow_clust hg hw h
    have ha := w.answer_answer hg hw (w.follow c j)
    have hon : g.EntryOn w (w.follow c j) := by
      by_contra hn
      have hd : w.follow c (j + 1) = DISKERR := ha.off hj hn
      have hlt := h.2
      have hn := hg.nFatent_lt
      omega
    calc w.follow c (j + 1) = g.entry w.logical (w.follow c j) := ha.on hj hon
      _ = g.chain w.logical c (j + 1) := by rw [ih hj]; rfl

/-- A walk stays on the chain. -/
theorem State.follow_onChain {w : State} (hw : Inv g w) {c j : Nat}
    (h : g.IsClust (w.follow c j)) : g.OnChain w.logical c (w.follow c j) := by
  refine ⟨j, (State.follow_eq_chain hg hw h).symm, fun i hi => ?_⟩
  have hc := State.follow_clust_of_le hg hw hi h
  rw [← State.follow_eq_chain hg hw hc]
  exact hc

omit hg

/-! ## The place of an entry -/

/-- The first cluster of a directory; 0 is the static root directory (`ff.c:1726-1729`). -/
def DIR.startClust (dp : DIR) (g : Geometry) : Nat :=
  if dp.sclust = 0 ∧ g.fsType = .fat32 then g.dirbase else dp.sclust

/-- The directory object moved to the entry `k`, in the given cluster and sector. -/
def DIR.place (dp : DIR) (k clust sect : Nat) : DIR :=
  { dp with dptr := SZDIRE * k, clust := clust, sect := sect, dir := SZDIRE * k % SS }

instance (g : Geometry) (c : Nat) : Decidable (g.IsClust c) := inferInstanceAs (Decidable (_ ∧ _))

/-- The directory object at the entry `k` of the directory, if the directory has one that can be
reached. -/
def DIR.entryAt (dp : DIR) (g : Geometry) (w : State) (k : Nat) : Option DIR :=
  if MAX_DIR ≤ SZDIRE * k then none
  else if dp.startClust g = 0 then
    if g.nRootdir ≤ k then none else some (dp.place k 0 (g.dirbase + SZDIRE * k / SS))
  else
    let c := w.follow (dp.startClust g) (SZDIRE * k / SS / g.csize)
    if g.IsClust c then some (dp.place k c (clst2sect g c + SZDIRE * k / SS % g.csize)) else none

/-- The answer `r` is the place `o`, and a failure if there is none. -/
def Arrives (o : Option DIR) (r : FRESULT × DIR) : Prop :=
  match o with
  | some e => r = (.ok, e)
  | none => r.1 ≠ .ok

/-- The end of the loop of `dir_sdi` in a directory from `c`, for an entry with `q` clusters before
its own. -/
structure SdiEnd (g : Geometry) (w : State) (c q rem : Nat) (r : Except FRESULT (Nat × Nat))
    (w' : State) : Prop where
  steady : Steady g w w'
  ok : ∀ p, r = .ok p → p = (w.follow c q, rem) ∧ (q = 0 ∨ g.IsClust (w.follow c q))
  error : ∀ e, r = .error e → e ≠ .ok ∧ ¬g.IsClust (w.follow c q)

include hg

/-- One round of `dir_sdi` follows one link. -/
theorem sdiRound_steady {w w₁ : State} (hw : Inv g w) (h : Steady g w w₁) {c ofs csz j : Nat}
    (hcsz : 0 < csz) (hj : j * csz ≤ ofs) (hcl : j = 0 ∨ g.IsClust (w.follow c j)) :
    Returns (sdiRound csz (w.follow c j, ofs - j * csz)) w₁ fun r w₂ =>
      (∀ p, r = .inl p → Steady g w w₂ ∧ p = (w.follow c (j + 1), ofs - (j + 1) * csz) ∧
        (j + 1) * csz ≤ ofs ∧ g.IsClust (w.follow c (j + 1))) ∧
      ∀ e, r = .inr e → SdiEnd g w c (ofs / csz) (ofs % csz) e w₂ := by
  have hsucc : (j + 1) * csz = j * csz + csz := Nat.succ_mul j csz
  rw [sdiRound]
  simp only [returns_ite, returns_bind, returns_pure, returns_get]
  refine ⟨fun hle => ?_, fun hlt => ⟨by simp, ?_⟩⟩
  · have hq : j + 1 ≤ ofs / csz := (Nat.le_div_iff_mul_le hcsz).2 (by omega)
    -- a number that is no cluster ends the chain before the entry
    have hend : ∀ {w₂ e}, Steady g w w₂ → e ≠ .ok → ¬g.IsClust (w.follow c (j + 1)) →
        SdiEnd g w c (ofs / csz) (ofs % csz) (.error e) w₂ := fun hs he hn =>
      ⟨hs, by simp, by rintro _ ⟨⟩; exact ⟨he, fun h => hn (State.follow_clust_of_le hg hw hq h)⟩⟩
    refine (getFat_steady hg hw h _).mono fun n w₂ hpost => ?_
    obtain ⟨hn, h₂⟩ := hpost
    have hn' : w.follow c (j + 1) = n := hn.symm
    rw [h₂.inv.geo]
    refine ⟨fun hd => ⟨by simp, ?_⟩, fun _ => ⟨fun hout => ⟨by simp, ?_⟩, fun hin => ⟨?_, by simp⟩⟩⟩
    · rintro _ ⟨⟩
      refine hend h₂ (by simp) fun hc => ?_
      have h₃ := hc.2
      have h₄ := hg.nFatent_lt
      omega
    · rintro _ ⟨⟩
      refine hend h₂ (by simp) fun hc => ?_
      have h₃ := hc.1
      have h₄ := hc.2
      omega
    · rintro _ ⟨⟩
      refine ⟨h₂, ?_, by omega, by rw [hn']; omega, by rw [hn']; omega⟩
      rw [hn', hsucc, Nat.sub_sub]
  · rintro _ ⟨⟩
    have hq : ofs / csz = j := Nat.div_eq_of_lt_le hj (by omega)
    refine ⟨h, ?_, by simp⟩
    rintro _ ⟨⟩
    have hm := Nat.mod_eq_sub_mul_div (x := ofs) (k := csz)
    rw [hq]
    refine ⟨?_, hcl⟩
    rw [hm, hq, Nat.mul_comm]

/-- The loop of `dir_sdi` follows as many links as the offset has clusters. -/
theorem sdiLoop_steady {w w₁ : State} (hw : Inv g w) (h : Steady g w w₁) (c : Nat) {ofs csz n : Nat}
    (hcsz : 0 < csz) (hn : ofs / csz < n) :
    Returns (loop (sdiRound csz) n (c, ofs)) w₁ (SdiEnd g w c (ofs / csz) (ofs % csz)) := by
  refine Returns.loop (I := fun m p w' => ∃ j, Steady g w w' ∧ m = ofs / csz - j ∧
      p = (w.follow c j, ofs - j * csz) ∧ j * csz ≤ ofs ∧ (j = 0 ∨ g.IsClust (w.follow c j)))
    ?_ ⟨0, h, rfl, by rw [Nat.zero_mul]; rfl, by omega, .inl rfl⟩ hn
  rintro m p w₂ ⟨j, h₂, rfl, rfl, hj, hcl⟩
  refine (sdiRound_steady hg hw h₂ hcsz hj hcl).mono fun r w₃ ⟨hl, hr⟩ => ?_
  cases r with
  | inl p =>
    obtain ⟨h₃, hp, hle, hc⟩ := hl p rfl
    have hq : j + 1 ≤ ofs / csz := (Nat.le_div_iff_mul_le hcsz).2 hle
    exact ⟨_, by omega, j + 1, h₃, rfl, hp, hle, .inr hc⟩
  | inr e => exact hr e rfl

omit hg in
/-- The two kinds of places. -/
theorem DIR.entryAt_cases {dp e : DIR} {w : State} {k : Nat} (h : dp.entryAt g w k = some e) :
    (dp.startClust g = 0 ∧ k < g.nRootdir ∧ e = dp.place k 0 (g.dirbase + SZDIRE * k / SS)) ∨
    (dp.startClust g ≠ 0 ∧ ∃ c, w.follow (dp.startClust g) (SZDIRE * k / SS / g.csize) = c ∧
      g.IsClust c ∧ e = dp.place k c (clst2sect g c + SZDIRE * k / SS % g.csize)) := by
  unfold entryAt at h
  dsimp only at h
  split at h
  · cases h
  split at h
  · split at h
    · cases h
    · cases h
      exact .inl ⟨‹_›, Nat.lt_of_not_le ‹_›, rfl⟩
  · split at h
    · cases h
      exact .inr ⟨‹_›, _, rfl, ‹_›, rfl⟩
    · cases h

/-- The directory object at an entry stands on it. -/
theorem DIR.entryAt_at {dp e : DIR} {w : State} {k : Nat} (h : dp.entryAt g w k = some e) :
    e.At g := by
  have hal : SZDIRE * k % SZDIRE = 0 := Nat.mul_mod_right _ _
  rcases entryAt_cases h with ⟨_, hk, rfl⟩ | ⟨_, c, _, hc, rfl⟩
  · have hf : g.fsType ≠ .fat32 := fun hf => by
      rw [hg.rootType.1 hf] at hk
      exact Nat.not_lt_zero k hk
    refine ⟨.inl ⟨rfl, hf, ?_, rfl⟩, rfl, hal⟩
    show SZDIRE * k / SZDIRE < g.nRootdir
    rw [Nat.mul_div_cancel_left k (by decide)]
    exact hk
  · have h2 := hc.1
    exact ⟨.inr ⟨by dsimp only [place]; omega, hg.clst2sect_pos hc, rfl⟩, rfl, hal⟩

/-- The sectors of the static root directory are before the data area. -/
theorem Geometry.Sound.rootSect {k : Nat} (hk : k < g.nRootdir) :
    0 < g.dirbase ∧ g.dirbase + SZDIRE * k / SS < g.database := by
  have hf : g.fsType ≠ .fat32 := fun hf => by
    rw [hg.rootType.1 hf] at hk
    exact Nat.not_lt_zero k hk
  have hdb := hg.dirbase hf
  have hda := hg.database
  have hrs := hg.rootSize
  have hp := hg.area_pos
  simp only [SZDIRE, SS]
  omega

/-- `dir_sdi` arrives at the entry, and fails if there is none. -/
theorem dirSdi_arrives {w w₁ : State} (hw : Inv g w) (h : Steady g w w₁) {dp : DIR}
    (hlt : dp.startClust g < W32) (k : Nat) :
    Returns (dirSdi dp (SZDIRE * k)) w₁ fun r w₂ => Steady g w w₂ ∧
      Arrives (dp.entryAt g w k) r := by
  have hal : ¬SZDIRE * k % SZDIRE ≠ 0 := by rw [Nat.mul_mod_right]; simp
  have hk : SZDIRE * k / SZDIRE = k := Nat.mul_div_cancel_left k (by decide)
  have hstart : (if dp.sclust = 0 ∧ g.fsType = .fat32 then g.dirbase else dp.sclust) =
      dp.startClust g := rfl
  rw [dirSdi, returns_bind, returns_get, h.inv.geo]
  simp only [returns_ite, returns_pure, returns_bind, hstart, hk]
  unfold DIR.entryAt
  dsimp only
  refine ⟨fun hm => ⟨h, ?_⟩, fun hm => ⟨fun h0 => ⟨fun hr => ⟨h, ?_⟩, fun hr => ⟨h, ?_⟩⟩,
    fun h0 => ?_⟩⟩
  · rw [if_pos (by omega)]
    exact FRESULT.noConfusion
  · rw [if_neg (by omega), if_pos h0, if_pos hr]
    exact FRESULT.noConfusion
  · -- the static table
    rw [if_neg (by omega), if_pos h0, if_neg hr]
    have hs := hg.rootSect (Nat.lt_of_not_le hr)
    have hd := hg.database_lt
    rw [h0, sdiEnd, if_neg (by omega), add32_of_lt (by omega)]
    rfl
  · -- the dynamic table: the loop walks `SZDIRE * k / SS / csize` clusters
    have hcsz : 0 < g.csize * SS := Nat.mul_pos hg.csize_pos (by decide)
    have hdiv : SZDIRE * k / (g.csize * SS) = SZDIRE * k / SS / g.csize := by
      rw [Nat.mul_comm g.csize, Nat.div_div_eq_div_mul]
    have hmod : SZDIRE * k % (g.csize * SS) / SS = SZDIRE * k / SS % g.csize := by
      rw [Nat.mul_comm g.csize, Nat.mod_mul_right_div_self]
    have hrem : SZDIRE * k % (g.csize * SS) % SS = SZDIRE * k % SS :=
      Nat.mod_mod_of_dvd _ (Nat.dvd_mul_left SS g.csize)
    have hfuel : SZDIRE * k / (g.csize * SS) < MAX_DIR / SS + 1 := by
      have h₁ := Nat.div_le_self (SZDIRE * k / SS) g.csize
      have h₂ : SZDIRE * k / SS ≤ MAX_DIR / SS := Nat.div_le_div_right (by omega)
      omega
    refine (sdiLoop_steady hg hw h (dp.startClust g) hcsz hfuel).mono fun r w₂ h₂ => ?_
    rw [if_neg (by omega), if_neg h0]
    rw [hdiv] at h₂
    cases r with
    | error e =>
      obtain ⟨he, hn⟩ := h₂.error e rfl
      rw [if_neg hn]
      exact returns_pure.2 ⟨h₂.steady, he⟩
    | ok p =>
      obtain ⟨rfl, hq⟩ := h₂.ok p rfl
      refine returns_pure.2 ⟨h₂.steady, ?_⟩
      by_cases hc : g.IsClust (w.follow (dp.startClust g) (SZDIRE * k / SS / g.csize))
      · have harea := hg.inArea_lt (hg.inArea_clst hc (Nat.mod_lt (SZDIRE * k / SS) hg.csize_pos))
        rw [if_pos hc, sdiEnd, if_neg (hg.clst2sect_pos hc), hmod, hrem, add32_of_lt harea]
        rfl
      · -- only the first cluster is not checked by the loop
        have hq0 := hq.resolve_right hc
        rw [hq0] at hc ⊢
        rw [if_neg hc, sdiEnd, if_pos (hg.clst2sect_eq_zero hc hlt)]
        exact FRESULT.noConfusion

/-- `dir_next` goes from an entry to the next one, and fails if there is none. -/
theorem dirNext_arrives {w w₁ : State} (hw : Inv g w) (h : Steady g w w₁) {dp e : DIR} {k : Nat}
    (he : dp.entryAt g w k = some e) :
    Returns (dirNext e false) w₁ fun r w₂ => Steady g w w₂ ∧
      Arrives (dp.entryAt g w (k + 1)) r := by
  have hne := (DIR.entryAt_at hg he).sect_ne hg
  have hptr : e.dptr + SZDIRE = SZDIRE * (k + 1) := by
    rcases DIR.entryAt_cases he with ⟨_, _, rfl⟩ | ⟨_, c, _, _, rfl⟩ <;> rfl
  have hofs : SZDIRE * (k + 1) / SZDIRE = k + 1 := Nat.mul_div_cancel_left _ (by decide)
  rw [dirNext, returns_bind, returns_get, h.inv.geo]
  simp only [hptr, hofs]
  by_cases hm : MAX_DIR ≤ SZDIRE * (k + 1)
  · have hnone : dp.entryAt g w (k + 1) = none := by rw [DIR.entryAt, if_pos hm]
    rw [if_pos hm, if_pos rfl, hnone]
    exact returns_pure.2 ⟨h, FRESULT.noConfusion⟩
  rw [if_neg hm, if_neg hne]
  unfold DIR.entryAt
  dsimp only
  rw [if_neg hm]
  rcases DIR.entryAt_cases he with ⟨h0, hk, rfl⟩ | ⟨h0, c, hc, hcl, rfl⟩
  · -- the static table
    have hs := hg.rootSect hk
    have hd := hg.database_lt
    have hr := hg.rootSize
    rw [if_pos h0]
    by_cases hz : SZDIRE * (k + 1) % SS = 0
    · have hq : SZDIRE * (k + 1) / SS = SZDIRE * k / SS + 1 := by
        simp only [SZDIRE, SS] at hz ⊢
        omega
      simp only [if_pos hz, DIR.place, if_true, returns_ite, returns_pure]
      refine ⟨fun hle => ⟨h, ?_⟩, fun hlt => ⟨h, ?_⟩⟩
      · rw [if_pos hle]
        exact FRESULT.noConfusion
      · rw [if_neg hlt, add32_of_lt (by omega), hq, Nat.add_assoc]
        rfl
    · have hq : SZDIRE * (k + 1) / SS = SZDIRE * k / SS := by
        simp only [SZDIRE, SS] at hz ⊢
        omega
      have hlt : ¬g.nRootdir ≤ k + 1 := by simp only [SZDIRE, SS] at hz; omega
      rw [if_neg hz, if_neg hlt, hq]
      exact returns_pure.2 ⟨h, rfl⟩
  · rw [if_neg h0]
    have hc0 : c ≠ 0 := by have := hcl.1; omega
    by_cases hz : SZDIRE * (k + 1) % SS = 0
    · have hq : SZDIRE * (k + 1) / SS = SZDIRE * k / SS + 1 := by
        simp only [SZDIRE, SS] at hz ⊢
        omega
      simp only [if_pos hz, DIR.place, if_neg hc0, hq, hg.and_csize, returns_ite, returns_bind,
        returns_pure]
      refine ⟨fun hb => ?_, fun hb => ⟨h, ?_⟩⟩
      · -- the cluster changed
        have hdiv : (SZDIRE * k / SS + 1) / g.csize = SZDIRE * k / SS / g.csize + 1 :=
          Nat.succ_div_of_dvd (Nat.dvd_of_mod_eq_zero hb)
        refine (getFat_steady hg hw h c).mono fun n w₂ hpost => ?_
        obtain ⟨hn, h₂⟩ := hpost
        have hnext : w.follow (dp.startClust g) ((SZDIRE * k / SS + 1) / g.csize) = n := by
          rw [hdiv, State.follow, hc, hn]
        rw [hnext]
        refine ⟨fun hle => ⟨h₂, ?_⟩, fun hgt => ⟨fun hd => ⟨h₂, ?_⟩, fun _ => ⟨fun hle => ⟨by simp,
          fun _ => ⟨h₂, ?_⟩⟩, fun hlt => ⟨h₂, ?_⟩⟩⟩⟩
        · rw [if_neg fun hi => by have := hi.1; omega]
          exact FRESULT.noConfusion
        · rw [if_neg fun hi => by have := hi.2; have := hg.nFatent_lt; omega]
          exact FRESULT.noConfusion
        · rw [if_neg fun hi => by have := hi.2; omega]
          exact FRESULT.noConfusion
        · have hcn : g.IsClust n := ⟨by omega, by omega⟩
          rw [if_pos hcn, hb, Nat.add_zero (clst2sect g n)]
          rfl
      · have hdiv : (SZDIRE * k / SS + 1) / g.csize = SZDIRE * k / SS / g.csize :=
          Nat.succ_div_of_not_dvd fun hd => hb (Nat.mod_eq_zero_of_dvd hd)
        have harea := hg.inArea_lt
          (hg.inArea_clst hcl (Nat.mod_lt (SZDIRE * k / SS + 1) hg.csize_pos))
        rw [mod_succ_of_ne hb, ← Nat.add_assoc] at harea
        rw [hdiv, hc, if_pos hcl, mod_succ_of_ne hb, ← Nat.add_assoc, add32_of_lt harea]
        rfl
    · have hq : SZDIRE * (k + 1) / SS = SZDIRE * k / SS := by
        simp only [SZDIRE, SS] at hz ⊢
        omega
      rw [if_neg hz, hq, hc, if_pos hcl]
      exact returns_pure.2 ⟨h, rfl⟩

/-- An entry is only there if the one before it is. -/
theorem DIR.entryAt_succ_none {w : State} (hw : Inv g w) {dp : DIR} {k : Nat}
    (h : dp.entryAt g w k = none) : dp.entryAt g w (k + 1) = none := by
  unfold entryAt at h ⊢
  dsimp only at h ⊢
  have hstep : SZDIRE * k ≤ SZDIRE * (k + 1) := Nat.mul_le_mul_left _ (Nat.le_succ k)
  by_cases hm : MAX_DIR ≤ SZDIRE * (k + 1)
  · rw [if_pos hm]
  rw [if_neg (by omega)] at h
  rw [if_neg hm]
  by_cases h0 : dp.startClust g = 0
  · rw [if_pos h0] at h ⊢
    by_cases hk : g.nRootdir ≤ k
    · rw [if_pos (by omega)]
    · rw [if_neg hk] at h
      cases h
  · rw [if_neg h0] at h ⊢
    have hle : SZDIRE * k / SS / g.csize ≤ SZDIRE * (k + 1) / SS / g.csize :=
      Nat.div_le_div_right (Nat.div_le_div_right hstep)
    by_cases hc : g.IsClust (w.follow (dp.startClust g) (SZDIRE * k / SS / g.csize))
    · rw [if_pos hc] at h
      cases h
    · rw [if_neg fun hc' => hc (State.follow_clust_of_le hg hw hle hc')]

omit hg in
/-- `dir_sdi` to the first entry, and `k` calls of `dir_next` that do not stretch the table. -/
def dirSteps (dp : DIR) : Nat → M (FRESULT × DIR)
  | 0 => dirSdi dp 0
  | k + 1 => do
    let (res, dp) ← dirSteps dp k
    if res = .ok then dirNext dp false else return (res, dp)

/-- `dir_next` from the start arrives at the entry `k`, if the table has it. -/
theorem dirSteps_arrives {w : State} (hw : Inv g w) {dp : DIR} (hlt : dp.startClust g < W32)
    (k : Nat) :
    Returns (dirSteps dp k) w fun r w₁ => Steady g w w₁ ∧ Arrives (dp.entryAt g w k) r := by
  induction k with
  | zero => exact dirSdi_arrives hg hw (.refl hw) hlt 0
  | succ k ih =>
    rw [dirSteps, returns_bind]
    refine ih.mono fun r w₁ ⟨h₁, hr⟩ => ?_
    rw [returns_ite]
    cases he : dp.entryAt g w k with
    | some e =>
      rw [he] at hr
      cases hr
      exact ⟨fun _ => dirNext_arrives hg hw h₁ he, fun hne => absurd rfl hne⟩
    | none =>
      rw [he] at hr
      rw [DIR.entryAt_succ_none hg hw he]
      exact ⟨fun hok => absurd hok hr, fun _ => returns_pure.2 ⟨h₁, hr⟩⟩

omit hg in
/-- A sector of the directory from the cluster `start`: of the root directory area for the static
table, else of a cluster on its chain. -/
def Geometry.InDir (g : Geometry) (L : Nat → Sector) (start s : Nat) : Prop :=
  (start = 0 ∧ g.dirbase ≤ s ∧ s < g.database) ∨
    ∃ c j, g.OnChain L start c ∧ j < g.csize ∧ s = clst2sect g c + j

/-- The entry is in a sector of the directory. -/
theorem DIR.entryAt_inDir {w : State} (hw : Inv g w) {dp e : DIR} {k : Nat}
    (h : dp.entryAt g w k = some e) : g.InDir w.logical (dp.startClust g) e.sect := by
  rcases entryAt_cases h with ⟨h0, hk, rfl⟩ | ⟨_, c, hc, hcl, rfl⟩
  · exact .inl ⟨h0, Nat.le_add_right _ _, (hg.rootSect hk).2⟩
  · refine .inr ⟨c, SZDIRE * k / SS % g.csize, ?_, Nat.mod_lt _ hg.csize_pos, rfl⟩
    rw [← hc] at hcl ⊢
    exact State.follow_onChain hg hw hcl

/-- Stepping and seeking in a directory agree: from the first entry, `k` steps succeed exactly if
`dir_sdi` to the entry `k` does, and then the directory object is the same and stands on a sector of
the directory. -/
theorem dirSteps_dirSdi {w : State} (hw : Inv g w) {dp : DIR} (hlt : dp.startClust g < W32)
    (k : Nat) :
    Returns (dirSteps dp k) w fun r w₁ => ∀ w₀, w₀ = w ∨ w₀ = w₁ →
      Returns (dirSdi dp (SZDIRE * k)) w₀ fun r' _ => (r.1 = .ok ↔ r'.1 = .ok) ∧
        (r.1 = .ok → r.2 = r'.2 ∧ g.InDir w.logical (dp.startClust g) r.2.sect) := by
  refine (dirSteps_arrives hg hw hlt k).mono fun r w₁ ⟨h₁, hr⟩ w₀ hw₀ => ?_
  have h₀ : Steady g w w₀ := by
    rcases hw₀ with rfl | rfl
    · exact .refl hw
    · exact h₁
  refine (dirSdi_arrives hg hw h₀ hlt k).mono fun r' w₂ ⟨_, hr'⟩ => ?_
  cases he : dp.entryAt g w k with
  | some e =>
    rw [he] at hr hr'
    cases hr
    cases hr'
    exact ⟨.rfl, fun _ => ⟨rfl, DIR.entryAt_inDir hg hw he⟩⟩
  | none =>
    rw [he] at hr hr'
    exact ⟨⟨fun h => absurd h hr, fun h => absurd h hr'⟩, fun h => absurd h hr⟩

omit hg in
/-- The directory on the cyclic chain of clusters 2 and 3 of a mounted volume, with a sector a
cluster: the steps to the entry 40 come back to the first cluster. -/
theorem dirSteps_dirSdi_cycle : ∃ w, mountVolume [] 0 (registeredOn (fuzzDisk cycleImage)) =
      some ((.ok, []), w) ∧
    (dirSteps { sclust := 2 } 40 w).map (fun r => (r.1.1, r.1.2.dptr, r.1.2.clust)) =
      some (.ok, 1280, 2) ∧
    Returns (dirSteps { sclust := 2 } 40) w fun r w₁ => ∀ w₀, w₀ = w ∨ w₀ = w₁ →
      Returns (dirSdi { sclust := 2 } (SZDIRE * 40)) w₀ fun r' _ => (r.1 = .ok ↔ r'.1 = .ok) ∧
        (r.1 = .ok → r.2 = r'.2 ∧ w.geo.InDir w.logical 2 r.2.sect) := by
  have h : ((mountVolume [] 0 (registeredOn (fuzzDisk cycleImage))).bind fun m =>
      (dirSteps { sclust := 2 } 40 m.2).map fun r => (r.1.1, r.1.2.dptr, r.1.2.clust)) =
      some (.ok, 1280, 2) := by
    decide +kernel
  obtain ⟨w, hm, hg, hi, _⟩ := cycleImage_mounted
  rw [hm, Option.bind_some] at h
  have hs : DIR.startClust { sclust := 2 } w.geo = 2 := if_neg (by simp)
  have hlt : DIR.startClust { sclust := 2 } w.geo < W32 := by
    rw [hs]
    decide
  have hd := dirSteps_dirSdi hg hi hlt 40
  rw [hs] at hd
  exact ⟨w, hm, h, hd⟩

end

end FatFs
