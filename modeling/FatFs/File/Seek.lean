import FatFs.Lib.Alike
import FatFs.Fat.Scan
import FatFs.Fat.Exact
import FatFs.Total.File
import FatFs.File.Append

/-!
# Seeking does not depend on the way

`f_lseek` starts from the current cluster of the file if the target is not before it, else from the
start cluster. Both follow the same chain: a run from the start passes the current cluster after
some rounds in which it only reads, and from there on the two runs go side by side, also where they
stretch the chain (`fLseek_alike`). The append seek of `f_open` is a third loop over the chain, with
the same end (`fOpen_append_alike`).

`Agree` is the relation between the two volumes: their FATs hold the same entries and their
allocation information is the same. The window and the sectors that are cached in it may differ.
-/

namespace FatFs

open Run

/-- Two states of a volume with the same FAT and the same allocation information. -/
structure Agree (g : Geometry) (w w' : State) : Prop where
  inv : Inv g w
  inv' : Inv g w'
  good : w.Flushable
  good' : w'.Flushable
  on : g.FatOn w
  on' : g.FatOn w'
  entries : ∀ e < g.nFatent, g.entry w'.logical e = g.entry w.logical e
  lastClst : w'.lastClst = w.lastClst
  freeClst : w'.freeClst = w.freeClst

/-- A state agrees with itself. -/
theorem Agree.refl {g : Geometry} {w : State} (hw : Inv g w) (hf : w.Flushable) (ho : g.FatOn w) :
    Agree g w w := ⟨hw, hw, hf, hf, ho, ho, fun _ _ => rfl, rfl, rfl⟩

/-- Agreement goes both ways. -/
theorem Agree.symm {g : Geometry} {w w' : State} (h : Agree g w w') : Agree g w' w :=
  ⟨h.inv', h.inv, h.good', h.good, h.on', h.on, fun e he => (h.entries e he).symm, h.lastClst.symm,
    h.freeClst.symm⟩

/-- States that agree with a third one agree. -/
theorem Agree.trans {g : Geometry} {w₁ w₂ w₃ : State} (h : Agree g w₁ w₂) (h' : Agree g w₂ w₃) :
    Agree g w₁ w₃ :=
  ⟨h.inv, h'.inv', h.good, h'.good', h.on, h'.on', fun e he =>
    (h'.entries e he).trans (h.entries e he),
    h'.lastClst.trans h.lastClst, h'.freeClst.trans h.freeClst⟩

section
variable {g : Geometry} (hg : g.Sound)

include hg

/-! ## The FAT -/

/-- Reading an entry leaves the volume as it is. -/
theorem getFat_agree {w : State} (hw : Inv g w) (hf : w.Flushable) (ho : g.FatOn w) (c : Nat) :
    Returns (getFat c) w fun r w' => Agree g w w' ∧ r = g.link w.logical c := by
  have hself : Scanned g w w := ⟨hw, hf, .refl g w, rfl⟩
  refine ((hself.link hg ho c).and (getFat_inv hg hw c)).mono fun r w' ⟨⟨hs, hr⟩, hread⟩ => ⟨?_, hr⟩
  exact ⟨hw, hs.inv, hf, hs.good, ho, ho.kept hs.sectors, fun e he => hg.entry_same hs.same he,
    hread.kept.lastClst, hread.kept.freeClst⟩

omit hg in
/-- The links of the chains agree. -/
theorem Agree.link {w w' : State} (h : Agree g w w') (c : Nat) :
    g.link w'.logical c = g.link w.logical c := by
  unfold Geometry.link
  split
  · exact h.entries c (by omega)
  · rfl

omit hg in
/-- The chains agree as far as they go. -/
theorem Agree.chain {w w' : State} (h : Agree g w w') {c n : Nat}
    (hc : ∀ k ≤ n, g.IsClust (g.chain w.logical c k)) :
    ∀ k ≤ n, g.chain w'.logical c k = g.chain w.logical c k
  | 0, _ => rfl
  | k + 1, hk => by
    rw [Geometry.chain, Geometry.chain, h.chain hc k (by omega)]
    exact h.entries _ (hc k (by omega)).2

/-- `get_fat` answers the same on states that agree. -/
theorem getFat_alike (c : Nat) : Alike (Agree g) Eq (getFat c) (getFat c) := .of_returns
  fun w w' h => ⟨_, getFat_agree hg h.inv h.good h.on c,
    (getFat_agree hg h.inv' h.good' h.on' c).mono fun r' t' ⟨ht', hr'⟩ r t ⟨ht, hr⟩ =>
      ⟨by rw [hr, hr', h.link], (ht.symm.trans h).trans ht'⟩⟩

/-- Changing an entry. -/
theorem putFat_agree {w : State} (hw : Inv g w) (hf : w.Flushable) (ho : g.FatOn w) {c : Nat}
    (hc : g.IsClust c) (v : Nat) : Returns (putFat c v) w fun r w' => r = .ok ∧ Inv g w' ∧
      w'.Flushable ∧ g.FatOn w' ∧ (∀ e < g.nFatent, g.entry w'.logical e =
        if e = c then v % g.entryMod else g.entry w.logical e) ∧
      w'.lastClst = w.lastClst ∧ w'.freeClst = w.freeClst := by
  refine (putFat_inv hg hw c v).mono fun r w' h => ?_
  obtain rfl := h.full hf ho hc
  refine ⟨rfl, h.inv, h.good hf, ho.kept h.kept.sectors, fun e he => ?_, h.kept.lastClst,
    h.kept.freeClst⟩
  split
  · rename_i hec
    rw [hec]
    exact h.entry_self hg
  · rename_i hne
    exact h.entry_other hg he hne

/-- `put_fat` does the same on states that agree. -/
theorem putFat_alike (c v : Nat) : Alike (Agree g) Eq (putFat c v) (putFat c v) := by
  by_cases hc : g.IsClust c
  · refine .of_returns fun w w' h => ⟨_, putFat_agree hg h.inv h.good h.on hc v,
      (putFat_agree hg h.inv' h.good' h.on' hc v).mono ?_⟩
    rintro r' t' ⟨rfl, hi', hf', ho', he', hl', hn'⟩ r t ⟨rfl, hi, hf, ho, he, hl, hn⟩
    refine ⟨rfl, hi, hi', hf, hf', ho, ho', fun e hlt => ?_, by rw [hl, hl', h.lastClst],
      by rw [hn, hn', h.freeClst]⟩
    rw [he e hlt, he' e hlt, h.entries e hlt]
  · have hfail : ∀ {w : State}, Inv g w → putFat c v w = some (.intErr, w) := fun hw => by
      rw [putFat, get_bind_apply, hw.geo, if_neg fun h => hc ⟨h.1, h.2⟩]
      rfl
    intro w w' h
    rw [hfail h.inv, hfail h.inv']
    exact .some ⟨rfl, h⟩

/-- Recording an allocated cluster. -/
theorem Agree.allocated {w w' : State} (h : Agree g w w') (n : Nat) :
    Agree g (w.allocated n) (w'.allocated n) := by
  have hone : ∀ {u : State}, Inv g u → u.Flushable → g.FatOn u →
      Inv g (u.allocated n) ∧ (u.allocated n).Flushable ∧
      g.FatOn (u.allocated n) := fun hu hf ho => by
    have hlt : g.fatbase < _ := Nat.lt_of_lt_of_le (Nat.lt_add_of_pos_right hg.fsize_pos) ho
    have hfat := FatOnly.allocated hu hlt n
    exact ⟨hfat.inv, hfat.good hf, ho.kept hfat.sectors⟩
  obtain ⟨h₁, h₂, h₃⟩ := hone h.inv h.good h.on
  obtain ⟨h₁', h₂', h₃'⟩ := hone h.inv' h.good' h.on'
  refine ⟨h₁, h₁', h₂, h₂', h₃, h₃', fun e he => ?_, ?_, ?_⟩
  · rw [State.allocated_logical, State.allocated_logical]
    exact h.entries e he
  · unfold State.allocated
    split <;> split <;> rfl
  · unfold State.allocated
    rw [h.freeClst, h.inv.geo, h.inv'.geo]
    split <;> rfl

/-- The search for a free cluster finds the same one. -/
theorem findFree_alike (scl : Nat) : Alike (Agree g) Eq (findFree scl) (findFree scl) := by
  unfold findFree
  refine .get fun w w' h => ?_
  rw [h.inv.geo, h.inv'.geo]
  refine .loop_eq (fun n => ?_) _ _
  unfold findRound
  refine .get fun w w' h => ?_
  rw [h.inv.geo, h.inv'.geo]
  exact .ite .rfl (fun _ => .pure rfl) fun _ => (getFat_alike hg _).bind_eq fun cs => .ite .rfl
    (fun _ => .pure rfl) fun _ => .ite .rfl (fun _ => .pure rfl) fun _ => .ite .rfl
      (fun _ => .pure rfl) fun _ => .pure rfl

/-- The link of a cluster does the same on states that agree. -/
theorem linkClust_alike (c n : Nat) : Alike (Agree g) Eq (linkClust c n) (linkClust c n) := by
  unfold linkClust
  refine (putFat_alike hg n _).bind_eq fun res => ?_
  have hput : Alike (Agree g) Eq (if res = .ok ∧ c ≠ 0 then putFat c n else pure res)
      (if res = .ok ∧ c ≠ 0 then putFat c n else pure res) :=
    .ite .rfl (fun _ => putFat_alike hg c n) fun _ => .pure rfl
  exact hput.bind_eq fun res => .ite .rfl (fun _ => (Alike.modify fun w w' h =>
    h.allocated hg n).bind
    fun _ _ _ => .pure rfl) fun _ => .pure rfl

/-- The search and the link do the same on states that agree. -/
theorem findAndLink_alike (c scl : Nat) :
    Alike (Agree g) Eq (findAndLink c scl) (findAndLink c scl) := by
  unfold findAndLink
  refine (findFree_alike hg scl).bind_eq fun r => ?_
  cases r with
  | ok n => exact linkClust_alike hg c n
  | error v => exact .pure rfl

/-- `create_chain` does the same behind the test of the current cluster. -/
theorem createFrom_alike (c scl : Nat) :
    Alike (Agree g) Eq (createFrom c scl) (createFrom c scl) := by
  unfold createFrom
  refine .get fun w w' h => ?_
  rw [h.inv.geo, h.inv'.geo, h.freeClst]
  refine .ite .rfl (fun _ => .pure rfl) fun _ => .ite .rfl (fun _ => (getFat_alike hg _).bind_eq
    fun cs => .ite .rfl (fun _ => .pure rfl) fun _ => .ite .rfl (fun _ => .get fun w w' h => ?_)
      fun _ => linkClust_alike hg _ _) fun _ => findAndLink_alike hg _ _
  rw [h.lastClst]
  exact findAndLink_alike hg _ _

/-- `create_chain` makes the same choice and the same change on volumes that agree. -/
theorem createChain_alike (c : Nat) : Alike (Agree g) Eq (createChain c) (createChain c) := by
  unfold createChain
  refine .get fun w w' h => ?_
  rw [h.inv.geo, h.inv'.geo, h.lastClst]
  exact .ite .rfl (fun _ => createFrom_alike hg _ _) fun _ => (getFat_alike hg _).bind_eq fun cs =>
    .ite .rfl (fun _ => .pure rfl) fun _ => .ite .rfl (fun _ => .pure rfl) fun _ => .ite .rfl
      (fun _ => .pure rfl) fun _ => createFrom_alike hg _ _

/-- `create_chain` from a cluster that has a successor only reads. -/
theorem createChain_agree {w : State} (hw : Inv g w) (hf : w.Flushable) (ho : g.FatOn w) {c : Nat}
    (hc : g.IsClust c) (hs : g.IsClust (g.entry w.logical c)) :
    Returns (createChain c) w fun r w' => Agree g w w' ∧ r = g.entry w.logical c := by
  have h2 := hc.1
  have hs2 := hs.1
  have hlt := hs.2
  have hmax := g.link_lt w.logical c
  rw [createChain, returns_bind, returns_get, returns_ite]
  refine ⟨fun h0 => by omega, fun _ => ?_⟩
  rw [returns_bind]
  refine (getFat_agree hg hw hf ho c).mono fun r w' hpost => ?_
  obtain ⟨hw', hr⟩ := hpost
  rw [g.link_of_clust w.logical hc] at hr hmax
  rw [if_neg (by omega), if_neg (by omega), hw.geo, if_pos (by omega), returns_pure]
  exact ⟨hw', hr⟩

/-! ## The loop of `f_lseek` -/

omit hg in
/-- The file objects differ in their current sector at most. -/
def FIL.ButSect (fp fp' : FIL) : Prop := ∃ s, fp' = { fp with sect := s }

omit hg in
/-- Two states of the loop of `f_lseek` side by side. The pointer is on a cluster. -/
structure SeekPair (g : Geometry) (p p' : FIL × Nat × Nat) : Prop where
  file : p.1.ButSect p'.1
  clst : p.2.1 = p'.2.1
  ofs : p.2.2 = p'.2.2
  aligned : p.1.fptr % SS = 0
  clust : p.2.2 % SS ≠ 0 → g.IsClust p.2.1

omit hg in
/-- Two ends of the loop. -/
def SeekOut (g : Geometry) : Except (FRESULT × FIL) (FIL × Nat × Nat) →
    Except (FRESULT × FIL) (FIL × Nat × Nat) → Prop
  | .error r, .error r' => r.1 = r'.1 ∧ r.2.ButSect r'.2 ∧ r.2.fptr % SS = 0
  | .ok p, .ok p' => SeekPair g p p'
  | _, _ => False

omit hg in
/-- Two ends of `f_lseek`: the results, the pointers, the sizes and the start clusters are the same,
the current clusters unless the pointers are 0, and the current sectors unless the pointers are on a
sector boundary. -/
structure SeekSame (r r' : FRESULT × FIL) : Prop where
  res : r.1 = r'.1
  fptr : r.2.fptr = r'.2.fptr
  objsize : r.2.objsize = r'.2.objsize
  sclust : r.2.sclust = r'.2.sclust
  clust : r.2.fptr ≠ 0 → r.2.clust = r'.2.clust
  sect : r.2.fptr % SS ≠ 0 → r.2.sect = r'.2.sect

omit hg in
/-- The same results, the other way round. -/
theorem SeekSame.symm {r r' : FRESULT × FIL} (h : SeekSame r r') : SeekSame r' r :=
  ⟨h.res.symm, h.fptr.symm, h.objsize.symm, h.sclust.symm, fun h0 => (h.clust (h.fptr ▸ h0)).symm,
    fun hm => (h.sect (h.fptr ▸ hm)).symm⟩

omit hg in
/-- The same results as a third one. -/
theorem SeekSame.trans {r₁ r₂ r₃ : FRESULT × FIL} (h : SeekSame r₁ r₂) (h' : SeekSame r₂ r₃) :
    SeekSame r₁ r₃ :=
  ⟨h.res.trans h'.res, h.fptr.trans h'.fptr, h.objsize.trans h'.objsize, h.sclust.trans h'.sclust,
    fun h0 => (h.clust h0).trans (h'.clust (h.fptr ▸ h0)),
    fun hm => (h.sect hm).trans (h'.sect (h.fptr ▸ hm))⟩

/-- One round of the walk does the same from cursors at the same cluster. -/
theorem seekRound_alike {p p' : FIL × Nat × Nat} (h : SeekPair g p p') :
    Alike (Agree g) (Sum.LiftRel (SeekPair g) (SeekOut g)) (seekRound (g.csize * SS) p)
      (seekRound (g.csize * SS) p') := by
  obtain ⟨fp, clst, ofs⟩ := p
  obtain ⟨fp', clst', ofs'⟩ := p'
  obtain ⟨⟨s, rfl⟩, rfl, rfl, hal, hcl⟩ := h
  simp only at hal hcl
  have hbcs : add32 fp.fptr (g.csize * SS) % SS = 0 := by
    simp only [add32, W32, SS] at *
    omega
  -- the two rounds test the same number
  have htest : ∀ (c n : Nat), n = g.nFatent → Alike (Agree g) (Sum.LiftRel (SeekPair g) (SeekOut g))
      (if c = DISKERR then pure (.inr (.error (.diskErr,
          FIL.abort { fp with fptr := add32 fp.fptr (g.csize * SS) } .diskErr)))
        else if c ≤ 1 ∨ n ≤ c then pure (.inr (.error (.intErr,
          FIL.abort { fp with fptr := add32 fp.fptr (g.csize * SS) } .intErr)))
        else pure (.inl ({ fp with fptr := add32 fp.fptr (g.csize * SS), clust := c }, c,
          ofs - g.csize * SS)) : M _)
      (if c = DISKERR then pure (.inr (.error (.diskErr,
          FIL.abort { fp with fptr := add32 fp.fptr (g.csize * SS), sect := s } .diskErr)))
        else if c ≤ 1 ∨ n ≤ c then pure (.inr (.error (.intErr,
          FIL.abort { fp with fptr := add32 fp.fptr (g.csize * SS), sect := s } .intErr)))
        else pure (.inl ({ fp with fptr := add32 fp.fptr (g.csize * SS), clust := c, sect := s }, c,
          ofs - g.csize * SS)) : M _) := fun c n hn =>
    .ite .rfl (fun _ => .pure (.inr ⟨rfl, ⟨s, rfl⟩, hbcs⟩)) fun _ => .ite .rfl
      (fun _ => .pure (.inr ⟨rfl, ⟨s, rfl⟩, hbcs⟩)) fun hin =>
        .pure (.inl ⟨⟨s, rfl⟩, rfl, rfl, hbcs, fun _ => ⟨by simp only; omega, by simp only; omega⟩⟩)
  refine .ite .rfl (fun _ => .get fun w w' h => ?_) fun _ =>
    .pure (.inr ⟨⟨s, rfl⟩, rfl, rfl, hal, hcl⟩)
  rw [h.inv.geo, h.inv'.geo]
  refine .ite .rfl (fun _ => (createChain_alike hg _).bind_eq fun c => .ite .rfl
    (fun _ => .pure (.inr ⟨⟨s, rfl⟩, rfl, rfl, hbcs, fun h => absurd (Nat.zero_mod SS) h⟩))
      fun _ => htest c _ rfl) fun _ => (getFat_alike hg _).bind_eq fun c => htest c _ rfl

omit hg in
/-- The ends of two seeks. -/
theorem seekEnd_same (fp : FIL) (s n : Nat) :
    SeekSame (.ok, seekEnd fp n) (.ok, seekEnd { fp with sect := s } n) := by
  simp only [seekEnd, FIL.sect_eq]
  by_cases hlt : fp.objsize < fp.fptr
  · simp only [hlt, if_true]
    exact ⟨rfl, rfl, rfl, rfl, fun _ => rfl, fun hm => by rw [if_pos hm, if_pos hm]⟩
  · simp only [hlt, if_false]
    exact ⟨rfl, rfl, rfl, rfl, fun _ => rfl, fun hm => by rw [if_pos hm, if_pos hm]⟩

omit hg in
/-- The part of `f_lseek` behind its loop. Source: `ff.c:4576-4599`. -/
def seekTail (g : Geometry) : Except (FRESULT × FIL) (FIL × Nat × Nat) → M (FRESULT × FIL)
  | .error (res, fp) => return (res, fp)
  | .ok (fp, clst, ofs) =>
    let fp := { fp with fptr := add32 fp.fptr ofs }
    if ofs % SS ≠ 0 then
      let nsect := clst2sect g clst
      if nsect = 0 then return (.intErr, fp.abort .intErr)
      else return (.ok, seekEnd fp (add32 nsect (ofs / SS)))
    else return (.ok, seekEnd fp 0)

omit hg in
/-- The walk is its loop and what follows the loop. -/
theorem seekFollow_eq {w : State} (hgeo : w.geo = g) (fp : FIL) {clst : Nat} (hc : clst ≠ 0)
    (ofs : Nat) : seekFollow fp clst ofs w =
      (loop (seekRound (g.csize * SS)) (W32 / SS + 1) (fp, clst, ofs) >>= seekTail g) w := by
  rw [seekFollow, if_pos hc, get_bind_apply, hgeo]
  refine congrFun (congrArg (bind _) (funext fun r => ?_)) w
  cases r <;> rfl

/-- The end of the walk does the same for the same place. -/
theorem seekTail_alike {r r' : Except (FRESULT × FIL) (FIL × Nat × Nat)} (h : SeekOut g r r') :
    Alike (Agree g) SeekSame (seekTail g r) (seekTail g r') := by
  cases r with
  | error r =>
    cases r' with
    | ok _ => exact h.elim
    | error r' =>
      obtain ⟨res, fp⟩ := r
      obtain ⟨res', fp'⟩ := r'
      obtain ⟨rfl, ⟨s, rfl⟩, hal⟩ := h
      exact .pure ⟨rfl, rfl, rfl, rfl, fun _ => rfl, fun hm => absurd hal hm⟩
  | ok q =>
    cases r' with
    | error _ => exact h.elim
    | ok q' =>
      obtain ⟨fp, clst, ofs⟩ := q
      obtain ⟨fp', clst', ofs'⟩ := q'
      obtain ⟨⟨s, rfl⟩, rfl, rfl, hal, hcl⟩ := h
      refine .ite .rfl (fun hm => .ite .rfl (fun h0 => absurd h0 ?_) fun _ =>
        .pure (seekEnd_same _ s _))
        fun _ => .pure (seekEnd_same _ s _)
      exact hg.clst2sect_pos (hcl hm)

/-- The loop and what is behind it, from two related places. -/
theorem seekLoop_alike {p p' : FIL × Nat × Nat} (h : SeekPair g p p') (n : Nat) :
    Alike (Agree g) SeekSame (loop (seekRound (g.csize * SS)) n p >>= seekTail g)
      (loop (seekRound (g.csize * SS)) n p' >>= seekTail g) :=
  (Alike.loop (fun _ _ hq => seekRound_alike hg hq) n h).bind fun _ _ hr => seekTail_alike hg hr

/-! ## Starting from the current cluster -/

/-- A round of the loop on a cluster that has a successor. -/
theorem seekRound_step {w w₁ : State} (h : Agree g w w₁) (fp : FIL) {c ofs : Nat} (hc : g.IsClust c)
    (hs : g.IsClust (g.entry w.logical c)) (hofs : g.csize * SS < ofs) :
    Returns (seekRound (g.csize * SS) (fp, c, ofs)) w₁ fun r w₂ => Agree g w w₂ ∧
      r = .inl ({ fp with fptr := add32 fp.fptr (g.csize * SS), clust := g.entry w.logical c },
        g.entry w.logical c, ofs - g.csize * SS) := by
  have he := h.entries c hc.2
  have h2 := hs.1
  have hlt := hs.2
  have hmax := hg.nFatent_lt
  have hd : g.entry w.logical c ≠ DISKERR := by
    simp only [DISKERR] at *
    omega
  simp only [seekRound, hofs, if_true]
  rw [returns_bind, returns_get, returns_ite, h.inv'.geo]
  refine ⟨fun _ => ?_, fun _ => ?_⟩
  · rw [returns_bind]
    refine (createChain_agree hg h.inv' h.good' h.on' hc (by rw [he]; exact hs)).mono
      fun r w₂ hpost => ?_
    obtain ⟨h₂, hr⟩ := hpost
    rw [hr, he, if_neg (by omega), if_neg hd, if_neg (by omega), returns_pure]
    exact ⟨h.trans h₂, rfl⟩
  · rw [returns_bind]
    refine (getFat_agree hg h.inv' h.good' h.on' c).mono fun r w₂ hpost => ?_
    obtain ⟨h₂, hr⟩ := hpost
    rw [g.link_of_clust _ hc] at hr
    rw [hr, he, if_neg hd, if_neg (by omega), returns_pure]
    exact ⟨h.trans h₂, rfl⟩

omit hg in
/-- A seek from the start cluster when it has reached the cluster `i` of the chain. -/
def seekAt (g : Geometry) (L : Nat → Sector) (fp : FIL) (ofs i : Nat) : FIL × Nat × Nat :=
  ({ fp with fptr := i * (g.csize * SS), clust := g.chain L fp.sclust i }, g.chain L fp.sclust i,
    ofs - i * (g.csize * SS))

/-- A seek from the start cluster passes the cluster `k` of the chain. -/
theorem seekLoop_skip {w : State} (hw : Agree g w w) (fp : FIL) {ofs : Nat} (hofs : ofs < W32)
    {k : Nat}
    (hchain : ∀ j ≤ k, g.IsClust (g.chain w.logical fp.sclust j)) (hk : k * (g.csize * SS) < ofs)
    (n : Nat) : ∃ w', Agree g w w' ∧
      loop (seekRound (g.csize * SS)) (n + k) (seekAt g w.logical fp ofs 0) w =
        loop (seekRound (g.csize * SS)) n (seekAt g w.logical fp ofs k) w' := by
  refine loop_skip (fun i hi w₁ h₁ => ?_) hw n
  have hle : (i + 1) * (g.csize * SS) ≤ k * (g.csize * SS) := Nat.mul_le_mul_right _ hi
  rw [Nat.add_mul, Nat.one_mul] at hle
  refine (seekRound_step hg h₁ { fp with
      fptr := i * (g.csize * SS)
      clust := g.chain w.logical fp.sclust i } (hchain i (Nat.le_of_lt hi)) (hchain (i + 1) hi)
    (show g.csize * SS < ofs - i * (g.csize * SS) by omega)).mono fun r w₂ ⟨h₂, hr⟩ => ⟨h₂, ?_⟩
  have hadd : add32 (i * (g.csize * SS)) (g.csize * SS) = (i + 1) * (g.csize * SS) := by
    rw [add32_of_lt (by omega), Nat.add_mul, Nat.one_mul]
  have hsub : ofs - i * (g.csize * SS) - g.csize * SS = ofs - (i + 1) * (g.csize * SS) := by
    rw [Nat.add_mul, Nat.one_mul]
    omega
  rw [hr, hadd, hsub]
  rfl

omit hg in
/-- The start of a seek. -/
theorem seekAt_zero (L : Nat → Sector) (fp : FIL) (ofs : Nat) :
    seekAt g L fp ofs 0 = ({ fp with fptr := 0, clust := fp.sclust }, fp.sclust, ofs) := by
  rw [seekAt, Nat.zero_mul]
  rfl

omit hg in
/-- More rounds do not change a loop that ends. -/
theorem bind_of_loop {body : (FIL × Nat × Nat) → M ((FIL × Nat × Nat) ⊕
      Except (FRESULT × FIL) (FIL × Nat × Nat))} {n k : Nat} {b : FIL × Nat × Nat} {w : State}
    {r : (FRESULT × FIL) × State} (hk : n ≤ k) (h : (loop body n b >>= seekTail g) w = some r) :
    (loop body k b >>= seekTail g) w = some r := by
  change (loop body n b w).bind _ = some r at h
  obtain ⟨x, hx, hr⟩ := Option.bind_eq_some_iff.1 h
  change (loop body k b w).bind _ = some r
  rw [loop_mono hk hx]
  exact hr

/-- A seek from the cluster `k` of the chain ends as the seek from the start cluster does. -/
theorem seekFollow_current {w : State} (hw : Agree g w w) (fp : FIL) {ofs k : Nat}
    (hofs : ofs < W32)
    (hchain : ∀ j ≤ k, g.IsClust (g.chain w.logical fp.sclust j)) (hk : k * (g.csize * SS) < ofs) :
    Returns (seekFollow { fp with
        fptr := k * (g.csize * SS)
        clust := g.chain w.logical fp.sclust k } (g.chain w.logical fp.sclust k)
          (ofs - k * (g.csize * SS))) w fun r u =>
      Returns (seekFollow { fp with fptr := 0, clust := fp.sclust } fp.sclust ofs) w fun z v =>
        SeekSame z r ∧ Agree g v u := by
  have hne : ∀ j ≤ k, g.chain w.logical fp.sclust j ≠ 0 := fun j hj => by
    have := (hchain j hj).1
    omega
  have hcs := hg.csize_pos
  have hle : k ≤ W32 / SS := by
    have : k * SS ≤ k * (g.csize * SS) := Nat.mul_le_mul_left k (Nat.le_mul_of_pos_left SS hcs)
    simp only [W32, SS] at *
    omega
  obtain ⟨z, v, hz, -⟩ :=
    seekFollow_preserves hg { fp with fptr := 0, clust := fp.sclust } fp.sclust
    hofs w hw.inv
  have hz' := hz
  obtain ⟨w', hw', hskip⟩ := seekLoop_skip hg hw fp hofs hchain hk (W32 / SS + 1 - k)
  have h0 : fp.sclust ≠ 0 := hne 0 (Nat.zero_le k)
  rw [seekFollow_eq hw.inv.geo _ h0, ← Nat.sub_add_cancel (by omega : k ≤ W32 / SS + 1)] at hz'
  change (loop _ _ _ w).bind _ = some (z, v) at hz'
  rw [seekAt_zero] at hskip
  rw [hskip] at hz'
  -- what is left of the run from the start is a run from the current cluster
  have halign : k * (g.csize * SS) % SS = 0 := by
    rw [← Nat.mul_assoc]
    exact Nat.mul_mod_left _ _
  have hpair : SeekPair g (seekAt g w.logical fp ofs k) (seekAt g w.logical fp ofs k) :=
    ⟨⟨_, rfl⟩, rfl, rfl, halign, fun _ => hchain k (Nat.le_refl k)⟩
  obtain ⟨r, u, hr, hsame, hagree⟩ := (seekLoop_alike hg hpair _).returns hw'.symm hz'
  refine ⟨r, u, ?_, z, v, hz, hsame, hagree⟩
  rw [seekFollow_eq hw.inv.geo _ (hne k (Nat.le_refl k))]
  exact bind_of_loop (Nat.sub_le _ _) hr

/-! ## `f_lseek` -/

omit hg in
/-- The file objects are of the same open file. Their pointers may differ. -/
def FIL.SameFile (fp fp' : FIL) : Prop :=
  ∃ q c s, fp' = { fp with fptr := q, clust := c, sect := s }

omit hg in
/-- An open file that is not aborted. Its pointer is on its chain: the current cluster is that of
the byte before the pointer. -/
structure FIL.Cursor (g : Geometry) (w : State) (fp : FIL) : Prop where
  fs : fp.fs = true
  id : fp.id = g.id
  err : fp.err = .ok
  size : fp.objsize < W32
  start : fp.sclust = 0 ∨ g.IsClust fp.sclust
  chain : 0 < fp.fptr → ∀ j ≤ (fp.fptr - 1) / (g.csize * SS),
    g.IsClust (g.chain w.logical fp.sclust j)
  clust : 0 < fp.fptr → fp.clust = g.chain w.logical fp.sclust ((fp.fptr - 1) / (g.csize * SS))

omit hg in
/-- The offset that `f_lseek` goes to. Source: `ff.c:4528-4530`. -/
def FIL.target (fp : FIL) (ofs : Nat) : Nat :=
  if fp.objsize < ofs ∧ !hasBits fp.flag FA_WRITE then fp.objsize else ofs

omit hg in
/-- The branch of `f_lseek` that starts from the first cluster. Source: `ff.c:4541-4553`. -/
def seekFromStart (fp : FIL) (ofs : Nat) : M (FRESULT × FIL) :=
  let fp := { fp with fptr := 0 }
  if fp.sclust = 0 then do
    let clst ← createChain 0
    if clst = 1 then return (.intErr, fp.abort .intErr)
    else if clst = DISKERR then return (.diskErr, fp.abort .diskErr)
    else seekFollow { fp with sclust := clst, clust := clst } clst ofs
  else seekFollow { fp with clust := fp.sclust } fp.sclust ofs

/-- `f_lseek` on a usable file, without its tests. -/
theorem fLseek_eq {w : State} (hgeo : w.geo = g) {fp : FIL} (h : fp.Cursor g w) (ofs : Nat) :
    fLseek fp ofs w =
      (if 0 < fp.target ofs then
        if 0 < fp.fptr ∧ (fp.fptr - 1) / (g.csize * SS) ≤ (fp.target ofs - 1) / (g.csize * SS) then
          let fptr := (fp.fptr - 1) - ((fp.fptr - 1) &&& (g.csize * SS - 1))
          seekFollow { fp with fptr := fptr } fp.clust (fp.target ofs - fptr)
        else seekFromStart fp (fp.target ofs)
      else pure (.ok, seekEnd { fp with fptr := 0 } 0)) w := by
  have hval : validate fp.fs fp.id w = some (.ok, w) := by
    have hno : hasBits diskStatus STA_NOINIT = false := by decide
    rw [validate, get_bind_apply, hgeo, if_pos ⟨h.fs, hg.fsType, h.id, by rw [hno]; rfl⟩]
    rfl
  rw [fLseek, bind_apply_of_some hval, if_neg fun hne => hne rfl, if_neg fun hne => hne h.err,
    get_bind_apply, hgeo]
  rfl

omit hg in
/-- The pointers are on sector boundaries. -/
theorem SeekPair.start {fp : FIL} {s c ofs : Nat} (h0 : fp.fptr = 0) (hc : g.IsClust c) :
    SeekPair g (fp, c, ofs) ({ fp with sect := s }, c, ofs) :=
  ⟨⟨s, rfl⟩, rfl, rfl, by rw [h0]; rfl, fun _ => hc⟩

/-- The walk does not depend on the sector of the cursor. -/
theorem seekFollow_alike {fp : FIL} (h0 : fp.fptr = 0) {c : Nat} (hc : c = 0 ∨ g.IsClust c)
    (s ofs : Nat) : Alike (Agree g) SeekSame (seekFollow fp c ofs)
      (seekFollow { fp with sect := s } c ofs) := by
  rcases hc with rfl | hc
  · exact .pure (seekEnd_same fp s 0)
  · intro w w' h
    have hne : c ≠ 0 := by
      have := hc.1
      omega
    rw [seekFollow_eq h.inv.geo _ hne, seekFollow_eq h.inv'.geo _ hne]
    exact seekLoop_alike hg (.start h0 hc) _ w w' h

/-- The seek from the first cluster does not depend on the cursor. -/
theorem seekFromStart_alike {fp fp' : FIL} (h : fp.SameFile fp')
    (hs : fp.sclust = 0 ∨ g.IsClust fp.sclust) (ofs : Nat) :
    Alike (Agree g) SeekSame (seekFromStart fp ofs) (seekFromStart fp' ofs) := by
  obtain ⟨q, c, s, rfl⟩ := h
  have habort : ∀ res, SeekSame (res, FIL.abort { fp with fptr := 0 } res)
      (res, FIL.abort { fp with fptr := 0, clust := c, sect := s } res) := fun res =>
    ⟨rfl, rfl, rfl, rfl, fun h0 => absurd rfl h0, fun hm => absurd (Nat.zero_mod SS) hm⟩
  unfold seekFromStart
  refine .ite .rfl (fun _ => ?_) fun _ => seekFollow_alike hg rfl hs s ofs
  have hcreate := (createChain_alike hg 0).and_ensures
    (P := fun a => a = 0 ∨ a = 1 ∨ a = DISKERR ∨ g.IsClust a) fun w w' hR =>
      (createChain_inv hg hR.inv 0).ensures.mono fun a _ ha => by
        rcases ha.out with h | h | h | h | h
        · exact .inl h
        · exact .inr (.inl h)
        · exact .inr (.inr (.inl h))
        · exact .inr (.inr (.inr h.1))
        · exact .inr (.inr (.inr h.1))
  refine hcreate.bind fun a a' ⟨he, ha⟩ => ?_
  subst he
  exact .ite .rfl (fun _ => .pure (habort _)) fun h1 => .ite .rfl (fun _ => .pure (habort _))
    fun hd => seekFollow_alike hg rfl ((ha.imp_right fun h =>
      (h.resolve_left h1).resolve_left hd)) s ofs

/-- `f_lseek` to an offset behind the start ends as the seek from the first cluster does. -/
theorem fLseek_fromStart {w : State} (hw : Agree g w w) {fp : FIL} (h : fp.Cursor g w) {ofs : Nat}
    (hofs : ofs < W32) (hpos : 0 < fp.target ofs) :
    Returns (fLseek fp ofs) w fun r u => Returns (seekFromStart fp (fp.target ofs)) w fun z v =>
      SeekSame z r ∧ Agree g v u := by
  have ht : fp.target ofs < W32 := by
    unfold FIL.target
    split
    · exact h.size
    · exact hofs
  obtain ⟨r, u, hr, -⟩ := fLseek_preserves hg fp hofs w hw.inv
  refine ⟨r, u, hr, ?_⟩
  rw [fLseek_eq hg hw.inv.geo h, if_pos hpos] at hr
  split at hr
  · rename_i hcur
    have hlt : (fp.fptr - 1) / (g.csize * SS) * (g.csize * SS) < fp.target ofs := by
      have h₁ := Nat.mul_le_mul_right (g.csize * SS) hcur.2
      have h₂ := Nat.div_mul_le_self (fp.target ofs - 1) (g.csize * SS)
      omega
    have hrun := seekFollow_current hg hw fp ht (h.chain hcur.1) hlt
    rw [← h.clust hcur.1] at hrun
    simp only [hg.accepted.clusterStart] at hr
    obtain ⟨r', u', hr', z, v, hz, hsame, hagree⟩ := hrun
    cases hr.symm.trans hr'
    refine ⟨z, v, ?_, hsame, hagree⟩
    have h0 : fp.sclust ≠ 0 := by
      have := (h.chain hcur.1 0 (Nat.zero_le _)).1
      change 2 ≤ fp.sclust at this
      omega
    rw [seekFromStart, if_neg h0]
    exact hz
  · obtain ⟨z, v, hz, hsame, hagree⟩ :=
      (seekFromStart_alike hg ⟨_, _, _, rfl⟩ h.start _).returns hw hr
    exact ⟨r, u, hr, ⟨rfl, rfl, rfl, rfl, fun _ => rfl, fun _ => rfl⟩, by
      cases hr.symm.trans hz
      exact hagree⟩

/-- The end of `f_lseek` does not depend on the pointer before the call. -/
theorem fLseek_alike {w : State} (hw : Agree g w w) {fp fp' : FIL} (hfile : fp.SameFile fp')
    (h : fp.Cursor g w) (h' : fp'.Cursor g w) {ofs : Nat} (hofs : ofs < W32) :
    Returns (fLseek fp ofs) w fun r u => Returns (fLseek fp' ofs) w fun r' u' =>
      SeekSame r r' ∧ Agree g u u' := by
  have ht : fp'.target ofs = fp.target ofs := by
    obtain ⟨q, c, s, rfl⟩ := hfile
    rfl
  rcases Nat.eq_zero_or_pos (fp.target ofs) with h0 | hpos
  · refine ⟨_, w, by rw [fLseek_eq hg hw.inv.geo h, if_neg (by omega)]; rfl,
      _, w, by rw [fLseek_eq hg hw.inv.geo h', if_neg (by omega)]; rfl, ?_, hw⟩
    obtain ⟨q, c, s, rfl⟩ := hfile
    have hend : ∀ p : FIL, p.fptr = 0 → seekEnd p 0 = p := fun p hp => by simp [seekEnd, hp]
    rw [hend _ rfl, hend _ rfl]
    exact ⟨rfl, rfl, rfl, rfl, fun hne => absurd rfl hne, fun hm => absurd (Nat.zero_mod SS) hm⟩
  · obtain ⟨r, u, hr, z, v, hz, hs, ha⟩ := fLseek_fromStart hg hw h hofs hpos
    obtain ⟨r', u', hr', z', v', hz', hs', ha'⟩ := fLseek_fromStart hg hw h' hofs (by omega)
    rw [ht] at hz'
    obtain ⟨z'', v'', hz'', hs'', ha''⟩ := (seekFromStart_alike hg hfile h.start _).returns hw hz
    cases hz'.symm.trans hz''
    exact ⟨r, u, hr, r', u', hr', (hs.symm.trans hs'').trans hs', (ha.symm.trans ha'').trans ha'⟩

/-! ## The append seek -/

/-- Moving the window leaves the volume as it is. -/
theorem moveWindow_agree (w : State) (s : Nat) : Keeps (Agree g w) (moveWindow s) := fun w₁ h₁ =>
  (moveWindow_inv hg h₁.inv' s).ensures.mono fun _ w₂ h => by
    have hkept := h.kept
    exact h₁.trans ⟨h₁.inv', h.inv, h₁.good', (h.good h₁.good').1, h₁.on',
      h₁.on'.kept hkept.sectors,
      fun e he => hg.entry_same h.same he, hkept.lastClst, hkept.freeClst⟩

/-- The append seek passes the cluster `k` of the chain. -/
theorem appendLoop_skip {w : State} (hw : Agree g w w) {c s k : Nat}
    (hchain : ∀ j ≤ k, g.IsClust (g.chain w.logical c j)) (hk : k * (g.csize * SS) < s) (n : Nat) :
    ∃ w', Agree g w w' ∧ loop (appendRound (g.csize * SS)) (n + k) (c, s) w =
      loop (appendRound (g.csize * SS)) n (g.chain w.logical c k, s - k * (g.csize * SS)) w' := by
  have hround : ∀ i < k, ∀ w₁, Agree g w w₁ → Returns (appendRound (g.csize * SS)
      (g.chain w.logical c i, s - i * (g.csize * SS))) w₁ fun r w₂ => Agree g w w₂ ∧
        r = .inl (g.chain w.logical c (i + 1), s - (i + 1) * (g.csize * SS)) := fun i hi w₁ h₁ => ?_
  · have hskip := loop_skip (f := fun i =>
      (g.chain w.logical c i, s - i * (g.csize * SS))) hround hw n
    simp only [Nat.zero_mul] at hskip
    exact hskip
  have hle : (i + 1) * (g.csize * SS) ≤ k * (g.csize * SS) := Nat.mul_le_mul_right _ hi
  rw [Nat.add_mul, Nat.one_mul] at hle
  have hsub : s - i * (g.csize * SS) - g.csize * SS = s - (i + 1) * (g.csize * SS) := by
    rw [Nat.add_mul, Nat.one_mul]
    omega
  have hnext : g.IsClust (g.entry w.logical (g.chain w.logical c i)) := hchain (i + 1) hi
  have h2 := hnext.1
  have hlt := hnext.2
  have hmax := hg.nFatent_lt
  rw [appendRound, if_pos (by simp only; omega), returns_bind]
  refine (getFat_agree hg h₁.inv' h₁.good' h₁.on' _).mono fun r w₂ hpost => ?_
  obtain ⟨h₂, hr⟩ := hpost
  rw [g.link_of_clust _ (hchain i (Nat.le_of_lt hi)),
    h₁.entries _ (hchain i (Nat.le_of_lt hi)).2] at hr
  rw [hr, if_neg (by omega), if_neg (by omega), hsub, returns_pure]
  exact ⟨h₁.trans h₂, rfl⟩

/-- The pointer behind the last byte is in the last cluster. -/
theorem Geometry.Sound.lastIndex {s : Nat} (hs : 0 < s) : g.lastIndex s * (g.csize * SS) < s ∧
    s - g.lastIndex s * (g.csize * SS) ≤ g.csize * SS := by
  have hb : 0 < g.csize * SS := Nat.mul_pos hg.csize_pos (by decide)
  have hdiv := Nat.div_add_mod (s - 1) (g.csize * SS)
  have hmod := Nat.mod_lt (s - 1) hb
  rw [Nat.mul_comm] at hdiv
  unfold Geometry.lastIndex
  omega

/-- The offset in the last cluster has the offset in its sector. -/
theorem Geometry.Sound.lastIndex_mod {s : Nat} (hs : 0 < s) :
    (s - g.lastIndex s * (g.csize * SS)) % SS = s % SS := by
  have hlt := (hg.lastIndex hs).1
  obtain ⟨m, hm⟩ : ∃ m, m = s - g.lastIndex s * (g.csize * SS) := ⟨_, rfl⟩
  have he : s = m + g.lastIndex s * g.csize * SS := by
    rw [Nat.mul_assoc]
    omega
  rw [← hm, he, Nat.add_mul_mod_self_right]

omit hg in
/-- The result of a seek to the end of the file `fp`. -/
structure FIL.AtEnd (g : Geometry) (L : Nat → Sector) (fp : FIL) (r : FRESULT × FIL) : Prop where
  res : r.1 = .ok
  fptr : r.2.fptr = fp.objsize
  clust : r.2.clust = g.chain L fp.sclust (g.lastIndex fp.objsize)
  sect : fp.objsize % SS ≠ 0 → r.2.sect = add32
    (clst2sect g (g.chain L fp.sclust (g.lastIndex fp.objsize)))
    ((fp.objsize - g.lastIndex fp.objsize * (g.csize * SS)) / SS)

section
variable {w : State} (hw : Agree g w w) {fp : FIL} (hpos : 0 < fp.objsize)
  (hsize : fp.objsize < W32)
  (hchain : ∀ k ≤ g.lastIndex fp.objsize, g.IsClust (g.chain w.logical fp.sclust k))

include hw hpos hsize hchain

omit hw hchain in
/-- A file has no more clusters than its size has sectors. -/
theorem Geometry.Sound.lastIndex_le : g.lastIndex fp.objsize ≤ W32 / SS := by
  have hcs := hg.csize_pos
  have hlt := (hg.lastIndex hpos).1
  have : g.lastIndex fp.objsize * SS ≤ g.lastIndex fp.objsize * (g.csize * SS) :=
    Nat.mul_le_mul_left _ (Nat.le_mul_of_pos_left SS hcs)
  simp only [W32, SS] at *
  omega

/-- `f_open` with the appending mode arrives at the end of the file. -/
theorem appendSeek_atEnd : Returns (appendSeek fp) w fun r w' => fp.AtEnd g w.logical r ∧
    Agree g w w' := by
  obtain ⟨hlt, hle⟩ := hg.lastIndex hpos
  have hn := hg.lastIndex_le hpos hsize
  have hlast := hchain _ (Nat.le_refl _)
  obtain ⟨w', hw', hskip⟩ :=
    appendLoop_skip hg hw hchain hlt (W32 / SS - g.lastIndex fp.objsize + 1)
  have hloop : loop (appendRound (g.csize * SS)) (W32 / SS + 1) (fp.sclust, fp.objsize) w =
      some ((.ok, g.chain w.logical fp.sclust (g.lastIndex fp.objsize),
        fp.objsize - g.lastIndex fp.objsize * (g.csize * SS)), w') := by
    rw [show W32 / SS + 1 =
      W32 / SS - g.lastIndex fp.objsize + 1 + g.lastIndex fp.objsize by omega, hskip]
    refine loop_succ_of_inr ?_
    rw [appendRound, if_neg (by simp only; omega)]
    rfl
  rw [appendSeek, returns_bind, returns_get, returns_bind, hw.inv.geo]
  refine ⟨_, w', hloop, ?_⟩
  have hmod := hg.lastIndex_mod hpos
  have hsc : clst2sect g (g.chain w.logical fp.sclust (g.lastIndex fp.objsize)) ≠ 0 :=
    hg.clst2sect_pos hlast
  simp only [hmod, returns_ite, returns_pure]
  exact ⟨fun hm => ⟨fun h0 => absurd h0 hsc, fun _ =>
      ⟨⟨rfl, rfl, rfl, fun _ => rfl⟩, hw'⟩⟩, fun hm =>
    ⟨⟨rfl, rfl, rfl, fun h => absurd ⟨trivial, h⟩ hm⟩, hw'⟩⟩

/-- `f_lseek` to the size arrives at the end of the file. -/
theorem fLseek_atEnd (h : fp.Cursor g w) (h0 : fp.fptr = 0) :
    Returns (fLseek fp fp.objsize) w fun r w' => fp.AtEnd g w.logical r ∧ Agree g w w' := by
  obtain ⟨hlt, hle⟩ := hg.lastIndex hpos
  have hn := hg.lastIndex_le hpos hsize
  have hlast := hchain _ (Nat.le_refl _)
  have ht : fp.target fp.objsize = fp.objsize := if_neg fun h => Nat.lt_irrefl _ h.1
  have hstart : fp.sclust ≠ 0 := by
    have := (hchain 0 (Nat.zero_le _)).1
    change 2 ≤ fp.sclust at this
    omega
  obtain ⟨w', hw', hskip⟩ := seekLoop_skip hg hw fp hsize hchain hlt
    (W32 / SS - g.lastIndex fp.objsize + 1)
  have hloop : loop (seekRound (g.csize * SS)) (W32 / SS + 1) (seekAt g w.logical fp
      fp.objsize 0) w =
      some (.ok (seekAt g w.logical fp fp.objsize (g.lastIndex fp.objsize)), w') := by
    rw [show W32 / SS + 1 =
      W32 / SS - g.lastIndex fp.objsize + 1 + g.lastIndex fp.objsize by omega, hskip]
    refine loop_succ_of_inr ?_
    rw [seekRound]
    exact congrFun (if_neg (by simp only [seekAt]; omega)) w'
  have hrun : fLseek fp fp.objsize w =
      seekTail g (.ok (seekAt g w.logical fp fp.objsize (g.lastIndex fp.objsize))) w' := by
    rw [fLseek_eq hg hw.inv.geo h, ht, if_pos hpos, if_neg (by omega), seekFromStart, if_neg hstart,
      seekFollow_eq hw.inv.geo _ hstart]
    rw [seekAt_zero] at hloop
    exact bind_apply_of_some hloop
  have hmod := hg.lastIndex_mod hpos
  have hsc : clst2sect g (g.chain w.logical fp.sclust (g.lastIndex fp.objsize)) ≠ 0 :=
    hg.clst2sect_pos hlast
  have hptr : add32 (g.lastIndex fp.objsize * (g.csize * SS))
      (fp.objsize - g.lastIndex fp.objsize * (g.csize * SS)) = fp.objsize := by
    rw [add32_of_lt (by omega)]
    omega
  have htail : Returns (seekTail g
      (.ok (seekAt g w.logical fp fp.objsize (g.lastIndex fp.objsize)))) w'
      fun r w' => fp.AtEnd g w.logical r ∧ Agree g w w' := by
    simp only [seekTail, seekAt, hmod, hptr, returns_ite, returns_pure]
    refine ⟨fun hm => ⟨fun h0 => absurd h0 hsc, fun _ => ?_⟩, fun hm => ?_⟩
    · rw [seekEnd_inside (Nat.le_refl _)]
      exact ⟨⟨rfl, rfl, rfl, fun _ => if_pos hm⟩, hw'⟩
    · rw [seekEnd_inside (Nat.le_refl _)]
      exact ⟨⟨rfl, rfl, rfl, fun h => absurd h hm⟩, hw'⟩
  obtain ⟨r, u, hr, h⟩ := htail
  exact ⟨r, u, hrun.trans hr, h⟩

end

/-- Opening for append and opening and seeking end at the same place. -/
theorem Located.append_alike {w : State} (hw : Agree g w w) {acc : UInt8} (hacc : acc ∈ accessModes)
    {path : List UInt8} {dj : DIR} {w₂ : State} (hl : Located w path (acc ||| FA_OPEN_APPEND) dj w₂)
    {c s : Nat} (hc : c = ldClust g w₂.win dj.dir) (hs : s = ldDword w₂.win (dj.dir + DIR_FileSize))
    (hpos : 0 < s) (hchain : ∀ k ≤ g.lastIndex s, g.IsClust (g.chain w.logical c k))
    (fp fp' : FIL) :
    Returns (fOpen fp path (acc ||| FA_OPEN_APPEND)) w fun r _ =>
      Returns (fOpen fp' path acc >>= fun q => fLseek q.2 s) w fun r' _ =>
        r.1 = .ok ∧ r'.1 = .ok ∧ r.2.fptr = r'.2.fptr ∧ r.2.clust = r'.2.clust ∧
          (r.2.fptr % SS ≠ 0 → r.2.sect = r'.2.sect) := by
  have hmounted : w.geo.fsType ≠ .none := by
    rw [hw.inv.geo]
    exact hg.fsType
  obtain ⟨hl', rest, hfollow⟩ := hl.mode hmounted acc
  have hw₂ : Agree g w w₂ :=
    followPath_of_move (moveWindow_agree hg w) {} rest w hw _ _ hfollow
  have hself : Agree g w₂ w₂ := hw₂.symm.trans hw₂
  have hchain₂ : ∀ k ≤ g.lastIndex s, g.IsClust (g.chain w₂.logical c k) := fun k hk => by
    rw [hw₂.chain hchain k hk]
    exact hchain k hk
  rw [← hw₂.inv'.geo] at hc
  -- both seeks start from the file object that `f_open` has set up
  have happend : Returns (appendSeek (fp.opened w₂ dj (acc ||| FA_OPEN_APPEND))) w₂ fun r w' =>
      (fp.opened w₂ dj (acc ||| FA_OPEN_APPEND)).AtEnd g w₂.logical r ∧ Agree g w₂ w' :=
    appendSeek_atEnd hg hself (by rw [hs] at hpos; exact hpos) ldDword_lt
      (by rw [hs, hc] at hchain₂; exact hchain₂)
  have hopened : (fp'.opened w₂ dj acc).Cursor g w₂ := by
    refine ⟨rfl, congrArg Geometry.id hw₂.inv'.geo, rfl, ldDword_lt,
      .inr ?_, fun h => ?_, fun h => ?_⟩
    · have := hchain 0 (Nat.zero_le _)
      rw [hc] at this
      exact this
    · exact absurd h (Nat.lt_irrefl 0)
    · exact absurd h (Nat.lt_irrefl 0)
  have hseek := fLseek_atEnd hg hself (by rw [hs] at hpos; exact hpos) ldDword_lt
    (by rw [hs, hc] at hchain₂; exact hchain₂) hopened rfl
  rw [hs] at hpos
  refine hl.append hacc hpos fp (happend.mono fun r u ⟨hr, _⟩ => ?_)
  rw [returns_bind]
  refine ⟨_, w₂, hl'.existing hacc fp', ?_⟩
  rw [hs]
  refine hseek.mono fun r' u' ⟨hr', _⟩ => ?_
  simp only [hr.res, ne_eq, not_true_eq_false, if_false]
  refine ⟨trivial, hr'.res, hr.fptr.trans hr'.fptr.symm,
    hr.clust.trans hr'.clust.symm, fun hm => ?_⟩
  rw [hr.fptr] at hm
  exact (hr.sect hm).trans (hr'.sect hm).symm

/-- Seeking does not depend on the way: `f_lseek` ends the same wherever the pointer was before, and
opening a file of at least one byte for append ends where `f_lseek` to its size does. -/
theorem seek_path_independent {w : State} (hw : Inv g w) (hf : w.Flushable) (ho : g.FatOn w) :
    (∀ fp fp' : FIL, fp.SameFile fp' → fp.Cursor g w → fp'.Cursor g w → ∀ ofs < W32,
      Returns (fLseek fp ofs) w fun r u => Returns (fLseek fp' ofs) w fun r' u' => SeekSame r r' ∧
        ∀ e < g.nFatent, g.entry u'.logical e = g.entry u.logical e) ∧
    ∀ acc ∈ accessModes, ∀ path dj w₂, Located w path (acc ||| FA_OPEN_APPEND) dj w₂ →
      ∀ c s, c = ldClust g w₂.win dj.dir → s = ldDword w₂.win (dj.dir + DIR_FileSize) → 0 < s →
      (∀ k ≤ g.lastIndex s, g.IsClust (g.chain w.logical c k)) → ∀ fp fp' : FIL,
      Returns (fOpen fp path (acc ||| FA_OPEN_APPEND)) w fun r _ =>
        Returns (fOpen fp' path acc >>= fun q => fLseek q.2 s) w fun r' _ =>
          r.1 = .ok ∧ r'.1 = .ok ∧ r.2.fptr = r'.2.fptr ∧ r.2.clust = r'.2.clust ∧
            (r.2.fptr % SS ≠ 0 → r.2.sect = r'.2.sect) := by
  have hself : Agree g w w := .refl hw hf ho
  refine ⟨fun fp fp' hfile h h' ofs hofs => ?_,
      fun acc hacc path dj w₂ hl c s hc hs hpos hchain fp fp' =>
    hl.append_alike hg hself hacc hc hs hpos hchain fp fp'⟩
  exact (fLseek_alike hg hself hfile h h' hofs).mono fun r u h => h.mono fun r' u' ⟨hs, ha⟩ =>
    ⟨hs, ha.entries⟩

end

/-- The hypotheses are met by the file of `twoClusters`, with the pointer at its start and at its
end, and a seek that stretches it. -/
theorem seek_path_independent_file : ∃ w fp fp' dj w₂,
    mountVolume [] 0 (registeredOn twoClusters) = some ((.ok, []), w) ∧ fp.fptr = 0 ∧
    fp'.fptr = 1000 ∧ Located w [0x41] (FA_WRITE ||| FA_OPEN_APPEND) dj w₂ ∧
    Returns (fLseek fp 2000) w (fun r _ => Returns (fLseek fp' 2000) w fun r' _ =>
      r.1 = r'.1 ∧ r.2.fptr = r'.2.fptr) ∧
    Returns (fOpen {} [0x41] (FA_WRITE ||| FA_OPEN_APPEND)) w (fun r _ =>
      Returns (fOpen {} [0x41] FA_WRITE >>= fun q => fLseek q.2 1000) w fun r' _ =>
        r.2.fptr = r'.2.fptr ∧ r.2.clust = r'.2.clust) := by
  have h : (mountVolume [] 0 (registeredOn twoClusters)).map (fun r =>
      ((r.1, r.2.geo, r.2.disk.sectors), (r.2.geo.entry r.2.logical 2,
      r.2.geo.entry r.2.logical 3))) =
      some (((.ok, []), ⟨.fat12, 2, 16, 1, 126, 1, 0, 1, 3, 4, 1⟩, 128), (3, 0xFFF)) := by
    decide +kernel
  have hopen : ((mountVolume [] 0 (registeredOn twoClusters)).bind fun p =>
      (mountVolume [0x41] (FA_WRITE ||| FA_OPEN_APPEND) p.2).bind fun r =>
      (followPath {} r.1.2 r.2).map fun q => ((r.1.1, q.1.1), (q.1.2.nsflag, q.1.2.attr),
        (ldClust p.2.geo q.2.win q.1.2.dir, ldDword q.2.win (q.1.2.dir + DIR_FileSize)))) =
      some ((.ok, .ok), (NS_LAST, 0), (2, 1000)) := by
    decide +kernel
  obtain ⟨⟨r, w⟩, hm, h⟩ := Option.map_eq_some_iff.1 h
  simp only [Prod.mk.injEq] at h
  obtain ⟨⟨rfl, hgeo, hsec⟩, h2, h3⟩ := h
  rw [hm, Option.bind_some] at hopen
  obtain ⟨⟨⟨res, rest⟩, w₁⟩, hmount, h⟩ := Option.bind_eq_some_iff.1 hopen
  obtain ⟨⟨⟨res', dj⟩, w₂⟩, hfollow, h⟩ := Option.map_eq_some_iff.1 h
  simp only [Prod.mk.injEq] at h
  obtain ⟨⟨rfl, rfl⟩, ⟨hns, hattr⟩, hc, hs⟩ := h
  have hl : Located w [0x41] (FA_WRITE ||| FA_OPEN_APPEND) dj w₂ :=
    ⟨⟨rest, w₁, hmount, hfollow⟩, by rw [hns]; decide, by rw [hattr]; decide⟩
  have hsound : twoClusters.MountsSound :=
    Disk.mountsSound_of (b := 0) (by decide +kernel) (by decide +kernel) (by decide +kernel)
  obtain ⟨hg, hi, hf⟩ := registeredOn_mounted (fun _ => rfl) (show 128 < W32 by decide) hsound hm
  have ho : w.geo.FatOn w := by
    unfold Geometry.FatOn
    rw [hgeo, hsec]
    decide
  have hn : w.geo.nFatent = 126 := by rw [hgeo]
  have hcs : w.geo.csize = 1 := by rw [hgeo]
  have hchain : ∀ k ≤ 1, w.geo.IsClust (w.geo.chain w.logical 2 k)
    | 0, _ => ⟨Nat.le_refl 2, by rw [hn]; exact (by decide : 2 < 126)⟩
    | 1, _ => by
      show w.geo.IsClust (w.geo.entry w.logical 2)
      rw [h2]
      exact ⟨by decide, by rw [hn]; decide⟩
  have hlast : w.geo.lastIndex 1000 = 1 := by
    unfold Geometry.lastIndex
    rw [hcs]
    decide
  obtain ⟨hseek, happend⟩ := seek_path_independent hg hi hf ho
  have hcur : ∀ q c, (0 < q → (q - 1) / (w.geo.csize * SS) = 1 ∧ c = 3) →
      FIL.Cursor w.geo w ⟨true, w.geo.id, 2, 1000, FA_WRITE, .ok, q, c, 0, 0, 0⟩ := fun q c h =>
    ⟨rfl, rfl, rfl, (by decide : 1000 < W32), .inr (hchain 0 (by decide)), fun hq => by
      simp only [(h hq).1]
      exact hchain, fun hq => by
      simp only [(h hq).1]
      exact (h hq).2.trans h2.symm⟩
  refine ⟨w, _, _, dj, w₂, hm, rfl, rfl, hl, (hseek _ _ ⟨1000, 3, 0, rfl⟩ (hcur 0 0 nofun)
    (hcur 1000 3 fun _ => ⟨by rw [hcs]; decide, rfl⟩) 2000 (by decide)).mono fun r _ h => h.mono
      fun r' _ ⟨hs, _⟩ => ⟨hs.res, hs.fptr⟩, ?_⟩
  exact (happend FA_WRITE (by decide) [0x41] dj w₂ hl 2 1000 hc.symm hs.symm (by decide)
    (by rw [hlast]; exact hchain) {} {}).mono fun r _ h =>
    h.mono fun r' _ ⟨_, _, hp, hcl, _⟩ => ⟨hp, hcl⟩

end FatFs
