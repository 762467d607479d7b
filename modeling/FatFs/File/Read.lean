import FatFs.Access.Clean

/-!
# Reading is exact or fails for good

The content of a file is the concatenation of the clusters that are reached from its start cluster
(`Geometry.fileByte`), whatever the FAT holds. A file object that was opened for reading knows where
it is in this chain (`FIL.Along`), and `f_read` and `f_lseek` keep that or set the abort flag. So
`f_read` delivers exactly the bytes of the file, or fails and every later call on the file fails the
same way (`fRead_exact`). This needs that the directory entry of the file was found on the device:
else the window can be the invalid one when the file is opened.
-/

namespace FatFs

open Run

/-- The sector `m` of the clusters that are reached from `c`. -/
def Geometry.fileSect (g : Geometry) (d : Nat → Sector) (c m : Nat) : Nat :=
  add32 (clst2sect g (g.reach d c (m / g.csize))) (m % g.csize)

/-- The byte `k` of the clusters that are reached from `c`. -/
def Geometry.fileByte (g : Geometry) (d : Nat → Sector) (c k : Nat) : UInt8 :=
  d (g.fileSect d c (k / SS)) (k % SS)

/-- The `n` bytes from `ofs` on. -/
def Geometry.fileBytes (g : Geometry) (d : Nat → Sector) (c ofs n : Nat) : List UInt8 :=
  (List.range n).map fun i => g.fileByte d c (ofs + i)

/-- The bytes from `ofs` on are in clusters. -/
def Geometry.InClusters (g : Geometry) (d : Nat → Sector) (c ofs n : Nat) : Prop :=
  ∀ k, ofs ≤ k → k < ofs + n → g.IsClust (g.reach d c (k / SS / g.csize))

section
variable {g : Geometry} {d : Nat → Sector} {c : Nat}

theorem Geometry.fileBytes_append (ofs m n : Nat) :
    g.fileBytes d c ofs (m + n) = g.fileBytes d c ofs m ++ g.fileBytes d c (ofs + m) n := by
  rw [fileBytes, List.range_add, List.map_append, List.map_map]
  refine congrArg _ (List.map_congr_left fun i _ => ?_)
  rw [Function.comp_apply, Nat.add_assoc]

theorem Geometry.InClusters.append {ofs m n : Nat} (h : g.InClusters d c ofs m)
    (h' : g.InClusters d c (ofs + m) n) : g.InClusters d c ofs (m + n) := by
  intro k hk hlt
  rcases Nat.lt_or_ge k (ofs + m) with hm | hm
  · exact h k hk hm
  · exact h' k hm (by omega)

/-- The bytes of a sector of the file. -/
theorem Geometry.fileBytes_sector {s : Sector} {ofs n : Nat}
    (hs : s = d (g.fileSect d c (ofs / SS)))
    (hn : ofs % SS + n ≤ SS) : s.bytes (ofs % SS) n = g.fileBytes d c ofs n := by
  refine List.map_congr_left fun i hi => ?_
  have hi := List.mem_range.1 hi
  have hdiv : (ofs + i) / SS = ofs / SS := by
    simp only [SS] at *
    omega
  have hmod : (ofs + i) % SS = ofs % SS + i := by
    simp only [SS] at *
    omega
  rw [fileByte, hdiv, hmod, hs]

/-- The bytes in the sector of a cluster. -/
theorem Geometry.inClusters_sector {ofs n : Nat} (hc : g.IsClust (g.reach d c (ofs / SS / g.csize)))
    (hn : ofs % SS + n ≤ SS) : g.InClusters d c ofs n := by
  intro k hk hlt
  have hdiv : k / SS = ofs / SS := by
    simp only [SS] at *
    omega
  rwa [hdiv]

/-- A step inside one cluster. -/
theorem div_add_of_mod {m j n : Nat} (h : m % n + j < n) : (m + j) / n = m / n := by
  conv_lhs => rw [← Nat.div_add_mod m n, Nat.add_assoc]
  rw [Nat.mul_add_div (by omega), Nat.div_eq_of_lt h, Nat.add_zero]

/-- The sectors of the file inside one cluster follow each other. -/
theorem Geometry.fileSect_add {m j : Nat} (hj : m % g.csize + j < g.csize)
    (hlt : g.fileSect d c m + j < W32) : g.fileSect d c (m + j) = g.fileSect d c m + j := by
  have hmod : (m + j) % g.csize = m % g.csize + j := by
    rw [← Nat.mod_add_mod, Nat.mod_eq_of_lt hj]
  rw [fileSect, div_add_of_mod hj, hmod]
  show (_ + (_ + j)) % W32 = _
  rw [← Nat.add_assoc, ← Nat.mod_add_mod]
  exact Nat.mod_eq_of_lt hlt

/-- The bytes of whole sectors that were read directly. -/
theorem Geometry.fileBytes_direct {ofs cc : Nat} (h0 : ofs % SS = 0)
    (hcc : ofs / SS % g.csize + cc ≤ g.csize) (hlt : g.fileSect d c (ofs / SS) + cc < W32)
    (win : Sector) (k : Nat) :
    overlay (fun j => d (g.fileSect d c (ofs / SS) + j)) false win k cc =
      g.fileBytes d c ofs (SS * cc) := by
  refine List.map_congr_left fun i hi => ?_
  have hi := List.mem_range.1 hi
  have hq : i / SS < cc := Nat.div_lt_of_lt_mul hi
  have hdiv : (ofs + i) / SS = ofs / SS + i / SS := by
    simp only [SS] at *
    omega
  have hmod : (ofs + i) % SS = i % SS := by
    simp only [SS] at *
    omega
  rw [if_neg (by simp), fileByte, hdiv, hmod, fileSect_add (by omega) (by omega)]

theorem Geometry.inClusters_direct {ofs cc : Nat} (h0 : ofs % SS = 0)
    (hc : g.IsClust (g.reach d c (ofs / SS / g.csize)))
    (hcc : ofs / SS % g.csize + cc ≤ g.csize) : g.InClusters d c ofs (SS * cc) := by
  intro k hk hlt
  obtain ⟨j, hj, hdiv⟩ : ∃ j < cc, k / SS = ofs / SS + j := by
    refine ⟨k / SS - ofs / SS, ?_, ?_⟩
    all_goals
      simp only [SS] at *
      omega
  rwa [hdiv, div_add_of_mod (by omega)]

end

/-! ## The file object -/

/-- The file object without its pointer and its abort flag. -/
def FIL.object (fp : FIL) : FIL := { fp with fptr := 0, clust := 0, sect := 0, err := .ok }

/-- The file object knows the cluster and the sector of its pointer in the content `d`. -/
structure FIL.Along (g : Geometry) (d : Nat → Sector) (fp : FIL) : Prop where
  size : fp.objsize < W32
  start : fp.sclust ≠ 0 ∧ fp.sclust < W32
  inside : fp.fptr ≤ fp.objsize
  clust : 0 < fp.fptr → fp.clust ≠ 0 ∧
    fp.clust = g.reach d fp.sclust ((fp.fptr - 1) / SS / g.csize)
  sect : fp.fptr % SS ≠ 0 → g.IsClust (g.reach d fp.sclust (fp.fptr / SS / g.csize)) ∧
    fp.sect = g.fileSect d fp.sclust (fp.fptr / SS)

/-- The cluster before the one of the sector `m`, or the same. -/
theorem pred_div_of_mod {m n : Nat} (h : m % n ≠ 0) : (m - 1) / n = m / n := by
  obtain ⟨k, rfl⟩ : ∃ k, m = k + 1 := ⟨m - 1, by cases m with
    | zero => exact absurd (Nat.zero_mod n) h
    | succ m => rfl⟩
  exact (Nat.succ_div_of_not_dvd fun hd => h (Nat.mod_eq_zero_of_dvd hd)).symm

theorem pred_div_succ {m n : Nat} (h : m % n = 0) (hm : 0 < m) : (m - 1) / n + 1 = m / n := by
  obtain ⟨k, rfl⟩ : ∃ k, m = k + 1 := ⟨m - 1, by omega⟩
  exact (Nat.succ_div_of_dvd (Nat.dvd_of_mod_eq_zero h)).symm

section
variable {g : Geometry} (hg : g.Accepted)

/-- The pointer after `n` bytes of the current cluster. -/
theorem FIL.Along.advance {d : Nat → Sector} {fp : FIL} (h : fp.Along g d) {n c s : Nat}
    (hin : fp.fptr + n ≤ fp.objsize) (hc : g.IsClust c)
    (hr : c = g.reach d fp.sclust (fp.fptr / SS / g.csize))
    (hdiv : (fp.fptr + n - 1) / SS / g.csize = fp.fptr / SS / g.csize)
    (hs : (fp.fptr + n) % SS ≠ 0 →
      (fp.fptr + n) / SS = fp.fptr / SS ∧ s = g.fileSect d fp.sclust (fp.fptr / SS)) :
    FIL.Along g d { fp with fptr := fp.fptr + n, clust := c, sect := s } := by
  have h2 := hc.1
  refine ⟨h.size, h.start, hin, fun _ => ⟨by simp only; omega, ?_⟩, fun hm => ?_⟩
  · simp only
    rw [hdiv, hr]
  · obtain ⟨he, hs⟩ := hs hm
    simp only
    rw [he, ← hr]
    exact ⟨hc, hs⟩

include hg

/-- `f_read` finds the cluster of its pointer on a sector boundary. -/
theorem readClust_along {w : State} (hgeo : w.geo = g) (hcl : w.wflag = false) (ho : w.OnSector)
    {fp : FIL} (h : fp.Along g w.disk.data) (h0 : fp.fptr % SS = 0) :
    Returns (readClust fp (fp.fptr / SS % g.csize)) w fun r w' => Reading g w w' ∧
      (r = .error .intErr ∨ r = .error .diskErr ∨ (w'.OnSector ∧
        r = .ok { fp with clust := g.reach w.disk.data fp.sclust (fp.fptr / SS / g.csize) })) := by
  have hp := hg.csize_pos
  rw [readClust, returns_ite]
  refine ⟨fun h1 => ?_, fun h1 => returns_pure.2 ⟨.refl g hcl, .inr (.inr ⟨ho, ?_⟩)⟩⟩
  · -- the number that is tested is the cluster of the pointer
    have htest : ∀ c w', Reading g w w' → (c = DISKERR ∨ w'.OnSector ∧
        c = g.reach w.disk.data fp.sclust (fp.fptr / SS / g.csize)) →
        Returns (if c < 2 then pure (.error .intErr) else if c = DISKERR then
          pure (.error .diskErr) else pure (.ok { fp with clust := c }) : M (Except FRESULT FIL)) w'
          fun r w' => Reading g w w' ∧ (r = .error .intErr ∨ r = .error .diskErr ∨ (w'.OnSector ∧
            r = .ok { fp with clust := g.reach w.disk.data fp.sclust (fp.fptr / SS / g.csize) })) :=
            by
      intro c w' hrd hc
      simp only [returns_ite, returns_pure]
      refine ⟨fun _ => ⟨hrd, .inl trivial⟩, fun _ => ⟨fun _ =>
          ⟨hrd, .inr (.inl trivial)⟩, fun hne =>
        ⟨hrd, .inr (.inr ?_)⟩⟩⟩
      obtain ⟨ho', rfl⟩ := hc.resolve_left hne
      exact ⟨ho', rfl⟩
    rw [returns_bind, returns_ite]
    refine ⟨fun hz => returns_pure.2 (htest _ w (.refl g hcl) (.inr ⟨ho, ?_⟩)), fun hz => ?_⟩
    · rw [hz, Nat.zero_div, Nat.zero_div]
      rfl
    · refine (getFat_on hgeo hcl ho fp.clust).mono fun c w' hc => htest c w' hc.reading ?_
      refine hc.val.imp_right fun hv => ⟨hv.2, ?_⟩
      have hpred : (fp.fptr - 1) / SS = fp.fptr / SS - 1 := by
        simp only [SS] at *
        omega
      rw [hv.1, (h.clust (by omega)).2, hpred, ← pred_div_succ h1]
      · rfl
      · simp only [SS] at *
        omega
  · have hpos : 0 < fp.fptr := by
      rcases Nat.eq_zero_or_pos fp.fptr with hz | hz
      · rw [hz] at h1
        simp at h1
      · exact hz
    have hpred : (fp.fptr - 1) / SS = fp.fptr / SS - 1 := by
      simp only [SS] at *
      omega
    have hc := (h.clust hpos).2
    rw [hpred, pred_div_of_mod h1] at hc
    rw [← hc]

/-- The rest of the current sector is read through the window. -/
theorem readWindow_along {w : State} (hcl : w.wflag = false) (ho : w.OnSector) (fp : FIL)
    (hc : g.IsClust (g.reach w.disk.data fp.sclust (fp.fptr / SS / g.csize)))
    (hs : fp.sect = g.fileSect w.disk.data fp.sclust (fp.fptr / SS)) (btr : Nat)
    (acc : List UInt8) :
    Returns (readWindow fp btr acc) w fun r w' => Reading g w w' ∧
      (r = .inr (.diskErr, fp.abort .diskErr, acc) ∨ (w'.OnSector ∧
        r = .inl ({ fp with fptr := add32 fp.fptr (min (SS - fp.fptr % SS) btr) },
          btr - min (SS - fp.fptr % SS) btr,
          acc ++ g.fileBytes w.disk.data fp.sclust fp.fptr (min (SS - fp.fptr % SS) btr)))) := by
  rw [readWindow, returns_bind]
  refine (moveWindow_on g hcl ho fp.sect).mono fun r w' h => ?_
  have hrd : Reading g w w' := h.reading (.inr ⟨_, _, hc, Nat.mod_lt _ hg.csize_pos, hs⟩)
  simp only [returns_ite, returns_pure, returns_bind, returns_get]
  refine ⟨fun _ => ⟨hrd, .inl trivial⟩, fun hok => ?_⟩
  obtain ⟨ho', -, hwin⟩ := h.win (not_not.1 hok)
  refine ⟨hrd, .inr ⟨ho', ?_⟩⟩
  have hm := Nat.mod_lt fp.fptr (show 0 < SS by decide)
  rw [Geometry.fileBytes_sector (hs ▸ hwin) (by omega)]

omit hg in
/-- In a call of `f_read` that started in `w₀` with the file object `fp₀` and has `total` bytes to
read: the bytes up to the pointer were delivered. -/
structure ReadTo (g : Geometry) (w₀ : State) (fp₀ : FIL) (total : Nat) (p : FIL × Nat × List UInt8)
    (w : State) : Prop where
  reading : Reading g w₀ w
  on : w.OnSector
  handle : p.1.object = fp₀.object
  err : p.1.err = .ok
  along : p.1.Along g w₀.disk.data
  left : p.1.fptr + p.2.1 = fp₀.fptr + total
  fptr : fp₀.fptr ≤ p.1.fptr
  bytes : p.2.2 = g.fileBytes w₀.disk.data fp₀.sclust fp₀.fptr (p.1.fptr - fp₀.fptr)
  clusters : g.InClusters w₀.disk.data fp₀.sclust fp₀.fptr (p.1.fptr - fp₀.fptr)

omit hg in
/-- The end of a call of `f_read`. -/
structure ReadEnd (g : Geometry) (w₀ : State) (fp₀ : FIL) (total : Nat)
    (r : FRESULT × FIL × List UInt8) (w : State) : Prop where
  reading : Reading g w₀ w
  handle : r.2.1.object = fp₀.object
  err : r.2.1.err = r.1
  length : r.2.2.length ≤ total
  res : r.1 = .ok ∨ r.1 = .intErr ∨ r.1 = .diskErr
  done : r.1 = .ok → ReadTo g w₀ fp₀ total (r.2.1, 0, r.2.2) w

omit hg in
theorem ReadTo.sclust {w₀ w : State} {fp₀ : FIL} {total : Nat} {p : FIL × Nat × List UInt8}
    (h : ReadTo g w₀ fp₀ total p w) : p.1.sclust = fp₀.sclust := by
  show p.1.object.sclust = fp₀.object.sclust
  rw [h.handle]

omit hg in
theorem ReadTo.length {w₀ w : State} {fp₀ : FIL} {total : Nat} {p : FIL × Nat × List UInt8}
    (h : ReadTo g w₀ fp₀ total p w) : p.2.2.length ≤ total := by
  have hl := h.left
  rw [h.bytes, Geometry.fileBytes, List.length_map, List.length_range]
  omega

omit hg in
/-- An abort of the call. -/
theorem ReadTo.aborted {w₀ w w' : State} {fp₀ : FIL} {total : Nat} {p : FIL × Nat × List UInt8}
    (h : ReadTo g w₀ fp₀ total p w) (hr : Reading g w w') (fp : FIL) (hfp : fp.object = p.1.object)
    {res : FRESULT} (hres : res = .intErr ∨ res = .diskErr) :
    ReadEnd g w₀ fp₀ total (res, fp.abort res, p.2.2) w' :=
  ⟨h.reading.trans hr, hfp.trans h.handle, rfl, h.length, .inr hres, fun hok => by
    rcases hres with rfl | rfl <;> cases hok⟩

omit hg in
/-- More bytes of the file were delivered. -/
theorem ReadTo.more {w₀ w w' : State} {fp₀ fp : FIL} {total n : Nat} {p : FIL × Nat × List UInt8}
    (h : ReadTo g w₀ fp₀ total p w) (hr : Reading g w w') (ho : w'.OnSector)
    (hfp : fp.object = p.1.object) (herr : fp.err = .ok) (hal : fp.Along g w₀.disk.data)
    (hptr : fp.fptr = p.1.fptr + n) (hn : n ≤ p.2.1)
    (hcl : g.InClusters w₀.disk.data p.1.sclust p.1.fptr n) :
    ReadTo g w₀ fp₀ total (fp, p.2.1 - n,
      p.2.2 ++ g.fileBytes w₀.disk.data p.1.sclust p.1.fptr n) w' := by
  have hl := h.left
  have hf := h.fptr
  obtain ⟨m, hm⟩ : ∃ m, p.1.fptr = fp₀.fptr + m := ⟨p.1.fptr - fp₀.fptr, by omega⟩
  have hsub : fp.fptr - fp₀.fptr = m + n := by omega
  have hb := h.bytes
  have hc := h.clusters
  rw [hm, Nat.add_sub_cancel_left] at hb hc
  refine ⟨h.reading.trans hr, ho, hfp.trans h.handle, herr, hal, by simp only; omega,
    by simp only; omega, ?_, ?_⟩
  · simp only
    rw [hsub, Geometry.fileBytes_append, hb, hm, h.sclust]
  · simp only
    rw [hsub]
    rw [hm, h.sclust] at hcl
    exact hc.append hcl

/-- The bytes of the current sector are read through the window. -/
theorem ReadTo.window {w₀ w w' : State} {fp₀ : FIL} {total : Nat} {p : FIL × Nat × List UInt8}
    (h : ReadTo g w₀ fp₀ total p w) (h0 : p.2.1 ≠ 0) (hr : Reading g w w') (ho : w'.OnSector)
    (hin : p.1.fptr + p.2.1 ≤ p.1.objsize) {c s : Nat} (hc : g.IsClust c)
    (hcl : c = g.reach w₀.disk.data p.1.sclust (p.1.fptr / SS / g.csize))
    (hs : s = g.fileSect w₀.disk.data p.1.sclust (p.1.fptr / SS)) :
    Returns (readWindow { p.1 with clust := c, sect := s } p.2.1 p.2.2) w' fun r w'' =>
      (∃ q, r = .inl q ∧ q.2.1 < p.2.1 ∧ ReadTo g w₀ fp₀ total q w'') ∨
      ∃ q, r = .inr q ∧ ReadEnd g w₀ fp₀ total q w'' := by
  have hrd := h.reading.trans hr
  have hc' : g.IsClust (g.reach w'.disk.data p.1.sclust (p.1.fptr / SS / g.csize)) := by
    rw [hrd.data, ← hcl]
    exact hc
  refine (readWindow_along hg hrd.clean ho { p.1 with clust := c, sect := s } hc'
    (by rw [hrd.data]; exact hs) p.2.1 p.2.2).mono fun r w'' ⟨hr', hout⟩ => ?_
  rcases hout with rfl | ⟨ho', rfl⟩
  · exact .inr ⟨_, rfl, h.aborted (hr.trans hr') { p.1 with clust := c, sect := s } rfl (.inr rfl)⟩
  · have hm := Nat.mod_lt p.1.fptr (show 0 < SS by decide)
    have hsize := h.along.size
    obtain ⟨n, hn⟩ : ∃ n, n = min (SS - p.1.fptr % SS) p.2.1 := ⟨_, rfl⟩
    simp only [← hn]
    have hsec : p.1.fptr % SS + n ≤ SS := by omega
    refine .inl ⟨_, rfl, by simp only; omega, ?_⟩
    rw [hrd.data, add32_of_lt (by omega)]
    refine h.more (hr.trans hr') ho' rfl h.err (h.along.advance (by omega) hc hcl ?_ fun hne =>
      ⟨?_, hs⟩) rfl (by omega) (Geometry.inClusters_sector (hcl ▸ hc) hsec)
    · have : (p.1.fptr + n - 1) / SS = p.1.fptr / SS := by
        simp only [SS] at *
        omega
      rw [this]
    · simp only [SS] at *
      omega

omit hg in
/-- Whole sectors of the current cluster are read directly. -/
theorem ReadTo.direct {w₀ w w' : State} {fp₀ : FIL} {total : Nat} {p : FIL × Nat × List UInt8}
    (hsz : w₀.disk.sectors < W32) (h : ReadTo g w₀ fp₀ total p w) (hr : Reading g w w')
    (ho : w'.OnSector) (hin : p.1.fptr + p.2.1 ≤ p.1.objsize) (hm : p.1.fptr % SS = 0)
    {c cc s : Nat}
    (hc : g.IsClust c) (hcl : c = g.reach w₀.disk.data p.1.sclust (p.1.fptr / SS / g.csize))
    (hs : s = g.fileSect w₀.disk.data p.1.sclust (p.1.fptr / SS)) (h0 : 0 < cc)
    (hcc : p.1.fptr / SS % g.csize + cc ≤ g.csize) (hn : SS * cc ≤ p.2.1) :
    Returns (diskRead s cc) w' fun b w'' => Reading g w w'' ∧ ∀ buff, b = some buff →
      ReadTo g w₀ fp₀ total ({ p.1 with clust := c, fptr := add32 p.1.fptr (SS * cc) },
        p.2.1 - SS * cc, p.2.2 ++ overlay buff w''.wflag w''.win (sub32 w''.winsect s) cc) w'' := by
  subst hs
  have hrd := h.reading.trans hr
  have hnote : Reading g w' (w'.note
      (.read (g.fileSect w₀.disk.data p.1.sclust (p.1.fptr / SS)) cc)) :=
    .note hrd.clean (.inr ⟨c, _, hc, hcc, by rw [hcl]; rfl⟩)
  rw [returns_diskRead]
  refine ⟨fun hserves => ⟨hr.trans hnote, fun buff hbuff => ?_⟩, fun _ => ⟨hr.trans hnote, nofun⟩⟩
  obtain ⟨-, hbound⟩ := Disk.inBounds_iff.1 (Disk.inBounds_of_serves hserves)
  rw [hrd.kept.sectors] at hbound
  have hsize := h.along.size
  cases hbuff
  rw [hrd.data, (hr.trans hnote).clean,
    Geometry.fileBytes_direct hm hcc (Nat.lt_of_le_of_lt hbound hsz), add32_of_lt (by omega)]
  refine h.more (hr.trans hnote) ho rfl h.err (h.along.advance (by omega) hc hcl ?_ fun hne =>
    absurd ?_ hne) rfl hn (Geometry.inClusters_direct hm (hcl ▸ hc) hcc)
  · have hdiv : (p.1.fptr + SS * cc - 1) / SS = p.1.fptr / SS + (cc - 1) := by
      simp only [SS] at *
      omega
    rw [hdiv, div_add_of_mod (by omega)]
  · simp only [SS] at *
    omega

/-- One round of the loop of `f_read`. -/
theorem fReadRound_along {w₀ w : State} {fp₀ : FIL} {total : Nat} {p : FIL × Nat × List UInt8}
    (hgeo : w₀.geo = g) (hsz : w₀.disk.sectors < W32) (h : ReadTo g w₀ fp₀ total p w)
    (hin : p.1.fptr + p.2.1 ≤ p.1.objsize) :
    Returns (fReadRound p) w fun r w' =>
      (∃ q, r = .inl q ∧ q.2.1 < p.2.1 ∧ ReadTo g w₀ fp₀ total q w') ∨
      ∃ q, r = .inr q ∧ ReadEnd g w₀ fp₀ total q w' := by
  obtain ⟨fp, btr, acc⟩ := p
  have hwgeo : w.geo = g := h.reading.kept.geo.trans hgeo
  simp only [fReadRound, returns_ite, returns_pure, returns_bind, returns_get, hwgeo, hg.csect]
  refine ⟨fun h0 => .inr ⟨_, rfl, ?_⟩, fun h0 => ⟨fun hm => ?_, fun hm => ?_⟩⟩
  · subst h0
    exact ⟨h.reading, h.handle, h.err, h.length, .inl rfl, fun _ => h⟩
  · have hal : fp.Along g w.disk.data := by
      rw [h.reading.data]
      exact h.along
    refine (readClust_along hg hwgeo h.reading.clean h.on hal hm).mono fun r w₁ hpost => ?_
    obtain ⟨hr, hout⟩ := hpost
    rcases hout with rfl | rfl | ⟨ho, rfl⟩
    · exact returns_pure.2 (.inr ⟨_, rfl, h.aborted hr fp rfl (.inl rfl)⟩)
    · exact returns_pure.2 (.inr ⟨_, rfl, h.aborted hr fp rfl (.inr rfl)⟩)
    obtain ⟨c, hcl⟩ : ∃ c, c = g.reach w.disk.data fp.sclust (fp.fptr / SS / g.csize) := ⟨_, rfl⟩
    simp only [← hcl]
    rw [h.reading.data] at hcl
    simp only [returns_ite, returns_pure, returns_bind]
    refine ⟨fun _ => .inr ⟨_, rfl,
      h.aborted hr { fp with clust := c } rfl (.inl rfl)⟩, fun hsc => ?_⟩
    have hc : g.IsClust c := hg.isClust (hcl ▸ g.reach_lt _ h.along.start.2 _) hsc
    have hs : add32 (clst2sect g c) (fp.fptr / SS % g.csize) =
        g.fileSect w₀.disk.data fp.sclust (fp.fptr / SS) := by
      rw [hcl]
      rfl
    have hmod := Nat.mod_lt (fp.fptr / SS) hg.csize_pos
    refine ⟨fun hcc => ?_, fun _ => h.window hg h0 hr ho hin hc hcl hs⟩
    obtain ⟨cc, hcc'⟩ : ∃ cc, cc = if g.csize < fp.fptr / SS % g.csize + btr / SS then
      g.csize - fp.fptr / SS % g.csize else btr / SS := ⟨_, rfl⟩
    simp only [← hcc']
    have hbound : 0 < cc ∧ fp.fptr / SS % g.csize + cc ≤ g.csize ∧ cc ≤ btr / SS := by
      split at hcc' <;> omega
    have hle : SS * cc ≤ btr :=
      Nat.le_trans (Nat.mul_le_mul_left _ hbound.2.2) (Nat.mul_div_le btr SS)
    refine (h.direct hsz hr ho hin hm hc hcl hs hbound.1 hbound.2.1 hle).mono
      fun b w₂ hpost => ?_
    obtain ⟨hr₂, hb⟩ := hpost
    cases b with
    | none =>
      exact returns_pure.2 (.inr ⟨_, rfl, h.aborted hr₂ { fp with clust := c } rfl (.inr rfl)⟩)
    | some buff =>
      simp only [returns_bind, returns_get, returns_pure]
      refine .inl ⟨_, rfl, ?_, hb buff rfl⟩
      have := hbound.1
      simp only [SS] at *
      omega
  · obtain ⟨hc, hs⟩ := h.along.sect hm
    have hcl : fp.clust = g.reach w₀.disk.data fp.sclust (fp.fptr / SS / g.csize) := by
      have hpos : 0 < fp.fptr := by
        simp only [SS] at hm
        omega
      have hpred : (fp.fptr - 1) / SS = fp.fptr / SS := by
        simp only [SS] at *
        omega
      rw [(h.along.clust hpos).2, hpred]
    exact h.window hg h0 (.refl g h.reading.clean) h.on hin (hcl ▸ hc) hcl hs

omit hg in
/-- The file object is open on the mounted volume, for reading only. -/
structure FIL.OpenOn (g : Geometry) (fp : FIL) : Prop where
  fs : fp.fs = true
  id : fp.id = g.id
  flag : fp.flag = FA_READ

omit hg in
theorem FIL.OpenOn.congr {fp fp' : FIL} (h : fp.OpenOn g) (he : fp'.object = fp.object) :
    fp'.OpenOn g := by
  refine ⟨?_, ?_, ?_⟩
  · show fp'.object.fs = true
    rw [he]
    exact h.fs
  · show fp'.object.id = g.id
    rw [he]
    exact h.id
  · show fp'.object.flag = FA_READ
    rw [he]
    exact h.flag

theorem validate_on {w : State} (hgeo : w.geo = g) {fp : FIL} (h : fp.OpenOn g) :
    validate fp.fs fp.id w = some (.ok, w) := by
  have hmounted := hg.fsType
  rw [validate, get_bind_apply,
    if_pos ⟨h.fs, by rw [hgeo]; exact hmounted, by rw [hgeo, h.id], rfl⟩]
  rfl

/-- `f_read` on a file that is not aborted. -/
theorem fRead_along {w : State} (hgeo : w.geo = g) (hsz : w.disk.sectors < W32)
    (hcl : w.wflag = false) (ho : w.OnSector) {fp : FIL} (hfp : fp.OpenOn g) (herr : fp.err = .ok)
    (h : fp.Along g w.disk.data) (btr : Nat) :
    Returns (fRead fp btr) w (ReadEnd g w fp (min btr (fp.objsize - fp.fptr))) := by
  have hin := h.inside
  have hread : hasBits fp.flag FA_READ = true := by
    rw [hfp.flag]
    decide
  have hremain : sub32 fp.objsize fp.fptr = fp.objsize - fp.fptr := sub32_of_le h.size hin
  have hclip : (if fp.objsize - fp.fptr < btr then fp.objsize - fp.fptr else btr) =
      min btr (fp.objsize - fp.fptr) := by
    split <;> omega
  rw [fRead, returns_bind]
  refine ⟨_, w, validate_on hg hgeo hfp, ?_⟩
  simp only [ne_eq, not_true_eq_false, if_false, herr, hread, Bool.not_true, Bool.false_eq_true,
    hremain, hclip]
  obtain ⟨total, htotal⟩ : ∃ n, n = min btr (fp.objsize - fp.fptr) := ⟨_, rfl⟩
  rw [← htotal]
  refine Returns.loop (I := fun n p w' => ReadTo g w fp total p w' ∧ p.2.1 ≤ n) (n := total)
    (fun n p w₁ hinv => ?_) ⟨⟨.refl g hcl, ho, rfl, herr, h, rfl, Nat.le_refl _, ?_, ?_⟩,
      Nat.le_refl _⟩ (Nat.lt_succ_self _)
  · obtain ⟨h₁, hn⟩ := hinv
    have hobj : p.1.objsize = fp.objsize := by
      show p.1.object.objsize = fp.object.objsize
      rw [h₁.handle]
    have hleft := h₁.left
    refine (fReadRound_along hg hgeo hsz h₁ (by omega)).mono fun r w₂ hr => ?_
    rcases hr with ⟨q, rfl, hlt, hq⟩ | ⟨q, rfl, hq⟩
    · exact ⟨q.2.1, by omega, hq, Nat.le_refl _⟩
    · exact hq
  · rw [Nat.sub_self]
    rfl
  · intro k hk hlt
    simp only at hk hlt
    omega

/-! ## Seeking -/

omit hg in
/-- In a seek to the offset `target` of the file object `fp₀`: the current cluster starts at the
pointer. -/
structure SeekTo (g : Geometry) (w₀ : State) (fp₀ : FIL) (target : Nat) (p : FIL × Nat × Nat)
    (w : State) : Prop where
  reading : Reading g w₀ w
  on : w.OnSector
  handle : p.1.object = fp₀.object
  err : p.1.err = .ok
  clust : p.1.clust = p.2.1
  start : ∃ k, p.1.fptr = k * (g.csize * SS) ∧ p.2.1 = g.reach w₀.disk.data fp₀.sclust k
  ne : p.2.1 ≠ 0
  pos : 0 < p.2.2
  target : p.1.fptr + p.2.2 = target

omit hg in
/-- The end of a seek. -/
structure SeekEnd (g : Geometry) (w₀ : State) (fp₀ : FIL) (target : Nat) (r : FRESULT × FIL)
    (w : State) : Prop where
  reading : Reading g w₀ w
  handle : r.2.object = fp₀.object
  err : r.2.err = r.1
  done : r.1 = .ok → w.OnSector ∧ r.2.Along g w₀.disk.data ∧ r.2.fptr = target

omit hg in
/-- An abort of the seek. -/
theorem SeekTo.aborted {w₀ w w' : State} {fp₀ : FIL} {target : Nat} {p : FIL × Nat × Nat}
    (h : SeekTo g w₀ fp₀ target p w) (hr : Reading g w w') (fp : FIL) (hfp : fp.object = p.1.object)
    {res : FRESULT} (hres : res ≠ .ok) : SeekEnd g w₀ fp₀ target (res, fp.abort res) w' :=
  ⟨h.reading.trans hr, hfp.trans h.handle, rfl, fun hok => absurd hok hres⟩

omit hg in
/-- One round of the loop of `f_lseek`. -/
theorem seekRound_along {w₀ w : State} {fp₀ : FIL} {target : Nat} {p : FIL × Nat × Nat}
    (hgeo : w₀.geo = g) (hro : hasBits fp₀.flag FA_WRITE = false) (ht : target < W32)
    (h : SeekTo g w₀ fp₀ target p w) :
    Returns (seekRound (g.csize * SS) p) w fun r w' =>
      (∃ q, r = .inl q ∧ q.2.2 + g.csize * SS = p.2.2 ∧ SeekTo g w₀ fp₀ target q w') ∨
      (∃ q, r = .inr (.error q) ∧ q.1 ≠ .ok ∧ SeekEnd g w₀ fp₀ target q w') ∨
      (r = .inr (.ok p) ∧ p.2.2 ≤ g.csize * SS ∧ w' = w) := by
  obtain ⟨fp, clst, ofs⟩ := p
  obtain ⟨k, hk, hclst⟩ := h.start
  have hwgeo : w.geo = g := h.reading.kept.geo.trans hgeo
  have htarget := h.target
  have hflag : hasBits fp.flag FA_WRITE = false := by
    show hasBits fp.object.flag FA_WRITE = false
    rw [h.handle]
    exact hro
  simp only at hk hclst htarget
  simp only [seekRound, returns_ite, returns_pure, returns_bind, returns_get, hflag,
    Bool.false_eq_true, false_imp_iff, not_false_eq_true, true_imp_iff, true_and, hwgeo]
  refine ⟨fun hlt => ?_, fun hge => .inr (.inr ⟨by omega, trivial⟩)⟩
  refine (getFat_on hwgeo h.reading.clean h.on clst).mono fun c w₁ hc => ?_
  have habort : ∀ {res : FRESULT}, res ≠ .ok → SeekEnd g w₀ fp₀ target
      (res, FIL.abort { fp with fptr := add32 fp.fptr (g.csize * SS) } res) w₁ := fun hres =>
    h.aborted hc.reading { fp with fptr := add32 fp.fptr (g.csize * SS) } rfl hres
  refine ⟨fun _ => .inr (.inl ⟨_, rfl, by simp, habort (by simp)⟩), fun hne =>
    ⟨fun _ => .inr (.inl ⟨_, rfl, by simp, habort (by simp)⟩), fun hin => ?_⟩⟩
  obtain ⟨hval, ho⟩ := hc.val.resolve_left hne
  rw [h.reading.data, hclst] at hval
  have hadd : add32 fp.fptr (g.csize * SS) = fp.fptr + g.csize * SS := add32_of_lt (by omega)
  refine .inl ⟨_, rfl, by simp only; omega, h.reading.trans hc.reading, ho, h.handle, h.err, rfl,
    ⟨k + 1, ?_, hval⟩, by simp only; omega, by simp only; omega, by simp only; omega⟩
  simp only
  rw [hadd, hk, Nat.add_mul, Nat.one_mul]

/-- The file object at the end of the chain that a seek follows. -/
theorem SeekTo.along {w₀ w : State} {fp₀ : FIL} {target : Nat} {p : FIL × Nat × Nat}
    (h : SeekTo g w₀ fp₀ target p w) (h₀ : fp₀.Along g w₀.disk.data) (hin : target ≤ fp₀.objsize)
    (hle : p.2.2 ≤ g.csize * SS) {s : Nat} (hs : p.2.2 % SS ≠ 0 → g.IsClust p.2.1 ∧
      s = add32 (clst2sect g p.2.1) (p.2.2 / SS)) :
    FIL.Along g w₀.disk.data { p.1 with fptr := target, sect := s } := by
  obtain ⟨k, hk, hreach⟩ := h.start
  have hcp := hg.csize_pos
  have hpos := h.pos
  have htarget := h.target
  have hscl : p.1.sclust = fp₀.sclust := by
    show p.1.object.sclust = fp₀.object.sclust
    rw [h.handle]
  have hobj : p.1.objsize = fp₀.objsize := by
    show p.1.object.objsize = fp₀.object.objsize
    rw [h.handle]
  rw [← Nat.mul_assoc] at hk
  refine ⟨by simp only; rw [hobj]; exact h₀.size, by simp only; rw [hscl]; exact h₀.start,
    by simp only; omega, fun _ => ⟨by simp only; rw [h.clust]; exact h.ne, ?_⟩, fun hm => ?_⟩
  · simp only
    have hdiv : (target - 1) / SS = g.csize * k + (p.2.2 - 1) / SS := by
      rw [Nat.mul_comm g.csize]
      simp only [SS] at *
      omega
    have hlt : (p.2.2 - 1) / SS < g.csize := Nat.div_lt_of_lt_mul (by rw [Nat.mul_comm]; omega)
    rw [hscl, h.clust, hreach, hdiv, Nat.mul_add_div hcp, Nat.div_eq_of_lt hlt, Nat.add_zero]
  · simp only at hm ⊢
    have hmod : p.2.2 % SS ≠ 0 := by
      simp only [SS] at *
      omega
    have hdiv : target / SS = g.csize * k + p.2.2 / SS := by
      rw [Nat.mul_comm g.csize]
      simp only [SS] at *
      omega
    have hlt : p.2.2 / SS < g.csize := by
      simp only [SS] at *
      omega
    obtain ⟨hc, hs⟩ := hs hmod
    rw [hreach] at hc hs
    rw [Geometry.fileSect, hdiv, Nat.mul_add_div hcp, Nat.div_eq_of_lt hlt, Nat.mul_add_mod,
      Nat.mod_eq_of_lt hlt, Nat.add_zero, hscl]
    exact ⟨hc, hs⟩

omit hg in
/-- `f_lseek` leaves a sector that is current already. -/
theorem FIL.sect_eq (fp : FIL) (n : Nat) :
    (if fp.fptr % SS ≠ 0 ∧ n ≠ fp.sect then { fp with sect := n } else fp) =
      { fp with sect := if fp.fptr % SS ≠ 0 then n else fp.sect } := by
  by_cases hm : fp.fptr % SS ≠ 0
  · by_cases he : n = fp.sect
    · simp [hm, he]
    · simp [hm, he]
  · simp [hm]

omit hg in
/-- The end of `f_lseek` inside the file. -/
theorem seekEnd_inside {fp : FIL} (h : fp.fptr ≤ fp.objsize) (n : Nat) :
    seekEnd fp n = { fp with sect := if fp.fptr % SS ≠ 0 then n else fp.sect } := by
  have hn : ¬fp.objsize < fp.fptr := by omega
  simp only [seekEnd, hn, if_false]
  exact fp.sect_eq n

/-- The chain of the file is followed to the offset. -/
theorem seekFollow_along {w₀ w : State} {fp₀ fp : FIL} {target clst ofs : Nat} (hgeo : w₀.geo = g)
    (hro : hasBits fp₀.flag FA_WRITE = false) (h₀ : fp₀.Along g w₀.disk.data)
    (hin : target ≤ fp₀.objsize) (h : SeekTo g w₀ fp₀ target (fp, clst, ofs) w) :
    Returns (seekFollow fp clst ofs) w (SeekEnd g w₀ fp₀ target) := by
  have hsize := h₀.size
  have hcp := hg.csize_pos
  have htarget := h.target
  have hwgeo : w.geo = g := h.reading.kept.geo.trans hgeo
  rw [seekFollow, returns_ite]
  refine ⟨fun _ => ?_, fun h0 => absurd h.ne h0⟩
  rw [returns_bind, returns_get, returns_bind, hwgeo]
  have hloop : Returns (loop (seekRound (g.csize * SS)) (W32 / SS + 1)
      (fp, clst, ofs)) w fun r w' =>
      (∃ q, r = .error q ∧ q.1 ≠ .ok ∧ SeekEnd g w₀ fp₀ target q w') ∨
      ∃ q, r = .ok q ∧ q.2.2 ≤ g.csize * SS ∧ SeekTo g w₀ fp₀ target q w' := by
    refine Returns.loop (I := fun n p w' => SeekTo g w₀ fp₀ target p w' ∧ p.2.2 ≤ n * SS)
      (n := W32 / SS) (fun n p w₁ hinv => ?_) ⟨h, ?_⟩ (Nat.lt_succ_self _)
    · obtain ⟨h₁, hn⟩ := hinv
      refine (seekRound_along hgeo hro (by omega) h₁).mono fun r w₂ hr => ?_
      rcases hr with ⟨q, rfl, hq, h₂⟩ | ⟨q, rfl, hne, h₂⟩ | ⟨rfl, hle, rfl⟩
      · have hpos := h₂.pos
        refine ⟨n - 1, ?_, h₂, ?_⟩
        all_goals
          simp only [SS] at *
          omega
      · exact .inl ⟨q, rfl, hne, h₂⟩
      · exact .inr ⟨p, rfl, hle, h₁⟩
    · simp only [SS, W32] at *
      omega
  refine hloop.mono fun r w₁ hr => ?_
  rcases hr with ⟨q, rfl, hne, h₁⟩ | ⟨⟨fp', clst', ofs'⟩, rfl, hle, h₁⟩
  · exact returns_pure.2 h₁
  have htarget' := h₁.target
  simp only at htarget' hle
  have hobj : fp'.objsize = fp₀.objsize := by
    show fp'.object.objsize = fp₀.object.objsize
    rw [h₁.handle]
  have hptr : add32 fp'.fptr ofs' = target := by rw [add32_of_lt (by omega), htarget']
  simp only [hptr, returns_ite, returns_pure]
  refine ⟨fun hm => ⟨fun _ => h₁.aborted (.refl g h₁.reading.clean)
    { fp' with fptr := target } rfl (by simp), fun hsc => ?_⟩, fun hm => ?_⟩
  all_goals
    rw [seekEnd_inside (by simp only; omega)]
    refine ⟨h₁.reading, h₁.handle, h₁.err, fun _ =>
      ⟨h₁.on, h₁.along hg h₀ hin hle fun hm' => ?_, rfl⟩⟩
  · obtain ⟨k, hk, hreach⟩ := h₁.start
    have hmod : target % SS ≠ 0 := by
      rw [← htarget', show fp'.fptr = _ from hk, ← Nat.mul_assoc, Nat.add_comm,
        Nat.add_mul_mod_self_right]
      exact hm
    simp only at hreach ⊢
    rw [if_pos hmod]
    exact ⟨hg.isClust (hreach ▸ g.reach_lt _ h₀.start.2 k) hsc, rfl⟩
  · exact absurd hm' hm

/-- `f_lseek` on a file that is not aborted. -/
theorem fLseek_along {w : State} (hgeo : w.geo = g) (hcl : w.wflag = false) (ho : w.OnSector)
    {fp : FIL} (hfp : fp.OpenOn g) (herr : fp.err = .ok) (h : fp.Along g w.disk.data) (ofs : Nat) :
    Returns (fLseek fp ofs) w (SeekEnd g w fp (min ofs fp.objsize)) := by
  have hro : hasBits fp.flag FA_WRITE = false := by
    rw [hfp.flag]
    decide
  have hclip : (if fp.objsize < ofs ∧ (!hasBits fp.flag FA_WRITE) = true then fp.objsize else ofs) =
      min ofs fp.objsize := by
    rw [hro]
    simp only [Bool.not_false, and_true]
    split <;> omega
  rw [fLseek, returns_bind]
  refine ⟨_, w, validate_on hg hgeo hfp, ?_⟩
  simp only [ne_eq, not_true_eq_false, if_false, herr, returns_bind, returns_get, hclip, hgeo]
  obtain ⟨target, ht⟩ : ∃ t, t = min ofs fp.objsize := ⟨_, rfl⟩
  rw [← ht]
  have hin : target ≤ fp.objsize := by omega
  have hstart : ∀ (fp' : FIL) {c k : Nat}, fp'.object = fp.object → fp'.err = .ok → fp'.clust = c →
      fp'.fptr = k * (g.csize * SS) → c = g.reach w.disk.data fp.sclust k → c ≠ 0 →
      k * (g.csize * SS) < target →
      Returns (seekFollow fp' c (target - k * (g.csize * SS))) w (SeekEnd g w fp target) :=
    fun _ _ _ hh he hc hp hreach hne hlt => seekFollow_along hg hgeo hro h hin
      ⟨.refl g hcl, ho, hh, he, hc, ⟨_, hp, hreach⟩, hne, by simp only; omega, by simp only; omega⟩
  simp only [returns_ite]
  refine ⟨fun hpos => ⟨fun hcur => ?_, fun _ => ⟨fun h0 => absurd h0 h.start.1, fun _ => ?_⟩⟩,
    fun h0 => ?_⟩
  · obtain ⟨hne, hclust⟩ := h.clust hcur.1
    rw [hg.clusterStart]
    refine hstart _ rfl rfl rfl rfl ?_ hne ?_
    · rw [hclust, Nat.div_div_eq_div_mul, Nat.mul_comm SS]
    · have h₁ := Nat.mul_le_mul_right (g.csize * SS) hcur.2
      have h₂ := Nat.div_mul_le_self (target - 1) (g.csize * SS)
      omega
  · have := hstart { fp with fptr := 0, clust := fp.sclust, err := .ok } (k := 0) rfl rfl rfl
      (Nat.zero_mul _).symm rfl h.start.1 (by omega)
    rw [Nat.zero_mul, Nat.sub_zero] at this
    exact this
  · have h0 : target = 0 := by omega
    subst h0
    rw [returns_pure, seekEnd_inside (Nat.zero_le _)]
    exact ⟨.refl g hcl, rfl, rfl, fun _ => ⟨ho, ⟨h.size, h.start, Nat.zero_le _, fun hp =>
      absurd hp (by simp), fun hm => absurd (Nat.zero_mod SS) hm⟩, rfl⟩⟩

/-! ## Runs -/

omit hg in
/-- A file that `f_open` has opened for reading. -/
structure OpenedRead (w : State) (fp : FIL) (w₁ : State) : Prop where
  accepted : w₁.geo.Accepted
  settled : Settled w w₁.geo w₁
  opened : fp.OpenOn w₁.geo
  err : fp.err = .ok
  fptr : fp.fptr = 0
  size : fp.objsize < W32
  start : fp.sclust < W32
  dirSect : fp.dirSect = w₁.winsect

omit hg in
theorem ldClust_lt (g : Geometry) (s : Sector) (dir : Nat) : ldClust g s dir < W32 := by
  have h₁ : ldWord s (dir + DIR_FstClusLO) < 65536 := ldWord_lt
  have h₂ : ldWord s (dir + DIR_FstClusHI) < 65536 := ldWord_lt
  unfold ldClust W32
  split <;> omega

omit hg in
theorem fOpen_read {w : State} (hw : Resting w) (fp : FIL) (path : List UInt8) :
    Ensures (fOpen fp path FA_READ) w fun r w₁ => r.1 = .ok → OpenedRead w r.2 w₁ := by
  have hmode : FA_READ &&& (FA_READ ||| FA_WRITE ||| FA_CREATE_ALWAYS ||| FA_CREATE_NEW |||
      FA_OPEN_ALWAYS ||| FA_OPEN_APPEND) = FA_READ := by decide
  have hcreate : hasBits FA_READ (FA_CREATE_ALWAYS ||| FA_OPEN_ALWAYS ||| FA_CREATE_NEW) =
      false := by
    decide
  have hseek : hasBits FA_READ FA_SEEKEND = false := by decide
  have halways : hasBits FA_READ FA_CREATE_ALWAYS = false := by decide
  simp only [fOpen, hmode, ensures_bind, ensures_ite, ensures_pure, hcreate, Bool.false_eq_true,
    if_false]
  refine (mountVolume_settled hw path FA_READ).mono fun r w₁ h₁ => ⟨fun hok => ?_, fun hne hok =>
    absurd hok hne⟩
  obtain ⟨hset, hacc⟩ := h₁ hok
  refine (followPath_of_move (moveWindow_settled hw.size) {} r.2 w₁ hset).mono fun q w₂ h₂ =>
    ⟨fun _ => ?_, fun hne hok => absurd hok hne⟩
  have hgeo : w₂.geo = w₁.geo := h₂.geo
  simp only [openFil, halways, hseek, ensures_bind, ensures_get, Bool.false_eq_true, false_and,
    if_false, ensures_pure, ne_eq, not_true_eq_false]
  exact fun _ => ⟨by rw [hgeo]; exact hacc, by rw [hgeo]; exact h₂, ⟨rfl, rfl, rfl⟩, rfl, rfl,
    ldDword_lt, ldClust_lt _ _ _, rfl⟩

omit hg in
/-- The calls of `f_read` and `f_lseek` on a file object, from `fp₁` in `w₁`. -/
inductive FileRun (fp₁ : FIL) (w₁ : State) : FIL → State → Prop
  | refl : FileRun fp₁ w₁ fp₁ w₁
  | read {fp fp' : FIL} {w w' : State} {btr : Nat} {res : FRESULT} {out : List UInt8} :
      FileRun fp₁ w₁ fp w → fRead fp btr w = some ((res, fp', out), w') → FileRun fp₁ w₁ fp' w'
  | lseek {fp fp' : FIL} {w w' : State} {ofs : Nat} {res : FRESULT} :
      FileRun fp₁ w₁ fp w → fLseek fp ofs w = some ((res, fp'), w') → FileRun fp₁ w₁ fp' w'

omit hg in
/-- Every call on the file object fails with `res` and changes nothing. -/
structure FIL.Stuck (fp : FIL) (res : FRESULT) (w : State) : Prop where
  read : ∀ btr, fRead fp btr w = some ((res, fp, []), w)
  write : ∀ buff, fWrite fp buff w = some ((res, fp, 0), w)
  lseek : ∀ ofs, fLseek fp ofs w = some ((res, fp), w)
  truncate : fTruncate fp w = some ((res, fp), w)

/-- An aborted file object is of no use any more. -/
theorem FIL.OpenOn.stuck {w : State} (hgeo : w.geo = g) {fp : FIL} (hfp : fp.OpenOn g)
    (herr : fp.err ≠ .ok) : fp.Stuck fp.err w := by
  have hrun : ∀ {α : Type} {f : FRESULT → M α} {a : α}, f .ok w = some (a, w) →
      (validate fp.fs fp.id >>= f) w = some (a, w) := fun {α f a} hf => by
    change (validate fp.fs fp.id w).bind (fun p => f p.1 p.2) = _
    rw [validate_on hg hgeo hfp]
    exact hf
  refine ⟨fun btr => hrun ?_, fun buff => hrun ?_, fun ofs => hrun ?_, hrun ?_⟩
  all_goals
    rw [if_neg (by simp), if_pos herr]
    rfl

end

/-- What holds of the file object and the state in a run of calls on a file. -/
structure Handled (w₁ : State) (fp₁ fp : FIL) (w : State) : Prop where
  reading : Reading w₁.geo w₁ w
  handle : fp.object = fp₁.object
  live : fp.err = .ok → w.OnSector ∧ fp.Along w₁.geo w₁.disk.data

/-- The result of `f_read` in such a run. -/
structure ReadOut (w₁ : State) (fp₁ fp : FIL) (btr : Nat) (r : FRESULT × FIL × List UInt8)
    (w : State) : Prop where
  handled : Handled w₁ fp₁ r.2.1 w
  err : r.2.1.err = r.1
  length : r.2.2.length ≤ btr
  exact : r.1 = .ok → r.2.1.fptr = fp.fptr + min btr (fp₁.objsize - fp.fptr) ∧
    r.2.2 = w₁.geo.fileBytes w₁.disk.data fp₁.sclust fp.fptr (min btr (fp₁.objsize - fp.fptr)) ∧
    w₁.geo.InClusters w₁.disk.data fp₁.sclust fp.fptr (min btr (fp₁.objsize - fp.fptr))

section
variable {w₀ w₁ w : State} {fp₁ fp : FIL} (ho : OpenedRead w₀ fp₁ w₁)
  (hsz : w₀.disk.sectors < W32)

include ho hsz

theorem Handled.fRead (h : Handled w₁ fp₁ fp w) (btr : Nat) :
    Returns (FatFs.fRead fp btr) w (ReadOut w₁ fp₁ fp btr) := by
  have hgeo : w.geo = w₁.geo := h.reading.kept.geo
  have hopen := ho.opened.congr h.handle
  by_cases herr : fp.err = .ok
  · obtain ⟨hon, hal⟩ := h.live herr
    have hsec : w.disk.sectors < W32 := by
      rw [h.reading.kept.sectors, ho.settled.sectors]
      exact hsz
    have hobj : fp.objsize = fp₁.objsize := by
      show fp.object.objsize = fp₁.object.objsize
      rw [h.handle]
    have hscl : fp.sclust = fp₁.sclust := by
      show fp.object.sclust = fp₁.object.sclust
      rw [h.handle]
    rw [← h.reading.data] at hal
    refine (fRead_along ho.accepted hgeo hsec h.reading.clean hon hopen herr hal btr).mono
      fun r w' hr => ?_
    have hend := hr.done
    rw [hobj] at hend
    refine ⟨⟨h.reading.trans hr.reading, hr.handle.trans h.handle, fun he => ?_⟩, hr.err,
      Nat.le_trans hr.length (Nat.min_le_left _ _), fun hok => ?_⟩
    · obtain hd := hend (hr.err.symm.trans he)
      exact ⟨hd.on, by rw [← h.reading.data]; exact hd.along⟩
    · obtain hd := hend hok
      have hleft := hd.left
      have hbytes := hd.bytes
      have hcl := hd.clusters
      simp only [Nat.add_zero] at hleft hbytes hcl
      rw [hleft, Nat.add_sub_cancel_left, hscl, h.reading.data] at hbytes hcl
      exact ⟨hleft, hbytes, hcl⟩
  · refine ⟨_, w, (hopen.stuck ho.accepted hgeo herr).read btr, h, rfl, Nat.zero_le _, fun hok =>
      absurd hok herr⟩

omit hsz in
theorem Handled.fLseek (h : Handled w₁ fp₁ fp w) (ofs : Nat) :
    Returns (FatFs.fLseek fp ofs) w fun r w' => Handled w₁ fp₁ r.2 w' := by
  have hgeo : w.geo = w₁.geo := h.reading.kept.geo
  have hopen := ho.opened.congr h.handle
  by_cases herr : fp.err = .ok
  · obtain ⟨hon, hal⟩ := h.live herr
    rw [← h.reading.data] at hal
    refine (fLseek_along ho.accepted hgeo h.reading.clean hon hopen herr hal ofs).mono
      fun r w' hr => ⟨h.reading.trans hr.reading, hr.handle.trans h.handle, fun he => ?_⟩
    obtain ⟨hon', hal', -⟩ := hr.done (hr.err.symm.trans he)
    exact ⟨hon', by rw [← h.reading.data]; exact hal'⟩
  · exact ⟨_, w, (hopen.stuck ho.accepted hgeo herr).lseek ofs, h⟩

/-- The runs of calls on a file whose directory entry is on the device. -/
theorem FileRun.handled (hstart : fp₁.sclust ≠ 0) (hdir : fp₁.dirSect < w₀.disk.sectors)
    (hrun : FileRun fp₁ w₁ fp w) : Handled w₁ fp₁ fp w := by
  induction hrun with
  | refl =>
    refine ⟨.refl _ ho.settled.clean, rfl, fun _ => ⟨?_, ho.size, ⟨hstart, ho.start⟩,
      ?_, fun hp => ?_, fun hm => ?_⟩⟩
    · have hon : w₁.winsect < w₁.disk.sectors := by
        rw [← ho.dirSect, ho.settled.sectors]
        exact hdir
      exact ⟨hon, ho.settled.coherent ho.settled.clean hon⟩
    · rw [ho.fptr]
      exact Nat.zero_le _
    · rw [ho.fptr] at hp
      exact absurd hp (Nat.lt_irrefl 0)
    · rw [ho.fptr] at hm
      exact absurd (Nat.zero_mod SS) hm
  | read _ he ih => exact ((ih.fRead ho hsz _).of_eq he).handled
  | lseek _ he ih => exact (ih.fLseek ho _).of_eq he

end

/-- On a file that was opened for reading, `f_read` is exact or fails for good. -/
theorem fRead_exact {w₀ w₁ : State} (hw : Resting w₀) {fp₀ fp₁ : FIL} {path : List UInt8}
    (hopen : fOpen fp₀ path FA_READ w₀ = some ((.ok, fp₁), w₁)) (hstart : fp₁.sclust ≠ 0)
    (hdir : fp₁.dirSect < w₀.disk.sectors) {fp : FIL} {w : State} (hrun : FileRun fp₁ w₁ fp w)
    (btr : Nat) :
    Returns (fRead fp btr) w fun r w' =>
      r.2.2.length ≤ btr ∧
      (r.1 = .ok → r.2.2.length = min btr (fp₁.objsize - fp.fptr) ∧
        ∀ i < r.2.2.length,
          w₁.geo.IsClust (w₁.geo.reach w₀.disk.data fp₁.sclust
          ((fp.fptr + i) / SS / w₁.geo.csize)) ∧
          r.2.2[i]? = some (w₁.geo.fileByte w₀.disk.data fp₁.sclust (fp.fptr + i))) ∧
      (r.1 ≠ .ok → r.2.1.err = r.1 ∧ r.2.1.Stuck r.1 w') ∧
      ∃ l, w'.disk.log = l ++ w₁.disk.log ∧ ∀ a ∈ l, w₁.geo.OfClusters a := by
  have ho : OpenedRead w₀ fp₁ w₁ := fOpen_read hw fp₀ path _ _ hopen rfl
  refine ((hrun.handled ho hw.size hstart hdir).fRead ho hw.size btr).mono fun r w' h =>
    ⟨h.length, fun hok => ?_, fun hne => ⟨h.err, ?_⟩, h.handled.reading.log⟩
  · obtain ⟨-, hout, hcl⟩ := h.exact hok
    rw [ho.settled.data] at hout hcl
    have hlen : r.2.2.length = min btr (fp₁.objsize - fp.fptr) := by
      rw [hout, Geometry.fileBytes, List.length_map, List.length_range]
    refine ⟨hlen, fun i hi => ⟨hcl _ (Nat.le_add_right _ _) (by omega), ?_⟩⟩
    rw [hlen] at hi
    rw [hout, Geometry.fileBytes, List.getElem?_map, List.getElem?_range hi]
    rfl
  · rw [← h.err]
    exact (ho.opened.congr h.handled.handle).stuck ho.accepted h.handled.reading.kept.geo
      (h.err ▸ hne)

theorem registeredOn_resting {d : Disk} (h : d.sectors < W32) : Resting (registeredOn d) :=
  ⟨rfl, h, fun hm => absurd rfl hm⟩

/-- The hypotheses are met by the file of two clusters after a seek: the read goes over the end of
the first cluster. -/
theorem fRead_exact_file : ∃ fp₁ w₁ fp w,
    fOpen {} [0x41] FA_READ (registeredOn twoClusters) = some ((.ok, fp₁), w₁) ∧
    fLseek fp₁ 500 w₁ = some ((.ok, fp), w) ∧
    Returns (fRead fp 100) w fun r w' => r.2.2.length ≤ 100 ∧
      (r.1 = .ok → r.2.2.length = 100 ∧ ∀ i < r.2.2.length,
        r.2.2[i]? = some (w₁.geo.fileByte twoClusters.data 2 (500 + i))) ∧
      (r.1 ≠ .ok → r.2.1.Stuck r.1 w') := by
  have h : ((fOpen {} [0x41] FA_READ (registeredOn twoClusters)).bind fun o =>
      (fLseek o.1.2 500 o.2).map fun s => ((o.1.1, o.1.2.sclust), (o.1.2.dirSect, o.1.2.objsize),
        (s.1.1, s.1.2.fptr))) = some ((.ok, 2), (3, 1000), (.ok, 500)) := by
    decide +kernel
  obtain ⟨⟨⟨res, fp₁⟩, w₁⟩, hopen, h⟩ := Option.bind_eq_some_iff.1 h
  obtain ⟨⟨⟨res', fp⟩, w⟩, hseek, h⟩ := Option.map_eq_some_iff.1 h
  simp only [Prod.mk.injEq] at h
  obtain ⟨⟨rfl, hstart⟩, ⟨hdir, hsize⟩, rfl, hptr⟩ := h
  have hsec : (registeredOn twoClusters).disk.sectors = 128 := rfl
  refine ⟨fp₁, w₁, fp, w, hopen, hseek, (fRead_exact (registeredOn_resting (by decide)) hopen
    (by omega) (by omega) (.lseek .refl hseek) 100).mono fun r w' hpost => ?_⟩
  obtain ⟨hle, hok, hne, -⟩ := hpost
  refine ⟨hle, fun h => ?_, fun h => (hne h).2⟩
  obtain ⟨hlen, hbytes⟩ := hok h
  rw [hsize, hptr] at hlen
  refine ⟨hlen, fun i hi => ?_⟩
  have hb := (hbytes i hi).2
  rw [hstart, hptr] at hb
  exact hb

/-- The bytes of a double word at an offset. -/
def dwordAt (o v : Nat) : List (Nat × UInt8) :=
  (List.range 4).map fun i => (o + i, UInt8.ofNat (v / 256 ^ i))

/-- A FAT32 boot sector of a volume at the sector 127, with a root directory at the sector
`0xFFFFFFFF`. Its bytes from 128 on are the entry of a file `A` in the cluster of the root
directory. -/
def ghostBoot : List (Nat × UInt8) :=
  [(0, 0xEB), (12, 2), (13, 64), (14, 1), (16, 1), (48, 1), (64, 0xE5), (96, 0xE5), (510, 0x55),
    (511, 0xAA)] ++ dwordAt BPB_TotSec32 0xFFFFFFFF ++ dwordAt BPB_FATSz32 0x8003F ++
    dwordAt BPB_RootClus32 0x3FFDFFF ++ strFAT32.zipIdx.map (fun p =>
    (BS_FilSysType32 + p.2, p.1)) ++
    (128, 0x41) :: (List.range 10).map (fun i => (129 + i, 0x20)) ++
    [(139, AM_ARC), (148, 0xFF), (149, 0x03), (154, 0xFF), (155, 0xDF), (156, 1)]

/-- A device of 128 sectors with this volume in its last sector. -/
def ghostDisk : Disk :=
  { bootImage 128 [(454, 127), (510, 0x55), (511, 0xAA)] with
    data := fun s => if s = 127 then (bootImage 128 ghostBoot).data 0 else
      (bootImage 128 [(454, 127), (510, 0x55), (511, 0xAA)]).data s }

/-- The FSInfo sector behind the boot sector cannot be read, and the directory and the file are read
from the invalid window: `f_read` delivers a byte of the boot sector as the content of the sector
`0xFFFFFFFF`. -/
theorem fRead_invalid_window : ((fOpen {} [0x41] FA_READ (registeredOn ghostDisk)).bind fun r =>
      (fRead r.1.2 1 r.2).map fun q => ((r.1.1, r.1.2.sclust, r.1.2.dirSect),
        (q.1.1, q.1.2.2, r.2.geo.fileSect ghostDisk.data r.1.2.sclust 0),
        r.2.geo.fileByte ghostDisk.data r.1.2.sclust 0)) =
      some ((.ok, 0x3FFDFFF, 0xFFFFFFFF), (.ok, [0xEB], 0xFFFFFFFF), 0) := by
  decide +kernel

end FatFs
