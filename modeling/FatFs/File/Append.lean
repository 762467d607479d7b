import FatFs.File.Read
import FatFs.Placed.Calls

/-!
# Opening for append

`f_open` with `FA_OPEN_APPEND` follows the chain of the file to its last cluster (`ff.c:3886-3910`).
Its loop tests an entry for the values 0 and 1 and the disk error only, and leaves a number behind
the last cluster to the next `get_fat`. The number that is reached last has no next `get_fat`: it is
tested when the current sector is computed, which is left out when the size of the file is a
multiple of the sector size. So the chain of a file is validated unless its size is such a multiple
and the number that is reached last is no cluster (`fOpen_append_iff`).
-/

namespace FatFs

open Run

/-- The index of the last cluster of a file of size `s`. -/
def Geometry.lastIndex (g : Geometry) (s : Nat) : Nat := (s - 1) / (g.csize * SS)

/-- The chain from `c` passes through as many clusters as a file of size `s` has. -/
def Geometry.Covers (g : Geometry) (d : Nat → Sector) (c s : Nat) : Prop :=
  ∀ k ≤ g.lastIndex s, g.IsClust (g.reach d c k)

/-- Opening for append has validated the chain: it succeeds at the last cluster of the file, or the
chain is too short and it fails. -/
structure Validated (g : Geometry) (d : Nat → Sector) (c s : Nat) (r : FRESULT × FIL) : Prop where
  covers : r.1 = .ok → g.Covers d c s ∧ r.2.clust = g.reach d c (g.lastIndex s)
  fails : ¬g.Covers d c s → r.1 ≠ .ok

/-- The number that the append seek ends at is tested: the size is no multiple of the sector size,
or it is a cluster, or the seek stops before it. -/
def Geometry.EndTested (g : Geometry) (d : Nat → Sector) (c s : Nat) : Prop :=
  s % SS ≠ 0 ∨ g.IsClust (g.reach d c (g.lastIndex s)) ∨
    (g.lastIndex s ≠ 0 ∧ (¬g.IsClust (g.reach d c (g.lastIndex s - 1)) ∨
      g.reach d c (g.lastIndex s) < 2))

/-- The sectors of the FAT entries that the append seek asks for are on the device. -/
def Geometry.WalkOn (g : Geometry) (w : State) (c s : Nat) : Prop :=
  ∀ k < g.lastIndex s, ∀ t ∈ g.fatSects (g.reach w.disk.data c k), t < w.disk.sectors

section
variable {g : Geometry} (hg : g.Accepted)

theorem Geometry.covers_iff {d : Nat → Sector} {c s : Nat} :
    g.Covers d c s ↔ g.IsClust (g.reach d c (g.lastIndex s)) :=
  ⟨fun h => h _ (Nat.le_refl _), isClust_reach⟩

/-- The append seek of a file of size `s` has reached the cluster `k`. -/
structure Appending (g : Geometry) (w₀ : State) (c s k : Nat) (p : Nat × Nat) (w : State) :
    Prop where
  reading : Reading g w₀ w
  on : w.OnSector
  clst : p.1 = g.reach w₀.disk.data c k
  pos : 0 < p.2
  ofs : k * (g.csize * SS) + p.2 = s
  /-- The clusters before it were followed. -/
  before : ∀ j, k = j + 1 → g.IsClust (g.reach w₀.disk.data c j) ∧ 2 ≤ p.1

/-- The seek has failed: an entry of the chain is 0 or 1, or could not be read. -/
def Geometry.Broken (g : Geometry) (w : State) (c s : Nat) : Prop :=
  w.disk.Reliable → g.WalkOn w c s → ∃ k < g.lastIndex s, g.reach w.disk.data c (k + 1) < 2

include hg

theorem Appending.lastIndex {w₀ w : State} {c s k : Nat} {p : Nat × Nat}
    (h : Appending g w₀ c s k p w) (hle : p.2 ≤ g.csize * SS) : k = g.lastIndex s := by
  have hpos := h.pos
  have hofs := h.ofs
  have hb : 0 < g.csize * SS := Nat.mul_pos hg.csize_pos (by decide)
  have hs : s - 1 = g.csize * SS * k + (p.2 - 1) := by
    rw [Nat.mul_comm]
    omega
  rw [Geometry.lastIndex, hs, Nat.mul_add_div hb, Nat.div_eq_of_lt (by omega), Nat.add_zero]

theorem Appending.index_lt {w₀ w : State} {c s k : Nat} {p : Nat × Nat}
    (h : Appending g w₀ c s k p w) (hlt : g.csize * SS < p.2) : k < g.lastIndex s := by
  have hofs := h.ofs
  have hb : 0 < g.csize * SS := Nat.mul_pos hg.csize_pos (by decide)
  refine Nat.lt_of_succ_le ((Nat.le_div_iff_mul_le hb).2 ?_)
  rw [Nat.succ_mul]
  omega

/-- One round of the append seek. -/
theorem appendRound_along {w₀ w : State} {c s k : Nat} {p : Nat × Nat} (hgeo : w₀.geo = g)
    (h : Appending g w₀ c s k p w) :
    Returns (appendRound (g.csize * SS) p) w fun r w' =>
      (∃ q, r = .inl q ∧ q.2 + g.csize * SS = p.2 ∧ Appending g w₀ c s (k + 1) q w') ∨
      (∃ q, r = .inr q ∧ q.1 ≠ .ok ∧ g.Broken w₀ c s) ∨
      (r = .inr (.ok, p) ∧ p.2 ≤ g.csize * SS ∧ w' = w) := by
  have hwgeo : w.geo = g := h.reading.kept.geo.trans hgeo
  rw [appendRound, returns_ite, returns_pure]
  refine ⟨fun hlt => ?_, fun hge => .inr (.inr ⟨rfl, by omega, rfl⟩)⟩
  have hk := h.index_lt hg hlt
  rw [returns_bind]
  refine (getFat_on hwgeo h.reading.clean h.on p.1).mono fun r w' hr => ?_
  simp only [returns_ite, returns_pure]
  refine ⟨fun hd => .inr (.inl ⟨_, rfl, by simp, fun hrel hon => absurd hd ?_⟩), fun hd => ?_⟩
  · refine hr.full (h.reading.kept.reliable hrel) fun t ht => ?_
    rw [h.reading.kept.sectors]
    rw [h.clst] at ht
    exact hon k hk t ht
  obtain ⟨hval, ho⟩ := hr.val.resolve_left hd
  rw [h.reading.data, h.clst] at hval
  refine ⟨fun hle => .inr (.inl ⟨_, rfl, by simp, fun _ _ => ⟨k, hk, ?_⟩⟩), fun hgt => ?_⟩
  · show g.succ _ _ < 2
    omega
  have hofs := h.ofs
  refine .inl ⟨_, rfl, by simp only; omega, h.reading.trans hr.reading, ho,
    hval, by simp only; omega, ?_, fun j hj => ?_⟩
  · rw [Nat.add_mul]
    simp only
    omega
  · obtain rfl : k = j := by omega
    refine ⟨?_, by simp only; omega⟩
    by_contra hn
    rw [Geometry.succ, if_neg (show ¬(2 ≤ _ ∧ _ < _) from hn)] at hval
    omega

/-- The append seek: it ends at the last cluster of the file, or the chain is broken, or the number
at its end is refused. -/
theorem appendSeek_along {w : State} (hgeo : w.geo = g) (hcl : w.wflag = false) (ho : w.OnSector)
    {fp : FIL} (hpos : 0 < fp.objsize) (hsize : fp.objsize < W32) (hstart : fp.sclust < W32) :
    Returns (appendSeek fp) w fun r _ =>
      (r.1 = .ok → r.2.clust = g.reach w.disk.data fp.sclust (g.lastIndex fp.objsize) ∧
        (fp.objsize % SS ≠ 0 → g.IsClust (g.reach w.disk.data fp.sclust (g.lastIndex fp.objsize))) ∧
        (g.lastIndex fp.objsize ≠ 0 →
          g.IsClust (g.reach w.disk.data fp.sclust (g.lastIndex fp.objsize - 1)) ∧
          2 ≤ g.reach w.disk.data fp.sclust (g.lastIndex fp.objsize))) ∧
      (r.1 ≠ .ok → fp.objsize % SS ≠ 0 ∨ g.Broken w fp.sclust fp.objsize) := by
  have hcp := hg.csize_pos
  rw [appendSeek, returns_bind, returns_get, returns_bind, hgeo]
  have hloop : Returns (loop (appendRound (g.csize * SS)) (W32 / SS + 1) (fp.sclust, fp.objsize)) w
      fun r w' => (r.1 ≠ .ok ∧ g.Broken w fp.sclust fp.objsize) ∨
        (r.1 = .ok ∧ r.2.2 ≤ g.csize * SS ∧ ∃ k, Appending g w fp.sclust fp.objsize k r.2 w') := by
    refine Returns.loop (I := fun n p w' => p.2 ≤ n * SS ∧
        ∃ k, Appending g w fp.sclust fp.objsize k p w') (n := W32 / SS)
      (fun n p w₁ hinv => ?_) ⟨?_, 0, .refl g hcl, ho, rfl, hpos, ?_, fun j hj => by omega⟩
      (Nat.lt_succ_self _)
    · obtain ⟨hn, k, h₁⟩ := hinv
      refine (appendRound_along hg hgeo h₁).mono fun r w₂ hr => ?_
      rcases hr with ⟨q, rfl, hq, h₂⟩ | ⟨q, rfl, hne, hb⟩ | ⟨rfl, hle, rfl⟩
      · have hpos := h₂.pos
        refine ⟨n - 1, ?_, ?_, k + 1, h₂⟩
        all_goals
          simp only [SS] at *
          omega
      · exact .inl ⟨hne, hb⟩
      · exact .inr ⟨rfl, hle, k, h₁⟩
    · simp only [SS, W32] at *
      omega
    · rw [Nat.zero_mul, Nat.zero_add]
  refine hloop.mono fun r w' hr => ?_
  obtain ⟨res, clst, ofs⟩ := r
  simp only [returns_ite, returns_pure]
  rcases hr with ⟨hne, hb⟩ | ⟨rfl, hle, k, h⟩
  · exact ⟨fun hok => absurd hok.1 hne, fun _ => ⟨fun hok => absurd hok hne, fun _ => .inr hb⟩⟩
  · obtain rfl := h.lastIndex hg hle
    have hclst := h.clst
    have hofs := h.ofs
    have hbefore : g.lastIndex fp.objsize ≠ 0 →
        g.IsClust (g.reach w.disk.data fp.sclust (g.lastIndex fp.objsize - 1)) ∧
        2 ≤ g.reach w.disk.data fp.sclust (g.lastIndex fp.objsize) := fun h0 => by
      rw [← hclst]
      exact h.before _ (by omega)
    have hmod : ofs % SS = fp.objsize % SS := by
      rw [← hofs, ← Nat.mul_assoc, Nat.add_comm, Nat.add_mul_mod_self_right]
    simp only at hclst
    rw [hmod]
    refine ⟨fun hm => ⟨fun _ => ⟨by simp, fun _ => .inl hm.2⟩, fun hsc => ⟨fun _ =>
      ⟨hclst, fun _ => ?_,
      hbefore⟩, fun hne => absurd rfl hne⟩⟩, fun hm => ⟨fun _ =>
        ⟨hclst, fun h => absurd ⟨rfl, h⟩ hm, hbefore⟩, fun hne => absurd rfl hne⟩⟩
    rw [← hclst]
    exact hg.isClust (hclst ▸ g.reach_lt _ hstart _) hsc

omit hg in
/-- Where the number at the end is tested, a seek that succeeds has followed the whole chain; and
only there. -/
theorem validated_iff {w : State} {c s : Nat} {r : FRESULT × FIL}
    (hok : r.1 = .ok → r.2.clust = g.reach w.disk.data c (g.lastIndex s) ∧
      (s % SS ≠ 0 → g.IsClust (g.reach w.disk.data c (g.lastIndex s))) ∧
      (g.lastIndex s ≠ 0 → g.IsClust (g.reach w.disk.data c (g.lastIndex s - 1)) ∧
        2 ≤ g.reach w.disk.data c (g.lastIndex s)))
    (hne : r.1 ≠ .ok → s % SS ≠ 0 ∨ g.Broken w c s) :
    (g.EndTested w.disk.data c s → Validated g w.disk.data c s r) ∧
    (w.disk.Reliable → g.WalkOn w c s → Validated g w.disk.data c s r →
      g.EndTested w.disk.data c s) := by
  constructor
  · intro htest
    have hcov : r.1 = .ok → g.Covers w.disk.data c s := fun h => by
      obtain ⟨-, hsec, hlast⟩ := hok h
      rw [Geometry.covers_iff]
      rcases htest with hm | hc | ⟨h0, hn | hn⟩
      · exact hsec hm
      · exact hc
      · exact absurd (hlast h0).1 hn
      · exact absurd (hlast h0).2 (by omega)
    exact ⟨fun h => ⟨hcov h, (hok h).1⟩, fun hn h => hn (hcov h)⟩
  · intro hrel hon hval
    by_contra hn
    unfold Geometry.EndTested at hn
    simp only [not_or, not_and, not_not, ne_eq] at hn
    obtain ⟨hm, hc, hlast⟩ := hn
    -- the seek goes through, though the chain does not cover the file
    have hres : r.1 ≠ .ok := hval.fails fun h => hc (Geometry.covers_iff.1 h)
    obtain ⟨k, hk, hlt⟩ := ((hne hres).resolve_left fun h => h hm) hrel hon
    obtain ⟨hprev, hge⟩ := hlast (by omega)
    rcases Nat.lt_or_ge (k + 1) (g.lastIndex s) with h | h
    · have := (Geometry.isClust_reach hprev (k + 1) (by omega)).1
      omega
    · rw [← Nat.le_antisymm hk h] at hge
      exact hge hlt

end

/-- `f_open` finds the writable file `dj` behind `path`; its directory entry is in the window. -/
structure Located (w : State) (path : List UInt8) (mode : UInt8) (dj : DIR) (w₂ : State) :
    Prop where
  found : ∃ rest w₁, mountVolume path mode w = some ((.ok, rest), w₁) ∧
    followPath {} rest w₁ = some ((.ok, dj), w₂)
  named : hasBits dj.nsflag NS_NONAME = false
  file : hasBits dj.attr (AM_RDO ||| AM_DIR) = false

/-- The access modes of a file. -/
def accessModes : List UInt8 := [0, FA_READ, FA_WRITE, FA_READ ||| FA_WRITE]

/-- The file object of the directory entry in the window. Source: `ff.c:3839-3885`. -/
def FIL.opened (fp : FIL) (w : State) (dj : DIR) (mode : UInt8) : FIL :=
  { fp with
    dirSect := w.winsect
    dirPtr := dj.dir
    sclust := ldClust w.geo w.win dj.dir
    objsize := ldDword w.win (dj.dir + DIR_FileSize)
    fs := true
    id := w.geo.id
    flag := mode
    err := .ok
    sect := 0
    fptr := 0 }

/-- Opening a file of at least one byte for append is the append seek on it. -/
theorem Located.append {w : State} {acc : UInt8} (hacc : acc ∈ accessModes) {path : List UInt8}
    {dj : DIR} {w₂ : State} (hl : Located w path (acc ||| FA_OPEN_APPEND) dj w₂)
    (hpos : 0 < ldDword w₂.win (dj.dir + DIR_FileSize)) (fp : FIL)
    {Q : FRESULT × FIL → State → Prop}
    (h : Returns (appendSeek (fp.opened w₂ dj (acc ||| FA_OPEN_APPEND))) w₂ fun r u =>
      Q (r.1, if r.1 ≠ .ok then { r.2 with fs := false } else r.2) u) :
    Returns (fOpen fp path (acc ||| FA_OPEN_APPEND)) w Q := by
  obtain ⟨rest, w₁, hmount, hfollow⟩ := hl.found
  have hbits : ∀ a ∈ accessModes, (a ||| FA_OPEN_APPEND) &&& (FA_READ ||| FA_WRITE |||
      FA_CREATE_ALWAYS ||| FA_CREATE_NEW ||| FA_OPEN_ALWAYS ||| FA_OPEN_APPEND) =
      a ||| FA_OPEN_APPEND ∧
      hasBits (a ||| FA_OPEN_APPEND) (FA_CREATE_ALWAYS ||| FA_OPEN_ALWAYS ||| FA_CREATE_NEW) =
      true ∧ hasBits (a ||| FA_OPEN_APPEND) FA_CREATE_NEW = false ∧
      hasBits (a ||| FA_OPEN_APPEND) FA_CREATE_ALWAYS = false ∧
      hasBits (a ||| FA_OPEN_APPEND) FA_SEEKEND = true := by decide +kernel
  obtain ⟨hmask, hcreate, hnew, halways, hseek⟩ := hbits acc hacc
  have hok : ¬(FRESULT.ok ≠ .ok) := fun h => h rfl
  simp only [fOpen, hmask, returns_bind]
  refine ⟨(.ok, rest), w₁, hmount, ?_⟩
  simp only [if_true, returns_bind]
  refine ⟨(.ok, dj), w₂, hfollow, ?_⟩
  simp only [hl.named, Bool.false_eq_true, and_false, if_false, hcreate, if_true, openCreate, hok,
    hl.file, hnew, halways, returns_pure, openFil, hseek, returns_bind, returns_get, hpos, and_self]
  exact h

theorem hasBits_or {a m n : UInt8} (h : hasBits a (m ||| n) = false) :
    hasBits a m = false ∧ hasBits a n = false := by
  have hor : a &&& (m ||| n) = a &&& m ||| a &&& n := by
    rw [← UInt8.toNat_inj]
    simp only [UInt8.toNat_and, UInt8.toNat_or]
    exact Nat.and_or_distrib_left _ _ _
  simpa only [hasBits, hor, bne_eq_false_iff_eq, UInt8.or_eq_zero_iff] using h

/-- Opening an existing file only sets up the file object. -/
theorem Located.existing {w : State} {acc : UInt8} (hacc : acc ∈ accessModes) {path : List UInt8}
    {dj : DIR} {w₂ : State} (hl : Located w path acc dj w₂) (fp : FIL) :
    fOpen fp path acc w = some ((.ok, fp.opened w₂ dj acc), w₂) := by
  obtain ⟨rest, w₁, hmount, hfollow⟩ := hl.found
  have hbits : ∀ a ∈ accessModes, a &&& (FA_READ ||| FA_WRITE ||| FA_CREATE_ALWAYS |||
      FA_CREATE_NEW ||| FA_OPEN_ALWAYS ||| FA_OPEN_APPEND) = a ∧
      hasBits a (FA_CREATE_ALWAYS ||| FA_OPEN_ALWAYS ||| FA_CREATE_NEW) = false ∧
      hasBits a FA_CREATE_ALWAYS = false ∧ hasBits a FA_SEEKEND = false := by decide +kernel
  obtain ⟨hmask, hcreate, halways, hseek⟩ := hbits acc hacc
  obtain ⟨hrdo, hdir⟩ := hasBits_or hl.file
  have hexist : openExisting .ok dj acc = .ok := by
    simp [openExisting, hrdo, hdir]
  have hrun : Returns (fOpen fp path acc) w fun r u => r = (.ok, fp.opened w₂ dj acc) ∧ u = w₂ := by
    simp only [fOpen, hmask, returns_bind]
    refine ⟨(.ok, rest), w₁, hmount, ?_⟩
    simp only [if_true, returns_bind]
    refine ⟨(.ok, dj), w₂, hfollow, ?_⟩
    simp only [hl.named, Bool.false_eq_true, and_false, if_false, hcreate, hexist, returns_pure,
      if_true, openFil, halways, hseek, returns_bind, returns_get, false_and, ne_eq,
      not_true_eq_false]
    exact ⟨rfl, trivial⟩
  obtain ⟨r, u, hr, rfl, rfl⟩ := hrun
  exact hr

/-- On a mounted volume the mode is not looked at before the file is found. -/
theorem Located.mode {w : State} (hf : w.geo.fsType ≠ .none) {path : List UInt8} {mode : UInt8}
    {dj : DIR} {w₂ : State} (hl : Located w path mode dj w₂) (mode' : UInt8) :
    Located w path mode' dj w₂ ∧ ∃ rest, followPath {} rest w = some ((.ok, dj), w₂) := by
  obtain ⟨rest, w₁, hmount, hfollow⟩ := hl.found
  obtain ⟨-, hhost⟩ := mountVolume_host w path mode _ _ hmount
  obtain ⟨hld, hreg⟩ := hhost rfl
  have hm := fun m => mountVolume_mounted m hld hreg hf
  cases hmount.symm.trans (hm mode)
  exact ⟨⟨⟨rest, w, hm mode', hfollow⟩, hl.named, hl.file⟩, rest, hfollow⟩

/-- Opening for append validates the chain of a file of at least one byte if the number at its end
is tested, and only then. -/
theorem fOpen_append_iff {w : State} (hw : Resting w) {acc : UInt8} (hacc : acc ∈ accessModes)
    {path : List UInt8} {dj : DIR} {w₂ : State}
    (hl : Located w path (acc ||| FA_OPEN_APPEND) dj w₂) (hdir : w₂.winsect < w.disk.sectors)
    {c s : Nat} (hc : c = ldClust w₂.geo w₂.win dj.dir)
    (hs : s = ldDword w₂.win (dj.dir + DIR_FileSize)) (hpos : 0 < s) (fp : FIL) :
    Returns (fOpen fp path (acc ||| FA_OPEN_APPEND)) w fun r _ =>
      (w₂.geo.EndTested w.disk.data c s → Validated w₂.geo w.disk.data c s r) ∧
      (w.disk.Reliable → w₂.geo.WalkOn w c s → Validated w₂.geo w.disk.data c s r →
        w₂.geo.EndTested w.disk.data c s) := by
  obtain ⟨rest, w₁, hmount, hfollow⟩ := hl.found
  obtain ⟨hset, hg⟩ := mountVolume_settled hw path _ _ _ hmount rfl
  have hset₂ : Settled w w₁.geo w₂ :=
    followPath_of_move (moveWindow_settled hw.size) {} rest w₁ hset _ _ hfollow
  have ho : w₂.OnSector := by
    have hon : w₂.winsect < w₂.disk.sectors := by
      rw [hset₂.sectors]
      exact hdir
    exact ⟨hon, hset₂.coherent hset₂.clean hon⟩
  subst hc hs
  rw [← hset₂.geo] at hg
  refine hl.append hacc hpos fp ((appendSeek_along hg rfl hset₂.clean ho hpos ldDword_lt
    (ldClust_lt _ _ _)).mono fun r w' ⟨hres, hne⟩ => ?_)
  have hclust : (if r.1 ≠ .ok then { r.2 with fs := false } else r.2).clust = r.2.clust := by
    split <;> rfl
  rw [hset₂.data] at hres
  refine validated_iff (fun h => ?_) fun h => (hne h).imp_right fun hb hrel hon => ?_
  · simp only [hclust]
    exact hres h
  · have hbroken := hb (fun k => by rw [hset₂.fault]; exact hrel k) fun k hk t ht => by
      rw [hset₂.sectors]
      rw [hset₂.data] at ht
      exact hon k hk t ht
    rwa [hset₂.data] at hbroken

/-- The hypotheses are met by the file of two clusters, whose chain is validated. -/
theorem fOpen_append_file : ∃ dj w₂,
    Located (registeredOn twoClusters) [0x41] (FA_WRITE ||| FA_OPEN_APPEND) dj w₂ ∧
    Returns (fOpen {} [0x41] (FA_WRITE ||| FA_OPEN_APPEND)) (registeredOn twoClusters) fun r _ =>
      Validated w₂.geo twoClusters.data 2 1000 r := by
  have h : ((mountVolume [0x41] (FA_WRITE ||| FA_OPEN_APPEND)
      (registeredOn twoClusters)).bind fun r =>
      (followPath {} r.1.2 r.2).map fun q => ((r.1.1, q.1.1, q.2.winsect),
        (q.1.2.nsflag, q.1.2.attr),
        (ldClust q.2.geo q.2.win q.1.2.dir, ldDword q.2.win (q.1.2.dir + DIR_FileSize)))) =
      some ((.ok, .ok, 3), (NS_LAST, 0), (2, 1000)) := by
    decide +kernel
  obtain ⟨⟨⟨res, rest⟩, w₁⟩, hmount, h⟩ := Option.bind_eq_some_iff.1 h
  obtain ⟨⟨⟨res', dj⟩, w₂⟩, hfollow, h⟩ := Option.map_eq_some_iff.1 h
  simp only [Prod.mk.injEq] at h
  obtain ⟨⟨rfl, rfl, hws⟩, ⟨hns, hattr⟩, hc, hs⟩ := h
  have hl : Located (registeredOn twoClusters) [0x41] (FA_WRITE ||| FA_OPEN_APPEND) dj w₂ :=
    ⟨⟨rest, w₁, hmount, hfollow⟩, by rw [hns]; decide, by rw [hattr]; decide⟩
  have hsec : (registeredOn twoClusters).disk.sectors = 128 := rfl
  exact ⟨dj, w₂, hl, (fOpen_append_iff (registeredOn_resting (by decide)) (by decide) hl (by omega)
    hc.symm hs.symm (by decide) {}).mono fun r _ hr => hr.1 (.inl (by decide))⟩

/-- The volume of `emptyChain`, where the file has 1024 bytes and a chain of one cluster of 512. -/
def shortChain : Disk :=
  { emptyChain with
    data := fun s =>
      if s = 1 then ((Sector.zero.set 3 0xFF).set 4 0x0F) else
      if s = 3 then stDword ((emptyChain.data 3).set DIR_FstClusLO 2) DIR_FileSize 1024
      else emptyChain.data s }

/-- `f_open` takes the mark of the end of the chain as the second cluster of the file. -/
theorem fOpen_append_short : ∃ fp w, fOpen {} [0x41] (FA_WRITE ||| FA_OPEN_APPEND)
      (registeredOn shortChain) = some ((.ok, fp), w) ∧ fp.sclust = 2 ∧ fp.objsize = 1024 ∧
    fp.clust = 0xFFF ∧ w.geo.nFatent = 126 ∧ ¬Validated w.geo shortChain.data 2 1024 (.ok, fp) := by
  have h : (fOpen {} [0x41] (FA_WRITE ||| FA_OPEN_APPEND) (registeredOn shortChain)).map (fun r =>
      ((r.1.1, r.1.2.sclust, r.1.2.objsize), (r.1.2.clust, r.2.geo.nFatent))) =
      some ((.ok, 2, 1024), (0xFFF, 126)) := by
    decide +kernel
  obtain ⟨⟨⟨res, fp⟩, w⟩, hopen, h⟩ := Option.map_eq_some_iff.1 h
  simp only [Prod.mk.injEq] at h
  obtain ⟨⟨rfl, hstart, hsize⟩, hclust, hn⟩ := h
  refine ⟨fp, w, hopen, hstart, hsize, hclust, hn, fun hv => ?_⟩
  obtain ⟨hcov, hlast⟩ := hv.covers rfl
  have hc := (hcov _ (Nat.le_refl _)).2
  rw [← hlast] at hc
  simp only at hc
  omega

end FatFs
