import FatFs.Format.Boot

/-!
# What a format writes

The writes of `f_mkfs` on a reliable device that holds the volume. `Wrote P` says that a piece of
the format touched the sectors of `P` only; `Filled` also what an area holds then. `Formatted` is
the content of the volume after `writeVolume`.
-/

namespace FatFs

open Run

/-! ## Areas -/

/-- The transfer is a write of sectors in `P`. -/
def Access.WritesIn (P : Nat → Prop) : Access → Prop
  | .read _ _ => False
  | .write s c => ∀ k < c, P (s + k)

/-- Only the device has changed, by writes to the sectors of `P`. -/
structure Wrote (P : Nat → Prop) (w w' : State) : Prop extends Kept w w' where
  outside : ∀ s, ¬P s → w'.disk.data s = w.disk.data s
  log : ∃ l, w'.disk.log = l ++ w.disk.log ∧ ∀ a ∈ l, a.WritesIn P

theorem Wrote.refl (P : Nat → Prop) (w : State) : Wrote P w w :=
  ⟨.refl w, fun _ _ => rfl, [], rfl, by simp⟩

theorem Wrote.trans {P : Nat → Prop} {w₁ w₂ w₃ : State} (h : Wrote P w₁ w₂) (h' : Wrote P w₂ w₃) :
    Wrote P w₁ w₃ := by
  obtain ⟨l, hl, hin⟩ := h.log
  obtain ⟨l', hl', hin'⟩ := h'.log
  refine ⟨h.toKept.trans h'.toKept, fun s hs => (h'.outside s hs).trans (h.outside s hs), l' ++ l,
    by rw [hl', hl, List.append_assoc], fun a ha => ?_⟩
  rcases List.mem_append.1 ha with ha | ha
  · exact hin' a ha
  · exact hin a ha

theorem Wrote.mono {P Q : Nat → Prop} {w w' : State} (h : Wrote P w w') (hPQ : ∀ s, P s → Q s) :
    Wrote Q w w' := by
  obtain ⟨l, hl, hin⟩ := h.log
  refine ⟨h.toKept, fun s hs => h.outside s fun hp => hs (hPQ s hp), l, hl, fun a ha => ?_⟩
  have := hin a ha
  cases a with
  | read => exact this
  | write s c => exact fun k hk => hPQ _ (this k hk)

/-- The sectors of an area. -/
def InRange (lo n s : Nat) : Prop := lo ≤ s ∧ s < lo + n

/-- An area of `n` sectors from `lo` on has been written with the content `f`. -/
structure Filled (lo n : Nat) (f : Nat → Sector) (w w' : State) : Prop
    extends Wrote (InRange lo n) w w' where
  inside : ∀ s, lo ≤ s → s < lo + n → w'.disk.data s = f s

/-- Two areas one after the other are one area. -/
theorem Filled.append {lo n m : Nat} {f : Nat → Sector} {w₁ w₂ w₃ : State}
    (h : Filled lo n f w₁ w₂) (h' : Filled (lo + n) m f w₂ w₃) : Filled lo (n + m) f w₁ w₃ where
  toWrote := (h.toWrote.mono fun s hs => ⟨hs.1, by have := hs.2; omega⟩).trans
    (h'.toWrote.mono fun s hs => ⟨by have := hs.1; omega, by have := hs.2; omega⟩)
  inside := by
    intro s hlo hhi
    rcases Nat.lt_or_ge s (lo + n) with hlt | hge
    · rw [h'.outside s fun hs => by have := hs.1; omega, h.inside s hlo hlt]
    · exact h'.inside s hge (by omega)

theorem Filled.congr {lo n : Nat} {f g : Nat → Sector} {w w' : State} (h : Filled lo n f w w')
    (hfg : ∀ s, lo ≤ s → s < lo + n → f s = g s) : Filled lo n g w w' :=
  ⟨h.toWrote, fun s h₁ h₂ => (h.inside s h₁ h₂).trans (hfg s h₁ h₂)⟩

/-- A write inside a reliable device. -/
theorem diskWrite_filled {w : State} {buff : Nat → Sector} {s c : Nat} (hr : w.disk.Reliable)
    (hs : s < w.disk.sectors) (hc : s + c ≤ w.disk.sectors) :
    Returns (diskWrite buff s c) w fun r w' =>
      r = .ok ∧ Filled s c (fun t => buff (t - s)) w w' := by
  have hserve : w.disk.serves s c = true := by
    rw [hr.serves]
    exact Disk.inBounds_iff.2 ⟨hs, hc⟩
  rw [returns_diskWrite]
  refine ⟨fun _ => ⟨rfl, ?_⟩, fun h => absurd hserve h⟩
  refine ⟨⟨⟨rfl, rfl, rfl, rfl, rfl, rfl, rfl, rfl, rfl, rfl⟩, fun t ht => ?_,
    [.write s c], rfl, ?_⟩, fun t h₁ h₂ => ?_⟩
  · rw [State.store_data]
    exact if_neg fun h => ht h
  · intro a ha
    rw [List.mem_singleton.1 ha]
    exact fun k hk => ⟨by omega, by omega⟩
  · rw [State.store_data]
    exact if_pos ⟨h₁, h₂⟩

/-- The content of an area that starts with the sector `hd` and is zero else. -/
def headed (lo : Nat) (hd : Sector) (s : Nat) : Sector := if s = lo then hd else Sector.zero

/-- A fill loop writes its area. -/
theorem fillArea_filled {w : State} {szBuf lo n : Nat} {hd : Sector} (hr : w.disk.Reliable)
    (hz : 0 < szBuf) (hn : 0 < n) (hin : lo + n ≤ w.disk.sectors) (hlt : lo + n < W32) :
    Returns (fillArea szBuf lo n hd) w fun r w' =>
      r = .ok (lo + n) ∧ Filled lo n (headed lo hd) w w' := by
  rw [fillArea]
  -- the invariant: the sectors before the current one are done
  refine Returns.loop (I := fun k p w' => ∃ m < n, p.1 = lo + m ∧ p.2.1 = n - m ∧ k = n - m ∧
      p.2.2 = headed lo hd (lo + m) ∧ Filled lo m (headed lo hd) w w') ?_
    ⟨0, hn, rfl, rfl, rfl, (if_pos rfl).symm, .refl _ _, fun s h₁ h₂ => by omega⟩ (by omega)
  rintro k ⟨s, c, h⟩ w₁ ⟨m, hm, rfl, rfl, rfl, rfl, hf⟩
  have hr₁ := hf.toKept.reliable hr
  have hs₁ := hf.sectors
  simp only [fillRound]
  generalize hc : (if szBuf < n - m then szBuf else n - m) = c
  have hc' : 0 < c ∧ c ≤ n - m := by
    rw [← hc]
    split <;> omega
  rw [returns_bind]
  refine (diskWrite_filled hr₁ (by omega) (by omega)).mono fun r w₂ ⟨hok, hf₂⟩ => ?_
  have hfill : Filled lo (m + c) (headed lo hd) w w₂ := by
    refine hf.append (hf₂.congr fun t h₁ h₂ => ?_)
    rcases Nat.eq_or_lt_of_le h₁ with rfl | hgt
    · rw [Nat.sub_self, if_pos rfl]
    · rw [if_neg (by omega), headed, if_neg (by omega)]
  have hadd : add32 (lo + m) c = lo + (m + c) := by
    rw [add32_of_lt (by omega), Nat.add_assoc]
  simp only [hok, hadd, ne_eq, not_true, if_false, returns_ite, returns_pure, round_inl, round_inr]
  refine ⟨fun h => ?_, fun h => ⟨n - (m + c), by omega, m + c, by omega, rfl, by omega,
    rfl, ?_, hfill⟩⟩
  · have he : m + c = n := by omega
    rw [he] at hfill ⊢
    exact ⟨rfl, hfill⟩
  · rw [headed, if_neg (by omega)]

/-- The content of `k` FATs of `n` sectors. -/
def fatsContent (lo n : Nat) (hd : Sector) (s : Nat) : Sector :=
  if (s - lo) % n = 0 then hd else Sector.zero

/-- The loop over the FATs writes all of them. -/
theorem fillFats_filled {szBuf : Nat} {l : MkfsLayout} (hz : 0 < szBuf) (hn : 0 < l.szFat)
    {base : Nat} : ∀ (k : Nat) {w : State} {lo : Nat}, w.disk.Reliable → base ≤ lo →
    (lo - base) % l.szFat = 0 → lo + l.szFat * k ≤ w.disk.sectors → lo + l.szFat * k < W32 →
    Returns (fillFats szBuf l k lo) w fun r w' => r = .ok (lo + l.szFat * k) ∧
      Filled lo (l.szFat * k) (fatsContent base l.szFat (makeFatHead l.fsty)) w w'
  | 0, w, lo, _, _, _, _, _ => by
    rw [fillFats, returns_pure]
    exact ⟨rfl, .refl _ _, fun s h₁ h₂ => by omega⟩
  | k + 1, w, lo, hr, hb, hmod, hin, hlt => by
    rw [Nat.mul_succ] at hin hlt
    rw [fillFats, returns_bind]
    refine (fillArea_filled hr hz hn (by omega) (by omega)).mono fun r w₁ ⟨hr₁, hf⟩ => ?_
    subst hr₁
    have hs := hf.sectors
    have hmod' : (lo + l.szFat - base) % l.szFat = 0 := by
      rw [show lo + l.szFat - base = lo - base + l.szFat by omega, Nat.add_mod_right, hmod]
    refine (fillFats_filled hz hn k (hf.toKept.reliable hr) (by omega) hmod' (by omega)
      (by omega)).mono fun r w₂ ⟨hr₂, hf₂⟩ => ?_
    have hfill : Filled lo l.szFat (fatsContent base l.szFat (makeFatHead l.fsty)) w w₁ := by
      refine hf.congr fun s h₁ h₂ => ?_
      have hdm : (s - base) % l.szFat = s - lo := by
        rw [show s - base = s - lo + (lo - base) by omega, Nat.add_mod, hmod, Nat.add_zero,
          Nat.mod_mod, Nat.mod_eq_of_lt (by omega)]
      simp only [headed, fatsContent, hdm]
      rcases Nat.eq_or_lt_of_le h₁ with rfl | hgt
      · simp
      · rw [if_neg (by omega), if_neg (by omega)]
    rw [Nat.mul_succ, Nat.add_comm (l.szFat * k)]
    exact ⟨by rw [hr₂, Nat.add_assoc], hfill.append hf₂⟩

/-! ## The volume -/

/-- The size of the root directory that a format clears. -/
def MkfsLayout.rootSize (l : MkfsLayout) : Nat := if l.fsty = .fat32 then l.pau else l.szDir

/-- The part of `writeVolume` that writes the FATs and the root directory. -/
def writeAreas (szBuf : Nat) (e : MkfsEnv) (l : MkfsLayout) : M FRESULT := do
  match ← fillFats szBuf l e.nFat l.bFat with
  | .error res => return res
  | .ok sect =>
    match ← fillArea szBuf sect (if l.fsty = .fat32 then l.pau else l.szDir) Sector.zero with
    | .error res => return res
    | .ok _ => return .ok

/-- The content of a formatted volume on the device. -/
structure Formatted (e : MkfsEnv) (l : MkfsLayout) (d : Disk) : Prop where
  boot : d.data e.bVol = makeVBR e l
  info : l.fsty = .fat32 → d.data (e.bVol + 1) = makeFsInfo l.nClst
  fats : ∀ s, l.bFat ≤ s → s < l.bFat + l.szFat * e.nFat →
    d.data s = fatsContent l.bFat l.szFat (makeFatHead l.fsty) s
  root : ∀ s, l.bFat + l.szFat * e.nFat ≤ s → s < l.bFat + l.szFat * e.nFat + l.rootSize →
    d.data s = Sector.zero

section
variable {e : MkfsEnv} (he : e.Sane) {l : MkfsLayout} (hl : Accepted e l)

include he hl

theorem Accepted.rootSize_pos : 0 < l.rootSize := by
  have := hl.pau.bounds
  have := he.nRoot
  have h := hl.szDir
  unfold MkfsLayout.rootSize
  split
  · omega
  · rw [if_neg ‹_›] at h
    omega

omit he in
/-- The root directory ends inside the volume. -/
theorem Accepted.root_le : l.bFat + l.szFat * e.nFat + l.rootSize ≤ e.bVol + e.szVol := by
  have h₁ := hl.bFat
  have h₂ := hl.fits
  have h₃ := hl.szDir
  have h₄ := hl.nClst
  have h₅ := hl.typed
  unfold MkfsLayout.system at h₂ h₄
  unfold MkfsLayout.rootSize
  split
  · rename_i h32
    -- there is at least one cluster
    have hpos : 0 < l.nClst := by
      simp only [Typed, h32, reduceCtorEq, false_and, false_or, true_and] at h₅
      omega
    have hle : l.pau ≤ e.szVol - (l.szRsv + l.szFat * e.nFat + l.szDir) := by
      have := Nat.div_mul_le_self (e.szVol - (l.szRsv + l.szFat * e.nFat + l.szDir)) l.pau
      rw [← h₄] at this
      exact Nat.le_trans (Nat.le_mul_of_pos_left _ hpos) this
    omega
  · omega

omit hl in
/-- The copies of the boot sector and the FSInfo record, which is written last. -/
theorem writeFat32Info_wrote {w : State} (hr : w.disk.Reliable)
    (hin : e.bVol + e.szVol ≤ w.disk.sectors) :
    Returns (writeFat32Info e l) w fun _ w' => Wrote (InRange (e.bVol + 1) 7) w w' ∧
      w'.disk.data (e.bVol + 1) = makeFsInfo l.nClst := by
  have htop := he.top
  have hvol := he.szVol
  have hadd : ∀ n ≤ 7, add32 e.bVol n = e.bVol + n := fun n hn => add32_of_lt (by omega)
  rw [writeFat32Info, hadd 6 (by omega), hadd 7 (by omega), hadd 1 (by omega), returns_bind]
  refine (diskWrite_filled hr (by omega) (by omega)).mono fun _ w₁ ⟨_, h₁⟩ => ?_
  have hs₁ := h₁.sectors
  rw [returns_bind]
  refine (diskWrite_filled (h₁.toKept.reliable hr) (by omega) (by omega)).mono
    fun _ w₂ ⟨_, h₂⟩ => ?_
  have hs₂ := h₂.sectors
  rw [returns_bind]
  refine (diskWrite_filled (h₂.toKept.reliable (h₁.toKept.reliable hr)) (by omega)
    (by omega)).mono fun _ w₃ ⟨_, h₃⟩ => ?_
  refine returns_pure.2 ⟨?_, h₃.inside _ (by omega) (by omega)⟩
  exact ((h₁.toWrote.mono fun s hs => ⟨by have := hs.1; omega, by have := hs.2; omega⟩).trans
    (h₂.toWrote.mono fun s hs => ⟨by have := hs.1; omega, by have := hs.2; omega⟩)).trans
    (h₃.toWrote.mono fun s hs => ⟨by have := hs.1; omega, by have := hs.2; omega⟩)

/-- The FATs and the root directory. -/
theorem writeAreas_filled {w : State} {szBuf : Nat} (hz : 0 < szBuf) (hr : w.disk.Reliable)
    (hin : e.bVol + e.szVol ≤ w.disk.sectors) :
    Returns (writeAreas szBuf e l) w fun r w' => r = .ok ∧
      Wrote (InRange l.bFat (l.szFat * e.nFat + l.rootSize)) w w' ∧
      (∀ s, l.bFat ≤ s → s < l.bFat + l.szFat * e.nFat →
        w'.disk.data s = fatsContent l.bFat l.szFat (makeFatHead l.fsty) s) ∧
      ∀ s, l.bFat + l.szFat * e.nFat ≤ s → s < l.bFat + l.szFat * e.nFat + l.rootSize →
        w'.disk.data s = Sector.zero := by
  have htop := he.top
  have hroot := hl.root_le
  rw [writeAreas, returns_bind]
  refine (fillFats_filled hz hl.szFat_pos e.nFat hr (Nat.le_refl l.bFat) (by simp) (by omega)
    (by omega)).mono fun r₁ w₁ ⟨hok₁, h₁⟩ => ?_
  subst hok₁
  have hs₁ := h₁.sectors
  rw [returns_bind]
  refine (fillArea_filled (h₁.toKept.reliable hr) hz (n := l.rootSize) (hl.rootSize_pos he)
    (by omega) (by omega)).mono fun r₂ w₂ ⟨hok₂, h₂⟩ => ?_
  rw [hok₂]
  refine returns_pure.2 ⟨rfl, ?_, fun s hlo hhi => ?_, fun s hlo hhi => ?_⟩
  · refine (h₁.toWrote.mono fun s hs => ?_).trans (h₂.toWrote.mono fun s hs => ?_)
    all_goals
      have hs₁ := hs.1
      have hs₂ := hs.2
      exact ⟨by omega, by omega⟩
  · rw [h₂.outside _ fun h => by have := h.1; omega, h₁.inside s hlo hhi]
  · rw [h₂.inside s hlo hhi, headed]
    split <;> rfl

/-- The format writes the volume, and nothing else. -/
theorem writeVolume_formatted {w : State} {szBuf : Nat} (hz : 0 < szBuf) (hr : w.disk.Reliable)
    (hin : e.bVol + e.szVol ≤ w.disk.sectors) :
    Returns (writeVolume szBuf e l) w fun r w' => r = .ok ∧
      Wrote (InRange e.bVol e.szVol) w w' ∧ Formatted e l w'.disk := by
  have hvol := he.szVol
  have hbf := hl.bFat
  have hrsv := hl.szRsv
  have hroot := hl.root_le
  rw [writeVolume, returns_bind]
  refine (diskWrite_filled hr (by omega) (by omega)).mono fun r₁ w₁ ⟨hok, h₁⟩ => ?_
  have hs₁ := h₁.sectors
  have hr₁ := h₁.toKept.reliable hr
  -- the areas after the reserved one
  have htail : ∀ w₂, Wrote (InRange (e.bVol + 1) (l.szRsv - 1)) w₁ w₂ →
      (l.fsty = .fat32 → w₂.disk.data (e.bVol + 1) = makeFsInfo l.nClst) →
      Returns (writeAreas szBuf e l) w₂ fun r w' => r = .ok ∧
        Wrote (InRange e.bVol e.szVol) w w' ∧ Formatted e l w'.disk := by
    intro w₂ h₂ hi
    have hs₂ := h₂.sectors
    refine (writeAreas_filled he hl hz (h₂.toKept.reliable hr₁) (by omega)).mono
      fun r w₃ ⟨hok, h₃, hfat, hdir⟩ => ⟨hok, ?_, ?_, fun h32 => ?_, hfat, hdir⟩
    · refine ((h₁.toWrote.mono fun s hs => ?_).trans (h₂.mono fun s hs => ?_)).trans
        (h₃.mono fun s hs => ?_)
      all_goals
        have hs₁ := hs.1
        have hs₂ := hs.2
        exact ⟨by omega, by omega⟩
    · rw [h₃.outside _ fun h => by have := h.1; omega,
        h₂.outside _ fun h => by have := h.1; omega, h₁.inside _ (by omega) (by omega)]
    · have := hrsv.2 h32
      rw [h₃.outside _ fun h => by have := h.1; omega, hi h32]
  simp only [hok, ne_eq, not_true, if_false]
  rw [returns_ite]
  refine ⟨fun h32 => ?_, fun h32 => htail w₁ (.refl _ _) fun h => absurd h h32⟩
  rw [returns_bind]
  refine (writeFat32Info_wrote he hr₁ (by omega)).mono fun _ w₂ ⟨h₂, hi⟩ =>
    htail w₂ (h₂.mono fun s hs => ?_) fun _ => hi
  have h₃ := hrsv.2 h32
  have hs₂ := hs.2
  exact ⟨hs.1, by omega⟩

end

end FatFs
