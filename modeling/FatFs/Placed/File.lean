import FatFs.Placed.Dir

/-!
# Invariants of the file functions

The functions on files keep every closed property, for file objects that point to sectors in `A`:
`FIL.Placed` says so of the sector of the directory entry and, while the file object is in use, of
the current data sector. A file object that `validate` refuses may hold anything (`FIL.Safe`).
-/

namespace FatFs

open Run

/-- The sectors that the file object stores to are in `A`. -/
structure FIL.Placed (A : Nat → Prop) (fp : FIL) : Prop where
  dirSect : A fp.dirSect
  sect : fp.err = .ok → fp.fptr % SS ≠ 0 → A fp.sect

/-- A file object of the mounted volume is placed. -/
def FIL.Safe (g : Geometry) (A : Nat → Prop) (fp : FIL) : Prop :=
  fp.fs = true → fp.id = g.id → fp.Placed A

/-- What a round of `f_read` or `f_write` leaves: the property, and a placed file object that is not
aborted if the loop goes on. -/
structure Transferred {β γ : Type} (A : Nat → Prop) (I : State → Prop)
    (r : (FIL × β) ⊕ (FRESULT × FIL × γ)) (w : State) : Prop where
  inv : I w
  next : ∀ p, r = .inl p → p.1.Placed A ∧ p.1.err = .ok
  done : ∀ p, r = .inr p → p.2.1.Placed A

section
variable {A : Nat → Prop} {I : State → Prop} {β γ : Type} {w : State}

/-- An aborted file object needs no place but that of its entry. -/
theorem FIL.Placed.abort {fp : FIL} (h : A fp.dirSect) {res : FRESULT} (hr : res ≠ .ok) :
    (fp.abort res).Placed A :=
  ⟨h, fun he => absurd he hr⟩

/-- At the start of a sector the pointer stands in no sector. -/
theorem FIL.Placed.of_aligned {fp : FIL} (h : A fp.dirSect) (hm : fp.fptr % SS = 0) : fp.Placed A :=
  ⟨h, fun _ hne => absurd hm hne⟩

/-- The pointer moves on in the current sector. -/
theorem FIL.Placed.advance (fp : FIL) (hd : A fp.dirSect) (hs : A fp.sect) (n : Nat) :
    (fp.advance n).Placed A :=
  ⟨hd, fun _ _ => hs⟩

/-- A pointer on a sector boundary stays on one after whole sectors, also when it wraps. -/
theorem add_sectors_aligned {n : Nat} (h : n % SS = 0) (k : Nat) : add32 n (SS * k) % SS = 0 := by
  unfold add32 W32
  simp only [SS] at *
  omega

/-- The pointer moves on by whole sectors. -/
theorem FIL.Placed.advance_aligned {fp : FIL} (hd : A fp.dirSect) (hm : fp.fptr % SS = 0)
    (n : Nat) : (fp.advance (SS * n)).Placed A :=
  .of_aligned hd (add_sectors_aligned hm n)

/-- A round that goes on, with its file object in place. -/
theorem Transferred.goOn {fp : FIL} {b : β} (hw : I w) (hp : fp.Placed A) (he : fp.err = .ok) :
    Transferred (γ := γ) A I (.inl (fp, b)) w :=
  ⟨hw, by rintro _ ⟨⟩; exact ⟨hp, he⟩, by simp⟩

/-- A round that ends, with its file object in place. -/
theorem Transferred.leave {fp : FIL} {res : FRESULT} {c : γ} (hw : I w) (hp : fp.Placed A) :
    Transferred (β := β) A I (.inr (res, fp, c)) w :=
  ⟨hw, by simp, by rintro _ ⟨⟩; exact hp⟩

/-- A loop of rounds leaves a placed file object. -/
theorem Transferred.loop {body : FIL × β → M ((FIL × β) ⊕ (FRESULT × FIL × γ))}
    (h : ∀ {w fp b}, I w → FIL.Placed A fp → fp.err = .ok →
      Ensures (body (fp, b)) w (Transferred A I)) {fp : FIL} {b : β} (hw : I w) (hp : fp.Placed A)
    (he : fp.err = .ok) (n : Nat) :
    Ensures (Run.loop body n (fp, b)) w fun r w' => I w' ∧ r.2.1.Placed A := by
  refine Ensures.loop (I := fun p w' => I w' ∧ p.1.Placed A ∧ p.1.err = .ok)
    (fun p w₁ ⟨h₁, hp₁, he₁⟩ => (h h₁ hp₁ he₁).mono fun r w₂ h₂ => ?_) n ⟨hw, hp, he⟩
  cases r with
  | inl q => exact ⟨h₂.inv, h₂.next q rfl⟩
  | inr q => exact ⟨h₂.inv, h₂.done q rfl⟩

end

section
variable {g : Geometry} {A : Nat → Prop} {I : State → Prop} (hg : g.Sound) (hI : Closed g A I)

include hI

/-- `validate` accepts only a file object of the mounted volume. -/
theorem validate_closed {w : State} (hw : I w) (fs : Bool) (id : Nat) :
    Ensures (validate fs id) w fun r w' => w' = w ∧ (r = .ok → fs = true ∧ id = g.id) := by
  rw [validate, ensures_bind, ensures_get, ensures_pure, (hI.inv hw).geo]
  refine ⟨rfl, fun hr => ?_⟩
  split at hr
  · next h => exact ⟨h.1, h.2.2.1⟩
  · cases hr

include hg

/-! ## Reading -/

omit hg in
/-- The step of `f_read` to the next cluster changes the cluster only. -/
theorem readClust_closed {w : State} (hw : I w) (fp : FIL) (csect : Nat) :
    Ensures (readClust fp csect) w fun r w' => I w' ∧
      (∀ q, r = .ok q → q.dirSect = fp.dirSect ∧ q.err = fp.err ∧ q.fptr = fp.fptr) ∧
      ∀ e, r = .error e → e ≠ .ok := by
  have hget : Keeps I (if fp.fptr = 0 then pure fp.sclust else getFat fp.clust) :=
    .ite (fun _ => .pure _) fun _ => getFat_keeps hI.move _
  rw [readClust, ensures_ite, ensures_bind, ensures_pure]
  refine ⟨fun _ => (hget w hw).mono fun c w₁ h₁ => ?_, fun _ => ⟨hw, ?_, by simp⟩⟩
  · simp only [ensures_ite, ensures_pure]
    refine ⟨fun _ => ⟨h₁, by simp⟩, fun _ => ⟨fun _ => ⟨h₁, by simp⟩, fun _ => ⟨h₁, ?_, by simp⟩⟩⟩
    rintro _ ⟨⟩
    exact ⟨rfl, rfl, rfl⟩
  · rintro _ ⟨⟩
    exact ⟨rfl, rfl, rfl⟩

omit hg in
/-- The read of a part of a sector leaves the pointer in that sector. -/
theorem readWindow_closed {w : State} (hw : I w) (fp : FIL) (hd : A fp.dirSect) (hs : A fp.sect)
    (he : fp.err = .ok) (btr : Nat) (acc : List UInt8) :
    Ensures (readWindow fp btr acc) w (Transferred A I) := by
  rw [readWindow, ensures_bind]
  refine (hI.move _ w hw).mono fun r w₁ h₁ => ?_
  simp only [ensures_ite, ensures_pure, ensures_bind, ensures_get]
  exact ⟨fun _ => .leave h₁ (.abort hd (by decide)), fun _ => .goOn h₁ ⟨hd, fun _ _ => hs⟩ he⟩

/-- The sector of the current cluster that a transfer starts at is in the data area. -/
theorem transfer_area {c n : Nat} (hs : clst2sect g c ≠ 0) :
    A (add32 (clst2sect g c) (n &&& (g.csize - 1))) := by
  have harea := hg.inArea_clst2sect hs (hg.csect_lt n)
  rw [add32_of_lt (hg.inArea_lt harea)]
  exact hI.area harea

/-- One round of `f_read` leaves the file object in place. -/
theorem fReadRound_closed {w : State} (hw : I w) {fp : FIL} (hp : fp.Placed A) (he : fp.err = .ok)
    (b : Nat × List UInt8) : Ensures (fReadRound (fp, b)) w (Transferred A I) := by
  obtain ⟨btr, acc⟩ := b
  rw [fReadRound]
  simp only [ensures_ite, ensures_pure]
  refine ⟨fun _ => .leave hw hp, fun _ => ⟨fun hm => ?_, fun hm =>
    readWindow_closed hI hw fp hp.dirSect (hp.sect he hm) he btr acc⟩⟩
  simp only [ensures_bind, ensures_get]
  refine (readClust_closed hI hw fp _).mono fun r w₁ hpost => ?_
  obtain ⟨h₁, hok, herr⟩ := hpost
  cases r with
  | error res => exact ensures_pure.2 (.leave h₁ (.abort hp.dirSect (herr _ rfl)))
  | ok fp₁ =>
    obtain ⟨hd₁, he₁, hf₁⟩ := hok fp₁ rfl
    have hd : A fp₁.dirSect := hd₁ ▸ hp.dirSect
    have hm₁ : fp₁.fptr % SS = 0 := hf₁ ▸ hm
    rw [(hI.inv hw).geo]
    simp only [ensures_ite, ensures_pure, ensures_bind]
    refine ⟨fun _ => .leave h₁ (.abort hd (by decide)), fun hs => ⟨fun _ => ?_, fun _ =>
      readWindow_closed hI h₁ { fp₁ with
        sect := add32 (clst2sect g fp₁.clust) (fp.fptr / SS &&& (g.csize - 1)) } hd
        (transfer_area hg hI hs) (he₁.trans he) btr acc⟩⟩
    refine (returns_diskRead.2 ⟨fun _ => ?_, fun _ => ?_⟩).ensures
    · simp only [ensures_bind, ensures_get, ensures_pure]
      exact .goOn (hI.note _ h₁) (.of_aligned hd (add_sectors_aligned hm₁ _)) (he₁.trans he)
    · exact ensures_pure.2 (.leave (hI.note _ h₁) (.abort hd (by decide)))

/-- `f_read` keeps a closed property and leaves the file object in place. -/
theorem fRead_closed {w : State} (hw : I w) {fp : FIL} (hp : fp.Safe g A) (btr : Nat) :
    Ensures (fRead fp btr) w fun r w' => I w' ∧ r.2.1.Safe g A := by
  rw [fRead, ensures_bind]
  refine (validate_closed hI hw _ _).mono fun r w₁ ⟨rfl, hv⟩ => ?_
  simp only [ensures_ite, ensures_pure]
  refine ⟨fun _ => ⟨hw, hp⟩, fun hr => ⟨fun _ => ⟨hw, hp⟩, fun he =>
    ⟨fun _ => ⟨hw, hp⟩, fun _ => ?_⟩⟩⟩
  obtain ⟨hfs, hid⟩ := hv (by simpa using hr)
  exact (Transferred.loop (fun h hp he => fReadRound_closed hg hI h hp he _) hw (hp hfs hid)
    (by simpa using he) _).mono fun r w₂ h₂ => ⟨h₂.1, fun _ _ => h₂.2⟩

/-! ## Writing -/

omit hg in
/-- The step of `f_write` to the next cluster changes the cluster only. -/
theorem writeClust_closed {w : State} (hw : I w) (fp : FIL) (csect : Nat) :
    Ensures (writeClust fp csect) w fun r w' => I w' ∧
      (∀ q, r = .ok (some q) → q.dirSect = fp.dirSect ∧ q.err = fp.err ∧ q.fptr = fp.fptr) ∧
      ∀ e, r = .error e → e ≠ .ok := by
  have hget : Keeps I (if fp.fptr = 0 then if fp.sclust = 0 then createChain 0 else pure fp.sclust
      else createChain fp.clust) :=
    .ite (fun _ => .ite (fun _ => hI.create _) fun _ => .pure _) fun _ => hI.create _
  rw [writeClust, ensures_ite, ensures_bind, ensures_pure]
  refine ⟨fun _ => (hget w hw).mono fun c w₁ h₁ => ?_, fun _ => ⟨hw, ?_, by simp⟩⟩
  · simp only [ensures_ite, ensures_pure]
    refine ⟨fun _ => ⟨h₁, by simp⟩, fun _ => ⟨fun _ => ⟨h₁, by simp⟩, fun _ =>
      ⟨fun _ => ⟨h₁, by simp⟩, fun _ => ⟨h₁, ?_, by simp⟩⟩⟩⟩
    rintro _ ⟨⟩
    exact ⟨rfl, rfl, rfl⟩
  · rintro _ ⟨⟩
    exact ⟨rfl, rfl, rfl⟩

/-- The write of a part of a sector stores in the sector that the pointer stands in. -/
theorem writeWindow_closed {w : State} (hw : I w) (fp : FIL) (hd : A fp.dirSect) (hs : A fp.sect)
    (he : fp.err = .ok) (buff : List UInt8) (bw : Nat) :
    Ensures (writeWindow fp buff bw) w (Transferred A I) := by
  rw [writeWindow, ensures_bind]
  refine (moveWindow_closed hg hI hw _).mono fun r w₁ hpost => ?_
  obtain ⟨h₁, hws⟩ := hpost
  simp only [ensures_ite, ensures_pure, ensures_bind, modWin, ensures_modify]
  refine ⟨fun _ => .leave h₁ (.abort hd (by decide)), fun hok => .goOn (hI.store _ h₁ ?_)
    (.advance _ hd hs _) he⟩
  rw [hws (by simpa using hok)]
  exact hs

/-- The growing edge of a file and the store behind it. -/
theorem growEdge_closed {w : State} (hw : I w) {fp : FIL} (hd : A fp.dirSect) (he : fp.err = .ok)
    {sect : Nat} (hs : g.InArea sect) (buff : List UInt8) (bw : Nat) :
    Ensures (do
      if (← growEdge fp sect) ≠ .ok then return .inr (.diskErr, fp.abort .diskErr, bw)
      else writeWindow { fp with sect := sect } buff bw) w (Transferred A I) := by
  rw [ensures_bind, growEdge]
  simp only [ensures_ite, ensures_pure, ensures_bind, ensures_modify]
  refine ⟨fun _ => ?_, fun _ => ⟨by simp, fun _ =>
    writeWindow_closed hg hI hw { fp with sect := sect } hd (hI.area hs) he buff bw⟩⟩
  refine ((hI.sync w hw).and (syncWindow_inv hg (hI.inv hw)).ensures).mono fun r w₁ hpost => ?_
  obtain ⟨h₁, hs₁⟩ := hpost
  refine ⟨fun _ => ⟨fun _ => .leave h₁ (.abort hd (by decide)), by simp⟩, fun hok =>
    ⟨by simp, fun _ => ?_⟩⟩
  -- the window is on the sector already, so the move does nothing
  rw [writeWindow, moveWindow]
  simp only [ensures_bind, ensures_get, ne_eq, not_true_eq_false, if_false, ensures_pure, modWin,
    ensures_modify]
  refine .goOn (hI.edge sect _ h₁ (hs₁.clean (by simpa using hok)) hs) ?_ he
  exact FIL.Placed.advance { fp with sect := sect } hd (hI.area hs) _

/-- One round of `f_write` stores in the data area only. -/
theorem fWriteRound_closed {w : State} (hw : I w) {fp : FIL} (hp : fp.Placed A) (he : fp.err = .ok)
    (b : List UInt8 × Nat) : Ensures (fWriteRound (fp, b)) w (Transferred A I) := by
  obtain ⟨buff, bw⟩ := b
  rw [fWriteRound]
  simp only [ensures_ite, ensures_pure]
  refine ⟨fun _ => .leave hw hp, fun _ => ⟨fun hm => ?_, fun hm =>
    writeWindow_closed hg hI hw fp hp.dirSect (hp.sect he hm) he buff bw⟩⟩
  simp only [ensures_bind, ensures_get]
  refine (writeClust_closed hI hw fp _).mono fun r w₁ hpost => ?_
  obtain ⟨h₁, hok, herr⟩ := hpost
  rcases r with res | _ | fp₁
  · exact ensures_pure.2 (.leave h₁ (.abort hp.dirSect (herr _ rfl)))
  · exact ensures_pure.2 (.leave h₁ hp)
  obtain ⟨hd₁, he₁, hf₁⟩ := hok fp₁ rfl
  have hd : A fp₁.dirSect := hd₁ ▸ hp.dirSect
  have hm₁ : fp₁.fptr % SS = 0 := hf₁ ▸ hm
  have he' : fp₁.err = .ok := he₁.trans he
  have hsync : Keeps I (if w₁.winsect = fp₁.sect then syncWindow else pure .ok) :=
    .ite (fun _ => hI.sync) fun _ => .pure _
  simp only [ensures_bind, ensures_get]
  refine (hsync w₁ h₁).mono fun r w₂ h₂ => ?_
  rw [(hI.inv hw).geo]
  simp only [ensures_ite, ensures_pure]
  refine ⟨fun _ => .leave h₂ (.abort hd (by decide)), fun _ => ⟨fun _ => .leave h₂ (.abort hd
    (by decide)), fun hs => ?_⟩⟩
  have hcs := hg.csect_lt (fp.fptr / SS)
  have harea : ∀ k, (fp.fptr / SS &&& (g.csize - 1)) + k < g.csize →
      g.InArea (clst2sect g fp₁.clust + (fp.fptr / SS &&& (g.csize - 1)) + k) := fun k hk => by
    rw [Nat.add_assoc]
    exact hg.inArea_clst2sect hs hk
  have hfst := hg.inArea_clst2sect hs hcs
  rw [add32_of_lt (hg.inArea_lt hfst)]
  refine ⟨fun hcc => ?_, fun _ => growEdge_closed hg hI h₂ hd he' hfst buff bw⟩
  obtain ⟨hpos, -, hcl⟩ := clip_pos hcc hcs
  rw [ensures_bind]
  refine (hI.direct buff _ _ hpos (fun k hk => harea k (by omega)) w₂ h₂).mono fun r w₃ h₃ => ?_
  simp only [ensures_ite, ensures_pure]
  exact ⟨fun _ => .leave h₃ (.abort hd (by decide)),
    fun _ => .goOn h₃ (.advance_aligned hd hm₁ _) he'⟩

/-- `f_write` keeps a closed property and leaves the file object in place. -/
theorem fWrite_closed {w : State} (hw : I w) {fp : FIL} (hp : fp.Safe g A) (buff : List UInt8) :
    Ensures (fWrite fp buff) w fun r w' => I w' ∧ r.2.1.Safe g A := by
  rw [fWrite, ensures_bind]
  refine (validate_closed hI hw _ _).mono fun r w₁ ⟨rfl, hv⟩ => ?_
  simp only [ensures_ite, ensures_pure, ensures_bind]
  refine ⟨fun _ => ⟨hw, hp⟩, fun hr => ⟨fun _ => ⟨hw, hp⟩, fun he =>
    ⟨fun _ => ⟨hw, hp⟩, fun _ => ?_⟩⟩⟩
  obtain ⟨hfs, hid⟩ := hv (by simpa using hr)
  refine (Transferred.loop (fun h hp he => fWriteRound_closed hg hI h hp he _) hw (hp hfs hid)
    (by simpa using he) _).mono fun r w₂ h₂ => ⟨h₂.1, fun _ _ => ?_⟩
  rcases r with ⟨res, fp', bw⟩
  cases res with
  | ok => exact ⟨h₂.2.dirSect, h₂.2.sect⟩
  | _ => exact h₂.2

/-! ## Synchronising and closing -/

/-- `f_sync` stores in the sector of the directory entry. -/
theorem fSync_closed {w : State} (hw : I w) {fp : FIL} (hp : fp.Safe g A) :
    Ensures (fSync fp) w fun r w' => I w' ∧ r.2.Safe g A := by
  rw [fSync, ensures_bind]
  refine (validate_closed hI hw _ _).mono fun r w₁ hpost => ?_
  obtain ⟨rfl, hv⟩ := hpost
  simp only [ensures_ite, ensures_pure, ensures_bind]
  refine ⟨fun hdirty => ?_, fun _ => ⟨hw, hp⟩⟩
  obtain ⟨hfs, hid⟩ := hv hdirty.1
  have hp' := hp hfs hid
  refine (moveWindow_closed hg hI hw _).mono fun r w₂ hpost => ?_
  obtain ⟨h₂, hws⟩ := hpost
  refine ⟨fun hok => ?_, fun _ => ⟨h₂, hp⟩⟩
  simp only [ensures_get, modWin, ensures_modify]
  refine (hI.info _ (hI.store _ h₂ ?_)).mono fun r w₃ h₃ => ⟨h₃, fun _ _ => ⟨hp'.dirSect, hp'.sect⟩⟩
  rw [hws hok]
  exact hp'.dirSect

/-- `f_close` keeps a closed property. -/
theorem fClose_closed {w : State} (hw : I w) {fp : FIL} (hp : fp.Safe g A) :
    Ensures (fClose fp) w fun r w' => I w' ∧ r.2.Safe g A := by
  rw [fClose, ensures_bind]
  refine (fSync_closed hg hI hw hp).mono fun r w₁ hpost => ?_
  obtain ⟨h₁, hs⟩ := hpost
  simp only [ensures_ite, ensures_pure, ensures_bind]
  refine ⟨fun _ => (validate_closed hI h₁ _ _).mono fun r w₂ hpost => ⟨hpost.1 ▸ h₁, ?_⟩, fun _ =>
    ⟨h₁, hs⟩⟩
  split
  · exact fun h => by cases h
  · exact hs

/-! ## AtBoundary and truncating -/

/-- The file object while `f_lseek` follows the chain: the pointer is on a cluster boundary. -/
def AtBoundary (d : Nat) (fp : FIL) : Prop := fp.dirSect = d ∧ fp.fptr % SS = 0

/-- What the loop of `f_lseek` leaves: an aborted file object, or the offset inside the last
cluster. -/
def Sought (d bcs : Nat) : Except (FRESULT × FIL) (FIL × Nat × Nat) → Prop
  | .ok p => AtBoundary d p.1 ∧ p.2.2 ≤ bcs
  | .error p => p.2.dirSect = d ∧ p.2.err ≠ .ok

omit hg in
/-- One round of the walk of `f_lseek` stays at the boundary of a cluster. -/
theorem seekRound_closed {w : State} (hw : I w) (n : Nat) {d : Nat} {p : FIL × Nat × Nat}
    (hp : AtBoundary d p.1) : Ensures (seekRound (n * SS) p) w fun r w' =>
      Sum.elim (fun q => I w' ∧ AtBoundary d q.1) (fun q => I w' ∧ Sought d (n * SS) q) r := by
  obtain ⟨fp, clst, ofs⟩ := p
  have hal : add32 fp.fptr (n * SS) % SS = 0 := by
    rw [Nat.mul_comm]
    exact add_sectors_aligned hp.2 n
  have hstep : ∀ c, AtBoundary d { fp with fptr := add32 fp.fptr (n * SS), clust := c } :=
    fun _ => ⟨hp.1, hal⟩
  have hne : ∀ {res : FRESULT}, res ≠ .ok → Sought d (n * SS)
      (.error (res, FIL.abort { fp with fptr := add32 fp.fptr (n * SS) } res)) :=
    fun h => ⟨hp.1, h⟩
  rw [seekRound]
  simp only [ensures_ite, ensures_pure, ensures_bind, ensures_get]
  refine ⟨fun _ => ⟨fun _ => ?_, fun _ => ?_⟩, fun hle => ⟨hw, hp, Nat.le_of_not_lt hle⟩⟩
  · exact (hI.create _ _ hw).mono fun c w₁ h₁ => ⟨fun _ => ⟨h₁, ⟨hp.1, hal⟩,
        Nat.zero_le _⟩, fun _ =>
      ⟨fun _ => ⟨h₁, hne (by decide)⟩, fun _ => ⟨fun _ => ⟨h₁, hne (by decide)⟩, fun _ =>
        ⟨h₁, hstep c⟩⟩⟩⟩
  · exact (getFat_keeps hI.move _ _ hw).mono fun c w₁ h₁ => ⟨fun _ => ⟨h₁,
        hne (by decide)⟩, fun _ =>
      ⟨fun _ => ⟨h₁, hne (by decide)⟩, fun _ => ⟨h₁, hstep c⟩⟩⟩

omit hg hI in
/-- The end of `f_lseek` places the file object on the sector, unless the pointer is on a sector
boundary. -/
theorem seekEnd_placed {fp : FIL} {nsect : Nat} (hd : A fp.dirSect)
    (hs : fp.fptr % SS ≠ 0 → A nsect) : (seekEnd fp nsect).Placed A := by
  have h : ∀ q : FIL, q.dirSect = fp.dirSect → q.fptr = fp.fptr →
      FIL.Placed A (if q.fptr % SS ≠ 0 ∧ nsect ≠ q.sect then { q with sect := nsect } else q) := by
    intro q hq hf
    split
    · exact ⟨hq ▸ hd, fun _ hm => hs (hf ▸ hm)⟩
    · next h =>
      refine ⟨hq ▸ hd, fun _ hm => ?_⟩
      have he : nsect = q.sect := by
        by_contra hne
        exact h ⟨hm, hne⟩
      rw [← he]
      exact hs (hf ▸ hm)
  unfold seekEnd
  split
  · exact h _ rfl rfl
  · exact h _ rfl rfl

/-- The walk of `f_lseek` ends in a sector of a cluster that it reached. -/
theorem seekFollow_closed {w : State} (hw : I w) {fp : FIL} (hd : A fp.dirSect)
    (hm : fp.fptr % SS = 0) (clst ofs : Nat) :
    Ensures (seekFollow fp clst ofs) w fun r w' => I w' ∧ r.2.Placed A := by
  rw [seekFollow]
  simp only [ensures_ite, ensures_pure, ensures_bind, ensures_get]
  refine ⟨fun _ => ?_, fun _ => ⟨hw, seekEnd_placed hd fun h => absurd hm h⟩⟩
  rw [(hI.inv hw).geo]
  refine (Ensures.loop (I := fun p w' => I w' ∧ AtBoundary fp.dirSect p.1)
    (fun p w₁ h₁ => seekRound_closed hI h₁.1 g.csize h₁.2) _ ⟨hw, rfl, hm⟩).mono
    fun r w₁ hpost => ?_
  obtain ⟨h₁, hr⟩ := hpost
  rcases r with ⟨res, q⟩ | ⟨q, c, o⟩
  · refine ensures_pure.2 ⟨h₁, ?_, fun he => absurd he hr.2⟩
    rw [hr.1]
    exact hd
  obtain ⟨⟨hq, hqm⟩, hle⟩ := hr
  have hdq : A q.dirSect := hq ▸ hd
  have hmod : add32 q.fptr o % SS = o % SS := by
    unfold add32 W32
    simp only [SS] at *
    omega
  simp only [ensures_ite, ensures_pure]
  refine ⟨fun ho => ⟨fun _ => ⟨h₁, hdq, fun he => ?_⟩, fun hn => ⟨h₁, seekEnd_placed hdq
    fun _ => ?_⟩⟩, fun ho => ⟨h₁, seekEnd_placed hdq fun h => ?_⟩⟩
  · cases he
  · have hlt : o / SS < g.csize := by
      refine Nat.div_lt_of_lt_mul ?_
      rw [Nat.mul_comm]
      refine Nat.lt_of_le_of_ne hle fun he => ho ?_
      rw [he, Nat.mul_mod_left]
    have harea := hg.inArea_clst2sect hn hlt
    rw [add32_of_lt (hg.inArea_lt harea)]
    exact hI.area harea
  · refine absurd (Eq.trans hmod ?_) h
    simpa using ho

omit hI in
/-- The start of the cluster of a pointer is on a sector boundary. -/
theorem Geometry.Sound.clustStart_aligned (n : Nat) :
    (n - (n &&& (g.csize * SS - 1))) % SS = 0 := by
  refine Nat.sub_mod_eq_zero_of_mod_eq ?_
  rw [hg.and_bcs, Nat.mod_mul_left_mod]

/-- `f_lseek` keeps a closed property and leaves the file object in place. -/
theorem fLseek_closed {w : State} (hw : I w) {fp : FIL} (hp : fp.Safe g A) (ofs : Nat) :
    Ensures (fLseek fp ofs) w fun r w' => I w' ∧ r.2.Safe g A := by
  rw [fLseek, ensures_bind]
  refine (validate_closed hI hw _ _).mono fun r w₁ ⟨rfl, hv⟩ => ?_
  simp only [ensures_ite, ensures_pure, ensures_bind, ensures_get]
  refine ⟨fun _ => ⟨hw, hp⟩, fun hr => ⟨fun _ => ⟨hw, hp⟩, fun _ => ?_⟩⟩
  obtain ⟨hfs, hid⟩ := hv (by simpa using hr)
  have hd : A fp.dirSect := (hp hfs hid).dirSect
  have hseek : ∀ {w₂ : State} {q : FIL}, I w₂ → q.dirSect = fp.dirSect → q.fptr % SS = 0 → ∀ c o,
      Ensures (seekFollow q c o) w₂ fun r w' => I w' ∧ r.2.Safe g A := fun h₂ hq hm c o =>
    (seekFollow_closed hg hI h₂ (hq ▸ hd) hm c o).mono fun _ _ h => ⟨h.1, fun _ _ => h.2⟩
  have hz : 0 % SS = 0 := Nat.zero_mod SS
  refine ⟨fun _ => ⟨fun _ => ?_, fun _ => ⟨fun _ => ?_, fun _ => ?_⟩⟩, fun _ => ⟨hw, fun _ _ => ?_⟩⟩
  · refine hseek hw ?_ ?_ _ _
    · rfl
    · rw [(hI.inv hw).geo]
      exact hg.clustStart_aligned _
  · refine (hI.create 0 _ hw).mono fun c w₂ h₂ =>
        ⟨fun _ => ⟨h₂, fun _ _ => ⟨hd, fun he => ?_⟩⟩, fun _ =>
      ⟨fun _ => ⟨h₂, fun _ _ => ⟨hd, fun he => ?_⟩⟩, fun _ => ?_⟩⟩
    · cases he
    · cases he
    · refine hseek h₂ ?_ ?_ _ _
      · rfl
      · exact hz
  · refine hseek hw ?_ ?_ _ _
    · rfl
    · exact hz
  · exact seekEnd_placed hd fun h => absurd hz h

/-- The file objects have the same pointer and sectors. -/
structure SamePlace (fp q : FIL) : Prop where
  dirSect : q.dirSect = fp.dirSect
  sect : q.sect = fp.sect
  fptr : q.fptr = fp.fptr
  err : q.err = fp.err

omit hg hI in
/-- A file object is in its own place. -/
theorem SamePlace.refl (fp : FIL) : SamePlace fp fp := ⟨rfl, rfl, rfl, rfl⟩

/-- `f_truncate` removes the chain behind the current cluster, which is its predecessor. -/
theorem truncChain_closed {w : State} (hw : I w) (fp : FIL) :
    Ensures (truncChain fp) w fun r w' => I w' ∧ SamePlace fp r.2 := by
  rw [truncChain]
  simp only [ensures_ite, ensures_pure, ensures_bind]
  refine ⟨fun _ => ?_, fun _ => ?_⟩
  · exact (hI.remove _ 0 hw fun h => absurd rfl h).mono fun r w₁ h₁ => ⟨h₁, rfl, rfl, rfl, rfl⟩
  · refine (getFat_closed hg hI hw _).mono fun c w₁ hpost => ?_
    obtain ⟨h₁, hr⟩ := hpost
    refine ⟨fun _ => ⟨h₁, .refl fp⟩,
      fun hd => ⟨fun _ => ⟨h₁, .refl fp⟩, fun h1 => ?_⟩⟩
    rw [ensures_get]
    refine ⟨fun _ => ?_, fun _ => ⟨h₁, .refl fp⟩⟩
    obtain ⟨hcl, hc, -⟩ := (hr.val.resolve_left h1).resolve_left hd
    refine (hI.remove c fp.clust h₁ fun _ => ?_).mono fun r w₂ h₂ => ⟨h₂, .refl fp⟩
    rw [hc]
    exact hg.entry_same hr.same hcl.2

/-- `f_truncate` keeps a closed property and leaves the file object in place. -/
theorem fTruncate_closed {w : State} (hw : I w) {fp : FIL} (hp : fp.Safe g A) :
    Ensures (fTruncate fp) w fun r w' => I w' ∧ r.2.Safe g A := by
  rw [fTruncate, ensures_bind]
  refine (validate_closed hI hw _ _).mono fun r w₁ hpost => ?_
  obtain ⟨rfl, hv⟩ := hpost
  simp only [ensures_ite, ensures_pure, ensures_bind]
  refine ⟨fun _ => ⟨hw, hp⟩, fun hr => ⟨fun _ => ⟨hw, hp⟩, fun _ => ⟨fun _ => ⟨hw, hp⟩, fun _ =>
    ⟨fun _ => ?_, fun _ => ⟨hw, hp⟩⟩⟩⟩⟩
  obtain ⟨hfs, hid⟩ := hv (by simpa using hr)
  have hp' := hp hfs hid
  refine (truncChain_closed hg hI hw fp).mono fun r w₂ hpost => ?_
  obtain ⟨h₂, hd, hs, hf, he⟩ := hpost
  refine ⟨h₂, fun _ _ => ?_⟩
  obtain ⟨res, q⟩ := r
  have hq : A q.dirSect := hd ▸ hp'.dirSect
  cases res with
  | ok => exact ⟨hq, fun h hm => hs ▸ hp'.sect (he ▸ h) (hf ▸ hm)⟩
  | _ => exact ⟨hq, fun h => by cases h⟩

end

end FatFs
