import FatFs.Model.Mount

/-!
# The segments of a path

What a path denotes, independently of how `follow_path` and `create_name` find it: the bytes up to
the first one that is not above a space, split at runs of separators (`segments`). `resolve` walks
the directories along a list of segments. The step lemmas say how `create_name` cuts one segment off
the path, and where its last mark depends on the signedness of `char`.
-/

namespace FatFs

open Run

/-! ## Segments -/

/-- The byte belongs to the path; bytes are unsigned. -/
def inPath (c : UInt8) : Bool := decide (0x20 < c)

/-- The byte belongs to a segment. -/
def inSegment (c : UInt8) : Bool := inPath c && !isSeparator c

/-- The segments of a path: what is before the first byte that ends the path, split at runs of
separators. -/
def segments (p : List UInt8) : List (List UInt8) :=
  ((p.takeWhile inPath).splitOnP isSeparator).filter (!·.isEmpty)

/-- A separator does not end the path. -/
theorem inPath_of_separator {c : UInt8} (h : isSeparator c = true) : inPath c = true := by
  simp only [isSeparator, Bool.or_eq_true, beq_iff_eq] at h
  rcases h with rfl | rfl <;> decide

/-- What ends a segment ends the path or is a separator. -/
theorem inSegment_eq_false {c : UInt8} (h : inSegment c = false) :
    inPath c = false ∨ isSeparator c = true := by
  simp only [inSegment, Bool.and_eq_false_iff, Bool.not_eq_false'] at h
  exact h

/-- Separators in front of a path do not count. -/
theorem segments_separator {c : UInt8} {p : List UInt8} (h : isSeparator c = true) :
    segments (c :: p) = segments p := by
  simp [segments, inPath_of_separator h, List.splitOnP_cons_eq_if_modifyHead, h]

/-- Leading separators do not matter. -/
theorem segments_strip (p : List UInt8) : segments (p.dropWhile isSeparator) = segments p := by
  induction p with
  | nil => rfl
  | cons c p ih =>
    by_cases h : isSeparator c = true
    · rw [List.dropWhile_cons, if_pos h, ih, segments_separator h]
    · rw [List.dropWhile_cons, if_neg h]

section
variable {seg : List UInt8} (hseg : ∀ c ∈ seg, inSegment c = true)

include hseg

/-- A segment is inside the path. -/
theorem inPath_of_segment : ∀ c ∈ seg, inPath c = true := fun c hc => by
  have := hseg c hc
  simp only [inSegment, Bool.and_eq_true] at this
  exact this.1

/-- A segment has no separator. -/
theorem not_separator_of_segment : ∀ c ∈ seg, isSeparator c = false := fun c hc => by
  have := hseg c hc
  simp only [inSegment, Bool.and_eq_true, Bool.not_eq_true'] at this
  exact this.2

/-- A path that ends after a segment has this one segment. -/
theorem segments_last {rest : List UInt8} (hne : seg ≠ [])
    (hrest : ∀ c ∈ rest.head?, inPath c = false) : segments (seg ++ rest) = [seg] := by
  have ht : rest.takeWhile inPath = [] := by
    cases rest with
    | nil => rfl
    | cons c r => rw [List.takeWhile_cons, if_neg (by simp [hrest c (by simp)])]
  have hs : seg.splitOnP isSeparator = [seg] :=
    List.splitOnP_eq_singleton (not_separator_of_segment hseg)
  rw [segments, List.takeWhile_append_of_pos (inPath_of_segment hseg), ht, List.append_nil, hs]
  simp [hne]

/-- A segment before a separator is the first of the path. -/
theorem segments_cons {s : UInt8} {rest : List UInt8} (hne : seg ≠ [])
    (hs : isSeparator s = true) :
    segments (seg ++ s :: rest) = seg :: segments (rest.dropWhile isSeparator) := by
  rw [segments_strip, segments, List.takeWhile_append_of_pos (inPath_of_segment hseg),
    List.takeWhile_cons, if_pos (inPath_of_separator hs),
    List.splitOnP_append_cons_of_forall_mem (not_separator_of_segment hseg) _ hs]
  simp [segments, hne]

end

/-- A path that starts with a byte of a segment is the segment and what follows it. -/
theorem exists_segment {p : List UInt8} (hp : ∃ c ∈ p.head?, inSegment c = true) :
    ∃ seg rest, p = seg ++ rest ∧ seg ≠ [] ∧ (∀ c ∈ seg, inSegment c = true) ∧
      ∀ c ∈ rest.head?, inSegment c = false := by
  refine ⟨p.takeWhile inSegment, p.dropWhile inSegment, List.takeWhile_append_dropWhile.symm, ?_,
    List.all_eq_true.1 List.all_takeWhile, fun c hc => ?_⟩
  · cases p with
    | nil => simp at hp
    | cons c p =>
      have : inSegment c = true := by simpa using hp
      simp [this]
  · have := List.head?_dropWhile_not inSegment p
    rw [hc] at this
    simpa using this

/-- The segments of a path that starts with one: there is another one behind a separator, or the
path ends. -/
theorem segments_append {seg rest : List UInt8} (hne : seg ≠ [])
    (hseg : ∀ c ∈ seg, inSegment c = true) (hrest : ∀ c ∈ rest.head?, inSegment c = false) :
    (segments (seg ++ rest) = [seg] ∧ ∀ c ∈ rest.head?, inPath c = false) ∨
      ∃ s r, rest = s :: r ∧ isSeparator s = true ∧
        segments (seg ++ rest) = seg :: segments (r.dropWhile isSeparator) := by
  cases rest with
  | nil => exact .inl ⟨segments_last hseg hne (by simp), by simp⟩
  | cons s r =>
    rcases inSegment_eq_false (hrest s (by simp)) with h | h
    · have hend : ∀ c ∈ (s :: r).head?, inPath c = false := by simpa using h
      exact .inl ⟨segments_last hseg hne hend, hend⟩
    · exact .inr ⟨s, r, rfl, h, segments_cons hseg hne h⟩

/-- A path without a leading separator has no segments exactly when it ends at once. -/
theorem segments_eq_nil {p : List UInt8} (hp : ∀ c ∈ p.head?, isSeparator c = false) :
    segments p = [] ↔ ∀ c ∈ p.head?, inPath c = false := by
  cases p with
  | nil => simp [segments]
  | cons c p =>
    have hc := hp c (by simp)
    cases hin : inPath c with
    | false => simp [segments, hin]
    | true =>
      have hseg : inSegment c = true := by simp [inSegment, hin, hc]
      obtain ⟨seg, rest, he, hne, hall, hrest⟩ :=
        exists_segment (p := c :: p) ⟨c, by simp, hseg⟩
      have : segments (c :: p) ≠ [] := by
        rw [he]
        rcases segments_append hne hall hrest with ⟨h, _⟩ | ⟨_, _, _, _, h⟩ <;> rw [h] <;> simp
      simp [this, hin]

/-! ## Cutting a segment off -/

/-- What ends the path is a blank or a control character. -/
theorem le_space_iff {c : UInt8} : c ≤ 0x20 ↔ inPath c = false := by
  simp [inPath, UInt8.not_lt]

/-- The comparison of a plain `char` with a space: the bytes from `0x80` on are below it when `char`
is signed. -/
theorem charInt_le_space (signed : Bool) (c : UInt8) :
    charInt signed c ≤ 0x20 ↔ inPath c = false ∨ (signed = true ∧ 0x80 ≤ c) := by
  have hlt := c.toNat_lt
  have h₁ : inPath c = false ↔ c.toNat ≤ 32 := by
    rw [← le_space_iff, UInt8.le_iff_toNat_le]
    rfl
  have h₂ : (0x80 : UInt8) ≤ c ↔ 128 ≤ c.toNat := by
    rw [UInt8.le_iff_toNat_le]
    rfl
  rw [h₁, h₂]
  unfold charInt
  cases signed with
  | false =>
    simp only [Bool.false_eq_true, false_and, if_false, or_false]
    omega
  | true =>
    simp only [true_and]
    split <;> omega

/-- What is left of a path behind the byte that ended a segment. -/
def behind (rest : List UInt8) : List UInt8 :=
  if isSeparator (rest.headD 0) then rest.tail.dropWhile isSeparator else rest.tail

/-- The loop of `create_name` reads the name of a segment as it would read the segment alone. -/
theorem nameLoop_append {rest : List UInt8} (hrest : ∀ c ∈ rest.head?, inSegment c = false) :
    ∀ {seg : List UInt8}, (∀ c ∈ seg, inSegment c = true) → ∀ i ni sfn,
      nameLoop (seg ++ rest) i ni sfn =
        (nameLoop seg i ni sfn).map fun e => ⟨rest.headD 0, behind rest, e.i, e.sfn⟩
  | [], _, i, ni, sfn => by
    cases rest with
    | nil => simp [nameLoop, behind, isSeparator]
    | cons c r =>
      rcases inSegment_eq_false (hrest c (by simp)) with h | h
      · have hs : isSeparator c = false := by
          cases hs : isSeparator c with
          | false => rfl
          | true => rw [inPath_of_separator hs] at h; cases h
        simp [nameLoop, behind, hs, le_space_iff.2 h]
      · have hp : ¬c ≤ 0x20 := by
          rw [le_space_iff, inPath_of_separator h]
          simp
        simp [nameLoop, behind, h, hp]
  | c :: seg, hseg, i, ni, sfn => by
    have hc := hseg c (by simp)
    have hp : ¬c ≤ 0x20 := by
      rw [le_space_iff, inPath_of_segment hseg c (by simp)]
      simp
    have hs := not_separator_of_segment hseg c (by simp)
    have ih := @nameLoop_append rest hrest seg fun d hd => hseg d (by simp [hd])
    rw [List.cons_append, nameLoop, nameLoop, if_neg hp, if_neg hp, hs]
    simp only [Bool.false_eq_true, if_false, ih]
    split
    · split <;> rfl
    · split <;> rfl

/-- The outcome of `create_name` on the segment alone, with the mark that tells if the path goes
on. -/
def nameSegment (dp : DIR) (seg : List UInt8) (last : Bool) : FRESULT × DIR :=
  match createName false dp seg with
  | (.ok, d, _) => (.ok, { d with nsflag := if last then NS_LAST else 0 })
  | (r, d, _) => (r, d)

/-- The name of a segment in directory form, if it is valid. -/
def segmentName (seg : List UInt8) : Option (List UInt8) :=
  match nameLoop seg 0 8 (List.replicate 11 0x20) with
  | none => none
  | some e =>
    if e.i = 0 then none
    else some (if e.sfn.headD 0 = DDEM then e.sfn.set 0 RDDEM else e.sfn)

/-- A valid segment is put in the directory object. -/
theorem nameSegment_some {seg fn : List UInt8} (h : segmentName seg = some fn) (dp : DIR)
    (last : Bool) :
    nameSegment dp seg last =
    (.ok, { dp with fn := fn, nsflag := if last then NS_LAST else 0 }) := by
  unfold segmentName at h
  unfold nameSegment createName
  generalize nameLoop seg 0 8 (List.replicate 11 0x20) = o at h
  cases o with
  | none => cases h
  | some e =>
    by_cases hi : e.i = 0
    · simp [hi] at h
    · simp only [hi, if_false, Option.some.injEq] at h
      simp [hi, ← h]

/-- An invalid segment is refused, whether it is the last one or not. -/
theorem nameSegment_none {seg : List UInt8} (h : segmentName seg = none) (dp : DIR) :
    ∃ d, ∀ last, nameSegment dp seg last = (.invalidName, d) := by
  unfold segmentName at h
  unfold nameSegment createName
  generalize nameLoop seg 0 8 (List.replicate 11 0x20) = o at h
  cases o with
  | none => exact ⟨dp, fun _ => rfl⟩
  | some e =>
    by_cases hi : e.i = 0
    · exact ⟨{ dp with fn := e.sfn }, fun _ => by simp [hi]⟩
    · simp [hi] at h

/-- `create_name` takes the first segment of the path. -/
theorem createName_append {seg rest : List UInt8} (hseg : ∀ c ∈ seg, inSegment c = true)
    (hrest : ∀ c ∈ rest.head?, inSegment c = false) (signed : Bool) (dp : DIR) :
    (createName signed dp (seg ++ rest)).1 = (nameSegment dp seg
      (decide (rest.headD 0 ≤ 0x20 ∨ charInt signed (peek (behind rest)) ≤ 0x20))).1 ∧
    (createName signed dp (seg ++ rest)).2.1 = (nameSegment dp seg
      (decide (rest.headD 0 ≤ 0x20 ∨ charInt signed (peek (behind rest)) ≤ 0x20))).2 ∧
    ((createName signed dp (seg ++ rest)).1 = .ok →
      (createName signed dp (seg ++ rest)).2.2 = behind rest) := by
  have h := nameLoop_append hrest hseg 0 8 (List.replicate 11 0x20)
  unfold nameSegment createName
  rw [h]
  cases nameLoop seg 0 8 (List.replicate 11 0x20) with
  | none => simp
  | some e =>
    simp only [Option.map_some]
    by_cases hi : e.i = 0 <;> simp [hi]

/-- How `create_name` cuts the first segment off a path: it marks it as the last one when no segment
follows, and, when `char` is signed, also when the next one starts with a byte from `0x80` on. -/
theorem createName_cut {p : List UInt8} (hp : ∃ c ∈ p.head?, inSegment c = true) :
    ∃ seg p', segments p = seg :: segments p' ∧ peek seg = peek p ∧ p'.length < p.length ∧
      (∀ c ∈ p'.head?, isSeparator c = false) ∧ ∀ signed dp,
      (createName signed dp p).1 = (nameSegment dp seg
        (decide (segments p' = [] ∨ (signed = true ∧ 0x80 ≤ peek p')))).1 ∧
      (createName signed dp p).2.1 = (nameSegment dp seg
        (decide (segments p' = [] ∨ (signed = true ∧ 0x80 ≤ peek p')))).2 ∧
      (segments p' ≠ [] → (createName signed dp p).1 = .ok →
        (createName signed dp p).2.2 = p') := by
  obtain ⟨seg, rest, rfl, hne, hseg, hrest⟩ := exists_segment hp
  have hpos : 0 < seg.length := List.length_pos_iff.2 hne
  have hpeek : peek seg = peek (seg ++ rest) := by
    cases seg with
    | nil => exact absurd rfl hne
    | cons c seg => rfl
  rcases segments_append hne hseg hrest with ⟨he, hend⟩ | ⟨s, r, rfl, hs, he⟩
  · refine ⟨seg, [], by rw [he]; rfl, hpeek, by simp; omega, by simp, fun signed dp => ?_⟩
    obtain ⟨h₁, h₂, -⟩ := createName_append hseg hrest signed dp
    have hlast : rest.headD 0 ≤ 0x20 := by
      rw [le_space_iff]
      cases rest with
      | nil => rfl
      | cons c r => exact hend c (by simp)
    have hnil : segments [] = [] := rfl
    simp only [hlast, true_or, decide_true] at h₁ h₂
    simp only [hnil, true_or, decide_true]
    exact ⟨h₁, h₂, by simp⟩
  · have hb : behind (s :: r) = r.dropWhile isSeparator := by simp [behind, hs]
    have hstrip : ∀ c ∈ (r.dropWhile isSeparator).head?, isSeparator c = false := fun c hc => by
      have := List.head?_dropWhile_not isSeparator r
      rw [hc] at this
      simpa using this
    refine ⟨seg, r.dropWhile isSeparator, he, hpeek, ?_, hstrip, fun signed dp => ?_⟩
    · have := (List.dropWhile_sublist (l := r) isSeparator).length_le
      simp
      omega
    · obtain ⟨h₁, h₂, h₃⟩ := createName_append hseg hrest signed dp
      rw [hb] at h₁ h₂ h₃
      have hmark : ((s :: r).headD 0 ≤ 0x20 ∨
          charInt signed (peek (r.dropWhile isSeparator)) ≤ 0x20) ↔
          (segments (r.dropWhile isSeparator) = [] ∨
            (signed = true ∧ 0x80 ≤ peek (r.dropWhile isSeparator))) := by
        rw [le_space_iff, charInt_le_space, segments_eq_nil hstrip]
        have hsp : inPath ((s :: r).headD 0) = true := inPath_of_separator hs
        rw [hsp]
        cases r.dropWhile isSeparator with
        | nil => simp [peek, inPath]
        | cons c q => simp [peek]
      simp only [hmark] at h₁ h₂
      exact ⟨h₁, h₂, fun _ => h₃⟩

end FatFs
