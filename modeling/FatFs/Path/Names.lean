import FatFs.Path.Segments
import Mathlib

/-!
# Short names

The grammar of the names that `create_name` accepts (`ShortName`), the directory form of a name
(`shortName`), and the name that `get_fileinfo` renders from it. `createName_grammar` says that
`create_name` accepts this grammar and builds this form. The rendered name is accepted again and has
the same directory form, but for the segment that is a single dot: its directory form is blank, and
the rendered name is empty (`createName_roundTrips_iff`).
-/

namespace FatFs

open Run

/-! ## Bytes -/

/-- A property of bytes is one of the numbers below 256. -/
theorem forall_byte {P : UInt8 → Prop} (h : ∀ n < 256, P (UInt8.ofNat n)) (c : UInt8) : P c := by
  have := h c.toNat c.toNat_lt
  rwa [UInt8.ofNat_toNat] at this

/-- A byte of a name in directory form: the letters `a` to `z` in upper case, the bytes from `0x80`
on through the table of the code page. -/
def upChar (c : UInt8) : UInt8 :=
  if 0x80 ≤ c then exCvt.getD (c &&& 0x7F).toNat 0
  else if 0x61 ≤ c ∧ c ≤ 0x7A then c - 0x20
  else c

/-- The characters that no name has: `*`, `+`, `,`, `:`, `;`, `<`, `=`, `>`, `[`, `]`, `|`, the
double quote, `?` and DEL. -/
def reservedChars : List UInt8 :=
  [0x2A, 0x2B, 0x2C, 0x3A, 0x3B, 0x3C, 0x3D, 0x3E, 0x5B, 0x5D, 0x7C, 0x22, 0x3F, 0x7F]

/-- The two conversions of `create_name` give the byte of the directory form. -/
theorem toUpper_cvtChar (c : UInt8) : toUpper (cvtChar c) = upChar c :=
  forall_byte (P := fun c => toUpper (cvtChar c) = upChar c) (by decide +kernel) c

/-- `create_name` tests a converted byte for the reserved characters; the conversion does not
matter. -/
theorem cvtChar_illegal (c : UInt8) : cvtChar c ∈ illegalChars ↔ c ∈ reservedChars :=
  forall_byte (P := fun c => cvtChar c ∈ illegalChars ↔ c ∈ reservedChars) (by decide +kernel) c

/-- The byte can be in a field of a name. -/
def isNameChar (c : UInt8) : Bool := inSegment c && c ≠ 0x2E && c ∉ reservedChars

/-- The bytes of a name are converted to bytes of a name, and only once. -/
theorem upChar_nameChar {c : UInt8} (h : isNameChar c = true) :
    isNameChar (upChar c) = true ∧ upChar (upChar c) = upChar c :=
  forall_byte (P := fun c => isNameChar c = true →
    isNameChar (upChar c) = true ∧ upChar (upChar c) = upChar c) (by decide +kernel) c h

/-- A byte of a name is not a blank, and the replacement of the deleted mark is not one either. -/
theorem nameChar_ne {c : UInt8} (h : isNameChar c = true) : c ≠ 0x20 ∧ c ≠ RDDEM ∧ c ≠ 0 :=
  forall_byte (P := fun c => isNameChar c = true → c ≠ 0x20 ∧ c ≠ RDDEM ∧ c ≠ 0)
    (by decide +kernel) c h

/-! ## The grammar -/

/-- The part of a segment before the first dot. -/
def nameBody (seg : List UInt8) : List UInt8 := seg.takeWhile (· != 0x2E)

/-- The part of a segment behind the first dot. -/
def nameExt (seg : List UInt8) : List UInt8 := (seg.dropWhile (· != 0x2E)).tail

/-- The segment is a name in 8.3 format. -/
structure ShortName (seg : List UInt8) : Prop where
  nonempty : seg ≠ []
  dots : seg.count 0x2E ≤ 1
  body : (nameBody seg).length ≤ 8
  ext : (nameExt seg).length ≤ 3
  legal : ∀ c ∈ seg, c ∉ reservedChars

/-- A field of a name, padded with blanks. -/
def nameField (n : Nat) (bs : List UInt8) : List UInt8 :=
  bs.map upChar ++ List.replicate (n - bs.length) 0x20

/-- The name with a first byte that collides with the deleted mark replaced. -/
def replaceDdem (sfn : List UInt8) : List UInt8 :=
  if sfn.headD 0 = DDEM then sfn.set 0 RDDEM else sfn

/-- The directory form of a segment. -/
def shortName (seg : List UInt8) : List UInt8 :=
  replaceDdem (nameField 8 (nameBody seg) ++ nameField 3 (nameExt seg))

/-- The stores of the loop of `create_name` to a field. -/
def putField : List UInt8 → Nat → List UInt8 → List UInt8
  | sfn, _, [] => sfn
  | sfn, i, b :: bs => putField (sfn.set i b) (i + 1) bs

theorem putField_eq : ∀ (bs sfn : List UInt8) (i : Nat), i + bs.length ≤ sfn.length →
    putField sfn i bs = sfn.take i ++ bs ++ sfn.drop (i + bs.length)
  | [], sfn, i, _ => by simp [putField]
  | b :: bs, sfn, i, h => by
    rw [List.length_cons] at h
    have hi : i < sfn.length := by omega
    rw [putField, putField_eq bs _ _ (by rw [List.length_set]; omega), List.take_add_one,
      List.take_set_of_le (Nat.le_refl i), List.getElem?_set_self hi,
      List.drop_set_of_lt (by omega), List.length_cons]
    simp [Nat.add_comm, Nat.add_left_comm]

/-- Reading a field: in the extension a dot is refused. -/
theorem nameLoop_field : ∀ {seg : List UInt8}, (∀ c ∈ seg, inSegment c = true) →
    ∀ {i ni : Nat} (sfn : List UInt8), i ≤ ni → (ni = 11 ∨ 0x2E ∉ seg) →
    nameLoop seg i ni sfn =
      if 0x2E ∉ seg ∧ i + seg.length ≤ ni ∧ ∀ c ∈ seg, c ∉ reservedChars then
        some ⟨0, [], i + seg.length, putField sfn i (seg.map upChar)⟩
      else none
  | [], _, i, ni, sfn, hi, _ => by simp [nameLoop, putField, hi]
  | c :: seg, hseg, i, ni, sfn, hi, hd => by
    have hc := hseg c (by simp)
    have hp : ¬c ≤ 0x20 := by
      rw [le_space_iff, inPath_of_segment hseg c (by simp)]
      simp
    have hs := not_separator_of_segment hseg c (by simp)
    rw [nameLoop, if_neg hp, hs]
    simp only [Bool.false_eq_true, if_false]
    split
    · -- a dot in the extension, or the field is full
      rename_i hov
      have hno : ¬(0x2E ∉ c :: seg ∧ i + (c :: seg).length ≤ ni ∧
          ∀ d ∈ c :: seg, d ∉ reservedChars) := by
        rintro ⟨hnd, hlen, -⟩
        rw [List.length_cons] at hlen
        rcases hov with rfl | hov
        · exact hnd (by simp)
        · omega
      rw [if_neg hno, if_pos]
      rcases hd with hd | hd
      · exact .inl hd
      · exact .inr fun he => hd (by simp [he])
    · rename_i hov
      have hcd : c ≠ 0x2E := fun h => hov (.inl h)
      have hlt : i < ni := by omega
      simp only [cvtChar_illegal]
      split
      · rename_i hill
        rw [if_neg fun h => h.2.2 c (by simp) hill]
      · rename_i hill
        rw [nameLoop_field (fun d h => hseg d (by simp [h])) _ (by omega)
          (hd.imp_right fun h h' => h (by simp [h'])), toUpper_cvtChar]
        have hiff : (0x2E ∉ c :: seg ∧ i + (c :: seg).length ≤ ni ∧
            ∀ d ∈ c :: seg, d ∉ reservedChars) ↔
            (0x2E ∉ seg ∧ i + 1 + seg.length ≤ ni ∧ ∀ d ∈ seg, d ∉ reservedChars) := by
          simp [hill, Ne.symm hcd]
          omega
        have hlen : i + (c :: seg).length = i + 1 + seg.length := by
          rw [List.length_cons]
          omega
        simp only [hiff, List.map_cons, putField]
        rw [hlen]

/-- Reading the body up to a dot. -/
theorem nameLoop_body : ∀ {seg : List UInt8}, (∀ c ∈ seg, inSegment c = true) → 0x2E ∉ seg →
    ∀ {i : Nat} (rest sfn : List UInt8), i ≤ 8 →
    nameLoop (seg ++ 0x2E :: rest) i 8 sfn =
      if i + seg.length ≤ 8 ∧ ∀ c ∈ seg, c ∉ reservedChars then
        nameLoop rest 8 11 (putField sfn i (seg.map upChar))
      else none
  | [], _, _, i, rest, sfn, hi => by
    simp [nameLoop, putField, hi, isSeparator]
  | c :: seg, hseg, hd, i, rest, sfn, hi => by
    have hp : ¬c ≤ 0x20 := by
      rw [le_space_iff, inPath_of_segment hseg c (by simp)]
      simp
    have hs := not_separator_of_segment hseg c (by simp)
    have hcd : c ≠ 0x2E := fun h => hd (by simp [h])
    rw [List.cons_append, nameLoop, if_neg hp, hs]
    simp only [Bool.false_eq_true, if_false]
    split
    · rename_i hov
      have hge : 8 ≤ i := hov.resolve_left hcd
      have hno : ¬(i + (c :: seg).length ≤ 8 ∧ ∀ d ∈ c :: seg, d ∉ reservedChars) := by
        rw [List.length_cons]
        omega
      rw [if_pos (show 8 = 11 ∨ c ≠ 0x2E from .inr hcd), if_neg hno]
    · rename_i hov
      have hlt : i < 8 := by omega
      simp only [cvtChar_illegal]
      split
      · rename_i hill
        rw [if_neg fun h => h.2 c (by simp) hill]
      · rename_i hill
        rw [nameLoop_body (fun d h => hseg d (by simp [h])) (fun h => hd (by simp [h])) _ _
          (by omega), toUpper_cvtChar]
        have hiff : (i + (c :: seg).length ≤ 8 ∧ ∀ d ∈ c :: seg, d ∉ reservedChars) ↔
            (i + 1 + seg.length ≤ 8 ∧ ∀ d ∈ seg, d ∉ reservedChars) := by
          simp [hill]
          omega
        simp only [hiff, List.map_cons, putField]

/-- A segment is its body, with a dot and its extension if it has a dot. -/
theorem nameBody_cases (seg : List UInt8) : 0x2E ∉ nameBody seg ∧
    (0x2E ∉ seg ∧ nameBody seg = seg ∧ nameExt seg = [] ∨
      seg = nameBody seg ++ 0x2E :: nameExt seg) := by
  unfold nameBody nameExt
  induction seg with
  | nil => simp
  | cons c seg ih =>
    rcases Decidable.em (c = 0x2E) with rfl | hc
    · simp
    · have hc' : (c != 0x2E) = true := by simpa using hc
      rw [List.takeWhile_cons, if_pos hc', List.dropWhile_cons, if_pos hc']
      obtain ⟨h₁, h₂⟩ := ih
      refine ⟨by simp [h₁, Ne.symm hc], h₂.imp (fun ⟨hn, hb, he⟩ => ⟨by simp [hn, Ne.symm hc],
        by rw [hb], he⟩) fun h => ?_⟩
      rw [List.cons_append, ← h]

theorem nameBody_append {b e : List UInt8} (h : 0x2E ∉ b) :
    nameBody (b ++ 0x2E :: e) = b ∧ nameExt (b ++ 0x2E :: e) = e := by
  have hb : ∀ c ∈ b, (c != 0x2E) = true := fun c hc => by
    have : c ≠ 0x2E := fun he => h (he ▸ hc)
    simpa using this
  unfold nameBody nameExt
  rw [List.takeWhile_append_of_pos hb, List.dropWhile_append_of_pos hb]
  simp

theorem nameBody_self {b : List UInt8} (h : 0x2E ∉ b) : nameBody b = b ∧ nameExt b = [] := by
  rcases (nameBody_cases b).2 with ⟨-, h'⟩ | h'
  · exact h'
  · rw [h'] at h
    simp at h

theorem isNameChar_iff {c : UInt8} :
    isNameChar c = true ↔ inSegment c = true ∧ c ≠ 0x2E ∧ c ∉ reservedChars := by
  simp [isNameChar, and_assoc]

/-- The fields of a segment hold bytes that a name can have, if there is one dot at most. -/
theorem shortName_iff {seg : List UInt8} (hseg : ∀ c ∈ seg, inSegment c = true) :
    ShortName seg ↔ seg ≠ [] ∧ (nameBody seg).length ≤ 8 ∧ (nameExt seg).length ≤ 3 ∧
      (∀ c ∈ nameBody seg, isNameChar c = true) ∧ ∀ c ∈ nameExt seg, isNameChar c = true := by
  obtain ⟨hb, ⟨hn, hbs, he⟩ | hs⟩ := nameBody_cases seg
  · constructor
    · intro h
      refine ⟨h.nonempty, h.body, h.ext, fun c hc => ?_, by simp [he]⟩
      rw [hbs] at hc
      exact isNameChar_iff.2 ⟨hseg c hc, fun h => hn (h ▸ hc), h.legal c hc⟩
    · rintro ⟨h₁, h₂, h₃, h₄, -⟩
      rw [hbs] at h₄
      exact ⟨h₁, by rw [List.count_eq_zero.2 hn]; omega, h₂, h₃, fun c hc =>
        (isNameChar_iff.1 (h₄ c hc)).2.2⟩
  · have hmem : ∀ c, c ∈ seg ↔ c ∈ nameBody seg ∨ c = 0x2E ∨ c ∈ nameExt seg := fun c => by
      rw [← List.mem_cons, ← List.mem_append, ← hs]
    have hcount : seg.count 0x2E = (nameExt seg).count 0x2E + 1 := by
      conv => lhs; rw [hs]
      rw [List.count_append, List.count_eq_zero.2 hb, List.count_cons_self]
      omega
    constructor
    · intro h
      have hext : 0x2E ∉ nameExt seg := by
        rw [← List.count_eq_zero]
        have := h.dots
        omega
      refine ⟨h.nonempty, h.body, h.ext, fun c hc => ?_, fun c hc => ?_⟩
      · have hm := (hmem c).2 (.inl hc)
        exact isNameChar_iff.2 ⟨hseg c hm, fun h => hb (h ▸ hc), h.legal c hm⟩
      · have hm := (hmem c).2 (.inr (.inr hc))
        exact isNameChar_iff.2 ⟨hseg c hm, fun h => hext (h ▸ hc), h.legal c hm⟩
    · rintro ⟨h₁, h₂, h₃, h₄, h₅⟩
      have hext : 0x2E ∉ nameExt seg := fun h => (isNameChar_iff.1 (h₅ _ h)).2.1 rfl
      refine ⟨h₁, by rw [hcount, List.count_eq_zero.2 hext], h₂, h₃, fun c hc => ?_⟩
      rcases (hmem c).1 hc with hc | rfl | hc
      · exact (isNameChar_iff.1 (h₄ c hc)).2.2
      · decide
      · exact (isNameChar_iff.1 (h₅ c hc)).2.2

/-- The name that the loop of `create_name` builds in the blank name. -/
theorem putField_blank {b e : List UInt8} (hb : b.length ≤ 8) (he : e.length ≤ 3) :
    putField (putField (List.replicate 11 0x20) 0 (b.map upChar)) 8 (e.map upChar) =
      nameField 8 b ++ nameField 3 e := by
  have h₁ : putField (List.replicate 11 0x20) 0 (b.map upChar) =
      nameField 8 b ++ List.replicate 3 0x20 := by
    rw [putField_eq _ _ _ (by simp; omega)]
    simp only [List.take_zero, List.nil_append, Nat.zero_add, List.length_map, List.drop_replicate,
      nameField, List.append_assoc, List.replicate_append_replicate]
    congr 2
    omega
  have h₂ : (nameField 8 b).length = 8 := by simp [nameField]; omega
  rw [h₁, putField_eq _ _ _ (by simp [h₂]; omega), List.take_left' h₂, List.length_map,
    List.drop_append, h₂, List.drop_eq_nil_of_le (by omega), List.drop_replicate]
  simp [nameField]

/-- The fields of a segment are in 8.3 format. -/
def FieldsOk (seg : List UInt8) : Prop :=
  (nameBody seg).length ≤ 8 ∧ (nameExt seg).length ≤ 3 ∧
    (∀ c ∈ nameBody seg, isNameChar c = true) ∧ ∀ c ∈ nameExt seg, isNameChar c = true

instance (seg : List UInt8) : Decidable (FieldsOk seg) := by unfold FieldsOk; infer_instance

/-- Bytes of a segment are bytes of a name if they are legal and no dots. -/
theorem nameChars_iff {l : List UInt8} (hl : ∀ c ∈ l, inSegment c = true) :
    (∀ c ∈ l, isNameChar c = true) ↔ 0x2E ∉ l ∧ ∀ c ∈ l, c ∉ reservedChars := by
  constructor
  · intro h
    exact ⟨fun hd => (isNameChar_iff.1 (h _ hd)).2.1 rfl, fun c hc =>
      (isNameChar_iff.1 (h c hc)).2.2⟩
  · rintro ⟨hd, hill⟩ c hc
    exact isNameChar_iff.2 ⟨hl c hc, fun h => hd (h ▸ hc), hill c hc⟩

/-- What the loop of `create_name` makes of a segment. -/
theorem nameLoop_segment {seg : List UInt8} (hseg : ∀ c ∈ seg, inSegment c = true) :
    nameLoop seg 0 8 (List.replicate 11 0x20) =
      if FieldsOk seg then
        some ⟨0, [], if 0x2E ∈ seg then 8 + (nameExt seg).length else seg.length,
          nameField 8 (nameBody seg) ++ nameField 3 (nameExt seg)⟩
      else none := by
  obtain ⟨hb, ⟨hn, hbs, he⟩ | hs⟩ := nameBody_cases seg
  · have hiff := nameChars_iff hseg
    have hfields : FieldsOk seg ↔ 0x2E ∉ seg ∧ 0 + seg.length ≤ 8 ∧ ∀ c ∈ seg,
        c ∉ reservedChars := by
      unfold FieldsOk
      rw [hbs, he, hiff, Nat.zero_add]
      simp [and_comm, and_left_comm]
    rw [nameLoop_field hseg _ (by omega) (.inr hn)]
    simp only [← hfields]
    split
    · rename_i hok
      have hlen : seg.length ≤ 8 := by
        have := hok.1
        rwa [hbs] at this
      simp only [hbs, he, Nat.zero_add]
      rw [← putField_blank hlen (by simp)]
      rfl
    · rfl
  · have hd : 0x2E ∈ seg := by
      rw [hs]
      simp
    have hsb : ∀ c ∈ nameBody seg, inSegment c = true := fun c hc => hseg c (by rw [hs]; simp [hc])
    have hse : ∀ c ∈ nameExt seg, inSegment c = true := fun c hc => hseg c (by rw [hs]; simp [hc])
    have hib := nameChars_iff hsb
    have hie := nameChars_iff hse
    rw [if_pos hd]
    conv => lhs; rw [hs]
    rw [nameLoop_body hsb hb _ _ (by omega), nameLoop_field hse _ (by omega) (.inl rfl),
      Nat.zero_add]
    by_cases hbody : (nameBody seg).length ≤ 8 ∧ ∀ c ∈ nameBody seg, isNameChar c = true
    · rw [if_pos ⟨hbody.1, (hib.1 hbody.2).2⟩]
      by_cases hext : (nameExt seg).length ≤ 3 ∧ ∀ c ∈ nameExt seg, isNameChar c = true
      · have hok : FieldsOk seg := ⟨hbody.1, hext.1, hbody.2, hext.2⟩
        rw [if_pos ⟨(hie.1 hext.2).1, by omega, (hie.1 hext.2).2⟩, if_pos hok,
          putField_blank hbody.1 hext.1]
      · have hno : ¬FieldsOk seg := fun h => hext ⟨h.2.1, h.2.2.2⟩
        rw [if_neg fun h => hext ⟨by omega, hie.2 ⟨h.1, h.2.2⟩⟩, if_neg hno]
    · have hno : ¬FieldsOk seg := fun h => hbody ⟨h.1, h.2.2.1⟩
      rw [if_neg fun h => hbody ⟨h.1, hib.2 ⟨hb, h.2⟩⟩, if_neg hno]

/-- What `create_name` makes of a segment. -/
theorem segmentName_iff {seg fn : List UInt8} (hseg : ∀ c ∈ seg, inSegment c = true) :
    segmentName seg = some fn ↔ ShortName seg ∧ fn = shortName seg := by
  rw [shortName_iff hseg, segmentName, nameLoop_segment hseg]
  by_cases hok : FieldsOk seg
  · rw [if_pos hok]
    have hi : (if 0x2E ∈ seg then 8 + (nameExt seg).length else seg.length) = 0 ↔ seg = [] := by
      split
      · rename_i hd
        refine ⟨fun h => by omega, fun h => ?_⟩
        rw [h] at hd
        cases hd
      · exact List.length_eq_zero_iff
    simp only [hi]
    by_cases hne : seg = []
    · simp [hne]
    · simp only [hne, if_false, Option.some.injEq, ne_eq, not_false_eq_true, true_and]
      exact ⟨fun h => ⟨hok, h.symm⟩, fun h => h.2.symm⟩
  · rw [if_neg hok]
    simp only [reduceCtorEq, false_iff]
    exact fun h => hok h.1.2

/-- The segment at the start of a path, and what is behind it. -/
theorem path_segment (path : List UInt8) :
    (∀ c ∈ path.takeWhile inSegment, inSegment c = true) ∧
      ∀ c ∈ (path.dropWhile inSegment).head?, inSegment c = false := by
  refine ⟨fun c hc => List.mem_takeWhile_imp hc, fun c hc => ?_⟩
  have := List.head?_dropWhile_not inSegment path
  rw [hc] at this
  simpa using this

theorem nameSegment_ok_iff {seg : List UInt8} (dp : DIR) (last : Bool) :
    (nameSegment dp seg last).1 = .ok ↔ ∃ fn, segmentName seg = some fn := by
  cases h : segmentName seg with
  | none =>
    obtain ⟨d, hd⟩ := nameSegment_none h dp
    rw [hd last]
    simp
  | some fn =>
    rw [nameSegment_some h]
    simp

/-- The first byte of the directory form is not a mark of the directory scan. -/
theorem shortName_head {seg : List UInt8} (hseg : ∀ c ∈ seg, inSegment c = true)
    (h : ShortName seg) :
    (shortName seg).headD 0 ≠ 0 ∧ (shortName seg).headD 0 ≠ DDEM ∧
      (shortName seg).headD 0 ≠ 0x2E := by
  obtain ⟨-, -, -, hb, -⟩ := (shortName_iff hseg).1 h
  unfold shortName replaceDdem
  split
  · rename_i hd
    cases hl : nameField 8 (nameBody seg) ++ nameField 3 (nameExt seg) with
    | nil => rw [hl] at hd; cases hd
    | cons c l =>
      rw [List.set_cons_zero, List.headD_cons]
      decide
  · rename_i hd
    have hhead : (nameField 8 (nameBody seg) ++ nameField 3 (nameExt seg)).headD 0 ≠ 0 ∧
        (nameField 8 (nameBody seg) ++ nameField 3 (nameExt seg)).headD 0 ≠ 0x2E := by
      cases hl : nameBody seg with
      | nil => simp [nameField]
      | cons c l =>
        have hc := (upChar_nameChar (hb c (by simp [hl]))).1
        have h₀ := (nameChar_ne hc).2.2
        have h₁ := (isNameChar_iff.1 hc).2.1
        simp [nameField, h₀, h₁]
    exact ⟨hhead.1, hd, hhead.2⟩

/-- What `create_name` returns for a path, by the segment at its start. -/
theorem createName_segment (signed : Bool) (dp : DIR) (path : List UInt8) :
    ((createName signed dp path).1 = .ok ↔ ShortName (path.takeWhile inSegment)) ∧
    (ShortName (path.takeWhile inSegment) →
      (createName signed dp path).2.1.fn = shortName (path.takeWhile inSegment) ∧
      (createName signed dp path).2.2 = behind (path.dropWhile inSegment)) := by
  obtain ⟨hseg, hrest⟩ := path_segment path
  obtain ⟨h₁, h₂, h₃⟩ := createName_append hseg hrest signed dp
  rw [List.takeWhile_append_dropWhile] at h₁ h₂ h₃
  have hiff : (createName signed dp path).1 = .ok ↔ ShortName (path.takeWhile inSegment) := by
    rw [h₁, nameSegment_ok_iff]
    constructor
    · rintro ⟨fn, hfn⟩
      exact ((segmentName_iff hseg).1 hfn).1
    · exact fun h => ⟨_, (segmentName_iff hseg).2 ⟨h, rfl⟩⟩
  refine ⟨hiff, fun h => ⟨?_, h₃ (hiff.2 h)⟩⟩
  rw [h₂, nameSegment_some ((segmentName_iff hseg).2 ⟨h, rfl⟩)]

/-- `create_name` accepts exactly the names in 8.3 format, and builds their directory form. -/
theorem createName_grammar (signed : Bool) (dp : DIR) (path : List UInt8) :
    ((createName signed dp path).1 = .ok ↔ ShortName (path.takeWhile inSegment)) ∧
    (ShortName (path.takeWhile inSegment) →
      (createName signed dp path).2.1.fn = shortName (path.takeWhile inSegment) ∧
      (shortName (path.takeWhile inSegment)).headD 0 ≠ 0 ∧
      (shortName (path.takeWhile inSegment)).headD 0 ≠ DDEM ∧
      (createName signed dp path).2.2 = behind (path.dropWhile inSegment)) := by
  obtain ⟨hiff, hok⟩ := createName_segment signed dp path
  refine ⟨hiff, fun h => ?_⟩
  obtain ⟨hfn, hpath⟩ := hok h
  obtain ⟨h₀, h₁, -⟩ := shortName_head (path_segment path).1 h
  exact ⟨hfn, h₀, h₁, hpath⟩

/-! ## The rendered name -/

/-- The bytes of a field that `get_fileinfo` shows. -/
def shown (l : List UInt8) : List UInt8 :=
  l.flatMap fun c => if c = 0x20 then [] else [if c = RDDEM then DDEM else c]

/-- The name that `get_fileinfo` renders, by the two fields of the entry. -/
theorem sfnName_eq {s : Sector} {dir : Nat} {f e : List UInt8} (hf : f.length = 8)
    (he : e.length = 3) (h : s.bytes dir 11 = f ++ e) :
    sfnName s dir = shown f ++ if e.headD 0 = 0x20 then shown e else 0x2E :: shown e := by
  match f, hf, e, he with
  | [f₀, f₁, f₂, f₃, f₄, f₅, f₆, f₇], _, [e₀, e₁, e₂], _ =>
    simp only [Sector.bytes, List.range, List.range.loop, List.map_cons, List.map_nil,
      List.cons_append, List.nil_append, List.cons.injEq, and_true] at h
    obtain ⟨h₀, h₁, h₂, h₃, h₄, h₅, h₆, h₇, h₈, h₉, h₁₀⟩ := h
    simp only [sfnName, shown, List.range, List.range.loop, List.flatMap_cons, List.flatMap_nil,
      h₀, h₁, h₂, h₃, h₄, h₅, h₆, h₇, h₈, h₉, h₁₀, List.headD_cons]
    by_cases hb : e₀ = 0x20
    · simp [hb]
    · simp [hb]

/-- A field of a name is shown without its blanks. -/
theorem shown_nameField {n : Nat} {b : List UInt8} (hb : ∀ c ∈ b, isNameChar c = true) :
    shown (nameField n b) = b.map upChar := by
  have hblank : ∀ m, shown (List.replicate m 0x20) = [] := fun m => by
    simp [shown]
  have hchars : shown (b.map upChar) = b.map upChar := by
    clear hblank
    induction b with
    | nil => rfl
    | cons c b ih =>
      obtain ⟨h₁, h₂, -⟩ := nameChar_ne (upChar_nameChar (hb c (by simp))).1
      have ih := ih fun d hd => hb d (by simp [hd])
      unfold shown at ih ⊢
      rw [List.map_cons, List.flatMap_cons, if_neg h₁, if_neg h₂, ih]
      rfl
  have happ : shown (nameField n b) =
      shown (b.map upChar) ++ shown (List.replicate (n - b.length) 0x20) := List.flatMap_append
  rw [happ, hblank, hchars, List.append_nil]

/-- The replacement of the deleted mark is undone. -/
theorem shown_replaceDdem (l : List UInt8) : shown (replaceDdem l) = shown l := by
  unfold replaceDdem
  split
  · cases l with
    | nil => rfl
    | cons c l =>
      rename_i hc
      have hc : c = DDEM := hc
      subst hc
      rfl
  · rfl

theorem length_nameField {n : Nat} {b : List UInt8} (h : b.length ≤ n) :
    (nameField n b).length = n := by
  simp [nameField]
  omega

/-- The name that is rendered for the fields `b` and `e`. -/
def rendered (b e : List UInt8) : List UInt8 :=
  b.map upChar ++ if e = [] then [] else 0x2E :: e.map upChar

/-- What is rendered from an entry with the directory form of a segment. -/
theorem sfnName_shortName {seg : List UInt8} (hseg : ∀ c ∈ seg, inSegment c = true)
    (hname : ShortName seg) {s : Sector} {dir : Nat} (h : s.bytes dir 11 = shortName seg) :
    sfnName s dir = rendered (nameBody seg) (nameExt seg) := by
  obtain ⟨-, hb, he, hcb, hce⟩ := (shortName_iff hseg).1 hname
  have hlen : (replaceDdem (nameField 8 (nameBody seg))).length = 8 := by
    unfold replaceDdem
    split
    · rw [List.length_set, length_nameField hb]
    · exact length_nameField hb
  have hsplit : shortName seg =
      replaceDdem (nameField 8 (nameBody seg)) ++ nameField 3 (nameExt seg) := by
    have h8 := length_nameField hb
    unfold shortName replaceDdem
    cases hf : nameField 8 (nameBody seg) with
    | nil => rw [hf] at h8; cases h8
    | cons c l =>
      rw [List.cons_append, List.headD_cons, List.headD_cons]
      split <;> rfl
  rw [sfnName_eq hlen (length_nameField he) (h.trans hsplit), shown_replaceDdem,
    shown_nameField hcb, shown_nameField hce]
  unfold rendered
  cases hx : nameExt seg with
  | nil => rfl
  | cons c l =>
    have hc := (nameChar_ne (upChar_nameChar (hce c (by simp [hx]))).1).1
    rw [if_neg (by simpa [nameField] using hc), if_neg (by simp)]

/-- Where the fields are bytes of a name, the rendered name has these fields. -/
theorem rendered_fields {b e : List UInt8} (hb : ∀ c ∈ b, isNameChar c = true) :
    nameBody (rendered b e) = b.map upChar ∧ nameExt (rendered b e) = e.map upChar := by
  have hdot : 0x2E ∉ b.map upChar := by
    rintro h
    obtain ⟨c, hc, he⟩ := List.mem_map.1 h
    exact (isNameChar_iff.1 (upChar_nameChar (hb c hc)).1).2.1 he
  unfold rendered
  split
  · rename_i he
    rw [List.append_nil, he]
    exact nameBody_self hdot
  · exact nameBody_append hdot

/-- Converting the bytes of a field twice is converting them once. -/
theorem nameField_upChar {n : Nat} {b : List UInt8} (hb : ∀ c ∈ b, isNameChar c = true) :
    nameField n (b.map upChar) = nameField n b := by
  unfold nameField
  rw [List.map_map, List.length_map]
  congr 1
  exact List.map_congr_left fun c hc => (upChar_nameChar (hb c hc)).2

/-- A rendered name is a segment. -/
theorem rendered_inSegment {b e : List UInt8} (hb : ∀ c ∈ b, isNameChar c = true)
    (he : ∀ c ∈ e, isNameChar c = true) : ∀ c ∈ rendered b e, inSegment c = true := by
  have hfield : ∀ l : List UInt8, (∀ c ∈ l, isNameChar c = true) →
      ∀ c ∈ l.map upChar, inSegment c = true := by
    intro l hl c hc
    obtain ⟨d, hd, rfl⟩ := List.mem_map.1 hc
    exact (isNameChar_iff.1 (upChar_nameChar (hl d hd)).1).1
  intro c hc
  rcases List.mem_append.1 hc with hc | hc
  · exact hfield b hb c hc
  · split at hc
    · cases hc
    · rcases List.mem_cons.1 hc with rfl | hc
      · decide
      · exact hfield e he c hc

/-- A rendered name that is not empty is in 8.3 format and has the same directory form. -/
theorem rendered_shortName {seg : List UInt8} (hseg : ∀ c ∈ seg, inSegment c = true)
    (hname : ShortName seg) (hne : rendered (nameBody seg) (nameExt seg) ≠ []) :
    ShortName (rendered (nameBody seg) (nameExt seg)) ∧
      shortName (rendered (nameBody seg) (nameExt seg)) = shortName seg := by
  obtain ⟨-, hb, he, hcb, hce⟩ := (shortName_iff hseg).1 hname
  obtain ⟨hbody, hext⟩ := rendered_fields (e := nameExt seg) hcb
  have hmap : ∀ l : List UInt8, (∀ c ∈ l, isNameChar c = true) →
      ∀ c ∈ l.map upChar, isNameChar c = true := by
    intro l hl c hc
    obtain ⟨d, hd, rfl⟩ := List.mem_map.1 hc
    exact (upChar_nameChar (hl d hd)).1
  constructor
  · rw [shortName_iff (rendered_inSegment hcb hce), hbody, hext, List.length_map, List.length_map]
    exact ⟨hne, hb, he, hmap _ hcb, hmap _ hce⟩
  · unfold shortName
    rw [hbody, hext, nameField_upChar hcb, nameField_upChar hce]

/-- The rendered name is empty for a single dot only. -/
theorem rendered_eq_nil {seg : List UInt8} (hname : ShortName seg) :
    rendered (nameBody seg) (nameExt seg) = [] ↔ seg = [0x2E] := by
  constructor
  · intro h
    obtain ⟨hb, he⟩ := List.append_eq_nil_iff.1 h
    have hb : nameBody seg = [] := List.map_eq_nil_iff.1 hb
    have he : nameExt seg = [] := by
      split at he
      · assumption
      · cases he
    rcases (nameBody_cases seg).2 with ⟨-, hs, -⟩ | hs
    · exact absurd (hs.symm.trans hb) hname.nonempty
    · rw [hs, hb, he]
      rfl
  · rintro rfl
    decide

/-- The file information shows a name that `create_name` maps to the directory form `fn`: not empty,
at most 12 bytes, and accepted. -/
def RoundTrips (fn fname : List UInt8) : Prop :=
  fname ≠ [] ∧ fname.length ≤ 12 ∧ ∀ (signed : Bool) (dp : DIR),
    (createName signed dp fname).1 = .ok ∧ (createName signed dp fname).2.1.fn = fn

/-- The name of an entry that was created under an accepted segment round-trips, but for the segment
that is a single dot. -/
theorem createName_roundTrips_iff (signed : Bool) (dp : DIR) (path : List UInt8)
    (hok : (createName signed dp path).1 = .ok) (win : Sector) (dj : DIR) (hsect : dj.sect ≠ 0)
    (hent : win.bytes dj.dir 11 = (createName signed dp path).2.1.fn) (fno : FILINFO) :
    RoundTrips (createName signed dp path).2.1.fn (getFileinfo win dj fno).fname ↔
      path.takeWhile inSegment ≠ [0x2E] := by
  obtain ⟨hiff, hform⟩ := createName_segment signed dp path
  have hname := hiff.1 hok
  obtain ⟨hfn, -⟩ := hform hname
  have hseg := (path_segment path).1
  have hshow : (getFileinfo win dj fno).fname =
      rendered (nameBody (path.takeWhile inSegment)) (nameExt (path.takeWhile inSegment)) := by
    rw [← sfnName_shortName hseg hname (hent.trans hfn)]
    simp [getFileinfo, hsect]
  rw [hshow, hfn]
  constructor
  · rintro ⟨hne, -⟩ hdot
    exact hne ((rendered_eq_nil hname).2 hdot)
  · intro hdot
    have hne := fun h => hdot ((rendered_eq_nil hname).1 h)
    obtain ⟨hsn, heq⟩ := rendered_shortName hseg hname hne
    obtain ⟨-, hb, he, hcb, hce⟩ := (shortName_iff hseg).1 hname
    refine ⟨hne, ?_, fun signed' dp' => ?_⟩
    · unfold rendered
      rw [List.length_append, List.length_map]
      split
      · rw [List.length_nil]
        omega
      · rw [List.length_cons, List.length_map]
        omega
    · have htake := List.takeWhile_eq_self_iff.2 (rendered_inSegment hcb hce)
      obtain ⟨hiff', hform'⟩ := createName_segment signed' dp' (rendered _ _)
      rw [htake] at hiff' hform'
      exact ⟨hiff'.2 hsn, (hform' hsn).1.trans heq⟩

/-- A name with an extension and a byte of the code page round-trips: the entry of `å.b`. -/
theorem createName_roundTrips_ext :
    (createName true {} [0x86, 0x2E, 0x62]).1 = .ok ∧
    RoundTrips (createName true {} [0x86, 0x2E, 0x62]).2.1.fn
      (getFileinfo (Sector.ofList ([0x8F] ++ List.replicate 7 0x20 ++ [0x42, 0x20, 0x20]))
        { sect := 1 } {}).fname :=
  ⟨by decide, (createName_roundTrips_iff true {} [0x86, 0x2E, 0x62] (by decide)
    (Sector.ofList ([0x8F] ++ List.replicate 7 0x20 ++ [0x42, 0x20, 0x20])) { sect := 1 }
    (by decide) (by decide) {}).2 (by decide)⟩

/-- A single dot is accepted, and its entry is shown with the empty name. -/
theorem createName_dot_shows_empty :
    (createName true {} [0x2E]).1 = .ok ∧
    (Sector.ofList (List.replicate 11 0x20)).bytes 0 11 = (createName true {} [0x2E]).2.1.fn ∧
    (getFileinfo (Sector.ofList (List.replicate 11 0x20)) { sect := 1 } {}).fname = [] := by
  decide

end FatFs
