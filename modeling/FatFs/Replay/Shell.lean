import FatFs.Model.Shell
import FatFs.Path.Names

/-!
# The names of the translator

When the commands of `input_to_shell_cmd.py` are usable: the names in them are accepted by
`create_name`, and the two names of a copy are different files (`cmds_usable_iff`). The filter of
the script keeps bytes that a short name cannot hold, and dots; the name it derives for the target
of a copy can be the name of the source.
-/

namespace FatFs.Shell

/-! ## Usable commands -/

/-- `create_name` accepts the component and takes all of it. -/
def Accepted (comp : List UInt8) : Prop :=
  ∀ (signed : Bool) (dp : DIR),
    (createName signed dp comp).1 = .ok ∧ (createName signed dp comp).2.2 = []

/-- A hex digit. -/
def isHexDigit (c : UInt8) : Bool := (0x30 ≤ c && c ≤ 0x39) || (0x61 ≤ c && c ≤ 0x66)

/-- The payload is a string of hex digits for at least one byte. -/
def HexOk (h : List UInt8) : Prop :=
  h ≠ [] ∧ h.length % 2 = 0 ∧ ∀ c ∈ h, isHexDigit c = true

/-- The command does on the target what the script means it to do. -/
def Cmd.Usable : Cmd → Prop
  | .write name hex => Accepted name ∧ HexOk hex
  | .read name | .mkdir name | .rm name => Accepted name
  | .ls | .statvfs => True
  | .cp src dst => Accepted src ∧ Accepted dst ∧ ∀ (signed : Bool) (dp : DIR),
      (createName signed dp src).2.1.fn ≠ (createName signed dp dst).2.1.fn

/-! ## The payload -/

/-- The script prints digits. -/
theorem isHexDigit_hexDigit : ∀ n < 16, isHexDigit (hexDigit n) = true := by
  decide

/-- The payload consists of digits. -/
theorem hex_digits (bs : List UInt8) : ∀ c ∈ hex bs, isHexDigit c = true := by
  intro c hc
  obtain ⟨b, -, hb⟩ := List.mem_flatMap.1 hc
  have hlt := b.toNat_lt
  simp only [List.mem_cons, List.not_mem_nil, or_false] at hb
  rcases hb with rfl | rfl
  · exact isHexDigit_hexDigit _ (by omega)
  · exact isHexDigit_hexDigit _ (by omega)

/-- The payload has two digits for a byte. -/
theorem length_hex (bs : List UInt8) : (hex bs).length = 2 * bs.length := by
  induction bs with
  | nil => rfl
  | cons b bs ih =>
    have : hex (b :: bs) = [hexDigit (b.toNat / 16), hexDigit (b.toNat % 16)] ++ hex bs := rfl
    rw [this, List.length_append, ih, List.length_cons]
    simp only [List.length_cons, List.length_nil]
    omega

/-- The payload is a string of whole bytes, and not empty. -/
theorem hexData_ok (data : List UInt8) : HexOk (hexData data) := by
  simp only [hexData]
  split
  · exact ⟨by decide, by decide, by decide +kernel⟩
  · rename_i hne
    refine ⟨hne, ?_, fun c hc => hex_digits _ c (List.mem_of_mem_take hc)⟩
    rw [List.length_take, length_hex]
    omega

/-! ## The name -/

/-- The bytes that the script keeps and a short name cannot hold: `+`, `,`, `;`, `=`, `[` and
`]`. -/
def stray : List UInt8 := [0x2B, 0x2C, 0x3B, 0x3D, 0x5B, 0x5D]

/-- What the script makes of a byte: one that may stand in a segment. A dot stays one, and only the
stray bytes stay reserved. -/
theorem sanitize_spec (c : UInt8) : inSegment (sanitize c) = true ∧
    (sanitize c = 0x2E ↔ c = 0x2E) ∧ (sanitize c ∈ reservedChars ↔ c ∈ stray) ∧
    (upChar (sanitize c) = 0x44 ↔ toUpper c = 0x44) ∧
    (upChar (sanitize c) = 0x53 ↔ toUpper c = 0x53) ∧
    (upChar (sanitize c) = 0x54 ↔ toUpper c = 0x54) :=
  forall_byte (P := fun c => inSegment (sanitize c) = true ∧
    (sanitize c = 0x2E ↔ c = 0x2E) ∧ (sanitize c ∈ reservedChars ↔ c ∈ stray) ∧
    (upChar (sanitize c) = 0x44 ↔ toUpper c = 0x44) ∧
    (upChar (sanitize c) = 0x53 ↔ toUpper c = 0x53) ∧
    (upChar (sanitize c) = 0x54 ↔ toUpper c = 0x54)) (by decide +kernel) c

/-- The bytes of the input that the name is made from. -/
def kept (data : List UInt8) : List UInt8 := (rawName data).take 8

/-- The name is never empty. -/
theorem rawName_ne_nil (data : List UInt8) : rawName data ≠ [] := by
  unfold rawName
  split
  · rename_i hlt
    have hpos : 0 < nameLen data := by
      cases data with
      | nil => decide
      | cons b l => simp only [nameLen]; omega
    intro h
    have := congrArg List.length h
    rw [List.length_take, List.length_drop, List.length_nil] at this
    omega
  · decide

/-- The name is made byte by byte. -/
theorem name_eq (data : List UInt8) : name data = (kept data).map sanitize := by
  have hne : (rawName data).map sanitize ≠ [] := fun h =>
    rawName_ne_nil data (List.map_eq_nil_iff.1 h)
  simp only [name, if_neg hne, kept, List.map_take]

/-- The name has one to eight bytes. -/
theorem length_kept (data : List UInt8) : 0 < (kept data).length ∧ (kept data).length ≤ 8 := by
  have := List.length_pos_iff.2 (rawName_ne_nil data)
  unfold kept
  rw [List.length_take]
  omega

section
variable (l : List UInt8)

/-- No byte of the name ends a segment. -/
theorem sanitize_inSegment : ∀ c ∈ l.map sanitize, inSegment c = true := by
  intro c hc
  obtain ⟨d, -, rfl⟩ := List.mem_map.1 hc
  exact (sanitize_spec d).1

/-- The name is legal if it holds no stray byte. -/
theorem sanitize_legal :
    (∀ c ∈ l.map sanitize, c ∉ reservedChars) ↔ ∀ c ∈ l, c ∉ stray := by
  rw [List.forall_mem_map]
  exact forall₂_congr fun c _ => not_congr (sanitize_spec c).2.2.1

/-- The name has a dot if the input has one. -/
theorem sanitize_dot : 0x2E ∈ l.map sanitize ↔ 0x2E ∈ l := by
  rw [List.mem_map]
  constructor
  · rintro ⟨c, hc, he⟩
    rwa [← (sanitize_spec c).2.1.1 he]
  · exact fun h => ⟨0x2E, h, by decide⟩

/-- The name has the dots of the input. -/
theorem sanitize_count : (l.map sanitize).count 0x2E = l.count 0x2E := by
  induction l with
  | nil => rfl
  | cons c l ih =>
    rw [List.map_cons, List.count_cons, List.count_cons, ih]
    have := (sanitize_spec c).2.1
    simp only [beq_iff_eq, this]

/-- The extension of the name is made from that of the input. -/
theorem sanitize_ext : nameExt (l.map sanitize) = (nameExt l).map sanitize := by
  have hf : ((· != 0x2E) ∘ sanitize : UInt8 → Bool) = (· != 0x2E) := by
    funext c
    have := (sanitize_spec c).2.1
    simp only [Function.comp, bne, Bool.beq_eq_decide_eq, this]
  unfold nameExt
  rw [List.dropWhile_map, hf, List.map_tail]

end

/-- `create_name` accepts a component whose bytes are all in one segment if it is a short name. -/
theorem accepted_iff {comp : List UInt8} (hseg : ∀ c ∈ comp, inSegment c = true) :
    Accepted comp ↔ ShortName comp := by
  have htake : comp.takeWhile inSegment = comp := List.takeWhile_eq_self_iff.2 hseg
  have hdrop : comp.dropWhile inSegment = [] := List.dropWhile_eq_nil_iff.2 hseg
  constructor
  · intro h
    have := (createName_segment false {} comp).1.1 (h false {}).1
    rwa [htake] at this
  · intro h signed dp
    obtain ⟨hiff, hform⟩ := createName_segment signed dp comp
    rw [htake, hdrop] at hform
    rw [htake] at hiff
    exact ⟨hiff.2 h, (hform h).2⟩

/-- The directory form of an accepted component. -/
theorem createName_accepted {comp : List UInt8} (hseg : ∀ c ∈ comp, inSegment c = true)
    (h : ShortName comp) (signed : Bool) (dp : DIR) :
    (createName signed dp comp).2.1.fn = shortName comp := by
  have hform := (createName_segment signed dp comp).2
  rw [List.takeWhile_eq_self_iff.2 hseg] at hform
  exact (hform h).1

/-! ## Components -/

/-- The added extension does not end the segment. -/
theorem txt_inSegment {l : List UInt8} (hseg : ∀ c ∈ l, inSegment c = true) :
    ∀ c ∈ l ++ txt, inSegment c = true := by
  intro c hc
  rcases List.mem_append.1 hc with hc | hc
  · exact hseg c hc
  · exact (by decide +kernel : ∀ c ∈ txt, inSegment c = true) c hc

/-- A name with the suffix `.txt` is a short name if it has no dot of its own. -/
theorem shortName_txt {l : List UInt8} (hlen : l.length ≤ 8) :
    ShortName (l ++ txt) ↔ 0x2E ∉ l ∧ ∀ c ∈ l, c ∉ reservedChars := by
  have hcount : (l ++ txt).count 0x2E = l.count 0x2E + 1 := by
    rw [List.count_append]
    rfl
  constructor
  · intro h
    refine ⟨?_, fun c hc => h.legal c (by simp [hc])⟩
    rw [← List.count_eq_zero]
    have := h.dots
    omega
  · rintro ⟨hd, hl⟩
    obtain ⟨hb, he⟩ := nameBody_append (e := [0x74, 0x78, 0x74]) hd
    refine ⟨by simp [txt], by rw [hcount, List.count_eq_zero.2 hd], ?_, ?_, fun c hc => ?_⟩
    · exact (congrArg List.length hb).trans_le hlen
    · exact (congrArg List.length he).le
    · rcases List.mem_append.1 hc with hc | hc
      · exact hl c hc
      · exact (by decide +kernel : ∀ c ∈ txt, c ∉ reservedChars) c hc

/-- What is shown of the directory form: the bytes of the two fields. -/
theorem shown_shortName {seg : List UInt8} (hseg : ∀ c ∈ seg, inSegment c = true)
    (h : ShortName seg) :
    shown (shortName seg) = (nameBody seg).map upChar ++ (nameExt seg).map upChar := by
  obtain ⟨-, -, -, hb, he⟩ := (shortName_iff hseg).1 h
  unfold shortName
  rw [shown_replaceDdem, ← shown_nameField (n := 8) hb, ← shown_nameField (n := 3) he]
  exact List.flatMap_append

/-- Two names with the suffix `.txt` have one directory form if they differ in case only. -/
theorem shortName_txt_eq_iff {l m : List UInt8} (hl : ∀ c ∈ l, inSegment c = true)
    (hm : ∀ c ∈ m, inSegment c = true) (hsl : ShortName (l ++ txt)) (hsm : ShortName (m ++ txt))
    (hdl : 0x2E ∉ l) (hdm : 0x2E ∉ m) :
    shortName (l ++ txt) = shortName (m ++ txt) ↔ l.map upChar = m.map upChar := by
  obtain ⟨hbl, hel⟩ := nameBody_append (e := [0x74, 0x78, 0x74]) hdl
  obtain ⟨hbm, hem⟩ := nameBody_append (e := [0x74, 0x78, 0x74]) hdm
  constructor
  · intro h
    have hs := congrArg shown h
    rw [shown_shortName (txt_inSegment hl) hsl, shown_shortName (txt_inSegment hm) hsm] at hs
    unfold txt at hs
    rw [hbl, hel, hbm, hem] at hs
    exact List.append_cancel_right hs
  · intro h
    have hlen : l.length = m.length := by
      have := congrArg List.length h
      rwa [List.length_map, List.length_map] at this
    unfold shortName txt
    rw [hbl, hel, hbm, hem]
    unfold nameField
    rw [h, hlen]

/-- The condition on the bytes of the input under which the commands are usable. -/
def Translatable (op : Op) (data : List UInt8) : Prop :=
  match op with
  | .write | .read | .rm => ∀ c ∈ kept data, c ∉ stray ∧ c ≠ 0x2E
  | .cp => (∀ c ∈ kept data, c ∉ stray ∧ c ≠ 0x2E) ∧
      ((kept data).drop 4).map toUpper ≠ [0x44, 0x53, 0x54]
  | .mkdir => (∀ c ∈ kept data, c ∉ stray) ∧ (kept data).count 0x2E ≤ 1 ∧
      (nameExt (kept data)).length ≤ 3
  | .stat | .ls | .other => True

/-- The name is one segment of a path. -/
theorem name_inSegment (data : List UInt8) : ∀ c ∈ name data, inSegment c = true := by
  rw [name_eq]
  exact sanitize_inSegment _

/-- The name has at most eight bytes. -/
theorem length_name (data : List UInt8) : (name data).length ≤ 8 := by
  rw [name_eq, List.length_map]
  exact (length_kept data).2

/-- The name in a file path is a name without dots and stray bytes. -/
theorem accepted_txt_iff (data : List UInt8) :
    Accepted (name data ++ txt) ↔ ∀ c ∈ kept data, c ∉ stray ∧ c ≠ 0x2E := by
  rw [accepted_iff (txt_inSegment (name_inSegment data)),
    shortName_txt (length_name data), name_eq, sanitize_dot, sanitize_legal]
  constructor
  · rintro ⟨hd, hl⟩ c hc
    exact ⟨hl c hc, fun he => hd (he ▸ hc)⟩
  · intro h
    exact ⟨fun hd => (h _ hd).2 rfl, fun c hc => (h c hc).1⟩

/-- The name of a directory. -/
theorem accepted_name_iff (data : List UInt8) : Accepted (name data) ↔
    Translatable .mkdir data := by
  rw [accepted_iff (name_inSegment data), name_eq]
  obtain ⟨hpos, hlen⟩ := length_kept data
  constructor
  · intro h
    have hd := h.dots
    have he := h.ext
    rw [sanitize_count] at hd
    rw [sanitize_ext, List.length_map] at he
    exact ⟨(sanitize_legal _).1 h.legal, hd, he⟩
  · rintro ⟨hl, hd, he⟩
    refine ⟨fun h => ?_, by rwa [sanitize_count], ?_, by rwa [sanitize_ext, List.length_map],
      (sanitize_legal _).2 hl⟩
    · rw [List.map_eq_nil_iff.1 h] at hpos
      cases hpos
    · have hle := (List.takeWhile_prefix (l := (kept data).map sanitize) (· != 0x2E)).length_le
      rw [List.length_map] at hle
      exact hle.trans hlen

/-- The target of a copy is accepted with its source. -/
theorem accepted_dst {data : List UInt8} (h : ∀ c ∈ kept data, c ∉ stray ∧ c ≠ 0x2E) :
    (∀ c ∈ dstName data, inSegment c = true) ∧ 0x2E ∉ dstName data ∧
      ShortName (dstName data ++ txt) := by
  have hsrc := (accepted_iff (txt_inSegment (name_inSegment data))).1 ((accepted_txt_iff data).2 h)
  rw [shortName_txt (length_name data)] at hsrc
  have hseg : ∀ c ∈ dstName data, inSegment c = true := by
    intro c hc
    rcases List.mem_append.1 hc with hc | hc
    · exact name_inSegment data c (List.mem_of_mem_take hc)
    · exact (by decide +kernel : ∀ c ∈ [0x64, 0x73, 0x74], inSegment c = true) c hc
  have hdot : 0x2E ∉ dstName data := by
    intro hc
    rcases List.mem_append.1 hc with hc | hc
    · exact hsrc.1 (List.mem_of_mem_take hc)
    · exact (by decide : 0x2E ∉ [0x64, 0x73, (0x74 : UInt8)]) hc
  have hlen : (dstName data).length ≤ 8 := by
    unfold dstName
    rw [List.length_append, List.length_take]
    simp only [List.length_cons, List.length_nil]
    omega
  refine ⟨hseg, hdot, (shortName_txt hlen).2 ⟨hdot, fun c hc => ?_⟩⟩
  rcases List.mem_append.1 hc with hc | hc
  · exact hsrc.2 c (List.mem_of_mem_take hc)
  · exact (by decide +kernel : ∀ c ∈ [0x64, 0x73, 0x74], c ∉ reservedChars) c hc

/-- Bytes that are converted to `DST`, before and after the filter. -/
theorem map_sanitize_dst (l : List UInt8) :
    (l.map sanitize).map upChar = [0x44, 0x53, 0x54] ↔ l.map toUpper = [0x44, 0x53, 0x54] := by
  match l with
  | [] | [_] | [_, _] | _ :: _ :: _ :: _ :: _ => simp
  | [a, b, c] =>
    simp only [List.map_cons, List.map_nil, List.cons.injEq, and_true]
    rw [(sanitize_spec a).2.2.2.1, (sanitize_spec b).2.2.2.2.1, (sanitize_spec c).2.2.2.2.2]

/-- The name of the target is the name of the source up to case if the source ends with `dst` behind
four bytes. -/
theorem dstName_eq_iff (data : List UInt8) :
    (name data).map upChar = (dstName data).map upChar ↔
      ((kept data).drop 4).map toUpper = [0x44, 0x53, 0x54] := by
  have hsplit : (name data).map upChar =
      ((name data).take 4).map upChar ++ ((name data).drop 4).map upChar := by
    rw [← List.map_append, List.take_append_drop]
  have hdst : (dstName data).map upChar = ((name data).take 4).map upChar ++ [0x44, 0x53, 0x54] :=
    List.map_append
  rw [hsplit, hdst, List.append_cancel_left_eq, name_eq, ← List.map_drop, map_sanitize_dst]

/-- The commands of the script are usable exactly under the condition on the bytes of the input. -/
theorem cmds_usable_iff (op : Op) (data : List UInt8) :
    (∀ cmd ∈ cmds op data, cmd.Usable) ↔ Translatable op data := by
  have hhex := hexData_ok data
  have htxt := accepted_txt_iff data
  cases op with
  | write | read | rm => simp [cmds, Cmd.Usable, Translatable, hhex, htxt]
  | mkdir => simp [cmds, Cmd.Usable, accepted_name_iff]
  | stat | ls | other => simp [cmds, Cmd.Usable, Translatable]
  | cp =>
    simp only [cmds, List.forall_mem_cons, List.not_mem_nil, false_imp_iff, implies_true, and_true,
      Cmd.Usable, Translatable, hhex, htxt]
    constructor
    · rintro ⟨hl, -, -, hne⟩
      refine ⟨hl, fun hd => hne false {} ?_⟩
      obtain ⟨hseg, hdot, hdst⟩ := accepted_dst hl
      have hsrc := (accepted_iff (txt_inSegment (name_inSegment data))).1 (htxt.2 hl)
      rw [createName_accepted (txt_inSegment (name_inSegment data)) hsrc,
        createName_accepted (txt_inSegment hseg) hdst,
        shortName_txt_eq_iff (name_inSegment data) hseg hsrc hdst
          ((shortName_txt (length_name data)).1 hsrc).1 hdot]
      exact (dstName_eq_iff data).2 hd
    · rintro ⟨hl, hd⟩
      obtain ⟨hseg, hdot, hdst⟩ := accepted_dst hl
      have hsrc := (accepted_iff (txt_inSegment (name_inSegment data))).1 (htxt.2 hl)
      refine ⟨hl, hl, (accepted_iff (txt_inSegment hseg)).2 hdst, fun signed dp => ?_⟩
      rw [createName_accepted (txt_inSegment (name_inSegment data)) hsrc,
        createName_accepted (txt_inSegment hseg) hdst, Ne,
        shortName_txt_eq_iff (name_inSegment data) hseg hsrc hdst
          ((shortName_txt (length_name data)).1 hsrc).1 hdot, dstName_eq_iff]
      exact hd

/-- The name `+` is kept by the filter and refused by `create_name`. -/
theorem cmds_unusable : ¬ ∀ cmd ∈ cmds .write [0, 0x2B], cmd.Usable := by
  intro h
  have hread := h (.read [0x2B, 0x2E, 0x74, 0x78, 0x74]) (by decide)
  exact absurd (hread false {}).1 (by decide)

end FatFs.Shell
