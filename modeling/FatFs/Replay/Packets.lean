import FatFs.Model.Replay

/-!
# The replay protocol round-trips

The firmware reads back every packet of the host script at its boundaries, with the same operation,
name and data, and without leaving a buffer, if and only if no name is sent with exactly 32 bytes
(`roundTrips_iff`). The script cuts a name to 32 bytes, but the firmware takes the length of the
name modulo 32: it reads no name for such a packet, and takes the name for data.
-/

namespace FatFs.Replay

open Run

/-- Run on after a step with a known result. -/
theorem bind_apply {α β : Type} {m : F α} {f : α → F β} {s s' : List UInt8} {a : α}
    (h : m s = some (a, s')) : (m >>= f) s = f a s' := by
  change (m s).bind _ = _
  rw [h]
  rfl

/-! ## Buffers -/

/-- The reading of a field takes its bytes from the stream. -/
theorem readFrom_append {dst : List UInt8} {i : Nat} (bs rest : List UInt8)
    (h : i + bs.length ≤ dst.length) :
    readFrom dst i bs.length (bs ++ rest) =
      some (dst.take i ++ bs ++ dst.drop (i + bs.length), rest) := by
  induction bs generalizing dst i with
  | nil => simp [readFrom]; rfl
  | cons b bs ih =>
    rw [List.length_cons] at h
    have hget : uartGetc (b :: bs ++ rest) = some (b, bs ++ rest) := rfl
    have hstore : store dst i b (bs ++ rest) = some (dst.set i b, bs ++ rest) := by
      rw [store, if_pos (by omega)]
      rfl
    rw [List.length_cons, readFrom, bind_apply hget, bind_apply hstore,
      ih (by rw [List.length_set]; omega)]
    -- the byte at `i` joins the prefix
    have htake : (dst.set i b).take (i + 1) = dst.take i ++ [b] := by
      rw [List.take_add_one, List.take_set_of_le (Nat.le_refl i), List.getElem?_set_self (by omega)]
      rfl
    have hsum : i + 1 + bs.length = i + (bs.length + 1) := by omega
    rw [htake, List.drop_set_of_lt (by omega), List.append_assoc (dst.take i), hsum]
    rfl

/-- Reading fills the head of the buffer. -/
theorem uartReadExact_append (dst bs rest : List UInt8) (h : bs.length ≤ dst.length) :
    uartReadExact dst bs.length (bs ++ rest) = some (bs ++ dst.drop bs.length, rest) := by
  rw [uartReadExact, readFrom_append bs rest (by omega)]
  simp

/-- A name buffer with the path `/RAM:/` and `bs`. -/
def pathBuf (bs : List UInt8) : List UInt8 := strRam ++ bs ++ List.replicate (34 - bs.length) 0

/-- The path of the drive is built without a byte of the stream. -/
theorem ramPath_apply (s : List UInt8) : ramPath s = some (pathBuf [], s) := by
  rw [ramPath, memcpy, if_pos (by decide)]
  rfl

/-- A name of up to 32 bytes behind the mount point, terminated in the buffer. -/
theorem storeName_apply {src : List UInt8} {n : Nat} (hn : n ≤ 32) (hs : n ≤ src.length)
    (s : List UInt8) :
    (memcpy (pathBuf []) 6 src n >>= fun name => store name (6 + n) 0) s =
      some (pathBuf (src.take n), s) := by
  have hlen : (pathBuf []).length = 40 := by decide
  have htake : (pathBuf []).take 6 = strRam := by decide
  have hdrop : (pathBuf []).drop (6 + n) = List.replicate (34 - n) 0 := by
    have hsix : strRam.length = 6 := rfl
    rw [pathBuf, List.append_nil, ← hsix, List.drop_append, List.drop_eq_nil_of_le (by omega),
      List.nil_append, Nat.add_sub_cancel_left, List.drop_replicate, List.length_nil]
  have hcpy : memcpy (pathBuf []) 6 src n s = some (pathBuf (src.take n), s) := by
    rw [memcpy, if_pos (by omega), htake, hdrop, pathBuf, List.length_take, Nat.min_eq_left hs]
    rfl
  have hhead : (strRam ++ src.take n).length = 6 + n := by
    rw [List.length_append, List.length_take, Nat.min_eq_left hs]
    rfl
  have hsize : (src.take n).length = n := by rw [List.length_take, Nat.min_eq_left hs]
  -- the terminator is there already
  have hset : (pathBuf (src.take n)).set (6 + n) 0 = pathBuf (src.take n) := by
    have hat : (pathBuf (src.take n))[6 + n]? = some 0 := by
      rw [pathBuf, List.getElem?_append_right (by omega), hhead, Nat.sub_self,
        List.getElem?_replicate, if_pos (by omega)]
    refine List.ext_getElem? fun i => ?_
    rw [List.getElem?_set]
    split
    · rename_i hi
      rw [← hi, hat, if_pos (List.getElem?_eq_some_iff.1 hat).1]
    · rfl
  rw [bind_apply hcpy, store, if_pos, hset]
  · rfl
  · rw [pathBuf, List.length_append, hhead, List.length_replicate]
    omega

/-- The string in the buffer is the path, up to a NUL in the name. -/
theorem cString_pathBuf {bs : List UInt8} (h : bs.length < 34) :
    cString (pathBuf bs) = strRam ++ cString bs := by
  have hz : (List.replicate (34 - bs.length) (0 : UInt8)).takeWhile (· ≠ 0) = [] := by
    cases hk : 34 - bs.length with
    | zero => omega
    | succ k => simp [List.replicate_succ]
  rw [cString, pathBuf, List.append_assoc,
    List.takeWhile_append_of_pos (by decide +kernel), cString]
  congr 1
  rw [List.takeWhile_append]
  split
  · rename_i hall
    rw [hz, List.append_nil]
    exact ((List.takeWhile_prefix _).eq_of_length hall).symm
  · rfl

/-! ## One packet -/

/-- What the firmware is to make of a packet. -/
def Packet.received (p : Packet) : Received where
  op := p.op
  path := strRam ++ p.sentName
  data := p.sentData
  path2 := if p.op = OP_RENAME then some (strRam ++ cString (p.sentData.take 32)) else none

/-- The host sends 32 bytes of a name at most. -/
theorem Packet.sentName_le (p : Packet) : p.sentName.length ≤ 32 := by
  rw [Packet.sentName, List.length_take]
  omega

/-- The host sends 4096 bytes of data at most. -/
theorem Packet.sentData_le (p : Packet) : p.sentData.length ≤ 4096 := by
  rw [Packet.sentData, List.length_take]
  omega

/-- The target reads a name into its path buffer. -/
theorem readName_apply (bs : List UInt8) (h : bs.length ≤ 32) (rest : List UInt8) :
    readName bs.length (bs ++ rest) = some (pathBuf bs, rest) := by
  have hcopy := fun (src : List UInt8) (hs : bs.length ≤ src.length) => storeName_apply h hs rest
  rw [readName, bind_apply (ramPath_apply _)]
  by_cases h0 : 0 < bs.length
  · have hread := uartReadExact_append (List.replicate MAX_NAME 0) bs rest
      (by rw [List.length_replicate]; exact h)
    have htmp := hcopy (bs ++ (List.replicate MAX_NAME 0).drop bs.length)
      (by rw [List.length_append]; omega)
    rw [if_pos h0, bind_assoc, bind_apply hread, htmp, List.take_left']
    rfl
  · obtain rfl : bs = [] := List.eq_nil_of_length_eq_zero (by omega)
    rw [if_neg h0]
    rfl

/-- The target reads the data into its buffer, which was cleared. -/
theorem readData_apply (bs : List UInt8) (h : bs.length ≤ 4096) (rest : List UInt8) :
    readData bs.length (bs ++ rest) =
      some (bs ++ (List.replicate MAX_DATA 0).drop bs.length, rest) := by
  rw [readData]
  by_cases h0 : 0 < bs.length
  · rw [if_pos h0, uartReadExact_append _ bs rest (by rw [List.length_replicate]; exact h)]
  · obtain rfl : bs = [] := List.eq_nil_of_length_eq_zero (by omega)
    rw [if_neg h0]
    rfl

/-- The target takes the new name from the data. -/
theorem renamePath_apply {bs pad : List UInt8} (s : List UInt8) :
    renamePath (bs ++ pad) bs.length s = some (pathBuf (bs.take 32), s) := by
  have hlen : (if bs.length < MAX_NAME then bs.length else MAX_NAME) = min bs.length 32 := by
    simp only [MAX_NAME]
    split <;> omega
  rw [renamePath, bind_apply (ramPath_apply _), hlen,
    storeName_apply (Nat.min_le_right _ _) (by rw [List.length_append]; omega)]
  congr 3
  rw [List.take_append_of_le_length (Nat.min_le_left _ _), Nat.min_comm, ← List.take_take,
    List.take_length]

/-- The part of a round after the header was read. -/
def afterHeader (got : List Received) (op : UInt8) (nameLen dataLen : Nat) :
    F (List Received ⊕ List Received) := do
  let name ← readName nameLen
  let data ← readData dataLen
  if op = 0xFF then return .inr got
  else if op = OP_RENAME then
    let name2 ← renamePath data dataLen
    return .inl (got ++ [⟨op, cString name, data.take dataLen, some (cString name2)⟩])
  else return .inl (got ++ [⟨op, cString name, data.take dataLen, none⟩])

/-- A round that has read a header goes on with its fields. -/
theorem recvRound_header (got : List Received) (op n hi lo : UInt8) (rest : List UInt8) :
    recvRound got ([op, n, hi, lo] ++ rest) =
      afterHeader got op (n.toNat % 32)
        (if MAX_DATA < hi.toNat * 256 + lo.toNat then MAX_DATA else hi.toNat * 256 + lo.toNat)
        rest := by
  have hread := uartReadExact_append (List.replicate 4 0) [op, n, hi, lo] rest (by simp)
  rw [recvRound]
  change (uartReadExact _ [op, n, hi, lo].length >>= _) _ = _
  rw [bind_apply hread]
  rfl

/-- The header of a packet: the length of the name is reduced, that of the data is kept. -/
theorem recvRound_encode (got : List Received) (p : Packet) (rest : List UInt8) :
    recvRound got (p.encode ++ rest) =
      afterHeader got p.op (p.sentName.length % 32) p.sentData.length
        (p.sentName ++ (p.sentData ++ rest)) := by
  have hn := p.sentName_le
  have hd := p.sentData_le
  have hname : (UInt8.ofNat p.sentName.length).toNat = p.sentName.length := by
    rw [UInt8.toNat_ofNat']
    omega
  have hdata : (UInt8.ofNat (p.sentData.length / 256)).toNat * 256 +
      (UInt8.ofNat p.sentData.length).toNat = p.sentData.length := by
    rw [UInt8.toNat_ofNat', UInt8.toNat_ofNat']
    omega
  have happ : p.encode ++ rest = [p.op, UInt8.ofNat p.sentName.length,
      UInt8.ofNat (p.sentData.length / 256), UInt8.ofNat p.sentData.length] ++
      (p.sentName ++ (p.sentData ++ rest)) := by
    simp [Packet.encode, packH]
  rw [happ, recvRound_header, hname, hdata, if_neg (by simp only [MAX_DATA]; omega)]

/-- A packet whose name has less than 32 bytes is read back. -/
theorem recvRound_ok (got : List Received) {p : Packet} (hop : p.op ≠ 0xFF)
    (hnul : 0 ∉ p.sentName) (hlen : p.sentName.length ≠ 32) (rest : List UInt8) :
    recvRound got (p.encode ++ rest) = some (.inl (got ++ [p.received]), rest) := by
  have hn := p.sentName_le
  have hd := p.sentData_le
  have hpath : cString (pathBuf p.sentName) = strRam ++ p.sentName := by
    have hall : ∀ b ∈ p.sentName, decide (b ≠ 0) = true := by
      intro b hb
      rw [decide_eq_true_eq]
      rintro rfl
      exact hnul hb
    rw [cString_pathBuf (by omega), cString, ← List.append_nil p.sentName,
      List.takeWhile_append_of_pos hall, List.takeWhile_nil]
  have hpath2 : cString (pathBuf (p.sentData.take 32)) = strRam ++ cString (p.sentData.take 32) :=
    cString_pathBuf (by rw [List.length_take]; omega)
  rw [recvRound_encode, Nat.mod_eq_of_lt (by omega), afterHeader,
    bind_apply (readName_apply _ (by omega) _), bind_apply (readData_apply _ hd _),
    if_neg hop, hpath, List.take_left']
  · by_cases hr : p.op = OP_RENAME
    · rw [if_pos hr, bind_apply (renamePath_apply _), hpath2, Packet.received, if_pos hr]
      rfl
    · rw [if_neg hr, Packet.received, if_neg hr]
      rfl
  · rfl

/-- The name of a packet that was sent with 32 bytes is not read: the path is that of the root. -/
theorem recvRound_bad (got : List Received) {p : Packet} (hop : p.op ≠ 0xFF)
    (hlen : p.sentName.length = 32) (rest : List UInt8) :
    Ensures (recvRound got) (p.encode ++ rest) fun r _ =>
      ∃ x : Received, r = .inl (got ++ [x]) ∧ x.path = strRam := by
  have hname : ∀ s, readName 0 s = some (pathBuf [], s) := fun s =>
    readName_apply [] (by decide) s
  have hc : cString (pathBuf []) = strRam := by decide
  have hafter : Ensures (afterHeader got p.op 0 p.sentData.length)
      (p.sentName ++ (p.sentData ++ rest)) fun r _ =>
      ∃ x : Received, r = .inl (got ++ [x]) ∧ x.path = strRam := by
    rw [afterHeader, ensures_bind]
    intro name s₁ hn
    rw [hname] at hn
    cases hn
    rw [ensures_bind]
    intro data s₂ _
    simp only [ensures_ite, ensures_bind, ensures_pure, hc]
    exact ⟨fun h => absurd h hop, fun _ => ⟨fun _ _ _ _ => ⟨_, rfl, rfl⟩, fun _ => ⟨_, rfl, rfl⟩⟩⟩
  intro r s h
  rw [recvRound_encode, hlen] at h
  exact hafter r s h

/-! ## Streams -/

/-- The stream of a list of packets and the termination packet. -/
def stream (ps : List Packet) : List UInt8 := ps.flatMap Packet.encode ++ term

/-- `n` rounds of the receive loop, or less if it exits. -/
def recvRounds : Nat → List Received → F (List Received)
  | 0, got => pure got
  | n + 1, got => do
    match ← recvRound got with
    | .inl got => recvRounds n got
    | .inr got => pure got

/-- The firmware is at the boundary of a packet after each round, with the packets before it read
back, and exits on the termination packet with no byte left over. -/
structure RoundTrips (ps : List Packet) : Prop where
  boundary : ∀ n ≤ ps.length, recvRounds n [] (stream ps) =
    some ((ps.take n).map Packet.received, stream (ps.drop n))
  exit : ∀ rounds, ps.length < rounds →
    recvLoop rounds (stream ps) = some (ps.map Packet.received, [])

/-- The terminator ends the loop. -/
theorem recvRound_term (got : List Received) : recvRound got term = some (.inr got, []) := by
  have hhead : recvRound got term = afterHeader got 0xFF 0 0 [] := by
    have h := recvRound_header got 0xFF 0 0 0 []
    rw [show ((0 : UInt8).toNat) = 0 from rfl, if_neg (by decide), List.append_nil] at h
    exact h
  have hname : readName 0 [] = some (pathBuf [], []) := readName_apply [] (by decide) []
  have hdata := readData_apply [] (by decide) []
  simp only [List.length_nil, List.append_nil] at hdata
  rw [hhead, afterHeader, bind_apply hname, bind_apply hdata, if_pos rfl]
  rfl

/-- The stream is sent packet by packet. -/
theorem stream_cons (p : Packet) (ps : List Packet) :
    stream (p :: ps) = p.encode ++ stream ps := by
  simp [stream]

section
variable {ps : List Packet} (hop : ∀ p ∈ ps, p.op ≠ 0xFF) (hnul : ∀ p ∈ ps, 0 ∉ p.sentName)
  (hlen : ∀ p ∈ ps, p.sentName.length ≠ 32)

include hop hnul hlen

/-- The first `n` rounds receive the first `n` packets. -/
theorem recvRounds_stream (got : List Received) {n : Nat} (hn : n ≤ ps.length) :
    recvRounds n got (stream ps) =
      some (got ++ (ps.take n).map Packet.received, stream (ps.drop n)) := by
  induction n generalizing got ps with
  | zero =>
    rw [recvRounds, List.take_zero, List.map_nil, List.append_nil, List.drop_zero]
    rfl
  | succ n ih =>
    cases ps with
    | nil => cases hn
    | cons p ps =>
      have hround := recvRound_ok got (hop p (by simp)) (hnul p (by simp)) (hlen p (by simp))
        (stream ps)
      rw [recvRounds, stream_cons, bind_apply hround]
      refine (ih (fun q hq => hop q (by simp [hq])) (fun q hq => hnul q (by simp [hq]))
        (fun q hq => hlen q (by simp [hq])) (got ++ [p.received]) (by simpa using hn)).trans ?_
      simp

/-- The loop receives all packets, and stops at the terminator. -/
theorem loop_stream (got : List Received) {rounds : Nat} (hr : ps.length < rounds) :
    loop recvRound rounds got (stream ps) = some (got ++ ps.map Packet.received, []) := by
  induction ps generalizing got rounds with
  | nil =>
    obtain ⟨n, rfl⟩ := Nat.exists_eq_add_of_lt hr
    rw [loop, bind_apply (show recvRound got (stream []) = _ from recvRound_term got)]
    simp
    rfl
  | cons p ps ih =>
    cases rounds with
    | zero => cases hr
    | succ n =>
      have hround := recvRound_ok got (hop p (by simp)) (hnul p (by simp)) (hlen p (by simp))
        (stream ps)
      rw [loop, stream_cons, bind_apply hround]
      refine (ih (fun q hq => hop q (by simp [hq])) (fun q hq => hnul q (by simp [hq]))
        (fun q hq => hlen q (by simp [hq])) (got ++ [p.received]) (by simpa using hr)).trans ?_
      simp

end

/-- A stream that is read back at its boundaries has no name of 32 bytes. -/
theorem length_of_boundary {ps : List Packet} (hop : ∀ p ∈ ps, p.op ≠ 0xFF)
    (hnul : ∀ p ∈ ps, 0 ∉ p.sentName) (got : List Received)
    (h : ∀ n ≤ ps.length, recvRounds n got (stream ps) =
      some (got ++ (ps.take n).map Packet.received, stream (ps.drop n))) :
    ∀ p ∈ ps, p.sentName.length ≠ 32 := by
  induction ps generalizing got with
  | nil => simp
  | cons p ps ih =>
    -- the first round shows whether the name of the first packet was read
    have hfirst : p.sentName.length ≠ 32 := by
      intro hbad
      have h1 := h 1 (by simp)
      rw [recvRounds, stream_cons] at h1
      obtain ⟨⟨r, s⟩, hr, hs⟩ := Option.bind_eq_some_iff.1 h1
      obtain ⟨x, rfl, hx⟩ := recvRound_bad got (hop p (by simp)) hbad (stream ps) r s hr
      have hgot : got ++ [x] = got ++ [p.received] := congrArg Prod.fst (Option.some.inj hs)
      have hx' : x = p.received := List.singleton_inj.1 (List.append_cancel_left hgot)
      rw [hx'] at hx
      have hlen := congrArg List.length hx
      simp only [Packet.received, List.length_append, hbad] at hlen
      omega
    have hround := recvRound_ok got (hop p (by simp)) (hnul p (by simp)) hfirst (stream ps)
    have hrest := ih (fun q hq => hop q (by simp [hq])) (fun q hq => hnul q (by simp [hq]))
      (got ++ [p.received]) fun n hn => by
        have hn1 := h (n + 1) (by simpa using hn)
        rw [recvRounds, stream_cons, bind_apply hround] at hn1
        refine hn1.trans ?_
        simp
    intro q hq
    rcases List.mem_cons.1 hq with rfl | hq
    · exact hfirst
    · exact hrest q hq

/-- The protocol round-trips exactly when no name is sent with 32 bytes. -/
theorem roundTrips_iff (ps : List Packet) (hop : ∀ p ∈ ps, p.op ≠ 0xFF)
    (hnul : ∀ p ∈ ps, 0 ∉ p.sentName) :
    RoundTrips ps ↔ ∀ p ∈ ps, p.sentName.length ≠ 32 := by
  constructor
  · intro h
    refine length_of_boundary hop hnul [] fun n hn => ?_
    rw [List.nil_append]
    exact h.boundary n hn
  · intro hlen
    refine ⟨fun n hn => ?_, fun rounds hr => ?_⟩
    · have h := recvRounds_stream hop hnul hlen [] hn
      rwa [List.nil_append] at h
    · have h := loop_stream hop hnul hlen [] hr
      rwa [List.nil_append] at h

/-- A write of two bytes to the file `A`, and the renaming of `A` to `B`. -/
def samplePackets : List Packet :=
  [⟨0x01, [0x41], [0x31, 0x32]⟩, ⟨OP_RENAME, [0x41], [0x42]⟩]

/-- The hypotheses are met by a write and a renaming. -/
theorem roundTrips_sample : RoundTrips samplePackets :=
  (roundTrips_iff samplePackets (by decide) (by decide)).2 (by decide)

/-- A packet with a name of 32 bytes. -/
def longPacket : Packet := ⟨0x03, List.replicate 32 0x41, []⟩

/-- The name of 32 bytes is not read with its packet: after the first round the path is that of the
root, and the name is still in the input. -/
theorem not_roundTrips_long : ¬RoundTrips [longPacket] := by
  intro h
  have hb := h.boundary 1 (by decide)
  have hpath : (recvRounds 1 [] (stream [longPacket])).map (fun r => r.1.map Received.path) =
      some [strRam] := by decide +kernel
  rw [hb] at hpath
  exact absurd hpath (by decide)

end FatFs.Replay
