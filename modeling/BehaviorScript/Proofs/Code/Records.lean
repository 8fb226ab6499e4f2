import BehaviorScript.Code.Record

/-!
# Records are read back as they were written

`decode` and `encodeRecords` are inverse to each other, up to what a
buffer holds behind the declared count or behind its last whole record:

- `read?_eq_some_iff` is the step: a record is read off a buffer exactly
  when the buffer starts with its encoding;
- `readRecords_encodeRecords_append` runs it over a written list, whatever
  follows, and `length_readRecords`, `encodeRecords_readRecords` over any
  buffer: how many records there are, and which bytes they were;
- `decode_of_le` and `decode_of_lt` add the status, and the count that is
  too great.

The index of an instruction is its place in the list. That the record at
place `i` is the one at byte `12 * i` is `encode_of_getElem?_readRecords`.
-/

namespace BehaviorScript

/-! ## Words -/

@[simp]
theorem lowByte_wordOfBytes (low high : UInt8) : lowByte (wordOfBytes low high) = low := by
  have hlow := low.toNat_lt
  have hhigh := high.toNat_lt
  apply UInt8.toNat_inj.mp
  simp only [lowByte, wordOfBytes, UInt8.toNat_ofNat', UInt16.toNat_ofNat']
  omega

@[simp]
theorem highByte_wordOfBytes (low high : UInt8) : highByte (wordOfBytes low high) = high := by
  have hlow := low.toNat_lt
  have hhigh := high.toNat_lt
  apply UInt8.toNat_inj.mp
  simp only [highByte, wordOfBytes, UInt8.toNat_ofNat', UInt16.toNat_ofNat']
  omega

@[simp]
theorem wordOfBytes_lowByte_highByte (w : UInt16) : wordOfBytes (lowByte w) (highByte w) = w := by
  have hw := w.toNat_lt
  apply UInt16.toNat_inj.mp
  simp only [lowByte, highByte, wordOfBytes, UInt8.toNat_ofNat', UInt16.toNat_ofNat']
  omega

/-! ## One record -/

namespace Instruction

@[simp]
theorem length_encode (i : Instruction) : i.encode.length = 12 := rfl

theorem read?_encode_append (i : Instruction) (rest : List UInt8) :
    read? (i.encode ++ rest) = some (i, rest) := by
  obtain ⟨opcode, t, f, bytes⟩ := i
  simp [encode, OperandBytes.toList, read?]

theorem read?_eq_some_iff {bytes rest : List UInt8} {i : Instruction} :
    read? bytes = some (i, rest) ↔ bytes = i.encode ++ rest := by
  constructor
  · intro h
    unfold read? at h
    split at h
    · cases h
      simp [encode, OperandBytes.toList]
    · cases h
  · rintro rfl
    exact read?_encode_append i rest

theorem read?_eq_none_of_short {bytes : List UInt8} (h : bytes.length < 12) :
    read? bytes = none := by
  cases hread : read? bytes with
  | none => rfl
  | some entry =>
      have hbytes := congrArg List.length (read?_eq_some_iff.mp hread)
      rw [List.length_append, length_encode] at hbytes
      omega

theorem exists_encode_append {bytes : List UInt8} (h : 12 ≤ bytes.length) :
    ∃ (i : Instruction) (rest : List UInt8), bytes = i.encode ++ rest := by
  match bytes, h with
  | o0 :: o1 :: t :: f :: b0 :: b1 :: b2 :: b3 :: b4 :: b5 :: b6 :: b7 :: rest, _ =>
      exact ⟨_, _, read?_eq_some_iff.mp rfl⟩

end Instruction

/-! ## Runs of records -/

@[simp]
theorem encodeRecords_cons (i : Instruction) (code : List Instruction) :
    encodeRecords (i :: code) = i.encode ++ encodeRecords code := rfl

theorem length_encodeRecords (code : List Instruction) :
    (encodeRecords code).length = 12 * code.length := by
  induction code with
  | nil => rfl
  | cons i code ih =>
      rw [encodeRecords_cons, List.length_append, Instruction.length_encode, ih, List.length_cons]
      omega

theorem readRecords_encode_append (count : Nat) (i : Instruction) (rest : List UInt8) :
    readRecords (count + 1) (i.encode ++ rest) = i :: readRecords count rest := by
  simp only [readRecords, Instruction.read?_encode_append]

theorem readRecords_of_short {bytes : List UInt8} (h : bytes.length < 12) (count : Nat) :
    readRecords count bytes = [] := by
  cases count with
  | zero => rfl
  | succ count => simp only [readRecords, Instruction.read?_eq_none_of_short h]

/-- What was written is read first; what follows is read as it would be
on its own. -/
theorem readRecords_encodeRecords_append {code : List Instruction} {count : Nat}
    (hcount : code.length ≤ count) (rest : List UInt8) :
    readRecords count (encodeRecords code ++ rest)
      = code ++ readRecords (count - code.length) rest := by
  induction code generalizing count with
  | nil => rfl
  | cons i code ih =>
      cases count with
      | zero => exact absurd hcount (Nat.not_succ_le_zero _)
      | succ count =>
          have hrest : code.length ≤ count := Nat.le_of_succ_le_succ hcount
          rw [encodeRecords_cons, List.append_assoc, readRecords_encode_append, ih hrest,
            List.cons_append, List.length_cons, Nat.add_sub_add_right]

/-- A buffer is its records and what is left of it: too little for one
more record, unless the count is used up. -/
theorem exists_rest (count : Nat) (bytes : List UInt8) :
    ∃ rest, bytes = encodeRecords (readRecords count bytes) ++ rest
      ∧ (readRecords count bytes).length ≤ count
      ∧ ((readRecords count bytes).length < count → rest.length < 12) := by
  induction count generalizing bytes with
  | zero => exact ⟨bytes, rfl, Nat.le_refl 0, fun h => absurd h (Nat.lt_irrefl 0)⟩
  | succ count ih =>
      rcases Nat.lt_or_ge bytes.length 12 with hshort | hlong
      · refine ⟨bytes, ?_, ?_, fun _ => hshort⟩
        · rw [readRecords_of_short hshort]
          rfl
        · rw [readRecords_of_short hshort]
          exact Nat.zero_le _
      · obtain ⟨i, behind, rfl⟩ := Instruction.exists_encode_append hlong
        obtain ⟨rest, hbytes, hle, hrest⟩ := ih behind
        rw [readRecords_encode_append]
        refine ⟨rest, ?_, Nat.succ_le_succ hle, fun h => hrest (Nat.lt_of_succ_lt_succ h)⟩
        rw [encodeRecords_cons, List.append_assoc, ← hbytes]

theorem length_readRecords (count : Nat) (bytes : List UInt8) :
    (readRecords count bytes).length = min count (bytes.length / 12) := by
  obtain ⟨rest, hbytes, hle, hrest⟩ := exists_rest count bytes
  have hlength := congrArg List.length hbytes
  rw [List.length_append, length_encodeRecords] at hlength
  omega

theorem encodeRecords_readRecords (count : Nat) (bytes : List UInt8) :
    encodeRecords (readRecords count bytes)
      = bytes.take (12 * (readRecords count bytes).length) := by
  obtain ⟨rest, hbytes, -⟩ := exists_rest count bytes
  calc encodeRecords (readRecords count bytes)
    _ = (encodeRecords (readRecords count bytes) ++ rest).take
          (12 * (readRecords count bytes).length) :=
        (List.take_left' (length_encodeRecords _)).symm
    _ = bytes.take (12 * (readRecords count bytes).length) := by rw [← hbytes]

theorem encode_of_getElem? {code : List Instruction} {i : Nat} {instruction : Instruction}
    (h : code[i]? = some instruction) (rest : List UInt8) :
    ((encodeRecords code ++ rest).drop (12 * i)).take 12 = instruction.encode := by
  induction code generalizing i with
  | nil => simp at h
  | cons head code ih =>
      rw [encodeRecords_cons, List.append_assoc]
      cases i with
      | zero =>
          obtain rfl : head = instruction := by simpa using h
          exact List.take_left' (Instruction.length_encode head)
      | succ i =>
          have hdrop : 12 * (i + 1) = head.encode.length + 12 * i := by
            rw [Instruction.length_encode]
            omega
          rw [hdrop, List.drop_length_add_append]
          exact ih (by simpa using h)

/-- The record at place `i` is the one at byte `12 * i`. -/
theorem encode_of_getElem?_readRecords {count i : Nat} {bytes : List UInt8}
    {instruction : Instruction} (h : (readRecords count bytes)[i]? = some instruction) :
    instruction.encode = (bytes.drop (12 * i)).take 12 := by
  obtain ⟨rest, hbytes, -⟩ := exists_rest count bytes
  have hrecord := encode_of_getElem? h rest
  rw [← hbytes] at hrecord
  exact hrecord.symm

/-- A longer buffer gives the records of the shorter one, and then more. -/
theorem readRecords_append (count : Nat) (bytes more : List UInt8) :
    ∃ new, readRecords count (bytes ++ more) = readRecords count bytes ++ new := by
  obtain ⟨rest, hbytes, hle, -⟩ := exists_rest count bytes
  refine ⟨readRecords (count - (readRecords count bytes).length) (rest ++ more), ?_⟩
  rw [← readRecords_encodeRecords_append hle, ← List.append_assoc, ← hbytes]

/-! ## Decoding -/

theorem decode_of_lt {count : Nat} (h : 253 < count) (bytes : List UInt8) :
    decode bytes count = .error (.tooManyInstructions count) :=
  if_pos h

theorem decode_of_le {count : Nat} (h : count ≤ 253) (bytes : List UInt8) :
    decode bytes count = .ok ⟨readRecords count bytes, count,
      if 12 * count ≤ bytes.length then .complete else .truncated (12 * count) bytes.length⟩ := by
  have hcount : ¬ maxInstructions < count := Nat.not_lt.mpr h
  have hlength := length_readRecords count bytes
  rw [decode, if_neg hcount, Nat.mul_comm 12 count]
  by_cases hcomplete : count * 12 ≤ bytes.length
  · have hall : ¬ (readRecords count bytes).length < count := by omega
    simp only [if_neg hall, if_pos hcomplete]
  · have hshort : (readRecords count bytes).length < count := by omega
    simp only [if_pos hshort, if_neg hcomplete, recordSize]

theorem decode_eq_error_iff {bytes : List UInt8} {count : Nat} :
    (∃ e, decode bytes count = .error e) ↔ 253 < count := by
  constructor
  · rintro ⟨e, he⟩
    rcases Nat.lt_or_ge 253 count with hlt | hle
    · exact hlt
    · rw [decode_of_le hle] at he
      cases he
  · intro hlt
    exact ⟨_, decode_of_lt hlt bytes⟩

theorem status_of_decode {bytes : List UInt8} {count : Nat} {d : Decoded}
    (hd : decode bytes count = .ok d) :
    (d.status = .complete ↔ 12 * count ≤ bytes.length)
      ∧ (bytes.length < 12 * count → d.status = .truncated (12 * count) bytes.length) := by
  rcases Nat.lt_or_ge 253 count with hlt | hle
  · rw [decode_of_lt hlt] at hd
    cases hd
  · rw [decode_of_le hle] at hd
    cases hd
    by_cases hcomplete : 12 * count ≤ bytes.length
    · refine ⟨⟨fun _ => hcomplete, fun _ => if_pos hcomplete⟩, fun hshort => ?_⟩
      exact absurd hcomplete (Nat.not_le.mpr hshort)
    · simp [hcomplete]

theorem length_le_of_decode {bytes : List UInt8} {count : Nat} {d : Decoded}
    (hd : decode bytes count = .ok d) : d.code.length ≤ 253 := by
  rcases Nat.lt_or_ge 253 count with hlt | hle
  · rw [decode_of_lt hlt] at hd
    cases hd
  · rw [decode_of_le hle] at hd
    cases hd
    have hlength := length_readRecords count bytes
    dsimp only
    omega

theorem decode_encodeRecords_append {code : List Instruction} (h : code.length ≤ 253)
    (rest : List UInt8) :
    decode (encodeRecords code ++ rest) code.length = .ok ⟨code, code.length, .complete⟩ := by
  have hread : readRecords code.length (encodeRecords code ++ rest) = code := by
    rw [readRecords_encodeRecords_append (Nat.le_refl _), Nat.sub_self, readRecords,
      List.append_nil]
  have hlong : 12 * code.length ≤ (encodeRecords code ++ rest).length := by
    rw [List.length_append, length_encodeRecords]
    exact Nat.le_add_right _ _
  rw [decode_of_le h, hread, if_pos hlong]

/-- Decoding fails for a count above 253 and for nothing else. Otherwise
it gives the records that are both declared and whole in the buffer, each
at its place, and says so when the buffer is too short for the count. What
was written is read back, and more bytes only add records. -/
theorem decode_inverse_encodeRecords (bytes : List UInt8) (count : Nat) :
    ((∃ e, decode bytes count = .error e) ↔ 253 < count)
    ∧ (count ≤ 253 → ∃ d, decode bytes count = .ok d
        ∧ d.code.length = min count (bytes.length / 12)
        ∧ (∀ i instruction, d.code[i]? = some instruction →
            instruction.encode = (bytes.drop (12 * i)).take 12
            ∧ (listing d.code)[i]? = some (instruction.line i))
        ∧ encodeRecords d.code = bytes.take (12 * min count (bytes.length / 12))
        ∧ (d.status = .complete ↔ 12 * count ≤ bytes.length)
        ∧ (bytes.length < 12 * count → d.status = .truncated (12 * count) bytes.length))
    ∧ (∀ (code : List Instruction) (rest : List UInt8), code.length ≤ 253 →
        decode (encodeRecords code ++ rest) code.length = .ok ⟨code, code.length, .complete⟩)
    ∧ (∀ (more : List UInt8) (d : Decoded), decode bytes count = .ok d →
        ∃ longer new, decode (bytes ++ more) count = .ok longer
          ∧ longer.code = d.code ++ new ∧ longer.code.length ≤ count) := by
  refine ⟨decode_eq_error_iff, fun hle => ?_,
    fun code rest h => decode_encodeRecords_append h rest, fun more d hd => ?_⟩
  · have hd := decode_of_le hle bytes
    refine ⟨_, hd, length_readRecords count bytes, fun i instruction hi => ?_, ?_,
      status_of_decode hd⟩
    · refine ⟨encode_of_getElem?_readRecords hi, ?_⟩
      simp only [listing, List.getElem?_mapIdx, hi, Option.map_some]
    · rw [← length_readRecords]
      exact encodeRecords_readRecords count bytes
  · rcases Nat.lt_or_ge 253 count with hlt | hle
    · rw [decode_of_lt hlt] at hd
      cases hd
    · obtain ⟨new, hnew⟩ := readRecords_append count bytes more
      rw [decode_of_le hle] at hd
      cases hd
      refine ⟨_, new, decode_of_le hle _, hnew, ?_⟩
      rw [length_readRecords]
      exact Nat.min_le_left _ _

/-- Two whole records of the three that are declared, and three bytes of
the last one. -/
theorem decode_inverse_encodeRecords_short :
    3 ≤ 253 ∧ ∃ d, decode (List.replicate 27 7) 3 = .ok d ∧ d.code.length = 2
      ∧ encodeRecords d.code = List.replicate 24 7 ∧ d.status = .truncated 36 27 := by
  have hcount : 3 ≤ 253 := by decide
  obtain ⟨d, hd, hlength, -, hbytes, -, hstatus⟩ :=
    (decode_inverse_encodeRecords (List.replicate 27 7) 3).2.1 hcount
  exact ⟨hcount, d, hd, hlength, hbytes, hstatus (by decide)⟩

end BehaviorScript
