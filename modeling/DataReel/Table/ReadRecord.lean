import DataReel.Table.DiskRecord

/-! # Reading records of any bytes

What one turn of the reader does with the bytes that are left, and which byte strings it
gets through.
-/

namespace DataReel

namespace Record

variable {T : IntTypes} {r r' : Record} {disk : List UInt8} {i j n pos : Nat} {t : UInt8}

/-- The number of bytes that the reader takes for a field. -/
def kept (r : Record) (i n : Nat) : Nat := if r.Excludes i then 0 else n

theorem kept_eq : (if r.Excludes i then 0 else n) = r.kept i n := rfl

theorem fieldBuf_setBuf {buf : List UInt8} (hi : i < r.dbRecord.length) :
    (r.setBuf i buf).fieldBuf j = if j = i then buf else r.fieldBuf j :=
  fieldBuf_set hi

@[simp] theorem setBuf_setBuf (buf buf' : List UInt8) :
    (r.setBuf i buf).setBuf i buf' = r.setBuf i buf' := by
  rw [setBuf, setBuf, List.set_set]
  rfl

@[simp] theorem setBuf_numFields (buf : List UInt8) : (r.setBuf i buf).numFields = r.numFields := rfl

@[simp] theorem setBuf_length (buf : List UInt8) :
    (r.setBuf i buf).dbRecord.length = r.dbRecord.length := List.length_set

@[simp] theorem setBuf_excludes (buf : List UInt8) : (r.setBuf i buf).Excludes j ↔ r.Excludes j :=
  Iff.rfl

@[simp] theorem setBuf_kept (buf : List UInt8) : (r.setBuf i buf).kept j n = r.kept j n := rfl

/-! ## One field -/

section Field

variable {space : List UInt8} {t₀ : UInt8} {n₀ : Nat}

theorem peek_drop {k : Nat} : peek (disk.drop pos) n k = if pos ≤ disk.length then peek disk (pos + n) k
    else peek ([] : List UInt8) n k := by
  split
  next hPos =>
    simp only [peek, List.length_drop, List.drop_drop]
    congr 1
    exact propext (by omega)
  next hPos => rw [List.drop_eq_nil_of_le (by omega)]

theorem readHeader_of_none (hDisk : disk.length ≤ vectorMax) (hPos : pos ≤ disk.length)
    (h : Field.header T (disk.drop pos) = none) :
    readHeader T disk ⟨r, pos, pos⟩ = .error (.returned .badRecord r) := by
  have hShort := Field.header_eq_none_iff.mp h
  rw [List.length_drop, Field.overhead] at hShort
  have hMax : vectorMax < 2 ^ 64 - 10 := by decide
  have hWord := Field.overhead_le (T := T)
  rw [Field.overhead] at hWord
  have hFirst : (pos + 1) % 2 ^ 64 = pos + 1 := Nat.mod_eq_of_lt (by omega)
  have hSecond : (pos + 1 + T.wordSize) % 2 ^ 64 = pos + 1 + T.wordSize :=
    Nat.mod_eq_of_lt (by omega)
  simp only [readHeader, hFirst, hSecond]
  by_cases hType : disk.length < pos + 1
  · rw [if_pos hType]
  · have hShort' : disk.length < pos + 1 + T.wordSize := by omega
    simp only [if_neg hType, peek_of_le (show pos + 1 ≤ disk.length by omega), inside, bind,
      Except.bind, if_pos hShort']

theorem readHeader_of_some (hDisk : disk.length ≤ vectorMax)
    (h : Field.header T (disk.drop pos) = some (t, n)) :
    pos + Field.overhead T ≤ disk.length ∧ readHeader T disk ⟨r, pos, pos⟩ =
      .ok (t, n, ⟨r, pos + Field.overhead T, pos + Field.overhead T⟩) := by
  have hLong : pos + Field.overhead T ≤ disk.length := by
    by_contra hShort
    rw [Field.header_eq_none_iff.mpr] at h
    · cases h
    · rw [List.length_drop]
      have hWord := Field.wordSize_pos (T := T)
      rw [Field.overhead] at hShort ⊢
      omega
  have hMax : vectorMax < 2 ^ 64 := by decide
  have hEnd : pos + Field.overhead T = pos + 1 + T.wordSize := by
    rw [Field.overhead]
    omega
  have hFirst : (pos + 1) % 2 ^ 64 = pos + 1 := Nat.mod_eq_of_lt (by omega)
  have hSecond : (pos + 1 + T.wordSize) % 2 ^ 64 = pos + 1 + T.wordSize :=
    Nat.mod_eq_of_lt (by omega)
  refine ⟨hLong, ?_⟩
  rw [hEnd] at hLong ⊢
  have hPos : pos ≤ disk.length := by omega
  simp only [Field.header, peek_drop, if_pos hPos, Nat.add_zero] at h
  rw [peek_of_le (show pos + 1 ≤ disk.length by omega), peek_of_le hLong] at h
  have hType : ¬ disk.length < pos + 1 := by omega
  have hCount : ¬ disk.length < pos + 1 + T.wordSize := by omega
  simp only [readHeader, hFirst, hSecond, if_neg hType, if_neg hCount, peek_of_le hLong,
    peek_of_le (show pos + 1 ≤ disk.length by omega), inside, bind, Except.bind]
  cases h
  rfl

/-- What a turn does with the type and the number of bytes. -/
theorem readField_of_some (hDisk : disk.length ≤ vectorMax)
    (h : Field.header T (disk.drop pos) = some (t, n)) (hBuf : r.fieldBuf i = Field.image T t₀ n₀ space) :
    readField T disk i ⟨r, pos, pos⟩ =
      let buf := Field.image T t (r.kept i n) space
      let byteCount := (pos + Field.overhead T + r.kept i n) % 2 ^ 64
      if disk.length < byteCount then .error (.returned .badRecord (r.setBuf i buf))
      else if r.kept i n = 0 then .ok ⟨r.setBuf i buf, byteCount, pos + Field.overhead T⟩
      else do
        let buf ← grow (r.setBuf i buf) buf ((Field.overhead T + r.kept i n) % 2 ^ 64)
        let data ← inside (peek disk (pos + Field.overhead T) (r.kept i n))
        let buf ← inside (poke buf (Field.overhead T) data)
        return ⟨r.setBuf i buf, byteCount, pos + Field.overhead T + r.kept i n⟩ := by
  have hHeader := (readHeader_of_some (r := r) hDisk h).2
  have hGrow : grow r (Field.image T t₀ n₀ space) (Field.overhead T) =
      .ok (Field.image T t₀ n₀ space) := by
    rw [grow, if_neg]
    rw [Field.image_length]
    omega
  have hSet (buf buf' : List UInt8) : (r.setBuf i buf).setBuf i buf' = r.setBuf i buf' :=
    setBuf_setBuf buf buf'
  simp only [readField, hHeader, bind, Except.bind, hBuf, hGrow, Field.poke_typeId, inside, kept_eq,
    Field.poke_numBytes, hSet]
  rfl

/-- A field that is complete. -/
theorem readField_complete (hDisk : disk.length ≤ vectorMax)
    (h : Field.header T (disk.drop pos) = some (t, n)) (hBuf : r.fieldBuf i = Field.image T t₀ n₀ space)
    (hSpace : Field.overhead T + space.length ≤ vectorMax)
    (hFits : pos + Field.overhead T + r.kept i n ≤ disk.length) :
    ∃ extra, readField T disk i ⟨r, pos, pos⟩ =
      .ok ⟨r.setBuf i (Field.image T t (r.kept i n)
        ((disk.drop (pos + Field.overhead T)).take (r.kept i n) ++ extra)),
        pos + Field.overhead T + r.kept i n, pos + Field.overhead T + r.kept i n⟩ ∧
      Field.overhead T + r.kept i n + extra.length ≤ vectorMax := by
  have hMax : vectorMax < 2 ^ 64 := by decide
  have hMod : (pos + Field.overhead T + r.kept i n) % 2 ^ 64 = pos + Field.overhead T + r.kept i n :=
    Nat.mod_eq_of_lt (by omega)
  have hMod' : (Field.overhead T + r.kept i n) % 2 ^ 64 = Field.overhead T + r.kept i n :=
    Nat.mod_eq_of_lt (by omega)
  rw [readField_of_some hDisk h hBuf]
  simp only [hMod, hMod']
  rw [if_neg (by omega)]
  by_cases hZero : r.kept i n = 0
  · refine ⟨space, ?_, ?_⟩
    · rw [if_pos hZero]
      simp [hZero]
    · omega
  · rw [if_neg hZero, peek_of_le (by omega)]
    have hData : ((disk.drop (pos + Field.overhead T)).take (r.kept i n)).length = r.kept i n := by
      rw [List.length_take, List.length_drop]
      omega
    generalize (disk.drop (pos + Field.overhead T)).take (r.kept i n) = data at hData ⊢
    -- a buffer that is too short grows to the end of the data
    have hGrow : ∃ space', grow (r.setBuf i (Field.image T t (r.kept i n) space))
        (Field.image T t (r.kept i n) space) (Field.overhead T + r.kept i n) =
        .ok (Field.image T t (r.kept i n) space') ∧ r.kept i n ≤ space'.length ∧
        Field.overhead T + space'.length ≤ vectorMax := by
      rw [grow, Field.image_length]
      by_cases hShort : space.length < r.kept i n
      · refine ⟨resize 0 space (r.kept i n), ?_, ?_, ?_⟩
        · rw [if_pos (by omega), if_neg (by omega), Field.resize_image]
        · rw [resize_length]
        · rw [resize_length]
          omega
      · refine ⟨space, ?_, by omega, hSpace⟩
        rw [if_neg (by omega)]
    obtain ⟨space', hGrow, hLe, hSpace'⟩ := hGrow
    refine ⟨space'.drop data.length, ?_, ?_⟩
    · simp only [bind, Except.bind, hGrow, inside]
      rw [Field.poke_data (by omega)]
      rfl
    · rw [List.length_drop]
      omega

/-- A field whose data are cut off, in a record that has space for them. -/
theorem readField_cut (hDisk : disk.length ≤ vectorMax)
    (h : Field.header T (disk.drop pos) = some (t, n)) (hBuf : r.fieldBuf i = Field.image T t₀ n₀ space)
    (hSpace : Field.overhead T + space.length ≤ vectorMax)
    (hCut : disk.length < pos + Field.overhead T + r.kept i n) (hFits : r.kept i n ≤ space.length) :
    readField T disk i ⟨r, pos, pos⟩ =
      .error (.returned .badRecord (r.setBuf i (Field.image T t (r.kept i n) space))) := by
  have hHeader := (readHeader_of_some (r := r) hDisk h).1
  have hMax : vectorMax + vectorMax < 2 ^ 64 := by decide
  have hMod : (pos + Field.overhead T + r.kept i n) % 2 ^ 64 = pos + Field.overhead T + r.kept i n :=
    Nat.mod_eq_of_lt (by omega)
  rw [readField_of_some hDisk h hBuf]
  simp only [hMod]
  rw [if_pos hCut]

/-- A field whose data are cut off, in a record that has no space for them: a count that the buffer
does not hold, or one so large that the sums wrap around. -/
theorem readField_cut_long (hDisk : disk.length ≤ vectorMax)
    (h : Field.header T (disk.drop pos) = some (t, n)) (hBuf : r.fieldBuf i = Field.image T t₀ n₀ space)
    (hSpace : Field.overhead T + space.length ≤ vectorMax)
    (hCut : disk.length < pos + Field.overhead T + r.kept i n) (hLong : space.length < r.kept i n)
    (hWord : r.kept i n < 2 ^ 64) :
    readField T disk i ⟨r, pos, pos⟩ =
        .error (.returned .badRecord (r.setBuf i (Field.image T t (r.kept i n) space))) ∨
      (∃ r', readField T disk i ⟨r, pos, pos⟩ = .error (.thrown r')) ∨
      readField T disk i ⟨r, pos, pos⟩ = .error .outside := by
  have hHeader := (readHeader_of_some (r := r) hDisk h).1
  have hMax : vectorMax + vectorMax < 2 ^ 64 := by decide
  have hZero : r.kept i n ≠ 0 := by omega
  rw [readField_of_some hDisk h hBuf]
  simp only
  by_cases hCount : disk.length < (pos + Field.overhead T + r.kept i n) % 2 ^ 64
  · rw [if_pos hCount]
    exact .inl rfl
  · rw [if_neg hCount, if_neg hZero, grow, Field.image_length]
    right
    by_cases hWrap : 2 ^ 64 ≤ Field.overhead T + r.kept i n
    · -- the length wraps around as well: the buffer stays as it is, and the data are not there
      have hShort : ¬ Field.overhead T + space.length < (Field.overhead T + r.kept i n) % 2 ^ 64 := by
        omega
      rw [if_neg hShort, peek_of_lt hCut]
      exact .inr rfl
    · have hGrow : Field.overhead T + space.length < (Field.overhead T + r.kept i n) % 2 ^ 64 := by
        omega
      have hThrow : vectorMax < (Field.overhead T + r.kept i n) % 2 ^ 64 := by
        omega
      rw [if_pos hGrow, if_pos hThrow]
      exact .inl ⟨_, rfl⟩

end Field

/-! ## The fields of a byte string -/

/-- The table and the number of fields in a record header. -/
def diskTable (T : IntTypes) (disk : List UInt8) : Nat := Bytes.leNat (disk.take T.wordSize)

def diskFields (T : IntTypes) (disk : List UInt8) : Nat :=
  Bytes.leNat ((disk.drop T.wordSize).take T.wordSize)

/-- The fields before the field `i` are complete, and it starts at an offset. An excluded field is a
type and a number of bytes. -/
inductive Starts (T : IntTypes) (r : Record) (disk : List UInt8) : Nat → Nat → Prop
  | first : Starts T r disk 0 (headerSizeOf T)
  | next {i pos n : Nat} {t : UInt8} : Starts T r disk i pos →
      Field.header T (disk.drop pos) = some (t, n) →
      pos + Field.overhead T + r.kept i n ≤ disk.length →
      Starts T r disk (i + 1) (pos + Field.overhead T + r.kept i n)

/-- The bytes are a record header and complete fields. -/
def Complete (T : IntTypes) (r : Record) (disk : List UInt8) : Prop :=
  headerSizeOf T ≤ disk.length ∧ ∃ pos, Starts T r disk (diskFields T disk) pos

theorem Starts.le (hHeader : headerSizeOf T ≤ disk.length) (h : Starts T r disk i pos) :
    pos ≤ disk.length := by
  cases h with
  | first => exact hHeader
  | next _ _ hFits => exact hFits

theorem Starts.unique (h : Starts T r disk i pos) {pos' : Nat} (h' : Starts T r disk i pos') :
    pos = pos' := by
  induction h generalizing pos' with
  | first =>
    cases h'
    rfl
  | next h hHeader _ ih =>
    cases h' with
    | next h' hHeader' _ =>
      cases ih h'
      rw [hHeader] at hHeader'
      cases hHeader'
      rfl

/-! ## Runs of the reader -/

/-- The state of the reader in front of the field `i`. -/
structure Reached (T : IntTypes) (r : Record) (disk : List UInt8) (i : Nat) (s : ReadState) : Prop where
  starts : Starts T r disk i s.bufOffset
  byteCount : s.byteCount = s.bufOffset
  wellFormed : s.record.WellFormed T
  numFields : s.record.numFields = r.numFields
  kept : ∀ j n, s.record.kept j n = r.kept j n
  rest : ∀ j, i ≤ j → s.record.fieldBuf j = r.fieldBuf j

theorem Reached.first (h : r.WellFormed T) :
    Reached T r disk 0 ⟨r, headerSizeOf T, headerSizeOf T⟩ where
  starts := .first
  byteCount := rfl
  wellFormed := h
  numFields := rfl
  kept _ _ := rfl
  rest _ _ := rfl

/-- One complete field. -/
theorem Reached.next (hDisk : disk.length ≤ vectorMax) {s : ReadState} (h : Reached T r disk i s)
    (hi : i < r.numFields) (hHeader : Field.header T (disk.drop s.bufOffset) = some (t, n))
    (hFits : s.bufOffset + Field.overhead T + r.kept i n ≤ disk.length) :
    ∃ s', readField T disk i s = .ok s' ∧ Reached T r disk (i + 1) s' ∧
      s'.bufOffset = s.bufOffset + Field.overhead T + r.kept i n ∧
      (∃ extra, s'.record.fieldBuf i = Field.image T t (r.kept i n)
        ((disk.drop (s.bufOffset + Field.overhead T)).take (r.kept i n) ++ extra)) ∧
      ∀ j ≠ i, s'.record.fieldBuf j = s.record.fieldBuf j := by
  obtain ⟨record, byteCount, bufOffset⟩ := s
  obtain ⟨hStarts, hByteCount, hWellFormed, hNum, hKept, hRest⟩ := h
  dsimp only at *
  subst hByteCount
  have hIndex : i < record.numFields := hNum ▸ hi
  obtain ⟨t₀, data, extra₀, hBuf, _⟩ := (hWellFormed.field i hIndex).image
  have hLength := (hWellFormed.field i hIndex).length_le
  rw [hBuf, Field.image_length] at hLength
  have hSame := hKept i n
  rw [← hSame] at hFits
  obtain ⟨extra, hRead, hExtra⟩ := readField_complete hDisk hHeader hBuf hLength hFits
  have hPlace : i < record.dbRecord.length := hIndex.trans_le hWellFormed.numFields_le
  rw [hSame] at hRead hExtra hFits
  refine ⟨_, hRead, ?_, rfl, ⟨extra, ?_⟩, ?_⟩
  · constructor
    · exact hStarts.next hHeader hFits
    · rfl
    · apply hWellFormed.set
      apply Field.wellFormed_image
      · simp only [List.length_append, List.length_take, List.length_drop]
        omega
      · simp only [List.length_append, List.length_take, List.length_drop]
        omega
    · exact hNum
    · exact hKept
    · intro j hj
      rw [fieldBuf_setBuf hPlace, if_neg (by omega)]
      exact hRest j (by omega)
  · rw [fieldBuf_setBuf hPlace, if_pos rfl]
  · intro j hj
    rw [fieldBuf_setBuf hPlace, if_neg hj]

theorem readFields_append {m : Nat} {s : ReadState} : readFields T disk i (n + m) s =
    (readFields T disk i n s).bind (readFields T disk (i + n) m) := by
  induction n generalizing i s with
  | zero =>
    rw [Nat.zero_add]
    rfl
  | succ n ih =>
    rw [Nat.succ_add_eq_add_succ, Nat.add_succ, readFields, readFields]
    cases readField T disk i s with
    | error e => rfl
    | ok s =>
      change readFields T disk (i + 1) (n + m) s = (readFields T disk (i + 1) n s).bind _
      rw [ih, Nat.add_right_comm, Nat.add_assoc]

/-- The reader gets to every field that starts in the byte string. -/
theorem Starts.reached (hDisk : disk.length ≤ vectorMax) (h : r.WellFormed T)
    (hStarts : Starts T r disk i pos) (hi : i ≤ r.numFields) :
    ∃ s, readFields T disk 0 i ⟨r, headerSizeOf T, headerSizeOf T⟩ = .ok s ∧ Reached T r disk i s ∧
      s.bufOffset = pos := by
  induction hStarts with
  | first => exact ⟨_, rfl, .first h, rfl⟩
  | @next i pos n t hStarts hHeader hFits ih =>
    obtain ⟨s, hRun, hReached, rfl⟩ := ih (by omega)
    obtain ⟨s', hRead, hReached', hOffset, _⟩ := hReached.next hDisk hi hHeader hFits
    refine ⟨s', ?_, hReached', hOffset⟩
    rw [readFields_append, hRun]
    simp only [Except.bind, Nat.zero_add, readFields, hRead, bind]

/-! ## Any byte string -/

/-- A load that returns, with an error unless the bytes are complete, and leaves every field well
formed. -/
def Loaded.Sound (T : IntTypes) (complete : Prop) : Loaded → Prop
  | .returned err r => (err = .noError → complete) ∧ r.WellFormed T
  | .thrown _ => False
  | .outside => False

/-- The data of the field `i`, if it starts in the byte string, are there or have a place in the
record. -/
def FieldFits (T : IntTypes) (r : Record) (disk : List UInt8) (i : Nat) : Prop :=
  ∀ pos t n, Starts T r disk i pos → Field.header T (disk.drop pos) = some (t, n) →
    pos + Field.overhead T + r.kept i n ≤ disk.length ∨
      Field.overhead T + r.kept i n ≤ (r.fieldBuf i).length

/-- The bytes reach to the end of a header, and where the header is one of the record's table each
field fits. -/
def LoadsSafely (T : IntTypes) (r : Record) (disk : List UInt8) : Prop :=
  headerSizeOf T ≤ disk.length ∧ (diskTable T disk = tableCrc r.tableName →
    diskFields T disk ≤ r.numFields → ∀ i < diskFields T disk, FieldFits T r disk i)

theorem kept_lt (h : Field.header T (disk.drop pos) = some (t, n)) :
    r.kept i n < 256 ^ T.wordSize := by
  obtain ⟨_, _, hBytes⟩ := Field.header_eq_some_iff.mp h
  rw [kept]
  split <;> omega

/-- A turn in front of a field that does not come to its end. -/
theorem Reached.stops (hDisk : disk.length ≤ vectorMax) (hHeader : headerSizeOf T ≤ disk.length)
    {s : ReadState} (h : Reached T r disk i s) (hi : i < r.numFields)
    (hStop : ∀ pos, ¬ Starts T r disk (i + 1) pos) (complete : Prop) :
    ∃ e, readField T disk i s = .error e ∧ (∀ r', e ≠ .returned .noError r') ∧
      (e.Sound T complete ↔ FieldFits T r disk i) := by
  have hPos := h.starts.le hHeader
  have hOnly : ∀ pos, Starts T r disk i pos → pos = s.bufOffset :=
    fun pos hPos => hPos.unique h.starts
  obtain ⟨record, byteCount, bufOffset⟩ := s
  obtain ⟨hStarts, hByteCount, hWellFormed, hNum, hKept, hRest⟩ := h
  dsimp only at *
  subst hByteCount
  cases hField : Field.header T (disk.drop byteCount) with
  | none =>
    refine ⟨.returned .badRecord record, ?_, nofun, ?_⟩
    · rw [readField, readHeader_of_none hDisk hPos hField]
      rfl
    · constructor
      · intro _ pos t n hStarts' hField'
        cases hOnly pos hStarts'
        rw [hField] at hField'
        cases hField'
      · intro _
        exact ⟨nofun, hWellFormed⟩
  | some head =>
    obtain ⟨t, n⟩ := head
    have hField' := hField
    obtain ⟨t₀, data, extra, hBuf, _⟩ := (hWellFormed.field i (hNum ▸ hi)).image
    have hLength := (hWellFormed.field i (hNum ▸ hi)).length_le
    rw [hBuf, Field.image_length] at hLength
    have hSame := hKept i n
    have hCut : disk.length < byteCount + Field.overhead T + record.kept i n := by
      by_contra hFits
      exact hStop _ (hStarts.next hField (by omega))
    have hFitsIff : FieldFits T r disk i ↔ record.kept i n ≤ (data ++ extra).length := by
      have hBytes : (r.fieldBuf i).length = Field.overhead T + (data ++ extra).length := by
        rw [← hRest i le_rfl, hBuf, Field.image_length]
      constructor
      · intro hFits
        have hPlace := hFits byteCount t n hStarts hField
        omega
      · intro hFits pos t' n' hStarts' hField'
        cases hOnly pos hStarts'
        rw [hField] at hField'
        cases hField'
        right
        omega
    rw [hFitsIff]
    by_cases hFits : record.kept i n ≤ (data ++ extra).length
    · refine ⟨_, readField_cut hDisk hField hBuf hLength hCut hFits, nofun, ?_⟩
      apply iff_of_true _ hFits
      exact ⟨nofun, hWellFormed.set (Field.wellFormed_image hFits hLength)⟩
    · -- the buffer does not hold what is counted, or there is no record left
      have hMalformed : ¬ (record.setBuf i
          (Field.image T t (record.kept i n) (data ++ extra))).WellFormed T := by
        intro hWell
        have hField := hWell.field i (hNum ▸ hi)
        rw [fieldBuf_setBuf (by have := hWellFormed.numFields_le; omega), if_pos rfl] at hField
        obtain ⟨t', n', hCount, hHolds⟩ := hField.holds
        rw [Field.header_image (kept_lt hField')] at hCount
        cases hCount
        rw [Field.image_length] at hHolds
        omega
      have hWord : 256 ^ T.wordSize ≤ 2 ^ 64 := by cases T <;> decide
      have hLt := kept_lt (r := record) (i := i) hField'
      obtain hRead | ⟨r', hRead⟩ | hRead :=
        readField_cut_long hDisk hField' hBuf hLength hCut (by omega) (by omega)
      · exact ⟨_, hRead, nofun, iff_of_false (fun h => hMalformed h.2) hFits⟩
      · exact ⟨_, hRead, nofun, iff_of_false id hFits⟩
      · exact ⟨_, hRead, nofun, iff_of_false id hFits⟩

/-- A run over the fields that are left. -/
theorem Reached.readFields_sound (hDisk : disk.length ≤ vectorMax)
    (hHeader : headerSizeOf T ≤ disk.length) {s : ReadState} (h : Reached T r disk i s)
    (hn : i + n ≤ r.numFields) (hFits : ∀ j < i + n, FieldFits T r disk j) (complete : Prop) :
    match readFields T disk i n s with
    | .ok s => Reached T r disk (i + n) s
    | .error e => e.Sound T complete := by
  induction n generalizing i s with
  | zero => exact h
  | succ n ih =>
    rw [readFields]
    by_cases hNext : ∃ pos, Starts T r disk (i + 1) pos
    · obtain ⟨pos, hStarts⟩ := hNext
      cases hStarts with
      | next hStarts hField hComplete =>
        cases hStarts.unique h.starts
        obtain ⟨s', hRead, hReached, _⟩ := h.next hDisk (by omega) hField hComplete
        rw [hRead]
        have hRun := ih hReached (by omega) (by rwa [Nat.add_right_comm])
        rwa [Nat.add_right_comm, Nat.add_assoc] at hRun
    · obtain ⟨e, hRead, _, hSound⟩ :=
        h.stops hDisk hHeader (by omega) (not_exists.mp hNext) complete
      rw [hRead]
      exact hSound.mpr (hFits i (by omega))

/-- A run does not come back to the fields before it, and where it stops there is an error. -/
theorem Reached.readFields_before (hDisk : disk.length ≤ vectorMax)
    (hHeader : headerSizeOf T ≤ disk.length) {s : ReadState} (h : Reached T r disk i s)
    (hn : i + n ≤ r.numFields) :
    match readFields T disk i n s with
    | .ok s' => ∀ j < i, s'.record.fieldBuf j = s.record.fieldBuf j
    | .error e => ∀ r', e ≠ .returned .noError r' := by
  induction n generalizing i s with
  | zero => exact fun _ _ => rfl
  | succ n ih =>
    rw [readFields]
    by_cases hNext : ∃ pos, Starts T r disk (i + 1) pos
    · obtain ⟨pos, hStarts⟩ := hNext
      cases hStarts with
      | next hStarts hField hComplete =>
        cases hStarts.unique h.starts
        obtain ⟨s', hRead, hReached, _, _, hOther⟩ := h.next hDisk (by omega) hField hComplete
        have hRest := ih hReached (by omega)
        simp only [hRead, bind, Except.bind]
        split at hRest
        · intro j hj
          rw [hRest j (by omega), hOther j (by omega)]
        · exact hRest
    · obtain ⟨e, hRead, hError, _⟩ := h.stops hDisk hHeader (by omega) (not_exists.mp hNext) True
      rw [hRead]
      exact hError

/-- The record header, where the bytes reach to its end. -/
theorem loadDiskRecord_of_header (hNe : r.dbRecord ≠ []) (hHeader : headerSizeOf T ≤ disk.length) :
    r.loadDiskRecord T disk =
      if diskTable T disk ≠ tableCrc r.tableName then .returned .badTableId r
      else if r.numFields < diskFields T disk then .returned .badRecord r
      else
        match readFields T disk 0 (diskFields T disk) ⟨r, headerSizeOf T, headerSizeOf T⟩ with
        | .ok s => .returned .noError s.record
        | .error e => e := by
  rw [headerSizeOf] at hHeader
  rw [loadDiskRecord, if_neg hNe, peek_of_le (by omega), peek_of_le (by omega)]
  rfl

theorem loadDiskRecord_short (hNe : r.dbRecord ≠ []) (hShort : disk.length < headerSizeOf T) :
    r.loadDiskRecord T disk = .outside := by
  rw [headerSizeOf] at hShort
  have hFields : peek disk T.wordSize T.wordSize = none := peek_of_lt hShort
  rw [loadDiskRecord, if_neg hNe, hFields]
  cases peek disk 0 T.wordSize <;> rfl

/-- A load that comes to a field which does not fit. -/
theorem readFields_not_sound (hDisk : disk.length ≤ vectorMax) (hHeader : headerSizeOf T ≤ disk.length)
    (hRecord : r.WellFormed T) (hn : n ≤ r.numFields) (hi : i < n) (hFits : ¬ FieldFits T r disk i)
    (complete : Prop) :
    ∃ e, readFields T disk 0 n ⟨r, headerSizeOf T, headerSizeOf T⟩ = .error e ∧
      ¬ e.Sound T complete := by
  have hParts : ∃ pos, Starts T r disk i pos ∧ ∀ pos, ¬ Starts T r disk (i + 1) pos := by
    simp only [FieldFits, not_forall, not_or] at hFits
    obtain ⟨pos, t, n, hStarts, hField, hCut, _⟩ := hFits
    refine ⟨pos, hStarts, fun pos' hNext => ?_⟩
    cases hNext with
    | next hStarts' hField' hComplete =>
      cases hStarts.unique hStarts'
      rw [hField] at hField'
      cases hField'
      exact hCut hComplete
  obtain ⟨pos, hStarts, hStop⟩ := hParts
  obtain ⟨s, hRun, hReached, _⟩ := hStarts.reached hDisk hRecord (by omega)
  obtain ⟨e, hRead, _, hSound⟩ := hReached.stops hDisk hHeader (by omega) hStop complete
  refine ⟨e, ?_, fun h => hFits (hSound.mp h)⟩
  obtain ⟨m, rfl⟩ : ∃ m, n = i + (m + 1) := ⟨n - i - 1, by omega⟩
  rw [readFields_append, hRun, Except.bind, Nat.zero_add, readFields, hRead]
  rfl

/-- `LoadDiskRecord` on any bytes. -/
theorem loadDiskRecord_sound_iff (T : IntTypes) (r : Record) (hRecord : r.WellFormed T)
    (disk : List UInt8) (hDisk : disk.length ≤ vectorMax) :
    (r.loadDiskRecord T disk).Sound T (r.Complete T disk) ↔
      (r.dbRecord ≠ [] → r.LoadsSafely T disk) := by
  by_cases hNe : r.dbRecord = []
  · rw [loadDiskRecord, if_pos hNe]
    exact iff_of_true ⟨nofun, hRecord⟩ fun h => absurd hNe h
  rw [forall_prop_of_true hNe]
  by_cases hHeader : headerSizeOf T ≤ disk.length
  · rw [loadDiskRecord_of_header hNe hHeader]
    by_cases hTable : diskTable T disk = tableCrc r.tableName
    · by_cases hCount : diskFields T disk ≤ r.numFields
      · rw [if_neg (not_not_intro hTable), if_neg (by omega)]
        by_cases hFits : ∀ i < diskFields T disk, FieldFits T r disk i
        · apply iff_of_true _ ⟨hHeader, fun _ _ => hFits⟩
          have hRun := (Reached.first hRecord).readFields_sound hDisk hHeader
            (n := diskFields T disk) (by omega) (by rwa [Nat.zero_add]) (r.Complete T disk)
          split at hRun
          next s _ =>
            rw [Nat.zero_add] at hRun
            exact ⟨fun _ => ⟨hHeader, _, hRun.starts⟩, hRun.wellFormed⟩
          next => exact hRun
        · refine iff_of_false ?_ fun h => hFits (h.2 hTable hCount)
          obtain ⟨i, hi, hNot⟩ : ∃ i < diskFields T disk, ¬ FieldFits T r disk i := by
            simpa using hFits
          obtain ⟨e, hRead, hSound⟩ :=
            readFields_not_sound hDisk hHeader hRecord hCount hi hNot (r.Complete T disk)
          rw [hRead]
          exact hSound
      · rw [if_neg (not_not_intro hTable), if_pos (by omega)]
        exact iff_of_true ⟨nofun, hRecord⟩ ⟨hHeader, fun _ h => absurd h hCount⟩
    · rw [if_pos hTable]
      exact iff_of_true ⟨nofun, hRecord⟩ ⟨hHeader, fun h => absurd h hTable⟩
  · rw [loadDiskRecord_short hNe (by omega)]
    exact iff_of_false id fun h => hHeader h.1

/-- A table with a name of one character and one field, for one character. -/
def charRecord : Record where
  tableName := [116]
  recordDef := [116, 44, 67, 72, 65, 82]
  numFields := 1
  dbRecord := [Field.image .native 1 1 [0]]
  excludeFields := []

theorem charRecord_created : (⟨[], [], 0, [], []⟩ : Record).createRecord .native [116]
    [116, 44, 67, 72, 65, 82] [⟨.char, none⟩] = some charRecord := by
  decide +kernel

theorem charRecord_wellFormed : charRecord.WellFormed .native :=
  createRecord_wellFormed charRecord_created

theorem loadDiskRecord_sound_iff_charRecord :
    (charRecord.loadDiskRecord .native [0, 0, 0]).Sound .native (charRecord.Complete .native [0, 0, 0]) ↔
      (charRecord.dbRecord ≠ [] → charRecord.LoadsSafely .native [0, 0, 0]) :=
  loadDiskRecord_sound_iff .native charRecord charRecord_wellFormed [0, 0, 0] (by decide)

/-- A byte string that ends behind the number of bytes of its field, 100. -/
def cutOffRecord : List UInt8 :=
  headerBytes .native (tableCrc [116]) 1 ++ Field.image .native 1 100 []

/-- Three bytes are read as a header of sixteen; a field that is cut off leaves its count of 100
bytes in a buffer for one. -/
theorem loadDiskRecord_not_sound :
    charRecord.WellFormed .native ∧
      ¬ (charRecord.loadDiskRecord .native [0, 0, 0]).Sound .native
        (charRecord.Complete .native [0, 0, 0]) ∧
      ¬ (charRecord.loadDiskRecord .native cutOffRecord).Sound .native
        (charRecord.Complete .native cutOffRecord) := by
  refine ⟨charRecord_wellFormed, ?_, ?_⟩
  · rw [loadDiskRecord_short (by decide) (by decide)]
    exact id
  · have hLoad : charRecord.loadDiskRecord .native cutOffRecord = .returned .badRecord
        { charRecord with dbRecord := [Field.image .native 1 100 [0]] } := by
      decide +kernel
    rw [hLoad]
    rintro ⟨_, hWellFormed⟩
    obtain ⟨typeId, numBytes, hHeader, hHolds⟩ := (hWellFormed.field 0 (by decide)).holds
    have hCount : Field.header .native (Field.image .native 1 100 [0]) = some (1, 100) :=
      Field.header_image (by decide)
    cases hCount.symm.trans hHeader
    rw [fieldBuf, List.getD_cons_zero, Field.image_length] at hHolds
    revert hHolds
    decide

end Record

end DataReel
