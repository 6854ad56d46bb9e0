import DataReel.Table.ReadRecord

/-! # Records that are written and read

The bytes that `CreateDiskRecord` makes, field after field, and what `LoadDiskRecord` gets
back from them. A field that only the reader excludes is passed by its header alone: the
reader goes on in front of its data.
-/

namespace DataReel

namespace Record

variable {T : IntTypes} {a b r : Record} {disk p tail : List UInt8} {i j n pos : Nat} {t : UInt8}

/-- The number of bytes of a field. -/
def count (T : IntTypes) (a : Record) (i : Nat) : Nat :=
  ((Field.header T (a.fieldBuf i)).map Prod.snd).getD 0

/-- A field as it is on disk. -/
def diskField (T : IntTypes) (a : Record) (i : Nat) : List UInt8 :=
  Field.image T ((a.fieldBuf i).headD 0) (a.kept i (a.count T i))
    (((a.fieldBuf i).drop (Field.overhead T)).take (a.kept i (a.count T i)))

/-- The fields from `i` on. -/
def diskFieldsFrom (T : IntTypes) (a : Record) : Nat → Nat → List UInt8
  | _, 0 => []
  | i, n + 1 => a.diskField T i ++ diskFieldsFrom T a (i + 1) n

/-- The bytes that the fields from `i` on take. -/
def sizeFrom (T : IntTypes) (a : Record) : Nat → Nat → Nat
  | _, 0 => 0
  | i, n + 1 => Field.overhead T + a.count T i + sizeFrom T a (i + 1) n

/-- The length of the disk record. -/
def diskLength (T : IntTypes) (a : Record) : Nat := a.sizeFrom T 0 a.numFields + headerSizeOf T

theorem kept_le : a.kept i n ≤ n := by
  rw [kept]
  split <;> omega

/-! ## Writing -/

/-- A field, its count and its bytes on disk. -/
theorem WellFormed.parts (h : a.WellFormed T) (hi : i < a.numFields) :
    ∃ t data extra, a.fieldBuf i = Field.image T t data.length (data ++ extra) ∧
      data.length < 256 ^ T.wordSize ∧ a.count T i = data.length ∧
      a.diskField T i = Field.image T t (a.kept i data.length) (data.take (a.kept i data.length)) := by
  obtain ⟨t, data, extra, hBuf, hBytes⟩ := (h.field i hi).image
  have hCount : a.count T i = data.length := by
    rw [count, hBuf, Field.header_image hBytes]
    rfl
  have hData : (a.fieldBuf i).drop (Field.overhead T) = data ++ extra := by
    rw [hBuf, Field.image, ← List.cons_append, List.drop_left' Field.overhead_eq]
  refine ⟨t, data, extra, hBuf, hBytes, hCount, ?_⟩
  rw [diskField, hCount, hData, List.take_append_of_le_length kept_le, hBuf]
  rfl

theorem diskField_length (h : a.WellFormed T) (hi : i < a.numFields) :
    (a.diskField T i).length = Field.overhead T + a.kept i (a.count T i) := by
  obtain ⟨t, data, extra, hBuf, hBytes, hCount, hField⟩ := h.parts hi
  have hLe : a.kept i data.length ≤ data.length := kept_le
  rw [hField, Field.image_length, List.length_take, hCount]
  omega

theorem diskFieldsFrom_length_le (h : a.WellFormed T) (hn : i + n ≤ a.numFields) :
    (a.diskFieldsFrom T i n).length ≤ a.sizeFrom T i n := by
  induction n generalizing i with
  | zero => exact le_rfl
  | succ n ih =>
    have hLe : a.kept i (a.count T i) ≤ a.count T i := kept_le
    have hField := diskField_length h (show i < a.numFields by omega)
    have hRest := ih (i := i + 1) (by omega)
    rw [diskFieldsFrom, sizeFrom, List.length_append]
    omega

theorem le_diskFieldsFrom_length (h : a.WellFormed T) (hn : i + n ≤ a.numFields) :
    n * Field.overhead T ≤ (a.diskFieldsFrom T i n).length := by
  induction n generalizing i with
  | zero => simp
  | succ n ih =>
    have hField := diskField_length h (show i < a.numFields by omega)
    have hRest := ih (i := i + 1) (by omega)
    rw [diskFieldsFrom, List.length_append, Nat.succ_mul]
    omega

theorem sizeOf_eq (h : a.WellFormed T) (hNe : a.dbRecord ≠ []) :
    a.sizeOf T = some (a.sizeFrom T 0 a.numFields % 2 ^ 64) := by
  have hHeaders : ∀ n i, i + n ≤ a.numFields → ∃ headers,
      ((a.dbRecord.drop i).take n).mapM (Field.header T) = some headers ∧
        (headers.map fun h => Field.overhead T + h.2).sum = a.sizeFrom T i n := by
    intro n
    induction n with
    | zero =>
      intro i _
      exact ⟨[], by rw [List.take_zero, List.mapM_nil]; rfl, rfl⟩
    | succ n ih =>
      intro i hn
      have hLength := h.numFields_le
      have hIndex : i < a.dbRecord.length := by omega
      obtain ⟨t, data, extra, hBuf, hBytes, hCount, _⟩ := h.parts (show i < a.numFields by omega)
      obtain ⟨headers, hRest, hSum⟩ := ih (i + 1) (by omega)
      have hFirst : a.dbRecord[i] = Field.image T t data.length (data ++ extra) := by
        rw [← hBuf, fieldBuf, List.getD_eq_getElem _ _ hIndex]
      refine ⟨(t, data.length) :: headers, ?_, ?_⟩
      · rw [List.drop_eq_getElem_cons hIndex, List.take_succ_cons, List.mapM_cons, hFirst,
          Field.header_image hBytes, hRest]
        rfl
      · rw [List.map_cons, List.sum_cons, hSum, sizeFrom, hCount]
  have hPos := h.numFields_pos hNe
  obtain ⟨headers, hAll, hSum⟩ := hHeaders a.numFields 0 (by omega)
  rw [List.drop_zero] at hAll
  rw [sizeOf, if_neg (by simp only [not_or]; exact ⟨hNe, by omega⟩)]
  simp only [hAll, Option.bind_eq_bind, Option.bind_some, hSum]
  rfl

/-- One turn of the writer, in front of zeros that hold the field. -/
theorem writeField_eq (h : a.WellFormed T) (hi : i < a.numFields) {m fieldLen : Nat}
    (hm : Field.overhead T + a.kept i (a.count T i) ≤ m) (hLen : fieldLen ≤ p.length) :
    ∃ fieldLen', a.writeField T i ⟨p ++ List.replicate m 0, p.length, fieldLen⟩ =
        some ⟨p ++ a.diskField T i ++ List.replicate (m - (a.diskField T i).length) 0,
          (p ++ a.diskField T i).length, fieldLen'⟩ ∧ fieldLen' ≤ (p ++ a.diskField T i).length := by
  obtain ⟨t, data, extra, hBuf, hBytes, hCount, hField⟩ := h.parts hi
  obtain ⟨k, hk⟩ : ∃ k, a.kept i data.length = k := ⟨_, rfl⟩
  have hKept : k ≤ data.length := hk ▸ kept_le
  rw [hCount, hk] at hm
  have hEnd : Field.overhead T = 1 + T.wordSize := rfl
  have hWord : (Bytes.leBytes T.wordSize k).length = T.wordSize := Bytes.leBytes_length
  have hTake : (data.take k).length = k := by
    rw [List.length_take]
    omega
  have hType : poke (p ++ List.replicate m (0 : UInt8)) p.length [t] =
      some ((p ++ [t]) ++ List.replicate (m - 1) 0) :=
    poke_replicate rfl (by rw [List.length_singleton]; omega)
  have hCount' : poke ((p ++ [t]) ++ List.replicate (m - 1) (0 : UInt8)) (p.length + 1)
      (Bytes.leBytes T.wordSize k) = some (((p ++ [t]) ++ Bytes.leBytes T.wordSize k) ++
        List.replicate (m - 1 - T.wordSize) 0) := by
    rw [poke_replicate (by simp) (by omega), hWord]
  have hPeek : peek (a.fieldBuf i) (Field.overhead T) k = some (data.take k) := by
    rw [hBuf, Field.peek_data (by simp; omega), List.take_append_of_le_length hKept]
  rw [hField, hk]
  simp only [writeField, hBuf, Field.header_image hBytes, Option.bind_eq_bind, Option.bind_some,
    hType, kept_eq, hk, hCount']
  rw [← hBuf, hPeek]
  by_cases hZero : k = 0
  · subst hZero
    refine ⟨fieldLen, ?_, ?_⟩
    · rw [if_pos rfl]
      simp [Field.image, Bytes.leBytes_length, Nat.sub_sub, Nat.add_assoc, Nat.add_comm]
    · simp only [List.length_append]
      omega
  · have hData : poke (((p ++ [t]) ++ Bytes.leBytes T.wordSize k) ++
          List.replicate (m - 1 - T.wordSize) 0) (p.length + 1 + T.wordSize) (data.take k) =
        some ((((p ++ [t]) ++ Bytes.leBytes T.wordSize k) ++ data.take k) ++
          List.replicate (m - 1 - T.wordSize - k) 0) := by
      rw [poke_replicate (by simp [hWord]; omega) (by omega), hTake]
    have hLong : ¬ (((p ++ [t]) ++ Bytes.leBytes T.wordSize k) ++
        List.replicate (m - 1 - T.wordSize) (0 : UInt8)).length < fieldLen + (Field.overhead T + k) := by
      simp only [List.length_append, List.length_singleton, hWord, List.length_replicate]
      omega
    rw [if_neg hZero, if_neg hLong, Option.bind_some, hData]
    refine ⟨fieldLen + (Field.overhead T + k), ?_, ?_⟩
    · simp [Field.image, Bytes.leBytes_length, hTake, Nat.sub_sub, Nat.add_assoc, Nat.add_comm]
      constructor <;> omega
    · simp only [List.length_append, Field.image_length, hTake]
      omega

theorem writeFields_eq (h : a.WellFormed T) (hn : i + n ≤ a.numFields) {m fieldLen : Nat}
    (hm : a.sizeFrom T i n ≤ m) (hLen : fieldLen ≤ p.length) :
    ∃ s, a.writeFields T i n ⟨p ++ List.replicate m 0, p.length, fieldLen⟩ = some s ∧
      s.diskRecord = p ++ a.diskFieldsFrom T i n ++
        List.replicate (m - (a.diskFieldsFrom T i n).length) 0 := by
  induction n generalizing i p m fieldLen with
  | zero =>
    refine ⟨_, rfl, ?_⟩
    simp [diskFieldsFrom]
  | succ n ih =>
    have hi : i < a.numFields := by omega
    have hLength := diskField_length h hi
    have hKept : a.kept i (a.count T i) ≤ a.count T i := kept_le
    rw [sizeFrom] at hm
    obtain ⟨fieldLen', hWrite, hLen'⟩ := writeField_eq (m := m) h hi (by omega) hLen
    obtain ⟨s, hRest, hDisk⟩ := ih (i := i + 1) (m := m - (a.diskField T i).length) (by omega)
      (by omega) hLen'
    refine ⟨s, ?_, ?_⟩
    · rw [writeFields, hWrite]
      exact hRest
    · rw [hDisk, diskFieldsFrom, List.length_append, Nat.sub_sub, List.append_assoc p]

theorem headerBytes_length {tableId numFields : Nat} :
    (headerBytes T tableId numFields).length = headerSizeOf T := by
  rw [headerBytes, List.length_append, Bytes.leBytes_length, Bytes.leBytes_length, headerSizeOf]

/-- The disk record: the header, the fields and a zero for each byte that was excluded. -/
theorem createDiskRecord_eq (h : a.WellFormed T) (hNe : a.dbRecord ≠ [])
    (hMax : a.diskLength T ≤ vectorMax) :
    ∃ disk tail, a.createDiskRecord T = some (.ok disk) ∧ disk.length = a.diskLength T ∧
      disk = headerBytes T (tableCrc a.tableName) a.numFields ++
        (a.diskFieldsFrom T 0 a.numFields ++ tail) := by
  have hWord : vectorMax < 2 ^ 64 := by decide
  rw [diskLength] at hMax
  have hSize : a.sizeFrom T 0 a.numFields % 2 ^ 64 = a.sizeFrom T 0 a.numFields :=
    Nat.mod_eq_of_lt (by omega)
  have hLength : (a.sizeFrom T 0 a.numFields + headerSizeOf T) % 2 ^ 64 =
      a.sizeFrom T 0 a.numFields + headerSizeOf T := Nat.mod_eq_of_lt (by omega)
  have hHeader : poke (List.replicate (a.sizeFrom T 0 a.numFields + headerSizeOf T) (0 : UInt8)) 0
      (headerBytes T (tableCrc a.tableName) a.numFields) =
        some (headerBytes T (tableCrc a.tableName) a.numFields ++
          List.replicate (a.sizeFrom T 0 a.numFields) 0) := by
    have hFits : (headerBytes T (tableCrc a.tableName) a.numFields).length ≤
        a.sizeFrom T 0 a.numFields + headerSizeOf T := by
      rw [headerBytes_length]
      omega
    have hPoke : poke ([] ++ List.replicate _ (0 : UInt8)) 0 _ = _ := poke_replicate rfl hFits
    rwa [headerBytes_length, Nat.add_sub_cancel] at hPoke
  obtain ⟨s, hRun, hDisk⟩ := writeFields_eq (p := headerBytes T (tableCrc a.tableName) a.numFields) h
    (Nat.zero_add a.numFields).le le_rfl (Nat.zero_le _)
  rw [headerBytes_length] at hRun
  refine ⟨s.diskRecord, _, ?_, ?_, by rw [hDisk, List.append_assoc]⟩
  · rw [createDiskRecord, if_neg hNe, sizeOf_eq h hNe]
    simp only [Option.bind_eq_bind, Option.bind_some, hSize, hLength]
    rw [if_neg (by omega), hHeader, Option.bind_some, hRun]
    rfl
  · have hFields := diskFieldsFrom_length_le h (Nat.zero_add a.numFields).le
    rw [hDisk, diskLength, List.length_append, List.length_append, headerBytes_length,
      List.length_replicate]
    omega

/-! ## Reading -/

/-- The reader in front of fields that it excludes goes by their headers. -/
theorem Reached.readFields_excluded (hDisk : disk.length ≤ vectorMax) {s : ReadState}
    (h : Reached T b disk i s) (hn : i + n ≤ b.numFields) (hExclude : ∀ j, i ≤ j → j < i + n → b.Excludes j)
    (hBytes : s.bufOffset + n * Field.overhead T ≤ disk.length) :
    ∃ s', readFields T disk i n s = .ok s' ∧ ∀ j < i, s'.record.fieldBuf j = s.record.fieldBuf j := by
  induction n generalizing i s with
  | zero => exact ⟨s, rfl, fun _ _ => rfl⟩
  | succ n ih =>
    rw [Nat.succ_mul] at hBytes
    have hKept : ∀ m, b.kept i m = 0 := fun m => if_pos (hExclude i le_rfl (by omega))
    have hLong : Field.overhead T ≤ (disk.drop s.bufOffset).length := by
      rw [List.length_drop]
      omega
    obtain ⟨t, m, space, hImage, hWord⟩ := Field.header_of_le hLong
    have hHeader : Field.header T (disk.drop s.bufOffset) = some (t, m) := by
      rw [hImage, Field.header_image hWord]
    obtain ⟨s', hRead, hReached, hOffset, _, hOther⟩ :=
      h.next hDisk (by omega) hHeader (by rw [hKept]; omega)
    rw [hKept] at hOffset
    obtain ⟨s'', hRun, hRest⟩ := ih hReached (by omega) (fun j hj hj' => hExclude j (by omega) (by omega))
      (by omega)
    refine ⟨s'', ?_, ?_⟩
    · rw [readFields, hRead]
      exact hRun
    · intro j hj
      rw [hRest j (by omega), hOther j (by omega)]

/-- No field that the reader alone excludes, and that has data, comes before one that it reads. -/
def InStep (T : IntTypes) (a b : Record) : Prop :=
  ∀ i j, i < j → j < a.numFields → b.Excludes i → ¬ a.Excludes i → a.count T i ≠ 0 → b.Excludes j

/-- A field that neither side excludes is read as it was written. -/
def Agree (T : IntTypes) (a b r : Record) (i : Nat) : Prop :=
  ¬ a.Excludes i → ¬ b.Excludes i →
    Field.contents T (r.fieldBuf i) = Field.contents T (a.fieldBuf i)

/-- One field that the reader takes as it was written. -/
theorem Reached.readField_agree (hDisk : disk.length ≤ vectorMax) (ha : a.WellFormed T) {s : ReadState}
    (h : Reached T b disk i s) (hi : i < a.numFields) (hNum : b.numFields = a.numFields)
    (hLayout : disk = p ++ (a.diskField T i ++ tail)) (hOffset : s.bufOffset = p.length)
    (hKeeps : b.kept i (a.kept i (a.count T i)) = a.kept i (a.count T i)) :
    ∃ s', readField T disk i s = .ok s' ∧ Reached T b disk (i + 1) s' ∧
      s'.bufOffset = (p ++ a.diskField T i).length ∧ Agree T a b s'.record i ∧
      ∀ j ≠ i, s'.record.fieldBuf j = s.record.fieldBuf j := by
  obtain ⟨t, data, extra, hBuf, hBytes, hCount, hField⟩ := ha.parts hi
  have hLength := diskField_length ha hi
  rw [hCount] at hKeeps hLength
  have hKept : a.kept i data.length ≤ data.length := kept_le
  have hRest : disk.drop s.bufOffset = a.diskField T i ++ tail := by
    rw [hLayout, hOffset, List.drop_left]
  have hHeader : Field.header T (disk.drop s.bufOffset) = some (t, a.kept i data.length) := by
    rw [hRest, hField, Field.image, List.cons_append, List.append_assoc, ← Field.image]
    exact Field.header_image (by omega)
  have hData : disk.drop (s.bufOffset + Field.overhead T) =
      data.take (a.kept i data.length) ++ tail := by
    rw [← List.drop_drop, hRest, hField, Field.image, ← List.cons_append, List.append_assoc,
      List.drop_left' Field.overhead_eq]
  have hTotal : disk.length = p.length + (Field.overhead T + a.kept i data.length + tail.length) := by
    rw [hLayout, List.length_append, List.length_append, hLength]
  obtain ⟨s', hRead, hReached, hOffset', ⟨extra', hStored⟩, hOther⟩ :=
    h.next hDisk (by omega) hHeader (by rw [hKeeps]; omega)
  rw [hKeeps] at hOffset' hStored
  refine ⟨s', hRead, hReached, ?_, ?_, hOther⟩
  · rw [hOffset', hOffset, List.length_append, hLength]
    omega
  · intro hWrite _
    have hAll : a.kept i data.length = data.length := if_neg hWrite
    rw [hStored, hData, hAll, List.take_length, List.take_left, hBuf, Field.contents_image hBytes,
      Field.contents_image hBytes]

theorem diskFieldsFrom_append {m : Nat} : a.diskFieldsFrom T i (n + m) =
    a.diskFieldsFrom T i n ++ a.diskFieldsFrom T (i + n) m := by
  induction n generalizing i with
  | zero =>
    rw [Nat.zero_add]
    rfl
  | succ n ih =>
    rw [Nat.succ_add, diskFieldsFrom, diskFieldsFrom, ih, List.append_assoc, Nat.add_right_comm,
      Nat.add_assoc]

/-- The reader takes as many bytes for the field as the writer gave it. -/
def Keeps (T : IntTypes) (a b : Record) (i : Nat) : Prop :=
  b.kept i (a.kept i (a.count T i)) = a.kept i (a.count T i)

theorem not_keeps_iff : ¬ Keeps T a b i ↔ b.Excludes i ∧ ¬ a.Excludes i ∧ a.count T i ≠ 0 := by
  by_cases hReader : b.Excludes i
  · by_cases hWriter : a.Excludes i
    · simp [Keeps, kept, hReader, hWriter]
    · simp [Keeps, kept, hReader, hWriter, eq_comm]
  · simp [Keeps, kept, hReader]

/-- A run over fields that the reader and the writer go over in step. -/
theorem Reached.readFields_keeps (hDisk : disk.length ≤ vectorMax) (ha : a.WellFormed T) {s : ReadState}
    (h : Reached T b disk i s) (hn : i + n ≤ a.numFields) (hNum : b.numFields = a.numFields)
    (hKeeps : ∀ j, i ≤ j → j < i + n → Keeps T a b j)
    (hLayout : disk = p ++ (a.diskFieldsFrom T i n ++ tail)) (hOffset : s.bufOffset = p.length)
    (hAgree : ∀ j < i, Agree T a b s.record j) :
    ∃ s', readFields T disk i n s = .ok s' ∧ Reached T b disk (i + n) s' ∧
      s'.bufOffset = (p ++ a.diskFieldsFrom T i n).length ∧
      ∀ j < i + n, Agree T a b s'.record j := by
  induction n generalizing i s p with
  | zero =>
    rw [diskFieldsFrom, List.append_nil]
    exact ⟨s, rfl, h, hOffset, hAgree⟩
  | succ n ih =>
    rw [diskFieldsFrom, List.append_assoc] at hLayout
    obtain ⟨s', hRead, hReached, hOffset', hField, hOther⟩ :=
      h.readField_agree hDisk ha (by omega) hNum hLayout hOffset (hKeeps i le_rfl (by omega))
    rw [← List.append_assoc] at hLayout
    have hAgree' : ∀ j < i + 1, Agree T a b s'.record j := by
      intro j hj
      by_cases hji : j = i
      · rw [hji]
        exact hField
      · rw [Agree, hOther j hji]
        exact hAgree j (by omega)
    obtain ⟨s'', hRun, hReached', hOffset'', hAll⟩ := ih hReached (by omega)
      (fun j hj hj' => hKeeps j (by omega) (by omega)) hLayout hOffset' hAgree'
    rw [Nat.add_right_comm, Nat.add_assoc] at hAll hReached'
    refine ⟨s'', ?_, hReached', ?_, hAll⟩
    · rw [readFields, hRead]
      exact hRun
    · rw [hOffset'', diskFieldsFrom, List.append_assoc]

/-- A run over all fields: up to the first one that only the reader excludes the two go in step, and
from there on nothing else is read. -/
theorem Reached.readFields_agree (hDisk : disk.length ≤ vectorMax) (ha : a.WellFormed T) {s : ReadState}
    (h : Reached T b disk 0 s) (hNum : b.numFields = a.numFields) (hStep : InStep T a b)
    (hLayout : disk = p ++ (a.diskFieldsFrom T 0 a.numFields ++ tail))
    (hOffset : s.bufOffset = p.length) :
    ∃ s', readFields T disk 0 a.numFields s = .ok s' ∧ ∀ j < a.numFields, Agree T a b s'.record j := by
  have hNone : ∀ j < 0, Agree T a b s.record j := fun j hj => absurd hj (Nat.not_lt_zero j)
  by_cases hAll : ∀ j < a.numFields, Keeps T a b j
  · obtain ⟨s', hRun, _, _, hAgree⟩ := h.readFields_keeps hDisk ha (Nat.zero_add a.numFields).le hNum
      (fun j _ hj => hAll j (by omega)) hLayout hOffset hNone
    rw [Nat.zero_add] at hAgree
    exact ⟨s', hRun, hAgree⟩
  · have hFirst : ∃ k, k < a.numFields ∧ ¬ Keeps T a b k := by simpa using hAll
    classical
    obtain ⟨hk, hNot⟩ := Nat.find_spec hFirst
    have hBefore : ∀ j < Nat.find hFirst, Keeps T a b j := by
      intro j hj
      by_contra hKeeps
      exact Nat.find_min hFirst hj ⟨by omega, hKeeps⟩
    generalize Nat.find hFirst = k at hk hNot hBefore
    obtain ⟨m, hm⟩ : ∃ m, a.numFields = k + m := ⟨a.numFields - k, by omega⟩
    rw [hm, diskFieldsFrom_append, Nat.zero_add, List.append_assoc] at hLayout
    obtain ⟨s', hRun, hReached, hOffset', hAgree⟩ := h.readFields_keeps hDisk ha (by omega) hNum
      (fun j _ hj => hBefore j (by omega)) hLayout hOffset hNone
    rw [Nat.zero_add] at hReached hAgree
    obtain ⟨hReader, hWriter, hCount⟩ := not_keeps_iff.mp hNot
    have hExclude : ∀ j, k ≤ j → j < k + m → b.Excludes j := by
      intro j hj hj'
      obtain hEq | hLt := Nat.eq_or_lt_of_le hj
      · exact hEq ▸ hReader
      · exact hStep k j hLt (by omega) hReader hWriter hCount
    have hBytes : s'.bufOffset + m * Field.overhead T ≤ disk.length := by
      have hRest := le_diskFieldsFrom_length ha (show k + m ≤ a.numFields by omega)
      rw [hLayout, hOffset']
      simp only [List.length_append]
      omega
    obtain ⟨s'', hRun', hRest⟩ := hReached.readFields_excluded hDisk (by omega) hExclude hBytes
    refine ⟨s'', ?_, fun j hj => ?_⟩
    · rw [hm, readFields_append, hRun, Except.bind, Nat.zero_add]
      exact hRun'
    · by_cases hjk : j < k
      · rw [Agree, hRest j hjk]
        exact hAgree j hjk
      · exact fun _ hNot => absurd (hExclude j (by omega) (by omega)) hNot

/-! ## The round trip -/

/-- What `b` loads from the disk record of `a` has no error, and the fields agree. -/
def RoundTrips (T : IntTypes) (a b : Record) : Prop :=
  ∃ disk, a.createDiskRecord T = some (.ok disk) ∧
    ∃ r, b.loadDiskRecord T disk = .returned .noError r ∧ ∀ i < a.numFields, Agree T a b r i

theorem tableCrc_lt (tableName : List UInt8) : tableCrc tableName < 256 ^ T.wordSize := by
  have hWord : 2 ^ 32 ≤ 256 ^ T.wordSize := by cases T <;> decide
  have hCrc := calcCRC32_lt tableName
  have hPos : 0 < 2 ^ 32 := by decide
  rw [tableCrc]
  split <;> omega

/-- The disk record of `a` has a header that `b` accepts. -/
theorem loadDiskRecord_created (ha : a.WellFormed T) (hb : b.WellFormed T) (hNe : a.dbRecord ≠ [])
    (hTable : b.tableName = a.tableName) (hNum : b.numFields = a.numFields)
    (hLayout : disk = headerBytes T (tableCrc a.tableName) a.numFields ++ tail) :
    b.loadDiskRecord T disk =
      match readFields T disk 0 a.numFields ⟨b, headerSizeOf T, headerSizeOf T⟩ with
      | .ok s => .returned .noError s.record
      | .error e => e := by
  have hPos := ha.numFields_pos hNe
  have hNe' : b.dbRecord ≠ [] := by
    intro hNil
    have hLe := hb.numFields_le
    rw [hNil, List.length_nil] at hLe
    omega
  have hHeader : headerSizeOf T ≤ disk.length := by
    rw [hLayout, List.length_append, headerBytes_length]
    omega
  have hWord : (Bytes.leBytes T.wordSize (tableCrc a.tableName)).length = T.wordSize :=
    Bytes.leBytes_length
  have hWord' : (Bytes.leBytes T.wordSize a.numFields).length = T.wordSize := Bytes.leBytes_length
  have hTableId : diskTable T disk = tableCrc b.tableName := by
    rw [diskTable, hLayout, headerBytes, List.append_assoc, List.take_left' hWord,
      Bytes.leNat_leBytes (tableCrc_lt _), hTable]
  have hFields : diskFields T disk = a.numFields := by
    have hLt : a.numFields < 256 ^ T.wordSize := by
      have hMax := ha.numFields_max
      have hBound : recordMaxFields < 256 ^ T.wordSize := by cases T <;> decide
      omega
    rw [diskFields, hLayout, headerBytes, List.append_assoc, List.drop_left' hWord,
      List.take_left' hWord', Bytes.leNat_leBytes hLt]
  rw [loadDiskRecord_of_header hNe' hHeader, if_neg (not_not_intro hTableId), hFields]
  apply (if_neg (by omega)).trans
  cases readFields T disk 0 a.numFields ⟨b, headerSizeOf T, headerSizeOf T⟩ <;> rfl

theorem roundTrips_of_inStep (ha : a.WellFormed T) (hb : b.WellFormed T) (hNe : a.dbRecord ≠ [])
    (hTable : b.tableName = a.tableName) (hNum : b.numFields = a.numFields)
    (hMax : a.diskLength T ≤ vectorMax) (hStep : InStep T a b) : RoundTrips T a b := by
  obtain ⟨disk, tail, hCreate, hLength, hLayout⟩ := createDiskRecord_eq ha hNe hMax
  obtain ⟨s, hRun, hAgree⟩ := (Reached.first hb).readFields_agree (by omega) ha
    hNum hStep hLayout headerBytes_length.symm
  refine ⟨disk, hCreate, s.record, ?_, hAgree⟩
  rw [loadDiskRecord_created ha hb hNe hTable hNum hLayout, hRun]

/-- The first field that only the reader excludes, and that has data, comes right before one that both
sides have, and its data do not begin with the type of that field. -/
structure OutOfStep (T : IntTypes) (a b : Record) (i : Nat) : Prop where
  next : i + 1 < a.numFields
  before : ∀ j < i, Keeps T a b j
  reader : b.Excludes i
  writer : ¬ a.Excludes i
  count : a.count T i ≠ 0
  nextReader : ¬ b.Excludes (i + 1)
  nextWriter : ¬ a.Excludes (i + 1)
  type : (a.fieldBuf i).getD (Field.overhead T) 0 ≠ (a.fieldBuf (i + 1)).headD 0

/-- The reader takes the first byte of the data for the type of the next field. -/
theorem not_roundTrips (ha : a.WellFormed T) (hb : b.WellFormed T) (hNe : a.dbRecord ≠ [])
    (hTable : b.tableName = a.tableName) (hNum : b.numFields = a.numFields)
    (hMax : a.diskLength T ≤ vectorMax) (h : OutOfStep T a b i) : ¬ RoundTrips T a b := by
  have hNext := h.next
  obtain ⟨disk, tail, hCreate, hLength, hLayout⟩ := createDiskRecord_eq ha hNe hMax
  rintro ⟨disk', hCreate', r, hLoad, hAgree⟩
  cases hCreate.symm.trans hCreate'
  rw [loadDiskRecord_created ha hb hNe hTable hNum hLayout] at hLoad
  obtain ⟨m, hm⟩ : ∃ m, a.numFields = i + (m + 1 + 1) := ⟨a.numFields - i - 2, by omega⟩
  have hHeader : headerSizeOf T ≤ disk.length := by
    rw [hLayout, List.length_append, headerBytes_length]
    omega
  -- up to the field the two are in step
  rw [hm, diskFieldsFrom_append, Nat.zero_add, List.append_assoc, diskFieldsFrom,
    List.append_assoc, diskFieldsFrom] at hLayout
  obtain ⟨s, hRun, hReached, hOffset, _⟩ := (Reached.first hb).readFields_keeps (by omega) ha
    (show 0 + i ≤ a.numFields by omega) hNum (fun j _ hj => h.before j (by omega)) hLayout
    headerBytes_length.symm (fun j hj => absurd hj (Nat.not_lt_zero j))
  rw [Nat.zero_add] at hReached
  rw [hm, readFields_append, hRun, Except.bind, Nat.zero_add, readFields] at hLoad
  obtain ⟨t, data, extra, hBuf, hBytes, hCount, hField⟩ := ha.parts (show i < a.numFields by omega)
  obtain ⟨t', data', extra', hBuf', hBytes', _⟩ := ha.parts hNext
  have hAll : a.kept i data.length = data.length := if_neg h.writer
  rw [hAll, List.take_length] at hField
  -- the field itself is passed by its header
  have hRest : disk.drop s.bufOffset = a.diskField T i ++ (a.diskField T (i + 1) ++
      a.diskFieldsFrom T (i + 1 + 1) m ++ tail) := by
    rw [hLayout, ← List.append_assoc, hOffset, List.drop_left]
  have hHead : Field.header T (disk.drop s.bufOffset) = some (t, data.length) := by
    rw [hRest, hField, Field.image, List.cons_append, List.append_assoc, ← Field.image]
    exact Field.header_image hBytes
  have hKept : b.kept i data.length = 0 := if_pos h.reader
  have hLong := (readHeader_of_some (r := b) (by omega) hHead).1
  obtain ⟨s₁, hRead, hReached₁, hOffset₁, _⟩ :=
    hReached.next (by omega) (by omega) hHead (by rw [hKept]; omega)
  rw [hRead] at hLoad
  change (match readFields T disk (i + 1) (m + 1) s₁ with
    | .ok s => Loaded.returned .noError s.record
    | .error e => e) = _ at hLoad
  rw [readFields] at hLoad
  by_cases hStarts : ∃ pos, Starts T b disk (i + 1 + 1) pos
  · obtain ⟨pos, hStarts⟩ := hStarts
    cases hStarts with
    | next hStarts hHead₁ hComplete =>
      next n₁ t₁ =>
      cases hStarts.unique hReached₁.starts
      obtain ⟨s₂, hRead₂, hReached₂, _, ⟨extra₂, hStored⟩, _⟩ :=
        hReached₁.next (by omega) (by omega) hHead₁ hComplete
      rw [hRead₂] at hLoad
      change (match readFields T disk (i + 1 + 1) m s₂ with
        | .ok s => Loaded.returned .noError s.record
        | .error e => e) = _ at hLoad
      have hRun₂ := hReached₂.readFields_before (n := m) (by omega) hHeader (by omega)
      split at hRun₂
      next s' hOk =>
        rw [hOk] at hLoad
        cases hLoad
        have hContents := hAgree (i + 1) hNext h.nextWriter h.nextReader
        rw [hRun₂ (i + 1) (by omega), hStored, hBuf', Field.contents_image hBytes'] at hContents
        have hType : t₁ = t' := Field.typeId_of_contents hContents
        -- the type is the first byte of the data
        have hData : disk.drop s₁.bufOffset = data ++ (a.diskField T (i + 1) ++
            a.diskFieldsFrom T (i + 1 + 1) m ++ tail) := by
          rw [hOffset₁, hKept, Nat.add_zero, ← List.drop_drop, hRest, hField, Field.image,
            ← List.cons_append, List.append_assoc, List.drop_left' Field.overhead_eq]
        have hFirst := Field.typeId_of_header hHead₁
        have hPlace : (a.fieldBuf i).drop (Field.overhead T) = data ++ extra := by
          rw [hBuf, Field.image, ← List.cons_append, List.drop_left' Field.overhead_eq]
        have hByte : (a.fieldBuf i).getD (Field.overhead T) 0 =
            ((a.fieldBuf i).drop (Field.overhead T)).headD 0 := by
          rw [List.headD_eq_head?_getD, List.head?_drop, List.getD_eq_getElem?_getD]
        rw [hData] at hFirst
        apply h.type
        rw [hByte, hPlace, hBuf']
        cases data with
        | nil => exact absurd hCount h.count
        | cons x rest => exact hFirst.trans hType
      next e hError =>
        rw [hError] at hLoad
        exact hRun₂ r hLoad
  · obtain ⟨e, hRead₂, hError, _⟩ :=
      hReached₁.stops (by omega) hHeader (by omega) (not_exists.mp hStarts) True
    rw [hRead₂] at hLoad
    exact hError r hLoad

/-- Writing and reading, for any fields and any exclusions on the two sides. -/
theorem loadDiskRecord_createDiskRecord (T : IntTypes) (a b : Record) (ha : a.WellFormed T)
    (hb : b.WellFormed T) (hNe : a.dbRecord ≠ []) (hTable : b.tableName = a.tableName)
    (hNum : b.numFields = a.numFields) (hMax : a.diskLength T ≤ vectorMax) :
    (InStep T a b → RoundTrips T a b) ∧ ∀ i, OutOfStep T a b i → ¬ RoundTrips T a b := by
  constructor
  · exact roundTrips_of_inStep ha hb hNe hTable hNum hMax
  · intro i
    exact not_roundTrips ha hb hNe hTable hNum hMax

/-- Two fields of one character each, with `A` and `B` in them. -/
def twoChars (excludeFields : List Nat) : Record where
  tableName := [116]
  recordDef := [116, 44, 67, 72, 65, 82, 44, 67, 72, 65, 82]
  numFields := 2
  dbRecord := [Field.image .native 1 1 [65], Field.image .native 1 1 [66]]
  excludeFields := excludeFields

theorem twoChars_wellFormed (excludeFields : List Nat) :
    (twoChars excludeFields).WellFormed .native := by
  constructor
  · exact Nat.le_refl 2
  · exact (by decide : 2 ≤ recordMaxFields)
  · exact fun _ => Nat.two_pos
  · intro i hi
    have hCases : i = 0 ∨ i = 1 := by
      change i < 2 at hi
      omega
    obtain rfl | rfl := hCases
    · exact Field.wellFormed_image (by decide) (by decide)
    · exact Field.wellFormed_image (by decide) (by decide)

theorem loadDiskRecord_createDiskRecord_twoChars :
    (InStep .native (twoChars [1]) (twoChars [1]) →
        RoundTrips .native (twoChars [1]) (twoChars [1])) ∧
      ∀ i, OutOfStep .native (twoChars [1]) (twoChars [1]) i →
        ¬ RoundTrips .native (twoChars [1]) (twoChars [1]) :=
  loadDiskRecord_createDiskRecord .native (twoChars [1]) (twoChars [1]) (twoChars_wellFormed [1])
    (twoChars_wellFormed [1]) (by decide) rfl rfl (by decide +kernel)

/-- The first field is excluded on reading: its `A` becomes the type of the second one. -/
theorem loadDiskRecord_createDiskRecord_fails :
    (twoChars []).WellFormed .native ∧ (twoChars [0]).WellFormed .native ∧
      ¬ RoundTrips .native (twoChars []) (twoChars [0]) := by
  refine ⟨twoChars_wellFormed [], twoChars_wellFormed [0], ?_⟩
  apply not_roundTrips (i := 0) (twoChars_wellFormed []) (twoChars_wellFormed [0])
  · decide
  · rfl
  · rfl
  · decide +kernel
  · constructor
    · decide
    · exact fun j hj => absurd hj (Nat.not_lt_zero j)
    · decide
    · decide
    · decide +kernel
    · decide
    · decide
    · decide +kernel

end Record

end DataReel
