import DataReel.Table.CompareOrder
import DataReel.Table.RecordCalls
import DataReel.Table.Rows

/-! # Records in the files of a table

A table is a finite map from the addresses of blocks to records: its data file has a block for each of them
and no other in use, and each of its indexes has one key for each. Records match by a key field exactly if
its values are the same, whatever the checksums of other values are. A field that is set to data of the same
length changes the record on disk only where its data are.
-/

namespace DataReel

open Record (Alike OfTable WideFit)

/-! ## Values of key fields -/

namespace Record

variable {T : IntTypes} {c : Bool} {a b : Record} {i n field : Nat} {x y : UInt8 × List UInt8}
  {type : FieldType} {da db ia ib : List UInt8}

/-- The type of a field and the bytes that it adds to a key. -/
def typedImage (T : IntTypes) (c : Bool) (r : Record) (i : Nat) : Option (UInt8 × List UInt8) := do
  let (typeId, data) ← Field.contents T (r.fieldBuf i)
  let type ← FieldType.ofId typeId
  let image ← keyImage T c type data
  return (typeId, image)

theorem fieldImage_typed : a.fieldImage T c i = (a.typedImage T c i).map Prod.snd := by
  rw [fieldImage, typedImage]
  cases Field.contents T (a.fieldBuf i) with
  | none => rfl
  | some p =>
    simp only [Option.bind_eq_bind, Option.bind_some]
    cases FieldType.ofId p.1 with
    | none => rfl
    | some type =>
      rw [Option.bind_some, Option.bind_some]
      cases keyImage T c type p.2 <;> rfl

/-- The fields that a key is made of have the same types and the same values. -/
def SameKey (T : IntTypes) (c : Bool) (field : Nat) (a b : Record) : Prop :=
  if compareAll field a.numFields then ∀ i < a.numFields, a.typedImage T c i = b.typedImage T c i
  else a.typedImage T c field = b.typedImage T c field

instance : Decidable (SameKey T c field a b) :=
  inferInstanceAs (Decidable (if compareAll field a.numFields then
    ∀ i < a.numFields, a.typedImage T c i = b.typedImage T c i
    else a.typedImage T c field = b.typedImage T c field))

theorem fieldImages_congr (h : ∀ j, i ≤ j → j < i + n → a.typedImage T c j = b.typedImage T c j) :
    a.fieldImages T c i n = b.fieldImages T c i n := by
  induction n generalizing i with
  | zero => rfl
  | succ n ih =>
    rw [fieldImages, fieldImages, fieldImage_typed, fieldImage_typed, h i le_rfl (by omega),
      ih fun j hj hj' => h j (by omega) (by omega)]

theorem SameKey.keyImages (h : SameKey T c field a b) (hNum : a.numFields = b.numFields) :
    a.keyImages T c field = b.keyImages T c field := by
  rw [SameKey] at h
  rw [Record.keyImages, Record.keyImages, ← hNum]
  split at h
  · rename_i hAll
    rw [if_pos hAll, if_pos hAll]
    exact fieldImages_congr fun j _ hj => h j (by omega)
  · rename_i hOne
    rw [if_neg hOne, if_neg hOne]
    refine fieldImages_congr fun j hj hj' => ?_
    obtain rfl : j = field := by omega
    exact h

theorem keyDataMatch_iff (ha : keyImage T c type da = some ia) (hb : keyImage T c type db = some ib) :
    keyDataMatch T c type da db = true ↔ ia = ib := by
  cases type with
  | invalid => cases ha
  | blob =>
    rw [keyImage] at ha hb
    split at ha <;> split at hb <;> cases ha <;> cases hb
    exact iff_of_true rfl rfl
  | binary =>
    rw [keyImage] at ha hb
    split at ha <;> split at hb <;> cases ha <;> cases hb
    exact decide_eq_true_iff
  | char | vchar =>
    rw [keyImage] at ha hb
    split at ha <;> split at hb <;> cases ha <;> cases hb
    rw [keyDataMatch]
    split <;> exact decide_eq_true_iff
  | bool | int16 | int32 | int64 | float | currency | date =>
    simp only [keyImage] at ha hb
    split at ha <;> split at hb <;> cases ha <;> cases hb
    simp only [keyDataMatch, decide_eq_true_iff]
    exact and_iff_right (by omega)

theorem keyFieldMatch_eq (hNum : a.numFields = b.numFields) (hNe : a.dbRecord ≠ [])
    (hNe' : b.dbRecord ≠ []) (hi : i < a.numFields) (hx : a.typedImage T c i = some x)
    (hy : b.typedImage T c i = some y) : a.keyFieldMatch T b i c = some (decide (x = y)) := by
  have hIn : ¬ (a.dbRecord = [] ∨ b.dbRecord = [] ∨ a.numFields - 1 < i ∨ b.numFields - 1 < i) := by
    rintro (h | h | h | h)
    · exact hNe h
    · exact hNe' h
    · omega
    · omega
  rw [typedImage] at hx hy
  simp only [Option.bind_eq_bind, Option.bind_eq_some_iff] at hx hy
  obtain ⟨⟨t, da⟩, hContents, type, hType, image, hImage, hx⟩ := hx
  obtain ⟨⟨t', db⟩, hContents', type', hType', image', hImage', hy⟩ := hy
  obtain rfl := Option.some.inj hx
  obtain rfl := Option.some.inj hy
  rw [keyFieldMatch, if_neg hIn, hContents, hContents']
  simp only [Option.bind_eq_bind, Option.bind_some]
  by_cases hSame : t = t'
  · subst hSame
    dsimp only at hType hType' hImage hImage'
    obtain rfl := Option.some.inj (hType.symm.trans hType')
    rw [if_neg (not_not_intro rfl), hType]
    refine congrArg some ?_
    rw [Bool.eq_iff_iff, keyDataMatch_iff hImage hImage', decide_eq_true_iff, Prod.mk.injEq,
      and_iff_right rfl]
  · rw [if_pos hSame, decide_eq_false fun hEq => hSame (Prod.mk.inj hEq).1]
    rfl

theorem fieldImages_typed {images : List (List UInt8)} (h : a.fieldImages T c i n = some images) :
    ∀ j, i ≤ j → j < i + n → ∃ x, a.typedImage T c j = some x := by
  induction n generalizing i images with
  | zero => exact fun j _ _ => absurd ‹j < i + 0› (by omega)
  | succ n ih =>
    simp only [fieldImages, Option.bind_eq_bind, Option.bind_eq_some_iff] at h
    obtain ⟨bytes, hField, rest, hRest, -⟩ := h
    intro j hj hj'
    by_cases hFirst : j = i
    · subst hFirst
      rw [fieldImage_typed, Option.map_eq_some_iff] at hField
      obtain ⟨x, hx, -⟩ := hField
      exact ⟨x, hx⟩
    · exact ih hRest j (by omega) (by omega)

theorem keyFieldsFrom_eq (hNum : a.numFields = b.numFields) (hNe : a.dbRecord ≠ [])
    (hNe' : b.dbRecord ≠ []) (hn : i + n ≤ a.numFields)
    (ha : ∀ j, i ≤ j → j < i + n → ∃ x, a.typedImage T c j = some x)
    (hb : ∀ j, i ≤ j → j < i + n → ∃ x, b.typedImage T c j = some x) :
    ∃ v, a.keyFieldsFrom T b c i n = some v ∧
      (v = true ↔ ∀ j, i ≤ j → j < i + n → a.typedImage T c j = b.typedImage T c j) := by
  induction n generalizing i with
  | zero => exact ⟨true, rfl, iff_of_true rfl fun j _ _ => absurd ‹j < i + 0› (by omega)⟩
  | succ n ih =>
    obtain ⟨x, hx⟩ := ha i le_rfl (by omega)
    obtain ⟨y, hy⟩ := hb i le_rfl (by omega)
    rw [keyFieldsFrom, keyFieldMatch_eq hNum hNe hNe' (by omega) hx hy, Option.bind_eq_bind,
      Option.bind_some]
    by_cases hSame : x = y
    · obtain ⟨v, hRun, hv⟩ := ih (i := i + 1) (by omega) (fun j hj hj' => ha j (by omega) (by omega))
        fun j hj hj' => hb j (by omega) (by omega)
      rw [if_pos (decide_eq_true hSame)]
      refine ⟨v, hRun, hv.trans ⟨fun h j hj hj' => ?_, fun h j hj hj' => h j (by omega) (by omega)⟩⟩
      by_cases hFirst : j = i
      · rw [hFirst, hx, hy, hSame]
      · exact h j (by omega) (by omega)
    · rw [if_neg fun hTrue => hSame (of_decide_eq_true hTrue)]
      refine ⟨false, rfl, iff_of_false Bool.false_ne_true fun h => hSame ?_⟩
      exact Option.some.inj (hx.symm.trans ((h i le_rfl (by omega)).trans hy))

/-- Records that both have a key match exactly if its fields have the same values. -/
theorem keyFieldsMatch_eq (hNum : a.numFields = b.numFields) (hNe : a.dbRecord ≠ [])
    (hNe' : b.dbRecord ≠ []) (hField : field = 2 ^ 64 - 1 ∨ field < a.numFields)
    {images images' : List (List UInt8)} (ha : a.keyImages T c field = some images)
    (hb : b.keyImages T c field = some images') :
    ∃ v, a.keyFieldsMatch T b field c = some v ∧ (v = true ↔ SameKey T c field a b) := by
  rw [keyImages] at ha hb
  rw [← hNum] at hb
  rw [keyFieldsMatch, if_neg (not_not_intro hNum), SameKey]
  by_cases hAll : field = 2 ^ 64 - 1
  · have hCompare : compareAll field a.numFields = true := decide_eq_true (.inl hAll)
    rw [if_pos hCompare] at ha hb
    rw [if_neg (not_not_intro hAll), if_pos hCompare]
    obtain ⟨v, hRun, hv⟩ := keyFieldsFrom_eq (c := c) hNum hNe hNe' (Nat.zero_add a.numFields).le
      (fieldImages_typed ha) (fieldImages_typed hb)
    exact ⟨v, hRun, hv.trans ⟨fun h j hj => h j (Nat.zero_le j) (by omega),
      fun h j _ hj => h j (by omega)⟩⟩
  · have hIn := hField.resolve_left hAll
    have hCompare : ¬ compareAll field a.numFields = true := by
      rw [compareAll, decide_eq_true_eq]
      omega
    rw [if_neg hCompare] at ha hb
    obtain ⟨x, hx⟩ := fieldImages_typed ha field le_rfl (by omega)
    obtain ⟨y, hy⟩ := fieldImages_typed hb field le_rfl (by omega)
    rw [if_pos hAll, if_neg (by omega), if_neg hCompare, keyFieldMatch_eq hNum hNe hNe' hIn hx hy, hx, hy,
      Option.some_inj]
    exact ⟨_, rfl, decide_eq_true_iff⟩

/-! ## Records with the same contents -/

theorem typedImage_congr (h : Field.contents T (a.fieldBuf i) = Field.contents T (b.fieldBuf i)) :
    a.typedImage T c i = b.typedImage T c i := by
  rw [typedImage, typedImage, h]

theorem SameKey.of_alike (h : Alike T a b) (hField : field = 2 ^ 64 - 1 ∨ field < a.numFields) :
    SameKey T c field a b := by
  rw [SameKey]
  split
  · exact fun i hi => typedImage_congr (h.contents i hi)
  · rename_i hOne
    refine typedImage_congr (h.contents field (hField.resolve_left fun hAll => hOne ?_))
    exact decide_eq_true (.inl hAll)

theorem SameKey.symm (h : SameKey T c field a b) (hNum : a.numFields = b.numFields) :
    SameKey T c field b a := by
  rw [SameKey] at h ⊢
  rw [← hNum]
  split at h
  · rw [if_pos ‹_›]
    exact fun i hi => (h i hi).symm
  · rw [if_neg ‹_›]
    exact h.symm

theorem SameKey.trans {d : Record} (h : SameKey T c field a b) (h' : SameKey T c field b d)
    (hNum : a.numFields = b.numFields) : SameKey T c field a d := by
  rw [SameKey] at h h' ⊢
  rw [← hNum] at h'
  split at h
  · rw [if_pos ‹_›] at h' ⊢
    exact fun i hi => (h i hi).trans (h' i hi)
  · rw [if_neg ‹_›] at h' ⊢
    exact h.trans h'

theorem count_of_contents (ha : Field.WellFormed T (a.fieldBuf i)) (hb : Field.WellFormed T (b.fieldBuf i))
    (h : Field.contents T (a.fieldBuf i) = Field.contents T (b.fieldBuf i)) : a.count T i = b.count T i := by
  obtain ⟨t, data, extra, hBuf, hBytes⟩ := ha.image
  obtain ⟨t', data', extra', hBuf', hBytes'⟩ := hb.image
  rw [hBuf, hBuf', Field.contents_image hBytes, Field.contents_image hBytes'] at h
  cases h
  rw [count, count, hBuf, hBuf', Field.header_image hBytes, Field.header_image hBytes]

theorem sizeFrom_alike (h : Alike T a b) (hn : i + n ≤ a.numFields) :
    a.sizeFrom T i n = b.sizeFrom T i n := by
  induction n generalizing i with
  | zero => rfl
  | succ n ih =>
    have hNum := h.definition.numFields
    rw [sizeFrom, sizeFrom, ih (by omega), count_of_contents (h.left.field i (by omega))
      (h.right.field i (by omega)) (h.contents i (by omega))]

theorem diskLength_alike (h : Alike T a b) : a.diskLength T = b.diskLength T := by
  rw [diskLength, diskLength, sizeFrom_alike h (Nat.zero_add a.numFields).le, h.definition.numFields]

theorem WideFit.of_alike (h : Alike T a b) (hWide : WideFit T b) : WideFit T a := by
  intro i hi type hType
  obtain ⟨t, data, extra, extra', hBuf, hBuf', -⟩ := h.image hi
  refine hWide i (h.definition.numFields ▸ hi) type ?_
  rw [← hType, hBuf, hBuf']
  rfl

end Record

/-! ## A field on disk

Without excluded fields the disk record is its header and one field after another. -/

namespace Field

variable {T : IntTypes} {buf buf' data : List UInt8}

/-- Data that a vector holds can be set. -/
theorem setData_some (h : WellFormed T buf) (hMax : data.length + overhead T ≤ vectorMax) :
    ∃ buf', setData T buf data = some buf' := by
  obtain ⟨typeId, old, extra, rfl, hBytes⟩ := h.image
  simp only [setData, header_image hBytes, Option.bind_eq_bind, Option.bind_some]
  by_cases hSame : old.length = data.length
  · rw [if_pos hSame, poke_data (by simp [hSame])]
    exact ⟨_, rfl⟩
  · rw [if_neg hSame, poke_numBytes, Option.bind_some]
    by_cases hShorter : data.length ≤ old.length
    · rw [if_pos hShorter, poke_data (by simp; omega)]
      exact ⟨_, rfl⟩
    · rw [if_neg hShorter, if_neg (by omega), Nat.add_comm data.length, resize_image,
        poke_data (by rw [resize_length])]
      exact ⟨_, rfl⟩

theorem contents_setData (h : WellFormed T buf) (hSet : setData T buf data = some buf')
    (hBytes : data.length < 256 ^ T.wordSize) : contents T buf' = some (buf.headD 0, data) := by
  rw [← Record.setData_head hSet]
  obtain ⟨typeId, extra, rfl, -⟩ := setData_image h hSet
  rw [contents_image hBytes]
  rfl

end Field

namespace Record

variable {T : IntTypes} {r r' : Record} {i m n col : Nat} {data : List UInt8}

theorem kept_all (hAll : r.excludeFields = []) : r.kept i n = n := by
  rw [kept, if_neg]
  rw [Excludes, hAll]
  exact List.not_mem_nil

theorem WellFormed.contents (h : r.WellFormed T) (hAll : r.excludeFields = []) (hi : i < r.numFields) :
    ∃ t data, Field.contents T (r.fieldBuf i) = some (t, data) ∧ r.count T i = data.length ∧
      r.diskField T i = Field.image T t data.length data := by
  obtain ⟨t, data, extra, hBuf, hBytes, hCount, hField⟩ := h.parts hi
  rw [kept_all hAll, List.take_length] at hField
  exact ⟨t, data, by rw [hBuf, Field.contents_image hBytes], hCount, hField⟩

theorem diskFieldsFrom_add (m n : Nat) :
    r.diskFieldsFrom T i (m + n) = r.diskFieldsFrom T i m ++ r.diskFieldsFrom T (i + m) n := by
  induction m generalizing i with
  | zero => rw [Nat.zero_add, diskFieldsFrom, List.nil_append, Nat.add_zero]
  | succ m ih => rw [Nat.add_right_comm, diskFieldsFrom, diskFieldsFrom, ih, List.append_assoc, Nat.add_assoc,
      Nat.add_comm 1 m]

theorem diskFieldsFrom_congr (h : ∀ j, i ≤ j → j < i + n → r.diskField T j = r'.diskField T j) :
    r.diskFieldsFrom T i n = r'.diskFieldsFrom T i n := by
  induction n generalizing i with
  | zero => rfl
  | succ n ih =>
    rw [diskFieldsFrom, diskFieldsFrom, h i le_rfl (by omega), ih fun j hj hj' => h j (by omega) (by omega)]

theorem diskFieldsFrom_length (h : r.WellFormed T) (hAll : r.excludeFields = []) (hn : i + n ≤ r.numFields) :
    (r.diskFieldsFrom T i n).length = r.sizeFrom T i n := by
  induction n generalizing i with
  | zero => rfl
  | succ n ih =>
    have hField := diskField_length h (show i < r.numFields by omega)
    rw [kept_all hAll] at hField
    rw [diskFieldsFrom, sizeFrom, List.length_append, ih (by omega), hField]

/-- The disk record without excluded fields. -/
theorem createDiskRecord_all (h : r.WellFormed T) (hAll : r.excludeFields = []) (hNe : r.dbRecord ≠ [])
    (hMax : r.diskLength T ≤ vectorMax) :
    r.createDiskRecord T = some (.ok (headerBytes T (tableCrc r.tableName) r.numFields ++
      r.diskFieldsFrom T 0 r.numFields)) := by
  obtain ⟨disk, tail, hCreate, hLength, hDisk⟩ := createDiskRecord_eq h hNe hMax
  have hFields := diskFieldsFrom_length h hAll (Nat.zero_add r.numFields).le
  have hTail : tail = [] := by
    rw [hDisk, List.length_append, List.length_append, headerBytes_length, hFields, diskLength] at hLength
    exact List.length_eq_zero_iff.mp (by omega)
  rw [hCreate, hDisk, hTail, List.append_nil]

/-- Records with the same fields are the same on disk. -/
theorem createDiskRecord_alike (hAlike : Alike T r r') (hAll : r.excludeFields = [])
    (hAll' : r'.excludeFields = []) (hNe : r.dbRecord ≠ []) (hNe' : r'.dbRecord ≠ [])
    (hMax : r.diskLength T ≤ vectorMax) (hMax' : r'.diskLength T ≤ vectorMax) :
    r.createDiskRecord T = r'.createDiskRecord T := by
  have hFields : r.diskFieldsFrom T 0 r.numFields = r'.diskFieldsFrom T 0 r.numFields := by
    refine diskFieldsFrom_congr fun j _ hj => ?_
    have hj : j < r.numFields := by omega
    obtain ⟨t, data, hContents, -, hField⟩ := hAlike.left.contents hAll hj
    obtain ⟨t', data', hContents', -, hField'⟩ := hAlike.right.contents hAll' (hAlike.definition.numFields ▸ hj)
    rw [hAlike.contents j hj, hContents'] at hContents
    obtain ⟨rfl, rfl⟩ := Prod.mk.inj (Option.some.inj hContents)
    rw [hField, hField']
  rw [createDiskRecord_all hAlike.left hAll hNe hMax, createDiskRecord_all hAlike.right hAll' hNe' hMax', hFields,
    hAlike.definition.tableName, hAlike.definition.numFields]

/-- The headers of the fields in front of one, as the buffers have them. -/
theorem mapM_header (h : r.WellFormed T) (hn : i + n ≤ r.numFields) : ∃ headers,
    ((r.dbRecord.drop i).take n).mapM (Field.header T) = some headers ∧
      (headers.map fun h => Field.overhead T + h.2).sum = r.sizeFrom T i n := by
  induction n generalizing i with
  | zero => exact ⟨[], by rw [List.take_zero, List.mapM_nil]; rfl, rfl⟩
  | succ n ih =>
    have hLength := h.numFields_le
    have hIndex : i < r.dbRecord.length := by omega
    obtain ⟨t, data, extra, hBuf, hBytes, hCount, -⟩ := h.parts (show i < r.numFields by omega)
    obtain ⟨headers, hRest, hSum⟩ := ih (i := i + 1) (by omega)
    have hFirst : r.dbRecord[i] = Field.image T t data.length (data ++ extra) := by
      rw [← hBuf, fieldBuf, List.getD_eq_getElem _ _ hIndex]
    refine ⟨(t, data.length) :: headers, ?_, ?_⟩
    · rw [List.drop_eq_getElem_cons hIndex, List.take_succ_cons, List.mapM_cons, hFirst,
        Field.header_image hBytes, hRest]
      rfl
    · rw [List.map_cons, List.sum_cons, hSum, sizeFrom, hCount]

theorem sizeFrom_add (m n : Nat) : r.sizeFrom T i (m + n) = r.sizeFrom T i m + r.sizeFrom T (i + m) n := by
  induction m generalizing i with
  | zero => rw [Nat.zero_add, sizeFrom, Nat.zero_add, Nat.add_zero]
  | succ m ih => rw [Nat.add_right_comm, sizeFrom, sizeFrom, ih, Nat.add_assoc, Nat.add_assoc i 1 m,
      Nat.add_comm 1 m, Nat.add_assoc, Nat.add_assoc]

theorem sizeFrom_split (hn : r.numFields = col + (n + 1)) : r.sizeFrom T 0 r.numFields =
    r.sizeFrom T 0 col + (Field.overhead T + r.count T col + r.sizeFrom T (col + 1) n) := by
  rw [hn, sizeFrom_add, Nat.zero_add, sizeFrom]

theorem diskFieldsFrom_split (hn : r.numFields = col + (n + 1)) : r.diskFieldsFrom T 0 r.numFields =
    r.diskFieldsFrom T 0 col ++ (r.diskField T col ++ r.diskFieldsFrom T (col + 1) n) := by
  rw [hn, diskFieldsFrom_add, Nat.zero_add, diskFieldsFrom]

theorem sizeFrom_congr (h : ∀ j, i ≤ j → j < i + n → r.count T j = r'.count T j) :
    r.sizeFrom T i n = r'.sizeFrom T i n := by
  induction n generalizing i with
  | zero => rfl
  | succ n ih =>
    rw [sizeFrom, sizeFrom, h i le_rfl (by omega), ih fun j hj hj' => h j (by omega) (by omega)]

theorem image_eq_append {t : UInt8} (k : Nat) (space : List UInt8) :
    Field.image T t k space = (t :: Bytes.leBytes T.wordSize k) ++ space := rfl

/-- A field of the same size is set on disk where its data are. -/
theorem setField_disk (h : r.WellFormed T) (hAll : r.excludeFields = []) (hNe : r.dbRecord ≠ [])
    (hMax : r.diskLength T ≤ vectorMax) (hSet : r.setField T data col = some (.noError, r'))
    (hBytes : data.length < 256 ^ T.wordSize) (hSize : r'.diskLength T = r.diskLength T) :
    ∃ front old rest offset, r.createDiskRecord T = some (.ok (front ++ (old ++ rest))) ∧
      r'.createDiskRecord T = some (.ok (front ++ (data ++ rest))) ∧ old.length = data.length ∧
      r'.fieldDataDiskOffset T col = some (.ok offset) ∧ front.length = headerSizeOf T + offset := by
  have hWell := setField_wellFormed h hSet
  have hLe := h.numFields_le
  have hPos := h.numFields_pos hNe
  rw [setField, if_neg hNe] at hSet
  split at hSet
  · cases hSet
  rename_i hCol
  simp only [Option.bind_eq_bind, Option.bind_eq_some_iff] at hSet
  obtain ⟨buf, hData, hSet⟩ := hSet
  obtain rfl : r' = { r with dbRecord := r.dbRecord.set col buf } := (Prod.mk.inj (Option.some.inj hSet)).2.symm
  generalize hr' : ({ r with dbRecord := r.dbRecord.set col buf } : Record) = r' at hWell hSize ⊢
  have hBuf (j : Nat) : r'.fieldBuf j = if j = col then buf else r.fieldBuf j := by
    rw [← hr']
    exact fieldBuf_set (by omega)
  have hNum : r'.numFields = r.numFields := by rw [← hr']
  have hAll' : r'.excludeFields = [] := by rw [← hr', hAll]
  have hNe' : r'.dbRecord ≠ [] := by
    rw [← hr']
    exact fun hNil => hNe (by simpa using hNil)
  have hCount (j : Nat) (hj : j ≠ col) : r'.count T j = r.count T j := by
    rw [count, count, hBuf, if_neg hj]
  have hField (j : Nat) (hj : j ≠ col) : r'.diskField T j = r.diskField T j := by
    rw [diskField, diskField, hCount j hj, hBuf, if_neg hj, kept_all hAll, kept_all hAll']
  obtain ⟨n, hn⟩ : ∃ n, r.numFields = col + (n + 1) := ⟨r.numFields - col - 1, by omega⟩
  obtain ⟨t, old, hOld, hOldCount, hOldField⟩ := h.contents hAll (show col < r.numFields by omega)
  obtain ⟨t', new, hNew, hNewCount, hNewField⟩ := hWell.contents hAll' (show col < r'.numFields by omega)
  rw [hBuf, if_pos rfl, Field.contents_setData (h.field col (by omega)) hData hBytes,
    Field.typeId_of_contents hOld] at hNew
  obtain ⟨rfl, rfl⟩ := Prod.mk.inj (Option.some.inj hNew)
  have hFront : r'.sizeFrom T 0 col = r.sizeFrom T 0 col := sizeFrom_congr fun j _ hj => hCount j (by omega)
  have hRest : r'.sizeFrom T (col + 1) n = r.sizeFrom T (col + 1) n :=
    sizeFrom_congr fun j hj _ => hCount j (by omega)
  have hLength : old.length = data.length := by
    rw [diskLength, diskLength, sizeFrom_split hn, sizeFrom_split (hNum.trans hn), hFront, hRest] at hSize
    omega
  have hFields : r'.diskFieldsFrom T 0 col = r.diskFieldsFrom T 0 col :=
    diskFieldsFrom_congr fun j _ hj => hField j (by omega)
  have hAfter : r'.diskFieldsFrom T (col + 1) n = r.diskFieldsFrom T (col + 1) n :=
    diskFieldsFrom_congr fun j hj _ => hField j (by omega)
  obtain ⟨headers, hHeaders, hSum⟩ := mapM_header (i := 0) (n := col) hWell (by omega)
  have hName : r'.tableName = r.tableName := by rw [← hr']
  have hWord : vectorMax < 2 ^ 64 := by decide
  have hSmall : r.sizeFrom T 0 col + Field.overhead T < 2 ^ 64 := by
    rw [diskLength, sizeFrom_split hn] at hMax
    omega
  refine ⟨headerBytes T (tableCrc r.tableName) r.numFields ++ (r.diskFieldsFrom T 0 col ++
      (t :: Bytes.leBytes T.wordSize data.length)), old, r.diskFieldsFrom T (col + 1) n,
    r.sizeFrom T 0 col + Field.overhead T, ?_, ?_, hLength, ?_, ?_⟩
  · rw [createDiskRecord_all h hAll hNe hMax, diskFieldsFrom_split hn, hOldField, hLength, image_eq_append]
    simp only [List.append_assoc]
  · rw [createDiskRecord_all hWell hAll' hNe' (hSize.le.trans hMax), diskFieldsFrom_split (hNum.trans hn), hNewField,
      hFields, hAfter, hName, hNum, image_eq_append]
    simp only [List.append_assoc]
  · rw [List.drop_zero] at hHeaders
    rw [fieldDataDiskOffset, if_neg hNe', if_neg (by omega), hHeaders, Option.bind_eq_bind, Option.bind_some, hSum,
      hFront, Nat.mod_eq_of_lt hSmall]
    rfl
  · rw [List.length_append, List.length_append, headerBytes_length, diskFieldsFrom_length h hAll (by omega),
      Field.overhead_eq]

end Record

/-! ## Records of a table -/

namespace RecordTable

variable (M : RecordTable)

/-- The fields of the indexes, in their order. -/
def fields : List Nat := M.keyField :: if M.HasSecKeys then M.secKeyFields.map fieldAt else []

/-- The definitions of the table and its keys are good. A table that allows duplicates has no secondary
keys. -/
structure Ready : Prop where
  table : M.toTable.Ready
  recordDef : M.created.2.recordDef = M.recordDef
  numTrees : M.numTrees = if M.primaryKey = -1 then 1 else M.secKeyFields.length + 1
  columns : M.primaryKey ≠ -1 → ∀ field ∈ M.fields, field < M.created.2.numFields
  dup : M.dup = true → ¬ M.HasSecKeys

/-- A record of the table that a block has room for; the words of its 64-bit integers fit. -/
structure Sound (r : Record) : Prop where
  wellFormed : r.WellFormed M.types
  ofTable : OfTable M.created.2 r
  diskLength : r.diskLength M.types ≤ vectorMax
  wide : WideFit M.types r

/-- What `CreateKey` makes of a record. -/
def keyValue (field : Nat) (r : Record) : Nat :=
  match r.keyImages M.types M.compareCase field with
  | none => 0
  | some images => calcCRC32 images.flatten

/-- Every index has a key for the record. -/
def Keyed (r : Record) : Prop := ∀ field ∈ M.fields, M.keyValue field r ≠ 0

/-- The key of a record in an index. -/
def keyAt (field : Nat) (a : FAU) (r : Record) : RdbmsKey := ⟨M.keyValue field r, M.tableId, a⟩

variable {M} {r s : Record} {field : Nat}

namespace Sound

theorem dbRecord_ne (h : M.Sound r) (hM : M.Ready) : r.dbRecord ≠ [] := by
  intro hNil
  have hPos := hM.table.wellFormed.numFields_pos hM.table.fields
  have hLe := h.wellFormed.numFields_le
  have hNum := h.ofTable.definition.numFields
  rw [hNil, List.length_nil] at hLe
  omega

theorem recordDef (h : M.Sound r) (hM : M.Ready) : M.recordDef = r.recordDef :=
  hM.recordDef.symm.trans h.ofTable.definition.recordDef

theorem numFields (h : M.Sound r) (h' : M.Sound s) : r.numFields = s.numFields :=
  h.ofTable.definition.numFields.symm.trans h'.ofTable.definition.numFields

theorem createKey (h : M.Sound r) (hM : M.Ready) (field : Nat) :
    r.createKey M.types field M.compareCase = some (M.keyValue field r) :=
  Record.createKey_eq h.wellFormed (h.dbRecord_ne hM) h.diskLength h.wide field

theorem createDiskRecord (h : M.Sound r) (hM : M.Ready) :
    ∃ disk, r.createDiskRecord M.types = some (.ok disk) ∧ disk.length = r.diskLength M.types := by
  obtain ⟨disk, -, hCreate, hLength, -⟩ :=
    Record.createDiskRecord_eq h.wellFormed (h.dbRecord_ne hM) h.diskLength
  exact ⟨disk, hCreate, hLength⟩

theorem ofTable_eq (h : M.Sound r) (hM : M.Ready) : M.ofTable r = (.noError, r) := by
  rw [RecordTable.ofTable, if_pos (h.recordDef hM)]

theorem of_alike (h : M.Sound s) (hAlike : Alike M.types r s) (hTable : OfTable M.created.2 r) :
    M.Sound r where
  wellFormed := hAlike.left
  ofTable := hTable
  diskLength := (Record.diskLength_alike hAlike).le.trans h.diskLength
  wide := Record.WideFit.of_alike hAlike h.wide

end Sound

theorem keyValue_of_same (h : M.Sound r) (h' : M.Sound s)
    (hSame : Record.SameKey M.types M.compareCase field r s) : M.keyValue field r = M.keyValue field s := by
  rw [keyValue, keyValue, hSame.keyImages (h.numFields h')]

namespace Ready

variable (hM : M.Ready)

include hM

theorem column (hField : field ∈ M.fields) : field = 2 ^ 64 - 1 ∨ field < M.created.2.numFields := by
  by_cases hAll : M.primaryKey = -1
  · have hNone : ¬ M.HasSecKeys := by
      have hTrees := hM.numTrees
      rw [if_pos hAll] at hTrees
      rintro ⟨-, hMore⟩
      omega
    rw [fields, if_neg hNone, List.mem_singleton, Table.keyField, if_pos hAll] at hField
    exact .inl hField
  · exact .inr (hM.columns hAll field hField)

theorem keyValue_alike (hField : field ∈ M.fields) (h : M.Sound r) (h' : M.Sound s)
    (hAlike : Alike M.types r s) : M.keyValue field r = M.keyValue field s := by
  refine keyValue_of_same h h' (Record.SameKey.of_alike hAlike ?_)
  rw [← h.ofTable.definition.numFields]
  exact hM.column hField

end Ready

/-! ## An index of the records -/

section Index

variable {R : FAU → Option Record} {t : Btree RdbmsKey} {key : RdbmsKey} {a : FAU}

theorem keyClass_strictOrder (M : RecordTable) : M.keyClass.StrictOrder := rdbmsKey_strictOrder _ _ _

theorem keyClass_eqv_iff {j k : RdbmsKey} :
    M.keyClass.comparison.eqv j k = true ↔ j.k = k.k ∧ (M.dup = true → j.kid = k.kid) := by
  change RdbmsKey.operatorEq M.dup j k = true ↔ _
  cases M.dup <;> simp [RdbmsKey.operatorEq]

/-- The index has one key for each record, and no other. -/
def Indexes (M : RecordTable) (R : FAU → Option Record) (field : Nat) (t : Btree RdbmsKey) : Prop :=
  ∃ A, t.Stores M.keyClass A ∧ ∀ key, key ∈ A.keys ↔ ∃ a r, R a = some r ∧ key = M.keyAt field a r

/-- No record has a key that equals this one. -/
def Unused (M : RecordTable) (R : FAU → Option Record) (field : Nat) (key : RdbmsKey) : Prop :=
  ∀ a s, R a = some s → M.keyValue field s = key.k → M.dup = true ∧ a ≠ key.kid

namespace Indexes

variable (h : M.Indexes R field t)

include h

theorem find_eq (hRecord : R a = some s) (hKey : key.k = M.keyValue field s)
    (hAddress : M.dup = true → key.kid = a) :
    (gxBtree M.keyClass).step (.find key) t = (.found (M.keyAt field a s), t) := by
  obtain ⟨A, hStores, hKeys⟩ := h
  have hFind : A.find key = some (M.keyAt field a s) :=
    (A.mem_find_iff M.keyClass_strictOrder.strict key _).mpr
      ⟨(hKeys _).mpr ⟨a, s, hRecord, rfl⟩, keyClass_eqv_iff.mpr ⟨hKey, hAddress⟩⟩
  rw [hStores.find M.keyClass_strictOrder, hFind]
  rfl

theorem find_none (hUnused : M.Unused R field key) :
    (gxBtree M.keyClass).step (.find key) t = (.zero, t) := by
  obtain ⟨A, hStores, hKeys⟩ := h
  have hFind : A.find key = none := by
    refine (A.find_eq_none_iff key).mpr fun x hx => Bool.eq_false_iff.mpr fun hEq => ?_
    obtain ⟨b, s, hRecord, rfl⟩ := (hKeys x).mp hx
    obtain ⟨hValue, hSame⟩ := keyClass_eqv_iff.mp hEq
    obtain ⟨hDup, hNe⟩ := hUnused b s hRecord hValue.symm
    exact hNe (hSame hDup).symm
  rw [hStores.find M.keyClass_strictOrder, hFind]
  rfl

theorem insert (hFree : R a = none) (hUnused : M.Unused R field (M.keyAt field a r))
    (hRoom : t.f.Room maxLevels) :
    ∃ t', (gxBtree M.keyClass).step (.insert ⟨0, M.keyAt field a r⟩ false) t = (.done, t') ∧
      M.Indexes (Function.update R a (some r)) field t' ∧ ∀ n, t.f.Room (maxLevels + n) → t'.f.Room n := by
  obtain ⟨A, hStores, hKeys⟩ := h
  have hNew : A.find (M.keyAt field a r) = none := by
    refine (A.find_eq_none_iff _).mpr fun x hx => Bool.eq_false_iff.mpr fun hEq => ?_
    obtain ⟨b, s, hRecord, rfl⟩ := (hKeys x).mp hx
    obtain ⟨hValue, hSame⟩ := keyClass_eqv_iff.mp hEq
    obtain ⟨hDup, hNe⟩ := hUnused b s hRecord hValue.symm
    exact hNe (hSame hDup).symm
  obtain ⟨t', hStep, hStores', hRooms⟩ := hStores.insert M.keyClass_strictOrder hNew hRoom 0
  refine ⟨t', hStep, ⟨_, hStores', fun key => ?_⟩, hRooms⟩
  rw [A.mem_insert_iff M.keyClass_strictOrder.strict _ hNew, hKeys]
  constructor
  · rintro (rfl | ⟨b, s, hRecord, rfl⟩)
    · exact ⟨a, r, Function.update_self .., rfl⟩
    · refine ⟨b, s, ?_, rfl⟩
      rw [Function.update_of_ne, hRecord]
      rintro rfl
      rw [hFree] at hRecord
      cases hRecord
  · rintro ⟨b, s, hRecord, rfl⟩
    by_cases hb : b = a
    · subst hb
      rw [Function.update_self] at hRecord
      obtain rfl := Option.some.inj hRecord
      exact .inl rfl
    · rw [Function.update_of_ne hb] at hRecord
      exact .inr ⟨b, s, hRecord, rfl⟩

theorem delete (hRecord : R a = some s) :
    ∃ left t', deleteDatabaseKey M.keyClass ⟨0, M.keyAt field a s⟩ t = .ok left t' ∧
      M.Indexes (Function.update R a none) field t' ∧ ∀ n, t.f.Room n → t'.f.Room n := by
  obtain ⟨A, hStores, hKeys⟩ := h
  have hC := M.keyClass_strictOrder.strict
  have hMem : M.keyAt field a s ∈ A.keys := (hKeys _).mpr ⟨a, s, hRecord, rfl⟩
  have hOld : A.find (M.keyAt field a s) = some (M.keyAt field a s) :=
    (A.mem_find_iff hC _ _).mpr ⟨hMem, hC.eqv_refl _⟩
  obtain ⟨t', hStep, hStores', hRoom⟩ := hStores.delete M.keyClass_strictOrder hOld 0
  have hRun : ∃ left, deleteDatabaseKey M.keyClass ⟨0, M.keyAt field a s⟩ t = .ok left t' := by
    change reply _ (flushed false (deleteDatabaseKey M.keyClass ⟨0, M.keyAt field a s⟩) t) = _ at hStep
    cases hDelete : deleteDatabaseKey M.keyClass ⟨0, M.keyAt field a s⟩ t with
    | ok left u =>
      rw [flushed, Exec.bind_ok hDelete] at hStep
      exact ⟨left, congrArg _ (Prod.mk.inj hStep).2⟩
    | error e u =>
      rw [flushed, Exec.bind_error hDelete] at hStep
      cases e <;> cases (Prod.mk.inj hStep).1
  obtain ⟨left, hRun⟩ := hRun
  refine ⟨left, t', hRun, ⟨_, hStores', fun key => ?_⟩, hRoom⟩
  rw [A.mem_erase_iff, hKeys]
  constructor
  · rintro ⟨⟨b, r, hOther, rfl⟩, hApart⟩
    refine ⟨b, r, ?_, rfl⟩
    rw [Function.update_of_ne, hOther]
    rintro rfl
    obtain rfl := Option.some.inj (hRecord.symm.trans hOther)
    rw [hC.eqv_refl] at hApart
    cases hApart
  · rintro ⟨b, r, hOther, rfl⟩
    have hb : b ≠ a := by
      rintro rfl
      rw [Function.update_self] at hOther
      cases hOther
    rw [Function.update_of_ne hb] at hOther
    refine ⟨⟨b, r, hOther, rfl⟩, Bool.eq_false_iff.mpr fun hEq => hb ?_⟩
    have hSame := Comparison.Sorted.eq_of_eqv hC A.sorted hMem ((hKeys _).mpr ⟨b, r, hOther, rfl⟩) hEq
    exact (congrArg RdbmsKey.kid hSame).symm

/-- Where values have one key each, so have they one record. -/
theorem unique (hDup : M.dup = false) {b : FAU} {s' : Record} (hRecord : R a = some s) (hOther : R b = some s')
    (hValue : M.keyValue field s = M.keyValue field s') : a = b := by
  obtain ⟨A, -, hKeys⟩ := h
  have hSame := Comparison.Sorted.eq_of_eqv M.keyClass_strictOrder.strict A.sorted
    ((hKeys _).mpr ⟨a, s, hRecord, rfl⟩) ((hKeys _).mpr ⟨b, s', hOther, rfl⟩)
    (keyClass_eqv_iff.mpr ⟨hValue, fun hTrue => absurd hTrue (by rw [hDup]; exact Bool.false_ne_true)⟩)
  exact congrArg RdbmsKey.kid hSame

end Indexes

end Index

/-! ## The keys of a record in all indexes -/

section Keys

variable {R : FAU → Option Record} {F : TableFiles} {t t' : Btree RdbmsKey} {l ts : List (Btree RdbmsKey)}
  {key : RdbmsKey} {a : FAU} {i : Nat} {numbers : List Int}

theorem indexes_at (hF : F.indexes = l ++ t :: ts) : F.indexes[l.length]? = some t := by
  rw [hF, List.getElem?_append_right le_rfl, Nat.sub_self, List.getElem?_cons_zero]

theorem setIndex_at (hF : F.indexes = l ++ t :: ts) :
    F.setIndex l.length t' = { F with indexes := l ++ t' :: ts } := by
  rw [TableFiles.setIndex, hF, List.set_append_right _ _ le_rfl, Nat.sub_self, List.set_cons_zero]

theorem addKey_done (hF : F.indexes = l ++ t :: ts)
    (hStep : (gxBtree M.keyClass).step (.insert ⟨0, key⟩ false) t = (.done, t')) :
    M.addKey l.length key F = some (true, { F with indexes := l ++ t' :: ts }) := by
  rw [addKey, indexes_at hF, Option.bind_eq_bind, Option.bind_some, hStep, ← setIndex_at hF]
  rfl

theorem findKey_found (hF : F.indexes = l ++ t :: ts) {k : RdbmsKey}
    (hStep : (gxBtree M.keyClass).step (.find key) t = (.found k, t)) :
    M.findKey l.length key F = some (some k) := by
  rw [findKey, indexes_at hF, Option.bind_eq_bind, Option.bind_some, hStep]
  rfl

theorem deleteKey_done (hF : F.indexes = l ++ t :: ts) {left : DatabaseKey RdbmsKey}
    (hRun : deleteDatabaseKey M.keyClass ⟨0, key⟩ t = .ok left t') :
    M.deleteKey l.length key F = some (some left.dbKey, { F with indexes := l ++ t' :: ts }) := by
  rw [deleteKey, indexes_at hF, Option.bind_eq_bind, Option.bind_some, hRun, ← setIndex_at hF]
  rfl

/-- The loop adds a key for a record to each of the indexes that it comes to. -/
theorem addSecKeys_run (hM : M.Ready) (hr : M.Sound r)
    (hKeyed : ∀ number ∈ numbers, M.keyValue (fieldAt number) r ≠ 0) (hFree : R a = none)
    (hUnused : ∀ number ∈ numbers, M.Unused R (fieldAt number) (M.keyAt (fieldAt number) a r))
    (hF : F.indexes = l ++ ts) (hIndexes : List.Forall₂ (M.Indexes R) (numbers.map fieldAt) ts)
    (hRoom : ∀ t ∈ ts, t.f.Room maxLevels) :
    ∃ ts', M.addSecKeys r a numbers l.length F = some (.noError, { F with indexes := l ++ ts' }) ∧
      List.Forall₂ (M.Indexes (Function.update R a (some r))) (numbers.map fieldAt) ts' := by
  induction numbers generalizing l ts F with
  | nil =>
    obtain rfl := List.forall₂_nil_left_iff.mp hIndexes
    refine ⟨[], ?_, .nil⟩
    rw [addSecKeys, ← hF]
  | cons number numbers ih =>
    obtain ⟨t, ts, hFirst, hRest, rfl⟩ := List.forall₂_cons_left_iff.mp hIndexes
    obtain ⟨hKey, hKeyed⟩ := List.forall_mem_cons.mp hKeyed
    obtain ⟨hNew, hUnused⟩ := List.forall_mem_cons.mp hUnused
    obtain ⟨hRoomFirst, hRoom⟩ := List.forall_mem_cons.mp hRoom
    obtain ⟨t', hStep, hIndexed, -⟩ := hFirst.insert hFree hNew hRoomFirst
    have hSplit : ({ F with indexes := l ++ t' :: ts } : TableFiles).indexes = (l ++ [t']) ++ ts :=
      List.append_cons l t' ts
    obtain ⟨ts', hRun, hIndexes'⟩ := ih hKeyed hUnused hSplit hRest hRoom
    refine ⟨t' :: ts', ?_, .cons hIndexed hIndexes'⟩
    rw [List.length_append, List.length_singleton] at hRun
    rw [addSecKeys, hr.createKey hM, Option.bind_eq_bind, Option.bind_some, if_neg hKey]
    change (M.addKey l.length (M.keyAt (fieldAt number) a r) F).bind _ = _
    rw [addKey_done hF hStep, Option.bind_some]
    dsimp only
    rw [if_pos rfl, hRun, ← List.append_cons]

/-- The loop deletes the key for a record from each of the indexes that it comes to. -/
theorem deleteSecKeys_run (hM : M.Ready) (hr : M.Sound r) (hDup : M.dup = false)
    (hKeyed : ∀ number ∈ numbers, M.keyValue (fieldAt number) r ≠ 0) (hRecord : R a = some s)
    (hSame : ∀ number ∈ numbers, M.keyValue (fieldAt number) r = M.keyValue (fieldAt number) s)
    (hF : F.indexes = l ++ ts) (hIndexes : List.Forall₂ (M.Indexes R) (numbers.map fieldAt) ts)
    (key : RdbmsKey) :
    ∃ ts', M.deleteSecKeys r numbers l.length key a F =
        some (.noError, a, { F with indexes := l ++ ts' }) ∧
      List.Forall₂ (M.Indexes (Function.update R a none)) (numbers.map fieldAt) ts' ∧
      ((∀ t ∈ ts, t.f.Room maxLevels) → ∀ t ∈ ts', t.f.Room maxLevels) := by
  induction numbers generalizing l ts F key with
  | nil =>
    obtain rfl := List.forall₂_nil_left_iff.mp hIndexes
    refine ⟨[], ?_, .nil, id⟩
    rw [deleteSecKeys, ← hF]
  | cons number numbers ih =>
    obtain ⟨t, ts, hFirst, hRest, rfl⟩ := List.forall₂_cons_left_iff.mp hIndexes
    obtain ⟨hKey, hKeyed⟩ := List.forall_mem_cons.mp hKeyed
    obtain ⟨hValue, hSame⟩ := List.forall_mem_cons.mp hSame
    have hFind : (gxBtree M.keyClass).step (.find { key with k := M.keyValue (fieldAt number) r }) t =
        (.found (M.keyAt (fieldAt number) a s), t) :=
      hFirst.find_eq hRecord hValue fun hTrue => absurd hTrue (by rw [hDup]; exact Bool.false_ne_true)
    obtain ⟨left, t', hDelete, hIndexed, hRoom⟩ := hFirst.delete hRecord
    have hSplit : ({ F with indexes := l ++ t' :: ts } : TableFiles).indexes = (l ++ [t']) ++ ts :=
      List.append_cons l t' ts
    obtain ⟨ts', hRun, hIndexes', hRooms⟩ := ih hKeyed hSame hSplit hRest left.dbKey
    refine ⟨t' :: ts', ?_, .cons hIndexed hIndexes', fun hAll => ?_⟩
    · rw [List.length_append, List.length_singleton] at hRun
      rw [deleteSecKeys, hr.createKey hM, Option.bind_eq_bind, Option.bind_some, if_neg hKey,
        findKey_found hF hFind, Option.bind_eq_bind, Option.bind_some]
      dsimp only
      rw [deleteKey_done hF hDelete, Option.bind_eq_bind, Option.bind_some]
      dsimp only
      rw [keyAt, hRun, ← List.append_cons]
    · rw [List.forall_mem_cons] at hAll ⊢
      exact ⟨hRoom _ hAll.1, hRooms hAll.2⟩

theorem Ready.hasSecKeys_iff (hM : M.Ready) : M.HasSecKeys ↔ M.numTrees ≠ 1 := by
  have hTrees := hM.numTrees
  constructor
  · rintro ⟨-, hMore⟩
    omega
  · intro hMore
    split at hTrees
    · exact absurd hTrees hMore
    · refine ⟨fun hNil => ?_, ?_⟩
      · rw [hNil, List.length_nil] at hTrees
        omega
      · omega

/-- The keys of all indexes for records, in their order. -/
def AllIndexes (M : RecordTable) (R : FAU → Option Record) (F : TableFiles) : Prop :=
  List.Forall₂ (M.Indexes R) M.fields F.indexes

namespace AllIndexes

variable (h : M.AllIndexes R F) (hM : M.Ready) (hIndex : F.usingIndex = true)

include h hM hIndex

theorem addKeys_run (hr : M.Sound r) (hKeyed : M.Keyed r) (hFree : R a = none)
    (hUnused : ∀ field ∈ M.fields, M.Unused R field (M.keyAt field a r))
    (hRoom : ∀ t ∈ F.indexes, t.f.Room maxLevels) :
    ∃ ts, M.addKeys r a F = some (.noError, { F with indexes := ts }) ∧
      M.AllIndexes (Function.update R a (some r)) { F with indexes := ts } := by
  obtain ⟨t, ts, hFirst, hRest, hF⟩ := List.forall₂_cons_left_iff.mp h
  obtain ⟨hKey, hKeyed⟩ := List.forall_mem_cons.mp hKeyed
  obtain ⟨hNew, hUnused⟩ := List.forall_mem_cons.mp hUnused
  rw [hF] at hRoom
  obtain ⟨hRoomFirst, hRoom⟩ := List.forall_mem_cons.mp hRoom
  obtain ⟨t', hStep, hIndexed, -⟩ := hFirst.insert hFree hNew hRoomFirst
  have hAdd : M.addKey 0 (M.keyAt M.keyField a r) F = some (true, { F with indexes := t' :: ts }) :=
    addKey_done (l := []) hF hStep
  have hStart : M.addKeys r a F = if M.HasSecKeys then
      M.addSecKeys r a M.secKeyFields 1 { F with indexes := t' :: ts }
        else some (.noError, { F with indexes := t' :: ts }) := by
    rw [addKeys, if_pos hIndex, hr.createKey hM, Option.bind_eq_bind, Option.bind_some, if_neg hKey]
    change (M.addKey 0 (M.keyAt M.keyField a r) F).bind _ = _
    rw [hAdd]
    rfl
  rw [hStart]
  by_cases hSec : M.HasSecKeys
  · rw [if_pos hSec] at hKeyed hUnused hRest
    obtain ⟨ts', hRun, hIndexes⟩ := addSecKeys_run (l := [t']) (F := { F with indexes := t' :: ts }) hM hr
      (fun number hMem => hKeyed _ (List.mem_map_of_mem hMem)) hFree
      (fun number hMem => hUnused _ (List.mem_map_of_mem hMem)) rfl hRest hRoom
    rw [if_pos hSec]
    refine ⟨t' :: ts', hRun, ?_⟩
    rw [AllIndexes, fields, if_pos hSec]
    exact .cons hIndexed hIndexes
  · rw [if_neg hSec] at hRest ⊢
    obtain rfl := List.forall₂_nil_left_iff.mp hRest
    refine ⟨[t'], rfl, ?_⟩
    rw [AllIndexes, fields, if_neg hSec]
    exact .cons hIndexed .nil

/-- The keys of a record are deleted by a record with the same keys. -/
theorem deleteKeys_run (hr : M.Sound r) (hKeyed : M.Keyed r) (hRecord : R a = some s)
    (hSame : ∀ field ∈ M.fields, M.keyValue field r = M.keyValue field s) :
    ∃ ts, M.deleteKeys r a F = some (.noError, a, { F with indexes := ts }) ∧
      M.AllIndexes (Function.update R a none) { F with indexes := ts } ∧
      ((∀ t ∈ F.indexes, t.f.Room maxLevels) → ∀ t ∈ ts, t.f.Room maxLevels) := by
  obtain ⟨t, ts, hFirst, hRest, hF⟩ := List.forall₂_cons_left_iff.mp h
  obtain ⟨hKey, hKeyed⟩ := List.forall_mem_cons.mp hKeyed
  obtain ⟨hValue, hSame⟩ := List.forall_mem_cons.mp hSame
  have hFind : M.findKey 0 ⟨M.keyValue M.keyField r, M.tableId, a⟩ F = some (some (M.keyAt M.keyField a s)) :=
    findKey_found (l := []) hF (hFirst.find_eq hRecord hValue fun _ => rfl)
  obtain ⟨left, t', hDelete, hIndexed, hRoom⟩ := hFirst.delete hRecord
  have hDeleted : M.deleteKey 0 (M.keyAt M.keyField a s) F =
      some (some left.dbKey, { F with indexes := t' :: ts }) := deleteKey_done (l := []) hF hDelete
  have hStart : M.deleteKeys r a F = if M.HasSecKeys then
      M.deleteSecKeys r M.secKeyFields 1 left.dbKey a { F with indexes := t' :: ts }
        else some (.noError, a, { F with indexes := t' :: ts }) := by
    rw [deleteKeys, if_pos hIndex, hr.createKey hM, Option.bind_eq_bind, Option.bind_some, if_neg hKey]
    dsimp only
    rw [hFind, Option.bind_eq_bind, Option.bind_some]
    dsimp only
    rw [hDeleted, Option.bind_eq_bind, Option.bind_some]
    dsimp only
    by_cases hOne : M.numTrees = 1
    · rw [if_pos hOne, if_neg fun hSec => hM.hasSecKeys_iff.mp hSec hOne]
      rfl
    · rw [if_neg hOne]
      rfl
  rw [hStart]
  by_cases hSec : M.HasSecKeys
  · have hDup : M.dup = false := Bool.eq_false_iff.mpr fun hTrue => hM.dup hTrue hSec
    rw [if_pos hSec] at hKeyed hSame hRest
    obtain ⟨ts', hRun, hIndexes, hRooms⟩ := deleteSecKeys_run (l := [t']) (F := { F with indexes := t' :: ts }) hM
      hr hDup (fun number hMem => hKeyed _ (List.mem_map_of_mem hMem)) hRecord
      (fun number hMem => hSame _ (List.mem_map_of_mem hMem)) rfl hRest left.dbKey
    rw [if_pos hSec]
    refine ⟨t' :: ts', hRun, ?_, fun hAll => ?_⟩
    · rw [AllIndexes, fields, if_pos hSec]
      exact .cons hIndexed hIndexes
    · rw [hF, List.forall_mem_cons] at hAll
      exact List.forall_mem_cons.mpr ⟨hRoom _ hAll.1, hRooms hAll.2⟩
  · rw [if_neg hSec] at hRest ⊢
    obtain rfl := List.forall₂_nil_left_iff.mp hRest
    refine ⟨[t'], rfl, ?_, fun hAll => ?_⟩
    · rw [AllIndexes, fields, if_neg hSec]
      exact .cons hIndexed .nil
    · rw [hF, List.forall_mem_cons] at hAll
      exact List.forall_mem_singleton.mpr (hRoom _ hAll.1)

end AllIndexes

end Keys

/-! ## The data file -/

/-- The blocks of the data file are those of the records, and no others are in use. -/
structure InData (M : RecordTable) (R : FAU → Option Record) (d : Database) : Prop where
  undamaged : d.Undamaged
  sound : ∀ a r, R a = some r → M.Sound r
  blocks : ∀ a l, d.object (a + d.blockHeaderSize) = some l ↔
    ∃ r, R a = some r ∧ r.createDiskRecord M.types = some (.ok l)

namespace InData

variable {R : FAU → Option Record} {d d' : Database} {F : TableFiles} {a : FAU} {disk : List UInt8}

theorem of_update {R' : FAU → Option Record} {o : Option (List UInt8)} (h : M.InData R d)
    (hUndamaged : d'.Undamaged) (hRev : d'.rev = d.rev)
    (hObject : d'.object = Function.update d.object (a + d.blockHeaderSize) o)
    (hSame : ∀ b, b ≠ a → R' b = R b) (hSound : ∀ r, R' a = some r → M.Sound r)
    (hHere : ∀ l, o = some l ↔ ∃ r, R' a = some r ∧ r.createDiskRecord M.types = some (.ok l)) :
    M.InData R' d' := by
  have hSize : d'.blockHeaderSize = d.blockHeaderSize := by
    rw [Database.blockHeaderSize, hRev, Database.blockHeaderSize]
  refine ⟨hUndamaged, fun b r hRecord => ?_, fun b l => ?_⟩
  · by_cases hb : b = a
    · exact hSound r (hb ▸ hRecord)
    · exact h.sound b r (hSame b hb ▸ hRecord)
  · rw [hObject, hSize]
    by_cases hb : b = a
    · subst hb
      rw [Function.update_self]
      exact hHere l
    · rw [Function.update_of_ne (by omega), hSame b hb]
      exact h.blocks b l

variable (h : M.InData R d) (hM : M.Ready) (position : Int)

include h hM

theorem object_eq (hRecord : R a = some s) :
    ∃ disk, s.createDiskRecord M.types = some (.ok disk) ∧ disk.length = s.diskLength M.types ∧
      d.object (a + d.blockHeaderSize) = some disk := by
  obtain ⟨disk, hCreate, hLength⟩ := (h.sound a s hRecord).createDiskRecord hM
  exact ⟨disk, hCreate, hLength, (h.blocks a disk).mpr ⟨s, hRecord, hCreate⟩⟩

theorem eq_none (hNone : d.object (a + d.blockHeaderSize) = none) : R a = none := by
  refine Option.eq_none_iff_forall_ne_some.mpr fun s hRecord => ?_
  obtain ⟨disk, -, -, hObject⟩ := h.object_eq hM hRecord
  rw [hNone] at hObject
  cases hObject

theorem bounds {a : Int} (hRecord : R a = some s) : 0 < a ∧ a < 2 ^ 63 := by
  obtain ⟨disk, -, -, hObject⟩ := h.object_eq hM hRecord
  obtain ⟨-, hEnd, hLimit⟩ := h.undamaged.bounds hObject
  obtain ⟨blocks, free, hIntact⟩ := h.undamaged
  obtain ⟨b, hb, -, hAt, -⟩ := hIntact.holds.object_eq_some_iff.mp hObject
  have hPos := (hIntact.holds.bounds hb).1
  omega

theorem read_eq (hRecord : R a = some s) (hr : r.WellFormed M.types) (hOf : OfTable M.created.2 r) :
    (∃ hdr, d.readBlockHdr position a = some hdr) ∧
      ∃ r', M.read d position a r = some (.returned .noError r') ∧ Alike M.types r' s ∧ M.Sound r' := by
  have hs := h.sound a s hRecord
  obtain ⟨disk, hCreate, -, hObject⟩ := h.object_eq hM hRecord
  obtain ⟨-, hdr, hHdr, -⟩ := h.undamaged.readBlockHdr hObject position
  have hStored : M.toTable.Stored d ⟨M.keyAt M.keyField a s, s⟩ :=
    ⟨hs.wellFormed, hs.ofTable, hs.diskLength, hs.wide, disk, [], hCreate, by rwa [List.append_nil]⟩
  obtain ⟨r', hRead, hAlike, hOf'⟩ := hStored.read hM.table h.undamaged hr hOf position
  exact ⟨⟨hdr, hHdr⟩, r', hRead, hAlike, hs.of_alike hAlike hOf'⟩

omit h in
theorem readAt_eq (h : M.InData R F.data) (hRecord : R a = some s) (hr : r.WellFormed M.types)
    (hOf : OfTable M.created.2 r) :
    ∃ r', M.readAt position r a F = some (.noError, r', F.setDataError .noError) ∧ Alike M.types r' s ∧
      M.Sound r' := by
  obtain ⟨⟨hdr, hHdr⟩, r', hRead, hRest⟩ := h.read_eq hM position hRecord hr hOf
  refine ⟨r', ?_, hRest⟩
  rw [readAt, hHdr, if_neg (by simp), RecordTable.ofTable,
    if_pos (hM.recordDef.symm.trans hOf.definition.recordDef)]
  dsimp only
  rw [hRead]
  rfl

/-- A record that is written is at a new address. -/
theorem alloc_eq (hr : M.Sound r) (hCreate : r.createDiskRecord M.types = some (.ok disk))
    (hFit : d.fileHeader.gxdEof + (disk.length + d.overhead) < 2 ^ 63) (method : ReclaimMethod) :
    ∃ (a : FAU) (d₁ : Database), d.alloc (d.fileSize.toNat + 1) position disk.length method =
        some (a + d.blockHeaderSize, d₁) ∧ d₁.blockHeaderSize = d.blockHeaderSize ∧ R a = none ∧
      (d₁.writeBytes (a + d.blockHeaderSize) disk).rev = d.rev ∧
      M.InData (Function.update R a (some r)) (d₁.writeBytes (a + d.blockHeaderSize) disk) := by
  obtain ⟨b, d₁, l, hAlloc, hUndamaged, hRev, hNone, hLength, hObject⟩ :=
    h.undamaged.alloc position disk.length hFit method
  obtain ⟨a, rfl⟩ : ∃ a : FAU, b = a + d.blockHeaderSize := ⟨b - d.blockHeaderSize, by omega⟩
  have hHere : d₁.object (a + d.blockHeaderSize) = some l := by rw [hObject, Function.update_self]
  obtain ⟨hWritten, hBytes⟩ := hUndamaged.writeBytes hHere 0 disk (by omega)
  rw [Int.natCast_zero, Int.add_zero, Nat.zero_add, List.take_zero, List.nil_append,
    List.drop_of_length_le hLength.le, List.append_nil, hObject, Function.update_idem] at hBytes
  rw [Int.natCast_zero, Int.add_zero] at hWritten
  refine ⟨a, d₁, hAlloc, ?_, h.eq_none hM hNone, hRev, ?_⟩
  · rw [Database.blockHeaderSize, hRev, Database.blockHeaderSize]
  · refine h.of_update hWritten hRev hBytes (fun c hc => Function.update_of_ne hc ..) ?_ fun l => ?_
    · intro s hs
      rw [Function.update_self] at hs
      exact Option.some.inj hs ▸ hr
    · rw [Function.update_self]
      constructor
      · intro hl
        obtain rfl := Option.some.inj hl
        exact ⟨r, rfl, hCreate⟩
      · rintro ⟨s, hs, hl⟩
        obtain rfl := Option.some.inj hs
        rw [hCreate] at hl
        cases hl
        rfl

/-- A block of a record that is deleted is in use no more. -/
theorem delete (hRecord : R a = some s) :
    (d.delete position (a + d.blockHeaderSize) false).1 = true ∧
      M.InData (Function.update R a none) (d.delete position (a + d.blockHeaderSize) false).2 ∧
      (d.delete position (a + d.blockHeaderSize) false).2.fileHeader.gxdEof = d.fileHeader.gxdEof ∧
      (d.delete position (a + d.blockHeaderSize) false).2.rev = d.rev := by
  obtain ⟨disk, -, -, hBlock⟩ := h.object_eq hM hRecord
  obtain ⟨hTrue, hUndamaged, hRev, hObject⟩ := h.undamaged.delete hBlock position
  obtain ⟨x, hHeader⟩ := Database.delete_fileHeader (d := d) position (a + d.blockHeaderSize) false
  refine ⟨hTrue, ?_, by rw [hHeader], hRev⟩
  refine h.of_update hUndamaged hRev hObject (fun c hc => Function.update_of_ne hc ..) ?_ fun l => ?_
  · intro r hr
    rw [Function.update_self] at hr
    cases hr
  · rw [Function.update_self]
    constructor
    · intro hl
      cases hl
    · rintro ⟨r, hr, -⟩
      cases hr

omit hM in
/-- A record that is the same on disk but for some bytes takes the place of another one. -/
theorem overwrite {front old data rest : List UInt8} (hRecord : R a = some s) (hr : M.Sound r)
    (hDisk : s.createDiskRecord M.types = some (.ok (front ++ (old ++ rest))))
    (hCreate : r.createDiskRecord M.types = some (.ok (front ++ (data ++ rest))))
    (hLength : old.length = data.length) :
    M.InData (Function.update R a (some r)) (d.writeBytes (a + d.blockHeaderSize + front.length) data) := by
  have hBlock := (h.blocks a _).mpr ⟨s, hRecord, hDisk⟩
  obtain ⟨hWritten, hBytes⟩ := h.undamaged.writeBytes hBlock front.length data (by
    rw [List.length_append, List.length_append]
    omega)
  rw [List.take_left, ← hLength, ← List.drop_drop, List.drop_left, List.drop_left, List.append_assoc] at hBytes
  refine h.of_update hWritten rfl hBytes (fun c hc => Function.update_of_ne hc ..) ?_ fun l => ?_
  · intro t ht
    rw [Function.update_self] at ht
    exact Option.some.inj ht ▸ hr
  · rw [Function.update_self]
    constructor
    · intro hl
      obtain rfl := Option.some.inj hl
      exact ⟨r, rfl, hCreate⟩
    · rintro ⟨t, ht, hl⟩
      obtain rfl := Option.some.inj ht
      rw [hCreate] at hl
      cases hl
      rfl

end InData

end RecordTable

end DataReel
