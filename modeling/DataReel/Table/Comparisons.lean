import DataReel.Table.KeyImages

/-! # Comparisons of records

What `Compare` reads of two records, and that it finds records with the same contents equal.
-/

namespace DataReel

namespace Record

variable {T : IntTypes} {a b : Record} {data data₁ data₂ extra₁ extra₂ : List UInt8}
  {t₁ t₂ : UInt8} {i n k : Nat} {o : CompareSettings} {all : Bool} {type : FieldType} {result : Int}

/-- A comparison that stays inside the buffers. -/
def Stays (run : Except (Option Int) Int) : Prop := run ≠ .error none

theorem stays_ok {v : Int} : Stays (.ok v) := by
  intro h
  cases h

/-- Two fields by their bytes. -/
def pairOf (T : IntTypes) (t₁ t₂ : UInt8) (data₁ data₂ extra₁ extra₂ : List UInt8) : FieldPair :=
  ⟨Field.image T t₁ data₁.length (data₁ ++ extra₁), data₁.length,
    Field.image T t₂ data₂.length (data₂ ++ extra₂), data₂.length⟩

@[simp] theorem pairOf_numBytes₁ :
    (pairOf T t₁ t₂ data₁ data₂ extra₁ extra₂).numBytes₁ = data₁.length := rfl

@[simp] theorem pairOf_numBytes₂ :
    (pairOf T t₁ t₂ data₁ data₂ extra₁ extra₂).numBytes₂ = data₂.length := rfl

theorem bytes_pairOf {m : Nat} (h₁ : k + n ≤ data₁.length) (h₂ : k + m ≤ data₂.length) :
    (pairOf T t₁ t₂ data₁ data₂ extra₁ extra₂).bytes T k n m =
      .ok ((data₁.drop k).take n, (data₂.drop k).take m) := by
  simp only [FieldPair.bytes, pairOf, peek_at h₁, peek_at h₂]
  rfl

theorem stays_atLeast {f : FieldPair} {run : Except (Option Int) Int}
    (h : n ≤ f.numBytes₁ → n ≤ f.numBytes₂ → Stays run) : Stays (f.atLeast n run) := by
  rw [FieldPair.atLeast]
  split
  · nofun
  next hLong =>
    apply h
    · omega
    · omega

theorem stays_compareValues {order : List UInt8 → List UInt8 → Int} :
    Stays ((pairOf T t₁ t₂ data₁ data₂ extra₁ extra₂).compareValues T o n order) := by
  apply stays_atLeast
  intro h₁ h₂
  rw [pairOf_numBytes₁] at h₁
  rw [pairOf_numBytes₂] at h₂
  rw [bytes_pairOf (by omega) (by omega)]
  exact stays_ok

theorem stays_compareAs (hWords : WordsFit T type) :
    Stays ((pairOf T t₁ t₂ data₁ data₂ extra₁ extra₂).compareAs T o all result type) := by
  cases type with
  | invalid => simp [Stays, FieldPair.compareAs]
  | int16 | int32 | float | currency | date =>
    rw [FieldPair.compareAs]
    exact stays_compareValues
  | bool =>
    apply stays_atLeast
    intro h₁ h₂
    rw [pairOf_numBytes₁] at h₁
    rw [pairOf_numBytes₂] at h₂
    rw [bytes_pairOf (by omega) (by omega)]
    exact stays_ok
  | char | vchar =>
    apply stays_atLeast
    intro _ _
    simp only [pairOf, fieldString_image]
    exact stays_ok
  | blob => exact stays_ok
  | binary =>
    apply stays_atLeast
    intro _ _
    rw [pairOf_numBytes₁, pairOf_numBytes₂, bytes_pairOf (Nat.zero_add _).le (Nat.zero_add _).le]
    exact stays_ok
  | int64 =>
    cases hWords rfl
    apply stays_atLeast
    intro h₁ h₂
    rw [pairOf_numBytes₁] at h₁
    rw [pairOf_numBytes₂] at h₂
    rw [bytes_pairOf (by omega) (by omega), IntTypes.wordSize, bytes_pairOf (by omega) (by omega),
      bytes_pairOf (by omega) (by omega)]
    simp only [bind, Except.bind]
    split <;> exact stays_ok

/-- A field that compares equal to itself: it is as long as a value, and its value is a number where
it has to be one. -/
structure Comparable (T : IntTypes) (o : CompareSettings) (type : FieldType) (data : List UInt8) :
    Prop where
  valid : type ≠ .invalid
  long : type ≠ .blob → type.size T ≤ data.length
  number : type = .float ∨ type = .currency → o.findMatch = false →
    ¬ isNaN (floatBits T (data.take 8))

theorem order3_self' {α : Type} [LT α] [DecidableLT α] {v : α} (h : ¬ v < v) : order3 v v = 0 := by
  rw [order3, if_neg h, if_neg h]

theorem wordsOrder_self (low high : Int) : wordsOrder low high low high = 0 := by
  rw [wordsOrder, if_pos rfl, order3_self]

theorem atLeast_self {run : Except (Option Int) Int} (h : n ≤ data.length) :
    (pairOf T t₁ t₂ data data extra₁ extra₂).atLeast n run = run := by
  rw [FieldPair.atLeast, if_neg]
  rw [pairOf_numBytes₁, pairOf_numBytes₂]
  omega

theorem compareValues_self {order : List UInt8 → List UInt8 → Int} (hLong : n ≤ data.length)
    (hOrder : o.findMatch = false → order (data.take n) (data.take n) = 0) :
    (pairOf T t₁ t₂ data data extra₁ extra₂).compareValues T o n order = .ok 0 := by
  rw [FieldPair.compareValues, atLeast_self hLong,
    bytes_pairOf (by omega) (by omega)]
  simp only [bind, Except.bind, pure, Except.pure, List.drop_zero, List.infix_rfl, and_true]
  split
  · rfl
  next h => rw [hOrder (by simpa using h)]

theorem compareAs_self (hWords : WordsFit T type) (h : Comparable T o type data)
    (hBlob : all = false → type ≠ .blob) :
    (pairOf T t₁ t₂ data data extra₁ extra₂).compareAs T o all result type = .ok 0 := by
  cases type with
  | invalid => exact absurd rfl h.valid
  | int16 | int32 | date =>
    rw [FieldPair.compareAs]
    apply compareValues_self (h.long (by simp))
    intro _
    exact order3_self _
  | float | currency =>
    rw [FieldPair.compareAs]
    apply compareValues_self (h.long (by simp))
    intro hFind
    have hNumber := h.number (by simp) hFind
    rw [floatOrder, if_neg (by simpa [FieldType.size] using hNumber), order3_self]
  | bool =>
    have hLong : 1 ≤ data.length := h.long (by simp)
    rw [FieldPair.compareAs, atLeast_self hLong,
      bytes_pairOf (by omega) (by omega)]
    simp only [bind, Except.bind, order3_self]
    rfl
  | char | vchar =>
    have hLong : 1 ≤ data.length := h.long (by simp)
    rw [FieldPair.compareAs, atLeast_self hLong]
    simp only [pairOf, fieldString_image, within, bind, Except.bind, pure, Except.pure,
      List.infix_rfl, and_true, naturalCompare_self, compare3]
    rw [order3_self' (List.lt_irrefl _)]
    simp
  | blob =>
    cases all with
    | false => exact absurd rfl (hBlob rfl)
    | true => rfl
  | binary =>
    have hLong : 1 ≤ data.length := h.long (by simp)
    rw [FieldPair.compareAs, atLeast_self hLong, pairOf_numBytes₁,
      pairOf_numBytes₂, bytes_pairOf (Nat.zero_add _).le (Nat.zero_add _).le]
    simp only [bind, Except.bind, pure, Except.pure, List.drop_zero, List.take_length,
      List.infix_rfl, and_true, bufferCompare]
    rw [order3_self' (List.lt_irrefl _)]
    simp
  | int64 =>
    cases hWords rfl
    have hLong : 8 ≤ data.length := h.long (by simp)
    rw [FieldPair.compareAs, atLeast_self hLong,
      bytes_pairOf (by omega) (by omega), IntTypes.wordSize, bytes_pairOf (by omega) (by omega),
      bytes_pairOf (by omega) (by omega)]
    simp only [bind, Except.bind, pure, Except.pure, List.infix_rfl, and_true, wordsOrder_self]
    simp

/-! ## Two records of one definition -/

structure SameDefinition (a b : Record) : Prop where
  tableName : a.tableName = b.tableName
  recordDef : a.recordDef = b.recordDef
  numFields : a.numFields = b.numFields

/-- The fields have the same types and bytes. -/
def SameContents (T : IntTypes) (a b : Record) : Prop :=
  ∀ i < a.numFields, Field.contents T (a.fieldBuf i) = Field.contents T (b.fieldBuf i)

/-- A field that compares equal to one with the same contents. A BLOB alone never does. -/
def FieldComparable (T : IntTypes) (o : CompareSettings) (all : Bool) (a : Record) (i : Nat) : Prop :=
  ∃ t data type, Field.contents T (a.fieldBuf i) = some (t, data) ∧ FieldType.ofId t = some type ∧
    Comparable T o type data ∧ (all = false → type ≠ .blob)

/-- The fields that are compared compare equal to others with the same contents. -/
def FieldsComparable (T : IntTypes) (o : CompareSettings) (a : Record) (field : Nat) : Prop :=
  if compareAll field a.numFields then ∀ i < a.numFields, FieldComparable T o true a i
  else FieldComparable T o false a field

theorem compareField_stays (ha : a.WellFormed T) (hb : b.WellFormed T) (hia : i < a.numFields)
    (hib : i < b.numFields) (hWide : WideFit T a) :
    Stays (compareField T o all (a.fieldBuf i) (b.fieldBuf i) result) := by
  obtain ⟨t₁, data₁, extra₁, hBuf₁, hBytes₁⟩ := (ha.field i hia).image
  obtain ⟨t₂, data₂, extra₂, hBuf₂, hBytes₂⟩ := (hb.field i hib).image
  have hHead : (a.fieldBuf i).headD 0 = t₁ := by
    rw [hBuf₁]
    rfl
  rw [hBuf₁, hBuf₂, compareField, Field.header_image hBytes₁, Field.header_image hBytes₂]
  simp only [within, bind, Except.bind]
  by_cases hTypes : t₁ ≠ t₂
  · rw [if_pos hTypes]
    simp [Stays]
  · rw [if_neg hTypes]
    cases hType : FieldType.ofId t₁ with
    | none => simp [Stays]
    | some type => exact stays_compareAs (hWide i hia type (by rw [hHead, hType]))

theorem compareField_same (ha : a.WellFormed T) (hb : b.WellFormed T) (hia : i < a.numFields)
    (hib : i < b.numFields) (hWide : WideFit T a)
    (hSame : Field.contents T (a.fieldBuf i) = Field.contents T (b.fieldBuf i))
    (h : FieldComparable T o all a i) :
    compareField T o all (a.fieldBuf i) (b.fieldBuf i) result = .ok 0 := by
  obtain ⟨t₁, data₁, extra₁, hBuf₁, hBytes₁⟩ := (ha.field i hia).image
  obtain ⟨t₂, data₂, extra₂, hBuf₂, hBytes₂⟩ := (hb.field i hib).image
  obtain ⟨t, data, type, hContents, hType, hComparable, hBlob⟩ := h
  have hHead : (a.fieldBuf i).headD 0 = t₁ := by
    rw [hBuf₁]
    rfl
  rw [hBuf₁, hBuf₂, Field.contents_image hBytes₁, Field.contents_image hBytes₂] at hSame
  rw [hBuf₁, Field.contents_image hBytes₁] at hContents
  cases hSame
  cases hContents
  rw [hBuf₁, hBuf₂, compareField, Field.header_image hBytes₁, Field.header_image hBytes₁]
  simp only [within, bind, Except.bind, ne_eq, not_true_eq_false, if_false, hType]
  exact compareAs_self (hWide i hia type (by rw [hHead, hType])) hComparable hBlob

theorem compareFields_stays (ha : a.WellFormed T) (hb : b.WellFormed T) (hia : i + n ≤ a.numFields)
    (hib : i + n ≤ b.numFields) (hWide : WideFit T a) :
    Stays (compareFields T a b o i n result) := by
  induction n generalizing i result with
  | zero => nofun
  | succ n ih =>
    have hField : Stays (compareField T o true (a.fieldBuf i) (b.fieldBuf i) result) :=
      compareField_stays ha hb (by omega) (by omega) hWide
    rw [compareFields]
    cases hRun : compareField T o true (a.fieldBuf i) (b.fieldBuf i) result with
    | error e =>
      rw [hRun] at hField
      exact hField
    | ok v =>
      simp only [bind, Except.bind]
      split
      · nofun
      · exact ih (by omega) (by omega)

theorem compareFields_same (ha : a.WellFormed T) (hb : b.WellFormed T) (hia : i + n ≤ a.numFields)
    (hib : i + n ≤ b.numFields) (hWide : WideFit T a) (hSame : SameContents T a b)
    (h : ∀ j < a.numFields, FieldComparable T o true a j) :
    compareFields T a b o i n result = .ok 0 := by
  induction n generalizing i result with
  | zero => rfl
  | succ n ih =>
    have hi : i < a.numFields := by omega
    rw [compareFields, compareField_same ha hb hi (by omega) hWide (hSame i hi) (h i hi)]
    exact ih (by omega) (by omega)

theorem compare_eq (hNe : a.dbRecord ≠ []) (hNe' : b.dbRecord ≠ []) (hDef : SameDefinition a b)
    (field : Nat) :
    compare T a b field o =
      match if compareAll field a.numFields then compareFields T a b o 0 a.numFields (-1)
        else compareField T o false (a.fieldBuf field) (b.fieldBuf field) (-1) with
      | .ok result => some result
      | .error e => e := by
  unfold compare
  apply if_neg
  simp [hNe, hNe', hDef.tableName, hDef.recordDef, hDef.numFields]

theorem not_compareAll {field : Nat} (h : ¬ compareAll field n) : field < n := by
  rw [compareAll, decide_eq_true_eq] at h
  omega

theorem compare_isSome (ha : a.WellFormed T) (hb : b.WellFormed T) (hNe : a.dbRecord ≠ [])
    (hNe' : b.dbRecord ≠ []) (hDef : SameDefinition a b) (hWide : WideFit T a) (field : Nat) :
    ∃ v, compare T a b field o = some v := by
  have hNum := hDef.numFields
  have hRun : Stays (if compareAll field a.numFields then compareFields T a b o 0 a.numFields (-1)
      else compareField T o false (a.fieldBuf field) (b.fieldBuf field) (-1)) := by
    split
    · exact compareFields_stays ha hb (by omega) (by omega) hWide
    next hAll =>
      have hField := not_compareAll hAll
      exact compareField_stays ha hb hField (by omega) hWide
  rw [compare_eq hNe hNe' hDef]
  split
  next v _ => exact ⟨v, rfl⟩
  next e hError =>
    rw [hError] at hRun
    cases e with
    | none => exact absurd rfl hRun
    | some v => exact ⟨v, rfl⟩

theorem compare_same (ha : a.WellFormed T) (hb : b.WellFormed T) (hNe : a.dbRecord ≠ [])
    (hNe' : b.dbRecord ≠ []) (hDef : SameDefinition a b) (hWide : WideFit T a)
    (hSame : SameContents T a b) {field : Nat} (h : FieldsComparable T o a field) :
    compare T a b field o = some 0 := by
  have hNum := hDef.numFields
  rw [compare_eq hNe hNe' hDef]
  unfold FieldsComparable at h
  by_cases hAll : compareAll field a.numFields
  · rw [if_pos hAll] at h ⊢
    rw [compareFields_same ha hb (by omega) (by omega) hWide hSame h]
  · rw [if_neg hAll] at h ⊢
    have hField := not_compareAll hAll
    rw [compareField_same ha hb hField (by omega) hWide (hSame field hField) h]

/-! ## Keys of two records -/

theorem fieldImage_same (h : Field.contents T (a.fieldBuf i) = Field.contents T (b.fieldBuf i))
    (c : Bool) : a.fieldImage T c i = b.fieldImage T c i := by
  rw [fieldImage, fieldImage, h]

theorem fieldImage_eq (h : Field.contents T (a.fieldBuf i) = some (t₁, data))
    (hType : FieldType.ofId t₁ = some type) (c : Bool) : a.fieldImage T c i = keyImage T c type data := by
  simp only [fieldImage, h, Option.bind_eq_bind, Option.bind_some, hType]

theorem fieldImages_same (h : SameContents T a b) (c : Bool) (hn : i + n ≤ a.numFields) :
    a.fieldImages T c i n = b.fieldImages T c i n := by
  induction n generalizing i with
  | zero => rfl
  | succ n ih => rw [fieldImages, fieldImages, fieldImage_same (h i (by omega)), ih (by omega)]

theorem keyImages_same (h : SameContents T a b) (hNum : a.numFields = b.numFields) (c : Bool)
    (field : Nat) : a.keyImages T c field = b.keyImages T c field := by
  rw [keyImages, keyImages, ← hNum]
  by_cases hAll : compareAll field a.numFields
  · rw [if_pos hAll, if_pos hAll, fieldImages_same h c (by omega)]
  · have hField := not_compareAll hAll
    rw [if_neg hAll, if_neg hAll, fieldImages_same h c (by omega)]

/-- The images of fields, one by one. -/
theorem fieldImage_of_fieldImages {c : Bool} {images : List (List UInt8)}
    (h : a.fieldImages T c i n = some images) (hk : k < n) :
    ∃ image, a.fieldImage T c (i + k) = some image ∧ images[k]? = some image := by
  induction n generalizing i k images with
  | zero => omega
  | succ n ih =>
    simp only [fieldImages, Option.bind_eq_bind, Option.bind_eq_some_iff] at h
    obtain ⟨image, hImage, rest, hRest, h⟩ := h
    cases h
    cases k with
    | zero => exact ⟨image, hImage, rfl⟩
    | succ k =>
      obtain ⟨image', hImage', hRest'⟩ := ih hRest (show k < n by omega)
      refine ⟨image', ?_, hRest'⟩
      rwa [Nat.add_right_comm] at hImage'

/-- The bytes of a field that its image has. -/
def valueBytes (T : IntTypes) (type : FieldType) (data : List UInt8) : List UInt8 :=
  if type = .binary then data else data.take (type.size T)

theorem valueBytes_of_keyImage {c : Bool} {image : List UInt8}
    (hType : type ∉ [FieldType.char, .vchar, .blob]) (h : keyImage T c type data = some image) :
    valueBytes T type data = image := by
  cases type with
  | char | vchar | blob => simp at hType
  | invalid => cases h
  | binary | bool | int16 | int32 | int64 | float | currency | date =>
    rw [keyImage] at h
    · split at h
      · cases h
      · cases h
        rfl
    all_goals simp

/-- Two records whose images are as long as each other's, field by field, and make the same bytes. -/
theorem valueBytes_eq {c : Bool} {images images' : List (List UInt8)}
    (ha : a.fieldImages T c 0 n = some images) (hb : b.fieldImages T c 0 n = some images')
    (hLengths : images.map List.length = images'.map List.length)
    (hBytes : images.flatten = images'.flatten) (hi : i < n)
    (hContents₁ : Field.contents T (a.fieldBuf i) = some (t₁, data₁))
    (hContents₂ : Field.contents T (b.fieldBuf i) = some (t₁, data₂))
    (hType : FieldType.ofId t₁ = some type) (hValue : type ∉ [FieldType.char, .vchar, .blob]) :
    valueBytes T type data₁ = valueBytes T type data₂ := by
  have hEq : images = images' := List.eq_iff_flatten_eq.mpr ⟨hBytes, hLengths⟩
  obtain ⟨image₁, hImage₁, hPlace₁⟩ := fieldImage_of_fieldImages ha hi
  obtain ⟨image₂, hImage₂, hPlace₂⟩ := fieldImage_of_fieldImages hb hi
  rw [hEq, hPlace₂] at hPlace₁
  cases hPlace₁
  rw [Nat.zero_add, fieldImage_eq hContents₁ hType] at hImage₁
  rw [Nat.zero_add, fieldImage_eq hContents₂ hType] at hImage₂
  rw [valueBytes_of_keyImage hValue hImage₁, valueBytes_of_keyImage hValue hImage₂]

/-- The field number for all fields. -/
def allFields : Nat := 2 ^ 64 - 1

/-- What keys and comparisons of two records of one definition are. -/
structure KeysSound (T : IntTypes) (a b : Record) : Prop where
  /-- Both stay inside the buffers. -/
  key : ∀ field c, ∃ k, a.createKey T field c = some k
  comparison : ∀ field o, ∃ v, compare T a b field o = some v
  /-- The same contents have the same keys and compare equal. -/
  sameKey : SameContents T a b → ∀ field c, a.createKey T field c = b.createKey T field c
  sameComparison : SameContents T a b →
    ∀ field o, FieldsComparable T o a field → compare T a b field o = some 0
  /-- The key of all fields is the checksum of their images, one behind another. -/
  checksum : ∀ c images, a.keyImages T c allFields = some images →
    a.createKey T allFields c = some (calcCRC32 images.flatten)
  /-- Images of the same lengths that make the same bytes are of the same values. -/
  values : ∀ c images images', a.keyImages T c allFields = some images →
    b.keyImages T c allFields = some images' →
    images.map List.length = images'.map List.length → images.flatten = images'.flatten →
    ∀ i < a.numFields, ∀ t data data' type, Field.contents T (a.fieldBuf i) = some (t, data) →
      Field.contents T (b.fieldBuf i) = some (t, data') → FieldType.ofId t = some type →
      type ∉ [FieldType.char, .vchar, .blob] → valueBytes T type data = valueBytes T type data'

/-- Two records of one definition, where the words of 64-bit integers fit. -/
theorem createKey_compare (T : IntTypes) (a b : Record) (ha : a.WellFormed T) (hb : b.WellFormed T)
    (hNe : a.dbRecord ≠ []) (hDef : SameDefinition a b) (hMax : a.diskLength T ≤ vectorMax)
    (hMax' : b.diskLength T ≤ vectorMax) (hWide : WideFit T a) (hWide' : WideFit T b) :
    KeysSound T a b := by
  have hNum := hDef.numFields
  have hNe' : b.dbRecord ≠ [] := by
    intro hNil
    have hLe := hb.numFields_le
    have hPos := ha.numFields_pos hNe
    rw [hNil, List.length_nil] at hLe
    omega
  have hAll (n : Nat) : compareAll allFields n = true := by simp [compareAll, allFields]
  constructor
  · exact fun field c => ⟨_, createKey_eq ha hNe hMax hWide field⟩
  · exact fun field o => compare_isSome ha hb hNe hNe' hDef hWide field
  · intro hSame field c
    rw [createKey_eq ha hNe hMax hWide, createKey_eq hb hNe' hMax' hWide',
      keyImages_same hSame hNum]
  · intro hSame field o hComparable
    exact compare_same ha hb hNe hNe' hDef hWide hSame hComparable
  · intro c images hImages
    rw [createKey_eq ha hNe hMax hWide, hImages]
  · intro c images images' hImages hImages' hLengths hBytes i hi t data data' type hData hData' hType hValue
    rw [keyImages, if_pos (hAll _)] at hImages hImages'
    rw [← hNum] at hImages'
    exact valueBytes_eq hImages hImages' hLengths hBytes hi hData hData' hType hValue

/-- A record by the types and the bytes of its fields. -/
def ofFields (T : IntTypes) (fields : List (FieldType × List UInt8)) : Record where
  tableName := [116]
  recordDef := [116]
  numFields := fields.length
  dbRecord := fields.map fun f => Field.image T f.1.typeId f.2.length f.2
  excludeFields := []

theorem ofFields_wellFormed {fields : List (FieldType × List UInt8)}
    (hMax : fields.length ≤ recordMaxFields)
    (hLength : ∀ f ∈ fields, Field.overhead T + f.2.length ≤ vectorMax) :
    (ofFields T fields).WellFormed T := by
  constructor
  · exact (List.length_map _).ge
  · exact hMax
  · intro hNe
    apply List.length_pos_of_ne_nil
    rintro rfl
    exact hNe rfl
  · intro i hi
    have hBuf : (ofFields T fields).fieldBuf i =
        Field.image T (fields[i].1.typeId) fields[i].2.length fields[i].2 := by
      rw [fieldBuf, ofFields, List.getD_eq_getElem _ _ (by rw [List.length_map]; exact hi), List.getElem_map]
      rfl
    rw [hBuf]
    exact Field.wellFormed_image le_rfl (hLength _ (List.getElem_mem hi))

theorem createKey_compare_int64 :
    KeysSound .portable (ofFields .portable [(.int64, [1, 2, 3, 4, 5, 6, 7, 8])])
      (ofFields .portable [(.int64, [1, 2, 3, 4, 5, 6, 7, 8])]) := by
  apply createKey_compare
  · exact ofFields_wellFormed (by decide) (by decide)
  · exact ofFields_wellFormed (by decide) (by decide)
  · decide
  · exact ⟨rfl, rfl, rfl⟩
  · decide +kernel
  · decide +kernel
  · exact fun _ _ _ _ _ => rfl
  · exact fun _ _ _ _ _ => rfl

/-- A 64-bit integer whose high word is behind its buffer; a BLOB, a number that is none and a field
too short for its type, which are not equal to themselves; two records with different BOOL fields
whose keys are of the same bytes. -/
theorem createKey_compare_fails :
    (ofFields .native [(.int64, [1, 2, 3, 4, 5, 6, 7, 8])]).WellFormed .native ∧
    (ofFields .native [(.int64, [1, 2, 3, 4, 5, 6, 7, 8])]).createKey .native 0 true = none ∧
    (∀ fields ∈ [[(FieldType.blob, [(1 : UInt8)])], [(.float, [127, 248, 0, 0, 0, 0, 0, 0])],
        [(.int16, [5])]],
      (ofFields .portable fields).WellFormed .portable ∧
        compare .portable (ofFields .portable fields) (ofFields .portable fields) 0
          ⟨true, false, false⟩ = some (-1)) ∧
    (ofFields .portable [(.char, [97, 98]), (.bool, [99]), (.char, [100, 0])]).WellFormed .portable ∧
    (ofFields .portable [(.char, [97, 0]), (.bool, [98]), (.char, [99, 100])]).WellFormed .portable ∧
    ((ofFields .portable [(.char, [97, 98]), (.bool, [99]), (.char, [100, 0])]).keyImages .portable true
        allFields).map List.flatten =
      ((ofFields .portable [(.char, [97, 0]), (.bool, [98]), (.char, [99, 100])]).keyImages .portable true
        allFields).map List.flatten := by
  refine ⟨ofFields_wellFormed (by decide) (by decide), by decide +kernel, ?_,
    ofFields_wellFormed (by decide) (by decide), ofFields_wellFormed (by decide) (by decide),
    by decide +kernel⟩
  intro fields hFields
  simp only [List.mem_cons, List.not_mem_nil, or_false] at hFields
  obtain rfl | rfl | rfl := hFields
  · exact ⟨ofFields_wellFormed (by decide) (by decide), by decide +kernel⟩
  · exact ⟨ofFields_wellFormed (by decide) (by decide), by decide +kernel⟩
  · exact ⟨ofFields_wellFormed (by decide) (by decide), by decide +kernel⟩

end Record

end DataReel
