import DataReel.Library.OrderedSet
import DataReel.Table.StoredRecords
import DataReel.Table.ValueOrder

/-! # The order of records

`Compare` is the order of a list of records by a field or by all of them, where every field that it
compares has the bytes that it reads. A BLOB alone and a field that is too short are less than
themselves.
-/

namespace DataReel

/-- The database engine of a build, which says how a 64-bit integer is read. -/
inductive Engine
  | bits32
  | bits64
  deriving DecidableEq, Repr

namespace Record

variable (T : IntTypes) (E : Engine)

/-- The comparison of two fields of a type. The 64-bit engine compares one `gxINT64` each, the 32-bit
engine two words. -/
def FieldPair.compareIn (f : FieldPair) (o : CompareSettings) (all : Bool) (result : Int)
    (type : FieldType) : Except (Option Int) Int :=
  match E, type with
  | .bits64, .int64 => f.compareValues T o 8 fun p₁ p₂ =>
    order3 (signedValue 8 (Bytes.leNat p₁)) (signedValue 8 (Bytes.leNat p₂))
  | _, type => f.compareAs T o all result type

/-- The comparison of one field of two records. -/
def compareFieldIn (o : CompareSettings) (all : Bool) (buf₁ buf₂ : List UInt8) (result : Int) :
    Except (Option Int) Int := do
  let (typeId₁, numBytes₁) ← within (Field.header T buf₁)
  let (typeId₂, numBytes₂) ← within (Field.header T buf₂)
  if typeId₁ ≠ typeId₂ then .error (some (-1))
  else
    match FieldType.ofId typeId₁ with
    | none => .error (some (-1))
    | some type => FieldPair.compareIn T E ⟨buf₁, numBytes₁, buf₂, numBytes₂⟩ o all result type

/-- The loop of `Compare` over `n` fields from the field `i` on. -/
def compareFieldsIn (a b : Record) (o : CompareSettings) : Nat → Nat → Int → Except (Option Int) Int
  | _, 0, _ => .ok 0
  | i, n + 1, result => do
    let result ← compareFieldIn T E o true (a.fieldBuf i) (b.fieldBuf i) result
    if result ≠ 0 then return result else compareFieldsIn a b o (i + 1) n result

/-- `Compare` with either engine. `none` where it goes outside of a buffer. -/
def compareIn (a b : Record) (field : Nat) (o : CompareSettings) : Option Int :=
  if a.dbRecord = [] ∨ b.dbRecord = [] ∨ a.tableName ≠ b.tableName ∨ a.recordDef ≠ b.recordDef ∨
      a.numFields ≠ b.numFields then some (-1)
  else
    let run := if compareAll field a.numFields then compareFieldsIn T E a b o 0 a.numFields (-1)
      else compareFieldIn T E o false (a.fieldBuf field) (b.fieldBuf field) (-1)
    match run with
    | .ok result => some result
    | .error e => e

theorem compareFieldsIn_bits32 (a b : Record) (o : CompareSettings) (i n : Nat) (result : Int) :
    compareFieldsIn T .bits32 a b o i n result = compareFields T a b o i n result := by
  induction n generalizing i result with
  | zero => rfl
  | succ n ih =>
    rw [compareFieldsIn, compareFields]
    simp only [ih]
    rfl

/-- The 32-bit engine is the one of `Compare` as it was. -/
theorem compareIn_bits32 (a b : Record) (field : Nat) (o : CompareSettings) :
    compareIn T .bits32 a b field o = compare T a b field o := by
  simp only [compareIn, compareFieldsIn_bits32]
  rfl

/-! ## The orders of the types -/

/-- The bytes of a field and those behind them in its buffer. -/
structure Held where
  data : List UInt8
  extra : List UInt8

def held (buf : List UInt8) : Held :=
  let space := buf.drop (Field.overhead T)
  let numBytes := ((Field.header T buf).map Prod.snd).getD 0
  ⟨space.take numBytes, space.drop numBytes⟩

def Held.bytes (x : Held) : List UInt8 := x.data ++ x.extra

/-- The order of strings. -/
def textOrder (caseCmp alphaCmp : Bool) (s t : List UInt8) : Int :=
  let s := if caseCmp then s else upperBytes s
  let t := if caseCmp then t else upperBytes t
  if alphaCmp then naturalCompare s t else compare3 s t

/-- The order of the fields of a type. -/
def fieldOrder (caseCmp alphaCmp : Bool) (type : FieldType) (x y : Held) : Int :=
  match type with
  | .bool => order3 (signedValue 1 (Bytes.leNat (x.data.take 1))) (signedValue 1 (Bytes.leNat (y.data.take 1)))
  | .char | .vchar =>
    textOrder caseCmp alphaCmp (x.data.takeWhile (· ≠ 0)) (y.data.takeWhile (· ≠ 0))
  | .binary => bufferCompare x.data y.data
  | .int16 => order3 (signedValue 2 (Bytes.leNat (x.data.take 2))) (signedValue 2 (Bytes.leNat (y.data.take 2)))
  | .int32 => order3 (wordValue T (x.data.take T.wordSize)) (wordValue T (y.data.take T.wordSize))
  | .int64 =>
    match E with
    | .bits64 =>
      order3 (signedValue 8 (Bytes.leNat (x.data.take 8))) (signedValue 8 (Bytes.leNat (y.data.take 8)))
    | .bits32 =>
      wordsOrder (wordValue T (x.bytes.take T.wordSize))
        (wordValue T ((x.bytes.drop T.wordSize).take T.wordSize))
        (wordValue T (y.bytes.take T.wordSize))
        (wordValue T ((y.bytes.drop T.wordSize).take T.wordSize))
  | .float | .currency => order3 (floatKey (floatBits T (x.data.take 8))) (floatKey (floatBits T (y.data.take 8)))
  | .date => order3 (dateKey (x.data.take 4)) (dateKey (y.data.take 4))
  | .blob | .invalid => 0

theorem textOrder_threeWay (caseCmp alphaCmp : Bool) : ThreeWay (textOrder caseCmp alphaCmp) := by
  cases alphaCmp with
  | true => exact naturalCompare_threeWay.comap fun s => if caseCmp then s else upperBytes s
  | false => exact compare3_threeWay.comap fun s => if caseCmp then s else upperBytes s

theorem fieldOrder_threeWay (caseCmp alphaCmp : Bool) (type : FieldType) :
    ThreeWay (fieldOrder T E caseCmp alphaCmp type) := by
  cases type with
  | bool => exact order3_int.comap fun x : Held => signedValue 1 (Bytes.leNat (x.data.take 1))
  | char => exact (textOrder_threeWay caseCmp alphaCmp).comap fun x : Held => x.data.takeWhile (· ≠ 0)
  | vchar => exact (textOrder_threeWay caseCmp alphaCmp).comap fun x : Held => x.data.takeWhile (· ≠ 0)
  | binary => exact order3_bytes.comap Held.data
  | int16 => exact order3_int.comap fun x : Held => signedValue 2 (Bytes.leNat (x.data.take 2))
  | int32 => exact order3_int.comap fun x : Held => wordValue T (x.data.take T.wordSize)
  | int64 =>
    cases E with
    | bits64 => exact order3_int.comap fun x : Held => signedValue 8 (Bytes.leNat (x.data.take 8))
    | bits32 =>
      have hHigh : ThreeWay fun x y : Held => order3 (wordValue T ((x.bytes.drop T.wordSize).take T.wordSize))
          (wordValue T ((y.bytes.drop T.wordSize).take T.wordSize)) := order3_int.comap _
      have hLow : ThreeWay fun x y : Held => order3 (wordValue T (x.bytes.take T.wordSize))
          (wordValue T (y.bytes.take T.wordSize)) := order3_int.comap _
      have hWords := hHigh.andThen hLow
      simp only [← wordsOrder_eq] at hWords
      exact hWords
  | float => exact order3_int.comap fun x : Held => floatKey (floatBits T (x.data.take 8))
  | currency => exact order3_int.comap fun x : Held => floatKey (floatBits T (x.data.take 8))
  | date => exact order3_nat.comap fun x : Held => dateKey (x.data.take 4)
  | blob => exact ThreeWay.zero
  | invalid => exact ThreeWay.zero

/-! ## Fields that are compared -/

/-- A field has the bytes that a comparison reads: as many as its type takes, and two words for a 64-bit
integer of the 32-bit engine. -/
structure Sortable (type : FieldType) (x : Held) : Prop where
  long : type ≠ .blob → type.size T ≤ x.data.length
  words : type = .int64 → E = .bits32 → 2 * T.wordSize ≤ x.bytes.length

/-- A floating point number is no NaN. -/
def Numeric (type : FieldType) (x : Held) : Prop :=
  type = .float ∨ type = .currency → 8 ≤ x.data.length → isNaN (floatBits T (x.data.take 8)) = false

variable {T E} {x y : Held} {t₁ t₂ : UInt8} {caseCmp alphaCmp all : Bool} {type : FieldType} {result : Int}
  {n k : Nat}

theorem image_drop {data extra : List UInt8} {t : UInt8} :
    (Field.image T t data.length (data ++ extra)).drop (Field.overhead T) = data ++ extra := by
  rw [Field.image, ← List.cons_append, List.drop_left' Field.overhead_eq]

theorem held_image {data extra : List UInt8} {t : UInt8} (h : data.length < 256 ^ T.wordSize) :
    held T (Field.image T t data.length (data ++ extra)) = ⟨data, extra⟩ := by
  simp [held, image_drop, Field.header_image h]

theorem peek_bytes (t : UInt8) (k n : Nat) :
    peek (Field.image T t x.data.length (x.data ++ x.extra)) (Field.overhead T + k) n =
      if k + n ≤ x.bytes.length then some ((x.bytes.drop k).take n) else none := by
  have hDrop : (Field.image T t x.data.length (x.data ++ x.extra)).drop (Field.overhead T + k) =
      x.bytes.drop k := by
    rw [← List.drop_drop, image_drop, Held.bytes]
  rw [peek, hDrop, Field.image_length]
  by_cases h : k + n ≤ x.bytes.length
  · rw [if_pos h, if_pos]
    rw [Held.bytes] at h
    omega
  · rw [if_neg h, if_neg]
    rw [Held.bytes] at h
    omega

/-- Two fields by what they hold. -/
abbrev pairHeld (T : IntTypes) (t₁ t₂ : UInt8) (x y : Held) : FieldPair :=
  pairOf T t₁ t₂ x.data y.data x.extra y.extra

theorem bytes_pairHeld (hx : k + n ≤ x.bytes.length) (hy : k + n ≤ y.bytes.length) :
    (pairHeld T t₁ t₂ x y).bytes T k n n = .ok ((x.bytes.drop k).take n, (y.bytes.drop k).take n) := by
  simp only [FieldPair.bytes, pairOf, peek_bytes, if_pos hx, if_pos hy]
  rfl

theorem atLeast_pairHeld {run : Except (Option Int) Int} (hx : n ≤ x.data.length)
    (hy : n ≤ y.data.length) : (pairHeld T t₁ t₂ x y).atLeast n run = run := by
  rw [FieldPair.atLeast, if_neg]
  rw [pairOf_numBytes₁, pairOf_numBytes₂]
  omega

theorem compareValues_pairHeld {order : List UInt8 → List UInt8 → Int} (hx : n ≤ x.data.length)
    (hy : n ≤ y.data.length) :
    (pairHeld T t₁ t₂ x y).compareValues T ⟨caseCmp, alphaCmp, false⟩ n order =
      .ok (order (x.data.take n) (y.data.take n)) := by
  rw [FieldPair.compareValues, atLeast_pairHeld hx hy, bytes_pairOf (by omega) (by omega)]
  simp [bind, Except.bind, pure, Except.pure]

/-- The comparison of the words of 64-bit integers, as far as they can be read. -/
theorem compareAs_words {f : FieldPair} {p low high : List UInt8 × List UInt8}
    (hLong : ∀ run, f.atLeast 8 run = run) (hBytes : f.bytes T 0 8 8 = .ok p)
    (hLow : f.bytes T 0 T.wordSize T.wordSize = .ok low)
    (hHigh : f.bytes T T.wordSize T.wordSize T.wordSize = .ok high) :
    f.compareAs T ⟨caseCmp, alphaCmp, false⟩ all result .int64 =
      .ok (wordsOrder (wordValue T low.1) (wordValue T high.1) (wordValue T low.2) (wordValue T high.2)) := by
  simp [FieldPair.compareAs, hLong, hBytes, hLow, hHigh, bind, Except.bind, pure, Except.pure]

theorem Sortable.compareIn (hx : Sortable T E type x) (hy : Sortable T E type y)
    (hNumX : Numeric T type x) (hNumY : Numeric T type y) (hValid : type ≠ .invalid)
    (hBlob : all = false → type ≠ .blob) :
    (pairHeld T t₁ t₂ x y).compareIn T E ⟨caseCmp, alphaCmp, false⟩ all result type =
      .ok (fieldOrder T E caseCmp alphaCmp type x y) := by
  cases type with
  | invalid => exact absurd rfl hValid
  | int16 | int32 | date =>
    have hLongX := hx.long (by simp)
    have hLongY := hy.long (by simp)
    simp only [FieldType.size] at hLongX hLongY
    rw [FieldPair.compareIn, FieldPair.compareAs, compareValues_pairHeld hLongX hLongY]
    · rw [fieldOrder]
    all_goals simp
  | float | currency =>
    have hLongX : 8 ≤ x.data.length := hx.long (by simp)
    have hLongY : 8 ≤ y.data.length := hy.long (by simp)
    have hNumbers : ¬ (isNaN (floatBits T (x.data.take 8)) = true ∨ isNaN (floatBits T (y.data.take 8)) = true) := by
      rw [hNumX (by simp) hLongX, hNumY (by simp) hLongY]
      simp
    rw [FieldPair.compareIn, FieldPair.compareAs, compareValues_pairHeld hLongX hLongY]
    · rw [floatOrder, if_neg hNumbers, fieldOrder]
    all_goals simp
  | bool =>
    have hLongX : 1 ≤ x.data.length := hx.long (by simp)
    have hLongY : 1 ≤ y.data.length := hy.long (by simp)
    rw [FieldPair.compareIn, FieldPair.compareAs, atLeast_pairHeld hLongX hLongY,
      bytes_pairOf (by omega) (by omega)]
    · simp [bind, Except.bind, pure, Except.pure, fieldOrder]
    all_goals simp
  | char | vchar =>
    have hLongX : 1 ≤ x.data.length := hx.long (by simp)
    have hLongY : 1 ≤ y.data.length := hy.long (by simp)
    rw [FieldPair.compareIn, FieldPair.compareAs, atLeast_pairHeld hLongX hLongY]
    · simp only [pairOf, fieldString_image, within, bind, Except.bind, pure, Except.pure, Bool.false_eq_true,
        false_and, if_false]
      rfl
    all_goals simp
  | blob =>
    cases all with
    | false => exact absurd rfl (hBlob rfl)
    | true =>
      rw [FieldPair.compareIn]
      · rfl
      all_goals simp
  | binary =>
    have hLongX : 1 ≤ x.data.length := hx.long (by simp)
    have hLongY : 1 ≤ y.data.length := hy.long (by simp)
    rw [FieldPair.compareIn, FieldPair.compareAs, atLeast_pairHeld hLongX hLongY,
      pairOf_numBytes₁, pairOf_numBytes₂, bytes_pairOf (Nat.zero_add _).le (Nat.zero_add _).le]
    · simp [bind, Except.bind, pure, Except.pure, fieldOrder]
    all_goals simp
  | int64 =>
    have hLongX : 8 ≤ x.data.length := hx.long (by simp)
    have hLongY : 8 ≤ y.data.length := hy.long (by simp)
    cases E with
    | bits64 =>
      rw [FieldPair.compareIn, compareValues_pairHeld hLongX hLongY, fieldOrder]
    | bits32 =>
      have hWordsX := hx.words rfl rfl
      have hWordsY := hy.words rfl rfl
      rw [FieldPair.compareIn, compareAs_words (fun _ => atLeast_pairHeld hLongX hLongY)
        (bytes_pairOf (by omega) (by omega)) (bytes_pairHeld (by omega) (by omega))
        (bytes_pairHeld (by omega) (by omega)), fieldOrder]
      · simp only [List.drop_zero]
      · simp

theorem bytes_outside (h : x.bytes.length < k + n) :
    (pairHeld T t₁ t₂ x y).bytes T k n n = .error none := by
  simp only [FieldPair.bytes, pairOf, peek_bytes, if_neg (Nat.not_le.mpr h)]
  rfl

theorem compareIn_short (h : x.data.length < type.size T) (hBlob : type ≠ .blob) (hValid : type ≠ .invalid) :
    (pairHeld T t₁ t₂ x x).compareIn T E ⟨caseCmp, alphaCmp, false⟩ all result type =
      .error (some (-1)) := by
  have hShort (run : Except (Option Int) Int) :
      (pairHeld T t₁ t₂ x x).atLeast (type.size T) run = .error (some (-1)) := by
    rw [FieldPair.atLeast, if_pos]
    exact .inl h
  cases type with
  | invalid => exact absurd rfl hValid
  | blob => exact absurd rfl hBlob
  | _ => cases E <;> exact hShort _

/-- The second word of a 64-bit integer is behind the buffer. -/
theorem compareIn_outside (hLong : 8 ≤ x.data.length) (h : x.bytes.length < 2 * T.wordSize) :
    (pairHeld T t₁ t₂ x x).compareIn T .bits32 ⟨caseCmp, alphaCmp, false⟩ all result .int64 =
      .error none := by
  have hBytes : (pairHeld T t₁ t₂ x x).bytes T 0 8 8 = .ok ((x.data.drop 0).take 8, (x.data.drop 0).take 8) :=
    bytes_pairOf (by omega) (by omega)
  have hHigh : (pairHeld T t₁ t₂ x x).bytes T T.wordSize T.wordSize T.wordSize = .error none :=
    bytes_outside (by omega)
  rw [FieldPair.compareIn]
  · by_cases hLow : T.wordSize ≤ x.bytes.length
    · have hWord : (pairHeld T t₁ t₂ x x).bytes T 0 T.wordSize T.wordSize = _ :=
        bytes_pairHeld (by omega) (by omega)
      simp [FieldPair.compareAs, atLeast_pairHeld hLong hLong, hBytes, hWord, hHigh, bind, Except.bind]
    · have hWord : (pairHeld T t₁ t₂ x x).bytes T 0 T.wordSize T.wordSize = .error none :=
        bytes_outside (by omega)
      simp [FieldPair.compareAs, atLeast_pairHeld hLong hLong, hBytes, hWord, bind, Except.bind]
  · simp

/-- A field without the bytes that are read is never equal to itself. -/
theorem compareIn_self_of_not_sortable (h : ¬ Sortable T E type x) (hValid : type ≠ .invalid) :
    ∃ e, (pairHeld T t₁ t₂ x x).compareIn T E ⟨caseCmp, alphaCmp, false⟩ all result type = .error e ∧
      e ≠ some 0 := by
  by_cases hLong : type ≠ .blob → type.size T ≤ x.data.length
  · have hWords : ¬ (type = .int64 → E = .bits32 → 2 * T.wordSize ≤ x.bytes.length) :=
      fun hAll => h ⟨hLong, hAll⟩
    push Not at hWords
    obtain ⟨rfl, rfl, hOutside⟩ := hWords
    exact ⟨none, compareIn_outside (hLong nofun) hOutside, nofun⟩
  · push Not at hLong
    exact ⟨some (-1), compareIn_short hLong.2 hLong.1 hValid, nofun⟩

/-! ## Records of one definition -/

/-- The type of a field of a definition. -/
def typeAt (types : List FieldType) (i : Nat) : FieldType := types.getD i .invalid

/-- A record that has fields of these types, as a definition makes them. -/
structure OfDefinition (T : IntTypes) (name recordDef : List UInt8) (types : List FieldType) (r : Record) :
    Prop where
  wellFormed : r.WellFormed T
  notEmpty : r.dbRecord ≠ []
  tableName : r.tableName = name
  recordDef : r.recordDef = recordDef
  numFields : r.numFields = types.length
  type : ∀ i < types.length, (r.fieldBuf i).headD 0 = (typeAt types i).typeId

section Made

variable {r r' : Record} {name recordDef : List UInt8} {types : List FieldType}

theorem poke_head {l l' s : List UInt8} {k : Nat} (h : poke l (k + 1) s = some l') :
    l'.headD 0 = l.headD 0 := by
  rw [poke] at h
  split at h
  next hFits =>
    cases h
    cases l with
    | nil =>
      rw [List.length_nil] at hFits
      omega
    | cons a l => rfl
  · cases h

theorem initField_head {f : FieldDef} {buf : List UInt8} (h : initField T f = some buf) :
    buf.headD 0 = f.type.typeId := by
  unfold initField at h
  dsimp only at h
  split at h
  · cases h
  · rw [Option.bind_eq_bind, Option.bind_eq_some_iff] at h
    obtain ⟨first, hType, hCount⟩ := h
    rw [poke_head hCount]
    rw [poke] at hType
    split at hType
    · cases hType
      rfl
    · cases hType

theorem setData_head {buf buf' data : List UInt8} (h : Field.setData T buf data = some buf') :
    buf'.headD 0 = buf.headD 0 := by
  have hOverhead : Field.overhead T = T.wordSize + 1 := Nat.add_comm 1 T.wordSize
  have hResize (l : List UInt8) (n : Nat) : (resize 0 l (n + 1)).headD 0 = l.headD 0 := by
    cases l <;> simp [resize, List.replicate_succ]
  simp only [Field.setData, Option.bind_eq_bind, Option.bind_eq_some_iff, hOverhead] at h
  obtain ⟨⟨t, numBytes⟩, -, h⟩ := h
  split at h
  · exact poke_head h
  · obtain ⟨counted, hCounted, h⟩ := Option.bind_eq_some_iff.mp h
    rw [← poke_head hCounted]
    split at h
    · exact poke_head h
    · split at h
      · cases h
      · rw [Option.bind_some] at h
        rw [poke_head h, ← Nat.add_assoc, hResize]

/-- A definition makes records of itself. -/
theorem createRecord_ofDefinition {fields : List FieldDef}
    (h : r.createRecord T name recordDef fields = some r') :
    OfDefinition T name recordDef (fields.map FieldDef.type) r' := by
  have hWell := createRecord_wellFormed h
  unfold createRecord at h
  split at h
  · cases h
  next hFields =>
  obtain ⟨hNe, hMax⟩ := not_or.mp hFields
  rw [Option.bind_eq_bind, Option.bind_eq_some_iff] at h
  obtain ⟨bufs, hBufs, h⟩ := h
  cases h
  have hAll := mapM_eq_some_iff.mp hBufs
  have hLength : fields.length = bufs.length := hAll.length_eq
  constructor
  · exact hWell
  · have hPos := List.length_pos_of_ne_nil hNe
    exact List.ne_nil_of_length_pos (by rw [List.length_append]; omega)
  · rfl
  · rfl
  · exact (List.length_map _).symm
  · intro i hi
    rw [List.length_map] at hi
    have hBuf : (bufs ++ r.dbRecord.drop fields.length).getD i [] = bufs[i] := by
      rw [List.getD_append _ _ _ _ (by omega), List.getD_eq_getElem _ _ (by omega)]
    have hHead : bufs[i].headD 0 = fields[i].type.typeId := initField_head (hAll.get hi (by omega))
    rw [fieldBuf, hBuf, hHead, typeAt]
    simp [hi]

/-- A field that is set keeps its type. -/
theorem OfDefinition.setField (h : OfDefinition T name recordDef types r) {data : List UInt8} {col : Nat}
    {e : RecordStatus} (hSet : r.setField T data col = some (e, r')) :
    OfDefinition T name recordDef types r' := by
  have hWell := setField_wellFormed h.wellFormed hSet
  unfold Record.setField at hSet
  split at hSet
  · cases hSet
    exact h
  · split at hSet
    · cases hSet
      exact h
    next hCol =>
      rw [Option.bind_eq_bind, Option.bind_eq_some_iff] at hSet
      obtain ⟨buf, hBuf, hSet⟩ := hSet
      cases hSet
      have hPos := h.wellFormed.numFields_pos h.notEmpty
      have hLe := h.wellFormed.numFields_le
      refine ⟨hWell, ?_, h.tableName, h.recordDef, h.numFields, ?_⟩
      · exact fun hNil => h.notEmpty (by simpa using hNil)
      · intro i hi
        rw [fieldBuf, fieldBuf_set (by omega)]
        split
        next hSame =>
          rw [setData_head hBuf, ← hSame]
          exact h.type i hi
        · exact h.type i hi

end Made

/-- What a field of a record holds. -/
def heldAt (T : IntTypes) (r : Record) (i : Nat) : Held := held T (r.fieldBuf i)

/-- The fields that are compared satisfy `P`. -/
def Compared (types : List FieldType) (field : Nat) (P : Nat → Prop) : Prop :=
  if compareAll field types.length then ∀ i < types.length, P i else P field

/-- No floating point number that is compared is a NaN. -/
def NoNaN (T : IntTypes) (types : List FieldType) (field : Nat) (r : Record) : Prop :=
  Compared types field fun i => Numeric T (typeAt types i) (heldAt T r i)

/-- The fields that are compared have the bytes that are read, and a BLOB is not compared alone. -/
def Orderable (T : IntTypes) (E : Engine) (types : List FieldType) (field : Nat) (r : Record) : Prop :=
  (compareAll field types.length = false → typeAt types field ≠ .blob) ∧
    Compared types field fun i => Sortable T E (typeAt types i) (heldAt T r i)

theorem ofId_typeId (type : FieldType) : FieldType.ofId type.typeId = some type := by
  cases type <;> rfl

theorem typeAt_ne (hValid : FieldType.invalid ∉ types) {i : Nat} (hi : i < types.length) :
    typeAt types i ≠ .invalid := by
  rw [typeAt, List.getD_eq_getElem _ _ hi]
  exact fun h => hValid (h ▸ List.getElem_mem hi)

variable {a b r : Record} {name recordDef : List UInt8} {types : List FieldType} {i field : Nat}

theorem OfDefinition.image (h : OfDefinition T name recordDef types r) (hi : i < types.length) :
    r.fieldBuf i = Field.image T (typeAt types i).typeId (heldAt T r i).data.length
        ((heldAt T r i).data ++ (heldAt T r i).extra) ∧
      (heldAt T r i).data.length < 256 ^ T.wordSize := by
  obtain ⟨t, data, extra, hBuf, hBytes⟩ := (h.wellFormed.field i (h.numFields ▸ hi)).image
  have hHeld : heldAt T r i = ⟨data, extra⟩ := by
    rw [heldAt, hBuf, held_image hBytes]
  have hType : t = (typeAt types i).typeId := by
    rw [← h.type i hi, hBuf]
    rfl
  rw [hHeld, ← hType]
  exact ⟨hBuf, hBytes⟩

theorem compareFieldIn_eq (ha : OfDefinition T name recordDef types a)
    (hb : OfDefinition T name recordDef types b) (hi : i < types.length) (o : CompareSettings) (all : Bool)
    (result : Int) :
    compareFieldIn T E o all (a.fieldBuf i) (b.fieldBuf i) result =
      (pairHeld T (typeAt types i).typeId (typeAt types i).typeId (heldAt T a i) (heldAt T b i)).compareIn T E o
        all result (typeAt types i) := by
  obtain ⟨hBuf, hBytes⟩ := ha.image hi
  obtain ⟨hBuf', hBytes'⟩ := hb.image hi
  rw [compareFieldIn]
  rw [hBuf, hBuf', Field.header_image hBytes, Field.header_image hBytes']
  simp only [within, bind, Except.bind, ne_eq, not_true_eq_false, if_false, ofId_typeId]
  rfl

/-- The order of two records by one field. -/
def orderAt (T : IntTypes) (E : Engine) (caseCmp alphaCmp : Bool) (types : List FieldType) (i : Nat)
    (a b : Record) : Int :=
  fieldOrder T E caseCmp alphaCmp (typeAt types i) (heldAt T a i) (heldAt T b i)

/-- The order of two records by `n` fields from the field `i` on. -/
def chainOrder (T : IntTypes) (E : Engine) (caseCmp alphaCmp : Bool) (types : List FieldType) :
    Nat → Nat → Record → Record → Int
  | _, 0, _, _ => 0
  | i, n + 1, a, b =>
    firstOf (orderAt T E caseCmp alphaCmp types i a b)
      (chainOrder T E caseCmp alphaCmp types (i + 1) n a b)

theorem orderAt_threeWay (caseCmp alphaCmp : Bool) (types : List FieldType) (i : Nat) :
    ThreeWay (orderAt T E caseCmp alphaCmp types i) :=
  (fieldOrder_threeWay T E caseCmp alphaCmp (typeAt types i)).comap fun r => heldAt T r i

theorem chainOrder_threeWay (caseCmp alphaCmp : Bool) (types : List FieldType) (i n : Nat) :
    ThreeWay (chainOrder T E caseCmp alphaCmp types i n) := by
  induction n generalizing i with
  | zero => exact ThreeWay.zero
  | succ n ih => exact (orderAt_threeWay caseCmp alphaCmp types i).andThen (ih (i + 1))

section Fields

variable (hValid : FieldType.invalid ∉ types) (ha : OfDefinition T name recordDef types a)

include hValid ha

theorem compareFieldIn_order (hb : OfDefinition T name recordDef types b) (hi : i < types.length)
    (hSortA : Sortable T E (typeAt types i) (heldAt T a i))
    (hSortB : Sortable T E (typeAt types i) (heldAt T b i))
    (hNumA : Numeric T (typeAt types i) (heldAt T a i)) (hNumB : Numeric T (typeAt types i) (heldAt T b i))
    (hBlob : all = false → typeAt types i ≠ .blob) (result : Int) :
    compareFieldIn T E ⟨caseCmp, alphaCmp, false⟩ all (a.fieldBuf i) (b.fieldBuf i) result =
      .ok (orderAt T E caseCmp alphaCmp types i a b) := by
  rw [compareFieldIn_eq ha hb hi]
  exact Sortable.compareIn hSortA hSortB hNumA hNumB (typeAt_ne hValid hi) hBlob

theorem compareFieldsIn_order (hb : OfDefinition T name recordDef types b) (hn : i + n ≤ types.length)
    (hSortA : ∀ j < types.length, Sortable T E (typeAt types j) (heldAt T a j))
    (hSortB : ∀ j < types.length, Sortable T E (typeAt types j) (heldAt T b j))
    (hNumA : ∀ j < types.length, Numeric T (typeAt types j) (heldAt T a j))
    (hNumB : ∀ j < types.length, Numeric T (typeAt types j) (heldAt T b j)) (result : Int) :
    compareFieldsIn T E a b ⟨caseCmp, alphaCmp, false⟩ i n result =
      .ok (chainOrder T E caseCmp alphaCmp types i n a b) := by
  induction n generalizing i result with
  | zero => rfl
  | succ n ih =>
    have hi : i < types.length := by omega
    have hFirst : compareFieldIn T E ⟨caseCmp, alphaCmp, false⟩ true (a.fieldBuf i) (b.fieldBuf i) result =
        .ok (orderAt T E caseCmp alphaCmp types i a b) :=
      compareFieldIn_order hValid ha hb hi (hSortA i hi) (hSortB i hi) (hNumA i hi) (hNumB i hi)
        (fun h => Bool.noConfusion h) result
    rw [compareFieldsIn, hFirst]
    simp only [bind, Except.bind, pure, Except.pure]
    rw [chainOrder, firstOf, ih (by omega)]
    split <;> rfl

theorem compareFieldIn_self (hi : i < types.length)
    (hNot : ¬ Sortable T E (typeAt types i) (heldAt T a i)) (all : Bool) (result : Int) :
    ∃ e, compareFieldIn T E ⟨caseCmp, alphaCmp, false⟩ all (a.fieldBuf i) (a.fieldBuf i) result = .error e ∧
      e ≠ some 0 := by
  rw [compareFieldIn_eq ha ha hi]
  exact compareIn_self_of_not_sortable hNot (typeAt_ne hValid hi)

/-- A record that is compared with itself: the first field without the bytes that are read ends the
comparison. -/
theorem compareFieldsIn_self (hn : i + n ≤ types.length)
    (hNum : ∀ j < types.length, Numeric T (typeAt types j) (heldAt T a j)) (result : Int) :
    (∀ j, i ≤ j → j < i + n → Sortable T E (typeAt types j) (heldAt T a j)) ∨
      ∃ e, compareFieldsIn T E a a ⟨caseCmp, alphaCmp, false⟩ i n result = .error e ∧ e ≠ some 0 := by
  induction n generalizing i result with
  | zero => exact .inl fun j hij hj => by omega
  | succ n ih =>
    have hi : i < types.length := by omega
    rw [compareFieldsIn]
    by_cases hFirst : Sortable T E (typeAt types i) (heldAt T a i)
    · rw [compareFieldIn_order hValid ha ha hi hFirst hFirst (hNum i hi) (hNum i hi)
        (fun h => Bool.noConfusion h), (orderAt_threeWay caseCmp alphaCmp types i).self]
      rcases ih (i := i + 1) (by omega) 0 with hAll | hError
      · left
        intro j hij hj
        by_cases hSame : j = i
        · rw [hSame]
          exact hFirst
        · exact hAll j (by omega) (by omega)
      · exact .inr hError
    · obtain ⟨e, hError, hNot⟩ := compareFieldIn_self hValid ha hi hFirst true result
      right
      rw [hError]
      exact ⟨e, rfl, hNot⟩

end Fields

/-! ## The order of a list -/

/-- `operator<` of records with these settings. -/
def lessIn (T : IntTypes) (E : Engine) (field : Nat) (caseCmp alphaCmp : Bool) (a b : Record) : Bool :=
  match compareIn T E a b field ⟨caseCmp, alphaCmp, false⟩ with
  | some v => decide (v < 0)
  | none => false

/-- `Compare` is an order of certain records, as a `std::set` of them needs it. -/
structure OrdersRecords (T : IntTypes) (E : Engine) (field : Nat) (caseCmp alphaCmp : Bool)
    (S : Record → Prop) : Prop where
  /-- It stays inside the buffers, and two records in turn compare the other way. -/
  opposite : ∀ a b, S a → S b → ∃ v, compareIn T E a b field ⟨caseCmp, alphaCmp, false⟩ = some v ∧
    compareIn T E b a field ⟨caseCmp, alphaCmp, false⟩ = some (-v)
  weak : StrictWeak (lessIn T E field caseCmp alphaCmp) S
  asymm : ∀ a b, S a → S b → lessIn T E field caseCmp alphaCmp a b = true →
    lessIn T E field caseCmp alphaCmp b a = false
  incomparable : ∀ a b c, S a → S b → S c → Equivalent (lessIn T E field caseCmp alphaCmp) a b →
    Equivalent (lessIn T E field caseCmp alphaCmp) b c → Equivalent (lessIn T E field caseCmp alphaCmp) a c

/-- Records that compare by a three-way comparison are in order. -/
theorem OrdersRecords.of_threeWay {S : Record → Prop} {c : Record → Record → Int} (hc : ThreeWay c)
    (h : ∀ a b, S a → S b → compareIn T E a b field ⟨caseCmp, alphaCmp, false⟩ = some (c a b)) :
    OrdersRecords T E field caseCmp alphaCmp S := by
  have hLess (a b : Record) (ha : S a) (hb : S b) :
      lessIn T E field caseCmp alphaCmp a b = decide (c a b < 0) := by
    rw [lessIn, h a b ha hb]
  have hWeak : StrictWeak (lessIn T E field caseCmp alphaCmp) S := by
    constructor
    · intro a ha
      rw [hLess a a ha ha, hc.self]
      rfl
    · intro a b d ha hb hd hab hbd
      rw [hLess a b ha hb, decide_eq_true_eq] at hab
      rw [hLess b d hb hd, decide_eq_true_eq] at hbd
      rw [hLess a d ha hd, decide_eq_true_eq]
      exact hc.lt_of_lt_of_le hab hbd.le
    · intro a b d ha hb hd hab
      rw [hLess a b ha hb, decide_eq_true_eq] at hab
      rw [hLess a d ha hd, hLess d b hd hb, decide_eq_true_eq, decide_eq_true_eq]
      by_contra hNot
      obtain ⟨had, hdb⟩ := not_or.mp hNot
      -- `b` is not above `d`, and `d` is not above `a`.
      have hba : c b a ≤ 0 := by
        apply hc.trans (y := d)
        · rw [hc.swap d b]
          omega
        · rw [hc.swap a d]
          omega
      rw [hc.swap a b] at hba
      omega
  constructor
  · intro a b ha hb
    exact ⟨c a b, h a b ha hb, by rw [h b a hb ha, hc.swap a b]⟩
  · exact hWeak
  · exact fun a b ha hb => hWeak.asymm ha hb
  · exact fun a b d ha hb hd => hWeak.equivalent_of ha hb hd

theorem compareIn_eq (hNe : a.dbRecord ≠ []) (hNe' : b.dbRecord ≠ []) (hDef : SameDefinition a b)
    (o : CompareSettings) :
    compareIn T E a b field o =
      match if compareAll field a.numFields then compareFieldsIn T E a b o 0 a.numFields (-1)
        else compareFieldIn T E o false (a.fieldBuf field) (b.fieldBuf field) (-1) with
      | .ok result => some result
      | .error e => e := by
  unfold compareIn
  apply if_neg
  simp [hNe, hNe', hDef.tableName, hDef.recordDef, hDef.numFields]

theorem OfDefinition.same (ha : OfDefinition T name recordDef types a)
    (hb : OfDefinition T name recordDef types b) : SameDefinition a b :=
  ⟨ha.tableName.trans hb.tableName.symm, ha.recordDef.trans hb.recordDef.symm,
    ha.numFields.trans hb.numFields.symm⟩

/-- The order by one field or by all. -/
def recordOrder (T : IntTypes) (E : Engine) (caseCmp alphaCmp : Bool) (types : List FieldType) (field : Nat) :
    Record → Record → Int :=
  if compareAll field types.length then chainOrder T E caseCmp alphaCmp types 0 types.length
  else orderAt T E caseCmp alphaCmp types field

theorem recordOrder_threeWay : ThreeWay (recordOrder T E caseCmp alphaCmp types field) := by
  rw [recordOrder]
  split
  · exact chainOrder_threeWay caseCmp alphaCmp types 0 types.length
  · exact orderAt_threeWay caseCmp alphaCmp types field

theorem compareIn_order (hValid : FieldType.invalid ∉ types) (ha : OfDefinition T name recordDef types a)
    (hb : OfDefinition T name recordDef types b) (hOrdA : Orderable T E types field a)
    (hOrdB : Orderable T E types field b) (hNumA : NoNaN T types field a) (hNumB : NoNaN T types field b) :
    compareIn T E a b field ⟨caseCmp, alphaCmp, false⟩ =
      some (recordOrder T E caseCmp alphaCmp types field a b) := by
  obtain ⟨hBlob, hSortA⟩ := hOrdA
  obtain ⟨-, hSortB⟩ := hOrdB
  rw [compareIn_eq ha.notEmpty hb.notEmpty (ha.same hb), ha.numFields, recordOrder]
  unfold NoNaN Compared at hNumA hNumB
  unfold Compared at hSortA hSortB
  by_cases hAll : compareAll field types.length
  · rw [if_pos hAll] at hSortA hSortB hNumA hNumB ⊢
    rw [compareFieldsIn_order hValid ha hb (Nat.zero_add _).le hSortA hSortB hNumA hNumB, if_pos hAll]
  · rw [if_neg hAll] at hSortA hSortB hNumA hNumB ⊢
    rw [compareFieldIn_order hValid ha hb (not_compareAll hAll) hSortA hSortB hNumA hNumB
      (fun _ => hBlob (Bool.eq_false_of_not_eq_true hAll)), if_neg hAll]

/-- A record that is equal to itself can be put in order. -/
theorem orderable_of_self (hValid : FieldType.invalid ∉ types) (ha : OfDefinition T name recordDef types a)
    (hNum : NoNaN T types field a)
    (hSelf : compareIn T E a a field ⟨caseCmp, alphaCmp, false⟩ = some 0) : Orderable T E types field a := by
  rw [compareIn_eq ha.notEmpty ha.notEmpty (ha.same ha), ha.numFields] at hSelf
  unfold NoNaN Compared at hNum
  by_cases hAll : compareAll field types.length
  · rw [if_pos hAll] at hSelf hNum
    refine ⟨fun h => absurd hAll (by rw [h]; exact Bool.false_ne_true), ?_⟩
    rw [Compared, if_pos hAll]
    rcases compareFieldsIn_self (E := E) hValid ha (Nat.zero_add _).le hNum (-1) with h | ⟨e, hError, hNot⟩
    · exact fun i hi => h i (Nat.zero_le i) (by omega)
    · rw [hError] at hSelf
      exact absurd hSelf hNot
  · rw [if_neg hAll] at hSelf hNum
    have hField := not_compareAll hAll
    constructor
    · intro _ hBlob
      rw [compareFieldIn_eq ha ha hField, hBlob] at hSelf
      cases E <;> cases hSelf
    · rw [Compared, if_neg hAll]
      by_contra hNot
      obtain ⟨e, hError, hNe⟩ := compareFieldIn_self hValid ha hField hNot false (-1)
      rw [hError] at hSelf
      exact hNe hSelf

/-- Records of one definition without NaNs are in order exactly if each of them has, in the fields that are
compared, the bytes that `Compare` reads, and a BLOB is not compared alone. -/
theorem compare_orders_iff (T : IntTypes) (E : Engine) (name recordDef : List UInt8) (types : List FieldType)
    (hValid : FieldType.invalid ∉ types) (field : Nat) (caseCmp alphaCmp : Bool) (S : Record → Prop)
    (hS : ∀ r, S r → OfDefinition T name recordDef types r) (hNum : ∀ r, S r → NoNaN T types field r) :
    OrdersRecords T E field caseCmp alphaCmp S ↔ ∀ r, S r → Orderable T E types field r := by
  constructor
  · intro h r hr
    obtain ⟨v, hv, hv'⟩ := h.opposite r r hr hr
    have hZero : v = 0 := by
      have hSame := Option.some.inj (hv.symm.trans hv')
      omega
    rw [hZero] at hv
    exact orderable_of_self hValid (hS r hr) (hNum r hr) hv
  · intro h
    have hOrder : ThreeWay (recordOrder T E caseCmp alphaCmp types field) := recordOrder_threeWay
    apply OrdersRecords.of_threeWay hOrder
    intro a b ha hb
    exact compareIn_order hValid (hS a ha) (hS b hb) (h a ha) (h b hb) (hNum a ha) (hNum b hb)

theorem ofFields_ofDefinition (fields : List (FieldType × List UInt8)) (hNe : fields ≠ [])
    (hMax : fields.length ≤ recordMaxFields)
    (hLength : ∀ f ∈ fields, Field.overhead T + f.2.length ≤ vectorMax) :
    OfDefinition T [116] [116] (fields.map Prod.fst) (ofFields T fields) := by
  constructor
  · exact ofFields_wellFormed hMax hLength
  · simpa [ofFields] using hNe
  · rfl
  · rfl
  · exact (List.length_map _).symm
  · intro i hi
    rw [List.length_map] at hi
    simp [fieldBuf, ofFields, typeAt, hi, Field.image]

/-- Two records of a 64-bit integer and a string. -/
def pairOfRecords : List (List (FieldType × List UInt8)) :=
  [[(.int64, [255, 255, 255, 255, 255, 255, 255, 255]), (.char, [97, 57])],
    [(.int64, [1, 0, 0, 0, 0, 0, 0, 0]), (.char, [97, 49, 48])]]

theorem compare_orders_iff_two :
    OrdersRecords .portable .bits64 allFields true true
      fun r => ∃ fields ∈ pairOfRecords, r = ofFields .portable fields := by
  have hTypes : ∀ fields ∈ pairOfRecords, fields.map Prod.fst = [.int64, .char] := by decide
  apply (compare_orders_iff .portable .bits64 [116] [116] [.int64, .char] (by decide) allFields true true _
    ?_ ?_).mpr
  · rintro r ⟨fields, hFields, rfl⟩
    refine ⟨fun h => absurd h (by decide), ?_⟩
    rw [Compared, if_pos (by decide)]
    intro i hi
    simp only [pairOfRecords, List.mem_cons, List.not_mem_nil, or_false] at hFields
    obtain rfl | rfl := hFields
    all_goals
      match i with
      | 0 => exact ⟨fun _ => by decide +kernel, nofun⟩
      | 1 => exact ⟨fun _ => by decide +kernel, nofun⟩
  · rintro r ⟨fields, hFields, rfl⟩
    rw [← hTypes fields hFields]
    apply ofFields_ofDefinition
    · rintro rfl
      exact absurd (hTypes [] hFields) (by decide)
    · simp only [pairOfRecords, List.mem_cons, List.not_mem_nil, or_false] at hFields
      obtain rfl | rfl := hFields <;> decide
    · simp only [pairOfRecords, List.mem_cons, List.not_mem_nil, or_false] at hFields
      obtain rfl | rfl := hFields <;> decide
  · rintro r ⟨fields, -, rfl⟩
    rw [NoNaN, Compared, if_pos (by decide)]
    intro i hi
    match i with
    | 0 => exact fun h => absurd h (by decide)
    | 1 => exact fun h => absurd h (by decide)

/-- A BLOB alone, and a string field that `SetField` has emptied, are less than themselves. -/
theorem compare_not_ordered :
    OfDefinition .portable [116] [116] [.blob] (ofFields .portable [(.blob, [1])]) ∧
    lessIn .portable .bits64 0 true false (ofFields .portable [(.blob, [1])])
      (ofFields .portable [(.blob, [1])]) = true ∧
    (∃ r r', (ofFields .portable []).createRecord .portable [116] [116] [⟨.char, some 10⟩] = some r ∧
      r.setField .portable [] 0 = some (.noError, r') ∧
      lessIn .portable .bits64 allFields true false r' r' = true) ∧
    ¬ OrdersRecords .portable .bits64 0 true false (· = ofFields .portable [(.blob, [1])]) := by
  have hLess : lessIn .portable .bits64 0 true false (ofFields .portable [(.blob, [1])])
      (ofFields .portable [(.blob, [1])]) = true := by decide +kernel
  refine ⟨ofFields_ofDefinition [(.blob, [1])] (by decide) (by decide) (by decide), hLess, ?_, ?_⟩
  · exact ⟨_, _, rfl, rfl, by decide +kernel⟩
  · intro h
    have hIrrefl := h.weak.irrefl _ rfl
    rw [hLess] at hIrrefl
    cases hIrrefl

end Record

end DataReel
