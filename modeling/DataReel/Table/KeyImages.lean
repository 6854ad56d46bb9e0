import DataReel.Table.RecordKey
import DataReel.Table.RoundTrip

/-! # What keys are made of

The bytes that a key is the checksum of are the images of the fields, one behind another.
Where the two words of a 64-bit integer are its eight bytes, keys and comparisons are those of
the contents of the fields.
-/

namespace DataReel

/-- The bytes of a field that go into a key; `none` where the field is too short for one. -/
def keyImage (T : IntTypes) (caseCmp : Bool) (type : FieldType) (data : List UInt8) :
    Option (List UInt8) :=
  match type with
  | .char | .vchar =>
    if data.length < 1 then none
    else
      let s := data.takeWhile (· ≠ 0)
      some (if caseCmp then s else upperBytes s)
  | .blob => if data.length < 1 then none else some []
  | .binary => if data.length < 1 then none else some data
  | .invalid => none
  | type => if data.length < type.size T then none else some (data.take (type.size T))

namespace Record

variable {T : IntTypes} {a b r : Record} {buf data extra p q : List UInt8} {t : UInt8} {i j n : Nat}
  {c : Bool} {type : FieldType}

/-- The words of 64-bit integers are no longer than their bytes. -/
def WordsFit (T : IntTypes) (type : FieldType) : Prop := type = .int64 → T = .portable

theorem peek_at {k : Nat} (h : k + n ≤ data.length) :
    peek (Field.image T t data.length (data ++ extra)) (Field.overhead T + k) n =
      some ((data.drop k).take n) := by
  have hSplit := List.take_append_drop n (data.drop k)
  have hFirst := List.take_append_drop k data
  have hTake : (data.take k).length = k := by
    rw [List.length_take]
    omega
  have hLength : ((data.drop k).take n).length = n := by
    rw [List.length_take, List.length_drop]
    omega
  have hImage : Field.image T t data.length (data ++ extra) =
      (t :: Bytes.leBytes T.wordSize data.length ++ data.take k) ++
        ((data.drop k).take n ++ ((data.drop k).drop n ++ extra)) := by
    rw [← List.append_assoc ((data.drop k).take n), hSplit, List.append_assoc,
      ← List.append_assoc (data.take k), hFirst]
    rfl
  rw [hImage]
  apply peek_append
  · rw [List.length_append, Field.overhead_eq, hTake]
  · exact hLength

theorem peek_value (h : n ≤ data.length) :
    peek (Field.image T t data.length (data ++ extra)) (Field.overhead T) n = some (data.take n) := by
  have hPeek := @peek_at T data extra t n 0 (by omega)
  rwa [Nat.add_zero, List.drop_zero] at hPeek

theorem fieldString_image :
    fieldString T (Field.image T t data.length (data ++ extra)) data.length =
      some (data.takeWhile (· ≠ 0)) := by
  have hDrop : (Field.image T t data.length (data ++ extra)).drop (Field.overhead T) = data ++ extra := by
    rw [Field.image, ← List.cons_append, List.drop_left' Field.overhead_eq]
  rw [fieldString, hDrop, List.take_left, if_pos (.inr rfl)]

/-- Moves that make an image, and a key of 0 where there is none. -/
def MovesImage (moves : Except (Option Nat) (Nat × List (List UInt8))) :
    Option (List UInt8) → Prop
  | none => moves = .error (some 0)
  | some bytes => ∃ values, values.flatten = bytes ∧ moves = .ok (bytes.length, values)

theorem keyValue_image : MovesImage
    (keyValue T (Field.image T t data.length (data ++ extra)) data.length n)
    (if data.length < n then none else some (data.take n)) := by
  by_cases h : data.length < n
  · rw [if_pos h, keyValue, if_pos h]
    rfl
  · rw [if_neg h, keyValue, if_neg h, peek_value (not_lt.mp h)]
    refine ⟨[data.take n], by simp, ?_⟩
    rw [List.length_take, min_eq_left (by omega)]
    rfl

theorem keyMoves_string (hMoves : keyMoves T c buf data.length type =
      if data.length < 1 then .error (some 0)
      else do
        let s ← within (fieldString T buf data.length)
        let s := if c then s else upperBytes s
        return (s.length, [s]))
    (hBuf : buf = Field.image T t data.length (data ++ extra)) :
    MovesImage (keyMoves T c buf data.length type) (keyImage T c .char data) := by
  subst hBuf
  rw [hMoves, keyImage]
  by_cases h : data.length < 1
  · rw [if_pos h, if_pos h]
    rfl
  · rw [if_neg h, if_neg h, fieldString_image]
    exact ⟨[_], List.append_nil _, rfl⟩

/-- The moves of a field into a key, by what it adds to the key. -/
theorem keyMoves_image (hWords : WordsFit T type) : MovesImage
    (keyMoves T c (Field.image T t data.length (data ++ extra)) data.length type)
    (keyImage T c type data) := by
  cases type with
  | bool | int16 | int32 | float | currency | date => exact keyValue_image
  | char | vchar => exact keyMoves_string rfl rfl
  | invalid => rfl
  | blob =>
    rw [keyMoves, keyImage]
    split
    · rfl
    · exact ⟨[], rfl, rfl⟩
  | binary =>
    rw [keyMoves, keyImage]
    split
    · rfl
    · have hAll := @keyValue_image T data extra t data.length
      rwa [if_neg (lt_irrefl _), List.take_length] at hAll
  | int64 =>
    cases hWords rfl
    rw [keyMoves, keyImage]
    · change MovesImage _ (if data.length < 8 then none else some (data.take 8))
      by_cases h : data.length < 8
      · rw [if_pos h, if_pos h]
        rfl
      · have hLow := @peek_value .portable data extra t 4 (by omega)
        have hHigh := @peek_at .portable data extra t 4 4 (by omega)
        rw [if_neg h, if_neg h, IntTypes.wordSize, hLow, hHigh]
        refine ⟨[data.take 4, (data.drop 4).take 4], ?_, ?_⟩
        · simp [← List.take_add]
        · rw [List.length_take, min_eq_left (by omega)]
          rfl
    all_goals nofun

/-! ## The bytes of a key -/

/-- The bytes that a field of the record adds to a key. -/
def fieldImage (T : IntTypes) (c : Bool) (r : Record) (i : Nat) : Option (List UInt8) := do
  let (typeId, data) ← Field.contents T (r.fieldBuf i)
  let type ← FieldType.ofId typeId
  keyImage T c type data

/-- The images of `n` fields from the field `i` on. -/
def fieldImages (T : IntTypes) (c : Bool) (r : Record) : Nat → Nat → Option (List (List UInt8))
  | _, 0 => some []
  | i, n + 1 => do
    let bytes ← r.fieldImage T c i
    let rest ← fieldImages T c r (i + 1) n
    return bytes :: rest

/-- The images that `CreateKey` takes. -/
def keyImages (T : IntTypes) (c : Bool) (r : Record) (field : Nat) : Option (List (List UInt8)) :=
  if compareAll field r.numFields then r.fieldImages T c 0 r.numFields
  else r.fieldImages T c field 1

/-- The words of every 64-bit integer of a record are no longer than its bytes. -/
def WideFit (T : IntTypes) (r : Record) : Prop :=
  ∀ i < r.numFields, ∀ type, FieldType.ofId ((r.fieldBuf i).headD 0) = some type → WordsFit T type

/-- The bytes that a key has so far. -/
def KeyState.Holds (s : KeyState) (bytes : List UInt8) : Prop :=
  bytes <+: s.buf ∧ s.bufSize = bytes.length ∧ s.bufOffset = bytes.length

theorem putKey_run {values : List (List UInt8)} {bytes rest : List UInt8} {size : Nat}
    (hRoom : values.flatten.length ≤ rest.length) :
    values.foldlM putKey ⟨bytes ++ rest, size, bytes.length⟩ =
      some ⟨bytes ++ values.flatten ++ rest.drop values.flatten.length, size,
        (bytes ++ values.flatten).length⟩ := by
  induction values generalizing bytes rest with
  | nil => simp
  | cons value values ih =>
    rw [List.flatten_cons, List.length_append] at hRoom
    have hSplit := List.take_append_drop value.length rest
    have hLength : (rest.take value.length).length = value.length := by
      rw [List.length_take]
      omega
    have hPoke : poke (bytes ++ rest) bytes.length value =
        some (bytes ++ value ++ rest.drop value.length) := by
      rw [← hSplit, poke_append rfl hLength, hSplit, List.append_assoc]
    have hRest := @ih (bytes ++ value) (rest.drop value.length)
      (by rw [List.length_drop]; omega)
    rw [List.length_append] at hRest
    simp only [List.foldlM_cons, putKey, hPoke, Option.map_some, Option.bind_eq_bind,
      Option.bind_some]
    rw [hRest]
    simp only [List.flatten_cons, List.append_assoc, List.drop_drop, List.length_append]

theorem KeyState.Holds.put {s : KeyState} {bytes : List UInt8} (h : s.Holds bytes)
    (values : List (List UInt8)) :
    ∃ s', values.foldlM putKey (growKey s values.flatten.length) = some s' ∧
      s'.Holds (bytes ++ values.flatten) := by
  obtain ⟨buf, bufSize, bufOffset⟩ := s
  obtain ⟨⟨rest, hBuf⟩, hSize, hOffset⟩ := h
  dsimp only at hBuf hSize hOffset
  subst hBuf hSize hOffset
  have hGrow : ∃ rest', growKey ⟨bytes ++ rest, bytes.length, bytes.length⟩ values.flatten.length =
      ⟨bytes ++ rest', bytes.length + values.flatten.length, bytes.length⟩ ∧
        values.flatten.length ≤ rest'.length := by
    by_cases hShort : (bytes ++ rest).length < bytes.length + values.flatten.length
    · refine ⟨resize 0 rest values.flatten.length, ?_, by rw [resize_length]⟩
      simp only [growKey]
      rw [if_pos hShort, resize_append]
    · refine ⟨rest, ?_, ?_⟩
      · simp only [growKey]
        rw [if_neg hShort]
      · rw [List.length_append] at hShort
        omega
  obtain ⟨rest', hGrow, hRoom⟩ := hGrow
  refine ⟨_, by rw [hGrow, putKey_run hRoom], ?_, ?_, rfl⟩
  · exact ⟨_, rfl⟩
  · rw [List.length_append]

/-- What a turn adds to the key. -/
theorem keyField_image (h : r.WellFormed T) (hi : i < r.numFields) (hWide : WideFit T r)
    {s : KeyState} {bytes : List UInt8} (hs : s.Holds bytes) :
    match r.fieldImage T c i with
    | none => r.keyField T c i s = .error (some 0)
    | some image => ∃ s', r.keyField T c i s = .ok s' ∧ s'.Holds (bytes ++ image) := by
  obtain ⟨t, data, extra, hBuf, hBytes⟩ := (h.field i hi).image
  have hHead : (r.fieldBuf i).headD 0 = t := by
    rw [hBuf]
    rfl
  simp only [fieldImage, keyField, hBuf, Field.contents_image hBytes, Field.header_image hBytes,
    within, bind, Except.bind, Option.bind_some]
  cases hType : FieldType.ofId t with
  | none => rfl
  | some type =>
    have hMoves := @keyMoves_image T data extra t c type
      (hWide i hi type (by rw [hHead, hType]))
    rw [Option.bind_some]
    cases hImage : keyImage T c type data with
    | none =>
      rw [hImage] at hMoves
      dsimp only [MovesImage] at hMoves ⊢
      rw [hMoves]
    | some image =>
      rw [hImage] at hMoves
      obtain ⟨values, rfl, hMoves⟩ := hMoves
      obtain ⟨s', hPut, hHolds⟩ := hs.put values
      refine ⟨s', ?_, hHolds⟩
      dsimp only
      rw [hMoves]
      dsimp only
      rw [hPut]

theorem keyFields_images (h : r.WellFormed T) (hn : i + n ≤ r.numFields) (hWide : WideFit T r)
    {s : KeyState} {bytes : List UInt8} (hs : s.Holds bytes) :
    match r.fieldImages T c i n with
    | none => r.keyFields T c i n s = .error (some 0)
    | some images => ∃ s', r.keyFields T c i n s = .ok s' ∧ s'.Holds (bytes ++ images.flatten) := by
  induction n generalizing i s bytes with
  | zero => exact ⟨s, rfl, by rwa [List.flatten_nil, List.append_nil]⟩
  | succ n ih =>
    have hField := keyField_image (c := c) h (show i < r.numFields by omega) hWide hs
    rw [fieldImages, keyFields]
    cases hImage : r.fieldImage T c i with
    | none =>
      rw [hImage] at hField
      rw [hField]
      rfl
    | some image =>
      rw [hImage] at hField
      obtain ⟨s', hTurn, hHolds⟩ := hField
      have hRest := ih (i := i + 1) (by omega) hHolds
      rw [hTurn]
      simp only [bind, Option.bind, Except.bind]
      cases hImages : r.fieldImages T c (i + 1) n with
      | none =>
        rw [hImages] at hRest
        exact hRest
      | some images =>
        rw [hImages] at hRest
        obtain ⟨s'', hRun, hHolds'⟩ := hRest
        refine ⟨s'', hRun, ?_⟩
        rwa [List.flatten_cons, ← List.append_assoc]

/-- A key is the checksum of the images of its fields. -/
theorem createKey_eq (h : r.WellFormed T) (hNe : r.dbRecord ≠ []) (hMax : r.diskLength T ≤ vectorMax)
    (hWide : WideFit T r) (field : Nat) :
    r.createKey T field c = some (match r.keyImages T c field with
      | none => 0
      | some images => calcCRC32 images.flatten) := by
  have hWord : vectorMax < 2 ^ 64 := by decide
  rw [diskLength] at hMax
  have hSize : r.sizeFrom T 0 r.numFields % 2 ^ 64 = r.sizeFrom T 0 r.numFields :=
    Nat.mod_eq_of_lt (by omega)
  have hStart : (⟨List.replicate (r.sizeFrom T 0 r.numFields) 0, 0, 0⟩ : KeyState).Holds [] :=
    ⟨List.nil_prefix, rfl, rfl⟩
  have hEnd {s : KeyState} {bytes : List UInt8} (hs : s.Holds bytes) :
      s.buf.take s.bufSize = bytes := by
    obtain ⟨⟨rest, hBuf⟩, hLength, _⟩ := hs
    rw [hLength, ← hBuf, List.take_left]
  rw [createKey, if_neg hNe, sizeOf_eq h hNe, Option.bind_eq_bind, Option.bind_some, hSize,
    if_neg (by omega)]
  dsimp only
  rw [keyImages]
  by_cases hAll : compareAll field r.numFields
  · have hRun := keyFields_images (c := c) h (Nat.zero_add r.numFields).le hWide hStart
    rw [if_pos hAll, if_pos hAll]
    cases hImages : r.fieldImages T c 0 r.numFields with
    | none =>
      rw [hImages] at hRun
      rw [hRun]
    | some images =>
      rw [hImages] at hRun
      obtain ⟨s', hRun, hHolds⟩ := hRun
      rw [hRun]
      dsimp only
      rw [hEnd hHolds, List.nil_append]
  · have hField : field < r.numFields := by
      rw [compareAll, decide_eq_true_eq] at hAll
      omega
    have hRun := keyField_image (c := c) h hField hWide hStart
    rw [if_neg hAll, if_neg hAll, fieldImages]
    cases hImage : r.fieldImage T c field with
    | none =>
      rw [hImage] at hRun
      rw [hRun]
      rfl
    | some image =>
      rw [hImage] at hRun
      obtain ⟨s', hRun, hHolds⟩ := hRun
      rw [hRun]
      dsimp only
      rw [hEnd hHolds, List.nil_append]
      simp [fieldImages]

end Record

end DataReel
