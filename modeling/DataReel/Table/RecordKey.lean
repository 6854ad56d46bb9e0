import DataReel.Table.DiskRecord
import DataReel.Table.Values

/-! # Keys and comparisons of records

`CreateKey` gathers the values of fields in a buffer and takes their checksum, `Compare` takes
the fields of two records one after another. A 64-bit integer is read as two words, of the
size that the build gives them.
-/

namespace DataReel

/-- The type of an ID. -/
def FieldType.ofId (id : UInt8) : Option FieldType :=
  [invalid, char, int16, int32, int64, float, bool, vchar, binary, blob, currency, date].find?
    fun type => type.typeId = id

namespace Record

variable (T : IntTypes) (r : Record)

/-- A value that is there, if the access is inside its buffer; `none` is an end outside of it. -/
def within {α β : Type} : Option α → Except (Option β) α
  | none => .error none
  | some a => .ok a

/-- A string that ends with its null or with its field, read up to there. -/
def fieldString (buf : List UInt8) (numBytes : Nat) : Option (List UInt8) :=
  let bytes := (buf.drop (Field.overhead T)).take numBytes
  let s := bytes.takeWhile (· ≠ 0)
  if s.length < bytes.length ∨ bytes.length = numBytes then some s else none

/-- All fields are meant, not one. -/
def compareAll (field numFields : Nat) : Bool := field = 2 ^ 64 - 1 ∨ numFields ≤ field

/-! ## Keys -/

/-- The locals of `CreateKey`. -/
structure KeyState where
  buf : List UInt8
  bufSize : Nat
  bufOffset : Nat

/-- Moves a value behind the others. -/
def putKey (s : KeyState) (value : List UInt8) : Option KeyState :=
  (poke s.buf s.bufOffset value).map fun buf =>
    { s with buf := buf, bufOffset := s.bufOffset + value.length }

/-- Makes place for so many bytes. -/
def growKey (s : KeyState) (n : Nat) : KeyState :=
  { s with
    buf := if s.buf.length < s.bufSize + n then resize 0 s.buf (s.bufSize + n) else s.buf
    bufSize := s.bufSize + n }

/-- The move of a value of so many bytes. The key is 0 where the field is too short. -/
def keyValue (buf : List UInt8) (numBytes size : Nat) :
    Except (Option Nat) (Nat × List (List UInt8)) :=
  if numBytes < size then .error (some 0)
  else do
    let bytes ← within (peek buf (Field.overhead T) size)
    return (size, [bytes])

/-- What a field adds to a key: the number of bytes that are counted for it, and the moves from the
field's data into the key. -/
def keyMoves (caseCmp : Bool) (buf : List UInt8) (numBytes : Nat) :
    FieldType → Except (Option Nat) (Nat × List (List UInt8))
  | .bool => keyValue T buf numBytes 1
  | .char | .vchar =>
    if numBytes < 1 then .error (some 0)
    else do
      let s ← within (fieldString T buf numBytes)
      let s := if caseCmp then s else upperBytes s
      return (s.length, [s])
  | .blob => if numBytes < 1 then .error (some 0) else return (0, [])
  | .binary => if numBytes < 1 then .error (some 0) else keyValue T buf numBytes numBytes
  | .int16 => keyValue T buf numBytes 2
  | .int32 => keyValue T buf numBytes T.wordSize
  | .int64 =>
    if numBytes < 8 then .error (some 0)
    else do
      let low ← within (peek buf (Field.overhead T) T.wordSize)
      let high ← within (peek buf (Field.overhead T + T.wordSize) T.wordSize)
      return (8, [low, high])
  | .float | .currency => keyValue T buf numBytes 8
  | .date => keyValue T buf numBytes 4
  | .invalid => .error (some 0)

/-- A turn of the loop of `CreateKey`. -/
def keyField (caseCmp : Bool) (i : Nat) (s : KeyState) : Except (Option Nat) KeyState := do
  let (typeId, numBytes) ← within (Field.header T (r.fieldBuf i))
  match FieldType.ofId typeId with
  | none => .error (some 0)
  | some type =>
    let (n, values) ← keyMoves T caseCmp (r.fieldBuf i) numBytes type
    within (values.foldlM putKey (growKey s n))

/-- The loop, for `n` fields from the field `i` on. -/
def keyFields (caseCmp : Bool) : Nat → Nat → KeyState → Except (Option Nat) KeyState
  | _, 0, s => .ok s
  | i, n + 1, s => do
    let s ← r.keyField T caseCmp i s
    keyFields caseCmp (i + 1) n s

/-- `CreateKey`. `none` where it goes outside of a buffer or a vector cannot become so long. -/
def createKey (field : Nat) (caseCmp : Bool) : Option Nat :=
  if r.dbRecord = [] then some 0
  else do
    let totalSize ← r.sizeOf T
    if vectorMax < totalSize then none
    else
      let s : KeyState := ⟨List.replicate totalSize 0, 0, 0⟩
      let run := if compareAll field r.numFields then r.keyFields T caseCmp 0 r.numFields s
        else r.keyField T caseCmp field s
      match run with
      | .ok s => some (calcCRC32 (s.buf.take s.bufSize))
      | .error e => e

/-! ## Comparisons -/

/-- How `Compare` compares: case, numbers in strings, and whether a match inside is enough. -/
structure CompareSettings where
  caseCmp : Bool
  alphaCmp : Bool
  findMatch : Bool

/-- Two fields of one type, with their numbers of bytes. -/
structure FieldPair where
  buf₁ : List UInt8
  numBytes₁ : Nat
  buf₂ : List UInt8
  numBytes₂ : Nat

/-- The bytes at an offset of both fields. -/
def FieldPair.bytes (f : FieldPair) (offset size₁ size₂ : Nat) :
    Except (Option Int) (List UInt8 × List UInt8) := do
  let p₁ ← within (peek f.buf₁ (Field.overhead T + offset) size₁)
  let p₂ ← within (peek f.buf₂ (Field.overhead T + offset) size₂)
  return (p₁, p₂)

/-- -1, where a field has fewer bytes than a value takes. -/
def FieldPair.atLeast (f : FieldPair) (size : Nat) (result : Except (Option Int) Int) :
    Except (Option Int) Int :=
  if f.numBytes₁ < size ∨ f.numBytes₂ < size then .error (some (-1)) else result

/-- The comparison of values of so many bytes, as patterns first where a match is enough. -/
def FieldPair.compareValues (f : FieldPair) (o : CompareSettings) (size : Nat)
    (order : List UInt8 → List UInt8 → Int) : Except (Option Int) Int :=
  f.atLeast size do
    let (p₁, p₂) ← f.bytes T 0 size size
    return if o.findMatch ∧ p₂ <:+: p₁ then 0 else order p₁ p₂

/-- The comparison of two fields of a type, after `result`. An error is what `Compare` returns
there. -/
def FieldPair.compareAs (f : FieldPair) (o : CompareSettings) (all : Bool) (result : Int) :
    FieldType → Except (Option Int) Int
  | .bool =>
    f.atLeast 1 do
      let (p₁, p₂) ← f.bytes T 0 1 1
      return order3 (signedValue 1 (Bytes.leNat p₁)) (signedValue 1 (Bytes.leNat p₂))
  | .char | .vchar =>
    f.atLeast 1 do
      let s₁ ← within (fieldString T f.buf₁ f.numBytes₁)
      let s₂ ← within (fieldString T f.buf₂ f.numBytes₂)
      let s₁ := if o.caseCmp then s₁ else upperBytes s₁
      let s₂ := if o.caseCmp then s₂ else upperBytes s₂
      return if o.findMatch ∧ s₂ <:+: s₁ then 0
        else if o.alphaCmp then naturalCompare s₁ s₂
        else compare3 s₁ s₂
  | .blob => return if all then 0 else -1
  | .binary =>
    f.atLeast 1 do
      let (p₁, p₂) ← f.bytes T 0 f.numBytes₁ f.numBytes₂
      return if o.findMatch ∧ p₂ <:+: p₁ then 0 else bufferCompare p₁ p₂
  | .int16 => f.compareValues T o 2 fun p₁ p₂ =>
      order3 (signedValue 2 (Bytes.leNat p₁)) (signedValue 2 (Bytes.leNat p₂))
  | .int32 => f.compareValues T o T.wordSize fun p₁ p₂ => order3 (wordValue T p₁) (wordValue T p₂)
  | .int64 =>
    f.atLeast 8 do
      let (p₁, p₂) ← f.bytes T 0 8 8
      if o.findMatch ∧ p₂ <:+: p₁ then return 0
      else do
        let (low₁, low₂) ← f.bytes T 0 T.wordSize T.wordSize
        let (high₁, high₂) ← f.bytes T T.wordSize T.wordSize T.wordSize
        return wordsOrder (wordValue T low₁) (wordValue T high₁) (wordValue T low₂) (wordValue T high₂)
  | .float | .currency => f.compareValues T o 8 fun p₁ p₂ =>
      floatOrder (floatBits T p₁) (floatBits T p₂) result
  | .date => f.compareValues T o 4 fun p₁ p₂ => order3 (dateKey p₁) (dateKey p₂)
  | .invalid => .error (some (-1))

/-- The comparison of one field of two records. -/
def compareField (o : CompareSettings) (all : Bool) (buf₁ buf₂ : List UInt8) (result : Int) :
    Except (Option Int) Int := do
  let (typeId₁, numBytes₁) ← within (Field.header T buf₁)
  let (typeId₂, numBytes₂) ← within (Field.header T buf₂)
  if typeId₁ ≠ typeId₂ then .error (some (-1))
  else
    match FieldType.ofId typeId₁ with
    | none => .error (some (-1))
    | some type => FieldPair.compareAs T ⟨buf₁, numBytes₁, buf₂, numBytes₂⟩ o all result type

/-- The loop of `Compare` over `n` fields from the field `i` on. The first field that is not equal
decides. -/
def compareFields (a b : Record) (o : CompareSettings) : Nat → Nat → Int → Except (Option Int) Int
  | _, 0, _ => .ok 0
  | i, n + 1, result => do
    let result ← compareField T o true (a.fieldBuf i) (b.fieldBuf i) result
    if result ≠ 0 then return result else compareFields a b o (i + 1) n result

/-- `Compare`. `none` where it goes outside of a buffer. -/
def compare (a b : Record) (field : Nat) (o : CompareSettings) : Option Int :=
  if a.dbRecord = [] ∨ b.dbRecord = [] ∨ a.tableName ≠ b.tableName ∨ a.recordDef ≠ b.recordDef ∨
      a.numFields ≠ b.numFields then some (-1)
  else
    let run := if compareAll field a.numFields then compareFields T a b o 0 a.numFields (-1)
      else compareField T o false (a.fieldBuf field) (b.fieldBuf field) (-1)
    match run with
    | .ok result => some result
    | .error e => e

end Record

end DataReel
