import DataReel.Config.Entries
import DataReel.Library.Cut
import DataReel.Net.Text
import DataReel.Table.Header
import DataReel.Table.Record

/-! # Definitions of tables and records

A table is defined by a text: its name and its fields, each with a column length, a type and perhaps an
array length and a format. `CreateTable` makes a table header and a record definition of it,
`CreateRecord` makes a record of the record definition, and `TableDef` writes a definition of a header.
-/

namespace DataReel

namespace Text

/-- `hexval` in `convert_escape_seq`. -/
def hexval (c : Char) : Option Nat :=
  if '0' ≤ c ∧ c ≤ '9' then some (c.toNat - '0'.toNat)
  else if 'a' ≤ c ∧ c ≤ 'f' then some (c.toNat - 'a'.toNat + 10)
  else if 'A' ≤ c ∧ c ≤ 'F' then some (c.toNat - 'A'.toNat + 10)
  else none

/-- `convert_escape_seq` with two octets. -/
def convertEscapeSeq (esc : Char) : Text → Text
  | [] => []
  | [c] => [c]
  | [c, d] =>
    if c ≠ esc then c :: convertEscapeSeq esc [d]
    else if d = esc then [esc]
    else
      match hexval d with
      | none => c :: convertEscapeSeq esc [d]
      | some a => [Char.ofNat a]
  | c :: d :: e :: s =>
    if c ≠ esc then c :: convertEscapeSeq esc (d :: e :: s)
    else if d = esc then esc :: convertEscapeSeq esc (e :: s)
    else
      match hexval d, hexval e with
      | none, _ => c :: convertEscapeSeq esc (d :: e :: s)
      | some a, none => Char.ofNat a :: convertEscapeSeq esc (e :: s)
      | some a, some b => Char.ofNat (16 * a + b) :: convertEscapeSeq esc s

def eraseChar (s : Text) (c : Char) : Text := s.filter fun d => d ≠ c

def parseFields (s : Text) (sep : Char) : List Text :=
  let s := trimLeft s
  if s.isEmpty then []
  else
    let out := split s sep false
    if out.getLast? = some [] then out.dropLast else out

def deleteBeforeIncluding (s p : Text) : Text :=
  match cutAt p s with
  | none => s
  | some (_, after) => after

def deleteAfterIncluding (s p : Text) : Text :=
  match cutAt p s with
  | none => s
  | some (before, _) => before

/-- `delete_after_last` of one character. -/
def deleteAfterLast (s : Text) (c : Char) : Text :=
  match rcut c s with
  | none => s
  | some (before, _) => before ++ [c]

/-- `to_int`, if the number is an `int`. -/
def toInt (s : Text) : Option Int :=
  if -2 ^ 31 ≤ atoi s ∧ atoi s < 2 ^ 31 then some (atoi s) else none

/-- `copy_to` a buffer of `n` bytes, as a null terminated string. -/
def copyTo (n : Nat) (s : Text) : Text := (s.take (n - 1)).takeWhile fun c => c ≠ '\x00'

/-- A character as a `char`, and an `int` converted to one. -/
def charValue (n : Int) : Int := n.bmod 256

/-- `isalpha` of a `char`, in the C locale. -/
def isAlpha (c : Int) : Bool := (65 ≤ c && c ≤ 90) || (97 ≤ c && c ≤ 122)

end Text

/-- The error codes of the definitions; `undefined` is a number that is no `int`, of which C does not say
what `atoi` makes. -/
inductive DefinitionError
  | badTableDef
  | illegalChar
  | badColLength
  | badFieldType
  | badRecordDef
  | undefined
  deriving DecidableEq, Repr

namespace FieldType

/-- `gxrdFIELD_TYPES_STRINGS`. -/
def string : FieldType → Text
  | invalid => "Invalid type".toList
  | char => "CHAR".toList
  | int16 => "INT16".toList
  | int32 => "INT32".toList
  | int64 => "INT64".toList
  | float => "FLOAT".toList
  | bool => "BOOL".toList
  | vchar => "VCHAR".toList
  | binary => "BINARY".toList
  | blob => "BLOB".toList
  | currency => "CURRENCY".toList
  | date => "DATE".toList

def all : List FieldType :=
  [invalid, char, int16, int32, int64, float, bool, vchar, binary, blob, currency, date]

/-- The first type with the string, as the loops over the table go. -/
def ofString (s : Text) : Option FieldType := all.find? fun t => t.string = s

end FieldType

/-! ## Fields of a table -/

/-- `gxrdTableHeaderField` -/
structure TableField where
  fieldType : FieldType
  formatSpecifier : Int
  columnLength : Nat
  arrayLength : Nat
  fieldName : Text
  deriving DecidableEq, Repr

namespace Definition

open Text

/-- The number that a text has to be. -/
def number (s : Text) : Except DefinitionError Int :=
  match toInt s with
  | none => throw .undefined
  | some n => pure n

/-- The length in brackets and the type before them, as both parsers cut them. -/
def arrayPart (fieldType : Text) : Text × Text :=
  if '[' ∈ fieldType then
    (trim (deleteAfterIncluding (deleteBeforeIncluding fieldType ['[']) [']']),
      trimRight (deleteAfterIncluding fieldType ['[']))
  else ([], fieldType)

/-- The text behind the format's period, as a `char`. -/
def formatOf (formatAttrib : Text) : Except DefinitionError Int :=
  match formatAttrib with
  | [] => pure 0
  | c :: _ => do
    let n ← number formatAttrib
    if charValue n = 0 then pure (charValue c.toNat) else pure (charValue n)

/-- The type, the array length (zero if none is given) and the format of the text behind the column
length. -/
def typePart (fieldType : Text) : Except DefinitionError (FieldType × Int × Int) := do
  let (formatSpecifier, fieldType) ←
    if '.' ∈ fieldType then do
      let formatSpecifier ← formatOf (trim (deleteBeforeIncluding fieldType ['.']))
      pure (formatSpecifier, deleteAfterIncluding fieldType ['.'])
    else pure (0, fieldType)
  let (arrayLen, fieldType) := arrayPart (trim fieldType)
  match FieldType.ofString fieldType with
  | none => throw .badFieldType
  | some type =>
    let alen ← if arrayLen.isEmpty then pure 0 else number arrayLen
    pure (type, alen, formatSpecifier)

/-- The name before the first brace. -/
def namePart (sbuf : Text) : Text := trim (deleteAfterIncluding (deleteAfterLast sbuf '}') ['{'])

/-- The text of the column length. -/
def columnPart (sbuf : Text) : Text :=
  trim (deleteAfterIncluding (deleteBeforeIncluding (deleteAfterLast sbuf '}') ['{']) ['}'])

/-- A field and its array length as a 64-bit word. -/
def createField (T : IntTypes) (word : Text) : Except DefinitionError (TableField × Nat) :=
  if word.isEmpty then throw .badFieldType
  else do
    let sbuf := trim word
    if '{' ∉ sbuf ∨ '}' ∉ sbuf then throw .badColLength
    let columnLength ← number (columnPart sbuf)
    let (type, alen, formatSpecifier) ← typePart (deleteBeforeIncluding sbuf ['}'])
    let alen := (alen % 2 ^ 64).toNat
    pure (⟨type, formatSpecifier, (columnLength % 256 ^ T.wordSize).toNat, alen % 256 ^ T.wordSize,
      copyTo tableFieldNameLen (namePart sbuf)⟩, alen)

/-- The definition of a field in a record definition. -/
def recordColumn (type : FieldType) (alen : Nat) : Text :=
  type.string ++ if alen > 0 then '[' :: ofInt alen ++ [']'] else []

end Definition

/-! ## Tables -/

/-- The parts of a `gxrdDatabaseTable` that its definition makes. -/
structure DefinedTable where
  tableName : Text
  recordDef : Text
  tableDef : Text
  headerName : Text
  fields : List TableField
  deriving DecidableEq, Repr

namespace Definition

open Text

/-- The characters that no file name has. -/
def isIllegal (c : Char) : Bool := "/\\*|:\"<>?".toList.contains c

def tableNameOf (word : Text) : Text := trim (eraseChar (convertEscapeSeq '%' word) '\t')

/-- `SetTableName` with the C string of the name. -/
def headerNameOf (tableName : Text) : Text :=
  copyTo tableNameLen (tableName.takeWhile fun c => c ≠ '\x00')

def createTable (T : IntTypes) (tdef : Text) : Except DefinitionError DefinedTable :=
  let words := parseFields tdef ','
  if words.length > tableMaxFields + 1 then throw .badTableDef
  else
    match words with
    | name :: column :: columns => do
      if name.isEmpty then throw .badTableDef
      let tableName := tableNameOf name
      if tableName.any isIllegal then throw .illegalChar
      let fields ← (column :: columns).mapM (createField T)
      pure {
        tableName := tableName
        recordDef := tableName ++ ',' ::
          [','].intercalate (fields.map fun f => recordColumn f.1.fieldType f.2)
        tableDef := tdef
        headerName := headerNameOf tableName
        fields := fields.map Prod.fst }
    | _ => throw .badTableDef

/-- A field as `TableDef` writes it. -/
def fieldText (f : TableField) : Text :=
  f.fieldName ++ '{' :: ofInt f.columnLength ++ '}' :: f.fieldType.string ++
    (if f.arrayLength > 0 then '[' :: ofInt f.arrayLength ++ [']'] else []) ++
    if f.formatSpecifier = 0 then []
    else if isAlpha f.formatSpecifier then ['.', Char.ofNat f.formatSpecifier.toNat]
    else '.' :: ofInt f.formatSpecifier

/-- `TableDef` -/
def tableDefOf (t : DefinedTable) : Text :=
  if t.fields.isEmpty then []
  else t.headerName ++ ',' :: [','].intercalate (t.fields.map fieldText)

/-! ## Records -/

/-- The parts of a `gxrdDatabaseRecord` that its definition makes: the types and the numbers of bytes of
its fields. -/
structure DefinedRecord where
  tableName : Text
  recordDef : Text
  fields : List (FieldType × Nat)
  deriving DecidableEq, Repr

def recordField (T : IntTypes) (word : Text) : Except DefinitionError (FieldType × Nat) :=
  if word.isEmpty then throw .badFieldType
  else
    let (arrayLen, fieldType) := arrayPart (trim word)
    match FieldType.ofString fieldType with
    | none => throw .badFieldType
    | some type => do
      let size := type.size T
      if arrayLen.isEmpty then pure (type, size)
      else
        let n ← number arrayLen
        let numBytes := (size * n % 256 ^ T.wordSize).toNat
        pure (type, if numBytes < size then size else numBytes)

/-- `CreateRecord`, whose `InitRecord` goes over the fields as its test of them does. -/
def createRecord (T : IntTypes) (recordDef : Text) : Except DefinitionError DefinedRecord :=
  let words := parseFields recordDef ','
  if words.length > recordMaxFields + 1 then throw .badRecordDef
  else
    match words with
    | name :: column :: columns => do
      if name.isEmpty then throw .badRecordDef
      let fields ← (column :: columns).mapM (recordField T)
      pure ⟨name, recordDef, fields⟩
    | _ => throw .badRecordDef

end Definition

/-! ## The texts of definitions

What the parsers make of the texts that `CreateTable` and `TableDef` write for a type, an array length and a
format.
-/

namespace Text

variable {c : Char} {s x y : Text}

theorem deleteBeforeIncluding_append (h : c ∉ x) : deleteBeforeIncluding (x ++ c :: y) [c] = y := by
  have hCut : cutAt [c] (x ++ [c] ++ y) = some (x, y) := cutAt_append h
  rw [List.append_assoc, List.singleton_append] at hCut
  rw [deleteBeforeIncluding, hCut]

theorem deleteAfterIncluding_append (h : c ∉ x) : deleteAfterIncluding (x ++ c :: y) [c] = x := by
  have hCut : cutAt [c] (x ++ [c] ++ y) = some (x, y) := cutAt_append h
  rw [List.append_assoc, List.singleton_append] at hCut
  rw [deleteAfterIncluding, hCut]

theorem deleteAfterIncluding_none (h : c ∉ s) : deleteAfterIncluding s [c] = s := by
  rw [deleteAfterIncluding, cutAt_none]
  rintro ⟨x, y, rfl⟩
  simp at h

theorem deleteAfterLast_append (h : c ∉ y) : deleteAfterLast (x ++ c :: y) c = x ++ [c] := by
  rw [deleteAfterLast, rcut_append h]

theorem not_mem_deleteAfterIncluding (c : Char) (s : Text) : c ∉ deleteAfterIncluding s [c] := by
  by_cases hc : c ∈ s
  · obtain ⟨x, y, rfl, hx⟩ := List.eq_append_cons_of_mem hc
    rwa [deleteAfterIncluding_append hx]
  · rwa [deleteAfterIncluding_none hc]

theorem deleteAfterIncluding_subset (s p : Text) : deleteAfterIncluding s p ⊆ s := by
  intro c hc
  rw [deleteAfterIncluding] at hc
  split at hc
  · exact hc
  next hCut =>
    rw [eq_of_cutAt hCut]
    exact List.mem_append_left _ (List.mem_append_left _ hc)

theorem deleteAfterLast_subset (s : Text) (c : Char) : deleteAfterLast s c ⊆ s := by
  intro d hd
  rw [deleteAfterLast] at hd
  split at hd
  · exact hd
  next hCut =>
    rw [(eq_of_rcut hCut).1]
    rw [List.mem_append, List.mem_singleton] at hd
    rcases hd with hd | rfl <;> simp_all

theorem digits_brace (a s : Text) (n : Nat) : digits n (a ++ '{' :: s) = digits n (a ++ ['{']) := by
  induction a generalizing n with
  | nil => rfl
  | cons c a ih =>
    rw [List.cons_append, List.cons_append, digits, digits, ih]

theorem trimLeft_append_cons (hc : isSpace c = false) (a s : Text) :
    trimLeft (a ++ c :: s) = trimLeft a ++ c :: s := by
  induction a with
  | nil => exact trimLeft_cons_of_not_isSpace hc
  | cons d a ih =>
    cases hd : isSpace d with
    | true => rw [List.cons_append, trimLeft_cons_of_isSpace hd, trimLeft_cons_of_isSpace hd, ih]
    | false => rw [List.cons_append, trimLeft_cons_of_not_isSpace hd, trimLeft_cons_of_not_isSpace hd,
        List.cons_append]

/-- A number ends before a brace. -/
theorem atoi_brace (a s : Text) : atoi (a ++ '{' :: s) = atoi (a ++ ['{']) := by
  rw [atoi, atoi, trimLeft_append_cons rfl, trimLeft_append_cons rfl]
  cases trimLeft a with
  | nil => rfl
  | cons c t =>
    rw [List.cons_append, List.cons_append]
    have hDigits := digits_brace t s 0
    have hAll := digits_brace (c :: t) s 0
    rw [List.cons_append, List.cons_append] at hAll
    split
    · next h =>
      cases h
      exact congrArg (fun n : Nat => -(n : Int)) hDigits
    · next h =>
      cases h
      exact congrArg Nat.cast hDigits
    · next hMinus hPlus =>
      rw [hAll]
      split
      · next h => exact (hMinus _ (congrArg (· :: (t ++ '{' :: s)) (List.cons.inj h).1)).elim
      · next h => exact (hPlus _ (congrArg (· :: (t ++ '{' :: s)) (List.cons.inj h).1)).elim
      · rfl

theorem trim_brace (a s : Text) : trim (a ++ '{' :: s) = trimLeft a ++ '{' :: trimRight s := by
  rw [trim, trimLeft_append_cons rfl]
  exact rdropWhile_append_cons rfl

theorem atoi_natCast (n : Nat) : atoi (ofInt n) = n := by
  obtain ⟨c, ds, hEq, hDigit⟩ := ofInt_cons n
  have hDigits : digits 0 (ofInt n) = n := by
    have hAll := @digits_append (ofInt n) (fun d hd => isDigit_of_mem hd) 0 []
    rw [List.append_nil, ofInt_natCast, Nat.ofDigitChars_ten_toDigits] at hAll
    rw [ofInt_natCast]
    exact hAll
  rw [hEq] at hDigits ⊢
  rw [atoi, trimLeft_of_digit hDigit]
  have hMinus : c ≠ '-' := ne_of_isDigit hDigit rfl
  have hPlus : c ≠ '+' := ne_of_isDigit hDigit rfl
  split
  · next h => exact absurd (List.cons.inj h).1 hMinus
  · next h => exact absurd (List.cons.inj h).1 hPlus
  · exact congrArg Int.ofNat hDigits

end Text

namespace Definition

open Text

/-- The characters that the parsers look for. -/
def signs : Text := ",\x7b\x7d[].".toList

def Unsigned (s : Text) : Prop := ∀ c ∈ s, c ∉ signs

def arrayText (n : Nat) : Text := if n > 0 then '[' :: ofInt n ++ [']'] else []

def formatText (n : Int) : Text :=
  if n = 0 then []
  else if isAlpha n then ['.', Char.ofNat n.toNat]
  else '.' :: ofInt n

/-- The type, the array length and the format of a field. -/
def typeText (f : TableField) : Text :=
  f.fieldType.string ++ arrayText f.arrayLength ++ formatText f.formatSpecifier

variable {s t v : Text} {type : FieldType} {n c : Nat} {z : Int} {f : TableField}

theorem fieldText_eq (f : TableField) :
    fieldText f = f.fieldName ++ '{' :: (ofInt f.columnLength ++ '}' :: typeText f) := by
  simp [fieldText, typeText, arrayText, formatText]

theorem recordColumn_eq (type : FieldType) (n : Nat) : recordColumn type n = type.string ++ arrayText n := rfl

theorem unsigned_string (type : FieldType) : Unsigned type.string := by
  have hAll : (type.string.all fun c => !signs.contains c) = true := by
    cases type <;> decide
  simpa [Unsigned] using hAll

theorem ofString_string (type : FieldType) : FieldType.ofString type.string = some type := by
  cases type <;> decide

theorem trim_string (type : FieldType) : trim type.string = type.string := by
  cases type <;> decide

theorem string_ne_nil (type : FieldType) : type.string ≠ [] := by
  cases type <;> decide

/-- A format as it is written: a period and what is read as the format. -/
theorem formatText_cases (hLow : -128 ≤ z) (hHigh : z < 128) :
    (z = 0 ∧ formatText z = []) ∨
      ∃ s, formatText z = '.' :: s ∧ trim s = s ∧ Unsigned s ∧ formatOf s = .ok z := by
  have hAll : ∀ k : Nat, k < 256 → (k : Int) - 128 = 0 ∨
      (formatText ((k : Int) - 128)).head? = some '.' ∧
      trim (formatText ((k : Int) - 128)).tail = (formatText ((k : Int) - 128)).tail ∧
      ((formatText ((k : Int) - 128)).tail.all fun c => !signs.contains c) = true ∧
      (formatOf (formatText ((k : Int) - 128)).tail).toOption = some ((k : Int) - 128) := by
    decide +kernel
  have hz : ((z + 128).toNat : Int) - 128 = z := by omega
  have hk := hAll (z + 128).toNat (by omega)
  rw [hz] at hk
  rcases hk with hZero | ⟨hHead, hTrim, hSigns, hFormat⟩
  · exact .inl ⟨hZero, by rw [formatText, if_pos hZero]⟩
  · right
    refine ⟨(formatText z).tail, ?_, hTrim, by simpa [Unsigned] using hSigns, ?_⟩
    · cases hText : formatText z with
      | nil => simp [hText] at hHead
      | cons d s =>
        rw [hText] at hHead
        cases hHead
        rfl
    · cases hRun : formatOf (formatText z).tail with
      | error => simp [hRun, Except.toOption] at hFormat
      | ok m =>
        rw [hRun] at hFormat
        cases hFormat
        rfl

theorem unsigned_ofInt (n : Nat) : Unsigned (ofInt n) := by
  intro d hd hSign
  have hDigit := isDigit_of_mem hd
  have hAll : (signs.all fun c => !c.isDigit) = true := by decide
  rw [List.all_eq_true] at hAll
  have hNot := hAll d hSign
  rw [hDigit] at hNot
  cases hNot

theorem trim_ofInt (n : Nat) : trim (ofInt n) = ofInt n := by
  obtain ⟨d, ds, hEq, hDigit⟩ := ofInt_cons n
  have hSpace (e : Char) (he : e ∈ ofInt n) : isSpace e = false :=
    not_isSpace_of_isDigit (isDigit_of_mem he)
  rw [trim, hEq, trimLeft_of_digit hDigit, ← hEq, trimRight, List.rdropWhile_eq_self_iff]
  intro hNe
  simp [hSpace _ (List.getLast_mem hNe)]

theorem number_ofInt (n : Nat) : number (ofInt n) = if n < 2 ^ 31 then .ok (n : Int) else .error .undefined := by
  unfold number toInt
  rw [atoi_natCast]
  by_cases h : n < 2 ^ 31
  · rw [if_pos ⟨by omega, by omega⟩, if_pos h]
    rfl
  · rw [if_neg (by omega), if_neg h]
    rfl

theorem ofString_none (h : '\x7b' ∈ s) : FieldType.ofString s = none := by
  rw [FieldType.ofString, List.find?_eq_none]
  rintro type - hType
  rw [decide_eq_true_eq] at hType
  rw [← hType] at h
  exact unsigned_string type _ h (by decide)

/-! ## The type and the array length -/

/-- What `typePart` makes of the text before the format. -/
def bodyPart (s : Text) : Except DefinitionError (FieldType × Int) :=
  match FieldType.ofString (arrayPart (trim s)).2 with
  | none => .error .badFieldType
  | some type => (if (arrayPart (trim s)).1.isEmpty then .ok 0 else number (arrayPart (trim s)).1).map fun n => (type, n)

theorem typePart_plain (h : '.' ∉ s) : typePart s = (bodyPart s).map fun p => (p.1, p.2, 0) := by
  unfold typePart bodyPart
  rw [if_neg h]
  simp only [pure_bind]
  cases FieldType.ofString (arrayPart (trim s)).2 with
  | none => rfl
  | some type =>
    dsimp only
    split
    · rfl
    · cases number (arrayPart (trim s)).1 <;> rfl

theorem typePart_period (h : '.' ∉ s) : typePart (s ++ '.' :: t) =
    (formatOf (trim t)).bind fun z => (bodyPart s).map fun p => (p.1, p.2, z) := by
  unfold typePart bodyPart
  rw [if_pos (by simp), deleteBeforeIncluding_append h, deleteAfterIncluding_append h]
  cases formatOf (trim t) with
  | error => rfl
  | ok z =>
    simp only [bind, Except.bind, pure, Except.pure]
    cases FieldType.ofString (arrayPart (trim s)).2 with
    | none => rfl
    | some type =>
      dsimp only
      split
      · rfl
      · cases number (arrayPart (trim s)).1 <;> rfl

theorem arrayPart_text (type : FieldType) (n : Nat) :
    arrayPart (type.string ++ arrayText n) = (if n > 0 then ofInt n else [], type.string) := by
  have hBracket : '[' ∉ type.string := fun h => unsigned_string type _ h (by decide)
  unfold arrayPart arrayText
  split
  · have hClose : ']' ∉ ofInt n := fun h => unsigned_ofInt n _ h (by decide)
    rw [if_pos (by simp), List.cons_append, deleteBeforeIncluding_append hBracket,
      deleteAfterIncluding_append hClose, deleteAfterIncluding_append hBracket, trim_ofInt,
      trimRight_of_trim (trim_string type)]
  · rw [List.append_nil, if_neg hBracket]

theorem trim_typeArray (type : FieldType) (n : Nat) :
    trim (type.string ++ arrayText n) = type.string ++ arrayText n := by
  apply trim_append (trim_string type) (string_ne_nil type)
  unfold arrayText
  split
  · exact List.rdropWhile_concat_neg _ _ _ (by decide)
  · rfl

theorem bodyPart_text (type : FieldType) (n : Nat) : bodyPart (type.string ++ arrayText n) =
    if n < 2 ^ 31 then .ok (type, (n : Int)) else .error .undefined := by
  unfold bodyPart
  rw [trim_typeArray, arrayPart_text, ofString_string]
  dsimp only
  by_cases hZero : n > 0
  · have hNe : (ofInt n).isEmpty = false := by
      obtain ⟨d, ds, hEq, -⟩ := ofInt_cons n
      rw [hEq]
      rfl
    rw [if_pos hZero, hNe, if_neg Bool.false_ne_true, number_ofInt]
    split <;> rfl
  · obtain rfl : n = 0 := by omega
    rfl

theorem not_mem_typeArray (type : FieldType) (n : Nat) {d : Char} (hd : d ∈ signs) (hOpen : d ≠ '[')
    (hClose : d ≠ ']') : d ∉ type.string ++ arrayText n := by
  intro hMem
  rcases List.mem_append.mp hMem with hMem | hMem
  · exact unsigned_string type d hMem hd
  · unfold arrayText at hMem
    split at hMem
    · rw [List.cons_append, List.mem_cons, List.mem_append, List.mem_singleton] at hMem
      rcases hMem with rfl | hMem | rfl
      · exact hOpen rfl
      · exact unsigned_ofInt n d hMem hd
      · exact hClose rfl
    · cases hMem

theorem typePart_typeText (hLow : -128 ≤ f.formatSpecifier) (hHigh : f.formatSpecifier < 128) :
    typePart (typeText f) =
      if f.arrayLength < 2 ^ 31 then .ok (f.fieldType, (f.arrayLength : Int), f.formatSpecifier)
      else .error .undefined := by
  have hPeriod : '.' ∉ f.fieldType.string ++ arrayText f.arrayLength :=
    not_mem_typeArray _ _ (by decide) (by decide) (by decide)
  unfold typeText
  rcases formatText_cases hLow hHigh with ⟨hZero, hText⟩ | ⟨s, hText, hTrim, -, hFormat⟩
  · rw [hText, List.append_nil, typePart_plain hPeriod, bodyPart_text, hZero]
    split <;> rfl
  · rw [hText, typePart_period hPeriod, hTrim, hFormat, bodyPart_text]
    split <;> rfl

/-! ## A type behind a brace in the name -/

theorem formatOf_brace (q s : Text) : formatOf (trim (q ++ '\x7b' :: s)) = formatOf (trim (q ++ ['\x7b'])) := by
  rw [trim_brace, trim_brace]
  have hNumber : number (trimLeft q ++ '\x7b' :: trimRight s) = number (trimLeft q ++ '\x7b' :: trimRight []) := by
    unfold number toInt
    rw [atoi_brace, atoi_brace _ (trimRight [])]
  cases hq : trimLeft q with
  | nil =>
    rw [hq] at hNumber
    rw [List.nil_append, List.nil_append] at hNumber ⊢
    rw [formatOf, formatOf, hNumber]
  | cons d q =>
    rw [hq] at hNumber
    rw [List.cons_append, List.cons_append] at hNumber ⊢
    rw [formatOf, formatOf, hNumber]

/-- The array length ends before the brace, or it is a number that does. -/
theorem arrayLen_brace (q s : Text) : ∃ a a', trim (deleteAfterIncluding (q ++ '\x7b' :: s) [']']) = a ∧
    trim (deleteAfterIncluding (q ++ ['\x7b']) [']']) = a' ∧ a.isEmpty = a'.isEmpty ∧ atoi a = atoi a' := by
  refine ⟨_, _, rfl, rfl, ?_⟩
  by_cases hq : ']' ∈ q
  · obtain ⟨x, y, rfl, hx⟩ := List.eq_append_cons_of_mem hq
    rw [List.append_assoc, List.cons_append, deleteAfterIncluding_append hx, List.append_assoc, List.cons_append,
      deleteAfterIncluding_append hx]
    exact ⟨rfl, rfl⟩
  · have hOpen : ∃ s', deleteAfterIncluding (q ++ '\x7b' :: s) [']'] = q ++ '\x7b' :: s' := by
      by_cases hs : ']' ∈ s
      · obtain ⟨x, y, rfl, hx⟩ := List.eq_append_cons_of_mem hs
        refine ⟨x, ?_⟩
        rw [← List.cons_append, ← List.append_assoc, deleteAfterIncluding_append (by simp [hq, hx])]
      · exact ⟨s, deleteAfterIncluding_none (by simp [hq, hs])⟩
    obtain ⟨s', hs'⟩ := hOpen
    rw [hs', deleteAfterIncluding_none (by simp [hq]), trim_brace, trim_brace]
    constructor
    · cases trimLeft q <;> rfl
    · rw [atoi_brace, atoi_brace _ (trimRight [])]

theorem bodyPart_brace (v s : Text) : bodyPart (v ++ '\x7b' :: s) = bodyPart (v ++ ['\x7b']) := by
  have hAlone : trim (v ++ ['\x7b']) = trimLeft v ++ ['\x7b'] := trim_brace v []
  unfold bodyPart
  rw [trim_brace, hAlone]
  generalize trimLeft v = w
  generalize trimRight s = s
  by_cases hw : '[' ∈ w
  · obtain ⟨p, q, rfl, hp⟩ := List.eq_append_cons_of_mem hw
    obtain ⟨a, a', ha, ha', hEmpty, hNumber⟩ := arrayLen_brace q s
    have hParts : arrayPart (p ++ '[' :: q ++ '\x7b' :: s) = (a, trimRight p) := by
      unfold arrayPart
      rw [if_pos (by simp), List.append_assoc, List.cons_append, deleteBeforeIncluding_append hp, ha,
        deleteAfterIncluding_append hp]
    have hParts' : arrayPart (p ++ '[' :: q ++ ['\x7b']) = (a', trimRight p) := by
      unfold arrayPart
      rw [if_pos (by simp), List.append_assoc, List.cons_append, deleteBeforeIncluding_append hp, ha',
        deleteAfterIncluding_append hp]
    rw [hParts, hParts']
    dsimp only
    rw [hEmpty, number, number, toInt, toInt, hNumber]
  · have hBody : FieldType.ofString (arrayPart (w ++ '\x7b' :: s)).2 = none := by
      apply ofString_none
      unfold arrayPart
      split
      · next hBracket =>
        have hs : '[' ∈ s := by simpa [hw] using hBracket
        obtain ⟨x, y, rfl, hx⟩ := List.eq_append_cons_of_mem hs
        rw [← List.cons_append, ← List.append_assoc, deleteAfterIncluding_append (by simp [hw, hx])]
        unfold trimRight
        rw [rdropWhile_append_cons rfl]
        simp
      · simp
    have hBody' : FieldType.ofString (arrayPart (w ++ ['\x7b'])).2 = none := by
      apply ofString_none
      unfold arrayPart
      rw [if_neg (by simp [hw])]
      simp
    rw [hBody, hBody']

/-- What stands in front of the brace decides on the type and the array length, and on the format if it has
a period. -/
theorem typePart_brace (hLow : -128 ≤ f.formatSpecifier) (hHigh : f.formatSpecifier < 128) (v : Text) :
    typePart (v ++ '\x7b' :: (ofInt c ++ '\x7d' :: typeText f)) = (typePart (v ++ ['\x7b'])).map fun p =>
      (p.1, p.2.1, if '.' ∈ v then p.2.2 else f.formatSpecifier) := by
  by_cases hv : '.' ∈ v
  · obtain ⟨p, q, rfl, hp⟩ := List.eq_append_cons_of_mem hv
    rw [List.append_assoc, List.cons_append, typePart_period hp, formatOf_brace, List.append_assoc,
      List.cons_append, typePart_period hp]
    simp only [if_pos hv]
    cases formatOf (trim (q ++ ['\x7b'])) with
    | error => rfl
    | ok z => cases bodyPart p <;> rfl
  · have hPeriod : '.' ∉ f.fieldType.string ++ arrayText f.arrayLength :=
      not_mem_typeArray _ _ (by decide) (by decide) (by decide)
    have hCount : '.' ∉ ofInt c := fun h => unsigned_ofInt c _ h (by decide)
    have hFront : '.' ∉ v ++ '\x7b' :: (ofInt c ++ '\x7d' :: (f.fieldType.string ++ arrayText f.arrayLength)) := by
      rw [List.mem_append, List.mem_cons, List.mem_append, List.mem_cons]
      simp [hv, hCount, hPeriod]
    simp only [if_neg hv]
    rw [typePart_plain (s := v ++ ['\x7b']) (by simp [hv])]
    unfold typeText
    rcases formatText_cases hLow hHigh with ⟨hZero, hText⟩ | ⟨s, hText, hTrim, -, hFormat⟩
    · rw [hText, List.append_nil, typePart_plain hFront, bodyPart_brace, hZero]
      cases bodyPart (v ++ ['\x7b']) <;> rfl
    · have hSplit : v ++ '\x7b' :: (ofInt c ++ '\x7d' :: (f.fieldType.string ++ arrayText f.arrayLength ++
          formatText f.formatSpecifier)) =
          v ++ '\x7b' :: (ofInt c ++ '\x7d' :: (f.fieldType.string ++ arrayText f.arrayLength)) ++ '.' :: s := by
        rw [hText]
        simp
      rw [hSplit, typePart_period hFront, hTrim, hFormat, bodyPart_brace]
      cases bodyPart (v ++ ['\x7b']) <;> rfl

end Definition

end DataReel
