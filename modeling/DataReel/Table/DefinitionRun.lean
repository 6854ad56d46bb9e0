import DataReel.Table.Definition
import Mathlib.Data.List.Forall2

/-! # Reading a definition again

The record definition and the table definition that are made of a definition are read by `CreateRecord` and
`CreateTable`. They are read as what they were made of exactly if the definition is sound.
-/

namespace DataReel

/-- A list of runs that all succeed. -/
theorem mapM_ok_iff {α β ε : Type} {f : α → Except ε β} {l : List α} {bs : List β} :
    l.mapM f = .ok bs ↔ List.Forall₂ (fun a b => f a = .ok b) l bs := by
  induction l generalizing bs with
  | nil =>
    rw [List.mapM_nil, List.forall₂_nil_left_iff]
    constructor
    · intro h
      cases h
      rfl
    · rintro rfl
      rfl
  | cons a l ih =>
    rw [List.mapM_cons, List.forall₂_cons_left_iff]
    cases ha : f a with
    | error e =>
      constructor
      · intro h
        cases h
      · rintro ⟨b, bs, hb, -⟩
        cases hb
    | ok b =>
      cases hl : l.mapM f with
      | error e =>
        constructor
        · intro h
          cases h
        · rintro ⟨b, bs, -, hbs, -⟩
          rw [← ih, hl] at hbs
          cases hbs
      | ok bs' =>
        constructor
        · intro h
          cases h
          exact ⟨b, bs', rfl, ih.mp hl, rfl⟩
        · rintro ⟨b, bs, hb, hbs, rfl⟩
          rw [← ih, hl] at hbs
          cases hb
          cases hbs
          rfl

namespace Definition

open Text

/-! ## Numbers and formats that are read -/

variable {T : IntTypes} {s word x : Text} {n : Int} {p : TableField × Nat}

theorem number_ok (h : number s = .ok n) : n = atoi s ∧ -2 ^ 31 ≤ n ∧ n < 2 ^ 31 := by
  unfold number toInt at h
  by_cases hRange : -2 ^ 31 ≤ atoi s ∧ atoi s < 2 ^ 31
  · rw [if_pos hRange] at h
    cases h
    exact ⟨rfl, hRange⟩
  · rw [if_neg hRange] at h
    cases h

theorem charValue_range (n : Int) : -128 ≤ charValue n ∧ charValue n < 128 := by
  exact ⟨Int.le_bmod (by decide), Int.bmod_lt (by decide)⟩

theorem formatOf_range (h : formatOf s = .ok n) : -128 ≤ n ∧ n < 128 := by
  cases s with
  | nil =>
    cases h
    decide
  | cons c s =>
    rw [formatOf] at h
    cases hNumber : number (c :: s) with
    | error => simp [hNumber, bind, Except.bind] at h
    | ok m =>
      simp only [hNumber, bind, Except.bind] at h
      by_cases hZero : charValue m = 0
      · rw [if_pos hZero] at h
        rw [← Except.ok.inj h]
        exact charValue_range _
      · rw [if_neg hZero] at h
        rw [← Except.ok.inj h]
        exact charValue_range _

theorem bodyPart_range {q : FieldType × Int} (h : bodyPart s = .ok q) : -2 ^ 31 ≤ q.2 ∧ q.2 < 2 ^ 31 := by
  unfold bodyPart at h
  split at h
  · cases h
  · split at h
    · cases h
      dsimp only
      omega
    · cases hNumber : number (arrayPart (trim s)).1 with
      | error => simp [hNumber, Except.map] at h
      | ok m =>
        rw [hNumber] at h
        cases h
        exact (number_ok hNumber).2

theorem typePart_range {q : FieldType × Int × Int} (h : typePart s = .ok q) :
    (-2 ^ 31 ≤ q.2.1 ∧ q.2.1 < 2 ^ 31) ∧ -128 ≤ q.2.2 ∧ q.2.2 < 128 := by
  by_cases hPeriod : '.' ∈ s
  · obtain ⟨a, b, rfl, ha⟩ := List.eq_append_cons_of_mem hPeriod
    rw [typePart_period ha] at h
    cases hFormat : formatOf (trim b) with
    | error => simp [hFormat, Except.bind] at h
    | ok z =>
      cases hBody : bodyPart a with
      | error => simp [hFormat, hBody, Except.bind, Except.map] at h
      | ok q =>
        rw [hFormat, hBody] at h
        cases h
        exact ⟨bodyPart_range hBody, formatOf_range hFormat⟩
  · rw [typePart_plain hPeriod] at h
    cases hBody : bodyPart s with
    | error => simp [hBody, Except.map] at h
    | ok q =>
      rw [hBody] at h
      cases h
      refine ⟨bodyPart_range hBody, ?_⟩
      dsimp only
      omega

/-! ## A field -/

/-- The name as the header keeps it. -/
def storedName (word : Text) : Text := copyTo tableFieldNameLen (namePart (trim word))

/-- The text behind the first closing brace. -/
def behindBrace (s : Text) : Text := deleteBeforeIncluding s ['\x7d']

/-- The field of a column length, a type with an array length and a format. -/
def fieldOf (T : IntTypes) (word : Text) (columnLength : Int) (p : FieldType × Int × Int) : TableField × Nat :=
  (⟨p.1, p.2.2, (columnLength % 256 ^ T.wordSize).toNat, (p.2.1 % 2 ^ 64).toNat % 256 ^ T.wordSize,
    storedName word⟩, (p.2.1 % 2 ^ 64).toNat)

theorem createField_eq (hNe : word ≠ []) (hOpen : '\x7b' ∈ trim word) (hClose : '\x7d' ∈ trim word) :
    createField T word = (number (columnPart (trim word))).bind fun n =>
      (typePart (behindBrace (trim word))).map (fieldOf T word n) := by
  unfold createField
  rw [if_neg (by simpa using hNe), if_neg (by simp [hOpen, hClose])]
  cases number (columnPart (trim word)) with
  | error => rfl
  | ok n =>
    simp only [bind, Except.bind, pure, Except.pure]
    unfold behindBrace
    cases typePart (deleteBeforeIncluding (trim word) ['\x7d']) <;> rfl

theorem createField_ok (h : createField T word = .ok p) : ∃ n q, number (columnPart (trim word)) = .ok n ∧
    typePart (behindBrace (trim word)) = .ok q ∧ p = fieldOf T word n q := by
  have hBraces : word ≠ [] ∧ '\x7b' ∈ trim word ∧ '\x7d' ∈ trim word := by
    refine ⟨?_, ?_⟩
    · rintro rfl
      cases h
    · by_contra hNot
      have hNe : word ≠ [] := by
        rintro rfl
        cases h
      unfold createField at h
      rw [if_neg (by simpa using hNe), if_pos (by tauto)] at h
      cases h
  rw [createField_eq hBraces.1 hBraces.2.1 hBraces.2.2] at h
  cases hNumber : number (columnPart (trim word)) with
  | error => simp [hNumber, Except.bind] at h
  | ok n =>
    cases hType : typePart (behindBrace (trim word)) with
    | error => simp [hNumber, hType, Except.bind, Except.map] at h
    | ok q =>
      rw [hNumber, hType] at h
      cases h
      exact ⟨n, q, rfl, rfl, rfl⟩

/-- What a field of a header is like if `CreateTable` has made it. -/
structure Stored (f : TableField) : Prop where
  noBrace : '\x7b' ∉ f.fieldName
  noComma : ',' ∉ f.fieldName
  start : trimLeft f.fieldName = f.fieldName
  fits : copyTo tableFieldNameLen f.fieldName = f.fieldName
  low : -128 ≤ f.formatSpecifier
  high : f.formatSpecifier < 128

theorem copyTo_isPrefix (n : Nat) (s : Text) : copyTo n s <+: s :=
  (List.takeWhile_prefix _).trans (List.take_prefix _ _)

theorem copyTo_copyTo (n : Nat) (s : Text) : copyTo n (copyTo n s) = copyTo n s := by
  have hLength : (copyTo n s).length ≤ n - 1 := by
    have hShort := (List.takeWhile_prefix (l := s.take (n - 1)) fun c => c ≠ '\x00').length_le
    rw [List.length_take] at hShort
    exact hShort.trans (Nat.min_le_left _ _)
  rw [copyTo, List.take_of_length_le hLength, copyTo, List.takeWhile_idem]

theorem trimLeft_of_isPrefix (h : x <+: trim s) : trimLeft x = x := by
  cases x with
  | nil => rfl
  | cons c x =>
    obtain ⟨y, hy⟩ := h
    apply trimLeft_cons_of_not_isSpace
    apply head_trim (s := s)
    rw [← hy]
    rfl

theorem namePart_subset (s : Text) : namePart s ⊆ s := fun _ hd =>
  deleteAfterLast_subset s _ (deleteAfterIncluding_subset _ _ ((isInfix_trim _).subset hd))

theorem stored_of_word (h : createField T word = .ok p) (hComma : ',' ∉ word) : Stored p.1 := by
  obtain ⟨n, q, -, hType, rfl⟩ := createField_ok h
  have hPrefix := copyTo_isPrefix tableFieldNameLen (namePart (trim word))
  constructor
  · intro hBrace
    exact not_mem_deleteAfterIncluding _ _ ((isInfix_trim _).subset (hPrefix.subset hBrace))
  · intro hMem
    exact hComma ((isInfix_trim word).subset (namePart_subset _ (hPrefix.subset hMem)))
  · exact trimLeft_of_isPrefix hPrefix
  · exact copyTo_copyTo _ _
  · exact (typePart_range hType).2.1
  · exact (typePart_range hType).2.2

/-! ## A field that is read again -/

variable {f : TableField}

theorem not_mem_typeText (hf : Stored f) {d : Char} (hd : d ∈ signs) (hOpen : d ≠ '[') (hClose : d ≠ ']')
    (hPeriod : d ≠ '.') : d ∉ typeText f := by
  unfold typeText
  rw [List.mem_append]
  rintro (hMem | hMem)
  · exact not_mem_typeArray _ _ hd hOpen hClose hMem
  · rcases formatText_cases hf.low hf.high with ⟨-, hText⟩ | ⟨s, hText, -, hSigns, -⟩
    · rw [hText] at hMem
      cases hMem
    · rw [hText, List.mem_cons] at hMem
      rcases hMem with hMem | hMem
      · exact hPeriod hMem
      · exact hSigns d hMem hd

theorem trimRight_typeText (hf : Stored f) : trimRight (typeText f) = typeText f := by
  have hFormat : trimRight (formatText f.formatSpecifier) = formatText f.formatSpecifier := by
    rcases formatText_cases hf.low hf.high with ⟨-, hText⟩ | ⟨s, hText, hTrim, -, -⟩
    · rw [hText]
      rfl
    · rw [hText]
      exact trimRight_append (x := ['.']) (fun _ => rfl) (trimRight_of_trim hTrim)
  exact trimRight_append (fun _ => trimRight_of_trim (trim_typeArray _ _)) hFormat

theorem trim_fieldText (hf : Stored f) : trim (fieldText f) = fieldText f := by
  rw [fieldText_eq, trim_brace, hf.start, trimRight, rdropWhile_append_cons rfl, ← trimRight,
    trimRight_typeText hf]

theorem columnPart_fieldText (hf : Stored f) : columnPart (fieldText f) = ofInt f.columnLength := by
  have hCount : '\x7d' ∉ ofInt f.columnLength := fun h => unsigned_ofInt _ _ h (by decide)
  have hEnd : '\x7d' ∉ typeText f :=
    not_mem_typeText hf (by decide) (by decide) (by decide) (by decide)
  rw [columnPart, fieldText_eq, ← List.cons_append, ← List.append_assoc, deleteAfterLast_append hEnd,
    List.append_assoc, List.cons_append, deleteBeforeIncluding_append hf.noBrace,
    deleteAfterIncluding_append hCount, trim_ofInt]

theorem namePart_fieldText (hf : Stored f) : namePart (fieldText f) = trim f.fieldName := by
  have hEnd : '\x7d' ∉ typeText f :=
    not_mem_typeText hf (by decide) (by decide) (by decide) (by decide)
  rw [namePart, fieldText_eq, ← List.cons_append, ← List.append_assoc, deleteAfterLast_append hEnd,
    List.append_assoc, List.cons_append, deleteAfterIncluding_append hf.noBrace]

theorem behindBrace_fieldText_of_not_mem (hName : '\x7d' ∉ f.fieldName) :
    behindBrace (fieldText f) = typeText f := by
  have hCount : '\x7d' ∉ ofInt f.columnLength := fun h => unsigned_ofInt _ _ h (by decide)
  rw [behindBrace, fieldText_eq, ← List.cons_append, ← List.append_assoc]
  apply deleteBeforeIncluding_append
  simp [hName, hCount]

theorem behindBrace_fieldText_of_mem (hName : '\x7d' ∈ f.fieldName) : behindBrace (fieldText f) =
    behindBrace f.fieldName ++ '\x7b' :: (ofInt f.columnLength ++ '\x7d' :: typeText f) := by
  obtain ⟨u, v, hEq, hu⟩ := List.eq_append_cons_of_mem hName
  rw [behindBrace, behindBrace, fieldText_eq, hEq, List.append_assoc, List.cons_append,
    deleteBeforeIncluding_append hu, deleteBeforeIncluding_append hu]

theorem copyTo_trim_iff (hf : Stored f) :
    copyTo tableFieldNameLen (trim f.fieldName) = f.fieldName ↔ trim f.fieldName = f.fieldName := by
  constructor
  · intro h
    have hPrefix := (copyTo_isPrefix tableFieldNameLen (trim f.fieldName)).length_le
    rw [h] at hPrefix
    exact (isInfix_trim _).sublist.eq_of_length_le hPrefix
  · intro h
    rw [h, hf.fits]

/-- A number of elements that is an `int` is kept by its words. -/
theorem toWord_eq_iff {n : Int} {a : Nat} (hLow : -2 ^ 31 ≤ n) (hHigh : n < 2 ^ 31) (ha : a < 2 ^ 31) :
    (n % 2 ^ 64).toNat % 256 ^ T.wordSize = a ↔ n = a := by
  cases T <;> simp only [IntTypes.wordSize] <;> omega

theorem toWord_natCast {a : Nat} (ha : a < 2 ^ 31) : ((a : Int) % 256 ^ T.wordSize).toNat = a := by
  cases T <;> simp only [IntTypes.wordSize] <;> omega

/-- What stands behind a closing brace in the name is read as the type, with the array length, and with the
format if it has a period. -/
def TypeAgain (name : Text) (q : FieldType × Int × Int) : Prop :=
  ∃ z, typePart (behindBrace name ++ ['\x7b']) = .ok (q.1, q.2.1, z) ∧ ('.' ∈ behindBrace name → z = q.2.2)

theorem createField_fieldText_eq (hf : Stored f) (hColumn : f.columnLength < 2 ^ 31) :
    createField T (fieldText f) =
      (typePart (behindBrace (fieldText f))).map (fieldOf T (fieldText f) f.columnLength) := by
  have hText := fieldText_eq f
  rw [createField_eq, trim_fieldText hf, columnPart_fieldText hf, number_ofInt, if_pos hColumn]
  · rfl
  · simp [hText]
  · rw [trim_fieldText hf, hText]
    simp
  · rw [trim_fieldText hf, hText]
    simp

theorem fieldOf_eq_iff (hf : Stored f) (hColumn : f.columnLength < 2 ^ 31) (hArray : f.arrayLength < 2 ^ 31)
    {q : FieldType × Int × Int} (hLow : -2 ^ 31 ≤ q.2.1) (hHigh : q.2.1 < 2 ^ 31) :
    (fieldOf T (fieldText f) f.columnLength q).1 = f ↔
      q = (f.fieldType, (f.arrayLength : Int), f.formatSpecifier) ∧ trim f.fieldName = f.fieldName := by
  have hName := copyTo_trim_iff hf
  have hWord := toWord_eq_iff (T := T) hLow hHigh hArray
  obtain ⟨type, n, z⟩ := q
  obtain ⟨fieldType, formatSpecifier, columnLength, arrayLength, fieldName⟩ := f
  dsimp only at hColumn hName hWord ⊢
  rw [fieldOf, storedName, trim_fieldText hf, namePart_fieldText hf, toWord_natCast hColumn]
  simp only [TableField.mk.injEq, hName, hWord, Prod.mk.injEq, true_and]
  tauto

theorem createField_fieldText_iff (hf : Stored f) (hArray : f.arrayLength < 2 ^ 31) :
    (∃ p, createField T (fieldText f) = .ok p ∧ p.1 = f) ↔
      f.columnLength < 2 ^ 31 ∧ trim f.fieldName = f.fieldName ∧
        ('\x7d' ∈ f.fieldName →
          TypeAgain f.fieldName (f.fieldType, (f.arrayLength : Int), f.formatSpecifier)) := by
  by_cases hColumn : f.columnLength < 2 ^ 31
  swap
  · constructor
    · rintro ⟨p, hp, -⟩
      obtain ⟨n, q, hNumber, -, -⟩ := createField_ok hp
      rw [trim_fieldText hf, columnPart_fieldText hf, number_ofInt, if_neg hColumn] at hNumber
      cases hNumber
    · exact fun h => absurd h.1 hColumn
  rw [createField_fieldText_eq hf hColumn]
  have hRun {r : Except DefinitionError (FieldType × Int × Int)}
      (hRange : ∀ q, r = .ok q → -2 ^ 31 ≤ q.2.1 ∧ q.2.1 < 2 ^ 31) :
      (∃ p, r.map (fieldOf T (fieldText f) f.columnLength) = .ok p ∧ p.1 = f) ↔
        r = .ok (f.fieldType, (f.arrayLength : Int), f.formatSpecifier) ∧ trim f.fieldName = f.fieldName := by
    cases r with
    | error => simp [Except.map]
    | ok q =>
      have hq := hRange q rfl
      simp only [Except.map, Except.ok.injEq, exists_eq_left']
      exact fieldOf_eq_iff hf hColumn hArray hq.1 hq.2
  rw [hRun fun q hq => (typePart_range hq).1]
  by_cases hName : '\x7d' ∈ f.fieldName
  · rw [behindBrace_fieldText_of_mem hName, typePart_brace hf.low hf.high]
    unfold TypeAgain
    cases typePart (behindBrace f.fieldName ++ ['\x7b']) with
    | error => simp [Except.map, hName]
    | ok q =>
      obtain ⟨type, n, z⟩ := q
      simp only [Except.map, Except.ok.injEq, Prod.mk.injEq, hColumn, hName, true_and, forall_const]
      by_cases hPeriod : '.' ∈ behindBrace f.fieldName
      · simp [hPeriod]
        tauto
      · simp [hPeriod]
        tauto
  · rw [behindBrace_fieldText_of_not_mem hName, typePart_typeText hf.low hf.high, if_pos hArray]
    simp only [hColumn, hName, IsEmpty.forall_iff, and_true, true_and]

/-! ## Sound definitions -/

/-- A column that is made again of what is written for it: its numbers are not negative, the bytes of the
array fit a word, the stored name does not end with a blank, and the type is read out of a name with a closing
brace as out of the column. -/
structure SoundColumn (T : IntTypes) (word : Text) : Prop where
  columnLength : 0 ≤ atoi (columnPart (trim word))
  arrayLength : ∀ q, typePart (behindBrace (trim word)) = .ok q →
    0 ≤ q.2.1 ∧ q.1.size T * q.2.1 < 256 ^ T.wordSize
  fieldName : trim (storedName word) = storedName word
  brace : '\x7d' ∈ storedName word → ∀ q, typePart (behindBrace (trim word)) = .ok q →
    TypeAgain (storedName word) q

/-- The name has no comma, the header's name is not empty, and it has no more escapes, tabs or blanks at its
end to lose. -/
structure SoundName (tableName : Text) : Prop where
  noComma : ',' ∉ tableName
  ne_nil : headerNameOf tableName ≠ []
  again : tableNameOf (headerNameOf tableName) = headerNameOf tableName

structure SoundDefinition (T : IntTypes) (tdef : Text) : Prop where
  tableName : SoundName (tableNameOf ((parseFields tdef ',').headD []))
  columns : ∀ word ∈ (parseFields tdef ',').tail, SoundColumn T word

/-- The record of the record definition has the types of the table's fields and a length for each, and the
definition that the header writes makes a header with the same name and the same fields. -/
def Rereads (T : IntTypes) (t : DefinedTable) : Prop :=
  (∃ r, createRecord T t.recordDef = .ok r ∧ r.fields = t.fields.map fun f =>
    (f.fieldType, f.fieldType.size T * max 1 f.arrayLength)) ∧
  ∃ t', createTable T (tableDefOf t) = .ok t' ∧ t'.headerName = t.headerName ∧ t'.fields = t.fields

theorem toWord_lt_iff {n : Int} (hLow : -2 ^ 31 ≤ n) (hHigh : n < 2 ^ 31) :
    (n % 256 ^ T.wordSize).toNat < 2 ^ 31 ↔ 0 ≤ n := by
  cases T <;> simp only [IntTypes.wordSize] <;> omega

theorem size_pos (T : IntTypes) (type : FieldType) : 0 < type.size T ∧ type.size T ≤ 8 := by
  cases T <;> cases type <;> decide

/-- A column is sound exactly if its field is read again and its bytes are counted in a word. -/
theorem soundColumn_iff (h : createField T word = .ok p) : SoundColumn T word ↔
    (p.2 < 2 ^ 31 ∧ p.1.fieldType.size T * p.2 < 256 ^ T.wordSize) ∧ p.1.columnLength < 2 ^ 31 ∧
      trim p.1.fieldName = p.1.fieldName ∧ ('\x7d' ∈ p.1.fieldName →
        TypeAgain p.1.fieldName (p.1.fieldType, (p.1.arrayLength : Int), p.1.formatSpecifier)) := by
  obtain ⟨n, ⟨type, k, z⟩, hNumber, hType, rfl⟩ := createField_ok h
  obtain ⟨rfl, hLow, hHigh⟩ := number_ok hNumber
  obtain ⟨hLow', hHigh'⟩ := (typePart_range hType).1
  dsimp only at hLow' hHigh'
  have hSize := size_pos T type
  have hWord : (k % 2 ^ 64).toNat < 2 ^ 31 ↔ 0 ≤ k := by omega
  dsimp only [fieldOf]
  rw [toWord_lt_iff hLow hHigh, hWord]
  have hArray : 0 ≤ k → ((k % 2 ^ 64).toNat : Int) = k ∧ (((k % 2 ^ 64).toNat % 256 ^ T.wordSize : Nat) : Int) = k := by
    intro hk
    cases T <;> simp only [IntTypes.wordSize] <;> omega
  have hBytes : 0 ≤ k → (type.size T * (k % 2 ^ 64).toNat < 256 ^ T.wordSize ↔
      (type.size T : Int) * k < 256 ^ T.wordSize) := by
    intro hk
    have hCast := (hArray hk).1
    rw [← Int.ofNat_lt]
    push_cast at hCast ⊢
    rw [hCast]
  constructor
  · rintro ⟨hColumn, hCount, hName, hBrace⟩
    obtain ⟨hk, hFits⟩ := hCount _ hType
    refine ⟨⟨hk, (hBytes hk).mpr hFits⟩, hColumn, hName, fun hMem => ?_⟩
    rw [(hArray hk).2]
    exact hBrace hMem _ hType
  · rintro ⟨⟨hk, hFits⟩, hColumn, hName, hBrace⟩
    rw [(hArray hk).2] at hBrace
    constructor
    · exact hColumn
    · intro q hq
      rw [hType] at hq
      cases hq
      exact ⟨hk, (hBytes hk).mp hFits⟩
    · exact hName
    · intro hMem q hq
      rw [hType] at hq
      cases hq
      exact hBrace hMem

/-! ## Words -/

variable {tdef head : Text} {words : List Text}

/-- The words of a definition that is put together, in which a name may have become several. -/
theorem parseFields_join (hStart : trimLeft head = head) (hNe : words ≠ [])
    (hWords : ∀ w ∈ words, w ≠ [] ∧ ',' ∉ w) :
    parseFields (head ++ ',' :: [','].intercalate words) ',' = head.splitOn ',' ++ words := by
  have hSplit : (head ++ ',' :: [','].intercalate words).splitOn ',' = head.splitOn ',' ++ words := by
    rw [List.splitOn_append_cons_self, List.splitOn_intercalate ',' (fun w hw => (hWords w hw).2) hNe]
  have hLast : (head.splitOn ',' ++ words).getLast? ≠ some [] := by
    rw [List.getLast?_append_of_ne_nil _ hNe]
    intro h
    exact (hWords [] (List.mem_of_getLast? h)).1 rfl
  unfold parseFields
  rw [trimLeft_append_cons rfl, hStart]
  dsimp only
  rw [if_neg (by simp)]
  unfold split
  dsimp only
  rw [if_neg Bool.false_ne_true, hSplit, if_neg hLast]

theorem not_mem_of_mem_parseFields {w : Text} (hw : w ∈ parseFields tdef ',') : ',' ∉ w := by
  unfold parseFields at hw
  dsimp only at hw
  split at hw
  · cases hw
  · apply (mem_splitOn (s := trimLeft tdef) _).1
    split at hw
    · exact List.mem_of_mem_dropLast hw
    · exact hw

theorem createRecord_ok_iff {r : DefinedRecord} {name : Text} {columns : List Text}
    (hParse : parseFields tdef ',' = name :: columns) (hNe : columns ≠ []) :
    createRecord T tdef = .ok r ↔ columns.length ≤ recordMaxFields ∧ name ≠ [] ∧
      ∃ fields, List.Forall₂ (fun w q => recordField T w = .ok q) columns fields ∧ r = ⟨name, tdef, fields⟩ := by
  obtain ⟨column, columns, rfl⟩ := List.exists_cons_of_ne_nil hNe
  unfold createRecord
  rw [hParse]
  dsimp only
  by_cases hLength : recordMaxFields < (column :: columns).length
  · rw [if_pos (show (name :: column :: columns).length > recordMaxFields + 1 from Nat.add_lt_add_right hLength 1)]
    constructor
    · intro h
      cases h
    · exact fun h => absurd h.1 (Nat.not_le.mpr hLength)
  have hFits : columns.length + 1 ≤ recordMaxFields := Nat.not_lt.mp hLength
  rw [if_neg (show ¬ (name :: column :: columns).length > recordMaxFields + 1 from Nat.not_lt.mpr (Nat.succ_le_succ hFits))]
  by_cases hName : name = []
  · rw [if_pos (by simpa using hName)]
    constructor
    · intro h
      cases h
    · exact fun h => absurd hName h.2.1
  rw [if_neg (by simpa using hName)]
  simp only [← mapM_ok_iff]
  cases (column :: columns).mapM (recordField T) with
  | error => simp [bind, Except.bind]
  | ok fields =>
    simp [bind, Except.bind, pure, Except.pure, hFits, hName, eq_comm]

/-- The table of a name and fields. -/
def tableOf (tdef name : Text) (ps : List (TableField × Nat)) : DefinedTable where
  tableName := name
  recordDef := name ++ ',' :: [','].intercalate (ps.map fun p => recordColumn p.1.fieldType p.2)
  tableDef := tdef
  headerName := headerNameOf name
  fields := ps.map Prod.fst

theorem createTable_ok_iff {t : DefinedTable} {name : Text} {columns : List Text}
    (hParse : parseFields tdef ',' = name :: columns) (hNe : columns ≠ []) :
    createTable T tdef = .ok t ↔ columns.length ≤ tableMaxFields ∧ name ≠ [] ∧
      (tableNameOf name).any isIllegal = false ∧
      ∃ ps, List.Forall₂ (fun w p => createField T w = .ok p) columns ps ∧
        t = tableOf tdef (tableNameOf name) ps := by
  obtain ⟨column, columns, rfl⟩ := List.exists_cons_of_ne_nil hNe
  unfold createTable
  rw [hParse]
  dsimp only
  by_cases hLength : tableMaxFields < (column :: columns).length
  · rw [if_pos (show (name :: column :: columns).length > tableMaxFields + 1 from Nat.add_lt_add_right hLength 1)]
    constructor
    · intro h
      cases h
    · exact fun h => absurd h.1 (Nat.not_le.mpr hLength)
  have hFits : columns.length + 1 ≤ tableMaxFields := Nat.not_lt.mp hLength
  rw [if_neg (show ¬ (name :: column :: columns).length > tableMaxFields + 1 from Nat.not_lt.mpr (Nat.succ_le_succ hFits))]
  by_cases hName : name = []
  · rw [if_pos (by simpa using hName)]
    constructor
    · intro h
      cases h
    · exact fun h => absurd hName h.2.1
  rw [if_neg (by simpa using hName)]
  cases hIllegal : (tableNameOf name).any isIllegal with
  | true =>
    constructor
    · intro h
      cases h
    · exact fun h => absurd h.2.2.1 (by simp)
  | false =>
    simp only [← mapM_ok_iff]
    cases (column :: columns).mapM (createField T) with
    | error => simp [bind, Except.bind]
    | ok ps =>
      simp [bind, Except.bind, pure, Except.pure, hFits, hName, tableOf, eq_comm]

/-- A definition without a column is refused. -/
theorem parseFields_of_ok {t : DefinedTable} (h : createTable T tdef = .ok t) :
    ∃ name columns, parseFields tdef ',' = name :: columns ∧ columns ≠ [] := by
  unfold createTable at h
  dsimp only at h
  split at h
  · cases h
  · split at h
    · next name column columns hParse => exact ⟨name, column :: columns, hParse, by simp⟩
    · cases h

/-! ## The record definition -/

variable {type : FieldType} {alen : Nat} {name : Text} {ps : List (TableField × Nat)}

theorem recordColumn_ne_nil (type : FieldType) (n : Nat) : recordColumn type n ≠ [] := by
  rw [recordColumn_eq]
  exact List.append_ne_nil_of_left_ne_nil (string_ne_nil type) _

theorem recordField_recordColumn_iff :
    recordField T (recordColumn type alen) = .ok (type, type.size T * max 1 (alen % 256 ^ T.wordSize)) ↔
      alen < 2 ^ 31 ∧ type.size T * alen < 256 ^ T.wordSize := by
  obtain ⟨hPos, hSmall⟩ := size_pos T type
  have hWord : 2 ^ 32 ≤ 256 ^ T.wordSize := by
    cases T <;> decide
  unfold recordField
  rw [if_neg (by simpa using recordColumn_ne_nil type alen), recordColumn_eq, trim_typeArray, arrayPart_text]
  dsimp only
  rw [ofString_string]
  dsimp only
  by_cases hZero : alen > 0
  swap
  · obtain rfl : alen = 0 := by omega
    simp only [gt_iff_lt, Nat.lt_irrefl, if_false, List.isEmpty_nil, if_true, Nat.zero_mod, Nat.mul_zero]
    constructor
    · exact fun _ => ⟨by decide, by omega⟩
    · exact fun _ => congrArg (fun n => Except.ok (type, n)) (Nat.mul_one _).symm
  have hNe : (ofInt alen).isEmpty = false := by
    obtain ⟨d, ds, hEq, -⟩ := ofInt_cons alen
    rw [hEq]
    rfl
  rw [if_pos hZero, hNe, if_neg Bool.false_ne_true, number_ofInt]
  by_cases hInt : alen < 2 ^ 31
  swap
  · rw [if_neg hInt]
    constructor
    · intro h
      cases h
    · exact fun h => absurd h.1 hInt
  rw [if_pos hInt]
  have hMod : alen % 256 ^ T.wordSize = alen := Nat.mod_eq_of_lt (by omega)
  have hMax : max 1 alen = alen := by omega
  have hBytes : ((type.size T : Int) * alen % 256 ^ T.wordSize).toNat = type.size T * alen % 256 ^ T.wordSize := by
    have hCast : ((type.size T * alen % 256 ^ T.wordSize : Nat) : Int) = (type.size T : Int) * alen % 256 ^ T.wordSize := by
      push_cast
      rfl
    rw [← hCast, Int.toNat_natCast]
  have hLe : type.size T ≤ type.size T * alen := Nat.le_mul_of_pos_right _ hZero
  simp only [bind, Except.bind, pure, Except.pure, hBytes, hMod, hMax, Except.ok.injEq, Prod.mk.injEq, true_and,
    hInt]
  generalize type.size T * alen = bytes at hLe
  constructor
  · intro h
    by_contra hLarge
    have hLt := Nat.mod_lt bytes (show 0 < 256 ^ T.wordSize by omega)
    split at h <;> omega
  · intro h
    rw [Nat.mod_eq_of_lt h, if_neg (Nat.not_lt.mpr hLe)]

theorem not_mem_recordColumn : ',' ∉ recordColumn type alen :=
  not_mem_typeArray _ _ (by decide) (by decide) (by decide)

/-- The record definition makes the record of the fields exactly if the name has no comma and the arrays'
bytes are counted in a word. -/
theorem createRecord_recordDef_iff (hStart : trimLeft name = name) (hNe : ps ≠ [])
    (hLength : ps.length ≤ recordMaxFields) (hArray : ∀ p ∈ ps, p.1.arrayLength = p.2 % 256 ^ T.wordSize) :
    (∃ r, createRecord T (tableOf tdef name ps).recordDef = .ok r ∧
      r.fields = (tableOf tdef name ps).fields.map fun f =>
        (f.fieldType, f.fieldType.size T * max 1 f.arrayLength)) ↔
      (',' ∉ name ∧ name ≠ []) ∧
        ∀ p ∈ ps, p.2 < 2 ^ 31 ∧ p.1.fieldType.size T * p.2 < 256 ^ T.wordSize := by
  have hColumns : (ps.map fun p => recordColumn p.1.fieldType p.2) ≠ [] := by simpa using hNe
  have hParse : parseFields (tableOf tdef name ps).recordDef ',' =
      name.splitOn ',' ++ ps.map fun p => recordColumn p.1.fieldType p.2 := by
    apply parseFields_join hStart hColumns
    intro w hw
    obtain ⟨p, -, rfl⟩ := List.mem_map.mp hw
    exact ⟨recordColumn_ne_nil _ _, not_mem_recordColumn⟩
  by_cases hComma : ',' ∈ name
  · simp only [hComma, not_true_eq_false, false_and, iff_false]
    rintro ⟨r, hr, hFields⟩
    obtain ⟨x, y, rfl, hx⟩ := List.eq_append_cons_of_mem hComma
    rw [List.splitOn_append_cons_self_of_not_mem hx, List.cons_append] at hParse
    obtain ⟨-, -, fields, hAll, rfl⟩ := (createRecord_ok_iff hParse (by simp)).mp hr
    have hCount := hAll.length_eq
    have hSplit := List.length_pos_of_ne_nil (List.splitOn_ne_nil ',' y)
    dsimp only at hFields
    rw [hFields, List.length_append, List.length_map, List.length_map, tableOf, List.length_map] at hCount
    omega
  rw [List.splitOn_eq_singleton hComma, List.singleton_append] at hParse
  have hEach : ∀ p ∈ ps, (recordField T (recordColumn p.1.fieldType p.2) =
      .ok (p.1.fieldType, p.1.fieldType.size T * max 1 p.1.arrayLength) ↔
      p.2 < 2 ^ 31 ∧ p.1.fieldType.size T * p.2 < 256 ^ T.wordSize) := by
    intro p hp
    rw [hArray p hp]
    exact recordField_recordColumn_iff
  have hRun : (∃ r, createRecord T (tableOf tdef name ps).recordDef = .ok r ∧
      r.fields = (tableOf tdef name ps).fields.map fun f =>
        (f.fieldType, f.fieldType.size T * max 1 f.arrayLength)) ↔ name ≠ [] ∧
      ∀ p ∈ ps, recordField T (recordColumn p.1.fieldType p.2) =
        .ok (p.1.fieldType, p.1.fieldType.size T * max 1 p.1.arrayLength) := by
    have hAll : List.Forall₂ (fun w q => recordField T w = .ok q)
        (ps.map fun p => recordColumn p.1.fieldType p.2)
        ((tableOf tdef name ps).fields.map fun f => (f.fieldType, f.fieldType.size T * max 1 f.arrayLength)) ↔
        ∀ p ∈ ps, recordField T (recordColumn p.1.fieldType p.2) =
          .ok (p.1.fieldType, p.1.fieldType.size T * max 1 p.1.arrayLength) := by
      rw [tableOf, List.map_map, List.forall₂_map_left_iff, List.forall₂_map_right_iff, List.forall₂_same]
      rfl
    rw [← hAll]
    constructor
    · rintro ⟨r, hr, hFields⟩
      obtain ⟨-, hName, fields, hRead, rfl⟩ := (createRecord_ok_iff hParse hColumns).mp hr
      dsimp only at hFields
      exact ⟨hName, hFields ▸ hRead⟩
    · rintro ⟨hName, hRead⟩
      exact ⟨_, (createRecord_ok_iff hParse hColumns).mpr ⟨by rwa [List.length_map], hName, _, hRead, rfl⟩, rfl⟩
  rw [hRun]
  simp only [hComma, not_false_eq_true, true_and]
  exact and_congr_right fun _ => forall₂_congr hEach

/-! ## The table definition -/

theorem length_convertEscapeSeq_le (esc : Char) (s : Text) : (convertEscapeSeq esc s).length ≤ s.length := by
  fun_induction convertEscapeSeq esc s <;> simp only [List.length_cons, List.length_nil] at * <;> omega

theorem length_tableNameOf_le (s : Text) : (tableNameOf s).length ≤ s.length := by
  apply (isInfix_trim _).length_le.trans
  exact (List.length_filter_le _ _).trans (length_convertEscapeSeq_le '%' s)

theorem headerNameOf_isPrefix (s : Text) : headerNameOf s <+: s :=
  (copyTo_isPrefix _ _).trans (List.takeWhile_prefix _)

/-- A header's name is read again as itself if it is not changed before it is cut. -/
theorem headerNameOf_again_iff (s : Text) :
    headerNameOf (tableNameOf (headerNameOf s)) = headerNameOf s ↔
      tableNameOf (headerNameOf s) = headerNameOf s := by
  constructor
  · intro h
    have hPrefix := headerNameOf_isPrefix (tableNameOf (headerNameOf s))
    rw [h] at hPrefix
    exact (hPrefix.sublist.eq_of_length_le (length_tableNameOf_le _)).symm
  · intro h
    have hPlain : (headerNameOf s).takeWhile (fun c => c ≠ '\x00') = headerNameOf s := by
      rw [headerNameOf, copyTo, List.takeWhile_idem]
    rw [h]
    conv_lhs => rw [headerNameOf, hPlain]
    exact copyTo_copyTo _ _

theorem fieldText_ne_nil (f : TableField) : fieldText f ≠ [] := by
  rw [fieldText_eq]
  simp

theorem not_mem_fieldText {f : TableField} (hf : Stored f) : ',' ∉ fieldText f := by
  have hCount : ',' ∉ ofInt f.columnLength := fun h => unsigned_ofInt _ _ h (by decide)
  have hType : ',' ∉ typeText f :=
    not_mem_typeText hf (by decide) (by decide) (by decide) (by decide)
  rw [fieldText_eq]
  simp [hf.noComma, hCount, hType]

/-- The fields are read again one by one. -/
theorem fields_again_iff {fields : List TableField} :
    (∃ ps, List.Forall₂ (fun w p => createField T w = .ok p) (fields.map fieldText) ps ∧
      ps.map Prod.fst = fields) ↔ ∀ f ∈ fields, ∃ p, createField T (fieldText f) = .ok p ∧ p.1 = f := by
  constructor
  · rintro ⟨ps, hAll, rfl⟩
    rw [List.map_map, List.forall₂_map_left_iff, List.forall₂_same] at hAll
    intro f hf
    obtain ⟨p, hp, rfl⟩ := List.mem_map.mp hf
    exact ⟨p, hAll p hp, rfl⟩
  · intro hEach
    induction fields with
    | nil => exact ⟨[], .nil, rfl⟩
    | cons f fields ih =>
      obtain ⟨p, hp, hf⟩ := hEach f List.mem_cons_self
      obtain ⟨ps, hAll, hFields⟩ := ih fun g hg => hEach g (List.mem_cons_of_mem f hg)
      exact ⟨p :: ps, .cons hp hAll, by rw [List.map_cons, hf, hFields]⟩

theorem createTable_tableDefOf_iff (hStart : trimLeft name = name) (hComma : ',' ∉ name)
    (hLegal : name.any isIllegal = false) (hNe : ps ≠ []) (hLength : ps.length ≤ tableMaxFields)
    (hStored : ∀ p ∈ ps, Stored p.1) :
    (∃ t, createTable T (tableDefOf (tableOf tdef name ps)) = .ok t ∧ t.headerName = headerNameOf name ∧
      t.fields = ps.map Prod.fst) ↔
      (headerNameOf name ≠ [] ∧ tableNameOf (headerNameOf name) = headerNameOf name) ∧
        ∀ p ∈ ps, ∃ p', createField T (fieldText p.1) = .ok p' ∧ p'.1 = p.1 := by
  have hPrefix := headerNameOf_isPrefix name
  have hFields : (ps.map Prod.fst).map fieldText ≠ [] := by simpa using hNe
  have hText : tableDefOf (tableOf tdef name ps) =
      headerNameOf name ++ ',' :: [','].intercalate ((ps.map Prod.fst).map fieldText) := by
    rw [tableDefOf, if_neg (by simpa [tableOf] using hNe), tableOf]
  have hHeaderStart : trimLeft (headerNameOf name) = headerNameOf name := by
    cases hHeader : headerNameOf name with
    | nil => rfl
    | cons c h =>
      rw [hHeader] at hPrefix
      obtain ⟨y, rfl⟩ := hPrefix
      apply trimLeft_cons_of_not_isSpace
      by_contra hSpace
      rw [List.cons_append, trimLeft_cons_of_isSpace (by simpa using hSpace)] at hStart
      have hShort := (List.dropWhile_suffix (l := h ++ y) isSpace).length_le
      have hSame := congrArg List.length hStart
      rw [List.length_cons] at hSame
      unfold trimLeft at hSame
      omega
  have hParse : parseFields (tableDefOf (tableOf tdef name ps)) ',' =
      headerNameOf name :: (ps.map Prod.fst).map fieldText := by
    rw [hText, parseFields_join hHeaderStart hFields,
      List.splitOn_eq_singleton fun hMem => hComma (hPrefix.subset hMem)]
    · rfl
    · intro w hw
      rw [List.map_map] at hw
      obtain ⟨p, hp, rfl⟩ := List.mem_map.mp hw
      exact ⟨fieldText_ne_nil _, not_mem_fieldText (hStored p hp)⟩
  have hEach : (∀ p ∈ ps, ∃ p', createField T (fieldText p.1) = .ok p' ∧ p'.1 = p.1) ↔
      ∀ f ∈ ps.map Prod.fst, ∃ p, createField T (fieldText f) = .ok p ∧ p.1 = f := by
    rw [List.forall_mem_map]
  rw [hEach, ← fields_again_iff, ← headerNameOf_again_iff]
  simp only [createTable_ok_iff hParse hFields]
  constructor
  · rintro ⟨t, ⟨-, hName, -, ps', hAll, rfl⟩, hHeader, hSame⟩
    exact ⟨⟨hName, hHeader⟩, ps', hAll, hSame⟩
  · rintro ⟨⟨hName, hHeader⟩, ps', hAll, hSame⟩
    refine ⟨_, ⟨by rwa [List.length_map, List.length_map], hName, ?_, ps', hAll, rfl⟩, hHeader, hSame⟩
    rw [(headerNameOf_again_iff name).mp hHeader, List.any_eq_false]
    rw [List.any_eq_false] at hLegal
    exact fun c hc => hLegal c (hPrefix.subset hc)

/-- The definitions that are derived of a definition are read as what it was read as exactly if it is
sound. -/
theorem rereads_iff {T : IntTypes} {tdef : Text} {t : DefinedTable} (h : createTable T tdef = .ok t) :
    Rereads T t ↔ SoundDefinition T tdef := by
  obtain ⟨word, columns, hParse, hNe⟩ := parseFields_of_ok h
  obtain ⟨hLength, -, hLegal, ps, hAll, rfl⟩ := (createTable_ok_iff hParse hNe).mp h
  have hComma (w) (hw : w ∈ columns) : ',' ∉ w :=
    not_mem_of_mem_parseFields (hParse ▸ List.mem_cons_of_mem word hw)
  have hStart : trimLeft (tableNameOf word) = tableNameOf word := trimLeft_of_trim (trim_trim _)
  have hCount : columns.length = ps.length := hAll.length_eq
  have hPs : ps ≠ [] := by
    rintro rfl
    exact hNe (List.length_eq_zero_iff.mp hCount)
  have hFields (p) (hp : p ∈ ps) : ∃ w ∈ columns, createField T w = .ok p := by
    obtain ⟨i, hi, rfl⟩ := List.getElem_of_mem hp
    exact ⟨columns[i], List.getElem_mem _, (List.forall₂_iff_get.mp hAll).2 i (by omega) hi⟩
  have hStored (p) (hp : p ∈ ps) : Stored p.1 := by
    obtain ⟨w, hw, hRun⟩ := hFields p hp
    exact stored_of_word hRun (hComma w hw)
  have hArray (p) (hp : p ∈ ps) : p.1.arrayLength = p.2 % 256 ^ T.wordSize := by
    obtain ⟨w, -, hRun⟩ := hFields p hp
    obtain ⟨-, q, -, -, rfl⟩ := createField_ok hRun
    rfl
  have hColumns : (∀ w ∈ columns, SoundColumn T w) ↔
      ∀ p ∈ ps, (p.2 < 2 ^ 31 ∧ p.1.fieldType.size T * p.2 < 256 ^ T.wordSize) ∧
        p.1.columnLength < 2 ^ 31 ∧ trim p.1.fieldName = p.1.fieldName ∧ ('\x7d' ∈ p.1.fieldName →
          TypeAgain p.1.fieldName (p.1.fieldType, (p.1.arrayLength : Int), p.1.formatSpecifier)) := by
    clear hLength hParse h hCount hPs hNe hFields hStored hArray hComma
    induction hAll with
    | nil => simp
    | cons hRun _ ih => rw [List.forall_mem_cons, List.forall_mem_cons, ih, soundColumn_iff hRun]
  have hSound : SoundDefinition T tdef ↔ SoundName (tableNameOf word) ∧ ∀ w ∈ columns, SoundColumn T w := by
    constructor
    · intro hDef
      exact ⟨by simpa [hParse] using hDef.tableName, by simpa [hParse] using hDef.columns⟩
    · rintro ⟨hName, hEach⟩
      exact ⟨by simpa [hParse] using hName, by simpa [hParse] using hEach⟩
  rw [hSound, hColumns, Rereads, createRecord_recordDef_iff hStart hPs (hCount ▸ hLength) hArray]
  constructor
  · rintro ⟨⟨⟨hNoComma, -⟩, hSizes⟩, hTable⟩
    rw [tableOf] at hTable
    obtain ⟨⟨hHeader, hAgain⟩, hEach⟩ :=
      (createTable_tableDefOf_iff hStart hNoComma hLegal hPs (hCount ▸ hLength) hStored).mp hTable
    refine ⟨⟨hNoComma, hHeader, hAgain⟩, fun p hp => ⟨hSizes p hp, ?_⟩⟩
    refine (createField_fieldText_iff (hStored p hp) ?_).mp (hEach p hp)
    exact lt_of_le_of_lt (hArray p hp ▸ Nat.mod_le _ _) (hSizes p hp).1
  · rintro ⟨hName, hEach⟩
    have hNonempty : tableNameOf word ≠ [] := by
      intro hNil
      apply hName.ne_nil
      rw [hNil]
      rfl
    refine ⟨⟨⟨hName.noComma, hNonempty⟩, fun p hp => (hEach p hp).1⟩, ?_⟩
    refine (createTable_tableDefOf_iff hStart hName.noComma hLegal hPs (hCount ▸ hLength) hStored).mpr ?_
    refine ⟨⟨hName.ne_nil, hName.again⟩, fun p hp => ?_⟩
    refine (createField_fieldText_iff (hStored p hp) ?_).mpr (hEach p hp).2
    exact lt_of_le_of_lt (hArray p hp ▸ Nat.mod_le _ _) (hEach p hp).1.1

theorem rereads_iff_parts : ∃ t,
    createTable .portable "parts,number\x7b10\x7dINT32,name\x7b30\x7dCHAR[30].u".toList = .ok t ∧
      (Rereads .portable t ↔
        SoundDefinition .portable "parts,number\x7b10\x7dINT32,name\x7b30\x7dCHAR[30].u".toList) := by
  have hRun : createTable .portable "parts,number\x7b10\x7dINT32,name\x7b30\x7dCHAR[30].u".toList =
      .ok ⟨"parts".toList, "parts,INT32,CHAR[30]".toList,
        "parts,number\x7b10\x7dINT32,name\x7b30\x7dCHAR[30].u".toList, "parts".toList,
        [⟨.int32, 0, 10, 0, "number".toList⟩, ⟨.char, 117, 30, 30, "name".toList⟩]⟩ := by
    decide +kernel
  exact ⟨_, hRun, rereads_iff hRun⟩

/-- An escape in the name of a table stands for a comma, and the record definition has a column more. -/
theorem escaped_comma_not_reread : ∃ t, createTable .native "t%2Cu,a\x7b5\x7dINT32".toList = .ok t ∧
    ¬ Rereads .native t := by
  refine ⟨⟨"t,u".toList, "t,u,INT32".toList, "t%2Cu,a\x7b5\x7dINT32".toList, "t,u".toList,
    [⟨.int32, 0, 5, 0, "a".toList⟩]⟩, by decide +kernel, ?_⟩
  rintro ⟨⟨r, hr, -⟩, -⟩
  have hRefused : createRecord .native "t,u,INT32".toList = .error .badFieldType := by decide +kernel
  rw [hRefused] at hr
  cases hr

end Definition

end DataReel
