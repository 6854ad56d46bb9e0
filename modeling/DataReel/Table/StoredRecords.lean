import DataReel.Table.Comparisons
import DataReel.Table.RoundTrip

/-! # Records that hold the same row

A record that is read back has the fields that were written, with other space behind them.
Comparisons and keys do not see that space.
-/

namespace DataReel.Record

variable {T : IntTypes} {a a' b b' r : Record} {data₁ data₂ extra₁ extra₂ extra₁' extra₂' disk : List UInt8}
  {t₁ t₂ : UInt8} {i n : Nat} {o : CompareSettings} {all : Bool} {type : FieldType} {result : Int}

/-! ## Comparisons -/

theorem atLeast_congr {f f' : FieldPair} {run run' : Except (Option Int) Int}
    (h₁ : f.numBytes₁ = f'.numBytes₁) (h₂ : f.numBytes₂ = f'.numBytes₂)
    (h : n ≤ f.numBytes₁ → n ≤ f.numBytes₂ → run = run') : f.atLeast n run = f'.atLeast n run' := by
  rw [FieldPair.atLeast, FieldPair.atLeast, ← h₁, ← h₂]
  by_cases hShort : f.numBytes₁ < n ∨ f.numBytes₂ < n
  · rw [if_pos hShort, if_pos hShort]
  · rw [if_neg hShort, if_neg hShort]
    exact h (by omega) (by omega)

theorem bytes_extra {k m l : Nat} (h₁ : k + m ≤ data₁.length) (h₂ : k + l ≤ data₂.length) :
    (pairOf T t₁ t₂ data₁ data₂ extra₁ extra₂).bytes T k m l =
      (pairOf T t₁ t₂ data₁ data₂ extra₁' extra₂').bytes T k m l := by
  rw [bytes_pairOf h₁ h₂, bytes_pairOf h₁ h₂]

theorem compareValues_extra {order : List UInt8 → List UInt8 → Int} :
    (pairOf T t₁ t₂ data₁ data₂ extra₁ extra₂).compareValues T o n order =
      (pairOf T t₁ t₂ data₁ data₂ extra₁' extra₂').compareValues T o n order := by
  apply atLeast_congr rfl rfl
  intro h₁ h₂
  rw [pairOf_numBytes₁] at h₁
  rw [pairOf_numBytes₂] at h₂
  rw [bytes_extra (by omega) (by omega)]

/-- The space behind the data of two fields has no part in their comparison. -/
theorem compareAs_extra (hWords : WordsFit T type) :
    (pairOf T t₁ t₂ data₁ data₂ extra₁ extra₂).compareAs T o all result type =
      (pairOf T t₁ t₂ data₁ data₂ extra₁' extra₂').compareAs T o all result type := by
  cases type with
  | invalid | blob => rfl
  | int16 | int32 | float | currency | date =>
    rw [FieldPair.compareAs, FieldPair.compareAs]
    exact compareValues_extra
  | bool =>
    apply atLeast_congr rfl rfl
    intro h₁ h₂
    rw [pairOf_numBytes₁] at h₁
    rw [pairOf_numBytes₂] at h₂
    rw [bytes_extra (by omega) (by omega)]
  | char | vchar =>
    apply atLeast_congr rfl rfl
    intro _ _
    simp only [pairOf, fieldString_image]
  | binary =>
    apply atLeast_congr rfl rfl
    intro _ _
    rw [pairOf_numBytes₁, pairOf_numBytes₂, pairOf_numBytes₁, pairOf_numBytes₂,
      bytes_extra (Nat.zero_add _).le (Nat.zero_add _).le]
  | int64 =>
    cases hWords rfl
    apply atLeast_congr rfl rfl
    intro h₁ h₂
    rw [pairOf_numBytes₁] at h₁
    rw [pairOf_numBytes₂] at h₂
    rw [IntTypes.wordSize, bytes_extra (by omega) (by omega), bytes_extra (k := 0) (m := 4) (by omega)
      (by omega), bytes_extra (k := 4) (by omega) (by omega)]

/-- Two well formed records of one definition with the same fields. -/
structure Alike (T : IntTypes) (a b : Record) : Prop where
  left : a.WellFormed T
  right : b.WellFormed T
  definition : SameDefinition a b
  contents : SameContents T a b

namespace Alike

theorem refl (ha : a.WellFormed T) : Alike T a a := ⟨ha, ha, ⟨rfl, rfl, rfl⟩, fun _ _ => rfl⟩

theorem symm (h : Alike T a b) : Alike T b a := by
  refine ⟨h.right, h.left, ⟨h.definition.tableName.symm, h.definition.recordDef.symm,
    h.definition.numFields.symm⟩, fun i hi => ?_⟩
  exact (h.contents i (by rwa [h.definition.numFields])).symm

theorem trans {c : Record} (h : Alike T a b) (h' : Alike T b c) : Alike T a c := by
  refine ⟨h.left, h'.right, ⟨h.definition.tableName.trans h'.definition.tableName,
    h.definition.recordDef.trans h'.definition.recordDef,
    h.definition.numFields.trans h'.definition.numFields⟩, fun i hi => ?_⟩
  exact (h.contents i hi).trans (h'.contents i (by rwa [← h.definition.numFields]))

/-- The buffers of one field of both. -/
theorem image (h : Alike T a b) (hi : i < a.numFields) : ∃ t data extra extra',
    a.fieldBuf i = Field.image T t data.length (data ++ extra) ∧
      b.fieldBuf i = Field.image T t data.length (data ++ extra') ∧ data.length < 256 ^ T.wordSize := by
  obtain ⟨t, data, extra, hBuf, hBytes⟩ := (h.left.field i hi).image
  obtain ⟨t', data', extra', hBuf', hBytes'⟩ :=
    (h.right.field i (h.definition.numFields ▸ hi)).image
  have hSame := h.contents i hi
  rw [hBuf, hBuf', Field.contents_image hBytes, Field.contents_image hBytes'] at hSame
  cases hSame
  exact ⟨t, data, extra, extra', hBuf, hBuf', hBytes⟩

theorem compareField (h : Alike T a a') (h' : Alike T b b') (hi : i < a.numFields) (hi' : i < b.numFields)
    (hWide : WideFit T a) : compareField T o all (a.fieldBuf i) (b.fieldBuf i) result =
      Record.compareField T o all (a'.fieldBuf i) (b'.fieldBuf i) result := by
  obtain ⟨t₁, data₁, extra₁, extra₁', hBuf₁, hBuf₁', hBytes₁⟩ := h.image hi
  obtain ⟨t₂, data₂, extra₂, extra₂', hBuf₂, hBuf₂', hBytes₂⟩ := h'.image hi'
  have hHead : (a.fieldBuf i).headD 0 = t₁ := by
    rw [hBuf₁]
    rfl
  rw [hBuf₁, hBuf₂, hBuf₁', hBuf₂', Record.compareField, Record.compareField, Field.header_image hBytes₁,
    Field.header_image hBytes₂, Field.header_image hBytes₁, Field.header_image hBytes₂]
  simp only [within, bind, Except.bind]
  split
  · rfl
  · cases hType : FieldType.ofId t₁ with
    | none => rfl
    | some type => exact compareAs_extra (hWide i hi type (by rw [hHead, hType]))

theorem compareFields (h : Alike T a a') (h' : Alike T b b') (hn : i + n ≤ a.numFields)
    (hn' : i + n ≤ b.numFields) (hWide : WideFit T a) :
    compareFields T a b o i n result = Record.compareFields T a' b' o i n result := by
  induction n generalizing i result with
  | zero => rfl
  | succ n ih =>
    rw [Record.compareFields, Record.compareFields,
      h.compareField h' (by omega) (by omega) hWide]
    cases Record.compareField T o true (a'.fieldBuf i) (b'.fieldBuf i) result with
    | error e => rfl
    | ok v =>
      simp only [bind, Except.bind]
      rw [ih (by omega) (by omega)]

theorem dbRecord_ne (h : Alike T a b) (hNe : a.dbRecord ≠ []) : b.dbRecord ≠ [] := by
  intro hNil
  have hPos := h.left.numFields_pos hNe
  have hLe := h.right.numFields_le
  have hNum := h.definition.numFields
  rw [hNil, List.length_nil] at hLe
  omega

/-- Records that hold the same rows compare alike. -/
theorem compare (h : Alike T a a') (h' : Alike T b b') (hNe : a.dbRecord ≠ []) (hNe' : b.dbRecord ≠ [])
    (hDef : SameDefinition a b) (hWide : WideFit T a) (field : Nat) (o : CompareSettings) :
    compare T a b field o = Record.compare T a' b' field o := by
  have hNum := h.definition.numFields
  have hNum' := h'.definition.numFields
  have hDef' : SameDefinition a' b' :=
    ⟨h.definition.tableName.symm.trans (hDef.tableName.trans h'.definition.tableName),
      h.definition.recordDef.symm.trans (hDef.recordDef.trans h'.definition.recordDef),
      hNum.symm.trans (hDef.numFields.trans hNum')⟩
  have hBoth := hDef.numFields
  rw [compare_eq hNe hNe' hDef, compare_eq (h.dbRecord_ne hNe) (h'.dbRecord_ne hNe') hDef', ← hNum]
  by_cases hAll : compareAll field a.numFields
  · rw [if_pos hAll, if_pos hAll, h.compareFields h' (by omega) (by omega) hWide]
  · have hField := not_compareAll hAll
    rw [if_neg hAll, if_neg hAll, h.compareField h' hField (by omega) hWide]

end Alike

/-! ## Reading back -/

/-- A record with the same definition and exclusions. -/
structure OfTable (a b : Record) : Prop where
  definition : SameDefinition a b
  excludeFields : a.excludeFields = b.excludeFields

theorem OfTable.refl (a : Record) : OfTable a a := ⟨⟨rfl, rfl, rfl⟩, rfl⟩

theorem OfTable.trans {c : Record} (h : OfTable a b) (h' : OfTable b c) : OfTable a c :=
  ⟨⟨h.definition.tableName.trans h'.definition.tableName,
    h.definition.recordDef.trans h'.definition.recordDef,
    h.definition.numFields.trans h'.definition.numFields⟩, h.excludeFields.trans h'.excludeFields⟩

theorem OfTable.setBuf (a : Record) (i : Nat) (buf : List UInt8) : OfTable a (a.setBuf i buf) :=
  ⟨⟨rfl, rfl, rfl⟩, rfl⟩

theorem readHeader_record {s s' : ReadState} {t : UInt8} {m : Nat}
    (h : readHeader T disk s = .ok (t, m, s')) : s'.record = s.record := by
  simp only [readHeader, bind, Except.bind, inside, pure, Except.pure] at h
  repeat' split at h
  all_goals cases h
  rfl

theorem readField_ofTable {s s' : ReadState} (h : readField T disk i s = .ok s') :
    OfTable s.record s'.record := by
  rw [readField] at h
  cases hHeader : readHeader T disk s with
  | error e =>
    rw [hHeader] at h
    cases h
  | ok v =>
    obtain ⟨t, m, s₁⟩ := v
    have hRecord := readHeader_record hHeader
    rw [hHeader] at h
    simp only [bind, Except.bind, inside, pure, Except.pure, hRecord] at h
    generalize (if s.record.Excludes i then 0 else m) = count at h
    repeat' split at h
    all_goals cases h
    · exact OfTable.setBuf _ _ _
    · exact (OfTable.setBuf _ _ _).trans (OfTable.setBuf _ _ _)

theorem readFields_ofTable {s s' : ReadState} (h : readFields T disk i n s = .ok s') :
    OfTable s.record s'.record := by
  induction n generalizing i s with
  | zero =>
    cases h
    exact OfTable.refl _
  | succ n ih =>
    rw [readFields] at h
    cases hRead : readField T disk i s with
    | error e =>
      rw [hRead] at h
      cases h
    | ok s₁ =>
      rw [hRead] at h
      exact (readField_ofTable hRead).trans (ih h)

/-- A record that excludes no field reads a row back, whatever follows it in its block. -/
theorem loadDiskRecord_row (ha : a.WellFormed T) (hNe : a.dbRecord ≠ []) (hMax : a.diskLength T ≤ vectorMax)
    (hAll : a.excludeFields = []) (hr : r.WellFormed T) (hTable : OfTable a r) {rest : List UInt8}
    (hCreate : a.createDiskRecord T = some (.ok disk)) (hRest : (disk ++ rest).length ≤ vectorMax) :
    ∃ r', r.loadDiskRecord T (disk ++ rest) = .returned .noError r' ∧ Alike T r' a ∧ OfTable a r' := by
  obtain ⟨disk', tail, hCreate', -, hLayout⟩ := createDiskRecord_eq ha hNe hMax
  cases hCreate.symm.trans hCreate'
  have hNum := hTable.definition.numFields.symm
  have hNone (b : Record) (hb : b.excludeFields = []) (j : Nat) : ¬ b.Excludes j := by
    rw [Excludes, hb]
    exact List.not_mem_nil
  have hNone' := hNone r (hTable.excludeFields ▸ hAll)
  have hLayout' : disk ++ rest = headerBytes T (tableCrc a.tableName) a.numFields ++
      (a.diskFieldsFrom T 0 a.numFields ++ (tail ++ rest)) := by
    rw [hLayout]
    simp only [List.append_assoc]
  have hStep (j) (_ : 0 ≤ j) (_ : j < 0 + a.numFields) : Keeps T a r j := by
    by_contra hNot
    exact hNone' j (not_keeps_iff.mp hNot).1
  obtain ⟨s, hRun, hReached, -, hAgree⟩ := (Reached.first hr).readFields_keeps hRest ha
    (Nat.zero_add a.numFields).le hNum hStep hLayout' headerBytes_length.symm nofun
  have hRecord : OfTable r s.record := readFields_ofTable hRun
  have hBoth := hTable.trans hRecord
  refine ⟨s.record, ?_, ⟨hReached.wellFormed, ha, ?_, fun j hj => ?_⟩, hBoth⟩
  · rw [loadDiskRecord_created ha hr hNe hTable.definition.tableName.symm hNum hLayout', hRun]
  · exact ⟨hBoth.definition.tableName.symm, hBoth.definition.recordDef.symm,
      hBoth.definition.numFields.symm⟩
  · have hj' : j < 0 + a.numFields := by
      rw [hBoth.definition.numFields]
      omega
    exact hAgree j hj' (hNone a hAll j) (hNone' j)

end DataReel.Record
