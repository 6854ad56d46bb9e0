import DataReel.Table.RecordCallsRun

/-! # Keys that are taken

Where values have one key each, an index refuses the key of a record if another record has the checksum. The keys
that were added until then are deleted again, and with them those that other records have with these checksums in
the indexes of the secondary keys. A record that is changed to a key that is taken has no key any more, and no
block either if it would have another size.
-/

namespace DataReel

open Record (Alike OfTable)

namespace RecordTable

/-- A record has the checksum of a key field. -/
def Clashes (M : RecordTable) (R : FAU → Option Record) (field : Nat) (r : Record) : Prop :=
  ∃ b s, R b = some s ∧ M.keyValue field s = M.keyValue field r

/-- The records with other checksums of a key field. -/
def spared (M : RecordTable) (R : FAU → Option Record) (r : Record) (field : Nat) : FAU → Option Record :=
  fun b => (R b).filter fun s => M.keyValue field s ≠ M.keyValue field r

/-- Each index has the keys of the records with other checksums of its field. -/
def Spares (M : RecordTable) (R : FAU → Option Record) (r : Record) (F : TableFiles) : Prop :=
  List.Forall₂ (fun field t => M.Indexes (M.spared R r field) field t) M.fields F.indexes

/-- What is left of the indexes when one refuses a key of a record. -/
def KeysLeft (M : RecordTable) (R : FAU → Option Record) (r : Record) (F : TableFiles) : Prop :=
  (M.Clashes R M.keyField r ∧ M.AllIndexes R F) ∨ (¬ M.Clashes R M.keyField r ∧ M.Spares R r F)

variable {M : RecordTable} {R : FAU → Option Record} {F : TableFiles} {t : Btree RdbmsKey} {r s : Record}
  {field : Nat} {a : FAU}

theorem spared_eq_some {b : FAU} :
    M.spared R r field b = some s ↔ R b = some s ∧ M.keyValue field s ≠ M.keyValue field r := by
  rw [spared, Option.filter_eq_some_iff, decide_eq_true_iff]

theorem spared_of_not_clashes (h : ¬ M.Clashes R field r) : M.spared R r field = R := by
  refine funext fun b => Option.ext fun s => spared_eq_some.trans ⟨And.left, fun hRecord => ⟨hRecord, ?_⟩⟩
  exact fun hValue => h ⟨b, s, hRecord, hValue⟩

/-- The record itself is not spared. -/
theorem spared_update (hFree : R a = none) (field : Nat) :
    M.spared (Function.update R a (some r)) r field = M.spared R r field := by
  refine funext fun b => Option.ext fun s => spared_eq_some.trans (Iff.trans ?_ spared_eq_some.symm)
  by_cases hb : b = a
  · subst hb
    rw [Function.update_self, hFree]
    constructor
    · rintro ⟨hSome, hNe⟩
      exact absurd (congrArg _ (Option.some.inj hSome).symm) hNe
    · rintro ⟨hSome, -⟩
      cases hSome
  · rw [Function.update_of_ne hb]

namespace Indexes

variable (h : M.Indexes R field t) (hDup : M.dup = false)

include h hDup

/-- A key whose checksum a record has is refused. -/
theorem insert_refused (hClash : M.Clashes R field r) (a : FAU) :
    (gxBtree M.keyClass).step (.insert ⟨0, M.keyAt field a r⟩ false) t = (.zero, t) := by
  obtain ⟨b, s, hRecord, hValue⟩ := hClash
  obtain ⟨A, hStores, hKeys⟩ := h
  have hOld : A.find (M.keyAt field a r) = some (M.keyAt field b s) :=
    (A.mem_find_iff M.keyClass_strictOrder.strict _ _).mpr ⟨(hKeys _).mpr ⟨b, s, hRecord, rfl⟩,
      keyClass_eqv_iff.mpr ⟨hValue.symm, fun hTrue => absurd hTrue (by rw [hDup]; exact Bool.false_ne_true)⟩⟩
  exact hStores.insert_refused M.keyClass_strictOrder hOld 0

/-- Without the record that has a checksum, the records with other checksums are left. -/
theorem erase_eq_spared (hRecord : R a = some s) (hValue : M.keyValue field s = M.keyValue field r) :
    Function.update R a none = M.spared R r field := by
  refine funext fun b => Option.ext fun s' => Iff.trans ?_ spared_eq_some.symm
  by_cases hb : b = a
  · subst hb
    rw [Function.update_self, hRecord]
    constructor
    · intro hSome
      cases hSome
    · rintro ⟨hSome, hNe⟩
      exact absurd ((Option.some.inj hSome) ▸ hValue) hNe
  · rw [Function.update_of_ne hb]
    refine ⟨fun hOther => ⟨hOther, fun hSame => hb ?_⟩, And.left⟩
    exact h.unique hDup hOther hRecord (hSame.trans hValue.symm)

end Indexes

/-! ## Keys that are deleted again -/

section Keys

variable {l ts : List (Btree RdbmsKey)} {numbers done : List Int} (hM : M.Ready) (hr : M.Sound r)
  (hDup : M.dup = false)

include hM hr hDup

/-- The loop deletes the keys with the checksums of a record, whatever records have them. -/
theorem deleteSecKeys_spares (hKeyed : ∀ number ∈ numbers, M.keyValue (fieldAt number) r ≠ 0)
    (hF : F.indexes = l ++ ts)
    (hIndexes : List.Forall₂ (fun number t => ∃ R', M.Indexes R' (fieldAt number) t ∧
      M.spared R' r (fieldAt number) = M.spared R r (fieldAt number)) numbers ts) (key : RdbmsKey) (a : FAU) :
    ∃ ts' c, M.deleteSecKeys r numbers l.length key a F = some (.noError, c, { F with indexes := l ++ ts' }) ∧
      List.Forall₂ (fun number t => M.Indexes (M.spared R r (fieldAt number)) (fieldAt number) t) numbers ts' := by
  induction numbers generalizing l ts F key a with
  | nil =>
    obtain rfl := List.forall₂_nil_left_iff.mp hIndexes
    refine ⟨[], a, ?_, .nil⟩
    rw [deleteSecKeys, ← hF]
  | cons number numbers ih =>
    obtain ⟨t, ts, ⟨R', hFirst, hSame⟩, hRest, rfl⟩ := List.forall₂_cons_left_iff.mp hIndexes
    obtain ⟨hKey, hKeyed⟩ := List.forall_mem_cons.mp hKeyed
    by_cases hClash : M.Clashes R' (fieldAt number) r
    · obtain ⟨b, s, hRecord, hValue⟩ := hClash
      have hFind : (gxBtree M.keyClass).step (.find { key with k := M.keyValue (fieldAt number) r }) t =
          (.found (M.keyAt (fieldAt number) b s), t) :=
        hFirst.find_eq hRecord hValue.symm fun hTrue => absurd hTrue (by rw [hDup]; exact Bool.false_ne_true)
      obtain ⟨left, t', hDelete, hIndexed, -⟩ := hFirst.delete hRecord
      rw [hFirst.erase_eq_spared hDup hRecord hValue, hSame] at hIndexed
      have hSplit : ({ F with indexes := l ++ t' :: ts } : TableFiles).indexes = (l ++ [t']) ++ ts :=
        List.append_cons l t' ts
      obtain ⟨ts', c, hRun, hIndexes'⟩ := ih hKeyed hSplit hRest left.dbKey b
      refine ⟨t' :: ts', c, ?_, .cons hIndexed hIndexes'⟩
      rw [List.length_append, List.length_singleton] at hRun
      rw [deleteSecKeys, hr.createKey hM, Option.bind_eq_bind, Option.bind_some, if_neg hKey,
        findKey_found hF hFind, Option.bind_eq_bind, Option.bind_some]
      dsimp only
      rw [deleteKey_done hF hDelete, Option.bind_eq_bind, Option.bind_some]
      dsimp only
      rw [keyAt, hRun, List.append_assoc, List.singleton_append]
    · have hFind : (gxBtree M.keyClass).step (.find { key with k := M.keyValue (fieldAt number) r }) t =
          (.zero, t) :=
        hFirst.find_none fun b s hRecord hValue => absurd ⟨b, s, hRecord, hValue⟩ hClash
      have hIndexed := hFirst
      rw [← spared_of_not_clashes hClash, hSame] at hIndexed
      have hSplit : F.indexes = (l ++ [t]) ++ ts := hF.trans (List.append_cons l t ts)
      obtain ⟨ts', c, hRun, hIndexes'⟩ := ih hKeyed hSplit hRest
        { key with k := M.keyValue (fieldAt number) r } a
      refine ⟨t :: ts', c, ?_, .cons hIndexed hIndexes'⟩
      rw [List.length_append, List.length_singleton] at hRun
      have hNone : M.findKey l.length { key with k := M.keyValue (fieldAt number) r } F = some none := by
        rw [findKey, indexes_at hF, Option.bind_eq_bind, Option.bind_some, hFind]
        rfl
      rw [deleteSecKeys, hr.createKey hM, Option.bind_eq_bind, Option.bind_some, if_neg hKey, hNone,
        Option.bind_eq_bind, Option.bind_some]
      dsimp only
      rw [hRun, List.append_assoc, List.singleton_append]

variable (hKeyed : M.Keyed r) (hFree : R a = none)

include hKeyed hFree

/-- All keys with the checksums of a record are deleted once an index has refused its own. -/
theorem deleteKeys_spares (hSec : M.HasSecKeys) (hNew : ¬ M.Clashes R M.keyField r) (hIndex : F.usingIndex = true)
    (hF : F.indexes = t :: ts) (hFirst : M.Indexes (Function.update R a (some r)) M.keyField t)
    (hIndexes : List.Forall₂ (fun number t => ∃ R', M.Indexes R' (fieldAt number) t ∧
      M.spared R' r (fieldAt number) = M.spared R r (fieldAt number)) M.secKeyFields ts) :
    ∃ ts' c, M.deleteKeys r a F = some (.noError, c, { F with indexes := ts' }) ∧
      M.Spares R r { F with indexes := ts' } := by
  have hHere : Function.update R a (some r) a = some r := Function.update_self ..
  rw [Keyed, fields, if_pos hSec, List.forall_mem_cons] at hKeyed
  obtain ⟨hKey, hKeyed⟩ := hKeyed
  have hFind : M.findKey 0 ⟨M.keyValue M.keyField r, M.tableId, a⟩ F = some (some (M.keyAt M.keyField a r)) :=
    findKey_found (l := []) hF (hFirst.find_eq hHere rfl fun _ => rfl)
  obtain ⟨left, t', hDelete, hIndexed, -⟩ := hFirst.delete hHere
  have hDeleted : M.deleteKey 0 (M.keyAt M.keyField a r) F =
      some (some left.dbKey, { F with indexes := t' :: ts }) := deleteKey_done (l := []) hF hDelete
  obtain ⟨ts', c, hRun, hSpares⟩ := deleteSecKeys_spares (l := [t']) (F := { F with indexes := t' :: ts }) hM hr hDup
    (fun number hMem => hKeyed _ (List.mem_map_of_mem hMem)) rfl hIndexes left.dbKey a
  refine ⟨t' :: ts', c, ?_, ?_⟩
  · have hMore : M.numTrees ≠ 1 := hM.hasSecKeys_iff.mp hSec
    rw [deleteKeys, if_pos hIndex, hr.createKey hM, Option.bind_eq_bind, Option.bind_some, if_neg hKey]
    dsimp only
    rw [hFind, Option.bind_eq_bind, Option.bind_some]
    dsimp only
    rw [hDeleted, Option.bind_eq_bind, Option.bind_some]
    dsimp only
    rw [if_neg hMore, if_pos hSec]
    exact hRun
  · rw [Function.update_idem, Function.update_eq_self_iff.mpr hFree.symm, ← spared_of_not_clashes hNew] at hIndexed
    rw [Spares, fields, if_pos hSec]
    exact .cons hIndexed (List.forall₂_map_left_iff.mpr hSpares)

/-- The loop adds keys until an index refuses one, and then the keys are deleted again. -/
theorem addSecKeys_refused (hSec : M.HasSecKeys) (hNew : ¬ M.Clashes R M.keyField r) (hIndex : F.usingIndex = true)
    (hF : F.indexes = t :: (l ++ ts)) (hNumbers : M.secKeyFields = done ++ numbers)
    (hFirst : M.Indexes (Function.update R a (some r)) M.keyField t)
    (hDone : List.Forall₂ (fun number t => M.Indexes (Function.update R a (some r)) (fieldAt number) t) done l)
    (hRest : List.Forall₂ (fun number t => M.Indexes R (fieldAt number) t) numbers ts)
    (hClash : ∃ number ∈ numbers, M.Clashes R (fieldAt number) r) (hRoom : ∀ t ∈ ts, t.f.Room maxLevels) :
    ∃ ts', M.addSecKeys r a numbers (l.length + 1) F = some (.engine, { F with indexes := ts' }) ∧
      M.Spares R r { F with indexes := ts' } := by
  induction numbers generalizing done l ts F with
  | nil =>
    obtain ⟨number, hMem, -⟩ := hClash
    cases hMem
  | cons number numbers ih =>
    obtain ⟨u, ts, hHere, hOthers, rfl⟩ := List.forall₂_cons_left_iff.mp hRest
    obtain ⟨hRoomHere, hRoom⟩ := List.forall_mem_cons.mp hRoom
    have hKey : M.keyValue (fieldAt number) r ≠ 0 := by
      refine hKeyed _ ?_
      rw [fields, if_pos hSec, hNumbers]
      exact List.mem_cons_of_mem _ (List.mem_map_of_mem (List.mem_append_right _ List.mem_cons_self))
    have hF' : F.indexes = (t :: l) ++ u :: ts := hF
    have hStart : M.addSecKeys r a (number :: numbers) (l.length + 1) F =
        (M.addKey (l.length + 1) (M.keyAt (fieldAt number) a r) F).bind fun p =>
          if p.1 then M.addSecKeys r a numbers (l.length + 1 + 1) p.2
          else (M.deleteKeys r a p.2).bind fun q => some (.engine, q.2.2) := by
      rw [addSecKeys, hr.createKey hM, Option.bind_eq_bind, Option.bind_some, if_neg hKey]
      rfl
    by_cases hTaken : M.Clashes R (fieldAt number) r
    · have hAdd : M.addKey (l.length + 1) (M.keyAt (fieldAt number) a r) F = some (false, F) := by
        have hAt : F.indexes[l.length + 1]? = some u := indexes_at hF'
        have hSet : F.setIndex (l.length + 1) u = F := by
          have hSame : F.setIndex (l.length + 1) u = { F with indexes := (t :: l) ++ u :: ts } := setIndex_at hF'
          rw [hSame, ← hF']
        rw [addKey, hAt, Option.bind_eq_bind, Option.bind_some, hHere.insert_refused hDup hTaken a]
        dsimp only
        rw [hSet]
        rfl
      have hKept : List.Forall₂ (fun number t => ∃ R', M.Indexes R' (fieldAt number) t ∧
          M.spared R' r (fieldAt number) = M.spared R r (fieldAt number)) M.secKeyFields (l ++ u :: ts) := by
        rw [hNumbers]
        refine List.rel_append (hDone.imp fun number t h => ⟨_, h, spared_update hFree _⟩) (.cons ⟨R, hHere, rfl⟩ ?_)
        exact hOthers.imp fun number t h => ⟨R, h, rfl⟩
      obtain ⟨ts', c, hDelete, hSpares⟩ := deleteKeys_spares hM hr hDup hKeyed hFree hSec hNew hIndex hF hFirst hKept
      refine ⟨ts', ?_, hSpares⟩
      rw [hStart, hAdd, Option.bind_some, if_neg Bool.false_ne_true, hDelete, Option.bind_some]
    · obtain ⟨u', hStep, hIndexed, -⟩ := hHere.insert (r := r) hFree (fun b s hRecord hValue =>
        absurd ⟨b, s, hRecord, hValue⟩ hTaken) hRoomHere
      have hLater : ∃ number ∈ numbers, M.Clashes R (fieldAt number) r := by
        obtain ⟨other, hMem, hClash⟩ := hClash
        rcases List.mem_cons.mp hMem with rfl | hMem
        · exact absurd hClash hTaken
        · exact ⟨other, hMem, hClash⟩
      have hNext : M.secKeyFields = (done ++ [number]) ++ numbers := by
        rw [hNumbers, List.append_assoc, List.singleton_append]
      obtain ⟨ts', hRun, hSpares⟩ := ih (F := { F with indexes := t :: (l ++ u' :: ts) }) (l := l ++ [u']) hIndex
        (by rw [List.append_assoc, List.singleton_append]) hNext (List.rel_append hDone (.cons hIndexed .nil)) hOthers hLater hRoom
      refine ⟨ts', ?_, hSpares⟩
      rw [List.length_append, List.length_singleton] at hRun
      have hAdd : M.addKey (l.length + 1) (M.keyAt (fieldAt number) a r) F =
          some (true, { F with indexes := t :: (l ++ u' :: ts) }) := addKey_done hF' hStep
      rw [hStart, hAdd, Option.bind_some, if_pos rfl, hRun]

theorem addKeys_refused (hIndex : F.usingIndex = true) (h : M.AllIndexes R F)
    (hClash : ∃ field ∈ M.fields, M.Clashes R field r) (hRoom : ∀ t ∈ F.indexes, t.f.Room maxLevels) :
    ∃ ts, M.addKeys r a F = some (.engine, { F with indexes := ts }) ∧ M.KeysLeft R r { F with indexes := ts } := by
  obtain ⟨t, ts, hFirst, hRest, hF⟩ := List.forall₂_cons_left_iff.mp h
  have hKey := hKeyed _ List.mem_cons_self
  have hStart : M.addKeys r a F = (M.addKey 0 (M.keyAt M.keyField a r) F).bind fun p =>
      if p.1 then if M.HasSecKeys then M.addSecKeys r a M.secKeyFields 1 p.2 else some (.noError, p.2)
      else some (.engine, p.2) := by
    rw [addKeys, if_pos hIndex, hr.createKey hM, Option.bind_eq_bind, Option.bind_some, if_neg hKey]
    rfl
  by_cases hTaken : M.Clashes R M.keyField r
  · have hAdd : M.addKey 0 (M.keyAt M.keyField a r) F = some (false, F) := by
      have hSet : F.setIndex 0 t = F := by
        have hSame : F.setIndex 0 t = { F with indexes := [] ++ t :: ts } := setIndex_at (l := []) hF
        rw [hSame, List.nil_append, ← hF]
      rw [addKey, hF, List.getElem?_cons_zero, Option.bind_eq_bind, Option.bind_some,
        hFirst.insert_refused hDup hTaken a]
      dsimp only
      rw [hSet]
      rfl
    refine ⟨F.indexes, ?_, .inl ⟨hTaken, h⟩⟩
    rw [hStart, hAdd, Option.bind_some, if_neg Bool.false_ne_true]
  · obtain ⟨field, hMem, hClash⟩ := hClash
    rw [fields] at hMem
    rcases List.mem_cons.mp hMem with rfl | hMem
    · exact absurd hClash hTaken
    have hSec : M.HasSecKeys := by
      by_contra hNone
      rw [if_neg hNone] at hMem
      cases hMem
    rw [hF, List.forall_mem_cons] at hRoom
    obtain ⟨t', hStep, hIndexed, -⟩ := hFirst.insert (r := r) hFree (fun b s hRecord hValue =>
      absurd ⟨b, s, hRecord, hValue⟩ hTaken) hRoom.1
    rw [if_pos hSec] at hMem hRest
    obtain ⟨number, hNumber, rfl⟩ := List.mem_map.mp hMem
    obtain ⟨ts', hRun, hSpares⟩ := addSecKeys_refused (F := { F with indexes := t' :: ts }) (l := []) hM hr hDup
      hKeyed hFree hSec hTaken hIndex rfl (List.nil_append M.secKeyFields).symm hIndexed .nil (List.forall₂_map_left_iff.mp hRest)
      ⟨number, hNumber, hClash⟩ hRoom.2
    have hAdd : M.addKey 0 (M.keyAt M.keyField a r) F = some (true, { F with indexes := t' :: ts }) :=
      addKey_done (l := []) hF hStep
    refine ⟨ts', ?_, .inr ⟨hTaken, hSpares⟩⟩
    rw [hStart, hAdd, Option.bind_some, if_pos rfl, if_pos hSec]
    exact hRun

end Keys

section Write

variable (hM : M.Ready) (hDup : M.dup = false) (position : Int) {new : Record} (hNew : M.Proper new)

include hM hDup hNew

/-- A block whose keys are refused is deleted. -/
theorem write_refused (h : M.InSync R F) (hClash : ∃ field ∈ M.fields, M.Clashes R field new)
    (hRoom : M.Room new F) (b : FAU) :
    ∃ c F', M.write position new b F = some (.engine, c, F') ∧ F'.dataError = .noError ∧ F'.usingIndex = true ∧
      M.InData R F'.data ∧ M.KeysLeft R new F' := by
  obtain ⟨disk, hCreate, hLength⟩ := hNew.sound.createDiskRecord hM
  obtain ⟨a, d, hAlloc, hSize, hFree, hRev, hData⟩ := h.data.alloc_eq hM position hNew.sound hCreate
    (hLength ▸ hRoom.data) M.method
  obtain ⟨ts, hAdd, hLeft⟩ := addKeys_refused
    (F := { F with data := d.writeBytes (a + F.data.blockHeaderSize) disk, dataError := .noError })
    hM hNew.sound hDup hNew.keyed hFree h.usingIndex h.indexes hClash hRoom.indexes
  have hBack : a + (F.data.blockHeaderSize : Int) - d.blockHeaderSize = a := by
    rw [hSize, Int.add_sub_cancel]
  have hHeader : (d.writeBytes (a + F.data.blockHeaderSize) disk).blockHeaderSize = F.data.blockHeaderSize := by
    rw [Database.blockHeaderSize, hRev, Database.blockHeaderSize]
  obtain ⟨hTrue, hDeleted, -, -⟩ := hData.delete hM position (Function.update_self ..)
  rw [Function.update_idem, Function.update_eq_self_iff.mpr hFree.symm, hHeader] at hDeleted
  rw [hHeader] at hTrue
  refine ⟨a, ⟨((d.writeBytes (a + F.data.blockHeaderSize) disk).delete position (a + F.data.blockHeaderSize) false).2,
    .noError, F.usingIndex, ts⟩, ?_, rfl, h.usingIndex, hDeleted, hLeft⟩
  rw [write, if_neg (not_not_intro (hNew.sound.recordDef hM)), hCreate, Option.bind_eq_bind, Option.bind_some]
  dsimp only
  rw [hAlloc, Option.bind_eq_bind, Option.bind_some]
  dsimp only
  rw [hBack, hAdd, Option.bind_eq_bind, Option.bind_some]
  simp only [TableFiles.delete, hTrue, true_or, reduceCtorEq, if_false, if_true]
  rfl

end Write

/-! ## Records that are added -/

/-- Two sets of records that a data file has have the same checksums. -/
theorem InData.keyValue_eq (hM : M.Ready) {d : Database} {R' : FAU → Option Record} (h : M.InData R d)
    (h' : M.InData R' d) (hRecord : R a = some s) :
    ∃ s', R' a = some s' ∧ ∀ field ∈ M.fields, M.keyValue field s' = M.keyValue field s := by
  obtain ⟨disk, -, -, hBlock⟩ := h.object_eq hM hRecord
  obtain ⟨s', hOther, -⟩ := (h'.blocks a disk).mp hBlock
  obtain ⟨-, r, hRead, hAlike, hSound⟩ := h.read_eq hM 0 hRecord hM.table.wellFormed (OfTable.refl _)
  obtain ⟨-, r', hRead', hAlike', hSound'⟩ := h'.read_eq hM 0 hOther hM.table.wellFormed (OfTable.refl _)
  rw [hRead] at hRead'
  cases hRead'
  refine ⟨s', hOther, fun field hField => ?_⟩
  rw [← hM.keyValue_alike hField hSound (h.sound a s hRecord) hAlike,
    ← hM.keyValue_alike hField hSound (h'.sound a s' hOther) hAlike']

/-- Where a key of a record is gone, the files are in sync for no records. -/
theorem Spares.not_inSync (h : M.Spares R r F) (hM : M.Ready) (hData : M.InData R F.data)
    (hField : field ∈ M.fields) (hClash : M.Clashes R field r) (R' : FAU → Option Record) : ¬ M.InSync R' F := by
  intro hSync
  obtain ⟨b, s, hRecord, hValue⟩ := hClash
  obtain ⟨s', hOther, hSame⟩ := hData.keyValue_eq hM hSync.data hRecord
  obtain ⟨i, hi⟩ := List.getElem?_of_mem hField
  obtain ⟨t, hAt, hKeys⟩ := hSync.indexes.getElem? hi
  have hSpared : M.Indexes (M.spared R r field) field t := by
    obtain ⟨hLength, hAll⟩ := List.forall₂_iff_get.mp h
    obtain ⟨hIn, rfl⟩ := List.getElem?_eq_some_iff.mp hi
    obtain ⟨hIn', rfl⟩ := List.getElem?_eq_some_iff.mp hAt
    exact hAll i hIn hIn'
  have hKey : (M.keyAt field b s').k = M.keyValue field s' := rfl
  have hFound := hKeys.find_eq hOther hKey fun _ => rfl
  rw [hSpared.find_none fun c u hLeft hEq => absurd hEq ?_] at hFound
  · cases hFound
  · intro hEq
    exact (spared_eq_some.mp hLeft).2 (hEq.trans ((hSame field hField).trans hValue))

/-- The files are in sync after a key was refused if it was the primary one. -/
theorem KeysLeft.inSync_iff (h : M.KeysLeft R r F) (hM : M.Ready) (hIndex : F.usingIndex = true)
    (hData : M.InData R F.data) (hKeyed : ∀ a s, R a = some s → M.Keyed s)
    (hClash : ∃ field ∈ M.fields, M.Clashes R field r) :
    ((∃ R', M.InSync R' F) ↔ M.Clashes R M.keyField r) ∧ (M.InSync R F ∨ M.Spares R r F) := by
  rcases h with ⟨hFirst, hIndexes⟩ | ⟨hFirst, hSpares⟩
  · have hSync : M.InSync R F := ⟨hIndex, hData, hKeyed, hIndexes⟩
    exact ⟨⟨fun _ => hFirst, fun _ => ⟨R, hSync⟩⟩, .inl hSync⟩
  · obtain ⟨field, hField, hClash⟩ := hClash
    refine ⟨⟨?_, fun hTaken => absurd hTaken hFirst⟩, .inr hSpares⟩
    rintro ⟨R', hSync⟩
    exact absurd hSync (hSpares.not_inSync hM hData hField hClash R')

theorem Taken.clashes (h : M.Taken R field r) (hr : M.Sound r) (hData : M.InData R F.data) :
    M.Clashes R field r := by
  obtain ⟨b, s, hRecord, hShares⟩ := h
  exact ⟨b, s, hRecord, (keyValue_of_same hr (hData.sound b s hRecord) hShares).symm⟩

/-- A record is added if no record has the checksum of one of its key fields. If only one of a secondary key is
there, another record loses its key. -/
theorem addRecord_inSync_iff (hM : M.Ready) (hDup : M.dup = false) (h : M.InSync R F) (position : Int)
    (hr : M.Proper r) (hRoom : M.Room r F) :
    ∃ o, M.addRecord position r F = some o ∧
      (o.result = true ↔ ∀ field ∈ M.fields, ¬ M.Clashes R field r) ∧
      ((∃ R', M.InSync R' o.files) ↔
        o.result = true ∨ M.Clashes R M.keyField r ∨ ∃ field ∈ M.fields, M.Taken R field r) ∧
      (o.result = false → M.InData R o.files.data ∧ (M.InSync R o.files ∨ M.Spares R r o.files)) := by
  have hStart : M.addRecord position r F = (M.findRecordKey position r F).bind fun s =>
      if s.address ≠ 0 then some ⟨false, s.record, s.address, s.files.setDataError .recordExists⟩
      else (M.write position s.record 0 s.files).bind fun p => some ⟨p.1 = .noError, s.record, p.2.1, p.2.2⟩ := by
    rw [addRecord, hDup, if_neg Bool.false_ne_true]
    rfl
  obtain ⟨a, err, hFind, hFinds⟩ := findRecordKey_run hM position hr.sound h hr.keyed
  rw [hFind, Option.bind_some] at hStart
  rcases FindsIn.cases (F := F) hM h.data hFinds with ⟨rfl, hNone⟩ | ⟨hNe, s, hRecord, field, hField, hShares⟩
  · rw [if_neg (not_not_intro rfl)] at hStart
    have hRoom' : M.Room r (F.setDataError err) := ⟨hRoom.data, hRoom.indexes⟩
    by_cases hClash : ∃ field ∈ M.fields, M.Clashes R field r
    · obtain ⟨c, F', hWrite, -, hIndex, hData, hLeft⟩ := write_refused hM hDup position hr (h.setDataError err) hClash
        hRoom' 0
      rw [hWrite, Option.bind_some] at hStart
      obtain ⟨hSync, hRest⟩ := hLeft.inSync_iff hM hIndex hData h.keyed hClash
      refine ⟨⟨false, r, c, F'⟩, hStart, ⟨fun hTrue => absurd hTrue Bool.false_ne_true, fun hFree => ?_⟩, ?_,
        fun _ => ⟨hData, hRest⟩⟩
      · obtain ⟨field, hField, hHere⟩ := hClash
        exact absurd hHere (hFree field hField)
      · rw [hSync]
        refine ⟨fun hFirst => .inr (.inl hFirst), ?_⟩
        rintro (hTrue | hFirst | ⟨field, hField, hTaken⟩)
        · exact absurd hTrue Bool.false_ne_true
        · exact hFirst
        · exact absurd hTaken (hNone field hField)
    · have hFree : ∀ field ∈ M.fields, ¬ M.Clashes R field r := fun field hField hHere =>
        hClash ⟨field, hField, hHere⟩
      obtain ⟨c, F', hWrite, -, hSync⟩ := write_run hM (h.setDataError err) position hr.sound hr.keyed
        (fun field hField b s hRecord hValue => absurd ⟨b, s, hRecord, hValue⟩ (hFree field hField)) hRoom' 0
      rw [hWrite, Option.bind_some] at hStart
      exact ⟨⟨true, r, c, F'⟩, hStart, ⟨fun _ => hFree, fun _ => rfl⟩, ⟨fun _ => .inl rfl, fun _ => ⟨_, hSync⟩⟩,
        fun hFalse => absurd hFalse.symm Bool.false_ne_true⟩
  · rw [if_pos hNe] at hStart
    have hTaken : M.Taken R field r := ⟨a, s, hRecord, hShares⟩
    have hSync := (h.setDataError err).setDataError .recordExists
    refine ⟨_, hStart, ⟨fun hTrue => absurd hTrue Bool.false_ne_true, fun hFree => ?_⟩,
      ⟨fun _ => .inr (.inr ⟨field, hField, hTaken⟩), fun _ => ⟨R, hSync⟩⟩, fun _ => ⟨hSync.data, .inl hSync⟩⟩
    exact absurd (hTaken.clashes hr.sound h.data) (hFree field hField)

/-- What `AddRecord` that returns true leaves. -/
theorem InSync.added (h : M.InSync R F) (hM : M.Ready) (position : Int) (hr : M.Proper r) (hApart : M.Apart R r)
    (hRoom : M.Room r F) : ∃ o, M.addRecord position r F = some o ∧
      (o.result = true → M.InSync (Function.update R o.address (some r)) o.files) := by
  obtain ⟨⟨result, record, address, files⟩, R', hRun, hServes, hSync⟩ :=
    addRecord_run hM h position hr hApart hRoom
  refine ⟨_, hRun, fun hTrue => ?_⟩
  subst hTrue
  cases hServes
  exact hSync

/-- A record of one byte and a text. -/
def nameRecord (a : UInt8) (name : List UInt8) : Record := Record.ofFields .portable [(.bool, [a]), (.vchar, name)]

/-- A table with a key for each of the two fields. -/
def nameTable : RecordTable := { pairTable with created := (.noError, nameRecord 0 []) }

theorem nameRecord_wellFormed (a : UInt8) {name : List UInt8} (hName : Field.overhead .portable + name.length ≤ vectorMax) :
    (nameRecord a name).WellFormed .portable := by
  have hMax : 2 ≤ recordMaxFields := by decide
  have hByte : Field.overhead .portable + 1 ≤ vectorMax := by decide
  refine Record.ofFields_wellFormed hMax fun f hf => ?_
  rcases List.mem_pair.mp hf with rfl | rfl
  · exact hByte
  · exact hName

theorem nameRecord_proper {a : UInt8} {name : List UInt8} (hName : Field.overhead .portable + name.length ≤ vectorMax)
    (hLength : (nameRecord a name).diskLength .portable ≤ vectorMax) (hKeyed : nameTable.Keyed (nameRecord a name)) :
    nameTable.Proper (nameRecord a name) :=
  ⟨⟨nameRecord_wellFormed a hName, ⟨⟨rfl, rfl, rfl⟩, rfl⟩, hLength, fun _ _ _ _ _ => rfl⟩, hKeyed⟩

theorem nameTable_ready : nameTable.Ready where
  table := ⟨rfl, nameRecord_wellFormed 0 (by decide), by decide, rfl⟩
  recordDef := rfl
  numTrees := by decide
  columns := by decide
  dup := by decide

/-- Two texts with one checksum. -/
def plumless : List UInt8 := [112, 108, 117, 109, 108, 101, 115, 115]

def buckeroo : List UInt8 := [98, 117, 99, 107, 101, 114, 111, 111]

theorem addRecord_inSync_iff_collision :
    ∃ o R, nameTable.addRecord 0 (nameRecord 1 plumless) pairFiles = some o ∧ nameTable.InSync R o.files ∧
      ∃ o', nameTable.addRecord 0 (nameRecord 2 buckeroo) o.files = some o' ∧ o'.result = false ∧
        ¬ ∃ R', nameTable.InSync R' o'.files := by
  have hFiles : nameTable.New pairFiles := ⟨rfl, pairFiles_new.data, by decide, pairFiles_new.indexes⟩
  have hPlumless : nameTable.Proper (nameRecord 1 plumless) :=
    nameRecord_proper (by decide) (by decide +kernel) (by decide +kernel)
  have hBuckeroo : nameTable.Proper (nameRecord 2 buckeroo) :=
    nameRecord_proper (by decide) (by decide +kernel) (by decide +kernel)
  obtain ⟨o, hRun, hSync⟩ := hFiles.inSync.added nameTable_ready 0 hPlumless
    (fun _ _ _ _ _ hNone => by cases hNone) (by decide +kernel)
  have hFacts : (nameTable.addRecord 0 (nameRecord 1 plumless) pairFiles).map (fun o =>
      (o.result, decide (nameTable.Room (nameRecord 2 buckeroo) o.files))) = some (true, true) := by decide +kernel
  rw [hRun] at hFacts
  obtain ⟨hTrue, hRoom⟩ := Prod.mk.inj (Option.some.inj hFacts)
  obtain ⟨o', hRun', hResult, hInSync, -⟩ := addRecord_inSync_iff nameTable_ready rfl (hSync hTrue) 0 hBuckeroo
    (of_decide_eq_true hRoom)
  have hOnly {b : FAU} {s : Record}
      (hRecord : Function.update (fun _ => none) o.address (some (nameRecord 1 plumless)) b = some s) :
      s = nameRecord 1 plumless := by
    by_cases hb : b = o.address
    · rw [hb, Function.update_self] at hRecord
      exact (Option.some.inj hRecord).symm
    · rw [Function.update_of_ne hb] at hRecord
      cases hRecord
  have hFalse : ¬ o'.result = true := fun hTrue =>
    hResult.mp hTrue 1 (by decide +kernel) ⟨o.address, _, Function.update_self .., by decide +kernel⟩
  refine ⟨o, _, hRun, hSync hTrue, o', hRun', Bool.eq_false_iff.mpr hFalse, ?_⟩
  rw [hInSync]
  rintro (hTrue | ⟨b, s, hRecord, hValue⟩ | ⟨field, hField, b, s, hRecord, hShares⟩)
  · exact hFalse hTrue
  · obtain rfl := hOnly hRecord
    exact absurd hValue (by decide +kernel)
  · obtain rfl := hOnly hRecord
    have hApart : ∀ field ∈ nameTable.fields,
        ¬ nameTable.Shares field (nameRecord 2 buckeroo) (nameRecord 1 plumless) := by decide +kernel
    exact hApart field hField hShares

/-! ## Records that are changed -/

theorem keysDiffer_of_clash (hM : M.Ready) (hDup : M.dup = false) (h : M.AllIndexes R F) (hRecord : R a = some s)
    {old : Record} (hOld : M.Proper old) (hSame : ∀ field ∈ M.fields, M.keyValue field old = M.keyValue field s)
    (hr : M.Proper r) (hField : field ∈ M.fields) (hClash : M.Clashes (Function.update R a none) field r) :
    M.keysDiffer old r = some (some true) := by
  obtain ⟨v, hDiffer, hv⟩ := keysDiffer_go hM hOld hr fun field (hMem : field ∈ M.fields) => hMem
  cases v with
  | true => exact hDiffer
  | false =>
    obtain ⟨b, s', hOther, hValue⟩ := hClash
    have hNe : b ≠ a := by
      rintro rfl
      rw [Function.update_self] at hOther
      cases hOther
    rw [Function.update_of_ne hNe] at hOther
    refine absurd (h.unique hDup hField hOther hRecord ?_) hNe
    rw [hValue, ← hv rfl field hField, hSame field hField]

/-- A record that is changed to a key of another one loses its keys. If it has another size, it loses its block
as well, and the call succeeds; else the block has the changed record, and the call fails. -/
theorem changeRecord_refused (hM : M.Ready) (hDup : M.dup = false) (h : M.InSync R F) (position : Int)
    {old new : Record} (hOld : M.Proper old) (hNew : M.Proper new) (hFinds : M.FindsIn R old a M.fields)
    (hRecord : R a = some s) (hClash : ∃ field ∈ M.fields, M.Clashes (Function.update R a none) field new)
    (hRoom : M.Room new F) (orAdd : Bool) :
    ∃ o, M.changeRecord position old new orAdd 0 F = some o ∧
      (o.result = true ↔ s.diskLength M.types ≠ new.diskLength M.types) ∧
      M.KeysLeft (Function.update R a none) new o.files ∧
      M.InData (Function.update R a (if s.diskLength M.types = new.diskLength M.types then some new else none))
        o.files.data := by
  have hDefs : ¬ (M.recordDef ≠ old.recordDef ∨ M.recordDef ≠ new.recordDef) := by
    rintro (hNe | hNe)
    · exact hNe (hOld.sound.recordDef hM)
    · exact hNe (hNew.sound.recordDef hM)
  have hPos := (h.data.bounds hM hRecord).1
  rcases findRecord_load hM h position hOld with
    ⟨hZero, -, -⟩ | ⟨b, s', old', hFinds', hRecord', hAlike, hSound, hFind⟩
  · exact absurd (FindsIn.unique hDup h.indexes h.data hOld.sound (fun _ => id) hFinds hZero) hPos.ne'
  obtain rfl := FindsIn.unique hDup h.indexes h.data hOld.sound (fun _ => id) hFinds hFinds'
  obtain rfl := Option.some.inj (hRecord.symm.trans hRecord')
  have hSync := h.setDataError .noError
  have hRoom' : M.Room new (F.setDataError .noError) := ⟨hRoom.data, hRoom.indexes⟩
  have hSame : ∀ field ∈ M.fields, M.keyValue field old' = M.keyValue field s := fun field hField =>
    hM.keyValue_alike hField hSound (h.data.sound a s hRecord) hAlike
  have hProper : M.Proper old' :=
    ⟨hSound, fun field hField => hSame field hField ▸ h.keyed a s hRecord field hField⟩
  have hPlace : Database.readPosition position a = a := Database.readPosition_pos position hPos
  obtain ⟨m, hOldSize, hOldDisk, -⟩ := hSound.sizeOf hM
  obtain ⟨n, hNewSize, hNewDisk, -⟩ := hNew.sound.sizeOf hM
  have hLength := Record.diskLength_alike hAlike
  by_cases hSize : m = n
  · have hEqual : s.diskLength M.types = new.diskLength M.types := by omega
    rw [if_pos hEqual]
    obtain ⟨d, hOver, hData⟩ := overWriteRecord_run hM position hNew hSync hRecord hEqual
    obtain ⟨ts, hDelete, hIndexes, hRooms⟩ := AllIndexes.deleteKeys_run (F := ⟨d, .noError, F.usingIndex, F.indexes⟩)
      h.indexes hM h.usingIndex hSound hProper.keyed hRecord hSame
    obtain ⟨ts', hAdd, hLeft⟩ := addKeys_refused (F := ⟨d, .noError, F.usingIndex, ts⟩) hM hNew.sound hDup hNew.keyed
      (Function.update_self a none R) h.usingIndex hIndexes hClash (hRooms hRoom.indexes)
    obtain ⟨field, hField, hHere⟩ := hClash
    have hDiffer := keysDiffer_of_clash hM hDup h.indexes hRecord hProper hSame hNew hField hHere
    have hRekey : M.rekey old' new a ⟨d, .noError, F.usingIndex, F.indexes⟩ =
        some (.engine, ⟨d, .noError, F.usingIndex, ts'⟩) := by
      rw [rekey, if_pos h.usingIndex, hDiffer, Option.bind_eq_bind, Option.bind_some]
      dsimp only
      rw [hDelete, Option.bind_eq_bind, Option.bind_some]
      dsimp only
      rw [if_neg (not_not_intro rfl), hAdd]
    refine ⟨⟨false, old', a, ⟨d, .noError, F.usingIndex, ts'⟩⟩, ?_,
      ⟨fun hTrue => absurd hTrue Bool.false_ne_true, fun hNe => absurd hEqual hNe⟩, hLeft, hData⟩
    simp only [changeRecord, changeOrAddRecord, if_neg hDefs, if_true, hFind, Option.bind_eq_bind,
      Option.bind_some, Bool.not_true, Bool.false_eq_true, if_false, TableFiles.setDataError_dataError, ne_eq,
      not_true_eq_false, and_false, hPlace, hOldSize, hNewSize, hSize, hOver]
    change ((M.rekey old' new a ⟨d, .noError, F.usingIndex, F.indexes⟩).bind _).bind _ = _
    rw [hRekey]
    rfl
  · have hEqual : s.diskLength M.types ≠ new.diskLength M.types := by omega
    rw [if_neg hEqual]
    obtain ⟨F₁, F₂, hKeys, hSameData, hDelete, hSync', hRooms⟩ := remove_run hM hSync position hRecord hSound
      hProper.keyed hSame
    obtain ⟨c, F', hWrite, hNoError, -, hData, hLeft⟩ := write_refused hM hDup position hNew hSync' hClash
      (hRooms new hRoom') a
    have hBlock : deleteBlock position a F₁ = (true, F₂) := by
      rw [deleteBlock, if_neg hPos.ne', hSameData, hDelete]
    have hRun : M.reinsert position old' new a (F.setDataError .noError) = some (false, c, F') := by
      simp only [reinsert, hKeys, Option.bind_eq_bind, Option.bind_some, ne_eq, not_true_eq_false, if_false, hBlock,
        if_true, hWrite]
      rfl
    refine ⟨⟨true, old', c, F'⟩, ?_, ⟨fun _ => hEqual, fun _ => rfl⟩, hLeft, hData⟩
    simp only [changeRecord, changeOrAddRecord, if_neg hDefs, if_true, hFind, Option.bind_eq_bind,
      Option.bind_some, Bool.not_true, Bool.false_eq_true, if_false, TableFiles.setDataError_dataError, ne_eq,
      not_true_eq_false, and_false, hPlace, hOldSize, hNewSize, hSize, not_false_eq_true, hRun, hNoError]
    rfl

theorem changeRecord_refused_names :
    let old := nameRecord 1 [97]
    let new := nameRecord 2 [98, 98]
    ∃ o o₂ R a, nameTable.addRecord 0 old pairFiles = some o ∧
      nameTable.addRecord 0 (nameRecord 2 [99]) o.files = some o₂ ∧ nameTable.InSync R o₂.files ∧ R a = some old ∧
      ∃ o', nameTable.changeRecord 0 old new false 0 o₂.files = some o' ∧ o'.result = true ∧
        nameTable.InData (Function.update R a none) o'.files.data := by
  have hFiles : nameTable.New pairFiles := ⟨rfl, pairFiles_new.data, by decide, pairFiles_new.indexes⟩
  have hProper : nameTable.Proper (nameRecord 1 [97]) :=
    nameRecord_proper (by decide) (by decide +kernel) (by decide +kernel)
  have hOther : nameTable.Proper (nameRecord 2 [99]) :=
    nameRecord_proper (by decide) (by decide +kernel) (by decide +kernel)
  have hNew : nameTable.Proper (nameRecord 2 [98, 98]) :=
    nameRecord_proper (by decide) (by decide +kernel) (by decide +kernel)
  obtain ⟨o, hRun, hSync⟩ := hFiles.inSync.added nameTable_ready 0 hProper (fun _ _ _ _ _ hNone => by cases hNone)
    (by decide +kernel)
  have hFacts : ((nameTable.addRecord 0 (nameRecord 1 [97]) pairFiles).bind fun o =>
      (nameTable.addRecord 0 (nameRecord 2 [99]) o.files).map fun o₂ => (o.result, o₂.result,
        decide (nameTable.Room (nameRecord 2 [99]) o.files), decide (nameTable.Room (nameRecord 2 [98, 98]) o₂.files),
        decide (o.address = o₂.address))) = some (true, true, true, true, false) := by
    decide +kernel
  rw [hRun, Option.bind_some] at hFacts
  obtain ⟨o₂, hRun₂, hFacts⟩ := Option.map_eq_some_iff.mp hFacts
  simp only [Prod.mk.injEq, decide_eq_true_iff, decide_eq_false_iff_not] at hFacts
  obtain ⟨hTrue, hTrue₂, hRoom, hRoom₂, hNe⟩ := hFacts
  have hSeparates : nameTable.Separates (· ∈ [nameRecord 1 [97], nameRecord 2 [99]]) := .of_list (by decide +kernel)
  have hApart := hSeparates.apart (R := Function.update (fun _ => none) o.address (some (nameRecord 1 [97])))
    (TableCall.within_update (fun _ _ hNone => by cases hNone) List.mem_cons_self)
    (List.mem_cons_of_mem _ List.mem_cons_self)
  obtain ⟨o₃, hRun₃, hSync₂⟩ := (hSync hTrue).added nameTable_ready 0 hOther hApart hRoom
  obtain rfl := Option.some.inj (hRun₂.symm.trans hRun₃)
  have hHere : Function.update (Function.update (fun _ => none) o.address (some (nameRecord 1 [97]))) o₂.address
      (some (nameRecord 2 [99])) o.address = some (nameRecord 1 [97]) := by
    rw [Function.update_of_ne hNe, Function.update_self]
  have hTaken : nameTable.Clashes (Function.update (Function.update (Function.update (fun _ => none) o.address
      (some (nameRecord 1 [97]))) o₂.address (some (nameRecord 2 [99]))) o.address none) 0 (nameRecord 2 [98, 98]) := by
    refine ⟨o₂.address, nameRecord 2 [99], ?_, by decide +kernel⟩
    rw [Function.update_of_ne (Ne.symm hNe), Function.update_self]
  obtain ⟨o', hRun', hResult, -, hData⟩ := changeRecord_refused nameTable_ready rfl (hSync₂ hTrue₂) 0 hProper hNew
    (.inl ⟨_, hHere, by decide +kernel⟩) hHere ⟨0, by decide +kernel, hTaken⟩ hRoom₂ false
  have hSize : (nameRecord 1 [97]).diskLength nameTable.types ≠
      (nameRecord 2 [98, 98]).diskLength nameTable.types := by decide +kernel
  rw [if_neg hSize] at hData
  exact ⟨o, o₂, _, o.address, hRun, hRun₂, hSync₂ hTrue₂, hHere, o', hRun', hResult.mpr hSize, hData⟩

end RecordTable

end DataReel
