import DataReel.Database.Alloc
import DataReel.Library.Exec
import DataReel.Table.DefinitionRun

/-! # Definitions of keys

`DefineKeys` reads the columns of the primary and the secondary keys and the attributes of the indexes out of
a text. Every error after the settings were reset frees the array of the secondary columns, and no error takes
back what was set.
-/

namespace DataReel

/-- The settings of a `gxRDBMS` that a key definition makes. -/
structure KeySettings where
  keyDef : Text
  primaryKey : Int
  numSecKeys : Nat
  /-- The array of the secondary columns, if there is one. -/
  secKeyFields : Option (List Int)
  compareCase : Bool
  compareAlpha : Bool
  dup : Bool
  order : Int
  method : ReclaimMethod
  deriving DecidableEq, Repr

/-- The errors of `DefineKeys`; `undefined` is a number that is no `int`. -/
inductive KeyDefError
  | badRecord (err : DefinitionError)
  | badKeyDef
  | undefined
  deriving DecidableEq, Repr

abbrev Defining := EStateM KeyDefError KeySettings

namespace KeyDefinition

open Text

variable {α : Type}

/-- A key definition that is refused. -/
def badKeyDef : Defining α := do
  modify fun s => { s with secKeyFields := none }
  throw .badKeyDef

def keyNumber (s : Text) : Defining Int :=
  match toInt s with
  | none => throw .undefined
  | some n => pure n

/-- The text behind the word `COL`. -/
def columnText (sbuf : Text) : Text := trim (deleteBeforeIncluding sbuf "COL".toList)

def valueText (sbuf : Text) : Text := trim (deleteBeforeIncluding sbuf ['='])

/-- The branch for the primary key; it goes on with what is left of the word. -/
def primaryPart (numPriKeys : Nat) (sbuf : Text) : Defining (Nat × Text) :=
  if iinfix "PRI".toList sbuf then
    if ¬ iinfix "COL".toList sbuf then badKeyDef
    else if numPriKeys ≥ 1 then badKeyDef
    else do
      let sbuf := columnText sbuf
      if iinfix "NONE".toList sbuf then
        modify fun s => { s with primaryKey := -1 }
        pure (numPriKeys + 1, sbuf)
      else
        let fieldNum ← keyNumber sbuf
        if fieldNum = 0 then badKeyDef
        else
          modify fun s => { s with primaryKey := fieldNum }
          pure (numPriKeys + 1, sbuf)
  else pure (numPriKeys, sbuf)

/-- The branch for a secondary key. -/
def secondaryPart (numFields : Nat) (sbuf : Text) : Defining Text :=
  if iinfix "SEC".toList sbuf then
    if ¬ iinfix "COL".toList sbuf then badKeyDef
    else do
      let sbuf := columnText sbuf
      let fieldNum ← keyNumber sbuf
      if fieldNum = 0 then badKeyDef
      else
        let s ← get
        if s.numSecKeys ≥ numFields then badKeyDef
        else
          modify fun s => { s with
            secKeyFields := s.secKeyFields.map (·.set s.numSecKeys fieldNum)
            numSecKeys := s.numSecKeys + 1 }
          pure sbuf
  else pure sbuf

/-- The branch for an attribute. -/
def attribPart (sbuf : Text) : Defining Unit :=
  if iinfix "ATTRIB".toList sbuf then
    if iinfix "NOCASE".toList sbuf then modify fun s => { s with compareCase := false }
    else if iinfix "ANCOMPARE".toList sbuf then modify fun s => { s with compareAlpha := true }
    else if iinfix "ALLOWDUP".toList sbuf then modify fun s => { s with dup := true }
    else if iinfix "ORDER".toList sbuf then do
      let btNodeOrder ← keyNumber (valueText sbuf)
      if btNodeOrder = 0 then badKeyDef else modify fun s => { s with order := btNodeOrder }
    else if iinfix "RECLAIM".toList sbuf then
      if valueText sbuf = "NONE".toList ∨ valueText sbuf = "none".toList then modify fun s => { s with method := .none }
      else if valueText sbuf = "BEST".toList ∨ valueText sbuf = "best".toList then
        modify fun s => { s with method := .bestFit }
      else if valueText sbuf = "FIRST".toList ∨ valueText sbuf = "first".toList then
        modify fun s => { s with method := .firstFit }
      else badKeyDef
    else badKeyDef
  else pure ()

/-- A word of the definition, with the number of the primary keys before it. -/
def defineWord (numFields numPriKeys : Nat) (word : Text) : Defining Nat :=
  if word.isEmpty then pure numPriKeys
  else do
    let (numPriKeys, sbuf) ← primaryPart numPriKeys (upper (trim word))
    let sbuf ← secondaryPart numFields sbuf
    attribPart sbuf
    pure numPriKeys

/-- The settings that a definition begins with. -/
def reset (numFields : Nat) (s : KeySettings) : KeySettings :=
  { s with
    numSecKeys := 0
    primaryKey := -1
    compareCase := true
    compareAlpha := false
    dup := false
    secKeyFields := some (List.replicate numFields 0) }

def defineKeys (T : IntTypes) (recordDef kdef : Text) : Defining Unit := do
  modify fun s => { s with keyDef := [] }
  match Definition.createRecord T recordDef with
  | .error .undefined => throw .undefined
  | .error err => throw (.badRecord err)
  | .ok record =>
    if ¬ iinfix "PRI".toList kdef then throw .badKeyDef
    else if (parseFields kdef ',').length < 1 then throw .badKeyDef
    else
      modify (reset record.fields.length)
      let _ ← (parseFields kdef ',').foldlM (defineWord record.fields.length) 0
      modify fun s => { s with keyDef := kdef }

/-! ## The settings that a key definition leaves

The words of a key definition are read as items, one after another, and the settings are right after all of
them exactly if every column that is taken is one of the table's and nothing is refused behind a secondary
column.
-/

open Text

/-- The settings that are no columns. -/
inductive KeyAttribute
  | noCase
  | anCompare
  | allowDup
  | order (n : Int)
  | reclaim (method : ReclaimMethod)
  deriving DecidableEq, Repr

def KeyAttribute.set (s : KeySettings) : KeyAttribute → KeySettings
  | noCase => { s with compareCase := false }
  | anCompare => { s with compareAlpha := true }
  | allowDup => { s with dup := true }
  | order n => { s with order := n }
  | reclaim method => { s with method := method }

/-- What a word of a key definition asks for; `none` is a number that is no `int`. -/
inductive KeyItem
  | primary (column : Option Int)
  | secondary (column : Option Int)
  | attrib (a : KeyAttribute)
  | bad
  | undefined
  deriving DecidableEq, Repr

/-- The item of the primary key in a word, and what is left of the word. -/
def primaryItems (sbuf : Text) : List KeyItem × Text :=
  if iinfix "PRI".toList sbuf then
    if iinfix "COL".toList sbuf then
      ([.primary (if iinfix "NONE".toList (columnText sbuf) then some (-1) else toInt (columnText sbuf))],
        columnText sbuf)
    else ([.bad], sbuf)
  else ([], sbuf)

def secondaryItems (sbuf : Text) : List KeyItem × Text :=
  if iinfix "SEC".toList sbuf then
    if iinfix "COL".toList sbuf then ([.secondary (toInt (columnText sbuf))], columnText sbuf)
    else ([.bad], sbuf)
  else ([], sbuf)

def attribItems (sbuf : Text) : List KeyItem :=
  if iinfix "ATTRIB".toList sbuf then
    if iinfix "NOCASE".toList sbuf then [.attrib .noCase]
    else if iinfix "ANCOMPARE".toList sbuf then [.attrib .anCompare]
    else if iinfix "ALLOWDUP".toList sbuf then [.attrib .allowDup]
    else if iinfix "ORDER".toList sbuf then
      match toInt (valueText sbuf) with
      | none => [.undefined]
      | some n => if n = 0 then [.bad] else [.attrib (.order n)]
    else if iinfix "RECLAIM".toList sbuf then
      if valueText sbuf = "NONE".toList ∨ valueText sbuf = "none".toList then [.attrib (.reclaim .none)]
      else if valueText sbuf = "BEST".toList ∨ valueText sbuf = "best".toList then [.attrib (.reclaim .bestFit)]
      else if valueText sbuf = "FIRST".toList ∨ valueText sbuf = "first".toList then [.attrib (.reclaim .firstFit)]
      else [.bad]
    else [.bad]
  else []

/-- The items of a word. -/
def keyItems (word : Text) : List KeyItem :=
  if word.isEmpty then []
  else
    (primaryItems (upper (trim word))).1 ++ (secondaryItems (primaryItems (upper (trim word))).2).1 ++
      attribItems (secondaryItems (primaryItems (upper (trim word))).2).2

def applyItem (numFields numPriKeys : Nat) : KeyItem → Defining Nat
  | .primary column =>
    if numPriKeys ≥ 1 then badKeyDef
    else
      match column with
      | none => throw .undefined
      | some n =>
        if n = 0 then badKeyDef
        else do
          modify fun s => { s with primaryKey := n }
          pure (numPriKeys + 1)
  | .secondary column =>
    match column with
    | none => throw .undefined
    | some n =>
      if n = 0 then badKeyDef
      else do
        let s ← get
        if s.numSecKeys ≥ numFields then badKeyDef
        else
          modify fun s => { s with
            secKeyFields := s.secKeyFields.map (·.set s.numSecKeys n)
            numSecKeys := s.numSecKeys + 1 }
          pure numPriKeys
  | .attrib a => do
    modify fun s => a.set s
    pure numPriKeys
  | .bad => badKeyDef
  | .undefined => throw .undefined

/-! ## Words as items -/

variable {n : Nat}

theorem primaryPart_eq (pri : Nat) (sbuf : Text) : primaryPart pri sbuf =
    (primaryItems sbuf).1.foldlM (applyItem n) pri >>= fun k => pure (k, (primaryItems sbuf).2) := by
  unfold primaryPart primaryItems
  by_cases hPri : iinfix "PRI".toList sbuf = true
  swap
  · rw [if_neg hPri, if_neg hPri]
    rfl
  rw [if_pos hPri, if_pos hPri]
  by_cases hCol : iinfix "COL".toList sbuf = true
  swap
  · rw [if_pos hCol, if_neg hCol]
    rfl
  rw [if_neg (not_not.mpr hCol), if_pos hCol]
  dsimp only
  rw [List.foldlM_cons, applyItem.eq_def]
  dsimp only
  by_cases hSecond : pri ≥ 1
  · rw [if_pos hSecond, if_pos hSecond]
    rfl
  rw [if_neg hSecond, if_neg hSecond]
  by_cases hNone : iinfix "NONE".toList (columnText sbuf) = true
  · rw [if_pos hNone, if_pos hNone]
    rfl
  rw [if_neg hNone, if_neg hNone, keyNumber]
  cases toInt (columnText sbuf) with
  | none => rfl
  | some k =>
    dsimp only
    rw [pure_bind]
    split <;> rfl

theorem secondaryPart_eq (pri : Nat) (sbuf : Text) : (do
    let sbuf ← secondaryPart n sbuf
    pure (pri, sbuf)) =
      (secondaryItems sbuf).1.foldlM (applyItem n) pri >>= fun k => pure (k, (secondaryItems sbuf).2) := by
  unfold secondaryPart secondaryItems
  by_cases hSec : iinfix "SEC".toList sbuf = true
  swap
  · rw [if_neg hSec, if_neg hSec]
    rfl
  rw [if_pos hSec, if_pos hSec]
  by_cases hCol : iinfix "COL".toList sbuf = true
  swap
  · rw [if_pos hCol, if_neg hCol]
    rfl
  rw [if_neg (not_not.mpr hCol), if_pos hCol]
  dsimp only
  rw [List.foldlM_cons, applyItem.eq_def, keyNumber]
  dsimp only
  cases toInt (columnText sbuf) with
  | none => rfl
  | some k =>
    dsimp only
    rw [pure_bind]
    split
    · rfl
    · rw [bind_assoc, bind_assoc, bind_assoc]
      apply bind_congr
      intro s
      split <;> rfl

theorem attribPart_eq (pri : Nat) (sbuf : Text) : (do
    attribPart sbuf
    pure pri) = (attribItems sbuf).foldlM (applyItem n) pri := by
  unfold attribPart attribItems
  split
  · split
    · rfl
    split
    · rfl
    split
    · rfl
    split
    · unfold keyNumber
      cases toInt (valueText sbuf) with
      | none => rfl
      | some k =>
        dsimp only
        split
        · next hZero =>
          rw [hZero]
          rfl
        · next hZero =>
          simp only [pure_bind, if_neg hZero]
          rfl
    split
    · split
      · rfl
      split
      · rfl
      split <;> rfl
    · rfl
  · rfl

theorem defineWord_eq (pri : Nat) (word : Text) :
    defineWord n pri word = (keyItems word).foldlM (applyItem n) pri := by
  unfold defineWord keyItems
  split
  · rfl
  rw [List.foldlM_append, List.foldlM_append, primaryPart_eq (n := n)]
  simp only [bind_assoc, pure_bind]
  apply bind_congr
  intro k
  have hSecondary := secondaryPart_eq (n := n) k (primaryItems (upper (trim word))).2
  rw [show (secondaryItems (primaryItems (upper (trim word))).2).1.foldlM (applyItem n) k >>= (fun k =>
      (attribItems (secondaryItems (primaryItems (upper (trim word))).2).2).foldlM (applyItem n) k) =
      ((secondaryItems (primaryItems (upper (trim word))).2).1.foldlM (applyItem n) k >>= fun k =>
        pure (k, (secondaryItems (primaryItems (upper (trim word))).2).2)) >>= fun p =>
          (attribItems p.2).foldlM (applyItem n) p.1 by simp only [bind_assoc, pure_bind], ← hSecondary]
  simp only [bind_assoc, pure_bind, ← attribPart_eq]

theorem defineWords_eq (pri : Nat) (words : List Text) :
    words.foldlM (defineWord n) pri = (words.flatMap keyItems).foldlM (applyItem n) pri := by
  induction words generalizing pri with
  | nil => rfl
  | cons w words ih =>
    rw [List.foldlM_cons, List.flatMap_cons, List.foldlM_append, defineWord_eq]
    exact bind_congr ih

/-! ## Right settings -/

def IsColumn (n : Nat) (c : Int) : Prop := 1 ≤ c ∧ c ≤ n

/-- The primary key is all fields or a column of the table, and the secondary columns that are counted are in
an array and are columns of the table. -/
structure KeysSound (n : Nat) (s : KeySettings) : Prop where
  primary : s.primaryKey = -1 ∨ IsColumn n s.primaryKey
  secondary : 0 < s.numSecKeys → ∃ fields, s.secKeyFields = some fields ∧ s.numSecKeys ≤ fields.length ∧
    ∀ c ∈ fields.take s.numSecKeys, IsColumn n c

/-- The settings are right whatever a definition returns. -/
def LeavesSound {α : Type} (n : Nat) : EStateM.Result KeyDefError KeySettings α → Prop
  | .ok _ s => KeysSound n s
  | .error .undefined _ => False
  | .error _ s => KeysSound n s

/-- The items of a definition are right behind `pri` primary and `sec` secondary columns: a column that is
taken is one of the table's, and nothing is refused once there is a secondary column. -/
def RightItems (n : Nat) : Nat → Nat → List KeyItem → Prop
  | _, _, [] => True
  | pri, sec, .primary column :: items =>
    if 1 ≤ pri ∨ column = some 0 then sec = 0
    else (∃ c ∈ column, c = -1 ∨ IsColumn n c) ∧ RightItems n (pri + 1) sec items
  | pri, sec, .secondary column :: items =>
    if column = some 0 then sec = 0
    else (sec < n ∧ ∃ c ∈ column, IsColumn n c) ∧ RightItems n pri (sec + 1) items
  | pri, sec, .attrib _ :: items => RightItems n pri sec items
  | _, sec, .bad :: _ => sec = 0
  | _, _, .undefined :: _ => False

/-- The array has a place for each field, and `sec` of them are taken. -/
structure Taking (n sec : Nat) (s : KeySettings) : Prop where
  fields : ∃ fields, s.secKeyFields = some fields ∧ fields.length = n
  count : s.numSecKeys = sec

/-- A wrong column was taken, as the primary one after `pri` of them or as a secondary one. -/
def Spoiled (n pri : Nat) (s : KeySettings) : Prop :=
  (1 ≤ pri ∧ ¬ (s.primaryKey = -1 ∨ IsColumn n s.primaryKey)) ∨
    0 < s.numSecKeys ∧ ∀ fields ∈ s.secKeyFields, ∃ c ∈ fields.take s.numSecKeys, ¬ IsColumn n c

theorem not_sound_of_spoiled {pri : Nat} {s : KeySettings} (h : Spoiled n pri s) : ¬ KeysSound n s := by
  intro hSound
  rcases h with ⟨-, hPrimary⟩ | ⟨hPos, hSecondary⟩
  · exact hPrimary hSound.primary
  · obtain ⟨fields, hFields, -, hAll⟩ := hSound.secondary hPos
    obtain ⟨c, hc, hWrong⟩ := hSecondary fields hFields
    exact hWrong (hAll c hc)

/-- The settings after a refusal. -/
def freed (s : KeySettings) : KeySettings := { s with secKeyFields := none }

/-- The settings with one more secondary column. -/
def taken (c : Int) (s : KeySettings) : KeySettings :=
  { s with
    secKeyFields := s.secKeyFields.map (·.set s.numSecKeys c)
    numSecKeys := s.numSecKeys + 1 }

section Steps

variable {pri : Nat} {s : KeySettings} {column : Option Int} {c : Int}

theorem primary_refused (h : 1 ≤ pri ∨ column = some 0) :
    applyItem n pri (.primary column) s = .error .badKeyDef (freed s) := by
  rw [applyItem.eq_def]
  dsimp only
  split
  · rfl
  next hFirst =>
    obtain rfl := h.resolve_left hFirst
    rfl

theorem primary_unknown (h : ¬ 1 ≤ pri) : applyItem n pri (.primary none) s = .error .undefined s := by
  rw [applyItem.eq_def]
  dsimp only
  rw [if_neg h]
  rfl

theorem primary_taken (h : ¬ 1 ≤ pri) (hc : c ≠ 0) :
    applyItem n pri (.primary (some c)) s = .ok (pri + 1) { s with primaryKey := c } := by
  rw [applyItem.eq_def]
  dsimp only
  rw [if_neg h, if_neg hc]
  rfl

theorem secondary_refused (h : c = 0 ∨ n ≤ s.numSecKeys) :
    applyItem n pri (.secondary (some c)) s = .error .badKeyDef (freed s) := by
  rw [applyItem.eq_def]
  dsimp only
  by_cases hZero : c = 0
  · rw [if_pos hZero]
    rfl
  · rw [if_neg hZero, Exec.bind_ok (Exec.get_run s), if_pos (h.resolve_left hZero)]
    rfl

theorem secondary_taken (hc : c ≠ 0) (h : s.numSecKeys < n) :
    applyItem n pri (.secondary (some c)) s = .ok pri (taken c s) := by
  rw [applyItem.eq_def]
  dsimp only
  rw [if_neg hc, Exec.bind_ok (Exec.get_run s), if_neg (Nat.not_le.mpr h)]
  rfl

theorem attrib_set (a : KeyAttribute) : applyItem n pri (.attrib a) s = .ok pri (a.set s) := rfl

theorem bad_refused : applyItem n pri .bad s = .error .badKeyDef (freed s) := rfl

theorem undefined_unknown : applyItem n pri .undefined s = .error .undefined s := rfl

theorem secondary_unknown : applyItem n pri (.secondary none) s = .error .undefined s := rfl

end Steps

/-- A refusal is right exactly before the first secondary column. -/
theorem refused_sound_iff {sec : Nat} {s : KeySettings} (h : Taking n sec s) (hSound : KeysSound n s) :
    KeysSound n (freed s) ↔ sec = 0 := by
  constructor
  · intro hFreed
    by_contra hPos
    have hCount := h.count
    obtain ⟨fields, hFields, -⟩ := hFreed.secondary (show 0 < s.numSecKeys by omega)
    cases hFields
  · intro hZero
    refine ⟨hSound.primary, fun hPos => ?_⟩
    have hCount := h.count
    change 0 < s.numSecKeys at hPos
    omega

theorem take_set_succ {α : Type} {l : List α} {k : Nat} (a : α) (h : k < l.length) :
    (l.set k a).take (k + 1) = l.take k ++ [a] := by
  rw [List.take_add_one, List.take_set_of_le (Nat.le_refl k), List.getElem?_set_self h]
  rfl

section Runs

variable {pri sec : Nat} {s : KeySettings}

theorem Taking.taken (h : Taking n sec s) (c : Int) : Taking n (sec + 1) (taken c s) := by
  obtain ⟨fields, hFields, hLength⟩ := h.fields
  constructor
  · exact ⟨fields.set s.numSecKeys c, by rw [KeyDefinition.taken, hFields]; rfl, by rw [List.length_set, hLength]⟩
  · exact congrArg (· + 1) h.count

theorem Taking.set (h : Taking n sec s) (a : KeyAttribute) : Taking n sec (a.set s) := by
  cases a <;> exact ⟨h.fields, h.count⟩

/-- The columns after one more, of an array with a place for it. -/
theorem Taking.columns (h : Taking n sec s) (hsec : sec < n) (c : Int) : ∃ fields, s.secKeyFields = some fields ∧
    ∃ fields', (KeyDefinition.taken c s).secKeyFields = some fields' ∧ sec + 1 ≤ fields'.length ∧
      fields'.take (sec + 1) = fields.take sec ++ [c] := by
  obtain ⟨fields, hFields, hLength⟩ := h.fields
  refine ⟨fields, hFields, fields.set sec c, ?_, ?_, take_set_succ c (by omega)⟩
  · rw [KeyDefinition.taken, hFields, h.count]
    rfl
  · rw [List.length_set]
    omega

/-- Nothing repairs a wrong column. -/
theorem spoiled_items (items : List KeyItem) (hTaking : Taking n sec s) (h : Spoiled n pri s) :
    ¬ LeavesSound n (items.foldlM (applyItem n) pri s) := by
  induction items generalizing pri sec s with
  | nil => exact not_sound_of_spoiled h
  | cons item items ih =>
    have hRefused : ¬ KeysSound n (freed s) := by
      intro hFreed
      rcases h with ⟨-, hPrimary⟩ | ⟨hPos, -⟩
      · exact hPrimary hFreed.primary
      · obtain ⟨fields, hFields, -⟩ := hFreed.secondary hPos
        cases hFields
    rw [List.foldlM_cons]
    cases item with
    | primary column =>
      by_cases hRefuse : 1 ≤ pri ∨ column = some 0
      · rw [Exec.bind_error (primary_refused hRefuse)]
        exact hRefused
      obtain ⟨hFirst, hZero⟩ := not_or.mp hRefuse
      cases column with
      | none =>
        rw [Exec.bind_error (primary_unknown hFirst)]
        exact id
      | some c =>
        rw [Exec.bind_ok (primary_taken hFirst fun hc => hZero (congrArg some hc))]
        exact ih ⟨hTaking.fields, hTaking.count⟩ (h.imp_left fun hOne => absurd hOne.1 hFirst)
    | secondary column =>
      cases column with
      | none =>
        rw [Exec.bind_error secondary_unknown]
        exact id
      | some c =>
        by_cases hRefuse : c = 0 ∨ n ≤ s.numSecKeys
        · rw [Exec.bind_error (secondary_refused hRefuse)]
          exact hRefused
        obtain ⟨hZero, hRoom⟩ := not_or.mp hRefuse
        rw [Exec.bind_ok (secondary_taken hZero (Nat.not_le.mp hRoom))]
        refine ih (hTaking.taken c) (h.imp id ?_)
        rintro ⟨-, hWrong⟩
        refine ⟨Nat.succ_pos _, fun fields' hFields' => ?_⟩
        have hCount := hTaking.count
        obtain ⟨fields, hFields, fields'', hTaken, -, hTake⟩ := hTaking.columns (by omega) c
        obtain rfl : fields'' = fields' := Option.some.inj (hTaken.symm.trans hFields')
        obtain ⟨d, hd, hNot⟩ := hWrong fields hFields
        refine ⟨d, ?_, hNot⟩
        change d ∈ fields''.take (s.numSecKeys + 1)
        rw [hCount] at hd ⊢
        rw [hTake]
        exact List.mem_append_left _ hd
    | attrib a =>
      rw [Exec.bind_ok (attrib_set a)]
      apply ih (hTaking.set a)
      cases a <;> exact h
    | bad =>
      rw [Exec.bind_error bad_refused]
      exact hRefused
    | undefined =>
      rw [Exec.bind_error undefined_unknown]
      exact id

theorem KeysSound.set (h : KeysSound n s) (a : KeyAttribute) : KeysSound n (a.set s) := by
  cases a <;> exact ⟨h.primary, h.secondary⟩

/-- The settings are right after the items exactly if the items are. -/
theorem items_sound_iff (items : List KeyItem) (hn : 1 ≤ n) (hTaking : Taking n sec s) (h : KeysSound n s) :
    LeavesSound n (items.foldlM (applyItem n) pri s) ↔ RightItems n pri sec items := by
  induction items generalizing pri sec s with
  | nil => exact iff_of_true h trivial
  | cons item items ih =>
    have hRefused := refused_sound_iff hTaking h
    rw [List.foldlM_cons]
    cases item with
    | primary column =>
      rw [RightItems]
      by_cases hRefuse : 1 ≤ pri ∨ column = some 0
      · rw [Exec.bind_error (primary_refused hRefuse), if_pos hRefuse]
        exact hRefused
      rw [if_neg hRefuse]
      obtain ⟨hFirst, hZero⟩ := not_or.mp hRefuse
      cases column with
      | none =>
        rw [Exec.bind_error (primary_unknown hFirst)]
        exact iff_of_false id fun hRight => by simp at hRight
      | some c =>
        rw [Exec.bind_ok (primary_taken hFirst fun hc => hZero (congrArg some hc))]
        simp only [Option.mem_some_iff, exists_eq_left']
        have hTaking' : Taking n sec { s with primaryKey := c } := ⟨hTaking.fields, hTaking.count⟩
        by_cases hColumn : c = -1 ∨ IsColumn n c
        · rw [ih hTaking' ⟨hColumn, h.secondary⟩]
          exact (and_iff_right hColumn).symm
        · refine iff_of_false ?_ fun hRight => hColumn hRight.1
          exact spoiled_items items hTaking' (.inl ⟨Nat.succ_pos pri, hColumn⟩)
    | secondary column =>
      rw [RightItems]
      cases column with
      | none =>
        rw [Exec.bind_error secondary_unknown]
        exact iff_of_false id (by simp)
      | some c =>
        have hCount := hTaking.count
        by_cases hRefuse : c = 0 ∨ n ≤ s.numSecKeys
        · rw [Exec.bind_error (secondary_refused hRefuse)]
          by_cases hZero : c = 0
          · rw [if_pos (congrArg some hZero)]
            exact hRefused
          · rw [if_neg fun hc => hZero (Option.some.inj hc)]
            have hRoom := hRefuse.resolve_left hZero
            have hPos : sec ≠ 0 := by omega
            exact iff_of_false (fun hFreed => hPos (hRefused.mp hFreed)) fun hRight => by
              have := hRight.1.1
              omega
        obtain ⟨hZero, hRoom⟩ := not_or.mp hRefuse
        rw [Exec.bind_ok (secondary_taken hZero (Nat.not_le.mp hRoom)),
          if_neg fun hc => hZero (Option.some.inj hc)]
        simp only [Option.mem_some_iff, exists_eq_left']
        obtain ⟨fields, hFields, fields', hTaken, hLength, hTake⟩ := hTaking.columns (by omega) c
        have hCount' : (taken c s).numSecKeys = sec + 1 := congrArg (· + 1) hCount
        by_cases hColumn : IsColumn n c
        · rw [ih (hTaking.taken c) ⟨h.primary, fun _ => ⟨fields', hTaken, by rwa [hCount'], ?_⟩⟩]
          · exact (and_iff_right ⟨by omega, hColumn⟩).symm
          · rw [hCount', hTake]
            intro d hd
            rcases List.mem_append.mp hd with hd | hd
            · have hPos : 0 < s.numSecKeys := by
                have hNe := List.length_pos_of_mem hd
                rw [List.length_take] at hNe
                omega
              obtain ⟨fields'', hFields'', -, hAll⟩ := h.secondary hPos
              obtain rfl : fields'' = fields := Option.some.inj (hFields''.symm.trans hFields)
              exact hAll d (hCount ▸ hd)
            · rwa [List.mem_singleton.mp hd]
        · refine iff_of_false ?_ fun hRight => hColumn hRight.1.2
          refine spoiled_items items (hTaking.taken c) (.inr ⟨Nat.succ_pos _, fun fields'' hFields'' => ?_⟩)
          obtain rfl : fields' = fields'' := Option.some.inj (hTaken.symm.trans hFields'')
          exact ⟨c, by rw [hCount', hTake]; simp, hColumn⟩
    | attrib a =>
      rw [Exec.bind_ok (attrib_set a), RightItems]
      exact ih (hTaking.set a) (h.set a)
    | bad =>
      rw [Exec.bind_error bad_refused]
      exact hRefused
    | undefined =>
      rw [Exec.bind_error undefined_unknown]
      exact Iff.rfl

end Runs

theorem createRecord_fields {T : IntTypes} {recordDef : Text} {r : Definition.DefinedRecord}
    (h : Definition.createRecord T recordDef = .ok r) : 1 ≤ r.fields.length := by
  have hParse : ∃ name columns, parseFields recordDef ',' = name :: columns ∧ columns ≠ [] := by
    unfold Definition.createRecord at h
    dsimp only at h
    split at h
    · cases h
    · split at h
      · next name column columns hParse => exact ⟨name, column :: columns, hParse, by simp⟩
      · cases h
  obtain ⟨name, columns, hParse, hNe⟩ := hParse
  obtain ⟨-, -, fields, hAll, rfl⟩ := (Definition.createRecord_ok_iff hParse hNe).mp h
  have hPos := List.length_pos_of_ne_nil hNe
  rwa [hAll.length_eq] at hPos

/-- A record can be made, and either the definition is read and its items are right, or it is refused before
the settings are reset and they were right before. -/
def RightKeys (T : IntTypes) (recordDef kdef : Text) (n : Nat) (s : KeySettings) : Prop :=
  match Definition.createRecord T recordDef with
  | .error .undefined => False
  | .error _ => KeysSound n s
  | .ok _ =>
    if iinfix "PRI".toList kdef = true ∧ parseFields kdef ',' ≠ [] then
      RightItems n 0 0 ((parseFields kdef ',').flatMap keyItems)
    else KeysSound n s

/-- `DefineKeys` leaves right settings, whether it succeeds or fails, exactly if the definition is right for the
table. -/
theorem defineKeys_sound_iff {T : IntTypes} {recordDef : Text} {n : Nat}
    (hn : ∀ r, Definition.createRecord T recordDef = .ok r → r.fields.length = n) (kdef : Text)
    (s : KeySettings) :
    LeavesSound n (defineKeys T recordDef kdef s) ↔ RightKeys T recordDef kdef n s := by
  have hCleared : KeysSound n { s with keyDef := [] } ↔ KeysSound n s :=
    ⟨fun h => ⟨h.primary, h.secondary⟩, fun h => ⟨h.primary, h.secondary⟩⟩
  unfold defineKeys RightKeys
  rw [Exec.bind_ok (Exec.modify_run _ s)]
  cases hRecord : Definition.createRecord T recordDef with
  | error err =>
    cases err with
    | undefined => exact Iff.rfl
    | _ => exact hCleared
  | ok r =>
    have hLength := hn r hRecord
    have hPos := createRecord_fields hRecord
    dsimp only
    rw [hLength] at hPos ⊢
    by_cases hPri : iinfix "PRI".toList kdef = true
    swap
    · rw [if_pos hPri, if_neg fun h => hPri h.1]
      exact hCleared
    rw [if_neg (not_not.mpr hPri)]
    by_cases hWords : parseFields kdef ',' = []
    · rw [if_pos (by simp [hWords]), if_neg fun h => h.2 hWords]
      exact hCleared
    rw [if_neg (by simpa using hWords), if_pos ⟨hPri, hWords⟩, Exec.bind_ok (Exec.modify_run _ _),
      defineWords_eq]
    have hTaking : Taking n 0 (reset n { s with keyDef := [] }) :=
      ⟨⟨_, rfl, List.length_replicate⟩, rfl⟩
    have hReset : KeysSound n (reset n { s with keyDef := [] }) :=
      ⟨.inl rfl, fun h => absurd h (Nat.lt_irrefl 0)⟩
    rw [← items_sound_iff _ hPos hTaking hReset]
    generalize (parseFields kdef ',').flatMap keyItems = items
    cases hRun : items.foldlM (applyItem n) 0 (reset n { s with keyDef := [] }) with
    | error err t =>
      rw [Exec.bind_error hRun]
      cases err <;> exact Iff.rfl
    | ok pri t =>
      rw [Exec.bind_ok hRun]
      exact ⟨fun h => ⟨h.primary, h.secondary⟩, fun h => ⟨h.primary, h.secondary⟩⟩

theorem defineKeys_sound_parts : LeavesSound 2 (defineKeys .native "t,INT32,CHAR[4]".toList
    "PRI COL 1, SEC COL 2, ATTRIB NOCASE".toList
    ⟨[], -1, 0, none, true, false, false, 7, .firstFit⟩) := by
  have hRecord : Definition.createRecord .native "t,INT32,CHAR[4]".toList =
      .ok ⟨"t".toList, "t,INT32,CHAR[4]".toList, [(.int32, 8), (.char, 4)]⟩ := by
    decide +kernel
  rw [defineKeys_sound_iff (n := 2)]
  · rw [RightKeys, hRecord]
    dsimp only
    have hItems : (parseFields "PRI COL 1, SEC COL 2, ATTRIB NOCASE".toList ',').flatMap keyItems =
        [.primary (some 1), .secondary (some 2), .attrib .noCase] := by
      decide +kernel
    rw [hItems, if_pos (by decide +kernel)]
    simp [RightItems, IsColumn]
  · intro r hr
    rw [hRecord] at hr
    cases hr
    rfl

end KeyDefinition

end DataReel
