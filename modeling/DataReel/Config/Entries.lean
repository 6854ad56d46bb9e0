import DataReel.Config.Config
import DataReel.Net.HttpText

/-! # Parameters of lines

What a line is read as does not depend on the blanks around it. A name and a value that the signs of the
file are not in are read back from the line that is written for them.
-/

namespace DataReel

/-- The first occurrence of a row is not inside what stands before it. -/
theorem not_infix_of_cutAt_some {α : Type} [DecidableEq α] {p s x y : List α} (hp : p ≠ [])
    (h : cutAt p s = some (x, y)) : ¬ p <:+: x := by
  induction s generalizing x with
  | nil =>
    rw [cutAt] at h
    split at h
    · next hEmpty => exact absurd (List.isEmpty_iff.mp hEmpty) hp
    · cases h
  | cons a s ih =>
    rw [cutAt] at h
    split at h
    · cases h
      exact fun hInfix => hp (List.infix_nil.mp hInfix)
    · next hPrefix =>
      obtain ⟨⟨x, y'⟩, hCut, hEq⟩ := Option.map_eq_some_iff.mp h
      cases hEq
      intro hInfix
      rcases List.infix_cons_iff.mp hInfix with hFirst | hInfix
      · apply hPrefix
        rw [List.isPrefixOf_iff_prefix, eq_of_cutAt hCut, List.append_assoc, ← List.cons_append]
        exact hFirst.trans (List.prefix_append _ _)
      · exact ih hCut hInfix

namespace Text

variable {s r w x y : Text}

theorem trimRight_append_spaces (h : ∀ c ∈ r, isSpace c = true) : trimRight (s ++ r) = trimRight s := by
  unfold trimRight
  induction r using List.reverseRecOn with
  | nil => rw [List.append_nil]
  | append_singleton r c ih =>
    rw [← List.append_assoc, List.rdropWhile_concat_pos _ _ _ (h c (by simp))]
    exact ih fun d hd => h d (List.mem_append_left [c] hd)

theorem trimLeft_append_spaces (h : ∀ c ∈ w, isSpace c = true) : trimLeft (w ++ s) = trimLeft s :=
  List.dropWhile_append_of_pos h

theorem trim_append_spaces (h : ∀ c ∈ r, isSpace c = true) : trim (s ++ r) = trim s := by
  unfold trim trimLeft
  rw [List.dropWhile_append]
  split
  · next hNone =>
    rw [List.isEmpty_iff.mp hNone, List.dropWhile_eq_nil_iff.mpr h]
  · exact trimRight_append_spaces h

theorem trim_spaces_append (h : ∀ c ∈ w, isSpace c = true) : trim (w ++ s) = trim s := by
  rw [trim, trimLeft_append_spaces h, trim]

theorem trimRight_of_trim (h : trim s = s) : trimRight s = s := by
  rw [← h]
  exact List.rdropWhile_idempotent _ _

theorem trimLeft_of_trim (h : trim s = s) : trimLeft s = s := by
  cases s with
  | nil => rfl
  | cons c s => exact trimLeft_cons_of_not_isSpace (not_isSpace_of_trim h)

theorem trimRight_append (h : y = [] → trimRight x = x) (hy : trimRight y = y) :
    trimRight (x ++ y) = x ++ y := by
  cases hLast : y.getLast? with
  | none =>
    rw [List.getLast?_eq_none_iff] at hLast
    rw [hLast, List.append_nil]
    exact h hLast
  | some c =>
    obtain ⟨z, rfl⟩ := List.getLast?_eq_some_iff.mp hLast
    have hSpace : isSpace c = false := by
      by_contra hSpace
      have hShort := (List.rdropWhile_prefix (p := isSpace) z).length_le
      rw [trimRight, List.rdropWhile_concat_pos _ _ _ (by simpa using hSpace)] at hy
      have hLength := congrArg List.length hy
      rw [List.length_append, List.length_singleton] at hLength
      omega
    rw [← List.append_assoc]
    exact List.rdropWhile_concat_neg _ _ _ (by simp [hSpace])

/-- What does not begin or end with a blank is its own trimmed text. -/
theorem trim_append (hx : trim x = x) (hNe : x ≠ []) (hy : trimRight y = y) : trim (x ++ y) = x ++ y := by
  cases x with
  | nil => exact absurd rfl hNe
  | cons c x =>
    have hSpace := not_isSpace_of_trim hx
    rw [trim, List.cons_append, trimLeft_cons_of_not_isSpace hSpace, ← List.cons_append]
    exact trimRight_append (fun _ => trimRight_of_trim hx) hy

theorem head_trim {c : Char} (h : (trim s).head? = some c) : isSpace c = false := by
  cases hTrim : trim s with
  | nil =>
    rw [hTrim] at h
    cases h
  | cons d t =>
    rw [hTrim] at h
    obtain rfl : d = c := Option.some.inj h
    apply not_isSpace_of_trim (s := t)
    rw [← hTrim, trim_trim]

end Text

namespace Config

variable {cfg : Config} {name value l : Text}

theorem trim_popReturn (l : Text) : Text.trim (popReturn l) = Text.trim l := by
  unfold popReturn
  split
  · next hLast =>
    obtain ⟨t, rfl⟩ := List.getLast?_eq_some_iff.mp hLast
    rw [List.dropLast_concat, Text.trim_append_spaces]
    intro c hc
    rw [List.mem_singleton.mp hc]
    rfl
  · rfl

theorem trim_popReturns (l : Text) : Text.trim (popReturns l) = Text.trim l := by
  have hSplit := List.rdropWhile_append_rtakeWhile (p := fun c => c = '\r' || c = '\n') (l := l)
  conv_rhs => rw [← hSplit]
  rw [Text.trim_append_spaces, popReturns]
  intro c hc
  have hBreak := List.mem_rtakeWhile_imp hc
  rw [Bool.or_eq_true, decide_eq_true_eq, decide_eq_true_eq] at hBreak
  rcases hBreak with rfl | rfl <;> rfl

theorem entryOf_congr {l l' : Text} (h : Text.trim l = Text.trim l') : cfg.entryOf l = cfg.entryOf l' := by
  rw [entryOf, entryOf, h]

theorem entryOf_nil : cfg.entryOf [] = none := rfl

/-- What `Load` makes of the lines of a file. -/
def entriesOf (cfg : Config) (lines : List Text) : List (Text × Text) := lines.filterMap cfg.entryOf

theorem storeCfgData_fold (lines : List Text) :
    lines.foldl (fun cfg line => cfg.storeCfgData (popReturn line)) cfg =
      { cfg with entries := cfg.entries ++ cfg.entriesOf lines } := by
  induction lines generalizing cfg with
  | nil => rw [List.foldl_nil, entriesOf, List.filterMap_nil, List.append_nil]
  | cons l lines ih =>
    have hLine : cfg.entryOf (popReturn l) = cfg.entryOf l := entryOf_congr (trim_popReturn l)
    rw [List.foldl_cons, storeCfgData, hLine, ih]
    cases hEntry : cfg.entryOf l with
    | none => rw [entriesOf, entriesOf, List.filterMap_cons_none hEntry]
    | some e =>
      rw [entriesOf, entriesOf, List.filterMap_cons_some hEntry]
      simp only [List.append_assoc, List.singleton_append]
      rfl

theorem reLoad_entries (content : Text) :
    (cfg.reLoad (some content)).1 = { cfg with entries := cfg.entriesOf (linesOf '\n' content) } := by
  rw [reLoad, unLoad, load]
  dsimp only
  rw [storeCfgData_fold, List.nil_append]
  rfl

/-! ## Names and values that the signs of the file are not in -/

structure Plain (cfg : Config) (s : Text) : Prop where
  noBreak : '\n' ∉ s ∧ '\r' ∉ s
  noComment : cfg.commentChar ∉ s
  noBackslash : '\\' ∉ s
  noSign : ¬ cfg.parmID <:+: s
  trimmed : Text.trim s = s

/-- Between the name and the value the sign is found where it stands, and it is not trimmed off. -/
structure SignFits (cfg : Config) (name value : Text) : Prop where
  found : cutAt cfg.parmID (name ++ cfg.parmID ++ value) = some (name, value)
  ended : value = [] → Text.trimRight cfg.parmID = cfg.parmID
  oneLine : '\n' ∉ cfg.parmID

theorem Plain.sign_ne_nil (h : Plain cfg name) : cfg.parmID ≠ [] := by
  intro hNil
  apply h.noSign
  rw [hNil]
  exact List.nil_infix

/-- A sign of one character that is no blank fits. -/
theorem signFits_of_single {c : Char} (hSign : cfg.parmID = [c]) (hSpace : Text.isSpace c = false)
    (hName : Plain cfg name) : SignFits cfg name value := by
  have hNot : c ∉ name := by
    intro hc
    apply hName.noSign
    rw [hSign]
    obtain ⟨before, after, hSplit⟩ := List.append_of_mem hc
    exact ⟨before, after, by rw [hSplit, List.append_assoc, List.singleton_append]⟩
  constructor
  · rw [hSign]
    exact cutAt_append hNot
  · intro _
    rw [hSign]
    exact List.rdropWhile_concat_neg _ [] c (by simp [hSpace])
  · rw [hSign, List.mem_singleton]
    rintro rfl
    cases hSpace

/-- The line of a parameter is read back as its name and value. -/
theorem entryOf_line (hName : Plain cfg name) (hNe : name ≠ []) (hValue : Plain cfg value)
    (hSign : SignFits cfg name value) {w : Text} (hw : ∀ c ∈ w, Text.isSpace c = true) :
    cfg.entryOf (w ++ (name ++ cfg.parmID ++ value)) = some (name, value) := by
  have hRight : Text.trimRight (cfg.parmID ++ value) = cfg.parmID ++ value :=
    Text.trimRight_append hSign.ended (Text.trimRight_of_trim hValue.trimmed)
  have hTrim : Text.trim (w ++ (name ++ cfg.parmID ++ value)) = name ++ cfg.parmID ++ value := by
    rw [Text.trim_spaces_append hw, List.append_assoc]
    exact Text.trim_append hName.trimmed hNe hRight
  have hHead : ∀ c, (name ++ cfg.parmID ++ value).head? = some c → c ∈ name := by
    intro c hc
    rw [List.append_assoc, List.head?_append_of_ne_nil name hNe] at hc
    exact List.mem_of_mem_head? hc
  have hFull : (name ++ cfg.parmID ++ value).isEmpty = false := by
    cases name with
    | nil => exact absurd rfl hNe
    | cons c name => rfl
  have hNoComment : cutAt [' ', cfg.commentChar] value = none := by
    apply cutAt_none
    intro hInfix
    exact hValue.noComment (hInfix.subset (by simp))
  unfold entryOf
  dsimp only
  rw [hTrim, hFull, if_neg Bool.false_ne_true, if_neg, if_neg, hSign.found]
  · dsimp only
    rw [Text.trimLeft_of_trim hValue.trimmed, hNoComment, hName.trimmed]
    dsimp only
    rw [ite_self, hValue.trimmed]
  · rw [List.isEmpty_iff]
    exact hName.sign_ne_nil
  · rintro ⟨-, hComment⟩
    exact hName.noComment (hHead _ hComment)

/-- A line has the parameter. -/
def Names (cfg : Config) (name l : Text) : Prop := (cfg.entryOf l).map Prod.fst = some name

instance : Decidable (Names cfg name l) := inferInstanceAs (Decidable (_ = _))

/-- A line has a comment or no parameter sign. -/
def Kept (cfg : Config) (l : Text) : Prop :=
  (Text.trim l).head? = some cfg.commentChar ∨ ¬ cfg.parmID <:+: l

instance : Decidable (Kept cfg l) := inferInstanceAs (Decidable (_ ∨ _))

theorem names_split (h : Names cfg name l) : ∃ before after,
    Text.trim l = before ++ cfg.parmID ++ after ∧ Text.trim before = name := by
  obtain ⟨⟨n, v⟩, hEntry, hName⟩ := Option.map_eq_some_iff.mp h
  obtain rfl : n = name := hName
  unfold entryOf at hEntry
  dsimp only at hEntry
  split at hEntry
  · cases hEntry
  · split at hEntry
    · cases hEntry
    · split at hEntry
      · cases hEntry
      · split at hEntry
        · cases hEntry
        · next before after hCut =>
          injection hEntry with hEntry
          injection hEntry with hName _
          exact ⟨before, after, eq_of_cutAt hCut, hName⟩

theorem isInfix_of_names (h : Names cfg name l) : name <:+: l := by
  obtain ⟨before, after, hTrim, rfl⟩ := names_split h
  apply (Text.isInfix_trim before).trans
  apply List.IsInfix.trans _ (Text.isInfix_trim l)
  rw [hTrim, List.append_assoc]
  exact (List.prefix_append _ _).isInfix

/-- The line of a parameter without comment sign in its name is no comment. -/
theorem names_not_kept (h : Names cfg name l) (hName : Plain cfg name) (hNe : name ≠ []) :
    ¬ Kept cfg l := by
  obtain ⟨before, after, hTrim, hBefore⟩ := names_split h
  rintro (hComment | hNone)
  · have hSpace := Text.head_trim hComment
    cases before with
    | nil =>
      rw [← hBefore] at hNe
      exact hNe rfl
    | cons c before =>
      rw [hTrim] at hComment
      obtain rfl : c = cfg.commentChar := Option.some.inj hComment
      apply hName.noComment
      rw [← hBefore, Text.trim, Text.trimLeft_cons_of_not_isSpace hSpace]
      cases hRight : Text.trimRight (cfg.commentChar :: before) with
      | nil =>
        have hAll := List.rdropWhile_eq_nil_iff.mp hRight _ List.mem_cons_self
        rw [hSpace] at hAll
        cases hAll
      | cons d t =>
        obtain ⟨u, hu⟩ := List.rdropWhile_prefix (p := Text.isSpace) (cfg.commentChar :: before)
        rw [← Text.trimRight, hRight, List.cons_append] at hu
        rw [(List.cons.inj hu).1]
        exact List.mem_cons_self
  · apply hNone
    apply List.IsInfix.trans _ (Text.isInfix_trim l)
    rw [hTrim]
    exact ⟨before, after, rfl⟩

end Config

end DataReel
