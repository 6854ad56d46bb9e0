import DataReel.Config.Blocks

/-! # A changed parameter reads back

What `ChangeConfigValue` does is right where the name is found in the lines of its own parameter only.
-/

namespace DataReel

namespace Config

variable {cfg : Config} {name value : Text}

/-- The name is found in the last line of the block, behind blanks, and the line is its parameter. -/
def OwnLine (cfg : Config) (name : Text) (b : ConfigBlock) : Prop :=
  ∃ w, (∀ c ∈ w, Text.isSpace c = true) ∧
    (cutAt name b.joined).map Prod.fst = some (b.pending ++ w) ∧ Names cfg name b.last

/-- The files in which `ChangeConfigValue` comes to the parameter and to nothing else. -/
structure Safe (cfg : Config) (content name value : Text) : Prop where
  sign : SignFits cfg name value
  /-- No block is found by the name but for its own line. -/
  own : ∀ b ∈ blocks content, cfg.hits name b.joined = true → OwnLine cfg name b
  /-- Where a line has the parameter, the block with the first such line is found. -/
  first : (∃ l ∈ linesOf '\n' content, Names cfg name l) →
    ∃ b, ((blocks content).find? fun b => b.lines.any fun l => Names cfg name l) = some b ∧
      cfg.hits name b.joined = true
  /-- The line of a new parameter begins a line of the file. -/
  whole : (∀ b ∈ blocks content, cfg.hits name b.joined = false) →
    content = [] ∨ content.getLast? = some '\n'
  /-- Lines that are kept have one carriage return at most. -/
  returns : (∃ b ∈ blocks content, cfg.hits name b.joined = true) →
    ∀ l ∈ linesOf '\n' content, Kept cfg (popReturn l) → (popReturn l).getLast? ≠ some '\r'

/-- What a call that returns a number has to do: the value is there, in memory and in the file, the
other parameters have the values they had, and the lines without a parameter are still there. -/
def ChangeRight (cfg : Config) (file : Option Text) (writable : Bool) (name value : Text) : Prop :=
  (cfg.changeConfigValue file writable name value).1 ≠ 0 →
    ∃ content, (cfg.changeConfigValue file writable name value).2.2 = some content ∧
      (∀ d, (cfg.changeConfigValue file writable name value).2.1.getString name d = value) ∧
      (∀ d, ((cfg.changeConfigValue file writable name value).2.1.reLoad (some content)).1.getString name d =
        value) ∧
      (∀ m, m ≠ name →
        (cfg.changeConfigValue file writable name value).2.1.findValue m = cfg.findValue m ∧
        ((cfg.changeConfigValue file writable name value).2.1.reLoad (some content)).1.findValue m =
          cfg.findValue m) ∧
      (((linesOf '\n' (file.getD [])).map popReturn).filter fun l => Kept cfg l).Sublist
        ((linesOf '\n' content).map popReturn)

/-! ## The lines of the rewritten file -/

/-- The block after the change. -/
def changed (cfg : Config) (name value : Text) (b : ConfigBlock) : ConfigBlock :=
  { b with last := (cfg.changeLine name value b.joined).1.drop b.pending.length }

theorem changed_of_not_hits {b : ConfigBlock} (h : cfg.hits name b.joined = false) :
    cfg.changed name value b = b := by
  rw [changed, changeLine_not_hits h, ConfigBlock.joined, List.drop_left]

theorem changed_of_own (value : Text) {b : ConfigBlock} (h : cfg.hits name b.joined = true) (hOwn : OwnLine cfg name b) :
    (∃ w, (∀ c ∈ w, Text.isSpace c = true) ∧ w <+: b.last ∧
      (cfg.changed name value b).last = w ++ (name ++ cfg.parmID ++ value)) ∧
    (cfg.changeLine name value b.joined) = ((cfg.changed name value b).joined, 1) := by
  obtain ⟨w, hw, hCut, -⟩ := hOwn
  obtain ⟨before, after, hFound, hChange⟩ := changeLine_hits value h
  rw [hFound] at hCut
  obtain rfl : before = b.pending ++ w := Option.some.inj hCut
  have hLast : (cfg.changed name value b).last = w ++ (name ++ cfg.parmID ++ value) := by
    rw [changed, hChange]
    simp only [List.append_assoc, List.drop_left]
  constructor
  · refine ⟨w, hw, ⟨name ++ after, ?_⟩, hLast⟩
    have hJoined := eq_of_cutAt hFound
    rw [ConfigBlock.joined, List.append_assoc, List.append_assoc] at hJoined
    exact (List.append_cancel_left hJoined).symm
  · rw [hChange, ConfigBlock.joined, hLast]
    simp only [List.append_assoc]
    rfl

theorem changeLine_eq {b : ConfigBlock} (hOwn : cfg.hits name b.joined = true → OwnLine cfg name b) :
    (cfg.changeLine name value b.joined).1 = (cfg.changed name value b).joined := by
  cases hHit : cfg.hits name b.joined with
  | false => rw [changed_of_not_hits hHit, changeLine_not_hits hHit]
  | true => rw [(changed_of_own value hHit (hOwn hHit)).2]

theorem unlines_joined (bs : List ConfigBlock) :
    unlines '\n' (bs.map ConfigBlock.joined) = unlines '\n' (bs.flatMap ConfigBlock.lines) := by
  induction bs with
  | nil => rfl
  | cons b bs ih =>
    rw [List.map_cons, unlines_cons, ih, List.flatMap_cons, unlines_append, ConfigBlock.lines, unlines_append,
      unlines_singleton, ConfigBlock.joined, ConfigBlock.pending]
    simp only [List.append_assoc, List.singleton_append]

/-- The lines that the file has after it was rewritten. Unfinished lines get one more line break. -/
def newLines (cfg : Config) (content name value : Text) : List Text :=
  ((blocks content).map (cfg.changed name value)).flatMap ConfigBlock.lines ++
    (unfinished content ++ if (unfinished content).isEmpty then [] else [[]])

theorem unlines_changeLines {content : Text}
    (hOwn : ∀ b ∈ blocks content, cfg.hits name b.joined = true → OwnLine cfg name b) :
    unlines '\n' (cfg.changeLines name value [] (linesOf '\n' content)).1 =
      unlines '\n' (cfg.newLines content name value) := by
  have hLoop := @changeLines_eq cfg name value [] (linesOf '\n' content)
  rw [unlines_nil] at hLoop
  have hMap : (blocks content).map (fun b => (cfg.changeLine name value b.joined).1) =
      ((blocks content).map (cfg.changed name value)).map ConfigBlock.joined := by
    rw [List.map_map]
    apply List.map_congr_left
    intro b hb
    exact changeLine_eq (hOwn b hb)
  rw [hLoop, newLines, unlines_append, unlines_append, ← unlines_joined, ← hMap]
  congr 1
  change unlines '\n' (if (unfinished content).isEmpty then [] else [unlines '\n' (unfinished content)]) = _
  rw [unlines_append]
  split
  · next hNone =>
    rw [List.isEmpty_iff.mp hNone]
    rfl
  · rw [unlines_singleton, unlines_singleton, List.nil_append]

theorem noBreak_newLines {content : Text} (hName : Plain cfg name) (hValue : Plain cfg value)
    (hSign : SignFits cfg name value)
    (hOwn : ∀ b ∈ blocks content, cfg.hits name b.joined = true → OwnLine cfg name b) :
    ∀ l ∈ cfg.newLines content name value, '\n' ∉ l := by
  intro l hl
  rcases List.mem_append.mp hl with hl | hl
  · obtain ⟨b', hb', hl⟩ := List.mem_flatMap.mp hl
    obtain ⟨b, hb, rfl⟩ := List.mem_map.mp hb'
    have hOld {l : Text} (hl : l ∈ b.lines) : '\n' ∉ l :=
      noBreak_lines (List.mem_append_left _ (List.mem_flatMap.mpr ⟨b, hb, hl⟩))
    cases hHit : cfg.hits name b.joined with
    | false =>
      rw [changed_of_not_hits hHit] at hl
      exact hOld hl
    | true =>
      rcases List.mem_append.mp hl with hl | hl
      · exact hOld (List.mem_append_left _ hl)
      · obtain ⟨⟨w, -, hPrefix, hLast⟩, -⟩ := changed_of_own value hHit (hOwn b hb hHit)
        rw [List.mem_singleton.mp hl, hLast]
        have hBlank : '\n' ∉ w :=
          fun hMem => hOld (List.mem_append_right _ (List.mem_singleton.mpr rfl)) (hPrefix.subset hMem)
        simp only [List.mem_append, not_or]
        exact ⟨hBlank, ⟨hName.noBreak.1, hSign.oneLine⟩, hValue.noBreak.1⟩
  · rcases List.mem_append.mp hl with hl | hl
    · exact noBreak_lines (List.mem_append_right _ hl)
    · split at hl
      · cases hl
      · rw [List.mem_singleton.mp hl]
        exact List.not_mem_nil

/-! ## The parameters of the rewritten file -/

theorem entriesOf_append (ls ms : List Text) :
    cfg.entriesOf (ls ++ ms) = cfg.entriesOf ls ++ cfg.entriesOf ms := List.filterMap_append

theorem entriesOf_flatMap (bs : List ConfigBlock) :
    cfg.entriesOf (bs.flatMap ConfigBlock.lines) = bs.flatMap fun b => cfg.entriesOf b.lines := by
  induction bs with
  | nil => rfl
  | cons b bs ih => rw [List.flatMap_cons, List.flatMap_cons, entriesOf_append, ih]

theorem entriesOf_content (content : Text) : cfg.entriesOf (linesOf '\n' content) =
    (blocks content).flatMap (fun b => cfg.entriesOf b.lines) ++ cfg.entriesOf (unfinished content) := by
  rw [← entriesOf_flatMap, ← entriesOf_append, ← lines_content, entriesOf, entriesOf, List.filterMap_map]
  apply List.filterMap_congr
  intro l _
  exact entryOf_congr (trim_popReturns l).symm

/-- The line before those that it continues does not have the parameter. -/
theorem OwnLine.front {b : ConfigBlock} (h : OwnLine cfg name b) (hNe : name ≠ []) :
    ∀ l ∈ b.front, ¬ Names cfg name l := by
  obtain ⟨w, -, hCut, -⟩ := h
  obtain ⟨⟨before, after⟩, hFound, hBefore⟩ := Option.map_eq_some_iff.mp hCut
  intro l hl hNames
  apply not_infix_of_cutAt_some hNe hFound
  obtain rfl : before = b.pending ++ w := hBefore
  apply (isInfix_of_names hNames).trans
  have hLine : l <:+: b.pending := by
    obtain ⟨ls, ms, hSplit⟩ := List.append_of_mem hl
    rw [ConfigBlock.pending, hSplit, unlines_append, unlines_cons]
    exact ⟨_, '\n' :: unlines '\n' ms, by rw [List.append_assoc]⟩
  exact hLine.trans (List.prefix_append _ _).isInfix

theorem mem_entriesOf_names {ls : List Text} {e : Text × Text} (he : e ∈ cfg.entriesOf ls) :
    ∃ l ∈ ls, Names cfg e.1 l := by
  obtain ⟨l, hl, hEntry⟩ := List.mem_filterMap.mp he
  exact ⟨l, hl, by rw [Names, hEntry]; rfl⟩

/-- Without a line that has the parameter it is not found. -/
theorem find_entriesOf_none {ls : List Text} (h : ∀ l ∈ ls, ¬ Names cfg name l) :
    (cfg.entriesOf ls).find? (fun e => e.1 = name) = none := by
  rw [List.find?_eq_none]
  intro e he hEq
  obtain ⟨l, hl, hNames⟩ := mem_entriesOf_names he
  rw [of_decide_eq_true hEq] at hNames
  exact h l hl hNames

/-- The parameters of a block before and after the change. -/
theorem entries_of_own {b : ConfigBlock} (hName : Plain cfg name) (hNe : name ≠ []) (hValue : Plain cfg value)
    (hSign : SignFits cfg name value) (hHit : cfg.hits name b.joined = true) (hOwn : OwnLine cfg name b) :
    (∃ v, cfg.entriesOf b.lines = cfg.entriesOf b.front ++ [(name, v)]) ∧
      cfg.entriesOf (cfg.changed name value b).lines = cfg.entriesOf b.front ++ [(name, value)] := by
  constructor
  · obtain ⟨w, -, -, hNames⟩ := hOwn
    obtain ⟨⟨n, v⟩, hEntry, hEq⟩ := Option.map_eq_some_iff.mp hNames
    obtain rfl : n = name := hEq
    refine ⟨v, ?_⟩
    rw [ConfigBlock.lines, entriesOf_append]
    congr 1
    rw [entriesOf, List.filterMap_cons_some hEntry, List.filterMap_nil]
  · obtain ⟨⟨w, hw, -, hLast⟩, -⟩ := changed_of_own value hHit hOwn
    have hEntry := entryOf_line hName hNe hValue hSign hw
    rw [← hLast] at hEntry
    rw [ConfigBlock.lines, entriesOf_append]
    congr 1
    rw [entriesOf, List.filterMap_cons_some hEntry, List.filterMap_nil]

section Rewritten

variable {bs : List ConfigBlock} {m : Text}

/-- The parameters with other names. -/
theorem find_other (hName : Plain cfg name) (hNe : name ≠ []) (hValue : Plain cfg value)
    (hSign : SignFits cfg name value) (hm : m ≠ name)
    (hOwn : ∀ b ∈ bs, cfg.hits name b.joined = true → OwnLine cfg name b) :
    (bs.flatMap fun b => cfg.entriesOf (cfg.changed name value b).lines).find? (fun e => e.1 = m) =
      (bs.flatMap fun b => cfg.entriesOf b.lines).find? (fun e => e.1 = m) := by
  induction bs with
  | nil => rfl
  | cons b bs ih =>
    have hBlock : (cfg.entriesOf (cfg.changed name value b).lines).find? (fun e => e.1 = m) =
        (cfg.entriesOf b.lines).find? (fun e => e.1 = m) := by
      cases hHit : cfg.hits name b.joined with
      | false => rw [changed_of_not_hits hHit]
      | true =>
        obtain ⟨⟨v, hOld⟩, hNew⟩ :=
          entries_of_own hName hNe hValue hSign hHit (hOwn b List.mem_cons_self hHit)
        rw [hOld, hNew, List.find?_append, List.find?_append, List.find?_cons_of_neg,
          List.find?_cons_of_neg]
        · simpa using Ne.symm hm
        · simpa using Ne.symm hm
    rw [List.flatMap_cons, List.flatMap_cons, List.find?_append, List.find?_append, hBlock,
      ih fun b hb => hOwn b (List.mem_cons_of_mem _ hb)]

/-- The first block that has the parameter is changed. -/
theorem find_changed (hName : Plain cfg name) (hNe : name ≠ []) (hValue : Plain cfg value)
    (hSign : SignFits cfg name value)
    (hOwn : ∀ b ∈ bs, cfg.hits name b.joined = true → OwnLine cfg name b) {b₀ : ConfigBlock}
    (hFirst : bs.find? (fun b => b.lines.any fun l => Names cfg name l) = some b₀)
    (hHit₀ : cfg.hits name b₀.joined = true) :
    (bs.flatMap fun b => cfg.entriesOf (cfg.changed name value b).lines).find? (fun e => e.1 = name) =
      some (name, value) := by
  induction bs with
  | nil => cases hFirst
  | cons b bs ih =>
    rw [List.flatMap_cons, List.find?_append]
    cases hAny : b.lines.any fun l => Names cfg name l with
    | true =>
      rw [List.find?_cons_of_pos (p := fun b : ConfigBlock => b.lines.any fun l => Names cfg name l) hAny]
        at hFirst
      obtain rfl : b = b₀ := Option.some.inj hFirst
      have hOwn₀ := hOwn b List.mem_cons_self hHit₀
      rw [(entries_of_own hName hNe hValue hSign hHit₀ hOwn₀).2, List.find?_append,
        find_entriesOf_none (hOwn₀.front hNe), List.find?_cons_of_pos (by simp)]
      rfl
    | false =>
      rw [List.find?_cons_of_neg (p := fun b : ConfigBlock => b.lines.any fun l => Names cfg name l)
        (by simp [hAny])] at hFirst
      have hNot : ∀ l ∈ b.lines, ¬ Names cfg name l := by
        intro l hl hNames
        rw [List.any_eq_false] at hAny
        exact hAny l hl (decide_eq_true hNames)
      have hHit : cfg.hits name b.joined = false := by
        by_contra hHit
        obtain ⟨w, -, -, hNames⟩ := hOwn b List.mem_cons_self (by simpa using hHit)
        exact hNot b.last (by simp [ConfigBlock.lines]) hNames
      rw [changed_of_not_hits hHit, find_entriesOf_none hNot, Option.none_or]
      exact ih (fun b hb => hOwn b (List.mem_cons_of_mem _ hb)) hFirst

/-- No kept line is in the place of the parameter. -/
theorem kept_changed (hName : Plain cfg name) (hNe : name ≠ [])
    (hOwn : ∀ b ∈ bs, cfg.hits name b.joined = true → OwnLine cfg name b) :
    ((bs.flatMap ConfigBlock.lines).filter fun l => Kept cfg l).Sublist
      ((bs.map (cfg.changed name value)).flatMap ConfigBlock.lines) := by
  induction bs with
  | nil => exact List.Sublist.refl _
  | cons b bs ih =>
    rw [List.map_cons, List.flatMap_cons, List.flatMap_cons, List.filter_append]
    apply List.Sublist.append _ (ih fun b hb => hOwn b (List.mem_cons_of_mem _ hb))
    cases hHit : cfg.hits name b.joined with
    | false =>
      rw [changed_of_not_hits hHit]
      exact List.filter_sublist
    | true =>
      obtain ⟨w, -, -, hNames⟩ := hOwn b List.mem_cons_self hHit
      have hLast : ([b.last].filter fun l => Kept cfg l) = [] := by
        rw [List.filter_cons_of_neg, List.filter_nil]
        simpa using names_not_kept hNames hName hNe
      rw [ConfigBlock.lines, ConfigBlock.lines, List.filter_append, hLast, List.append_nil]
      exact List.filter_sublist.trans (List.sublist_append_left _ _)

end Rewritten

/-- The kept lines are read without their carriage returns. -/
theorem kept_popReturns {ls : List Text} (hBreak : ∀ l ∈ ls, '\n' ∉ l)
    (hReturns : ∀ l ∈ ls, Kept cfg (popReturn l) → (popReturn l).getLast? ≠ some '\r') :
    ((ls.map popReturn).filter fun l => Kept cfg l).Sublist
      ((ls.map popReturns).filter fun l => Kept cfg l) := by
  induction ls with
  | nil => exact List.Sublist.refl _
  | cons l ls ih =>
    have ih := ih (fun m hm => hBreak m (List.mem_cons_of_mem l hm))
      (fun m hm => hReturns m (List.mem_cons_of_mem l hm))
    rw [List.map_cons, List.map_cons]
    by_cases hKept : Kept cfg (popReturn l)
    · have hEq := popReturns_eq (hBreak l List.mem_cons_self) (hReturns l List.mem_cons_self hKept)
      rw [hEq, List.filter_cons_of_pos (by simpa using hKept), List.filter_cons_of_pos (by simpa using hKept)]
      exact ih.cons_cons _
    · rw [List.filter_cons_of_neg (by simpa using hKept)]
      exact ih.trans ((List.sublist_cons_self _ _).filter _)

/-- A file that was rewritten. -/
theorem rewritten {content : Text} (hName : Plain cfg name) (hNe : name ≠ []) (hValue : Plain cfg value)
    (hSafe : Safe cfg content name value) (hHit : ∃ b ∈ blocks content, cfg.hits name b.joined = true) :
    (cfg.entriesOf (cfg.newLines content name value)).find? (fun e => e.1 = name) = some (name, value) ∧
    (∀ m, m ≠ name → (cfg.entriesOf (cfg.newLines content name value)).find? (fun e => e.1 = m) =
      (cfg.entriesOf (linesOf '\n' content)).find? (fun e => e.1 = m)) ∧
    (((linesOf '\n' content).map popReturn).filter fun l => Kept cfg l).Sublist
      ((cfg.newLines content name value).map popReturn) := by
  have hEntries : cfg.entriesOf (cfg.newLines content name value) =
      (blocks content).flatMap (fun b => cfg.entriesOf (cfg.changed name value b).lines) ++
        cfg.entriesOf (unfinished content) := by
    rw [newLines, entriesOf_append, entriesOf_append, entriesOf_flatMap, List.flatMap_map]
    congr 1
    split
    · exact List.append_nil _
    · exact List.append_nil _
  refine ⟨?_, ?_, ?_⟩
  · obtain ⟨b, hb, hHit⟩ := hHit
    obtain ⟨w, -, -, hNames⟩ := hSafe.own b hb hHit
    have hLine : b.last ∈ (linesOf '\n' content).map popReturns := by
      rw [lines_content]
      exact List.mem_append_left _ (List.mem_flatMap.mpr ⟨b, hb, by simp [ConfigBlock.lines]⟩)
    obtain ⟨raw, hRaw, hPop⟩ := List.mem_map.mp hLine
    have hNamed : Names cfg name raw := by
      rw [Names, entryOf_congr (trim_popReturns raw).symm, hPop]
      exact hNames
    obtain ⟨b₀, hFirst, hHit₀⟩ := hSafe.first ⟨raw, hRaw, hNamed⟩
    rw [hEntries, List.find?_append,
      find_changed hName hNe hValue hSafe.sign hSafe.own hFirst hHit₀]
    rfl
  · intro m hm
    rw [hEntries, entriesOf_content, List.find?_append, List.find?_append,
      find_other hName hNe hValue hSafe.sign hm hSafe.own]
  · apply (kept_popReturns not_mem_linesOf (hSafe.returns hHit)).trans
    rw [lines_content]
    have hSub : (((blocks content).flatMap ConfigBlock.lines ++ unfinished content).filter
        fun l => Kept cfg l).Sublist (cfg.newLines content name value) := by
      rw [List.filter_append]
      apply List.Sublist.append (kept_changed hName hNe hSafe.own)
      exact List.filter_sublist.trans (List.sublist_append_left _ _)
    have hFixed : (((blocks content).flatMap ConfigBlock.lines ++ unfinished content).filter
        fun l => Kept cfg l).map popReturn =
          ((blocks content).flatMap ConfigBlock.lines ++ unfinished content).filter fun l => Kept cfg l :=
      (List.map_congr_left fun l hl => popReturn_lines (List.mem_of_mem_filter hl)).trans (List.map_id _)
    rw [← hFixed]
    exact hSub.map popReturn

/-- A file to which the line of the parameter was appended. -/
theorem appended {content : Text} (hName : Plain cfg name) (hNe : name ≠ []) (hValue : Plain cfg value)
    (hSafe : Safe cfg content name value) (hNone : ∀ b ∈ blocks content, cfg.hits name b.joined = false) :
    linesOf '\n' (content ++ (name ++ cfg.parmID ++ value ++ ['\n'])) =
        linesOf '\n' content ++ [name ++ cfg.parmID ++ value] ∧
      cfg.entryOf (name ++ cfg.parmID ++ value) = some (name, value) ∧
      (cfg.entriesOf (linesOf '\n' content)).find? (fun e => e.1 = name) = none := by
  refine ⟨?_, ?_, ?_⟩
  · have hBreak : '\n' ∉ name ++ cfg.parmID ++ value := by
      simp only [List.mem_append, not_or]
      exact ⟨⟨hName.noBreak.1, hSafe.sign.oneLine⟩, hValue.noBreak.1⟩
    rw [linesOf_append (hSafe.whole hNone), linesOf_append_cons hBreak]
    rfl
  · exact entryOf_line hName hNe hValue hSafe.sign (w := []) nofun
  · apply find_entriesOf_none
    intro l hl hNames
    obtain ⟨b, hFirst, hHit⟩ := hSafe.first ⟨l, hl, hNames⟩
    rw [hNone b (List.mem_of_find?_eq_some hFirst)] at hHit
    cases hHit

theorem numProcessed_eq (content : Text) :
    (cfg.changeLines name value [] (linesOf '\n' content)).2 =
      ((blocks content).map fun b => (cfg.changeLine name value b.joined).2).sum := by
  have hLoop := @changeLines_eq cfg name value [] (linesOf '\n' content)
  rw [unlines_nil] at hLoop
  rw [hLoop]
  rfl

theorem numProcessed_eq_zero_iff (content : Text) :
    (cfg.changeLines name value [] (linesOf '\n' content)).2 = 0 ↔
      ∀ b ∈ blocks content, cfg.hits name b.joined = false := by
  rw [numProcessed_eq, List.sum_eq_zero_iff_forall_eq_nat]
  constructor
  · intro h b hb
    by_contra hHit
    obtain ⟨before, after, -, hChange⟩ := changeLine_hits value (by simpa using hHit)
    have hZero := h _ (List.mem_map.mpr ⟨b, hb, rfl⟩)
    rw [hChange] at hZero
    cases hZero
  · intro h n hn
    obtain ⟨b, hb, rfl⟩ := List.mem_map.mp hn
    rw [changeLine_not_hits (h b hb)]

theorem findValue_of_find (h : cfg.entries.find? (fun e => e.1 = name) = some (name, value)) :
    ∀ d, cfg.getString name d = value := by
  intro d
  rw [getString, findValue, h]
  rfl

section Calls

variable {file : Option Text} {writable : Bool}

theorem changeConfigValue_of_zero (h : cfg.changeConfigLine file writable name value = (0, cfg, file)) :
    cfg.changeConfigValue file writable name value =
      if writable then (1, { cfg with entries := cfg.entries ++ [(name, value)] },
        some (file.getD [] ++ (name ++ cfg.parmID ++ value ++ ['\n'])))
      else (0, cfg, file) := by
  rw [changeConfigValue, h]
  cases writable
  · rfl
  · rfl

theorem changeConfigLine_none (hNone : ∀ b ∈ blocks (file.getD []), cfg.hits name b.joined = false) :
    cfg.changeConfigLine file writable name value = (0, cfg, file) := by
  cases file with
  | none => rfl
  | some content =>
    rw [changeConfigLine]
    dsimp only
    rw [if_pos ((numProcessed_eq_zero_iff content).mpr hNone)]

theorem changeConfigLine_readOnly : cfg.changeConfigLine file false name value = (0, cfg, file) := by
  cases file with
  | none => rfl
  | some content =>
    rw [changeConfigLine]
    dsimp only
    rw [Bool.not_false, if_pos rfl, ite_self]

theorem changeConfigValue_rewritten (value : Text) {content : Text}
    (hHit : ∃ b ∈ blocks content, cfg.hits name b.joined = true) :
    ∃ n, cfg.changeConfigValue (some content) true name value = (n + 1,
      (cfg.reLoad (some (unlines '\n' (cfg.changeLines name value [] (linesOf '\n' content)).1))).1,
      some (unlines '\n' (cfg.changeLines name value [] (linesOf '\n' content)).1)) := by
  have hSome : (cfg.changeLines name value [] (linesOf '\n' content)).2 ≠ 0 := by
    intro hZero
    obtain ⟨b, hb, hHit⟩ := hHit
    rw [(numProcessed_eq_zero_iff content).mp hZero b hb] at hHit
    cases hHit
  obtain ⟨n, hn⟩ := Nat.exists_eq_succ_of_ne_zero hSome
  refine ⟨n, ?_⟩
  rw [changeConfigValue, changeConfigLine]
  dsimp only
  rw [if_neg hSome, Bool.not_true, if_neg Bool.false_ne_true, hn]
  rfl

theorem entries_of_loaded (hLoaded : (cfg.reLoad file).1 = cfg) :
    cfg.entries = cfg.entriesOf (linesOf '\n' (file.getD [])) := by
  cases file with
  | none =>
    rw [← hLoaded]
    rfl
  | some content =>
    have hEntries := congrArg Config.entries hLoaded
    rw [reLoad_entries] at hEntries
    exact hEntries.symm

theorem findValue_eq {cfg cfg' : Config} {m : Text}
    (h : cfg'.entries.find? (fun e => e.1 = m) = cfg.entries.find? (fun e => e.1 = m)) :
    cfg'.findValue m = cfg.findValue m := by
  rw [findValue, findValue, h]

/-- What is left to be shown of a call, by the file and the parameters after it. -/
theorem changeRight_of {n : Nat} {content : Text} {es : List (Text × Text)}
    (hResult : cfg.changeConfigValue file writable name value =
      (n, { cfg with entries := es }, some content))
    (hLines : cfg.entriesOf (linesOf '\n' content) = es)
    (hFound : es.find? (fun e => e.1 = name) = some (name, value))
    (hOthers : ∀ m, m ≠ name → es.find? (fun e => e.1 = m) = cfg.entries.find? fun e => e.1 = m)
    (hKept : (((linesOf '\n' (file.getD [])).map popReturn).filter fun l => Kept cfg l).Sublist
      ((linesOf '\n' content).map popReturn)) : ChangeRight cfg file writable name value := by
  intro _
  have hReload : ((({ cfg with entries := es } : Config).reLoad (some content)).1) =
      { cfg with entries := es } := by
    rw [reLoad_entries]
    exact congrArg (fun es => { cfg with entries := es }) hLines
  rw [hResult]
  refine ⟨content, rfl, findValue_of_find hFound, ?_, ?_, hKept⟩
  · rw [hReload]
    exact findValue_of_find hFound
  · intro m hm
    rw [hReload]
    exact ⟨findValue_eq (hOthers m hm), findValue_eq (hOthers m hm)⟩

theorem changeRight_hit {content : Text} (hLoaded : (cfg.reLoad (some content)).1 = cfg)
    (hName : Plain cfg name) (hNe : name ≠ []) (hValue : Plain cfg value)
    (hSafe : Safe cfg content name value) (hHit : ∃ b ∈ blocks content, cfg.hits name b.joined = true) :
    ChangeRight cfg (some content) true name value := by
  obtain ⟨n, hResult⟩ := changeConfigValue_rewritten value hHit
  obtain ⟨hFound, hOthers, hKept⟩ := rewritten hName hNe hValue hSafe hHit
  have hLines : linesOf '\n' (unlines '\n' (cfg.changeLines name value [] (linesOf '\n' content)).1) =
      cfg.newLines content name value := by
    rw [unlines_changeLines hSafe.own]
    exact linesOf_unlines (noBreak_newLines hName hValue hSafe.sign hSafe.own)
  rw [reLoad_entries, hLines] at hResult
  apply changeRight_of hResult
  · rw [hLines]
  · exact hFound
  · intro m hm
    rw [entries_of_loaded hLoaded]
    exact hOthers m hm
  · rw [hLines]
    exact hKept

theorem changeRight_append (hLoaded : (cfg.reLoad file).1 = cfg)
    (hName : Plain cfg name) (hNe : name ≠ []) (hValue : Plain cfg value)
    (hSafe : Safe cfg (file.getD []) name value)
    (hNone : ∀ b ∈ blocks (file.getD []), cfg.hits name b.joined = false) :
    ChangeRight cfg file true name value := by
  have hLine : cfg.changeConfigLine file true name value = (0, cfg, file) := changeConfigLine_none hNone
  have hResult := changeConfigValue_of_zero hLine
  obtain ⟨hLines, hEntry, hNot⟩ := appended hName hNe hValue hSafe hNone
  have hEntries := entries_of_loaded hLoaded
  rw [if_pos rfl] at hResult
  apply changeRight_of hResult
  · rw [hLines, entriesOf_append, ← hEntries, entriesOf, List.filterMap_cons_some hEntry,
      List.filterMap_nil]
  · rw [hEntries, List.find?_append, hNot, List.find?_cons_of_pos (by simp)]
    rfl
  · intro m hm
    rw [List.find?_append, List.find?_cons_of_neg (by simpa using Ne.symm hm), List.find?_nil,
      Option.or_none]
  · rw [hLines, List.map_append]
    exact List.filter_sublist.trans (List.sublist_append_left _ _)

end Calls

/-- A file with a comment and one parameter, as it is after `Load`. -/
def portConfig : Config := ⟨['='], '#', true, [("port".toList, "80".toList)]⟩

end Config

end DataReel
