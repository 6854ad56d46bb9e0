import DataReel.Config.Entries

/-! # Continued lines

`ChangeConfigLine` takes a line together with the lines before it that end with a backslash, and looks
for the name anywhere in all of them. `Load` takes each line by itself.
-/

namespace DataReel

/-- A line and the lines before it that it continues. -/
structure ConfigBlock where
  front : List Text
  last : Text
  deriving DecidableEq, Repr

namespace ConfigBlock

variable (b : ConfigBlock)

def pending : Text := unlines '\n' b.front

def joined : Text := b.pending ++ b.last

def lines : List Text := b.front ++ [b.last]

end ConfigBlock

namespace Config

variable {cfg : Config} {name value l : Text}

/-- The blocks that the loop comes to, and the lines left at the end of the file that continue. -/
def blocksFrom : List Text → List Text → List ConfigBlock × List Text
  | front, [] => ([], front)
  | front, raw :: raws =>
    if (popReturns raw).getLast? = some '\\' then blocksFrom (front ++ [popReturns raw]) raws
    else
      let r := blocksFrom [] raws
      (⟨front, popReturns raw⟩ :: r.1, r.2)

def blocks (content : Text) : List ConfigBlock := (blocksFrom [] (linesOf '\n' content)).1

def unfinished (content : Text) : List Text := (blocksFrom [] (linesOf '\n' content)).2

/-- The name is found with a space or the sign behind it, and there is a sign. -/
def hits (cfg : Config) (name line : Text) : Bool :=
  match cutAt name line, cutAt cfg.parmID line with
  | some (_, after), some _ =>
    !after.isEmpty && (after.head? = some ' ' || cfg.parmID.isPrefixOf after)
  | _, _ => false

theorem changeLine_not_hits (h : cfg.hits name l = false) : cfg.changeLine name value l = (l, 0) := by
  unfold hits at h
  unfold changeLine
  split
  · next hName hSign =>
    rw [hName, hSign] at h
    rw [if_neg]
    intro hHit
    simp only [Bool.and_eq_false_iff, Bool.or_eq_false_iff, decide_eq_false_iff_not] at h
    rcases h with h | ⟨hSpace, hSign⟩
    · exact absurd hHit.1 (by simp [h])
    · rcases hHit.2 with hHit | hHit
      · exact hSpace hHit
      · rw [hSign] at hHit
        cases hHit
  · rfl

theorem changeLine_hits (value : Text) (h : cfg.hits name l = true) : ∃ before after,
    cutAt name l = some (before, after) ∧
      cfg.changeLine name value l = (before ++ name ++ cfg.parmID ++ value, 1) := by
  unfold hits at h
  split at h
  · next before after _ hName hSign =>
    refine ⟨before, after, hName, ?_⟩
    rw [Bool.and_eq_true, Bool.or_eq_true, decide_eq_true_eq] at h
    unfold changeLine
    rw [hName, hSign]
    exact if_pos h
  · cases h

theorem unlines_isEmpty (front : List Text) : (unlines '\n' front).isEmpty = front.isEmpty := by
  cases front with
  | nil => rfl
  | cons l front =>
    rw [unlines_cons]
    cases l <;> rfl

/-- The loop changes each block by itself. -/
theorem changeLines_eq (front raws : List Text) :
    cfg.changeLines name value (unlines '\n' front) raws =
      ((blocksFrom front raws).1.map (fun b => (cfg.changeLine name value b.joined).1) ++
          (if (blocksFrom front raws).2.isEmpty then []
            else [unlines '\n' (blocksFrom front raws).2]),
        ((blocksFrom front raws).1.map fun b => (cfg.changeLine name value b.joined).2).sum) := by
  induction raws generalizing front with
  | nil =>
    rw [changeLines, blocksFrom, unlines_isEmpty]
    rfl
  | cons raw raws ih =>
    rw [changeLines, blocksFrom]
    dsimp only
    split
    · have hMore : unlines '\n' front ++ popReturns raw ++ ['\n'] =
          unlines '\n' (front ++ [popReturns raw]) := by
        rw [unlines_append, unlines_singleton, List.append_assoc]
      rw [hMore, ih]
    · have hRest := ih []
      rw [unlines_nil] at hRest
      rw [hRest]
      rfl

theorem lines_blocksFrom (front raws : List Text) :
    front ++ raws.map popReturns =
      (blocksFrom front raws).1.flatMap ConfigBlock.lines ++ (blocksFrom front raws).2 := by
  induction raws generalizing front with
  | nil =>
    rw [blocksFrom, List.map_nil, List.append_nil]
    rfl
  | cons raw raws ih =>
    rw [blocksFrom]
    split
    · rw [← ih, List.map_cons, List.append_assoc, List.singleton_append]
    · have hRest := ih []
      rw [List.nil_append] at hRest
      rw [List.map_cons, List.flatMap_cons, List.append_assoc, ← hRest, ConfigBlock.lines, List.append_assoc,
        List.singleton_append]

/-- The lines of the file without the carriage returns at their ends. -/
theorem lines_content (content : Text) : (linesOf '\n' content).map popReturns =
    (blocks content).flatMap ConfigBlock.lines ++ unfinished content := by
  have hLines := lines_blocksFrom [] (linesOf '\n' content)
  rwa [List.nil_append] at hLines

theorem popReturns_noBreak (h : '\n' ∉ l) : '\n' ∉ popReturns l :=
  fun hMem => h ((List.rdropWhile_prefix _ l).subset hMem)

theorem noBreak_lines {content : Text} (hl : l ∈ (blocks content).flatMap ConfigBlock.lines ++ unfinished content) :
    '\n' ∉ l := by
  rw [← lines_content] at hl
  obtain ⟨raw, hRaw, rfl⟩ := List.mem_map.mp hl
  exact popReturns_noBreak (not_mem_linesOf raw hRaw)

theorem popReturn_of_popReturns (l : Text) : popReturn (popReturns l) = popReturns l := by
  unfold popReturn
  split
  · next hLast =>
    obtain ⟨t, ht⟩ := List.getLast?_eq_some_iff.mp hLast
    have hStays := List.rdropWhile_idempotent (fun c => c = '\r' || c = '\n') l
    change popReturns (popReturns l) = popReturns l at hStays
    have hDrops : popReturns (popReturns l) = popReturns t := by
      rw [ht]
      exact List.rdropWhile_concat_pos _ t '\r' rfl
    have hShort := (List.rdropWhile_prefix (p := fun c => c = '\r' || c = '\n') t).length_le
    have hLength := congrArg List.length (hDrops.symm.trans hStays)
    rw [ht, List.length_append, List.length_singleton] at hLength
    change (popReturns t).length ≤ t.length at hShort
    omega
  · rfl

theorem popReturn_lines {content : Text}
    (hl : l ∈ (blocks content).flatMap ConfigBlock.lines ++ unfinished content) : popReturn l = l := by
  rw [← lines_content] at hl
  obtain ⟨raw, -, rfl⟩ := List.mem_map.mp hl
  exact popReturn_of_popReturns raw

/-- A line with at most one carriage return at its end. -/
theorem popReturns_eq (hBreak : '\n' ∉ l) (h : (popReturn l).getLast? ≠ some '\r') :
    popReturns l = popReturn l := by
  have hStays {t : Text} (hMem : '\n' ∉ t) (hLast : t.getLast? ≠ some '\r') : popReturns t = t := by
    apply List.rdropWhile_eq_self_iff.mpr
    intro hNe hEnd
    rw [List.getLast?_eq_some_getLast hNe] at hLast
    rw [Bool.or_eq_true, decide_eq_true_eq, decide_eq_true_eq] at hEnd
    rcases hEnd with hEnd | hEnd
    · exact hLast (congrArg some hEnd)
    · exact hMem (hEnd ▸ List.getLast_mem hNe)
  unfold popReturn at h ⊢
  split
  · next hLast =>
    rw [if_pos hLast] at h
    obtain ⟨t, rfl⟩ := List.getLast?_eq_some_iff.mp hLast
    rw [List.dropLast_concat] at h ⊢
    have hDrop : popReturns (t ++ ['\r']) = popReturns t := List.rdropWhile_concat_pos _ t '\r' rfl
    rw [hDrop]
    exact hStays (fun hMem => hBreak (List.mem_append_left _ hMem)) h
  · next hLast => exact hStays hBreak hLast

end Config

end DataReel
