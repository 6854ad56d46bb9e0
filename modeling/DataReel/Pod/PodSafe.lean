import DataReel.Pod.PodManager
import Mathlib.Data.List.Basic

/-! # What the calls of the POD manager keep

The entries in use lie below `POD_MAX_INDEX` and are not null. Each function
has one lemma here that says how it ends.
-/

namespace DataReel

/-- The entries in use are there. -/
structure PodIndexFile.Safe (ix : PodIndexFile) : Prop where
  bounded : ix.nIndexes ≤ podMaxIndex
  present : ∀ i < ix.nIndexes, ∃ e, ix.indexFile i = some e

theorem PodIndexFile.Safe.set {ix : PodIndexFile} (hx : ix.Safe) (i : Nat) (e : PodIndexEntry) :
    (ix.set i e).Safe where
  bounded := hx.bounded
  present j hj := by
    change ∃ e', (if j = i then some e else ix.indexFile j) = some e'
    split_ifs
    · exact ⟨e, rfl⟩
    · exact hx.present j hj

namespace PodManager

open Program

variable {env : Environment PodAnswer} {s t : Dialogue PodAnswer PodManager} {i : Nat}
  {ix : PodIndexFile} {e : PodIndexEntry}

def Safe (p : PodManager) : Prop := ∀ ix, p.openIndexFile = some ix → ix.Safe

section Entries

variable {Q : Option PodIndexEntry → Dialogue PodAnswer PodManager → Prop}

theorem entry_runs (hi : i < podMaxIndex) (hQ : Q (ix.indexFile i) s) : Runs (entry ix i) s Q := by
  rw [entry, if_neg (Nat.not_le.mpr hi)]
  exact runs_pure.mpr hQ

theorem deref_runs {Q : PodIndexEntry → Dialogue PodAnswer PodManager → Prop}
    (hi : i < podMaxIndex) (he : ix.indexFile i = some e) (hQ : Q e s) : Runs (deref ix i) s Q := by
  rw [deref, runs_bind]
  refine entry_runs hi ?_
  rw [he]
  exact runs_pure.mpr hQ

/-- The tree of an index, where there is one. -/
def tree (p : PodManager) (i : Nat) : Option IndexTree := do
  let ix ← p.openIndexFile
  if i < ix.nIndexes then (← ix.indexFile i).btree else none

theorem index_runs {Q : Option IndexTree → Dialogue PodAnswer PodManager → Prop}
    (hs : s.state.Safe) (hQ : Q (s.state.tree i) s) : Runs (index i) s Q := by
  rw [index, runs_bind, runs_read]
  cases hIndex : s.state.openIndexFile with
  | none =>
    rw [tree, hIndex] at hQ
    exact runs_pure.mpr hQ
  | some ix =>
    have hx := hs ix hIndex
    rw [tree, hIndex, Option.bind_eq_bind, Option.bind_some] at hQ
    dsimp only
    split_ifs with hi
    · rw [if_neg (Nat.not_lt.mpr hi)] at hQ
      exact runs_pure.mpr hQ
    · rw [Nat.not_le] at hi
      rw [if_pos hi] at hQ
      rw [runs_bind]
      refine entry_runs (Nat.lt_of_lt_of_le hi hx.bounded) ?_
      obtain ⟨e, he⟩ := hx.present i hi
      rw [he] at hQ ⊢
      exact runs_pure.mpr hQ

theorem getIndexFileError_runs {Q : Nat → Dialogue PodAnswer PodManager → Prop}
    (hs : s.state.Safe) (hQ : Q ((s.state.tree i).elim noDatabaseOpen IndexTree.error) s) :
    Runs (getIndexFileError i) s Q := by
  rw [getIndexFileError, runs_bind]
  refine index_runs hs ?_
  cases hTree : s.state.tree i with
  | none =>
    rw [hTree] at hQ
    exact runs_pure.mpr hQ
  | some t =>
    rw [hTree] at hQ
    exact runs_pure.mpr hQ

end Entries

/-- The number of indexes in use, where there is an index object. -/
def count (p : PodManager) : Option Nat := p.openIndexFile.map PodIndexFile.nIndexes

/-- An index object, where there is one, has index `i`. -/
def InUse (p : PodManager) (i : Nat) : Prop := ∀ n, p.count = some n → i < n

theorem InUse.lt {p : PodManager} (hi : p.InUse i) (hIndex : p.openIndexFile = some ix) :
    i < ix.nIndexes := hi _ (by rw [count, hIndex]; rfl)

theorem inUse_of_count {p : PodManager} {n : Nat} (hCount : p.count = some n) (hi : i < n) :
    p.InUse i := by
  intro m hm
  rw [hCount] at hm
  obtain rfl := Option.some.inj hm
  exact hi

/-- What the calls on one index leave as it was. -/
structure Kept (s t : Dialogue PodAnswer PodManager) : Prop where
  safe : t.state.Safe
  usingIndex : t.state.usingIndex = s.state.usingIndex
  openDataFile : t.state.openDataFile = s.state.openDataFile
  count : t.state.count = s.state.count
  trace : s.trace <:+ t.trace

theorem Kept.inUse (h : Kept s t) (hi : s.state.InUse i) : t.state.InUse i :=
  fun n hCount => hi n (h.count.symm.trans hCount)

theorem Kept.refl (hs : s.state.Safe) : Kept s s := ⟨hs, rfl, rfl, rfl, List.suffix_rfl⟩

theorem Kept.trans {u : Dialogue PodAnswer PodManager} (h : Kept s t) (h' : Kept t u) : Kept s u where
  safe := h'.safe
  usingIndex := h'.usingIndex.trans h.usingIndex
  openDataFile := h'.openDataFile.trans h.openDataFile
  count := h'.count.trans h.count
  trace := h.trace.trans h'.trace

section Trees

/-- The handle with another entry in its index object. -/
def putEntry (ix : PodIndexFile) (i : Nat) (e : PodIndexEntry) (p : PodManager) : PodManager :=
  { p with openIndexFile := some (ix.set i e) }

theorem setEntry_runs {Q : Unit → Dialogue PodAnswer PodManager → Prop}
    (hIndex : s.state.openIndexFile = some ix)
    (hQ : Q () { s with state := s.state.putEntry ix i e }) : Runs (setEntry i e) s Q := by
  rw [setEntry, runs_update, hIndex]
  exact hQ

theorem tree_putEntry {p : PodManager} (hi : i < ix.nIndexes) :
    (p.putEntry ix i e).tree i = e.btree := by
  simp only [tree, putEntry, PodIndexFile.set, Option.bind_eq_bind, Option.bind_some, if_pos hi,
    if_true]

theorem tree_putEntry_ne {p : PodManager} {j : Nat} (hIndex : p.openIndexFile = some ix)
    (hj : j ≠ i) : (p.putEntry ix i e).tree j = p.tree j := by
  simp only [tree, putEntry, PodIndexFile.set, hIndex, Option.bind_eq_bind, Option.bind_some,
    if_neg hj]

theorem tree_eq_of_entry {p : PodManager} (hIndex : p.openIndexFile = some ix)
    (hi : i < ix.nIndexes) (he : ix.indexFile i = some e) : p.tree i = e.btree := by
  simp only [tree, hIndex, Option.bind_eq_bind, Option.bind_some, if_pos hi, he]

theorem tree_putEntry_same {p : PodManager} {e' : PodIndexEntry} (hIndex : p.openIndexFile = some ix)
    (hi : i < ix.nIndexes) (he : ix.indexFile i = some e) (hSame : e'.btree = e.btree) (j : Nat) :
    (p.putEntry ix i e').tree j = p.tree j := by
  by_cases hj : j = i
  · rw [hj, tree_putEntry hi, tree_eq_of_entry hIndex hi he, hSame]
  · exact tree_putEntry_ne hIndex hj

theorem kept_putEntry {trace : List (Sigma PodAnswer)} (hs : s.state.Safe)
    (hIndex : s.state.openIndexFile = some ix) (hTrace : s.trace <:+ trace) :
    Kept s { state := s.state.putEntry ix i e, trace := trace } where
  safe := by
    rintro ix' hEq
    obtain rfl := Option.some.inj hEq
    exact (hs ix hIndex).set i e
  usingIndex := rfl
  openDataFile := rfl
  count := by rw [PodManager.count, PodManager.count, hIndex]; rfl
  trace := hTrace

theorem closeIndex_runs (hs : s.state.Safe) :
    Runs (closeIndex env i) s fun r t =>
      Kept s t ∧ (r ≠ noError → ∃ btree, t.state.tree i = some btree ∧ btree.error = r) := by
  have hDone : Runs (pure noError : PodM Nat) s fun r t =>
      Kept s t ∧ (r ≠ noError → ∃ btree, t.state.tree i = some btree ∧ btree.error = r) :=
    runs_pure.mpr ⟨Kept.refl hs, fun h => absurd rfl h⟩
  rw [closeIndex, runs_bind, runs_read]
  cases hIndex : s.state.openIndexFile with
  | none => exact hDone
  | some ix =>
    have hx := hs ix hIndex
    dsimp only
    split_ifs with hi
    · exact hDone
    · rw [Nat.not_le] at hi
      rw [runs_bind]
      refine entry_runs (Nat.lt_of_lt_of_le hi hx.bounded) ?_
      obtain ⟨e, he⟩ := hx.present i hi
      rw [he]
      dsimp only
      cases hTree : e.btree with
      | none => exact hDone
      | some btree =>
        dsimp only
        rw [runs_bind, runs_ask, runs_bind]
        refine setEntry_runs hIndex ?_
        have hKept := kept_putEntry (i := i)
          (e := { e with btree := some { btree with error := env s.trace (.closeTree i) } })
          hs hIndex (List.suffix_cons ⟨_, env s.trace (.closeTree i)⟩ s.trace)
        split_ifs with hErr
        · refine getIndexFileError_runs hKept.safe ?_
          dsimp only
          rw [tree_putEntry hi]
          exact ⟨hKept, fun _ => ⟨_, rfl, rfl⟩⟩
        · rw [runs_bind]
          refine setEntry_runs rfl ?_
          refine runs_pure.mpr ⟨hKept.trans ?_, fun h => absurd rfl h⟩
          exact kept_putEntry hKept.safe rfl List.suffix_rfl

theorem closeIndex_runs_of_none {Q : Nat → Dialogue PodAnswer PodManager → Prop}
    (hs : s.state.Safe) (hTree : s.state.tree i = none) (hQ : Q noError s) :
    Runs (closeIndex env i) s Q := by
  rw [closeIndex, runs_bind, runs_read]
  cases hIndex : s.state.openIndexFile with
  | none => exact runs_pure.mpr hQ
  | some ix =>
    have hx := hs ix hIndex
    dsimp only
    split_ifs with hi
    · exact runs_pure.mpr hQ
    · rw [Nat.not_le] at hi
      rw [runs_bind]
      refine entry_runs (Nat.lt_of_lt_of_le hi hx.bounded) ?_
      obtain ⟨e, he⟩ := hx.present i hi
      rw [tree_eq_of_entry hIndex hi he] at hTree
      rw [he]
      dsimp only
      rw [hTree]
      exact runs_pure.mpr hQ

end Trees

section Close

theorem closeDataFile_runs :
    Runs (closeDataFile env) s fun r t =>
      ∃ d, t.state = { s.state with openDataFile := d } ∧ s.trace <:+ t.trace ∧
        if r = noError then d = none else d = some r := by
  rw [closeDataFile, runs_bind, runs_read]
  cases hData : s.state.openDataFile with
  | none =>
    refine runs_pure.mpr ⟨none, ?_, List.suffix_rfl, by rw [if_pos rfl]⟩
    rw [← hData]
  | some err =>
    dsimp only
    rw [runs_bind, runs_ask, runs_bind, runs_update]
    have hTrace := List.suffix_cons (⟨_, env s.trace .closeData⟩ : Sigma PodAnswer) s.trace
    split_ifs with hErr
    · rw [getDataFileError, runs_bind, runs_read]
      exact runs_pure.mpr ⟨_, rfl, hTrace, by rw [if_neg hErr]⟩
    · rw [runs_bind, runs_update]
      exact runs_pure.mpr ⟨none, rfl, hTrace, by rw [if_pos rfl]⟩

def setCurrIndex (i : Nat) (p : PodManager) : PodManager :=
  { p with openIndexFile := p.openIndexFile.map fun ix => { ix with currIndex := i } }

theorem tree_setCurrIndex (i j : Nat) (p : PodManager) : (p.setCurrIndex i).tree j = p.tree j := by
  unfold tree setCurrIndex
  cases p.openIndexFile <;> rfl

theorem kept_setCurrIndex (i : Nat) (hs : s.state.Safe) :
    Kept s { s with state := s.state.setCurrIndex i } where
  safe ix hEq := by
    obtain ⟨ix', hIndex, rfl⟩ := Option.map_eq_some_iff.mp hEq
    exact ⟨(hs ix' hIndex).bounded, (hs ix' hIndex).present⟩
  usingIndex := rfl
  openDataFile := rfl
  count := by
    change Option.map _ (Option.map _ _) = _
    rw [Option.map_map]
    rfl
  trace := List.suffix_rfl

theorem closeIndexes_runs (is : List Nat) (hs : s.state.Safe) :
    Runs (closeIndexes env is) s fun r t => Kept s t ∧ r ≠ some noError := by
  induction is generalizing s with
  | nil => exact runs_pure.mpr ⟨Kept.refl hs, nofun⟩
  | cons i is ih =>
    rw [closeIndexes]
    refine (closeIndex_runs hs).bind fun r t ht => ?_
    obtain ⟨hKept, hError⟩ := ht
    split_ifs with hr
    · rw [runs_bind, runs_update, runs_bind]
      have hKept' := hKept.trans (kept_setCurrIndex i hKept.safe)
      refine getIndexFileError_runs hKept'.safe (runs_pure.mpr ⟨hKept', fun hEq => ?_⟩)
      obtain ⟨btree, hTree, rfl⟩ := hError hr
      have hElim : ((t.state.setCurrIndex i).tree i).elim _ _ = _ := Option.some.inj hEq
      rw [tree_setCurrIndex, hTree] at hElim
      exact hr hElim
    · exact (ih hKept.safe).mono fun r' u hu => ⟨hKept.trans hu.1, hu.2⟩

theorem deleteEntries_runs {Q : Unit → Dialogue PodAnswer PodManager → Prop} {is : List Nat}
    (his : ∀ i ∈ is, i < podMaxIndex) (hQ : Q () s) : Runs (deleteEntries ix is) s Q := by
  induction is with
  | nil => exact runs_pure.mpr hQ
  | cons i is ih =>
    rw [deleteEntries, runs_bind]
    refine entry_runs (his i List.mem_cons_self) ?_
    exact ih fun j hj => his j (List.mem_cons_of_mem i hj)

/-- What closing leaves; without an error there is no index object any more. -/
theorem closeIndexFile_runs (hs : s.state.Safe) :
    Runs (closeIndexFile env) s fun r t =>
      t.state.Safe ∧ t.state.usingIndex = s.state.usingIndex ∧
        t.state.openDataFile = s.state.openDataFile ∧ s.trace <:+ t.trace ∧
        (r = noError → t.state.openIndexFile = none) := by
  rw [closeIndexFile, runs_bind, runs_read]
  cases hIndex : s.state.openIndexFile with
  | none => exact runs_pure.mpr ⟨hs, rfl, rfl, List.suffix_rfl, fun _ => hIndex⟩
  | some ix =>
    dsimp only
    refine (closeIndexes_runs _ hs).bind fun r t ht => ?_
    obtain ⟨hKept, hr⟩ := ht
    cases r with
    | some err =>
      refine runs_pure.mpr ⟨hKept.safe, hKept.usingIndex, hKept.openDataFile, hKept.trace, ?_⟩
      exact fun hErr => absurd (congrArg some hErr) hr
    | none =>
      dsimp only
      rw [runs_bind]
      refine deleteEntries_runs (fun i hi => ?_) ?_
      · exact Nat.lt_of_lt_of_le (List.mem_range.mp hi) (hs ix hIndex).bounded
      · rw [runs_bind, runs_update]
        exact runs_pure.mpr ⟨nofun, hKept.usingIndex, hKept.openDataFile, hKept.trace, fun _ => rfl⟩

theorem close_runs (hs : s.state.Safe) :
    Runs (close env) s fun r t =>
      t.state.Safe ∧ t.state.usingIndex = s.state.usingIndex ∧ s.trace <:+ t.trace ∧
        (r = noError → t.state.openDataFile = none ∧ t.state.openIndexFile = none) := by
  rw [close]
  refine closeDataFile_runs.bind fun r t ht => ?_
  obtain ⟨d, hState, hTrace, hd⟩ := ht
  have hSafe : t.state.Safe := by
    rw [hState]
    exact hs
  split_ifs with hr
  · rw [if_neg hr] at hd
    rw [getDataFileError, runs_bind, runs_read, hState, hd]
    refine runs_pure.mpr ⟨hSafe, ?_, hTrace, fun h => absurd h hr⟩
    rw [hState]
  · rw [if_pos (not_not.mp hr)] at hd
    refine (closeIndexFile_runs hSafe).mono fun r' u hu => ?_
    obtain ⟨hu, hUsing, hData, hTrace', hIndex⟩ := hu
    refine ⟨hu, ?_, hTrace.trans hTrace', fun hr' => ⟨?_, hIndex hr'⟩⟩
    · rw [hUsing, hState]
    · rw [hData, hState, hd]

end Close

section Attach

theorem placeTree_runs {r : PodRequest} (hs : s.state.Safe)
    (hIndex : s.state.openIndexFile = some ix) (hi : i < ix.nIndexes)
    (he : ix.indexFile i = some e) :
    Runs (placeTree env ix i r) s fun err t =>
      t = { state := s.state.putEntry ix i
              { e with btree := some { isOpen := err = noError, error := err } },
            trace := ⟨r, err⟩ :: s.trace } := by
  rw [placeTree, runs_bind]
  refine deref_runs (Nat.lt_of_lt_of_le hi (hs ix hIndex).bounded) he ?_
  rw [runs_bind, runs_ask, runs_bind]
  exact setEntry_runs hIndex (runs_pure.mpr rfl)

theorem placeTree_kept {r : PodRequest} (hs : s.state.Safe)
    (hIndex : s.state.openIndexFile = some ix) (hi : i < ix.nIndexes) :
    Runs (placeTree env ix i r) s fun _ t => Kept s t := by
  obtain ⟨e, he⟩ := (hs ix hIndex).present i hi
  refine (placeTree_runs hs hIndex hi he).mono fun err t ht => ?_
  rw [ht]
  exact kept_putEntry hs hIndex (List.suffix_cons _ _)

theorem createIndex_kept {fname : String} (hs : s.state.Safe)
    (hi : s.state.InUse i) :
    Runs (createIndex env fname i) s fun _ t => Kept s t := by
  rw [createIndex]
  refine (closeIndex_runs hs).bind fun r t ht => ?_
  obtain ⟨hKept, -⟩ := ht
  split_ifs with hr
  · exact getIndexFileError_runs hKept.safe hKept
  · rw [runs_bind, runs_read]
    cases hIndex : t.state.openIndexFile with
    | none =>
      dsimp only
      rw [runs_ask]
      exact hKept.trans ⟨hKept.safe, rfl, rfl, rfl, List.suffix_cons _ _⟩
    | some ix =>
      have hLt := (hKept.inUse hi).lt hIndex
      exact (placeTree_kept hKept.safe hIndex hLt).mono fun _ _ => hKept.trans

theorem openIndex_kept {fname : String} (hs : s.state.Safe) :
    Runs (openIndex env fname i) s fun _ t => Kept s t := by
  rw [openIndex]
  refine (closeIndex_runs hs).bind fun r t ht => ?_
  obtain ⟨hKept, -⟩ := ht
  split_ifs with hr
  · exact getIndexFileError_runs hKept.safe hKept
  · rw [runs_bind, runs_read]
    cases hIndex : t.state.openIndexFile with
    | none => exact runs_pure.mpr hKept
    | some ix =>
      dsimp only
      split_ifs with hi
      · exact runs_pure.mpr hKept
      · rw [Nat.not_le] at hi
        have hx := hKept.safe ix hIndex
        rw [runs_bind]
        refine entry_runs (Nat.lt_of_lt_of_le hi hx.bounded) ?_
        obtain ⟨e, he⟩ := hx.present i hi
        rw [he]
        exact (placeTree_kept hKept.safe hIndex hi).mono fun _ _ => hKept.trans

/-- A new tree was put into the index; `r` is what opening or creating its file returned. -/
structure Attached (i r : Nat) (s t : Dialogue PodAnswer PodManager) : Prop where
  kept : Kept s t
  tree : t.state.tree i = some { isOpen := r = noError, error := r }
  others : ∀ j, j ≠ i → t.state.tree j = s.state.tree j
  asked : ∃ q : PodRequest, q.attached = some i ∧ ⟨q, r⟩ ∈ Dialogue.since s t

theorem Attached.after {u : Dialogue PodAnswer PodManager} {r : Nat} (h : Attached i r t u)
    (hKept : Kept s t) (hTree : ∀ j, t.state.tree j = s.state.tree j) : Attached i r s u where
  kept := hKept.trans h.kept
  tree := h.tree
  others j hj := (h.others j hj).trans (hTree j)
  asked := by
    obtain ⟨q, hq, hMem⟩ := h.asked
    refine ⟨q, hq, ?_⟩
    rw [Dialogue.since_trans hKept.trace h.kept.trace]
    exact List.mem_append_left _ hMem

theorem exists_entry (hs : s.state.Safe) (hTree : s.state.tree i = none) {n : Nat}
    (hCount : s.state.count = some n) (hi : i < n) :
    ∃ ix e, s.state.openIndexFile = some ix ∧ i < ix.nIndexes ∧ ix.indexFile i = some e ∧
      e.btree = none := by
  obtain ⟨ix, hIndex, rfl⟩ := Option.map_eq_some_iff.mp hCount
  obtain ⟨e, he⟩ := (hs ix hIndex).present i hi
  exact ⟨ix, e, hIndex, hi, he, (tree_eq_of_entry hIndex hi he).symm.trans hTree⟩

theorem placeTree_attached {q : PodRequest} (hq : q.attached = some i) (hs : s.state.Safe)
    (hIndex : s.state.openIndexFile = some ix) (hi : i < ix.nIndexes)
    (he : ix.indexFile i = some e) :
    Runs (placeTree env ix i q) s fun r t => Attached i r s t := by
  refine (placeTree_runs hs hIndex hi he).mono fun r t ht => ?_
  have hTrace : t.trace = [⟨q, r⟩] ++ s.trace := by rw [ht]; rfl
  have hSince := Dialogue.since_of_eq hTrace
  subst ht
  exact
    { kept := kept_putEntry hs hIndex (List.suffix_cons _ _)
      tree := tree_putEntry hi
      others := fun j hj => tree_putEntry_ne hIndex hj
      asked := ⟨q, hq, by rw [hSince]; exact List.mem_singleton_self _⟩ }

variable {n : Nat} {fname : String}

theorem createIndex_attached (hs : s.state.Safe) (hTree : s.state.tree i = none)
    (hCount : s.state.count = some n) (hi : i < n) :
    Runs (createIndex env fname i) s fun r t => Attached i r s t := by
  obtain ⟨ix, e, hIndex, hLt, he, -⟩ := exists_entry hs hTree hCount hi
  rw [createIndex, runs_bind]
  refine closeIndex_runs_of_none hs hTree ?_
  rw [if_neg (not_not.mpr rfl), runs_bind, runs_read, hIndex]
  exact placeTree_attached rfl hs hIndex hLt he

theorem openIndex_attached (hs : s.state.Safe) (hTree : s.state.tree i = none)
    (hCount : s.state.count = some n) (hi : i < n) :
    Runs (openIndex env fname i) s fun r t => Attached i r s t := by
  obtain ⟨ix, e, hIndex, hLt, he, -⟩ := exists_entry hs hTree hCount hi
  rw [openIndex, runs_bind]
  refine closeIndex_runs_of_none hs hTree ?_
  rw [if_neg (not_not.mpr rfl), runs_bind, runs_read, hIndex]
  dsimp only
  rw [if_neg (Nat.not_le.mpr hLt), runs_bind]
  refine entry_runs (Nat.lt_of_lt_of_le hLt (hs ix hIndex).bounded) ?_
  rw [he]
  exact placeTree_attached rfl hs hIndex hLt he

/-- The flag is set where there is an entry; no tree changes. -/
theorem setRebuild_runs (hs : s.state.Safe) (hi : s.state.InUse i) :
    Runs (setRebuild i) s fun _ t => Kept s t ∧ ∀ j, t.state.tree j = s.state.tree j := by
  rw [setRebuild, runs_bind, runs_read]
  cases hIndex : s.state.openIndexFile with
  | none => exact runs_pure.mpr ⟨Kept.refl hs, fun _ => rfl⟩
  | some ix =>
    have hx := hs ix hIndex
    have hLt := hi.lt hIndex
    obtain ⟨e, he⟩ := hx.present i hLt
    dsimp only
    rw [runs_bind]
    refine deref_runs (Nat.lt_of_lt_of_le hLt hx.bounded) he ?_
    exact setEntry_runs hIndex
      ⟨kept_putEntry hs hIndex List.suffix_rfl, tree_putEntry_same hIndex hLt he rfl⟩

theorem attachIndex_kept (hs : s.state.Safe) (hi : s.state.InUse i) :
    Runs (attachIndex env fname i) s fun _ t => Kept s t := by
  rw [attachIndex, runs_bind, runs_ask]
  have hAsked : Kept s { s with trace := ⟨_, env s.trace (.fileExists fname)⟩ :: s.trace } :=
    ⟨hs, rfl, rfl, rfl, List.suffix_cons _ _⟩
  split_ifs with hFound
  · refine (setRebuild_runs hAsked.safe (hAsked.inUse hi)).bind fun _ t ht => ?_
    have hKept := hAsked.trans ht.1
    exact (createIndex_kept hKept.safe (hKept.inUse hi)).mono fun _ _ => hKept.trans
  · exact (openIndex_kept hAsked.safe).mono fun _ _ => hAsked.trans

theorem attachIndex_attached (hs : s.state.Safe) (hTree : s.state.tree i = none)
    (hCount : s.state.count = some n) (hi : i < n) :
    Runs (attachIndex env fname i) s fun r t => Attached i r s t := by
  rw [attachIndex, runs_bind, runs_ask]
  have hAsked : Kept s { s with trace := ⟨_, env s.trace (.fileExists fname)⟩ :: s.trace } :=
    ⟨hs, rfl, rfl, rfl, List.suffix_cons _ _⟩
  split_ifs with hFound
  · have hInUse := hAsked.inUse (inUse_of_count hCount hi)
    refine (setRebuild_runs hAsked.safe hInUse).bind fun _ t ht => ?_
    have hKept := hAsked.trans ht.1
    have hNone : t.state.tree i = none := (ht.2 i).trans hTree
    have hCount' := hKept.count.trans hCount
    exact (createIndex_attached hKept.safe hNone hCount' hi).mono fun r u hu => hu.after hKept ht.2
  · exact (openIndex_attached hAsked.safe hTree hCount hi).mono fun r u hu =>
      hu.after hAsked fun _ => rfl

end Attach

end PodManager

end DataReel
