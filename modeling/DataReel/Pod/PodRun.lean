import DataReel.Library.Machine
import DataReel.Pod.PodSafe

/-! # Runs of the POD manager

A run opens, flushes and closes a database in any order, with calls that may
fail anywhere. The conditions on its calls are those under which an `Open` that
reports success has what it was asked for, and `Flush` tells of every failure.
-/

namespace DataReel

/-- An index object all of whose trees are open. -/
structure PodIndexFile.Ready (ix : PodIndexFile) : Prop where
  bounded : ix.nIndexes ≤ podMaxIndex
  isOpen : ∀ i < ix.nIndexes,
    ∃ e btree, ix.indexFile i = some e ∧ e.btree = some btree ∧ btree.isOpen = true

theorem PodIndexFile.Ready.safe {ix : PodIndexFile} (h : ix.Ready) : ix.Safe where
  bounded := h.bounded
  present i hi := by
    obtain ⟨e, -, he, -⟩ := h.isOpen i hi
    exact ⟨e, he⟩

namespace PodManager

open Program

variable {env : Environment PodAnswer} {s t : Dialogue PodAnswer PodManager} {i n : Nat}
  {ix : PodIndexFile}

/-- `Index(i)` is an open B-tree. -/
def IsOpen (p : PodManager) (i : Nat) : Prop := ∃ btree, p.tree i = some btree ∧ btree.isOpen

/-- The file of an index other than the first was not opened or created. -/
def LaterFailure (is : List Nat) (e : Sigma PodAnswer) : Prop :=
  ∃ i ∈ is, 0 < i ∧ e.1.attached = some i ∧ e.2 ≠ noError

instance (is : List Nat) (e : Sigma PodAnswer) : Decidable (LaterFailure is e) :=
  inferInstanceAs (Decidable (∃ i ∈ is, _ ∧ _ ∧ _ ≠ _))

section Open

variable {found : Bool} {ifname : Nat → String} {fname dfname : String} {keySize order : Nat}

theorem attach_kept (hs : s.state.Safe) (hi : s.state.InUse i) :
    Runs (attach env found fname i) s fun _ t => Kept s t := by
  cases found
  · exact createIndex_kept hs hi
  · exact attachIndex_kept hs hi

theorem attach_attached (hs : s.state.Safe) (hTree : s.state.tree i = none)
    (hCount : s.state.count = some n) (hi : i < n) :
    Runs (attach env found fname i) s fun r t => Attached i r s t := by
  cases found
  · exact createIndex_attached hs hTree hCount hi
  · exact attachIndex_attached hs hTree hCount hi

theorem openIndexes_kept (is : List Nat) (hs : s.state.Safe) (his : ∀ i ∈ is, s.state.InUse i) :
    Runs (openIndexes env found ifname is) s fun _ t => Kept s t := by
  induction is generalizing s with
  | nil => exact runs_pure.mpr (Kept.refl hs)
  | cons i is ih =>
    rw [openIndexes]
    refine (attach_kept hs (his i List.mem_cons_self)).bind fun r t ht => ?_
    split_ifs with hr
    · exact getIndexFileError_runs ht.safe ht
    · refine (ih ht.safe fun j hj => ?_).mono fun _ _ => ht.trans
      exact ht.inUse (his j (List.mem_cons_of_mem i hj))

/-- New trees are put into the indexes; unless a later file fails, all of them are open
when no error is returned. -/
theorem openIndexes_runs (is : List Nat) (hs : s.state.Safe) (hCount : s.state.count = some n)
    (his : ∀ i ∈ is, i < n) (hTrees : ∀ i ∈ is, s.state.tree i = none) (hNodup : is.Nodup) :
    Runs (openIndexes env found ifname is) s fun r t =>
      Kept s t ∧ (∀ j ∉ is, t.state.tree j = s.state.tree j) ∧
        ((∃ e ∈ Dialogue.since s t, LaterFailure is e) ∨
          (r = noError → ∀ i ∈ is, t.state.IsOpen i)) := by
  induction is generalizing s with
  | nil =>
    exact runs_pure.mpr ⟨Kept.refl hs, fun _ _ => rfl, Or.inr fun _ i hi => by cases hi⟩
  | cons i is ih =>
    obtain ⟨hNew, hNodup⟩ := List.nodup_cons.mp hNodup
    rw [openIndexes]
    refine (attach_attached hs (hTrees i List.mem_cons_self) hCount
      (his i List.mem_cons_self)).bind fun r t ht => ?_
    split_ifs with hr
    · refine getIndexFileError_runs ht.kept.safe ⟨ht.kept, fun j hj => ?_, ?_⟩
      · exact ht.others j fun h => hj (h ▸ List.mem_cons_self)
      · rcases Nat.eq_zero_or_pos i with rfl | hPos
        · -- the error of the first index is that of this one
          rw [ht.tree]
          exact Or.inr fun h => absurd h hr
        · obtain ⟨q, hq, hMem⟩ := ht.asked
          exact Or.inl ⟨_, hMem, i, List.mem_cons_self, hPos, hq, hr⟩
    · rw [not_not] at hr
      refine (ih ht.kept.safe (ht.kept.count.trans hCount)
        (fun j hj => his j (List.mem_cons_of_mem i hj)) (fun j hj => ?_) hNodup).mono
        fun r' u hu => ?_
      · rw [ht.others j fun h => hNew (h ▸ hj)]
        exact hTrees j (List.mem_cons_of_mem i hj)
      · obtain ⟨hKept, hOthers, hResult⟩ := hu
        refine ⟨ht.kept.trans hKept, fun j hj => ?_, ?_⟩
        · rw [List.mem_cons, not_or] at hj
          exact (hOthers j hj.2).trans (ht.others j hj.1)
        · rcases hResult with ⟨e, hMem, j, hj, hLater⟩ | hOpen
          · refine Or.inl ⟨e, ?_, j, List.mem_cons_of_mem i hj, hLater⟩
            rw [Dialogue.since_trans ht.kept.trace hKept.trace]
            exact List.mem_append_left _ hMem
          · refine Or.inr fun hr' j hj => ?_
            rcases List.mem_cons.mp hj with rfl | hj
            · refine ⟨_, (hOthers j hNew).trans ht.tree, ?_⟩
              exact decide_eq_true hr
            · exact hOpen hr' j hj

theorem attachData_runs :
    Runs (attachData env found dfname) s fun r t =>
      ∃ d, t.state = { s.state with openDataFile := d } ∧ s.trace <:+ t.trace ∧
        (r ≠ noError → d = some r) := by
  have hClosed (q : PodRequest) : Runs (do
      if (← closeDataFile env) ≠ noError then getDataFileError
      else
        let err ← ask env q
        update fun p => { p with openDataFile := some err }
        return err) s fun r t =>
      ∃ d, t.state = { s.state with openDataFile := d } ∧ s.trace <:+ t.trace ∧
        (r ≠ noError → d = some r) := by
    refine closeDataFile_runs.bind fun r t ht => ?_
    obtain ⟨d, hState, hTrace, hd⟩ := ht
    split_ifs with hr
    · rw [if_neg hr] at hd
      rw [getDataFileError, runs_bind, runs_read, hState, hd]
      exact runs_pure.mpr ⟨_, by rw [hState, hd], hTrace, fun _ => rfl⟩
    · rw [runs_bind, runs_ask, runs_bind, runs_update, hState]
      exact runs_pure.mpr ⟨_, rfl, hTrace.trans (List.suffix_cons _ _), fun _ => rfl⟩
  cases found
  · exact hClosed _
  · exact hClosed _

/-- Everything but the data file is as it was. -/
def sameIndex (s t : Dialogue PodAnswer PodManager) : Prop :=
  t.state.openIndexFile = s.state.openIndexFile ∧ t.state.usingIndex = s.state.usingIndex ∧
    s.trace <:+ t.trace

theorem openFiles_runs {k : Bool → PodM Nat} {Q : Nat → Dialogue PodAnswer PodManager → Prop}
    (hFail : ∀ r t, sameIndex s t → r ≠ noError → Q r t)
    (hFiles : ∀ found t, sameIndex s t → Runs (k found) t Q) :
    Runs (openFiles env dfname k) s Q := by
  rw [openFiles, runs_bind, runs_ask]
  refine attachData_runs.bind fun r t ht => ?_
  obtain ⟨d, hState, hTrace, hd⟩ := ht
  have hTrace := (List.suffix_cons _ _).trans hTrace
  by_cases hr : r ≠ noError
  · rw [if_pos hr, getDataFileError, runs_bind, runs_read, hState, hd hr]
    exact runs_pure.mpr (hFail r t ⟨by rw [hState], by rw [hState], hTrace⟩ hr)
  · rw [if_neg hr, runs_bind, runs_update, hState]
    exact hFiles _ _ ⟨rfl, rfl, hTrace⟩

theorem initEntries_runs (is : List Nat) (hs : s.state.Safe) (his : ∀ i ∈ is, s.state.InUse i) :
    Runs (initEntries keySize order is) s fun _ t =>
      Kept s t ∧ ∀ j, t.state.tree j = s.state.tree j := by
  induction is generalizing s with
  | nil => exact runs_pure.mpr ⟨Kept.refl hs, fun _ => rfl⟩
  | cons i is ih =>
    rw [initEntries, runs_bind, runs_read]
    cases hIndex : s.state.openIndexFile with
    | none => exact runs_pure.mpr ⟨Kept.refl hs, fun _ => rfl⟩
    | some ix =>
      have hx := hs ix hIndex
      have hLt := (his i List.mem_cons_self).lt hIndex
      obtain ⟨e, he⟩ := hx.present i hLt
      dsimp only
      rw [runs_bind]
      refine deref_runs (Nat.lt_of_lt_of_le hLt hx.bounded) he ?_
      rw [runs_bind]
      refine setEntry_runs hIndex ?_
      have hKept : Kept s { s with
          state := s.state.putEntry ix i
            { e with dbkeySize := keySize, order := order, useIndex := 1 } } :=
        kept_putEntry hs hIndex List.suffix_rfl
      refine (ih hKept.safe fun j hj => ?_).mono fun _ t ht => ⟨hKept.trans ht.1, fun j => ?_⟩
      · exact hKept.inUse (his j (List.mem_cons_of_mem i hj))
      · rw [ht.2]
        refine tree_putEntry_same hIndex hLt he ?_ j
        rfl

theorem new_safe {n : Nat} (hn : n ≤ podMaxIndex) :
    { PodIndexFile.new n with nIndexes := n : PodIndexFile }.Safe where
  bounded := hn
  present i hi := by
    refine ⟨({} : PodIndexEntry), ?_⟩
    change (if i < min n podMaxIndex then some _ else none) = some _
    rw [if_pos (Nat.lt_min.mpr ⟨hi, Nat.lt_of_lt_of_le hi hn⟩)]

/-- A handle with a new index object. -/
structure Fresh (n : Nat) (p : PodManager) : Prop where
  safe : p.Safe
  usingIndex : p.usingIndex = 1
  count : p.count = some n
  trees : ∀ i, p.tree i = none

theorem fresh_new {p : PodManager} {n : Nat} (hn : n ≤ podMaxIndex)
    (hIndex : p.openIndexFile = some { PodIndexFile.new n with nIndexes := n })
    (hUsing : p.usingIndex = 1) : p.Fresh n where
  safe ix hEq := by
    rw [hIndex] at hEq
    obtain rfl := Option.some.inj hEq
    exact new_safe hn
  usingIndex := hUsing
  count := by
    rw [count, hIndex]
    rfl
  trees i := by
    simp only [tree, hIndex, PodIndexFile.new, Option.bind_eq_bind, Option.bind_some]
    split_ifs <;> rfl

theorem Fresh.inUse {p : PodManager} {n : Nat} (h : p.Fresh n) :
    ∀ i ∈ List.range n, p.InUse i :=
  fun _ hi => inUse_of_count h.count (List.mem_range.mp hi)

theorem Fresh.initEntries (h : s.state.Fresh n) :
    Runs (initEntries keySize order (List.range n)) s fun _ t =>
      t.state.Fresh n ∧ s.trace <:+ t.trace := by
  refine (initEntries_runs _ h.safe h.inUse).mono fun _ t ht => ?_
  refine ⟨⟨ht.1.safe, ht.1.usingIndex.trans h.usingIndex, ht.1.count.trans h.count, fun i => ?_⟩,
    ht.1.trace⟩
  exact (ht.2 i).trans (h.trees i)

theorem Fresh.same (h : s.state.Fresh n) (hSame : sameIndex s t) : t.state.Fresh n where
  safe ix hEq := h.safe ix (hSame.1.symm.trans hEq)
  usingIndex := hSame.2.1.trans h.usingIndex
  count := by
    rw [PodManager.count, hSame.1]
    exact h.count
  trees i := by
    rw [tree, hSame.1]
    exact h.trees i

theorem Fresh.openFiles {k : Bool → PodM Nat} (h : s.state.Fresh n)
    (hk : ∀ found t, t.state.usingIndex = 1 →
      k found t = openIndexes env found ifname (List.range n) t) :
    Runs (openFiles env dfname k) s fun r t =>
      t.state.Safe ∧ s.trace <:+ t.trace ∧
        ((∃ e ∈ Dialogue.since s t, LaterFailure (List.range n) e) ∨
          (r = noError → t.state.usingIndex = 1 ∧ ∀ i < n, t.state.IsOpen i)) := by
  refine openFiles_runs (fun r t ht hr => ?_) fun found t ht => ?_
  · exact ⟨(h.same ht).safe, ht.2.2, Or.inr fun h => absurd h hr⟩
  · have hFresh := h.same ht
    rw [Runs, hk found t hFresh.usingIndex]
    refine (openIndexes_runs (List.range n) hFresh.safe hFresh.count
      (fun i hi => List.mem_range.mp hi) (fun i _ => hFresh.trees i) List.nodup_range).mono
      fun r u hu => ?_
    obtain ⟨hKept, -, hResult⟩ := hu
    refine ⟨hKept.safe, ht.2.2.trans hKept.trace, ?_⟩
    rcases hResult with ⟨e, hMem, hLater⟩ | hOpen
    · refine Or.inl ⟨e, ?_, hLater⟩
      rw [Dialogue.since_trans ht.2.2 hKept.trace]
      exact List.mem_append_left _ hMem
    · refine Or.inr fun hr => ⟨hKept.usingIndex.trans hFresh.usingIndex, fun i hi => ?_⟩
      exact hOpen hr i (List.mem_range.mpr hi)

theorem openMultiple_runs (hs : s.state.Safe) (hn : n ≤ podMaxIndex) :
    Runs (openMultiple env dfname ifname n keySize order) s fun r t =>
      t.state.Safe ∧ ((∃ e ∈ Dialogue.since s t, LaterFailure (List.range n) e) ∨
        (r = noError → t.state.usingIndex = 1 ∧ ∀ i < n, t.state.IsOpen i)) := by
  rw [openMultiple]
  refine (close_runs hs).bind fun r t ht => ?_
  obtain ⟨ht, -, hTrace, hClosed⟩ := ht
  by_cases hr : r ≠ noError
  · rw [if_pos hr]
    exact runs_pure.mpr ⟨ht, Or.inr fun h => absurd h hr⟩
  · rw [if_neg hr]
    rw [not_not] at hr
    have hNone := (hClosed hr).2
    rw [runs_bind, closeIndexFile, runs_bind, runs_read, hNone]
    refine runs_pure.mpr ?_
    rw [if_neg (not_not.mpr rfl), runs_bind, runs_update, runs_bind]
    refine (fresh_new hn rfl rfl).initEntries.mono fun _ u hu => ?_
    obtain ⟨hFresh, hTrace'⟩ := hu
    refine (hFresh.openFiles fun _ _ _ => rfl).mono fun r' v hv => ?_
    obtain ⟨hv, hTrace'', hResult⟩ := hv
    refine ⟨hv, ?_⟩
    rcases hResult with ⟨e, hMem, hLater⟩ | hOpen
    · refine Or.inl ⟨e, ?_, hLater⟩
      rw [Dialogue.since_trans (hTrace.trans hTrace') hTrace'']
      exact List.mem_append_left _ hMem
    · exact Or.inr hOpen

theorem openSingle_runs {ifname : String} {useIndex : Int} (hs : s.state.Safe)
    (hUse : useIndex = 1 ∨ useIndex = 0 ∧ s.state.usingIndex ≠ 1) :
    Runs (openSingle env dfname ifname keySize order useIndex) s fun r t =>
      t.state.Safe ∧ (r = noError →
        (t.state.usingIndex = 1 ↔ useIndex ≠ 0) ∧ (useIndex ≠ 0 → t.state.IsOpen 0)) := by
  rw [openSingle]
  refine (close_runs hs).bind fun r t ht => ?_
  obtain ⟨ht, hUsing, hTrace, hClosed⟩ := ht
  by_cases hr : r ≠ noError
  · rw [if_pos hr]
    exact runs_pure.mpr ⟨ht, fun h => absurd h hr⟩
  · rw [if_neg hr]
    rw [not_not] at hr
    have hNone := (hClosed hr).2
    rcases hUse with rfl | ⟨rfl, hOther⟩
    · rw [if_pos (by decide), runs_bind, runs_update, runs_bind]
      refine (fresh_new (n := 1) (by decide) rfl rfl).initEntries.mono fun _ u hu => ?_
      obtain ⟨hFresh, -⟩ := hu
      have hk : ∀ found v, v.state.usingIndex = 1 → (do
          let p ← read
          if p.usingIndex ≠ 0 then openIndexes env found (fun _ => ifname) [0]
          else return noError : PodM Nat) v = openIndexes env found (fun _ => ifname) (List.range 1) v := by
        intro found v hv
        change (if v.state.usingIndex ≠ 0 then _ else _ : PodM Nat) v = _
        rw [if_pos (by rw [hv]; decide)]
        rfl
      refine (hFresh.openFiles hk).mono fun r' v hv => ?_
      obtain ⟨hv, -, ⟨e, -, i, hi, hPos, -⟩ | hOpen⟩ := hv
      · exact absurd (List.mem_range.mp hi) (by omega)
      · refine ⟨hv, fun hr' => ⟨?_, fun _ => (hOpen hr').2 0 Nat.one_pos⟩⟩
        exact iff_of_true (hOpen hr').1 (by decide)
    · rw [if_neg (by decide)]
      -- the flag of an earlier open is still there, but no index object
      have hUsing' : ∀ u, sameIndex t u → u.state.usingIndex ≠ 1 := fun u hu => by
        rw [hu.2.1, hUsing]
        exact hOther
      refine openFiles_runs (fun r' u hu hr' => ?_) fun found u hu => ?_
      · refine ⟨fun ix hIndex => ?_, fun h => absurd h hr'⟩
        exact ht ix (hu.1.symm.trans hIndex)
      · have hEmpty : u.state.openIndexFile = none := hu.1.trans hNone
        have hSafe : u.state.Safe := fun ix hIndex => by rw [hEmpty] at hIndex; cases hIndex
        rw [runs_bind, runs_read]
        split_ifs with hZero
        · refine (openIndexes_kept [0] hSafe fun i _ n hn => ?_).mono fun r' v hv => ?_
          · rw [count, hEmpty] at hn
            cases hn
          · refine ⟨hv.safe, fun _ => ⟨iff_of_false ?_ (by decide), fun h => absurd rfl h⟩⟩
            rw [hv.usingIndex]
            exact hUsing' u hu
        · refine runs_pure.mpr ⟨hSafe, fun _ => ⟨?_, fun h => absurd rfl h⟩⟩
          exact iff_of_false (hUsing' u hu) (by decide)

theorem openObject_runs (hs : s.state.Safe) (hReady : ix.Ready) :
    Runs (openObject env dfname (some ix)) s fun r t =>
      t.state.Safe ∧ (r = noError →
        t.state.usingIndex = 1 ∧ ∀ i < ix.nIndexes, t.state.IsOpen i) := by
  rw [openObject]
  refine (close_runs hs).bind fun r t ht => ?_
  obtain ⟨ht, -, hTrace, hClosed⟩ := ht
  by_cases hr : r ≠ noError
  · rw [if_pos hr]
    exact runs_pure.mpr ⟨ht, fun h => absurd h hr⟩
  · rw [if_neg hr]
    rw [not_not] at hr
    have hNone := (hClosed hr).2
    refine openFiles_runs (fun r' u hu hr' => ?_) fun found u hu => ?_
    · refine ⟨fun ix hIndex => ?_, fun h => absurd h hr'⟩
      exact ht ix (hu.1.symm.trans hIndex)
    · rw [runs_bind, runs_update, runs_bind, closeIndexFile, runs_bind, runs_read]
      dsimp only
      rw [hu.1, hNone]
      refine runs_pure.mpr ?_
      rw [if_neg (not_not.mpr rfl), runs_bind, runs_update]
      refine runs_pure.mpr ⟨?_, fun _ => ⟨rfl, fun i hi => ?_⟩⟩
      · rintro ix' hEq
        obtain rfl := Option.some.inj hEq
        exact hReady.safe
      · obtain ⟨e, btree, he, hTree, hOpen⟩ := hReady.isOpen i hi
        exact ⟨btree, (tree_eq_of_entry rfl hi he).trans hTree, hOpen⟩

end Open

section Flush

/-- The file that `Flush` flushes last. -/
def lastFlush (p : PodManager) : PodRequest :=
  match p.openIndexFile with
  | some ix => if ix.nIndexes = 0 then .flushData else .flushTree (ix.nIndexes - 1)
  | none => .flushData

/-- At most one flush, which returned `r`. -/
def Flushed (q : PodRequest) (r : Nat) (s t : Dialogue PodAnswer PodManager) : Prop :=
  ∀ e ∈ Dialogue.since s t, e = (⟨q, r⟩ : Sigma PodAnswer)

theorem flushed_nil {q : PodRequest} {r : Nat} (h : t.trace = s.trace) : Flushed q r s t := by
  intro e he
  rw [Dialogue.since_of_eq (l := []) h] at he
  cases he

theorem flushed_one {q : PodRequest} {r : Nat} (h : t.trace = ⟨q, r⟩ :: s.trace) :
    Flushed q r s t := by
  intro e he
  rw [Dialogue.since_of_eq (l := [⟨q, r⟩]) h] at he
  exact List.mem_singleton.mp he

theorem flushDataFile_runs :
    Runs (flushDataFile env) s fun r t => sameIndex s t ∧ Flushed .flushData r s t := by
  rw [flushDataFile, runs_bind, runs_read]
  cases s.state.openDataFile with
  | none => exact runs_pure.mpr ⟨⟨rfl, rfl, List.suffix_rfl⟩, flushed_nil rfl⟩
  | some err =>
    dsimp only
    rw [runs_bind, runs_ask, runs_bind, runs_update]
    exact runs_pure.mpr ⟨⟨rfl, rfl, List.suffix_cons _ _⟩, flushed_one rfl⟩

theorem flushIndexFile_runs (hs : s.state.Safe) :
    Runs (flushIndexFile env i) s fun r t => Kept s t ∧ Flushed (.flushTree i) r s t := by
  rw [flushIndexFile, runs_bind]
  refine index_runs hs ?_
  cases hTree : s.state.tree i with
  | none => exact runs_pure.mpr ⟨Kept.refl hs, flushed_nil rfl⟩
  | some btree =>
    dsimp only
    rw [runs_bind, runs_ask, runs_bind, runs_read]
    cases hIndex : s.state.openIndexFile with
    | none =>
      rw [tree, hIndex] at hTree
      cases hTree
    | some ix =>
      have hx := hs ix hIndex
      have hLt : i < ix.nIndexes := by
        by_contra hLe
        simp only [tree, hIndex, Option.bind_eq_bind, Option.bind_some, if_neg hLe] at hTree
        cases hTree
      obtain ⟨e, he⟩ := hx.present i hLt
      dsimp only
      rw [runs_bind]
      refine deref_runs (Nat.lt_of_lt_of_le hLt hx.bounded) he ?_
      rw [runs_bind]
      refine setEntry_runs hIndex (runs_pure.mpr ⟨?_, flushed_one rfl⟩)
      exact kept_putEntry hs hIndex (List.suffix_cons _ _)

theorem flushIndexes_runs (is : List Nat) (err : Nat) (hs : s.state.Safe) (hNodup : is.Nodup) :
    Runs (flushIndexes env is err) s fun r t =>
      Kept s t ∧ (is = [] → r = err) ∧
        ∀ e ∈ Dialogue.since s t, ∃ i ∈ is, e.1 = .flushTree i ∧ (is.getLast? = some i → e.2 = r) := by
  induction is generalizing s err with
  | nil =>
    refine runs_pure.mpr ⟨Kept.refl hs, fun _ => rfl, fun e he => ?_⟩
    rw [Dialogue.since_of_eq (l := []) rfl] at he
    cases he
  | cons i is ih =>
    obtain ⟨hNew, hNodup⟩ := List.nodup_cons.mp hNodup
    rw [flushIndexes]
    refine (flushIndexFile_runs hs).bind fun r t ht => ?_
    refine (ih r ht.1.safe hNodup).mono fun r' u hu => ?_
    obtain ⟨hKept, hNil, hEach⟩ := hu
    refine ⟨ht.1.trans hKept, nofun, fun e he => ?_⟩
    rw [Dialogue.since_trans ht.1.trace hKept.trace, List.mem_append] at he
    rcases he with he | he
    · obtain ⟨j, hj, hRequest, hLast⟩ := hEach e he
      refine ⟨j, List.mem_cons_of_mem i hj, hRequest, fun h => hLast ?_⟩
      rwa [List.getLast?_cons_of_ne_nil (List.ne_nil_of_mem hj)] at h
    · obtain rfl := ht.2 e he
      refine ⟨i, List.mem_cons_self, rfl, fun h => ?_⟩
      -- a later index would be the last one
      cases is with
      | nil => exact (hNil rfl).symm
      | cons j is =>
        rw [List.getLast?_cons_cons] at h
        exact absurd (List.mem_of_getLast? h) hNew

theorem flush_runs (hs : s.state.Safe) :
    Runs (flush env) s fun r t =>
      t.state.Safe ∧ ∀ e ∈ Dialogue.since s t, e.1 = s.state.lastFlush → e.2 = r := by
  rw [flush]
  refine flushDataFile_runs.bind fun r t ht => ?_
  obtain ⟨hSame, hFlushed⟩ := ht
  have hSafe : t.state.Safe := fun ix hIndex => hs ix (hSame.1.symm.trans hIndex)
  rw [runs_bind, runs_read, lastFlush, ← hSame.1]
  cases hIndex : t.state.openIndexFile with
  | none =>
    refine runs_pure.mpr ⟨hSafe, fun e he _ => ?_⟩
    rw [hFlushed e he]
  | some ix =>
    refine (flushIndexes_runs _ r hSafe List.nodup_range).mono fun r' u hu => ?_
    obtain ⟨hKept, hNil, hEach⟩ := hu
    refine ⟨hKept.safe, fun e he hLast => ?_⟩
    dsimp only at hLast
    rw [Dialogue.since_trans hSame.2.2 hKept.trace, List.mem_append] at he
    rcases he with he | he
    · obtain ⟨j, hj, hRequest, hIsLast⟩ := hEach e he
      have hPos : ix.nIndexes ≠ 0 := by
        have := List.mem_range.mp hj
        omega
      rw [if_neg hPos, hRequest] at hLast
      obtain ⟨rfl⟩ := hLast
      exact hIsLast (by rw [List.getLast?_range, if_neg hPos])
    · obtain rfl := hFlushed e he
      have hZero : ix.nIndexes = 0 := by
        by_contra h
        rw [if_neg h] at hLast
        cases hLast
      exact (hNil (by rw [hZero]; rfl)).symm

end Flush

section Calls

inductive Call where
  | openSingle (dfname ifname : String) (keySize order : Nat) (useIndex : Int)
  | openObject (dfname : String) (ix : Option PodIndexFile)
  | openMultiple (dfname : String) (ifname : Nat → String) (numIndexes keySize order : Nat)
  | openIndex (fname : String) (i : Nat)
  | createIndex (fname : String) (i : Nat)
  | closeIndex (i : Nat)
  | flush
  | close

def exec (env : Environment PodAnswer) : Call → PodM Nat
  | .openSingle dfname ifname keySize order useIndex =>
    PodManager.openSingle env dfname ifname keySize order useIndex
  | .openObject dfname ix => PodManager.openObject env dfname ix
  | .openMultiple dfname ifname numIndexes keySize order =>
    PodManager.openMultiple env dfname ifname numIndexes keySize order
  | .openIndex fname i => PodManager.openIndex env fname i
  | .createIndex fname i => PodManager.createIndex env fname i
  | .closeIndex i => PodManager.closeIndex env i
  | .flush => PodManager.flush env
  | .close => PodManager.close env

/-- A handle that answers calls with what they return, until one of them uses memory that is
not there. -/
def machine (env : Environment PodAnswer) :
    Machine Call (Except PodFault Nat) (Dialogue PodAnswer PodManager) where
  step c s :=
    match exec env c s with
    | .ok r t => (.ok r, t)
    | .error e t => (.error e, t)

/-- The handle before its first call. -/
def start : Dialogue PodAnswer PodManager := { state := new, trace := [] }

/-- How many indexes an `Open` asks for. -/
def Call.wanted : Call → Option Nat
  | .openSingle _ _ _ _ useIndex => some (if useIndex = 0 then 0 else 1)
  | .openObject _ ix => some (ix.elim 0 PodIndexFile.nIndexes)
  | .openMultiple _ _ numIndexes _ _ => some numIndexes
  | _ => none

/-- What a call promises that returns `r` and goes from `s` to `t`. -/
def Promise (c : Call) (s : Dialogue PodAnswer PodManager) (r : Nat)
    (t : Dialogue PodAnswer PodManager) : Prop :=
  r = noError →
    (∀ n, c.wanted = some n →
      (t.state.usingIndex = 1 ↔ 0 < n) ∧ ∀ i < n, t.state.IsOpen i) ∧
    (c = .flush → ∀ e ∈ Dialogue.since s t, e.2 = noError)

/-- When a call keeps its promise. -/
def Allowed (env : Environment PodAnswer) (c : Call) (s : Dialogue PodAnswer PodManager) : Prop :=
  match c with
  | .openSingle _ _ _ _ useIndex =>
    useIndex = 1 ∨ useIndex = 0 ∧ s.state.usingIndex ≠ 1
  | .openObject _ ix => ∃ ix', ix = some ix' ∧ 0 < ix'.nIndexes ∧ ix'.Ready
  | .openMultiple _ _ numIndexes _ _ =>
    0 < numIndexes ∧ numIndexes ≤ podMaxIndex ∧
      ∀ e ∈ Dialogue.since s ((machine env).step c s).2, ¬ LaterFailure (List.range numIndexes) e
  | .createIndex _ i => s.state.InUse i
  | .flush =>
    (∃ e ∈ Dialogue.since s ((machine env).step c s).2, e.2 ≠ noError) →
      ∃ e ∈ Dialogue.since s ((machine env).step c s).2,
        e.1 = s.state.lastFlush ∧ e.2 ≠ noError
  | _ => True

theorem call_runs {c : Call} (hs : s.state.Safe) (hAllowed : Allowed env c s) :
    Runs (exec env c) s fun r t => t.state.Safe ∧ Promise c s r t := by
  -- a call that opens nothing and flushes nothing promises nothing
  have hOther : c.wanted = none → c ≠ .flush → ∀ r t, Promise c s r t := by
    intro hWanted hFlush r t _
    refine ⟨fun n hn => ?_, fun h => absurd h hFlush⟩
    rw [hWanted] at hn
    cases hn
  cases c with
  | openSingle dfname ifname keySize order useIndex =>
    refine (openSingle_runs hs hAllowed).mono fun r t ht => ⟨ht.1, fun hr => ⟨?_, nofun⟩⟩
    rintro n hn
    obtain rfl := Option.some.inj hn
    obtain ⟨hUsing, hOpen⟩ := ht.2 hr
    rw [hUsing]
    split_ifs with hZero
    · exact ⟨iff_of_false (not_not.mpr hZero) (by decide), fun i hi => absurd hi (by omega)⟩
    · refine ⟨iff_of_true hZero Nat.one_pos, fun i hi => ?_⟩
      obtain rfl : i = 0 := by omega
      exact hOpen hZero
  | openObject dfname ix =>
    obtain ⟨ix', rfl, hPos, hReady⟩ := hAllowed
    refine (openObject_runs hs hReady).mono fun r t ht => ⟨ht.1, fun hr => ⟨?_, nofun⟩⟩
    rintro n hn
    obtain rfl := Option.some.inj hn
    exact ⟨iff_of_true (ht.2 hr).1 hPos, (ht.2 hr).2⟩
  | openMultiple dfname ifname n keySize order =>
    obtain ⟨hPos, hMax, hLater⟩ := hAllowed
    obtain ⟨r, t, hRun, ht, hResult⟩ :
        Runs (PodManager.openMultiple env dfname ifname n keySize order) s _ :=
      openMultiple_runs hs hMax
    refine ⟨r, t, hRun, ht, fun hr => ⟨?_, nofun⟩⟩
    rintro m hm
    obtain rfl := Option.some.inj hm
    have hStep : ((machine env).step (.openMultiple dfname ifname n keySize order) s).2 = t := by
      simp only [machine, exec, hRun]
    rw [hStep] at hLater
    rcases hResult with ⟨e, hMem, he⟩ | hOpen
    · exact absurd he (hLater e hMem)
    · exact ⟨iff_of_true (hOpen hr).1 hPos, (hOpen hr).2⟩
  | openIndex fname i =>
    exact (openIndex_kept hs).mono fun r t ht => ⟨ht.safe, hOther rfl nofun r t⟩
  | createIndex fname i =>
    exact (createIndex_kept hs hAllowed).mono fun r t ht => ⟨ht.safe, hOther rfl nofun r t⟩
  | closeIndex i =>
    exact (closeIndex_runs hs).mono fun r t ht => ⟨ht.1.safe, hOther rfl nofun r t⟩
  | flush =>
    obtain ⟨r, t, hRun, ht, hLast⟩ : Runs (PodManager.flush env) s _ := flush_runs hs
    refine ⟨r, t, hRun, ht, fun hr => ⟨nofun, fun _ e he => ?_⟩⟩
    have hStep : ((machine env).step .flush s).2 = t := by simp only [machine, exec, hRun]
    simp only [Allowed, hStep] at hAllowed
    by_contra hFailed
    obtain ⟨e', he', hIsLast, hError⟩ := hAllowed ⟨e, he, hFailed⟩
    exact hError ((hLast e' he' hIsLast).trans hr)
  | close => exact (close_runs hs).mono fun r t ht => ⟨ht.1, hOther rfl nofun r t⟩

theorem start_safe : start.state.Safe := nofun

/-- Any calls in any order, any of which may fail anywhere. -/
theorem run_promises {calls : List Call} (h : (machine env).Along (Allowed env) calls start) :
    (machine env).Along (fun c s => Runs (exec env c) s (Promise c s)) calls start := by
  refine Machine.along_of_invariant (I := fun s => s.state.Safe) (fun c s hs hAllowed => ?_)
    start_safe h
  obtain ⟨r, t, hRun, ht, hPromise⟩ := call_runs hs hAllowed
  refine ⟨⟨r, t, hRun, hPromise⟩, ?_⟩
  have hStep : ((machine env).step c s).2 = t := by simp only [machine, hRun]
  rwa [hStep]

/-- No file is there, and nothing fails but the requests in the list. -/
def failing (qs : List PodRequest) : Environment PodAnswer :=
  fun _ r => if r ∈ qs then 1 else noError

theorem run_promises_new :
    (machine (failing [])).Along (fun c s => Runs (exec (failing []) c) s (Promise c s))
      [.openSingle "a.pod" "a.btx" 72 29 1, .flush, .close,
        .openMultiple "b.pod" (fun _ => "b.btx") 2 72 29] start :=
  run_promises ⟨Or.inl rfl, fun h => absurd h (by decide), trivial,
    ⟨by decide, by decide, by decide⟩, trivial⟩

theorem promise_of_runs {c : Call} {r : Nat} (h : Runs (exec env c) s (Promise c s))
    (hStep : ((machine env).step c s).1.toOption = some r) :
    Promise c s r ((machine env).step c s).2 := by
  obtain ⟨r', t, hRun, hPromise⟩ := h
  have hEq : (machine env).step c s = (.ok r', t) := by simp only [machine, hRun]
  rw [hEq] at hStep ⊢
  obtain rfl := Option.some.inj hStep
  exact hPromise

/-- A second open that asks for no index uses one. -/
theorem run_promises_not :
    ¬ ∀ (env : Environment PodAnswer) (calls : List Call),
      (machine env).Along (fun c s => Runs (exec env c) s (Promise c s)) calls start := by
  intro h
  obtain ⟨-, hSecond, -⟩ := h (failing []) [.openSingle "a.pod" "a.btx" 72 29 1,
    .openSingle "b.pod" "b.btx" 72 29 0]
  have hPromise := promise_of_runs hSecond (r := noError) (by decide +kernel) rfl
  have hUsing := (hPromise.1 0 rfl).1.mp (by decide +kernel)
  exact absurd hUsing (by decide)

end Calls

end PodManager

end DataReel
