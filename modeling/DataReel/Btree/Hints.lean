import DataReel.Btree.TestTree
import DataReel.Btree.TreeShape

/-! # Searches that share a node object

The optimized searches start from the node object that the caller keeps, and
the last node they read stays in it. The plain ones make a node of their own
each time. On one tree both answer alike, and `PartialFind` gives the least
key from a bound on.
-/

namespace DataReel

open BtreeNode

variable {κ : Type} {O : OtherTrees κ} {K : KeyClass κ} {lo : Nat}

/-- The optimized versions. Only `Find`, `FindNext` and `FindPrev` look at the object they get. -/
def Search.runFrom (K : KeyClass κ) :
    Search κ → CurrNode κ → BtreeM κ (DatabaseKey κ × CurrNode κ)
  | .find key, curr => DataReel.find K key curr
  | .findFirst, _ => DataReel.findFirst
  | .findLast, _ => DataReel.findLast
  | .findNext key, curr => DataReel.findNext K key curr
  | .findPrev key, curr => DataReel.findPrev K key curr
  | .partialFind key, _ => DataReel.partialFind K key

/-- The node object after the walk down for a key. -/
def walkEnd (K : KeyClass κ) (key : κ) (g : NodeMap κ) : Nat → FAU → CurrNode κ → CurrNode κ
  | 0, _, curr => curr
  | reads + 1, a, curr =>
    if a = 0 then curr
    else
      match g a with
      | none => curr
      | some n =>
        let found := n.findKeyLocation K key
        if found.rv = 0 then ⟨a, n⟩
        else
          match n.getBranch found.keyLocation with
          | none => ⟨a, n⟩
          | some next => walkEnd K key g reads next ⟨a, n⟩

/-- The node object after a search that returned 0. `FindFirst` and `FindLast` return before
they read a node if there are no keys. -/
def Search.left (K : KeyClass κ) (t : Btree κ) (curr : CurrNode κ) : Search κ → CurrNode κ
  | .findFirst | .findLast => curr
  | .find key | .findNext key | .findPrev key | .partialFind key =>
    walkEnd K key t.f.node gxBtreeMaxNodeReads t.header.root curr

/-- The optimized searches, with the tree and the shared node object as the state. -/
def optimizedSearches (K : KeyClass κ) : Machine (Search κ) (Reply κ) (Btree κ × CurrNode κ) where
  step s := fun (t, curr) =>
    match s.runFrom K curr t with
    | .ok (x, curr) t => (.found x.dbKey, t, curr)
    | .error (.error _) t' => (.zero, t', s.left K t curr)
    | .error .badEntry t' => (.undefined, t', s.left K t curr)

def plainSearches (K : KeyClass κ) : Machine (Search κ) (Reply κ) (Btree κ) where
  step s := searched (s.run K)

/-! ## The node object stays a node of the tree -/

theorem getBranch_some {n : BtreeNode κ} {loc : Int} {b : FAU} (h : n.getBranch loc = some b) :
    ∃ l r, n.keyEntries = l ++ r ∧ b = lastBranch n.leftChild l := by
  rw [getBranch] at h
  split at h
  · exact ⟨[], n.keyEntries, rfl, (Option.some.inj h).symm⟩
  · obtain ⟨e, he, rfl⟩ := Option.map_eq_some_iff.mp h
    rw [entry, if_neg ‹_›] at he
    obtain ⟨hLess, hAt⟩ := List.getElem?_eq_some_iff.mp he
    refine ⟨n.keyEntries.take loc.toNat ++ [e], n.keyEntries.drop (loc.toNat + 1), ?_, ?_⟩
    · rw [← hAt, ← List.take_succ_eq_append_getElem hLess, List.take_append_drop]
    · rw [lastBranch_concat]

theorem walkEnd_live {t : Btree κ} (key : κ) {h : Nat} {a : FAU} {path : List (Frame κ)}
    (hL : Located K.comparison t.f.node lo t.order t.header.root h a path)
    (hHeight : path.length + h = t.height) {curr : CurrNode κ} (hLive : curr.Live K.comparison lo t)
    (reads : Nat) : (walkEnd K key t.f.node reads a curr).Live K.comparison lo t := by
  induction h generalizing a path curr reads with
  | zero =>
    cases reads with
    | zero => exact hLive
    | succ reads =>
      rw [walkEnd, if_pos (Subtree.zero_iff.mp hL.sub)]
      exact hLive
  | succ h ih =>
    cases reads with
    | zero => exact hLive
    | succ reads =>
      obtain ⟨⟨c, l⟩, hn, -⟩ := hL.sub.at_node
      have hNode : CurrNode.Live K.comparison lo t ⟨a, ⟨c, l⟩⟩ := .inr ⟨h, path, hHeight, hn, hL⟩
      simp only [walkEnd, if_neg hL.sub.nonzero, hn]
      split
      · exact hNode
      · split
        · exact hNode
        · rename_i next hNext
          obtain ⟨b, r, hSplit, rfl⟩ := getBranch_some hNext
          obtain rfl : l = b ++ r := hSplit
          exact ih (hL.down hn) (by rw [List.length_cons]; omega) hNode reads

theorem split_of_branch {n : BtreeNode κ} {b : FAU} (hb : b ∈ n.branches) :
    ∃ l r, n.keyEntries = l ++ r ∧ b = lastBranch n.leftChild l := by
  rcases List.mem_cons.mp hb with rfl | hb
  · exact ⟨[], n.keyEntries, rfl, rfl⟩
  · obtain ⟨e, he, rfl⟩ := List.mem_map.mp hb
    obtain ⟨l, r, hSplit⟩ := List.append_of_mem he
    exact ⟨l ++ [e], r, by simp [hSplit], (lastBranch_concat _ _ _).symm⟩

theorem live_below {t : Btree κ} {h : Nat} {a : FAU} {path : List (Frame κ)}
    (hL : Located K.comparison t.f.node lo t.order t.header.root h a path)
    (hHeight : path.length + h = t.height) {curr : CurrNode κ}
    (hMem : curr.address ∈ nodesFrom t.f.node h a) (hNode : t.f.node curr.address = some curr.node) :
    curr.Live K.comparison lo t := by
  induction h generalizing a path with
  | zero => cases hMem
  | succ h ih =>
    obtain ⟨⟨c, l⟩, hn, -⟩ := hL.sub.at_node
    rw [nodesFrom_at hn] at hMem
    rcases List.mem_cons.mp hMem with rfl | hBelow
    · exact .inr ⟨h, path, hHeight, hNode, hL⟩
    · obtain ⟨b, hBranch, hMem⟩ := List.mem_flatMap.mp hBelow
      obtain ⟨b, r, hSplit, rfl⟩ := split_of_branch hBranch
      obtain rfl : l = b ++ r := hSplit
      exact ih (hL.down hn) (by rw [List.length_cons]; omega) hMem

theorem Btree.WellFormed.live {t : Btree κ} (hW : t.WellFormed O K.comparison lo)
    {curr : CurrNode κ} (hMem : curr.address ∈ t.nodes)
    (hNode : t.f.node curr.address = some curr.node) : curr.Live K.comparison lo t :=
  live_below hW.located (by simp) hMem hNode

/-! ## One search and a run of them -/

section Searches

variable {t : Btree κ} {curr : CurrNode κ}

theorem left_live (hW : t.WellFormed O K.comparison lo) (hLive : curr.Live K.comparison lo t)
    (s : Search κ) : (s.left K t curr).Live K.comparison lo t := by
  cases s with
  | findFirst | findLast => exact hLive
  | find key | findNext key | findPrev key | partialFind key =>
    exact walkEnd_live key hW.located (by simp) hLive _

theorem searched_of_answers {x : BtreeM κ (DatabaseKey κ × CurrNode κ)} {o : Option κ}
    (hAnswers : Answers K.comparison lo t (x t) o) : searched x t = (KeySet.answer o, t) := by
  cases o with
  | none =>
    obtain ⟨e, hRun⟩ := hAnswers
    rw [searched, hRun]
    rfl
  | some k =>
    obtain ⟨y, curr, hRun, rfl, -⟩ := hAnswers
    rw [searched, hRun]
    rfl

/-- The states of the two machines while nothing is updated. -/
def SameTree (C : Comparison κ) (lo : Nat) (t : Btree κ) (s : Btree κ × CurrNode κ) (u : Btree κ) :
    Prop := s.1 = t ∧ u = t ∧ s.2.Live C lo t

variable (hK : K.StrictOrder)

include hK

/-- From any node of the tree a search loads what the set of its keys gives, and passes back
another node of the tree. -/
theorem runFrom_answers (hW : t.WellFormed O K.comparison lo) (hReady : t.Ready K.comparison lo)
    (hReads : 2 * t.height ≤ gxBtreeMaxNodeReads) (hLive : curr.Live K.comparison lo t)
    (s : Search κ) :
    Answers K.comparison lo t (s.runFrom K curr t) (hW.keySet.search s) := by
  have hMax : t.height + 1 ≤ gxBtreeMaxNodeReads := by
    rw [gxBtreeMaxNodeReads] at hReads ⊢
    omega
  cases s with
  | find key => exact find_run key hK hW (by omega) hLive
  | findFirst => exact (findFirst_run hW (by omega)).1 hReady.first
  | findLast => exact (findLast_run hW (by omega)).1 hReady.last
  | findNext key => exact findNext_run key hK hW hReady hMax hLive
  | findPrev key => exact findPrev_run key hK hW hReady hReads hLive
  | partialFind key => exact partialFind_run hK hW hMax key

theorem optimized_step (hW : t.WellFormed O K.comparison lo) (hReady : t.Ready K.comparison lo)
    (hReads : 2 * t.height ≤ gxBtreeMaxNodeReads) (hLive : curr.Live K.comparison lo t)
    (s : Search κ) : ∃ curr', curr'.Live K.comparison lo t ∧
      (optimizedSearches K).step s (t, curr) = (KeySet.answer (hW.keySet.search s), t, curr') := by
  have hAnswers := runFrom_answers hK hW hReady hReads hLive s
  cases hKey : hW.keySet.search s with
  | none =>
    rw [hKey] at hAnswers
    obtain ⟨e, hRun⟩ := hAnswers
    refine ⟨s.left K t curr, left_live hW hLive s, ?_⟩
    simp only [optimizedSearches, hRun]
    rfl
  | some k =>
    rw [hKey] at hAnswers
    obtain ⟨x, curr', hRun, rfl, hLive'⟩ := hAnswers
    refine ⟨curr', hLive', ?_⟩
    simp only [optimizedSearches, hRun]
    rfl

theorem optimized_simulates (hW : t.WellFormed O K.comparison lo) (hReady : t.Ready K.comparison lo)
    (hReads : 2 * t.height ≤ gxBtreeMaxNodeReads) :
    (optimizedSearches K).Simulates (plainSearches K) (fun _ _ => True)
      (SameTree K.comparison lo t) := by
  have hPlain (s : Search κ) : (plainSearches K).step s t = _ := searched_of_answers
    (x := s.run K) (by
      have hAnswers := runFrom_answers hK hW hReady hReads (CurrNode.live_new lo t) s
      cases s <;> exact hAnswers)
  constructor
  · rintro s ⟨_, curr⟩ _ ⟨rfl, rfl, hLive⟩ -
    obtain ⟨curr', -, hRun⟩ := optimized_step hK hW hReady hReads hLive s
    rw [hRun, hPlain]
  · rintro s ⟨_, curr⟩ _ ⟨rfl, rfl, hLive⟩ -
    obtain ⟨curr', hLive', hRun⟩ := optimized_step hK hW hReady hReads hLive s
    rw [hRun, hPlain]
    exact ⟨rfl, rfl, hLive'⟩

end Searches

/-- `PartialFind` loads the least key that is not below the one it is given, and returns 0
exactly if there is none. -/
theorem partialFind_isLeast (hK : K.StrictOrder) {t : Btree κ}
    (hT : Reachable K (BalancedUpdate K) t) (key : κ) :
    (∀ k, searched (partialFind K key) t = (.found k, t) ↔
        KeySet.IsLeast K.comparison t.keys key k) ∧
      (searched (partialFind K key) t = (.zero, t) ↔ ∀ x ∈ t.keys, K.comparison.lt x key = true) := by
  obtain ⟨O, hW, -⟩ := hT.balanced hK
  have hMax : t.height + 1 ≤ gxBtreeMaxNodeReads := by
    have hHeight := hW.height_le
    rw [gxBtreeMaxNodeReads]
    omega
  have hRun := searched_of_answers (partialFind_run hK hW hMax key)
  have hKeys : hW.keySet.keys = t.keys := rfl
  rw [hRun, ← hKeys]
  constructor
  · intro k
    rw [← KeySet.atLeast_eq_some_iff hK.strict]
    cases hW.keySet.atLeast key <;> simp [KeySet.answer]
  · rw [← KeySet.atLeast_eq_none_iff hK.strict]
    cases hW.keySet.atLeast key <;> simp [KeySet.answer]

theorem partialFind_isLeast_int :
    let t := ((gxBtree KeyClass.int).run [.insert ⟨0, 1⟩ false, .insert ⟨0, 3⟩ false,
      .insert ⟨0, 5⟩ false, .insert ⟨0, 7⟩ false, .insert ⟨0, 9⟩ false] (intTree 5 none)).2
    searched (partialFind KeyClass.int 4) t = (.found 5, t) ∧
      KeySet.IsLeast KeyClass.int.comparison t.keys 4 5 ∧
      searched (partialFind KeyClass.int 10) t = (.zero, t) := by
  intro t
  have hT : Reachable KeyClass.int (BalancedUpdate KeyClass.int) t :=
    (Reachable.created (by decide) create_intTree).run
      ⟨⟨trivial, by decide⟩, ⟨trivial, by decide⟩, ⟨trivial, by decide⟩, ⟨trivial, by decide⟩,
        ⟨trivial, by decide⟩, trivial⟩
  have hLeast : KeySet.IsLeast KeyClass.int.comparison t.keys 4 5 :=
    ⟨by decide, by decide, by decide⟩
  exact ⟨((partialFind_isLeast KeyClass.int_strictOrder hT 4).1 5).mpr hLeast, hLeast,
    (partialFind_isLeast KeyClass.int_strictOrder hT 10).2.mpr (by decide)⟩

/-- From an empty node object or a copy of any node of the tree, a run of optimized searches
answers as the plain ones do. -/
theorem optimized_run_eq_plain (hK : K.StrictOrder) {t : Btree κ}
    (hT : Reachable K (BalancedUpdate K) t) {curr : CurrNode κ}
    (hCurr : curr.node.keyEntries = [] ∨
      curr.address ∈ t.nodes ∧ t.f.node curr.address = some curr.node) (searches : List (Search κ)) :
    ((optimizedSearches K).run searches (t, curr)).1 = ((plainSearches K).run searches t).1 ∧
      ((optimizedSearches K).run searches (t, curr)).2.1 = t := by
  obtain ⟨O, hW, -⟩ := hT.balanced hK
  have hLive : curr.Live K.comparison 1 t := by
    rcases hCurr with hEmpty | ⟨hMem, hNode⟩
    · exact .inl hEmpty
    · exact hW.live hMem hNode
  have hSame : SameTree K.comparison 1 t (t, curr) t := ⟨rfl, rfl, hLive⟩
  obtain ⟨hReplies, hTree, -⟩ := (optimized_simulates hK hW (ready_of_keys hW) hW.reads_le).run
    hSame (Machine.along_of_forall (P := fun _ => True) (fun _ _ => trivial) _)
  exact ⟨hReplies, hTree⟩

/-- Searches that start from the leaf of 1 and 2: the key after 2 is in the root, and a failed
search leaves the leaf it ended in. -/
theorem optimized_run_eq_plain_int :
    let t := ((gxBtree KeyClass.int).run [.insert ⟨0, 1⟩ false, .insert ⟨0, 2⟩ false,
      .insert ⟨0, 3⟩ false, .insert ⟨0, 4⟩ false, .insert ⟨0, 5⟩ false] (intTree 5 none)).2
    let curr : CurrNode Int := ⟨t.nodes.getD 1 0, ⟨0, [⟨0, 1⟩, ⟨0, 2⟩]⟩⟩
    ((optimizedSearches KeyClass.int).run [.findNext 2, .find 9, .findPrev 4, .partialFind 0] (t, curr)).1 =
        ((plainSearches KeyClass.int).run [.findNext 2, .find 9, .findPrev 4, .partialFind 0] t).1 ∧
      ((plainSearches KeyClass.int).run [.findNext 2, .find 9, .findPrev 4, .partialFind 0] t).1 =
        [.found 3, .zero, .found 3, .found 1] := by
  intro t curr
  have hT : Reachable KeyClass.int (BalancedUpdate KeyClass.int) t :=
    (Reachable.created (by decide) create_intTree).run
      ⟨⟨trivial, by decide⟩, ⟨trivial, by decide⟩, ⟨trivial, by decide⟩, ⟨trivial, by decide⟩,
        ⟨trivial, by decide⟩, trivial⟩
  exact ⟨(optimized_run_eq_plain KeyClass.int_strictOrder hT (.inr ⟨by decide, by decide⟩) _).1,
    by decide⟩

end DataReel
