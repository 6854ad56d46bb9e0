import DataReel.Btree.Mixed

/-! # Walking over all keys

A program visits the keys in order with one search for an end of the tree and
then a search for the neighbour of each key it was given.
-/

namespace DataReel

variable {κ : Type} {O : OtherTrees κ} {K : KeyClass κ} {lo : Nat}

/-- How a walk ends: with a search that returns 0, in undefined behaviour, or not yet. -/
inductive WalkEnd
  | zero
  | undefined
  | running
  deriving DecidableEq, Repr

/-- The keys that `search` and up to `n` searches in all pass back, each after the first one asked
for the neighbour of the key before. -/
def walk (next : κ → CurrNode κ → BtreeM κ (DatabaseKey κ × CurrNode κ)) :
    Nat → BtreeM κ (DatabaseKey κ × CurrNode κ) → Btree κ → List κ × WalkEnd
  | 0, _, _ => ([], .running)
  | n + 1, search, t =>
    match search t with
    | .ok (x, curr) t =>
      let (keys, ending) := walk next n (next x.dbKey curr) t
      (x.dbKey :: keys, ending)
    | .error (.error _) _ => ([], .zero)
    | .error .badEntry _ => ([], .undefined)

/-- A search that starts with a node of its own each time. -/
def plain (search : κ → CurrNode κ → BtreeM κ (DatabaseKey κ × CurrNode κ)) (key : κ)
    (_ : CurrNode κ) : BtreeM κ (DatabaseKey κ × CurrNode κ) := search key CurrNode.new

/-- The searches visit the keys in order, from both ends and from each key. -/
structure Enumerates (K : KeyClass κ) (t : Btree κ) : Prop where
  sorted : K.comparison.Sorted t.keys
  forward : ∀ n, t.keys.length < n → walk (plain (findNext K)) n findFirst t = (t.keys, .zero)
  forwardCurr : ∀ n, t.keys.length < n → walk (findNext K) n findFirst t = (t.keys, .zero)
  backward : ∀ n, t.keys.length < n →
    walk (plain (findPrev K)) n findLast t = (t.keys.reverse, .zero)
  backwardCurr : ∀ n, t.keys.length < n → walk (findPrev K) n findLast t = (t.keys.reverse, .zero)
  next : ∀ key l x r, t.keys = l ++ x :: r → K.comparison.eqv key x = true →
    ((gxBtree K).step (.findNext key) t).1 = KeySet.answer r.head?
  prev : ∀ key l x r, t.keys = l ++ x :: r → K.comparison.eqv key x = true →
    ((gxBtree K).step (.findPrev key) t).1 = KeySet.answer l.getLast?

section Walk

variable {C : Comparison κ} {t : Btree κ}
  {next : κ → CurrNode κ → BtreeM κ (DatabaseKey κ × CurrNode κ)} {keys : List κ}

/-- A walk whose searches give each key its neighbour in a list visits the rest of the list. -/
theorem walk_rest
    (hNext : ∀ l x r curr, keys = l ++ x :: r → curr.Live C lo t →
      Answers C lo t (next x curr t) r.head?)
    {search : BtreeM κ (DatabaseKey κ × CurrNode κ)} {l r : List κ} (hKeys : keys = l ++ r)
    (hSearch : Answers C lo t (search t) r.head?) {n : Nat} (hn : r.length < n) :
    walk next n search t = (r, .zero) := by
  induction r generalizing l n search with
  | nil =>
    obtain ⟨n, rfl⟩ : ∃ k, n = k + 1 := ⟨n - 1, by omega⟩
    obtain ⟨e, hRun⟩ := hSearch
    rw [walk, hRun]
  | cons x r ih =>
    obtain ⟨n, rfl⟩ : ∃ k, n = k + 1 := ⟨n - 1, by omega⟩
    obtain ⟨y, curr, hRun, hKey, hLive⟩ := hSearch
    have hRest := ih (l := l ++ [x]) (by simpa using hKeys) (hNext l x r curr hKeys hLive)
      (Nat.lt_of_succ_lt_succ hn)
    rw [walk, hRun]
    dsimp only
    rw [hKey, hRest]

end Walk

section Ready

variable {t : Btree κ} (hK : K.StrictOrder) (hW : t.WellFormed O K.comparison lo)

include hK hW

theorem walkNext_run (hReady : t.Ready K.comparison lo) (hReads : t.height + 1 ≤ gxBtreeMaxNodeReads)
    {next : κ → CurrNode κ → BtreeM κ (DatabaseKey κ × CurrNode κ)}
    (hNext : ∀ key curr, curr.Live K.comparison lo t → ∃ curr', curr'.Live K.comparison lo t ∧
      next key curr = findNext K key curr') {n : Nat} (hn : t.keys.length < n) :
    walk next n findFirst t = (t.keys, .zero) := by
  refine walk_rest (C := K.comparison) ?_ (l := []) rfl
    ((findFirst_run hW (by omega)).1 hReady.first) hn
  intro l x r curr hKeys hLive
  obtain ⟨curr', hLive', hRun⟩ := hNext x curr hLive
  have hAnswer := findNext_run x hK hW hReady hReads hLive'
  rwa [KeySet.following_of_split hK.strict (A := hW.keySet) hKeys (hK.strict.eqv_refl x),
    ← hRun] at hAnswer

theorem walkPrev_run (hReady : t.Ready K.comparison lo) (hReads : 2 * t.height ≤ gxBtreeMaxNodeReads)
    {next : κ → CurrNode κ → BtreeM κ (DatabaseKey κ × CurrNode κ)}
    (hNext : ∀ key curr, curr.Live K.comparison lo t → ∃ curr', curr'.Live K.comparison lo t ∧
      next key curr = findPrev K key curr') {n : Nat} (hn : t.keys.length < n) :
    walk next n findLast t = (t.keys.reverse, .zero) := by
  have hLast : Answers K.comparison lo t (findLast t) t.keys.reverse.head? := by
    rw [List.head?_reverse]
    exact (findLast_run hW (by omega)).1 hReady.last
  refine walk_rest (C := K.comparison) ?_ (l := []) rfl hLast (by rwa [List.length_reverse])
  intro l x r curr hKeys hLive
  obtain ⟨curr', hLive', hRun⟩ := hNext x curr hLive
  have hSplit : t.keys = r.reverse ++ x :: l.reverse := by
    rw [List.nil_append] at hKeys
    rw [← List.reverse_reverse t.keys, hKeys, List.reverse_append, List.reverse_cons,
      List.append_assoc, List.singleton_append]
  have hAnswer := findPrev_run x hK hW hReady hReads hLive'
  rwa [KeySet.preceding_of_split hK.strict (A := hW.keySet) hSplit (hK.strict.eqv_refl x),
    ← hRun, List.getLast?_reverse] at hAnswer

theorem enumerates_of_ready (hReady : t.Ready K.comparison lo)
    (hReads : 2 * t.height ≤ gxBtreeMaxNodeReads) : Enumerates K t := by
  have hMax : t.height + 1 ≤ gxBtreeMaxNodeReads := by
    rw [gxBtreeMaxNodeReads] at hReads ⊢
    omega
  have hNew := CurrNode.live_new (C := K.comparison) lo t
  have hR : Represents O K.comparison lo t hW.keySet := ⟨hW, rfl⟩
  refine ⟨hW.sorted, ?_, ?_, ?_, ?_, ?_, ?_⟩
  · exact fun n hn => walkNext_run hK hW hReady hMax (fun key curr _ => ⟨_, hNew, rfl⟩) hn
  · exact fun n hn => walkNext_run hK hW hReady hMax (fun key curr hLive => ⟨_, hLive, rfl⟩) hn
  · exact fun n hn => walkPrev_run hK hW hReady hReads (fun key curr _ => ⟨_, hNew, rfl⟩) hn
  · exact fun n hn => walkPrev_run hK hW hReady hReads (fun key curr hLive => ⟨_, hLive, rfl⟩) hn
  · intro key l x r hKeys hEq
    have hAnswer := findNext_run key hK hW hReady hMax hNew
    rw [KeySet.following_of_split hK.strict (A := hW.keySet) hKeys hEq] at hAnswer
    exact (search_agrees hR hAnswer).1
  · intro key l x r hKeys hEq
    have hAnswer := findPrev_run key hK hW hReady hReads hNew
    rw [KeySet.preceding_of_split hK.strict (A := hW.keySet) hKeys hEq] at hAnswer
    exact (search_agrees hR hAnswer).1

/-- A walk that visits all keys had a key to load wherever it looked for one. -/
theorem ready_of_enumerates (hEnum : Enumerates K t) (hReads : 2 * t.height ≤ gxBtreeMaxNodeReads) :
    t.Ready K.comparison lo := by
  have hMax : t.height + 1 ≤ gxBtreeMaxNodeReads := by
    rw [gxBtreeMaxNodeReads] at hReads ⊢
    omega
  have hNew (key : κ) : ¬ (0 < (CurrNode.new (κ := κ)).node.keyCount ∧
      ((CurrNode.new (κ := κ)).node.findKeyLocation K key).rv = 0) := by
    simp [CurrNode.new, BtreeNode.new, BtreeNode.keyCount]
  refine ⟨?_, ?_, ?_, ?_⟩
  · by_contra hNot
    have hWalk := hEnum.forward (t.keys.length + 1) (Nat.lt_succ_self _)
    rw [walk, (findFirst_run hW (by omega)).2 hNot] at hWalk
    exact hNot (.inl (congrArg Prod.fst hWalk).symm)
  · by_contra hNot
    have hWalk := hEnum.backward (t.keys.length + 1) (Nat.lt_succ_self _)
    rw [walk, (findLast_run hW (by omega)).2 hNot] at hWalk
    have hNil : [] = t.keys.reverse := congrArg Prod.fst hWalk
    exact hNot (.inl (List.reverse_eq_nil_iff.mp hNil.symm))
  · intro h f e path hE
    by_cases hLeaf : nextReady t.f.node e h
    · exact .inl hLeaf
    · right
      have hAnswer := hEnum.next e.dbKey _ _ _ hE.keys (hK.strict.eqv_refl _)
      have hRun := (nextWalk_entry hK hW (hE.entryAt hK.strict hW) hMax).2 hLeaf
      change (searched (findNext K e.dbKey CurrNode.new) t).1 = _ at hAnswer
      rw [searched, findNext_restart (hNew e.dbKey), hRun] at hAnswer
      cases hHead : (f.keysRight t.f.node h e path).head? with
      | none => exact List.head?_eq_none_iff.mp hHead
      | some k =>
        rw [hHead] at hAnswer
        cases hAnswer
  · intro h f e path hE
    by_contra hLeaf
    have hAnswer := hEnum.prev e.dbKey _ _ _ hE.keys (hK.strict.eqv_refl _)
    have hRun := (prevWalk_entry hK hW (hE.entryAt hK.strict hW) hReads).2 hLeaf
    change (searched (findPrev K e.dbKey CurrNode.new) t).1 = _ at hAnswer
    rw [searched, findPrev_restart (hNew e.dbKey), hRun] at hAnswer
    cases hLast : (f.keysLeft t.f.node h path).getLast? with
    | none =>
      rw [hLast] at hAnswer
      cases hAnswer
    | some k =>
      rw [hLast] at hAnswer
      cases hAnswer

end Ready

/-! ## Insertion and balanced deletion -/

/-- Trees without empty nodes are visited in order from end to end. -/
theorem balanced_enumerates (hK : K.StrictOrder) {t : Btree κ}
    (hT : Reachable K (BalancedUpdate K) t) : Enumerates K t := by
  obtain ⟨O, hW, -⟩ := hT.balanced hK
  exact enumerates_of_ready hK hW (ready_of_keys hW) hW.reads_le

theorem balanced_enumerates_int :
    let t := ((gxBtree KeyClass.int).run [.insert ⟨0, 2⟩ false, .insert ⟨0, 3⟩ false,
      .insert ⟨0, 1⟩ false, .delete ⟨0, 3⟩ false] (intTree 5 none)).2
    Enumerates KeyClass.int t ∧ t.keys = [1, 2] := by
  have hT : Reachable KeyClass.int (BalancedUpdate KeyClass.int)
      ((gxBtree KeyClass.int).run [.insert ⟨0, 2⟩ false, .insert ⟨0, 3⟩ false,
        .insert ⟨0, 1⟩ false, .delete ⟨0, 3⟩ false] (intTree 5 none)).2 :=
    (Reachable.created (by decide) create_intTree).run
      ⟨⟨trivial, by decide⟩, ⟨trivial, by decide⟩, ⟨trivial, by decide⟩, ⟨trivial, by decide⟩, trivial⟩
  exact ⟨balanced_enumerates KeyClass.int_strictOrder hT, by decide⟩

/-! ## Insertion and unbalanced deletion -/

def Call.InsertOrFastDelete : Call κ → Prop
  | .insert _ _ | .fastDelete _ _ => True
  | _ => False

/-- Calls of `Insert` and `FastDelete` that find space, on trees that the read limit allows. -/
def UnbalancedUpdate (K : KeyClass κ) (c : Call κ) (t : Btree κ) : Prop :=
  c.InsertOrFastDelete ∧ NoAllocFailure K c t ∧ 2 * t.height ≤ gxBtreeMaxNodeReads

theorem UnbalancedUpdate.mixedSafe {c : Call κ} {t : Btree κ} (hc : UnbalancedUpdate K c t) :
    c.Update ∧ MixedSafe K c t := by
  obtain ⟨hCall, hAlloc, hReads⟩ := hc
  refine ⟨?_, hReads, hAlloc, ?_⟩
  · cases c <;> trivial
  · rintro key flushdb rfl
    exact absurd hCall id

theorem Reachable.unbalanced (hK : K.StrictOrder) {t : Btree κ}
    (hT : Reachable K (UnbalancedUpdate K) t) : ∃ O, t.WellFormed O K.comparison 0 := by
  induction hT with
  | created hOrder hCreate =>
    obtain ⟨O, hW, -⟩ := Btree.create_run (C := K.comparison) hOrder hCreate 0
    exact ⟨O, hW⟩
  | called c _ hCall ih =>
    obtain ⟨O, hW⟩ := ih
    exact ⟨O, ((mixed_simulates hK).next (t := hW.keySet) ⟨hW, rfl⟩ hCall.mixedSafe).wellFormed⟩

/-- What unbalanced deletion leaves is visited in order exactly if no search turns to an empty
leaf. -/
theorem unbalanced_enumerates_iff (hK : K.StrictOrder) {t : Btree κ}
    (hT : Reachable K (UnbalancedUpdate K) t) (hReads : 2 * t.height ≤ gxBtreeMaxNodeReads) :
    Enumerates K t ↔ t.Ready K.comparison 0 := by
  obtain ⟨O, hW⟩ := hT.unbalanced hK
  constructor
  · exact fun hEnum => ready_of_enumerates hK hW hEnum hReads
  · exact fun hReady => enumerates_of_ready hK hW hReady hReads

theorem unbalanced_enumerates_iff_int :
    let t := ((gxBtree KeyClass.int).run [.insert ⟨0, 1⟩ false, .insert ⟨0, 2⟩ false,
      .fastDelete ⟨0, 1⟩ false] (intTree 5 none)).2
    (Enumerates KeyClass.int t ↔ t.Ready KeyClass.int.comparison 0) ∧ t.keys = [2] := by
  have hT : Reachable KeyClass.int (UnbalancedUpdate KeyClass.int)
      ((gxBtree KeyClass.int).run [.insert ⟨0, 1⟩ false, .insert ⟨0, 2⟩ false,
        .fastDelete ⟨0, 1⟩ false] (intTree 5 none)).2 :=
    (Reachable.created (by decide) create_intTree).run
      ⟨⟨trivial, by decide⟩, ⟨trivial, by decide⟩, ⟨trivial, by decide⟩, trivial⟩
  exact ⟨unbalanced_enumerates_iff KeyClass.int_strictOrder hT (by decide), by decide⟩

/-- Two unbalanced deletions empty the first leaf: the first key is not found and the search for the
key before its parent key loads an entry that the leaf does not have. -/
theorem unbalanced_not_enumerates_int :
    ∃ t, Reachable KeyClass.int (UnbalancedUpdate KeyClass.int) t ∧ t.keys = [3, 4, 5] ∧
      ((gxBtree KeyClass.int).step .findFirst t).1 = .zero ∧
      ((gxBtree KeyClass.int).step (.findPrev 3) t).1 = .undefined ∧
      ¬ Enumerates KeyClass.int t := by
  refine ⟨((gxBtree KeyClass.int).run [.insert ⟨0, 1⟩ false, .insert ⟨0, 2⟩ false,
    .insert ⟨0, 3⟩ false, .insert ⟨0, 4⟩ false, .insert ⟨0, 5⟩ false, .fastDelete ⟨0, 1⟩ false,
    .fastDelete ⟨0, 2⟩ false] (intTree 5 none)).2, ?_, by decide, by decide, by decide, ?_⟩
  · exact (Reachable.created (by decide) create_intTree).run
      ⟨⟨trivial, by decide⟩, ⟨trivial, by decide⟩, ⟨trivial, by decide⟩, ⟨trivial, by decide⟩,
        ⟨trivial, by decide⟩, ⟨trivial, by decide⟩, ⟨trivial, by decide⟩, trivial⟩
  · intro hEnum
    exact absurd (hEnum.forward 4 (by decide)) (by decide)

end DataReel
