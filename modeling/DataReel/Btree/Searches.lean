import DataReel.Btree.SearchRun

/-! # The searches as a whole

A search may start from the node in which the last one stopped. Searches for
the key before or after another one succeed where the leaves at the ends of
the subtrees they turn to are not empty.
-/

namespace DataReel

open BtreeNode

variable {κ : Type} {O : OtherTrees κ} {K : KeyClass κ} {C : Comparison κ} {lo : Nat}

/-- Every leaf that a search for a neighbour goes to has a key to load. -/
structure Btree.Ready (C : Comparison κ) (lo : Nat) (t : Btree κ) : Prop where
  first : firstReady t
  last : lastReady t
  next : ∀ h f e path, t.HasEntry C lo h f e path →
    nextReady t.f.node e h ∨ f.keysRight t.f.node h e path = []
  prev : ∀ h f e path, t.HasEntry C lo h f e path → prevReady t.f.node f h

/-! ## Searches that start from a node object -/

section Curr

variable {t : Btree κ} {key : κ} {curr : CurrNode κ}

/-- The node object holds the key or the search restarts at the root. -/
theorem CurrNode.Live.search (hK : K.StrictOrder) (hLive : curr.Live K.comparison lo t) (key : κ) :
    ¬ (0 < curr.node.keyCount ∧ (curr.node.findKeyLocation K key).rv = 0) ∨
    ∃ h f e path, curr = ⟨f.address, ⟨f.leftChild, f.before ++ e :: f.after⟩⟩ ∧
      Hit K.comparison key t.f.node f e ∧ path.length + (h + 1) = t.height ∧
      Located K.comparison t.f.node lo t.order t.header.root (h + 1) f.address path ∧
      0 < curr.node.keyCount ∧ curr.node.findKeyLocation K key = ⟨0, f.before.length⟩ := by
  obtain ⟨a, ⟨c, l⟩⟩ := curr
  rcases hLive with hEmpty | ⟨h, path, hHeight, hn, hL⟩
  · refine .inl fun hTurn => ?_
    have hNil : l = [] := hEmpty
    have hPos := hTurn.1
    simp [keyCount, hNil] at hPos
  · rcases split_node hK.strict (hL.node_sorted hn) key with
      ⟨b, e, r, hl, hEq, hb, hr⟩ | ⟨b, r, hl, hb, hr⟩
    · obtain rfl : l = b ++ e :: r := hl
      refine .inr ⟨h, ⟨a, c, b, r⟩, e, path, rfl, ⟨hn, hEq, hb, hr⟩, hHeight, hL, ?_, ?_⟩
      · simp only [keyCount, List.length_append, List.length_cons]
        omega
      · exact findKeyLocation_hit hK hb hEq hr
    · obtain rfl : l = b ++ r := hl
      refine .inl fun hTurn => ?_
      have hMiss := findKeyLocation_miss (c := c) hK hb hr
      have hRv := hTurn.2
      simp only [hMiss] at hRv
      exact rv_miss b hRv

/-- A search that restarts at the root stops in the node of the entry. -/
theorem find_entry (hK : K.StrictOrder) (hW : t.WellFormed O K.comparison lo)
    (hReads : t.height ≤ gxBtreeMaxNodeReads) {h : Nat} {f : Frame κ} {e : DatabaseKey κ}
    {path : List (Frame κ)} (hE : t.EntryAt K.comparison key h f e path)
    (hRestart : ¬ (0 < curr.node.keyCount ∧ (curr.node.findKeyLocation K key).rv = 0)) :
    find K key curr t = .ok (e, ⟨f.address, ⟨f.leftChild, f.before ++ e :: f.after⟩⟩) t := by
  obtain ⟨n, hn⟩ : ∃ n, gxBtreeMaxNodeReads = n + t.height := ⟨gxBtreeMaxNodeReads - t.height, by omega⟩
  have hL := hE.located hW
  have hWalk : findWalk K key (n + t.height) t.header.root t = _ := findWalk_descent hK hE.descent n
  rw [← Nat.add_assoc, findWalk_hit hK hL.sub.nonzero hE.hit (hE.hit.count hL)] at hWalk
  rw [find, Exec.bind_ok (Exec.get_run _)]
  dsimp only
  rw [if_neg hRestart, hn, Exec.bind_ok hWalk]
  dsimp only
  rw [loadKey_at, Exec.bind_ok (access_some _ _)]
  rfl

theorem find_miss (hK : K.StrictOrder) (hReads : t.height ≤ gxBtreeMaxNodeReads)
    {path : List (Frame κ)}
    (hD : Descent K.comparison key t.f.node t.order t.height t.header.root [] 0 0 path)
    (hRestart : ¬ (0 < curr.node.keyCount ∧ (curr.node.findKeyLocation K key).rv = 0)) :
    find K key curr t = .error (.error .entryNotFound) t := by
  obtain ⟨n, hn⟩ : ∃ n, gxBtreeMaxNodeReads = n + t.height := ⟨gxBtreeMaxNodeReads - t.height, by omega⟩
  have hWalk : findWalk K key (n + t.height) t.header.root t = _ := findWalk_descent hK hD n
  rw [findWalk_null] at hWalk
  rw [find, Exec.bind_ok (Exec.get_run _)]
  dsimp only
  rw [if_neg hRestart, hn, Exec.bind_error hWalk]

variable (key) in
theorem find_run (hK : K.StrictOrder) (hW : t.WellFormed O K.comparison lo)
    (hReads : t.height ≤ gxBtreeMaxNodeReads) (hLive : curr.Live K.comparison lo t) :
    Answers K.comparison lo t (find K key curr t) (hW.keySet.find key) := by
  rcases hLive.search hK key with hRestart | ⟨h, f, e, path, rfl, hHit, hHeight, hL, hPos, hFound⟩
  · rcases hW.search hK.strict key with ⟨h, f, e, path, hE⟩ | ⟨path, hD, hKeys, hA⟩
    · rw [find_entry hK hW hReads hE hRestart,
        KeySet.find_of_split hK.strict (A := hW.keySet) (hE.keys hW) hE.hit.equal]
      exact ⟨e, _, rfl, rfl, entry_live hE.hit.node (hE.located hW) hE.height⟩
    · rw [find_miss hK hReads hD hRestart,
        KeySet.find_of_miss hK.strict (A := hW.keySet) hKeys hA.1 hA.2]
      exact ⟨_, rfl⟩
  · have hKeys := hHit.keys hL.reach hHeight
    rw [find, Exec.bind_ok (Exec.get_run _)]
    simp only [hFound] at hPos ⊢
    rw [if_pos ⟨hPos, trivial⟩, loadKey_at, Exec.bind_ok (access_some _ _),
      KeySet.find_of_split hK.strict (A := hW.keySet) hKeys hHit.equal]
    exact ⟨e, _, rfl, rfl, entry_live hHit.node hL hHeight⟩

theorem findNext_restart (hRestart : ¬ (0 < curr.node.keyCount ∧
      (curr.node.findKeyLocation K key).rv = 0)) :
    findNext K key curr t = nextWalk K key gxBtreeMaxNodeReads t.header.root 0 0 t := by
  rw [findNext, Exec.bind_ok (Exec.get_run _), if_neg hRestart]

theorem findPrev_restart (hRestart : ¬ (0 < curr.node.keyCount ∧
      (curr.node.findKeyLocation K key).rv = 0)) :
    findPrev K key curr t = prevWalk K key gxBtreeMaxNodeReads t.header.root none (-1) t := by
  rw [findPrev, Exec.bind_ok (Exec.get_run _), if_neg fun hTurn => hRestart ⟨hTurn.1, hTurn.2.1⟩]

section Entry

variable {h : Nat} {f : Frame κ} {e : DatabaseKey κ} {path : List (Frame κ)}
  (hE : t.HasEntry K.comparison lo h f e path)
  (hFound : (⟨f.leftChild, f.before ++ e :: f.after⟩ : BtreeNode κ).findKeyLocation K key =
    ⟨0, f.before.length⟩)

include hE

theorem nextOf_answers (hReads : h + 1 ≤ gxBtreeMaxNodeReads)
    (hReady : nextReady t.f.node e h ∨ f.keysRight t.f.node h e path = []) :
    Answers K.comparison lo t
      (nextOf gxBtreeMaxNodeReads ⟨f.address, ⟨f.leftChild, f.before ++ e :: f.after⟩⟩
        f.before.length (savedNext path).1 (savedNext path).2 t)
      (f.keysRight t.f.node h e path).head? := by
  obtain ⟨hLoads, hFails⟩ := nextOf_run hE.node hE.located hE.height hReads
  by_cases hLeaf : nextReady t.f.node e h
  · exact hLoads hLeaf
  · rw [hFails hLeaf, hReady.resolve_left hLeaf]
    exact ⟨_, rfl⟩

include hFound

/-- The next key lies in the branch after the entry or in the same node, or the search restarts. -/
theorem findNext_hit (hReads : h + 1 ≤ gxBtreeMaxNodeReads)
    (hReady : nextReady t.f.node e h ∨ f.keysRight t.f.node h e path = []) :
    Answers K.comparison lo t
        (findNext K key ⟨f.address, ⟨f.leftChild, f.before ++ e :: f.after⟩⟩ t)
        (f.keysRight t.f.node h e path).head? ∨
      findNext K key ⟨f.address, ⟨f.leftChild, f.before ++ e :: f.after⟩⟩ t =
        nextWalk K key gxBtreeMaxNodeReads t.header.root 0 0 t := by
  have hPos : 0 < (⟨f.leftChild, f.before ++ e :: f.after⟩ : BtreeNode κ).keyCount := by
    simp only [keyCount, List.length_append, List.length_cons]
    omega
  have hNext := nextOf_answers hE hReads hReady
  rw [nextOf, getBranch_at, Exec.bind_ok (access_some _ _)] at hNext
  rw [findNext, Exec.bind_ok (Exec.get_run _)]
  simp only [hFound]
  rw [if_pos ⟨hPos, trivial⟩, getBranch_at, Exec.bind_ok (access_some _ _)]
  by_cases hBranch : e.rightChild ≠ 0
  · rw [if_pos hBranch] at hNext ⊢
    exact .inl hNext
  · rw [if_neg hBranch] at hNext ⊢
    by_cases hLast : (f.before.length : Int) <
        (keyCount ⟨f.leftChild, f.before ++ e :: f.after⟩ : Int) - 1
    · rw [if_pos hLast] at hNext ⊢
      exact .inl hNext
    · rw [if_neg hLast]
      exact .inr rfl

theorem findPrev_hit (hReads : h + 1 ≤ gxBtreeMaxNodeReads) (hReady : prevReady t.f.node f h) :
    Answers K.comparison lo t
        (findPrev K key ⟨f.address, ⟨f.leftChild, f.before ++ e :: f.after⟩⟩ t)
        (f.keysLeft t.f.node h path).getLast? ∨
      findPrev K key ⟨f.address, ⟨f.leftChild, f.before ++ e :: f.after⟩⟩ t =
        prevWalk K key gxBtreeMaxNodeReads t.header.root none (-1) t := by
  have hPos : 0 < (⟨f.leftChild, f.before ++ e :: f.after⟩ : BtreeNode κ).keyCount := by
    simp only [keyCount, List.length_append, List.length_cons]
    omega
  have hPrev := (prevOf_run hE.node hE.located hE.height hReads).1 hReady
  rw [prevOf.eq_def] at hPrev
  rw [findPrev, Exec.bind_ok (Exec.get_run _)]
  simp only [hFound, true_and]
  by_cases hInner : 0 ≤ (f.before.length : Int) - 1 ∨ f.leftChild ≠ 0
  · rw [if_pos ⟨hPos, hInner⟩, prevOf.eq_def]
    left
    rcases hInner with hBefore | hLeft
    · rw [if_pos hBefore] at hPrev ⊢
      exact hPrev
    · by_cases hBefore : 0 ≤ (f.before.length : Int) - 1
      · rw [if_pos hBefore] at hPrev ⊢
        exact hPrev
      · rw [if_neg hBefore, if_pos hLeft] at hPrev ⊢
        exact hPrev
  · rw [if_neg fun hTurn => hInner hTurn.2]
    exact .inr rfl

end Entry

section Ready

variable (hK : K.StrictOrder) (hW : t.WellFormed O K.comparison lo)

include hK hW

variable (key) in
theorem nextWalk_run (hReads : t.height + 1 ≤ gxBtreeMaxNodeReads)
    (hReady : ∀ h f e path, t.EntryAt K.comparison key h f e path →
      nextReady t.f.node e h ∨ f.keysRight t.f.node h e path = []) :
    Answers K.comparison lo t (nextWalk K key gxBtreeMaxNodeReads t.header.root 0 0 t)
      (hW.keySet.following key) := by
  rcases hW.search hK.strict key with ⟨h, f, e, path, hE⟩ | ⟨path, hD, hKeys, hA⟩
  · obtain ⟨hLoads, hFails⟩ := nextWalk_entry hK hW hE hReads
    by_cases hLeaf : nextReady t.f.node e h
    · exact hLoads hLeaf
    · have hLast := (hReady h f e path hE).resolve_left hLeaf
      rw [hFails hLeaf,
        KeySet.following_of_split hK.strict (A := hW.keySet) (hE.keys hW) hE.hit.equal, hLast]
      exact ⟨_, rfl⟩
  · obtain ⟨n, hn⟩ : ∃ n, gxBtreeMaxNodeReads = n + t.height :=
      ⟨gxBtreeMaxNodeReads - t.height, by omega⟩
    have hWalk : nextWalk K key (n + t.height) t.header.root 0 0 t = _ := nextWalk_descent hK hD n
    rw [nextWalk_null] at hWalk
    rw [hn, hWalk, KeySet.following_of_miss hK.strict (A := hW.keySet) hKeys hA.1 hA.2]
    exact ⟨_, rfl⟩

variable (key) in
theorem prevWalk_run (hReads : 2 * t.height ≤ gxBtreeMaxNodeReads)
    (hReady : ∀ h f e path, t.EntryAt K.comparison key h f e path → prevReady t.f.node f h) :
    Answers K.comparison lo t (prevWalk K key gxBtreeMaxNodeReads t.header.root none (-1) t)
      (hW.keySet.preceding key) := by
  rcases hW.search hK.strict key with ⟨h, f, e, path, hE⟩ | ⟨path, hD, hKeys, hA⟩
  · exact (prevWalk_entry hK hW hE hReads).1 (hReady h f e path hE)
  · obtain ⟨reads', -, hWalk⟩ := prevWalk_descent hK hD hReads
    rw [prevWalk_null] at hWalk
    change prevWalk K key gxBtreeMaxNodeReads t.header.root none (-1) t = _ at hWalk
    rw [hWalk, KeySet.preceding_of_miss hK.strict (A := hW.keySet) hKeys hA.1 hA.2]
    exact ⟨_, rfl⟩

variable (key) in
theorem findNext_run (hReady : t.Ready K.comparison lo) (hReads : t.height + 1 ≤ gxBtreeMaxNodeReads)
    (hLive : curr.Live K.comparison lo t) :
    Answers K.comparison lo t (findNext K key curr t) (hW.keySet.following key) := by
  have hWalk := nextWalk_run key hK hW hReads fun h f e path hE =>
    hReady.next h f e path (hE.hasEntry hW)
  rcases hLive.search hK key with hRestart | ⟨h, f, e, path, rfl, hHit, hHeight, hL, -, hFound⟩
  · rwa [findNext_restart hRestart]
  · have hE : t.HasEntry K.comparison lo h f e path := ⟨hHit.node, hL, hHeight⟩
    rcases findNext_hit hE hFound (by omega) (hReady.next h f e path hE) with hNext | hRun
    · rwa [KeySet.following_of_split hK.strict (A := hW.keySet) hE.keys hHit.equal]
    · rwa [hRun]

variable (key) in
theorem findPrev_run (hReady : t.Ready K.comparison lo) (hReads : 2 * t.height ≤ gxBtreeMaxNodeReads)
    (hLive : curr.Live K.comparison lo t) :
    Answers K.comparison lo t (findPrev K key curr t) (hW.keySet.preceding key) := by
  have hWalk := prevWalk_run key hK hW hReads fun h f e path hE =>
    hReady.prev h f e path (hE.hasEntry hW)
  rcases hLive.search hK key with hRestart | ⟨h, f, e, path, rfl, hHit, hHeight, hL, -, hFound⟩
  · rwa [findPrev_restart hRestart]
  · have hE : t.HasEntry K.comparison lo h f e path := ⟨hHit.node, hL, hHeight⟩
    rcases findPrev_hit hE hFound (by omega) (hReady.prev h f e path hE) with hPrev | hRun
    · rwa [KeySet.preceding_of_split hK.strict (A := hW.keySet) hE.keys hHit.equal]
    · rwa [hRun]

end Ready

end Curr

/-! ## Trees without empty nodes -/

section Full

variable {t : Btree κ}

section Entry

variable {h : Nat} {f : Frame κ} {e : DatabaseKey κ} {path : List (Frame κ)}
  (hE : t.HasEntry C 1 h f e path)

include hE

theorem nextReady_of_keys : nextReady t.f.node e h := by
  cases h with
  | zero => trivial
  | succ h =>
    have hNode : t.f.node f.address = some ⟨f.leftChild, (f.before ++ [e]) ++ f.after⟩ := by
      simpa using hE.node
    have hRight := (hE.located.down hNode).sub
    rw [lastBranch_concat, topKeys_cons] at hRight
    exact firstEntry_isSome hRight

theorem prevReady_of_keys : prevReady t.f.node f h := by
  cases h with
  | zero => trivial
  | succ h => exact lastEntry_isSome (hE.located.down hE.node).sub

end Entry

variable (hW : t.WellFormed O C 1)

include hW

theorem firstReady_of_keys : firstReady t := by
  obtain ⟨hSucc, hL⟩ := hW.root_located
  by_cases hEmpty : t.keys = []
  · exact .inl hEmpty
  · right
    obtain ⟨n, hn, hTop, -, hB⟩ := hL.sub.at_node
    cases hh : t.height - 1 with
    | zero =>
      rw [firstEntry, hn, Option.bind_some, List.isSome_head?]
      intro hNil
      apply hEmpty
      rw [Btree.keys, ← hSucc, hh, keysFrom_at hn, inorder_last, hNil]
      rfl
    | succ h =>
      rw [firstEntry, hn, Option.bind_some]
      rw [hh] at hB
      exact firstEntry_isSome (hB _ List.mem_cons_self)

theorem lastReady_of_keys : lastReady t := by
  obtain ⟨hSucc, hL⟩ := hW.root_located
  by_cases hEmpty : t.keys = []
  · exact .inl hEmpty
  · right
    obtain ⟨n, hn, hTop, -, hB⟩ := hL.sub.at_node
    cases hh : t.height - 1 with
    | zero =>
      rw [lastEntry, hn, Option.bind_some, List.getLast?_isSome]
      intro hNil
      apply hEmpty
      rw [Btree.keys, ← hSucc, hh, keysFrom_at hn, inorder_last, hNil]
      rfl
    | succ h =>
      rw [lastEntry, hn, Option.bind_some]
      rw [hh] at hB
      exact lastEntry_isSome (hB _ (lastBranch_mem n))

theorem ready_of_keys : t.Ready C 1 where
  first := firstReady_of_keys hW
  last := lastReady_of_keys hW
  next _ _ _ _ hE := .inl (nextReady_of_keys hE)
  prev _ _ _ _ hE := prevReady_of_keys hE

end Full

end DataReel
