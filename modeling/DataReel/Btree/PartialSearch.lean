import DataReel.Btree.Searches

/-! # Searching for the least key that is not below another one

`PartialFind` goes down like `FindNext`. When it falls off a leaf it goes on
from the last node it read, as if the key before the branch taken had matched.
-/

namespace DataReel

open BtreeNode

variable {κ : Type} {O : OtherTrees κ} {K : KeyClass κ} {lo : Nat} {t : Btree κ} {key : κ}

/-- The node that was read last on a path, with the location of the branch taken. -/
def lastRead : List (Frame κ) → CurrNode κ × Int
  | [] => (CurrNode.new, 0)
  | f :: _ => (⟨f.address, f.node⟩, (f.before.length : Int) - 1)

theorem partialWalk_descent (hK : K.StrictOrder) {h h' : Nat} {a a' : FAU}
    {path path' : List (Frame κ)}
    (hD : Descent K.comparison key t.f.node t.order h a path h' a' path') (reads : Nat) :
    partialWalk K key (reads + h) a (lastRead path).1 (lastRead path).2 (savedNext path).1
        (savedNext path).2 t =
      partialWalk K key (reads + h') a' (lastRead path').1 (lastRead path').2 (savedNext path').1
        (savedNext path').2 t := by
  induction hD with
  | refl => rfl
  | @down h f path h' a' path' hNull hNode hCount hBefore hAfter hRest ih =>
    rw [← ih, ← Nat.add_assoc, partialWalk, if_neg hNull, Exec.bind_ok (readNode_run hNode hCount)]
    have hMiss : f.node.findKeyLocation K key = _ := findKeyLocation_miss hK hBefore hAfter
    simp only [hMiss]
    rw [if_neg (rv_miss _), f.getBranch_child, Exec.bind_ok (access_some _ _), savedNext_down]
    split <;> rfl

theorem partialWalk_null (reads : Nat) (curr : CurrNode κ) (loc : Int) (parent : FAU) (sav : Int) :
    partialWalk K key reads 0 curr loc parent sav = nextOf reads curr loc parent sav := by
  cases reads <;> rfl

theorem lastRead_live (hW : t.WellFormed O K.comparison lo) {path : List (Frame κ)}
    (hD : Descent K.comparison key t.f.node t.order t.height t.header.root [] 0 0 path) :
    (lastRead path).1.Live K.comparison lo t := by
  cases path with
  | nil => exact CurrNode.live_new lo t
  | cons f path =>
    have hL := hD.located hW.located
    have hHeight := hD.height
    obtain ⟨-, -, hNode, -⟩ := hL.reach
    rw [List.length_cons, List.length_nil] at hHeight
    exact .inr ⟨0, path, by omega, hNode, hL.up⟩

theorem nextOf_null {f : Frame κ} {path : List (Frame κ)}
    (hP : PathTo t.f.node lo t.order t.header.root 0 0 (f :: path))
    (hLive : CurrNode.Live K.comparison lo t ⟨f.address, f.node⟩) (reads : Nat) :
    Answers K.comparison lo t
      (nextOf (reads + 1) ⟨f.address, f.node⟩ ((f.before.length : Int) - 1)
        (savedNext (f :: path)).1 (savedNext (f :: path)).2 t)
      (keysAfter t.f.node 0 (f :: path)).head? := by
  have hCount := f.keyCount_node
  have hParent := loadFromParent_run hP reads ⟨f.address, f.node⟩
  rw [nextOf, f.getBranch_child, Exec.bind_ok (access_some _ _), if_neg (not_not_intro hP.1)]
  cases hAfter : f.after with
  | nil =>
    rw [hAfter, List.length_nil] at hCount
    rw [if_neg (by simp only [hCount]; omega)]
    rcases hParent with ⟨hEnd, hRun⟩ | ⟨x, hHead, hRun⟩
    · rw [hEnd]
      exact ⟨_, hRun⟩
    · rw [hHead]
      exact ⟨x, _, hRun, rfl, hLive⟩
  | cons x r =>
    rw [hAfter, List.length_cons] at hCount
    have hLoad : f.node.loadKey ((f.before.length : Int) - 1 + 1) = some x := by
      rw [Int.sub_add_cancel, Frame.node, hAfter, loadKey_at]
    rw [if_pos (by simp only [hCount]; omega), hLoad, Exec.bind_ok (access_some _ _), keysAfter,
      hAfter, tailKeys_cons]
    exact ⟨x, _, rfl, rfl, hLive⟩

theorem partialFind_run (hK : K.StrictOrder) (hW : t.WellFormed O K.comparison lo)
    (hReads : t.height + 1 ≤ gxBtreeMaxNodeReads) (key : κ) :
    Answers K.comparison lo t (partialFind K key t) (hW.keySet.atLeast key) := by
  obtain ⟨n, hn⟩ : ∃ n, gxBtreeMaxNodeReads = n + 1 + t.height :=
    ⟨gxBtreeMaxNodeReads - (t.height + 1), by omega⟩
  have hStart : partialFind K key t = partialWalk K key (n + 1 + t.height) t.header.root
      CurrNode.new 0 0 0 t := by
    rw [partialFind, Exec.bind_ok (Exec.get_run _), hn]
  rcases hW.search hK.strict key with ⟨h, f, e, path, hE⟩ | ⟨path, hD, hKeys, hA⟩
  · have hL := hE.located hW
    have hFound := findKeyLocation_hit (c := f.leftChild) hK hE.hit.before hE.hit.equal hE.hit.after
    have hWalk : partialWalk K key (n + 1 + t.height) t.header.root CurrNode.new 0 0 0 t = _ :=
      partialWalk_descent hK hE.descent (n + 1)
    rw [← Nat.add_assoc, partialWalk, if_neg hL.sub.nonzero,
      Exec.bind_ok (readNode_run hE.hit.node (hE.hit.count hL))] at hWalk
    simp only [hFound, if_true] at hWalk
    rw [loadKey_at, Exec.bind_ok (access_some _ _)] at hWalk
    have hLeast : hW.keySet.atLeast key = some e.dbKey := by
      rw [KeySet.atLeast, KeySet.find_of_split hK.strict (A := hW.keySet) (hE.keys hW) hE.hit.equal,
        Option.some_or]
    rw [hLeast]
    exact ⟨e, _, hStart.trans hWalk, rfl, entry_live hE.hit.node hL hE.height⟩
  · have hWalk : partialWalk K key (n + 1 + t.height) t.header.root CurrNode.new 0 0 0 t = _ :=
      partialWalk_descent hK hD (n + 1)
    have hLeast : hW.keySet.atLeast key = (keysAfter t.f.node 0 path).head? := by
      rw [KeySet.atLeast, KeySet.find_of_miss hK.strict (A := hW.keySet) hKeys hA.1 hA.2,
        Option.none_or, KeySet.next_of_miss hK.strict (A := hW.keySet) hKeys hA.1 hA.2]
    rw [hLeast, hStart, hWalk, partialWalk_null]
    cases path with
    | nil =>
      have hHeight := hD.height
      have hPos := hW.root_located.1
      simp only [List.length_nil] at hHeight
      omega
    | cons f path =>
      exact nextOf_null (hD.located hW.located).reach (lastRead_live hW hD) n

end DataReel
