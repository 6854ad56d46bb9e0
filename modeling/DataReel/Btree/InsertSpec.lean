import DataReel.Btree.Insert
import DataReel.Btree.Invariant

/-! # What insertion does to the tree -/

namespace DataReel

open BtreeNode

variable {κ : Type} {K : KeyClass κ}

/-! ## The walk to the leaf -/

/-- The node that the walk along a path read last. -/
def lastNode : List (Frame κ) → BtreeNode κ
  | [] => BtreeNode.new
  | f :: _ => f.node

/-- The key location in that node. -/
def lastLocation : List (Frame κ) → Int
  | [] => 0
  | f :: _ => (f.before.length : Int) - 1

theorem insertWalk_descent (hK : K.StrictOrder) {key : κ} {t : Btree κ} {h h' : Nat} {a a' : FAU}
    {path path' : List (Frame κ)}
    (hD : Descent K.comparison key t.f.node t.order h a path h' a' path') (reads : Nat) :
    insertWalk K key (reads + h) a (lastNode path) (lastLocation path) (path.map Frame.address) t =
      insertWalk K key (reads + h') a' (lastNode path') (lastLocation path')
        (path'.map Frame.address) t := by
  induction hD with
  | refl => rfl
  | @down h f path h' a' path' hNull hNode hCount hBefore hAfter hRest ih =>
    rw [← ih, ← Nat.add_assoc, insertWalk, if_neg hNull, Exec.bind_ok (readNode_run hNode hCount)]
    have hMiss : f.node.findKeyLocation K key = _ := findKeyLocation_miss hK hBefore hAfter
    simp only [hMiss]
    rw [if_neg (rv_miss _), f.getBranch_child, Exec.bind_ok (access_some _ _)]
    rfl

theorem insertWalk_hit (hK : K.StrictOrder) {key : κ} {t : Btree κ} {f : Frame κ}
    {e : DatabaseKey κ} (hNull : f.address ≠ 0) (hHit : Hit K.comparison key t.f.node f e)
    (hCount : (f.before ++ e :: f.after).length ≤ t.order) (reads : Nat) (curr : BtreeNode κ)
    (loc : Int) (stack : List FAU) :
    insertWalk K key (reads + 1) f.address curr loc stack t =
      .error (.error .duplicateEntry) t := by
  rw [insertWalk, if_neg hNull, Exec.bind_ok (readNode_run hHit.node hCount)]
  have hFound := findKeyLocation_hit (c := f.leftChild) hK hHit.before hHit.equal hHit.after
  simp only [hFound]
  rfl

theorem insertWalk_null (key : κ) (t : Btree κ) (reads : Nat) (curr : BtreeNode κ) (loc : Int)
    (stack : List FAU) :
    insertWalk K key reads 0 curr loc stack t = .ok (curr, loc, stack, reads) t := by
  cases reads with
  | zero => rfl
  | succ reads => rfl

/-! ## Splitting a full node -/

section Split

variable {m : Nat} {order : Int} {c : FAU} {l r : List (DatabaseKey κ)} {key : DatabaseKey κ}

theorem splitInsert_past {l₁ l₂ : List (DatabaseKey κ)} {x : DatabaseKey κ}
    (hSplit : (if (l.length : Int) < order.tdiv 2 then order.tdiv 2 - 1 else order.tdiv 2) =
      (l₁.length : Int)) (hl : l = l₁ ++ x :: l₂) (hm : (l ++ r).length ≤ m) :
    splitInsert m order ⟨c, l ++ r⟩ key l.length =
      some (⟨c, l₁⟩, ⟨x.rightChild, l₂ ++ key :: r⟩, x) := by
  have hNode : l ++ r = l₁ ++ x :: (l₂ ++ r) := by simp [hl]
  have hLength : l.length = l₁.length + l₂.length + 1 := by
    simp [hl]
    omega
  have hRoom : (l₂ ++ r).length < m := by
    simp only [List.length_append] at hm ⊢
    omega
  have hAt := insertDatabaseKey_at m 0 l₂ r key hRoom
  have hLoc : (l.length : Int) - l₁.length - 1 = l₂.length := by omega
  simp only [splitInsert, hSplit, hNode, splitNode_at, Option.bind_eq_bind, Option.bind_some,
    loadKey_first, deleteDatabaseKey_first, BtreeNode.new, hLoc, hAt]
  rw [if_pos (by omega)]

theorem splitInsert_before {r₁ r₂ : List (DatabaseKey κ)} {x : DatabaseKey κ}
    (hSplit : (if (l.length : Int) < order.tdiv 2 then order.tdiv 2 - 1 else order.tdiv 2) =
      ((l ++ r₁).length : Int)) (hr : r = r₁ ++ x :: r₂) (hl : 0 < r₁.length)
    (hm : (l ++ r).length ≤ m) :
    splitInsert m order ⟨c, l ++ r⟩ key l.length =
      some (⟨c, l ++ key :: r₁⟩, ⟨x.rightChild, r₂⟩, x) := by
  have hNode : l ++ r = (l ++ r₁) ++ x :: r₂ := by simp [hr]
  have hRoom : (l ++ r₁).length < m := by
    rw [hNode] at hm
    simp only [List.length_append, List.length_cons] at hm ⊢
    omega
  have hAt := insertDatabaseKey_at m c l r₁ key hRoom
  simp only [splitInsert, hSplit, hNode, splitNode_at, Option.bind_eq_bind, Option.bind_some,
    loadKey_first, deleteDatabaseKey_first, BtreeNode.new, hAt]
  simp only [List.length_append]
  rw [if_neg (by omega), if_pos (by omega)]

theorem splitInsert_same
    (hSplit : (if (l.length : Int) < order.tdiv 2 then order.tdiv 2 - 1 else order.tdiv 2) =
      (l.length : Int)) :
    splitInsert m order ⟨c, l ++ r⟩ key l.length = some (⟨c, l⟩, ⟨key.rightChild, r⟩, key) := by
  simp only [splitInsert, hSplit, splitNode_at, Option.bind_eq_bind, Option.bind_some]
  rw [if_neg (by omega), if_neg (by omega)]

theorem exists_split {α : Type} {l : List α} {i : Nat} (h : i < l.length) :
    ∃ l₁ x l₂, l = l₁ ++ x :: l₂ ∧ l₁.length = i :=
  ⟨l.take i, l[i], l.drop (i + 1), by simp, by simp; omega⟩

/-- The entries that the left half of a split node keeps when the new entry goes to `loc`. -/
def splitLeft (order : Int) (loc : Nat) : Nat :=
  (if (loc : Int) = order.tdiv 2 - 1 then order.tdiv 2 - 1 else order.tdiv 2).toNat

theorem splitLeft_bounds (hOrder : 5 ≤ order) (hm : (m : Int) = order - 1) (loc : Nat) :
    1 ≤ splitLeft order loc ∧ 1 + splitLeft order loc ≤ m := by
  rw [splitLeft, Int.tdiv_eq_ediv_of_nonneg (by omega)]
  split <;> omega

/-- Wherever the entry goes, the two halves with the middle entry between them are the node with
the entry inserted. -/
theorem splitInsert_run (hSome : 1 ≤ splitLeft order l.length) (hRoom : 1 + splitLeft order l.length ≤ m)
    (hFull : (l ++ r).length = m) :
    ∃ L mid R, l ++ key :: r = L ++ mid :: R ∧ L.length = splitLeft order l.length ∧ L ≠ [] ∧ R ≠ [] ∧
      splitInsert m order ⟨c, l ++ r⟩ key l.length =
        some (⟨c, L⟩, ⟨mid.rightChild, R⟩, mid) := by
  rw [List.length_append] at hFull
  obtain ⟨s, hs⟩ : ∃ s : Nat,
      (if (l.length : Int) < order.tdiv 2 then order.tdiv 2 - 1 else order.tdiv 2) = (s : Int) := by
    refine ⟨(if (l.length : Int) < order.tdiv 2 then order.tdiv 2 - 1 else order.tdiv 2).toNat, ?_⟩
    rw [splitLeft] at hSome
    split at hSome <;> split <;> omega
  have hLeft : splitLeft order l.length = if l.length < s then s + 1 else s := by
    rw [splitLeft] at hSome ⊢
    split at hs <;> split <;> split <;> omega
  rw [hLeft] at hSome hRoom
  rcases Nat.lt_trichotomy s l.length with hLt | hEq | hGt
  · rw [if_neg (by omega)] at hSome
    obtain ⟨l₁, x, l₂, hl, hl₁⟩ := exists_split hLt
    refine ⟨l₁, x, l₂ ++ key :: r, by simp [hl], ?_, ?_, by simp,
      splitInsert_past (hl₁ ▸ hs) hl (by simp; omega)⟩
    · rw [hLeft, if_neg (by omega), hl₁]
    · exact List.ne_nil_of_length_pos (by omega)
  · rw [if_neg (by omega)] at hSome hRoom
    refine ⟨l, key, r, rfl, ?_, ?_, ?_, splitInsert_same (hEq ▸ hs)⟩
    · rw [hLeft, if_neg (by omega), hEq]
    · exact List.ne_nil_of_length_pos (by omega)
    · exact List.ne_nil_of_length_pos (by omega)
  · rw [if_pos hGt] at hRoom
    obtain ⟨r₁, x, r₂, hr, hr₁⟩ := exists_split (l := r) (i := s - l.length) (by omega)
    have hLength : r.length = r₁.length + r₂.length + 1 := by
      simp [hr]
      omega
    refine ⟨l ++ key :: r₁, x, r₂, by simp [hr], ?_, by simp, ?_, splitInsert_before ?_ hr ?_ ?_⟩
    · rw [hLeft, if_pos hGt, List.length_append, List.length_cons]
      omega
    · exact List.ne_nil_of_length_pos (by omega)
    · rw [hs, List.length_append]
      omega
    · omega
    · simp
      omega

/-- The splits on the way up, as long as the nodes are full, leave each half `lo` entries. -/
def splitsKeep (lo m : Nat) (order : Int) : List (Frame κ) → Prop
  | [] => True
  | f :: path => f.node.keyCount = m →
    lo ≤ splitLeft order f.before.length ∧ lo + splitLeft order f.before.length ≤ m ∧
      splitsKeep lo m order path

theorem splitsKeep_of_le_one {lo : Nat} (hOrder : 5 ≤ order) (hm : (m : Int) = order - 1)
    (hLo : lo ≤ 1) (path : List (Frame κ)) : splitsKeep lo m order path := by
  induction path with
  | nil => trivial
  | cons f path ih =>
    obtain ⟨hLeft, hRight⟩ := splitLeft_bounds hOrder hm f.before.length
    exact fun _ => ⟨by omega, by omega, ih⟩

end Split

end DataReel
