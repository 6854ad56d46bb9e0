import DataReel.Btree.Ends

/-! # The walks from the root

There are no parent pointers, so `FindNext` and `FindPrev` remember on the way
down the last node that has a key on the right side of the branch taken.
-/

namespace DataReel

open BtreeNode

variable {κ : Type} {O : OtherTrees κ} {K : KeyClass κ} {C : Comparison κ} {lo : Nat}

/-- What a search is to pass back: the key with a node the next search may start from, or 0. -/
def Answers (C : Comparison κ) (lo : Nat) (t : Btree κ)
    (r : EStateM.Result Halt (Btree κ) (DatabaseKey κ × CurrNode κ)) : Option κ → Prop
  | none => ∃ e, r = .error (.error e) t
  | some k => ∃ x curr, r = .ok (x, curr) t ∧ x.dbKey = k ∧ curr.Live C lo t

/-! ## Remembered nodes -/

/-- The node that `FindNext` remembers on a path, with the location of the branch taken. -/
def savedNext : List (Frame κ) → FAU × Int
  | [] => (0, 0)
  | f :: path => if f.after = [] then savedNext path else (f.address, (f.before.length : Int) - 1)

/-- The copy of a node that `FindPrev` remembers. -/
def savedPrev : List (Frame κ) → Option (BtreeNode κ) × Int
  | [] => (none, -1)
  | f :: path =>
    if f.before = [] then savedPrev path else (some f.node, (f.before.length : Int) - 1)

theorem savedNext_down (f : Frame κ) (path : List (Frame κ)) :
    savedNext (f :: path) =
      if (f.before.length : Int) - 1 < (f.node.keyCount : Int) - 1 then
        (f.address, (f.before.length : Int) - 1) else savedNext path := by
  rw [savedNext, f.keyCount_node]
  by_cases hAfter : f.after = []
  · rw [if_pos hAfter, if_neg (by simp [hAfter])]
  · have hLength := List.length_pos_iff.mpr hAfter
    rw [if_neg hAfter, if_pos (by omega)]

theorem nextWalk_descent (hK : K.StrictOrder) {key : κ} {t : Btree κ} {h h' : Nat} {a a' : FAU}
    {path path' : List (Frame κ)}
    (hD : Descent K.comparison key t.f.node t.order h a path h' a' path') (reads : Nat) :
    nextWalk K key (reads + h) a (savedNext path).1 (savedNext path).2 t =
      nextWalk K key (reads + h') a' (savedNext path').1 (savedNext path').2 t := by
  induction hD with
  | refl => rfl
  | @down h f path h' a' path' hNull hNode hCount hBefore hAfter hRest ih =>
    rw [← ih, ← Nat.add_assoc, nextWalk, if_neg hNull, Exec.bind_ok (readNode_run hNode hCount)]
    have hMiss : f.node.findKeyLocation K key = _ := findKeyLocation_miss hK hBefore hAfter
    simp only [hMiss]
    rw [if_neg (rv_miss _), f.getBranch_child, Exec.bind_ok (access_some _ _), savedNext_down]
    split <;> rfl

theorem prevWalk_descent (hK : K.StrictOrder) {key : κ} {t : Btree κ} {h h' : Nat} {a a' : FAU}
    {path path' : List (Frame κ)}
    (hD : Descent K.comparison key t.f.node t.order h a path h' a' path') {reads : Nat}
    (hReads : 2 * h ≤ reads) :
    ∃ reads', 2 * h' ≤ reads' ∧ prevWalk K key reads a (savedPrev path).1 (savedPrev path).2 t =
      prevWalk K key reads' a' (savedPrev path').1 (savedPrev path').2 t := by
  induction hD generalizing reads with
  | refl => exact ⟨reads, hReads, rfl⟩
  | @down h f path h' a' path' hNull hNode hCount hBefore hAfter hRest ih =>
    obtain ⟨reads, rfl⟩ : ∃ r, reads = r + 1 + 1 := ⟨reads - 2, by omega⟩
    have hMiss : f.node.findKeyLocation K key = _ := findKeyLocation_miss hK hBefore hAfter
    by_cases hFirst : f.before = []
    · obtain ⟨reads', hReads', hRun⟩ := ih (show 2 * h ≤ reads + 1 by omega)
      refine ⟨reads', hReads', ?_⟩
      rw [← hRun, prevWalk, if_neg hNull, Exec.bind_ok (readNode_run hNode hCount)]
      simp only [hMiss]
      rw [if_neg (rv_miss _), if_neg (by simp [hFirst]), f.getBranch_child,
        Exec.bind_ok (access_some _ _), savedPrev, if_pos hFirst]
    · have hLength := List.length_pos_iff.mpr hFirst
      obtain ⟨reads', hReads', hRun⟩ := ih (show 2 * h ≤ reads by omega)
      refine ⟨reads', hReads', ?_⟩
      rw [← hRun, prevWalk, if_neg hNull, Exec.bind_ok (readNode_run hNode hCount)]
      simp only [hMiss]
      rw [if_neg (rv_miss _), if_pos (by rw [if_neg (by omega)]; omega),
        Exec.bind_ok (readNode_run hNode hCount), f.getBranch_child, Exec.bind_ok (access_some _ _),
        savedPrev, if_neg hFirst]

section Saved

variable {t : Btree κ} {h : Nat} {a : FAU} {path : List (Frame κ)}

theorem loadFromParent_run (hP : PathTo t.f.node lo t.order t.header.root h a path) (reads : Nat)
    (curr : CurrNode κ) :
    (keysAfter t.f.node h path = [] ∧
      loadFromParent (reads + 1) (savedNext path).1 (savedNext path).2 curr t =
        .error (.error .entryNotFound) t) ∨
    ∃ x, (keysAfter t.f.node h path).head? = some x.dbKey ∧
      loadFromParent (reads + 1) (savedNext path).1 (savedNext path).2 curr t = .ok (x, curr) t := by
  induction path generalizing h a with
  | nil => exact .inl ⟨rfl, rfl⟩
  | cons f path ih =>
    obtain ⟨-, hNull, hNode, -, hm, -, hP⟩ := hP
    rw [savedNext, keysAfter]
    cases hAfter : f.after with
    | nil =>
      rw [if_pos rfl, tailKeys_nil, List.nil_append]
      exact ih hP
    | cons x r =>
      have hCount := f.keyCount_node
      rw [hAfter, List.length_cons] at hCount
      have hLoad : f.node.loadKey ((f.before.length : Int) - 1 + 1) = some x := by
        rw [Int.sub_add_cancel, Frame.node, hAfter, loadKey_at]
      refine .inr ⟨x, by rw [tailKeys_cons]; rfl, ?_⟩
      rw [if_neg (by simp)]
      dsimp only
      rw [loadFromParent, if_neg hNull, Exec.bind_ok (readNode_run hNode hm), if_neg (by omega),
        if_neg (by omega), hLoad, Exec.bind_ok (access_some _ _)]
      rfl

theorem savedPrev_load (g : NodeMap κ) (h : Nat) (path : List (Frame κ)) :
    (keysBefore g h path = [] ∧ (savedPrev path).1 = none) ∨
    ∃ n x, (savedPrev path).1 = some n ∧ n.loadKey (savedPrev path).2 = some x ∧
      (keysBefore g h path).getLast? = some x.dbKey := by
  induction path generalizing h with
  | nil => exact .inl ⟨rfl, rfl⟩
  | cons f path ih =>
    rw [savedPrev, keysBefore]
    rcases List.eq_nil_or_concat f.before with hBefore | ⟨l, x, hBefore⟩
    · rw [if_pos hBefore, hBefore, initKeys, List.append_nil]
      exact ih (h + 1)
    · rw [List.concat_eq_append] at hBefore
      refine .inr ⟨f.node, x, ?_, ?_, ?_⟩
      · rw [if_neg (by simp [hBefore])]
      · rw [if_neg (by simp [hBefore]), Frame.node, hBefore, List.length_append,
          List.length_singleton, List.append_assoc, List.singleton_append]
        have hLoad := loadKey_at f.leftChild l f.after x
        rwa [show ((l.length + 1 : Nat) : Int) - 1 = l.length by omega]
      · rw [hBefore, initKeys_concat]
        simp

end Saved

/-! ## From an entry to its neighbours -/

/-- The leaf that holds the key after an entry at height `h + 1` has a key to load. -/
def nextReady (g : NodeMap κ) (e : DatabaseKey κ) : Nat → Prop
  | 0 => True
  | h + 1 => (firstEntry g h e.rightChild).isSome

/-- The same for the key before the entry that a frame is cut at. -/
def prevReady (g : NodeMap κ) (f : Frame κ) : Nat → Prop
  | 0 => True
  | h + 1 => (lastEntry g h f.child).isSome

theorem loadKey_highestKey (n : BtreeNode κ) : n.loadKey n.highestKey = n.keyEntries.getLast? := by
  obtain ⟨c, l⟩ := n
  rcases List.eq_nil_or_concat l with rfl | ⟨l, x, rfl⟩
  · rfl
  · have hHighest : (⟨c, l ++ [x]⟩ : BtreeNode κ).highestKey = l.length := by
      simp [highestKey, keyCount]
    rw [List.concat_eq_append, hHighest, loadKey_at, List.getLast?_concat]

section Entry

variable {t : Btree κ} {h : Nat} {f : Frame κ} {e : DatabaseKey κ} {path : List (Frame κ)}
  (hn : t.f.node f.address = some ⟨f.leftChild, f.before ++ e :: f.after⟩)
  (hL : Located C t.f.node lo t.order t.header.root (h + 1) f.address path)
  (hHeight : path.length + (h + 1) = t.height)

include hn hL hHeight

theorem entry_live : CurrNode.Live C lo t ⟨f.address, ⟨f.leftChild, f.before ++ e :: f.after⟩⟩ :=
  .inr ⟨h, path, hHeight, hn, hL⟩

theorem nextOf_run {reads : Nat} (hReads : h + 1 ≤ reads) :
    (nextReady t.f.node e h → Answers C lo t
      (nextOf reads ⟨f.address, ⟨f.leftChild, f.before ++ e :: f.after⟩⟩ f.before.length
        (savedNext path).1 (savedNext path).2 t) (f.keysRight t.f.node h e path).head?) ∧
    (¬ nextReady t.f.node e h →
      nextOf reads ⟨f.address, ⟨f.leftChild, f.before ++ e :: f.after⟩⟩ f.before.length
        (savedNext path).1 (savedNext path).2 t = .error (.error .entryNotFound) t) := by
  have hLive := entry_live hn hL hHeight
  have hRight := hL.down (l := f.before ++ [e]) (r := f.after) (by simpa using hn)
  rw [lastBranch_concat] at hRight
  rw [nextOf, getBranch_at, Exec.bind_ok (access_some _ _)]
  cases h with
  | zero =>
    refine ⟨fun _ => ?_, fun hNot => absurd trivial hNot⟩
    rw [if_neg (not_not_intro (Subtree.zero_iff.mp hRight.sub)), Frame.keysRight, keysFrom,
      List.nil_append]
    cases hAfter : f.after with
    | nil =>
      rw [if_neg (by simp [keyCount]), tailKeys_nil, List.nil_append]
      obtain ⟨reads, rfl⟩ : ∃ r, reads = r + 1 := ⟨reads - 1, by omega⟩
      rcases loadFromParent_run hL.reach reads
        ⟨f.address, ⟨f.leftChild, f.before ++ e :: f.after⟩⟩ with ⟨hEmpty, hRun⟩ | ⟨x, hHead, hRun⟩
      · rw [hAfter] at hRun
        rw [hRun, hEmpty]
        exact ⟨_, rfl⟩
      · rw [hAfter] at hRun
        rw [hRun, hHead]
        exact ⟨x, _, rfl, rfl, hAfter ▸ hLive⟩
    | cons x r =>
      have hLoad : (⟨f.leftChild, f.before ++ e :: x :: r⟩ : BtreeNode κ).loadKey
          ((f.before.length : Int) + 1) = some x := by
        have hAt := loadKey_at f.leftChild (f.before ++ [e]) r x
        simpa using hAt
      have hCount : (f.before.length : Int) <
          (keyCount ⟨f.leftChild, f.before ++ e :: x :: r⟩ : Int) - 1 := by
        simp only [keyCount, List.length_append, List.length_cons]
        omega
      rw [if_pos hCount, hLoad, Exec.bind_ok (access_some _ _), tailKeys_cons]
      exact ⟨x, _, rfl, rfl, hAfter ▸ hLive⟩
  | succ h =>
    obtain ⟨reads, rfl⟩ : ∃ r, reads = r + (h + 1) := ⟨reads - (h + 1), by omega⟩
    rw [if_pos hRight.sub.nonzero, nextReady]
    rcases loadLeftmost_run hRight (by rw [List.length_cons]; omega) reads with
      ⟨hNone, hRun⟩ | ⟨x, curr, hSome, hRun, hLive'⟩
    · refine ⟨fun hReady => absurd hReady (by simp [hNone]), fun _ => hRun⟩
    · refine ⟨fun _ => ?_, fun hNot => absurd (by simp [hSome]) hNot⟩
      rw [hRun, Frame.keysRight, List.head?_append, List.head?_append, head?_of_firstEntry hSome]
      exact ⟨x, curr, rfl, rfl, hLive'⟩

theorem loadRightmost_run {h' : Nat} (hh : h = h' + 1) {reads : Nat} (hReads : h + 1 ≤ reads) :
    ((lastEntry t.f.node h' f.child).isSome → Answers C lo t
      (loadRightmost reads ⟨f.address, ⟨f.leftChild, f.before ++ e :: f.after⟩⟩
        ((f.before.length : Int) - 1) t) (f.keysLeft t.f.node h path).getLast?) ∧
    (¬ (lastEntry t.f.node h' f.child).isSome →
      loadRightmost reads ⟨f.address, ⟨f.leftChild, f.before ++ e :: f.after⟩⟩
        ((f.before.length : Int) - 1) t = .error .badEntry t) := by
  subst hh
  have hBranch := getBranch_last f.leftChild f.before (e :: f.after)
    ⟨f.leftChild, f.before ++ e :: f.after⟩ rfl
  have hLeft := hL.down hn
  obtain ⟨reads, rfl⟩ : ∃ r, reads = r + (h' + 1) := ⟨reads - (h' + 1), by omega⟩
  obtain ⟨curr, hRun, hLive, hLast⟩ := rightmost_run hLeft (by rw [List.length_cons]; omega) reads
  rw [loadRightmost, hBranch, Exec.bind_ok (access_some _ _), if_neg hLeft.sub.nonzero,
    Exec.bind_ok hRun, loadKey_highestKey, hLast]
  change (Option.isSome (lastEntry t.f.node h' (lastBranch f.leftChild f.before)) → _) ∧
    (¬ Option.isSome (lastEntry t.f.node h' (lastBranch f.leftChild f.before)) → _)
  cases hEntry : lastEntry t.f.node h' (lastBranch f.leftChild f.before) with
  | none => exact ⟨fun hReady => absurd hReady (by simp), fun _ => rfl⟩
  | some x =>
    refine ⟨fun _ => ?_, fun hNot => absurd rfl hNot⟩
    have hKeys := getLast?_of_lastEntry hEntry
    rw [Exec.bind_ok (access_some _ _), Frame.keysLeft, Frame.child, List.getLast?_append,
      List.getLast?_append, hKeys]
    exact ⟨x, curr, rfl, rfl, hLive⟩

theorem prevOf_run {reads : Nat} (hReads : h + 1 ≤ reads) :
    (prevReady t.f.node f h → Answers C lo t
      (prevOf reads ⟨f.address, ⟨f.leftChild, f.before ++ e :: f.after⟩⟩ f.before.length
        (savedPrev path).1 (savedPrev path).2 t) (f.keysLeft t.f.node h path).getLast?) ∧
    (¬ prevReady t.f.node f h →
      prevOf reads ⟨f.address, ⟨f.leftChild, f.before ++ e :: f.after⟩⟩ f.before.length
        (savedPrev path).1 (savedPrev path).2 t = .error .badEntry t) := by
  have hLive := entry_live hn hL hHeight
  have hBranch := getBranch_last f.leftChild f.before (e :: f.after)
    ⟨f.leftChild, f.before ++ e :: f.after⟩ rfl
  have hLeft := hL.down hn
  cases h with
  | zero =>
    have hNull : lastBranch f.leftChild f.before = 0 := Subtree.zero_iff.mp hLeft.sub
    refine ⟨fun _ => ?_, fun hNot => absurd trivial hNot⟩
    rw [prevOf.eq_def, Frame.keysLeft, keysFrom, List.append_nil]
    rcases List.eq_nil_or_concat f.before with hBefore | ⟨l, x, hBefore⟩
    · rw [hBefore] at hNull ⊢
      have hNull : f.leftChild = 0 := hNull
      rw [if_neg (by simp), if_neg (not_not_intro hNull), initKeys, List.append_nil]
      rcases savedPrev_load t.f.node 1 path with ⟨hEmpty, hNone⟩ | ⟨n, x, hSome, hLoad, hLast⟩
      · rw [hNone, hEmpty]
        exact ⟨_, rfl⟩
      · rw [hSome, hLast]
        dsimp only
        rw [hLoad, Exec.bind_ok (access_some _ _)]
        exact ⟨x, _, rfl, rfl, hBefore ▸ hLive⟩
    · rw [List.concat_eq_append] at hBefore
      have hLoad : (⟨f.leftChild, f.before ++ e :: f.after⟩ : BtreeNode κ).loadKey
          ((f.before.length : Int) - 1) = some x := by
        have hAt := loadKey_at f.leftChild l (e :: f.after) x
        rw [hBefore, List.length_append, List.length_singleton, List.append_assoc,
          List.singleton_append]
        rwa [show ((l.length + 1 : Nat) : Int) - 1 = l.length by omega]
      have hPos : 0 ≤ (f.before.length : Int) - 1 := by
        rw [hBefore, List.length_append, List.length_singleton]
        omega
      rw [if_pos hPos, loadRightmost, hBranch, Exec.bind_ok (access_some _ _), if_pos hNull, hLoad,
        Exec.bind_ok (access_some _ _)]
      have hLast : (keysBefore t.f.node 1 path ++
          initKeys (keysFrom t.f.node 0) f.leftChild f.before).getLast? = some x.dbKey := by
        rw [hBefore, initKeys_concat]
        simp
      rw [hLast]
      exact ⟨x, _, rfl, rfl, hLive⟩
  | succ h =>
    have hRun := loadRightmost_run hn hL hHeight rfl hReads
    have hStep : prevOf reads ⟨f.address, ⟨f.leftChild, f.before ++ e :: f.after⟩⟩ f.before.length
        (savedPrev path).1 (savedPrev path).2 t = loadRightmost reads
          ⟨f.address, ⟨f.leftChild, f.before ++ e :: f.after⟩⟩ ((f.before.length : Int) - 1) t := by
      rw [prevOf.eq_def]
      split
      · rfl
      · rename_i hFirst
        have hBefore : f.before = [] := List.length_eq_zero_iff.mp (by omega)
        have hNull : f.leftChild ≠ 0 := by
          have hChild := hLeft.sub.nonzero
          rwa [hBefore] at hChild
        rw [if_pos hNull, hBefore]
        rfl
    rw [hStep]
    exact hRun

end Entry

/-! ## The calls -/

section Calls

variable {t : Btree κ} {key : κ} {h : Nat} {f : Frame κ} {e : DatabaseKey κ} {path : List (Frame κ)}

theorem nextWalk_entry (hK : K.StrictOrder) (hW : t.WellFormed O K.comparison lo)
    (hE : t.EntryAt K.comparison key h f e path) {reads : Nat} (hReads : t.height + 1 ≤ reads) :
    (nextReady t.f.node e h → Answers K.comparison lo t
      (nextWalk K key reads t.header.root 0 0 t) (hW.keySet.following key)) ∧
    (¬ nextReady t.f.node e h →
      nextWalk K key reads t.header.root 0 0 t = .error (.error .entryNotFound) t) := by
  have hL := hE.located hW
  obtain ⟨n, rfl⟩ : ∃ n, reads = n + 1 + t.height := ⟨reads - (t.height + 1), by omega⟩
  have hWalk : nextWalk K key (n + 1 + t.height) t.header.root 0 0 t = _ :=
    nextWalk_descent hK hE.descent (n + 1)
  have hFound := findKeyLocation_hit (c := f.leftChild) hK hE.hit.before hE.hit.equal hE.hit.after
  rw [← Nat.add_assoc, nextWalk, if_neg hL.sub.nonzero,
    Exec.bind_ok (readNode_run hE.hit.node (hE.hit.count hL))] at hWalk
  simp only [hFound] at hWalk
  rw [hWalk, KeySet.following_of_split hK.strict (A := hW.keySet) (hE.keys hW) hE.hit.equal]
  exact nextOf_run hE.hit.node hL hE.height (by omega)

theorem nextWalk_null (reads : Nat) (a : FAU) (loc : Int) :
    nextWalk K key reads 0 a loc t = .error (.error .entryNotFound) t := by
  cases reads with
  | zero => rfl
  | succ reads => rfl

theorem prevWalk_entry (hK : K.StrictOrder) (hW : t.WellFormed O K.comparison lo)
    (hE : t.EntryAt K.comparison key h f e path) {reads : Nat} (hReads : 2 * t.height ≤ reads) :
    (prevReady t.f.node f h → Answers K.comparison lo t
      (prevWalk K key reads t.header.root none (-1) t) (hW.keySet.preceding key)) ∧
    (¬ prevReady t.f.node f h →
      prevWalk K key reads t.header.root none (-1) t = .error .badEntry t) := by
  have hL := hE.located hW
  obtain ⟨reads', hReads', hWalk⟩ := prevWalk_descent hK hE.descent hReads
  obtain ⟨n, rfl⟩ : ∃ n, reads' = n + 1 := ⟨reads' - 1, by omega⟩
  have hFound := findKeyLocation_hit (c := f.leftChild) hK hE.hit.before hE.hit.equal hE.hit.after
  rw [prevWalk, if_neg hL.sub.nonzero,
    Exec.bind_ok (readNode_run hE.hit.node (hE.hit.count hL))] at hWalk
  simp only [hFound] at hWalk
  change prevWalk K key reads t.header.root none (-1) t = _ at hWalk
  rw [hWalk, KeySet.preceding_of_split hK.strict (A := hW.keySet) (hE.keys hW) hE.hit.equal]
  exact prevOf_run hE.hit.node hL hE.height (by omega)

theorem prevWalk_null (reads : Nat) (n : Option (BtreeNode κ)) (loc : Int) :
    prevWalk K key reads 0 n loc t = .error (.error .entryNotFound) t := by
  cases reads with
  | zero => rfl
  | succ reads =>
    rw [prevWalk.eq_def]
    rfl

/-- The leaf at the left end has a key to load, if there is any key. -/
def firstReady (t : Btree κ) : Prop :=
  t.keys = [] ∨ (firstEntry t.f.node (t.height - 1) t.header.root).isSome

def lastReady (t : Btree κ) : Prop :=
  t.keys = [] ∨ (lastEntry t.f.node (t.height - 1) t.header.root).isSome

theorem nKeys_eq_zero_iff (hW : t.WellFormed O C lo) : t.header.nKeys = 0 ↔ t.keys = [] := by
  rw [hW.nKeys, Int.natCast_eq_zero, List.length_eq_zero_iff]

theorem Btree.WellFormed.root_located (hW : t.WellFormed O C lo) :
    t.height - 1 + 1 = t.height ∧
      Located C t.f.node lo t.order t.header.root (t.height - 1 + 1) t.header.root [] := by
  have hPos := hW.height_pos
  have hHeight := hW.height_eq
  have hSucc : t.height - 1 + 1 = t.height := by omega
  refine ⟨hSucc, ?_⟩
  rw [hSucc]
  exact hW.located

theorem findFirst_run (hW : t.WellFormed O C lo) (hReads : t.height ≤ gxBtreeMaxNodeReads) :
    (firstReady t → Answers C lo t (findFirst t) hW.keySet.first) ∧
    (¬ firstReady t → findFirst t = .error (.error .entryNotFound) t) := by
  obtain ⟨hSucc, hL⟩ := hW.root_located
  obtain ⟨n, hn⟩ : ∃ n, gxBtreeMaxNodeReads = n + t.height := ⟨gxBtreeMaxNodeReads - t.height, by omega⟩
  rw [findFirst, Exec.bind_ok (Exec.get_run _), KeySet.first]
  by_cases hEmpty : t.keys = []
  · refine ⟨fun _ => ?_, fun hNot => absurd (.inl hEmpty) hNot⟩
    rw [if_pos ((nKeys_eq_zero_iff hW).mpr hEmpty), show hW.keySet.keys = [] from hEmpty]
    exact ⟨_, rfl⟩
  · rw [if_neg fun hZero => hEmpty ((nKeys_eq_zero_iff hW).mp hZero), hn, ← hSucc]
    rcases loadLeftmost_run hL (by rw [List.length_nil]; omega) n with
      ⟨hNone, hRun⟩ | ⟨e, curr, hSome, hRun, hLive⟩
    · refine ⟨fun hReady => ?_, fun _ => hRun⟩
      rcases hReady with hReady | hReady
      · exact absurd hReady hEmpty
      · exact absurd hReady (by simp [hNone])
    · refine ⟨fun _ => ?_, fun hNot => absurd (.inr (by simp [hSome])) hNot⟩
      have hHead := head?_of_firstEntry hSome
      rw [hSucc] at hHead
      change t.keys.head? = _ at hHead
      rw [hRun, show hW.keySet.keys.head? = _ from hHead]
      exact ⟨e, curr, rfl, rfl, hLive⟩

theorem findLast_run (hW : t.WellFormed O C lo) (hReads : t.height ≤ gxBtreeMaxNodeReads) :
    (lastReady t → Answers C lo t (findLast t) hW.keySet.last) ∧
    (¬ lastReady t → findLast t = .error (.error .entryNotFound) t) := by
  obtain ⟨hSucc, hL⟩ := hW.root_located
  obtain ⟨n, hn⟩ : ∃ n, gxBtreeMaxNodeReads = n + t.height := ⟨gxBtreeMaxNodeReads - t.height, by omega⟩
  rw [findLast, Exec.bind_ok (Exec.get_run _), KeySet.last]
  by_cases hEmpty : t.keys = []
  · refine ⟨fun _ => ?_, fun hNot => absurd (.inl hEmpty) hNot⟩
    rw [if_pos ((nKeys_eq_zero_iff hW).mpr hEmpty), show hW.keySet.keys = [] from hEmpty]
    exact ⟨_, rfl⟩
  · obtain ⟨curr, hRun, hLive, hLast⟩ := rightmost_run hL (by rw [List.length_nil]; omega) n
    rw [if_neg fun hZero => hEmpty ((nKeys_eq_zero_iff hW).mp hZero), hn, ← hSucc,
      Exec.bind_ok hRun]
    cases hEntry : lastEntry t.f.node (t.height - 1) t.header.root with
    | none =>
      rw [hEntry, List.getLast?_eq_none_iff] at hLast
      have hCount : curr.node.keyCount ≤ 0 := by simp [keyCount, hLast]
      rw [if_pos hCount]
      refine ⟨fun hReady => ?_, fun _ => rfl⟩
      rcases hReady with hReady | hReady
      · exact absurd hReady hEmpty
      · exact absurd hReady (by simp [hEntry])
    | some e =>
      refine ⟨fun _ => ?_, fun hNot => absurd (.inr (by simp [hEntry])) hNot⟩
      have hKeys := getLast?_of_lastEntry hEntry
      rw [hSucc] at hKeys
      change t.keys.getLast? = _ at hKeys
      rw [hEntry] at hLast
      have hCount : ¬ curr.node.keyCount ≤ 0 := by
        have hNe : curr.node.keyEntries ≠ [] := by
          intro hNil
          simp [hNil] at hLast
        have hPos := List.length_pos_iff.mpr hNe
        simp only [keyCount]
        omega
      rw [if_neg hCount, loadKey_highestKey, hLast, Exec.bind_ok (access_some _ _),
        show hW.keySet.keys.getLast? = _ from hKeys]
      exact ⟨e, curr, rfl, rfl, hLive⟩

end Calls

end DataReel
