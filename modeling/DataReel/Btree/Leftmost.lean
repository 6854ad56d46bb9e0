import DataReel.Btree.Collapse

/-! # The way to the leftmost leaf -/

namespace DataReel

open BtreeNode

variable {κ : Type} {C : Comparison κ}

/-- The leftmost leaf below an address of height `h + 1`, with the path to it. -/
def leftPath (g : NodeMap κ) : Nat → FAU → List (Frame κ) → FAU × List (Frame κ)
  | 0, a, path => (a, path)
  | h + 1, a, path =>
    match g a with
    | none => (a, path)
    | some n => leftPath g h n.leftChild (⟨a, n.leftChild, [], n.keyEntries⟩ :: path)

section Left

variable {g : NodeMap κ} {lo m h : Nat} {root a : FAU} {path : List (Frame κ)}

theorem leftPath_at {n : BtreeNode κ} (hn : g a = some n) : leftPath g (h + 1) a path =
    leftPath g h n.leftChild (⟨a, n.leftChild, [], n.keyEntries⟩ :: path) := by
  rw [leftPath]
  simp only [hn]

/-- The path is a segment of nodes entered at their left child, put before the given path. -/
theorem leftPath_segment (g : NodeMap κ) (h : Nat) (a : FAU) :
    ∃ b segment, (∀ f ∈ segment, f.before = []) ∧
      ∀ path, leftPath g h a path = (b, segment ++ path) := by
  induction h generalizing a with
  | zero => exact ⟨a, [], by simp, fun _ => rfl⟩
  | succ h ih =>
    cases hn : g a with
    | none => exact ⟨a, [], by simp, fun _ => by simp [leftPath, hn]⟩
    | some n =>
      obtain ⟨b, segment, hLeft, hPath⟩ := ih n.leftChild
      refine ⟨b, segment ++ [⟨a, n.leftChild, [], n.keyEntries⟩], ?_, fun path => ?_⟩
      · intro f hf
        rcases List.mem_append.mp hf with hf | hf
        · exact hLeft f hf
        · obtain rfl := List.mem_singleton.mp hf
          rfl
      · rw [leftPath_at hn, hPath, List.append_assoc, List.singleton_append]

theorem leftPath_reach (hP : PathTo g lo m root (h + 1) a path)
    (hT : Subtree g lo m (topKeys lo (h + 1) path) (h + 1) a) :
    PathTo g lo m root 1 (leftPath g h a path).1 (leftPath g h a path).2 ∧
      Subtree g lo m (topKeys lo 1 (leftPath g h a path).2) 1 (leftPath g h a path).1 ∧
      (leftPath g h a path).2.length = path.length + h := by
  induction h generalizing a path with
  | zero => exact ⟨hP, hT, rfl⟩
  | succ h ih =>
    obtain ⟨n, hn, hTop, hm, hB⟩ := hT.at_node
    rw [leftPath_at hn]
    have hFrame : PathTo g lo m root (h + 1) n.leftChild (⟨a, n.leftChild, [], n.keyEntries⟩ :: path) :=
      ⟨rfl, hT.nonzero, hn, hTop, hm, fun b hb => hB b (List.mem_cons_of_mem _ hb), hP⟩
    obtain ⟨hP', hT', hLength⟩ := ih hFrame (hB _ List.mem_cons_self)
    refine ⟨hP', hT', hLength.trans ?_⟩
    rw [List.length_cons]
    omega

theorem leftmost_run {t : Btree κ} {top : Nat} (hT : Subtree t.f.node lo t.order top (h + 1) a)
    (reads : Nat) (path : List (Frame κ)) (stack : List FAU) :
    ∃ n, t.f.node (leftPath t.f.node h a path).1 = some n ∧
      leftmost (reads + (h + 1)) a (path.map Frame.address ++ stack) t =
        .ok ((leftPath t.f.node h a path).1, n,
          (leftPath t.f.node h a path).2.map Frame.address ++ stack, reads) t := by
  induction h generalizing a path top with
  | zero =>
    obtain ⟨n, hn, -, hm, hB⟩ := hT.at_node
    have hLeft : n.leftChild = 0 := Subtree.zero_iff.mp (hB _ List.mem_cons_self)
    refine ⟨n, hn, ?_⟩
    rw [leftmost, Exec.bind_ok (readNode_run hn hm), if_pos hLeft]
    rfl
  | succ h ih =>
    obtain ⟨n, hn, -, hm, hB⟩ := hT.at_node
    have hChild := hB _ List.mem_cons_self
    have hLeft : n.leftChild ≠ 0 := hChild.nonzero
    obtain ⟨n', hn', hRun⟩ := ih hChild (⟨a, n.leftChild, [], n.keyEntries⟩ :: path)
    rw [leftPath_at hn]
    refine ⟨n', hn', ?_⟩
    rw [← hRun, ← Nat.add_assoc, leftmost, Exec.bind_ok (readNode_run hn hm), if_neg hLeft]
    rfl

end Left

end DataReel
