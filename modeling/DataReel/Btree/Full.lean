import DataReel.Btree.DeleteRun
import Mathlib.Data.Int.Interval

/-! # Trees whose nodes other than the root have keys

Insertion and balanced deletion keep trees so. Such a tree doubles its nodes
from level to level, which bounds its height by the size of the file.
-/

namespace DataReel

open BtreeNode

variable {κ : Type} {O : OtherTrees κ} {K : KeyClass κ} {C : Comparison κ}

/-! ## Height -/

theorem mul_le_length_flatMap {α β : Type} {F : α → List β} {n : Nat} {l : List α}
    (h : ∀ a ∈ l, n ≤ (F a).length) : l.length * n ≤ (l.flatMap F).length := by
  induction l with
  | nil => simp
  | cons a l ih =>
    have hFirst := h a List.mem_cons_self
    have hRest := ih fun b hb => h b (List.mem_cons_of_mem _ hb)
    rw [List.flatMap_cons, List.length_append, List.length_cons, Nat.add_mul, Nat.one_mul]
    omega

theorem Subtree.two_pow_le {g : NodeMap κ} {m h : Nat} {a : FAU}
    (hT : Subtree g 1 m (rootKeys 1 h) h a) : 2 ^ h ≤ (nodesFrom g h a).length + 1 := by
  induction h generalizing a with
  | zero => simp
  | succ h ih =>
    obtain ⟨n, hn, hTop, -, hB⟩ := hT.at_node
    have hBranch : ∀ b ∈ n.branches, 2 ^ h - 1 ≤ (nodesFrom g h b).length := by
      intro b hb
      have hLow : rootKeys 1 h ≤ 1 := by
        rw [rootKeys]
        split <;> omega
      exact Nat.sub_le_of_le_add (ih ((hB b hb).mono hLow))
    have hSum := mul_le_length_flatMap hBranch
    have hCount : n.branches.length = n.keyCount + 1 := by simp [branches, keyCount]
    rw [nodesFrom_at hn, List.length_cons, Nat.pow_succ]
    cases h with
    | zero => simp
    | succ h =>
      have hTwo : 1 ≤ n.keyCount := by simpa [rootKeys] using hTop
      have hTwice := Nat.mul_le_mul_right (2 ^ (h + 1) - 1) (show 2 ≤ n.branches.length by omega)
      omega

/-- The blocks of a file are at least as many as the nodes they hold. -/
theorem IndexFile.Blocks.length_lt {f : IndexFile κ} {nodes : List FAU} (hF : f.Blocks O nodes) :
    (nodes.length : Int) < maxFAU := by
  have hEof := hF.eof_pos
  have hLe := hF.eof_le
  have hSub : nodes.toFinset ⊆ Finset.Ioo (0 : Int) f.eof := by
    intro a ha
    have hIn := hF.inFile a (List.mem_append_right _ (List.mem_toFinset.mp ha))
    exact Finset.mem_Ioo.mpr ⟨hIn.1, hIn.2⟩
  have hCard := Finset.card_le_card hSub
  rw [List.toFinset_card_of_nodup hF.nodes_nodup, Int.card_Ioo] at hCard
  omega

namespace Btree.WellFormed

variable {t : Btree κ} (hW : t.WellFormed O C 1)

include hW

theorem height_le : t.height ≤ 63 := by
  have hPow := hW.subtree.two_pow_le
  have hLength := hW.blocks.length_lt
  rw [maxFAU] at hLength
  by_contra hTall
  have hMono : 2 ^ 64 ≤ 2 ^ t.height := Nat.pow_le_pow_right (by omega) (by omega)
  rw [nodes] at hLength
  omega

theorem reads_le : 2 * t.height ≤ gxBtreeMaxNodeReads := by
  have hHeight := hW.height_le
  rw [gxBtreeMaxNodeReads]
  omega

end Btree.WellFormed

/-! ## Deletion -/

theorem PathTo.counts_pos {g : NodeMap κ} {m h : Nat} {root a : FAU} {path : List (Frame κ)}
    (hP : PathTo g 1 m root (h + 1) a path) : ∀ f ∈ path, 0 < f.node.keyCount := by
  induction path generalizing h a with
  | nil => simp
  | cons f path ih =>
    obtain ⟨-, -, -, hLow, -, -, hP⟩ := hP
    have hInner := topKeys_inner 1 h path
    intro p hp
    rcases List.mem_cons.mp hp with rfl | hp
    · omega
    · exact ih hP p hp

theorem balanceSafe_of_counts {g : NodeMap κ} {m : Nat} {path : List (Frame κ)}
    (hPos : ∀ f ∈ path, 0 < f.node.keyCount) : balanceSafe g m path := by
  induction path with
  | nil => trivial
  | cons f path ih =>
    exact ⟨hPos f List.mem_cons_self, fun _ => ih fun p hp => hPos p (List.mem_cons_of_mem _ hp)⟩

theorem deleteSafe_of_keys {t : Btree κ} (hW : t.WellFormed O K.comparison 1) (key : κ) :
    DeleteSafe K t key := by
  intro h f e path hE
  have hL := hE.located hW
  have hPos := hL.reach.counts_pos
  cases h with
  | zero => exact fun _ => balanceSafe_of_counts hPos
  | succ h =>
    obtain ⟨b, segment, hLeft, hPath⟩ := leftPath_segment t.f.node h e.rightChild
    have hNode : t.f.node f.address = some ⟨f.leftChild, (f.before ++ [e]) ++ f.after⟩ := by
      simpa using hE.hit.node
    obtain ⟨hFollow, hRight⟩ := hL.reach.down hL.sub hNode
    rw [lastBranch_concat] at hFollow hRight
    obtain ⟨hReach, hSub, -⟩ := leftPath_reach hFollow hRight
    rw [hPath] at hReach hSub
    have hCounts := hReach.counts_pos
    rw [topKeys_of_ne (by simp)] at hSub
    obtain ⟨⟨c, l⟩, hn, hTop, -⟩ := hSub.at_node
    obtain ⟨x, rest, rfl⟩ : ∃ x rest, l = x :: rest :=
      List.exists_cons_of_ne_nil (List.length_pos_iff.mp hTop)
    refine ⟨b, segment ++ f.promote e x :: path, c, x, rest, hPath _, hn, fun _ => ?_⟩
    apply balanceSafe_of_counts
    intro p hp
    rcases List.mem_append.mp hp with hp | hp
    · exact hCounts p (List.mem_append_left _ hp)
    · rcases List.mem_cons.mp hp with rfl | hp
      · rw [f.promote_keyCount]
        exact hCounts _ (List.mem_append_right _ List.mem_cons_self)
      · exact hPos p hp

end DataReel
