import DataReel.Btree.Refinement

/-! # Reachable trees -/

namespace DataReel

variable {κ : Type} {K : KeyClass κ}

/-- The trees that calls with a property lead to, starting from a new file of any layout. -/
inductive Reachable (K : KeyClass κ) (P : Call κ → Btree κ → Prop) : Btree κ → Prop
  | created {L : FileLayout} {order keySize numTrees : Int} {allocsLeft : Option Nat} {t : Btree κ}
      (hOrder : 5 ≤ order) (hCreate : Btree.create L order keySize numTrees allocsLeft = .ok () t) :
      Reachable K P t
  | called {t : Btree κ} (c : Call κ) (hT : Reachable K P t) (hCall : P c t) :
      Reachable K P ((gxBtree K).step c t).2

theorem Reachable.run {P : Call κ → Btree κ → Prop} {t : Btree κ} (hT : Reachable K P t)
    {calls : List (Call κ)} (hCalls : (gxBtree K).Along P calls t) :
    Reachable K P ((gxBtree K).run calls t).2 :=
  Machine.run_invariant (fun c _ hT hCall => .called c hT hCall) hT hCalls

/-! ## Insertion and balanced deletion -/

def Call.InsertOrDelete : Call κ → Prop
  | .insert _ _ | .delete _ _ => True
  | _ => False

theorem Call.InsertOrDelete.balanced {c : Call κ} (hc : c.InsertOrDelete) : c.Balanced := by
  cases c <;> trivial

/-- Calls of `Insert` and of the balanced `Delete` that do not run out of space. -/
def BalancedUpdate (K : KeyClass κ) (c : Call κ) (t : Btree κ) : Prop :=
  c.InsertOrDelete ∧ NoAllocFailure K c t

theorem Reachable.balanced (hK : K.StrictOrder) {t : Btree κ} (hT : Reachable K (BalancedUpdate K) t) :
    ∃ O : OtherTrees κ, t.WellFormed O K.comparison 1 ∧ t.f.allocFailed = false := by
  induction hT with
  | created hOrder hCreate =>
    obtain ⟨O, hW, -, hFailed, -⟩ := Btree.create_run (C := K.comparison) hOrder hCreate 1
    exact ⟨O, hW, hFailed⟩
  | called c _ hCall ih =>
    obtain ⟨O, hW, -⟩ := ih
    obtain ⟨hUpdate, hAlloc⟩ := hCall
    have hNext := (balanced_simulates hK).next (t := hW.keySet) ⟨hW, rfl⟩
      ⟨hUpdate.balanced, hAlloc⟩
    exact ⟨O, hNext.wellFormed, hAlloc⟩

/-! ## A run and the set -/

def Call.InsertDeleteFind : Call κ → Prop
  | .insert _ _ | .delete _ _ | .find _ => True
  | _ => False

theorem Call.InsertDeleteFind.balanced {c : Call κ} (hc : c.InsertDeleteFind) : c.Balanced := by
  cases c <;> trivial

/-- A tree under insertion, balanced deletion and search is a finite set of keys. -/
theorem insertDeleteFind_refines_keySet (hK : K.StrictOrder) {L : FileLayout}
    {order keySize numTrees : Int} {allocsLeft : Option Nat} {t : Btree κ} (hOrder : 5 ≤ order)
    (hCreate : Btree.create L order keySize numTrees allocsLeft = .ok () t) {calls : List (Call κ)}
    (hCalls : ∀ c ∈ calls, c.InsertDeleteFind)
    (hAlloc : (gxBtree K).Along (NoAllocFailure K) calls t) :
    ((gxBtree K).run calls t).1 = ((KeySet.machine hK.strict).run calls KeySet.empty).1 ∧
      ((gxBtree K).run calls t).2.keys = ((KeySet.machine hK.strict).run calls KeySet.empty).2.keys ∧
      ((gxBtree K).run calls t).2.header.nKeys =
        ((KeySet.machine hK.strict).run calls KeySet.empty).2.keys.length := by
  obtain ⟨O, hW, hKeys, -⟩ := Btree.create_run (C := K.comparison) hOrder hCreate 1
  have hBalanced : (gxBtree K).Along (fun c t => c.Balanced ∧ NoAllocFailure K c t) calls t :=
    (Machine.along_of_forall (fun c hc => (hCalls c hc).balanced) t).and hAlloc
  obtain ⟨hReplies, hLast⟩ := (balanced_simulates hK).run (t := KeySet.empty) ⟨hW, hKeys⟩ hBalanced
  exact ⟨hReplies, hLast.keys, hLast.nKeys⟩

theorem insertDeleteFind_refines_keySet_int :
    let calls : List (Call Int) := [.insert ⟨0, 2⟩ true, .insert ⟨0, 1⟩ false, .insert ⟨0, 2⟩ false,
      .find 2, .delete ⟨0, 2⟩ false, .delete ⟨0, 2⟩ false, .find 2, .find 1]
    ((gxBtree KeyClass.int).run calls (intTree 5 none)).1 =
        ((KeySet.machine KeyClass.int_strictOrder.strict).run calls KeySet.empty).1 ∧
      ((gxBtree KeyClass.int).run calls (intTree 5 none)).1 =
        [.done, .done, .zero, .found 2, .done, .zero, .zero, .found 1] := by
  exact ⟨(insertDeleteFind_refines_keySet KeyClass.int_strictOrder (by decide) create_intTree
    (by simp [Call.InsertDeleteFind]) (by decide)).1, by decide⟩

end DataReel
