import DataReel.Btree.Trees

/-! # Room in the index file

An insertion takes at most one block for each node on its path and one for a new
root. A file with room for them lets no `Alloc` of the call fail.
-/

namespace DataReel

variable {κ α β : Type}

/-- The file system lets `n` more calls of `Alloc` succeed, and the file takes their blocks. -/
structure IndexFile.Room (f : IndexFile κ) (n : Nat) : Prop where
  allocsLeft : ∀ k ∈ f.allocsLeft, n ≤ k
  blockLength : 0 ≤ f.blockLength
  eof : f.eof + n * f.blockLength ≤ maxFAU

/-- Room for `n` more blocks after calls of `Alloc` that all succeeded. -/
def Btree.Roomy (n : Nat) (t : Btree κ) : Prop := t.f.Room n ∧ t.f.allocFailed = false

theorem IndexFile.Room.mono {f : IndexFile κ} {m n : Nat} (h : f.Room n) (hLe : m ≤ n) : f.Room m := by
  refine ⟨fun k hk => hLe.trans (h.allocsLeft k hk), h.blockLength, ?_⟩
  have hMul := Int.mul_le_mul_of_nonneg_right (Int.ofNat_le.mpr hLe) h.blockLength
  have hEof := h.eof
  omega

theorem IndexFile.Room.alloc {f : IndexFile κ} {n : Nat} (h : f.Room (n + 1)) :
    f.alloc.2.Room n ∧ f.alloc.2.allocFailed = f.allocFailed := by
  have hLeft (k) (hk : k ∈ f.allocsLeft.map (· - 1)) : n ≤ k := by
    obtain ⟨m, hm, rfl⟩ := Option.mem_map.mp hk
    exact Nat.le_sub_of_add_le (h.allocsLeft m hm)
  have hNone : f.allocsLeft ≠ some 0 := by
    intro hZero
    have hPos := h.allocsLeft 0 hZero
    omega
  have hSum := h.eof
  rw [Int.natCast_add, Int.add_mul] at hSum
  have hMul := Int.mul_nonneg (Int.natCast_nonneg n) h.blockLength
  rw [IndexFile.alloc, if_neg hNone]
  cases hList : f.freeList with
  | cons a rest =>
    refine ⟨⟨hLeft, h.blockLength, ?_⟩, rfl⟩
    have hLength := h.blockLength
    change f.eof + n * f.blockLength ≤ maxFAU
    omega
  | nil =>
    dsimp only
    rw [if_neg (by omega)]
    refine ⟨⟨hLeft, h.blockLength, ?_⟩, rfl⟩
    change f.eof + f.blockLength + n * f.blockLength ≤ maxFAU
    omega

/-! ## Insertion -/

/-- A program that takes at most `n` blocks. -/
def Spends (n : Nat) (x : BtreeM κ α) : Prop :=
  ∀ k, Coupled (fun s t => s = t ∧ s.Roomy (n + k)) x (fun _ s t => s = t ∧ s.Roomy k)
    (fun s _ => s.Roomy 0)

namespace Spends

theorem of_state {n : Nat} {x : BtreeM κ α}
    (h : ∀ t k, t.Roomy (n + k) →
      (∃ a t', x t = .ok a t' ∧ t'.Roomy k) ∨ ∃ e t', x t = .error e t' ∧ t'.Roomy 0) :
    Spends n x := by
  rintro k s t ⟨rfl, hRoom⟩
  rcases h s k hRoom with ⟨a, t', hRun, hRoom'⟩ | ⟨e, t', hRun, hRoom'⟩
  · rw [hRun]
    exact .ok ⟨rfl, hRoom'⟩
  · rw [hRun]
    exact .error hRoom'

theorem zero_mono {t : Btree κ} {n : Nat} (h : t.Roomy n) : t.Roomy 0 := ⟨h.1.mono (Nat.zero_le n), h.2⟩

theorem bind {m n : Nat} {x : BtreeM κ α} {f : α → BtreeM κ β} (hx : Spends m x)
    (hf : ∀ a, Spends n (f a)) : Spends (m + n) (x >>= f) := by
  intro k
  refine Coupled.bind ((hx (n + k)).weaken ?_) fun a => hf a k
  rintro s t ⟨rfl, hRoom⟩
  exact ⟨rfl, by rwa [Nat.add_assoc] at hRoom⟩

theorem free_bind {n : Nat} {x : BtreeM κ α} {f : α → BtreeM κ β} (hx : Spends 0 x)
    (hf : ∀ a, Spends n (f a)) : Spends n (x >>= f) := by
  have hBoth := bind hx hf
  rwa [Nat.zero_add] at hBoth

theorem mono {m n : Nat} {x : BtreeM κ α} (hx : Spends m x) (hLe : m ≤ n) : Spends n x := by
  intro k
  refine (hx k).weaken ?_
  rintro s t ⟨rfl, hRoom, hFailed⟩
  exact ⟨rfl, hRoom.mono (Nat.add_le_add_right hLe k), hFailed⟩

theorem pure (a : α) : Spends 0 (Pure.pure a : BtreeM κ α) :=
  of_state fun t k hRoom => .inl ⟨a, t, rfl, by rwa [Nat.zero_add] at hRoom⟩

theorem fail (e : DatabaseError) : Spends 0 (DataReel.fail e : BtreeM κ α) :=
  of_state fun t _ hRoom => .inr ⟨_, t, rfl, zero_mono hRoom⟩

theorem access (o : Option α) : Spends 0 (DataReel.access o : BtreeM κ α) := by
  cases o with
  | none => exact of_state fun t _ hRoom => .inr ⟨_, t, rfl, zero_mono hRoom⟩
  | some a => exact pure a

theorem ite {n : Nat} {c : Prop} [Decidable c] {x y : BtreeM κ α} (hx : Spends n x)
    (hy : Spends n y) : Spends n (if c then x else y) := fun k => (hx k).ite (hy k)

theorem get {n : Nat} {f : Btree κ → BtreeM κ α} (hf : ∀ s, Spends n (f s)) :
    Spends n (MonadState.get >>= f) := by
  intro k
  refine Coupled.get ?_ fun s => hf s k
  rintro s t ⟨rfl, -⟩
  rfl

theorem readNode (a : FAU) : Spends 0 (readNode (κ := κ) a) := by
  refine of_state fun t k hRoom => ?_
  rw [Nat.zero_add] at hRoom
  rw [DataReel.readNode]
  split
  · exact .inr ⟨_, t, rfl, zero_mono hRoom⟩
  · split
    · exact .inr ⟨_, t, rfl, zero_mono hRoom⟩
    · exact .inl ⟨_, t, rfl, hRoom⟩

theorem writeNode (n : BtreeNode κ) (a : FAU) : Spends 0 (writeNode n a) :=
  of_state fun t k hRoom => .inl ⟨_, t.setNode a n, rfl, by
    rw [Nat.zero_add] at hRoom
    exact ⟨⟨hRoom.1.allocsLeft, hRoom.1.blockLength, hRoom.1.eof⟩, hRoom.2⟩⟩

theorem modify (g : Btree κ → BtreeHeader) : Spends 0 (modify fun t : Btree κ => t.setHeader (g t)) :=
  of_state fun t k hRoom => .inl ⟨_, t.setHeader (g t), rfl, by rwa [Nat.zero_add] at hRoom⟩

theorem allocNode : Spends 1 (allocNode (κ := κ)) := by
  refine of_state fun t k hRoom => .inl ⟨_, _, rfl, ?_⟩
  rw [Nat.add_comm] at hRoom
  exact ⟨hRoom.1.alloc.1, hRoom.1.alloc.2.trans hRoom.2⟩

end Spends

theorem growNewRoot_spends (key : DatabaseKey κ) : Spends 1 (growNewRoot key) := by
  refine .get fun t => .bind (n := 0) .allocNode fun a => ?_
  refine .free_bind (.modify _) fun _ => .free_bind (.access _) fun n => ?_
  exact .writeNode n a

theorem insertLoop_spends (K : KeyClass κ) (stack : List FAU) (numSplits : Nat) (key : DatabaseKey κ)
    (curr : BtreeNode κ) (loc : Int) (reads : Nat) :
    Spends (stack.length + 1) (insertLoop K stack numSplits key curr loc reads) := by
  induction stack generalizing numSplits key curr loc reads with
  | nil => exact (Spends.fail _).mono (Nat.zero_le _)
  | cons a stack ih =>
    have hLocate : Spends 0 (insertLocate K numSplits a key.dbKey curr loc reads) := by
      refine .ite ?_ (.pure _)
      cases reads with
      | zero => exact .fail _
      | succ reads => exact .free_bind (.readNode a) fun curr => .pure _
    have hCount : Spends 0 (addKeys (κ := κ) 1) := .modify _
    refine .free_bind hLocate fun ⟨curr, loc, reads⟩ => .get fun t => .ite ?_ ?_
    · rw [List.length_cons, Nat.add_comm]
      refine .bind .allocNode fun right => .ite ((Spends.fail _).mono (Nat.zero_le _)) ?_
      refine .free_bind (.modify _) fun _ => .free_bind (.access _) fun ⟨curr, rightNode, middle⟩ => ?_
      refine .free_bind (.writeNode _ _) fun _ => .free_bind (.writeNode _ _) fun _ => ?_
      refine .ite (Spends.mono (m := 1) ?_ (Nat.le_add_left 1 _)) (ih _ _ _ _ _)
      exact .bind (n := 0) (growNewRoot_spends _) fun _ => .free_bind hCount fun _ => .pure _
    · refine Spends.mono (m := 0) ?_ (Nat.zero_le _)
      refine .free_bind (.access _) fun curr => .free_bind (.writeNode _ _) fun _ => ?_
      exact .free_bind hCount fun _ => .pure _

/-- The highest tree that a file can hold, and one level more. -/
def maxLevels : Nat := 64

section Call

variable {O : OtherTrees κ} {K : KeyClass κ} {t : Btree κ}

/-- An insertion takes no more blocks than a tree has levels. -/
theorem insertDatabaseKey_roomy (hK : K.StrictOrder) (hW : t.WellFormed O K.comparison 1) {k : Nat}
    (hRoom : t.Roomy (maxLevels + k)) (key : DatabaseKey κ) :
    ((gxBtree K).step (.insert key false) t).2.Roomy 0 ∧
      (((gxBtree K).step (.insert key false) t).1 = .done →
        ((gxBtree K).step (.insert key false) t).2.Roomy k) := by
  obtain ⟨c, key⟩ := key
  have hHeight := hW.height_le
  have hReads := hW.reads_le
  obtain ⟨n, hn⟩ : ∃ n, gxBtreeMaxNodeReads = n + t.height := ⟨gxBtreeMaxNodeReads - t.height, by omega⟩
  change (updated false (insertDatabaseKey K ⟨c, key⟩) t).2.Roomy 0 ∧
    ((updated false (insertDatabaseKey K ⟨c, key⟩) t).1 = .done →
      (updated false (insertDatabaseKey K ⟨c, key⟩) t).2.Roomy k)
  rcases hW.search hK.strict key with ⟨h', f, e, path, hE⟩ | ⟨path, hD, -, -⟩
  · have hL := hE.located hW
    have hWalk : insertWalk K key (n + t.height) t.header.root BtreeNode.new 0 [] t = _ :=
      insertWalk_descent hK hE.descent n
    rw [← Nat.add_assoc, insertWalk_hit hK hL.sub.nonzero hE.hit (hE.hit.count hL)] at hWalk
    have hRun : insertDatabaseKey K ⟨c, key⟩ t = .error (.error .duplicateEntry) t := by
      rw [insertDatabaseKey, Exec.bind_ok (Exec.get_run _), hn, Exec.bind_error hWalk]
    rw [updated_error hRun]
    exact ⟨Spends.zero_mono hRoom, by simp⟩
  · have hLength := hD.height
    have hWalk : insertWalk K key (n + t.height) t.header.root BtreeNode.new 0 [] t = _ :=
      insertWalk_descent hK hD n
    rw [insertWalk_null] at hWalk
    have hRun : insertDatabaseKey K ⟨c, key⟩ t = insertLoop K (path.map Frame.address) 0 ⟨0, key⟩
        (lastNode path) (lastLocation path) (n + 0) t := by
      rw [insertDatabaseKey, Exec.bind_ok (Exec.get_run _), hn, Exec.bind_ok hWalk]
    have hLevels : (path.map Frame.address).length + 1 ≤ maxLevels := by
      rw [List.length_map, maxLevels]
      rw [List.length_nil] at hLength
      omega
    have hEnds := (insertLoop_spends K (path.map Frame.address) 0 ⟨0, key⟩ (lastNode path)
      (lastLocation path) (n + 0)).mono hLevels k t t ⟨rfl, hRoom⟩
    rw [← hRun] at hEnds
    generalize hRes : insertDatabaseKey K ⟨c, key⟩ t = res at hEnds
    cases hEnds with
    | ok hEnd =>
      rw [updated_ok hRes]
      exact ⟨Spends.zero_mono hEnd.2, fun _ => hEnd.2⟩
    | @error e _ _ hEnd =>
      cases e with
      | error e =>
        rw [updated_error hRes]
        exact ⟨hEnd, by simp⟩
      | badEntry =>
        rw [updated_undefined hRes]
        exact ⟨hEnd, by simp⟩

theorem insertDatabaseKey_room (hK : K.StrictOrder) (hW : t.WellFormed O K.comparison 1)
    (hRoom : t.Roomy maxLevels) (key : DatabaseKey κ) :
    NoAllocFailure K (.insert key false) t :=
  (insertDatabaseKey_roomy hK hW (k := 0) hRoom key).1.2

/-! ## Deletion -/

theorem roomy_stable (n : Nat) : Btree.StableUpdate fun s t : Btree κ => s = t ∧ s.Roomy n := by
  constructor
  · rintro s t a m - ⟨rfl, hRoom, hFailed⟩ -
    exact ⟨rfl, ⟨hRoom.allocsLeft, hRoom.blockLength, hRoom.eof⟩, hFailed⟩
  · rintro s t hdr - ⟨rfl, hRoom⟩ - - -
    exact ⟨rfl, hRoom⟩
  · rintro s t a - ⟨rfl, hRoom, hFailed⟩ hRemove
    refine ⟨rfl, ?_⟩
    rw [IndexFile.remove] at hRemove
    split at hRemove
    · rename_i hUsed
      rw [Btree.removed, IndexFile.remove, if_pos hUsed]
      exact ⟨⟨hRoom.allocsLeft, hRoom.blockLength, hRoom.eof⟩, hFailed⟩
    · cases hRemove

theorem deleteDatabaseKey_room {n : Nat} (hFree : t.FreeKept) (hRoom : t.Roomy n)
    (key : DatabaseKey κ) : ((gxBtree K).step (.delete key false) t).2.Roomy n := by
  rcases ((deleteDatabaseKey_keeps (roomy_stable n) K key).updated
    ⟨⟨rfl, hFree⟩, ⟨rfl, hRoom⟩, nofun⟩ false).2 with h | ⟨s, t', h, hStep, -⟩
  · exact h.related.2
  · obtain ⟨-, hRoom', hFailed⟩ := h.related
    change (updated false (deleteDatabaseKey K key) t).2.Roomy n
    rw [hStep]
    exact ⟨⟨hRoom'.allocsLeft, hRoom'.blockLength, hRoom'.eof⟩, hFailed⟩

end Call

end DataReel
