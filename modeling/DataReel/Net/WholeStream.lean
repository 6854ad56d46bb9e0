import DataReel.Library.Cut
import DataReel.Net.Stream

/-! # Reading a stream to its end

A source that delivers all it has, and nothing after its end. What is left to read is then known in every state,
also behind the end, and lines and blocks are functions of it.
-/

namespace DataReel

open Program

namespace Program

variable {ε σ α : Type}

theorem Ends.and {x : EStateM ε σ α} {s : σ} {Q Q' : α → σ → Prop} {E E' : σ → Prop} (h : Ends x s Q E)
    (h' : Ends x s Q' E') : Ends x s (fun a t => Q a t ∧ Q' a t) fun t => E t ∧ E' t := by
  unfold Ends at *
  cases hRun : x s with
  | ok a t =>
    rw [hRun] at h h'
    exact ⟨h, h'⟩
  | error e t =>
    rw [hRun] at h h'
    exact ⟨h, h'⟩

theorem Ends.imp {x : EStateM ε σ α} {s : σ} {Q Q' : α → σ → Prop} {E : σ → Prop} (h : Ends x s Q E)
    (hQ : ∀ a t, Q a t → Q' a t) : Ends x s Q' E := h.mono hQ fun _ => id

end Program

namespace Source

variable {env : Environment NetAnswer} {c : Nat}

/-- All is delivered before the end, which stays. -/
structure Final (R : Source env c) : Prop where
  whole : ∀ {u tr}, R.ended u tr → u = []
  silent : ∀ {u tr secure ch s}, R.ended u tr → env tr (.fill c secure) ≠ .data ch s
  again : ∀ {u tr secure r}, R.ended u tr → R.ended u (⟨.fill c secure, r⟩ :: tr)

variable (R : Source env c)

/-- What the program can still read. -/
def Left (w : Text) (D : Dialogue NetAnswer TlsConnection) : Prop :=
  R.Unread w D ∨ (∃ u, R.ended u D.trace) ∧ D.state.rbuf = w

variable {R} {w v : Text} {D : Dialogue NetAnswer TlsConnection}
  {E : Dialogue NetAnswer TlsConnection → Prop}

theorem upcoming_unique (hR : R.Final) {u u' : Text} {tr : List (Sigma NetAnswer)} (h : R.upcoming u tr)
    (h' : R.upcoming u' tr) : u = u' := by
  induction hn : u.length using Nat.strong_induction_on generalizing u u' tr with
  | _ n ih =>
    cases hFill : env tr (.fill c false) with
    | data ch s =>
      obtain ⟨rest, rfl, hRest⟩ := R.data h hFill
      obtain ⟨rest', rfl, hRest'⟩ := R.data h' hFill
      have hShort : rest.length < n := by
        rw [← hn, List.length_append, List.length_cons]
        omega
      rw [ih rest.length hShort hRest hRest' rfl]
    | closed => rw [hR.whole (R.stop h hFill (Or.inl rfl)), hR.whole (R.stop h' hFill (Or.inl rfl))]
    | failed => rw [hR.whole (R.stop h hFill (Or.inr rfl)), hR.whole (R.stop h' hFill (Or.inr rfl))]

theorem upcoming_ended (hR : R.Final) {u u' : Text} {tr : List (Sigma NetAnswer)} (h : R.upcoming u tr)
    (h' : R.ended u' tr) : u = [] := by
  cases hFill : env tr (.fill c false) with
  | data ch s => exact absurd hFill (hR.silent h')
  | closed => exact hR.whole (R.stop h hFill (Or.inl rfl))
  | failed => exact hR.whole (R.stop h hFill (Or.inr rfl))

theorem Left.unique (hR : R.Final) (h : R.Left w D) (h' : R.Left v D) : w = v := by
  rcases h with ⟨u, hUp, rfl⟩ | ⟨⟨u, hEnd⟩, rfl⟩ <;> rcases h' with ⟨u', hUp', rfl⟩ | ⟨⟨u', hEnd'⟩, rfl⟩
  · rw [upcoming_unique hR hUp hUp']
  · rw [upcoming_ended hR hUp hEnd', List.append_nil]
  · rw [upcoming_ended hR hUp' hEnd, List.append_nil]
  · rfl

/-- A read gets more, or all that is left is buffered. -/
theorem fill_left (hR : R.Final) (hD : R.Left w D) :
    Ends (TlsConnection.fill env c) D (fun rv t => R.Left w t ∧
      (rv ≤ 0 ∧ D.state.rbuf = w ∧ t.state.rbuf = w ∨ 0 < rv ∧ D.state.rbuf.length < t.state.rbuf.length)) E := by
  rcases hD with hUnread | ⟨⟨u, hEnd⟩, hBuf⟩
  · apply (fill_ends hUnread).imp
    rintro rv t (⟨hrv, hSame, u, hEnd, hw⟩ | ⟨hrv, hMore, hGrown⟩)
    · have hAll : t.state.rbuf = w := by
        rw [hSame, ← hw, hR.whole hEnd, List.append_nil]
      exact ⟨Or.inr ⟨⟨u, hEnd⟩, hAll⟩, Or.inl ⟨hrv, hSame ▸ hAll, hAll⟩⟩
    · exact ⟨Or.inl hMore, Or.inr ⟨hrv, hGrown⟩⟩
  · unfold TlsConnection.fill
    rw [ends_bind, ends_read, ends_bind, ends_ask]
    cases hFill : env D.trace (.fill c D.state.secure) with
    | data ch s => exact absurd hFill (hR.silent hEnd)
    | closed => exact ⟨Or.inr ⟨⟨u, hR.again hEnd⟩, hBuf⟩, Or.inl ⟨by decide, hBuf, hBuf⟩⟩
    | failed => exact ⟨Or.inr ⟨⟨u, R.message (hR.again hEnd)⟩, hBuf⟩, Or.inl ⟨by decide, hBuf, hBuf⟩⟩

theorem Left.buffered (hD : R.Left w D) : ∃ u, D.state.rbuf ++ u = w := by
  rcases hD with ⟨u, -, hw⟩ | ⟨-, hw⟩
  · exact ⟨u, hw⟩
  · exact ⟨[], by rw [List.append_nil, hw]⟩

/-- Bytes off the front of the buffer. -/
theorem Left.drop (hD : R.Left w D) {n : Nat} (hn : n ≤ D.state.rbuf.length) :
    R.Left (w.drop n) { D with state := { D.state with rbuf := D.state.rbuf.drop n } } := by
  rcases hD with ⟨u, hUp, rfl⟩ | ⟨hEnd, rfl⟩
  · exact Or.inl ⟨u, hUp, (List.drop_append_of_le_length hn).symm⟩
  · exact Or.inr ⟨hEnd, rfl⟩

/-- The error text is no matter. -/
theorem Left.error (hD : R.Left w D) (msg : Text) :
    R.Left w { D with state := { D.state with error := msg } } := hD

/-! ## Lines and blocks -/

/-- The line at the front of a text, and what follows it. -/
def nextLine (maxLen : Nat) (w : Text) : Option (Text × Text) :=
  (cut '\n' w).bind fun r => if r.1.length ≤ maxLen then some (TlsConnection.stripReturn r.1, r.2) else none

theorem nextLine_none {maxLen : Nat} (h : '\n' ∉ w) : nextLine maxLen w = none := by
  rw [nextLine, cut_none h]
  rfl

theorem nextLine_append {maxLen : Nat} {line rest : Text} (h : '\n' ∉ line) :
    nextLine maxLen (line ++ '\n' :: rest) =
      if line.length ≤ maxLen then some (TlsConnection.stripReturn line, rest) else none := by
  rw [nextLine, cut_append h]
  rfl

theorem nextLine_long {maxLen : Nat} {buf u : Text} (hBuf : '\n' ∉ buf) (hLong : maxLen < buf.length) :
    nextLine maxLen (buf ++ u) = none := by
  by_cases hMem : '\n' ∈ u
  · obtain ⟨x, y, hEq, hx⟩ := List.eq_append_cons_of_mem hMem
    have hLine : '\n' ∉ buf ++ x := by
      rw [List.mem_append, not_or]
      exact ⟨hBuf, hx⟩
    rw [hEq, ← List.append_assoc, nextLine_append hLine, if_neg]
    rw [List.length_append]
    omega
  · apply nextLine_none
    rw [List.mem_append, not_or]
    exact ⟨hBuf, hMem⟩

theorem readLineLoop_left (hR : R.Final) (maxLen n : Nat) (hD : R.Left w D)
    (hn : maxLen + 2 ≤ n + D.state.rbuf.length) (hPos : 0 < n) :
    Ends (TlsConnection.readLineLoop env c maxLen n) D (fun found t => R.Left w t ∧
      if found then '\n' ∈ t.state.rbuf else nextLine maxLen w = none) E := by
  induction n generalizing D with
  | zero => omega
  | succ n ih =>
    obtain ⟨u, hu⟩ := hD.buffered
    unfold TlsConnection.readLineLoop
    rw [ends_bind, ends_read, ends_ite]
    constructor
    · intro hFound
      exact ⟨hD, by simpa using hFound⟩
    · intro hNone
      have hBreak : '\n' ∉ D.state.rbuf := by simpa using hNone
      rw [ends_ite]
      constructor
      · intro hLong
        refine ⟨hD.error _, ?_⟩
        rw [if_neg Bool.false_ne_true, ← hu]
        exact nextLine_long hBreak hLong
      · intro hShort
        rw [ends_bind]
        apply (fill_left hR hD).imp
        rintro rv t ⟨hLeft, ⟨hrv, hAll, -⟩ | ⟨hrv, hGrown⟩⟩
        · rw [if_pos hrv]
          refine ⟨hLeft, ?_⟩
          rw [if_neg Bool.false_ne_true]
          exact nextLine_none (hAll ▸ hBreak)
        · rw [if_neg (by omega)]
          exact ih hLeft (by omega) (by omega)

theorem readLine_left (hR : R.Final) (maxLen : Nat) (hD : R.Left w D) :
    Ends (TlsConnection.readLine env c maxLen) D
      (fun a t => a = (nextLine maxLen w).map Prod.fst ∧ ∀ r ∈ nextLine maxLen w, R.Left r.2 t) E := by
  unfold TlsConnection.readLine
  rw [ends_bind]
  apply (readLineLoop_left hR maxLen (maxLen + 2) hD (by omega) (by omega)).imp
  intro found t
  cases found with
  | false =>
    rintro ⟨-, hNone⟩
    rw [if_neg Bool.false_ne_true] at hNone ⊢
    rw [hNone]
    exact ⟨rfl, nofun⟩
  | true =>
    rintro ⟨hLeft, hMem⟩
    rw [if_pos rfl] at hMem ⊢
    obtain ⟨line, left, hBuf, hLine⟩ := List.eq_append_cons_of_mem hMem
    obtain ⟨u, hu⟩ := hLeft.buffered
    have hWhole : w = line ++ '\n' :: (left ++ u) := by
      rw [← hu, hBuf, List.append_assoc, List.cons_append]
    have hPos : t.state.rbuf.idxOf '\n' = line.length := by
      rw [hBuf]
      exact idxOf_break hLine
    rw [ends_bind, ends_read]
    dsimp only
    rw [hPos, hWhole, nextLine_append hLine]
    by_cases hMax : line.length ≤ maxLen
    · rw [if_neg (Nat.not_lt.mpr hMax), ends_bind, ends_update, ends_pure, if_pos hMax]
      constructor
      · rw [hBuf, List.take_left]
        rfl
      · rintro r ⟨⟩
        have hDrop := hLeft.drop (n := line.length + 1) (by rw [hBuf]; simp)
        rw [hWhole] at hDrop
        have hRest : (line ++ '\n' :: (left ++ u)).drop (line.length + 1) = left ++ u := by
          rw [← List.drop_drop, List.drop_left]
          rfl
        rw [hRest] at hDrop
        exact hDrop
    · rw [if_pos (Nat.not_le.mp hMax), if_neg hMax]
      exact ⟨rfl, nofun⟩

theorem readLoop_left (hR : R.Final) (bytes n : Nat) (hD : R.Left w D) (hn : bytes ≤ n + D.state.rbuf.length) :
    Ends (TlsConnection.readLoop env c bytes n) D
      (fun _ t => R.Left w t ∧ (bytes ≤ t.state.rbuf.length ∨ t.state.rbuf = w ∧ w.length < bytes)) E := by
  induction n generalizing D with
  | zero => exact ⟨hD, Or.inl (by omega)⟩
  | succ n ih =>
    unfold TlsConnection.readLoop
    rw [ends_bind, ends_read, ends_ite]
    constructor
    · intro hShort
      rw [ends_bind]
      apply (fill_left hR hD).imp
      rintro rv t ⟨hLeft, ⟨hrv, hAll, hEnd⟩ | ⟨hrv, hGrown⟩⟩
      · rw [if_pos hrv]
        exact ⟨hLeft, Or.inr ⟨hEnd, hAll ▸ hShort⟩⟩
      · rw [if_neg (by omega)]
        exact ih hLeft (by omega)
    · intro hLong
      exact ⟨hD, Or.inl (by omega)⟩

theorem readBytes_left (hR : R.Final) (bytes : Nat) (hD : R.Left w D) :
    Ends (TlsConnection.readBytes env c bytes) D (fun a t => a = w.take bytes ∧ R.Left (w.drop bytes) t) E := by
  unfold TlsConnection.readBytes
  rw [ends_bind]
  apply (readLoop_left hR bytes bytes hD (by omega)).imp
  rintro _ t ⟨hLeft, hEnough⟩
  rw [ends_bind, ends_read, ends_bind, ends_update, ends_pure]
  rcases hEnough with hEnough | ⟨hAll, hShort⟩
  · obtain ⟨u, rfl⟩ := hLeft.buffered
    exact ⟨(List.take_append_of_le_length hEnough).symm, hLeft.drop hEnough⟩
  · constructor
    · rw [hAll]
    · rcases hLeft with ⟨u, hUp, hu⟩ | ⟨hEnd, -⟩
      · have hNone : u = [] := by
          rw [hAll] at hu
          exact List.append_right_eq_self.mp hu
        refine Or.inl ⟨[], hNone ▸ hUp, ?_⟩
        rw [List.append_nil, hAll]
      · exact Or.inr ⟨hEnd, by rw [hAll]⟩

theorem final_ofText (v : Text) : (ofText v).Final where
  whole h := h.1
  silent {u tr secure ch s} h hData := by
    change firstAnswer tr v = .data ch s at hData
    cases tr with
    | nil =>
      rw [h.2 rfl] at hData
      cases hData
    | cons => cases hData
  again h := ⟨h.1, by simp⟩

theorem ofText_left (v : Text) : (ofText v).Left v ⟨{}, []⟩ := Or.inl (ofText_unread v {} rfl)

end Source

end DataReel
