import DataReel.Net.WholeStream

/-! # A stream in received pieces

A peer sends a stream and closes the connection. The pieces in which the stream
arrives are up to the network; `ReadLine`, `Read` and `ReadAll` share the buffer
and give the same for all of them.
-/

namespace DataReel

open Program

/-- What one receive delivers: at least one byte. -/
abbrev Piece := Char × Text

def joined (pieces : List Piece) : Text := pieces.flatMap fun p => p.1 :: p.2

def isFill (c : Nat) : Sigma NetAnswer → Bool
  | ⟨.fill c' _, _⟩ => c' = c
  | _ => false

/-- How often the connection was read. -/
def fills (c : Nat) (tr : List (Sigma NetAnswer)) : Nat := tr.countP (isFill c)

/-- The peer whose stream arrives in the pieces. -/
def arriving (c : Nat) (pieces : List Piece) : Environment NetAnswer := fun before r =>
  match r with
  | .fill .. =>
    match pieces[fills c before]? with
    | some (ch, s) => .data ch s
    | none => .closed
  | .handshake .. => .full
  | .connect .. | .initCtx _ | .openSsl _ | .verifyCert .. | .send .. => true
  | .createLocal _ | .openLocal _ | .writeLocal _ => true
  | .exceptionMessage _ | .peerAddress _ | .hostName | .smtpTime | .messageNumber => []
  | .readLocal => .closed

/-- What was sent and not received. -/
def outstanding (c : Nat) (pieces : List Piece) (tr : List (Sigma NetAnswer)) : Text :=
  joined (pieces.drop (fills c tr))

section Arriving

variable {c : Nat} {pieces : List Piece} {tr : List (Sigma NetAnswer)} {secure : Bool}

theorem fills_fill (r : NetAnswer (.fill c secure)) :
    fills c (⟨.fill c secure, r⟩ :: tr) = fills c tr + 1 := by
  rw [fills, List.countP_cons_of_pos (by simp [isFill]), fills]

theorem fills_message (m : NetAnswer (.exceptionMessage c)) :
    fills c (⟨.exceptionMessage c, m⟩ :: tr) = fills c tr := by
  rw [fills, List.countP_cons_of_neg (by simp [isFill]), fills]

theorem arriving_data {ch : Char} {s : Text} (h : arriving c pieces tr (.fill c secure) = .data ch s) :
    pieces[fills c tr]? = some (ch, s) := by
  simp only [arriving] at h
  split at h
  · cases h
    assumption
  · cases h

theorem arriving_not_failed : arriving c pieces tr (.fill c secure) ≠ .failed := by
  simp only [arriving]
  split <;> nofun

theorem arriving_stop {r : Received} (h : arriving c pieces tr (.fill c secure) = r)
    (hEnd : r = .closed ∨ r = .failed) : pieces.length ≤ fills c tr := by
  rcases hEnd with rfl | rfl
  · simp only [arriving] at h
    split at h
    · cases h
    · exact List.getElem?_eq_none_iff.mp (by assumption)
  · exact absurd h arriving_not_failed

theorem outstanding_data {ch : Char} {s : Text} (h : pieces[fills c tr]? = some (ch, s)) :
    outstanding c pieces tr = ch :: s ++ joined (pieces.drop (fills c tr + 1)) := by
  obtain ⟨hLt, hAt⟩ := List.getElem?_eq_some_iff.mp h
  rw [outstanding, List.drop_eq_getElem_cons hLt, hAt]
  rfl

variable (c pieces)

def inPieces : Source (arriving c pieces) c where
  upcoming u tr := u = outstanding c pieces tr
  ended u tr := u = [] ∧ pieces.length ≤ fills c tr
  data {u tr secure ch s} hu h := by
    refine ⟨_, hu.trans (outstanding_data (arriving_data h)), ?_⟩
    rw [outstanding, fills_fill]
  stop {u tr secure r} hu h hEnd := by
    have hAll := arriving_stop h hEnd
    constructor
    · rw [hu, outstanding, List.drop_of_length_le hAll]
      rfl
    · rw [fills_fill]
      omega
  message {u tr m} h := by
    rw [fills_message]
    exact h

theorem inPieces_final : (inPieces c pieces).Final where
  whole h := h.1
  silent h hData := by
    obtain ⟨hLt, -⟩ := List.getElem?_eq_some_iff.mp (arriving_data hData)
    exact absurd h.2 (Nat.not_le.mpr hLt)
  again h := ⟨h.1, by rw [fills_fill]; exact Nat.le_succ_of_le h.2⟩

variable {c pieces}

/-- What is left is what is buffered and what is still to come. -/
theorem left_inPieces {w : Text} {D : Dialogue NetAnswer TlsConnection}
    (h : (inPieces c pieces).Left w D) : D.state.rbuf ++ outstanding c pieces D.trace = w := by
  rcases h with ⟨u, hUp, hw⟩ | ⟨⟨u, -, hAll⟩, hw⟩
  · exact hUp ▸ hw
  · rw [outstanding, List.drop_of_length_le hAll, hw]
    exact List.append_nil w

end Arriving

/-! ## One call -/

namespace Source

variable {env : Environment NetAnswer} {c : Nat} {R : Source env c} {w : Text}
  {D : Dialogue NetAnswer TlsConnection} {E : Dialogue NetAnswer TlsConnection → Prop}

/-- A call for a line that gets none leaves all in place. -/
theorem readLine_left_none (hR : R.Final) (maxLen : Nat) (hD : R.Left w D) :
    Ends (TlsConnection.readLine env c maxLen) D (fun a t => a = none → R.Left w t) E := by
  unfold TlsConnection.readLine
  rw [ends_bind]
  apply (readLineLoop_left hR maxLen (maxLen + 2) hD (by omega) (by omega)).imp
  rintro found t ⟨hLeft, -⟩
  rw [ends_ite]
  constructor
  · intro _
    rw [ends_bind, ends_read, ends_ite]
    constructor
    · intro _ _
      exact hLeft.error _
    · intro _
      rw [ends_bind, ends_update, ends_pure]
      nofun
  · intro _ _
    exact hLeft

theorem fill_unfailing (hEnv : ∀ tr secure, env tr (.fill c secure) ≠ .failed) :
    Ends (TlsConnection.fill env c) D (fun rv _ => 0 ≤ rv) E := by
  unfold TlsConnection.fill
  rw [ends_bind, ends_read, ends_bind, ends_ask]
  cases hFill : env D.trace (.fill c D.state.secure) with
  | data ch s =>
    change (0 : Int) ≤ s.length + 1
    omega
  | closed => exact Int.le_refl 0
  | failed => exact absurd hFill (hEnv _ _)

/-- All that is left, if it is not too much. Every turn but the last receives something. -/
theorem readAll_left (hR : R.Final) (hEnv : ∀ tr secure, env tr (.fill c secure) ≠ .failed)
    (maxLen : Option Nat) (turns : Nat) (hD : R.Left w D)
    (hTurns : w.length < turns + D.state.rbuf.length) :
    Ends (TlsConnection.readAll env c maxLen turns) D (fun a t =>
      if maxLen.any (· < w.length) then a = none ∧ R.Left w t else a = some w ∧ R.Left [] t) E := by
  induction turns generalizing D with
  | zero =>
    obtain ⟨u, rfl⟩ := hD.buffered
    rw [List.length_append] at hTurns
    omega
  | succ turns ih =>
    unfold TlsConnection.readAll
    rw [ends_bind, ends_read, ends_ite]
    constructor
    · intro hMuch
      have hAll : maxLen.any (· < w.length) = true := by
        obtain ⟨u, rfl⟩ := hD.buffered
        cases maxLen with
        | none => cases hMuch
        | some m =>
          simp only [Option.any_some, decide_eq_true_eq, List.length_append] at hMuch ⊢
          omega
      simp only [hAll, if_true]
      exact ⟨rfl, hD.error _⟩
    · intro hFits
      rw [ends_bind]
      apply ((fill_left hR hD).and (fill_unfailing (E := E) hEnv)).mono _ fun _ h => h.1
      rintro rv t ⟨⟨hLeft, ⟨hStop, hBefore, hAll⟩ | ⟨hMore, hGrown⟩⟩, hNonneg⟩
      · rw [if_pos (by omega), ends_bind, ends_read, ends_bind, ends_update, ends_pure,
          if_neg (hBefore ▸ hFits)]
        refine ⟨congrArg some hAll, ?_⟩
        have hDrop := hLeft.drop (Nat.le_refl _)
        rw [hAll, List.drop_length] at hDrop
        exact hDrop
      · rw [if_neg (by omega), if_neg (by omega)]
        exact ih hLeft (by omega)

end Source

/-! ## Sequences of calls -/

/-- A call with its limit. -/
inductive ReadCall where
  | line (maxLen : Nat)
  | bytes (n : Nat)
  | all (maxLen : Option Nat)
  deriving DecidableEq, Repr

/-- What a call gives: `none` for a call that returned false. -/
inductive ReadReply where
  | line (s : Option Text)
  | bytes (s : Text)
  | all (s : Option Text)
  deriving DecidableEq, Repr

namespace ReadCall

/-- The loop of `ReadAll` may take the turns given. -/
def perform (env : Environment NetAnswer) (c turns : Nat) : ReadCall → NetM TlsConnection ReadReply
  | line maxLen => do
    let s ← TlsConnection.readLine env c maxLen
    return .line s
  | bytes n => do
    let s ← TlsConnection.readBytes env c n
    return .bytes s
  | all maxLen => do
    let s ← TlsConnection.readAll env c maxLen turns
    return .all s

def performAll (env : Environment NetAnswer) (c turns : Nat) :
    List ReadCall → NetM TlsConnection (List ReadReply)
  | [] => return []
  | call :: calls => do
    let reply ← perform env c turns call
    let replies ← performAll env c turns calls
    return reply :: replies

/-- The reply and what is left, as functions of what was left before. -/
def answer : ReadCall → Text → ReadReply × Text
  | line maxLen, w =>
    match Source.nextLine maxLen w with
    | some (s, rest) => (.line (some s), rest)
    | none => (.line none, w)
  | bytes n, w => (.bytes (w.take n), w.drop n)
  | all maxLen, w => if maxLen.any (· < w.length) then (.all none, w) else (.all (some w), [])

def answers : List ReadCall → Text → List ReadReply × Text
  | [], w => ([], w)
  | call :: calls, w =>
    ((call.answer w).1 :: (answers calls (call.answer w).2).1, (answers calls (call.answer w).2).2)

/-- The bytes that a reply took off the stream. -/
def Took : ReadReply → Text → Prop
  | .line (some s), raw => ∃ x, '\n' ∉ x ∧ s = TlsConnection.stripReturn x ∧ raw = x ++ ['\n']
  | .bytes s, raw | .all (some s), raw => raw = s
  | .line none, raw | .all none, raw => raw = []

theorem nextLine_some {maxLen : Nat} {w s rest : Text} (h : Source.nextLine maxLen w = some (s, rest)) :
    ∃ x, '\n' ∉ x ∧ s = TlsConnection.stripReturn x ∧ w = x ++ '\n' :: rest := by
  obtain ⟨⟨x, y⟩, hCut, hLine⟩ := Option.bind_eq_some_iff.mp h
  obtain ⟨rfl, hBreak⟩ := eq_of_cut hCut
  split at hLine
  · cases hLine
    exact ⟨x, hBreak, rfl, rfl⟩
  · cases hLine

theorem answer_took (call : ReadCall) (w : Text) :
    ∃ raw, Took (call.answer w).1 raw ∧ w = raw ++ (call.answer w).2 := by
  cases call with
  | line maxLen =>
    rw [answer]
    split
    · rename_i s rest hLine
      obtain ⟨x, hBreak, rfl, rfl⟩ := nextLine_some hLine
      exact ⟨x ++ ['\n'], ⟨x, hBreak, rfl, rfl⟩, List.append_cons x '\n' rest⟩
    · exact ⟨[], rfl, rfl⟩
  | bytes n => exact ⟨w.take n, rfl, (List.take_append_drop n w).symm⟩
  | all maxLen =>
    rw [answer]
    split
    · exact ⟨[], rfl, rfl⟩
    · exact ⟨w, rfl, (List.append_nil w).symm⟩

theorem answer_length_le (call : ReadCall) (w : Text) : (call.answer w).2.length ≤ w.length := by
  obtain ⟨raw, -, hw⟩ := answer_took call w
  have hLength := congrArg List.length hw
  rw [List.length_append] at hLength
  omega

section Left

variable {env : Environment NetAnswer} {c : Nat} {R : Source env c} {w : Text}
  {D : Dialogue NetAnswer TlsConnection} {E : Dialogue NetAnswer TlsConnection → Prop}

theorem perform_left (hR : R.Final) (hEnv : ∀ tr secure, env tr (.fill c secure) ≠ .failed)
    (call : ReadCall) {turns : Nat} (hD : R.Left w D) (hTurns : w.length < turns) :
    Ends (call.perform env c turns) D
      (fun reply t => reply = (call.answer w).1 ∧ R.Left (call.answer w).2 t) E := by
  cases call with
  | line maxLen =>
    unfold perform
    rw [ends_bind]
    apply ((Source.readLine_left hR maxLen hD).and
      (Source.readLine_left_none (E := E) hR maxLen hD)).mono _ fun _ h => h.1
    rintro s t ⟨⟨rfl, hSome⟩, hNone⟩
    rw [ends_pure, answer]
    cases hLine : Source.nextLine maxLen w with
    | none => exact ⟨rfl, hNone (by rw [hLine]; rfl)⟩
    | some r => exact ⟨rfl, hSome r hLine⟩
  | bytes n =>
    unfold perform
    rw [ends_bind]
    apply (Source.readBytes_left hR n hD).imp
    rintro s t ⟨rfl, hLeft⟩
    exact ⟨rfl, hLeft⟩
  | all maxLen =>
    unfold perform
    rw [ends_bind]
    apply (Source.readAll_left hR hEnv maxLen turns hD (by omega)).imp
    intro s t h
    rw [ends_pure, answer]
    split at h
    · rename_i hMuch
      obtain ⟨rfl, hLeft⟩ := h
      rw [if_pos hMuch]
      exact ⟨rfl, hLeft⟩
    · rename_i hFits
      obtain ⟨rfl, hLeft⟩ := h
      rw [if_neg hFits]
      exact ⟨rfl, hLeft⟩

theorem performAll_left (hR : R.Final) (hEnv : ∀ tr secure, env tr (.fill c secure) ≠ .failed)
    (calls : List ReadCall) {turns : Nat} (hD : R.Left w D) (hTurns : w.length < turns) :
    Ends (performAll env c turns calls) D
      (fun replies t => replies = (answers calls w).1 ∧ R.Left (answers calls w).2 t) E := by
  induction calls generalizing w D with
  | nil => exact ⟨rfl, hD⟩
  | cons call calls ih =>
    unfold performAll
    rw [ends_bind]
    apply (perform_left hR hEnv call hD hTurns).imp
    rintro reply t ⟨rfl, hLeft⟩
    rw [ends_bind]
    apply (ih hLeft (Nat.lt_of_le_of_lt (answer_length_le call w) hTurns)).imp
    rintro replies t' ⟨rfl, hLeft'⟩
    exact ⟨rfl, hLeft'⟩

end Left

/-! ## Whole sequences -/

theorem answers_took (calls : List ReadCall) (w : Text) :
    ∃ raws, List.Forall₂ Took (answers calls w).1 raws ∧ w = raws.flatten ++ (answers calls w).2 := by
  induction calls generalizing w with
  | nil => exact ⟨[], .nil, rfl⟩
  | cons call calls ih =>
    obtain ⟨raw, hRaw, hw⟩ := answer_took call w
    obtain ⟨raws, hRaws, hRest⟩ := ih (call.answer w).2
    refine ⟨raw :: raws, .cons hRaw hRaws, ?_⟩
    rw [List.flatten_cons, List.append_assoc]
    exact hw.trans (congrArg (raw ++ ·) hRest)

/-- The replies and the bytes left are those of the stream, in whatever pieces it arrives, and
the calls take the stream apart in order. -/
theorem reads_of_stream (stream : Text) (calls : List ReadCall) :
    ∃ replies unread, (∃ raws, List.Forall₂ Took replies raws ∧ stream = raws.flatten ++ unread) ∧
      ∀ (c : Nat) (t₀ : TlsConnection) (pieces : List Piece) (turns : Nat), joined pieces = stream →
        stream.length < turns → ∃ D, performAll (arriving c pieces) c turns calls
            ⟨{ t₀ with rbuf := [] }, []⟩ = .ok replies D ∧
          D.state.rbuf ++ outstanding c pieces D.trace = unread := by
  refine ⟨(answers calls stream).1, (answers calls stream).2, answers_took calls stream, ?_⟩
  intro c t₀ pieces turns hPieces hTurns
  have hLeft : (inPieces c pieces).Left stream ⟨{ t₀ with rbuf := [] }, []⟩ :=
    Or.inl ⟨stream, hPieces.symm, rfl⟩
  have hRun := performAll_left (E := fun _ => False) (inPieces_final c pieces)
    (fun _ _ => arriving_not_failed) calls hLeft hTurns
  unfold Ends at hRun
  split at hRun
  · rename_i replies D hOk
    obtain ⟨rfl, hRest⟩ := hRun
    exact ⟨D, hOk, left_inPieces hRest⟩
  · exact hRun.elim

end ReadCall

end DataReel
