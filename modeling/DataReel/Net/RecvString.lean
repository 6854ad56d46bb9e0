import DataReel.Net.TelnetSearch

/-! # `RecvString`

The call reads pieces until the string is found, the buffer is full, or the
connection gives none. The buffer is a memory that may hold anything before.
-/

namespace DataReel

open Telnet

inductive SocketError where
  | noError
  | bufOverError
  | requestTimeout
  | disconnectedError
  | receiveError
  | transmitError
  deriving DecidableEq, Repr

/-- What one turn of the loop gets: no reply in time, a failed read, the end of the connection, or
bytes, each with the socket error that is left if the client sends anything for it. -/
inductive Arrival where
  | timeout
  | failed
  | closed
  | data (bytes : List (UInt8 × SocketError))

/-- The client, the buffer, and `byte_count`. -/
structure Receiving where
  client : TelnetClient
  mem : Nat → UInt8
  byteCount : Nat

namespace Receiving

/-- `buf[byte_count] = 0` -/
def terminate (r : Receiving) : Receiving := { r with mem := Function.update r.mem r.byteCount 0 }

/-- The characters that were stored. -/
def stored (r : Receiving) : List UInt8 := firstBytes r.mem r.byteCount

/-- A character is copied while there is room for it and the null byte. -/
def store (bytes : Nat) (r : Receiving) : Option UInt8 → Receiving
  | none => r
  | some c =>
    if r.byteCount + 1 < bytes then
      { r with mem := Function.update r.mem r.byteCount c, byteCount := r.byteCount + 1 }
    else r

/-- The bytes of one piece. -/
def receive (bytes : Nat) : Receiving → List (UInt8 × SocketError) → Receiving × SocketError
  | r, [] => (r, .noError)
  | r, (b, e) :: rest =>
    let step := r.client.readTelnetData b
    let err := if step.2 = [] then .noError else e
    if err = .noError then
      receive bytes (store bytes { r with client := step.1 } step.1.getChar) rest
    else (terminate { r with client := step.1 }, err)

/-- One turn of the loop, with the return value if the call returns. -/
def turn (bytes : Nat) (str : List UInt8) (r : Receiving) : Arrival → Receiving × Option SocketError
  | .timeout => (r.terminate, some .requestTimeout)
  | .failed => (r.terminate, some .receiveError)
  | .closed => (r, some .disconnectedError)
  | .data piece =>
    let received := r.receive bytes piece
    if received.2 = .noError then
      match search received.1.mem str received.1.byteCount with
      | some (true, _) => (received.1.terminate, some .noError)
      | _ => (received.1, none)
    else (received.1, some received.2)

/-- The loop. The call has not returned where there is no return value. -/
def recvString (bytes : Nat) (str : List UInt8) : Receiving → List Arrival →
    Receiving × Option SocketError
  | r, arrivals =>
    if r.byteCount + 1 < bytes then
      match arrivals with
      | [] => (r, none)
      | a :: rest =>
        match turn bytes str r a with
        | (r', some e) => (r', some e)
        | (r', none) => recvString bytes str r' rest
    else (r.terminate, some .bufOverError)

/-- The turns that the call takes, each with the state before it. -/
def turns (bytes : Nat) (str : List UInt8) : Receiving → List Arrival → List (Receiving × Arrival)
  | _, [] => []
  | r, a :: rest =>
    if r.byteCount + 1 < bytes then
      (r, a) :: match turn bytes str r a with
        | (_, some _) => []
        | (r', none) => turns bytes str r' rest
    else []

/-- All characters that are stored after the piece. -/
def soFar (bytes : Nat) (r : Receiving) (piece : List (UInt8 × SocketError)) : List UInt8 :=
  (r.stored ++ r.client.decoded (piece.map Prod.fst)).take (bytes - 1)

/-- The buffer holds the stored characters and a null byte. -/
def Terminated (bytes : Nat) (r : Receiving) : Prop :=
  r.byteCount < bytes ∧ r.mem r.byteCount = 0

section Store

variable {bytes : Nat} {r : Receiving}

@[simp] theorem terminate_byteCount : r.terminate.byteCount = r.byteCount := rfl

@[simp] theorem terminate_stored : r.terminate.stored = r.stored :=
  firstBytes_update 0 (Nat.le_refl _)

theorem terminate_terminated (h : r.byteCount < bytes) : r.terminate.Terminated bytes :=
  ⟨h, Function.update_self ..⟩

theorem store_lt (h : r.byteCount < bytes) (c : Option UInt8) :
    (r.store bytes c).byteCount < bytes := by
  unfold store
  split
  · exact h
  · split
    · assumption
    · exact h

theorem store_client (c : Option UInt8) : (r.store bytes c).client = r.client := by
  unfold store
  split
  · rfl
  · split <;> rfl

theorem stored_length : r.stored.length = r.byteCount := firstBytes_length

theorem store_stored (h : r.byteCount < bytes) (c : Option UInt8) :
    (r.store bytes c).stored = (r.stored ++ c.toList).take (bytes - 1) := by
  cases c with
  | none =>
    rw [Option.toList_none, List.append_nil, List.take_of_length_le (by rw [stored_length]; omega)]
    rfl
  | some c =>
    rw [store, Option.toList_some]
    split
    · rw [List.take_of_length_le (by rw [List.length_append, stored_length, List.length_singleton]; omega),
        stored, firstBytes_succ, firstBytes_update c (Nat.le_refl _)]
      exact congrArg (fun b => r.stored ++ [b]) (Function.update_self ..)
    · rw [List.take_append_of_le_length (by rw [stored_length]; omega),
        List.take_of_length_le (by rw [stored_length]; omega)]

theorem take_append_take (n : Nat) (l more : List UInt8) :
    (l.take n ++ more).take n = (l ++ more).take n := by
  rcases Nat.le_total l.length n with hShort | hLong
  · rw [List.take_of_length_le hShort]
  · rw [List.take_append_of_le_length (by rw [List.length_take]; omega), List.take_take,
      List.take_append_of_le_length hLong, Nat.min_self]

/-- The bytes of a piece in order, up to an error in what the client sends. -/
theorem receive_spec (piece : List (UInt8 × SocketError)) (h : r.byteCount < bytes) :
    (r.receive bytes piece).1.byteCount < bytes ∧
    ((r.receive bytes piece).2 = .noError →
      (r.receive bytes piece).1.stored = r.soFar bytes piece) ∧
    ((r.receive bytes piece).2 ≠ .noError → (r.receive bytes piece).1.Terminated bytes) := by
  induction piece generalizing r with
  | nil =>
    refine ⟨h, fun _ => ?_, fun hErr => absurd rfl hErr⟩
    rw [soFar, List.map_nil]
    change r.stored = (r.stored ++ []).take (bytes - 1)
    rw [List.append_nil, List.take_of_length_le (by rw [stored_length]; omega)]
  | cons p piece ih =>
    obtain ⟨b, e⟩ := p
    rw [receive]
    by_cases hErr : (if (r.client.readTelnetData b).2 = [] then SocketError.noError else e) = .noError
    · rw [if_pos hErr]
      have hNext : ({ r with client := (r.client.readTelnetData b).1 } : Receiving).byteCount < bytes := h
      obtain ⟨hLt, hStored, hEnd⟩ := ih (store_lt hNext (r.client.readTelnetData b).1.getChar)
      refine ⟨hLt, fun hNone => ?_, hEnd⟩
      rw [hStored hNone, soFar, soFar, store_stored hNext, store_client, take_append_take]
      exact congrArg (List.take (bytes - 1)) (List.append_assoc ..)
    · rw [if_neg hErr]
      refine ⟨h, fun hNone => absurd hNone hErr, fun _ => ?_⟩
      exact terminate_terminated h

end Store

/-! ## One turn -/

/-- What a turn is to do. -/
structure TurnRight (bytes : Nat) (str : List UInt8) (r : Receiving) (a : Arrival) : Prop where
  stored : ∀ piece, a = .data piece → (r.receive bytes piece).2 = .noError →
    (turn bytes str r a).1.stored = r.soFar bytes piece
  found : ∀ piece, a = .data piece → (r.receive bytes piece).2 = .noError →
    ((turn bytes str r a).2 = some .noError ↔ str <:+: r.soFar bytes piece)
  looked : ∀ piece, a = .data piece → (r.receive bytes piece).2 = .noError →
    ∀ s ∈ search (r.receive bytes piece).1.mem str (r.receive bytes piece).1.byteCount,
      s.2 ≤ (r.receive bytes piece).1.byteCount
  only : (turn bytes str r a).2 = some .noError →
    ∃ piece, a = .data piece ∧ (r.receive bytes piece).2 = .noError
  returned : ∀ e, (turn bytes str r a).2 = some e → (turn bytes str r a).1.Terminated bytes

/-- The end of the connection finds a null byte in place, and after a piece the forward pass
over the characters reaches the string or none of them starts it. -/
def Safe (bytes : Nat) (str : List UInt8) (r : Receiving) : Arrival → Prop
  | .timeout | .failed => True
  | .closed => r.mem r.byteCount = 0
  | .data piece => (r.receive bytes piece).2 = .noError → Clean str (r.soFar bytes piece)

section Turn

variable {bytes : Nat} {str : List UInt8} {r : Receiving} {a : Arrival}

/-- A piece that was received without an error. -/
theorem turn_data (hStr : str ≠ []) {piece : List (UInt8 × SocketError)}
    (hErr : (r.receive bytes piece).2 = .noError) :
    ∃ found looked, search (r.receive bytes piece).1.mem str (r.receive bytes piece).1.byteCount =
        some (found, looked) ∧
      turn bytes str r (.data piece) = (if found = true then
        ((r.receive bytes piece).1.terminate, some .noError)
        else ((r.receive bytes piece).1, none)) ∧
      ((found = true ↔ str <:+: (r.receive bytes piece).1.stored) ∧
          looked ≤ (r.receive bytes piece).1.byteCount ↔
        Clean str (r.receive bytes piece).1.stored) := by
  have hIff := @search_right_iff (r.receive bytes piece).1.mem str (r.receive bytes piece).1.byteCount hStr
  obtain ⟨found, looked, hSearch, hRight⟩ := hIff
  refine ⟨found, looked, hSearch, ?_, hRight⟩
  rw [turn, if_pos hErr, hSearch]
  cases found <;> rfl

theorem turn_right_iff (hStr : str ≠ []) (h : r.byteCount < bytes) (a : Arrival) :
    TurnRight bytes str r a ↔ Safe bytes str r a := by
  cases a with
  | timeout | failed =>
    refine ⟨fun _ => trivial, fun _ => ⟨nofun, nofun, nofun, nofun, fun e _ => ?_⟩⟩
    exact terminate_terminated h
  | closed =>
    constructor
    · intro hRight
      exact (hRight.returned .disconnectedError rfl).2
    · intro hNull
      exact ⟨nofun, nofun, nofun, nofun, fun e _ => ⟨h, hNull⟩⟩
  | data piece =>
    obtain ⟨hLt, hStored, hEnd⟩ := receive_spec piece h
    by_cases hErr : (r.receive bytes piece).2 = .noError
    · obtain ⟨found, looked, hSearch, hTurn, hRight⟩ := turn_data hStr hErr
      rw [hStored hErr] at hRight
      constructor
      · intro hTurnRight _
        apply hRight.mp
        have hFound := hTurnRight.found piece rfl hErr
        refine ⟨?_, hTurnRight.looked piece rfl hErr _ hSearch⟩
        rw [← hFound, hTurn]
        cases found <;> simp
      · intro hSafe
        obtain ⟨hFound, hLooked⟩ := hRight.mpr (hSafe hErr)
        constructor
        · rintro _ ⟨⟩ _
          rw [hTurn, ← hStored hErr]
          cases found
          · rfl
          · exact terminate_stored
        · rintro _ ⟨⟩ _
          rw [hTurn, ← hFound]
          cases found <;> simp
        · rintro _ ⟨⟩ _ s hs
          rw [hSearch] at hs
          obtain rfl := Option.some.inj hs
          exact hLooked
        · intro _
          exact ⟨piece, rfl, hErr⟩
        · intro e he
          rw [hTurn] at he ⊢
          cases found
          · cases he
          · exact terminate_terminated hLt
    · have hTurn : turn bytes str r (.data piece) =
          ((r.receive bytes piece).1, some (r.receive bytes piece).2) := by
        rw [turn, if_neg hErr]
      refine ⟨fun _ hNone => absurd hNone hErr, fun _ => ⟨?_, ?_, ?_, ?_, ?_⟩⟩
      · rintro _ ⟨⟩ hNone
        exact absurd hNone hErr
      · rintro _ ⟨⟩ hNone
        exact absurd hNone hErr
      · rintro _ ⟨⟩ hNone
        exact absurd hNone hErr
      · intro hReturn
        rw [hTurn] at hReturn
        exact absurd (Option.some.inj hReturn) hErr
      · intro e _
        rw [hTurn]
        exact hEnd hErr

theorem turn_lt (hStr : str ≠ []) (h : r.byteCount < bytes) (a : Arrival) :
    (turn bytes str r a).1.byteCount < bytes := by
  cases a with
  | timeout | failed | closed => exact h
  | data piece =>
    obtain ⟨hLt, -, -⟩ := receive_spec piece h
    by_cases hErr : (r.receive bytes piece).2 = .noError
    · obtain ⟨found, looked, -, hTurn, -⟩ := turn_data hStr hErr
      rw [hTurn]
      cases found <;> exact hLt
    · rw [turn, if_neg hErr]
      exact hLt

end Turn

/-! ## Whole calls -/

/-- What a call is to do: all its turns are right, and the buffer is a string on every return. -/
structure CallRight (bytes : Nat) (str : List UInt8) (r : Receiving) (arrivals : List Arrival) :
    Prop where
  turns : ∀ p ∈ turns bytes str r arrivals, TurnRight bytes str p.1 p.2
  returned : ∀ r' e, recvString bytes str r arrivals = (r', some e) → r'.Terminated bytes

section Call

variable {bytes : Nat} {str : List UInt8} {r : Receiving} {arrivals : List Arrival}

theorem turns_lt (hStr : str ≠ []) (h : r.byteCount < bytes) :
    ∀ p ∈ turns bytes str r arrivals, p.1.byteCount < bytes := by
  induction arrivals generalizing r with
  | nil => nofun
  | cons a rest ih =>
    intro p hp
    rw [turns] at hp
    split at hp
    · rcases List.mem_cons.mp hp with rfl | hp
      · exact h
      · split at hp
        · cases hp
        · rename_i r' hTurn
          have hNext := turn_lt hStr h a
          rw [hTurn] at hNext
          exact ih hNext p hp
    · cases hp

theorem returned_of_turns (hStr : str ≠ []) (h : r.byteCount < bytes)
    (hTurns : ∀ p ∈ turns bytes str r arrivals, TurnRight bytes str p.1 p.2) (r' : Receiving)
    (e : SocketError) (hRun : recvString bytes str r arrivals = (r', some e)) :
    r'.Terminated bytes := by
  induction arrivals generalizing r with
  | nil =>
    rw [recvString] at hRun
    split at hRun
    · cases hRun
    · cases hRun
      exact terminate_terminated h
  | cons a rest ih =>
    rw [recvString] at hRun
    rw [turns] at hTurns
    split at hRun
    · rename_i hRoom
      rw [if_pos hRoom, List.forall_mem_cons] at hTurns
      obtain ⟨hRight, hRest⟩ := hTurns
      have hNext := turn_lt hStr h a
      have hReturned := hRight.returned
      dsimp only at hRun hReturned
      cases hTurn : turn bytes str r a with
      | mk r₁ e₁ =>
        rw [hTurn] at hRun hRest hNext hReturned
        cases e₁ with
        | some e₁ =>
          cases hRun
          exact hReturned e rfl
        | none => exact ih hNext hRest hRun
    · cases hRun
      exact terminate_terminated h

/-- The calls that do what they are to do, by the turns they take. -/
theorem recvString_right_iff (hStr : str ≠ []) (hBytes : 0 < bytes) (client : TelnetClient)
    (mem : Nat → UInt8) (arrivals : List Arrival) :
    CallRight bytes str ⟨client, mem, 0⟩ arrivals ↔
      ∀ p ∈ turns bytes str ⟨client, mem, 0⟩ arrivals, Safe bytes str p.1 p.2 := by
  have hLt : ∀ p ∈ turns bytes str ⟨client, mem, 0⟩ arrivals, p.1.byteCount < bytes :=
    turns_lt hStr hBytes
  constructor
  · intro h p hp
    exact (turn_right_iff hStr (hLt p hp) p.2).mp (h.turns p hp)
  · intro h
    have hTurns : ∀ p ∈ turns bytes str ⟨client, mem, 0⟩ arrivals, TurnRight bytes str p.1 p.2 :=
      fun p hp => (turn_right_iff hStr (hLt p hp) p.2).mpr (h p hp)
    exact ⟨hTurns, returned_of_turns hStr hBytes hTurns⟩

end Call

/-- A prompt in one piece. -/
theorem recvString_right_iff_prompt : CallRight 16 [36] ⟨⟨.nvt, [78, 86, 84], .data, 0,
    .writeToTerminal, 0, false, false⟩, fun _ => 7, 0⟩
      [.data [(104, .noError), (36, .noError)]] := by
  apply (recvString_right_iff (by decide) (by decide) _ _ _).mpr
  intro p hp
  obtain rfl := List.mem_singleton.mp hp
  intro _
  exact Or.inl ⟨[104], [], rfl, .snoc (j := 0) .nil (by decide) (by decide)⟩

/-- `ab` is not found in `aab`: the second `a` breaks off the first beginning and is not taken for
another one. -/
theorem recvString_misses : ¬ ∀ (bytes : Nat) (str : List UInt8) (client : TelnetClient)
    (mem : Nat → UInt8) (arrivals : List Arrival), str ≠ [] → 0 < bytes →
      CallRight bytes str ⟨client, mem, 0⟩ arrivals := by
  intro h
  have hRight := h 16 [97, 98] ⟨.nvt, [78, 86, 84], .data, 0, .writeToTerminal, 0, false, false⟩
    (fun _ => 0) [.data [(97, .noError), (97, .noError), (98, .noError)]] (by decide) (by decide)
  have hFound := (hRight.turns _ List.mem_cons_self).found _ rfl (by decide)
  have hNone := hFound.mpr ⟨[97], [], by decide⟩
  exact absurd hNone (by decide)

end Receiving

end DataReel
