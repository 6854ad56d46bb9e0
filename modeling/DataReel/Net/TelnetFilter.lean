import DataReel.Net.TelnetStream

/-! # The filtered terminal

`VT100FWrite` drops escape sequences by one flag. It knows five letters that end
a sequence; after any other final byte it drops what follows.
-/

namespace DataReel

open Telnet

/-- The filter by itself: the flag before and after a byte, and what is delivered. -/
def vtStep (escape : Bool) (data : UInt8) : Bool × List UInt8 :=
  if escape ∧ data ∉ vtEnds then (escape, [])
  else if data = 0 then (escape, [])
  else if data = 27 then (true, [])
  else if data ∈ vtEnds ∧ escape then (false, [])
  else (escape, [data])

def vtFilter : Bool → List UInt8 → Bool × List UInt8
  | escape, [] => (escape, [])
  | escape, data :: rest =>
    ((vtFilter (vtStep escape data).1 rest).1,
      (vtStep escape data).2 ++ (vtFilter (vtStep escape data).1 rest).2)

section Filter

variable {escape : Bool} {data : UInt8} {bytes more : List UInt8}

theorem vtFilter_append : vtFilter escape (bytes ++ more) =
    ((vtFilter (vtFilter escape bytes).1 more).1,
      (vtFilter escape bytes).2 ++ (vtFilter (vtFilter escape bytes).1 more).2) := by
  induction bytes generalizing escape with
  | nil => rfl
  | cons data bytes ih =>
    rw [List.cons_append, vtFilter, ih, vtFilter]
    simp only [List.append_assoc]

theorem vtStep_skip (h : data ∉ vtEnds) : vtStep true data = (true, []) := by
  rw [vtStep, if_pos ⟨rfl, h⟩]

theorem vtStep_end (h : data ∈ vtEnds) : vtStep true data = (false, []) := by
  have hNotZero : data ≠ 0 := by
    rintro rfl
    exact absurd h (by decide)
  have hNotEscape : data ≠ 27 := by
    rintro rfl
    exact absurd h (by decide)
  rw [vtStep, if_neg fun hSkip => hSkip.2 h, if_neg hNotZero, if_neg hNotEscape, if_pos ⟨h, rfl⟩]

theorem vtStep_text (hZero : data ≠ 0) (hEscape : data ≠ 27) :
    vtStep false data = (false, [data]) := by
  simp [vtStep, hZero, hEscape]

theorem vtStep_length (escape : Bool) (data : UInt8) : (vtStep escape data).2.length ≤ 1 := by
  unfold vtStep
  repeat' split
  all_goals simp

theorem vtFilter_length (escape : Bool) (bytes : List UInt8) :
    (vtFilter escape bytes).2.length ≤ bytes.length := by
  induction bytes generalizing escape with
  | nil => exact Nat.le_refl 0
  | cons data bytes ih =>
    have hStep := vtStep_length escape data
    have hRest := ih (vtStep escape data).1
    rw [vtFilter, List.length_append, List.length_cons]
    omega

/-- The first byte after an unfinished sequence is lost, whatever it is. -/
theorem vtFilter_lost (data : UInt8) (bytes : List UInt8) :
    (vtFilter true (data :: bytes)).2.length ≤ bytes.length := by
  have hNone : (vtStep true data).2 = [] := by
    by_cases hEnd : data ∈ vtEnds
    · rw [vtStep_end hEnd]
    · rw [vtStep_skip hEnd]
  rw [vtFilter, hNone, List.nil_append]
  exact vtFilter_length _ bytes

theorem vtFilter_text (h : ∀ b ∈ bytes, b ≠ 0 ∧ b ≠ 27) : vtFilter false bytes = (false, bytes) := by
  induction bytes with
  | nil => rfl
  | cons b bytes ih =>
    obtain ⟨hZero, hEscape⟩ := h b List.mem_cons_self
    rw [vtFilter, vtStep_text hZero hEscape, ih fun b hb => h b (List.mem_cons_of_mem _ hb)]
    rfl

theorem vtFilter_skip (h : ∀ b ∈ bytes, b ∉ vtEnds) : vtFilter true bytes = (true, []) := by
  induction bytes with
  | nil => rfl
  | cons b bytes ih =>
    rw [vtFilter, vtStep_skip (h b List.mem_cons_self), ih fun b hb => h b (List.mem_cons_of_mem _ hb)]
    rfl

end Filter

/-! ## Streams of text and control sequences -/

inductive VtItem where
  | text (bytes : List UInt8) (plain : ∀ b ∈ bytes, b ≠ 0 ∧ b ≠ 27)
  | control (params : List UInt8) (final : UInt8) (inside : ∀ b ∈ params, 0x20 ≤ b ∧ b ≤ 0x3F)
    (ends : 0x40 ≤ final ∧ final ≤ 0x7E)

namespace VtItem

def bytes : VtItem → List UInt8
  | text bytes _ => bytes
  | control params final _ _ => [27, 91] ++ params ++ [final]

def shown : VtItem → List UInt8
  | text bytes _ => bytes
  | control .. => []

/-- No text follows a control sequence that the filter does not see the end of; the flag says
whether such a sequence is open. -/
def Clear : Bool → List VtItem → Prop
  | _, [] => True
  | escape, text bytes _ :: items => (escape = true → bytes = []) ∧ Clear escape items
  | _, control _ final _ _ :: items => Clear (final ∉ vtEnds) items

theorem vtFilter_control (escape : Bool) (params : List UInt8) (final : UInt8)
    (inside : ∀ b ∈ params, 0x20 ≤ b ∧ b ≤ 0x3F) :
    vtFilter escape ([27, 91] ++ params ++ [final]) = (decide (final ∉ vtEnds), []) := by
  have hOpen : vtFilter escape [27, 91] = (true, []) := by
    cases escape <;> rfl
  have hParams : ∀ b ∈ params, b ∉ vtEnds := by
    intro b hb hEnd
    obtain ⟨-, hHigh⟩ := inside b hb
    simp only [vtEnds, List.mem_cons, List.not_mem_nil, or_false] at hEnd
    rcases hEnd with rfl | rfl | rfl | rfl | rfl <;> exact absurd hHigh (by decide)
  rw [vtFilter_append, vtFilter_append, hOpen, vtFilter_skip hParams]
  by_cases hEnd : final ∈ vtEnds
  · simp [vtFilter, vtStep_end hEnd, hEnd]
  · simp [vtFilter, vtStep_skip hEnd, hEnd]

theorem filter_length (escape : Bool) (items : List VtItem) :
    (vtFilter escape (items.flatMap bytes)).2.length ≤ (items.flatMap shown).length := by
  induction items generalizing escape with
  | nil => exact Nat.le_refl 0
  | cons i items ih =>
    rw [List.flatMap_cons, List.flatMap_cons, vtFilter_append, List.length_append, List.length_append]
    cases i with
    | text bytes plain => exact Nat.add_le_add (vtFilter_length escape bytes) (ih _)
    | control params final inside ends =>
      rw [VtItem.bytes, vtFilter_control escape params final inside]
      exact Nat.add_le_add (Nat.le_refl 0) (ih _)

theorem filter_eq_iff (escape : Bool) (items : List VtItem) :
    (vtFilter escape (items.flatMap bytes)).2 = items.flatMap shown ↔ Clear escape items := by
  induction items generalizing escape with
  | nil => exact ⟨fun _ => trivial, fun _ => rfl⟩
  | cons i items ih =>
    rw [List.flatMap_cons, List.flatMap_cons, vtFilter_append]
    cases i with
    | control params final inside ends =>
      rw [VtItem.bytes, vtFilter_control escape params final inside, Clear, ← ih]
      rfl
    | text bytes plain =>
      rw [VtItem.bytes, Clear]
      cases escape with
      | false =>
        rw [vtFilter_text plain, ← ih false]
        simp [shown]
      | true =>
        cases bytes with
        | nil =>
          rw [← ih true]
          simp [vtFilter, shown]
        | cons b bytes =>
          constructor
          · intro hEq
            have hLength := congrArg List.length hEq
            have hLost := vtFilter_lost b bytes
            have hRest := filter_length (vtFilter true (b :: bytes)).1 items
            rw [List.length_append, List.length_append, shown, List.length_cons] at hLength
            omega
          · rintro ⟨hNone, -⟩
            exact absurd (hNone rfl) (List.cons_ne_nil b bytes)

end VtItem

/-! ## The client's terminal -/

namespace TelnetClient

variable {t : TelnetClient}

theorem vt100fWrite_eq (t : TelnetClient) (data : UInt8) :
    (t.vt100fWrite data).getChar.toList = (vtStep t.vtEscapeSeq data).2 ∧
      t.vt100fWrite data = { t with
        outputCharWaiting := (t.vt100fWrite data).outputCharWaiting
        output := (t.vt100fWrite data).output
        vtEscapeSeq := (vtStep t.vtEscapeSeq data).1 } := by
  unfold vt100fWrite vtStep getChar
  by_cases hSkip : t.vtEscapeSeq = true ∧ data ∉ vtEnds
  · exact ⟨by simp only [if_pos hSkip]; rfl, by simp only [if_pos hSkip]⟩
  · by_cases hZero : data = 0
    · exact ⟨by simp only [if_neg hSkip, if_pos hZero]; rfl, by simp only [if_neg hSkip, if_pos hZero]⟩
    · by_cases hEscape : data = 27
      · exact ⟨by simp only [if_neg hSkip, if_neg hZero, if_pos hEscape]; rfl, by simp only [if_neg hSkip, if_neg hZero, if_pos hEscape]⟩
      · by_cases hEnd : data ∈ vtEnds ∧ t.vtEscapeSeq = true
        · exact ⟨by simp only [if_neg hSkip, if_neg hZero, if_neg hEscape, if_pos hEnd]; rfl, by simp only [if_neg hSkip, if_neg hZero, if_neg hEscape, if_pos hEnd]⟩
        · exact ⟨by simp only [if_neg hSkip, if_neg hZero, if_neg hEscape, if_neg hEnd]; rfl, by simp only [if_neg hSkip, if_neg hZero, if_neg hEscape, if_neg hEnd]⟩

/-- Data bytes go through the filter, and the client stays between two items. -/
theorem pass_filtered (h : t.Ready) (hType : t.termType = .vt100f) (bytes : List UInt8) :
    t.decoded (doubled bytes) = (vtFilter t.vtEscapeSeq bytes).2 := by
  induction bytes generalizing t with
  | nil => rfl
  | cons b bytes ih =>
    have hOne := pass_doubled h.state b
    obtain ⟨hChar, hSame⟩ := vt100fWrite_eq { t with outputCharWaiting := false, output := 0 } b
    have hProc : ({ t with outputCharWaiting := false, output := 0 } : TelnetClient).callDataProc b =
        (({ t with outputCharWaiting := false, output := 0 } : TelnetClient).vt100fWrite b, []) := by
      simp only [callDataProc, h.dataProc, writeToTerminal, hType]
    rw [hProc] at hOne
    rw [doubled_cons, decoded_append, decoded, hOne, vtFilter]
    dsimp only
    rw [hChar]
    have hReady : (({ t with outputCharWaiting := false, output := 0 } : TelnetClient).vt100fWrite b).Ready := by
      rw [hSame]
      exact ⟨h.state, h.dataProc⟩
    rw [ih hReady (by rw [hSame]; exact hType)]
    congr 2
    rw [hSame]

/-- The filtered terminal shows the text alone exactly if each control sequence with text behind
it ends in one of the five letters. -/
theorem vt100f_shows_iff (h : t.Ready) (hType : t.termType = .vt100f)
    (hEscape : t.vtEscapeSeq = false) (items : List VtItem) :
    t.decoded (doubled (items.flatMap VtItem.bytes)) = items.flatMap VtItem.shown ↔
      VtItem.Clear false items := by
  rw [pass_filtered h hType, hEscape, VtItem.filter_eq_iff]

/-- Colours and a cursor position around a prompt. -/
theorem vt100f_shows_iff_prompt :
    (⟨.vt100f, [86, 84, 49, 48, 48], .data, 0, .writeToTerminal, 0, false, false⟩ :
      TelnetClient).decoded (doubled ([
        .control [49] 109 (by simp) (by decide), .text [36, 255] (by simp),
        .control [50, 59, 49] 72 (by simp) (by decide)].flatMap VtItem.bytes)) = [36, 255] :=
  (vt100f_shows_iff ⟨rfl, rfl⟩ rfl rfl [.control [49] 109 (by simp) (by decide),
    .text [36, 255] (by simp), .control [50, 59, 49] 72 (by simp) (by decide)]).mpr
    (by simp [VtItem.Clear, vtEnds])

/-- The text after a cursor move to the left is lost. -/
theorem cursor_left_loses : ¬ ∀ (t : TelnetClient) (items : List VtItem), t.Ready →
    t.termType = .vt100f → t.vtEscapeSeq = false →
    t.decoded (doubled (items.flatMap VtItem.bytes)) = items.flatMap VtItem.shown := by
  intro h
  have hLeft := h ⟨.vt100f, [86, 84, 49, 48, 48], .data, 0, .writeToTerminal, 0, false, false⟩
    [.control [50] 68 (by simp) (by decide), .text [97] (by simp)] ⟨rfl, rfl⟩ rfl rfl
  exact absurd hLeft (by decide)

end TelnetClient

end DataReel
