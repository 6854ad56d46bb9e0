import DataReel.Net.Telnet

/-! # What a telnet server sends

Data bytes, two-byte commands, three-byte negotiations and subnegotiations, in
any order. A client that is between two of them stays so over each one, shows the
data bytes alone, and answers every byte `SEND` of any subnegotiation.
-/

namespace DataReel

open Telnet

/-- A data byte that is `IAC` is doubled. -/
def Telnet.doubled (bytes : List UInt8) : List UInt8 :=
  bytes.flatMap fun b => if b = iac then [iac, iac] else [b]

theorem Telnet.doubled_cons (b : UInt8) (bytes : List UInt8) :
    doubled (b :: bytes) = doubled [b] ++ doubled bytes := by
  rw [doubled, doubled, doubled, List.flatMap_cons, List.flatMap_cons, List.flatMap_nil,
    List.append_nil]

inductive TelnetItem where
  | data (b : UInt8)
  | command (b : UInt8) (plain : b ∉ [iac, sb, will, wont, doOption, dont])
  | negotiation (code option : UInt8) (asks : code ∈ [will, wont, doOption, dont])
  | subnegotiation (option : UInt8) (bytes : List UInt8)

namespace TelnetItem

/-- The bytes that the server sends. -/
def wire : TelnetItem → List UInt8
  | data b => doubled [b]
  | command b _ => [iac, b]
  | negotiation code option _ => [iac, code, option]
  | subnegotiation option bytes => [iac, sb, option] ++ doubled bytes ++ [iac, se]

/-- The characters that are for the terminal. -/
def shown : TelnetItem → List UInt8
  | data b => if b = 0 then [] else [b]
  | _ => []

/-- The terminal type replies that the item asks for. -/
def wanted : TelnetItem → Nat
  | subnegotiation option bytes => if option = term ∧ bytes = [sendQualifier] then 1 else 0
  | _ => 0

/-- The terminal type replies that the item gets. -/
def replies : TelnetItem → Nat
  | subnegotiation _ bytes => bytes.count sendQualifier
  | _ => 0

/-- The client does not look at the option of a subnegotiation, nor at where in it a byte stands. -/
def Fair : TelnetItem → Prop
  | subnegotiation option bytes => option = term ∧ bytes = [sendQualifier] ∨ sendQualifier ∉ bytes
  | _ => True

theorem replies_eq_wanted_iff (i : TelnetItem) : i.replies = i.wanted ↔ i.Fair := by
  cases i with
  | data | command | negotiation => simp [replies, wanted, Fair]
  | subnegotiation option bytes =>
    simp only [replies, wanted, Fair]
    constructor
    · intro h
      split at h
      · exact Or.inl ‹_›
      · exact Or.inr (List.count_eq_zero.mp h)
    · rintro (⟨rfl, rfl⟩ | hNone)
      · rfl
      · rw [List.count_eq_zero.mpr hNone, if_neg]
        rintro ⟨-, rfl⟩
        exact hNone (List.mem_singleton_self _)

end TelnetItem

namespace TelnetClient

/-- Between two items. -/
structure Ready (t : TelnetClient) : Prop where
  state : t.state = .data
  dataProc : t.dataProc = .writeToTerminal

/-- What passing bytes leaves alone. -/
structure SameTerminal (t t' : TelnetClient) : Prop where
  termType : t'.termType = t.termType
  termString : t'.termString = t.termString

theorem SameTerminal.termReply {t t' : TelnetClient} (h : SameTerminal t t') :
    t'.termReply = t.termReply := by
  rw [TelnetClient.termReply, TelnetClient.termReply, h.termString]

/-- The item `i` was passed to `t`. -/
structure Passed (t : TelnetClient) (i : TelnetItem) : Prop where
  ready : (t.pass i.wire).1.Ready
  same : SameTerminal t (t.pass i.wire).1
  shown : t.decoded i.wire = i.shown
  replies : (t.sent i.wire).count t.termReply = i.replies

variable {t : TelnetClient}

theorem count_commands {l : List (List UInt8)} (h : ∀ m ∈ l, m.length = 3) :
    l.count t.termReply = 0 := by
  apply List.count_eq_zero.mpr
  intro hMem
  have hLength := h _ hMem
  simp [termReply] at hLength

/-- The answers to a negotiation are commands of three bytes. -/
theorem negotiated_short (code option : UInt8) : ∀ m ∈ setEchoOption code option ++
    setSuppOption code option ++ setTermOption code option ++ setUnknownOption code option,
    m.length = 3 := by
  simp only [List.forall_mem_append]
  refine ⟨⟨⟨?_, ?_⟩, ?_⟩, ?_⟩
  · unfold setEchoOption
    repeat' split
    all_goals simp [command]
  · unfold setSuppOption
    repeat' split
    all_goals simp [command]
  · unfold setTermOption
    repeat' split
    all_goals simp [command]
  · unfold setUnknownOption
    repeat' split
    all_goals simp [command]

/-- Every answer to an option byte outside a subnegotiation is one of those. -/
theorem option_sent {option : UInt8} (hState : t.state = .option) (hCode : t.currCode ≠ sb) :
    t.readTelnetData option =
        ({ t with outputCharWaiting := false, output := 0, state := .data },
          (t.readTelnetData option).2) ∧
      (t.readTelnetData option).2.count t.termReply = 0 := by
  have hShort := negotiated_short t.currCode option
  simp only [List.forall_mem_append] at hShort
  obtain ⟨⟨⟨hEcho, hSupp⟩, hTerm⟩, hUnknown⟩ := hShort
  simp only [readTelnetData, hState, hCode, if_false]
  split
  · exact ⟨rfl, count_commands hEcho⟩
  · split
    · exact ⟨rfl, count_commands hSupp⟩
    · split
      · exact ⟨rfl, count_commands hTerm⟩
      · exact ⟨rfl, count_commands hUnknown⟩

/-! ## One item -/

/-- A byte of data, doubled if it has to be, goes to `DataProc` once. -/
theorem pass_doubled (hState : t.state = .data) (b : UInt8) :
    t.pass (doubled [b]) =
      let r := ({ t with outputCharWaiting := false, output := 0 } : TelnetClient).callDataProc b
      (r.1, r.1.getChar.toList, r.2) := by
  obtain ⟨termType, termString, state, currCode, dataProc, output, waiting, escape⟩ := t
  obtain rfl : state = .data := hState
  by_cases hb : b = iac
  · subst hb
    simp [doubled, pass, readTelnetData, getChar]
  · simp [doubled, pass, readTelnetData, hb]

theorem passed_of_pass {i : TelnetItem} {t' : TelnetClient} {chars : List UInt8}
    {sends : List (List UInt8)} (hPass : t.pass i.wire = (t', chars, sends)) (hReady : t'.Ready)
    (hSame : SameTerminal t t') (hShown : chars = i.shown)
    (hReplies : sends.count t.termReply = i.replies) : t.Passed i := by
  constructor
  · rw [hPass]
    exact hReady
  · rw [hPass]
    exact hSame
  · rw [decoded, hPass]
    exact hShown
  · rw [sent, hPass]
    exact hReplies

theorem passed_data (h : t.Ready) (hType : t.termType ≠ .vt100f) (b : UInt8) :
    t.Passed (.data b) := by
  have hPass := pass_doubled h.state b
  obtain ⟨termType, termString, state, currCode, dataProc, output, waiting, escape⟩ := t
  obtain rfl : state = .data := h.state
  obtain rfl : dataProc = .writeToTerminal := h.dataProc
  have hWrite : (⟨termType, termString, .data, currCode, .writeToTerminal, 0, false, escape⟩ :
      TelnetClient).callDataProc b =
        (if b = 0 then ⟨termType, termString, .data, currCode, .writeToTerminal, 0, false, escape⟩
          else ⟨termType, termString, .data, currCode, .writeToTerminal, b, true, escape⟩, []) := by
    cases termType with
    | nvt | env => rfl
    | vt100f => exact absurd rfl hType
  rw [hWrite] at hPass
  by_cases hb : b = 0
  · rw [if_pos hb] at hPass
    apply passed_of_pass hPass
    · exact ⟨rfl, rfl⟩
    · exact ⟨rfl, rfl⟩
    · rw [TelnetItem.shown, if_pos hb]
      rfl
    · rfl
  · rw [if_neg hb] at hPass
    apply passed_of_pass hPass
    · exact ⟨rfl, rfl⟩
    · exact ⟨rfl, rfl⟩
    · rw [TelnetItem.shown, if_neg hb]
      rfl
    · rfl

theorem passed_command (h : t.Ready) (b : UInt8) (plain : b ∉ [iac, sb, will, wont, doOption, dont]) :
    t.Passed (.command b plain) := by
  obtain ⟨termType, termString, state, currCode, dataProc, output, waiting, escape⟩ := t
  obtain rfl : state = .data := h.state
  obtain rfl : dataProc = .writeToTerminal := h.dataProc
  have hPass : (⟨termType, termString, .data, currCode, .writeToTerminal, output, waiting, escape⟩ :
      TelnetClient).pass [iac, b] =
        (⟨termType, termString, .data, currCode, .writeToTerminal, 0, false, escape⟩, [], []) := by
    simp only [List.mem_cons, List.not_mem_nil, or_false, not_or] at plain
    obtain ⟨hIac, hSb, hWill, hWont, hDo, hDont⟩ := plain
    by_cases hSe : b = se
    · subst hSe
      rfl
    · simp [pass, readTelnetData, hIac, hSb, hWill, hWont, hDo, hDont, hSe, getChar]
  exact passed_of_pass hPass ⟨rfl, rfl⟩ ⟨rfl, rfl⟩ rfl rfl

/-- The two bytes of a negotiation that come before its option. -/
theorem pass_code (hState : t.state = .data) {code : UInt8}
    (hCode : code ∈ [sb, will, wont, doOption, dont]) :
    t.pass [iac, code] = ({ t with
      outputCharWaiting := false, output := 0, currCode := code, state := .option }, [], []) := by
  obtain ⟨termType, termString, state, currCode, dataProc, output, waiting, escape⟩ := t
  obtain rfl : state = .data := hState
  simp only [List.mem_cons, List.not_mem_nil, or_false] at hCode
  rcases hCode with rfl | rfl | rfl | rfl | rfl <;> rfl

theorem passed_negotiation (h : t.Ready) (code option : UInt8)
    (asks : code ∈ [will, wont, doOption, dont]) : t.Passed (.negotiation code option asks) := by
  have hCode := pass_code h.state (List.mem_cons_of_mem sb asks)
  have hNotSb : code ≠ sb := by
    rintro rfl
    exact absurd asks (by decide)
  obtain ⟨termType, termString, state, currCode, dataProc, output, waiting, escape⟩ := t
  obtain rfl : dataProc = .writeToTerminal := h.dataProc
  have hSent := @option_sent ⟨termType, termString, .option, code, .writeToTerminal, 0, false, escape⟩
    option rfl hNotSb
  obtain ⟨hOption, hCount⟩ := hSent
  have hLast : (⟨termType, termString, .option, code, .writeToTerminal, 0, false, escape⟩ :
      TelnetClient).pass [option] =
        (⟨termType, termString, .data, code, .writeToTerminal, 0, false, escape⟩, [],
          ((⟨termType, termString, .option, code, .writeToTerminal, 0, false, escape⟩ :
            TelnetClient).readTelnetData option).2) := by
    rw [pass, hOption]
    simp [pass, getChar]
  have hPass := pass_append (t := ⟨termType, termString, state, currCode, .writeToTerminal, output,
    waiting, escape⟩) [iac, code] [option]
  rw [hCode, hLast] at hPass
  apply passed_of_pass hPass
  · exact ⟨rfl, rfl⟩
  · exact ⟨rfl, rfl⟩
  · rfl
  · exact hCount

/-- Inside a subnegotiation each byte goes to `NegotiateTermType`. -/
theorem pass_inside (hState : t.state = .data) (hProc : t.dataProc = .negotiateTermType)
    (bytes : List UInt8) : ∃ t', t.pass (doubled bytes) =
        (t', [], List.replicate (bytes.count sendQualifier) t.termReply) ∧ t'.state = .data ∧
      SameTerminal t t' := by
  induction bytes generalizing t with
  | nil => exact ⟨t, rfl, hState, ⟨rfl, rfl⟩⟩
  | cons b bytes ih =>
    have hOne := pass_doubled hState b
    obtain ⟨termType, termString, state, currCode, dataProc, output, waiting, escape⟩ := t
    obtain rfl : state = .data := hState
    obtain rfl : dataProc = .negotiateTermType := hProc
    obtain ⟨t', hPass, hData, hSame⟩ := ih (t := ⟨termType, termString, .data, currCode,
      .negotiateTermType, 0, false, escape⟩) rfl rfl
    refine ⟨t', ?_, hData, ⟨hSame.termType, hSame.termString⟩⟩
    rw [doubled_cons, pass_append, hOne]
    simp only [callDataProc, negotiateTermType]
    rw [hPass, List.count_cons]
    by_cases hSend : b = sendQualifier
    · simp [hSend, getChar, List.replicate_succ, termReply]
    · simp [hSend, getChar, termReply]

theorem passed_subnegotiation (h : t.Ready) (option : UInt8) (bytes : List UInt8) :
    t.Passed (.subnegotiation option bytes) := by
  have hSb : sb ∈ [sb, will, wont, doOption, dont] := by decide
  have hCode := pass_code h.state hSb
  obtain ⟨t', hInside, hData, hSame⟩ := pass_inside (t := { t with
    outputCharWaiting := false, output := 0, currCode := sb, state := .data,
    dataProc := .negotiateTermType }) rfl rfl bytes
  have hEnd : t'.pass [iac, se] = ({ t' with
      outputCharWaiting := false, output := 0, dataProc := .writeToTerminal }, [], []) := by
    obtain ⟨termType, termString, state, currCode, dataProc, output, waiting, escape⟩ := t'
    obtain rfl : state = .data := hData
    rfl
  have hOption : ({ t with outputCharWaiting := false, output := 0, currCode := sb, state := .option } :
      TelnetClient).pass [option] = ({ t with
        outputCharWaiting := false, output := 0, currCode := sb, state := .data,
        dataProc := .negotiateTermType }, [], []) := rfl
  have hWire : (TelnetItem.subnegotiation option bytes).wire =
      [iac, sb] ++ ([option] ++ (doubled bytes ++ [iac, se])) := by
    simp [TelnetItem.wire]
  have hPass : t.pass (TelnetItem.subnegotiation option bytes).wire =
      ({ t' with outputCharWaiting := false, output := 0, dataProc := .writeToTerminal }, [],
        List.replicate (bytes.count sendQualifier) t.termReply) := by
    rw [hWire, pass_append, hCode, pass_append, hOption, pass_append, hInside, hEnd]
    simp [termReply]
  apply passed_of_pass hPass
  · exact ⟨hData, rfl⟩
  · exact ⟨hSame.termType, hSame.termString⟩
  · rfl
  · rw [List.count_replicate_self]
    rfl

theorem passed_item (h : t.Ready) (hType : t.termType ≠ .vt100f) (i : TelnetItem) : t.Passed i := by
  cases i with
  | data b => exact passed_data h hType b
  | command b plain => exact passed_command h b plain
  | negotiation code option asks => exact passed_negotiation h code option asks
  | subnegotiation option bytes => exact passed_subnegotiation h option bytes

/-! ## Whole streams -/

def wireOf (items : List TelnetItem) : List UInt8 := items.flatMap TelnetItem.wire

/-- How often each item of the stream was answered with the terminal type. -/
def repliesTo : TelnetClient → List TelnetItem → List Nat
  | _, [] => []
  | t, i :: items => (t.sent i.wire).count t.termReply :: repliesTo (t.pass i.wire).1 items

theorem stream_run (h : t.Ready) (hType : t.termType ≠ .vt100f) (items : List TelnetItem) :
    t.decoded (wireOf items) = items.flatMap TelnetItem.shown ∧
      t.repliesTo items = items.map TelnetItem.replies := by
  induction items generalizing t with
  | nil => exact ⟨rfl, rfl⟩
  | cons i items ih =>
    have hItem := passed_item h hType i
    obtain ⟨hShown, hReplies⟩ := ih hItem.ready (hItem.same.termType ▸ hType)
    constructor
    · rw [wireOf, List.flatMap_cons, decoded_append, hItem.shown, List.flatMap_cons]
      exact congrArg (i.shown ++ ·) hShown
    · rw [repliesTo, hItem.replies, hReplies, List.map_cons]

/-- The terminal shows the data bytes, and the terminal type is sent where it is asked for,
exactly for streams in which no other subnegotiation holds a byte `SEND`. -/
theorem telnet_stream_iff (h : t.Ready) (hType : t.termType = .nvt) (items : List TelnetItem) :
    t.decoded (wireOf items) = items.flatMap TelnetItem.shown ∧
        t.repliesTo items = items.map TelnetItem.wanted ↔
      ∀ i ∈ items, i.Fair := by
  obtain ⟨hShown, hReplies⟩ := stream_run h (by rw [hType]; decide) items
  rw [and_iff_right hShown, hReplies, List.map_inj_left]
  simp only [TelnetItem.replies_eq_wanted_iff]

/-- A prompt, a request for the terminal type and an `IAC` of data. -/
theorem telnet_stream_iff_prompt :
    (⟨.nvt, [78, 86, 84], .data, 0, .writeToTerminal, 0, false, false⟩ : TelnetClient).decoded
        (wireOf [.data 36, .subnegotiation term [sendQualifier], .data iac]) = [36, 255] ∧
      (⟨.nvt, [78, 86, 84], .data, 0, .writeToTerminal, 0, false, false⟩ : TelnetClient).repliesTo
        [.data 36, .subnegotiation term [sendQualifier], .data iac] = [0, 1, 0] :=
  (telnet_stream_iff ⟨rfl, rfl⟩ rfl [.data 36, .subnegotiation term [sendQualifier], .data iac]).mpr
    (by simp [TelnetItem.Fair])

/-- A terminal speed subnegotiation with a byte `1` is answered with the terminal type. -/
theorem speed_answered : ¬ ∀ (t : TelnetClient) (items : List TelnetItem), t.Ready →
    t.termType = .nvt → t.decoded (wireOf items) = items.flatMap TelnetItem.shown ∧
      t.repliesTo items = items.map TelnetItem.wanted := by
  intro h
  have hSpeed := (h ⟨.nvt, [78, 86, 84], .data, 0, .writeToTerminal, 0, false, false⟩
    [.subnegotiation 32 [1]] ⟨rfl, rfl⟩ rfl).2
  exact absurd hSpeed (by decide)

end TelnetClient

end DataReel
