import Intcode.Proofs.CommandRuns
import Intcode.Proofs.JsonDocuments
import Intcode.Proofs.JsonForms

/-! # Reports

The report on a machine is an object whose fields are read back as the outputs and the snapshot,
although its members were put in order (`RunCommand.reports_report`). A command that is to report
prints nothing else, unless it is interactive: then it has echoed what was put out, and the text it
leaves is a JSON value only if all that was echoed is blank
(`RunCommand.report_comes_after_echo`). -/

namespace Intcode

namespace Json

/-! ## Records in order -/

theorem sortedMembers_eq (members : List (List Char × Json)) :
    sortedMembers members = members.map fun (key, value) => (key, value.sorted) := by
  induction members with
  | nil => rfl
  | cons member members ih =>
      rw [sortedMembers, ih]
      rfl

namespace Form

/-- Putting a record in order rearranges it, and puts its fields in order. -/
theorem rearranges_sorted (fields : List (String × Json)) :
    Rearranges (record fields).sorted
      (record (fields.map fun (field, value) => (field, value.sorted))) := by
  rw [record, sorted, sortedMembers_eq]
  refine .object ?_
  rw [List.map_map, List.map_map]
  exact List.mergeSort_perm _ _

/-- Words are in order. -/
theorem sorted_words (values : List Word) :
    (word.list.write values).sorted = word.list.write values := by
  have items : sortedItems (values.map word.write) = values.map word.write := by
    induction values with
    | nil => rfl
    | cons value rest ih =>
        rw [List.map_cons, sortedItems, ih]
        rfl
  rw [Form.list, sorted, items]

theorem sorted_optionWord (value : Option Word) :
    (word.option.write value).sorted = word.option.write value := by
  cases value <;> rfl

theorem rearranges_sorted_snapshot (value : Snapshot) :
    Rearranges (snapshot.write value).sorted (snapshot.write value) := by
  have rearranges := rearranges_sorted
    [("state", state.write value.state), ("ip", word.write value.ip),
      ("relative_base", word.write value.relativeBase), ("steps", size.write value.steps),
      ("last_output", word.option.write value.lastOutput),
      ("pending_input", word.list.write value.pendingInput),
      ("memory", word.list.write value.memory)]
  simp only [List.map_cons, List.map_nil, sorted_words, sorted_optionWord] at rearranges
  exact rearranges

end Form

end Json

namespace RunCommand

open Json (parse?)

variable {options : RunCommand} {program : Program} {final : Machine} {fuel : Nat} {quiet : Bool}
  {input : List UInt8}

/-! ## The report -/

/-- A JSON value has the outputs and the snapshot for its fields. -/
def Reports (document : Json) (outputs : List Word) (registers : Snapshot) : Prop :=
  ∃ first second,
    Json.Form.fields? ["outputs", "snapshot"] document = some [some first, some second] ∧
      Json.Form.word.list.read first = some outputs ∧
        Json.Form.snapshot.read second = some registers

theorem report_rearranges (m : Machine) :
    Json.Form.Rearranges (report m)
      (Json.Form.record
        [("outputs", Json.Form.word.list.write (outputs m)),
          ("snapshot", (Json.Form.snapshot.write m.snapshot).sorted)]) := by
  have rearranges := Json.Form.rearranges_sorted
    [("outputs", Json.Form.word.list.write (outputs m)),
      ("snapshot", Json.Form.snapshot.write m.snapshot)]
  simp only [List.map_cons, List.map_nil, Json.Form.sorted_words] at rearranges
  exact rearranges

theorem reports_report (m : Machine) : Reports (report m) (outputs m) m.snapshot := by
  have found := Json.Form.fields?_of_rearranges ["outputs", "snapshot"] (by decide) rfl
    (report_rearranges m)
  exact ⟨_, _, found, Json.Form.faithful_word.list.read_write _,
    Json.Form.read_snapshot (Json.Form.rearranges_sorted_snapshot _)⟩

theorem isProper_report (m : Machine) : (report m).IsProper := by
  refine Json.Form.isProper_of_rearranges ["outputs", "snapshot"] (by decide) rfl ?_
    (report_rearranges m)
  simp only [List.forall_mem_cons]
  exact ⟨Json.Form.faithful_word.list.proper _,
    Json.Form.isProper_snapshot (Json.Form.rearranges_sorted_snapshot _), List.forall_mem_nil _⟩

theorem exists_report_eq (m : Machine) :
    ∃ member members, report m = .object (member :: members) := by
  have rearranges := report_rearranges m
  cases whole : report m with
  | object members =>
      rw [whole] at rearranges
      obtain ⟨perm⟩ := rearranges
      cases members with
      | nil => cases perm.length_eq
      | cons member members => exact ⟨member, members, rfl⟩
  | _ => rw [whole] at rearranges; cases rearranges

/-! ## What is echoed -/

/-- A value of which nothing can be seen when it is printed: a tabulator, a line feed, a carriage
return or a space. -/
def Unseen (ascii : Bool) (value : Word) : Prop :=
  ascii = true ∧ (value = 9 ∨ value = 10 ∨ value = 13 ∨ value = 32)

theorem not_blank_text (value : Word) :
    ¬ ∀ c ∈ (inLine value.text).toList, Json.Token.isBlank c = true := by
  intro blank
  have written : (inLine value.text).toList = Text.Decimal.write value.toInt ++ ['\n'] := by
    rw [inLine, Word.text, String.toList_append, String.toList_ofList]
    rfl
  obtain ⟨c, rest, first⟩ := List.exists_cons_of_ne_nil (Text.Decimal.write_ne_nil value.toInt)
  rw [written, first] at blank
  have isBlank := blank c List.mem_cons_self
  simp only [Json.Token.isBlank, Bool.or_eq_true, decide_eq_true_eq] at isBlank
  have among : c ∈ Text.Decimal.write value.toInt := first ▸ List.mem_cons_self
  have visible : c.isDigit = true ∨ c = '-' := Text.Decimal.isDigit_or_minus_of_mem_write among
  rcases isBlank with ((rfl | rfl) | rfl) | rfl <;> exact absurd visible (by decide)

theorem unseen_iff (ascii : Bool) (value : Word) :
    Unseen ascii value ↔ ∀ c ∈ (valueText ascii value).toList, Json.Token.isBlank c = true := by
  have characters : ∀ n < 128, Json.Token.isBlank (Char.ofNat n) = true ↔
      n = 9 ∨ n = 10 ∨ n = 13 ∨ n = 32 := by decide
  unfold valueText Unseen
  split
  · rename_i character
    simp only [Bool.and_eq_true, decide_eq_true_eq] at character
    obtain ⟨⟨rfl, least⟩, small⟩ := character
    rw [Int64.le_iff_toInt_le] at least
    rw [Int64.lt_iff_toInt_lt] at small
    have text : (Char.ofNat value.toNatClampNeg).toString.toList =
        [Char.ofNat value.toNatClampNeg] := String.toList_singleton _
    have nonnegative : 0 ≤ value.toInt := least
    have bounded : value.toInt < 128 := small
    rw [text, List.forall_mem_singleton, characters _ (by rw [Int64.toNatClampNeg]; omega)]
    simp only [true_and, ← Int64.toInt_inj, Int64.toNatClampNeg]
    have tab : Int64.toInt 9 = 9 := rfl
    have lineFeed : Int64.toInt 10 = 10 := rfl
    have carriageReturn : Int64.toInt 13 = 13 := rfl
    have space : Int64.toInt 32 = 32 := rfl
    omega
  · rename_i number
    refine iff_of_false ?_ (not_blank_text value)
    rintro ⟨rfl, rfl | rfl | rfl | rfl⟩ <;> exact number (by decide)

/-- A row of values prints blank if nothing can be seen of any of them. -/
theorem forall_unseen_iff (ascii : Bool) (values : List Word) :
    (∀ value ∈ values, Unseen ascii value) ↔
      ∀ c ∈ (valuesText ascii values).toList, Json.Token.isBlank c = true := by
  simp only [unseen_iff, valuesText, String.toList_join, List.mem_flatMap, List.mem_map,
    forall_exists_index, and_imp, forall_apply_eq_imp_iff₂]
  exact ⟨fun each c value among => each value among c, fun each value among c => each c value among⟩

/-- Behind some values the report on a machine can be read just when nothing can be seen of
them. -/
theorem parse?_behind_values {ascii : Bool} {values : List Word} {document : Json} :
    parse? (valuesText ascii values ++ inLine (report m).prettyText) = some document ↔
      document = report m ∧ ∀ value ∈ values, Unseen ascii value := by
  obtain ⟨member, members, whole⟩ := exists_report_eq m
  have proper := isProper_report m
  have lines : (valuesText ascii values ++ inLine (report m).prettyText).toList =
      (valuesText ascii values).toList ++ ((report m).pretty 0 ++ ['\n']) := by
    rw [String.toList_append, inLine, String.toList_append, Json.prettyText, String.toList_ofList]
    rfl
  rw [whole] at lines proper ⊢
  rw [Json.parse?_eq_some_iff_blank lines proper, forall_unseen_iff, and_comm]

/-- A command that is to report prints what it has echoed and the report. -/
theorem printed_of_reported (reported : options.json = true)
    (ended : options.outcome fuel (options.prepared program input) = some (.ok (), final)) :
    options.printed quiet program final =
      valuesText options.ascii (if options.interactive then final.bridge.delivered else []) ++
        inLine (report final).prettyText := by
  rw [printed, banner, closing, reported, (outputs_of_outcome ended).1, Bool.or_true, if_pos rfl,
    if_pos rfl, String.empty_append]

/-- **The report comes after the echo.** Let a command that is to report succeed. It prints the
report on the machine that is left, whose fields are everything that was put out and the snapshot,
and nothing before it unless it is interactive; then it has printed what was put out as well. So
what it prints is a JSON value, namely the report, just when it is not interactive or nothing can be
seen of what was put out. -/
theorem report_comes_after_echo {verbosity : Nat} {file : FileRead} {transcript : Transcript}
    (reported : options.json = true)
    (performed : Invocation.perform ⟨.run options, verbosity, quiet⟩ fuel file input =
      some transcript)
    (succeeded : transcript.exitCode = 0) :
    ∃ program final emitted, Program.ofFile options.file file = .ok program ∧
      (options.prepared program input).resumed.Finishes emitted (.ok final.lastOutput) final ∧
      transcript.stdout =
        valuesText options.ascii (if options.interactive then emitted else []) ++
          inLine (report final).prettyText ∧
      Reports (report final) emitted final.snapshot ∧
      ∀ document, parse? transcript.stdout = some document ↔
        document = report final ∧
          (options.interactive = true → ∀ value ∈ emitted, Unseen options.ascii value) := by
  obtain ⟨program, final, read, ended, printed⟩ :=
    invocation_succeeds_iff.mp ⟨transcript, performed, succeeded, rfl⟩
  have stdout := printed.trans (printed_of_reported reported ended)
  have reports := reports_report final
  rw [(outputs_of_outcome ended).2] at reports
  refine ⟨program, final, final.bridge.delivered, read, finishes_of_outcome ended, stdout, reports,
    fun document => ?_⟩
  rw [stdout, parse?_behind_values]
  cases options.interactive with
  | false => simp
  | true => simp

/-- An interactive command that is to report. -/
def reporter (ascii : Bool) : RunCommand :=
  { file := "reporter", ascii, scratch := some 0, interactive := true, json := true }

/-- A line feed and a space are echoed, and the report behind them can still be read. -/
theorem blank_echo_keeps_report :
    (reporter true).json = true ∧
      ∃ transcript, Invocation.perform ⟨.run (reporter true), 0, false⟩ 3
          (.ok "104,10,104,32,99".toUTF8) [] = some transcript ∧
        transcript.exitCode = 0 ∧
        ∃ final, parse? transcript.stdout = some (report final) ∧
          Reports (report final) [10, 32] final.snapshot := by
  have read : Program.ofFile "reporter" (.ok "104,10,104,32,99".toUTF8) =
      .ok ⟨[104, 10, 104, 32, 99]⟩ := rfl
  have ran : ∃ final, (reporter true).outcome 3 ((reporter true).prepared
      ⟨[104, 10, 104, 32, 99]⟩ []) = some (.ok (), final) ∧ final.bridge.delivered = [10, 32] :=
    ⟨_, rfl, rfl⟩
  obtain ⟨final, ended, blank⟩ := ran
  have success : Succeeds (Invocation.perform ⟨.run (reporter true), 0, false⟩ 3
      (.ok "104,10,104,32,99".toUTF8) []) _ :=
    invocation_succeeds_iff.mpr ⟨_, final, read, ended, rfl⟩
  obtain ⟨transcript, performed, succeeded, _⟩ := success
  obtain ⟨program, last, emitted, again, finishes, _, reports, readable⟩ :=
    report_comes_after_echo rfl performed succeeded
  cases Except.ok.inj (read.symm.trans again)
  obtain ⟨_, rfl⟩ := Prod.mk.inj ((finishes_of_outcome ended).unique finishes)
  have emits : emitted = [10, 32] := finishes.delivered_eq.symm.trans blank
  subst emits
  refine ⟨rfl, transcript, performed, succeeded, final, (readable _).mpr ⟨rfl, fun _ => ?_⟩,
    reports⟩
  simp only [List.forall_mem_cons]
  exact ⟨⟨rfl, .inr (.inl rfl)⟩, ⟨rfl, .inr (.inr (.inr rfl))⟩, List.forall_mem_nil _⟩

/-- A program that puts out a seven leaves a text that is no JSON value, though its command
succeeds. -/
theorem echo_spoils_report :
    ∃ transcript, Invocation.perform ⟨.run (reporter false), 0, false⟩ 2
        (.ok "104,7,99".toUTF8) [] = some transcript ∧
      transcript.exitCode = 0 ∧ parse? transcript.stdout = none := by
  have read : Program.ofFile "reporter" (.ok "104,7,99".toUTF8) = .ok ⟨[104, 7, 99]⟩ := rfl
  have ran : ∃ final, (reporter false).outcome 2 ((reporter false).prepared ⟨[104, 7, 99]⟩ []) =
      some (.ok (), final) ∧ final.bridge.delivered = [7] := ⟨_, rfl, rfl⟩
  obtain ⟨final, ended, seven⟩ := ran
  have success : Succeeds (Invocation.perform ⟨.run (reporter false), 0, false⟩ 2
      (.ok "104,7,99".toUTF8) []) _ :=
    invocation_succeeds_iff.mpr ⟨_, final, read, ended, rfl⟩
  obtain ⟨transcript, performed, succeeded, printed⟩ := success
  refine ⟨transcript, performed, succeeded, ?_⟩
  rw [printed, printed_of_reported rfl ended]
  refine Option.eq_none_iff_forall_ne_some.mpr fun document found => ?_
  have unseen := (parse?_behind_values.mp found).2 7 (seven ▸ List.mem_cons_self)
  exact Bool.noConfusion unseen.1

end RunCommand

end Intcode
