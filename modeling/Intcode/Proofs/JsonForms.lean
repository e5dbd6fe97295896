import Intcode.Json.Forms
import Intcode.Proofs.JsonText
import Intcode.Proofs.ProgramText
import Mathlib.Data.List.Nodup
import Mathlib.Data.List.TakeWhile

/-! # Forms written and read again

A form is faithful (`Json.Form.Faithful`) if it reads back what it writes and writes values that
survive as text. Words, sizes, names and lists are, and so is a record of them, since its fields
have different plain names (`Json.Form.fields?_of_perm`). So every form round-trips
(`Json.Form.forms_round_trip`). -/

namespace Intcode

/-! ## Written integers -/

namespace Text.Decimal

open Json.Token (isDigit isWhole isNumber isUnsigned inNumber)

variable {c : Char}

theorem isDigit_of_mem_written {n : Nat} (among : c ∈ writeNat n) : isDigit c = true := by
  have digit := isDigit_of_mem_writeNat among
  simp only [Char.isDigit, Bool.and_eq_true, decide_eq_true_eq] at digit
  simp only [isDigit, Bool.and_eq_true, decide_eq_true_eq]
  exact digit

/-- Only zero begins with a zero. -/
theorem head_writeNat_ne_zero {n : Nat} (positive : 0 < n) :
    ∃ c rest, writeNat n = c :: rest ∧ c ≠ '0' := by
  induction n using Nat.strongRecOn with
  | ind n ih =>
      unfold writeNat at ih ⊢
      by_cases small : n < 10
      · have nonzero : ∀ digit < 10, 0 < digit → digit.digitChar ≠ '0' := by decide
        rw [Nat.toDigits_of_lt_base small]
        exact ⟨_, _, rfl, nonzero n small positive⟩
      · obtain ⟨c, rest, front, nonzero⟩ := ih (n / 10) (by omega) (by omega)
        rw [Nat.toDigits_of_base_le (by omega) (by omega), front]
        exact ⟨c, _, rfl, nonzero⟩

theorem isWhole_writeNat (n : Nat) : isWhole (writeNat n) = true := by
  have digits : ∀ c ∈ writeNat n, isDigit c = true := fun _ => isDigit_of_mem_written
  rcases Nat.eq_zero_or_pos n with rfl | positive
  · rfl
  · obtain ⟨c, rest, written, nonzero⟩ := head_writeNat_ne_zero positive
    rw [written] at digits ⊢
    unfold isWhole
    rw [List.all_eq_true.mpr digits, Bool.true_and]
    split
    case h_1 nothing => cases nothing
    case h_2 => rfl
    case h_3 same =>
        cases same
        exact decide_eq_true nonzero

theorem isUnsigned_writeNat (n : Nat) : isUnsigned (writeNat n) = true := by
  have digits : ∀ c ∈ writeNat n, isDigit c = true := fun _ => isDigit_of_mem_written
  have taken : (writeNat n).takeWhile isDigit = writeNat n := List.takeWhile_eq_self_iff.mpr digits
  have dropped : (writeNat n).dropWhile isDigit = [] := List.dropWhile_eq_nil_iff.mpr digits
  rw [isUnsigned, taken, dropped, isWhole_writeNat]
  rfl

theorem isNumber_write (value : Int) : isNumber (write value) = true := by
  cases value with
  | ofNat n =>
      obtain ⟨c, rest, written, _, noMinus⟩ := exists_writeNat_eq_cons n
      have unsigned := isUnsigned_writeNat n
      simp only [write]
      rw [written] at unsigned ⊢
      rw [isNumber]
      · exact unsigned
      · exact fun _ same => noMinus (List.cons.inj same).1
  | negSucc n => exact isUnsigned_writeNat (n + 1)

theorem inNumber_of_mem_write {value : Int} (among : c ∈ write value) : inNumber c = true := by
  cases value with
  | ofNat n =>
      simp only [inNumber, isDigit_of_mem_written among, Bool.true_or]
  | negSucc n =>
      rcases List.mem_cons.mp among with rfl | later
      · rfl
      · simp only [inNumber, isDigit_of_mem_written later, Bool.true_or]

theorem write_ne_minus_zero (value : Int) : write value ≠ ['-', '0'] := by
  cases value with
  | ofNat n =>
      obtain ⟨c, rest, written, _, noMinus⟩ := exists_writeNat_eq_cons n
      simp only [write, written]
      exact fun same => noMinus (List.cons.inj same).1
  | negSucc n =>
      obtain ⟨c, rest, written, nonzero⟩ := head_writeNat_ne_zero (Nat.succ_pos n)
      simp only [write, Nat.add_one, written]
      exact fun same => nonzero (List.cons.inj (List.cons.inj same).2).1

end Text.Decimal

namespace Json

open Token (IsPlain takeString)

/-! ## Plain texts -/

section

variable {literal : List Char}

theorem takeString_of_plain (plain : ∀ c ∈ literal, IsPlain c) (rest : List Char) :
    takeString (literal ++ '"' :: rest) = some (literal, rest) := by
  induction literal with
  | nil => rfl
  | cons c behind ih =>
      obtain ⟨first, others⟩ := List.forall_mem_cons.mp plain
      rw [List.cons_append, Token.takeString_of_plain first, ih others]
      rfl

theorem decodeFrom_of_plain (plain : ∀ c ∈ literal, IsPlain c) :
    decodeFrom none literal = some literal := by
  induction literal with
  | nil => rfl
  | cons c behind ih =>
      obtain ⟨⟨_, noEscape, _⟩, others⟩ := List.forall_mem_cons.mp plain
      rw [decodeFrom, ih others]
      · rfl
      · exact fun _ _ _ _ _ same _ => noEscape same
      · exact fun _ _ same _ => noEscape same

/-- Text that needs no escapes is its own literal. -/
theorem decode?_of_plain {text : String} (plain : ∀ c ∈ text.toList, IsPlain c) :
    decode? text.toList = some text := by
  rw [decode?, decodeFrom_of_plain plain, Option.map_some, String.ofList_toList]

end

/-! ## Proper values -/

theorem isProper_ofInt (value : Int) : (ofInt value).IsProper := by
  rintro _ among
  cases List.mem_singleton.mp among
  exact ⟨Text.Decimal.isNumber_write value, fun _ => Text.Decimal.inNumber_of_mem_write⟩

theorem isProper_string {literal : List Char} (plain : ∀ c ∈ literal, IsPlain c) :
    (string literal).IsProper := by
  rintro _ among
  cases List.mem_singleton.mp among
  exact takeString_of_plain plain []

theorem isProper_moreItemTokens {items : List Json} (proper : ∀ item ∈ items, item.IsProper) :
    ∀ token ∈ moreItemTokens items, token.IsProper := by
  induction items with
  | nil => simp only [moreItemTokens, List.forall_mem_singleton, Token.IsProper]
  | cons item items ih =>
      obtain ⟨first, others⟩ := List.forall_mem_cons.mp proper
      simp only [moreItemTokens, List.forall_mem_append, List.forall_mem_cons]
      exact ⟨⟨trivial, first⟩, ih others⟩

theorem isProper_array {items : List Json} (proper : ∀ item ∈ items, item.IsProper) :
    (array items).IsProper := by
  refine List.forall_mem_cons.mpr ⟨trivial, ?_⟩
  cases items with
  | nil => simp only [itemTokens, List.forall_mem_singleton, Token.IsProper]
  | cons item items =>
      obtain ⟨first, others⟩ := List.forall_mem_cons.mp proper
      exact List.forall_mem_append.mpr ⟨first, isProper_moreItemTokens others⟩

theorem isProper_moreMemberTokens {members : List (List Char × Json)}
    (plain : ∀ member ∈ members, ∀ c ∈ member.1, IsPlain c)
    (proper : ∀ member ∈ members, member.2.IsProper) :
    ∀ token ∈ moreMemberTokens members, token.IsProper := by
  induction members with
  | nil => simp only [moreMemberTokens, List.forall_mem_singleton, Token.IsProper]
  | cons member members ih =>
      obtain ⟨key, otherKeys⟩ := List.forall_mem_cons.mp plain
      obtain ⟨value, others⟩ := List.forall_mem_cons.mp proper
      simp only [moreMemberTokens, List.forall_mem_append, List.forall_mem_cons]
      exact ⟨⟨trivial, takeString_of_plain key [], trivial, value⟩, ih otherKeys others⟩

theorem isProper_object {members : List (List Char × Json)}
    (plain : ∀ member ∈ members, ∀ c ∈ member.1, IsPlain c)
    (proper : ∀ member ∈ members, member.2.IsProper) : (object members).IsProper := by
  refine List.forall_mem_cons.mpr ⟨trivial, ?_⟩
  cases members with
  | nil => simp only [memberTokens, List.forall_mem_singleton, Token.IsProper]
  | cons member members =>
      obtain ⟨key, otherKeys⟩ := List.forall_mem_cons.mp plain
      obtain ⟨value, others⟩ := List.forall_mem_cons.mp proper
      simp only [memberTokens, List.forall_mem_append, List.forall_mem_cons]
      exact ⟨⟨takeString_of_plain key [], trivial, value⟩,
        isProper_moreMemberTokens otherKeys others⟩

namespace Form

/-! ## Faithful forms -/

variable {α : Type} {form : Form α}

/-- What is written is read back, also when it was written as text. -/
structure Faithful (form : Form α) : Prop where
  proper : ∀ value, (form.write value).IsProper
  read_write : ∀ value, form.read (form.write value) = some value

theorem Faithful.ofText?_toText (faithful : form.Faithful) (value : α) :
    form.ofText? (form.toText value) = some value := by
  rw [ofText?, toText, parse?_text (faithful.proper value), Option.bind_some,
    faithful.read_write]

theorem int?_ofInt {low high value : Int} (least : low ≤ value) (greatest : value ≤ high) :
    int? low high (ofInt value) = some value := by
  rw [ofInt, int?, Text.Decimal.read_write least greatest]
  · rfl
  · exact Text.Decimal.write_ne_minus_zero value

theorem faithful_word : word.Faithful where
  proper value := isProper_ofInt _
  read_write value := by
    have least : Word.least ≤ value.toInt := value.le_toInt
    have greatest : value.toInt ≤ Word.greatest := Int.le_sub_one_of_lt value.toInt_lt
    simp only [word, int?_ofInt least greatest, Option.map_some, Int64.ofInt_toInt]

theorem faithful_size : size.Faithful where
  proper value := isProper_ofInt _
  read_write value := by
    have below : (value.toNat : Int) ≤ Int.pow 2 64 - 1 :=
      Int.le_sub_one_of_lt (Int.ofNat_lt.mpr value.toNat_lt)
    simp only [size, int?_ofInt (Int.natCast_nonneg _) below, Option.map_some, Int.toNat_natCast,
      UInt64.ofNat_toNat]

theorem Faithful.option (faithful : form.Faithful) (written : ∀ value, form.write value ≠ .null) :
    form.option.Faithful where
  proper
    | none => by
        rintro _ among
        cases List.mem_singleton.mp among
        trivial
    | some value => faithful.proper value
  read_write
    | none => rfl
    | some value => by
        simp only [Form.option]
        split
        · rename_i null
          exact absurd null (written value)
        · rw [faithful.read_write, Option.map_some]

theorem Faithful.list (faithful : form.Faithful) : form.list.Faithful where
  proper values := isProper_array fun _ among => by
    obtain ⟨value, _, rfl⟩ := List.mem_map.mp among
    exact faithful.proper value
  read_write values := by
    induction values with
    | nil => rfl
    | cons value values ih =>
        simp only [Form.list] at ih ⊢
        rw [List.map_cons, List.mapM_cons, faithful.read_write, ih]
        rfl

/-- Names that need no escapes, no two of them the same. -/
def PlainNames (names : List String) : Prop :=
  names.Nodup ∧ ∀ name ∈ names, ∀ c ∈ name.toList, IsPlain c

-- The search for an instance would otherwise try all characters there are.
instance (text : List Char) : Decidable (∀ c ∈ text, IsPlain c) :=
  List.decidableBAll _ text

instance (names : List String) : Decidable (PlainNames names) :=
  inferInstanceAs (Decidable (_ ∧ _))

section

variable {all : List α} {name : α → String} {value : α}

theorem PlainNames.isPlain (plain : PlainNames (all.map name)) (among : value ∈ all) :
    ∀ c ∈ (name value).toList, IsPlain c :=
  plain.2 _ (List.mem_map_of_mem among)

theorem named?_of_plain (plain : PlainNames (all.map name)) (among : value ∈ all) :
    named? all name (name value).toList = some value := by
  rw [named?, decode?_of_plain (plain.isPlain among), Option.bind_some]
  cases found : all.find? fun other => name other == name value with
  | none =>
      have same := List.find?_eq_none.mp found value among
      exact absurd BEq.rfl same
  | some other =>
      have same : name other = name value :=
        beq_iff_eq.mp (List.find?_some (p := fun other => name other == name value) found)
      rw [List.inj_on_of_nodup_map plain.1 (List.mem_of_find?_eq_some found) among same]

theorem faithful_names (plain : PlainNames (all.map name)) (complete : ∀ value, value ∈ all) :
    (names all name).Faithful where
  proper value := isProper_string (plain.isPlain (complete value))
  read_write value := named?_of_plain plain (complete value)

end

/-! ## Records -/

theorem decodeKeys?_of_plain {members : List (List Char × Json)}
    (plain : ∀ member ∈ members, ∀ c ∈ member.1, IsPlain c) :
    decodeKeys? members =
      some (members.map fun (key, value) => (String.ofList key, value)) := by
  induction members with
  | nil => rfl
  | cons member members ih =>
      obtain ⟨key, others⟩ := List.forall_mem_cons.mp plain
      rw [decodeKeys?, ih others, decode?, decodeFrom_of_plain key]
      rfl

theorem lookup_of_mem {members : List (String × Json)} (distinct : (members.map Prod.fst).Nodup)
    {key : String} {value : Json} (among : (key, value) ∈ members) :
    members.lookup key = some value := by
  induction members with
  | nil => cases among
  | cons member members ih =>
      obtain ⟨new, others⟩ := List.nodup_cons.mp distinct
      rcases List.mem_cons.mp among with rfl | later
      · exact List.lookup_cons_self
      · have different : key ≠ member.1 := by
          rintro rfl
          exact new (List.mem_map.mpr ⟨_, later, rfl⟩)
        rw [List.lookup_cons, beq_false_of_ne different]
        exact ih others later

section

variable {fields : List (String × Json)}

/-- An object with the same members, in any order. -/
inductive Rearranges : Json → Json → Prop
  | object {first second : List (List Char × Json)} (perm : first.Perm second) :
      Rearranges (.object first) (.object second)

theorem rearranges_record (fields : List (String × Json)) :
    Rearranges (record fields) (record fields) :=
  .object (.refl _)

theorem isProper_of_rearranges {written : Json} (names : List String) (plain : PlainNames names)
    (same : fields.map Prod.fst = names) (proper : ∀ field ∈ fields, field.2.IsProper)
    (rearranges : Rearranges written (record fields)) : written.IsProper := by
  subst same
  obtain ⟨perm⟩ := rearranges
  refine isProper_object ?_ ?_
  · intro member among
    obtain ⟨field, original, rfl⟩ := List.mem_map.mp (perm.mem_iff.mp among)
    exact plain.isPlain original
  · intro member among
    obtain ⟨field, original, rfl⟩ := List.mem_map.mp (perm.mem_iff.mp among)
    exact proper field original

theorem isProper_record (names : List String) (plain : PlainNames names)
    (same : fields.map Prod.fst = names) (proper : ∀ field ∈ fields, field.2.IsProper) :
    (record fields).IsProper :=
  isProper_of_rearranges names plain same proper (rearranges_record fields)

/-- **The fields of a record are found**, in whatever order its members were written. -/
theorem fields?_of_rearranges {written : Json} (names : List String) (plain : PlainNames names)
    (same : fields.map Prod.fst = names) (rearranges : Rearranges written (record fields)) :
    fields? names written = some (fields.map (some ·.2)) := by
  subst same
  obtain ⟨perm⟩ := rearranges
  rename_i members
  have plainKeys : ∀ member ∈ members, ∀ c ∈ member.1, IsPlain c := by
    intro member among
    obtain ⟨field, original, rfl⟩ := List.mem_map.mp (perm.mem_iff.mp among)
    exact plain.isPlain original
  obtain ⟨decoded, same⟩ : ∃ decoded,
      decoded = members.map fun (key, value) => (String.ofList key, value) := ⟨_, rfl⟩
  have decodedPerm : decoded.Perm fields := by
    have back := perm.map fun (key, value) => (String.ofList key, value)
    simpa only [same, List.map_map, Function.comp_def, String.ofList_toList,
      List.map_id'] using back
  have distinct : (decoded.map Prod.fst).Nodup :=
    (decodedPerm.map Prod.fst).nodup_iff.mpr plain.1
  have once : ((fields.map Prod.fst).all fun field =>
      decoded.countP (fun member => member.1 == field) ≤ 1) = true := by
    refine List.all_eq_true.mpr fun field _ => decide_eq_true ?_
    have count := List.nodup_iff_count_le_one.mp distinct field
    rwa [List.count, List.countP_map] at count
  have found : ∀ field ∈ fields, decoded.lookup field.1 = some field.2 := fun field among =>
    lookup_of_mem distinct (decodedPerm.mem_iff.mpr among)
  rw [fields?, decodeKeys?_of_plain plainKeys, ← same]
  dsimp only
  rw [if_pos once, List.map_map]
  exact congrArg some (List.map_congr_left found)

end

theorem Faithful.required (faithful : form.Faithful) (value : α) :
    required form (some (form.write value)) = some value :=
  faithful.read_write value

theorem Faithful.optional (faithful : form.option.Faithful) (value : Option α) :
    optional form (some (form.option.write value)) = some value :=
  faithful.read_write value

/-! ## Every form -/

theorem faithful_optionWord : word.option.Faithful :=
  faithful_word.option nofun

theorem faithful_underrun : underrun.Faithful :=
  faithful_names (by decide) fun value => by cases value <;> decide

theorem faithful_state : state.Faithful :=
  faithful_names (by decide) fun value => by cases value <;> decide

theorem faithful_opcode : opcode.Faithful :=
  faithful_names (by decide) fun value => by cases value <;> decide

theorem faithful_mode : mode.Faithful :=
  faithful_names (by decide) fun value => by cases value <;> decide

theorem plain_conditions : PlainNames (StopCondition.all.map StopCondition.name) := by
  decide

theorem mem_conditions (condition : StopCondition) : condition ∈ StopCondition.all := by
  cases condition <;> decide

theorem faithful_stopCondition : stopCondition.Faithful :=
  faithful_names plain_conditions mem_conditions

theorem faithful_program : program.Faithful where
  proper value := faithful_word.list.proper value.cells
  read_write value := by
    simp only [program, faithful_word.list.read_write, Option.map_some]

section

variable {written : Json}

theorem read_config {value : Config} (rearranges : Rearranges written (config.write value)) :
    config.read written = some value := by
  have found := fields?_of_rearranges ["scratch_cells", "underrun"] (by decide) rfl rearranges
  simp only [config, found, List.map_cons, List.map_nil, faithful_size.required,
    faithful_underrun.required]
  rfl

theorem faithful_config : config.Faithful where
  proper value := by
    refine isProper_record ["scratch_cells", "underrun"] (by decide) rfl ?_
    simp only [List.forall_mem_cons]
    exact ⟨faithful_size.proper _, faithful_underrun.proper _, List.forall_mem_nil _⟩
  read_write value := read_config (rearranges_record _)

theorem read_networkConfig {value : NetworkConfig}
    (rearranges : Rearranges written (networkConfig.write value)) :
    networkConfig.read written = some value := by
  have found := fields?_of_rearranges
    ["nodes", "idle_input", "max_rounds", "scratch_cells"] (by decide) rfl rearranges
  simp only [networkConfig, found, List.map_cons, List.map_nil, faithful_size.required,
    faithful_word.required]
  rfl

theorem faithful_networkConfig : networkConfig.Faithful where
  proper value := by
    refine isProper_record ["nodes", "idle_input", "max_rounds", "scratch_cells"]
      (by decide) rfl ?_
    simp only [List.forall_mem_cons]
    exact ⟨faithful_size.proper _, faithful_word.proper _, faithful_size.proper _,
      faithful_size.proper _, List.forall_mem_nil _⟩
  read_write value := read_networkConfig (rearranges_record _)

theorem read_packet {value : Packet} (rearranges : Rearranges written (packet.write value)) :
    packet.read written = some value := by
  have found := fields?_of_rearranges ["dest", "x", "y"] (by decide) rfl rearranges
  simp only [packet, found, List.map_cons, List.map_nil, faithful_word.required]
  rfl

theorem faithful_packet : packet.Faithful where
  proper value := by
    refine isProper_record ["dest", "x", "y"] (by decide) rfl ?_
    simp only [List.forall_mem_cons]
    exact ⟨faithful_word.proper _, faithful_word.proper _, faithful_word.proper _,
      List.forall_mem_nil _⟩
  read_write value := read_packet (rearranges_record _)

theorem read_snapshot {value : Snapshot} (rearranges : Rearranges written (snapshot.write value)) :
    snapshot.read written = some value := by
  have found := fields?_of_rearranges
    ["state", "ip", "relative_base", "steps", "last_output", "pending_input", "memory"]
    (by decide) rfl rearranges
  simp only [snapshot, found, List.map_cons, List.map_nil, faithful_state.required,
    faithful_word.required, faithful_size.required, faithful_optionWord.optional,
    faithful_word.list.required]
  rfl

theorem isProper_snapshot {value : Snapshot}
    (rearranges : Rearranges written (snapshot.write value)) : written.IsProper := by
  refine isProper_of_rearranges
    ["state", "ip", "relative_base", "steps", "last_output", "pending_input", "memory"]
    (by decide) rfl ?_ rearranges
  simp only [List.forall_mem_cons]
  exact ⟨faithful_state.proper _, faithful_word.proper _, faithful_word.proper _,
    faithful_size.proper _, faithful_optionWord.proper _, faithful_word.list.proper _,
    faithful_word.list.proper _, List.forall_mem_nil _⟩

theorem faithful_snapshot : snapshot.Faithful where
  proper _ := isProper_snapshot (rearranges_record _)
  read_write _ := read_snapshot (rearranges_record _)

end

theorem faithful_event : event.Faithful where
  proper value := by
    have plain : PlainNames [value.condition.name] :=
      ⟨List.nodup_singleton _,
        List.forall_mem_singleton.mpr (plain_conditions.isPlain (mem_conditions _))⟩
    refine isProper_record _ plain rfl ?_
    simp only [List.forall_mem_cons]
    exact ⟨faithful_packet.proper _, List.forall_mem_nil _⟩
  read_write value := by
    have named := named?_of_plain plain_conditions (mem_conditions value.condition)
    simp only [event, record, List.map_cons, List.map_nil, named, faithful_packet.read_write,
      Option.map_some]
    cases value <;> rfl

/-! ## Round trips -/

/-- A text written anew, if it is the text of a value. -/
def rewrite? (form : Form α) (text : String) : Option String :=
  (form.ofText? text).map form.toText

/-- The values of a form are read back from their texts, and a text written anew stays as it is. -/
structure RoundTrips (form : Form α) : Prop where
  ofText?_toText : ∀ value, form.ofText? (form.toText value) = some value
  rewrite?_settles : ∀ text written, form.rewrite? text = some written →
    form.rewrite? written = some written

theorem Faithful.roundTrips (faithful : form.Faithful) : form.RoundTrips where
  ofText?_toText := faithful.ofText?_toText
  rewrite?_settles text written rewritten := by
    obtain ⟨value, _, rfl⟩ := Option.map_eq_some_iff.mp rewritten
    rw [rewrite?, faithful.ofText?_toText, Option.map_some]

/-- **Every form round-trips**: programs, settings, snapshots, packets, events and all names. -/
theorem forms_round_trip :
    program.RoundTrips ∧ config.RoundTrips ∧ snapshot.RoundTrips ∧ networkConfig.RoundTrips ∧
      packet.RoundTrips ∧ event.RoundTrips ∧ state.RoundTrips ∧ underrun.RoundTrips ∧
        stopCondition.RoundTrips ∧ opcode.RoundTrips ∧ mode.RoundTrips :=
  ⟨faithful_program.roundTrips, faithful_config.roundTrips, faithful_snapshot.roundTrips,
    faithful_networkConfig.roundTrips, faithful_packet.roundTrips, faithful_event.roundTrips,
    faithful_state.roundTrips, faithful_underrun.roundTrips, faithful_stopCondition.roundTrips,
    faithful_opcode.roundTrips, faithful_mode.roundTrips⟩

end Form

end Json

end Intcode
