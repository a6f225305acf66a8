import Coolbeans.CommandLine
import Coolbeans.DecimalNumerals
import Mathlib.Data.List.Forall2

/-!
# What the argument parsers accept

Each parser of arguments is a regular expression and a conversion of each of its groups.
Together they accept exactly a fixed number of decimal numerals, each below its own limit,
with single blanks between them, or a tube name; and the fields that they return are the
values of the numerals.
-/

namespace Coolbeans

open DecimalNumerals

/-- The arguments are these numerals, with single blanks between them. -/
def ReadsAs (args : Bytes) (numerals : List Bytes) : Prop :=
  args = spaced numerals ∧ ∀ numeral ∈ numerals, IsNumeral numeral

/-- A parser of numerals: what it accepts, what it returns, how it fails, and that a
rendering of values within the limits gives the values back. -/
structure NumeralArgs {α : Type} (parser : CmdData → Except CmdErr α) (limits : List Nat)
    (fields : α → List Int) : Prop where
  accepts : ∀ data, (∃ arg, parser data = .ok arg) ↔
    ∃ numerals, ReadsAs data.args numerals ∧ List.Forall₂ (· < ·) (numerals.map value) limits
  decodes : ∀ data arg numerals, parser data = .ok arg → ReadsAs data.args numerals →
    fields arg = numerals.map fun numeral => (value numeral : Int)
  rejects : ∀ data err, parser data = .error err → err = .badFormat
  renders : ∀ (data : CmdData) (values : List Nat), List.Forall₂ (· < ·) values limits →
    ∃ arg, parser { data with args := spaced (values.map render) } = .ok arg ∧
      fields arg = values.map Int.ofNat

/-! ## Groups of numerals -/

theorem all_isDigit_iff (group : Bytes) :
    group ≠ [] ∧ group.all isDigit ↔ IsNumeral group := by
  simp [IsNumeral, isDigit, List.all_eq_true]

theorem matchNumerals_eq_some_iff {count : Nat} (positive : 0 < count) {args : Bytes}
    {groups : List Bytes} :
    matchNumerals count args = some groups ↔ groups.length = count ∧ ReadsAs args groups := by
  simp only [matchNumerals, all_isDigit_iff]
  constructor
  · intro found
    split at found
    case isTrue shape =>
      cases found
      exact ⟨shape.1, (spaced_splitOn args).symm, shape.2⟩
    case isFalse => cases found
  · rintro ⟨length, rfl, each⟩
    have nonempty : groups ≠ [] := by
      rintro rfl
      exact absurd length (by simpa using positive.ne)
    rw [splitOn_spaced nonempty each, if_pos ⟨length, each⟩]

theorem readsAs_unique {args : Bytes} {first second : List Bytes} (nonempty : first ≠ [])
    (reads : ReadsAs args first) (again : ReadsAs args second) : first = second := by
  have split : args.splitOn 32 = first := by
    rw [reads.1]
    exact splitOn_spaced nonempty reads.2
  have secondSome : second ≠ [] := by
    -- no numerals at all are no bytes, and those are split into one empty group
    rintro rfl
    rw [again.1] at split
    exact (reads.2 [] (split ▸ List.mem_cons_self)).1 rfl
  rw [← split, again.1]
  exact splitOn_spaced secondSome again.2

theorem parseUint_eq (bits : Nat) (digits : Bytes) :
    parseUint bits digits =
      if value digits < 2 ^ bits then .ok (value digits) else .error .badFormat := by
  rw [value_eq_foldl]
  rfl

theorem parseInt_eq (digits : Bytes) :
    parseInt digits =
      if value digits < 2 ^ 63 then .ok (Int64.ofNat (value digits)) else .error .badFormat := by
  rw [value_eq_foldl]
  rfl

theorem ite_ok_bind {α β : Type} {p : Prop} [Decidable p] (result : α)
    (next : α → Except CmdErr β) :
    ((if p then .ok result else .error .badFormat) >>= next) =
      if p then next result else .error .badFormat := by
  split <;> rfl

/-- What a parser makes of the groups of its regular expression. -/
structure DecodesGroups {α : Type} (parser : CmdData → Except CmdErr α) (limits : List Nat)
    (fields : α → List Int) : Prop where
  mismatch : ∀ data, matchNumerals limits.length data.args = none →
    parser data = .error .badFormat
  converts : ∀ data groups, matchNumerals limits.length data.args = some groups →
    (List.Forall₂ (· < ·) (groups.map value) limits →
      ∃ arg, parser data = .ok arg ∧ fields arg = groups.map fun group => (value group : Int)) ∧
    (¬ List.Forall₂ (· < ·) (groups.map value) limits → parser data = .error .badFormat)

namespace DecodesGroups

variable {α : Type} {parser : CmdData → Except CmdErr α} {limits : List Nat}
  {fields : α → List Int}

/-- Arguments that are accepted are numerals within the limits, with the fields as values. -/
theorem of_ok (decodes : DecodesGroups parser limits fields) (positive : 0 < limits.length)
    {data : CmdData} {arg : α} (accepted : parser data = .ok arg) :
    ∃ numerals, ReadsAs data.args numerals ∧ List.Forall₂ (· < ·) (numerals.map value) limits ∧
      fields arg = numerals.map fun numeral => (value numeral : Int) := by
  cases found : matchNumerals limits.length data.args with
  | none =>
      rw [decodes.mismatch data found] at accepted
      cases accepted
  | some groups =>
      have reads := ((matchNumerals_eq_some_iff positive).mp found).2
      by_cases range : List.Forall₂ (· < ·) (groups.map value) limits
      · obtain ⟨other, parsed, values⟩ := (decodes.converts data groups found).1 range
        cases accepted.symm.trans parsed
        exact ⟨groups, reads, range, values⟩
      · rw [(decodes.converts data groups found).2 range] at accepted
        cases accepted

theorem ok_of_reads (decodes : DecodesGroups parser limits fields) (positive : 0 < limits.length)
    {data : CmdData} {numerals : List Bytes} (reads : ReadsAs data.args numerals)
    (range : List.Forall₂ (· < ·) (numerals.map value) limits) :
    ∃ arg, parser data = .ok arg ∧
      fields arg = numerals.map fun numeral => (value numeral : Int) := by
  have length : numerals.length = limits.length := by simpa using range.length_eq
  have found := (matchNumerals_eq_some_iff positive).mpr ⟨length, reads⟩
  exact (decodes.converts data numerals found).1 range

theorem badFormat_of_error (decodes : DecodesGroups parser limits fields) {data : CmdData}
    {err : CmdErr} (fails : parser data = .error err) : err = .badFormat := by
  cases found : matchNumerals limits.length data.args with
  | none =>
      cases fails.symm.trans (decodes.mismatch data found)
      rfl
  | some groups =>
      by_cases range : List.Forall₂ (· < ·) (groups.map value) limits
      · obtain ⟨arg, parsed, _⟩ := (decodes.converts data groups found).1 range
        cases fails.symm.trans parsed
      · cases fails.symm.trans ((decodes.converts data groups found).2 range)
        rfl

theorem nonneg (decodes : DecodesGroups parser limits fields) (positive : 0 < limits.length)
    {data : CmdData} {arg : α} (accepted : parser data = .ok arg) :
    ∀ field ∈ fields arg, 0 ≤ field := by
  obtain ⟨numerals, _, _, isFields⟩ := decodes.of_ok positive accepted
  rw [isFields]
  intro field member
  obtain ⟨numeral, _, rfl⟩ := List.mem_map.mp member
  exact Int.natCast_nonneg _

theorem numeralArgs (decodes : DecodesGroups parser limits fields)
    (positive : 0 < limits.length) : NumeralArgs parser limits fields where
  accepts data := by
    constructor
    · rintro ⟨arg, accepted⟩
      obtain ⟨numerals, reads, range, _⟩ := decodes.of_ok positive accepted
      exact ⟨numerals, reads, range⟩
    · rintro ⟨numerals, reads, range⟩
      obtain ⟨arg, parsed, _⟩ := decodes.ok_of_reads positive reads range
      exact ⟨arg, parsed⟩
  decodes data arg numerals accepted reads := by
    obtain ⟨groups, readsGroups, range, values⟩ := decodes.of_ok positive accepted
    have length : groups.length = limits.length := by simpa using range.length_eq
    have nonempty : groups ≠ [] := List.ne_nil_of_length_pos (length ▸ positive)
    rw [values, readsAs_unique nonempty readsGroups reads]
  rejects data err fails := decodes.badFormat_of_error fails
  renders data values range := by
    have readBack : (values.map render).map value = values := by
      simp [Function.comp_def, value_render]
    let filled : CmdData := { data with args := spaced (values.map render) }
    have reads : ReadsAs filled.args (values.map render) := by
      refine ⟨rfl, fun numeral member => ?_⟩
      obtain ⟨n, _, rfl⟩ := List.mem_map.mp member
      exact isNumeral_render n
    obtain ⟨arg, parsed, read⟩ := decodes.ok_of_reads positive reads (readBack.symm ▸ range)
    refine ⟨arg, parsed, ?_⟩
    rw [read, List.map_map]
    apply List.map_congr_left
    intro n _
    rw [Function.comp_apply, value_render]
    rfl

end DecodesGroups

/-! ## The parsers -/

/-- The numbers of an argument, in the order of the command line. -/
def PutArg.fields (arg : PutArg) : List Int :=
  [arg.pri.toNat, arg.delay.toInt, arg.ttr.toInt, arg.size.toInt]

@[inherit_doc PutArg.fields]
def ReleaseArg.fields (arg : ReleaseArg) : List Int :=
  [arg.id.toNat, arg.pri.toNat, arg.delay.toInt]

@[inherit_doc PutArg.fields]
def BuryArg.fields (arg : BuryArg) : List Int :=
  [arg.id.toNat, arg.pri.toNat]

section Parsers

variable {data : CmdData}

/-- A parser that converts its groups if they are within their limits. -/
theorem converts_of_ite {α : Type} {parser : CmdData → Except CmdErr α} {limits : List Nat}
    {fields : α → List Int} {groups : List Bytes} {p : Prop} [Decidable p] {arg : α}
    (parses : parser data = if p then .ok arg else .error .badFormat)
    (range : List.Forall₂ (· < ·) (groups.map value) limits ↔ p)
    (reads : p → fields arg = groups.map fun group => (value group : Int)) :
    (List.Forall₂ (· < ·) (groups.map value) limits →
      ∃ arg, parser data = .ok arg ∧ fields arg = groups.map fun group => (value group : Int)) ∧
    (¬ List.Forall₂ (· < ·) (groups.map value) limits → parser data = .error .badFormat) := by
  rw [range, parses]
  exact ⟨fun within => ⟨arg, if_pos within, reads within⟩, fun beyond => if_neg beyond⟩

theorem decodesGroups_newPutArg :
    DecodesGroups newPutArg [2 ^ 32, 2 ^ 63, 2 ^ 63, 2 ^ 63] PutArg.fields := by
  refine ⟨fun data none => by simp_all [newPutArg], fun data groups found => ?_⟩
  obtain ⟨length, _⟩ := (matchNumerals_eq_some_iff (by simp)).mp found
  obtain ⟨pri, delay, ttr, bytes, rfl⟩ := List.length_eq_four.mp length
  have parses : newPutArg data =
      if value pri < 2 ^ 32 ∧ value delay < 2 ^ 63 ∧ value ttr < 2 ^ 63 ∧ value bytes < 2 ^ 63
      then .ok ⟨UInt32.ofNat (value pri), Int64.ofNat (value delay), Int64.ofNat (value ttr),
        Int64.ofNat (value bytes), data.data⟩
      else .error .badFormat := by
    have found : matchNumerals 4 data.args = some [pri, delay, ttr, bytes] := found
    simp only [newPutArg, found, parseUint_eq, parseInt_eq, ite_ok_bind, ite_and]
    rfl
  refine converts_of_ite parses (by simp) ?_
  rintro ⟨priFits, delayFits, ttrFits, bytesFits⟩
  simp only [PutArg.fields, UInt32.toNat_ofNat_of_lt' priFits, Int64.toInt_ofNat_of_lt delayFits,
    Int64.toInt_ofNat_of_lt ttrFits, Int64.toInt_ofNat_of_lt bytesFits]
  rfl

theorem decodesGroups_newReleaseArg :
    DecodesGroups newReleaseArg [2 ^ 64, 2 ^ 32, 2 ^ 63] ReleaseArg.fields := by
  refine ⟨fun data none => by simp_all [newReleaseArg], fun data groups found => ?_⟩
  obtain ⟨length, _⟩ := (matchNumerals_eq_some_iff (by simp)).mp found
  obtain ⟨id, pri, delay, rfl⟩ := List.length_eq_three.mp length
  have parses : newReleaseArg data =
      if value id < 2 ^ 64 ∧ value pri < 2 ^ 32 ∧ value delay < 2 ^ 63
      then .ok ⟨UInt64.ofNat (value id), UInt32.ofNat (value pri), Int64.ofNat (value delay)⟩
      else .error .badFormat := by
    have found : matchNumerals 3 data.args = some [id, pri, delay] := found
    simp only [newReleaseArg, found, parseUint_eq, parseInt_eq, ite_ok_bind, ite_and]
    rfl
  refine converts_of_ite parses (by simp) ?_
  rintro ⟨idFits, priFits, delayFits⟩
  simp only [ReleaseArg.fields, UInt64.toNat_ofNat_of_lt' idFits,
    UInt32.toNat_ofNat_of_lt' priFits, Int64.toInt_ofNat_of_lt delayFits]
  rfl

theorem decodesGroups_newBuryArg :
    DecodesGroups newBuryArg [2 ^ 64, 2 ^ 32] BuryArg.fields := by
  refine ⟨fun data none => by simp_all [newBuryArg], fun data groups found => ?_⟩
  obtain ⟨length, _⟩ := (matchNumerals_eq_some_iff (by simp)).mp found
  obtain ⟨id, pri, rfl⟩ := List.length_eq_two.mp length
  have parses : newBuryArg data =
      if value id < 2 ^ 64 ∧ value pri < 2 ^ 32
      then .ok ⟨UInt64.ofNat (value id), UInt32.ofNat (value pri)⟩ else .error .badFormat := by
    have found : matchNumerals 2 data.args = some [id, pri] := found
    simp only [newBuryArg, found, parseUint_eq, ite_ok_bind, ite_and]
    rfl
  refine converts_of_ite parses (by simp) ?_
  rintro ⟨idFits, priFits⟩
  simp only [BuryArg.fields, UInt64.toNat_ofNat_of_lt' idFits, UInt32.toNat_ofNat_of_lt' priFits]
  rfl

theorem decodesGroups_newIDArg :
    DecodesGroups newIDArg [2 ^ 64] (fun id => [(id.toNat : Int)]) := by
  refine ⟨fun data none => by simp_all [newIDArg], fun data groups found => ?_⟩
  obtain ⟨length, _⟩ := (matchNumerals_eq_some_iff (by simp)).mp found
  obtain ⟨id, rfl⟩ := List.length_eq_one_iff.mp length
  have parses : newIDArg data =
      if value id < 2 ^ 64 then .ok (UInt64.ofNat (value id)) else .error .badFormat := by
    have found : matchNumerals 1 data.args = some [id] := found
    simp only [newIDArg, found, parseUint_eq, ite_ok_bind]
    rfl
  refine converts_of_ite parses (by simp) fun idFits => ?_
  simp only [UInt64.toNat_ofNat_of_lt' idFits]
  rfl

/-- The two parsers that convert one numeral to an `int`. -/
theorem decodesGroups_int {parser : CmdData → Except CmdErr Int64}
    (mismatch : ∀ data, matchNumerals 1 data.args = none → parser data = .error .badFormat)
    (converts : ∀ data n, matchNumerals 1 data.args = some [n] → parser data = parseInt n) :
    DecodesGroups parser [2 ^ 63] (fun n => [n.toInt]) := by
  refine ⟨mismatch, fun data groups found => ?_⟩
  obtain ⟨length, _⟩ := (matchNumerals_eq_some_iff (by simp)).mp found
  obtain ⟨n, rfl⟩ := List.length_eq_one_iff.mp length
  refine converts_of_ite ((converts data n found).trans (parseInt_eq n)) (by simp) fun fits => ?_
  simp only [Int64.toInt_ofNat_of_lt fits]
  rfl

theorem decodesGroups_newKickNArg :
    DecodesGroups newKickNArg [2 ^ 63] (fun bound => [bound.toInt]) :=
  decodesGroups_int (fun data none => by simp only [newKickNArg, none])
    fun data n found => by simp only [newKickNArg, found]

theorem decodesGroups_newReserveWithTimeoutArg :
    DecodesGroups newReserveWithTimeoutArg [2 ^ 63] (fun seconds => [seconds.toInt]) :=
  decodesGroups_int (fun data none => by simp only [newReserveWithTimeoutArg, none])
    fun data n found => by simp only [newReserveWithTimeoutArg, found]

end Parsers

/-! ## Tube names -/

/-- The characters of tube names. -/
def tubeAlphabet : Bytes :=
  text "abcdefghijklmnopqrstuvwxyzABCDEFGHIJKLMNOPQRSTUVWXYZ0123456789-+/;.$_()"

/-- One to two hundred characters, the first of them no hyphen. -/
def IsTubeName (name : Bytes) : Prop :=
  1 ≤ name.length ∧ name.length ≤ 200 ∧ (∀ b ∈ name, b ∈ tubeAlphabet) ∧ name.head? ≠ some 45

instance IsTubeName.decidable (name : Bytes) : Decidable (IsTubeName name) :=
  inferInstanceAs (Decidable (_ ∧ _ ∧ _ ∧ _))

/-- A parser of tube names. -/
structure TubeArgs (parser : CmdData → Except CmdErr TubeName) : Prop where
  accepts : ∀ data name, parser data = .ok name ↔ name = data.args ∧ IsTubeName data.args
  rejects : ∀ data err, parser data = .error err → err = .badFormat

/-- The bytes from one to another. -/
def byteRange (low high : UInt8) : Bytes :=
  (List.range' low.toNat (high.toNat + 1 - low.toNat)).map UInt8.ofNat

theorem mem_byteRange_iff (b low high : UInt8) : b ∈ byteRange low high ↔ low ≤ b ∧ b ≤ high := by
  rw [byteRange, List.mem_map, UInt8.le_iff_toNat_le, UInt8.le_iff_toNat_le]
  constructor
  · rintro ⟨n, inside, rfl⟩
    rw [List.mem_range'_1] at inside
    have fits := high.toNat_lt
    rw [UInt8.toNat_ofNat_of_lt' (by simp only [UInt8.size]; omega)]
    omega
  · intro inside
    exact ⟨b.toNat, List.mem_range'_1.mpr (by omega), UInt8.ofNat_toNat⟩

theorem mem_tubeAlphabet_iff (b : UInt8) : b ∈ tubeAlphabet ↔ isTubeStart b = true ∨ b = 45 := by
  have alphabet : tubeAlphabet =
      byteRange 97 122 ++ byteRange 65 90 ++ byteRange 48 57 ++ 45 :: text "+/;.$_()" := by
    decide +kernel
  simp only [alphabet, isTubeStart, isDigit, List.mem_append, List.mem_cons, mem_byteRange_iff,
    Bool.or_eq_true, Bool.and_eq_true, decide_eq_true_eq, List.contains_iff_mem]
  rw [or_comm (a := b = 45), ← or_assoc]

theorem isTubeName_cons_iff (first : UInt8) (rest : Bytes) :
    IsTubeName (first :: rest) ↔
      isTubeStart first = true ∧ rest.length ≤ 199 ∧
        ∀ b ∈ rest, isTubeStart b = true ∨ b = 45 := by
  have noHyphen : isTubeStart 45 = false := by decide
  simp only [IsTubeName, List.length_cons, List.forall_mem_cons, mem_tubeAlphabet_iff,
    List.head?_cons, ne_eq, Option.some.injEq]
  constructor
  · rintro ⟨_, length, ⟨start | hyphen, others⟩, notHyphen⟩
    · exact ⟨start, by omega, others⟩
    · exact absurd hyphen notHyphen
  · rintro ⟨start, length, others⟩
    refine ⟨by omega, by omega, ⟨.inl start, others⟩, ?_⟩
    rintro rfl
    rw [noHyphen] at start
    cases start

theorem newTubeArg_eq (data : CmdData) :
    newTubeArg data = if IsTubeName data.args then .ok data.args else .error .badFormat := by
  unfold newTubeArg
  cases args : data.args with
  | nil =>
      rw [if_neg]
      rintro ⟨positive, _⟩
      simp at positive
  | cons first rest =>
      dsimp only
      simp only [isTubeName_cons_iff]
      congr 1
      simp [and_assoc]

theorem tubeArgs_newTubeArg : TubeArgs newTubeArg := by
  constructor
  · intro data name
    rw [newTubeArg_eq]
    split
    case isTrue valid => simp [valid, eq_comm]
    case isFalse invalid => simp [invalid]
  · intro data err fails
    rw [newTubeArg_eq] at fails
    split at fails
    case isTrue => cases fails
    case isFalse =>
      cases fails
      rfl

/-- The seven parsers accept exactly their grammars and decode what they accept. -/
theorem argParsers_exact :
    NumeralArgs newPutArg [2 ^ 32, 2 ^ 63, 2 ^ 63, 2 ^ 63] PutArg.fields ∧
    NumeralArgs newReleaseArg [2 ^ 64, 2 ^ 32, 2 ^ 63] ReleaseArg.fields ∧
    NumeralArgs newBuryArg [2 ^ 64, 2 ^ 32] BuryArg.fields ∧
    NumeralArgs newIDArg [2 ^ 64] (fun id => [(id.toNat : Int)]) ∧
    NumeralArgs newKickNArg [2 ^ 63] (fun bound => [bound.toInt]) ∧
    NumeralArgs newReserveWithTimeoutArg [2 ^ 63] (fun seconds => [seconds.toInt]) ∧
    TubeArgs newTubeArg :=
  ⟨decodesGroups_newPutArg.numeralArgs (by simp), decodesGroups_newReleaseArg.numeralArgs (by simp),
    decodesGroups_newBuryArg.numeralArgs (by simp), decodesGroups_newIDArg.numeralArgs (by simp),
    decodesGroups_newKickNArg.numeralArgs (by simp),
    decodesGroups_newReserveWithTimeoutArg.numeralArgs (by simp), tubeArgs_newTubeArg⟩

end Coolbeans
