import Coolbeans.LineScan

/-!
# Which bytes scans accept, keep and drop

`Scan` and `Discard` against what they are for: a line ends at the first delimiter of the bytes
that come in, however these are cut into reads.  `Scan` keeps every byte and `Discard` stops
right after the delimiter.  The limit of `Scan` is not a bound on the lines it accepts: it is
compared with the bytes at hand before each read, and what is already in the buffer is never
compared with it.
-/

namespace Coolbeans

open DelimitedStream

/-- The first delimiter of the input lies between the two parts. -/
def CutAt (input left after : Bytes) : Prop :=
  input = left ++ carriageReturn :: newline :: after ∧ ¬ [carriageReturn, newline] <:+: left

theorem split_eq_some_iff {input left after : Bytes} :
    split input = some (left, after) ↔ CutAt input left after :=
  splitFirst_eq_some_iff (by decide)

theorem split_eq_none_iff {input : Bytes} :
    split input = none ↔ ¬ [carriageReturn, newline] <:+: input :=
  splitFirst_eq_none_iff input

/-! ## The limit -/

/-- The first delimiter of the input ends within the first `limitBytes` bytes. -/
def EndsWithin (limitBytes : Int) (input : Bytes) : Prop :=
  ∃ left after, CutAt input left after ∧ left.length + 2 ≤ limitBytes

theorem endsWithin_iff {limitBytes : Int} {input : Bytes} :
    EndsWithin limitBytes input ↔ ∃ parts ∈ split input, parts.1.length + 2 ≤ limitBytes := by
  constructor
  · rintro ⟨left, after, cut, within⟩
    exact ⟨(left, after), split_eq_some_iff.mpr cut, within⟩
  · rintro ⟨⟨left, after⟩, found, within⟩
    exact ⟨left, after, split_eq_some_iff.mp found, within⟩

instance EndsWithin.decidable (limitBytes : Int) (input : Bytes) :
    Decidable (EndsWithin limitBytes input) :=
  decidable_of_iff _ endsWithin_iff.symm

/-- `Scan` accepts the first line of its input exactly if it ends within the limit, and reports
that the delimiter is missing if it has seen enough bytes. -/
def RespectsLimit (rdr : Reader) (b : Bytes) (limitBytes : Int) : Prop :=
  ((∃ line, (scan rdr b limitBytes).line = .ok line) ↔
      EndsWithin limitBytes (b ++ rdr.flatten)) ∧
    (¬ EndsWithin limitBytes (b ++ rdr.flatten) → limitBytes ≤ (b ++ rdr.flatten).length →
      (scan rdr b limitBytes).line = .error .delimiterMissing)

section Limit

variable {rdr : Reader} {b left after : Bytes} {limitBytes : Int}

theorem CutAt.unique {input other later : Bytes} (cut : CutAt input left after)
    (again : CutAt input other later) : other = left ∧ later = after := by
  have same := (split_eq_some_iff.mpr again).symm.trans (split_eq_some_iff.mpr cut)
  cases same
  exact ⟨rfl, rfl⟩

/-- `Scan` respects its limit exactly if a delimiter that ends too late is preceded by the end
of a read (or of the initial buffer) at which the limit is reached. -/
theorem respectsLimit_iff (flowing : Flowing rdr) (b : Bytes) (limitBytes : Int) :
    RespectsLimit rdr b limitBytes ↔
      ∀ left after, CutAt (b ++ rdr.flatten) left after → limitBytes < left.length + 2 →
        StopsBefore limitBytes b rdr (left.length + 2) := by
  constructor
  · rintro ⟨accepts, _⟩ left after cut late
    by_contra goesOn
    obtain ⟨extra, rest, returns⟩ :=
      (scan_accepts_iff flowing limitBytes (split_eq_some_iff.mpr cut)).mpr goesOn
    obtain ⟨other, later, again, within⟩ := accepts.mp ⟨left, by rw [returns]⟩
    rw [(cut.unique again).1] at within
    omega
  · intro stops
    have finds := scan_finds flowing b limitBytes
    have accepts : (∃ line, (scan rdr b limitBytes).line = .ok line) ↔
        EndsWithin limitBytes (b ++ rdr.flatten) := by
      constructor
      · rintro ⟨line, accepted⟩
        obtain ⟨after, found⟩ := split_of_scan flowing accepted
        have cut := split_eq_some_iff.mp found
        refine ⟨line, after, cut, Int.not_lt.mp fun late => ?_⟩
        rcases returns : scan rdr b limitBytes with ⟨result, extra, rest⟩
        rw [returns] at accepted
        have isLine : result = .ok line := accepted
        subst isLine
        exact (scan_accepts_iff flowing limitBytes found).mp ⟨extra, rest, returns⟩
          (stops line after cut late)
      · rintro ⟨left, after, cut, within⟩
        obtain ⟨extra, rest, returns, _⟩ :=
          scan_line flowing (split_eq_some_iff.mpr cut) within
        rw [returns]
        exact ⟨left, rfl⟩
    refine ⟨accepts, fun tooLate enough => ?_⟩
    generalize scan rdr b limitBytes = scanned at finds accepts
    cases finds with
    | line left extra rest => exact absurd (accepts.mp ⟨left, rfl⟩) tooLate
    | ended _ short => omega
    | missing => rfl

/-- The second read of a line of seven bytes reaches the limit of four. -/
theorem respectsLimit_iff_sevenBytes :
    RespectsLimit [[97], [98, 98, 98], [99, 13, 10]] [] 4 ∧
      (scan [[97], [98, 98, 98], [99, 13, 10]] [] 4).line = .error .delimiterMissing := by
  refine ⟨(respectsLimit_iff (by decide) [] 4).mpr ?_, by decide +kernel⟩
  intro left after _ late
  have twoReads : ReadOff (bufSize 4) [[97], [98, 98, 98], [99, 13, 10]]
      ([97] ++ ([98, 98, 98] ++ []) : Bytes) [[99, 13, 10]] := .cons rfl (.cons rfl (.nothing _))
  exact ⟨_, _, twoReads, by decide, Int.ofNat_lt.mp late⟩

/-- A line of 227 bytes is accepted if it comes as one byte and then the others, or if it is in
the buffer, and refused if it comes at once. -/
theorem longLine_accepted :
    ¬ RespectsLimit [[97], List.replicate 224 97 ++ [13, 10]] [] 226 ∧
      ¬ RespectsLimit [] (List.replicate 225 97 ++ [13, 10]) 226 ∧
      (scan [[97], List.replicate 224 97 ++ [13, 10]] [] 226).line =
        .ok (List.replicate 225 97) ∧
      (scan [] (List.replicate 225 97 ++ [13, 10]) 226).line = .ok (List.replicate 225 97) ∧
      (scan [List.replicate 225 97 ++ [13, 10]] [] 226).line = .error .delimiterMissing ∧
      Flowing [[97], List.replicate 224 97 ++ [13, 10]] := by
  have cut : (scan [[97], List.replicate 224 97 ++ [13, 10]] [] 226).line =
      .ok (List.replicate 225 97) := by decide +kernel
  have buffered : (scan [] (List.replicate 225 97 ++ [13, 10]) 226).line =
      .ok (List.replicate 225 97) := by decide +kernel
  refine ⟨fun respects => ?_, fun respects => ?_, cut, buffered, by decide +kernel,
    by decide +kernel⟩
  · exact absurd (respects.1.mp ⟨_, cut⟩) (by decide +kernel)
  · exact absurd (respects.1.mp ⟨_, buffered⟩) (by decide +kernel)

end Limit

/-! ## The bytes -/

/-- `Scan` loses and invents no byte: the line, its delimiter and the extra bytes are the
initial buffer and the bytes of some whole reads, and the line has no delimiter in it. -/
theorem scan_keeps_bytes {rdr rest : Reader} {b left right : Bytes} {limitBytes : Int}
    (returns : scan rdr b limitBytes = ⟨.ok left, right, rest⟩) :
    ∃ consumed, ReadOff (bufSize limitBytes) rdr consumed rest ∧
      left ++ [carriageReturn, newline] ++ right = b ++ consumed ∧
      ¬ [carriageReturn, newline] <:+: left := by
  have reads := scan_reads rdr b limitBytes
  rw [returns] at reads
  cases reads with
  | buffered _ _ found =>
      obtain ⟨parts, absent⟩ := split_eq_some_iff.mp found
      refine ⟨[], .nothing rdr, ?_, absent⟩
      rw [List.append_nil, parts, List.append_assoc]
      rfl
  | line before data _ _ middle _ earlier _ reads found =>
      obtain ⟨parts, absent⟩ := split_eq_some_iff.mp found
      refine ⟨before ++ data, earlier.snoc reads, ?_, absent⟩
      rw [parts, List.append_assoc]
      rfl

/-- The delimiter lies across the cut between two reads. -/
theorem scan_keeps_bytes_straddling :
    ∃ consumed, ReadOff (bufSize 9) [[97, 13], [10, 98], [99]] consumed [[99]] ∧
      [96, 97] ++ [carriageReturn, newline] ++ [98] = [96] ++ consumed ∧
      ¬ [carriageReturn, newline] <:+: ([96, 97] : Bytes) :=
  scan_keeps_bytes (by decide +kernel)

end Coolbeans
