import Coolbeans.DelimitedStream
import Coolbeans.JobRecord

/-!
# Scanning for the end of a line

`Scan` and `Discard` of the package `core`.  A reader is the list of what its
successive reads can bring; a read brings data or an error, never both, and the
only error is the end of the stream.  An empty piece is a read of no bytes.

The loops of the source have no bound of their own.  `Scan` keeps at least one
byte of every read that it goes on from and stops at its limit, `Discard` drops
at least one byte of the stream, and these numbers are the bounds here.
-/

namespace Coolbeans

open DelimitedStream

abbrev Reader := List Bytes

/-- The carriage return, the first byte of the delimiter. -/
def carriageReturn : UInt8 := 13

/-- The newline, the second byte of the delimiter. -/
def newline : UInt8 := 10

def readBufferSizeBytes : Int := 4 * 1024

inductive ScanErr where
  | eof
  | noData
  | delimiterMissing
  deriving DecidableEq, Repr

/-- The bytes left and right of the first delimiter. -/
def split (b : Bytes) : Option (Bytes × Bytes) :=
  splitFirst carriageReturn newline b

/-- What `Scan` returns, the line or an error and the extra bytes, and what is
left of the reader. -/
structure Scanned where
  line : Except ScanErr Bytes
  extra : Bytes
  rdr : Reader
  deriving DecidableEq

/-- The loop of `Scan`. -/
def scanLoop (bufSize : Nat) (limitBytes : Int) : Nat → Bytes → Bool → Reader → Scanned
  | 0, _, _, rdr => ⟨.error .delimiterMissing, [], rdr⟩
  | rounds + 1, buf, isLastByteCarriageReturn, rdr =>
      if buf.length < limitBytes then
        match read bufSize rdr with
        | none => ⟨.error .eof, [], []⟩
        | some ([], rest) => ⟨.error .noData, buf, rest⟩
        | some (first :: more, rest) =>
            -- the delimiter on a buffer boundary
            if isLastByteCarriageReturn && first = newline then ⟨.ok buf.dropLast, more, rest⟩
            else
              match split (first :: more) with
              | some (left, right) => ⟨.ok (buf ++ left), right, rest⟩
              | none =>
                  scanLoop bufSize limitBytes rounds (buf ++ first :: more)
                    ((first :: more).getLast? = some carriageReturn) rest
      else ⟨.error .delimiterMissing, [], rdr⟩

def scan (rdr : Reader) (b : Bytes) (limitBytes : Int) : Scanned :=
  match split b with
  | some (left, right) => ⟨.ok left, right, rdr⟩
  | none =>
      scanLoop (min readBufferSizeBytes limitBytes).toNat limitBytes limitBytes.toNat b
        (b.getLast? = some carriageReturn) rdr

/-- The loop of `Discard`. -/
def discardLoop : Nat → Bool → Reader → Except ScanErr Bytes × Reader
  | 0, _, rdr => (.error .eof, rdr)
  | rounds + 1, isLastByteCarriageReturn, rdr =>
      match read 1024 rdr with
      | none => (.error .eof, [])
      | some ([], rest) => (.error .noData, rest)
      | some (first :: more, rest) =>
          if isLastByteCarriageReturn && first = newline then (.ok more, rest)
          else
            match split (first :: more) with
            | some (_, right) => (.ok right, rest)
            | none =>
                discardLoop rounds ((first :: more).getLast? = some carriageReturn) rest

/-- `Discard` reads the bytes `b` first, and then the reader. -/
def discard (rdr : Reader) (b : Bytes) : Except ScanErr Bytes × Reader :=
  let mr := if b = [] then rdr else b :: rdr
  discardLoop (mr.flatten.length + 1) false mr

/-! ## What a scan reads -/

/-- The size of the reads of `Scan`. -/
def bufSize (limitBytes : Int) : Nat :=
  (min readBufferSizeBytes limitBytes).toNat

/-- What `Scan` takes off its reader, and what it returns. -/
inductive ScanReads (limitBytes : Int) (b : Bytes) (rdr : Reader) : Scanned → Prop
  | buffered (left extra : Bytes) (found : split b = some (left, extra)) :
      ScanReads limitBytes b rdr ⟨.ok left, extra, rdr⟩
  | line (before data left extra : Bytes) (middle rest : Reader)
      (earlier : ReadOff (bufSize limitBytes) rdr before middle)
      (short : (b ++ before).length < limitBytes)
      (reads : read (bufSize limitBytes) middle = some (data, rest))
      (found : split (b ++ (before ++ data)) = some (left, extra)) :
      ScanReads limitBytes b rdr ⟨.ok left, extra, rest⟩
  | ended (consumed : Bytes) (off : ReadOff (bufSize limitBytes) rdr consumed [])
      (absent : split (b ++ consumed) = none) (short : (b ++ consumed).length < limitBytes) :
      ScanReads limitBytes b rdr ⟨.error .eof, [], []⟩
  | nothing (consumed : Bytes) (middle rest : Reader)
      (off : ReadOff (bufSize limitBytes) rdr consumed middle)
      (short : (b ++ consumed).length < limitBytes)
      (reads : read (bufSize limitBytes) middle = some ([], rest)) :
      ScanReads limitBytes b rdr ⟨.error .noData, b ++ consumed, rest⟩
  | missing (consumed : Bytes) (rest : Reader)
      (off : ReadOff (bufSize limitBytes) rdr consumed rest)
      (absent : split (b ++ consumed) = none) (long : limitBytes ≤ (b ++ consumed).length) :
      ScanReads limitBytes b rdr ⟨.error .delimiterMissing, [], rest⟩

section Reads

variable {limitBytes : Int} {buf b : Bytes} {rdr rest : Reader}

/-- A scan that goes on after a read has made that read first. -/
theorem ScanReads.afterRead {data : Bytes} {scanned : Scanned}
    (short : buf.length < limitBytes)
    (reads : read (bufSize limitBytes) rdr = some (data, rest))
    (later : ScanReads limitBytes (buf ++ data) rest scanned) :
    ScanReads limitBytes buf rdr scanned := by
  cases later with
  | buffered left extra found =>
      refine .line [] data left extra rdr rest (.nothing rdr) ?_ reads found
      rw [List.append_nil]
      exact short
  | line before next left extra middle rest earlier short readsNext found =>
      rw [List.append_assoc] at short found
      refine .line (data ++ before) next left extra middle rest (.cons reads earlier) short
        readsNext ?_
      rw [List.append_assoc]
      exact found
  | ended consumed off absent short =>
      rw [List.append_assoc] at absent short
      exact .ended _ (.cons reads off) absent short
  | nothing consumed middle rest off short readsNothing =>
      rw [List.append_assoc] at short ⊢
      exact .nothing _ middle rest (.cons reads off) short readsNothing
  | missing consumed rest off absent long =>
      rw [List.append_assoc] at absent long
      exact .missing _ rest (.cons reads off) absent long

/-- The carried flag and the first byte of a read tell whether the delimiter lies
across the cut. -/
theorem straddles_iff {first : UInt8} {isLast : Bool} (more : Bytes)
    (flag : isLast = decide (buf.getLast? = some carriageReturn)) :
    (isLast && first = newline) = true ↔
      buf.getLast? = some carriageReturn ∧ (first :: more).head? = some newline := by
  simp [flag]

theorem scanLoop_reads {rounds : Nat} {isLast : Bool} (absent : split buf = none)
    (flag : isLast = decide (buf.getLast? = some carriageReturn))
    (enough : limitBytes ≤ buf.length + rounds) :
    ScanReads limitBytes buf rdr
      (scanLoop (bufSize limitBytes) limitBytes rounds buf isLast rdr) := by
  have gaveUp : ∀ {buf : Bytes} {rdr : Reader}, split buf = none → limitBytes ≤ buf.length →
      ScanReads limitBytes buf rdr ⟨.error .delimiterMissing, [], rdr⟩ := by
    intro buf rdr absent long
    exact .missing [] rdr (.nothing rdr) (by simpa using absent) (by simpa using long)
  induction rounds generalizing buf isLast rdr with
  | zero =>
      rw [scanLoop]
      exact gaveUp absent (by omega)
  | succ rounds induction =>
      rw [scanLoop]
      split
      case isFalse long => exact gaveUp absent (by omega)
      case isTrue short =>
        split
        case h_1 ended =>
          obtain rfl := read_eq_none.mp ended
          exact .ended [] (.nothing []) (by simpa using absent) (by simpa using short)
        case h_2 rest reads =>
          have nothing : ScanReads limitBytes buf rdr ⟨.error .noData, buf ++ [], rest⟩ :=
            .nothing [] rdr rest (.nothing rdr) (by simpa using short) reads
          rwa [List.append_nil] at nothing
        case h_3 first more rest reads =>
          apply ScanReads.afterRead short reads
          split
          case isTrue straddles =>
            have across := (straddles_iff more flag).mp straddles
            exact .buffered _ _ (splitFirst_append_of_straddle absent across)
          case isFalse notAcross =>
            have apart := mt (straddles_iff more flag).mpr notAcross
            split
            case h_1 left right found =>
              exact .buffered _ _ (splitFirst_of_second absent apart found)
            case h_2 none =>
              apply induction (splitFirst_append_eq_none absent apart none)
              · simp [List.getLast?_append]
              · rw [List.length_append, List.length_cons]
                omega

theorem scan_reads (rdr : Reader) (b : Bytes) (limitBytes : Int) :
    ScanReads limitBytes b rdr (scan rdr b limitBytes) := by
  rw [scan]
  split
  case h_1 left right found => exact .buffered left right found
  case h_2 absent => exact scanLoop_reads absent rfl (by omega)

end Reads

/-! ## What a scan finds -/

/-- What `Scan` can return on an input, for a reader that never reads nothing. -/
inductive ScanFinds (limitBytes : Int) (input : Bytes) : Scanned → Prop
  | line (left extra : Bytes) (rest : Reader)
      (found : split input = some (left, extra ++ rest.flatten)) (flowing : Flowing rest) :
      ScanFinds limitBytes input ⟨.ok left, extra, rest⟩
  | ended (absent : split input = none) (short : input.length < limitBytes) :
      ScanFinds limitBytes input ⟨.error .eof, [], []⟩
  | missing (consumed : Bytes) (rest : Reader) (parts : input = consumed ++ rest.flatten)
      (absent : split consumed = none) (long : limitBytes ≤ consumed.length)
      (flowing : Flowing rest) :
      ScanFinds limitBytes input ⟨.error .delimiterMissing, [], rest⟩

theorem ScanReads.finds {limitBytes : Int} {b : Bytes} {rdr : Reader} {scanned : Scanned}
    (reads : ScanReads limitBytes b rdr scanned) (flowing : Flowing rdr) :
    ScanFinds limitBytes (b ++ rdr.flatten) scanned := by
  cases reads with
  | buffered left extra found =>
      exact .line left extra rdr (splitFirst_append_of_some found rdr.flatten) flowing
  | line before data left extra middle rest earlier short reads found =>
      have off := earlier.snoc reads
      rw [off.flatten, ← List.append_assoc]
      exact .line left extra rest (splitFirst_append_of_some found rest.flatten)
        (off.flowing flowing)
  | ended consumed off absent short =>
      rw [off.flatten, List.flatten_nil, List.append_nil]
      exact .ended absent short
  | nothing consumed middle rest off short reads =>
      have positive : 0 < bufSize limitBytes := by
        rw [bufSize, readBufferSizeBytes]
        omega
      exact absurd rfl (read_ne_nil (off.flowing flowing) positive reads)
  | missing consumed rest off absent long =>
      rw [off.flatten, ← List.append_assoc]
      exact .missing _ rest rfl absent long (off.flowing flowing)

/-- `Scan` returns the bytes up to the first delimiter of its input; at the end of
the stream there was none, and it gives up only when it holds `limitBytes` bytes
without one. -/
theorem scan_finds {rdr : Reader} (flowing : Flowing rdr) (b : Bytes) (limitBytes : Int) :
    ScanFinds limitBytes (b ++ rdr.flatten) (scan rdr b limitBytes) :=
  (scan_reads rdr b limitBytes).finds flowing

theorem split_of_scan {rdr : Reader} {b line : Bytes} {limitBytes : Int} (flowing : Flowing rdr)
    (scanned : (scan rdr b limitBytes).line = .ok line) :
    ∃ after, split (b ++ rdr.flatten) = some (line, after) := by
  rcases equation : scan rdr b limitBytes with ⟨result, extra, rest⟩
  have finds := scan_finds flowing b limitBytes
  rw [equation] at finds scanned
  cases finds with
  | line left _ _ found =>
      obtain rfl := Except.ok.inj scanned
      exact ⟨_, found⟩
  | ended => cases scanned
  | missing => cases scanned

/-- A line that is there is returned, or the scan gives up. -/
theorem scan_line_or_missing {rdr : Reader} {b left after : Bytes} (flowing : Flowing rdr)
    (limitBytes : Int) (found : split (b ++ rdr.flatten) = some (left, after)) :
    (∃ extra rest, scan rdr b limitBytes = ⟨.ok left, extra, rest⟩ ∧
        extra ++ rest.flatten = after ∧ Flowing rest) ∨
      ∃ rest, scan rdr b limitBytes = ⟨.error .delimiterMissing, [], rest⟩ := by
  rcases equation : scan rdr b limitBytes with ⟨line, extra, rest⟩
  have finds := scan_finds flowing b limitBytes
  rw [equation] at finds
  cases finds with
  | line _ _ _ foundHere later =>
      obtain ⟨rfl, rfl⟩ := Prod.mk.inj (Option.some.inj (found.symm.trans foundHere))
      exact .inl ⟨extra, rest, rfl, rfl, later⟩
  | ended absent => simp [absent] at found
  | missing => exact .inr ⟨rest, rfl⟩

/-- The initial buffer or some read ends with the limit reached, before that many bytes. -/
def StopsBefore (limitBytes : Int) (b : Bytes) (rdr : Reader) (count : Nat) : Prop :=
  ∃ consumed rest, ReadOff (bufSize limitBytes) rdr consumed rest ∧
    limitBytes ≤ (b ++ consumed).length ∧ (b ++ consumed).length < count

/-- A delimiter that comes with a read that `Scan` makes is not preceded by a stop. -/
theorem ScanReads.not_stopsBefore {limitBytes : Int} {b left extra : Bytes} {rdr rest : Reader}
    (reads : ScanReads limitBytes b rdr ⟨.ok left, extra, rest⟩) :
    ¬ StopsBefore limitBytes b rdr (left.length + 2) := by
  rintro ⟨consumed, others, off, reached, early⟩
  rw [List.length_append] at reached early
  cases reads with
  | buffered _ _ found =>
      have := splitFirst_length found
      omega
  | line before data _ _ middle _ earlier short reads found =>
      -- the stop is after a later read, but the delimiter came with this one
      have further : (before ++ data).length ≤ consumed.length := by
        apply earlier.next_le reads off
        rw [List.length_append] at short
        omega
      have := splitFirst_length found
      rw [List.length_append] at this
      omega

/-- A line is scanned if there is no stop before the end of its delimiter. -/
theorem scan_goes_on {rdr : Reader} {b left after : Bytes} {limitBytes : Int}
    (flowing : Flowing rdr) (found : split (b ++ rdr.flatten) = some (left, after))
    (goesOn : ¬ StopsBefore limitBytes b rdr (left.length + 2)) :
    ∃ extra rest, scan rdr b limitBytes = ⟨.ok left, extra, rest⟩ ∧
      extra ++ rest.flatten = after ∧ Flowing rest := by
  refine (scan_line_or_missing flowing limitBytes found).resolve_right ?_
  rintro ⟨rest, gaveUp⟩
  have reads := scan_reads rdr b limitBytes
  rw [gaveUp] at reads
  cases reads with
  | missing consumed _ off absent reached =>
      rw [off.flatten, ← List.append_assoc] at found
      exact goesOn ⟨consumed, rest, off, reached, length_lt_of_splitFirst_append absent found⟩

/-- `Scan` accepts a line exactly if it does not stop before the end of its delimiter. -/
theorem scan_accepts_iff {rdr : Reader} {b left after : Bytes} (flowing : Flowing rdr)
    (limitBytes : Int) (found : split (b ++ rdr.flatten) = some (left, after)) :
    (∃ extra rest, scan rdr b limitBytes = ⟨.ok left, extra, rest⟩) ↔
      ¬ StopsBefore limitBytes b rdr (left.length + 2) := by
  constructor
  · rintro ⟨extra, rest, returns⟩
    have reads := scan_reads rdr b limitBytes
    rw [returns] at reads
    exact reads.not_stopsBefore
  · intro goesOn
    obtain ⟨extra, rest, returns, _⟩ := scan_goes_on flowing found goesOn
    exact ⟨extra, rest, returns⟩

theorem scan_line {rdr : Reader} {b left after : Bytes} {limitBytes : Int}
    (flowing : Flowing rdr) (found : split (b ++ rdr.flatten) = some (left, after))
    (within : left.length + 2 ≤ limitBytes) :
    ∃ extra rest, scan rdr b limitBytes = ⟨.ok left, extra, rest⟩ ∧
      extra ++ rest.flatten = after ∧ Flowing rest := by
  apply scan_goes_on flowing found
  rintro ⟨consumed, others, _, reached, early⟩
  omega

/-- Without a delimiter in the input, a scan ends at the limit or at the end of the
stream. -/
theorem scan_tail {rdr : Reader} {b : Bytes} (limitBytes : Int)
    (flowing : Flowing rdr) (absent : split (b ++ rdr.flatten) = none) :
    (scan rdr b limitBytes = ⟨.error .eof, [], []⟩ ∧ (b ++ rdr.flatten).length < limitBytes) ∨
      ∃ rest, scan rdr b limitBytes = ⟨.error .delimiterMissing, [], rest⟩ ∧
        limitBytes ≤ (b ++ rdr.flatten).length ∧ split rest.flatten = none ∧ Flowing rest ∧
        rest.flatten.length ≤ (b ++ rdr.flatten).length := by
  rcases equation : scan rdr b limitBytes with ⟨line, extra, rest⟩
  have finds := scan_finds flowing b limitBytes
  rw [equation] at finds
  cases finds with
  | line _ _ _ found => simp [absent] at found
  | ended _ short => exact .inl ⟨rfl, short⟩
  | missing consumed _ parts absentHere long later =>
      right
      rw [parts] at absent ⊢
      refine ⟨rest, rfl, ?_, ?_, later, ?_⟩
      · rw [List.length_append]
        omega
      · exact splitFirst_second_eq_none absent
      · simp

/-! ## What is left after a discarded line -/

/-- What `Discard` can return on an input, for a reader that never reads nothing. -/
inductive DiscardFinds (input : Bytes) : Except ScanErr Bytes × Reader → Prop
  | line (left extra : Bytes) (rest : Reader)
      (found : split input = some (left, extra ++ rest.flatten)) (flowing : Flowing rest) :
      DiscardFinds input (.ok extra, rest)
  | ended (absent : split input = none) : DiscardFinds input (.error .eof, [])

theorem discardLoop_finds {rounds : Nat} {isLast : Bool} {rdr : Reader} (dropped : Bytes)
    (flowing : Flowing rdr) (absent : split dropped = none)
    (flag : isLast = decide (dropped.getLast? = some carriageReturn))
    (enough : rdr.flatten.length < rounds) :
    DiscardFinds (dropped ++ rdr.flatten) (discardLoop rounds isLast rdr) := by
  induction rounds generalizing dropped isLast rdr with
  | zero => omega
  | succ rounds induction =>
      rw [discardLoop]
      split
      case h_1 ended =>
        obtain rfl := read_eq_none.mp ended
        simp only [List.flatten_nil, List.append_nil]
        exact .ended absent
      case h_2 rest reads => exact absurd rfl (read_ne_nil flowing (by decide) reads)
      case h_3 first more rest reads =>
        have later := read_flowing flowing reads
        rw [read_flatten reads, List.length_append, List.length_cons] at enough
        rw [read_flatten reads]
        split
        case isTrue straddles =>
          have across := (straddles_iff more flag).mp straddles
          refine .line dropped.dropLast _ _ ?_ later
          rw [← List.append_assoc]
          exact splitFirst_append_of_some (splitFirst_append_of_straddle absent across) _
        case isFalse notAcross =>
          have apart := mt (straddles_iff more flag).mpr notAcross
          split
          case h_1 left right found =>
            refine .line (dropped ++ left) _ _ ?_ later
            rw [← List.append_assoc]
            exact splitFirst_append_of_some (splitFirst_of_second absent apart found) _
          case h_2 none =>
            rw [← List.append_assoc]
            apply induction _ later
            · exact splitFirst_append_eq_none absent apart none
            · simp [List.getLast?_append]
            · omega

/-- `Discard` leaves the bytes after the first delimiter of its input, or ends at the
end of the stream. -/
theorem discard_finds {rdr : Reader} (flowing : Flowing rdr) (b : Bytes) :
    DiscardFinds (b ++ rdr.flatten) (discard rdr b) := by
  unfold discard
  by_cases empty : b = []
  case pos =>
    subst empty
    exact discardLoop_finds [] flowing rfl rfl (by simp)
  case neg =>
    simp only [empty, if_false]
    rw [← List.flatten_cons]
    have flowingAll : Flowing (b :: rdr) := by
      intro piece member
      rcases List.mem_cons.mp member with rfl | member
      · exact empty
      · exact flowing piece member
    exact discardLoop_finds [] flowingAll rfl rfl (by omega)

/-- The bytes that remain to be processed after a discarded line: the returned buffer
and the unread stream.  Nothing remains at the end of the stream. -/
def leftToProcess : Except ScanErr Bytes × Reader → Option Bytes
  | (.ok extra, rest) => some (extra ++ rest.flatten)
  | (.error _, _) => none

theorem leftToProcess_discard {rdr : Reader} (flowing : Flowing rdr) (b : Bytes) :
    leftToProcess (discard rdr b) = (split (b ++ rdr.flatten)).map Prod.snd := by
  rcases equation : discard rdr b with ⟨result, rest⟩
  have finds := discard_finds flowing b
  rw [equation] at finds
  cases finds with
  | line left extra _ found => rw [found, leftToProcess, Option.map_some]
  | ended absent => rw [absent, leftToProcess, Option.map_none]

/-- After a scan that gave up, a discarded line leaves exactly the bytes after the first
delimiter of the scanned input, unless the scan gave up between the two bytes of that
delimiter. -/
theorem resynchronised_iff (rdr rest : Reader) (b extra consumed : Bytes) (limitBytes : Int)
    (flowing : Flowing rdr)
    (gaveUp : scan rdr b limitBytes = ⟨.error .delimiterMissing, extra, rest⟩)
    (parts : b ++ rdr.flatten = consumed ++ rest.flatten) :
    leftToProcess (discard rest extra) = (split (b ++ rdr.flatten)).map Prod.snd ↔
      ¬(consumed.getLast? = some carriageReturn ∧ rest.flatten.head? = some newline) := by
  have finds := scan_finds flowing b limitBytes
  rw [gaveUp] at finds
  cases finds with
  | missing taken _ takenParts absent _ later =>
      obtain rfl : consumed = taken :=
        List.append_cancel_right (parts.symm.trans takenParts)
      rw [leftToProcess_discard later, List.nil_append, parts]
      constructor
      · rintro same ⟨ends, starts⟩
        rw [split, split, splitFirst_append_of_straddle absent ⟨ends, starts⟩, Option.map_some,
          Option.map_eq_some_iff] at same
        obtain ⟨pieces, found, equal⟩ := same
        -- what follows the next delimiter is shorter than what follows the newline
        have shorter := splitFirst_length found
        rw [equal, List.length_tail] at shorter
        omega
      · intro apart
        rw [split, split, splitFirst_append_of_apart absent apart, Option.map_map]
        rfl

theorem resynchronised_longLine :
    leftToProcess (discard [[97], [13, 10, 98]] []) =
      (split ([] ++ [[97, 97], [97], [13, 10, 98]].flatten)).map Prod.snd :=
  (resynchronised_iff [[97, 97], [97], [13, 10, 98]] [[97], [13, 10, 98]] [] [] [97, 97] 2
    (by decide) (by decide) (by decide)).mpr (by decide)

/-- A command line of 227 bytes whose limit falls between the two bytes of its
delimiter: the command after it is discarded too. -/
theorem next_command_swallowed :
    let line := List.replicate 225 (97 : UInt8)
    let rdr := [line ++ [13], [10] ++ [113, 117, 105, 116, 13, 10]]
    let rest := [[10, 113, 117, 105, 116, 13, 10]]
    Flowing rdr ∧ scan rdr [] 226 = ⟨.error .delimiterMissing, [], rest⟩ ∧
      (split ([] ++ rdr.flatten)).map Prod.snd = some [113, 117, 105, 116, 13, 10] ∧
      leftToProcess (discard rest []) = some [] := by
  decide +kernel

end Coolbeans
