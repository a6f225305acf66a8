import Mathlib.Data.List.Basic

/-!
# Query strings

The escaping of the components of a query string, over bytes: unreserved bytes are
kept, a blank is written as a plus sign, every other byte as a percent sign and two
hexadecimal digits.  A component reads back as what was written, and none of the
separators of a query string occurs in it.
-/

namespace QueryString

abbrev Bytes := List UInt8

/-- Letters, digits, and the four marks that are never escaped. -/
def isUnreserved (b : UInt8) : Bool :=
  97 ≤ b && b ≤ 122 || 65 ≤ b && b ≤ 90 || 48 ≤ b && b ≤ 57 || [45, 95, 46, 126].contains b

def hexDigit (value : Nat) : UInt8 :=
  UInt8.ofNat (if value < 10 then 48 + value else 55 + value)

def hexValue (digit : UInt8) : Option Nat :=
  if 48 ≤ digit && digit ≤ 57 then some (digit.toNat - 48)
  else if 65 ≤ digit && digit ≤ 70 then some (digit.toNat - 55)
  else if 97 ≤ digit && digit ≤ 102 then some (digit.toNat - 87)
  else none

def escapeByte (b : UInt8) : Bytes :=
  if isUnreserved b then [b]
  else if b = 32 then [43]
  else [37, hexDigit (b.toNat / 16), hexDigit (b.toNat % 16)]

def escape (component : Bytes) : Bytes :=
  component.flatMap escapeByte

def unescape : Bytes → Option Bytes
  | [] => some []
  | b :: rest =>
      if b = 37 then
        match rest with
        | high :: low :: more => do
            let high ← hexValue high
            let low ← hexValue low
            let more ← unescape more
            return UInt8.ofNat (16 * high + low) :: more
        | _ => none
      else (unescape rest).map fun more => (if b = 43 then 32 else b) :: more

/-- A name and a value, at the first equals sign. -/
def parsePair (pair : Bytes) : Option (Bytes × Bytes) := do
  let name ← unescape (pair.takeWhile (· ≠ 61))
  let value ← unescape ((pair.dropWhile (· ≠ 61)).drop 1)
  return (name, value)

/-- The pairs of a query string.  Empty and malformed ones are skipped. -/
def parse (query : Bytes) : List (Bytes × Bytes) :=
  ((query.splitOn 38).filter (· ≠ [])).filterMap parsePair

/-- The first value of a name, and the empty value when there is none. -/
def get (name : Bytes) (pairs : List (Bytes × Bytes)) : Bytes :=
  (pairs.lookup name).getD []

def writePair (name value : Bytes) : Bytes :=
  escape name ++ 61 :: escape value

theorem unescape_cons {b : UInt8} (notPercent : b ≠ 37) (rest : Bytes) :
    unescape (b :: rest) =
      (unescape rest).map fun more => (if b = 43 then 32 else b) :: more := by
  rw [unescape.eq_def]
  exact if_neg notPercent

theorem hexValue_hexDigit : ∀ value < 16, hexValue (hexDigit value) = some value := by
  decide

theorem unescape_escapeByte (b : UInt8) (rest : Bytes) :
    unescape (escapeByte b ++ rest) = (unescape rest).map (b :: ·) := by
  unfold escapeByte
  split
  case isTrue unreserved =>
    have notPercent : b ≠ 37 := by
      rintro rfl
      exact absurd unreserved (by decide)
    have notPlus : b ≠ 43 := by
      rintro rfl
      exact absurd unreserved (by decide)
    rw [List.singleton_append, unescape_cons notPercent]
    simp [notPlus]
  case isFalse =>
    split
    case isTrue blank =>
      subst blank
      rw [List.singleton_append, unescape_cons (by decide)]
      simp
    case isFalse =>
      have size := b.toNat_lt
      simp only [List.cons_append, List.nil_append]
      rw [unescape, if_pos rfl]
      simp only [hexValue_hexDigit (b.toNat / 16) (by omega),
        hexValue_hexDigit (b.toNat % 16) (by omega), Option.bind_eq_bind, Option.bind_some,
        Nat.div_add_mod, UInt8.ofNat_toNat]
      cases unescape rest <;> rfl

/-- A component reads back as what was written. -/
theorem unescape_escape (component : Bytes) : unescape (escape component) = some component := by
  induction component with
  | nil => rfl
  | cons b rest induction =>
      rw [escape, List.flatMap_cons, ← escape, unescape_escapeByte, induction, Option.map_some]

/-- The separators of a query string do not occur in a component. -/
theorem not_mem_escape {separator : UInt8} (isSeparator : separator = 38 ∨ separator = 61)
    (component : Bytes) : separator ∉ escape component := by
  intro member
  obtain ⟨b, _, inByte⟩ := List.mem_flatMap.mp member
  unfold escapeByte at inByte
  split at inByte
  case isTrue unreserved =>
    obtain rfl := List.mem_singleton.mp inByte
    rcases isSeparator with rfl | rfl <;> exact absurd unreserved (by decide)
  case isFalse =>
    split at inByte
    case isTrue =>
      obtain rfl := List.mem_singleton.mp inByte
      exact absurd isSeparator (by decide)
    case isFalse =>
      have digits : ∀ value < 16, hexDigit value ≠ 38 ∧ hexDigit value ≠ 61 := by decide
      have size := b.toNat_lt
      obtain ⟨highAmp, highEq⟩ := digits (b.toNat / 16) (by omega)
      obtain ⟨lowAmp, lowEq⟩ := digits (b.toNat % 16) (by omega)
      simp only [List.mem_cons, List.not_mem_nil, or_false] at inByte
      rcases isSeparator with rfl | rfl <;> rcases inByte with percent | high | low
      · exact absurd percent (by decide)
      · exact highAmp high.symm
      · exact lowAmp low.symm
      · exact absurd percent (by decide)
      · exact highEq high.symm
      · exact lowEq low.symm

theorem parsePair_writePair (name value : Bytes) :
    parsePair (writePair name value) = some (name, value) := by
  have noEquals : ∀ b ∈ escape name, b ≠ 61 := by
    rintro b member rfl
    exact not_mem_escape (.inr rfl) name member
  have taken : (writePair name value).takeWhile (· ≠ 61) = escape name := by
    rw [writePair, List.takeWhile_append_of_pos (by simpa using noEquals)]
    simp
  have dropped : (writePair name value).dropWhile (· ≠ 61) = 61 :: escape value := by
    rw [writePair, List.dropWhile_append_of_pos (by simpa using noEquals)]
    simp
  unfold parsePair
  rw [taken, dropped, unescape_escape, List.drop_one, List.tail_cons, unescape_escape]
  rfl

theorem not_mem_writePair (name value : Bytes) : 38 ∉ writePair name value := by
  rw [writePair, List.mem_append, List.mem_cons]
  rintro (inName | equals | inValue)
  · exact not_mem_escape (.inl rfl) name inName
  · exact absurd equals (by decide)
  · exact not_mem_escape (.inl rfl) value inValue

/-- Two pairs read back as what was written. -/
theorem parse_writePairs (name value otherName otherValue : Bytes) :
    parse (writePair name value ++ 38 :: writePair otherName otherValue) =
      [(name, value), (otherName, otherValue)] := by
  have parts : (writePair name value ++ 38 :: writePair otherName otherValue).splitOn 38 =
      [writePair name value, writePair otherName otherValue] := by
    have joined := List.splitOn_intercalate (38 : UInt8)
      (show ∀ pair ∈ [writePair name value, writePair otherName otherValue], 38 ∉ pair by
        simp [not_mem_writePair]) (by simp)
    simpa using joined
  have nonempty : ∀ name value, writePair name value ≠ [] := by simp [writePair]
  simp [parse, parts, nonempty, parsePair_writePair]

end QueryString
