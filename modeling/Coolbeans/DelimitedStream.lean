import Mathlib.Data.List.Basic

/-!
# Streams cut at a two-symbol delimiter

A stream is cut at the first place where a symbol `cr` is followed by a symbol
`lf`.  `splitFirst` finds that place; `splitFirst_append` says where it is in a
stream that arrives in two parts, which is all that an incremental scanner has
to know: inside the first part, across the cut, or inside the second part.

A reader is the list of pieces that its successive reads can give.  A read of
at most `size` symbols takes the next piece, or the head of it when the piece
is longer; the end of the stream is the empty list.
-/

namespace DelimitedStream

variable {α : Type}

section Split

variable [DecidableEq α] {cr lf : α} {first second left right : List α}

/-- The symbols before and after the first delimiter. -/
def splitFirst (cr lf : α) : List α → Option (List α × List α)
  | [] => none
  | symbol :: rest =>
      if symbol = cr ∧ rest.head? = some lf then some ([], rest.tail)
      else (splitFirst cr lf rest).map fun parts => (symbol :: parts.1, parts.2)

/-- The lines of a stream, each without its delimiter, and the unfinished line at its
end. -/
def splitAll (cr lf : α) : List α → List (List α) × List α
  | [] => ([], [])
  | [symbol] => ([], [symbol])
  | symbol :: next :: rest =>
      if symbol = cr ∧ next = lf then
        ([] :: (splitAll cr lf rest).1, (splitAll cr lf rest).2)
      else
        match splitAll cr lf (next :: rest) with
        | ([], tail) => ([], symbol :: tail)
        | (line :: lines, tail) => ((symbol :: line) :: lines, tail)

theorem splitFirst_cons_cons {symbol next : α} {rest : List α}
    (apart : ¬(symbol = cr ∧ next = lf)) :
    splitFirst cr lf (symbol :: next :: rest) =
      (splitFirst cr lf (next :: rest)).map fun parts => (symbol :: parts.1, parts.2) := by
  rw [splitFirst]
  simp [apart]

/-- Where the first delimiter of a stream in two parts is. -/
theorem splitFirst_append (first second : List α) :
    splitFirst cr lf (first ++ second) =
      match splitFirst cr lf first with
      | some parts => some (parts.1, parts.2 ++ second)
      | none =>
          if first.getLast? = some cr ∧ second.head? = some lf then
            some (first.dropLast, second.tail)
          else (splitFirst cr lf second).map fun parts => (first ++ parts.1, parts.2) := by
  induction first with
  | nil => simp [splitFirst]
  | cons symbol rest induction =>
      cases rest with
      | nil => cases second <;> simp [splitFirst]
      | cons next rest =>
          rw [List.cons_append, splitFirst, induction]
          by_cases delimited : symbol = cr ∧ next = lf
          case pos => simp [splitFirst, delimited]
          case neg =>
            rw [splitFirst_cons_cons delimited]
            simp only [List.cons_append, List.head?_cons, Option.some.injEq, delimited, if_false,
              List.getLast?_cons_cons, List.dropLast_cons_cons]
            cases splitFirst cr lf (next :: rest) with
            | some parts => rfl
            | none =>
                simp only [Option.map_none]
                split
                case isTrue => rfl
                case isFalse => simp [Function.comp_def]

theorem splitFirst_append_of_some
    (found : splitFirst cr lf first = some (left, right)) (second : List α) :
    splitFirst cr lf (first ++ second) = some (left, right ++ second) := by
  rw [splitFirst_append, found]

/-- A delimiter across the cut comes before every delimiter of the second part. -/
theorem splitFirst_append_of_straddle
    (absent : splitFirst cr lf first = none)
    (straddle : first.getLast? = some cr ∧ second.head? = some lf) :
    splitFirst cr lf (first ++ second) = some (first.dropLast, second.tail) := by
  rw [splitFirst_append, absent]
  simp [straddle]

theorem splitFirst_append_of_apart
    (absent : splitFirst cr lf first = none)
    (apart : ¬(first.getLast? = some cr ∧ second.head? = some lf)) :
    splitFirst cr lf (first ++ second) =
      (splitFirst cr lf second).map fun parts => (first ++ parts.1, parts.2) := by
  rw [splitFirst_append, absent]
  simp [apart]

theorem splitFirst_of_second
    (absent : splitFirst cr lf first = none)
    (apart : ¬(first.getLast? = some cr ∧ second.head? = some lf))
    (found : splitFirst cr lf second = some (left, right)) :
    splitFirst cr lf (first ++ second) = some (first ++ left, right) := by
  rw [splitFirst_append_of_apart absent apart, found, Option.map_some]

theorem splitFirst_append_eq_none
    (absent : splitFirst cr lf first = none)
    (apart : ¬(first.getLast? = some cr ∧ second.head? = some lf))
    (absentSecond : splitFirst cr lf second = none) :
    splitFirst cr lf (first ++ second) = none := by
  rw [splitFirst_append_of_apart absent apart, absentSecond, Option.map_none]

theorem splitFirst_second_eq_none
    (absent : splitFirst cr lf (first ++ second) = none) : splitFirst cr lf second = none := by
  rw [splitFirst_append] at absent
  split at absent
  case h_1 => simp at absent
  case h_2 =>
    split at absent
    case isTrue => simp at absent
    case isFalse => exact Option.map_eq_none_iff.mp absent

/-- A delimiter that the first part does not contain is not far behind its end. -/
theorem length_lt_of_splitFirst_append
    (absent : splitFirst cr lf first = none)
    (found : splitFirst cr lf (first ++ second) = some (left, right)) :
    first.length < left.length + 2 := by
  by_cases straddle : first.getLast? = some cr ∧ second.head? = some lf
  case pos =>
    rw [splitFirst_append_of_straddle absent straddle, Option.some.injEq, Prod.mk.injEq] at found
    rw [← found.1, List.length_dropLast]
    omega
  case neg =>
    rw [splitFirst_append_of_apart absent straddle, Option.map_eq_some_iff] at found
    obtain ⟨parts, _, equal⟩ := found
    rw [← (Prod.mk.inj equal).1, List.length_append]
    omega

omit [DecidableEq α] in
theorem delimiter_infix_cons {symbol : α} {rest : List α} :
    [cr, lf] <:+: symbol :: rest ↔
      (symbol = cr ∧ rest.head? = some lf) ∨ [cr, lf] <:+: rest := by
  rw [List.infix_cons_iff, List.cons_prefix_cons]
  cases rest with
  | nil => simp
  | cons next rest => simp [eq_comm]

theorem splitFirst_eq_none_iff (stream : List α) :
    splitFirst cr lf stream = none ↔ ¬ [cr, lf] <:+: stream := by
  induction stream with
  | nil => simp [splitFirst]
  | cons symbol rest induction =>
      rw [splitFirst, delimiter_infix_cons]
      split
      case isTrue delimited => simp [delimited]
      case isFalse apart => simp [apart, induction]

theorem eq_of_splitFirst (found : splitFirst cr lf first = some (left, right)) :
    first = left ++ cr :: lf :: right ∧ splitFirst cr lf left = none := by
  induction first generalizing left with
  | nil => simp [splitFirst] at found
  | cons symbol rest induction =>
      rw [splitFirst] at found
      split at found
      case isTrue delimited =>
        obtain ⟨rfl, rfl⟩ := Prod.mk.inj (Option.some.inj found)
        obtain ⟨tail, rfl⟩ := List.head?_eq_some_iff.mp delimited.2
        exact ⟨by simp [delimited.1], rfl⟩
      case isFalse apart =>
        rw [Option.map_eq_some_iff] at found
        obtain ⟨parts, foundRest, equal⟩ := found
        obtain ⟨rfl, rfl⟩ := Prod.mk.inj equal
        obtain ⟨rfl, absent⟩ := induction foundRest
        refine ⟨rfl, ?_⟩
        rw [splitFirst, absent, if_neg, Option.map_none]
        rintro ⟨isFirst, next⟩
        refine apart ⟨isFirst, ?_⟩
        rw [List.head?_append, next, Option.some_or]

/-- What is found is the first delimiter. -/
theorem splitFirst_eq_some_iff (different : cr ≠ lf) :
    splitFirst cr lf first = some (left, right) ↔
      first = left ++ cr :: lf :: right ∧ ¬ [cr, lf] <:+: left := by
  rw [← splitFirst_eq_none_iff]
  constructor
  · exact eq_of_splitFirst
  · rintro ⟨rfl, absent⟩
    have untilHere : splitFirst cr lf (left ++ [cr]) = none :=
      splitFirst_append_eq_none absent (by simp [different]) (by simp [splitFirst])
    have found : splitFirst cr lf ((left ++ [cr]) ++ lf :: right) = _ :=
      splitFirst_append_of_straddle untilHere (by simp)
    simpa using found

theorem splitFirst_length (found : splitFirst cr lf first = some (left, right)) :
    first.length = left.length + right.length + 2 := by
  rw [(eq_of_splitFirst found).1, List.length_append, List.length_cons, List.length_cons]
  omega

theorem splitAll_eq (stream : List α) :
    splitAll cr lf stream =
      match splitFirst cr lf stream with
      | some parts => (parts.1 :: (splitAll cr lf parts.2).1, (splitAll cr lf parts.2).2)
      | none => ([], stream) := by
  induction stream with
  | nil => rfl
  | cons symbol rest induction =>
      cases rest with
      | nil => simp [splitAll, splitFirst]
      | cons next rest =>
          by_cases delimited : symbol = cr ∧ next = lf
          case pos => simp [splitAll, splitFirst, delimited]
          case neg =>
            rw [splitAll, if_neg delimited, induction, splitFirst_cons_cons delimited]
            cases splitFirst cr lf (next :: rest) with
            | none => rfl
            | some parts => rfl

theorem splitAll_of_none (absent : splitFirst cr lf first = none) :
    splitAll cr lf first = ([], first) := by
  rw [splitAll_eq, absent]

theorem splitAll_of_some (found : splitFirst cr lf first = some (left, right)) :
    splitAll cr lf first = (left :: (splitAll cr lf right).1, (splitAll cr lf right).2) := by
  rw [splitAll_eq, found]

end Split

/-! ## Readers -/

section Readers

variable {size : Nat} {pieces rest : List (List α)} {data : List α}

/-- One read of at most `size` symbols; nothing at the end of the stream. -/
def read (size : Nat) : List (List α) → Option (List α × List (List α))
  | [] => none
  | piece :: rest =>
      if piece.length ≤ size then some (piece, rest)
      else some (piece.take size, piece.drop size :: rest)

/-- Every read of the stream brings something. -/
def Flowing (pieces : List (List α)) : Prop :=
  ∀ piece ∈ pieces, piece ≠ []

instance [DecidableEq α] (pieces : List (List α)) : Decidable (Flowing pieces) := by
  unfold Flowing
  infer_instance

theorem flowing_nil : Flowing ([] : List (List α)) :=
  fun _ member => absurd member List.not_mem_nil

theorem Flowing.tail {piece : List α} (flowing : Flowing (piece :: rest)) : Flowing rest :=
  fun later member => flowing later (List.mem_cons_of_mem piece member)

/-- What a read takes and what it leaves make up the stream. -/
theorem read_flatten (reads : read size pieces = some (data, rest)) :
    pieces.flatten = data ++ rest.flatten := by
  cases pieces with
  | nil => simp [read] at reads
  | cons piece later =>
      simp only [read] at reads
      split at reads
      case isTrue =>
        obtain ⟨rfl, rfl⟩ := Prod.mk.inj (Option.some.inj reads)
        simp
      case isFalse =>
        obtain ⟨rfl, rfl⟩ := Prod.mk.inj (Option.some.inj reads)
        rw [List.flatten_cons, List.flatten_cons, ← List.append_assoc, List.take_append_drop]

theorem read_flowing (flowing : Flowing pieces) (reads : read size pieces = some (data, rest)) :
    Flowing rest := by
  cases pieces with
  | nil => simp [read] at reads
  | cons piece later =>
      simp only [read] at reads
      split at reads
      case isTrue =>
        obtain ⟨rfl, rfl⟩ := Prod.mk.inj (Option.some.inj reads)
        exact flowing.tail
      case isFalse long =>
        obtain ⟨rfl, rfl⟩ := Prod.mk.inj (Option.some.inj reads)
        intro other member
        rcases List.mem_cons.mp member with rfl | member
        · intro empty
          rw [List.drop_eq_nil_iff] at empty
          exact long empty
        · exact flowing.tail other member

theorem read_ne_nil (flowing : Flowing pieces) (positive : 0 < size)
    (reads : read size pieces = some (data, rest)) : data ≠ [] := by
  cases pieces with
  | nil => simp [read] at reads
  | cons piece later =>
      have nonempty := flowing piece List.mem_cons_self
      simp only [read] at reads
      split at reads
      case isTrue =>
        obtain ⟨rfl, rfl⟩ := Prod.mk.inj (Option.some.inj reads)
        exact nonempty
      case isFalse =>
        obtain ⟨rfl, rfl⟩ := Prod.mk.inj (Option.some.inj reads)
        rw [Ne, List.take_eq_nil_iff]
        rintro (zero | absent)
        · omega
        · exact nonempty absent

theorem read_eq_none : read size pieces = none ↔ pieces = [] := by
  cases pieces with
  | nil => simp [read]
  | cons piece later =>
      simp only [read, reduceCtorEq, iff_false]
      split <;> simp

/-- What some whole reads have taken off the stream, and what they have left. -/
inductive ReadOff (size : Nat) : List (List α) → List α → List (List α) → Prop where
  | nothing (pieces : List (List α)) : ReadOff size pieces [] pieces
  | cons {pieces middle rest : List (List α)} {data consumed : List α}
      (reads : read size pieces = some (data, middle)) (later : ReadOff size middle consumed rest) :
      ReadOff size pieces (data ++ consumed) rest

namespace ReadOff

variable {consumed : List α}

theorem flatten (off : ReadOff size pieces consumed rest) :
    pieces.flatten = consumed ++ rest.flatten := by
  induction off with
  | nothing => rfl
  | cons reads later induction => rw [read_flatten reads, induction, List.append_assoc]

theorem flowing (off : ReadOff size pieces consumed rest) (flowing : Flowing pieces) :
    Flowing rest := by
  induction off with
  | nothing => exact flowing
  | cons reads later induction => exact induction (read_flowing flowing reads)

theorem snoc {middle : List (List α)} (off : ReadOff size pieces consumed middle)
    (reads : read size middle = some (data, rest)) :
    ReadOff size pieces (consumed ++ data) rest := by
  induction off with
  | nothing =>
      have last := ReadOff.cons reads (.nothing rest)
      rwa [List.append_nil] at last
  | cons first later induction =>
      rw [List.append_assoc]
      exact .cons first (induction reads)

/-- Whoever has read more has read the next piece too. -/
theorem next_le {middle others : List (List α)} {more : List α}
    (off : ReadOff size pieces consumed middle) (reads : read size middle = some (data, rest))
    (further : ReadOff size pieces more others) (longer : consumed.length < more.length) :
    (consumed ++ data).length ≤ more.length := by
  induction off generalizing more with
  | nothing =>
      cases further with
      | nothing => simp at longer
      | cons first later =>
          rw [reads] at first
          cases first
          simp
  | cons first later induction =>
      cases further with
      | nothing => simp at longer
      | cons same further =>
          rw [first] at same
          cases same
          rw [List.length_append, List.length_append] at longer
          have := induction reads further (by omega)
          simp only [List.length_append] at this ⊢
          omega

end ReadOff

end Readers

end DelimitedStream
