import Mathlib.Data.List.Basic

/-!
# Words of a spaced line

The words of a list are its longest non-empty stretches without a separator.  A gap
between two words is wide if two separators stand next to each other in it.
-/

namespace SpacedWords

variable {α : Type} {space : α → Bool}

/-- The words of a line, in order. -/
def words (space : α → Bool) (line : List α) : List (List α) :=
  (line.splitOnP space).filter fun word => !word.isEmpty

@[simp] theorem words_nil : words space [] = [] := by
  simp [words]

theorem words_append_cons {s : α} (isSpace : space s = true) (first second : List α) :
    words space (first ++ s :: second) = words space first ++ words space second := by
  simp only [words]
  rw [List.splitOnP_append_cons first second isSpace, List.filter_append]

theorem words_spaces_append {run : List α} (spaces : ∀ s ∈ run, space s = true)
    (rest : List α) : words space (run ++ rest) = words space rest := by
  induction run with
  | nil => rfl
  | cons s run induction =>
      have first := words_append_cons (spaces s List.mem_cons_self) [] (run ++ rest)
      rw [words_nil, List.nil_append, List.nil_append] at first
      rw [List.cons_append, first]
      exact induction fun t member => spaces t (List.mem_cons_of_mem s member)

theorem words_append_spaces {run : List α} (spaces : ∀ s ∈ run, space s = true)
    (line : List α) : words space (line ++ run) = words space line := by
  cases run with
  | nil => rw [List.append_nil]
  | cons s run =>
      have tail : words space run = [] := by
        have gone := words_spaces_append
          (fun t member => spaces t (List.mem_cons_of_mem s member)) []
        rwa [List.append_nil, words_nil] at gone
      rw [words_append_cons (spaces s List.mem_cons_self), tail, List.append_nil]

theorem words_of_word {word : List α} (nonempty : word ≠ [])
    (solid : ∀ a ∈ word, space a = false) : words space word = [word] := by
  simp only [words]
  rw [List.splitOnP_eq_singleton solid]
  simp [nonempty]

/-- Letters put in front of a word do not make another word. -/
theorem length_words_append_letter {letters : List α} (solid : ∀ a ∈ letters, space a = false)
    {b : α} (letter : space b = false) (rest : List α) :
    (words space (letters ++ b :: rest)).length = (words space (b :: rest)).length := by
  -- the first stretch is not empty, so it is counted with and without the letters
  obtain ⟨stretch, others, split⟩ := List.exists_cons_of_ne_nil (List.splitOnP_ne_nil space rest)
  have whole : ∃ word,
      (letters ++ b :: rest).splitOnP space = (word ++ b :: stretch) :: others := by
    induction letters with
    | nil => exact ⟨[], by simp [List.splitOnP_cons_eq_if_modifyHead, letter, split]⟩
    | cons a letters induction =>
        obtain ⟨word, induction⟩ :=
          induction fun c member => solid c (List.mem_cons_of_mem a member)
        exact ⟨a :: word, by
          simp [List.splitOnP_cons_eq_if_modifyHead, solid a List.mem_cons_self, induction]⟩
  obtain ⟨word, whole⟩ := whole
  simp [words, whole, List.splitOnP_cons_eq_if_modifyHead, letter, split]

/-- Somewhere between two words there are two separators next to each other. -/
def WideGap (space : α → Bool) (line : List α) : Prop :=
  ∃ before s t after, line = before ++ s :: t :: after ∧ space s = true ∧ space t = true ∧
    (∃ a ∈ before, space a = false) ∧ ∃ b ∈ after, space b = false

/-- Separators next to each other behind a word, and whatever follows them. -/
def WideEnd (space : α → Bool) (line : List α) : Prop :=
  ∃ before s t after, line = before ++ s :: t :: after ∧ space s = true ∧ space t = true ∧
    ∃ a ∈ before, space a = false

/-- A letter parts the wide gaps of a line into those before it and those behind it. -/
theorem wideGap_append_letter {b : α} (letter : space b = false) (front rest : List α) :
    WideGap space (front ++ b :: rest) ↔
      WideEnd space front ∨ WideGap space (b :: rest) := by
  constructor
  · rintro ⟨before, s, t, after, parts, isSpace, alsoSpace, wordBefore, wordAfter⟩
    rcases List.append_eq_append_iff.mp parts with
      ⟨between, rfl, behind⟩ | ⟨between, rfl, ahead⟩
    case inl =>
      cases between with
      | nil =>
          obtain ⟨rfl, -⟩ := List.cons.inj behind
          simp [letter] at isSpace
      | cons c between =>
          obtain ⟨rfl, -⟩ := List.cons.inj behind
          exact .inr ⟨b :: between, s, t, after, behind, isSpace, alsoSpace,
            ⟨b, List.mem_cons_self, letter⟩, wordAfter⟩
    case inr =>
      rcases between with _ | ⟨c, _ | ⟨d, between⟩⟩
      case nil =>
        obtain ⟨rfl, -⟩ := List.cons.inj ahead
        simp [letter] at isSpace
      case cons.nil =>
        obtain ⟨-, afterFirst⟩ := List.cons.inj ahead
        obtain ⟨rfl, -⟩ := List.cons.inj afterFirst
        simp [letter] at alsoSpace
      case cons.cons =>
        obtain ⟨rfl, afterFirst⟩ := List.cons.inj ahead
        obtain ⟨rfl, -⟩ := List.cons.inj afterFirst
        exact .inl ⟨before, s, t, between, rfl, isSpace, alsoSpace, wordBefore⟩
  · rintro (⟨before, s, t, after, rfl, isSpace, alsoSpace, wordBefore⟩ |
      ⟨before, s, t, after, parts, isSpace, alsoSpace, ⟨a, member, solid⟩, wordAfter⟩)
    · exact ⟨before, s, t, after ++ b :: rest, by simp, isSpace, alsoSpace, wordBefore,
        ⟨b, by simp, letter⟩⟩
    · exact ⟨front ++ before, s, t, after, by simp [parts], isSpace, alsoSpace,
        ⟨a, List.mem_append_right front member, solid⟩, wordAfter⟩

section Run

variable {word run : List α}
variable (solid : ∀ a ∈ word, space a = false) (spaces : ∀ s ∈ run, space s = true)
include solid spaces

omit spaces in
/-- Two separators next to each other in a word and the run behind it are in the run. -/
theorem separators_in_run {before after : List α} {s t : α}
    (parts : word ++ run = before ++ s :: t :: after) (isSpace : space s = true) :
    ∃ between, run = between ++ s :: t :: after := by
  rcases List.append_eq_append_iff.mp parts with ⟨between, -, inRun⟩ | ⟨between, inWord, behind⟩
  case inl => exact ⟨between, inRun⟩
  case inr =>
    cases between with
    | nil => exact ⟨[], behind.symm⟩
    | cons c between =>
        obtain ⟨rfl, -⟩ := List.cons.inj behind
        have letter := solid s (by simp [inWord])
        simp [letter] at isSpace

theorem wideEnd_iff : WideEnd space (word ++ run) ↔ word ≠ [] ∧ 2 ≤ run.length := by
  constructor
  · rintro ⟨before, s, t, after, parts, isSpace, -, a, member, letter⟩
    obtain ⟨between, inRun⟩ := separators_in_run solid parts isSpace
    have long : 2 ≤ run.length := by
      simp only [inRun, List.length_append, List.length_cons]
      omega
    refine ⟨?_, long⟩
    rintro rfl
    have isSpace := spaces a (by
      rw [List.nil_append] at parts
      exact parts ▸ List.mem_append_left _ member)
    simp [letter] at isSpace
  · rintro ⟨nonempty, long⟩
    obtain ⟨a, member⟩ := List.exists_mem_of_ne_nil word nonempty
    match run, long with
    | s :: t :: after, _ =>
        exact ⟨word, s, t, after, rfl, spaces s (by simp), spaces t (by simp), a, member,
          solid a member⟩

/-- A single word and white space behind it have no gap. -/
theorem not_wideGap : ¬ WideGap space (word ++ run) := by
  rintro ⟨before, s, t, after, parts, isSpace, -, -, b, member, letter⟩
  obtain ⟨between, inRun⟩ := separators_in_run solid parts isSpace
  have isSpace := spaces b (by simp [inRun, member])
  simp [letter] at isSpace

end Run

end SpacedWords
