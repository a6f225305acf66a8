import Coolbeans.CommandLine
import Coolbeans.SpacedWords

/-!
# Tokens of a command line

`ParseCommandLine` removes the runs of two or more white-space bytes where it should
make one blank of them.  A line that it accepts keeps its tokens if and only if no two
tokens of the line have such a run between them; otherwise two tokens are glued into one.
-/

namespace Coolbeans

open SpacedWords

/-- The tokens of a line: its stretches between runs of white space. -/
abbrev tokensOf (line : Bytes) : List Bytes :=
  words isSpace line

/-! ## What `spaceRe` leaves of the tokens -/

/-- A line without a wide gap keeps its tokens; another one loses some. -/
def KeepsOrLoses (line left : Bytes) : Prop :=
  (¬ WideGap isSpace line ∧ tokensOf left = tokensOf line) ∨
    (WideGap isSpace line ∧ (tokensOf left).length < (tokensOf line).length)

theorem KeepsOrLoses.length_le {line left : Bytes} (outcome : KeepsOrLoses line left) :
    (tokensOf left).length ≤ (tokensOf line).length := by
  rcases outcome with ⟨-, kept⟩ | ⟨-, fewer⟩
  · exact (congrArg List.length kept).le
  · exact fewer.le

/-- The same tokens in front of both, and no further gap, change nothing. -/
theorem KeepsOrLoses.after {line left wholeLine wholeLeft : Bytes} (tokens : List Bytes)
    (outcome : KeepsOrLoses line left)
    (gaps : WideGap isSpace wholeLine ↔ WideGap isSpace line)
    (inLine : tokensOf wholeLine = tokens ++ tokensOf line)
    (inLeft : tokensOf wholeLeft = tokens ++ tokensOf left) :
    KeepsOrLoses wholeLine wholeLeft := by
  rcases outcome with ⟨narrow, kept⟩ | ⟨wide, fewer⟩
  · left
    exact ⟨mt gaps.mp narrow, by rw [inLine, inLeft, kept]⟩
  · right
    refine ⟨gaps.mpr wide, ?_⟩
    rw [inLine, inLeft, List.length_append, List.length_append]
    omega

/-- The scan of the line remembers the word it is in and the run of white space behind
that word. -/
theorem keepsOrLoses_removeSpaces {word run : Bytes} (rest : Bytes)
    (solid : ∀ b ∈ word, isSpace b = false) (spaces : ∀ b ∈ run, isSpace b = true) :
    KeepsOrLoses (word ++ run ++ rest) (word ++ removeSpaces run rest) := by
  induction rest generalizing word run with
  | nil =>
      left
      rw [removeSpaces, List.append_nil, List.append_nil]
      exact ⟨not_wideGap solid spaces, (words_append_spaces spaces word).symm⟩
  | cons b rest induction =>
      by_cases white : isSpace b = true
      case pos =>
        have longer : ∀ c ∈ run ++ [b], isSpace c = true := by
          simpa [or_imp, forall_and, white] using spaces
        have outcome := induction solid longer
        rw [removeSpaces, if_pos white]
        simpa only [List.append_assoc, List.singleton_append] using outcome
      case neg =>
        have letter : isSpace b = false := by simpa using white
        have alone : ∀ c ∈ [b], isSpace c = false := by simp [letter]
        have noRun : ∀ c ∈ ([] : Bytes), isSpace c = true := by simp
        have gaps := wideGap_append_letter letter (word ++ run) rest
        rw [wideEnd_iff solid spaces] at gaps
        have fromHere : KeepsOrLoses (b :: rest) (b :: removeSpaces [] rest) :=
          induction alone noRun
        have joined : KeepsOrLoses (word ++ b :: rest) (word ++ b :: removeSpaces [] rest) := by
          have longer : ∀ c ∈ word ++ [b], isSpace c = false := by
            simpa [or_imp, forall_and, letter] using solid
          have outcome := induction longer noRun
          simpa only [List.append_assoc, List.append_nil, List.singleton_append] using outcome
        rw [removeSpaces, if_neg white]
        rcases run with _ | ⟨s, _ | ⟨t, run⟩⟩
        case nil => simpa using joined
        case cons.nil =>
          -- a single separator stays
          have isSep := spaces s List.mem_cons_self
          apply fromHere.after (tokensOf word)
          · simpa using gaps
          · simpa using words_append_cons isSep word (b :: rest)
          · simpa using words_append_cons isSep word (b :: removeSpaces [] rest)
        case cons.cons =>
          have removed : (if (s :: t :: run).length = 1 then s :: t :: run else []) = [] := by
            simp
          rw [removed, List.nil_append]
          by_cases nonempty : word = []
          case pos =>
            subst nonempty
            apply fromHere.after []
            · simpa using gaps
            · exact words_spaces_append spaces (b :: rest)
            · rfl
          case neg =>
            have apart : tokensOf (word ++ s :: t :: run ++ b :: rest) =
                word :: tokensOf (b :: rest) := by
              have behind : ∀ c ∈ t :: run, isSpace c = true := fun c member =>
                spaces c (List.mem_cons_of_mem s member)
              have cut := words_append_cons (spaces s List.mem_cons_self) word
                (t :: run ++ b :: rest)
              rw [words_of_word nonempty solid, words_spaces_append behind] at cut
              simpa using cut
            right
            refine ⟨gaps.mpr (.inl ⟨nonempty, by simp⟩), ?_⟩
            calc (tokensOf (word ++ b :: removeSpaces [] rest)).length
              _ ≤ (tokensOf (word ++ b :: rest)).length := joined.length_le
              _ = (tokensOf (b :: rest)).length := length_words_append_letter solid letter rest
              _ < (tokensOf (word ++ s :: t :: run ++ b :: rest)).length := by
                rw [apart, List.length_cons]
                omega

/-- `spaceRe` keeps the tokens of exactly the lines without a wide gap. -/
theorem tokensOf_removeSpaces_iff (line : Bytes) :
    tokensOf (removeSpaces [] line) = tokensOf line ↔ ¬ WideGap isSpace line := by
  have noBytes (white : Bool) : ∀ b ∈ ([] : Bytes), isSpace b = white := by simp
  have outcome : KeepsOrLoses line (removeSpaces [] line) :=
    keepsOrLoses_removeSpaces line (noBytes false) (noBytes true)
  rcases outcome with ⟨narrow, kept⟩ | ⟨wide, fewer⟩
  · exact iff_of_true kept narrow
  · refine iff_of_false ?_ (not_not.mpr wide)
    intro kept
    rw [kept] at fewer
    omega

/-! ## The command and its arguments -/

/-- `splitRe` cuts at a white-space byte, the first one. -/
theorem splitTokens_cases (s : Bytes) :
    ∃ first, (∀ b ∈ first, isSpace b = false) ∧
      ((s = first ∧ splitTokens s = [first]) ∨
        ∃ b args, isSpace b = true ∧ s = first ++ b :: args ∧ splitTokens s = [first, args]) := by
  have solid : ∀ b ∈ s.takeWhile fun b => !isSpace b, isSpace b = false := by
    intro b member
    simpa using List.all_eq_true.mp List.all_takeWhile b member
  have whole : (s.takeWhile fun b => !isSpace b) ++ (s.dropWhile fun b => !isSpace b) = s :=
    List.takeWhile_append_dropWhile
  cases behind : s.dropWhile fun b => !isSpace b with
  | nil =>
      rw [behind, List.append_nil] at whole
      rw [whole] at solid
      exact ⟨s, solid, .inl ⟨rfl, by simp only [splitTokens, behind]⟩⟩
  | cons b args =>
      have stops := List.head_dropWhile_not (fun b => !isSpace b) (l := s) (by simp [behind])
      rw [behind] at whole
      exact ⟨_, solid, .inr ⟨b, args, by simpa [behind] using stops, whole.symm,
        by simp only [splitTokens, behind]⟩⟩

theorem kebabCase_ne_nil (c : CmdType) : kebabCase c.string ≠ [] := by
  cases c <;> decide

theorem name_of_lookup {name : Bytes} {c : CmdType}
    (found : commandTypeStrings.lookup name = some c) : name = kebabCase c.string := by
  obtain ⟨before, after, table, -⟩ := List.lookup_eq_some_iff.mp found
  have entry : (name, c) ∈ commandTypeStrings := by simp [table]
  obtain ⟨d, -, pair⟩ := List.mem_map.mp entry
  obtain ⟨rfl, rfl⟩ := Prod.mk.inj pair
  rfl

/-- An accepted line has been cut into the name of its command and its arguments. -/
theorem tokensOf_of_parsed {cmdLine : Bytes} {maxJobDataSizeBytes : Int} {cmd : CmdData}
    (parsed : parseCommandLine cmdLine maxJobDataSizeBytes = .ok cmd) :
    tokensOf (removeSpaces [] cmdLine) = kebabCase cmd.cmdType.string :: tokensOf cmd.args := by
  obtain ⟨found, rest, -⟩ := parseCommandLine_eq_ok parsed
  obtain ⟨first, solid, cut⟩ := splitTokens_cases (removeSpaces [] cmdLine)
  have one (known : commandTypeStrings.lookup first = some cmd.cmdType) :
      tokensOf first = [kebabCase cmd.cmdType.string] := by
    have name := name_of_lookup known
    rw [name] at solid ⊢
    exact words_of_word (kebabCase_ne_nil cmd.cmdType) solid
  rcases cut with ⟨whole, tokens⟩ | ⟨b, args, white, whole, tokens⟩
  · rw [tokens] at found rest
    rw [whole, one found, rest]
    rfl
  · rw [tokens] at found rest
    have apart : tokensOf (first ++ b :: args) = tokensOf first ++ tokensOf args :=
      words_append_cons white first args
    rw [whole, apart, one found, rest]
    rfl

/-- A line accepted as a command with arguments `a` has the name of the command and the
tokens of `a` as its tokens if and only if it has no wide gap between two tokens. -/
theorem parseCommandLine_keeps_tokens_iff {cmdLine : Bytes} {maxJobDataSizeBytes : Int}
    {cmd : CmdData} (parsed : parseCommandLine cmdLine maxJobDataSizeBytes = .ok cmd) :
    tokensOf cmdLine = kebabCase cmd.cmdType.string :: tokensOf cmd.args ↔
      ¬ WideGap isSpace cmdLine := by
  rw [← tokensOf_of_parsed parsed, ← tokensOf_removeSpaces_iff]
  exact eq_comm

/-- White space at both ends of a line is no gap. -/
theorem parseCommandLine_keeps_tokens_iff_releaseBetweenBlanks :
    tokensOf (text "  release 7 1 0 ") = [text "release", text "7", text "1", text "0"] ∧
      ¬ WideGap isSpace (text "  release 7 1 0 ") := by
  let cmd : CmdData := { cmdType := .release, args := text "7 1 0" }
  have parsed : parseCommandLine (text "  release 7 1 0 ") 65535 = .ok cmd := by decide +kernel
  have tokens : tokensOf (text "  release 7 1 0 ") =
      kebabCase cmd.cmdType.string :: tokensOf cmd.args := by decide +kernel
  exact ⟨by decide +kernel, (parseCommandLine_keeps_tokens_iff parsed).mp tokens⟩

/-- Two blanks between two numerals: the line has three tokens, and it is accepted as a
delete of the job 12. -/
theorem twoBlanks_glue_tokens :
    tokensOf (text "delete 1  2") = [text "delete", text "1", text "2"] ∧
      parseCommandLine (text "delete 1  2") 65535 =
        .ok { cmdType := .delete, args := text "12" } ∧
      newIDArg { cmdType := .delete, args := text "12" } = .ok 12 ∧
      tokensOf (text "delete 1  2") ≠ text "delete" :: tokensOf (text "12") := by
  decide +kernel

end Coolbeans
