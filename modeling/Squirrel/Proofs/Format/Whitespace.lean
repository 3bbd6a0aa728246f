import Squirrel.Proofs.Format.Output
import Squirrel.Proofs.Grammar.Location
import Squirrel.Proofs.Layout.Pacing

/-! The lines of a formatted text. -/

namespace Squirrel

open Layout

section Clear

variable {source : String} {token : Token}

theorem clear_of_solid {content : String} (solid : isSolid content.toList)
    (inLine : '\n' ∉ content.toList) : isClear content := by
  simpa [isClear, inLine] using trimEnd_ne_nil solid

theorem clear_comments (member : token ∈ (tokenize source).tokens)
    (inLine : ∀ comment ∈ token.comments, '\n' ∉ comment.text.toList) :
    areClear token.leading ∧ areClear token.trailing := by
  have own {trivia : List Trivia} (inside : trivia ⊆ token.leading ++ token.trailing) :
      areClear trivia := by
    refine List.all_eq_true.mpr fun comment held => ?_
    cases isComment : comment.isComment with
    | false => rfl
    | true =>
      have listed : comment ∈ token.comments := List.mem_filter.mpr ⟨inside held, isComment⟩
      exact clear_of_solid (solid_comment member listed) (inLine comment listed)
  exact ⟨own (List.subset_append_left _ _), own (List.subset_append_right _ _)⟩

theorem clear_token (member : token ∈ (tokenize source).tokens) (goesOn : token.kind ≠ .endOfInput)
    (inLine : '\n' ∉ token.text.toList ∧ ∀ comment ∈ token.comments, '\n' ∉ comment.text.toList) :
    token.isClear := by
  obtain ⟨before, after⟩ := clear_comments member inLine.2
  simp [Token.isClear, clear_of_solid (solid_token member goesOn) inLine.1, before, after]

theorem steady_parse [NestingLimit] (clean : (parse source).tree.errors = 0) :
    (parse source).tree.everywhere isSteady := by
  have settled : (parse source).tree.everywhere
      (fun label children => (lastComma? label children).all fun _ => true) :=
    Tree.everywhere_mono (fun label children _ => by simp) (composed_parse source)
  refine Tree.everywhere_mono (fun label children passes => ?_) (Tree.everywhere_both
    (accounts_parse clean settled) (Tree.everywhere_both (composed_parse source) (neat_parse source)))
  simp only [Bool.and_eq_true, Grammar.isNeat] at passes
  simp [isSteady, passes.1, passes.2.1, passes.2.2.2]

end Clear

section Printing

variable {source : String} {style : PageStyle}

theorem neat_printedText [NestingLimit] (indented : style.indentUnit.toList.all isTrailingBlank)
    (clean : (parse source).tree.errors = 0)
    (inLine : ∀ token ∈ (tokenize source).tokens, '\n' ∉ token.text.toList ∧
      ∀ comment ∈ token.comments, '\n' ∉ comment.text.toList) :
    printedText style source.toList (parse source).tree = [] ∨
      ∃ lines line, printedText style source.toList (parse source).tree = endedText lines ++ line ∧
        AreNeat (lines ++ [line]) ∧ line ≠ [] := by
  obtain ⟨trees, last, shape, isProgram⟩ := parse_isProgram source
  have steady := steady_parse clean
  have tokens : (tokenize source).tokens = Tree.tokensOf trees ++ [last] := isProgram.split
  have front : ∀ token ∈ Tree.tokensOf trees, token.isClear := by
    have goesOn : Grammar.Closed (Tree.tokensOf trees ++ [last]) := tokens ▸ closed_tokenize source
    intro token member
    have listed : token ∈ (tokenize source).tokens := by rw [tokens]; exact List.mem_append_left _ member
    exact clear_token listed (goesOn.front token member) (inLine token listed)
  have ends : areClear last.leading := by
    have listed : last ∈ (tokenize source).tokens := by simp [tokens]
    exact (clear_comments listed (inLine last listed).2).1
  rw [shape] at steady
  rw [shape]
  unfold printedText layoutEvents
  rw [Sheet.playAll_append]
  rcases leads_document indented source.toList steady front ends with empty | leads
  · left
    rw [← (Doc.amounts_row _).laid, empty]
    rfl
  · right
    exact ((leads _ _ _ _ Sheet.paced_blank).flush style).lines

theorem toList_finish_full (options : FormatOptions) {text : List Char} (full : text ≠ []) :
    (options.finish (String.ofList text)).toList =
      text ++ if options.insertFinalNewline then ['\n'] else [] := by
  have present : String.ofList text ≠ "" := by simpa using full
  unfold FormatOptions.finish
  cases options.insertFinalNewline <;> simp [present]

end Printing

/-- Formatted text has canonical whitespace, if no token and no comment goes over the end of its line: no
line of it ends in a blank, it starts with no empty line and has no two of them in a row, and it is
empty or ends in the one line feed that is asked for. -/
theorem format_whitespace [NestingLimit] (options : FormatOptions) (source : String)
    (indented : options.indent.toList.all isTrailingBlank = true)
    (quiet : (parse source).diagnostics = [])
    (shallow : layoutFits source (parse source).tree = true)
    (inLine : ∀ token ∈ (tokenize source).tokens, '\n' ∉ token.text.toList ∧
      ∀ comment ∈ token.comments, '\n' ∉ comment.text.toList) :
    let text := (format options source).toList
    (∀ line ∈ text.splitOn '\n', line.getLast? ≠ some ' ' ∧ line.getLast? ≠ some '\t') ∧
      (text ≠ [] → (text.splitOn '\n').head? ≠ some []) ∧
      ¬ [[], []] <:+: text.splitOn '\n' ∧
      (text = [] ∨ ∃ front c, c ≠ '\n' ∧
        text = front ++ [c] ++ if options.insertFinalNewline then ['\n'] else []) := by
  have clean := errors_of_quiet quiet
  have formatted : format options source = options.finish
      (String.ofList (printedText options.pageStyle source.toList (parse source).tree)) := by
    rw [format_eq, if_pos shallow]
  rcases @neat_printedText source options.pageStyle _ indented clean inLine with
    empty | ⟨lines, line, printed, neat, full⟩
  · have nothing : (format options source).toList = [] := by simp [formatted, empty, FormatOptions.finish]
    have alone : ¬ [[], []] <:+: [([] : List Char)] := by decide
    simp [nothing, alone]
  · have whole : (format options source).toList =
        endedText lines ++ line ++ if options.insertFinalNewline then ['\n'] else [] := by
      rw [formatted, printed, toList_finish_full options (by simp [full])]
    have split := neat.splitOn full options.insertFinalNewline
    rw [← whole] at split
    intro text
    refine ⟨fun line member => ?_, fun _ => split.starts, split.apart, .inr ?_⟩
    · have last := isTrailingBlank_getLast? (split.trimmed line member)
      exact ⟨fun isSpace => absurd (last _ isSpace) (by decide), fun isTab => absurd (last _ isTab) (by decide)⟩
    · obtain ⟨front, c, rfl⟩ := List.eq_nil_or_concat line |>.resolve_left full
      refine ⟨endedText lines ++ front, c, ?_, ?_⟩
      · rintro rfl
        exact neat.inLine _ (List.mem_append_right _ (List.mem_singleton_self _)) (by simp)
      · simpa using whole

theorem format_whitespace_blank_lines :
    format .standard "\n\nlocal a = 1 \n\n\n// one \n\nfoo( a,/*two*/\nb )\n\n" =
        "local a = 1\n\n// one\n\nfoo(a, /*two*/ b)\n" ∧
      ¬ [[], []] <:+: "local a = 1\n\n// one\n\nfoo(a, /*two*/ b)\n".toList.splitOn '\n' := by
  have formatted : format .standard "\n\nlocal a = 1 \n\n\n// one \n\nfoo( a,/*two*/\nb )\n\n" =
      "local a = 1\n\n// one\n\nfoo(a, /*two*/ b)\n" := by
    decide +kernel
  refine ⟨formatted, ?_⟩
  rw [← formatted]
  exact (format_whitespace .standard _ (by decide) (by decide +kernel) (by decide +kernel)
    (by decide +kernel)).2.2.1

end Squirrel
