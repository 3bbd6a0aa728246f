import Squirrel.Proofs.Doc.Measure

/-! A group that is printed flat because it fits stands on a line that fits in the end. -/

namespace Squirrel

section Lines

def earlierLines (text : List Char) : List Char := (text.reverse.dropWhile (· ≠ '\n')).reverse

theorem earlierLines_append_lastLine (text : List Char) : earlierLines text ++ lastLine text = text := by
  unfold earlierLines lastLine
  rw [← List.reverse_append, List.takeWhile_append_dropWhile, List.reverse_reverse]

theorem not_mem_lastLine (text : List Char) : '\n' ∉ lastLine text := by
  intro member
  have := List.mem_takeWhile_imp (List.mem_reverse.mp member)
  simp at this

theorem earlierLines_cases (text : List Char) :
    earlierLines text = [] ∨ ∃ front, earlierLines text = front ++ ['\n'] := by
  unfold earlierLines
  cases rest : text.reverse.dropWhile (· ≠ '\n') with
  | nil => exact .inl rfl
  | cons c others =>
    have stops := List.head?_dropWhile_not (fun c : Char => decide (c ≠ '\n')) text.reverse
    rw [rest] at stops
    have isBreak : c = '\n' := by simpa using stops
    exact .inr ⟨others.reverse, by simp [isBreak]⟩

theorem trimEnd_earlierLines (text : List Char) : trimEnd (earlierLines text) = earlierLines text := by
  rcases earlierLines_cases text with empty | ⟨front, shape⟩
  · rw [empty]
    rfl
  · rw [shape, trimEnd_concat]
    rfl

theorem earlierLines_append {text : List Char} (inLine : '\n' ∉ text) (front : List Char) :
    earlierLines (front ++ text) = earlierLines front := by
  unfold earlierLines
  rw [List.reverse_append, List.dropWhile_append_of_pos (ne_break_of_mem (by simpa using inLine))]

theorem trimEnd_lines (text : List Char) :
    trimEnd text = earlierLines text ++ trimEnd (lastLine text) := by
  nth_rewrite 1 [← earlierLines_append_lastLine text]
  rw [trimEnd_append, trimEnd_earlierLines]
  split
  · next blank => rw [List.isEmpty_iff.mp blank, List.append_nil]
  · rfl

theorem trimEnd_keeps_start {front text : List Char} (ended : trimEnd front = front)
    (starts : front <+: text) : front <+: trimEnd text := by
  obtain ⟨rest, rfl⟩ := starts
  rw [trimEnd_append]
  split
  · rw [ended]
  · exact List.prefix_append _ _

theorem length_splitOn (c : Char) (text : List Char) :
    (text.splitOn c).length = text.count c + 1 := by
  induction text with
  | nil => rfl
  | cons first text ih =>
    rw [List.splitOn_cons_eq_if_modifyHead, List.count_cons]
    split <;> simp [ih]

theorem getElem?_splitOn {text line rest : List Char} (inLine : '\n' ∉ line)
    (ends : rest = [] ∨ ∃ more, rest = '\n' :: more) :
    ((earlierLines text ++ line ++ rest).splitOn '\n')[text.count '\n']? = some line := by
  have count : text.count '\n' = (earlierLines text).count '\n' := by
    nth_rewrite 1 [← earlierLines_append_lastLine text]
    rw [List.count_append, List.count_eq_zero.mpr (not_mem_lastLine text), Nat.add_zero]
  have first : ((line ++ rest).splitOn '\n')[0]? = some line := by
    rcases ends with rfl | ⟨more, rfl⟩
    · rw [List.append_nil, List.splitOn_eq_singleton inLine]
      rfl
    · rw [List.splitOn_append_cons_self, List.splitOn_eq_singleton inLine]
      rfl
  rw [count, List.append_assoc]
  rcases earlierLines_cases text with empty | ⟨front, shape⟩
  · rw [empty]
    exact first
  · rw [shape, List.append_assoc, List.singleton_append, List.splitOn_append_cons_self]
    have here : (front ++ ['\n']).count '\n' = (front.splitOn '\n').length := by
      rw [length_splitOn, List.count_append]
      rfl
    rw [here, List.getElem?_append_right (Nat.le_refl _), Nat.sub_self]
    exact first

end Lines

namespace Doc

def isCalm : Doc → Bool
  | .text content => !content.toList.contains '\n'
  | .line look => !look.fresh
  | .lineSuffix _ => false
  | _ => true

end Doc

namespace Machine

open Doc (isCalm)

variable {style : PageStyle}

theorem pendingFits_mono (tabs : 0 ≤ style.tabWidth) {commands : List Command} {narrow wide : Int}
    (room : 0 ≤ narrow) (le : narrow ≤ wide) (fits : pendingFits style commands narrow) :
    pendingFits style commands wide := by
  have tests := tests_pendingFits tabs commands
  have := (tests narrow room).mp fits
  exact (tests wide (by omega)).mpr (by omega)

variable {command : Command}

theorem pendingFits_opens {page : Page} {commands more : List Command}
    (opened : Opens style page commands command more)
    (fits : pendingFits style (command :: commands) (style.width - page.column)) :
    pendingFits style (more ++ commands) (style.width - page.column) := by
  change command.doc.fitsThen style command.mode (pendingFits style commands) _ = true at fits
  cases opened with
  | concat parts =>
    rw [pendingFits_parts]
    rwa [Doc.fitsThen] at fits
  | indent contents | broken broken flat | flat broken flat =>
    rw [Doc.fitsThen] at fits
    exact fits
  | @group level mode contents broken =>
    rw [Doc.fitsThen] at fits
    change contents.fitsThen style _ (pendingFits style commands) _
    unfold Doc.groupMode
    dsimp only
    split
    · next marked => rwa [if_pos marked] at fits
    · next unmarked =>
      rw [if_neg unmarked] at fits
      split
      · next flat => rwa [flat] at fits
      · next wide =>
        split
        · next chosen => exact (Bool.and_eq_true_iff.mp chosen).2
        · cases mode with
          | broken => exact fits
          | flat => exact absurd rfl wide
  | soft calm soft =>
    rw [Doc.fitsThen, if_neg (by simp [calm]), if_pos soft] at fits
    exact fits
  | breakParent | unknown value =>
    rw [Doc.fitsThen] at fits
    exact fits

theorem pendingFits_shows {commands : List Command} {text : List Char} {width : Int}
    (shown : Shows command text) (inLine : '\n' ∉ text)
    (fits : pendingFits style (command :: commands) width) :
    0 ≤ width - style.textWidth text ∧
      pendingFits style commands (width - style.textWidth text) := by
  change command.doc.fitsThen style command.mode (pendingFits style commands) width = true at fits
  cases shown with
  | text content =>
    have whole : content.toList.takeWhile (· ≠ '\n') = content.toList := by
      refine List.takeWhile_eq_self_iff.mpr fun c member => ?_
      have other : c ≠ '\n' := fun isBreak => inLine (isBreak ▸ member)
      simpa using other
    rw [Doc.fitsThen, whole, if_neg (by simpa using inLine), Bool.and_eq_true, decide_eq_true_eq] at fits
    exact fits
  | space calm hollow =>
    rw [Doc.fitsThen, if_neg (by simp [calm]), if_neg (by simp [hollow]), Bool.and_eq_true,
      decide_eq_true_eq] at fits
    exact fits

/-- Nothing waits, no text has more than one line, and the page knows the width of its last line. -/
structure Calm (style : PageStyle) (machine : Machine) : Prop where
  passes : machine.Passes isCalm
  measured : machine.page.Measured style

theorem textWidth_squeeze (page : Page) (text : List Char) :
    style.textWidth (page.squeeze text) ≤ style.textWidth text := by
  unfold Page.squeeze
  split
  · next rest =>
    split
    · have space : style.textWidth [' '] = 1 := rfl
      rw [← List.singleton_append, PageStyle.textWidth_append]
      omega
    · exact Int.le_refl _
  · exact Int.le_refl _

theorem column_write {page : Page} {text : List Char} (inLine : '\n' ∉ text) :
    (page.write style text).column = page.column + style.textWidth (page.squeeze text) := by
  have squeezed : '\n' ∉ page.squeeze text := fun member => inLine (Page.mem_squeeze member)
  unfold Page.write Page.append
  split
  · next empty => rw [List.isEmpty_iff.mp empty, PageStyle.textWidth_nil, Int.add_zero]
  · rw [if_neg (by simpa using squeezed)]

theorem Passes.inLine {page : Page} {commands suffixes : List Command} {text : List Char}
    (calm : Passes isCalm ⟨page, command :: commands, suffixes⟩) (shown : Shows command text) :
    '\n' ∉ text := by
  cases shown with
  | text content =>
    have own := (Bool.and_eq_true_iff.mp calm.commands).1
    simpa [Doc.everywhere, isCalm] using own
  | space => simp

variable {machine next : Machine}

theorem Moves.calm (unit : '\n' ∉ style.indentUnit.toList) (moved : Moves style machine next)
    (calm : machine.Calm style) : next.Calm style :=
  ⟨moved.passes (fun _ => rfl) calm.passes, moved.measured unit calm.measured⟩

/-- A machine has room for what it is yet to print on a line after some earlier ones, or has ended
the line, which is not too long. -/
inductive Fits (style : PageStyle) (earlier : List Char) (machine : Machine) : Prop where
  | going (calm : machine.Calm style) (same : earlierLines machine.page.text = earlier)
      (room : 0 ≤ style.width - machine.page.column)
      (fits : pendingFits style machine.commands (style.width - machine.page.column))
  | ended {line : List Char} (inLine : '\n' ∉ line) (narrow : style.textWidth line ≤ style.width)
      (printed : earlier ++ line ++ ['\n'] <+: machine.page.text)

theorem Moves.fits (tabs : 0 ≤ style.tabWidth) (unit : '\n' ∉ style.indentUnit.toList)
    {earlier : List Char} (moved : Moves style machine next) (fitted : machine.Fits style earlier) :
    next.Fits style earlier := by
  cases fitted with
  | going calm same room fits =>
    have calmNext := moved.calm unit calm
    have measured : machine.page.column = _ := calm.measured
    cases moved with
    | opens opened => exact .going calmNext same room (pendingFits_opens opened fits)
    | @writes page command commands suffixes text shown =>
      have inLine := calm.passes.inLine shown
      obtain ⟨left, later⟩ := pendingFits_shows shown inLine fits
      have squeezed : '\n' ∉ page.squeeze text := fun member => inLine (Page.mem_squeeze member)
      have shorter := @textWidth_squeeze style page text
      have column : (page.write style text).column = _ := column_write inLine
      dsimp only at left later same
      refine .going calmNext ?_ ?_ (pendingFits_mono tabs left ?_ later)
      · rw [Page.text_write, earlierLines_append squeezed, same]
      · rw [column]
        omega
      · rw [column]
        omega
    | @breaks page level =>
      have narrow := PageStyle.textWidth_le_of_start tabs (prefix_trimEnd (lastLine page.text))
      dsimp only at measured room same
      have inLine : '\n' ∉ trimEnd (lastLine page.text) :=
        fun member => not_mem_lastLine _ ((prefix_trimEnd _).subset member)
      refine .ended inLine (by omega) ?_
      rw [Page.text_newline, trimEnd_lines page.text, same]
      exact ⟨style.indentation level, by simp⟩
    | skips _ fresh =>
      have own := (Bool.and_eq_true_iff.mp calm.passes.commands).1
      simp [Doc.everywhere, isCalm, fresh] at own
    | defers => cases calm.passes.commands
    | flushes _ waiting | ends waiting => exact absurd calm.passes.suffixes waiting
  | @ended line inLine narrow printed =>
    have kept : trimEnd (earlier ++ line ++ ['\n']) = earlier ++ line ++ ['\n'] := by
      rw [trimEnd_concat]
      rfl
    refine .ended inLine narrow ?_
    cases moved with
    | opens | skips | defers | flushes | ends => exact printed
    | writes =>
      rw [Page.text_write]
      exact printed.trans (List.prefix_append _ _)
    | breaks =>
      rw [Page.text_newline]
      exact (trimEnd_keeps_start kept printed).trans (List.prefix_append _ _)

theorem Fits.trimmed (tabs : 0 ≤ style.tabWidth) {earlier : List Char}
    (fitted : machine.Fits style earlier) :
    ∃ line rest, trimEnd machine.page.text = earlier ++ line ++ rest ∧ '\n' ∉ line ∧
      style.textWidth line ≤ style.width ∧ (rest = [] ∨ ∃ more, rest = '\n' :: more) := by
  cases fitted with
  | going calm same room fits =>
    have narrow := PageStyle.textWidth_le_of_start tabs (prefix_trimEnd (lastLine machine.page.text))
    have measured : machine.page.column = _ := calm.measured
    refine ⟨trimEnd (lastLine machine.page.text), [], ?_, ?_, by omega, .inl rfl⟩
    · rw [trimEnd_lines, same, List.append_nil]
    · exact fun member => not_mem_lastLine _ ((prefix_trimEnd _).subset member)
  | @ended line inLine narrow printed =>
    have kept : trimEnd (earlier ++ line ++ ['\n']) = earlier ++ line ++ ['\n'] := by
      rw [trimEnd_concat]
      rfl
    obtain ⟨more, whole⟩ := trimEnd_keeps_start kept printed
    exact ⟨line, '\n' :: more, by rw [← whole]; simp, inLine, narrow, .inr ⟨more, rfl⟩⟩

end Machine

/-- When a group is printed flat since it fits, the line that it starts on is not longer in the end
than the page is wide, if nothing waits for the ends of lines and lines end only where a line of the
document does. -/
theorem Doc.flat_fits {doc : Doc} (known : doc.unknown? = none)
    (calm : doc.everywhere isCalm = true) (style : PageStyle) (tabs : 0 ≤ style.tabWidth)
    (unit : '\n' ∉ style.indentUnit.toList) {machine : Machine}
    (reached : StateTransition.Reaches (Machine.step style) doc.machine machine) {level : Nat}
    {contents : Doc} {commands : List Command}
    (next : machine.commands = ⟨level, .broken, .group contents false⟩ :: commands)
    (fits : (Command.mk level .flat contents).fits style commands
      (style.width - machine.page.column) = true) :
    ∃ page, doc.printFrom style .blank = .ok page ∧
      ∃ line, (page.text.splitOn '\n')[machine.page.text.count '\n']? = some line ∧
        style.textWidth line ≤ style.width := by
  have blind (doc : Doc) : isCalm doc.marked = isCalm doc := by cases doc <;> rfl
  have start : doc.machine.Calm style := ⟨Machine.passes_machine blind calm, rfl⟩
  have calmHere := Machine.reaches_keeps (fun moved => moved.calm unit) reached start
  obtain ⟨page, _, suffixes⟩ := machine
  dsimp only at next fits
  subst next
  obtain ⟨room, fits⟩ := Bool.and_eq_true_iff.mp fits
  have stepped : Machine.step style ⟨page, ⟨level, .broken, .group contents false⟩ :: commands, suffixes⟩ =
      some ⟨page, ⟨level, .flat, contents⟩ :: commands, suffixes⟩ := by
    have chosen : contents.groupMode style false .broken (Machine.pendingFits style commands) page =
        .flat :=
      if_pos (Bool.and_eq_true_iff.mpr ⟨room, fits⟩)
    change some (Machine.printGroup style ⟨page, commands, suffixes⟩ _ contents false) = _
    rw [Machine.chosen_group]
    exact congrArg (fun mode => some (Machine.mk page (⟨level, mode, contents⟩ :: commands) suffixes)) chosen
  have calmNext := (Machine.moves_of_step stepped).calm unit calmHere
  have fitted : Machine.Fits style (earlierLines page.text)
      ⟨page, ⟨level, .flat, contents⟩ :: commands, suffixes⟩ :=
    .going calmNext rfl (of_decide_eq_true room) fits
  have finished := Machine.reaches_keeps (fun moved => moved.fits tabs unit)
    (Machine.reaches_run style _).1 fitted
  obtain ⟨line, rest, whole, inLine, narrow, ends⟩ := finished.trimmed tabs
  refine ⟨doc.printOn style .blank, by rw [printFrom, known], line, ?_, narrow⟩
  have printed : (doc.printOn style .blank).text = earlierLines page.text ++ line ++ rest := by
    rw [← whole, printOn, Page.text_trim, ← Machine.run_step stepped, ← Machine.run_of_reaches reached]
    rfl
  rw [printed]
  exact getElem?_splitOn inLine ends

theorem Doc.flat_fits_second :
    ∃ page,
      (concat [groupOf [.text "long", plainLine, .text "line"], groupOf [.text "s", softLine]]).printFrom
        ⟨6, "\t", 4⟩ .blank = .ok page ∧
      ∃ line, (page.text.splitOn '\n')[1]? = some line ∧
        (⟨6, "\t", 4⟩ : PageStyle).textWidth line ≤ 6 := by
  refine @flat_fits (concat [groupOf [.text "long", plainLine, .text "line"], groupOf [.text "s", softLine]])
    rfl (by decide) ⟨6, "\t", 4⟩ (by decide) (by decide)
    ⟨⟨["line".toList, ['\n'], "long".toList], 4, true⟩,
      [⟨0, .broken, groupOf [.text "s", softLine]⟩], []⟩ ?_ 0 (.concat [.text "s", softLine]) [] rfl
    (by decide)
  iterate 6 refine .head (show Machine.step _ _ = some _ from rfl) ?_
  exact .refl

end Squirrel
