import Squirrel.Proofs.Doc.Page
import Squirrel.Proofs.Doc.Row

/-! How many lines end in a row while a document is printed. -/

namespace Squirrel

def isClear (content : String) : Bool :=
  !content.toList.contains '\n' && !(trimEnd content.toList).isEmpty

section Trimming

theorem trimEnd_eq_nil {text : List Char} : trimEnd text = [] ↔ text.all isTrailingBlank := by
  simp [trimEnd, List.all_eq_true]

theorem trimEnd_append_ne_nil {front back : List Char} :
    trimEnd (front ++ back) ≠ [] ↔ trimEnd front ≠ [] ∨ trimEnd back ≠ [] := by
  simp only [ne_eq, trimEnd_eq_nil, List.all_append, Bool.and_eq_true, not_and_or]

end Trimming

/-- Lines without blanks at their ends, the first of them not empty, and no two empty ones in a row. -/
structure AreNeat (lines : List (List Char)) : Prop where
  inLine : ∀ line ∈ lines, '\n' ∉ line
  trimmed : ∀ line ∈ lines, trimEnd line = line
  starts : lines.head? ≠ some []
  apart : ¬ [[], []] <:+: lines

namespace AreNeat

theorem nil : AreNeat [] := ⟨by simp, by simp, by simp, by simp⟩

theorem concat {lines : List (List Char)} {line : List Char} (neat : AreNeat lines)
    (inLine : '\n' ∉ line) (trimmed : trimEnd line = line)
    (full : line ≠ [] ∨ ∃ front last, lines = front ++ [last] ∧ last ≠ []) :
    AreNeat (lines ++ [line]) where
  inLine := by
    simpa [or_imp, forall_and] using ⟨neat.inLine, inLine⟩
  trimmed := by
    simpa [or_imp, forall_and] using ⟨neat.trimmed, trimmed⟩
  starts := by
    rcases full with full | ⟨front, last, rfl, some⟩
    · cases lines with
      | nil => simpa using full
      | cons first lines => simpa using neat.starts
    · cases front with
      | nil => simpa using some
      | cons first front => simpa using neat.starts
  apart := by
    rintro ⟨before, after, whole⟩
    rcases List.eq_nil_or_concat after with rfl | ⟨after, last, rfl⟩
    · have ends : before ++ [[]] ++ [[]] = lines ++ [line] := by simpa using whole
      obtain ⟨same, isLast⟩ := List.append_inj' ends rfl
      obtain rfl : line = [] := by simpa using isLast.symm
      rcases full with full | ⟨front, last, rfl, some⟩
      · exact full rfl
      · have tail := (List.append_inj' same rfl).2
        exact some (by simpa using tail.symm)
    · have inner : before ++ [[], []] ++ after ++ [last] = lines ++ [line] := by simpa using whole
      exact neat.apart ⟨before, after, (List.append_inj' inner rfl).1⟩

end AreNeat

def endedText (lines : List (List Char)) : List Char := lines.flatMap (· ++ ['\n'])

theorem endedText_append (first second : List (List Char)) :
    endedText (first ++ second) = endedText first ++ endedText second :=
  List.flatMap_append

theorem trimEnd_endedText (lines : List (List Char)) : trimEnd (endedText lines) = endedText lines := by
  rcases List.eq_nil_or_concat lines with rfl | ⟨front, last, rfl⟩
  · rfl
  · have shape : endedText (front ++ [last]) = (endedText front ++ last) ++ ['\n'] := by
      simp [endedText]
    rw [List.concat_eq_append, shape, trimEnd_concat]
    rfl

theorem trimEnd_endedText_append (lines : List (List Char)) (line : List Char) :
    trimEnd (endedText lines ++ line) = endedText lines ++ trimEnd line := by
  rw [trimEnd_append, trimEnd_endedText]
  split
  · next blank => rw [List.isEmpty_iff.mp blank, List.append_nil]
  · rfl

theorem splitOn_endedText {lines : List (List Char)} (inLine : ∀ line ∈ lines, '\n' ∉ line)
    (text : List Char) : (endedText lines ++ text).splitOn '\n' = lines ++ text.splitOn '\n' := by
  induction lines with
  | nil => rfl
  | cons line lines ih =>
    obtain ⟨here, later⟩ := List.forall_mem_cons.mp inLine
    have shape : endedText (line :: lines) ++ text = line ++ '\n' :: (endedText lines ++ text) := by
      simp [endedText]
    rw [shape, List.splitOn_append_cons_self, List.splitOn_eq_singleton here, ih later]
    rfl

theorem AreNeat.splitOn {lines : List (List Char)} {line : List Char} (neat : AreNeat (lines ++ [line]))
    (full : line ≠ []) (ends : Bool) :
    AreNeat ((endedText lines ++ line ++ if ends then ['\n'] else []).splitOn '\n') := by
  obtain ⟨before, last⟩ : (∀ line ∈ lines, '\n' ∉ line) ∧ '\n' ∉ line := by
    simpa [or_imp, forall_and] using neat.inLine
  cases ends with
  | false =>
    have shape : endedText lines ++ line ++ (if false then ['\n'] else []) = endedText lines ++ line := by
      simp
    rw [shape, splitOn_endedText before, List.splitOn_eq_singleton last]
    exact neat
  | true =>
    have shape : endedText lines ++ line ++ (if true then ['\n'] else []) =
        endedText (lines ++ [line]) ++ [] := by
      simp [endedText]
    rw [shape, splitOn_endedText neat.inLine]
    exact neat.concat (by simp) rfl (.inr ⟨lines, line, rfl, full⟩)

theorem isTrailingBlank_getLast? {line : List Char} (trimmed : trimEnd line = line) :
    ∀ c ∈ line.getLast?, isTrailingBlank c = false := by
  intro c isLast
  obtain ⟨front, rfl⟩ := List.getLast?_eq_some_iff.mp isLast
  by_contra blank
  rw [trimEnd_concat, if_pos (by simpa using blank)] at trimmed
  have short := (prefix_trimEnd front).length_le
  rw [trimmed, List.length_append, List.length_singleton] at short
  omega

namespace Sheet

/-- The lines on a sheet, and the one that is not ended yet. -/
structure Holds (sheet : Sheet) (lines : List (List Char)) (line : List Char) : Prop where
  text : sheet.page.text = endedText lines ++ line
  neat : AreNeat lines
  inLine : '\n' ∉ line
  inked : sheet.page.inked → trimEnd line ≠ []
  waiting : ∀ content ∈ sheet.waiting, isClear content

/-- A sheet on which at most a number of lines have ended since something was shown. The start of a
page counts as two. -/
def Paced (bound : Nat) (sheet : Sheet) : Prop :=
  ∃ lines line, sheet.Holds lines line ∧
    (trimEnd line ≠ [] ∨ (1 ≤ bound ∧ ∃ front last, lines = front ++ [last] ∧ last ≠ []) ∨ 2 ≤ bound)

variable (style : PageStyle) {sheet : Sheet} {bound : Nat}

theorem paced_blank : (Sheet.mk .blank []).Paced 2 :=
  ⟨[], [], ⟨rfl, .nil, by simp, by simp [Page.blank], by simp⟩, .inr (.inr (Nat.le_refl 2))⟩

theorem Paced.mono {more : Nat} (paced : sheet.Paced bound) (le : bound ≤ more) : sheet.Paced more := by
  obtain ⟨lines, line, holds, state⟩ := paced
  exact ⟨lines, line, holds, state.imp_right (.imp (.imp_left fun some => some.trans le) fun two => two.trans le)⟩

theorem Paced.lines (paced : sheet.Paced 0) :
    ∃ lines line, trimEnd sheet.page.text = endedText lines ++ line ∧ AreNeat (lines ++ [line]) ∧
      line ≠ [] := by
  obtain ⟨lines, line, holds, state⟩ := paced
  have shown : trimEnd line ≠ [] := by
    rcases state with shown | ⟨one, -⟩ | two
    · exact shown
    · cases one
    · cases two
  refine ⟨lines, trimEnd line, ?_, ?_, shown⟩
  · rw [holds.text, trimEnd_endedText_append]
  · exact holds.neat.concat (fun member => holds.inLine ((prefix_trimEnd line).subset member))
      (trimEnd_trimEnd line) (.inl shown)

theorem trimEnd_squeeze_ne_nil (page : Page) (text : List Char) :
    trimEnd (page.squeeze text) ≠ [] ↔ trimEnd text ≠ [] := by
  unfold Page.squeeze
  split
  · next rest =>
    split
    · simp only [ne_eq, trimEnd_eq_nil, List.all_cons]
      simp [isTrailingBlank]
    · rfl
  · rfl

theorem trimEnd_of_hasInk {text : List Char} (shown : hasInk text) : trimEnd text ≠ [] := by
  rw [ne_eq, trimEnd_eq_nil]
  intro blank
  obtain ⟨c, member, visible⟩ := List.any_eq_true.mp shown
  have isBlank := List.all_eq_true.mp blank c member
  have white : ∀ c : Char, isTrailingBlank c → Text.isBlank c := by
    intro c own
    rcases (by simpa [isTrailingBlank] using own : c = ' ' ∨ c = '\t') with rfl | rfl <;> decide
  simp [white c isBlank] at visible

theorem Holds.write {lines : List (List Char)} {line : List Char} (holds : sheet.Holds lines line)
    {content : List Char} (inLine : '\n' ∉ content) :
    ({ sheet with page := sheet.page.write style content } : Sheet).Holds lines
      (line ++ sheet.page.squeeze content) := by
  have squeezed : '\n' ∉ sheet.page.squeeze content := fun member => inLine (Page.mem_squeeze member)
  refine ⟨?_, holds.neat, ?_, ?_, holds.waiting⟩
  · rw [Page.text_write, holds.text, List.append_assoc]
  · rw [List.mem_append, not_or]
    exact ⟨holds.inLine, squeezed⟩
  · intro shown
    rw [trimEnd_append_ne_nil]
    unfold Page.write Page.append at shown
    split at shown
    · exact .inl (holds.inked shown)
    · rw [if_neg (by simpa using squeezed), Bool.or_eq_true] at shown
      exact shown.imp holds.inked trimEnd_of_hasInk

theorem Paced.write (paced : sheet.Paced bound) {content : List Char} (inLine : '\n' ∉ content) :
    ({ sheet with page := sheet.page.write style content } : Sheet).Paced
      (if trimEnd content = [] then bound else 0) := by
  obtain ⟨lines, line, holds, state⟩ := paced
  refine ⟨lines, _, holds.write style inLine, ?_⟩
  rw [trimEnd_append_ne_nil, trimEnd_squeeze_ne_nil]
  split
  · exact state.imp_left .inl
  · next shown => exact .inl (.inr shown)

theorem Paced.flush (paced : sheet.Paced bound) : (sheet.play style .flush).Paced bound := by
  obtain ⟨page, waiting⟩ := sheet
  have clear : ∀ content ∈ waiting, isClear content := by
    obtain ⟨lines, line, holds, -⟩ := paced
    exact holds.waiting
  have silent : (Sheet.mk page []).Paced bound := by
    obtain ⟨lines, line, holds, state⟩ := paced
    exact ⟨lines, line, ⟨holds.text, holds.neat, holds.inLine, holds.inked, by simp⟩, state⟩
  unfold play
  dsimp only
  clear paced
  induction waiting generalizing page with
  | nil => exact silent
  | cons content waiting ih =>
    obtain ⟨here, later⟩ := List.forall_mem_cons.mp clear
    simp only [isClear, Bool.and_eq_true, Bool.not_eq_true', List.contains_eq_mem,
      decide_eq_false_iff_not] at here
    refine ih _ later ((silent.write style here.1).mono ?_)
    split
    · exact Nat.le_refl _
    · exact Nat.zero_le _

theorem Paced.later (paced : sheet.Paced bound) {content : String} (clear : isClear content) :
    (sheet.play style (.later content)).Paced bound := by
  obtain ⟨lines, line, holds, state⟩ := paced
  refine ⟨lines, line, ⟨holds.text, holds.neat, holds.inLine, holds.inked, ?_⟩, state⟩
  simpa [play, or_imp, forall_and] using ⟨holds.waiting, clear⟩

theorem Paced.newline {style : PageStyle} (indented : style.indentUnit.toList.all isTrailingBlank)
    (paced : sheet.Paced bound) (room : bound ≤ 1) (level : Nat) :
    (sheet.play style (.newline level)).Paced (bound + 1) := by
  obtain ⟨lines, line, holds, state⟩ := paced
  have blank := List.all_eq_true.mp (PageStyle.blank_indentation indented level)
  have full : trimEnd line ≠ [] ∨ ∃ front last, lines = front ++ [last] ∧ last ≠ [] := by
    rcases state with shown | ⟨-, ended⟩ | two
    · exact .inl shown
    · exact .inr ended
    · omega
  refine ⟨lines ++ [trimEnd line], style.indentation level, ⟨?_, ?_, ?_, by simp [play, Page.newline],
    holds.waiting⟩, ?_⟩
  · rw [play, Page.text_newline, holds.text, trimEnd_endedText_append, endedText_append]
    simp [endedText]
  · exact holds.neat.concat (fun member => holds.inLine ((prefix_trimEnd line).subset member))
      (trimEnd_trimEnd line) full
  · intro member
    cases blank _ member
  · rcases state with shown | ⟨one, -⟩ | two
    · exact .inr (.inl ⟨by omega, lines, _, rfl, shown⟩)
    · exact .inr (.inr (by omega))
    · omega

end Sheet

namespace Row

/-- Laying out a row where at most `start` lines have ended in a row leaves at most `stop`. -/
def Leads (style : PageStyle) (start stop : Nat) (row : Row) : Prop :=
  ∀ mode level after (sheet : Sheet), sheet.Paced start →
    (sheet.playAll style (row.laid style mode level after sheet)).Paced stop

variable {style : PageStyle} {start middle stop : Nat} {first second row : Row}

theorem leads_nil : Leads style start start [] := fun _ _ _ _ paced => paced

theorem Leads.append (one : first.Leads style start middle) (two : second.Leads style middle stop) :
    Leads style start stop (first ++ second) := by
  intro mode level after sheet paced
  rw [laid_append, Sheet.playAll_append]
  exact two _ _ _ _ (one _ _ _ _ paced)

theorem Leads.deepen (leads : row.Leads style start stop) (nest : Nat) :
    (row.deepen nest).Leads style start stop := by
  intro mode level after sheet paced
  rw [laid_deepen]
  exact leads _ _ _ _ paced

theorem Leads.mono {less more : Nat} (leads : row.Leads style start stop) (lower : less ≤ start)
    (upper : stop ≤ more) : row.Leads style less more :=
  fun _ _ _ _ paced => (leads _ _ _ _ (paced.mono lower)).mono upper

end Row

namespace Doc

def Leads (style : PageStyle) (start stop : Nat) (doc : Doc) : Prop :=
  ∀ mode level after (sheet : Sheet), sheet.Paced start →
    (sheet.playAll style (doc.laid style mode level after sheet)).Paced stop

variable {style : PageStyle} {start middle stop : Nat} {doc : Doc}

theorem Leads.of_row (leads : doc.row.Leads style start stop) : doc.Leads style start stop := by
  intro mode level after sheet paced
  rw [← (amounts_row doc).laid]
  exact leads _ _ _ _ paced

theorem Leads.row (leads : doc.Leads style start stop) : doc.row.Leads style start stop := by
  intro mode level after sheet paced
  rw [(amounts_row doc).laid]
  exact leads _ _ _ _ paced

theorem Leads.single (leads : doc.Leads style start stop) : Row.Leads style start stop [(0, doc)] := by
  intro mode level after sheet paced
  rw [(amounts_self doc).laid]
  exact leads _ _ _ _ paced

theorem Leads.mono {less more : Nat} (leads : doc.Leads style start stop) (lower : less ≤ start)
    (upper : stop ≤ more) : doc.Leads style less more :=
  fun _ _ _ _ paced => (leads _ _ _ _ (paced.mono lower)).mono upper

theorem Leads.concat {docs : List Doc} (one : doc.Leads style start middle)
    (others : (rowOf docs).Leads style middle stop) : (rowOf (doc :: docs)).Leads style start stop := by
  rw [rowOf_cons]
  exact one.row.append others

theorem Leads.group (leads : doc.Leads style start stop) (broken : Bool) :
    (Doc.group doc broken).Leads style start stop := by
  intro mode level after sheet paced
  rw [laid_group]
  exact leads _ _ _ _ paced

theorem leads_ifBreak {broken flat : Doc} (one : broken.Leads style start stop)
    (other : flat.Leads style start stop) : (ifBreak broken flat).Leads style start stop := by
  intro mode level after sheet paced
  rw [laid, marked_ifBreak]
  cases mode with
  | broken => exact one _ _ _ _ paced
  | flat => exact other _ _ _ _ paced

theorem leads_text {content : String} (clear : isClear content) :
    (text content).Leads style start 0 := by
  intro mode level after sheet paced
  have present : content ≠ "" := by
    rintro rfl
    cases clear
  obtain ⟨inLine, shown⟩ : '\n' ∉ content.toList ∧ trimEnd content.toList ≠ [] := by
    simpa [isClear] using clear
  rw [laid_text _ _ _ _ present]
  simpa [Sheet.play, shown] using paced.write style inLine

theorem leads_empty : (text "").Leads style start start := fun _ _ _ _ paced => paced

theorem leads_space : space.Leads style start start := by
  intro mode level after sheet paced
  rw [space, laid_text _ _ _ _ (by decide)]
  have blank : trimEnd " ".toList = [] := by decide
  have written := paced.write style (show '\n' ∉ " ".toList by decide)
  rwa [if_pos blank] at written

theorem leads_breakParent : breakParent.Leads style start start := by
  intro mode level after sheet paced
  rw [laid_breakParent]
  exact paced

theorem leads_lineSuffix {content : String} (clear : isClear content) :
    (lineSuffix (text content)).Leads style start start := by
  intro mode level after sheet paced
  rw [laid_lineSuffix]
  exact paced.later style clear

section

variable (indented : style.indentUnit.toList.all isTrailingBlank)

include indented

theorem leads_line (room : start ≤ 1) (look : LineStyle) :
    (line look).Leads style start (start + 1) := by
  intro mode level after sheet paced
  rw [laid_line, lineEvents]
  split
  · split
    · exact paced.mono (Nat.le_add_right _ _)
    · rw [← laid_text style level after sheet (by decide) mode]
      exact (leads_space _ _ _ _ paced).mono (Nat.le_add_right _ _)
  · split
    · exact (paced.flush style).mono (Nat.le_add_right _ _)
    · exact (paced.flush style).newline indented room level

theorem leads_hardLine (room : start ≤ 1) : hardLine.Leads style start (start + 1) :=
  .of_row ((leads_line indented room _).concat (leads_breakParent.concat Row.leads_nil))

theorem leads_freshLine : freshLine.Leads style start (max 1 start) := by
  refine .of_row (Leads.concat ?_ (leads_breakParent.concat Row.leads_nil))
  intro mode level after sheet paced
  have flushed := paced.flush style
  rw [laid_line, lineEvents, if_neg (by simp)]
  split
  · exact flushed.mono (Nat.le_max_right _ _)
  · next shown =>
    have inked : (sheet.play style .flush).page.inked := by simpa using shown
    obtain ⟨lines, line, holds, -⟩ := flushed
    have ended : (sheet.play style .flush).Paced 0 := ⟨lines, line, holds, .inl (holds.inked inked)⟩
    exact (ended.newline indented (Nat.zero_le 1) level).mono (Nat.le_max_left _ _)

end

end Doc

end Squirrel
