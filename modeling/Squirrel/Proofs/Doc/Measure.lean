import Squirrel.Proofs.Doc.Page
import Squirrel.Proofs.Doc.Steps

/-! Widths: of what is to come on a line, and of what stands on it. -/

namespace Squirrel

namespace PageStyle

variable (style : PageStyle)

@[simp] theorem textWidth_nil : style.textWidth [] = 0 := rfl

theorem textWidth_cons (c : Char) (text : List Char) :
    style.textWidth (c :: text) = style.charWidth c + style.textWidth text := rfl

@[simp] theorem textWidth_append (first second : List Char) :
    style.textWidth (first ++ second) = style.textWidth first + style.textWidth second := by
  induction first with
  | nil => exact (Int.zero_add _).symm
  | cons c first ih => rw [List.cons_append, textWidth_cons, textWidth_cons, ih, Int.add_assoc]

theorem textWidth_indentation (level : Nat) :
    style.textWidth (style.indentation level) = style.indentWidth level := by
  unfold indentation indentWidth
  rw [Int.toNat_natCast]
  induction level with
  | zero => simp
  | succ level ih =>
    rw [List.replicate_succ, List.flatten_cons, textWidth_append, ih]
    push_cast
    rw [Int.add_mul, Int.one_mul, Int.add_comm]

variable {style}

theorem textWidth_nonneg (tabs : 0 ≤ style.tabWidth) (text : List Char) : 0 ≤ style.textWidth text := by
  induction text with
  | nil => exact Int.le_refl 0
  | cons c text ih =>
    have wide : 0 ≤ style.charWidth c := by
      unfold charWidth
      split <;> omega
    rw [textWidth_cons]
    omega

theorem textWidth_le_of_start (tabs : 0 ≤ style.tabWidth) {first text : List Char}
    (starts : first <+: text) : style.textWidth first ≤ style.textWidth text := by
  obtain ⟨rest, rfl⟩ := starts
  have := textWidth_nonneg tabs rest
  rw [textWidth_append]
  omega

end PageStyle

section Lines

def firstLine (text : List Char) : List Char := text.takeWhile (· ≠ '\n')

theorem ne_break_of_mem {text : List Char} (inLine : '\n' ∉ text) : ∀ c ∈ text, decide (c ≠ '\n') :=
  fun _ member => decide_eq_true fun isBreak => inLine (isBreak ▸ member)

theorem firstLine_append {text : List Char} (inLine : '\n' ∉ text) (rest : List Char) :
    firstLine (text ++ rest) = text ++ firstLine rest :=
  List.takeWhile_append_of_pos (ne_break_of_mem inLine)

theorem firstLine_append_of_mem {text : List Char} (breaks : '\n' ∈ text) (rest : List Char) :
    firstLine (text ++ rest) = firstLine text := by
  obtain ⟨front, back, rfl, inLine⟩ := List.eq_append_cons_of_mem breaks
  rw [List.append_assoc, firstLine_append inLine, firstLine_append inLine]
  simp [firstLine]

theorem lastLine_append {text : List Char} (inLine : '\n' ∉ text) (front : List Char) :
    lastLine (front ++ text) = lastLine front ++ text := by
  unfold lastLine
  rw [List.reverse_append, List.takeWhile_append_of_pos (ne_break_of_mem (by simpa using inLine)),
    List.reverse_append, List.reverse_reverse]

theorem lastLine_append_of_mem {text : List Char} (breaks : '\n' ∈ text) (front : List Char) :
    lastLine (front ++ text) = lastLine text := by
  have reversed : '\n' ∈ text.reverse := List.mem_reverse.mpr breaks
  unfold lastLine
  rw [List.reverse_append]
  exact congrArg List.reverse (firstLine_append_of_mem reversed front.reverse)

theorem lastLine_break {text : List Char} (inLine : '\n' ∉ text) (front : List Char) :
    lastLine (front ++ '\n' :: text) = text := by
  rw [List.append_cons, lastLine_append inLine]
  simp [lastLine]

end Lines

namespace Doc

mutual

/-- What a document comes to in a mode, with a line feed for each line break. -/
def outline : Doc → Mode → List Char
  | .text content, _ => content.toList
  | .concat parts, mode => outlineOf parts mode
  | .group contents broken, mode => contents.outline (if broken then .broken else mode)
  | .indent contents, mode => contents.outline mode
  | .line look, mode =>
    if mode = .broken ∨ look.hard then ['\n'] else if look.soft then [] else [' ']
  | .ifBreak broken _, .broken => broken.outline .broken
  | .ifBreak _ flat, .flat => flat.outline .flat
  | .lineSuffix _, _ | .breakParent, _ | .unknown _, _ => []

def outlineOf : List Doc → Mode → List Char
  | [], _ => []
  | doc :: docs, mode => doc.outline mode ++ outlineOf docs mode

end

/-- Whether a text fits up to its first line break, for any width that is left. -/
def Tests (style : PageStyle) (fits : Int → Bool) (text : List Char) : Prop :=
  ∀ width, 0 ≤ width → (fits width ↔ style.textWidth (firstLine text) ≤ width)

variable {style : PageStyle}

theorem Tests.shown {after : Int → Bool} {rest : List Char} (tabs : 0 ≤ style.tabWidth)
    (tests : Tests style after rest) {text : List Char} (inLine : '\n' ∉ text) {width : Int} :
    (decide (0 ≤ width - style.textWidth text) && after (width - style.textWidth text)) ↔
      style.textWidth (firstLine (text ++ rest)) ≤ width := by
  have wide := PageStyle.textWidth_nonneg tabs (firstLine rest)
  rw [firstLine_append inLine, PageStyle.textWidth_append, Bool.and_eq_true, decide_eq_true_eq]
  constructor
  · rintro ⟨room, fits⟩
    have := (tests _ room).mp fits
    omega
  · intro narrow
    exact ⟨by omega, (tests _ (by omega)).mpr (by omega)⟩

mutual

theorem tests_fitsThen {after : Int → Bool} {rest : List Char} (tabs : 0 ≤ style.tabWidth)
    (tests : Tests style after rest) :
    (doc : Doc) → (mode : Mode) → Tests style (doc.fitsThen style mode after) (doc.outline mode ++ rest)
  | .text content, _, width, _ => by
    rw [fitsThen, outline]
    split
    · next breaks =>
      rw [firstLine_append_of_mem (by simpa using breaks), decide_eq_true_eq, Int.sub_nonneg]
      rfl
    · next inLine =>
      have none : '\n' ∉ content.toList := by simpa using inLine
      have whole : firstLine content.toList = content.toList := by
        simpa [firstLine] using firstLine_append none []
      rw [← tests.shown tabs none]
      exact iff_of_eq (by rw [← firstLine, whole])
  | .concat parts, mode, width, room => by
    rw [fitsThen, outline]
    exact tests_allFitThen tabs tests parts mode width room
  | .group contents broken, mode, width, room => by
    rw [fitsThen, outline]
    exact tests_fitsThen tabs tests contents _ width room
  | .indent contents, mode, width, room => by
    rw [fitsThen, outline]
    exact tests_fitsThen tabs tests contents mode width room
  | .line look, mode, width, room => by
    rw [fitsThen, outline]
    split
    · simpa [firstLine] using room
    split
    · exact tests width room
    · have blank : '\n' ∉ [' '] := by simp
      exact tests.shown tabs blank
  | .ifBreak broken _, .broken, width, room => by
    rw [fitsThen, outline]
    exact tests_fitsThen tabs tests broken .broken width room
  | .ifBreak _ flat, .flat, width, room => by
    rw [fitsThen, outline]
    exact tests_fitsThen tabs tests flat .flat width room
  | .lineSuffix _, _, width, room | .breakParent, _, width, room | .unknown _, _, width, room => by
    rw [fitsThen, outline]
    exact tests width room

theorem tests_allFitThen {after : Int → Bool} {rest : List Char} (tabs : 0 ≤ style.tabWidth)
    (tests : Tests style after rest) :
    (docs : List Doc) → (mode : Mode) →
      Tests style (allFitThen style docs mode after) (outlineOf docs mode ++ rest)
  | [], _, width, room => by
    rw [allFitThen, outlineOf]
    exact tests width room
  | doc :: docs, mode, width, room => by
    rw [allFitThen, outlineOf, List.append_assoc]
    exact tests_fitsThen tabs (tests_allFitThen tabs tests docs mode) doc mode width room

end

end Doc

def outlineAll (commands : List Command) : List Char :=
  commands.flatMap fun command => command.doc.outline command.mode

theorem Machine.tests_pendingFits {style : PageStyle} (tabs : 0 ≤ style.tabWidth) (commands : List Command) :
    Doc.Tests style (pendingFits style commands) (outlineAll commands) := by
  induction commands with
  | nil => exact fun width room => by simpa [pendingFits, outlineAll, firstLine] using room
  | cons command commands ih => exact Doc.tests_fitsThen tabs ih command.doc command.mode

namespace Machine

variable (style : PageStyle)

def spread (level : Nat) (mode : Mode) (parts : List Doc) : List Command :=
  parts.map fun part => ⟨level, mode, part⟩

/-- The test as a loop over two stacks: what is next, and the commands that are pending after it. -/
def fitsLoop (next pending : List Command) (width : Int) : Bool :=
  if width < 0 then false
  else match next, pending with
  | [], [] => true
  | [], command :: pending => fitsLoop [command] pending width
  | ⟨_, _, .text content⟩ :: next, pending =>
    let left := width - style.textWidth (content.toList.takeWhile (· ≠ '\n'))
    if content.toList.contains '\n' then 0 ≤ left else fitsLoop next pending left
  | ⟨level, mode, .concat parts⟩ :: next, pending =>
    fitsLoop (spread level mode parts ++ next) pending width
  | ⟨level, mode, .indent contents⟩ :: next, pending =>
    fitsLoop (⟨level, mode, contents⟩ :: next) pending width
  | ⟨level, _, .group contents true⟩ :: next, pending =>
    fitsLoop (⟨level, .broken, contents⟩ :: next) pending width
  | ⟨level, mode, .group contents false⟩ :: next, pending =>
    fitsLoop (⟨level, mode, contents⟩ :: next) pending width
  | ⟨level, .broken, .ifBreak broken _⟩ :: next, pending =>
    fitsLoop (⟨level, .broken, broken⟩ :: next) pending width
  | ⟨level, .flat, .ifBreak _ flat⟩ :: next, pending =>
    fitsLoop (⟨level, .flat, flat⟩ :: next) pending width
  | ⟨_, mode, .line look⟩ :: next, pending =>
    if mode = .broken ∨ look.hard then true
    else if look.soft then fitsLoop next pending width
    else fitsLoop next pending (width - 1)
  | ⟨_, _, .lineSuffix _⟩ :: next, pending | ⟨_, _, .breakParent⟩ :: next, pending
  | ⟨_, _, .unknown _⟩ :: next, pending => fitsLoop next pending width
termination_by commandWeight next + commandWeight pending + pending.length
decreasing_by
  all_goals
    simp only [spread, commandWeight_append, commandWeight_parts, commandWeight_cons,
      commandWeight_nil, Doc.weight, List.length_cons]
    omega

/-- The loop comes to what the test through the documents themselves does. -/
theorem fitsLoop_eq (next pending : List Command) (width : Int) :
    fitsLoop style next pending width =
      (decide (0 ≤ width) && pendingFits style (next ++ pending) width) := by
  have opened (command : Command) (rest : List Command) :
      pendingFits style (command :: rest) =
        command.doc.fitsThen style command.mode (pendingFits style rest) := rfl
  fun_induction fitsLoop style next pending width with
  | case1 next pending width narrow => simp [show ¬ 0 ≤ width by omega]
  | case2 width room => simp [pendingFits, show 0 ≤ width by omega]
  | case3 width room command pending ih => rw [ih]; rfl
  | case4 width room level mode content next pending left breaks =>
    rw [List.cons_append, opened, Doc.fitsThen, if_pos breaks]
    simp [left, show 0 ≤ width by omega]
  | case5 width room level mode content next pending left breaks ih =>
    rw [ih, List.cons_append, opened, Doc.fitsThen, if_neg breaks]
    simp [left, show 0 ≤ width by omega]
  | case6 width room level mode parts next pending ih =>
    rw [ih, spread, List.append_assoc, pendingFits_parts, List.cons_append, opened, Doc.fitsThen]
  | case12 width room level mode look next pending breaks =>
    rw [List.cons_append, opened, Doc.fitsThen, if_pos breaks]
    simp [show 0 ≤ width by omega]
  | case13 width room level mode look next pending stays soft ih =>
    rw [ih, List.cons_append, opened, Doc.fitsThen, if_neg stays, if_pos soft]
  | case14 width room level mode look next pending stays hard ih =>
    rw [ih, List.cons_append, opened, Doc.fitsThen, if_neg stays, if_neg hard]
    simp [show 0 ≤ width by omega]
  | case7 | case8 | case9 | case10 | case11 | case15 | case16 | case17 =>
    rename_i ih
    simp only [ih, List.cons_append, opened, Doc.fitsThen, if_true, Bool.false_eq_true, if_false]

end Machine

theorem Command.fits_eq_fitsLoop (style : PageStyle) (command : Command) (pending : List Command)
    (width : Int) :
    command.fits style pending width = Machine.fitsLoop style [command] pending width :=
  (Machine.fitsLoop_eq style [command] pending width).symm

/-- A command fits exactly if it comes, with what is pending after it, to a text whose first line is
not wider than what is left. -/
theorem Command.fits_iff {style : PageStyle} (tabs : 0 ≤ style.tabWidth) (command : Command)
    (pending : List Command) (width : Int) :
    command.fits style pending width = true ↔
      style.textWidth (firstLine (outlineAll (command :: pending))) ≤ width := by
  have wide := PageStyle.textWidth_nonneg tabs (firstLine (outlineAll (command :: pending)))
  have tests := Machine.tests_pendingFits tabs (command :: pending) width
  rw [fits, Bool.and_eq_true, decide_eq_true_eq]
  exact ⟨fun ⟨room, fits⟩ => (tests room).mp fits, fun narrow =>
    ⟨by omega, (tests (by omega)).mpr narrow⟩⟩

theorem Command.fits_iff_call :
    (Command.mk 0 .flat (.concat [.text "a", Doc.plainLine, .text "b"])).fits ⟨80, "\t", 4⟩
        [⟨0, .flat, .lineSuffix (.text " // long")⟩, ⟨1, .broken, .text "\tc\nd"⟩] 8 = true ↔
      (⟨80, "\t", 4⟩ : PageStyle).textWidth "a b\tc".toList ≤ 8 :=
  Command.fits_iff (by decide) _ _ 8

namespace Page

variable {style : PageStyle} {page : Page}

def Measured (style : PageStyle) (page : Page) : Prop :=
  page.column = style.textWidth (lastLine page.text)

def Watched (page : Page) : Prop := page.inked = hasInk (lastLine page.text)

theorem hasInk_append (first second : List Char) :
    hasInk (first ++ second) = (hasInk first || hasInk second) :=
  List.any_append

theorem measured_append (measured : page.Measured style) (text : List Char) :
    (page.append style text).Measured style := by
  unfold Measured
  rw [text_append]
  unfold append
  split
  · next empty => rwa [List.isEmpty_iff.mp empty, List.append_nil]
  split
  · next breaks => rw [lastLine_append_of_mem (by simpa using breaks)]
  · next inLine =>
    rw [lastLine_append (by simpa using inLine), PageStyle.textWidth_append, ← measured]

theorem watched_append (watched : page.Watched) (text : List Char) : (page.append style text).Watched := by
  unfold Watched
  rw [text_append]
  unfold append
  split
  · next empty => rwa [List.isEmpty_iff.mp empty, List.append_nil]
  split
  · next breaks => rw [lastLine_append_of_mem (by simpa using breaks)]
  · next inLine => rw [lastLine_append (by simpa using inLine), hasInk_append, ← watched]

theorem measured_newline (unit : '\n' ∉ style.indentUnit.toList) (level : Nat) :
    (page.newline style level).Measured style := by
  unfold Measured
  rw [text_newline, lastLine_break fun member => unit (PageStyle.mem_indentation member),
    PageStyle.textWidth_indentation]
  rfl

theorem hasInk_blank {text : List Char} (blank : text.all isTrailingBlank) :
    hasInk text = false := by
  refine List.any_eq_false.mpr fun c member => ?_
  have := List.all_eq_true.mp blank c member
  rw [isTrailingBlank, Bool.or_eq_true, decide_eq_true_eq, decide_eq_true_eq] at this
  rcases this with rfl | rfl <;> decide

theorem watched_newline (indented : style.indentUnit.toList.all isTrailingBlank) (level : Nat) :
    (page.newline style level).Watched := by
  have blank := PageStyle.blank_indentation indented level
  have inLine : '\n' ∉ style.indentation level := fun member =>
    absurd (List.all_eq_true.mp blank _ member) (by decide)
  unfold Watched
  rw [text_newline, lastLine_break inLine, hasInk_blank blank]
  rfl

end Page

namespace Machine

variable {style : PageStyle} {machine next : Machine}

theorem Moves.measured (unit : '\n' ∉ style.indentUnit.toList) (moved : Moves style machine next)
    (measured : machine.page.Measured style) : next.page.Measured style := by
  cases moved with
  | opens | skips | defers | flushes | ends => exact measured
  | writes => exact Page.measured_append measured _
  | breaks => exact Page.measured_newline unit _

theorem Moves.watched (indented : style.indentUnit.toList.all isTrailingBlank)
    (moved : Moves style machine next) (watched : machine.page.Watched) : next.page.Watched := by
  cases moved with
  | opens | skips | defers | flushes | ends => exact watched
  | writes => exact Page.watched_append watched _
  | breaks => exact Page.watched_newline indented _

end Machine

/-- All the time while a document is printed, the page knows how wide its last line is and whether
it shows anything. -/
theorem Doc.page_agrees (doc : Doc) {style : PageStyle}
    (indented : style.indentUnit.toList.all isTrailingBlank = true) {machine : Machine}
    (reached : StateTransition.Reaches (Machine.step style) doc.machine machine) :
    machine.page.column = style.textWidth (lastLine machine.page.text) ∧
      (machine.page.inked = true ↔ ∃ c ∈ lastLine machine.page.text, Text.isBlank c = false) := by
  have unit : '\n' ∉ style.indentUnit.toList := fun member =>
    absurd (List.all_eq_true.mp indented _ member) (by decide)
  have measured := Machine.reaches_keeps (fun moved => moved.measured unit) reached rfl
  have watched : machine.page.Watched :=
    Machine.reaches_keeps (fun moved => moved.watched indented) reached rfl
  refine ⟨measured, ?_⟩
  rw [watched, hasInk, List.any_eq_true]
  simp

theorem Doc.page_agrees_lines :
    StateTransition.Reaches (Machine.step ⟨80, "\t", 4⟩)
        (concat [.line ⟨false, true, false⟩, .text " a\n\tb"]).machine
        ⟨⟨["a\n\tb".toList, ['\n']], 5, true⟩, [], []⟩ ∧
      5 = (⟨80, "\t", 4⟩ : PageStyle).textWidth "\tb".toList ∧
      ∃ c ∈ "\tb".toList, Text.isBlank c = false := by
  have reached : StateTransition.Reaches (Machine.step ⟨80, "\t", 4⟩)
      (concat [.line ⟨false, true, false⟩, .text " a\n\tb"]).machine
      ⟨⟨["a\n\tb".toList, ['\n']], 5, true⟩, [], []⟩ := by
    iterate 3 refine .head (show Machine.step _ _ = some _ from rfl) ?_
    exact .refl
  have agrees := page_agrees _ (by decide) reached
  exact ⟨reached, agrees.1, agrees.2.mp rfl⟩

end Squirrel
