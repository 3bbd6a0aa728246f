import Mathlib.Computability.StateTransition
import Squirrel.Proofs.Doc.Row

/-! What one step of printing does, and checks that pass at every part of a document. -/

namespace Squirrel

namespace Doc

mutual

def everywhere (check : Doc → Bool) : Doc → Bool
  | .concat parts => check (.concat parts) && everywhereOf check parts
  | .group contents broken => check (.group contents broken) && contents.everywhere check
  | .indent contents => check (.indent contents) && contents.everywhere check
  | .ifBreak broken flat =>
    check (.ifBreak broken flat) && (broken.everywhere check && flat.everywhere check)
  | .lineSuffix contents => check (.lineSuffix contents) && contents.everywhere check
  | .text content => check (.text content)
  | .line look => check (.line look)
  | .breakParent => check .breakParent
  | .unknown value => check (.unknown value)

def everywhereOf (check : Doc → Bool) : List Doc → Bool
  | [] => true
  | doc :: docs => doc.everywhere check && everywhereOf check docs

end

variable {check : Doc → Bool}

@[simp] theorem everywhereOf_append (first second : List Doc) :
    everywhereOf check (first ++ second) = (everywhereOf check first && everywhereOf check second) := by
  induction first with
  | nil => rfl
  | cons doc first ih => rw [List.cons_append, everywhereOf, everywhereOf, ih, Bool.and_assoc]

mutual

theorem everywhere_marked (blind : ∀ doc, check doc.marked = check doc) :
    (doc : Doc) → doc.marked.everywhere check = doc.everywhere check
  | .concat parts => by
    have own := blind (.concat parts)
    rw [marked_concat] at own ⊢
    rw [everywhere, everywhere, own, everywhereOf_marked blind parts]
  | .group contents broken => by
    have own := blind (.group contents broken)
    rw [marked_group] at own ⊢
    rw [everywhere, everywhere, own, everywhere_marked blind contents]
  | .indent contents => by
    have own := blind (.indent contents)
    rw [marked_indent] at own ⊢
    rw [everywhere, everywhere, own, everywhere_marked blind contents]
  | .ifBreak broken flat => by
    have own := blind (.ifBreak broken flat)
    rw [marked_ifBreak] at own ⊢
    rw [everywhere, everywhere, own, everywhere_marked blind broken, everywhere_marked blind flat]
  | .lineSuffix contents => by
    have own := blind (.lineSuffix contents)
    rw [marked_lineSuffix] at own ⊢
    rw [everywhere, everywhere, own, everywhere_marked blind contents]
  | .text _ | .line _ | .breakParent | .unknown _ => rfl

theorem everywhereOf_marked (blind : ∀ doc, check doc.marked = check doc) :
    (docs : List Doc) → everywhereOf check (docs.map marked) = everywhereOf check docs
  | [] => rfl
  | doc :: docs => by
    rw [List.map_cons, everywhereOf, everywhereOf, everywhere_marked blind doc,
      everywhereOf_marked blind docs]

end

end Doc

def Doc.machine (doc : Doc) : Machine := ⟨.blank, [⟨0, .broken, doc.marked⟩], []⟩

namespace Machine

open Doc (everywhereOf)

/-- A command is replaced by those for parts of its document. -/
inductive Opens (style : PageStyle) (page : Page) (commands : List Command) :
    Command → List Command → Prop where
  | concat {level : Nat} {mode : Mode} (parts : List Doc) :
    Opens style page commands ⟨level, mode, .concat parts⟩ (parts.map fun part => ⟨level, mode, part⟩)
  | indent {level : Nat} {mode : Mode} (contents : Doc) :
    Opens style page commands ⟨level, mode, .indent contents⟩ [⟨level + 1, mode, contents⟩]
  | group {level : Nat} {mode : Mode} (contents : Doc) (broken : Bool) :
    Opens style page commands ⟨level, mode, .group contents broken⟩
      [⟨level, contents.groupMode style broken mode (pendingFits style commands) page, contents⟩]
  | broken {level : Nat} (broken flat : Doc) :
    Opens style page commands ⟨level, .broken, .ifBreak broken flat⟩ [⟨level, .broken, broken⟩]
  | flat {level : Nat} (broken flat : Doc) :
    Opens style page commands ⟨level, .flat, .ifBreak broken flat⟩ [⟨level, .flat, flat⟩]
  | soft {level : Nat} {look : LineStyle} (calm : look.hard = false) (soft : look.soft) :
    Opens style page commands ⟨level, .flat, .line look⟩ []
  | breakParent {level : Nat} {mode : Mode} : Opens style page commands ⟨level, mode, .breakParent⟩ []
  | unknown {level : Nat} {mode : Mode} (value : Option Int) :
    Opens style page commands ⟨level, mode, .unknown value⟩ []

inductive Shows : Command → List Char → Prop where
  | text {level : Nat} {mode : Mode} (content : String) :
    Shows ⟨level, mode, .text content⟩ content.toList
  | space {level : Nat} {look : LineStyle} (calm : look.hard = false) (hollow : look.soft = false) :
    Shows ⟨level, .flat, .line look⟩ [' ']

/-- What a step can do. A line ends, or is passed over if it is still empty, only while nothing waits
for its end. -/
inductive Moves (style : PageStyle) : Machine → Machine → Prop where
  | opens {page : Page} {command : Command} {commands suffixes more : List Command}
      (opened : Opens style page commands command more) :
    Moves style ⟨page, command :: commands, suffixes⟩ ⟨page, more ++ commands, suffixes⟩
  | writes {page : Page} {command : Command} {commands suffixes : List Command} {text : List Char}
      (shown : Shows command text) :
    Moves style ⟨page, command :: commands, suffixes⟩ ⟨page.write style text, commands, suffixes⟩
  | breaks {page : Page} {level : Nat} {mode : Mode} {look : LineStyle} {commands : List Command}
      (wide : mode = .broken ∨ look.hard) (starts : look.fresh → page.inked) :
    Moves style ⟨page, ⟨level, mode, .line look⟩ :: commands, []⟩
      ⟨page.newline style level, commands, []⟩
  | skips {page : Page} {level : Nat} {mode : Mode} {look : LineStyle} {commands : List Command}
      (wide : mode = .broken ∨ look.hard) (fresh : look.fresh)
      (empty : page.inked = false) :
    Moves style ⟨page, ⟨level, mode, .line look⟩ :: commands, []⟩ ⟨page, commands, []⟩
  | defers {page : Page} {level : Nat} {mode : Mode} {contents : Doc} {commands suffixes : List Command} :
    Moves style ⟨page, ⟨level, mode, .lineSuffix contents⟩ :: commands, suffixes⟩
      ⟨page, commands, suffixes ++ [⟨level, mode, contents⟩]⟩
  | flushes {page : Page} {level : Nat} {mode : Mode} {look : LineStyle}
      {commands suffixes : List Command} (wide : mode = .broken ∨ look.hard)
      (waiting : suffixes ≠ []) :
    Moves style ⟨page, ⟨level, mode, .line look⟩ :: commands, suffixes⟩
      ⟨page, suffixes ++ ⟨level, mode, .line look⟩ :: commands, []⟩
  | ends {page : Page} {suffixes : List Command} (waiting : suffixes ≠ []) :
    Moves style ⟨page, [], suffixes⟩ ⟨page, suffixes, []⟩

section Moving

variable {style : PageStyle} {machine next : Machine}

theorem moves_line (page : Page) (level : Nat) (mode : Mode) (look : LineStyle)
    (commands suffixes : List Command) :
    Moves style ⟨page, ⟨level, mode, .line look⟩ :: commands, suffixes⟩
      (printLine style ⟨page, commands, suffixes⟩ ⟨level, mode, .line look⟩ look) := by
  unfold printLine
  by_cases flat : mode = .flat ∧ ¬ look.hard
  · rw [if_pos flat]
    obtain ⟨rfl, calm⟩ := flat
    have notHard : look.hard = false := by simpa using calm
    cases soft : look.soft with
    | true => exact .opens (.soft notHard soft)
    | false => exact .writes (.space notHard soft)
  · rw [if_neg flat]
    have wide : mode = .broken ∨ look.hard := by
      cases mode with
      | broken => exact .inl rfl
      | flat => exact .inr (by simpa using flat)
    cases suffixes with
    | cons first others => exact .flushes wide (by simp)
    | nil =>
      dsimp only
      rw [if_pos (by rfl)]
      split
      · next passes => exact .skips wide passes.1 (by simpa using passes.2)
      · next stays =>
        exact .breaks wide fun fresh => by simpa [fresh] using stays

theorem moves_perform (page : Page) (command : Command) (commands suffixes : List Command) :
    Moves style ⟨page, command :: commands, suffixes⟩
      (perform style ⟨page, commands, suffixes⟩ command) := by
  obtain ⟨level, mode, doc⟩ := command
  cases doc with
  | text content => exact .writes (.text content)
  | concat parts => exact .opens (.concat parts)
  | indent contents => exact .opens (.indent contents)
  | group contents broken =>
    change Moves style _ (printGroup style ⟨page, commands, suffixes⟩ _ contents broken)
    rw [chosen_group]
    exact .opens (.group contents broken)
  | ifBreak broken flat =>
    cases mode with
    | broken => exact .opens (.broken broken flat)
    | flat => exact .opens (.flat broken flat)
  | lineSuffix contents => exact .defers
  | line look => exact moves_line page level mode look commands suffixes
  | breakParent => exact .opens .breakParent
  | unknown value => exact .opens (.unknown value)

theorem moves_of_step (stepped : machine.step style = some next) : Moves style machine next := by
  obtain ⟨page, commands, suffixes⟩ := machine
  cases commands with
  | cons command commands =>
    cases stepped
    exact moves_perform page command commands suffixes
  | nil =>
    cases suffixes with
    | nil => cases stepped
    | cons first others =>
      cases stepped
      exact .ends (by simp)

end Moving

section Running

open StateTransition

variable {style : PageStyle} {machine next : Machine}

theorem reaches_run (style : PageStyle) (machine : Machine) :
    Reaches (step style) machine (machine.run style) ∧
      (machine.run style).commands = [] ∧ (machine.run style).suffixes = [] := by
  induction machine using run.induct style with
  | case1 machine stuck =>
    have ended : machine.run style = machine := by rw [run, stuck]
    rw [ended]
    refine ⟨.refl, ?_⟩
    unfold step at stuck
    split at stuck
    · cases stuck
    · next done =>
      split at stuck
      · next empty => exact ⟨done, List.isEmpty_iff.mp empty⟩
      · cases stuck
  | case2 machine next stepped ih =>
    rw [run_step stepped]
    exact ⟨.head stepped ih.1, ih.2⟩

theorem run_of_reaches (reached : Reaches (step style) machine next) :
    machine.run style = next.run style := by
  induction reached with
  | refl => rfl
  | tail _ stepped ih => exact ih.trans (run_step stepped)

theorem reaches_keeps {invariant : Machine → Prop}
    (keeps : ∀ {machine next}, Moves style machine next → invariant machine → invariant next)
    (reached : Reaches (step style) machine next) (start : invariant machine) : invariant next := by
  induction reached with
  | refl => exact start
  | tail _ stepped ih => exact keeps (moves_of_step stepped) ih

end Running

/-- Nothing waits for the end of a line, and a check passes at all that is to be printed. -/
structure Passes (check : Doc → Bool) (machine : Machine) : Prop where
  suffixes : machine.suffixes = []
  commands : everywhereOf check (machine.commands.map (·.doc))

section Passing

variable {style : PageStyle} {machine next : Machine} {check : Doc → Bool}

theorem passes_opens {page : Page} {command : Command} {commands more : List Command}
    (opened : Opens style page commands command more) (passes : command.doc.everywhere check) :
    everywhereOf check (more.map (·.doc)) := by
  cases opened with
  | concat parts =>
    simpa [Function.comp_def] using (Bool.and_eq_true_iff.mp passes).2
  | indent contents | group contents broken =>
    simpa [everywhereOf] using (Bool.and_eq_true_iff.mp passes).2
  | broken broken flat =>
    simpa [everywhereOf] using (Bool.and_eq_true_iff.mp (Bool.and_eq_true_iff.mp passes).2).1
  | flat broken flat =>
    simpa [everywhereOf] using (Bool.and_eq_true_iff.mp (Bool.and_eq_true_iff.mp passes).2).2
  | soft | breakParent | unknown => rfl

theorem Moves.passes (direct : ∀ contents, check (.lineSuffix contents) = false)
    (moved : Moves style machine next) (passes : machine.Passes check) : next.Passes check := by
  obtain ⟨none, all⟩ := passes
  cases moved with
  | opens opened =>
    rw [List.map_cons, everywhereOf, Bool.and_eq_true] at all
    exact ⟨none, by simp [passes_opens opened all.1, all.2]⟩
  | writes shown | breaks | skips =>
    rw [List.map_cons, everywhereOf, Bool.and_eq_true] at all
    exact ⟨none, all.2⟩
  | defers =>
    rw [List.map_cons, everywhereOf, Doc.everywhere, direct] at all
    cases all
  | flushes _ waiting | ends waiting => exact absurd none waiting

theorem passes_machine {doc : Doc} (blind : ∀ doc, check doc.marked = check doc)
    (passes : doc.everywhere check) : doc.machine.Passes check :=
  ⟨rfl, by simp [Doc.machine, everywhereOf, Doc.everywhere_marked blind, passes]⟩

end Passing

end Machine

end Squirrel
