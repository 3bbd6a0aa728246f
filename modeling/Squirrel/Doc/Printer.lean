import Squirrel.Doc.Page

/-! Printing documents. A machine works off a stack of commands; every step makes it lighter. -/

namespace Squirrel

inductive Mode where
  | broken | flat
  deriving DecidableEq, Repr

structure Command where
  level : Nat
  mode : Mode
  doc : Doc
  deriving Repr

mutual

/-- Whether a document fits into `width`, up to its first line break; where it has none, `after`
decides about the width that is left. -/
def Doc.fitsThen (style : PageStyle) : Doc → Mode → (Int → Bool) → Int → Bool
  | .text content, _, after, width =>
    let shown := content.toList.takeWhile (· ≠ '\n')
    let left := width - style.textWidth shown
    if content.toList.contains '\n' then 0 ≤ left else 0 ≤ left && after left
  | .concat parts, mode, after, width => Doc.allFitThen style parts mode after width
  | .indent contents, mode, after, width => contents.fitsThen style mode after width
  | .group contents broken, mode, after, width =>
    contents.fitsThen style (if broken then .broken else mode) after width
  | .ifBreak broken flat, mode, after, width =>
    match mode with
    | .broken => broken.fitsThen style mode after width
    | .flat => flat.fitsThen style mode after width
  | .line look, mode, after, width =>
    if mode = .broken ∨ look.hard then true
    else if look.soft then after width
    else 0 ≤ width - 1 && after (width - 1)
  | .lineSuffix _, _, after, width => after width
  | .breakParent, _, after, width => after width
  | .unknown _, _, after, width => after width

def Doc.allFitThen (style : PageStyle) : List Doc → Mode → (Int → Bool) → Int → Bool
  | [], _, after, width => after width
  | doc :: docs, mode, after, width =>
    doc.fitsThen style mode (Doc.allFitThen style docs mode after) width

end

def Command.fitsThen (style : PageStyle) (command : Command) (after : Int → Bool) : Int → Bool :=
  command.doc.fitsThen style command.mode after

/-- Whether a command, and what follows it, fits into `width` up to the next line break. -/
def Command.fits (style : PageStyle) (command : Command) (pending : List Command) (width : Int) :
    Bool :=
  0 ≤ width &&
    command.fitsThen style (pending.foldr (·.fitsThen style) fun _ => true) width

/-- `suffixes` wait for the next line break. -/
structure Machine where
  page : Page
  commands : List Command
  suffixes : List Command
  deriving Repr

namespace Machine

def printGroup (style : PageStyle) (machine : Machine) (command : Command) (contents : Doc)
    (broken : Bool) : Machine :=
  let flat : Command := ⟨command.level, .flat, contents⟩
  let wide : Command := ⟨command.level, .broken, contents⟩
  let chosen :=
    if broken then wide
    else if command.mode = .flat then flat
    else if flat.fits style machine.commands (style.width - machine.page.column) then flat
    else wide
  { machine with commands := chosen :: machine.commands }

def printLine (style : PageStyle) (machine : Machine) (command : Command) (line : LineStyle) :
    Machine :=
  if command.mode = .flat ∧ ¬ line.hard then
    if line.soft then machine
    else { machine with page := machine.page.write style [' '] }
  else if machine.suffixes.isEmpty then
    if line.fresh ∧ ¬ machine.page.inked then machine
    else { machine with page := machine.page.newline style command.level }
  else
    { machine with commands := machine.suffixes ++ command :: machine.commands, suffixes := [] }

/-- Carries out a command that has been taken from the stack. -/
def perform (style : PageStyle) (machine : Machine) (command : Command) : Machine :=
  match command.doc with
  | .text content => { machine with page := machine.page.write style content.toList }
  | .concat parts =>
    { machine with
      commands := parts.map (fun part => ⟨command.level, command.mode, part⟩) ++ machine.commands }
  | .indent contents =>
    { machine with commands := ⟨command.level + 1, command.mode, contents⟩ :: machine.commands }
  | .group contents broken => machine.printGroup style command contents broken
  | .ifBreak broken flat =>
    let chosen := if command.mode = .broken then broken else flat
    { machine with commands := ⟨command.level, command.mode, chosen⟩ :: machine.commands }
  | .lineSuffix contents =>
    { machine with suffixes := machine.suffixes ++ [⟨command.level, command.mode, contents⟩] }
  | .line line => machine.printLine style command line
  | .breakParent => machine
  | .unknown _ => machine

def step (style : PageStyle) (machine : Machine) : Option Machine :=
  match machine.commands with
  | command :: commands => some ({ machine with commands := commands }.perform style command)
  | [] =>
    if machine.suffixes.isEmpty then none
    else some { machine with commands := machine.suffixes, suffixes := [] }

end Machine

mutual

/-- How many steps a document takes at most. -/
def Doc.weight : Doc → Nat
  | .text _ => 1
  | .concat parts => Doc.weightAll parts + 1
  | .group contents _ => contents.weight + 1
  | .indent contents => contents.weight + 1
  | .line _ => 1
  | .ifBreak broken flat => broken.weight + flat.weight + 1
  | .lineSuffix contents => contents.weight + 2
  | .breakParent => 1
  | .unknown _ => 1

def Doc.weightAll : List Doc → Nat
  | [] => 0
  | doc :: docs => doc.weight + Doc.weightAll docs

end

namespace Machine

def commandWeight (commands : List Command) : Nat := Doc.weightAll (commands.map (·.doc))

def suffixWeight (suffixes : List Command) : Nat := commandWeight suffixes + suffixes.length

def weight (machine : Machine) : Nat :=
  commandWeight machine.commands + suffixWeight machine.suffixes

@[simp] theorem commandWeight_nil : commandWeight [] = 0 := rfl

@[simp] theorem commandWeight_cons (command : Command) (commands : List Command) :
    commandWeight (command :: commands) = command.doc.weight + commandWeight commands := rfl

@[simp] theorem commandWeight_append (first second : List Command) :
    commandWeight (first ++ second) = commandWeight first + commandWeight second := by
  induction first with
  | nil => simp
  | cons command first ih => simp [ih, Nat.add_assoc]

theorem suffixWeight_concat (suffixes : List Command) (command : Command) :
    suffixWeight (suffixes ++ [command]) = suffixWeight suffixes + command.doc.weight + 1 := by
  simp [suffixWeight]
  omega

theorem commandWeight_parts (level : Nat) (mode : Mode) (parts : List Doc) :
    commandWeight (parts.map fun part => ⟨level, mode, part⟩) = Doc.weightAll parts := by
  simp [commandWeight, Function.comp_def]

theorem weight_printGroup (style : PageStyle) (machine : Machine) (command : Command)
    (contents : Doc) (broken : Bool) :
    (machine.printGroup style command contents broken).weight =
      contents.weight + machine.weight := by
  have chosen : ∀ c : Command, c.doc = contents →
      weight { machine with commands := c :: machine.commands } =
        contents.weight + machine.weight := by
    intro c same
    simp [weight, same, Nat.add_assoc]
  unfold printGroup
  dsimp only
  split
  · exact chosen _ rfl
  split
  · exact chosen _ rfl
  split <;> exact chosen _ rfl

theorem weight_printLine (style : PageStyle) (machine : Machine) (command : Command)
    (line : LineStyle) (same : command.doc = .line line) :
    (machine.printLine style command line).weight < machine.weight + 1 := by
  unfold printLine
  split
  · split <;> simp [weight]
  split
  · split <;> simp [weight]
  · next waiting =>
    have waitingSome : 0 < machine.suffixes.length := by
      cases listed : machine.suffixes <;> simp_all
    simp only [weight, suffixWeight, commandWeight_append, commandWeight_cons, commandWeight_nil, same,
      Doc.weight, List.length_nil]
    omega

theorem weight_perform (style : PageStyle) (machine : Machine) (command : Command) :
    (machine.perform style command).weight < command.doc.weight + machine.weight := by
  unfold perform
  split
  · next same => simp only [weight, same, Doc.weight]; omega
  · next same =>
    simp only [weight, same, Doc.weight, commandWeight_append, commandWeight_parts]
    omega
  · next same => simp only [weight, same, Doc.weight, commandWeight_cons]; omega
  · next same => simp only [weight_printGroup, same, Doc.weight]; omega
  · next same =>
    dsimp only
    split <;> simp only [weight, same, Doc.weight, commandWeight_cons] <;> omega
  · next same =>
    simp only [weight, same, Doc.weight, suffixWeight_concat]
    omega
  · next line same =>
    have lighter := weight_printLine style machine command line same
    simp only [same, Doc.weight]
    omega
  · next same => simp only [same, Doc.weight]; omega
  · next same => simp only [same, Doc.weight]; omega

theorem weight_step {style : PageStyle} {machine next : Machine}
    (stepped : machine.step style = some next) : next.weight < machine.weight := by
  unfold step at stepped
  split at stepped
  · next command commands stack =>
    have lighter := weight_perform style { machine with commands := commands } command
    simp only [Option.some.injEq] at stepped
    subst stepped
    simp only [weight, stack, commandWeight_cons] at lighter ⊢
    omega
  · next stack =>
    split at stepped
    · simp at stepped
    · next waiting =>
      simp only [Option.some.injEq] at stepped
      subst stepped
      have waitingSome : 0 < machine.suffixes.length := by
        cases listed : machine.suffixes <;> simp_all
      simp only [weight, suffixWeight, stack, commandWeight_nil, List.length_nil]
      omega

def run (style : PageStyle) (machine : Machine) : Machine :=
  match _stepped : machine.step style with
  | none => machine
  | some next => next.run style
termination_by machine.weight
decreasing_by exact weight_step ‹_›

end Machine

namespace Doc

/-- Prints a document that holds no unknown element, after what is on the page already. -/
def printOn (style : PageStyle) (page : Page) (doc : Doc) : Page :=
  let machine : Machine := ⟨page, [⟨0, .broken, doc.propagate.1⟩], []⟩
  (machine.run style).page.trim

def printFrom (style : PageStyle) (page : Page) (doc : Doc) : Except UnknownElement Page :=
  match doc.unknown? with
  | some element => .error element
  | none => .ok (doc.printOn style page)

end Doc

end Squirrel
