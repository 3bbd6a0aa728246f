import Squirrel.Doc.Printer

/-! What printing a document comes to: the events on the page, one after the other. -/

namespace Squirrel

/-- A text is written, or waits for the end of its line; what waits is written; a line ends. -/
inductive Event where
  | text (content : String)
  | later (content : String)
  | flush
  | newline (level : Nat)
  deriving DecidableEq, Repr

/-- A page with the texts that wait for the end of its line. -/
structure Sheet where
  page : Page
  waiting : List String
  deriving DecidableEq, Repr

namespace Sheet

def play (style : PageStyle) (sheet : Sheet) : Event → Sheet
  | .text content => { sheet with page := sheet.page.write style content.toList }
  | .later content => { sheet with waiting := sheet.waiting ++ [content] }
  | .flush =>
    ⟨sheet.waiting.foldl (fun page content => page.write style content.toList) sheet.page, []⟩
  | .newline level => { sheet with page := sheet.page.newline style level }

def playAll (style : PageStyle) (sheet : Sheet) (events : List Event) : Sheet :=
  events.foldl (play style) sheet

variable (style : PageStyle) (sheet : Sheet)

@[simp] theorem playAll_nil : sheet.playAll style [] = sheet := rfl

@[simp] theorem playAll_cons (event : Event) (events : List Event) :
    sheet.playAll style (event :: events) = (sheet.play style event).playAll style events := rfl

@[simp] theorem playAll_append (first second : List Event) :
    sheet.playAll style (first ++ second) = (sheet.playAll style first).playAll style second :=
  List.foldl_append

end Sheet

namespace Doc

/-- The mode that the contents of a group are printed in; `after` says whether what follows the
group fits too. -/
def groupMode (style : PageStyle) (contents : Doc) (broken : Bool) (mode : Mode)
    (after : Int → Bool) (page : Page) : Mode :=
  let width := style.width - page.column
  if broken then .broken
  else if mode = .flat then .flat
  else if 0 ≤ width && contents.fitsThen style .flat after width then .flat
  else .broken

def lineEvents (style : PageStyle) (look : LineStyle) (mode : Mode) (level : Nat) (sheet : Sheet) :
    List Event :=
  if mode = .flat ∧ ¬ look.hard then
    if look.soft then [] else [.text " "]
  else if look.fresh ∧ ¬ (sheet.play style .flush).page.inked then [.flush]
  else [.flush, .newline level]

def suffixEvents : Doc → List Event
  | .text content => [.later content]
  | _ => []

mutual

/-- The events of printing a document on a sheet, at a level and in a mode. -/
def lay (style : PageStyle) : Doc → Mode → Nat → (Int → Bool) → Sheet → List Event
  | .text content, _, _, _, _ => if content = "" then [] else [.text content]
  | .concat parts, mode, level, after, sheet => layAll style parts mode level after sheet
  | .indent contents, mode, level, after, sheet => contents.lay style mode (level + 1) after sheet
  | .group contents broken, mode, level, after, sheet =>
    contents.lay style (groupMode style contents broken mode after sheet.page) level after sheet
  | .ifBreak broken flat, mode, level, after, sheet =>
    match mode with
    | .broken => broken.lay style mode level after sheet
    | .flat => flat.lay style mode level after sheet
  | .line look, mode, level, _, sheet => lineEvents style look mode level sheet
  | .lineSuffix contents, _, _, _, _ => suffixEvents contents
  | .breakParent, _, _, _, _ => []
  | .unknown _, _, _, _, _ => []

def layAll (style : PageStyle) : List Doc → Mode → Nat → (Int → Bool) → Sheet → List Event
  | [], _, _, _, _ => []
  | doc :: docs, mode, level, after, sheet =>
    let events := doc.lay style mode level (Doc.allFitThen style docs mode after) sheet
    events ++ layAll style docs mode level after (sheet.playAll style events)

end

mutual

def isTame : Doc → Bool
  | .concat parts => areTame parts
  | .group contents _ => contents.isTame
  | .indent contents => contents.isTame
  | .ifBreak broken flat => broken.isTame && flat.isTame
  | .lineSuffix (.text _) => true
  | .lineSuffix _ => false
  | .text _ | .line _ | .breakParent | .unknown _ => true

def areTame : List Doc → Bool
  | [] => true
  | doc :: docs => doc.isTame && areTame docs

end

end Doc

namespace Machine

def pendingFits (style : PageStyle) (commands : List Command) : Int → Bool :=
  commands.foldr (·.fitsThen style) fun _ => true

theorem run_step {style : PageStyle} {machine next : Machine}
    (stepped : machine.step style = some next) : machine.run style = next.run style := by
  rw [run]
  split
  · next stuck => rw [stuck] at stepped; cases stepped
  · next other same =>
    rw [same] at stepped
    cases stepped
    rfl

theorem run_perform (style : PageStyle) (page : Page) (command : Command)
    (commands suffixes : List Command) :
    (Machine.mk page (command :: commands) suffixes).run style =
      ((Machine.mk page commands suffixes).perform style command).run style :=
  run_step rfl

theorem run_done (style : PageStyle) (page : Page) :
    (Machine.mk page [] []).run style = ⟨page, [], []⟩ := by
  rw [run]
  rfl

theorem run_suffixes (style : PageStyle) (page : Page) (suffixes : List Command) :
    (Machine.mk page [] suffixes).run style = (Machine.mk page suffixes []).run style := by
  cases suffixes with
  | nil => rfl
  | cons suffix suffixes => exact run_step rfl

theorem run_texts (style : PageStyle) (page : Page) (commands : List Command) {texts : List Command}
    {contents : List String} (areTexts : texts.map (·.doc) = contents.map .text) :
    (Machine.mk page (texts ++ commands) []).run style =
      (Machine.mk (contents.foldl (fun page content => page.write style content.toList) page)
        commands []).run style := by
  induction contents generalizing page texts with
  | nil =>
    rw [List.map_nil, List.map_eq_nil_iff] at areTexts
    rw [areTexts]
    rfl
  | cons content contents ih =>
    obtain ⟨text, others, rfl, isText, rest⟩ := List.map_eq_cons_iff.mp areTexts
    rw [List.cons_append, run_perform, List.foldl_cons]
    simp only [perform, isText]
    exact ih _ rest

theorem pendingFits_parts (style : PageStyle) (level : Nat) (mode : Mode) (parts : List Doc)
    (commands : List Command) :
    pendingFits style (parts.map (fun part => ⟨level, mode, part⟩) ++ commands) =
      Doc.allFitThen style parts mode (pendingFits style commands) := by
  induction parts with
  | nil =>
    funext width
    rw [Doc.allFitThen]
    rfl
  | cons part parts ih =>
    funext width
    rw [Doc.allFitThen, ← ih]
    rfl

def Plays (style : PageStyle) (first commands suffixes : List Command) (sheet : Sheet)
    (events : List Event) : Prop :=
  ∃ after : List Command, after.map (·.doc) = (sheet.playAll style events).waiting.map .text ∧
    (Machine.mk sheet.page (first ++ commands) suffixes).run style =
      (Machine.mk (sheet.playAll style events).page commands after).run style

theorem run_break (style : PageStyle) {sheet : Sheet} {page : Page} (look : LineStyle) (level : Nat)
    (commands : List Command) (flushed : page = (sheet.play style .flush).page) :
    let events := if look.fresh ∧ ¬ (sheet.play style .flush).page.inked then [Event.flush]
      else [.flush, .newline level]
    ∃ after : List Command, after.map (·.doc) = (sheet.playAll style events).waiting.map .text ∧
      (if look.fresh ∧ ¬ page.inked then Machine.mk page commands []
        else ⟨page.newline style level, commands, []⟩).run style =
        (Machine.mk (sheet.playAll style events).page commands after).run style := by
  subst flushed
  dsimp only
  split <;> exact ⟨[], rfl, rfl⟩

variable {sheet : Sheet} {level : Nat} {mode : Mode} {commands suffixes : List Command}

theorem plays_line (style : PageStyle) (look : LineStyle)
    (waiting : suffixes.map (·.doc) = sheet.waiting.map .text) :
    Plays style [⟨level, mode, .line look⟩] commands suffixes sheet
      (Doc.lineEvents style look mode level sheet) := by
  unfold Plays
  rw [List.singleton_append, run_perform]
  simp only [perform, printLine, Doc.lineEvents]
  by_cases flat : mode = .flat ∧ ¬ look.hard
  · rw [if_pos flat, if_pos flat]
    split <;> exact ⟨suffixes, waiting, rfl⟩
  rw [if_neg flat, if_neg flat]
  cases suffixes with
  | nil =>
    rw [List.map_nil, eq_comm, List.map_eq_nil_iff] at waiting
    exact run_break style look level commands (by simp [Sheet.play, waiting])
  | cons suffix suffixes =>
    simp only [List.isEmpty_cons, Bool.false_eq_true, if_false]
    rw [run_texts style _ _ waiting, run_perform]
    simp only [perform, printLine, if_neg flat, List.isEmpty_nil, if_true]
    exact run_break style look level commands rfl

theorem chosen_group (style : PageStyle) (machine : Machine) (command : Command) (contents : Doc)
    (broken : Bool) :
    machine.printGroup style command contents broken =
      { machine with commands := ⟨command.level, contents.groupMode style broken command.mode
        (pendingFits style machine.commands) machine.page, contents⟩ :: machine.commands } := by
  have same : (Command.mk command.level .flat contents).fits style machine.commands
      (style.width - machine.page.column) = (decide (0 ≤ style.width - machine.page.column) &&
        contents.fitsThen style .flat (pendingFits style machine.commands)
          (style.width - machine.page.column)) := rfl
  unfold printGroup Doc.groupMode
  dsimp only
  rw [← same]
  cases broken <;> cases command.mode <;> cases Command.fits style _ _ _ <;> rfl

mutual

theorem plays_lay (style : PageStyle) {sheet : Sheet} {level : Nat} {mode : Mode}
    {commands suffixes : List Command} (waiting : suffixes.map (·.doc) = sheet.waiting.map .text) :
    (doc : Doc) → doc.isTame → Plays style [⟨level, mode, doc⟩] commands suffixes sheet
      (doc.lay style mode level (pendingFits style commands) sheet)
  | .text content, _ => by
    rw [Doc.lay]
    split
    · next isEmpty =>
      subst isEmpty
      exact ⟨suffixes, waiting, run_perform ..⟩
    · exact ⟨suffixes, waiting, run_perform ..⟩
  | .concat parts, tame => by
    rw [Doc.isTame] at tame
    rw [Plays, List.singleton_append, run_perform, Doc.lay]
    exact plays_layAll style waiting parts tame
  | .indent contents, tame => by
    rw [Doc.isTame] at tame
    rw [Plays, List.singleton_append, run_perform, Doc.lay]
    exact plays_lay style waiting contents tame
  | .group contents broken, tame => by
    rw [Doc.isTame] at tame
    rw [Plays, List.singleton_append, run_perform, Doc.lay]
    simp only [perform, chosen_group]
    exact plays_lay style waiting contents tame
  | .ifBreak broken flat, tame => by
    rw [Doc.isTame, Bool.and_eq_true] at tame
    rw [Plays, List.singleton_append, run_perform]
    cases mode <;> rw [Doc.lay]
    case broken => exact plays_lay style waiting broken tame.1
    case flat => exact plays_lay style waiting flat tame.2
  | .line look, _ => by
    rw [Doc.lay]
    exact plays_line style look waiting
  | .lineSuffix (.text content), _ => by
    rw [Doc.lay]
    refine ⟨suffixes ++ [⟨level, mode, .text content⟩], ?_, run_perform ..⟩
    simp [Doc.suffixEvents, Sheet.play, waiting]
  | .breakParent, _ | .unknown _, _ => by
    rw [Doc.lay]
    exact ⟨suffixes, waiting, run_perform ..⟩

theorem plays_layAll (style : PageStyle) {sheet : Sheet} {level : Nat} {mode : Mode}
    {commands suffixes : List Command} (waiting : suffixes.map (·.doc) = sheet.waiting.map .text) :
    (docs : List Doc) → Doc.areTame docs →
      Plays style (docs.map fun doc => ⟨level, mode, doc⟩) commands suffixes sheet
        (Doc.layAll style docs mode level (pendingFits style commands) sheet)
  | [], _ => by
    rw [Doc.layAll]
    exact ⟨suffixes, waiting, rfl⟩
  | doc :: docs, tame => by
    rw [Doc.areTame, Bool.and_eq_true] at tame
    have one : Plays style [⟨level, mode, doc⟩] (docs.map (fun doc => ⟨level, mode, doc⟩) ++ commands)
      suffixes sheet _ := plays_lay style waiting doc tame.1
    rw [pendingFits_parts] at one
    obtain ⟨middle, between, first⟩ := one
    obtain ⟨after, left, second⟩ := plays_layAll style between docs tame.2
    rw [Doc.layAll, Plays, Sheet.playAll_append]
    exact ⟨after, left, first.trans second⟩

end

end Machine

namespace Doc

mutual

theorem isTame_propagate : (doc : Doc) → doc.isTame → doc.propagate.1.isTame
  | .text _, _ | .line _, _ | .breakParent, _ | .unknown _, _ => by rw [propagate, isTame]
  | .lineSuffix (.text _), _ => by rw [propagate, propagate, isTame]
  | .concat parts, tame => by
    rw [isTame] at tame
    rw [propagate, isTame]
    exact areTame_propagateAll parts tame
  | .group contents _, tame | .indent contents, tame => by
    rw [isTame] at tame
    rw [propagate, isTame]
    exact isTame_propagate contents tame
  | .ifBreak broken flat, tame => by
    rw [isTame, Bool.and_eq_true] at tame
    rw [propagate, isTame, Bool.and_eq_true]
    exact ⟨isTame_propagate broken tame.1, isTame_propagate flat tame.2⟩

theorem areTame_propagateAll : (docs : List Doc) → areTame docs → areTame (propagateAll docs).1
  | [], _ => by rw [propagateAll, areTame]
  | doc :: docs, tame => by
    rw [areTame, Bool.and_eq_true] at tame
    rw [propagateAll, areTame, Bool.and_eq_true]
    exact ⟨isTame_propagate doc tame.1, areTame_propagateAll docs tame.2⟩

end

theorem printOn_eq_playAll (style : PageStyle) (page : Page) {doc : Doc} (tame : doc.isTame) :
    doc.printOn style page =
      ((Sheet.mk page []).playAll style
        (doc.propagate.1.lay style .broken 0 (fun _ => true) ⟨page, []⟩ ++ [.flush])).page.trim := by
  obtain ⟨suffixes, waiting, same⟩ := @Machine.plays_lay style ⟨page, []⟩ 0 .broken [] [] rfl
    doc.propagate.1 (isTame_propagate doc tame)
  have written := Machine.run_texts style
    ((Sheet.mk page []).playAll style
      (doc.propagate.1.lay style .broken 0 (fun _ => true) ⟨page, []⟩)).page [] waiting
  rw [List.append_nil, Machine.run_done] at written
  rw [printOn, Sheet.playAll_append]
  exact congrArg (fun machine : Machine => machine.page.trim)
    (same.trans ((Machine.run_suffixes ..).trans written))

end Doc

end Squirrel
