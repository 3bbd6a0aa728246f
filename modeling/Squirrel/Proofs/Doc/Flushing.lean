import Squirrel.Proofs.Doc.Propagation
import Squirrel.Proofs.Doc.Spelling

/-! Every part of a document that its mode asks for is printed once, also what waits for the end of a
line. -/

namespace Squirrel

/-- A command for what stands at a place of a document. -/
structure Errand where
  place : List Nat
  command : Command

namespace Errand

abbrev doc (errand : Errand) : Doc := errand.command.doc

/-- The errands for the parts of a document, in the mode of its contents. Of a choice there is one
part, by the mode that it is printed in. -/
def parts (errand : Errand) (mode : Mode) : List Errand :=
  let inside (number level : Nat) (part : Doc) : Errand :=
    ⟨errand.place ++ [number], ⟨level, mode, part⟩⟩
  match errand.command with
  | ⟨level, _, .concat parts⟩ => parts.zipIdx.map fun part => inside part.2 level part.1
  | ⟨level, _, .indent contents⟩ => [inside 0 (level + 1) contents]
  | ⟨level, _, .group contents _⟩ | ⟨level, _, .lineSuffix contents⟩ => [inside 0 level contents]
  | ⟨level, .broken, .ifBreak broken _⟩ => [inside 0 level broken]
  | ⟨level, .flat, .ifBreak _ flat⟩ => [inside 1 level flat]
  | ⟨_, _, .text _⟩ | ⟨_, _, .line _⟩ | ⟨_, _, .breakParent⟩ | ⟨_, _, .unknown _⟩ => []

end Errand

/-- A machine that knows the places of its commands, and the errands that are done, each with the mode
of the contents. -/
structure Tour where
  page : Page
  ahead : List Errand
  waiting : List Errand
  behind : List (Errand × Mode)

namespace Tour

def machine (tour : Tour) : Machine :=
  ⟨tour.page, tour.ahead.map (·.command), tour.waiting.map (·.command)⟩

/-- What a step does with the errands. One is done, and leaves those for its parts; those of a line
suffix wait. Or all that waits is taken up. -/
inductive Turn (tour : Tour) : Tour → Prop where
  | does {errand : Errand} {ahead : List Errand} (top : tour.ahead = errand :: ahead)
      (ready : errand.doc.isSuffix = false) (page : Page) (mode : Mode) :
    Turn tour ⟨page, errand.parts mode ++ ahead, tour.waiting, tour.behind ++ [(errand, mode)]⟩
  | defers {errand : Errand} {ahead : List Errand} {contents : Doc} (top : tour.ahead = errand :: ahead)
      (suffix : errand.doc = .lineSuffix contents) (mode : Mode) :
    Turn tour ⟨tour.page, ahead, tour.waiting ++ errand.parts mode, tour.behind ++ [(errand, mode)]⟩
  | returns : Turn tour ⟨tour.page, tour.waiting ++ tour.ahead, [], tour.behind⟩

structure Moves (style : PageStyle) (tour next : Tour) : Prop where
  stepped : tour.machine.step style = some next.machine
  turn : Turn tour next

abbrev Reaches (style : PageStyle) : Tour → Tour → Prop := Relation.ReflTransGen (Moves style)

end Tour

def Doc.errand (doc : Doc) : Errand := ⟨[], ⟨0, .broken, doc.marked⟩⟩

def Doc.tour (doc : Doc) : Tour := ⟨.blank, [doc.errand], [], []⟩

theorem Machine.printLine_cases (style : PageStyle) (machine : Machine) (command : Command)
    (look : LineStyle) :
    (∃ page, machine.printLine style command look = { machine with page := page }) ∨
      machine.printLine style command look =
        { machine with commands := machine.suffixes ++ command :: machine.commands, suffixes := [] } := by
  unfold printLine
  split
  · split <;> exact .inl ⟨_, rfl⟩
  split
  · split <;> exact .inl ⟨_, rfl⟩
  · exact .inr rfl

namespace Tour

variable {style : PageStyle} {tour next : Tour}

theorem exists_moves_errand (page : Page) (errand : Errand) (ahead waiting : List Errand)
    (behind : List (Errand × Mode)) :
    ∃ next, Moves style ⟨page, errand :: ahead, waiting, behind⟩ next := by
  obtain ⟨place, level, mode, doc⟩ := errand
  cases doc with
  | text | indent | breakParent | unknown => exact ⟨_, rfl, .does rfl rfl _ mode⟩
  | concat parts =>
    have same := congrArg (List.map (Command.mk level mode)) (List.zipIdx_map_fst 0 parts)
    simp only [List.map_map] at same
    refine ⟨_, congrArg some ?_, .does rfl rfl page mode⟩
    simp [machine, Machine.perform, Errand.parts, Function.comp_def, ← same]
  | group contents broken =>
    refine ⟨_, ?_, .does rfl rfl page (contents.groupMode style broken mode
      (Machine.pendingFits style (ahead.map (·.command))) page)⟩
    exact congrArg some (Machine.chosen_group ..)
  | ifBreak broken flat => cases mode <;> exact ⟨_, rfl, .does rfl rfl _ _⟩
  | lineSuffix contents =>
    exact ⟨_, by simp [machine, Machine.step, Machine.perform, Errand.parts], .defers rfl rfl mode⟩
  | line look =>
    have lines := Machine.printLine_cases style ⟨page, ahead.map (·.command), waiting.map (·.command)⟩
      ⟨level, mode, .line look⟩ look
    rcases lines with ⟨after, passed⟩ | put
    · refine ⟨_, ?_, .does rfl rfl after mode⟩
      exact congrArg some passed
    · exact ⟨_, congrArg some (put.trans (by simp [machine])), .returns⟩

theorem exists_moves {machine : Machine} (stepped : tour.machine.step style = some machine) :
    ∃ next, Moves style tour next ∧ next.machine = machine := by
  have lies : ∃ next, Moves style tour next := by
    obtain ⟨page, ahead, waiting, behind⟩ := tour
    cases ahead with
    | cons errand ahead => exact exists_moves_errand page errand ahead waiting behind
    | nil =>
      cases waiting with
      | nil => cases stepped
      | cons first others => exact ⟨_, by simp [Tour.machine, Machine.step], .returns⟩
  obtain ⟨next, moved⟩ := lies
  exact ⟨next, moved, Option.some.inj (moved.stepped.symm.trans stepped)⟩

theorem exists_reaches {machine : Machine}
    (reached : StateTransition.Reaches (Machine.step style) tour.machine machine) :
    ∃ next, Reaches style tour next ∧ next.machine = machine := by
  induction reached with
  | refl => exact ⟨tour, .refl, rfl⟩
  | tail _ stepped ih =>
    obtain ⟨middle, before, rfl⟩ := ih
    obtain ⟨next, moved, same⟩ := exists_moves stepped
    exact ⟨next, before.tail moved, same⟩

end Tour

theorem Doc.at?_append (doc : Doc) (places : List Nat) (number : Nat) :
    doc.at? (places ++ [number]) = (doc.at? places).bind (·.inner[number]?) := by
  induction places generalizing doc with
  | nil => simp [at?]
  | cons place places ih =>
    rw [List.cons_append, at?, at?, Option.bind_assoc]
    exact congrArg _ (funext ih)

namespace Errand

theorem exists_numbers (errand : Errand) (mode : Mode) : ∃ numbers : List Nat, numbers.Nodup ∧
    (errand.parts mode).map (·.place) = numbers.map (errand.place ++ [·]) := by
  obtain ⟨place, level, own, doc⟩ := errand
  cases doc with
  | concat parts =>
    refine ⟨List.range' 0 parts.length, List.nodup_range', ?_⟩
    rw [← List.zipIdx_map_snd 0 parts, List.map_map, Errand.parts, List.map_map]
    rfl
  | ifBreak =>
    cases own with
    | broken => exact ⟨[0], List.nodup_singleton 0, rfl⟩
    | flat => exact ⟨[1], List.nodup_singleton 1, rfl⟩
  | indent | group | lineSuffix => exact ⟨[0], List.nodup_singleton 0, rfl⟩
  | text | line | breakParent | unknown => exact ⟨[], List.nodup_nil, rfl⟩

theorem mem_parts {errand part : Errand} {mode : Mode} (member : part ∈ errand.parts mode) :
    ∃ number, part.place = errand.place ++ [number] ∧ errand.doc.inner[number]? = some part.doc := by
  obtain ⟨place, level, own, doc⟩ := errand
  cases doc with
  | concat parts =>
    obtain ⟨⟨_, number⟩, isPart, rfl⟩ := List.mem_map.mp member
    exact ⟨number, rfl, List.mem_zipIdx_iff_getElem?.mp isPart⟩
  | ifBreak =>
    cases own <;> obtain rfl := List.mem_singleton.mp member
    · exact ⟨0, rfl, rfl⟩
    · exact ⟨1, rfl, rfl⟩
  | indent | group | lineSuffix =>
    obtain rfl := List.mem_singleton.mp member
    exact ⟨0, rfl, rfl⟩
  | text | line | breakParent | unknown => cases member

end Errand

namespace Tour

def errands (tour : Tour) : List Errand := tour.behind.map (·.1) ++ (tour.ahead ++ tour.waiting)

/-- The errand for a document, and those for the parts of what is printed. -/
def asked (doc : Doc) (tour : Tour) : List Errand :=
  doc.errand :: tour.behind.flatMap fun done => done.1.parts done.2

/-- What is asked for is done or to be done, once, and stands in the document. -/
structure Accounts (doc : Doc) (tour : Tour) : Prop where
  conserved : (tour.asked doc).Perm tour.errands
  stands : ∀ errand ∈ tour.asked doc, doc.marked.at? errand.place = some errand.doc

variable {style : PageStyle} {doc : Doc} {tour next : Tour}

theorem Accounts.parts {errand : Errand} {ahead ahead' waiting' : List Errand}
    (accounts : tour.Accounts doc) (top : tour.ahead = errand :: ahead) (page : Page) {mode : Mode}
    (moved : (ahead ++ tour.waiting ++ errand.parts mode).Perm (ahead' ++ waiting')) :
    Accounts doc ⟨page, ahead', waiting', tour.behind ++ [(errand, mode)]⟩ := by
  have more : asked doc ⟨page, ahead', waiting', tour.behind ++ [(errand, mode)]⟩ =
      tour.asked doc ++ errand.parts mode := by
    simp [asked]
  constructor
  · rw [more]
    refine (accounts.conserved.append_right _).trans ?_
    simpa [errands, top] using (moved.cons errand).append_left (tour.behind.map (·.1))
  · intro other member
    rw [more, List.mem_append] at member
    rcases member with member | member
    · exact accounts.stands other member
    · obtain ⟨number, place, part⟩ := Errand.mem_parts member
      have here : errand ∈ tour.asked doc := accounts.conserved.mem_iff.mpr (by simp [errands, top])
      rw [place, Doc.at?_append, accounts.stands errand here]
      exact part

theorem Turn.accounts (turn : Turn tour next) (accounts : tour.Accounts doc) : next.Accounts doc := by
  cases turn with
  | does top _ page =>
    refine accounts.parts top page ?_
    rw [List.append_assoc _ _ tour.waiting]
    exact List.perm_append_comm
  | defers top => exact accounts.parts top _ (by rw [List.append_assoc])
  | returns =>
    refine ⟨accounts.conserved.trans ?_, accounts.stands⟩
    exact List.Perm.append_left _ (by simpa using List.perm_append_comm)

theorem accounts_reaches (reached : Reaches style doc.tour tour) : tour.Accounts doc := by
  induction reached with
  | refl => exact ⟨.refl _, by simp [asked, Doc.tour, Doc.errand, Doc.at?]⟩
  | tail _ moved ih => exact moved.turn.accounts ih

theorem count_asked (tour : Tour) (place : List Nat) (number : Nat) :
    ((tour.asked doc).map (·.place)).count (place ++ [number]) ≤
      (tour.behind.map (·.1.place)).count place := by
  have inside (errand : Errand) (mode : Mode) :
      ((errand.parts mode).map (·.place)).count (place ++ [number]) ≤ [errand.place].count place := by
    obtain ⟨numbers, distinct, places⟩ := errand.exists_numbers mode
    rw [places]
    by_cases same : errand.place = place
    · rw [same, List.count_singleton_self]
      refine List.nodup_iff_count_le_one.mp (distinct.map fun _ _ equal => ?_) _
      simpa using equal
    · rw [List.count_eq_zero.mpr]
      · exact Nat.zero_le _
      · simp [same]
  have root : (doc.errand.place == place ++ [number]) = false := by simp [Doc.errand]
  rw [asked, List.map_cons, List.count_cons, root]
  induction tour.behind with
  | nil => simp
  | cons done behind ih =>
    have := inside done.1 done.2
    simp only [List.flatMap_cons, List.map_append, List.count_append, List.map_cons, List.count_cons,
      List.count_nil] at ih this ⊢
    omega

theorem Accounts.nodup (accounts : tour.Accounts doc) : (tour.errands.map (·.place)).Nodup := by
  have same := accounts.conserved.map (·.place)
  rw [← same.nodup_iff, List.nodup_iff_count_le_one]
  intro place
  induction place using List.reverseRecOn with
  | nil =>
    have inner : [] ∉ (tour.behind.flatMap fun done => done.1.parts done.2).map (·.place) := by
      simp only [List.mem_map, List.mem_flatMap]
      rintro ⟨part, ⟨done, -, member⟩, top⟩
      obtain ⟨number, place, -⟩ := Errand.mem_parts member
      simp [place] at top
    simp [asked, List.count_eq_zero.mpr inner, Doc.errand]
  | append_singleton place number ih =>
    refine (count_asked tour place number).trans (.trans ?_ ih)
    rw [same.count_eq]
    simp [errands, Function.comp_def]

end Tour

namespace Doc

def isInline : Doc → Bool
  | .line _ | .lineSuffix _ => false
  | _ => true

def defersInline : Doc → Bool
  | .lineSuffix contents => contents.everywhere isInline
  | _ => true

def shown : Doc → List Char
  | .text content => content.toList
  | _ => []

def Defers (doc : Doc) (place : List Nat) : Prop :=
  ∃ around contents, doc.at? around = some (.lineSuffix contents) ∧ around ++ [0] <+: place

variable {doc part : Doc} {check : Doc → Bool}

theorem check_of_everywhere (passes : doc.everywhere check) : check doc := by
  cases doc <;> simp_all [everywhere]

theorem everywhere_of_mem_inner (passes : doc.everywhere check) (member : part ∈ doc.inner) :
    part.everywhere check := by
  cases doc with
  | concat parts =>
    rw [everywhere, Bool.and_eq_true] at passes
    have each := passes.2
    clear passes
    induction parts with
    | nil => cases member
    | cons first parts ih =>
      rw [everywhereOf, Bool.and_eq_true] at each
      rcases List.mem_cons.mp member with rfl | later
      · exact each.1
      · exact ih later each.2
  | _ => grind [everywhere, inner]

theorem everywhere_defersInline_marked (inline : doc.everywhere defersInline) :
    doc.marked.everywhere defersInline := by
  have blind (doc : Doc) : isInline doc.marked = isInline doc := by cases doc <;> rfl
  rwa [everywhere_marked fun doc => ?_]
  cases doc with
  | lineSuffix contents => rw [marked_lineSuffix, defersInline, everywhere_marked blind, defersInline]
  | _ => rfl

theorem not_defers_append {place : List Nat} (here : doc.at? place = some part)
    (ready : part.isSuffix = false) (outer : ¬ doc.Defers place) (number : Nat) :
    ¬ doc.Defers (place ++ [number]) := by
  rintro ⟨around, contents, found, starts⟩
  rcases List.prefix_concat_iff.mp starts with whole | inner
  · obtain ⟨rfl, -⟩ := List.append_inj' whole rfl
    cases here.symm.trans found
    cases ready
  · exact outer ⟨around, contents, found, inner⟩

end Doc

namespace Machine

def EndsLine (style : PageStyle) (machine : Machine) : Prop :=
  ∃ command commands look next, machine.commands = command :: commands ∧ command.doc = .line look ∧
    machine.step style = some next ∧ machine.page.text.count '\n' < next.page.text.count '\n'

variable {style : PageStyle} {machine next : Machine}

theorem EndsLine.suffixes (ends : machine.EndsLine style) : machine.suffixes = [] := by
  obtain ⟨command, commands, look, next, stack, isLine, stepped, more⟩ := ends
  cases moves_of_step stepped with
  | opens | skips | defers | flushes | ends => exact absurd more (Nat.lt_irrefl _)
  | breaks => rfl
  | @writes _ other _ _ text shown =>
    cases stack
    cases shown with
    | text => cases isLine
    | space =>
      have none {page : Page} : '\n' ∉ page.squeeze [' '] := fun member => by
        simpa using Page.mem_squeeze member
      rw [Page.text_write, List.count_append, List.count_eq_zero.mpr none] at more
      exact absurd more (Nat.lt_irrefl _)

theorem Moves.inked (indented : style.indentUnit.toList.all isTrailingBlank)
    (moved : Moves style machine next) : inked next.page.text =
      inked machine.page.text ++ machine.commands.head?.elim [] (inked ·.doc.shown) := by
  cases moved with
  | opens opened => cases opened <;> simp [Doc.shown]
  | writes shown =>
    have blank : Squirrel.inked [' '] = [] := rfl
    cases shown <;> simp [inked_write, Doc.shown, blank]
  | breaks => simp [inked_newline indented, Doc.shown]
  | skips | defers | flushes | ends => simp [Doc.shown]

end Machine

namespace Tour

open Doc (isInline defersInline)

variable {style : PageStyle} {doc : Doc} {tour next : Tour}

/-- What waits is inline, and so is what has waited, which comes before all else. -/
structure Sorted (doc : Doc) (tour : Tour) : Prop where
  ahead : ∃ front rest, tour.ahead = front ++ rest ∧
    (∀ errand ∈ front, errand.doc.everywhere isInline) ∧
    ∀ errand ∈ rest, errand.doc.everywhere defersInline ∧ ¬ doc.marked.Defers errand.place
  waiting : ∀ errand ∈ tour.waiting, errand.doc.everywhere isInline

theorem Turn.sorted (turn : Turn tour next) (accounts : tour.Accounts doc) (sorted : tour.Sorted doc) :
    next.Sorted doc := by
  obtain ⟨⟨front, rest, same, inline, outer⟩, waits⟩ := sorted
  have inner {errand part : Errand} {mode : Mode} {check : Doc → Bool}
      (member : part ∈ errand.parts mode) (passes : errand.doc.everywhere check) :
      part.doc.everywhere check := by
    obtain ⟨number, -, found⟩ := Errand.mem_parts member
    exact Doc.everywhere_of_mem_inner passes (List.mem_of_getElem? found)
  cases turn with
  | @does errand ahead top ready page mode =>
    rw [top] at same
    cases front with
    | cons first front =>
      obtain ⟨rfl, rfl⟩ := List.cons.inj same
      refine ⟨⟨errand.parts mode ++ front, rest, by simp, fun part member => ?_, outer⟩, waits⟩
      rcases List.mem_append.mp member with member | member
      · exact inner member (inline errand (by simp))
      · exact inline part (by simp [member])
    | nil =>
      rw [List.nil_append] at same
      subst same
      refine ⟨⟨[], _, rfl, by simp, fun part member => ?_⟩, waits⟩
      rcases List.mem_append.mp member with member | member
      · have own := outer errand (by simp)
        have stands := accounts.stands errand (accounts.conserved.mem_iff.mpr (by simp [errands, top]))
        obtain ⟨number, place, -⟩ := Errand.mem_parts member
        rw [place]
        exact ⟨inner member own.1, Doc.not_defers_append stands ready own.2 number⟩
      · exact outer part (by simp [member])
  | @defers errand ahead contents top suffix mode =>
    rw [top] at same
    cases front with
    | cons first front =>
      obtain ⟨rfl, -⟩ := List.cons.inj same
      have own := Doc.check_of_everywhere (inline errand (by simp))
      rw [suffix] at own
      cases own
    | nil =>
      rw [List.nil_append] at same
      subst same
      refine ⟨⟨[], ahead, rfl, by simp, fun part member => outer part (by simp [member])⟩,
        fun part member => ?_⟩
      rcases List.mem_append.mp member with member | member
      · exact waits part member
      · have own := Doc.check_of_everywhere (outer errand (by simp)).1
        obtain ⟨number, -, found⟩ := Errand.mem_parts member
        rw [suffix] at own found
        rw [List.mem_singleton.mp (List.mem_of_getElem? found)]
        exact own
  | returns =>
    refine ⟨⟨tour.waiting ++ front, rest, by simp [same], fun errand member => ?_, outer⟩, by simp⟩
    exact (List.mem_append.mp member).elim (waits errand) (inline errand)

theorem sorted_reaches (inline : doc.everywhere defersInline)
    (reached : Reaches style doc.tour tour) : tour.Sorted doc := by
  induction reached with
  | refl =>
    refine ⟨⟨[], [doc.errand], rfl, by simp, ?_⟩, by simp [Doc.tour]⟩
    simpa [Doc.errand, Doc.Defers] using Doc.everywhere_defersInline_marked inline
  | tail before moved ih => exact moved.turn.sorted (accounts_reaches before) ih

theorem Sorted.ends (sorted : tour.Sorted doc) (ends : tour.machine.EndsLine style) :
    ∀ errand ∈ tour.ahead ++ tour.waiting, ¬ doc.marked.Defers errand.place := by
  have none : tour.waiting = [] := List.map_eq_nil_iff.mp ends.suffixes
  obtain ⟨⟨front, rest, same, inline, outer⟩, -⟩ := sorted
  cases front with
  | nil =>
    rw [none, same, List.append_nil, List.nil_append]
    exact fun errand member => (outer errand member).2
  | cons first front =>
    obtain ⟨command, commands, look, next, stack, isLine, -⟩ := ends
    have own := Doc.check_of_everywhere (inline first (by simp))
    rw [machine, same] at stack
    cases stack
    rw [show first.doc = .line look from isLine] at own
    cases own

def places (tour : Tour) : List (List Nat) := tour.behind.map (·.1.place)

theorem Accounts.contents_asked (accounts : tour.Accounts doc) {place : List Nat} {contents : Doc}
    (found : doc.marked.at? place = some (.lineSuffix contents)) (printed : place ∈ tour.places) :
    ∃ errand ∈ tour.errands, errand.place = place ++ [0] := by
  obtain ⟨⟨errand, mode⟩, member, rfl⟩ := List.mem_map.mp printed
  have own : errand ∈ tour.errands := List.mem_append_left _ (List.mem_map_of_mem member)
  have isSuffix := (accounts.stands errand (accounts.conserved.mem_iff.mpr own)).symm.trans found
  obtain ⟨place, level, own, _⟩ := errand
  cases isSuffix
  refine ⟨⟨place ++ [0], level, mode, contents⟩, accounts.conserved.mem_iff.mp ?_, rfl⟩
  exact List.mem_cons_of_mem _ (List.mem_flatMap.mpr ⟨_, member, List.mem_singleton_self _⟩)

theorem inked_reaches (indented : style.indentUnit.toList.all isTrailingBlank)
    (reached : Reaches style doc.tour tour) :
    inked tour.page.text = tour.behind.flatMap (inked ·.1.doc.shown) := by
  induction reached with
  | refl => rfl
  | tail _ moved ih =>
    have shows := (Machine.moves_of_step moved.stepped).inked indented
    cases moved.turn with
    | does top | defers top =>
      rw [List.flatMap_append, ← ih]
      simpa [machine, top] using shows
    | returns => exact ih

end Tour

open Tour in
/-- Printing comes to an end with nothing left to do, and the contents of every line suffix that is
reached are printed once. All the time, what is asked for is printed or to be printed, at no place
twice, and the page shows what has been printed. Where a line ends, nothing is left of the line
suffixes that were reached, if they hold no lines and no line suffixes. -/
theorem Doc.print_flushes {doc : Doc} (known : doc.unknown? = none) (style : PageStyle) :
    (∃ last, Reaches style doc.tour last ∧ doc.printFrom style .blank = .ok last.page.trim ∧
      last.ahead = [] ∧ last.waiting = [] ∧
      ∀ place contents, doc.marked.at? place = some (.lineSuffix contents) → place ∈ last.places →
        last.places.count (place ++ [0]) = 1) ∧
    ∀ tour, Reaches style doc.tour tour →
      tour.Accounts doc ∧ (tour.errands.map (·.place)).Nodup ∧
      (style.indentUnit.toList.all isTrailingBlank = true →
        inked tour.page.text = tour.behind.flatMap (inked ·.1.doc.shown)) ∧
      (doc.everywhere defersInline = true → tour.machine.EndsLine style →
        ∀ place contents, doc.marked.at? place = some (.lineSuffix contents) → place ∈ tour.places →
          place ++ [0] ∈ tour.places ∧
            ∀ errand ∈ tour.ahead ++ tour.waiting, ¬ place ++ [0] <+: errand.place) := by
  constructor
  · obtain ⟨reached, commands, suffixes⟩ := Machine.reaches_run style doc.machine
    obtain ⟨last, run, same⟩ := @exists_reaches style doc.tour _ reached
    have accounts := accounts_reaches run
    rw [← same] at commands suffixes
    have ahead : last.ahead = [] := List.map_eq_nil_iff.mp commands
    have waiting : last.waiting = [] := List.map_eq_nil_iff.mp suffixes
    have whole : last.errands.map (·.place) = last.places := by
      simp [errands, ahead, waiting, places]
    refine ⟨last, run, ?_, ahead, waiting, fun place contents found printed => ?_⟩
    · rw [printFrom, known]
      exact congrArg (fun machine : Machine => Except.ok machine.page.trim) same.symm
    · obtain ⟨errand, member, isContents⟩ := accounts.contents_asked found printed
      rw [← whole, ← isContents]
      exact List.count_eq_one_of_mem accounts.nodup (List.mem_map_of_mem member)
  · intro tour reached
    have accounts := accounts_reaches reached
    refine ⟨accounts, accounts.nodup, fun indented => inked_reaches indented reached, ?_⟩
    intro inline ends place contents found printed
    have left := (sorted_reaches inline reached).ends ends
    constructor
    · obtain ⟨errand, member, isContents⟩ := accounts.contents_asked found printed
      rcases List.mem_append.mp member with done | pending
      · obtain ⟨visit, isVisit, rfl⟩ := List.mem_map.mp done
        exact List.mem_map.mpr ⟨visit, isVisit, isContents⟩
      · exact absurd ⟨place, contents, found, by rw [isContents]⟩ (left errand pending)
    · exact fun errand pending starts => left errand pending ⟨place, contents, found, starts⟩

theorem Doc.print_flushes_nested :
    ∃ last, Tour.Reaches ⟨80, "\t", 4⟩
        (concat [.lineSuffix (.concat [.text " // a", hardLine, .lineSuffix (.text "b")]), .text "x",
          hardLine]).tour last ∧
      last.ahead = [] ∧ last.waiting = [] ∧ last.page.trim.text = "x // a\nb\n".toList := by
  obtain ⟨last, reached, printed, ahead, waiting, -⟩ := (@print_flushes (concat [.lineSuffix
    (.concat [.text " // a", hardLine, .lineSuffix (.text "b")]), .text "x", hardLine]) rfl
    ⟨80, "\t", 4⟩).1
  have shown : ((concat [.lineSuffix (.concat [.text " // a", hardLine, .lineSuffix (.text "b")]),
      .text "x", hardLine]).printFrom ⟨80, "\t", 4⟩ .blank).toOption.map Page.text =
      some "x // a\nb\n".toList := by decide +kernel
  rw [printed] at shown
  exact ⟨last, reached, ahead, waiting, Option.some.inj shown⟩

end Squirrel
