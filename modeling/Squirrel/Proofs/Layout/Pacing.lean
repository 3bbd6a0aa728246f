import Squirrel.Proofs.Doc.Pacing
import Squirrel.Proofs.Layout.Inventory

/-! No layout ends more than two lines in a row. -/

namespace Squirrel

def areClear (trivia : List Trivia) : Bool := trivia.all fun one => !one.isComment || isClear one.text

def Token.isClear (token : Token) : Bool :=
  Squirrel.isClear token.text && (areClear token.leading && areClear token.trailing)

/-- How many lines may have ended before a node. Some nodes can be empty, or start on a line of their
own. -/
def Label.margin : Label → Nat
  | .program | .caseBody | .forInit | .forCondition | .forStep | .foreachVariables => 0
  | _ => 2

def Tree.margin : Tree → Nat
  | .leaf _ => 2
  | .node label _ => label.margin

namespace Layout

open Doc (hardLine plainLine softLine freshLine space rowOf)

variable {style : PageStyle} {start : Nat} {trivia : List Trivia} {token : Token} {parts : List Part}
  {label : Label}

variable {seen : Bool}

section Comments

theorem clear_cons {first : Trivia} (clear : areClear (first :: trivia)) :
    (first.isComment → isClear first.text) ∧ areClear trivia := by
  rw [areClear, List.all_cons, Bool.and_eq_true] at clear
  exact ⟨fun isComment => by simpa [isComment] using clear.1, clear.2⟩

theorem clear_spaced {content : String} (clear : isClear content) : isClear (" " ++ content) := by
  obtain ⟨inLine, shown⟩ : '\n' ∉ content.toList ∧ trimEnd content.toList ≠ [] := by
    simpa [isClear] using clear
  have spaced : trimEnd ([' '] ++ content.toList) ≠ [] := trimEnd_append_ne_nil.mpr (.inr shown)
  simpa [isClear, inLine] using spaced

variable (indented : style.indentUnit.toList.all isTrailingBlank)

include indented

theorem leads_gapAfterComment (kind : TriviaKind) (rest : List Trivia) :
    (gapAfterComment kind rest).Leads style 0 1 := by
  unfold gapAfterComment
  split
  · exact Doc.leads_hardLine indented (Nat.zero_le 1)
  split
  · exact Doc.leads_hardLine indented (Nat.zero_le 1)
  · exact Doc.leads_space.mono (Nat.le_refl 0) (Nat.zero_le 1)

theorem leads_inlineComments (afterBreak : Bool) (clear : areClear trivia) :
    (rowOf (inlineComments afterBreak trivia)).Leads style 2 2 := by
  fun_induction inlineComments afterBreak trivia with
  | case1 => exact Row.leads_nil
  | case2 afterBreak trivia rest _ ih | case4 afterBreak trivia rest _ _ ih =>
    exact ih (clear_cons clear).2
  | case3 afterBreak trivia rest _ isComment ih =>
    obtain ⟨own, later⟩ := clear_cons clear
    have before : (rowOf (if afterBreak then [freshLine] else [])).Leads style 2 2 := by
      cases afterBreak with
      | false => exact Row.leads_nil
      | true => exact (Doc.leads_freshLine indented).concat Row.leads_nil
    have shown : (Doc.text trivia.text).Leads style 2 0 := Doc.leads_text (own isComment)
    have after := (ih later).mono (by omega : 1 ≤ 2) (Nat.le_refl 2)
    rw [List.append_assoc, Doc.rowOf_append]
    exact before.append (shown.concat ((leads_gapAfterComment indented _ _).concat after))

omit indented in
theorem leads_trailingComments (clear : areClear token.trailing) :
    (rowOf (trailingComments token)).Leads style start start := by
  unfold trailingComments
  revert clear
  induction token.trailing with
  | nil => exact fun _ => Row.leads_nil
  | cons first rest ih =>
    intro clear
    obtain ⟨own, later⟩ := clear_cons clear
    rw [List.flatMap_cons, Doc.rowOf_append]
    refine Row.Leads.append ?_ (ih later)
    cases kind : first.kind with
    | lineComment =>
      have text := clear_spaced (own (by simp [Trivia.isComment, kind, TriviaKind.isComment]))
      exact (Doc.leads_lineSuffix text).concat (Doc.leads_breakParent.concat Row.leads_nil)
    | blockComment =>
      have text := clear_spaced (own (by simp [Trivia.isComment, kind, TriviaKind.isComment]))
      exact ((Doc.leads_text text).mono (Nat.le_refl _) (Nat.zero_le _)).concat Row.leads_nil
    | whitespace | newline => exact Row.leads_nil

omit indented in
/-- There is room for the lines after a comment, and for a blank line after something that was seen. -/
def hasRoom (last : Option TriviaKind) (seen : Bool) (start : Nat) : Prop :=
  start ≤ 2 ∧ (last.isSome → start = 0) ∧ (seen → start ≤ 1)

theorem leads_separator {last : Option TriviaKind} (breaks : Nat) (room : hasRoom last seen start) :
    (rowOf (separator last breaks seen)).Leads style start 2 := by
  obtain ⟨low, ended, spaced⟩ := room
  have broken : start = 0 → (rowOf [hardLine]).Leads style start (max start 1) := by
    rintro rfl
    exact (Doc.leads_hardLine indented (Nat.zero_le 1)).concat Row.leads_nil
  have stays : Row.Leads style start (max start 1) [] :=
    Row.leads_nil.mono (Nat.le_refl _) (Nat.le_max_left _ _)
  unfold separator
  rw [Doc.rowOf_append]
  have blank : (rowOf (if 2 ≤ breaks ∧ seen then [hardLine] else [])).Leads style (max start 1) 2 := by
    split
    · next twice =>
      have one := spaced twice.2
      exact ((Doc.leads_hardLine indented (by omega)).mono (Nat.le_refl _) (by omega)).concat
        Row.leads_nil
    · exact Row.leads_nil.mono (Nat.le_refl _) (by omega)
  refine Row.Leads.append ?_ blank
  split
  · exact broken (ended rfl)
  · split
    · exact (Doc.leads_space.mono (Nat.le_refl _) (Nat.le_max_left _ _)).concat Row.leads_nil
    · exact broken (ended rfl)
  · exact stays

theorem leads_commentLinesAfter {last : Option TriviaKind} (breaks : Nat)
    (clear : areClear trivia) (room : hasRoom last seen start) :
    (rowOf (commentLinesAfter seen last breaks trivia).docs).Leads style start
        (if (commentLinesAfter seen last breaks trivia).docs.isEmpty then start else 0) ∧
      if (commentLinesAfter seen last breaks trivia).docs.isEmpty
      then (commentLinesAfter seen last breaks trivia).last = last
      else (commentLinesAfter seen last breaks trivia).last.isSome := by
  fun_induction commentLinesAfter seen last breaks trivia generalizing start with
  | case1 => exact ⟨Row.leads_nil, rfl⟩
  | case2 seen last breaks trivia rest _ ih | case4 seen last breaks trivia rest _ _ ih =>
    exact ih (clear_cons clear).2 room
  | case3 seen last breaks trivia rest _ isComment lines =>
    rename_i ih
    obtain ⟨own, later⟩ := clear_cons clear
    have fresh : hasRoom (some trivia.kind) true 0 := ⟨by omega, by simp, by simp⟩
    obtain ⟨leads, ends⟩ := ih later fresh
    rw [ite_self] at leads
    rw [if_neg (by simp), if_neg (by simp)]
    constructor
    · rw [Doc.rowOf_append]
      exact (leads_separator indented breaks room).append ((Doc.leads_text (own isComment)).concat leads)
    · split at ends
      · rw [ends]
        rfl
      · exact ends

theorem leads_unitComments {unit : Tree}
    (clear : ∀ first ∈ unit.firstToken?, areClear first.leading) (low : start ≤ 2)
    (room : seen → start ≤ 1) : (rowOf (unitComments seen unit)).Leads style start 2 := by
  unfold unitComments
  split
  · next first isFirst =>
    obtain ⟨leads, ends⟩ := leads_commentLinesAfter indented 0 (clear first isFirst)
      (⟨low, by simp, room⟩ : hasRoom none seen start)
    rw [Doc.rowOf_append]
    refine leads.append (leads_separator indented _ ?_)
    unfold commentLines
    split at ends
    · next empty =>
      rw [ends, empty]
      exact ⟨low, by simp, by simpa using room⟩
    · next full =>
      rw [if_neg full]
      exact ⟨by omega, by simp, by simp⟩
  · intro mode level after sheet paced
    exact paced.mono low

theorem leads_danglingComments {afterUnits : Bool} (clear : areClear token.leading)
    (low : start ≤ 2) (room : afterUnits → start = 0) :
    (rowOf (danglingComments afterUnits token)).Leads style start
      (if (danglingComments afterUnits token).isEmpty then start else 0) := by
  have lines (start : Nat) (room : hasRoom none afterUnits start) :=
    (leads_commentLinesAfter indented 0 clear room).1
  unfold danglingComments commentLines
  dsimp only
  split
  · next listed =>
    obtain rfl := room listed.1
    have ended := lines 1 ⟨by omega, by simp, by simp⟩
    rw [if_neg listed.2] at ended
    exact (Doc.leads_hardLine indented (Nat.zero_le 1)).concat ended
  · exact lines start ⟨low, by simp, fun seen => by rw [room seen]; omega⟩

theorem leads_tokenDoc (placed : Placed) (clear : token.isClear) :
    (tokenDoc placed token).Leads style 2 0 := by
  simp only [Token.isClear, Bool.and_eq_true] at clear
  obtain ⟨shown, before, after⟩ := clear
  have text : (Doc.text token.text).Leads style 2 0 := Doc.leads_text shown
  refine .of_row ?_
  rw [tokenDoc, Doc.row, Doc.rowOf_append, Doc.rowOf_append]
  refine Row.Leads.append (Row.Leads.append ?_ (text.concat Row.leads_nil)) ?_
  · cases placed.leading with
    | true => exact Row.leads_nil
    | false => exact leads_inlineComments indented false before
  · cases placed.trailing with
    | true => exact Row.leads_nil
    | false => exact leads_trailingComments after

end Comments

def gapLines : Doc → Option Nat
  | .text content => if content = " " then some 0 else none
  | .line _ | .concat [.line _, .breakParent] => some 1
  | _ => none

def Slot.pace : Slot → List Tree → Nat → Option Nat
  | .gap doc, _, start =>
    (gapLines doc).bind fun lines => if start + lines ≤ 2 then some (start + lines) else none
  | .hole, tree :: _, start => if start ≤ tree.margin then some 0 else none
  | .unit seen, tree :: _, start =>
    if start + seen.toNat ≤ 2 ∧ tree.margin = 2 then some 0 else none
  | .notes afterUnits, tree :: _, start =>
    if tree.isLeaf ∧ (afterUnits → start = 0) then some start else none
  | .spare, tree :: _, start => if start ≤ tree.margin then some start else none
  | .extra _, _, start => some start
  | .out, _, start => some start
  | _, [], _ => none

def Template.pace : Template → List Tree → Nat → Option Nat
  | [], _, start => some start
  | (_, slot) :: template, trees, start =>
    (slot.pace trees start).bind (pace template (if slot.takes then trees.tail else trees))

structure Part.Paces (style : PageStyle) (part : Part) : Prop where
  clear : ∀ token ∈ part.tree.tokens, token.isClear
  doc : part.doc.Leads style part.tree.margin 0

/-- A part that leaves no line ended, also as the start of a chain. -/
structure Part.PacesChained (style : PageStyle) (part : Part) : Prop extends part.Paces style where
  contents : part.contents.Leads style part.tree.margin 0

section Slots

variable (indented : style.indentUnit.toList.all isTrailingBlank)
include indented

theorem leads_gap {doc : Doc} {lines : Nat} (ends : gapLines doc = some lines) (low : start + lines ≤ 2) :
    doc.Leads style start (start + lines) := by
  unfold gapLines at ends
  split at ends
  · split at ends
    · next isSpace =>
      cases ends
      rw [isSpace]
      exact Doc.leads_space
    · cases ends
  · cases ends
    exact Doc.leads_line indented (by omega) _
  · cases ends
    exact .of_row ((Doc.leads_line indented (by omega) _).concat
      (Doc.leads_breakParent.concat Row.leads_nil))
  · cases ends

theorem leads_slot {slot : Slot} {stop : Nat} (low : start ≤ 2)
    (paces : ∀ part ∈ parts, part.Paces style) (paced : slot.pace (parts.map (·.tree)) start = some stop) :
    (slot.row parts).Leads style start stop ∧ stop ≤ 2 := by
  cases slot with
  | gap doc =>
    obtain ⟨lines, ends, rest⟩ := Option.bind_eq_some_iff.mp paced
    split at rest
    · next fits =>
      cases rest
      exact ⟨(leads_gap indented ends fits).row, fits⟩
    · cases rest
  | extra anyComma =>
    cases paced
    have comma : (Doc.text ",").Leads style start start :=
      (Doc.leads_text (by decide)).mono (Nat.le_refl _) (Nat.zero_le _)
    refine ⟨Doc.Leads.single ?_, low⟩
    cases anyComma with
    | true => exact comma
    | false => exact Doc.leads_ifBreak Doc.leads_empty comma
  | out =>
    cases paced
    cases parts <;> exact ⟨Row.leads_nil, low⟩
  | hole =>
    obtain _ | ⟨part, parts⟩ := parts
    · cases paced
    obtain ⟨fits, rfl⟩ : start ≤ part.tree.margin ∧ 0 = stop := by simpa [Slot.pace] using paced
    have own := paces part List.mem_cons_self
    exact ⟨(own.doc.mono fits (Nat.le_refl 0)).row, Nat.zero_le 2⟩
  | unit seen =>
    obtain _ | ⟨part, parts⟩ := parts
    · cases paced
    obtain ⟨⟨fits, firm⟩, rfl⟩ : (start + seen.toNat ≤ 2 ∧ part.tree.margin = 2) ∧ 0 = stop := by
      simpa [Slot.pace] using paced
    have own := paces part List.mem_cons_self
    have shown := own.doc
    rw [firm] at shown
    refine ⟨Row.Leads.append (leads_unitComments indented ?_ low ?_) shown.row, Nat.zero_le 2⟩
    · intro first isFirst
      rw [Tree.firstToken?_eq] at isFirst
      have clear := own.clear first (List.mem_of_mem_head? isFirst)
      simp only [Token.isClear, Bool.and_eq_true] at clear
      exact clear.2.1
    · rintro rfl
      simpa using fits
  | notes afterUnits =>
    obtain _ | ⟨part, parts⟩ := parts
    · cases paced
    obtain ⟨⟨isLeaf, room⟩, rfl⟩ :
        (part.tree.isLeaf ∧ (afterUnits → start = 0)) ∧ start = stop := by
      simpa [Slot.pace] using paced
    have own := paces part List.mem_cons_self
    obtain ⟨token, shape⟩ := Tree.leaf_of_isNode (by simpa [Tree.isNode] using isLeaf)
    have clear := own.clear token (by simp [shape])
    simp only [Token.isClear, Bool.and_eq_true] at clear
    refine ⟨?_, low⟩
    rw [Slot.row, dangling, shape]
    refine (leads_danglingComments indented clear.2.1 low room).mono (Nat.le_refl _) ?_
    split
    · exact Nat.le_refl _
    · exact Nat.zero_le _
  | spare =>
    obtain _ | ⟨part, parts⟩ := parts
    · cases paced
    obtain ⟨fits, rfl⟩ : start ≤ part.tree.margin ∧ start = stop := by simpa [Slot.pace] using paced
    have own := paces part List.mem_cons_self
    exact ⟨(Doc.leads_ifBreak (own.doc.mono fits (Nat.zero_le _)) Doc.leads_empty).single, low⟩

theorem leads_fill {template : Template} {stop : Nat} (low : start ≤ 2)
    (paces : ∀ part ∈ parts, part.Paces style)
    (paced : template.pace (parts.map (·.tree)) start = some stop) :
    (template.fill parts).Leads style start stop := by
  induction template generalizing parts start with
  | nil =>
    cases paced
    exact Row.leads_nil
  | cons entry template ih =>
    obtain ⟨nest, slot⟩ := entry
    obtain ⟨middle, here, later⟩ := Option.bind_eq_some_iff.mp paced
    obtain ⟨leads, least⟩ := leads_slot indented low paces here
    rw [Template.fill]
    refine (leads.deepen nest).append ?_
    cases takes : slot.takes with
    | false =>
      rw [takes] at later
      exact ih least paces (by simpa using later)
    | true =>
      rw [takes] at later
      exact ih least (fun part member => paces part (List.mem_of_mem_tail member)) (by simpa using later)

end Slots

section Templates

open Template

variable {template : Template} {tree : Tree} {trees : List Tree} {nest : Nat}

theorem pace_append (first second : Template) (trees : List Tree) (start : Nat) :
    pace (first ++ second) trees start =
      (pace first trees start).bind (pace second (trees.drop first.count)) := by
  induction first generalizing trees start with
  | nil => simp [pace, count]
  | cons entry first ih =>
    obtain ⟨nest, slot⟩ := entry
    rw [List.cons_append, pace, pace, Option.bind_assoc]
    congr 1
    funext stop
    rw [ih, count]
    split <;> simp [Nat.add_comm 1]

theorem pace_deepen (nest : Nat) (template : Template) : pace (template.deepen nest) = pace template := by
  induction template with
  | nil => rfl
  | cons entry template ih =>
    funext trees start
    rw [deepen_cons, pace, ih, pace]

@[simp] theorem pace_nil : pace [] trees start = some start := rfl

@[simp] theorem pace_space : pace ((nest, .gap space) :: template) trees start =
    if start ≤ 2 then pace template trees start else none := by
  by_cases low : start ≤ 2 <;> simp [pace, Slot.pace, gapLines, space, Slot.takes, low]

theorem pace_gap {doc : Doc} (ends : gapLines doc = some 1) (low : start ≤ 1) :
    pace ((nest, .gap doc) :: template) trees start = pace template trees (start + 1) := by
  simp [pace, Slot.pace, ends, Slot.takes, low]

theorem pace_hardLine (low : start ≤ 1) :
    pace ((nest, .gap hardLine) :: template) trees start = pace template trees (start + 1) :=
  pace_gap rfl low

theorem pace_plainLine (low : start ≤ 1) :
    pace ((nest, .gap plainLine) :: template) trees start = pace template trees (start + 1) :=
  pace_gap rfl low

theorem pace_hole (fits : start ≤ tree.margin) :
    pace ((nest, .hole) :: template) (tree :: trees) start = pace template trees 0 := by
  simp [pace, Slot.pace, Slot.takes, fits]

theorem pace_unit (low : start + seen.toNat ≤ 2) (firm : tree.margin = 2) :
    pace ((nest, .unit seen) :: template) (tree :: trees) start = pace template trees 0 := by
  simp [pace, Slot.pace, Slot.takes, low, firm]

theorem pace_notes {afterUnits : Bool} (isLeaf : tree.isLeaf) (room : afterUnits → start = 0) :
    pace ((nest, .notes afterUnits) :: template) (tree :: trees) start =
      pace template (tree :: trees) start := by
  rw [pace, Slot.pace, if_pos ⟨isLeaf, room⟩]
  rfl

def isLevel (template : Template) : Bool :=
  template.all fun (_, slot) => match slot with
    | .gap doc => gapLines doc = some 0
    | .hole => true
    | _ => false

theorem pace_level (level : isLevel template) (goes : template.goes trees) :
    template.pace trees 0 = some 0 := by
  induction template generalizing trees with
  | nil => rfl
  | cons entry template ih =>
    obtain ⟨nest, slot⟩ := entry
    rw [isLevel, List.all_cons, Bool.and_eq_true] at level
    obtain ⟨suits, later⟩ := Bool.and_eq_true_iff.mp goes
    have rest := ih level.2 later
    cases slot with
    | gap doc =>
      have ends : gapLines doc = some 0 := of_decide_eq_true level.1
      simpa [pace, Slot.pace, ends, Slot.takes] using rest
    | hole =>
      cases trees with
      | nil => cases suits
      | cons tree trees => simpa [pace_hole (Nat.zero_le _), Slot.takes] using rest
    | unit | notes | spare | extra | out => cases level.1

theorem pace_level_start (level : isLevel template) (goes : template.goes trees)
    (full : 0 < template.count) (firm : ∀ tree ∈ trees.head?, tree.margin = 2) :
    template.pace trees 2 = some 0 := by
  induction template with
  | nil => cases full
  | cons entry template ih =>
    obtain ⟨nest, slot⟩ := entry
    have here := level
    rw [isLevel, List.all_cons, Bool.and_eq_true] at here
    obtain ⟨suits, later⟩ := Bool.and_eq_true_iff.mp goes
    cases slot with
    | gap doc =>
      have ends : gapLines doc = some 0 := of_decide_eq_true here.1
      have rest := ih here.2 later (by simpa [count, Slot.takes] using full)
      simpa [pace, Slot.pace, ends, Slot.takes] using rest
    | hole =>
      cases trees with
      | nil => cases suits
      | cons tree trees =>
        rw [pace_hole (by rw [firm tree rfl])]
        exact pace_level here.2 later
    | unit | notes | spare | extra | out => cases here.1

def breaksLines : Label → Bool
  | .program | .block | .ifStatement | .whileStatement | .doWhileStatement | .forStatement
  | .foreachStatement | .switchStatement | .caseBody | .tryStatement | .ternary | .arguments
  | .parameters | .table | .array => true
  | _ => false

theorem isLevel_flatMap (slots : Tree → Template) (level : ∀ tree, isLevel (slots tree))
    (trees : List Tree) : isLevel (trees.flatMap slots) := by
  rw [isLevel, List.all_flatMap]
  exact List.all_eq_true.mpr fun tree _ => level tree

theorem isLevel_holes (trees : List Tree) : isLevel (holes trees) :=
  isLevel_flatMap _ (fun _ => rfl) trees

theorem pace_holes (trees : List Tree) : pace (holes trees) trees 0 = some 0 := by
  induction trees with
  | nil => rfl
  | cons tree trees ih => simpa [holes, pace_hole] using ih

theorem isLevel_template (level : breaksLines label = false) (trees : List Tree) :
    isLevel (Layout.template label trees) := by
  have binding : isLevel (bindingSlots trees) := by
    unfold bindingSlots
    split <;> rfl
  have spaced (kinds : List Kind) : isLevel (spacedSlots kinds trees) :=
    isLevel_flatMap _ (fun tree => by split <;> rfl) trees
  have others := isLevel_holes trees
  cases label with
  | program | block | ifStatement | whileStatement | doWhileStatement | forStatement
  | foreachStatement | switchStatement | caseBody | tryStatement | ternary | arguments | parameters
  | table | array => cases level
  | localDeclaration | foreachVariables => exact spaced _
  | declarator | parameter | binary | assign | newSlot | tableSlot => exact binding
  | returnStatement => exact isLevel_flatMap _ (fun tree => by split <;> rfl) trees
  | functionDeclaration =>
    refine isLevel_flatMap _ (fun tree => ?_) trees
    split
    · rfl
    · split <;> rfl
  | constDeclaration =>
    obtain _ | ⟨_, _ | ⟨_, _ | ⟨_, _ | ⟨_, ending⟩⟩⟩⟩ := trees
    case cons.cons.cons.cons => exact isLevel_holes ending
    all_goals exact others
  | throwStatement =>
    obtain _ | ⟨_, rest⟩ := trees
    · exact others
    · exact isLevel_holes rest
  | unary =>
    obtain _ | ⟨_, _ | ⟨_, _ | ⟨_, _⟩⟩⟩ := trees
    case cons.cons.nil =>
      simp only [Layout.template]
      split <;> rfl
    all_goals exact others
  | caseClause | functionLiteral | lambdaLiteral | hookWrapper | tableComputed | tableQuoted
  | tableMethod => rfl
  | _ => exact others

theorem margin_nodes {labels : List Label} (nodes : Tree.nodesAre labels trees)
    (firm : labels.all (·.margin = 2)) : ∀ tree ∈ trees, tree.margin = 2 := by
  intro tree member
  have own := List.all_eq_true.mp nodes tree member
  cases tree with
  | leaf token => rfl
  | node inner _ =>
    have listed : inner ∈ labels := by simpa [Tree.isLeaf, Tree.label?] using own
    exact of_decide_eq_true (List.all_eq_true.mp firm inner listed)

theorem margin_child (composed : Tree.isComposed label trees)
    (firm : label.parts.all (·.margin = 2)) : ∀ tree ∈ trees, tree.margin = 2 :=
  margin_nodes (Bool.and_eq_true_iff.mp composed).1 firm

theorem margin_token (isToken : tree.isNode = false) : tree.margin = 2 := by
  obtain ⟨token, rfl⟩ := Tree.leaf_of_isNode isToken
  rfl

theorem margin_first (fits : label.fits (parts.map (·.isNode)))
    (composed : Tree.isComposed label (parts.map (·.tree))) :
    ∀ tree ∈ (parts.map (·.tree)).head?, tree.margin = 2 := by
  intro tree isFirst
  by_cases firm : label.parts.all (·.margin = 2)
  · exact margin_child composed firm tree (List.mem_of_mem_head? isFirst)
  · have starts : (parts.map (·.isNode)).head? = some false := by
      cases label <;> first | exact absurd rfl firm | (rw [of_decide_eq_true fits]; rfl)
    cases parts with
    | nil => cases isFirst
    | cons part parts =>
      cases isFirst
      exact margin_token (Option.some.inj starts)

theorem margin_governed {body : Tree} (governed : Grammar.governs label trees)
    (isLoop : label = .forStatement ∨ label = .foreachStatement) (ends : trees.getLast? = some body) :
    body.margin = 2 := by
  have own : Tree.nodesAre statementLabels [body] := by
    rcases isLoop with rfl | rfl <;> simpa [Grammar.governs, ends] using governed
  exact margin_nodes own rfl body (List.mem_singleton_self body)

theorem pace_level_template (level : breaksLines label = false) (proper : label ≠ .error)
    (fits : label.fits (parts.map (·.isNode))) (inOrder : ordered label (parts.map (·.tree)))
    (composed : Tree.isComposed label (parts.map (·.tree))) :
    (Layout.template label (parts.map (·.tree))).pace (parts.map (·.tree)) label.margin = some 0 := by
  obtain ⟨row, laid, -⟩ := arranged fits inOrder
  have goes := laid.goes []
  rw [List.append_nil] at goes
  have isLevel := isLevel_template level (parts.map (·.tree))
  by_cases low : label.margin = 0
  · rw [low]
    exact pace_level isLevel goes
  have firm : label.margin = 2 := by
    cases label <;> first | rfl | exact absurd rfl low
  have empty : label.fits [] = false := by
    cases label <;> first | rfl | exact absurd rfl low | exact absurd rfl proper
  have full : 0 < (Layout.template label (parts.map (·.tree))).count := by
    rw [laid.count]
    cases parts with
    | nil =>
      rw [List.map_nil, empty] at fits
      cases fits
    | cons part parts => simp
  rw [firm]
  exact pace_level_start isLevel goes full (margin_first fits composed)

section Pieces

variable {rest : Template} {units inner more : List Tree} {opener closer : Tree}

theorem pace_deepen_append (nest : Nat) (first : Template) :
    pace (first.deepen nest ++ rest) = pace (first ++ rest) := by
  funext trees start
  rw [pace_append, pace_append, pace_deepen, count_deepen]

@[simp] theorem pace_hole_zero (tree : Tree) :
    pace ((nest, .hole) :: template) (tree :: trees) 0 = pace template trees 0 :=
  pace_hole (Nat.zero_le _)

theorem pace_body (firm : tree.margin = 2) :
    pace (bodySlots tree ++ rest) (tree :: more) 0 = pace rest more 0 := by
  unfold bodySlots
  split
  · simp
  split
  · simp
  · simp [pace_hardLine, pace_hole, firm]

theorem pace_body_last (firm : tree.margin = 2) : pace (bodySlots tree) [tree] 0 = some 0 := by
  rw [← List.append_nil (bodySlots tree), pace_body firm, pace_nil]

theorem pace_alternative (firm : tree.margin = 2) :
    pace (alternativeSlots tree) [tree] 0 = some 0 := by
  unfold alternativeSlots
  split
  · simp
  · exact pace_body_last firm

theorem pace_clause (tree : Tree) : pace (clauseSlots tree ++ rest) (tree :: more) 0 = pace rest more 0 := by
  unfold clauseSlots
  split <;> simp

theorem pace_afterBody (part : Part) (firm : tree.margin = 2) :
    pace ((0, .gap (gapAfterBody part)) :: (0, .hole) :: rest) (tree :: more) 0 = pace rest more 0 := by
  unfold gapAfterBody
  split
  · simp
  · simp [pace_hardLine, pace_hole, firm]

theorem pace_units (firm : ∀ unit ∈ units, unit.margin = 2) (low : start ≤ 2)
    (room : seen → start = 0) :
    pace (unitSlots seen units ++ rest) (units ++ more) start =
      pace rest more (if units.isEmpty then start else 0) := by
  induction units generalizing seen start with
  | nil => rfl
  | cons unit units ih =>
    obtain ⟨first, others⟩ := List.forall_mem_cons.mp firm
    have next : pace (unitSlots true units ++ rest) (units ++ more) 0 = pace rest more 0 := by
      rw [ih others (Nat.zero_le 2) fun _ => rfl, ite_self]
    cases seen with
    | false => simpa [unitSlots, pace_unit, low, first] using next
    | true =>
      obtain rfl := room rfl
      simpa [unitSlots, pace_hardLine, pace_unit, first] using next

theorem pace_units_only (firm : ∀ unit ∈ units, unit.margin = 2) (low : start ≤ 2) :
    pace (unitSlots false units) units start = some (if units.isEmpty then start else 0) := by
  have followed : pace (unitSlots false units ++ []) (units ++ []) start = _ :=
    pace_units firm low (by simp)
  rwa [List.append_nil, List.append_nil] at followed

theorem pace_hollow (opens : opener.margin = 2) (closes : closer.isNode = false) (low : start ≤ 2) :
    pace (hollowSlots closer) [opener, closer] start = some 0 := by
  have last := margin_token closes
  have isLeaf : closer.isLeaf := by simpa [Tree.isNode] using closes
  unfold hollowSlots
  split
  · simp [pace_hole, opens, low]
  · simp [pace_hole, pace_hardLine, pace_notes, opens, low, last, isLeaf]

theorem pace_closer (closes : closer.isNode = false) {doc : Doc} (ends : gapLines doc = some 1) :
    pace [(1, .notes true), gap doc, hole] [closer] 0 = some 0 := by
  have last := margin_token closes
  have isLeaf : closer.isLeaf := by simpa [Tree.isNode] using closes
  rw [pace_notes isLeaf fun _ => rfl, gap, pace_gap ends (Nat.zero_le 1), hole, pace_hole (by omega)]
  rfl

theorem pace_commas (full : inner ≠ []) (firm : ∀ tree ∈ inner, tree.margin = 2) (low : start ≤ 2) :
    pace (commaSlots inner ++ rest) (inner ++ more) start = pace rest more 0 := by
  fun_induction commaSlots inner generalizing start with
  | case1 => exact absurd rfl full
  | case2 value => simp_all [pace_hole]
  | case3 value comma => simp_all [pace_hole]
  | case4 value comma others goesOn ih =>
    have next := ih (by rintro rfl; exact goesOn rfl) (by simp_all) (by decide : 1 ≤ 2)
    simp_all [pace_hole, pace_plainLine]

theorem pace_entry (firm : tree.margin = 2) (low : start ≤ 2) (room : seen → start = 0) :
    pace ((if seen then [(1, .gap plainLine)] else []) ++ [(1, .unit seen)] ++ rest) (tree :: more) start =
      pace rest more 0 := by
  cases seen with
  | false => simp [pace_unit, low, firm]
  | true =>
    obtain rfl := room rfl
    simp [pace_plainLine, pace_unit, firm]

theorem pace_entries (anyComma : Bool) :
    (seen : Bool) → (inner : List Tree) → (start : Nat) → (∀ tree ∈ inner, tree.margin = 2) →
      start ≤ 2 → (seen → start = 0) →
      pace (entrySlots anyComma seen inner ++ rest) (inner ++ more) start =
        pace rest more (if inner.isEmpty then start else 0)
  | _, [], _, _, _, _ => rfl
  | seen, [entry], start, firm, low, room => by
    have own := firm entry (by simp)
    simpa [entrySlots] using pace_entry own low room
  | seen, entry :: next :: others, start, firm, low, room => by
    obtain ⟨own, after⟩ := List.forall_mem_cons.mp firm
    obtain ⟨-, last⟩ := List.forall_mem_cons.mp after
    rw [entrySlots, List.append_assoc, List.cons_append, pace_entry own low room]
    split
    · have goesOn := pace_entries anyComma true (next :: others) 0 after (Nat.zero_le 2) fun _ => rfl
      simpa [pace, Slot.pace, Slot.takes] using goesOn
    · have goesOn := pace_entries anyComma true others 0 last (Nat.zero_le 2) fun _ => rfl
      split
      · simpa [pace, Slot.pace, Slot.takes] using goesOn
      · simpa using goesOn

end Pieces

section Labels

variable {units inner : List Part} {opener closer : Part}

theorem pace_program (firm : ∀ unit ∈ units, unit.tree.margin = 2) (closes : closer.isNode = false) :
    pace (Layout.template .program ((units ++ [closer]).map (·.tree))) ((units ++ [closer]).map (·.tree)) 0 =
      some 0 := by
  have isLeaf : closer.tree.isLeaf := by simpa [Part.isNode, Tree.isNode] using closes
  have listed : ∀ unit ∈ units.map (·.tree), unit.margin = 2 := by simpa using firm
  simp only [Layout.template, List.map_append, List.map_cons, List.map_nil, List.dropLast_concat]
  rw [pace_units listed (by omega) (by simp), ite_self, pace_notes isLeaf fun _ => rfl]
  rfl

section

variable (opens : opener.tree.margin = 2)

include opens

theorem pace_brackets {slots : Template}
    (closes : closer.isNode = false) (low : start ≤ 2)
    (full : inner ≠ [] →
      pace slots (opener.tree :: (inner.map (·.tree) ++ [closer.tree])) start = some 0) :
    pace (if (inner.map (·.tree)).isEmpty then hollowSlots closer.tree else slots)
      (opener.tree :: (inner.map (·.tree) ++ [closer.tree])) start = some 0 := by
  cases inner with
  | nil => exact pace_hollow opens closes low
  | cons first inner =>
    rw [if_neg (by simp)]
    exact full (by simp)

theorem pace_block (firm : ∀ unit ∈ units, unit.tree.margin = 2) (closes : closer.isNode = false) :
    pace (Layout.template .block ((opener :: (units ++ [closer])).map (·.tree)))
      ((opener :: (units ++ [closer])).map (·.tree)) 2 = some 0 := by
  have listed : ∀ unit ∈ units.map (·.tree), unit.margin = 2 := by simpa using firm
  rw [map_between, Layout.template, within?_between]
  refine pace_brackets opens closes (Nat.le_refl 2) fun full => ?_
  rw [List.append_assoc, List.cons_append, List.cons_append, List.nil_append, hole,
    pace_hole (by rw [opens]), pace_hardLine (by omega), pace_deepen_append,
    pace_units listed (by omega) (by simp), if_neg (by simpa using full)]
  exact pace_closer closes rfl

theorem pace_switch (firm : ∀ unit ∈ units, unit.tree.margin = 2) (closes : closer.isNode = false) :
    pace (switchSlots (units.map (·.tree)) closer.tree)
      (opener.tree :: (units.map (·.tree) ++ [closer.tree])) 0 = some 0 := by
  have listed : ∀ unit ∈ units.map (·.tree), unit.margin = 2 := by simpa using firm
  refine pace_brackets opens closes (Nat.zero_le 2) fun full => ?_
  rw [List.append_assoc, List.cons_append, List.cons_append, List.nil_append, hole,
    pace_hole (by omega), gap, pace_hardLine (by omega), pace_units listed (by omega) (by simp),
    if_neg (by simpa using full)]
  exact pace_closer closes rfl

theorem pace_list (full : inner ≠ []) (firm : ∀ part ∈ inner, part.tree.margin = 2)
    (closes : closer.isNode = false) :
    pace (listSlots (inner.map (·.tree))) (opener.tree :: (inner.map (·.tree) ++ [closer.tree])) 2 =
      some 0 := by
  have listed : ∀ tree ∈ inner.map (·.tree), tree.margin = 2 := by simpa using firm
  have last := margin_token closes
  unfold listSlots
  rw [List.append_assoc, List.cons_append, List.cons_append, List.nil_append, hole,
    pace_hole (by rw [opens]), pace_gap rfl (by omega), pace_commas (by simpa) listed (by omega),
    gap, pace_gap rfl (by omega), pace_hole (by omega)]
  rfl

theorem pace_hug :
    pace (hugSlots (inner.map (·.tree))) (opener.tree :: (inner.map (·.tree) ++ [closer.tree])) 2 =
      some 0 := by
  have each (trees : List Tree) : pace (trees.flatMap (fun tree =>
      if tree.isNode then [hole] else [hole, gap space]) ++ [hole]) (trees ++ [closer.tree]) 0 = some 0 := by
    induction trees with
    | nil => simp
    | cons tree trees ih =>
      rw [List.flatMap_cons]
      split <;> simpa using ih
  unfold hugSlots
  rw [List.append_assoc, List.cons_append, List.nil_append, hole, pace_hole (by rw [opens])]
  exact each _

end

theorem pace_sequence {pad : Doc} (ends : gapLines pad = some 1) (opens : opener.tree.margin = 2)
    (full : inner ≠ []) (firm : ∀ part ∈ inner, part.tree.margin = 2) (closes : closer.isNode = false) :
    pace (sequenceSlots pad (inner.map (·.tree))) (opener.tree :: (inner.map (·.tree) ++ [closer.tree])) 2 =
      some 0 := by
  have listed : ∀ tree ∈ inner.map (·.tree), tree.margin = 2 := by simpa using firm
  unfold sequenceSlots
  rw [List.append_assoc, List.cons_append, List.cons_append, List.nil_append, hole,
    pace_hole (by rw [opens]), pace_gap ends (by omega),
    pace_entries _ _ _ _ listed (by omega) (by simp), if_neg (by simpa using full)]
  exact pace_closer closes ends

theorem pace_caseBody (firm : ∀ tree ∈ trees, tree.margin = 2) :
    pace (Layout.template .caseBody trees) trees 0 = some 0 := by
  simp only [Layout.template]
  split
  · next empty =>
    rw [List.isEmpty_iff.mp empty]
    rfl
  · next full => rw [pace_hardLine (by omega), pace_deepen, pace_units_only firm (by omega), if_neg full]

theorem firm_between (firm : ∀ part ∈ opener :: (inner ++ [closer]), part.tree.margin = 2) :
    opener.tree.margin = 2 ∧ ∀ part ∈ inner, part.tree.margin = 2 :=
  ⟨firm opener (by simp), fun part member => firm part (by simp [member])⟩

theorem pace_template (proper : label ≠ .error) (fits : label.fits (parts.map (·.isNode)))
    (inOrder : ordered label (parts.map (·.tree)))
    (composed : Tree.isComposed label (parts.map (·.tree)))
    (governed : Grammar.governs label (parts.map (·.tree))) :
    pace (Layout.template label (parts.map (·.tree))) (parts.map (·.tree)) label.margin = some 0 := by
  cases level : breaksLines label with
  | false => exact pace_level_template level proper fits inOrder composed
  | true =>
  have firm (plain : label.parts.all (·.margin = 2)) : ∀ part ∈ parts, part.tree.margin = 2 :=
    fun part member => margin_child composed plain part.tree (List.mem_map_of_mem member)
  cases label with
  | program =>
    obtain ⟨ends, -⟩ := Bool.and_eq_true_iff.mp fits
    obtain ⟨units, closer, rfl, isToken, -⟩ := getLast_map rfl (of_decide_eq_true ends)
    exact pace_program (fun unit member => firm rfl unit (by simp [member])) isToken
  | block =>
    obtain ⟨opener, units, closer, rfl, -, isToken, -⟩ := between_of_enclosesNodes fits
    exact pace_block (firm rfl opener (by simp)) (fun unit member => firm rfl unit (by simp [member]))
      isToken
  | caseBody =>
    have listed : ∀ unit ∈ parts.map (·.tree), unit.margin = 2 := by simpa using firm rfl
    exact pace_caseBody listed
  | ifStatement => 
    rcases Bool.or_eq_true_iff.mp fits with short | long
    · have kinds := of_decide_eq_true short
      obtain ⟨keyword, -, opener, -, condition, -, closer, -, statement, -, rfl⟩ := itemized kinds
      have firm := firm rfl
      simp_all [Label.margin, ifSlots, pace_hole, pace_body_last]
    · have kinds := of_decide_eq_true long
      obtain ⟨keyword, -, opener, -, condition, -, closer, -, first, -, word, -, second, -,
        rfl⟩ := itemized kinds
      have firm := firm rfl
      simp_all [Label.margin, ifSlots, pace_hole, pace_body, pace_afterBody, pace_alternative]
  | whileStatement =>
    obtain ⟨keyword, -, opener, -, condition, -, closer, -, statement, -,
      rfl⟩ := itemized (of_decide_eq_true fits)
    have firm := firm rfl
    simp_all [Label.margin, pace_hole, pace_body_last]
  | doWhileStatement =>
    obtain ⟨first, ending, rfl, kinds⟩ := map_endsAfter fits
    obtain ⟨keyword, -, statement, -, word, -, opener, -, condition, -, closer, -,
      rfl⟩ := itemized kinds
    have firm := firm rfl
    have ends := pace_holes (ending.map (·.tree))
    simp_all [Label.margin, pace_hole, pace_body, pace_afterBody]
  | forStatement =>
    obtain ⟨keyword, isToken, opener, -, init, -, first, -, condition, -, second, -, step, -,
      closer, -, statement, -, rfl⟩ := itemized (of_decide_eq_true fits)
    have starts := margin_token isToken
    have body : statement.tree.margin = 2 := margin_governed governed (.inl rfl) rfl
    simp [Label.margin, forSlots, pace_hole, starts, pace_clause, pace_body_last, body]
  | foreachStatement =>
    obtain ⟨keyword, isToken, opener, -, names, -, word, -, container, -, closer, -, statement, -,
      rfl⟩ := itemized (of_decide_eq_true fits)
    have starts := margin_token isToken
    have body : statement.tree.margin = 2 := margin_governed governed (.inr rfl) rfl
    simp [Label.margin, pace_hole, starts, pace_body_last, body]
  | switchStatement =>
    obtain ⟨keyword, _, _, _, brace, units, unbrace, rfl, -, isToken, -⟩ := switch_of_fits fits
    have firm := firm rfl
    have listed : ∀ unit ∈ units, unit.tree.margin = 2 := fun unit member => firm unit (by simp [member])
    have clauses := pace_switch (firm brace (by simp)) listed isToken
    have first := firm keyword (by simp)
    simpa [Label.margin, within?_between, pace_hole, first] using clauses
  | tryStatement =>
    obtain ⟨keyword, -, statement, -, word, -, opener, -, name, -, closer, -, handler, -,
      rfl⟩ := itemized (of_decide_eq_true fits)
    have firm := firm rfl
    simp_all [Label.margin, pace_hole, pace_body, pace_afterBody, pace_body_last]
  | ternary =>
    obtain ⟨condition, -, question, -, first, -, colon, -, second, -,
      rfl⟩ := itemized (of_decide_eq_true fits)
    have firm := firm rfl
    simp_all [Label.margin, pace_hole, pace_plainLine]
  | arguments =>
    obtain ⟨opener, inner, closer, rfl, -, closes⟩ := between_of_isEnclosed fits
    obtain ⟨opens, listed⟩ := firm_between (firm rfl)
    rw [map_between, Layout.template, argumentSlots, within?_between]
    refine pace_brackets opens closes (Nat.le_refl 2) fun full => ?_
    split
    · exact pace_hug opens
    · exact pace_list opens full listed closes
  | parameters =>
    obtain ⟨opener, inner, closer, rfl, -, closes⟩ := between_of_isEnclosed fits
    obtain ⟨opens, listed⟩ := firm_between (firm rfl)
    rw [map_between, Layout.template, within?_between]
    exact pace_brackets opens closes (Nat.le_refl 2) fun full => pace_list opens full listed closes
  | table | array =>
    obtain ⟨opener, inner, closer, rfl, -, closes⟩ := between_of_isEnclosed fits
    obtain ⟨opens, listed⟩ := firm_between (firm rfl)
    rw [map_between, Layout.template, within?_between]
    exact pace_brackets opens closes (Nat.le_refl 2) fun full =>
      pace_sequence rfl opens full listed closes
  | _ => cases level

end Labels

end Templates

section Trees

variable (indented : style.indentUnit.toList.all isTrailingBlank)
include indented

theorem Template.Lays.leads {template : Template} {row : Row} {stop : Nat} (laid : template.Lays parts row)
    (low : start ≤ 2) (paces : ∀ part ∈ parts, part.Paces style)
    (paced : template.pace (parts.map (·.tree)) start = some stop) : row.Leads style start stop := by
  rw [← laid.filled]
  exact leads_fill indented low paces paced

omit indented in
theorem Framed.leads {grouped : Bool} {doc : Doc} {row : Row} {stop : Nat}
    (framed : Framed grouped doc row) (leads : row.Leads style start stop) :
    doc.Leads style start stop := by
  refine framed.cases (fun doc same => .of_row (by rwa [same])) fun docs same => ?_
  refine Doc.Leads.group (.of_row ?_) false
  rwa [Doc.row, same]

omit indented in
theorem leads_unitDoc (placed : Placed) {unit : Tree} {doc : Doc}
    (clear : ∀ token ∈ unit.tokens, token.isClear) (leads : doc.Leads style start 0) :
    (unitDoc placed unit doc).Leads style start 0 := by
  unfold unitDoc
  split
  · exact leads
  · refine .of_row (leads.concat (Doc.Leads.concat (.of_row ?_) Row.leads_nil))
    rw [Doc.row]
    cases found : unit.lastToken? with
    | none => exact Row.leads_nil
    | some last =>
      rw [Tree.lastToken?_eq] at found
      have own := clear last (List.mem_of_getLast? found)
      simp only [Token.isClear, Bool.and_eq_true] at own
      simpa using leads_trailingComments own.2.2

theorem leads_logical (tree : Tree) {left operator right : Part} (isToken : operator.isNode = false)
    (firm : left.tree.margin = 2) (paces : ∀ part ∈ [left, operator, right], part.PacesChained style) :
    (logical tree [left, operator, right]).tree = tree ∧
      (logical tree [left, operator, right]).doc.Leads style 2 0 ∧
        (logical tree [left, operator, right]).contents.Leads style 2 0 := by
  obtain ⟨token, isLeaf⟩ := Tree.leaf_of_isNode isToken
  obtain ⟨chain, shape, -, laid⟩ := arranged_logical tree left right isLeaf
  have joined : (left.joined token.kind).Paces style := by
    have own := paces left (by simp)
    refine ⟨own.clear, ?_⟩
    unfold Part.joined
    dsimp only
    split
    · exact own.contents
    · exact own.doc
  have chained : chain.contents.Leads style 2 0 := by
    refine .of_row (laid.leads indented (Nat.le_refl 2) ?_ ?_)
    · intro part member
      simp only [List.mem_cons, List.not_mem_nil, or_false] at member
      rcases member with rfl | rfl | rfl
      · exact joined
      · exact (paces part (by simp)).toPaces
      · exact (paces part (by simp)).toPaces
    · have starts : (left.joined token.kind).tree.margin = 2 := firm
      have second := margin_token isToken
      simp [logicalSlots, pace_hole, pace_plainLine, starts, second]
  rw [shape]
  exact ⟨rfl, chained.group false, chained⟩

omit indented in
def isSteady (label : Label) (children : List Tree) : Bool :=
  accounts (fun _ => true) label children &&
    (Tree.isComposed label children && Grammar.governs label children)

theorem paces_nodePart (source : List Char) {children : List Tree} (trees : parts.map (·.tree) = children)
    (steady : isSteady label children)
    (clear : ∀ token ∈ (Tree.node label children).tokens, token.isClear)
    (paces : ∀ part ∈ parts, part.PacesChained style) :
    (nodePart source label children parts).PacesChained style := by
  subst trees
  simp only [isSteady, accounts, Bool.and_eq_true, decide_eq_true_eq] at steady
  obtain ⟨⟨proper, admitted, inOrder, -⟩, composed, governed⟩ := steady
  obtain ⟨fits, -⟩ := Bool.and_eq_true_iff.mp admitted
  rw [List.map_map] at fits
  unfold nodePart
  rw [if_pos admitted]
  split
  · exact absurd rfl proper
  · obtain ⟨left, -, operator, isToken, right, -, rfl⟩ := itemized (of_decide_eq_true fits)
    have firm := margin_child composed rfl left.tree (by simp)
    obtain ⟨same, doc, contents⟩ := leads_logical indented (.node .logical _) isToken firm paces
    refine ⟨⟨?_, ?_⟩, ?_⟩ <;> rw [same]
    · exact clear
    · exact doc
    · exact contents
  · obtain ⟨row, laid, framed⟩ := arranged fits inOrder
    have paced := pace_template proper fits inOrder composed governed
    have low : label.margin ≤ 2 := by cases label <;> decide
    have leads := framed.leads (laid.leads indented low (fun part member => (paces part member).toPaces) paced)
    exact ⟨⟨clear, leads⟩, leads⟩

end Trees

section Program

mutual

theorem paces_part (indented : style.indentUnit.toList.all isTrailingBlank) (source : List Char)
    (placed : Placed) : (tree : Tree) →
    tree.everywhere isSteady → (∀ token ∈ tree.tokens, token.isClear) →
    (part source placed tree).PacesChained style
  | .leaf token, _, clear => by
    rw [part]
    have leads := leads_tokenDoc indented placed (clear token (by simp))
    exact ⟨⟨clear, leads⟩, leads⟩
  | .node label children, steady, clear => by
    rw [Tree.everywhere_node, Bool.and_eq_true] at steady
    rw [part]
    refine paces_nodePart indented source (trees_partsOf ..) steady.1 clear ?_
    rw [Tree.tokens_node] at clear
    have paces := paces_partsOf indented source placed label (endsDangling label children) true [] children
      steady.2 clear
    have size := congrArg List.length
      (trees_partsOf source placed label (endsDangling label children) true children)
    rw [List.length_map] at size
    rwa [List.append_nil, ← size, List.take_length] at paces

theorem paces_partsOf (indented : style.indentUnit.toList.all isTrailingBlank) (source : List Char)
    (placed : Placed) (parent : Label) (dangles atStart : Bool) (more : List Tree) :
    (trees : List Tree) → Tree.everywhereOf isSteady trees →
    (∀ token ∈ Tree.tokensOf trees, token.isClear) →
    ∀ part ∈ (partsOf source placed parent dangles atStart (trees ++ more)).take trees.length,
      part.PacesChained style
  | [], _, _ => by simp
  | tree :: trees, steady, clear => by
    rw [Tree.everywhereOf_cons, Bool.and_eq_true] at steady
    simp only [Tree.tokensOf_cons, List.mem_append, or_imp, forall_and] at clear
    have others := paces_partsOf indented source placed parent dangles (atStart && tree.isEmpty) more trees
      steady.2 clear.2
    have own (placed : Placed) := paces_part indented source placed tree steady.1 clear.1
    rw [List.cons_append, partsOf, List.length_cons, List.take_succ_cons]
    refine List.forall_mem_cons.mpr ⟨?_, others⟩
    split
    · have accounted : tree.everywhere (accounts fun _ => true) :=
        Tree.everywhere_mono (fun _ _ own => (Bool.and_eq_true_iff.mp own).1) steady.1
      rw [if_neg (by simp [hasLocalError_of_accounts accounted])]
      have doc := (own ⟨true, true⟩).doc
      rw [tree_part] at doc
      have leads (placed : Placed) := leads_unitDoc placed clear.1 doc
      exact ⟨⟨clear.1, leads _⟩, leads _⟩
    · split
      · exact own _
      · exact own _

end

theorem leads_document (indented : style.indentUnit.toList.all isTrailingBlank)
    (source : List Char) {trees : List Tree} {last : Token}
    (steady : (Tree.node .program (trees ++ [.leaf last])).everywhere isSteady)
    (clear : ∀ token ∈ Tree.tokensOf trees, token.isClear) (ends : areClear last.leading) :
    (document source (.node .program (trees ++ [.leaf last]))).row = [] ∨
      (document source (.node .program (trees ++ [.leaf last]))).Leads style 2 0 := by
  rw [Tree.everywhere_node, Bool.and_eq_true, Tree.everywhereOf_append, Bool.and_eq_true] at steady
  obtain ⟨own, below, -⟩ := steady
  simp only [isSteady, accounts, Bool.and_eq_true, decide_eq_true_eq] at own
  obtain ⟨⟨-, admitted, -⟩, composed, -⟩ := own
  have paces := paces_partsOf indented source ⟨false, false⟩ .program true true [.leaf last] trees below clear
  obtain ⟨units, closers, shape, unitTrees, closed⟩ := List.map_eq_append_iff.mp
    (trees_partsOf source ⟨false, false⟩ .program true true (trees ++ [.leaf last]))
  obtain ⟨closer, rfl, isLast⟩ : ∃ closer, closers = [closer] ∧ closer.tree = .leaf last := by
    simpa [List.map_eq_cons_iff] using closed
  have size : units.length = trees.length := by rw [← unitTrees, List.length_map]
  rw [shape, ← size, List.take_left] at paces
  have areNodes : ∀ unit ∈ units, unit.isNode := by
    have kinds : trees.all (·.isNode) := by
      simpa [Label.fits] using (Bool.and_eq_true_iff.mp (Bool.and_eq_true_iff.mp admitted).1).2
    intro unit member
    exact List.all_eq_true.mp kinds unit.tree (by rw [← unitTrees]; exact List.mem_map_of_mem member)
  have firm : ∀ unit ∈ units.map (·.tree), unit.margin = 2 := by
    rw [unitTrees]
    exact fun unit member => margin_child composed rfl unit (List.mem_append_left _ member)
  have laid := (Template.lays_units false areNodes).leads indented (Nat.le_refl 2)
    (fun part member => (paces part member).toPaces) (pace_units_only firm (Nat.le_refl 2))
  have same : (document source (.node .program (trees ++ [.leaf last]))).row =
      rowOf (unitLines false units) ++ rowOf (danglingComments (!units.isEmpty) last) := by
    rw [document_program source admitted, shape]
    simp [arrange, program, dangling, isLast]
  cases units with
  | nil =>
    have noted := leads_danglingComments indented ends (Nat.le_refl 2) (by simp : false → 2 = 0)
    by_cases empty : (danglingComments false last).isEmpty
    · left
      simpa [unitLines, List.isEmpty_iff.mp empty] using same
    · right
      rw [if_neg empty] at noted
      refine .of_row ?_
      rw [same]
      exact noted
  | cons unit units =>
    have noted := leads_danglingComments indented ends (Nat.zero_le 2) fun _ : true = true => rfl
    rw [ite_self] at noted
    right
    refine .of_row ?_
    rw [same]
    exact Row.Leads.append laid noted

end Program

end Layout

end Squirrel
