import Squirrel.Proofs.Doc.Row
import Squirrel.Proofs.Tree.Shape

/-! The layout of each node as a row of slots, which its children are put into one by one. -/

namespace Squirrel.Layout

open Doc (hardLine plainLine softLine space groupOf indentOf misfit rowOf)

section Parts

variable {parts : List Part} {opener closer : Part}

theorem getLast_map {kinds : List Bool} (same : parts.map (·.isNode) = kinds)
    (closes : kinds.getLast? = some false) :
    ∃ units closer, parts = units ++ [closer] ∧ closer.isNode = false ∧
      units.map (·.isNode) = kinds.dropLast := by
  subst same
  rw [List.getLast?_map, Option.map_eq_some_iff] at closes
  obtain ⟨closer, last, isToken⟩ := closes
  obtain ⟨units, rfl⟩ := List.getLast?_eq_some_iff.mp last
  exact ⟨units, closer, rfl, isToken, by simp⟩

theorem bracketed?_between (units : List Part) :
    bracketed? (opener :: (units ++ [closer])) = some (opener, units, closer) := by
  cases units with
  | nil => rfl
  | cons unit units =>
    rw [List.cons_append, bracketed?]
    simp only [← List.cons_append, List.dropLast_concat, List.getLast_concat]

theorem between_of_isEnclosed (enclosed : isEnclosed (parts.map (·.isNode))) :
    ∃ opener inner closer, parts = opener :: (inner ++ [closer]) ∧ opener.isNode = false ∧
      closer.isNode = false := by
  cases parts with
  | nil => cases enclosed
  | cons opener others =>
    cases opens : opener.isNode with
    | true => simp [isEnclosed, opens] at enclosed
    | false =>
      simp only [List.map_cons, opens, isEnclosed, decide_eq_true_eq] at enclosed
      obtain ⟨inner, closer, rfl, isToken, -⟩ := getLast_map rfl enclosed
      exact ⟨opener, inner, closer, rfl, opens, isToken⟩

theorem between_of_enclosesNodes (encloses : enclosesNodes (parts.map (·.isNode))) :
    ∃ opener units closer, parts = opener :: (units ++ [closer]) ∧ opener.isNode = false ∧
      closer.isNode = false ∧ ∀ unit ∈ units, unit.isNode := by
  cases parts with
  | nil => cases encloses
  | cons opener others =>
    cases opens : opener.isNode with
    | true => simp [enclosesNodes, opens] at encloses
    | false =>
      simp only [List.map_cons, opens, enclosesNodes, Bool.and_eq_true, decide_eq_true_eq]
        at encloses
      obtain ⟨units, closer, rfl, isToken, kinds⟩ := getLast_map rfl encloses.1
      refine ⟨opener, units, closer, rfl, opens, isToken, ?_⟩
      simpa [← kinds] using encloses.2

theorem map_take (count : Nat) {head : List Bool} (same : (parts.map (·.isNode)).take count = head)
    : ∃ first rest, parts = first ++ rest ∧ first.map (·.isNode) = head ∧ rest = parts.drop count :=
  ⟨parts.take count, parts.drop count, by simp, by simpa [List.map_take] using same, rfl⟩

theorem map_endsAfter {head : List Bool} (ends : endsAfter head (parts.map (·.isNode))) :
    ∃ first ending, parts = first ++ ending ∧ first.map (·.isNode) = head := by
  have same := of_decide_eq_true (Bool.and_eq_true_iff.mp ends).1
  obtain ⟨first, ending, split, kinds, -⟩ := map_take head.length same
  exact ⟨first, ending, split, kinds⟩

theorem switch_of_fits (fits : Label.switchStatement.fits (parts.map (·.isNode))) :
    ∃ keyword opener subject closer brace units unbrace,
      parts = keyword :: opener :: subject :: closer :: brace :: (units ++ [unbrace]) ∧
        brace.isNode = false ∧ unbrace.isNode = false ∧ ∀ unit ∈ units, unit.isNode := by
  obtain ⟨headKinds, encloses⟩ := Bool.and_eq_true_iff.mp fits
  obtain ⟨head, rest, shape, kinds, rfl⟩ := map_take 4 (of_decide_eq_true headKinds)
  rw [← List.map_drop] at encloses
  obtain ⟨brace, units, unbrace, between, tokens⟩ := between_of_enclosesNodes encloses
  rw [between] at shape
  obtain ⟨keyword, -, opener, -, subject, -, closer, -, rfl⟩ := itemized kinds
  exact ⟨keyword, opener, subject, closer, brace, units, unbrace, shape, tokens⟩

theorem tree_logical (tree : Tree) (parts : List Part) : (logical tree parts).tree = tree := by
  unfold logical
  split
  · split <;> rfl
  · rfl

@[simp] theorem tree_part (source : List Char) (placed : Placed) (tree : Tree) :
    (part source placed tree).tree = tree := by
  cases tree with
  | leaf token => rw [part]
  | node label children =>
    rw [part]
    unfold nodePart
    split
    · split
      · rfl
      · exact tree_logical _ _
      · rfl
    · rfl

theorem trees_partsOf (source : List Char) (placed : Placed) (parent : Label)
    (dangles atStart : Bool) (trees : List Tree) :
    (partsOf source placed parent dangles atStart trees).map (·.tree) = trees := by
  induction trees generalizing atStart with
  | nil => rw [partsOf, List.map_nil]
  | cons tree trees ih =>
    rw [partsOf, List.map_cons, ih]
    congr 1
    split
    · rfl
    · split <;> simp

end Parts

/-- What a row of a layout is made of. A `gap` separates; a `hole` takes a child, a `unit` takes one
with the comments before it, and `notes` are those before the closing token that comes next. A
`spare` comma shows in a broken list only, an `extra` one stands where none was. The last token of
a program is left `out`. -/
inductive Slot where
  | gap (doc : Doc)
  | hole
  | unit (seen : Bool)
  | notes (afterUnits : Bool)
  | spare
  | extra (anyComma : Bool)
  | out

namespace Slot

def takes : Slot → Bool
  | .hole | .unit _ | .spare | .out => true
  | .gap _ | .notes _ | .extra _ => false

def row : Slot → List Part → Row
  | .gap doc, _ => doc.row
  | .hole, part :: _ => part.doc.row
  | .unit seen, part :: _ => rowOf (unitComments seen part.tree) ++ part.doc.row
  | .notes afterUnits, part :: _ => rowOf (dangling afterUnits part)
  | .spare, part :: _ => [(0, .ifBreak part.doc (.text ""))]
  | .extra anyComma, _ =>
    [(0, if anyComma then .text "," else .ifBreak (.text "") (.text ","))]
  | _, _ => []

def suits : Slot → List Tree → Bool
  | .gap _, _ | .extra _, _ | .hole, _ :: _ => true
  | .unit _, tree :: _ => tree.isNode
  | .notes _, tree :: _ | .out, tree :: _ => tree.isLeaf
  | .spare, tree :: _ => tree.isLeaf
  | _, [] => false

end Slot

/-- A slot with how much deeper than the node its lines start. -/
abbrev Template := List (Nat × Slot)

namespace Template

def deepen (nest : Nat) (template : Template) : Template :=
  template.map fun (own, slot) => (own + nest, slot)

def fill : Template → List Part → Row
  | [], _ => []
  | (nest, slot) :: template, parts =>
    (slot.row parts).deepen nest ++ fill template (if slot.takes then parts.tail else parts)

def goes : Template → List Tree → Bool
  | [], _ => true
  | (_, slot) :: template, trees =>
    slot.suits trees && goes template (if slot.takes then trees.tail else trees)

def count : Template → Nat
  | [] => 0
  | (_, slot) :: template => (if slot.takes then 1 else 0) + count template

end Template

section Templates

def Part.bare (tree : Tree) : Part := ⟨tree, .nothing, none⟩

@[simp] def hole : Nat × Slot := (0, .hole)

@[simp] def gap (doc : Doc) : Nat × Slot := (0, .gap doc)

def holes (trees : List Tree) : Template := trees.flatMap fun _ => [hole]

def bodySlots (statement : Tree) : Template :=
  if statement.hasLabel .block then [gap space, hole]
  else if statement.hasLabel .emptyStatement then [hole]
  else [(1, .gap hardLine), (1, .hole)]

def alternativeSlots (statement : Tree) : Template :=
  if statement.hasLabel .ifStatement then [gap space, hole] else bodySlots statement

def clauseSlots (clause : Tree) : Template :=
  if clause.children.isEmpty then [hole] else [gap space, hole]

def unitSlots (seen : Bool) : List Tree → Template
  | [] => []
  | _ :: units => (if seen then [gap hardLine] else []) ++ [(0, .unit seen)] ++ unitSlots true units

def hollowSlots (closer : Tree) : Template :=
  if (dangling false (.bare closer)).isEmpty then [hole, hole]
  else [hole, (1, .gap hardLine), (1, .notes false), gap hardLine, hole]

def blockSlots (units : List Tree) (closer : Tree) : Template :=
  if units.isEmpty then hollowSlots closer
  else [hole, (1, .gap hardLine)] ++ Template.deepen 1 (unitSlots false units) ++
    [(1, .notes true), gap hardLine, hole]

def switchSlots (clauses : List Tree) (closer : Tree) : Template :=
  if clauses.isEmpty then hollowSlots closer
  else [hole, gap hardLine] ++ unitSlots false clauses ++ [(0, .notes true), gap hardLine, hole]

/-- Values with the commas after them, a line before each further value. -/
def commaSlots : List Tree → Template
  | [] => []
  | [_] => [(1, .hole)]
  | [_, _] => [(1, .hole), (1, .hole)]
  | _ :: _ :: rest => [(1, .hole), (1, .hole), (1, .gap plainLine)] ++ commaSlots rest

def hugs (opener : Tree) (inner : List Tree) (closer : Tree) : Bool :=
  canHug (.bare opener) (inner.map .bare) (.bare closer)

def hugSlots (inner : List Tree) : Template :=
  [hole] ++ inner.flatMap (fun tree => if tree.isNode then [hole] else [hole, gap space]) ++ [hole]

def listSlots (inner : List Tree) : Template :=
  [hole, (1, .gap softLine)] ++ commaSlots inner ++ [gap softLine, hole]

def entrySlots (anyComma seen : Bool) : List Tree → Template
  | [] => []
  | _ :: rest =>
    (if seen then [(1, .gap plainLine)] else []) ++ [(1, .unit seen)] ++
      match rest with
      | [] => []
      | next :: others =>
        if next.isNode then (1, .extra anyComma) :: entrySlots anyComma true (next :: others)
        else (1, if others.isEmpty then .spare else .hole) :: entrySlots anyComma true others

def sequenceSlots (pad : Doc) (inner : List Tree) : Template :=
  [hole, (1, .gap pad)] ++ entrySlots (inner.any (·.isLeaf)) false inner ++
    [(1, .notes true), gap pad, hole]

/-- The children after the first one, but for the last one, and the last one. -/
def within? : List Tree → Option (List Tree × Tree)
  | _ :: second :: rest =>
    some ((second :: rest).dropLast, (second :: rest).getLast (by simp))
  | _ => none

/-- The children in order, with a space after those of the given kinds. -/
def spacedSlots (kinds : List Kind) (trees : List Tree) : Template :=
  trees.flatMap fun tree => if kinds.any tree.isToken then [hole, gap space] else [hole]

def bindingSlots : List Tree → Template
  | [_] => [hole]
  | _ => [hole, gap space, hole, gap space, hole]

def ifSlots : List Tree → Template
  | [_, _, _, _, first] => [hole, gap space, hole, hole, hole] ++ bodySlots first
  | [_, _, _, _, first, _, second] =>
    [hole, gap space, hole, hole, hole] ++ bodySlots first ++ [gap (gapAfterBody (.bare first)), hole] ++
      alternativeSlots second
  | _ => []

def forSlots : List Tree → Template
  | [_, _, _, _, condition, _, step, _, statement] =>
    [hole, gap space, hole, hole, hole] ++ clauseSlots condition ++ [hole] ++ clauseSlots step ++
      [hole] ++ bodySlots statement
  | _ => []

def argumentSlots : List Tree → Template
  | opener :: rest => (within? (opener :: rest)).elim [] fun (inner, closer) =>
    if inner.isEmpty then hollowSlots closer
    else if hugs opener inner closer then hugSlots inner
    else listSlots inner
  | [] => []

@[simp] def template (label : Label) (trees : List Tree) : Template :=
  match label, trees with
  | .program, trees =>
    unitSlots false trees.dropLast ++ [(0, .notes (!trees.dropLast.isEmpty)), (0, .out)]
  | .block, trees => (within? trees).elim [] fun (units, closer) => blockSlots units closer
  | .localDeclaration, trees => spacedSlots [.kwLocal, .comma] trees
  | .foreachVariables, trees => spacedSlots [.comma] trees
  | .declarator, trees | .parameter, trees | .binary, trees | .assign, trees | .newSlot, trees
  | .tableSlot, trees => bindingSlots trees
  | .constDeclaration, _ :: _ :: _ :: _ :: ending =>
    [hole, gap space, hole, gap space, hole, gap space, hole] ++ holes ending
  | .ifStatement, trees => ifSlots trees
  | .whileStatement, [_, _, _, _, statement] =>
    [hole, gap space, hole, hole, hole] ++ bodySlots statement
  | .doWhileStatement, _ :: statement :: _ :: _ :: _ :: _ :: ending =>
    [hole] ++ bodySlots statement ++ [gap (gapAfterBody (.bare statement)), hole, gap space, hole,
      hole, hole] ++ holes ending
  | .forStatement, trees => forSlots trees
  | .foreachStatement, [_, _, _, _, _, _, statement] =>
    [hole, gap space, hole, hole, gap space, hole, gap space, hole, hole] ++ bodySlots statement
  | .switchStatement, _ :: _ :: _ :: _ :: rest =>
    [hole, gap space, hole, hole, hole, gap space] ++
      (within? rest).elim [] fun (clauses, closer) => switchSlots clauses closer
  | .caseClause, _ => [hole, gap space, hole, hole, hole]
  | .caseBody, trees =>
    if trees.isEmpty then [] else (1, .gap hardLine) :: Template.deepen 1 (unitSlots false trees)
  | .tryStatement, [_, statement, _, _, _, _, handler] =>
    [hole] ++ bodySlots statement ++ [gap (gapAfterBody (.bare statement)), hole, gap space, hole,
      hole, hole] ++ bodySlots handler
  | .returnStatement, trees =>
    trees.flatMap fun tree => if tree.isNode then [gap space, hole] else [hole]
  | .throwStatement, _ :: rest => [hole, gap space] ++ holes rest
  | .functionDeclaration, trees => trees.flatMap fun tree =>
    if tree.hasLabel .block then [gap space, hole]
    else if tree.isToken .kwLocal || tree.isToken .kwFunction then [hole, gap space]
    else [hole]
  | .ternary, _ =>
    [hole, (1, .gap plainLine), (1, .hole), (1, .gap space), (1, .hole), (1, .gap plainLine),
      (1, .hole), (1, .gap space), (1, .hole)]
  | .unary, [operator, operand] =>
    if operator.token?.any fun token => isWordOperator token.kind || glues token operand
    then [hole, gap space, hole] else [hole, hole]
  | .arguments, trees => argumentSlots trees
  | .parameters, trees => (within? trees).elim [] fun (inner, closer) =>
    if inner.isEmpty then hollowSlots closer else listSlots inner
  | .functionLiteral, _ | .lambdaLiteral, _ | .hookWrapper, _ => [hole, hole, gap space, hole]
  | .table, trees => (within? trees).elim [] fun (inner, closer) =>
    if inner.isEmpty then hollowSlots closer else sequenceSlots plainLine inner
  | .array, trees => (within? trees).elim [] fun (inner, closer) =>
    if inner.isEmpty then hollowSlots closer else sequenceSlots softLine inner
  | .tableComputed, _ => [hole, hole, hole, gap space, hole, gap space, hole]
  | .tableQuoted, _ => [hole, hole, gap space, hole]
  | .tableMethod, _ => [hole, gap space, hole, hole, gap space, hole]
  | _, trees => holes trees

def isGrouped : Label → List Tree → Bool
  | .ternary, _ => true
  | .arguments, opener :: rest => (within? (opener :: rest)).any fun (inner, closer) =>
    !inner.isEmpty && !hugs opener inner closer
  | .parameters, trees | .table, trees | .array, trees =>
    (within? trees).any fun (inner, _) => !inner.isEmpty
  | _, _ => false

/-- Values with commas between them, and perhaps one after the last. -/
def alternates : List Tree → Bool
  | [] => true
  | [value] => value.isNode
  | value :: comma :: rest => value.isNode && comma.isLeaf && alternates rest

def listed : List Tree → Bool
  | [] => true
  | [entry] => entry.isNode
  | entry :: next :: rest =>
    entry.isNode && if next.isNode then listed (next :: rest) else listed rest

def ordered : Label → List Tree → Bool
  | .arguments, trees | .parameters, trees => (within? trees).any fun (inner, _) => alternates inner
  | .array, trees | .table, trees => (within? trees).any fun (inner, _) => listed inner
  | _, _ => true

theorem within?_between (opener : Tree) (inner : List Tree) (closer : Tree) :
    within? (opener :: (inner ++ [closer])) = some (inner, closer) := by
  cases inner with
  | nil => rfl
  | cons first inner =>
    rw [List.cons_append, within?]
    simp only [← List.cons_append, List.dropLast_concat, List.getLast_concat]

theorem map_between (opener closer : Part) (inner : List Part) :
    (opener :: (inner ++ [closer])).map (·.tree) =
      opener.tree :: (inner.map (·.tree) ++ [closer.tree]) := by simp

end Templates

namespace Template

section Filling

variable (nest : Nat) (template : Template) (part : Part) (parts : List Part)

@[simp] theorem fill_nil : fill [] parts = [] := rfl

@[simp] theorem fill_gap (doc : Doc) :
    fill ((nest, .gap doc) :: template) parts = doc.row.deepen nest ++ fill template parts := rfl

@[simp] theorem fill_hole :
    fill ((nest, .hole) :: template) (part :: parts) =
      part.doc.row.deepen nest ++ fill template parts := rfl

@[simp] theorem fill_unit (seen : Bool) :
    fill ((nest, .unit seen) :: template) (part :: parts) =
      (rowOf (unitComments seen part.tree) ++ part.doc.row).deepen nest ++ fill template parts := rfl

@[simp] theorem fill_notes (afterUnits : Bool) :
    fill ((nest, .notes afterUnits) :: template) (part :: parts) =
      (rowOf (dangling afterUnits part)).deepen nest ++ fill template (part :: parts) := rfl

@[simp] theorem fill_spare :
    fill ((nest, .spare) :: template) (part :: parts) =
      (nest, .ifBreak part.doc (.text "")) :: fill template parts := by
  simp [fill, Slot.row, Slot.takes]

@[simp] theorem fill_extra (anyComma : Bool) :
    fill ((nest, .extra anyComma) :: template) parts =
      (nest, if anyComma then .text "," else .ifBreak (.text "") (.text ",")) ::
        fill template parts := by
  simp [fill, Slot.row, Slot.takes]

@[simp] theorem fill_out :
    fill ((nest, .out) :: template) (part :: parts) = fill template parts := rfl

variable {part} {parts} in
@[simp] theorem fill_body (rest : Template) :
    fill (bodySlots part.tree ++ rest) (part :: parts) = (body part).row ++ fill rest parts := by
  unfold bodySlots body Part.hasLabel
  split
  · simp
  · split <;> simp

@[simp] theorem fill_body_last : fill (bodySlots part.tree) [part] = (body part).row := by
  simpa using fill_body []

@[simp] theorem fill_alternative : fill (alternativeSlots part.tree) [part] = (alternative part).row := by
  unfold alternativeSlots alternative Part.hasLabel
  split <;> simp

@[simp] theorem fill_clause :
    fill (clauseSlots part.tree ++ template) (part :: parts) =
      rowOf (headClause part) ++ fill template parts := by
  unfold clauseSlots headClause
  split <;> simp

theorem fill_append (first second : Template) :
    fill (first ++ second) parts = fill first parts ++ fill second (parts.drop first.count) := by
  induction first generalizing parts with
  | nil => rfl
  | cons entry first ih =>
    obtain ⟨nest, slot⟩ := entry
    rw [List.cons_append, fill, ih, fill, count, List.append_assoc]
    split <;> simp [Nat.add_comm 1]

theorem goes_append (first second : Template) (trees : List Tree) :
    goes (first ++ second) trees = (goes first trees && goes second (trees.drop first.count)) := by
  induction first generalizing trees with
  | nil => simp [goes, count]
  | cons entry first ih =>
    obtain ⟨nest, slot⟩ := entry
    rw [List.cons_append, goes, ih, goes, count, Bool.and_assoc]
    split <;> simp [Nat.add_comm 1]

@[simp] theorem count_append (first second : Template) :
    count (first ++ second) = first.count + second.count := by
  induction first with
  | nil => simp [count]
  | cons entry first ih => rw [List.cons_append, count, ih, count, Nat.add_assoc]

@[simp] theorem count_body (statement : Tree) : count (bodySlots statement) = 1 := by
  unfold bodySlots
  split
  · rfl
  · split <;> rfl

@[simp] theorem count_alternative (statement : Tree) : count (alternativeSlots statement) = 1 := by
  unfold alternativeSlots
  split <;> simp [count, Slot.takes]

@[simp] theorem count_clause (clause : Tree) : count (clauseSlots clause) = 1 := by
  unfold clauseSlots
  split <;> rfl

theorem deepen_cons (own : Nat) (slot : Slot) :
    deepen nest ((own, slot) :: template) = (own + nest, slot) :: deepen nest template := rfl

theorem fill_deepen : fill (template.deepen nest) parts = (fill template parts).deepen nest := by
  induction template generalizing parts with
  | nil => rfl
  | cons entry template ih =>
    obtain ⟨own, slot⟩ := entry
    rw [deepen_cons, fill, ih, fill, Row.deepen_append, Row.deepen_deepen]

theorem goes_deepen (trees : List Tree) : goes (template.deepen nest) trees = goes template trees := by
  induction template generalizing trees with
  | nil => rfl
  | cons entry template ih =>
    rw [deepen_cons, goes, ih, goes]

theorem count_deepen : count (template.deepen nest) = template.count := by
  induction template with
  | nil => rfl
  | cons entry template ih =>
    rw [deepen_cons, count, ih, count]

end Filling

/-- A template takes the given parts, whatever comes after them, and prints a row. -/
structure Lays (template : Template) (parts : List Part) (row : Row) : Prop where
  count : template.count = parts.length
  goes : ∀ trees, template.goes (parts.map (·.tree) ++ trees)
  fill : ∀ more, template.fill (parts ++ more) = row

section Lays

variable {template first second : Template} {parts front back : List Part} {row start rest : Row}

theorem Lays.goes_all (laid : Lays template parts row) : template.goes (parts.map (·.tree)) := by
  simpa using laid.goes []

theorem Lays.filled (laid : Lays template parts row) : template.fill parts = row := by
  simpa using laid.fill []

theorem lays_nil : Lays [] [] [] := ⟨rfl, fun _ => rfl, fun _ => rfl⟩

theorem Lays.append (one : Lays first front start) (two : Lays second back rest) :
    Lays (first ++ second) (front ++ back) (start ++ rest) where
  count := by rw [count_append, one.count, two.count, List.length_append]
  goes trees := by
    have ends : first.count = (front.map (·.tree)).length := by rw [one.count, List.length_map]
    rw [List.map_append, List.append_assoc, goes_append, one.goes, ends, List.drop_left, two.goes]
    rfl
  fill more := by
    rw [List.append_assoc, fill_append, one.fill, one.count, List.drop_left, two.fill]

theorem Lays.deepen (nest : Nat) (laid : Lays template parts row) :
    Lays (template.deepen nest) parts (row.deepen nest) where
  count := by rw [count_deepen, laid.count]
  goes trees := by rw [goes_deepen, laid.goes]
  fill more := by rw [fill_deepen, laid.fill]

theorem lays_gap (nest : Nat) (doc : Doc) : Lays [(nest, .gap doc)] [] (doc.row.deepen nest) :=
  ⟨rfl, fun _ => rfl, fun _ => by simp⟩

theorem lays_hole (nest : Nat) (part : Part) :
    Lays [(nest, .hole)] [part] (part.doc.row.deepen nest) :=
  ⟨rfl, fun _ => rfl, fun _ => by simp⟩

theorem Lays.cons_gap (nest : Nat) (doc : Doc) (laid : Lays template parts row) :
    Lays ((nest, .gap doc) :: template) parts (doc.row.deepen nest ++ row) :=
  (lays_gap nest doc).append laid

theorem Lays.cons_hole (nest : Nat) (part : Part) (laid : Lays template parts row) :
    Lays ((nest, .hole) :: template) (part :: parts) (part.doc.row.deepen nest ++ row) :=
  (lays_hole nest part).append laid

theorem Lays.cons_unit (nest : Nat) (seen : Bool) {part : Part} (isNode : part.isNode)
    (laid : Lays template parts row) :
    Lays ((nest, .unit seen) :: template) (part :: parts)
      ((rowOf (unitComments seen part.tree) ++ part.doc.row).deepen nest ++ row) := by
  have one : Lays [(nest, .unit seen)] [part]
      ((rowOf (unitComments seen part.tree) ++ part.doc.row).deepen nest) :=
    ⟨rfl, fun _ => by simpa [Template.goes, Slot.suits, Part.isNode] using isNode, fun _ => by simp⟩
  exact one.append laid

theorem lays_closer (nest : Nat) (afterUnits : Bool) (pad : Doc) {closer : Part}
    (isToken : closer.isNode = false) :
    Lays [(nest, .notes afterUnits), (0, .gap pad), (0, .hole)] [closer]
      ((rowOf (dangling afterUnits closer)).deepen nest ++ pad.row ++ closer.doc.row) := by
  refine ⟨rfl, fun trees => ?_, fun more => by simp⟩
  have isLeaf : closer.tree.isLeaf := by simpa [Part.isNode, Tree.isNode] using isToken
  simp [Template.goes, Slot.suits, Slot.takes, isLeaf]

theorem lays_each (slots : Tree → Template) (around : Part → List Doc)
    (each : ∀ part : Part, Lays (slots part.tree) [part] (rowOf (around part))) (parts : List Part) :
    Lays ((parts.map (·.tree)).flatMap slots) parts (rowOf (parts.flatMap around)) := by
  induction parts with
  | nil => simpa using lays_nil
  | cons part parts ih =>
    rw [List.map_cons, List.flatMap_cons, List.flatMap_cons, Doc.rowOf_append]
    exact (each part).append ih

theorem lays_holes (parts : List Part) :
    Lays (holes (parts.map (·.tree))) parts (rowOf (docs parts)) := by
  have laid : Lays ((parts.map (·.tree)).flatMap fun _ => [hole]) parts
      (rowOf (parts.flatMap fun part => [part.doc])) :=
    lays_each _ _ (fun part => by simpa using lays_hole 0 part) parts
  have same : docs parts = parts.flatMap fun part => [part.doc] := List.map_eq_flatMap ..
  rwa [same]

@[simp] theorem fill_holes (parts : List Part) :
    fill (holes (parts.map (·.tree))) parts = rowOf (docs parts) := by
  simpa using (lays_holes parts).fill []

@[simp] theorem count_holes (trees : List Tree) : count (holes trees) = trees.length := by
  have laid := (lays_holes (trees.map .bare)).count
  simpa [Function.comp_def, Part.bare] using laid

theorem lays_units (seen : Bool) {units : List Part} (areNodes : ∀ unit ∈ units, unit.isNode) :
    Lays (unitSlots seen (units.map (·.tree))) units (rowOf (unitLines seen units)) := by
  induction units generalizing seen with
  | nil => exact lays_nil
  | cons unit units ih =>
    obtain ⟨first, others⟩ := List.forall_mem_cons.mp areNodes
    have laid := (ih true others).cons_unit 0 seen first
    cases seen with
    | false => simpa [unitSlots, unitLines] using laid
    | true => simpa [unitSlots, unitLines] using laid.cons_gap 0 hardLine

theorem lays_hollow (opener : Part) {closer : Part} (isToken : closer.isNode = false) :
    Lays (hollowSlots closer.tree) [opener, closer]
      (hollow opener (dangling false closer) closer).row := by
  have same : dangling false (.bare closer.tree) = dangling false closer := rfl
  unfold hollowSlots hollow
  rw [same]
  split
  · simpa using (lays_hole 0 closer).cons_hole 0 opener
  · simpa [enclosed] using
      ((lays_closer 1 false hardLine isToken).cons_gap 1 hardLine).cons_hole 0 opener

theorem lays_commas {inner : List Part} (alternate : alternates (inner.map (·.tree))) :
    Lays (commaSlots (inner.map (·.tree))) inner
      ((rowOf ((withCommas (inner.filter (·.isNode)) (inner.filter (!·.isNode))).intersperse
        plainLine)).deepen 1) := by
  match inner with
  | [] => exact lays_nil
  | [value] =>
    have isNode : value.isNode := alternate
    simpa [commaSlots, isNode, withCommas] using lays_hole 1 value
  | [value, comma] =>
    have kinds : value.isNode ∧ comma.isNode = false := by
      simpa [alternates, Part.isNode, Tree.isNode] using alternate
    simpa [commaSlots, kinds, withCommas] using (lays_hole 1 comma).cons_hole 1 value
  | value :: comma :: next :: rest =>
    have kinds : (value.isNode ∧ comma.isNode = false) ∧
        alternates ((next :: rest).map (·.tree)) := by
      simpa [alternates, Part.isNode, Tree.isNode] using alternate
    have isNode : next.isNode := by
      cases rest <;> simp_all [alternates, Part.isNode]
    have laid := (((lays_commas kinds.2).cons_gap 1 plainLine).cons_hole 1 comma).cons_hole 1 value
    have split : withCommas ((next :: rest).filter (·.isNode)) ((next :: rest).filter (!·.isNode)) ≠
        [] := by
      rw [List.filter_cons_of_pos isNode]
      cases (next :: rest).filter (!·.isNode) <;> simp [withCommas]
    obtain ⟨first, others, shape⟩ := List.exists_cons_of_ne_nil split
    have shown : withCommas ((value :: comma :: next :: rest).filter (·.isNode))
        ((value :: comma :: next :: rest).filter (!·.isNode)) =
        .concat [value.doc, comma.doc] :: first :: others := by
      rw [← shape]
      simp [kinds.1, withCommas]
    rw [shape] at laid
    rw [shown, List.intersperse_cons_cons]
    simpa [commaSlots] using laid

variable {entry : Part}

theorem Lays.cons_entry (seen : Bool) (isNode : entry.isNode) (laid : Lays template parts row) :
    Lays ((if seen then [(1, .gap plainLine)] else []) ++ [(1, .unit seen)] ++ template)
      (entry :: parts)
      ((rowOf ((if seen then [plainLine] else []) ++ unitComments seen entry.tree ++
        [entry.doc])).deepen 1 ++ row) := by
  have own := laid.cons_unit 1 seen isNode
  cases seen with
  | false => simpa using own
  | true => simpa using own.cons_gap 1 plainLine

theorem entries_cons (isNode : entry.isNode) (rest : List Part) :
    ∃ comma? others, entries (entry :: rest) = (entry, comma?) :: others := by
  cases rest with
  | nil => exact ⟨none, [], by simp [entries, isNode]⟩
  | cons next rest =>
    rw [entries, if_pos isNode]
    split
    · exact ⟨none, _, rfl⟩
    · exact ⟨some next, _, rfl⟩

theorem isNode_of_listed {rest : List Part} (list : listed ((entry :: rest).map (·.tree))) :
    entry.isNode := by
  cases rest <;> simp_all [listed, Part.isNode]

theorem lays_entries (anyComma seen : Bool) {inner : List Part}
    (list : listed (inner.map (·.tree))) :
    Lays (entrySlots anyComma seen (inner.map (·.tree))) inner
      ((rowOf (entryLines anyComma seen (entries inner))).deepen 1) := by
  match inner with
  | [] => exact lays_nil
  | [entry] =>
    have isNode := isNode_of_listed list
    simpa [entrySlots, entries, isNode, entryLines, afterEntry] using lays_nil.cons_entry seen isNode
  | entry :: next :: rest =>
    have isNode := isNode_of_listed list
    cases nextIsNode : next.isNode with
    | true =>
      have others : listed ((next :: rest).map (·.tree)) := by
        simp_all [listed, Part.isNode]
      have after := lays_entries anyComma true others
      have extra : Lays [(1, .extra anyComma)] []
          ((rowOf (afterEntry none false anyComma)).deepen 1) :=
        ⟨rfl, fun _ => rfl, fun _ => by cases anyComma <;> simp [afterEntry]⟩
      have laid := (extra.append after).cons_entry seen isNode
      obtain ⟨comma?, pairs, shape⟩ := entries_cons nextIsNode rest
      have shown : entries (entry :: next :: rest) = (entry, none) :: entries (next :: rest) := by
        simp [entries, isNode, nextIsNode]
      have slots : entrySlots anyComma seen ((entry :: next :: rest).map (·.tree)) =
          (if seen then [(1, .gap plainLine)] else []) ++ [(1, .unit seen)] ++
            ([(1, .extra anyComma)] ++ entrySlots anyComma true ((next :: rest).map (·.tree))) := by
        have same : next.tree.isNode := nextIsNode
        simp [entrySlots, same]
      have isLast : (entries (next :: rest)).isEmpty = false := by simp [shape]
      rw [shown, slots, entryLines, isLast]
      simpa using laid
    | false =>
      have others : listed (rest.map (·.tree)) := by
        simp_all [listed, Part.isNode]
      have after := lays_entries anyComma true others
      have isLast : (entries rest).isEmpty = (rest.map (·.tree)).isEmpty := by
        cases rest with
        | nil => rfl
        | cons first rest =>
          obtain ⟨comma?, pairs, shape⟩ := entries_cons (isNode_of_listed others) rest
          simp [shape]
      have comma : Lays [(1, if (rest.map (·.tree)).isEmpty then .spare else .hole)] [next]
          ((rowOf (afterEntry (some next) (entries rest).isEmpty anyComma)).deepen 1) := by
        have isLeaf : next.tree.isLeaf := by
          simpa [Part.isNode, Tree.isNode] using nextIsNode
        rw [isLast]
        cases (rest.map (·.tree)).isEmpty with
        | false => simpa [afterEntry] using lays_hole 1 next
        | true =>
          refine ⟨rfl, fun _ => ?_, fun _ => by simp [afterEntry]⟩
          simp [Template.goes, Slot.suits, isLeaf]
      have laid := (comma.append after).cons_entry seen isNode
      have shown : entries (entry :: next :: rest) = (entry, some next) :: entries rest := by
        simp [entries, isNode, nextIsNode]
      have slots : entrySlots anyComma seen ((entry :: next :: rest).map (·.tree)) =
          (if seen then [(1, .gap plainLine)] else []) ++ [(1, .unit seen)] ++
            ([(1, if (rest.map (·.tree)).isEmpty then .spare else .hole)] ++
              entrySlots anyComma true (rest.map (·.tree))) := by
        have same : next.tree.isNode = false := nextIsNode
        simp [entrySlots, same]
      rw [shown, slots, entryLines]
      simpa using laid

end Lays

end Template

end Squirrel.Layout
