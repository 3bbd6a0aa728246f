import Squirrel.Proofs.Layout.Slots

/-! Nodes are laid out in their rows of slots: what these are made of, and which of the children stand
on their own in them. -/

namespace Squirrel.Layout

open Doc (hardLine plainLine softLine space groupOf indentOf rowOf)
open Template

section Making

def isGap (doc : Doc) : Prop := doc = space ∨ doc = hardLine ∨ doc = plainLine ∨ doc = softLine

/-- What a template is made of. Nodes of the lowest rank only put gaps between their children, the
highest rank has units that stand on their own. -/
def Slot.Made (rank : Nat) : Slot → Prop
  | .gap doc => isGap doc
  | .hole => True
  | .notes _ => 1 ≤ rank
  | .unit _ | .spare | .extra _ | .out => 2 ≤ rank

def Template.Made (rank : Nat) (template : Template) : Prop := ∀ entry ∈ template, entry.2.Made rank

def rankOf : Label → Nat
  | .program | .block | .caseBody | .switchStatement | .table | .array => 2
  | .arguments | .parameters => 1
  | _ => 0

variable {rank : Nat}

@[simp] theorem isGap_space : isGap space := .inl rfl

@[simp] theorem isGap_hardLine : isGap hardLine := .inr (.inl rfl)

@[simp] theorem isGap_plainLine : isGap plainLine := .inr (.inr (.inl rfl))

@[simp] theorem isGap_softLine : isGap softLine := .inr (.inr (.inr rfl))

@[simp] theorem isGap_afterBody (statement : Part) : isGap (gapAfterBody statement) := by
  unfold gapAfterBody
  split <;> simp

@[simp] theorem made_nil : Made rank [] := by simp [Made]

@[simp] theorem made_cons (nest : Nat) (slot : Slot) (template : Template) :
    Made rank ((nest, slot) :: template) ↔ slot.Made rank ∧ Made rank template := by simp [Made]

@[simp] theorem made_append (first second : Template) :
    Made rank (first ++ second) ↔ Made rank first ∧ Made rank second := by
  simp [Made, or_imp, forall_and]

@[simp] theorem made_deepen (nest : Nat) (template : Template) :
    Made rank (template.deepen nest) ↔ Made rank template :=
  List.forall_mem_map

theorem made_each (slots : Tree → Template) (each : ∀ tree, Made rank (slots tree)) (trees : List Tree) :
    Made rank (trees.flatMap slots) := by
  intro entry member
  obtain ⟨tree, -, own⟩ := List.mem_flatMap.mp member
  exact each tree entry own

theorem made_within {slots : List Tree × Tree → Template} (each : ∀ inner, Made rank (slots inner))
    (trees : List Tree) : Made rank ((within? trees).elim [] slots) := by
  cases within? trees with
  | none => simp
  | some inner => exact each inner

@[simp] theorem made_holes (trees : List Tree) : Made rank (holes trees) :=
  made_each _ (fun _ => by simp [Slot.Made]) trees

@[simp] theorem made_body (statement : Tree) : Made rank (bodySlots statement) := by
  unfold bodySlots
  split
  · simp [Slot.Made]
  · split <;> simp [Slot.Made]

@[simp] theorem made_alternative (statement : Tree) : Made rank (alternativeSlots statement) := by
  unfold alternativeSlots
  split <;> simp [Slot.Made]

@[simp] theorem made_clause (clause : Tree) : Made rank (clauseSlots clause) := by
  unfold clauseSlots
  split <;> simp [Slot.Made]

@[simp] theorem made_binding (trees : List Tree) : Made rank (bindingSlots trees) := by
  unfold bindingSlots
  split <;> simp [Slot.Made]

@[simp] theorem made_if (trees : List Tree) : Made rank (ifSlots trees) := by
  unfold ifSlots
  split <;> simp [Slot.Made]

@[simp] theorem made_for (trees : List Tree) : Made rank (forSlots trees) := by
  unfold forSlots
  split <;> simp [Slot.Made]

@[simp] theorem made_spaced (kinds : List Kind) (trees : List Tree) :
    Made rank (spacedSlots kinds trees) :=
  made_each _ (fun _ => by split <;> simp [Slot.Made]) trees

@[simp] theorem made_commas (trees : List Tree) : Made rank (commaSlots trees) := by
  fun_induction commaSlots trees with
  | case4 _ _ _ _ ih => simpa [Slot.Made] using ih
  | _ => simp [Slot.Made]

@[simp] theorem made_list (inner : List Tree) : Made rank (listSlots inner) := by
  simp [listSlots, Slot.Made]

@[simp] theorem made_hug (inner : List Tree) : Made rank (hugSlots inner) := by
  have each : Made rank (inner.flatMap fun tree => if tree.isNode then [hole] else [hole, gap space]) :=
    made_each _ (fun _ => by split <;> simp [Slot.Made]) inner
  rw [hugSlots, made_append, made_append]
  simpa [Slot.Made] using each

theorem made_hollow (ranked : 1 ≤ rank) (closer : Tree) : Made rank (hollowSlots closer) := by
  unfold hollowSlots
  split <;> simp [Slot.Made, ranked]

theorem made_arguments (ranked : 1 ≤ rank) (trees : List Tree) : Made rank (argumentSlots trees) := by
  cases trees with
  | nil => simp [argumentSlots]
  | cons opener rest =>
    refine made_within (fun inner => ?_) _
    dsimp only
    split
    · exact made_hollow ranked _
    · split <;> simp

theorem made_units (seen : Bool) (units : List Tree) : Made 2 (unitSlots seen units) := by
  induction units generalizing seen with
  | nil => simp [unitSlots]
  | cons unit units ih => cases seen <;> simp [unitSlots, Slot.Made, ih]

theorem made_entries (anyComma : Bool) : (seen : Bool) → (inner : List Tree) →
    Made 2 (entrySlots anyComma seen inner)
  | _, [] => by simp [entrySlots]
  | seen, [_] => by cases seen <;> simp [entrySlots, Slot.Made]
  | seen, _ :: next :: others => by
    have here := made_entries anyComma true (next :: others)
    have later := made_entries anyComma true others
    rw [entrySlots, made_append, made_append]
    refine ⟨⟨by cases seen <;> simp [Slot.Made], by simp [Slot.Made]⟩, ?_⟩
    split
    · simpa [Slot.Made] using here
    · cases others <;> simpa [Slot.Made] using later

theorem made_sequence {pad : Doc} (padded : isGap pad) (trees : List Tree) :
    Made 2 ((within? trees).elim [] fun (inner, closer) =>
      if inner.isEmpty then hollowSlots closer else sequenceSlots pad inner) := by
  refine made_within (fun inner => ?_) _
  dsimp only
  split
  · exact made_hollow (by simp) _
  · simp [sequenceSlots, Slot.Made, padded, made_entries]

theorem made_block (units : List Tree) (closer : Tree) : Made 2 (blockSlots units closer) := by
  unfold blockSlots
  split
  · exact made_hollow (by simp) _
  · simp [Slot.Made, made_units]

theorem made_switch (clauses : List Tree) (closer : Tree) : Made 2 (switchSlots clauses closer) := by
  unfold switchSlots
  split
  · exact made_hollow (by simp) _
  · simp [Slot.Made, made_units]

theorem made_template (label : Label) (trees : List Tree) :
    Made (rankOf label) (template label trees) := by
  unfold template
  split
  case h_1 => simp [rankOf, Slot.Made, made_units]
  case h_2 => exact made_within (fun _ => made_block _ _) _
  case h_17 =>
    rw [made_append]
    exact ⟨by simp [Slot.Made], made_within (fun _ => made_switch _ _) _⟩
  case h_19 => split <;> simp [rankOf, Slot.Made, made_units]
  case h_21 => exact made_each _ (fun _ => by split <;> simp [Slot.Made]) _
  case h_23 =>
    refine made_each _ (fun _ => ?_) _
    split
    · simp [Slot.Made]
    · split <;> simp [Slot.Made]
  case h_25 => split <;> simp [Slot.Made]
  case h_26 => exact made_arguments (Nat.le_refl 1) _
  case h_27 =>
    refine made_within (fun inner => ?_) _
    dsimp only
    split
    · exact made_hollow (Nat.le_refl 1) _
    · simp
  case h_31 => exact made_sequence isGap_plainLine _
  case h_32 => exact made_sequence isGap_softLine _
  all_goals simp [Slot.Made]

end Making

section Arranging

variable {parts units inner : List Part} {opener closer : Part}

attribute [local simp] arrange isGrouped Template.count Slot.takes

def Framed (grouped : Bool) (doc : Doc) (row : Row) : Prop :=
  if grouped then ∃ docs, doc = groupOf docs ∧ rowOf docs = row else doc.row = row

@[simp] theorem framed_false (doc : Doc) (row : Row) : Framed false doc row ↔ doc.row = row := by
  simp [Framed]

@[elab_as_elim] theorem Framed.cases {motive : Doc → Prop} {grouped : Bool} {doc : Doc} {row : Row}
    (framed : Framed grouped doc row) (plain : ∀ doc : Doc, doc.row = row → motive doc)
    (group : ∀ docs, rowOf docs = row → motive (groupOf docs)) : motive doc := by
  unfold Framed at framed
  split at framed
  · obtain ⟨docs, rfl, same⟩ := framed
    exact group docs same
  · exact plain doc framed

theorem framed_row (doc : Doc) : Framed false doc doc.row := by simp

theorem framed_group (docs : List Doc) : Framed true (groupOf docs) (rowOf docs) := by
  simp only [Framed, if_true]
  exact ⟨docs, rfl, rfl⟩

def Arranged (label : Label) (parts : List Part) : Prop :=
  ∃ row, Lays (template label (parts.map (·.tree))) parts row ∧
    Framed (isGrouped label (parts.map (·.tree))) (arrange label parts) row

theorem lays_plain {template : Template} (made : template.Made 0) (count : template.count = parts.length) :
    Lays template parts (template.fill parts) := by
  induction template generalizing parts with
  | nil =>
    obtain rfl := List.length_eq_zero_iff.mp count.symm
    exact lays_nil
  | cons entry template ih =>
    obtain ⟨nest, slot⟩ := entry
    obtain ⟨here, rest⟩ := (made_cons _ _ _).mp made
    cases slot with
    | gap doc => exact (ih rest (by simpa [Template.count, Slot.takes] using count)).cons_gap nest doc
    | hole =>
      obtain _ | ⟨part, parts⟩ := parts
      · simp [Template.count, Slot.takes] at count
      exact (ih rest (by simpa [Template.count, Slot.takes, Nat.add_comm 1] using count)).cons_hole nest part
    | unit | notes | spare | extra | out => simp [Slot.Made] at here

theorem arranged_plain {label : Label} (low : rankOf label = 0)
    (count : (template label (parts.map (·.tree))).count = parts.length)
    (framed : Framed (isGrouped label (parts.map (·.tree))) (arrange label parts)
      ((template label (parts.map (·.tree))).fill parts)) : Arranged label parts :=
  ⟨_, lays_plain (low ▸ made_template _ _) count, framed⟩

section

variable (areNodes : ∀ unit ∈ units, unit.isNode)

include areNodes

theorem arranged_program (isToken : closer.isNode = false) :
    Arranged .program (units ++ [closer]) := by
  have isLeaf : closer.tree.isLeaf := by simpa [Part.isNode, Tree.isNode] using isToken
  have last : Lays [(0, .notes (!(units.map (·.tree)).isEmpty)), (0, .out)] [closer]
      (rowOf (dangling (!units.isEmpty) closer)) := by
    refine ⟨rfl, fun trees => ?_, fun more => ?_⟩
    · simp [Template.goes, Slot.suits, Slot.takes, isLeaf]
    · simp
  refine ⟨_, ?_, framed_row _⟩
  simpa [program] using (lays_units false areNodes).append last

theorem arranged_block (isToken : closer.isNode = false) :
    Arranged .block (opener :: (units ++ [closer])) := by
  refine ⟨_, ?_, framed_row _⟩
  rw [map_between, arrange, block, bracketed?_between, template, within?_between]
  dsimp only [Option.elim]
  unfold blockSlots
  cases units with
  | nil => simpa using lays_hollow opener isToken
  | cons unit units =>
    have laid := ((((lays_units false areNodes).deepen 1).append
      (lays_closer 1 true hardLine isToken)).cons_gap 1 hardLine).cons_hole 0 opener
    simpa [enclosed] using laid

theorem arranged_switch {keyword subject ended brace : Part} (isToken : closer.isNode = false) :
    Arranged .switchStatement
      (keyword :: opener :: subject :: ended :: (brace :: (units ++ [closer]))) := by
  refine ⟨_, ?_, framed_row _⟩
  simp only [List.map_cons, List.map_append, List.map_nil, arrange, switchStatement,
    bracketed?_between, template, within?_between, Option.elim]
  unfold switchSlots
  have front : ∀ {template parts row}, Lays template parts row →
      Lays ([hole, gap space, hole, hole, hole, gap space] ++ template)
        (keyword :: opener :: subject :: ended :: parts)
        (rowOf [keyword.doc, space, opener.doc, subject.doc, ended.doc, space] ++ row) := by
    intro template parts row laid
    simpa using (((((laid.cons_gap 0 space).cons_hole 0 ended).cons_hole 0 subject).cons_hole 0
      opener).cons_gap 0 space).cons_hole 0 keyword
  cases units with
  | nil => simpa using front (lays_hollow brace isToken)
  | cons unit units =>
    have laid := (((lays_units false areNodes).append
      (lays_closer 0 true hardLine isToken)).cons_gap 0 hardLine).cons_hole 0 brace
    simpa using front laid

theorem arranged_caseBody : Arranged .caseBody units := by
  refine ⟨_, ?_, framed_row _⟩
  simp only [arrange, caseBody, template]
  cases units with
  | nil => simpa using lays_nil
  | cons unit units =>
    simpa using ((lays_units false areNodes).deepen 1).cons_gap 1 hardLine

end

theorem lays_list (opener closer : Part) (alternate : alternates (inner.map (·.tree))) :
    ∃ docs, commaGroup opener inner closer = groupOf docs ∧
      Lays (listSlots (inner.map (·.tree))) (opener :: (inner ++ [closer])) (rowOf docs) := by
  have laid := (((lays_commas alternate).append
    ((lays_hole 0 closer).cons_gap 0 softLine)).cons_gap 1 softLine).cons_hole 0 opener
  exact ⟨_, rfl, by simpa [listSlots] using laid⟩

theorem arranged_arguments (isToken : closer.isNode = false)
    (alternate : alternates (inner.map (·.tree))) :
    Arranged .arguments (opener :: (inner ++ [closer])) := by
  have hugging : hugs opener.tree (inner.map (·.tree)) closer.tree =
      canHug opener inner closer := by
    simp only [hugs, canHug, List.getLast?_map, List.map_map, ← List.map_dropLast, List.any_map,
      List.all_cons, List.all_map, Option.any_map]
    rfl
  unfold Arranged
  rw [map_between, arrange, arguments, bracketed?_between, template, isGrouped, argumentSlots,
    within?_between]
  simp only [Option.elim, Option.any_some, hugging]
  cases inner with
  | nil => exact ⟨_, by simpa [emptyParentheses] using lays_hollow opener isToken, framed_row _⟩
  | cons first inner =>
    simp only [List.isEmpty_cons, Bool.false_eq_true, if_false, List.map_cons, Bool.not_false,
      Bool.true_and]
    cases canHug opener (first :: inner) closer with
    | true =>
      refine ⟨_, ?_, framed_row _⟩
      have each := lays_each (fun tree => if tree.isNode then [hole] else [hole, gap space])
        (fun part => if part.isNode then [part.doc] else [part.doc, space])
        (fun part => by
          unfold Part.isNode
          split
          · simpa using lays_hole 0 part
          · simpa using (lays_gap 0 space).cons_hole 0 part) (first :: inner)
      simpa [hugSlots] using (each.append (lays_hole 0 closer)).cons_hole 0 opener
    | false =>
      obtain ⟨docs, shape, laid⟩ := lays_list opener closer alternate
      simp only [Bool.false_eq_true, if_false, shape]
      exact ⟨_, laid, framed_group docs⟩

theorem arranged_parameters (isToken : closer.isNode = false)
    (alternate : alternates (inner.map (·.tree))) :
    Arranged .parameters (opener :: (inner ++ [closer])) := by
  unfold Arranged
  rw [map_between, arrange, parameters, bracketed?_between, template, isGrouped, within?_between]
  simp only [Option.elim, Option.any_some]
  cases inner with
  | nil => exact ⟨_, by simpa [emptyParentheses] using lays_hollow opener isToken, framed_row _⟩
  | cons first inner =>
    obtain ⟨docs, shape, laid⟩ := lays_list opener closer alternate
    simp only [List.isEmpty_cons, Bool.false_eq_true, if_false, List.map_cons, shape]
    exact ⟨_, laid, framed_group docs⟩

theorem anyComma_eq {inner : List Part} (list : listed (inner.map (·.tree))) :
    (entries inner).any (·.2.isSome) = (inner.map (·.tree)).any (·.isLeaf) := by
  match inner with
  | [] => rfl
  | [entry] =>
    have isNode := isNode_of_listed list
    have notLeaf : entry.tree.isLeaf = false := by simpa [Part.isNode, Tree.isNode] using isNode
    simp [entries, isNode, notLeaf]
  | entry :: next :: rest =>
    have isNode := isNode_of_listed list
    have notLeaf : entry.tree.isLeaf = false := by simpa [Part.isNode, Tree.isNode] using isNode
    cases nextIsNode : next.isNode with
    | true =>
      have others : listed ((next :: rest).map (·.tree)) := by
        simp_all [listed, Part.isNode]
      have same := anyComma_eq others
      simp only [List.map_cons, List.any_cons] at same
      simp [entries, isNode, nextIsNode, notLeaf, same]
    | false =>
      have isLeaf : next.tree.isLeaf := by simpa [Part.isNode, Tree.isNode] using nextIsNode
      simp [entries, isNode, nextIsNode, isLeaf]

variable {label : Label}

theorem arranged_sequence {pad : Doc}
    (slots : ∀ trees, template label trees = (within? trees).elim [] fun (inner, closer) =>
      if inner.isEmpty then hollowSlots closer else sequenceSlots pad inner)
    (groups : ∀ trees, isGrouped label trees = (within? trees).any fun (inner, _) => !inner.isEmpty)
    (arranges : ∀ parts, arrange label parts = sequence pad parts) (isToken : closer.isNode = false)
    (list : listed (inner.map (·.tree))) :
    Arranged label (opener :: (inner ++ [closer])) := by
  unfold Arranged
  rw [map_between, arranges, sequence, bracketed?_between, slots, groups, within?_between]
  simp only [Option.elim, Option.any_some]
  cases inner with
  | nil => exact ⟨_, by simpa [entries] using lays_hollow opener isToken, framed_row _⟩
  | cons first inner =>
    obtain ⟨comma?, pairs, shape⟩ := entries_cons (isNode_of_listed list) inner
    have laid := (((lays_entries (((first :: inner).map (·.tree)).any (·.isLeaf)) false list).append
      (lays_closer 1 true pad isToken)).cons_gap 1 pad).cons_hole 0 opener
    have some : (entries (first :: inner)).isEmpty = false := by simp [shape]
    rw [some]
    simp only [Bool.false_eq_true, if_false, Bool.not_false, anyComma_eq list]
    refine ⟨_, ?_, framed_group _⟩
    simpa [sequenceSlots] using laid

theorem fill_binding {first second third : Bool}
    (kinds : parts.map (·.isNode) = [first] ∨ parts.map (·.isNode) = [first, second, third]) :
    (bindingSlots (parts.map (·.tree))).count = parts.length ∧
      (binding parts).row = (bindingSlots (parts.map (·.tree))).fill parts := by
  rcases kinds.imp itemized itemized with ⟨name, -, rfl⟩ | ⟨name, -, assign, -, value, -, rfl⟩
  · simp [bindingSlots, binding]
  · simp [bindingSlots, binding]

theorem lays_spaced (kinds : List Kind) (parts : List Part) :
    Lays (spacedSlots kinds (parts.map (·.tree))) parts (spacedAfter kinds parts).row := by
  rw [spacedAfter, Doc.row]
  refine lays_each _ _ (fun part => ?_) parts
  have same : kinds.any part.tree.isToken = kinds.any part.isToken := rfl
  rw [same]
  split
  · simpa using (lays_gap 0 space).cons_hole 0 part
  · simpa using lays_hole 0 part

theorem arranged_functionDeclaration (parts : List Part) : Arranged .functionDeclaration parts := by
  refine ⟨_, ?_, framed_row _⟩
  simp only [template, arrange, functionDeclaration, Doc.row]
  refine lays_each _ _ (fun part => ?_) parts
  unfold Part.hasLabel Part.isToken
  split
  · simpa using (lays_hole 0 part).cons_gap 0 space
  split
  · simpa using (lays_gap 0 space).cons_hole 0 part
  · simpa using lays_hole 0 part

theorem arranged_returnStatement (parts : List Part) : Arranged .returnStatement parts := by
  refine ⟨_, ?_, framed_row _⟩
  simp only [template, arrange, returnStatement, Doc.row]
  refine lays_each _ _ (fun part => ?_) parts
  unfold Part.isNode
  split
  · simpa using (lays_hole 0 part).cons_gap 0 space
  · simpa using lays_hole 0 part

theorem ordered_between {check : List Tree → Bool}
    (checks : ∀ trees, ordered label trees = (within? trees).any fun (inner, _) => check inner)
    (inOrder : ordered label ((opener :: (inner ++ [closer])).map (·.tree))) :
    check (inner.map (·.tree)) := by
  rw [map_between, checks, within?_between] at inOrder
  exact inOrder

theorem arranged (fits : label.fits (parts.map (·.isNode)))
    (inOrder : ordered label (parts.map (·.tree))) : Arranged label parts := by
  cases label with
  | program =>
    obtain ⟨ends, nodes⟩ := Bool.and_eq_true_iff.mp fits
    obtain ⟨units, closer, rfl, isToken, kinds⟩ := getLast_map rfl (of_decide_eq_true ends)
    exact arranged_program (by simpa [← kinds] using nodes) isToken
  | block =>
    obtain ⟨opener, units, closer, rfl, -, isToken, areNodes⟩ := between_of_enclosesNodes fits
    exact arranged_block areNodes isToken
  | localDeclaration | foreachVariables =>
    exact ⟨_, lays_spaced _ parts, framed_row _⟩
  | declarator | parameter =>
    obtain ⟨count, same⟩ := fill_binding
      ((Bool.or_eq_true_iff.mp fits).imp of_decide_eq_true of_decide_eq_true)
    exact arranged_plain rfl count same
  | binary | assign | newSlot | tableSlot =>
    obtain ⟨count, same⟩ := fill_binding (.inr (of_decide_eq_true fits))
    exact arranged_plain rfl count same
  | constDeclaration =>
    obtain ⟨first, ending, rfl, kinds⟩ := map_endsAfter fits
    obtain ⟨keyword, -, name, -, assign, -, value, -, rfl⟩ := itemized kinds
    exact arranged_plain rfl (by simp; omega) (by simp [constDeclaration])
  | ifStatement =>
    rcases Bool.or_eq_true_iff.mp fits with short | long
    · obtain ⟨keyword, -, opener, -, condition, -, closer, -, first, -,
        rfl⟩ := itemized (of_decide_eq_true short)
      exact arranged_plain rfl (by simp [ifSlots]) (by simp [ifSlots, ifStatement])
    · obtain ⟨keyword, -, opener, -, condition, -, closer, -, first, -, word, -, second, -,
        rfl⟩ := itemized (of_decide_eq_true long)
      have same : gapAfterBody (.bare first.tree) = gapAfterBody first := rfl
      exact arranged_plain rfl (by simp [ifSlots]) (by simp [ifSlots, ifStatement, same])
  | whileStatement =>
    obtain ⟨keyword, -, opener, -, condition, -, closer, -, statement, -,
      rfl⟩ := itemized (of_decide_eq_true fits)
    exact arranged_plain rfl (by simp) (by simp [whileStatement])
  | doWhileStatement =>
    obtain ⟨first, ending, rfl, kinds⟩ := map_endsAfter fits
    obtain ⟨keyword, -, statement, -, word, -, opener, -, condition, -, closer, -,
      rfl⟩ := itemized kinds
    have same : gapAfterBody (.bare statement.tree) = gapAfterBody statement := rfl
    exact arranged_plain rfl (by simp; omega) (by simp [doWhileStatement, same])
  | forStatement =>
    obtain ⟨keyword, -, opener, -, init, -, first, -, condition, -, second, -, step, -, closer, -,
      statement, -, rfl⟩ := itemized (of_decide_eq_true fits)
    exact arranged_plain rfl (by simp [forSlots]) (by simp [forSlots, forStatement])
  | foreachStatement =>
    obtain ⟨keyword, -, opener, -, names, -, word, -, container, -, closer, -, statement, -,
      rfl⟩ := itemized (of_decide_eq_true fits)
    exact arranged_plain rfl (by simp) (by simp [foreachStatement])
  | switchStatement =>
    obtain ⟨_, _, _, _, brace, units, unbrace, rfl, -, isToken, areNodes⟩ := switch_of_fits fits
    exact arranged_switch areNodes isToken
  | caseClause =>
    obtain ⟨keyword, -, value, -, colon, -, statements, -, rfl⟩ := itemized (of_decide_eq_true fits)
    exact arranged_plain rfl rfl (by simp [caseClause])
  | caseBody =>
    have allNodes : (parts.map (·.isNode)).all id := fits
    exact arranged_caseBody (by simpa using allNodes)
  | tryStatement =>
    obtain ⟨keyword, -, statement, -, word, -, opener, -, name, -, closer, -, handler, -,
      rfl⟩ := itemized (of_decide_eq_true fits)
    have same : gapAfterBody (.bare statement.tree) = gapAfterBody statement := rfl
    exact arranged_plain rfl (by simp) (by simp [tryStatement, same])
  | returnStatement => exact arranged_returnStatement parts
  | throwStatement =>
    obtain ⟨first, ending, rfl, kinds⟩ := map_endsAfter fits
    obtain ⟨keyword, -, value, -, rfl⟩ := itemized kinds
    have rest := fill_holes (value :: ending)
    exact arranged_plain rfl (by simp; omega) (by simpa [throwStatement] using rest.symm)
  | functionDeclaration => exact arranged_functionDeclaration parts
  | ternary =>
    obtain ⟨condition, -, question, -, first, -, colon, -, second, -,
      rfl⟩ := itemized (of_decide_eq_true fits)
    exact arranged_plain rfl rfl ⟨_, rfl, by simp⟩
  | unary =>
    obtain ⟨operator, -, operand, -, rfl⟩ := itemized (of_decide_eq_true fits)
    refine arranged_plain rfl ?_ ?_
    · simp only [template, List.map_cons, List.map_nil]
      split <;> rfl
    · simp only [template, arrange, unary, isGrouped, framed_false, List.map_cons, List.map_nil]
      split <;> simp
  | arguments =>
    obtain ⟨opener, inner, closer, rfl, -, isToken⟩ := between_of_isEnclosed fits
    exact arranged_arguments isToken (ordered_between (fun _ => rfl) inOrder)
  | parameters =>
    obtain ⟨opener, inner, closer, rfl, -, isToken⟩ := between_of_isEnclosed fits
    exact arranged_parameters isToken (ordered_between (fun _ => rfl) inOrder)
  | functionLiteral | lambdaLiteral | hookWrapper =>
    obtain ⟨keyword, -, list, -, statements, -, rfl⟩ := itemized (of_decide_eq_true fits)
    exact arranged_plain rfl rfl (by simp [functionLiteral])
  | table | array =>
    obtain ⟨opener, inner, closer, rfl, -, isToken⟩ := between_of_isEnclosed fits
    exact arranged_sequence (fun _ => rfl) (fun _ => rfl) (fun _ => rfl) isToken
      (ordered_between (fun _ => rfl) inOrder)
  | tableComputed =>
    obtain ⟨opener, -, key, -, closer, -, assign, -, value, -,
      rfl⟩ := itemized (of_decide_eq_true fits)
    exact arranged_plain rfl rfl (by simp [tableComputed])
  | tableQuoted =>
    obtain ⟨key, -, colon, -, value, -, rfl⟩ := itemized (of_decide_eq_true fits)
    exact arranged_plain rfl rfl (by simp [tableQuoted])
  | tableMethod =>
    obtain ⟨keyword, -, name, -, list, -, statements, -, rfl⟩ := itemized (of_decide_eq_true fits)
    exact arranged_plain rfl rfl (by simp [tableMethod])
  | _ => exact ⟨_, lays_holes parts, framed_row _⟩

end Arranging

section Chains

def Chain.contents (chain : Chain) : Doc := .concat [chain.head, indentOf chain.tail]

def Part.contents (part : Part) : Doc := (part.chain?.map (·.contents)).getD part.doc

def Part.chains (operator : Kind) (part : Part) : Bool := part.chain?.any (·.operator = operator)

def Part.joined (operator : Kind) (part : Part) : Part :=
  { part with doc := if part.chains operator then part.contents else part.doc }

def logicalSlots : Template :=
  [hole, (1, .gap plainLine), (1, .hole), (1, .gap space), (1, .hole)]

theorem arranged_logical (tree : Tree) (left : Part) {operator : Part} {token : Token}
    (right : Part) (isToken : operator.tree = .leaf token) :
    ∃ chain, logical tree [left, operator, right] = ⟨tree, chain.doc, some chain⟩ ∧
      chain.operator = token.kind ∧
      Lays logicalSlots [left.joined token.kind, operator, right] chain.contents.row := by
  have laid (row : Row) (same : row = (left.joined token.kind).doc.row ++
      (rowOf [plainLine, operator.doc, space, right.doc]).deepen 1) :
      Lays logicalSlots [left.joined token.kind, operator, right] row := by
    rw [same]
    simpa [logicalSlots] using ((((lays_hole 1 right).cons_gap 1 space).cons_hole 1 operator).cons_gap 1
      plainLine).cons_hole 0 (left.joined token.kind)
  have started : left.chains token.kind = false →
      Lays logicalSlots [left.joined token.kind, operator, right]
        (Chain.contents ⟨token.kind, left.doc,
          [.concat [plainLine, operator.doc, space, right.doc]]⟩).row := by
    intro other
    exact laid _ (by simp [Chain.contents, Part.joined, other])
  simp only [logical, chainOf, isToken, Tree.token?, Option.bind_eq_bind, Option.bind_some]
  cases chained : left.chain? with
  | none => exact ⟨_, rfl, rfl, started (by simp [Part.chains, chained])⟩
  | some chain =>
    by_cases same : chain.operator = token.kind
    · have goesOn : left.chains token.kind := by simp [Part.chains, chained, same]
      simp only [same, if_true]
      refine ⟨_, rfl, rfl, laid _ ?_⟩
      simp [Chain.contents, Part.joined, goesOn, Part.contents, chained]
    · simp only [same, if_false]
      exact ⟨_, rfl, rfl, started (by simp [Part.chains, chained, same])⟩

end Chains

section Units

variable {parts : List Part} {part : Part} {label : Label}

def Template.units : Template → List Part → List Part
  | [], _ => []
  | (_, .unit _) :: template, part :: parts => part :: units template parts
  | (_, slot) :: template, parts => units template (if slot.takes then parts.tail else parts)

theorem mem_units {template : Template} (goes : template.goes (parts.map (·.tree)))
    (member : part ∈ template.units parts) : part ∈ parts ∧ part.isNode := by
  fun_induction Template.units template parts with
  | case1 => cases member
  | case2 nest seen template first parts ih =>
    obtain ⟨isNode, later⟩ := Bool.and_eq_true_iff.mp goes
    rcases List.mem_cons.mp member with rfl | other
    · exact ⟨List.mem_cons_self, isNode⟩
    · exact (ih later other).imp_left (List.mem_cons_of_mem _)
  | case3 nest slot template parts _ ih =>
    have later := (Bool.and_eq_true_iff.mp goes).2
    rw [← List.map_tail, ← apply_ite (List.map fun part : Part => part.tree)] at later
    refine (ih later member).imp_left fun own => ?_
    split at own
    · exact List.mem_of_mem_tail own
    · exact own

theorem units_of_made {rank : Nat} {template : Template} (made : Made rank template) (low : rank < 2)
    (parts : List Part) : template.units parts = [] := by
  fun_induction Template.units template parts with
  | case1 => rfl
  | case2 nest seen template first parts ih =>
    have high : 2 ≤ rank := ((made_cons _ _ _).mp made).1
    omega
  | case3 nest slot template parts _ ih => exact ih ((made_cons _ _ _).mp made).2

def setsApart : Label → Bool
  | .program | .block | .caseBody | .table | .array => true
  | _ => false

theorem standsAlone_of_isNode {label : Label} (apart : setsApart label) {tree : Tree}
    (isNode : tree.isNode) : standsAlone label tree := by
  cases tree with
  | leaf => cases isNode
  | node inner children => cases label <;> first | rfl | cases apart

theorem clause_standsAlone {tree : Tree} (isNode : tree.isNode)
    (isClause : (tree.isLeaf || tree.label?.any [Label.caseClause, .defaultClause].contains)) :
    standsAlone .switchStatement tree := by
  cases tree with
  | leaf token => cases isNode
  | node label children =>
    have listed : label = .caseClause ∨ label = .defaultClause := by
      simpa [Tree.isLeaf, Tree.label?] using isClause
    rcases listed with rfl | rfl <;> rfl

theorem units_alone (fits : label.fits (parts.map (·.isNode)))
    (goes : (template label (parts.map (·.tree))).goes (parts.map (·.tree)))
    (clauses : label = .switchStatement →
      Tree.nodesAre [.caseClause, .defaultClause] ((parts.map (·.tree)).drop 4))
    (member : part ∈ (template label (parts.map (·.tree))).units parts) :
    standsAlone label part.tree := by
  have none (low : rankOf label < 2) : standsAlone label part.tree := by
    rw [units_of_made (made_template _ _) low] at member
    cases member
  cases label with
  | program | block | caseBody | table | array =>
    exact standsAlone_of_isNode rfl (mem_units goes member).2
  | switchStatement =>
    obtain ⟨_, _, _, _, brace, units, unbrace, rfl, -⟩ := switch_of_fits fits
    obtain ⟨own, isNode⟩ := @mem_units (brace :: (units ++ [unbrace])) part _ goes member
    exact clause_standsAlone isNode
      (List.all_eq_true.mp (clauses rfl) part.tree (List.mem_map_of_mem own))
  | _ => exact none (by simp [rankOf])

end Units

end Squirrel.Layout
