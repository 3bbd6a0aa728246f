import Squirrel.Proofs.Layout.Ranks
import Squirrel.Proofs.Tree.Everywhere

/-! The layout of a shaped tree holds nothing that cannot be printed. -/

namespace Squirrel

namespace Doc

/-- A document that can be printed, and in which only texts wait for the end of a line. -/
def Known (doc : Doc) : Prop := doc.unknown? = none ∧ doc.isTame

@[simp] theorem known_text (content : String) : (text content).Known := ⟨rfl, rfl⟩

@[simp] theorem known_line (style : LineStyle) : (line style).Known := ⟨rfl, rfl⟩

@[simp] theorem known_breakParent : breakParent.Known := ⟨rfl, rfl⟩

@[simp] theorem known_group (contents : Doc) (broken : Bool) :
    (group contents broken).Known ↔ contents.Known := .rfl

@[simp] theorem known_indent (contents : Doc) : (indent contents).Known ↔ contents.Known := .rfl

@[simp] theorem known_lineSuffix (content : String) : (lineSuffix (text content)).Known :=
  ⟨rfl, rfl⟩

@[simp] theorem known_ifBreak (broken flat : Doc) :
    (ifBreak broken flat).Known ↔ broken.Known ∧ flat.Known := by
  change (unknown? broken).or (unknown? flat) = none ∧ (broken.isTame && flat.isTame) ↔ _
  rw [Option.or_eq_none_iff, Bool.and_eq_true]
  exact and_and_and_comm

theorem knownAll (docs : List Doc) :
    unknownIn? docs = none ∧ areTame docs ↔ ∀ doc ∈ docs, doc.Known := by
  induction docs with
  | nil => simp [unknownIn?, areTame]
  | cons doc docs ih =>
    rw [List.forall_mem_cons, ← ih]
    simp only [unknownIn?, areTame, Option.or_eq_none_iff, Bool.and_eq_true, Known]
    exact and_and_and_comm

@[simp] theorem known_concat (docs : List Doc) :
    (concat docs).Known ↔ ∀ doc ∈ docs, doc.Known := knownAll docs

@[simp] theorem known_space : space.Known := by simp [space]

@[simp] theorem known_plainLine : plainLine.Known := by simp [plainLine]

@[simp] theorem known_softLine : softLine.Known := by simp [softLine]

@[simp] theorem known_hardLine : hardLine.Known := by simp [hardLine]

@[simp] theorem known_freshLine : freshLine.Known := by simp [freshLine]

@[simp] theorem known_groupOf (docs : List Doc) :
    (groupOf docs).Known ↔ ∀ doc ∈ docs, doc.Known := by simp [groupOf]

end Doc

namespace Row

def Known (row : Row) : Prop := ∀ entry ∈ row, entry.2.Known

@[simp] theorem known_append (first second : Row) :
    Known (first ++ second) ↔ first.Known ∧ second.Known := List.forall_mem_append

@[simp] theorem known_deepen (nest : Nat) (row : Row) : (row.deepen nest).Known ↔ row.Known :=
  List.forall_mem_map

end Row

namespace Doc

mutual

theorem known_row : (doc : Doc) → (doc.row.Known ↔ doc.Known)
  | .concat docs => by rw [row, known_concat, known_rowOf docs]
  | .indent doc => by rw [row, Row.known_deepen, known_indent, known_row doc]
  | .text _ | .line _ | .group _ _ | .ifBreak _ _ | .lineSuffix _ | .breakParent | .unknown _ => by
    simp [Row.Known, row]

theorem known_rowOf : (docs : List Doc) → ((rowOf docs).Known ↔ ∀ doc ∈ docs, doc.Known)
  | [] => by simp [Row.Known]
  | doc :: docs => by
    rw [rowOf_cons, Row.known_append, known_row doc, known_rowOf docs, List.forall_mem_cons]

end

end Doc

namespace Layout

section Comments

theorem known_inlineComments (afterBreak : Bool) (trivia : List Trivia) :
    ∀ doc ∈ inlineComments afterBreak trivia, doc.Known := by
  fun_induction inlineComments afterBreak trivia with
  | case1 => simp
  | case2 afterBreak trivia rest _ ih => exact ih
  | case3 afterBreak trivia rest _ _ ih =>
    have gap : (gapAfterComment trivia.kind rest).Known := by
      unfold gapAfterComment
      split
      · simp
      · split <;> simp
    cases afterBreak <;> simpa [gap] using ih
  | case4 afterBreak trivia rest _ _ ih => exact ih

theorem known_trailingComments (token : Token) : ∀ doc ∈ trailingComments token, doc.Known := by
  intro doc member
  obtain ⟨trivia, _, own⟩ := List.mem_flatMap.mp member
  split at own <;> simp at own
  · rcases own with rfl | rfl <;> simp
  · rw [own]
    simp

theorem known_separator (last : Option TriviaKind) (breaks : Nat) (seen : Bool) :
    ∀ doc ∈ separator last breaks seen, doc.Known := by
  unfold separator
  intro doc member
  rcases List.mem_append.mp member with first | second
  · split at first
    · simp_all
    · split at first <;> simp_all
    · cases first
  · split at second <;> simp_all

theorem known_commentLinesAfter (seen : Bool) (last : Option TriviaKind) (breaks : Nat)
    (trivia : List Trivia) :
    ∀ doc ∈ (commentLinesAfter seen last breaks trivia).docs, doc.Known := by
  fun_induction commentLinesAfter seen last breaks trivia with
  | case1 => simp
  | case2 => assumption
  | case3 seen last breaks trivia rest _ _ lines ih =>
    intro doc member
    rcases List.mem_append.mp member with before | after
    · exact known_separator last breaks seen doc before
    · rcases List.mem_cons.mp after with rfl | later
      · simp
      · exact ih doc later
  | case4 => assumption

theorem known_unitComments {seen : Bool} {unit : Tree} (full : unit.firstToken?.isSome) :
    ∀ doc ∈ unitComments seen unit, doc.Known := by
  unfold unitComments
  split
  · intro doc member
    rcases List.mem_append.mp member with lines | after
    · exact known_commentLinesAfter _ _ _ _ doc lines
    · exact known_separator _ _ _ doc after
  · next empty => simp [empty] at full

theorem known_danglingComments (afterUnits : Bool) (closer : Token) :
    ∀ doc ∈ danglingComments afterUnits closer, doc.Known := by
  have lines := known_commentLinesAfter afterUnits none 0 closer.leading
  unfold danglingComments commentLines
  dsimp only
  split
  · simpa using lines
  · exact lines

end Comments

variable {doc : Doc}

section Parts

variable {parts : List Part} {label : Label}

theorem known_dangling (afterUnits : Bool) {closer : Part} (isToken : closer.tree.isLeaf) :
    ∀ doc ∈ dangling afterUnits closer, doc.Known := by
  unfold dangling
  split
  · exact known_danglingComments afterUnits _
  · next shape => simp [shape, Tree.isLeaf] at isToken

theorem known_gap (isGap : isGap doc) : doc.Known := by
  rcases isGap with rfl | rfl | rfl | rfl <;> simp

/-- A template that is filled can be printed if the children can be, and the units among them have a
token before which their comments go. -/
theorem known_fill {rank : Nat} {template : Template} (made : template.Made rank)
    (goes : template.goes (parts.map (·.tree))) (known : ∀ part ∈ parts, part.doc.Known)
    (full : ∀ unit ∈ template.units parts, unit.tree.firstToken?.isSome) :
    (template.fill parts).Known := by
  induction template generalizing parts with
  | nil => simp [Row.Known]
  | cons entry template ih =>
    obtain ⟨nest, slot⟩ := entry
    obtain ⟨suits, later⟩ := Bool.and_eq_true_iff.mp goes
    obtain ⟨here, rest⟩ := (made_cons _ _ _).mp made
    rw [Template.fill, Row.known_append, Row.known_deepen]
    cases slot with
    | gap doc => exact ⟨(Doc.known_row doc).mpr (known_gap here), ih rest later known full⟩
    | extra anyComma => exact ⟨by cases anyComma <;> simp [Slot.row, Row.Known], ih rest later known full⟩
    | notes afterUnits =>
      obtain _ | ⟨part, parts⟩ := parts
      · cases suits
      exact ⟨(Doc.known_rowOf _).mpr (known_dangling afterUnits suits), ih rest later known full⟩
    | hole | spare | out =>
      obtain _ | ⟨part, parts⟩ := parts
      · cases suits
      obtain ⟨first, others⟩ := List.forall_mem_cons.mp known
      refine ⟨?_, ih rest later others full⟩
      first
      | exact (Doc.known_row _).mpr first
      | simp [Slot.row, Row.Known, first]
    | unit seen =>
      obtain _ | ⟨part, parts⟩ := parts
      · cases suits
      obtain ⟨first, others⟩ := List.forall_mem_cons.mp known
      obtain ⟨firstFull, othersFull⟩ := List.forall_mem_cons.mp full
      refine ⟨?_, ih rest later others othersFull⟩
      rw [Slot.row, Row.known_append, Doc.known_row, Doc.known_rowOf]
      exact ⟨known_unitComments firstFull, first⟩

theorem Framed.known {grouped : Bool} {row : Row} (framed : Framed grouped doc row)
    (known : row.Known) : doc.Known := by
  refine framed.cases (fun doc same => ?_) fun docs same => ?_
  · rwa [← Doc.known_row, same]
  · rwa [Doc.known_groupOf, ← Doc.known_rowOf, same]

/-- A node that fits its label can be printed if its children can be, and those that stand on their
own have a token before which their comments go. -/
theorem known_arrange (known : ∀ part ∈ parts, part.doc.Known)
    (fits : label.fits (parts.map (·.isNode)))
    (inOrder : ordered label (parts.map (·.tree)))
    (full : ∀ part ∈ parts, standsAlone label part.tree →
      part.tree.firstToken?.isSome)
    (clauses : label = .switchStatement →
      Tree.nodesAre [.caseClause, .defaultClause] ((parts.map (·.tree)).drop 4)) :
    (arrange label parts).Known := by
  obtain ⟨row, laid, framed⟩ := arranged fits inOrder
  refine framed.known ?_
  rw [← laid.filled]
  refine known_fill (made_template _ _) laid.goes_all known fun unit member => ?_
  exact full unit (mem_units laid.goes_all member).1 (units_alone fits laid.goes_all clauses member)

end Parts

section Trees

/-- A part that can be printed, on its own and as the start of a chain. -/
def Part.Printable (part : Part) : Prop := part.doc.Known ∧ part.contents.Known

theorem printable_doc {tree : Tree} (known : doc.Known) : Part.Printable ⟨tree, doc, none⟩ :=
  ⟨known, known⟩

theorem printable_logical (tree : Tree) {left operator right : Part} (first : left.Printable)
    (second : operator.doc.Known) (third : right.doc.Known) (isToken : operator.isNode = false) :
    (logical tree [left, operator, right]).Printable := by
  obtain ⟨token, isLeaf⟩ := Tree.leaf_of_isNode isToken
  obtain ⟨chain, shape, -, laid⟩ := arranged_logical tree left right isLeaf
  have joined : (left.joined token.kind).doc.Known := by
    unfold Part.joined
    dsimp only
    split
    · exact first.2
    · exact first.1
  have contents : chain.contents.Known := by
    rw [← Doc.known_row, ← laid.filled]
    have made : logicalSlots.Made 0 := by simp [logicalSlots, Slot.Made]
    refine known_fill made laid.goes_all (by simp [joined, second, third]) fun unit member => ?_
    rw [units_of_made made (by simp)] at member
    cases member
  rw [shape]
  exact ⟨contents, contents⟩

theorem known_tokenDoc (placed : Placed) (token : Token) : (tokenDoc placed token).Known := by
  have before := known_inlineComments false token.leading
  have after := known_trailingComments token
  simp only [tokenDoc, Doc.known_concat, List.forall_mem_append]
  refine ⟨⟨?_, by simp⟩, ?_⟩
  · split
    · simp
    · exact before
  · split
    · simp
    · exact after

theorem known_verbatim (source : List Char) (tree : Tree) : (verbatim source tree).Known := by
  simp [verbatim]

theorem known_unitDoc {placed : Placed} (unit : Tree) (known : doc.Known) :
    (unitDoc placed unit doc).Known := by
  unfold unitDoc
  split
  · exact known
  · have after : ∀ doc ∈ unit.lastToken?.toList.flatMap trailingComments, doc.Known := by
      intro doc member
      obtain ⟨token, -, own⟩ := List.mem_flatMap.mp member
      exact known_trailingComments token doc own
    simpa [known] using after

theorem printable_nodePart (source : List Char) {label : Label} {children : List Tree}
    {parts : List Part} (trees : parts.map (·.tree) = children)
    (admitted : Tree.admits label children) (inOrder : ordered label children)
    (full : (children.all fun child => !standsAlone label child || child.firstToken?.isSome))
    (within : ∀ part ∈ parts, part.Printable) :
    (nodePart source label children parts).Printable := by
  subst trees
  obtain ⟨fits, inner⟩ := Bool.and_eq_true_iff.mp admitted
  rw [List.map_map] at fits
  unfold nodePart
  rw [if_pos admitted]
  split
  · exact printable_doc (known_verbatim source _)
  · obtain ⟨left, -, operator, isToken, right, -, rfl⟩ := itemized (of_decide_eq_true fits)
    exact printable_logical _ (within left (by simp)) (within operator (by simp)).1
      (within right (by simp)).1 isToken
  · refine printable_doc (known_arrange (fun part member => (within part member).1) fits inOrder
      (fun part member alone => ?_) (by rintro rfl; exact inner))
    have either := List.all_eq_true.mp full part.tree (List.mem_map_of_mem member)
    simpa [alone] using either

mutual

theorem printable_part (source : List Char) (placed : Placed) :
    (tree : Tree) → tree.isShaped → tree.everywhere ordered →
      (part source placed tree).Printable
  | .leaf token, _, _ => by
    rw [part]
    exact printable_doc (known_tokenDoc placed token)
  | .node label children, shaped, inOrder => by
    simp only [Tree.isShaped, Bool.and_eq_true] at shaped
    obtain ⟨⟨admitted, full⟩, below⟩ := shaped
    rw [Tree.everywhere_node, Bool.and_eq_true] at inOrder
    have within := printable_partsOf source placed label (endsDangling label children) true
      children below inOrder.2
    rw [part]
    exact printable_nodePart source (trees_partsOf ..) admitted inOrder.1 full within

theorem printable_partsOf (source : List Char) (placed : Placed) (parent : Label)
    (dangles atStart : Bool) :
    (trees : List Tree) → Tree.areShaped trees → Tree.everywhereOf ordered trees →
      ∀ part ∈ partsOf source placed parent dangles atStart trees, part.Printable
  | [], _, _ => by
    rw [partsOf]
    simp
  | tree :: trees, shaped, inOrder => by
    rw [Tree.areShaped_cons, Bool.and_eq_true] at shaped
    rw [Tree.everywhereOf_cons, Bool.and_eq_true] at inOrder
    rw [partsOf, List.forall_mem_cons]
    refine ⟨?_, printable_partsOf source placed parent dangles _ trees shaped.2 inOrder.2⟩
    have own (inner : Placed) := printable_part source inner tree shaped.1 inOrder.1
    split
    · refine printable_doc (known_unitDoc tree ?_)
      split
      · exact known_verbatim source tree
      · exact (own ⟨true, true⟩).1
    · split
      · exact own _
      · exact own _

end

theorem known_document (source : List Char) {tree : Tree} (shaped : tree.isShaped)
    (inOrder : tree.everywhere ordered) : (document source tree).Known :=
  (printable_part source ⟨false, false⟩ tree shaped inOrder).1

end Trees

end Layout

end Squirrel
