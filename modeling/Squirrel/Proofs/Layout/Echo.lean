import Squirrel.Proofs.Doc.Page
import Squirrel.Proofs.Layout.Order
import Squirrel.Proofs.Layout.Ranks

/-! The text of every malformed unit is written as it stands in the source. -/

namespace Squirrel

namespace Row

def Writes (row : Row) (content : String) : Prop :=
  ∀ style mode level after sheet, Event.text content ∈ row.laid style mode level after sheet

variable {first second row : Row} {content : String}

theorem Writes.append_left (writes : first.Writes content) : Writes (first ++ second) content := by
  intro style mode level after sheet
  rw [laid_append]
  exact List.mem_append_left _ (writes _ _ _ _ _)

theorem Writes.append_right (writes : second.Writes content) : Writes (first ++ second) content := by
  intro style mode level after sheet
  rw [laid_append]
  exact List.mem_append_right _ (writes _ _ _ _ _)

theorem Writes.deepen (writes : row.Writes content) (nest : Nat) : (row.deepen nest).Writes content := by
  intro style mode level after sheet
  rw [laid_deepen]
  exact writes _ _ _ _ _

end Row

namespace Doc

def Writes (doc : Doc) (content : String) : Prop :=
  ∀ style mode level after sheet, Event.text content ∈ doc.laid style mode level after sheet

variable {doc : Doc} {content : String}

theorem Writes.of_row (writes : doc.row.Writes content) : doc.Writes content := by
  intro style mode level after sheet
  rw [← (amounts_row doc).laid]
  exact writes _ _ _ _ _

theorem Writes.row (writes : doc.Writes content) : doc.row.Writes content := by
  intro style mode level after sheet
  rw [(amounts_row doc).laid]
  exact writes _ _ _ _ _

theorem Writes.group {contents : Doc} (writes : contents.Writes content) (broken : Bool) :
    (Doc.group contents broken).Writes content := by
  intro style mode level after sheet
  rw [laid_group]
  exact writes _ _ _ _ _

end Doc

namespace Tree

theorem isNode_of_isUnitOf {parent : Label} {tree : Tree} (isUnit : tree.isUnitOf parent) :
    tree.isNode := by
  cases tree with
  | leaf token => cases isUnit
  | node => rfl

theorem anyLocalError_eq_false (parent : Label) (trees : List Tree) :
    anyLocalError parent trees = false ↔
      ∀ tree ∈ trees, tree.isUnitOf parent = false → tree.hasLocalError = false := by
  induction trees with
  | nil => simp [anyLocalError]
  | cons tree trees ih =>
    rw [anyLocalError, Bool.or_eq_false_iff, ih, List.forall_mem_cons]
    cases tree.isUnitOf parent <;> simp

mutual

def malformedUnits : Tree → List Tree
  | .leaf _ => []
  | .node label children => malformedUnitsOf label children

def malformedUnitsOf (parent : Label) : List Tree → List Tree
  | [] => []
  | tree :: trees =>
    (if tree.isUnitOf parent && tree.hasLocalError then [tree] else tree.malformedUnits) ++
      malformedUnitsOf parent trees

end

end Tree

namespace Layout

open Template

variable {content : String} {parts : List Part} {child : Part} {label : Label}

theorem writes_fill {template : Template} (goes : template.goes (parts.map (·.tree)))
    (count : template.count = parts.length) (member : child ∈ parts) (isNode : child.isNode)
    (writes : child.doc.Writes content) : (template.fill parts).Writes content := by
  induction template generalizing parts with
  | nil =>
    have empty : parts = [] := List.length_eq_zero_iff.mp count.symm
    rw [empty] at member
    cases member
  | cons entry template ih =>
    obtain ⟨nest, slot⟩ := entry
    obtain ⟨suits, later⟩ := Bool.and_eq_true_iff.mp goes
    cases takes : slot.takes with
    | false =>
      rw [takes] at later
      rw [Template.count, takes] at count
      rw [fill, takes]
      exact (ih later (by simpa using count) member).append_right
    | true =>
      rw [takes] at later
      rw [Template.count, takes] at count
      rw [fill, takes]
      obtain _ | ⟨first, others⟩ := parts
      · cases member
      rcases List.mem_cons.mp member with rfl | other
      · refine (Row.Writes.deepen ?_ nest).append_left
        have notLeaf : child.tree.isLeaf = false := by simpa [Part.isNode, Tree.isNode] using isNode
        cases slot with
        | hole => exact writes.row
        | unit seen => exact writes.row.append_right
        | spare | out => simp [Slot.suits, notLeaf] at suits
        | gap | notes | extra => cases takes
      · refine (ih (by simpa using later) ?_ other).append_right
        simpa [Nat.add_comm 1] using count

theorem Template.Lays.writes {template : Template} {row : Row} (laid : Lays template parts row)
    (member : child ∈ parts) (isNode : child.isNode) (writes : child.doc.Writes content) :
    row.Writes content := by
  rw [← laid.filled]
  exact writes_fill laid.goes_all laid.count member isNode writes

theorem Framed.writes {grouped : Bool} {doc : Doc} {row : Row} (framed : Framed grouped doc row)
    (writes : row.Writes content) : doc.Writes content := by
  refine framed.cases (fun doc same => .of_row (by rwa [same])) fun docs same => ?_
  refine Doc.Writes.group (.of_row ?_) false
  rwa [Doc.row, same]

def Part.Writes (part : Part) (content : String) : Prop :=
  part.doc.Writes content ∧ part.contents.Writes content

theorem Part.Writes.of_doc {tree : Tree} {doc : Doc} (writes : doc.Writes content) :
    Part.Writes ⟨tree, doc, none⟩ content :=
  ⟨writes, writes⟩

theorem writes_logical (tree : Tree) {left operator right : Part} (isToken : operator.isNode = false)
    (member : child ∈ [left, operator, right]) (isNode : child.isNode)
    (writes : child.Writes content) : (logical tree [left, operator, right]).Writes content := by
  obtain ⟨token, isLeaf⟩ := Tree.leaf_of_isNode isToken
  obtain ⟨chain, shape, -, laid⟩ := arranged_logical tree left right isLeaf
  have chained : chain.contents.Writes content := by
    refine .of_row ?_
    simp only [List.mem_cons, List.not_mem_nil, or_false] at member
    rcases member with rfl | rfl | rfl
    · refine laid.writes List.mem_cons_self isNode ?_
      unfold Part.joined
      dsimp only
      split
      · exact writes.2
      · exact writes.1
    · rw [isToken] at isNode
      cases isNode
    · exact laid.writes (by simp) isNode writes.1
  rw [shape]
  exact ⟨chained.group false, chained⟩

theorem writes_nodePart (source : List Char) {children : List Tree}
    (trees : parts.map (·.tree) = children) (admitted : Tree.admits label children)
    (inOrder : ordered label children) (sound : label ≠ .error) (member : child ∈ parts)
    (isNode : child.isNode) (writes : child.Writes content) :
    (nodePart source label children parts).Writes content := by
  subst trees
  obtain ⟨fits, -⟩ := Bool.and_eq_true_iff.mp admitted
  rw [List.map_map] at fits
  unfold nodePart
  rw [if_pos admitted]
  split
  · exact absurd rfl sound
  · obtain ⟨left, -, operator, isToken, right, -, rfl⟩ := itemized (of_decide_eq_true fits)
    exact writes_logical _ isToken member isNode writes
  · obtain ⟨row, laid, framed⟩ := arranged fits inOrder
    exact .of_doc (framed.writes (laid.writes member isNode writes.1))

theorem writes_verbatim (source : List Char) {tree : Tree} (present : tree.sourceText source ≠ []) :
    (verbatim source tree).Writes (String.ofList (tree.sourceText source)) := by
  refine .of_row ?_
  intro style mode level after sheet
  have full : String.ofList (tree.sourceText source) ≠ "" := by simpa using present
  simp [verbatim, Row.laid_cons, Doc.laid_text _ _ _ _ full]

theorem writes_unitDoc {placed : Placed} {doc : Doc} (unit : Tree) (writes : doc.Writes content) :
    (unitDoc placed unit doc).Writes content := by
  unfold unitDoc
  split
  · exact writes
  · refine .of_row ?_
    rw [Doc.row, Doc.rowOf_cons]
    exact writes.row.append_left

mutual

theorem writes_part (source : List Char) (placed : Placed) {unit : Tree}
    (present : unit.sourceText source ≠ []) :
    (tree : Tree) → tree.isShaped → tree.everywhere ordered →
      tree.hasLocalError = false → unit ∈ tree.malformedUnits →
      (part source placed tree).Writes (String.ofList (unit.sourceText source))
  | .leaf token, _, _, _, member => by
    rw [Tree.malformedUnits] at member
    cases member
  | .node label children, shaped, inOrder, sound, member => by
    simp only [Tree.isShaped, Bool.and_eq_true] at shaped
    obtain ⟨⟨admitted, -⟩, below⟩ := shaped
    rw [Tree.everywhere_node, Bool.and_eq_true] at inOrder
    rw [Tree.hasLocalError, Bool.or_eq_false_iff] at sound
    rw [Tree.malformedUnits] at member
    obtain ⟨found, own, isNode, writes⟩ := writes_partsOf source placed label
      (endsDangling label children) true present children below inOrder.2
      ((Tree.anyLocalError_eq_false label children).mp sound.2) member
    rw [part]
    exact writes_nodePart source (trees_partsOf ..) admitted inOrder.1 (by simpa using sound.1) own
      isNode writes

theorem writes_partsOf (source : List Char) (placed : Placed) (parent : Label)
    (dangles atStart : Bool) {unit : Tree} (present : unit.sourceText source ≠ []) :
    (trees : List Tree) → Tree.areShaped trees → Tree.everywhereOf ordered trees →
      (∀ tree ∈ trees, tree.isUnitOf parent = false → tree.hasLocalError = false) →
      unit ∈ Tree.malformedUnitsOf parent trees →
      ∃ part ∈ partsOf source placed parent dangles atStart trees, part.isNode ∧
        part.Writes (String.ofList (unit.sourceText source))
  | [], _, _, _, member => by
    rw [Tree.malformedUnitsOf] at member
    cases member
  | tree :: trees, shaped, inOrder, sound, member => by
    rw [Tree.areShaped_cons, Bool.and_eq_true] at shaped
    rw [Tree.everywhereOf_cons, Bool.and_eq_true] at inOrder
    obtain ⟨soundHere, soundLater⟩ := List.forall_mem_cons.mp sound
    rw [partsOf]
    rw [Tree.malformedUnitsOf, List.mem_append] at member
    rcases member with here | later
    · refine ⟨_, List.mem_cons_self, ?_⟩
      by_cases echoed : (tree.isUnitOf parent && tree.hasLocalError)
      · rw [if_pos echoed, List.mem_singleton] at here
        subst here
        rw [Bool.and_eq_true] at echoed
        have alone : standsAlone parent unit := by simp [standsAlone, echoed.1]
        rw [if_pos alone]
        refine ⟨Tree.isNode_of_isUnitOf echoed.1, .of_doc (writes_unitDoc unit ?_)⟩
        rw [if_pos echoed.2]
        exact writes_verbatim source present
      · rw [if_neg echoed] at here
        have calm : tree.hasLocalError = false := by
          cases isUnit : tree.isUnitOf parent with
          | false => exact soundHere isUnit
          | true => simpa [isUnit] using echoed
        have writes (placed : Placed) := writes_part source placed present tree shaped.1 inOrder.1 calm here
        have isNode : tree.isNode := by
          cases tree with
          | leaf token =>
            rw [Tree.malformedUnits] at here
            cases here
          | node => rfl
        split
        · refine ⟨isNode, .of_doc (writes_unitDoc tree ?_)⟩
          rw [if_neg (by simp [calm])]
          exact (writes ⟨true, true⟩).1
        · split
          · exact ⟨by simpa [Part.isNode] using isNode, writes _⟩
          · exact ⟨by simpa [Part.isNode] using isNode, writes _⟩
    · obtain ⟨found, own, rest⟩ := writes_partsOf source placed parent dangles (atStart && tree.isEmpty)
        present trees shaped.2 inOrder.2 soundLater later
      exact ⟨found, List.mem_cons_of_mem _ own, rest⟩

end

end Layout

end Squirrel
