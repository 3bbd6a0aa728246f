import Squirrel.Proofs.Doc.Page
import Squirrel.Proofs.Doc.Row

/-! What is read off a document, whatever blanks are printed between its texts. -/

namespace Squirrel.Doc

variable {α : Type}

/-- Something that is read off documents: off their texts, and off their choices. Blanks and commas
do not count. -/
structure Reader (α : Type) where
  ofText : String → List α
  ofChoice : Doc → Doc → List α
  empty : ofText "" = []
  space : ofText " " = []
  comma : ofText "," = []
  extra : ofChoice (.text "") (.text ",") = []

variable (reader : Reader α)

mutual

/-- What is read off a document, in order. Of a choice the side is read that is printed in a broken
group. -/
@[simp] def collect : Doc → List α
  | .text content => reader.ofText content
  | .concat parts => collectAll parts
  | .group contents _ => contents.collect
  | .indent contents => contents.collect
  | .ifBreak broken flat => reader.ofChoice broken flat ++ broken.collect
  | .lineSuffix contents => contents.collect
  | .line _ | .breakParent | .unknown _ => []

def collectAll : List Doc → List α
  | [] => []
  | doc :: docs => doc.collect ++ collectAll docs

end

@[simp] theorem collectAll_eq (docs : List Doc) :
    collectAll reader docs = docs.flatMap (collect reader) := by
  induction docs with
  | nil => rfl
  | cons doc docs ih => rw [List.flatMap_cons, ← ih]; rfl

@[simp] theorem collect_concat (docs : List Doc) :
    (concat docs).collect reader = docs.flatMap (collect reader) := collectAll_eq reader docs

@[simp] theorem collect_groupOf (docs : List Doc) :
    (groupOf docs).collect reader = docs.flatMap (collect reader) := collect_concat reader docs

@[simp] theorem collect_indentOf (docs : List Doc) :
    (indentOf docs).collect reader = docs.flatMap (collect reader) := collect_concat reader docs

@[simp] theorem collect_space : space.collect reader = [] := reader.space

@[simp] theorem collect_hardLine : hardLine.collect reader = [] := rfl

@[simp] theorem collect_freshLine : freshLine.collect reader = [] := rfl

@[simp] theorem collect_plainLine : plainLine.collect reader = [] := rfl

@[simp] theorem collect_softLine : softLine.collect reader = [] := rfl

@[simp] theorem collect_misfit : misfit.collect reader = [] := rfl

end Squirrel.Doc
