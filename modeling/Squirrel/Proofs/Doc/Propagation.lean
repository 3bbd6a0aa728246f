import Squirrel.Proofs.Doc.Row

/-! Which groups of a document have to break. -/

namespace Squirrel

namespace Doc

@[simp] def inner : Doc → List Doc
  | .concat parts => parts
  | .group contents _ | .indent contents | .lineSuffix contents => [contents]
  | .ifBreak broken flat => [broken, flat]
  | .text _ | .line _ | .breakParent | .unknown _ => []

@[simp] def isSuffix : Doc → Bool
  | .lineSuffix _ => true
  | _ => false

/-- What breaks the groups around it: a break parent, a hard line, a group that is marked. -/
@[simp] def isBreak : Doc → Bool
  | .breakParent => true
  | .line style => style.hard
  | .group _ broken => broken
  | _ => false

/-- A document contains another one, which does not wait for a line break there. -/
inductive Contains : Doc → Doc → Prop
  | self (doc : Doc) : Contains doc doc
  | inside {doc part other : Doc} (ready : doc.isSuffix = false) (member : part ∈ doc.inner)
      (deeper : Contains part other) : Contains doc other

def ContainsBreak (doc : Doc) : Prop := ∃ part, doc.Contains part ∧ part.isBreak

def at? (doc : Doc) : List Nat → Option Doc
  | [] => some doc
  | place :: places => doc.inner[place]?.bind (at? · places)

mutual

def unmarked : Doc → Doc
  | .concat parts => .concat (allUnmarked parts)
  | .group contents _ => .group (unmarked contents) false
  | .indent contents => .indent (unmarked contents)
  | .ifBreak broken flat => .ifBreak (unmarked broken) (unmarked flat)
  | .lineSuffix contents => .lineSuffix (unmarked contents)
  | .text content => .text content
  | .line style => .line style
  | .breakParent => .breakParent
  | .unknown value => .unknown value

def allUnmarked : List Doc → List Doc
  | [] => []
  | doc :: docs => unmarked doc :: allUnmarked docs

end

theorem sizeOf_lt_of_mem_inner {doc part : Doc} (member : part ∈ doc.inner) :
    sizeOf part < sizeOf doc := by
  cases doc with
  | concat parts =>
    have smaller := List.sizeOf_lt_of_mem (show part ∈ parts from member)
    rw [concat.sizeOf_spec]
    omega
  | _ => grind [inner]

theorem inner_induction {holds : Doc → Prop}
    (step : ∀ doc : Doc, (∀ part ∈ doc.inner, holds part) → holds doc) (doc : Doc) : holds doc :=
  step doc fun part _ => inner_induction step part
termination_by doc
decreasing_by exact sizeOf_lt_of_mem_inner ‹_›

theorem allUnmarked_eq (docs : List Doc) : allUnmarked docs = docs.map unmarked := by
  induction docs with
  | nil => rfl
  | cons doc docs ih => rw [allUnmarked, ih, List.map_cons]

section Marks

variable {doc : Doc}

theorem inner_marked (doc : Doc) : doc.marked.inner = doc.inner.map marked := by
  cases doc with
  | unknown value => rfl
  | _ => simp

theorem at?_marked (doc : Doc) (places : List Nat) :
    doc.marked.at? places = (doc.at? places).map marked := by
  induction places generalizing doc with
  | nil => rfl
  | cons place places ih =>
    rw [at?, at?, inner_marked, List.getElem?_map]
    cases doc.inner[place]? with
    | none => rfl
    | some part => exact ih part

theorem breaks_eq (doc : Doc) :
    doc.breaks = (doc.isBreak || (!doc.isSuffix && doc.inner.any breaks)) := by
  cases doc with
  | unknown value => rfl
  | _ => simp

theorem containsBreak_iff :
    doc.ContainsBreak ↔ doc.isBreak ∨
      doc.isSuffix = false ∧ ∃ part ∈ doc.inner, part.ContainsBreak := by
  constructor
  · rintro ⟨other, contains, isBreak⟩
    cases contains with
    | self => exact .inl isBreak
    | inside ready member deeper => exact .inr ⟨ready, _, member, other, deeper, isBreak⟩
  · rintro (isBreak | ⟨ready, part, member, other, deeper, isBreak⟩)
    · exact ⟨doc, .self doc, isBreak⟩
    · exact ⟨other, .inside ready member deeper, isBreak⟩

theorem breaks_iff (doc : Doc) : doc.breaks ↔ doc.ContainsBreak := by
  induction doc using inner_induction with
  | step doc ih =>
    have parts : doc.inner.any breaks ↔ ∃ part ∈ doc.inner, part.ContainsBreak := by
      rw [List.any_eq_true]
      exact exists_congr fun part => and_congr_right (ih part)
    rw [containsBreak_iff, breaks_eq, Bool.or_eq_true, Bool.and_eq_true, Bool.not_eq_true', parts]

theorem unmarked_marked (doc : Doc) : doc.marked.unmarked = doc.unmarked := by
  induction doc using inner_induction with
  | step doc ih =>
    cases doc with
    | concat parts =>
      rw [marked_concat, unmarked, unmarked, allUnmarked_eq, allUnmarked_eq, List.map_map]
      exact congrArg concat (List.map_congr_left ih)
    | unknown value => rfl
    | _ => simp_all [unmarked]

theorem breaks_marked (doc : Doc) : doc.marked.breaks = doc.breaks := by
  induction doc using inner_induction with
  | step doc ih =>
    cases doc with
    | concat parts =>
      rw [marked_concat, breaks_concat, breaks_concat, List.any_map, Bool.eq_iff_iff,
        List.any_eq_true, List.any_eq_true]
      exact exists_congr fun part => and_congr_right fun member => by
        rw [Function.comp, ih part member]
    | unknown value => rfl
    | _ => simp_all

theorem marked_marked (doc : Doc) : doc.marked.marked = doc.marked := by
  induction doc using inner_induction with
  | step doc ih =>
    cases doc with
    | concat parts =>
      rw [marked_concat, marked_concat, List.map_map]
      exact congrArg concat (List.map_congr_left ih)
    | unknown value => rfl
    | _ => simp_all [breaks_marked]

/-- A document has to break exactly if it contains a break that does not wait, and marks go to
exactly the groups that contain one. Nothing else changes, and a second time nothing at all. -/
theorem propagate_exact (doc : Doc) :
    (doc.propagate.2 = true ↔ doc.ContainsBreak) ∧
    (∀ places contents broken, doc.at? places = some (.group contents broken) →
      ∃ within mark, doc.propagate.1.at? places = some (.group within mark) ∧
        (mark = true ↔ broken = true ∨ contents.ContainsBreak)) ∧
    doc.propagate.1.unmarked = doc.unmarked ∧
    doc.propagate.1.propagate = doc.propagate := by
  refine ⟨breaks_iff doc, fun places contents broken found => ?_, unmarked_marked doc, ?_⟩
  · refine ⟨contents.marked, broken || contents.breaks, ?_, ?_⟩
    · rw [← marked, at?_marked, found, Option.map_some, marked_group]
    · rw [Bool.or_eq_true, breaks_iff]
  · exact Prod.ext (marked_marked doc) (breaks_marked doc)

theorem propagate_exact_waiting :
    (group (lineSuffix (group hardLine false)) false).propagate.1.at? [0] =
        some (lineSuffix (group hardLine true)) ∧
      ∃ within mark, (group (lineSuffix (group hardLine false)) false).propagate.1.at? [0, 0] =
          some (group within mark) ∧
        (mark = true ↔ false = true ∨ hardLine.ContainsBreak) :=
  ⟨rfl, (propagate_exact (group (lineSuffix (group hardLine false)) false)).2.1 [0, 0] hardLine
    false rfl⟩

end Marks

end Doc

end Squirrel
