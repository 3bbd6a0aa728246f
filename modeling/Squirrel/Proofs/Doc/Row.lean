import Squirrel.Proofs.Doc.Laying

/-! Documents as rows: what is put together or indented is laid out piece by piece. -/

namespace Squirrel

namespace Doc

def marked (doc : Doc) : Doc := doc.propagate.1

def breaks (doc : Doc) : Bool := doc.propagate.2

def laid (style : PageStyle) (doc : Doc) : Mode → Nat → (Int → Bool) → Sheet → List Event :=
  doc.marked.lay style

def fitted (style : PageStyle) (doc : Doc) : Mode → (Int → Bool) → Int → Bool :=
  doc.marked.fitsThen style

end Doc

/-- Documents one after the other, each with how much deeper than the row its lines start. -/
abbrev Row := List (Nat × Doc)

namespace Row

def deepen (nest : Nat) (row : Row) : Row := row.map fun (own, doc) => (own + nest, doc)

def breaks (row : Row) : Bool := row.any (·.2.breaks)

def fitted (style : PageStyle) : Row → Mode → (Int → Bool) → Int → Bool
  | [], _, after => after
  | (_, doc) :: row, mode, after => doc.fitted style mode (fitted style row mode after)

def laid (style : PageStyle) : Row → Mode → Nat → (Int → Bool) → Sheet → List Event
  | [], _, _, _, _ => []
  | (nest, doc) :: row, mode, level, after, sheet =>
    let events := doc.laid style mode (level + nest) (fitted style row mode after) sheet
    events ++ laid style row mode level after (sheet.playAll style events)

@[simp] theorem deepen_nil (nest : Nat) : deepen nest [] = [] := rfl

@[simp] theorem deepen_cons (nest own : Nat) (doc : Doc) (row : Row) :
    deepen nest ((own, doc) :: row) = (own + nest, doc) :: deepen nest row := rfl

@[simp] theorem deepen_append (nest : Nat) (first second : Row) :
    deepen nest (first ++ second) = deepen nest first ++ deepen nest second :=
  List.map_append

@[simp] theorem deepen_zero (row : Row) : deepen 0 row = row := by simp [deepen]

@[simp] theorem deepen_deepen (outer inner : Nat) (row : Row) :
    deepen outer (deepen inner row) = deepen (inner + outer) row := by
  simp [deepen, Function.comp_def, Nat.add_assoc]

@[simp] theorem breaks_append (first second : Row) :
    breaks (first ++ second) = (breaks first || breaks second) :=
  List.any_append

@[simp] theorem breaks_deepen (nest : Nat) (row : Row) : breaks (deepen nest row) = breaks row := by
  simp [breaks, deepen, Function.comp_def]

variable (style : PageStyle) (mode : Mode) (level : Nat) (after : Int → Bool) (sheet : Sheet)

@[simp] theorem fitted_cons (nest : Nat) (doc : Doc) (row : Row) :
    fitted style ((nest, doc) :: row) mode after =
      doc.fitted style mode (fitted style row mode after) := rfl

@[simp] theorem fitted_append (first second : Row) :
    fitted style (first ++ second) mode after =
      fitted style first mode (fitted style second mode after) := by
  induction first with
  | nil => rfl
  | cons entry first ih => rw [List.cons_append, fitted_cons, fitted_cons, ih]

@[simp] theorem fitted_deepen (nest : Nat) (row : Row) :
    fitted style (deepen nest row) mode after = fitted style row mode after := by
  induction row with
  | nil => rfl
  | cons entry row ih => rw [deepen_cons, fitted_cons, fitted_cons, ih]

theorem laid_cons (nest : Nat) (doc : Doc) (row : Row) :
    laid style ((nest, doc) :: row) mode level after sheet =
      doc.laid style mode (level + nest) (fitted style row mode after) sheet ++
        laid style row mode level after (sheet.playAll style
          (doc.laid style mode (level + nest) (fitted style row mode after) sheet)) := rfl

theorem laid_append (first second : Row) :
    laid style (first ++ second) mode level after sheet =
      laid style first mode level (fitted style second mode after) sheet ++
        laid style second mode level after (sheet.playAll style
          (laid style first mode level (fitted style second mode after) sheet)) := by
  induction first generalizing sheet with
  | nil => rfl
  | cons entry first ih =>
    rw [List.cons_append, laid_cons, laid_cons, fitted_append, ih, Sheet.playAll_append,
      List.append_assoc]

theorem laid_deepen (nest : Nat) (row : Row) :
    laid style (deepen nest row) mode level after sheet =
      laid style row mode (level + nest) after sheet := by
  induction row generalizing sheet with
  | nil => rfl
  | cons entry row ih =>
    rw [deepen_cons, laid_cons, laid_cons, fitted_deepen, ih, Nat.add_comm entry.1,
      Nat.add_assoc]

end Row

namespace Doc

mutual

@[simp] def row : Doc → Row
  | .concat parts => rowOf parts
  | .indent contents => contents.row.deepen 1
  | .text content => [(0, .text content)]
  | .group contents broken => [(0, .group contents broken)]
  | .line look => [(0, .line look)]
  | .ifBreak broken flat => [(0, .ifBreak broken flat)]
  | .lineSuffix contents => [(0, .lineSuffix contents)]
  | .breakParent => [(0, .breakParent)]
  | .unknown value => [(0, .unknown value)]

@[simp] def rowOf : List Doc → Row
  | [] => []
  | doc :: docs => doc.row ++ rowOf docs

end

section Rows

@[simp] theorem rowOf_cons (doc : Doc) (docs : List Doc) : rowOf (doc :: docs) = doc.row ++ rowOf docs :=
  rfl

@[simp] theorem rowOf_append (first second : List Doc) :
    rowOf (first ++ second) = rowOf first ++ rowOf second := by
  induction first with
  | nil => simp
  | cons doc first ih => simp [ih]

@[simp] theorem row_indentOf (docs : List Doc) : (indentOf docs).row = (rowOf docs).deepen 1 := by
  simp [indentOf]

@[simp] theorem row_nothing : nothing.row = [] := by simp [nothing]

end Rows

section Marking

@[simp] theorem marked_text (content : String) : (text content).marked = text content := rfl

theorem propagateAll_fst (docs : List Doc) : (propagateAll docs).1 = docs.map marked := by
  induction docs with
  | nil => rw [propagateAll, List.map_nil]
  | cons doc docs ih => rw [propagateAll, List.map_cons, ← ih]; rfl

theorem propagateAll_snd (docs : List Doc) : (propagateAll docs).2 = docs.any breaks := by
  induction docs with
  | nil => rw [propagateAll, List.any_nil]
  | cons doc docs ih => rw [propagateAll, List.any_cons, ← ih]; rfl

@[simp] theorem marked_concat (docs : List Doc) : (concat docs).marked = concat (docs.map marked) := by
  rw [marked, propagate, ← propagateAll_fst]

@[simp] theorem marked_group (contents : Doc) (broken : Bool) :
    (group contents broken).marked = group contents.marked (broken || contents.breaks) := rfl

@[simp] theorem marked_indent (contents : Doc) : (indent contents).marked = indent contents.marked := rfl

@[simp] theorem marked_line (look : LineStyle) : (line look).marked = line look := rfl

@[simp] theorem marked_ifBreak (broken flat : Doc) :
    (ifBreak broken flat).marked = ifBreak broken.marked flat.marked := rfl

@[simp] theorem marked_lineSuffix (contents : Doc) :
    (lineSuffix contents).marked = lineSuffix contents.marked := rfl

@[simp] theorem marked_breakParent : breakParent.marked = breakParent := rfl

@[simp] theorem breaks_text (content : String) : (text content).breaks = false := rfl

@[simp] theorem breaks_concat (docs : List Doc) : (concat docs).breaks = docs.any breaks := by
  rw [breaks, propagate, ← propagateAll_snd]

@[simp] theorem breaks_group (contents : Doc) (broken : Bool) :
    (group contents broken).breaks = (broken || contents.breaks) := rfl

@[simp] theorem breaks_indent (contents : Doc) : (indent contents).breaks = contents.breaks := rfl

@[simp] theorem breaks_line (look : LineStyle) : (line look).breaks = look.hard := rfl

@[simp] theorem breaks_ifBreak (broken flat : Doc) :
    (ifBreak broken flat).breaks = (broken.breaks || flat.breaks) := rfl

@[simp] theorem breaks_lineSuffix (contents : Doc) : (lineSuffix contents).breaks = false := rfl

@[simp] theorem breaks_breakParent : breakParent.breaks := rfl

end Marking

structure Amounts (doc : Doc) (row : Row) : Prop where
  breaks : row.breaks = doc.breaks
  fitted : ∀ style mode after, row.fitted style mode after = doc.fitted style mode after
  laid : ∀ style mode level after sheet,
    row.laid style mode level after sheet = doc.laid style mode level after sheet

theorem amounts_self (doc : Doc) : Amounts doc [(0, doc)] where
  breaks := by simp [Row.breaks]
  fitted _ _ _ := rfl
  laid _ _ _ _ _ := by simp [Row.laid, Row.fitted]

theorem amounts_nil : Amounts (concat []) [] where
  breaks := rfl
  fitted style mode after := by
    funext width
    simp [Row.fitted, Doc.fitted, fitsThen, allFitThen]
  laid style mode level after sheet := by simp [Row.laid, Doc.laid, lay, layAll]

theorem fitted_concat_cons (style : PageStyle) (doc : Doc) (docs : List Doc) (mode : Mode)
    (after : Int → Bool) :
    (concat (doc :: docs)).fitted style mode after =
      doc.fitted style mode ((concat docs).fitted style mode after) := by
  have rest : (concat docs).fitted style mode after =
      allFitThen style (docs.map marked) mode after := by
    funext width
    rw [Doc.fitted, marked_concat, fitsThen]
  funext width
  rw [rest, Doc.fitted, marked_concat, fitsThen, List.map_cons, allFitThen, Doc.fitted]

theorem laid_concat_cons (style : PageStyle) (doc : Doc) (docs : List Doc) (mode : Mode)
    (level : Nat) (after : Int → Bool) (sheet : Sheet) :
    (concat (doc :: docs)).laid style mode level after sheet =
      doc.laid style mode level ((concat docs).fitted style mode after) sheet ++
        (concat docs).laid style mode level after (sheet.playAll style
          (doc.laid style mode level ((concat docs).fitted style mode after) sheet)) := by
  have rest : (concat docs).fitted style mode after =
      allFitThen style (docs.map marked) mode after := by
    funext width
    rw [Doc.fitted, marked_concat, fitsThen]
  rw [rest, Doc.laid, marked_concat, List.map_cons, lay, layAll, Doc.laid, Doc.laid, marked_concat,
    lay]

theorem amounts_cons {doc : Doc} {docs : List Doc} {first rest : Row} (one : Amounts doc first)
    (others : Amounts (concat docs) rest) : Amounts (concat (doc :: docs)) (first ++ rest) where
  breaks := by simp [one.breaks, others.breaks]
  fitted style mode after := by
    rw [Row.fitted_append, others.fitted, one.fitted, fitted_concat_cons]
  laid style mode level after sheet := by
    rw [Row.laid_append, others.fitted, one.laid, others.laid, laid_concat_cons]

theorem amounts_indent {doc : Doc} {row : Row} (inner : Amounts doc row) :
    Amounts (indent doc) (row.deepen 1) where
  breaks := by simp [inner.breaks]
  fitted style mode after := by
    funext width
    rw [Row.fitted_deepen, inner.fitted, Doc.fitted, Doc.fitted, marked_indent, fitsThen]
  laid style mode level after sheet := by
    rw [Row.laid_deepen, inner.laid, Doc.laid, Doc.laid, marked_indent, lay]

mutual

theorem amounts_row : (doc : Doc) → Amounts doc doc.row
  | .concat parts => by
    rw [row]
    exact amounts_rowOf parts
  | .indent contents => by
    rw [row]
    exact amounts_indent (amounts_row contents)
  | .text _ | .group _ _ | .line _ | .ifBreak _ _ | .lineSuffix _ | .breakParent | .unknown _ => by
    rw [row]
    exact amounts_self _

theorem amounts_rowOf : (docs : List Doc) → Amounts (concat docs) (rowOf docs)
  | [] => by
    rw [rowOf]
    exact amounts_nil
  | doc :: docs => by
    rw [rowOf]
    exact amounts_cons (amounts_row doc) (amounts_rowOf docs)

end

section Lines

variable (style : PageStyle) (level : Nat) (after : Int → Bool) (sheet : Sheet)

theorem laid_text {content : String} (present : content ≠ "") (mode : Mode) :
    (text content).laid style mode level after sheet = [.text content] := by
  rw [laid, marked_text, lay, if_neg present]

theorem laid_line (look : LineStyle) (mode : Mode) :
    (line look).laid style mode level after sheet = lineEvents style look mode level sheet := by
  rw [laid, marked_line, lay]

theorem laid_breakParent (mode : Mode) : breakParent.laid style mode level after sheet = [] := by
  rw [laid, marked_breakParent, lay]

theorem laid_lineSuffix (content : String) (mode : Mode) :
    (lineSuffix (text content)).laid style mode level after sheet = [.later content] := by
  rw [laid, marked_lineSuffix, marked_text, lay, suffixEvents]

theorem laid_group (contents : Doc) (broken : Bool) (mode : Mode) :
    (group contents broken).laid style mode level after sheet =
      contents.laid style
        (groupMode style contents.marked (broken || contents.breaks) mode after sheet.page) level
        after sheet := by
  rw [laid, marked_group, lay, laid]

end Lines

end Doc

end Squirrel
