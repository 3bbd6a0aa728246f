import Squirrel.Proofs.Doc.Steps
import Squirrel.Proofs.Doc.Collecting

/-! Widths and indentations change nothing but blanks. -/

namespace Squirrel

def isGap (c : Char) : Bool := isTrailingBlank c || c = '\n'

/-- The characters of a text that are neither spaces nor tabs nor line feeds. -/
def inked (text : List Char) : List Char := text.filter (!isGap ·)

section Inked

@[simp] theorem inked_nil : inked [] = [] := rfl

@[simp] theorem inked_append (first second : List Char) :
    inked (first ++ second) = inked first ++ inked second :=
  List.filter_append ..

theorem inked_gap {c : Char} (gap : isGap c) (text : List Char) : inked (c :: text) = inked text := by
  simp [inked, gap]

theorem inked_blank {text : List Char} (blank : text.all isTrailingBlank) : inked text = [] := by
  refine List.filter_eq_nil_iff.mpr fun c member => ?_
  simp [isGap, List.all_eq_true.mp blank c member]

theorem inked_trimEnd (text : List Char) : inked (trimEnd text) = inked text := by
  induction text using List.reverseRecOn with
  | nil => rfl
  | append_singleton text c ih =>
    rw [trimEnd_concat]
    split
    · next blank =>
      have gap : inked [c] = [] := inked_blank (by simpa using blank)
      rw [inked_append, gap, List.append_nil, ih]
    · rfl

variable {style : PageStyle}

theorem inked_write (page : Page) (text : List Char) :
    inked (page.write style text).text = inked page.text ++ inked text := by
  rw [Page.text_write, inked_append]
  congr 1
  unfold Page.squeeze
  split
  · next rest =>
    split
    · rw [inked_gap rfl]
    · rfl
  · rfl

theorem inked_newline (indented : style.indentUnit.toList.all isTrailingBlank) (page : Page)
    (level : Nat) : inked (page.newline style level).text = inked page.text := by
  have blank := PageStyle.blank_indentation indented level
  rw [Page.text_newline, inked_append, inked_trimEnd, inked_gap rfl, inked_blank blank, List.append_nil]

end Inked

namespace Doc

def isDirect : Doc → Bool
  | .lineSuffix _ => false
  | _ => true

def isCertain : Doc → Bool
  | .ifBreak _ _ => false
  | _ => true

mutual

/-- A text is what the texts of a document come to, one after the other, with one side taken of each
choice. -/
def Spells : Doc → List Char → Prop
  | .text content, spelled => spelled = content.toList
  | .concat parts, spelled => SpellAll parts spelled
  | .group contents _, spelled => contents.Spells spelled
  | .indent contents, spelled => contents.Spells spelled
  | .ifBreak broken flat, spelled => broken.Spells spelled ∨ flat.Spells spelled
  | .lineSuffix contents, spelled => contents.Spells spelled
  | .line _, spelled | .breakParent, spelled | .unknown _, spelled => spelled = []

def SpellAll : List Doc → List Char → Prop
  | [], spelled => spelled = []
  | doc :: docs, spelled =>
    ∃ first rest, spelled = first ++ rest ∧ doc.Spells first ∧ SpellAll docs rest

end

section Spelling

theorem spellAll_append {first second : List Doc} {spelled : List Char} :
    SpellAll (first ++ second) spelled ↔
      ∃ start rest, spelled = start ++ rest ∧ SpellAll first start ∧ SpellAll second rest := by
  induction first generalizing spelled with
  | nil => simp [SpellAll]
  | cons doc first ih =>
    simp only [List.cons_append, SpellAll, ih]
    constructor
    · rintro ⟨front, _, rfl, own, start, rest, rfl, inner, outer⟩
      exact ⟨front ++ start, rest, by simp, ⟨front, start, rfl, own, inner⟩, outer⟩
    · rintro ⟨_, rest, rfl, ⟨front, start, rfl, own, inner⟩, outer⟩
      exact ⟨front, start ++ rest, by simp, own, start, rest, rfl, inner, outer⟩

mutual

theorem spells_marked : (doc : Doc) → (spelled : List Char) →
    (doc.marked.Spells spelled ↔ doc.Spells spelled)
  | .concat parts, spelled => by
    rw [marked_concat, Spells, Spells]
    exact spellAll_marked parts spelled
  | .group contents _, spelled | .indent contents, spelled | .lineSuffix contents, spelled => by
    simp only [marked_group, marked_indent, marked_lineSuffix, Spells]
    exact spells_marked contents spelled
  | .ifBreak broken flat, spelled => by
    rw [marked_ifBreak, Spells, Spells, spells_marked broken, spells_marked flat]
  | .text _, _ | .line _, _ | .breakParent, _ | .unknown _, _ => Iff.rfl

theorem spellAll_marked : (docs : List Doc) → (spelled : List Char) →
    (SpellAll (docs.map marked) spelled ↔ SpellAll docs spelled)
  | [], _ => Iff.rfl
  | doc :: docs, spelled => by
    simp only [List.map_cons, SpellAll, spells_marked doc, spellAll_marked docs]

end

mutual

theorem spells_unique {first second : List Char} : (doc : Doc) → doc.everywhere isCertain →
    doc.Spells first → doc.Spells second → first = second
  | .concat parts, certain, one, two => by
    rw [everywhere, Bool.and_eq_true] at certain
    rw [Spells] at one two
    exact spellAll_unique parts certain.2 one two
  | .group contents _, certain, one, two | .indent contents, certain, one, two
  | .lineSuffix contents, certain, one, two => by
    rw [everywhere, Bool.and_eq_true] at certain
    rw [Spells] at one two
    exact spells_unique contents certain.2 one two
  | .ifBreak broken flat, certain, _, _ => by
    rw [everywhere] at certain
    cases certain
  | .text _, _, one, two | .line _, _, one, two | .breakParent, _, one, two
  | .unknown _, _, one, two => by
    rw [Spells] at one two
    exact one.trans two.symm

theorem spellAll_unique {first second : List Char} : (docs : List Doc) →
    everywhereOf isCertain docs → SpellAll docs first → SpellAll docs second → first = second
  | [], _, one, two => by
    rw [SpellAll] at one two
    exact one.trans two.symm
  | doc :: docs, certain, one, two => by
    rw [everywhereOf, Bool.and_eq_true] at certain
    rw [SpellAll] at one two
    obtain ⟨start, rest, rfl, own, others⟩ := one
    obtain ⟨start', rest', rfl, own', others'⟩ := two
    rw [spells_unique doc certain.1 own own', spellAll_unique docs certain.2 others others']

end

end Spelling

end Doc

namespace Machine

open Doc (SpellAll isDirect)

def Spells (machine : Machine) (spelled : List Char) : Prop :=
  SpellAll (machine.commands.map (·.doc)) spelled

variable {style : PageStyle} {machine next : Machine}

theorem spells_opens {page : Page} {command : Command} {commands more : List Command}
    (opened : Opens style page commands command more) {spelled : List Char}
    (inner : SpellAll (more.map (·.doc)) spelled) : command.doc.Spells spelled := by
  have only {contents : Doc} (one : SpellAll [contents] spelled) : contents.Spells spelled := by
    obtain ⟨first, _, rfl, own, rfl⟩ := one
    rwa [List.append_nil]
  cases opened with
  | concat parts => simpa [Function.comp_def, Doc.Spells] using inner
  | indent contents | group contents broken => exact only inner
  | broken broken flat => exact .inl (only inner)
  | flat broken flat => exact .inr (only inner)
  | soft | breakParent | unknown => exact inner

theorem Moves.spells (indented : style.indentUnit.toList.all isTrailingBlank)
    (moved : Moves style machine next) (direct : machine.Passes isDirect) {rest : List Char}
    (left : next.Spells rest) :
    ∃ whole, machine.Spells whole ∧
      inked next.page.text ++ inked rest = inked machine.page.text ++ inked whole := by
  cases moved with
  | opens opened =>
    rw [Spells, List.map_append] at left
    obtain ⟨start, later, rfl, own, after⟩ := Doc.spellAll_append.mp left
    exact ⟨start ++ later, ⟨start, later, rfl, spells_opens opened own, after⟩, rfl⟩
  | writes shown =>
    cases shown with
    | text content =>
      exact ⟨content.toList ++ rest, ⟨_, rest, rfl, rfl, left⟩, by simp [inked_write]⟩
    | space =>
      have blank : inked [' '] = [] := rfl
      exact ⟨rest, ⟨[], rest, rfl, rfl, left⟩, by simp [inked_write, blank]⟩
  | breaks => exact ⟨rest, ⟨[], rest, rfl, rfl, left⟩, by simp [inked_newline indented]⟩
  | skips => exact ⟨rest, ⟨[], rest, rfl, rfl, left⟩, rfl⟩
  | defers => cases direct.commands
  | flushes _ waiting | ends waiting => exact absurd direct.suffixes waiting

theorem spells_reaches (indented : style.indentUnit.toList.all isTrailingBlank)
    (reached : StateTransition.Reaches (step style) machine next) (direct : machine.Passes isDirect)
    {rest : List Char} (left : next.Spells rest) :
    ∃ whole, machine.Spells whole ∧
      inked next.page.text ++ inked rest = inked machine.page.text ++ inked whole := by
  induction reached using Relation.ReflTransGen.head_induction_on with
  | refl => exact ⟨rest, left, rfl⟩
  | head stepped _ ih =>
    have moved := moves_of_step stepped
    obtain ⟨later, after, printed⟩ := ih (moved.passes (fun _ => rfl) direct)
    obtain ⟨whole, own, same⟩ := moved.spells indented direct after
    exact ⟨whole, own, printed.trans same⟩

end Machine

namespace Doc

theorem inked_printOn {style : PageStyle} (indented : style.indentUnit.toList.all isTrailingBlank)
    {doc : Doc} (direct : doc.everywhere isDirect) :
    ∃ spelled, doc.Spells spelled ∧ inked (doc.printOn style .blank).text = inked spelled := by
  have blind (doc : Doc) : isDirect doc.marked = isDirect doc := by cases doc <;> rfl
  obtain ⟨reached, done, -⟩ := Machine.reaches_run style doc.machine
  have ended : (doc.machine.run style).Spells [] := by simp [Machine.Spells, done, SpellAll]
  obtain ⟨_, ⟨spelled, _, rfl, own, rfl⟩, printed⟩ :=
    Machine.spells_reaches indented reached (Machine.passes_machine blind direct) ended
  refine ⟨spelled, (spells_marked doc spelled).mp own, ?_⟩
  rw [printOn, Page.text_trim, inked_trimEnd]
  rw [inked_nil, List.append_nil, List.append_nil] at printed
  exact printed

/-- Whatever the width and the indentation, a document without anything that waits for the end of a
line is printed with its texts one after the other, with one side taken of each choice and nothing
but blanks added or left out. So without choices only blanks differ between two pages. -/
theorem printFrom_spells {doc : Doc} (known : doc.unknown? = none)
    (direct : doc.everywhere isDirect = true) (style : PageStyle)
    (indented : style.indentUnit.toList.all isTrailingBlank = true) :
    ∃ page, doc.printFrom style .blank = .ok page ∧
      (∃ spelled, doc.Spells spelled ∧ inked page.text = inked spelled) ∧
      (doc.everywhere isCertain = true → ∀ other : PageStyle,
        other.indentUnit.toList.all isTrailingBlank = true →
          ∃ second, doc.printFrom other .blank = .ok second ∧ inked second.text = inked page.text) := by
  have printed (style : PageStyle) : doc.printFrom style .blank = .ok (doc.printOn style .blank) := by
    rw [printFrom, known]
  obtain ⟨spelled, own, same⟩ := inked_printOn indented direct
  refine ⟨_, printed style, ⟨spelled, own, same⟩, fun certain other indented => ⟨_, printed other, ?_⟩⟩
  obtain ⟨spelled', own', same'⟩ := inked_printOn indented direct
  rw [same, same', spells_unique doc certain own own']

theorem printFrom_spells_list :
    ∃ narrow wide : Page,
      (groupOf [.text "f(", indentOf [softLine, .text "a,", plainLine, .text "b"], softLine,
        .text ")"]).printFrom ⟨4, "  ", 4⟩ .blank = .ok narrow ∧
      (groupOf [.text "f(", indentOf [softLine, .text "a,", plainLine, .text "b"], softLine,
        .text ")"]).printFrom ⟨80, "\t", 4⟩ .blank = .ok wide ∧
      inked wide.text = inked narrow.text := by
  obtain ⟨narrow, printed, -, others⟩ := @printFrom_spells
    (groupOf [.text "f(", indentOf [softLine, .text "a,", plainLine, .text "b"], softLine, .text ")"])
    rfl (by decide) ⟨4, "  ", 4⟩ (by decide)
  obtain ⟨wide, also, same⟩ := others (by decide) ⟨80, "\t", 4⟩ (by decide)
  exact ⟨narrow, wide, printed, also, same⟩

end Doc

end Squirrel
