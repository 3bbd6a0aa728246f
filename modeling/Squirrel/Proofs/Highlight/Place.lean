import Squirrel.Proofs.Highlight.Cover
import Squirrel.Proofs.Token.Place

/-! Lines and columns are counted twice: by the lexer, for which a lone carriage return ends a line,
and by colouring, for which only a line feed does. The two agree up to the first lone carriage
return, and never again after it. -/

namespace Squirrel

/-- Whether a carriage return without a line feed behind it stands before a place. -/
def HasLoneReturn (source : List Char) (offset : Nat) : Prop :=
  ∃ index < offset, source[index]? = some '\r' ∧ source[index + 1]? ≠ some '\n'

theorem hasLoneReturn_cons (c : Char) (text : List Char) (count : Nat) :
    HasLoneReturn (c :: text) (count + 1) ↔
      (c = '\r' ∧ text.head? ≠ some '\n') ∨ HasLoneReturn text count := by
  constructor
  · rintro ⟨index, inside, isReturn, lone⟩
    cases index with
    | zero => exact .inl ⟨by simpa using isReturn, by simpa [List.head?_eq_getElem?] using lone⟩
    | succ index =>
      exact .inr ⟨index, Nat.lt_of_succ_lt_succ inside, by simpa using isReturn,
        by simpa using lone⟩
  · rintro (⟨rfl, lone⟩ | ⟨index, inside, isReturn, lone⟩)
    · exact ⟨0, Nat.succ_pos count, rfl, by simpa [List.head?_eq_getElem?] using lone⟩
    · exact ⟨index + 1, Nat.succ_lt_succ inside, by simpa using isReturn, by simpa using lone⟩

namespace Cursor

def feed (cursor : Cursor) : Cursor :=
  match cursor.rest with
  | [] => cursor
  | c :: rest =>
    if c = '\n' then ⟨rest, cursor.offset + 1, cursor.line + 1, 1⟩
    else ⟨rest, cursor.offset + 1, cursor.line, cursor.column + 1⟩

def feedBy (cursor : Cursor) : Nat → Cursor
  | 0 => cursor
  | count + 1 => cursor.feed.feedBy count

theorem feedBy_eq_advanceAnyBy {cursor : Cursor} {count : Nat}
    (plain : ¬ HasLoneReturn cursor.rest count) :
    cursor.feedBy count = cursor.advanceAnyBy count := by
  induction count generalizing cursor with
  | zero => rfl
  | succ count ih =>
    obtain ⟨rest, offset, line, column⟩ := cursor
    cases rest with
    | nil => exact ih fun ⟨_, _, isReturn, _⟩ => by cases isReturn
    | cons c rest =>
      rw [hasLoneReturn_cons, not_or] at plain
      have same : (⟨c :: rest, offset, line, column⟩ : Cursor).feed =
          (⟨c :: rest, offset, line, column⟩ : Cursor).advanceAny := by
        simp only [feed, advanceAny, plain.1, or_false]
      rw [feedBy, advanceAnyBy, same]
      refine ih ?_
      rw [advanceAny_rest]
      exact plain.2

theorem line_feedBy {cursor behind : Cursor} {count : Nat} (same : behind.rest = cursor.rest)
    (bound : count ≤ cursor.rest.length)
    (before : behind.line < cursor.line ∨
      behind.line = cursor.line ∧ HasLoneReturn cursor.rest count) :
    (behind.feedBy count).line < (cursor.advanceAnyBy count).line := by
  induction count generalizing cursor behind with
  | zero =>
    rcases before with less | ⟨-, index, inside, -⟩
    · exact less
    · cases inside
  | succ count ih =>
    obtain ⟨rest, offset, line, column⟩ := cursor
    obtain ⟨rest', offset', line', column'⟩ := behind
    obtain rfl : rest' = rest := same
    cases rest' with
    | nil => cases bound
    | cons c rest =>
      have bound : count ≤ rest.length := Nat.le_of_succ_le_succ bound
      simp only [hasLoneReturn_cons] at before
      rw [feedBy, advanceAnyBy]
      by_cases feeds : c = '\n'
      · have other : c ≠ '\r' := by
          rintro rfl
          cases feeds
        simp only [feed, advanceAny, feeds, if_true, true_or]
        refine ih rfl bound ?_
        simpa [other] using before
      · simp only [feed, advanceAny, feeds, if_false, false_or]
        split
        · refine ih rfl bound (.inl ?_)
          simp only at before ⊢
          omega
        · next joined =>
          refine ih rfl bound ?_
          simpa [joined] using before

end Cursor

namespace Highlight

theorem lineStartsAfter_gt (offset : Nat) (text : List Char) :
    ∀ start ∈ lineStartsAfter offset text, offset < start := by
  induction text generalizing offset with
  | nil => exact nofun
  | cons c text ih =>
    have later : ∀ start ∈ lineStartsAfter (offset + 1) text, offset < start :=
      fun start member => Nat.lt_of_succ_lt (ih (offset + 1) start member)
    rw [lineStartsAfter]
    split
    · exact List.forall_mem_cons.mpr ⟨Nat.lt_succ_self offset, later⟩
    · exact later

/-- The lines that start up to a place, from the one that starts at `base` on, tell the line and the
column that counting by line feeds gets to. -/
theorem lineStarts_feedBy {base offset line count : Nat} {text : List Char}
    (begun : base ≤ offset) (bound : count ≤ text.length) :
    let before := (base :: lineStartsAfter offset text).takeWhile (· ≤ offset + count)
    let reached := (⟨text, offset, line, offset - base + 1⟩ : Cursor).feedBy count
    reached.line + 1 = line + before.length ∧
      reached.column = offset + count - before.getLastD 0 + 1 := by
  induction count generalizing base offset line text with
  | zero =>
    have none : (lineStartsAfter offset text).takeWhile (· ≤ offset) = [] := by
      cases shape : lineStartsAfter offset text with
      | nil => rfl
      | cons start starts =>
        have past := lineStartsAfter_gt offset text start (by rw [shape]; exact List.mem_cons_self)
        rw [List.takeWhile_cons_of_neg (by simpa using past)]
    simp [begun, none, Cursor.feedBy]
  | succ count ih =>
    cases text with
    | nil => cases bound
    | cons c text =>
      have bound : count ≤ text.length := Nat.le_of_succ_le_succ bound
      have far : offset + (count + 1) = offset + 1 + count := by omega
      have here : base ≤ offset + 1 + count := by omega
      rw [far, Cursor.feedBy]
      by_cases feeds : c = '\n'
      · have next := @ih (offset + 1) (offset + 1) (line + 1) text (Nat.le_refl _) bound
        have within : offset + 1 ≤ offset + 1 + count := Nat.le_add_right _ _
        simp only [Nat.sub_self, Nat.zero_add, within, List.takeWhile_cons, decide_true, if_true,
          List.length_cons, List.getLastD_cons] at next
        simp only [Cursor.feed, feeds, lineStartsAfter, if_true, List.takeWhile_cons, here, within,
          decide_true, List.length_cons, List.getLastD_cons, next.2, and_true]
        omega
      · have next := @ih base (offset + 1) line text (Nat.le_succ_of_le begun) bound
        have column : offset + 1 - base + 1 = offset - base + 1 + 1 := by omega
        rw [column] at next
        simpa only [Cursor.feed, feeds, lineStartsAfter, if_false] using next

theorem place_range {source : List Char} {start : Nat} (inside : start ≤ source.length) (stop : Nat)
    (group : Group) : let reached := (Cursor.ofText source).feedBy start
    (range (lineStarts source) start stop group).line = reached.line ∧
      (range (lineStarts source) start stop group).column = reached.column := by
  have counted := @lineStarts_feedBy 0 0 1 start source (Nat.le_refl 0) inside
  simp only [Nat.zero_add, Nat.sub_zero] at counted
  refine ⟨?_, counted.2.symm⟩
  have line := counted.1
  simp only [range, lineStarts, Cursor.ofText]
  omega

/-- Where a span that a lexer has placed starts, colouring finds the same line and column, unless a
lone carriage return stands before it. -/
theorem place_agrees {source : List Char} {span : Span} (placed : span.IsPlaced source)
    (inside : span.start ≤ source.length) (stop : Nat) (group : Group) :
    ((range (lineStarts source) span.start stop group).line = span.line ∧
      (range (lineStarts source) span.start stop group).column = span.column) ↔
      ¬ HasLoneReturn source span.start := by
  obtain ⟨line, column⟩ := place_range inside stop group
  rw [line, column, placed.1, placed.2]
  constructor
  · rintro ⟨sameLine, -⟩ lone
    have behind := @Cursor.line_feedBy (.ofText source) (.ofText source) span.start rfl inside
      (.inr ⟨rfl, lone⟩)
    exact Nat.ne_of_lt behind sameLine
  · intro plain
    have same := @Cursor.feedBy_eq_advanceAnyBy (.ofText source) span.start plain
    rw [same]
    exact ⟨rfl, rfl⟩

theorem mem_ranges [NestingLimit] {source : String} {found : Range}
    (member : found ∈ ranges source) :
    ∃ start stop group, found = range (lineStarts source.toList) start stop group := by
  obtain ⟨colored, -, rfl, isRanges⟩ := ranges?_eq source
  rw [isRanges] at member
  obtain ⟨⟨token, role⟩, -, own⟩ := List.mem_flatMap.mp member
  have comments {trivia : List Trivia}
      (listed : found ∈ commentRanges (lineStarts source.toList) trivia) :
      ∃ start stop group, found = range (lineStarts source.toList) start stop group := by
    obtain ⟨comment, -, rfl⟩ := List.mem_map.mp listed
    exact ⟨_, _, _, rfl⟩
  rw [tokenRanges, List.mem_append, List.mem_append] at own
  rcases own with (leading | itself) | trailing
  · exact comments leading
  · split at itself
    · split at itself
      · exact ⟨_, _, _, List.mem_singleton.mp itself⟩
      · cases itself
    · cases itself
  · exact comments trailing

/-- A token that is neither punctuation nor the end has a range. The range that starts where the token
does tells the line and the column that the token has if and only if no carriage return without a line
feed behind it stands before the token. -/
theorem ranges_placed [NestingLimit] (source : String) (token : Token)
    (member : token ∈ (tokenize source).tokens)
    (shown : token.kind.isPunctuation = false ∧ token.kind ≠ .endOfInput) :
    (∃ found ∈ ranges source, found.start = token.span.start ∧ found.stop = token.span.stop) ∧
    ∀ found ∈ ranges source, found.start = token.span.start →
      ((found.line = token.span.line ∧ found.column = token.span.column) ↔
        ¬ HasLoneReturn source.toList token.span.start) := by
  have isShown : token.isShown := by simp [Token.isShown, shown]
  constructor
  · have listed : (⟨token.span.start, token.span.stop, false⟩ : Extent) ∈
        (ranges source).map (·.extent) := by
      rw [extents_ranges]
      exact List.mem_flatMap.mpr ⟨token, member, by simp [tokenExtents, isShown]⟩
    obtain ⟨found, own, same⟩ := List.mem_map.mp listed
    obtain ⟨starts, stops, -⟩ := Extent.mk.inj same
    exact ⟨found, own, starts, stops⟩
  · intro found own starts
    have within : found.start ≤ source.toList.length := by
      rw [String.length_toList]
      exact Nat.le_trans (Nat.le_add_right _ _) (ranges_within source found own)
    obtain ⟨start, stop, group, rfl⟩ := mem_ranges own
    obtain rfl : start = token.span.start := starts
    exact place_agrees (isPlaced_tokenize source member) within stop group

theorem ranges_placed_return :
    (⟨⟨.identifier, "b"⟩, ⟨3, 4, 2, 2⟩, [⟨.newline, "\r", 1⟩, ⟨.whitespace, " ", 2⟩], []⟩ : Token) ∈
      (tokenize "a\r b").tokens ∧
    (⟨3, 1, 1, 4, .variable⟩ : Range) ∈ ranges "a\r b" ∧
    HasLoneReturn "a\r b".toList 3 := by
  have member : (⟨⟨.identifier, "b"⟩, ⟨3, 4, 2, 2⟩,
      [⟨.newline, "\r", 1⟩, ⟨.whitespace, " ", 2⟩], []⟩ : Token) ∈ (tokenize "a\r b").tokens := by
    decide +kernel
  have own : (⟨3, 1, 1, 4, .variable⟩ : Range) ∈ ranges "a\r b" := by decide +kernel
  have placed := (ranges_placed "a\r b" _ member ⟨rfl, by decide⟩).2 _ own rfl
  exact ⟨member, own, Classical.not_not.mp fun plain => absurd (placed.mpr plain) (by decide)⟩

end Highlight

end Squirrel
