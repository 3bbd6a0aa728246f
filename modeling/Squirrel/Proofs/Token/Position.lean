import Mathlib.Logic.Basic
import Squirrel.Proofs.Token.Faults
import Squirrel.Proofs.Token.Place

/-! Lines and columns of tokens and of faults, by the line breaks before them. -/

namespace Squirrel

/-- Whether a line break ends at a place: a line feed, also one after a carriage return, or a
carriage return that no line feed follows. -/
def endsLine (text : List Char) : Nat → Bool
  | 0 => false
  | place + 1 => text[place]? = some '\n' || text[place]? = some '\r' && text[place + 1]? ≠ some '\n'

def lineEnds (text : List Char) (place : Nat) : List Nat :=
  (List.range (place + 1)).filter (endsLine text)

/-- Where the line of a place starts: at the last line break, or at the start of the text. -/
def lineStart (text : List Char) (place : Nat) : Nat := (lineEnds text place).getLast?.getD 0

/-- A span has the line and the column of its start. Both count from one. -/
structure Span.IsCounted (text : List Char) (span : Span) : Prop where
  line : span.line = 1 + (lineEnds text span.start).length
  column : span.column = 1 + (span.start - lineStart text span.start)

section Counting

variable {text : List Char} {place : Nat}

theorem lineEnds_succ (text : List Char) (place : Nat) :
    lineEnds text (place + 1) =
      lineEnds text place ++ if endsLine text (place + 1) then [place + 1] else [] := by
  rw [lineEnds, List.range_succ, List.filter_append, List.filter_cons, List.filter_nil, lineEnds]

theorem lineStart_le (text : List Char) (place : Nat) : lineStart text place ≤ place := by
  unfold lineStart
  cases last : (lineEnds text place).getLast? with
  | none => exact Nat.zero_le _
  | some found =>
    have listed := (List.mem_filter.mp (List.mem_of_getLast? last)).1
    exact Nat.le_of_lt_succ (List.mem_range.mp listed)

theorem lineStart_succ (text : List Char) (place : Nat) :
    lineStart text (place + 1) =
      if endsLine text (place + 1) then place + 1 else lineStart text place := by
  rw [lineStart, lineEnds_succ]
  split
  · rw [List.getLast?_concat, Option.getD_some]
  · rw [List.append_nil, lineStart]

theorem after_succ (inside : place < text.length) :
    Cursor.after text (place + 1) =
      if endsLine text (place + 1) then
        ⟨text.drop (place + 1), (Cursor.after text place).offset + 1,
          (Cursor.after text place).line + 1, 1⟩
      else ⟨text.drop (place + 1), (Cursor.after text place).offset + 1,
        (Cursor.after text place).line, (Cursor.after text place).column + 1⟩ := by
  have rest : (Cursor.after text place).rest = text[place] :: text.drop (place + 1) := by
    rw [Cursor.after, Cursor.advanceAnyBy_rest, ← List.drop_eq_getElem_cons inside]
    rfl
  have ends : endsLine text (place + 1) ↔ text[place] = '\n' ∨
      text[place] = '\r' ∧ (text.drop (place + 1)).head? ≠ some '\n' := by
    simp [endsLine, List.getElem?_eq_getElem inside, List.head?_drop]
  rw [Cursor.after, Cursor.advanceAnyBy_add, ← Cursor.after, Cursor.advanceAnyBy,
    Cursor.advanceAnyBy, Cursor.advanceAny, rest]
  exact if_congr ends.symm rfl rfl

theorem after_counts (bound : place ≤ text.length) :
    (Cursor.after text place).line = 1 + (lineEnds text place).length ∧
      (Cursor.after text place).column = 1 + (place - lineStart text place) := by
  induction place with
  | zero => exact ⟨rfl, rfl⟩
  | succ place ih =>
    obtain ⟨line, column⟩ := ih (Nat.le_of_succ_le bound)
    have before := lineStart_le text place
    rw [after_succ bound, lineEnds_succ, lineStart_succ, List.length_append]
    split
    · exact ⟨by rw [line]; rfl, by rw [Nat.sub_self]⟩
    · refine ⟨line, ?_⟩
      dsimp only
      omega

end Counting

structure Span.StartsAt (span : Span) (cursor : Cursor) : Prop where
  start : span.start = cursor.offset
  line : span.line = cursor.line
  column : span.column = cursor.column

theorem Span.StartsAt.isCounted {source : List Char} {span : Span} {cursor : Cursor}
    (starts : span.StartsAt cursor) (strolls : (Cursor.ofText source).Strolls cursor) :
    span.IsCounted source := by
  obtain ⟨count, reads⟩ := strolls
  have offset : cursor.offset = count := by
    rw [reads.offset]
    exact Nat.zero_add count
  have bound : count ≤ source.length := reads.bound
  obtain ⟨line, column⟩ := after_counts bound
  rw [Cursor.after, ← reads.moves] at line column
  refine ⟨?_, ?_⟩
  · rw [starts.line, starts.start, offset]
    exact line
  · rw [starts.column, starts.start, offset]
    exact column

namespace Lexer

section Escapes

variable {lexer : Lexer} {source : List Char}

theorem place_of_mem_unknownEscapes {text : List Char} {place : Nat} {entry : Nat × Char}
    (member : entry ∈ unknownEscapes place text) :
    place ≤ entry.1 ∧ entry.1 < place + text.length := by
  fun_induction unknownEscapes place text with
  | case1 place c rest isEscape ih => grind
  | case2 place c rest unknown ih => grind
  | case3 place c rest other ih => grind
  | case4 place => cases member

theorem startsAt_advance (start : Cursor) {count stop : Nat} (bound : count ≤ start.rest.length)
    (inLine : Cursor.InLine (start.rest.take count)) :
    ∃ cursor, start.Strolls cursor ∧
      (⟨start.offset + count, stop, start.line, start.column + count⟩ : Span).StartsAt cursor := by
  have passed : (start.rest.take count).length = count := List.length_take_of_le bound
  refine ⟨start.advance count, ⟨count, Cursor.reads_advance bound inLine⟩, ?_, rfl, ?_⟩
  · rw [Cursor.advance, passed]
  · rw [Cursor.advance, passed]

theorem escapes_scanQuoted {quote : Char} {rest : List Char} {kind : Kind} {fault : LexFault}
    (inLine : Cursor.isLineBreak quote = false) (unread : lexer.cursor.rest = quote :: rest)
    (malformed : fault.isEscape = false) {diagnostic : Diagnostic} (isEscape : diagnostic.IsEscape)
    (member : diagnostic ∈ (lexer.scanQuoted quote kind fault).diagnostics) :
    diagnostic ∈ lexer.diagnostics ∨
      ∃ cursor, lexer.cursor.Strolls cursor ∧ diagnostic.span.StartsAt cursor := by
  have opened : lexer.cursor.Strolls (lexer.cursor.advance 1) :=
    ⟨1, Cursor.reads_over [quote] unread (Cursor.inLine_cons inLine Cursor.inLine_nil)⟩
  -- both ways out report the escapes, and the second one a malformed literal after them
  have reported : diagnostic ∈ lexer.diagnostics ++
      (unknownEscapes 0 ((lexer.cursor.advance 1).rest.take
        (quotedLength quote (lexer.cursor.advance 1).rest))).map
        (fun entry => ⟨.lexical (.unknownEscape entry.2), .error,
          ⟨(lexer.cursor.advance 1).offset + entry.1, (lexer.cursor.advance 1).offset + entry.1 + 2,
            (lexer.cursor.advance 1).line, (lexer.cursor.advance 1).column + entry.1⟩⟩) := by
    unfold scanQuoted at member
    dsimp only at member
    split at member
    · rwa [diagnostics_emit, diagnostics_move, diagnostics_move, diagnostics_reported] at member
    · rw [emitErrorLine, emitError, diagnostics_emit, report, List.mem_append,
        List.mem_singleton] at member
      rcases member with earlier | rfl
      · rwa [diagnostics_move, diagnostics_move, diagnostics_reported] at earlier
      · obtain ⟨escaped, same⟩ := isEscape
        cases same
        cases malformed
  rcases List.mem_append.mp reported with earlier | new
  · exact .inl earlier
  · obtain ⟨entry, listed, rfl⟩ := List.mem_map.mp new
    have bound := quotedLength_le quote (lexer.cursor.advance 1).rest
    have inside := (place_of_mem_unknownEscapes listed).2
    rw [List.length_take_of_le bound, Nat.zero_add] at inside
    have before : entry.1 ≤ (lexer.cursor.advance 1).rest.length := by omega
    obtain ⟨cursor, strolls, starts⟩ := startsAt_advance (lexer.cursor.advance 1) before
      fun c member => inLine_quotedLength quote _ c
        (List.take_subset_take_left _ (Nat.le_of_lt inside) member)
    exact .inr ⟨cursor, opened.trans strolls, starts⟩

theorem Notes.mem_of_isEscape {next : Lexer} {sort : Reading} (noted : lexer.Notes next sort [])
    {diagnostic : Diagnostic} (isEscape : diagnostic.IsEscape)
    (member : diagnostic ∈ next.diagnostics) : diagnostic ∈ lexer.diagnostics := by
  obtain ⟨notes, faults, noted⟩ := noted
  obtain rfl : notes = [] := List.map_eq_nil_iff.mp faults
  rw [List.append_nil] at noted
  split at noted
  · obtain ⟨last, token, ⟨fault, same, malformed⟩, -, -, listed⟩ := noted
    rw [listed, List.mem_append, List.mem_singleton] at member
    rcases member with earlier | rfl
    · exact earlier
    · obtain ⟨escaped, isFault⟩ := isEscape
      cases same.symm.trans isFault
      cases malformed
  · rwa [noted] at member

end Escapes

section Runs

variable {lexer : Lexer} {source : List Char}

/-- A lexer has gone over its text one character after the other, past all escapes that it has
reported. -/
structure Charted (source : List Char) (lexer : Lexer) : Prop where
  cursor : (Cursor.ofText source).Strolls lexer.cursor
  escapes : ∀ diagnostic ∈ lexer.diagnostics, diagnostic.IsEscape →
    ∃ cursor, (Cursor.ofText source).Strolls cursor ∧ diagnostic.span.StartsAt cursor

theorem charted_ofText (source : List Char) : Charted source (ofText source) :=
  ⟨⟨0, .refl _⟩, fun _ member => nomatch member⟩

theorem Charted.scanPiece (charted : lexer.Charted source) (unread : lexer.cursor.rest ≠ []) :
    lexer.scanPiece.Charted source := by
  refine ⟨charted.cursor.trans ⟨_, (puts_scanPiece unread).reads⟩, fun diagnostic member isEscape => ?_⟩
  by_cases isQuote : lexer.cursor.rest.getD 0 '\x00' = '"' ∨ lexer.cursor.rest.getD 0 '\x00' = '\''
  · obtain ⟨kind, fault, -, malformed, scans, -⟩ := scanPiece_literal rfl isQuote
    obtain ⟨c, rest, shape⟩ := List.exists_cons_of_ne_nil unread
    rw [shape, List.getD_cons_zero] at isQuote scans
    have inLine : Cursor.isLineBreak c = false := by rcases isQuote with rfl | rfl <;> rfl
    have opens : lexer.setMark.cursor.rest = c :: rest := shape
    rw [scans] at member
    rcases escapes_scanQuoted inLine opens malformed isEscape member with
      earlier | ⟨cursor, strolls, starts⟩
    · exact charted.escapes diagnostic earlier isEscape
    · exact ⟨cursor, charted.cursor.trans strolls, starts⟩
  · have noted := notes_scanPiece lexer
    rw [escapesAt_plain (fun same => isQuote (.inl same)) fun same => isQuote (.inr same)] at noted
    exact charted.escapes diagnostic (noted.mem_of_isEscape isEscape member) isEscape

theorem Charted.scanPieces (charted : lexer.Charted source) : lexer.scanPieces.Charted source :=
  (scanPieces_keeps (fun _ unread charted => charted.scanPiece unread) charted).1

end Runs

end Lexer

theorem isCounted_token (source : String) {token : Token}
    (member : token ∈ (tokenize source).tokens) : token.span.IsCounted source.toList := by
  have inside := (tiles_tokenize source).within token.piece
    (List.mem_flatMap.mpr ⟨token, member, by simp [Token.pieces]⟩)
  have forward := ((tiles_tokenize source).cut token.piece
    (List.mem_flatMap.mpr ⟨token, member, by simp [Token.pieces]⟩)).1
  have bound : token.span.start ≤ source.toList.length := by
    rw [String.length_toList]
    exact Nat.le_trans forward inside.2
  obtain ⟨line, column⟩ := isPlaced_tokenize source member
  obtain ⟨lines, columns⟩ := after_counts bound
  exact ⟨line.trans lines, column.trans columns⟩

/-- Every token, and every fault of a spelling, has the line and the column that the line breaks
before its start give. -/
theorem tokenize_counted (source : String) :
    (∀ token ∈ (tokenize source).tokens, token.span.IsCounted source.toList) ∧
      ∀ diagnostic ∈ (tokenize source).diagnostics, diagnostic.span.IsCounted source.toList := by
  refine ⟨fun token member => isCounted_token source member, fun diagnostic member => ?_⟩
  rcases (tokenize_accounted source).2 diagnostic member with
    isEscape | ⟨-, token, own, -, same⟩
  · obtain ⟨cursor, strolls, starts⟩ :=
      (Lexer.charted_ofText source.toList).scanPieces.escapes diagnostic member isEscape
    exact starts.isCounted strolls
  · rw [same]
    exact isCounted_token source own

theorem tokenize_counted_escape :
    ∃ diagnostic ∈ (tokenize "a\r\r\n \"\\q\"").diagnostics,
      (diagnostic.span.line, diagnostic.span.column) = (3, 3) ∧
        diagnostic.span.IsCounted "a\r\r\n \"\\q\"".toList := by
  have found : ∃ diagnostic ∈ (tokenize "a\r\r\n \"\\q\"").diagnostics,
      (diagnostic.span.line, diagnostic.span.column) = (3, 3) := by decide +kernel
  obtain ⟨diagnostic, member, place⟩ := found
  exact ⟨diagnostic, member, place, (tokenize_counted "a\r\r\n \"\\q\"").2 diagnostic member⟩

end Squirrel
