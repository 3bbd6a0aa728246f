import Squirrel.Token.Lexer

/-! The tokens of a whole text. Each piece takes at least one character, so reading ends. -/

namespace Squirrel

namespace Lexer

@[simp] theorem cursor_setMark (lexer : Lexer) : lexer.setMark.cursor = lexer.cursor := rfl

@[simp] theorem cursor_move (lexer : Lexer) (step : Cursor → Cursor) :
    (lexer.move step).cursor = step lexer.cursor := rfl

@[simp] theorem cursor_report (lexer : Lexer) (fault : LexFault) (span : Span) :
    (lexer.report fault span).cursor = lexer.cursor := rfl

@[simp] theorem cursor_emit (lexer : Lexer) (kind : Kind) :
    (lexer.emit kind).cursor = lexer.cursor := rfl

@[simp] theorem cursor_emitError (lexer : Lexer) (fault : LexFault) :
    (lexer.emitError fault).cursor = lexer.cursor := rfl

@[simp] theorem cursor_emitErrorLine (lexer : Lexer) (fault : LexFault) :
    (lexer.emitErrorLine fault).cursor = lexer.cursor.advanceToLineEnd := rfl

@[simp] theorem cursor_addTrivia (lexer : Lexer) (kind : TriviaKind) :
    (lexer.addTrivia kind).cursor = lexer.cursor := by
  unfold addTrivia
  split <;> rfl

theorem rest_advanceToLineEnd_le (cursor : Cursor) :
    cursor.advanceToLineEnd.rest.length ≤ cursor.rest.length := by
  simp only [Cursor.advanceToLineEnd, Cursor.advanceWhile_rest]
  exact (List.dropWhile_sublist _).length_le

theorem dropWhile_length_lt {accept : Char → Bool} {c : Char} {rest : List Char}
    (accepted : accept c = true) : ((c :: rest).dropWhile accept).length < (c :: rest).length := by
  have shorter := (List.dropWhile_sublist accept (l := rest)).length_le
  simp [accepted]
  omega

theorem peek_zero {cursor : Cursor} {c : Char} {rest : List Char}
    (unread : cursor.rest = c :: rest) : cursor.peek 0 = c := by
  simp [Cursor.peek, unread]

theorem scanWhitespace_shorter {lexer : Lexer} {c : Char} {rest : List Char}
    (unread : lexer.cursor.rest = c :: rest) (space : isInlineSpace c = true) :
    lexer.scanWhitespace.cursor.rest.length < lexer.cursor.rest.length := by
  simp only [scanWhitespace, cursor_addTrivia, cursor_move, Cursor.advanceWhile_rest, unread]
  exact dropWhile_length_lt space

theorem scanNewline_shorter {lexer : Lexer} (unread : lexer.cursor.rest ≠ []) :
    lexer.scanNewline.cursor.rest.length < lexer.cursor.rest.length := by
  have positive := List.length_pos_iff.mpr unread
  simp only [scanNewline, cursor_addTrivia, Cursor.advance_rest, List.length_drop]
  split <;> omega

theorem scanLineComment_shorter {lexer : Lexer} {c : Char} {rest : List Char}
    (unread : lexer.cursor.rest = c :: rest) (inside : Cursor.isLineBreak c = false) :
    lexer.scanLineComment.cursor.rest.length < lexer.cursor.rest.length := by
  simp only [scanLineComment, cursor_addTrivia, cursor_move, Cursor.advanceToLineEnd,
    Cursor.advanceWhile_rest, unread]
  exact dropWhile_length_lt (by simp [inside])

theorem scanBlockComment_shorter {lexer : Lexer} (unread : lexer.cursor.rest ≠ []) :
    lexer.scanBlockComment.cursor.rest.length < lexer.cursor.rest.length := by
  have positive := List.length_pos_iff.mpr unread
  unfold scanBlockComment
  dsimp only
  split
  · simp only [cursor_addTrivia, cursor_move, Cursor.advance_rest, Cursor.advanceAnyBy_rest,
      List.length_drop]
    omega
  · refine Nat.lt_of_le_of_lt (rest_advanceToLineEnd_le _) ?_
    simp only [cursor_move, Cursor.advance_rest, Cursor.advanceAnyBy_rest, List.length_drop]
    omega

theorem cursor_reported {entries : List (Nat × Char)} {fault : Nat × Char → LexFault}
    {span : Nat × Char → Span} (lexer : Lexer) :
    (entries.foldl (fun lexer entry => lexer.report (fault entry) (span entry)) lexer).cursor =
      lexer.cursor := by
  induction entries generalizing lexer with
  | nil => rfl
  | cons entry entries ih => simp [ih]

theorem scanQuoted_shorter {lexer : Lexer} {quote : Char} {kind : Kind} {fault : LexFault}
    (unread : lexer.cursor.rest ≠ []) :
    (lexer.scanQuoted quote kind fault).cursor.rest.length < lexer.cursor.rest.length := by
  have positive := List.length_pos_iff.mpr unread
  unfold scanQuoted
  dsimp only
  split
  · simp only [cursor_emit, cursor_move, Cursor.advance_rest, cursor_reported, List.length_drop]
    omega
  · refine Nat.lt_of_le_of_lt (rest_advanceToLineEnd_le _) ?_
    simp only [cursor_move, Cursor.advance_rest, cursor_reported, List.length_drop]
    omega

theorem scanVerbatimString_shorter {lexer : Lexer} (unread : lexer.cursor.rest ≠ []) :
    lexer.scanVerbatimString.cursor.rest.length < lexer.cursor.rest.length := by
  have positive := List.length_pos_iff.mpr unread
  unfold scanVerbatimString
  dsimp only
  split
  · simp only [cursor_emit, cursor_move, Cursor.advance_rest, Cursor.advanceAnyBy_rest,
      List.length_drop]
    omega
  · refine Nat.lt_of_le_of_lt (rest_advanceToLineEnd_le _) ?_
    simp only [cursor_move, Cursor.advance_rest, Cursor.advanceAnyBy_rest, List.length_drop]
    omega

theorem scanHexadecimal_shorter {lexer : Lexer} (unread : lexer.cursor.rest ≠ []) :
    lexer.scanHexadecimal.cursor.rest.length < lexer.cursor.rest.length := by
  have positive := List.length_pos_iff.mpr unread
  unfold scanHexadecimal
  dsimp only
  split
  · have shorter := (List.dropWhile_sublist isHexDigit (l := lexer.cursor.rest.drop 2)).length_le
    simp only [List.length_drop] at shorter
    simp only [cursor_emit, cursor_move, Cursor.advance_rest, Cursor.advanceWhile_rest]
    omega
  · simp only [cursor_emitError, cursor_move, Cursor.advance_rest, List.length_drop]
    omega

theorem scanDecimal_shorter {lexer : Lexer} {c : Char} {rest : List Char}
    (unread : lexer.cursor.rest = c :: rest) (digit : isDigit c = true) :
    lexer.scanDecimal.cursor.rest.length < lexer.cursor.rest.length := by
  have whole : 0 < digitCount lexer.cursor.rest := by simp [digitCount, unread, digit]
  have positive : 0 < lexer.cursor.rest.length := by simp [unread]
  simp only [scanDecimal, cursor_emit, cursor_move, Cursor.advance_rest, List.length_drop]
  omega

theorem scanNumber_shorter {lexer : Lexer} {c : Char} {rest : List Char}
    (unread : lexer.cursor.rest = c :: rest) (digit : isDigit c = true) :
    lexer.scanNumber.cursor.rest.length < lexer.cursor.rest.length := by
  unfold scanNumber
  split
  · exact scanHexadecimal_shorter (by simp [unread])
  · exact scanDecimal_shorter unread digit

theorem isWordRest_of_isWordStart {c : Char} (start : isWordStart c = true) :
    isWordRest c = true := by
  simp only [isWordStart, isWordRest, Text.isLetterOrNumber, Bool.or_eq_true] at start ⊢
  rcases start with letter | underscore
  · exact .inl (.inl letter)
  · exact .inr underscore

theorem scanWord_shorter {lexer : Lexer} {c : Char} {rest : List Char}
    (unread : lexer.cursor.rest = c :: rest) (start : isWordStart c = true) :
    lexer.scanWord.cursor.rest.length < lexer.cursor.rest.length := by
  simp only [scanWord, cursor_emit, cursor_move, Cursor.advanceWhile_rest, unread]
  exact dropWhile_length_lt (isWordRest_of_isWordStart start)

theorem operators_nonempty : ∀ entry ∈ Kind.operators, 0 < entry.1.length := by decide

theorem scanOperator_shorter {lexer : Lexer} (unread : lexer.cursor.rest ≠ []) :
    lexer.scanOperator.cursor.rest.length < lexer.cursor.rest.length := by
  have positive := List.length_pos_iff.mpr unread
  unfold scanOperator
  split
  · next text kind found =>
    have nonempty : 0 < text.length :=
      operators_nonempty (text, kind) (List.mem_of_find?_eq_some found)
    simp only [cursor_emit, cursor_move, Cursor.advance_rest, List.length_drop]
    omega
  · simp only [cursor_emitError, cursor_move, Cursor.advance_rest, List.length_drop]
    omega

theorem scanPiece_shorter {lexer : Lexer} (unread : lexer.cursor.rest ≠ []) :
    lexer.scanPiece.cursor.rest.length < lexer.cursor.rest.length := by
  obtain ⟨c, rest, shape⟩ := List.exists_cons_of_ne_nil unread
  have first : lexer.setMark.cursor.peek 0 = c := peek_zero shape
  unfold scanPiece
  simp only [first]
  split
  · next space => exact scanWhitespace_shorter shape space
  split
  · exact scanNewline_shorter unread
  split
  · next inside _ => exact scanLineComment_shorter shape (by simpa using inside)
  split
  · exact scanBlockComment_shorter unread
  split
  · exact scanQuoted_shorter unread
  split
  · exact scanVerbatimString_shorter unread
  split
  · exact scanQuoted_shorter unread
  split
  · next digit => exact scanNumber_shorter shape digit
  split
  · next start => exact scanWord_shorter shape start
  · exact scanOperator_shorter unread

def scanPieces (lexer : Lexer) : Lexer :=
  if lexer.cursor.rest = [] then lexer else lexer.scanPiece.scanPieces
termination_by lexer.cursor.rest.length
decreasing_by exact scanPiece_shorter ‹_›

/-- Reads the whole text and closes it with an end token. -/
def scanText (lexer : Lexer) : Lexer :=
  lexer.scanPieces.setMark.emitAs .endOfInput ""

end Lexer

structure Tokenized where
  tokens : List Token
  diagnostics : List Diagnostic

def tokenize (source : String) : Tokenized :=
  let lexer := (Lexer.ofText source.toList).scanText
  ⟨lexer.tokens, lexer.diagnostics⟩

end Squirrel
