import Squirrel.Token.Tokenize

/-! What the front of a text reads as. One step of a lexer depends on nothing else, so facts about
the tokens of a text are facts about its readings. -/

namespace Squirrel

namespace Cursor

/-- From `start` to `stop` there are `count` characters, gone over one after the other. -/
structure Reads (start stop : Cursor) (count : Nat) : Prop where
  bound : count ≤ start.rest.length
  moves : stop = start.advanceAnyBy count

section Reads

variable {cursor start middle stop : Cursor} {count : Nat}

theorem advanceAnyBy_add (cursor : Cursor) (first second : Nat) :
    cursor.advanceAnyBy (first + second) = (cursor.advanceAnyBy first).advanceAnyBy second := by
  induction first generalizing cursor with
  | zero => rw [Nat.zero_add, advanceAnyBy]
  | succ first ih => rw [Nat.succ_add, advanceAnyBy, advanceAnyBy, ih]

theorem Reads.refl (cursor : Cursor) : cursor.Reads cursor 0 := ⟨Nat.zero_le _, rfl⟩

theorem Reads.rest (reads : start.Reads stop count) : stop.rest = start.rest.drop count := by
  rw [reads.moves, advanceAnyBy_rest]

theorem offset_advanceAny (unread : cursor.rest ≠ []) :
    cursor.advanceAny.offset = cursor.offset + 1 := by
  unfold advanceAny
  split
  · contradiction
  · split <;> rfl

theorem Reads.offset (reads : start.Reads stop count) : stop.offset = start.offset + count := by
  obtain ⟨bound, rfl⟩ := reads
  induction count generalizing start with
  | zero => rfl
  | succ count ih =>
    have unread : start.rest ≠ [] := by
      intro empty
      simp [empty] at bound
    have left : count ≤ start.advanceAny.rest.length := by
      rw [advanceAny_rest, List.length_drop]
      omega
    rw [advanceAnyBy, ih left, offset_advanceAny unread]
    omega

theorem Reads.trans {first second : Nat} (front : start.Reads middle first)
    (back : middle.Reads stop second) : start.Reads stop (first + second) := by
  obtain ⟨near, rfl⟩ := front
  obtain ⟨far, rfl⟩ := back
  rw [advanceAnyBy_rest, List.length_drop] at far
  exact ⟨by omega, (advanceAnyBy_add start first second).symm⟩

theorem reads_advanceAnyBy (bound : count ≤ cursor.rest.length) :
    cursor.Reads (cursor.advanceAnyBy count) count :=
  ⟨bound, rfl⟩

def InLine (text : List Char) : Prop := ∀ c ∈ text, isLineBreak c = false

theorem inLine_takeWhile (accept : Char → Bool) (text : List Char) (feed : accept '\n' = false)
    (carriage : accept '\r' = false) : InLine (text.takeWhile accept) := by
  intro c member
  have accepted := List.all_eq_true.mp List.all_takeWhile c member
  rw [isLineBreak, Bool.or_eq_false_iff, decide_eq_false_iff_not, decide_eq_false_iff_not]
  constructor
  · rintro rfl
    exact absurd accepted (by rw [feed]; exact Bool.false_ne_true)
  · rintro rfl
    exact absurd accepted (by rw [carriage]; exact Bool.false_ne_true)

theorem inLine_nil : InLine [] := fun _ member => nomatch member

theorem inLine_cons {c : Char} {text : List Char} (first : isLineBreak c = false)
    (others : InLine text) : InLine (c :: text) :=
  List.forall_mem_cons.mpr ⟨first, others⟩

theorem take_length_takeWhile (accept : Char → Bool) (text : List Char) :
    text.take (text.takeWhile accept).length = text.takeWhile accept :=
  (List.prefix_iff_eq_take.mp (List.takeWhile_prefix accept)).symm

theorem advance_eq_advanceAnyBy (bound : count ≤ cursor.rest.length)
    (inLine : InLine (cursor.rest.take count)) :
    cursor.advance count = cursor.advanceAnyBy count := by
  induction count generalizing cursor with
  | zero => simp [advance, advanceAnyBy]
  | succ count ih =>
    obtain ⟨rest, offset, line, column⟩ := cursor
    cases rest with
    | nil => simp at bound
    | cons c rest =>
      rw [List.take_succ_cons] at inLine
      have first := inLine c (by simp)
      simp only [isLineBreak, Bool.or_eq_false_iff, decide_eq_false_iff_not] at first
      have bound : count ≤ rest.length := by simpa using bound
      have others := @ih ⟨rest, offset + 1, line, column + 1⟩ bound
        fun other member => inLine other (List.mem_cons_of_mem _ member)
      rw [advanceAnyBy, advanceAny]
      simp only [first, false_and, or_false, if_false]
      rw [← others]
      simp only [advance, List.take_succ_cons, List.length_cons, List.length_take_of_le bound,
        List.drop_succ_cons, Cursor.mk.injEq, true_and]
      omega

theorem reads_advance (bound : count ≤ cursor.rest.length)
    (inLine : InLine (cursor.rest.take count)) : cursor.Reads (cursor.advance count) count :=
  ⟨bound, advance_eq_advanceAnyBy bound inLine⟩

theorem reads_advanceWhile (cursor : Cursor) {accept : Char → Bool} (feed : accept '\n' = false)
    (carriage : accept '\r' = false) :
    cursor.Reads (cursor.advanceWhile accept) (cursor.rest.takeWhile accept).length := by
  refine reads_advance (List.takeWhile_prefix accept).length_le ?_
  rw [take_length_takeWhile]
  exact inLine_takeWhile accept cursor.rest feed carriage

theorem reads_over (shown : List Char) {rest : List Char} (unread : cursor.rest = shown ++ rest)
    (inLine : InLine shown) : cursor.Reads (cursor.advance shown.length) shown.length := by
  refine reads_advance (by simp [unread]) ?_
  rw [unread, List.take_left]
  exact inLine

theorem reads_closed (mark : List Char) {length : Nat} {rest : List Char}
    (bound : length ≤ cursor.rest.length) (closes : cursor.rest.drop length = mark ++ rest)
    (inLine : InLine mark) :
    cursor.Reads ((cursor.advanceAnyBy length).advance mark.length) (length + mark.length) :=
  (reads_advanceAnyBy bound).trans
    (reads_over mark (by rw [advanceAnyBy_rest, closes]) inLine)

end Reads

end Cursor

inductive Reading where
  | trivia (kind : TriviaKind)
  | token (kind : Kind)
  deriving DecidableEq, Repr

namespace Lexer

open Cursor (InLine inLine_nil inLine_cons)

def lineLength (text : List Char) : Nat := (text.takeWhile (!Cursor.isLineBreak ·)).length

def newlineLength (text : List Char) : Nat :=
  if text.getD 0 '\x00' = '\r' ∧ text.getD 1 '\x00' = '\n' then 2 else 1

def blockCommentReading (text : List Char) : Reading × Nat :=
  match commentLength? (text.drop 2) with
  | some length => (.trivia .blockComment, length + 4)
  | none => (.token .error, text.length)

def quotedReading (quote : Char) (kind : Kind) (text : List Char) : Reading × Nat :=
  let inner := text.drop 1
  let after := inner.drop (quotedLength quote inner)
  if after.head? = some quote then (.token kind, quotedLength quote inner + 2)
  else (.token .error, quotedLength quote inner + 1 + lineLength after)

def verbatimReading (text : List Char) : Reading × Nat :=
  match verbatimLength? (text.drop 2) with
  | some length => (.token .verbatimString, length + 3)
  | none => (.token .error, text.length)

def hexadecimalReading (text : List Char) : Reading × Nat :=
  let digits := text.drop 2
  if digits.head?.any isHexDigit then
    (.token .integer, (digits.takeWhile isHexDigit).length + 2)
  else (.token .error, 2)

def decimalReading (text : List Char) : Reading × Nat :=
  let whole := digitCount text
  let fraction := fractionLength (text.drop whole)
  let exponent := exponentLength (text.drop (whole + fraction))
  (.token (if fraction = 0 ∧ exponent = 0 then .integer else .float), whole + fraction + exponent)

def numberReading (text : List Char) : Reading × Nat :=
  if text.getD 0 '\x00' = '0' ∧ (text.getD 1 '\x00' = 'x' ∨ text.getD 1 '\x00' = 'X') then
    hexadecimalReading text
  else decimalReading text

def wordReading (text : List Char) : Reading × Nat :=
  let word := text.takeWhile isWordRest
  (.token (wordKind (String.ofList word)), word.length)

def operatorReading (text : List Char) : Reading × Nat :=
  match operatorAt? text with
  | some (spelling, kind) => (.token kind, spelling.length)
  | none => (.token .error, 1)

def reading (text : List Char) : Reading × Nat :=
  let first := text.getD 0 '\x00'
  let second := text.getD 1 '\x00'
  if isInlineSpace first then (.trivia .whitespace, (text.takeWhile isInlineSpace).length)
  else if Cursor.isLineBreak first then (.trivia .newline, newlineLength text)
  else if first = '#' ∨ first = '/' ∧ second = '/' then (.trivia .lineComment, lineLength text)
  else if first = '/' ∧ second = '*' then blockCommentReading text
  else if first = '"' then quotedReading '"' .string text
  else if first = '@' ∧ second = '"' then verbatimReading text
  else if first = '\'' then quotedReading '\'' .character text
  else if isDigit first then numberReading text
  else if isWordStart first then wordReading text
  else operatorReading text

theorem wordKind_cases (text : String) :
    wordKind text = .identifier ∨ ∃ entry ∈ Kind.keywords, entry.2 = wordKind text := by
  unfold wordKind
  cases found : Kind.keywords.lookup text with
  | none => exact .inl rfl
  | some kind =>
    obtain ⟨before, after, listed, -⟩ := List.lookup_eq_some_iff.mp found
    exact .inr ⟨(text, kind), by simp [listed], rfl⟩

theorem kind_of_reading {text : List Char} {kind : Kind} (reads : (reading text).1 = .token kind) :
    kind = .error ∨ kind.isLiteral ∨ kind = .identifier ∨ (∃ entry ∈ Kind.keywords, entry.2 = kind) ∨
      ∃ spelling, operatorAt? text = some (spelling, kind) := by
  unfold reading at reads
  dsimp only at reads
  iterate 3
    split at reads
    · cases reads
  split at reads
  · unfold blockCommentReading at reads
    split at reads <;> cases reads
    simp
  split at reads
  · unfold quotedReading at reads
    dsimp only at reads
    split at reads <;> cases reads <;> simp [Kind.isLiteral]
  split at reads
  · unfold verbatimReading at reads
    split at reads <;> cases reads <;> simp [Kind.isLiteral]
  split at reads
  · unfold quotedReading at reads
    dsimp only at reads
    split at reads <;> cases reads <;> simp [Kind.isLiteral]
  split at reads
  · unfold numberReading hexadecimalReading decimalReading at reads
    dsimp only at reads
    split at reads <;> split at reads <;> cases reads <;> simp [Kind.isLiteral]
  split at reads
  · cases reads
    exact .inr (.inr ((wordKind_cases _).imp_right .inl))
  · unfold operatorReading at reads
    split at reads <;> cases reads
    · next spelling found => exact .inr (.inr (.inr (.inr ⟨spelling, found⟩)))
    · exact .inl rfl

theorem quotedLength_le (quote : Char) (text : List Char) :
    quotedLength quote text ≤ text.length := by
  fun_induction quotedLength quote text <;> grind

theorem commentLength?_le {text : List Char} {length : Nat}
    (closed : commentLength? text = some length) : length + 2 ≤ text.length := by
  fun_induction commentLength? text generalizing length with
  | case1 => cases closed
  | case2 rest =>
    cases closed
    simp
  | case3 c rest open_ ih =>
    obtain ⟨inner, found, rfl⟩ := Option.map_eq_some_iff.mp closed
    have shorter := ih found
    rw [List.length_cons]
    omega

theorem verbatimLength?_le {text : List Char} {length : Nat}
    (closed : verbatimLength? text = some length) : length + 1 ≤ text.length := by
  fun_induction verbatimLength? text generalizing length with
  | case1 => cases closed
  | case2 rest ih =>
    obtain ⟨inner, found, rfl⟩ := Option.map_eq_some_iff.mp closed
    have shorter := ih found
    simp only [List.length_cons]
    omega
  | case3 rest single =>
    cases closed
    simp
  | case4 c rest doubled other ih =>
    obtain ⟨inner, found, rfl⟩ := Option.map_eq_some_iff.mp closed
    have shorter := ih found
    rw [List.length_cons]
    omega

theorem digitCount_le (text : List Char) : digitCount text ≤ text.length :=
  (List.takeWhile_sublist isDigit).length_le

theorem fractionLength_le (text : List Char) : fractionLength text ≤ text.length := by
  fun_cases fractionLength text <;> grind [digitCount_le]

theorem exponentLength_le (text : List Char) : exponentLength text ≤ text.length := by
  fun_cases exponentLength text <;> grind [digitCount_le]

theorem operatorAt?_le {text : List Char} {entry : String × Kind}
    (found : operatorAt? text = some entry) : entry.1.length ≤ text.length := by
  have starts := List.find?_some found
  have spelled := (List.isPrefixOf_iff_prefix.mp starts).length_le
  rwa [String.length_toList] at spelled

theorem inLine_quotedLength (quote : Char) (text : List Char) :
    InLine (text.take (quotedLength quote text)) := by
  fun_induction quotedLength quote text with
  | case1 => simp [InLine]
  | case2 => simp [InLine, Cursor.isLineBreak]
  | case3 c rest isBreak => simp [InLine, Cursor.isLineBreak]
  | case4 c rest inside ih =>
    intro other member
    simp only [List.take_succ_cons, List.mem_cons] at member
    rcases member with rfl | rfl | later
    · rfl
    · simpa using inside
    · exact ih other later
  | case5 => simp [InLine]
  | case6 c rest _ _ inside ih =>
    intro other member
    simp only [List.take_succ_cons, List.mem_cons] at member
    rcases member with rfl | later
    · simp only [Bool.or_eq_true, not_or, Bool.not_eq_true] at inside
      exact inside.2
    · exact ih other later

theorem commentLength?_closes {text : List Char} {length : Nat}
    (found : commentLength? text = some length) :
    ∃ rest, text.drop length = '*' :: '/' :: rest := by
  fun_induction commentLength? text generalizing length with
  | case1 => cases found
  | case2 rest =>
    cases found
    exact ⟨rest, rfl⟩
  | case3 c rest _ ih =>
    obtain ⟨shorter, within, rfl⟩ := Option.map_eq_some_iff.mp found
    exact ih within

theorem verbatimLength?_closes {text : List Char} {length : Nat}
    (found : verbatimLength? text = some length) : ∃ rest, text.drop length = '"' :: rest := by
  fun_induction verbatimLength? text generalizing length with
  | case1 => cases found
  | case2 rest ih =>
    obtain ⟨shorter, within, rfl⟩ := Option.map_eq_some_iff.mp found
    exact ih within
  | case3 rest _ =>
    cases found
    exact ⟨rest, rfl⟩
  | case4 c rest _ _ ih =>
    obtain ⟨shorter, within, rfl⟩ := Option.map_eq_some_iff.mp found
    exact ih within

theorem inLine_digits (text : List Char) : InLine (text.take (digitCount text)) := by
  rw [digitCount, Cursor.take_length_takeWhile]
  exact Cursor.inLine_takeWhile isDigit text rfl rfl

theorem inLine_fraction (text : List Char) : InLine (text.take (fractionLength text)) := by
  fun_cases fractionLength text with
  | case1 rest _ =>
    rw [Nat.add_comm, List.take_succ_cons]
    exact inLine_cons rfl (inLine_digits rest)
  | case2 => exact inLine_nil
  | case3 => exact inLine_nil

theorem inLine_exponent (text : List Char) : InLine (text.take (exponentLength text)) := by
  fun_cases exponentLength text with
  | case1 mark rest isMark _ =>
    rw [Nat.add_comm, List.take_succ_cons]
    exact inLine_cons (by rcases isMark with rfl | rfl <;> rfl) (inLine_digits rest)
  | case2 mark isMark sign digits signed =>
    rw [Nat.add_comm, List.take_succ_cons, List.take_succ_cons]
    refine inLine_cons (by rcases isMark with rfl | rfl <;> rfl) (inLine_cons ?_ (inLine_digits _))
    rcases signed.1 with rfl | rfl <;> rfl
  | case3 => exact inLine_nil
  | case4 => exact inLine_nil
  | case5 => exact inLine_nil
  | case6 => exact inLine_nil

theorem operators_inLine : ∀ entry ∈ Kind.operators,
    entry.1.toList.all (!Cursor.isLineBreak ·) := by decide

/-- `moved` is `lexer` past a piece of `count` characters, which is still to be put somewhere. Of
the rest only a line break changes anything: no trivia after it go to the token before. -/
structure Past (lexer moved : Lexer) (reading : Reading) (count : Nat) : Prop where
  mark : moved.mark = lexer.cursor
  reads : lexer.cursor.Reads moved.cursor count
  produced : moved.produced = lexer.produced
  pending : moved.pending = lexer.pending
  collecting : moved.collecting = (lexer.collecting && reading ≠ .trivia .newline)

theorem Past.piece {lexer moved : Lexer} {reading : Reading} {count : Nat}
    (past : lexer.Past moved reading count) : moved.piece = lexer.cursor.rest.take count := by
  rw [Lexer.piece, past.mark, past.reads.offset, Nat.add_sub_cancel_left]

def place (lexer : Lexer) : Reading → Lexer
  | .trivia kind => lexer.addTrivia kind
  | .token kind => lexer.emit kind

/-- A step of a lexer puts a piece of this kind and length somewhere. -/
def Puts (lexer next : Lexer) (piece : Reading × Nat) : Prop :=
  ∃ moved, lexer.Past moved piece.1 piece.2 ∧ next = moved.place piece.1

section Steps

variable {lexer moved : Lexer} {sort : Reading}

theorem past_setMark (lexer : Lexer) (sort : Reading) (calm : sort ≠ .trivia .newline) :
    lexer.Past lexer.setMark sort 0 := by
  exact ⟨rfl, .refl _, rfl, rfl, by simp [calm, setMark]⟩

theorem Past.move {first second : Nat} (past : lexer.Past moved sort first)
    (step : Cursor → Cursor) (reads : moved.cursor.Reads (step moved.cursor) second) :
    lexer.Past (moved.move step) sort (first + second) :=
  ⟨past.mark, past.reads.trans reads, past.produced, past.pending, past.collecting⟩

theorem Past.report {count : Nat} (past : lexer.Past moved sort count) (fault : LexFault)
    (span : Span) : lexer.Past (moved.report fault span) sort count :=
  ⟨past.mark, past.reads, past.produced, past.pending, past.collecting⟩

theorem Past.reported {entries : List (Nat × Char)} {fault : Nat × Char → LexFault}
    {span : Nat × Char → Span} {count : Nat} (past : lexer.Past moved sort count) :
    lexer.Past (entries.foldl (fun lexer entry => lexer.report (fault entry) (span entry)) moved)
      sort count := by
  induction entries generalizing moved with
  | nil => exact past
  | cons entry entries ih => exact ih (past.report _ _)

theorem puts_ite {condition : Prop} {first second : Decidable condition} {left right : Lexer}
    {leftPiece rightPiece : Reading × Nat} (taken : condition → lexer.Puts left leftPiece)
    (passed : ¬ condition → lexer.Puts right rightPiece) :
    lexer.Puts (@ite _ condition first left right)
      (@ite _ condition second leftPiece rightPiece) := by
  by_cases holds : condition
  · rw [if_pos holds, if_pos holds]
    exact taken holds
  · rw [if_neg holds, if_neg holds]
    exact passed holds

theorem Past.puts {count : Nat} (past : lexer.Past moved sort count) :
    lexer.Puts (moved.place sort) (sort, count) :=
  ⟨moved, past, rfl⟩

theorem Past.puts_emitError {count : Nat} (past : lexer.Past moved (.token .error) count)
    (fault : LexFault) : lexer.Puts (moved.emitError fault) (.token .error, count) :=
  (past.report fault moved.pieceSpan).puts

theorem Past.puts_emitErrorLine {count : Nat} (past : lexer.Past moved (.token .error) count)
    (fault : LexFault) :
    lexer.Puts (moved.emitErrorLine fault)
      (.token .error, count + lineLength moved.cursor.rest) :=
  (past.move _ (Cursor.reads_advanceWhile _ rfl rfl)).puts_emitError fault

theorem puts_scanWhitespace (lexer : Lexer) :
    lexer.Puts lexer.setMark.scanWhitespace
      (.trivia .whitespace, (lexer.cursor.rest.takeWhile isInlineSpace).length) := by
  have past := (past_setMark lexer (.trivia .whitespace) (by simp)).move
    (·.advanceWhile isInlineSpace) (Cursor.reads_advanceWhile _ rfl rfl)
  rw [Nat.zero_add] at past
  exact past.puts

theorem reads_newline {cursor : Cursor} (isBreak : Cursor.isLineBreak (cursor.rest.getD 0 '\x00')) :
    cursor.Reads { cursor.advance (newlineLength cursor.rest) with
      line := cursor.line + 1, column := 1 } (newlineLength cursor.rest) := by
  obtain ⟨text, offset, line, column⟩ := cursor
  match text with
  | [] => cases isBreak
  | [c] =>
    have ends : c = '\n' ∨ c = '\r' := by simpa [Cursor.isLineBreak] using isBreak
    refine ⟨by simp [newlineLength], ?_⟩
    simp [newlineLength, Cursor.advance, Cursor.advanceAnyBy, Cursor.advanceAny, ends]
  | c :: d :: rest =>
    have ends : c = '\n' ∨ c = '\r' := by simpa [Cursor.isLineBreak] using isBreak
    by_cases pair : c = '\r' ∧ d = '\n'
    · obtain ⟨rfl, rfl⟩ := pair
      exact ⟨by simp [newlineLength],
        by simp [newlineLength, Cursor.advance, Cursor.advanceAnyBy, Cursor.advanceAny]⟩
    · have single : c = '\n' ∨ c = '\r' ∧ d ≠ '\n' := by
        rcases ends with rfl | rfl
        · exact .inl rfl
        · exact .inr ⟨rfl, fun feeds => pair ⟨rfl, feeds⟩⟩
      refine ⟨by simp [newlineLength, pair], ?_⟩
      simp [newlineLength, pair, Cursor.advance, Cursor.advanceAnyBy, Cursor.advanceAny, single]

theorem puts_scanNewline (isBreak : Cursor.isLineBreak (lexer.cursor.rest.getD 0 '\x00')) :
    lexer.Puts lexer.setMark.scanNewline
      (.trivia .newline, newlineLength lexer.cursor.rest) := by
  let broken : Lexer := { lexer.setMark with
    cursor := { lexer.cursor.advance (newlineLength lexer.cursor.rest) with
      line := lexer.cursor.line + 1, column := 1 }
    collecting := false }
  have beyond : lexer.Past broken (.trivia .newline) (newlineLength lexer.cursor.rest) :=
    ⟨rfl, reads_newline isBreak, rfl, rfl, by simp [broken]⟩
  exact beyond.puts

theorem puts_scanLineComment (lexer : Lexer) :
    lexer.Puts lexer.setMark.scanLineComment
      (.trivia .lineComment, lineLength lexer.cursor.rest) := by
  have past := (past_setMark lexer (.trivia .lineComment) (by simp)).move
    Cursor.advanceToLineEnd (Cursor.reads_advanceWhile _ rfl rfl)
  rw [Nat.zero_add] at past
  exact past.puts

theorem Past.puts_errorToEnd {count : Nat} (past : lexer.Past moved (.token .error) count)
    (fault : LexFault) :
    lexer.Puts ((moved.move fun cursor => cursor.advanceAnyBy cursor.rest.length).emitErrorLine
      fault) (.token .error, lexer.cursor.rest.length) := by
  have ended := past.move (fun cursor => cursor.advanceAnyBy cursor.rest.length)
    (Cursor.reads_advanceAnyBy (Nat.le_refl _))
  have puts := ended.puts_emitErrorLine fault
  have nothing : (moved.cursor.advanceAnyBy moved.cursor.rest.length).rest = [] := by simp
  have total : count + moved.cursor.rest.length = lexer.cursor.rest.length := by
    have bound := past.reads.bound
    rw [past.reads.rest, List.length_drop]
    omega
  rw [cursor_move, nothing, total] at puts
  exact puts

theorem past_opened (mark : List Char) {rest : List Char}
    (unread : lexer.cursor.rest = mark ++ rest) (inLine : InLine mark) (sort : Reading)
    (calm : sort ≠ .trivia .newline) :
    lexer.Past (lexer.setMark.move (·.advance mark.length)) sort mark.length := by
  have past := (past_setMark lexer sort calm).move (·.advance mark.length)
    (Cursor.reads_over mark unread inLine)
  rwa [Nat.zero_add] at past

theorem puts_scanBlockComment {rest : List Char} (unread : lexer.cursor.rest = '/' :: '*' :: rest) :
    lexer.Puts lexer.setMark.scanBlockComment (blockCommentReading lexer.cursor.rest) := by
  unfold scanBlockComment blockCommentReading
  simp only [cursor_move, cursor_setMark, Cursor.advance_rest]
  have opened := past_opened ['/', '*'] unread (inLine_cons rfl (inLine_cons rfl inLine_nil))
  cases closed : commentLength? (lexer.cursor.rest.drop 2) with
  | some length =>
    obtain ⟨_, closes⟩ := commentLength?_closes closed
    have bound := Nat.le_of_add_right_le (commentLength?_le closed)
    have past := (opened (.trivia .blockComment) (by simp)).move
      (fun cursor => (cursor.advanceAnyBy length).advance 2)
      (Cursor.reads_closed ['*', '/'] bound closes (inLine_cons rfl (inLine_cons rfl inLine_nil)))
    rw [show ['/', '*'].length + (length + ['*', '/'].length) = length + 4 by simp; omega] at past
    exact past.puts
  | none =>
    exact (opened (.token .error) (by simp)).puts_errorToEnd .unterminatedBlockComment

theorem puts_quotedEnd {text : List Char} (unread : lexer.cursor.rest = text)
    (opened : ∀ sort, sort ≠ .trivia .newline → lexer.Past moved sort 1) {quote : Char}
    (inLine : Cursor.isLineBreak quote = false) (kind : Kind) (unterminated : LexFault) :
    let body := moved.move (·.advance (quotedLength quote (text.drop 1)))
    lexer.Puts (if body.cursor.rest.head? = some quote then (body.move (·.advance 1)).emit kind
      else body.emitErrorLine unterminated) (quotedReading quote kind text) := by
  have inner : moved.cursor.rest = text.drop 1 := by
    rw [(opened (.token .error) (by simp)).reads.rest, unread]
  have inside : quotedLength quote (text.drop 1) ≤ moved.cursor.rest.length := by
    rw [inner]
    exact quotedLength_le quote _
  have body (sort : Reading) (calm : sort ≠ .trivia .newline) :=
    (opened sort calm).move (·.advance (quotedLength quote (text.drop 1)))
      (Cursor.reads_advance inside (by rw [inner]; exact inLine_quotedLength quote _))
  have after : (moved.cursor.advance (quotedLength quote (text.drop 1))).rest =
      (text.drop 1).drop (quotedLength quote (text.drop 1)) := by
    rw [Cursor.advance_rest, inner]
  simp only [quotedReading, cursor_move, after]
  refine puts_ite (fun closed => ?_) (fun _ => ?_)
  · obtain ⟨_, shape⟩ := List.head?_eq_some_iff.mp closed
    have past := (body (.token kind) (by simp)).move (·.advance 1)
      (Cursor.reads_over [quote] (after.trans shape) (inLine_cons inLine inLine_nil))
    dsimp only [List.length_singleton] at past
    rw [show 1 + quotedLength quote (text.drop 1) + 1 = quotedLength quote (text.drop 1) + 2
      by omega] at past
    exact past.puts
  · have puts := (body (.token .error) (by simp)).puts_emitErrorLine unterminated
    rw [cursor_move, after, Nat.add_comm 1] at puts
    exact puts

theorem puts_scanQuoted {quote : Char} {rest : List Char} (inLine : Cursor.isLineBreak quote = false)
    (unread : lexer.cursor.rest = quote :: rest) (kind : Kind) (unterminated : LexFault) :
    lexer.Puts (lexer.setMark.scanQuoted quote kind unterminated)
      (quotedReading quote kind lexer.cursor.rest) :=
  puts_quotedEnd rfl (fun sort calm =>
    (past_opened [quote] unread (inLine_cons inLine inLine_nil) sort calm).reported)
    inLine kind unterminated

theorem puts_scanVerbatimString {rest : List Char} (unread : lexer.cursor.rest = '@' :: '"' :: rest)
    : lexer.Puts lexer.setMark.scanVerbatimString (verbatimReading lexer.cursor.rest) := by
  unfold scanVerbatimString verbatimReading
  simp only [cursor_move, cursor_setMark, Cursor.advance_rest]
  have opened := past_opened ['@', '"'] unread (inLine_cons rfl (inLine_cons rfl inLine_nil))
  cases closed : verbatimLength? (lexer.cursor.rest.drop 2) with
  | some length =>
    obtain ⟨_, closes⟩ := verbatimLength?_closes closed
    have bound := Nat.le_of_add_right_le (verbatimLength?_le closed)
    have past := (opened (.token .verbatimString) (by simp)).move
      (fun cursor => (cursor.advanceAnyBy length).advance 1)
      (Cursor.reads_closed ['"'] bound closes (inLine_cons rfl inLine_nil))
    rw [show ['@', '"'].length + (length + ['"'].length) = length + 3 by simp; omega] at past
    exact past.puts
  | none =>
    exact (opened (.token .error) (by simp)).puts_errorToEnd .unterminatedVerbatimString

theorem puts_scanHexadecimal {mark : Char} {rest : List Char} (isMark : mark = 'x' ∨ mark = 'X')
    (unread : lexer.cursor.rest = '0' :: mark :: rest) :
    lexer.Puts lexer.setMark.scanHexadecimal (hexadecimalReading lexer.cursor.rest) := by
  have opened := past_opened ['0', mark] unread
    (inLine_cons rfl (inLine_cons (by rcases isMark with rfl | rfl <;> rfl) inLine_nil))
  refine puts_ite (fun _ => ?_) (fun _ => ?_)
  · have past := (opened (.token .integer) (by simp)).move (·.advanceWhile isHexDigit)
      (Cursor.reads_advanceWhile _ rfl rfl)
    rw [cursor_move, cursor_setMark, Cursor.advance_rest, Nat.add_comm] at past
    exact past.puts
  · exact (opened (.token .error) (by simp)).puts_emitError .malformedHexadecimal

theorem decimalReading_le (text : List Char) : (decimalReading text).2 ≤ text.length := by
  have whole := digitCount_le text
  have fraction := fractionLength_le (text.drop (digitCount text))
  have exponent := exponentLength_le
    (text.drop (digitCount text + fractionLength (text.drop (digitCount text))))
  rw [List.length_drop] at fraction exponent
  simp only [decimalReading]
  omega

theorem puts_advance (lexer : Lexer) (kind : Kind) {count : Nat}
    (bound : count ≤ lexer.cursor.rest.length) (inLine : InLine (lexer.cursor.rest.take count)) :
    lexer.Puts ((lexer.setMark.move (·.advance count)).emit kind) (.token kind, count) := by
  have past := (past_setMark lexer (.token kind) (by simp)).move (·.advance count)
    (Cursor.reads_advance bound inLine)
  rw [Nat.zero_add] at past
  exact past.puts

theorem puts_scanDecimal (lexer : Lexer) :
    lexer.Puts lexer.setMark.scanDecimal (decimalReading lexer.cursor.rest) := by
  refine puts_advance lexer _ (decimalReading_le lexer.cursor.rest) ?_
  rw [List.take_add, List.take_add]
  intro c member
  rcases List.mem_append.mp member with front | exponent
  · rcases List.mem_append.mp front with whole | fraction
    · exact inLine_digits _ c whole
    · exact inLine_fraction _ c fraction
  · exact inLine_exponent _ c exponent

theorem shape_one {text : List Char} {c : Char} (unread : text ≠ [])
    (first : text.getD 0 '\x00' = c) : ∃ rest, text = c :: rest := by
  match text, first with
  | [], _ => contradiction
  | _ :: rest, rfl => exact ⟨rest, rfl⟩

theorem shape_two {text : List Char} {c d : Char} (first : text.getD 0 '\x00' = c)
    (second : text.getD 1 '\x00' = d) (shown : d ≠ '\x00') : ∃ rest, text = c :: d :: rest := by
  match text, first, second with
  | [], _, second => exact absurd second.symm shown
  | [_], _, second => exact absurd second.symm shown
  | _ :: _ :: rest, rfl, rfl => exact ⟨rest, rfl⟩

theorem puts_scanNumber (lexer : Lexer) :
    lexer.Puts lexer.setMark.scanNumber (numberReading lexer.cursor.rest) := by
  refine puts_ite (fun marked => ?_) (fun _ => puts_scanDecimal lexer)
  rcases marked.2 with lower | upper
  · exact puts_scanHexadecimal (.inl rfl) (shape_two marked.1 lower (by decide)).choose_spec
  · exact puts_scanHexadecimal (.inr rfl) (shape_two marked.1 upper (by decide)).choose_spec

theorem piece_advance (lexer : Lexer) {count : Nat} (bound : count ≤ lexer.cursor.rest.length) :
    (lexer.setMark.move (·.advance count)).piece = lexer.cursor.rest.take count := by
  simp [piece, setMark, move, Cursor.advance, Nat.min_eq_left bound]

/-- Text that is taken is the piece that the lexer has passed. -/
theorem take_piece {lexer after : Lexer} {count : Int} {text : String}
    (bound : count ≤ lexer.cursor.rest.length) (taken : lexer.setMark.take count = .ok (text, after)) :
    0 ≤ count ∧ text = String.ofList after.piece := by
  unfold Lexer.take at taken
  split at taken
  · cases taken
  · next forward =>
    cases taken
    rw [piece_advance lexer (by omega)]
    exact ⟨by omega, rfl⟩

theorem puts_scanWord (lexer : Lexer) :
    lexer.Puts lexer.setMark.scanWord (wordReading lexer.cursor.rest) := by
  have bound : (lexer.cursor.rest.takeWhile isWordRest).length ≤ lexer.cursor.rest.length :=
    (List.takeWhile_sublist isWordRest).length_le
  have word : (lexer.setMark.move (·.advanceWhile isWordRest)).piece =
      lexer.cursor.rest.takeWhile isWordRest := by
    rw [List.prefix_iff_eq_take.mp (List.takeWhile_prefix isWordRest)]
    exact piece_advance lexer bound
  simp only [scanWord, wordReading, word]
  refine puts_advance lexer _ bound ?_
  rw [cursor_setMark, Cursor.take_length_takeWhile]
  exact Cursor.inLine_takeWhile isWordRest _ (by decide) (by decide)

theorem puts_scanOperator {c : Char} {rest : List Char} (unread : lexer.cursor.rest = c :: rest)
    (inside : Cursor.isLineBreak c = false) :
    lexer.Puts lexer.setMark.scanOperator (operatorReading lexer.cursor.rest) := by
  unfold scanOperator operatorReading
  rw [cursor_setMark]
  cases found : operatorAt? lexer.cursor.rest with
  | some entry =>
    have listed := operators_inLine _ (List.mem_of_find?_eq_some found)
    have starts := List.find?_some found
    obtain ⟨further, shape⟩ := List.isPrefixOf_iff_prefix.mp starts
    refine puts_advance lexer entry.2 (operatorAt?_le found) ?_
    rw [← shape, ← String.length_toList, List.take_left]
    exact fun c member => by simpa using List.all_eq_true.mp listed c member
  | none =>
    exact (past_opened [c] unread (inLine_cons inside inLine_nil) (.token .error)
      (by simp)).puts_emitError _

theorem puts_scanPiece (unread : lexer.cursor.rest ≠ []) :
    lexer.Puts lexer.scanPiece (reading lexer.cursor.rest) := by
  refine puts_ite (fun _ => puts_scanWhitespace lexer) (fun _ => ?_)
  refine puts_ite (fun isBreak => puts_scanNewline isBreak) (fun inside => ?_)
  refine puts_ite (fun _ => puts_scanLineComment lexer) (fun _ => ?_)
  refine puts_ite (fun comment => ?_) (fun _ => ?_)
  · obtain ⟨_, shape⟩ := shape_two comment.1 comment.2 (by decide)
    exact puts_scanBlockComment shape
  refine puts_ite (fun quote => ?_) (fun _ => ?_)
  · exact puts_scanQuoted rfl (shape_one unread quote).choose_spec _ _
  refine puts_ite (fun verbatim => ?_) (fun _ => ?_)
  · obtain ⟨_, shape⟩ := shape_two verbatim.1 verbatim.2 (by decide)
    exact puts_scanVerbatimString shape
  refine puts_ite (fun quote => ?_) (fun _ => ?_)
  · exact puts_scanQuoted rfl (shape_one unread quote).choose_spec _ _
  refine puts_ite (fun _ => puts_scanNumber lexer) (fun _ => ?_)
  refine puts_ite (fun _ => puts_scanWord lexer) (fun _ => ?_)
  exact puts_scanOperator (shape_one unread rfl).choose_spec (Bool.eq_false_iff.mpr inside)

end Steps

theorem scanPieces_keeps {holds : Lexer → Prop}
    (step : ∀ lexer, lexer.cursor.rest ≠ [] → holds lexer → holds lexer.scanPiece) {lexer : Lexer}
    (first : holds lexer) : holds lexer.scanPieces ∧ lexer.scanPieces.cursor.rest = [] := by
  induction lexer using scanPieces.induct with
  | case1 lexer ended =>
    rw [scanPieces, if_pos ended]
    exact ⟨first, ended⟩
  | case2 lexer unread ih =>
    rw [scanPieces, if_neg unread]
    exact ih (step lexer unread first)

end Lexer

end Squirrel
