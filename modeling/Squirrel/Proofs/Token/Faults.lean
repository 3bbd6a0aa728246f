import Squirrel.Proofs.Token.Tiling

/-! What a lexer reports: each malformed token once, and the escapes without a meaning. -/

namespace Squirrel

def LexFault.isEscape : LexFault → Bool
  | .unknownEscape _ => true
  | _ => false

def Diagnostic.IsMalformed (diagnostic : Diagnostic) : Prop :=
  ∃ fault, diagnostic.fault = .lexical fault ∧ fault.isEscape = false

def Diagnostic.IsEscape (diagnostic : Diagnostic) : Prop :=
  ∃ escaped, diagnostic.fault = .lexical (.unknownEscape escaped)

namespace Lexer

/-- The escapes without a meaning in the literal that a text starts with. -/
def escapesAt (text : List Char) : List Char :=
  let quote := text.getD 0 '\x00'
  if quote = '"' ∨ quote = '\'' then
    (unknownEscapes 0 ((text.drop 1).take (quotedLength quote (text.drop 1)))).map (·.2)
  else []

/-- What a step reports: some escapes, and then the token that it put, if that is malformed. -/
structure Notes (lexer next : Lexer) (sort : Reading) (escapes : List Char) : Prop where
  notes : ∃ notes : List Diagnostic,
    notes.map (·.fault) = escapes.map (fun escaped => .lexical (.unknownEscape escaped)) ∧
    if sort = .token .error then
      ∃ last token, last.IsMalformed ∧ next.produced.head? = some token ∧
        last.span = token.span ∧ next.diagnostics = lexer.diagnostics ++ notes ++ [last]
    else next.diagnostics = lexer.diagnostics ++ notes

@[simp] theorem diagnostics_move (lexer : Lexer) (step : Cursor → Cursor) :
    (lexer.move step).diagnostics = lexer.diagnostics := rfl

@[simp] theorem diagnostics_setMark (lexer : Lexer) :
    lexer.setMark.diagnostics = lexer.diagnostics := rfl

@[simp] theorem diagnostics_emit (lexer : Lexer) (kind : Kind) :
    (lexer.emit kind).diagnostics = lexer.diagnostics := rfl

@[simp] theorem diagnostics_addTrivia (lexer : Lexer) (kind : TriviaKind) :
    (lexer.addTrivia kind).diagnostics = lexer.diagnostics := by
  unfold addTrivia
  split <;> rfl

theorem diagnostics_reported {entries : List (Nat × Char)} {fault : Nat × Char → LexFault}
    {span : Nat × Char → Span} (lexer : Lexer) :
    (entries.foldl (fun lexer entry => lexer.report (fault entry) (span entry)) lexer).diagnostics =
      lexer.diagnostics ++ entries.map (fun entry => ⟨.lexical (fault entry), .error, span entry⟩) := by
  induction entries generalizing lexer with
  | nil => simp
  | cons entry entries ih =>
    rw [List.foldl_cons, ih]
    simp [report]

variable {escapes : List Char}

section Steps

variable {lexer next moved : Lexer} {sort : Reading}

def NotesEscapes (lexer moved : Lexer) (escapes : List Char) : Prop :=
  ∃ notes : List Diagnostic,
    notes.map (·.fault) = escapes.map (fun escaped => .lexical (.unknownEscape escaped)) ∧
      moved.diagnostics = lexer.diagnostics ++ notes

theorem notes_sound (noted : lexer.NotesEscapes next escapes) (sound : sort ≠ .token .error) :
    lexer.Notes next sort escapes := by
  obtain ⟨notes, faults, same⟩ := noted
  exact ⟨notes, faults, by rwa [if_neg sound]⟩

theorem notes_quiet (same : next.diagnostics = lexer.diagnostics) (sound : sort ≠ .token .error) :
    lexer.Notes next sort [] :=
  notes_sound ⟨[], rfl, by simp [same]⟩ sound

variable {fault : LexFault}

theorem notes_emitError (noted : lexer.NotesEscapes moved escapes)
    (malformed : fault.isEscape = false) :
    lexer.Notes (moved.emitError fault) (.token .error) escapes := by
  obtain ⟨notes, faults, before⟩ := noted
  refine ⟨notes, faults, ?_⟩
  rw [if_pos rfl]
  refine ⟨⟨.lexical fault, .error, moved.pieceSpan⟩, _, ⟨fault, rfl, malformed⟩, rfl, rfl, ?_⟩
  rw [← before]
  rfl

theorem notes_error (same : moved.diagnostics = lexer.diagnostics)
    (malformed : fault.isEscape = false) : lexer.Notes (moved.emitError fault) (.token .error) [] :=
  notes_emitError ⟨[], rfl, by simp [same]⟩ malformed

theorem notes_ite {condition : Prop} {first second : Decidable condition} {left right : Lexer}
    {leftPiece rightPiece : Reading × Nat}
    (taken : condition → lexer.Notes left leftPiece.1 escapes)
    (passed : ¬ condition → lexer.Notes right rightPiece.1 escapes) :
    lexer.Notes (@ite _ condition first left right)
      (@ite _ condition second leftPiece rightPiece).1 escapes := by
  by_cases holds : condition
  · rw [if_pos holds, if_pos holds]
    exact taken holds
  · rw [if_neg holds, if_neg holds]
    exact passed holds

theorem notes_scanBlockComment (lexer : Lexer) :
    lexer.Notes lexer.setMark.scanBlockComment (blockCommentReading lexer.cursor.rest).1 [] := by
  unfold scanBlockComment blockCommentReading
  simp only [cursor_move, cursor_setMark, Cursor.advance_rest]
  cases commentLength? (lexer.cursor.rest.drop 2) with
  | some length => exact notes_quiet (by simp) (by simp)
  | none => exact notes_error rfl rfl

theorem notes_scanVerbatimString (lexer : Lexer) :
    lexer.Notes lexer.setMark.scanVerbatimString (verbatimReading lexer.cursor.rest).1 [] := by
  unfold scanVerbatimString verbatimReading
  simp only [cursor_move, cursor_setMark, Cursor.advance_rest]
  cases verbatimLength? (lexer.cursor.rest.drop 2) with
  | some length => exact notes_quiet (by simp) (by simp)
  | none => exact notes_error rfl rfl

variable {quote : Char}

theorem notes_scanQuoted {kind : Kind} (literal : kind ≠ .error)
    (malformed : fault.isEscape = false) :
    lexer.Notes (lexer.setMark.scanQuoted quote kind fault)
      (quotedReading quote kind lexer.cursor.rest).1
      ((unknownEscapes 0 ((lexer.cursor.rest.drop 1).take
        (quotedLength quote (lexer.cursor.rest.drop 1)))).map (·.2)) := by
  have noted (fault : Nat × Char → Span) :
      lexer.NotesEscapes ((unknownEscapes 0 ((lexer.cursor.rest.drop 1).take
        (quotedLength quote (lexer.cursor.rest.drop 1)))).foldl
          (fun lexer entry => lexer.report (.unknownEscape entry.2) (fault entry))
          (lexer.setMark.move (·.advance 1))) ((unknownEscapes 0 ((lexer.cursor.rest.drop 1).take
        (quotedLength quote (lexer.cursor.rest.drop 1)))).map (·.2)) :=
    ⟨_, by simp, diagnostics_reported _⟩
  unfold scanQuoted quotedReading
  simp only [cursor_move, cursor_reported, Cursor.advance_rest, cursor_setMark]
  refine notes_ite (fun _ => ?_) (fun _ => ?_)
  · exact notes_sound (noted _) (by simpa using literal)
  · exact notes_emitError (noted _) malformed

theorem notes_scanNumber (lexer : Lexer) :
    lexer.Notes lexer.setMark.scanNumber (numberReading lexer.cursor.rest).1 [] := by
  refine notes_ite (fun _ => ?_) (fun _ => ?_)
  · refine notes_ite (fun _ => ?_) (fun _ => ?_)
    · exact notes_quiet rfl (by simp)
    · exact notes_error rfl rfl
  · refine notes_quiet rfl ?_
    unfold decimalReading
    dsimp only
    split <;> simp

theorem keyword_ne_error : ∀ entry ∈ Kind.keywords, entry.2 ≠ .error := by decide

theorem operator_ne_error : ∀ entry ∈ Kind.operators, entry.2 ≠ .error := by decide

theorem wordKind_ne_error (text : String) : wordKind text ≠ .error := by
  rcases wordKind_cases text with name | ⟨entry, member, same⟩
  · simp [name]
  · exact same ▸ keyword_ne_error entry member

theorem notes_scanOperator (lexer : Lexer) :
    lexer.Notes lexer.setMark.scanOperator (operatorReading lexer.cursor.rest).1 [] := by
  unfold scanOperator operatorReading
  rw [cursor_setMark]
  cases found : operatorAt? lexer.cursor.rest with
  | some entry =>
    have proper := operator_ne_error entry (List.mem_of_find?_eq_some found)
    exact notes_quiet rfl (by simpa using proper)
  | none => exact notes_error rfl rfl

theorem escapesAt_plain {text : List Char} (noString : text.getD 0 '\x00' ≠ '"')
    (noCharacter : text.getD 0 '\x00' ≠ '\'') : escapesAt text = [] := by
  unfold escapesAt
  dsimp only
  rw [if_neg]
  rintro (same | same) <;> contradiction

theorem scanPiece_literal (first : lexer.cursor.rest.getD 0 '\x00' = quote)
    (isQuote : quote = '"' ∨ quote = '\'') :
    ∃ kind fault, kind ≠ .error ∧ fault.isEscape = false ∧
      lexer.scanPiece = lexer.setMark.scanQuoted quote kind fault ∧
      reading lexer.cursor.rest = quotedReading quote kind lexer.cursor.rest := by
  have peeked : lexer.cursor.peek 0 = quote := first
  rcases isQuote with rfl | rfl
  · refine ⟨.string, .unterminatedString, by decide, rfl, ?_, ?_⟩
    · simp [scanPiece, peeked, isInlineSpace, Cursor.isLineBreak, scanString]
    · rw [reading, first]
      simp [isInlineSpace, Cursor.isLineBreak]
  · refine ⟨.character, .unterminatedCharacter, by decide, rfl, ?_, ?_⟩
    · simp [scanPiece, peeked, isInlineSpace, Cursor.isLineBreak, scanCharacter]
    · rw [reading, first]
      simp [isInlineSpace, Cursor.isLineBreak]

theorem notes_scanLiteral (first : lexer.cursor.rest.getD 0 '\x00' = quote)
    (isQuote : quote = '"' ∨ quote = '\'') :
    lexer.Notes lexer.scanPiece (reading lexer.cursor.rest).1 (escapesAt lexer.cursor.rest) := by
  obtain ⟨kind, fault, literal, malformed, scans, reads⟩ := scanPiece_literal first isQuote
  rw [escapesAt, first, if_pos isQuote, scans, reads]
  exact notes_scanQuoted literal malformed

theorem notes_scanPiece (lexer : Lexer) :
    lexer.Notes lexer.scanPiece (reading lexer.cursor.rest).1 (escapesAt lexer.cursor.rest) := by
  by_cases isString : lexer.cursor.rest.getD 0 '\x00' = '"'
  · exact notes_scanLiteral isString (.inl rfl)
  by_cases isCharacter : lexer.cursor.rest.getD 0 '\x00' = '\''
  · exact notes_scanLiteral isCharacter (.inr rfl)
  rw [escapesAt_plain isString isCharacter]
  refine notes_ite (fun _ => notes_quiet (by simp [scanWhitespace]) (by simp)) (fun _ => ?_)
  refine notes_ite (fun _ => notes_quiet (by simp [scanNewline]) (by simp)) (fun _ => ?_)
  refine notes_ite (fun _ => notes_quiet (by simp [scanLineComment]) (by simp)) (fun _ => ?_)
  refine notes_ite (fun _ => notes_scanBlockComment lexer) (fun _ => ?_)
  refine notes_ite (fun same => absurd same isString) (fun _ => ?_)
  refine notes_ite (fun _ => notes_scanVerbatimString lexer) (fun _ => ?_)
  refine notes_ite (fun same => absurd same isCharacter) (fun _ => ?_)
  refine notes_ite (fun _ => notes_scanNumber lexer) (fun _ => ?_)
  refine notes_ite (fun _ => ?_) (fun _ => notes_scanOperator lexer)
  exact notes_quiet rfl (by simpa [wordReading] using wordKind_ne_error _)

end Steps

def stands (lexer : Lexer) : List (Kind × Span) :=
  lexer.produced.map fun token => (token.kind, token.span)

theorem stands_addTrivia (lexer : Lexer) (kind : TriviaKind) :
    (lexer.addTrivia kind).stands = lexer.stands := by
  unfold addTrivia
  split
  · next last earlier _ produced => simp [stands, produced]
  · rfl

/-- Every malformed token is reported, and all that is reported are malformed tokens and escapes. -/
structure Accounted (lexer : Lexer) : Prop where
  malformed : ∀ span, (Kind.error, span) ∈ lexer.stands →
    ∃ diagnostic ∈ lexer.diagnostics, diagnostic.IsMalformed ∧ diagnostic.span = span
  reported : ∀ diagnostic ∈ lexer.diagnostics, diagnostic.IsEscape ∨
    diagnostic.IsMalformed ∧ (Kind.error, diagnostic.span) ∈ lexer.stands

theorem isEscape_of_faults {notes : List Diagnostic}
    (faults : notes.map (·.fault) = escapes.map (fun escaped => .lexical (.unknownEscape escaped)))
    : ∀ note ∈ notes, note.IsEscape := by
  intro note member
  have listed : note.fault ∈ notes.map (·.fault) := List.mem_map_of_mem member
  rw [faults] at listed
  obtain ⟨escaped, _, same⟩ := List.mem_map.mp listed
  exact ⟨escaped, same.symm⟩

theorem Puts.stands {lexer next : Lexer} {piece : Reading × Nat} (puts : lexer.Puts next piece) :
    next.stands = match piece.1 with
      | .trivia _ => lexer.stands
      | .token kind => (kind, next.produced.headD default |>.span) :: lexer.stands := by
  obtain ⟨moved, past, rfl⟩ := puts
  cases sort : piece.1 with
  | trivia kind => rw [place, stands_addTrivia, Lexer.stands, Lexer.stands, past.produced]
  | token kind => simp [place, emit, emitAs, Lexer.stands, past.produced]

theorem Accounted.step {lexer next : Lexer} {piece : Reading × Nat} (accounted : lexer.Accounted)
    (puts : lexer.Puts next piece) (noted : lexer.Notes next piece.1 escapes) : next.Accounted := by
  have stands := puts.stands
  obtain ⟨notes, faults, noted⟩ := noted
  have escapes := isEscape_of_faults faults
  by_cases bad : piece.1 = .token .error
  · rw [if_pos bad] at noted
    obtain ⟨last, token, malformed, latest, place, listed⟩ := noted
    rw [bad] at stands
    have own : next.stands = (.error, last.span) :: lexer.stands := by
      rw [stands, place, List.headD_eq_head?_getD, latest]
      rfl
    refine ⟨fun span member => ?_, fun diagnostic member => ?_⟩
    · rw [own, List.mem_cons, Prod.mk.injEq] at member
      rcases member with ⟨_, rfl⟩ | earlier
      · exact ⟨last, by simp [listed], malformed, rfl⟩
      · obtain ⟨diagnostic, given, found⟩ := accounted.malformed span earlier
        exact ⟨diagnostic, by simp [listed, given], found⟩
    · rw [own]
      rw [listed, List.mem_append, List.mem_append, List.mem_singleton] at member
      rcases member with (earlier | note) | rfl
      · rcases accounted.reported diagnostic earlier with escape | ⟨isMalformed, found⟩
        · exact .inl escape
        · exact .inr ⟨isMalformed, List.mem_cons_of_mem _ found⟩
      · exact .inl (escapes diagnostic note)
      · exact .inr ⟨malformed, List.mem_cons_self⟩
  · rw [if_neg bad] at noted
    have same (span : Span) : (Kind.error, span) ∈ next.stands ↔ (.error, span) ∈ lexer.stands := by
      rw [stands]
      cases sort : piece.1 with
      | trivia kind => rfl
      | token kind =>
        have other : Kind.error ≠ kind := fun same => bad (by rw [sort, same])
        simp [other]
    refine ⟨fun span member => ?_, fun diagnostic member => ?_⟩
    · obtain ⟨diagnostic, given, found⟩ := accounted.malformed span ((same span).mp member)
      exact ⟨diagnostic, by simp [noted, given], found⟩
    · rw [noted, List.mem_append] at member
      rw [same]
      rcases member with earlier | note
      · exact accounted.reported diagnostic earlier
      · exact .inl (escapes diagnostic note)

theorem Accounted.scanPieces {lexer : Lexer} (accounted : lexer.Accounted) :
    lexer.scanPieces.Accounted := by
  refine (scanPieces_keeps (fun lexer unread accounted => ?_) accounted).1
  exact accounted.step (puts_scanPiece unread) (notes_scanPiece lexer)

theorem accounted_ofText (text : List Char) : (ofText text).Accounted :=
  ⟨by simp [ofText, stands], by simp [ofText]⟩

end Lexer

theorem tokenize_accounted (source : String) :
    (∀ token ∈ (tokenize source).tokens, token.kind = .error →
      ∃ diagnostic ∈ (tokenize source).diagnostics,
        diagnostic.IsMalformed ∧ diagnostic.span = token.span) ∧
      ∀ diagnostic ∈ (tokenize source).diagnostics, diagnostic.IsEscape ∨
        diagnostic.IsMalformed ∧ ∃ token ∈ (tokenize source).tokens,
          token.kind = .error ∧ diagnostic.span = token.span := by
  have accounted := (Lexer.accounted_ofText source.toList).scanPieces
  obtain ⟨last, listed, ended, _⟩ := Lexer.tokens_scanText (Lexer.ofText source.toList)
  have tokens : (tokenize source).tokens = _ := listed
  have stands {token : Token} : token ∈ (Lexer.ofText source.toList).scanPieces.tokens →
      (token.kind, token.span) ∈ (Lexer.ofText source.toList).scanPieces.stands :=
    fun member => List.mem_map_of_mem (f := fun token : Token => (token.kind, token.span))
      (List.mem_reverse.mp member)
  refine ⟨fun token member malformed => ?_, fun diagnostic member => ?_⟩
  · rw [tokens, List.mem_append, List.mem_singleton] at member
    rcases member with inside | rfl
    · have found := stands inside
      rw [malformed] at found
      exact accounted.malformed token.span found
    · rw [ended] at malformed
      cases malformed
  · rcases accounted.reported diagnostic member with escape | ⟨isMalformed, found⟩
    · exact .inl escape
    · obtain ⟨token, inside, same⟩ := List.mem_map.mp found
      obtain ⟨kind, span⟩ := Prod.mk.inj same
      refine .inr ⟨isMalformed, token, ?_, kind, span.symm⟩
      rw [tokens]
      exact List.mem_append_left _ (List.mem_reverse.mpr inside)

end Squirrel
