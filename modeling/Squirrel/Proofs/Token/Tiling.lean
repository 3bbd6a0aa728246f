import Squirrel.Proofs.Token.Reading

/-! Reading a text loses nothing: its tokens and their trivia lie side by side and cover it. -/

namespace Squirrel

structure Piece where
  start : Nat
  stop : Nat
  text : String
  deriving DecidableEq, Repr

def Trivia.piece (trivia : Trivia) : Piece := ⟨trivia.start, trivia.stop, trivia.text⟩

namespace Token

def piece (token : Token) : Piece := ⟨token.span.start, token.span.stop, token.text⟩

/-- The trivia before a token, the token itself, and the trivia after it. -/
def pieces (token : Token) : List Piece :=
  token.leading.map (·.piece) ++ token.piece :: token.trailing.map (·.piece)

end Token

def Piece.CutFrom (source : List Char) (piece : Piece) : Prop :=
  piece.start ≤ piece.stop ∧ piece.text.toList = slice source piece.start piece.stop

/-- Pieces of `source` from `start` to `stop`, each starting where the one before ends. -/
def Tiles (source : List Char) (start : Nat) : List Piece → Nat → Prop
  | [], stop => start = stop
  | piece :: pieces, stop =>
    piece.start = start ∧ piece.CutFrom source ∧ Tiles source piece.stop pieces stop

variable {source : List Char}

theorem tiles_snoc {start middle : Nat} {pieces : List Piece} {last : Piece}
    (tiles : Tiles source start pieces middle) (next : last.start = middle)
    (cut : last.CutFrom source) : Tiles source start (pieces ++ [last]) last.stop := by
  induction pieces generalizing start with
  | nil =>
    have here : start = middle := tiles
    exact ⟨next.trans here.symm, cut, rfl⟩
  | cons piece pieces ih =>
    obtain ⟨first, own, others⟩ := tiles
    exact ⟨first, own, ih others⟩

theorem slice_append (source : List Char) {start middle stop : Nat} (first : start ≤ middle)
    (second : middle ≤ stop) :
    slice source start middle ++ slice source middle stop = slice source start stop := by
  have split : source.drop middle = (source.drop start).drop (middle - start) := by
    rw [List.drop_drop, Nat.add_sub_cancel' first]
  have total : stop - start = (middle - start) + (stop - middle) := by omega
  simp only [slice]
  rw [split, total, List.take_add]

variable {start stop : Nat}

theorem Tiles.le {pieces : List Piece} (tiles : Tiles source start pieces stop) : start ≤ stop := by
  induction pieces generalizing start with
  | nil => exact Nat.le_of_eq tiles
  | cons piece pieces ih =>
    obtain ⟨first, own, others⟩ := tiles
    have later := ih others
    have forward := own.1
    omega

theorem Tiles.text {pieces : List Piece} (tiles : Tiles source start pieces stop) :
    pieces.flatMap (·.text.toList) = slice source start stop := by
  induction pieces generalizing start with
  | nil =>
    have here : start = stop := tiles
    simp [slice, here]
  | cons piece pieces ih =>
    obtain ⟨rfl, own, others⟩ := tiles
    rw [List.flatMap_cons, ih others, own.2]
    exact slice_append source own.1 others.le

theorem Piece.CutFrom.lt {piece : Piece} (cut : piece.CutFrom source) (filled : piece.text ≠ "") :
    piece.start < piece.stop := by
  refine Nat.lt_of_le_of_ne cut.1 fun same => filled ?_
  have empty := cut.2
  rw [same, slice, Nat.sub_self, List.take_zero] at empty
  exact String.toList_eq_nil_iff.mp empty

theorem Tiles.cut {pieces : List Piece} (tiles : Tiles source start pieces stop) :
    ∀ piece ∈ pieces, piece.CutFrom source := by
  induction pieces generalizing start with
  | nil => exact nofun
  | cons piece pieces ih =>
    obtain ⟨-, own, others⟩ := tiles
    exact List.forall_mem_cons.mpr ⟨own, ih others⟩

theorem Tiles.within {pieces : List Piece} (tiles : Tiles source start pieces stop) :
    ∀ piece ∈ pieces, start ≤ piece.start ∧ piece.stop ≤ stop := by
  induction pieces generalizing start with
  | nil => exact nofun
  | cons piece pieces ih =>
    obtain ⟨rfl, own, others⟩ := tiles
    refine List.forall_mem_cons.mpr ⟨⟨Nat.le_refl _, others.le⟩, fun later member => ?_⟩
    obtain ⟨after, before⟩ := ih others later member
    exact ⟨Nat.le_trans own.1 after, before⟩

theorem Tiles.ordered {pieces : List Piece} (tiles : Tiles source start pieces stop) :
    pieces.Pairwise fun one two => one.stop ≤ two.start := by
  induction pieces generalizing start with
  | nil => exact .nil
  | cons piece pieces ih =>
    obtain ⟨-, -, others⟩ := tiles
    exact .cons (fun later member => (others.within later member).1) (ih others)

theorem Token.text_pieces (token : Token) :
    token.pieces.flatMap (·.text.toList) = token.fullText.toList := by
  simp [Token.pieces, Token.fullText, Token.piece, Trivia.piece, List.flatMap_map,
    String.toList_join]

namespace Lexer

def laid (lexer : Lexer) : List Piece :=
  lexer.tokens.flatMap (·.pieces) ++ lexer.pending.map (·.piece)

def currentPiece (lexer : Lexer) : Piece :=
  ⟨lexer.mark.offset, lexer.mark.offset + lexer.piece.length, String.ofList lexer.piece⟩

/-- While the latest token collects trivia, none wait for the next one. -/
def Settled (lexer : Lexer) : Prop :=
  lexer.collecting → lexer.pending = [] ∧ lexer.produced ≠ []

variable {lexer : Lexer}

theorem laid_addTrivia (kind : TriviaKind) (settled : lexer.Settled) :
    (lexer.addTrivia kind).laid = lexer.laid ++ [lexer.currentPiece] := by
  have own : Trivia.piece ⟨kind, String.ofList lexer.piece, lexer.mark.offset⟩ =
      lexer.currentPiece := by
    simp [Trivia.piece, Trivia.stop, currentPiece]
  unfold addTrivia
  split
  · next last earlier collecting produced =>
    simp [laid, tokens, produced, (settled collecting).1, Token.pieces, Token.piece, own]
  · simp [laid, tokens, own]

theorem laid_emitAs (lexer : Lexer) (kind : Kind) (text : String) :
    (lexer.emitAs kind text).laid =
      lexer.laid ++ [⟨lexer.mark.offset, lexer.cursor.offset, text⟩] := by
  simp [laid, tokens, emitAs, Token.pieces, Token.piece, pieceSpan]

/-- What holds of a lexer on its way through `source`. -/
structure Tiled (source : List Char) (lexer : Lexer) : Prop where
  rest : lexer.cursor.rest = source.drop lexer.cursor.offset
  bound : lexer.cursor.offset ≤ source.length
  tiles : Tiles source 0 lexer.laid lexer.cursor.offset
  settled : lexer.Settled
  filled : ∀ piece ∈ lexer.laid, piece.text ≠ ""
  unfinished : ∀ token ∈ lexer.produced, token.kind ≠ .endOfInput

theorem tiled_ofText (source : List Char) : Tiled source (ofText source) := by
  refine ⟨rfl, Nat.zero_le _, rfl, ?_, ?_, ?_⟩
  · intro collecting
    cases collecting
  · intro piece member
    cases member
  · intro token member
    cases member

theorem keyword_ne_end : ∀ entry ∈ Kind.keywords, entry.2 ≠ .endOfInput := by decide

theorem operator_ne_end : ∀ entry ∈ Kind.operators, entry.2 ≠ .endOfInput := by decide

theorem reading_ne_end (text : List Char) : (reading text).1 ≠ .token .endOfInput := by
  intro ended
  rcases kind_of_reading ended with wrong | wrong | wrong | ⟨entry, member, same⟩ | ⟨spelling, found⟩
  iterate 3 cases wrong
  · exact keyword_ne_end entry member same
  · exact operator_ne_end _ (List.mem_of_find?_eq_some found) rfl

theorem Past.settled {lexer moved : Lexer} {sort : Reading} {count : Nat}
    (past : lexer.Past moved sort count) (settled : lexer.Settled) : moved.Settled := by
  intro collecting
  rw [past.collecting, Bool.and_eq_true] at collecting
  rw [past.pending, past.produced]
  exact settled collecting.1

theorem Puts.laid {lexer next : Lexer} {piece : Reading × Nat} (puts : lexer.Puts next piece)
    (settled : lexer.Settled) :
    next.laid = lexer.laid ++ [⟨lexer.cursor.offset, lexer.cursor.offset + piece.2,
      String.ofList (lexer.cursor.rest.take piece.2)⟩] := by
  obtain ⟨moved, past, rfl⟩ := puts
  have same : moved.laid = lexer.laid := by
    rw [Lexer.laid, Lexer.laid, tokens, tokens, past.produced, past.pending]
  have still := past.settled settled
  cases sort : piece.1 with
  | trivia kind =>
    rw [place, laid_addTrivia kind still, same, currentPiece, past.piece, past.mark,
      List.length_take_of_le past.reads.bound]
  | token kind =>
    rw [place, emit, laid_emitAs, same, past.piece, past.mark, past.reads.offset]

theorem cursor_place (lexer : Lexer) (sort : Reading) :
    (lexer.place sort).cursor = lexer.cursor := by
  cases sort with
  | trivia kind => exact cursor_addTrivia lexer kind
  | token kind => rfl

theorem Puts.reads {lexer next : Lexer} {piece : Reading × Nat} (puts : lexer.Puts next piece) :
    lexer.cursor.Reads next.cursor piece.2 := by
  obtain ⟨moved, past, rfl⟩ := puts
  rw [cursor_place]
  exact past.reads

theorem settled_place (settled : lexer.Settled) (sort : Reading) : (lexer.place sort).Settled := by
  cases sort with
  | trivia kind =>
    rw [place]
    unfold addTrivia
    split
    · next last earlier collecting produced =>
      intro _
      exact ⟨(settled collecting).1, by simp⟩
    · next other =>
      intro collecting
      obtain ⟨_, some⟩ := settled collecting
      obtain ⟨last, earlier, produced⟩ := List.exists_cons_of_ne_nil some
      exact absurd produced (other last earlier collecting)
  | token kind =>
    intro _
    exact ⟨rfl, by simp [place, emit, emitAs]⟩

theorem unfinished_place (unfinished : ∀ token ∈ lexer.produced, token.kind ≠ .endOfInput)
    {sort : Reading} (ordinary : sort ≠ .token .endOfInput) :
    ∀ token ∈ (lexer.place sort).produced, token.kind ≠ .endOfInput := by
  cases sort with
  | trivia kind =>
    rw [place]
    unfold addTrivia
    split
    · next last earlier collecting produced =>
      rw [produced] at unfinished
      simpa using unfinished
    · exact unfinished
  | token kind =>
    have other : kind ≠ .endOfInput := fun ended => ordinary (congrArg Reading.token ended)
    intro token member
    rcases List.mem_cons.mp member with rfl | earlier
    · exact other
    · exact unfinished token earlier

theorem Tiled.scanPiece (tiled : lexer.Tiled source) (unread : lexer.cursor.rest ≠ []) :
    lexer.scanPiece.Tiled source := by
  have puts := puts_scanPiece unread
  have reads := puts.reads
  have laid := puts.laid tiled.settled
  have bound : lexer.cursor.offset + (reading lexer.cursor.rest).2 ≤ source.length := by
    have inside := reads.bound
    have before := tiled.bound
    have left : lexer.cursor.rest.length = source.length - lexer.cursor.offset := by
      rw [tiled.rest, List.length_drop]
    omega
  have own : lexer.cursor.rest.take (reading lexer.cursor.rest).2 =
      slice source lexer.cursor.offset (lexer.cursor.offset + (reading lexer.cursor.rest).2) := by
    rw [slice, Nat.add_sub_cancel_left, tiled.rest]
  have positive : lexer.cursor.rest.take (reading lexer.cursor.rest).2 ≠ [] := by
    intro empty
    have shorter := scanPiece_shorter unread
    have none : (reading lexer.cursor.rest).2 = 0 := by
      rcases List.take_eq_nil_iff.mp empty with zero | nothing
      · exact zero
      · exact absurd nothing unread
    rw [reads.rest, none, List.drop_zero] at shorter
    exact Nat.lt_irrefl _ shorter
  refine ⟨?_, ?_, ?_, ?_, ?_, ?_⟩
  · rw [reads.rest, reads.offset, tiled.rest, List.drop_drop]
  · rw [reads.offset]
    exact bound
  · rw [laid, reads.offset]
    refine tiles_snoc tiled.tiles rfl ⟨Nat.le_add_right _ _, ?_⟩
    rw [String.toList_ofList, own]
  · obtain ⟨moved, past, placed⟩ := puts
    rw [placed]
    exact settled_place (past.settled tiled.settled) _
  · rw [laid]
    intro piece member
    rcases List.mem_append.mp member with earlier | last
    · exact tiled.filled piece earlier
    · rw [List.mem_singleton.mp last]
      intro empty
      exact positive (by simpa using congrArg String.toList empty)
  · obtain ⟨moved, past, placed⟩ := puts
    rw [placed]
    refine unfinished_place ?_ (reading_ne_end _)
    rw [past.produced]
    exact tiled.unfinished

theorem Tiled.scanPieces (tiled : lexer.Tiled source) :
    lexer.scanPieces.Tiled source ∧ lexer.scanPieces.cursor.rest = [] :=
  scanPieces_keeps (fun _ unread tiled => tiled.scanPiece unread) tiled

theorem Tiled.offset_of_ended (tiled : lexer.Tiled source) (ended : lexer.cursor.rest = []) :
    lexer.cursor.offset = source.length := by
  have past := tiled.rest
  rw [ended] at past
  have reached := List.drop_eq_nil_iff.mp past.symm
  exact Nat.le_antisymm tiled.bound reached

theorem tokens_scanText (lexer : Lexer) :
    ∃ last, lexer.scanText.tokens = lexer.scanPieces.tokens ++ [last] ∧
      last.kind = .endOfInput ∧ last.leading = lexer.scanPieces.pending ∧
      last.trailing = [] := by
  refine ⟨⟨⟨.endOfInput, ""⟩, lexer.scanPieces.setMark.pieceSpan, lexer.scanPieces.pending, []⟩,
    ?_, rfl, rfl, rfl⟩
  simp [scanText, emitAs, tokens, setMark]

theorem laid_scanText (lexer : Lexer) :
    lexer.scanText.tokens.flatMap (·.pieces) = lexer.scanPieces.laid ++
      [⟨lexer.scanPieces.cursor.offset, lexer.scanPieces.cursor.offset, ""⟩] := by
  have laid := laid_emitAs lexer.scanPieces.setMark .endOfInput ""
  rw [Lexer.laid, show (lexer.scanPieces.setMark.emitAs .endOfInput "").pending = [] from rfl,
    List.map_nil, List.append_nil] at laid
  exact laid

end Lexer

theorem Trivia.piece_mem_pieces {token : Token} {trivia : Trivia}
    (member : trivia ∈ token.leading ++ token.trailing) : trivia.piece ∈ token.pieces := by
  rw [Token.pieces, List.mem_append, List.mem_cons]
  rcases List.mem_append.mp member with before | after
  · exact .inl (List.mem_map_of_mem before)
  · exact .inr (.inr (List.mem_map_of_mem after))

theorem tiles_tokenize (source : String) :
    Tiles source.toList 0 ((tokenize source).tokens.flatMap (·.pieces)) source.length := by
  obtain ⟨tiled, ended⟩ := (Lexer.tiled_ofText source.toList).scanPieces
  have reached := tiled.offset_of_ended ended
  rw [String.length_toList] at reached
  rw [tokenize, Lexer.laid_scanText, ← reached]
  exact tiles_snoc tiled.tiles rfl ⟨Nat.le_refl _, by simp [slice]⟩

theorem trivia_ne_empty (source : String) {token : Token} {trivia : Trivia}
    (member : token ∈ (tokenize source).tokens) (own : trivia ∈ token.leading ++ token.trailing) :
    trivia.text ≠ "" := by
  obtain ⟨tiled, -⟩ := (Lexer.tiled_ofText source.toList).scanPieces
  obtain ⟨last, listed, -, waiting, bare⟩ := Lexer.tokens_scanText (Lexer.ofText source.toList)
  rw [show (tokenize source).tokens = _ from listed, List.mem_append, List.mem_singleton] at member
  refine tiled.filled trivia.piece (List.mem_append.mpr ?_)
  rcases member with earlier | rfl
  · exact .inl (List.mem_flatMap.mpr ⟨token, earlier, Trivia.piece_mem_pieces own⟩)
  · rw [waiting, bare, List.append_nil] at own
    exact .inr (List.mem_map_of_mem own)

/-- Every text is covered by its tokens and their trivia, piece by piece and in order, up to one
end token. -/
theorem tokenize_covers (source : String) :
    ∃ front last, (tokenize source).tokens = front ++ [last] ∧
      last.kind = .endOfInput ∧ (∀ token ∈ front, token.kind ≠ .endOfInput) ∧
      Tiles source.toList 0 ((tokenize source).tokens.flatMap (·.pieces)) source.length ∧
      (∀ token ∈ front, token.text ≠ "") ∧
      (∀ token ∈ (tokenize source).tokens, ∀ trivia ∈ token.leading ++ token.trailing,
        trivia.text ≠ "") ∧
      String.join ((tokenize source).tokens.map (·.fullText)) = source := by
  obtain ⟨tiled, -⟩ := (Lexer.tiled_ofText source.toList).scanPieces
  obtain ⟨last, listed, final, -, -⟩ := Lexer.tokens_scanText (Lexer.ofText source.toList)
  refine ⟨_, last, listed, final, ?_, tiles_tokenize source, ?_,
    fun token member trivia own => trivia_ne_empty source member own, ?_⟩
  · intro token member
    exact tiled.unfinished token (List.mem_reverse.mp member)
  · intro token member
    have own : token.piece ∈ token.pieces := by simp [Token.pieces]
    exact tiled.filled token.piece
      (List.mem_append_left _ (List.mem_flatMap.mpr ⟨token, member, own⟩))
  · apply String.toList_injective
    have whole := (tiles_tokenize source).text
    rw [slice, List.drop_zero, Nat.sub_zero, ← String.length_toList, List.take_length] at whole
    rw [String.toList_join, List.flatMap_map, ← whole, List.flatMap_assoc]
    simp only [Token.text_pieces]

end Squirrel
