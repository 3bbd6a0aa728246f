import Squirrel.Proofs.Token.Tiling

/-! Where tokens stand. However a lexer moves, it counts lines and columns as if it went over the
text one character after the other. -/

namespace Squirrel

def Cursor.Strolls (cursor next : Cursor) : Prop := ∃ count, cursor.Reads next count

theorem Cursor.Strolls.trans {cursor middle next : Cursor} :
    cursor.Strolls middle → middle.Strolls next → cursor.Strolls next :=
  fun ⟨_, first⟩ ⟨_, second⟩ => ⟨_, first.trans second⟩

def Cursor.after (source : List Char) (offset : Nat) : Cursor :=
  (Cursor.ofText source).advanceAnyBy offset

def Span.IsPlaced (source : List Char) (span : Span) : Prop :=
  span.line = (Cursor.after source span.start).line ∧
    span.column = (Cursor.after source span.start).column

namespace Lexer

/-- Places as a lexer knows them: its own and those of the tokens that it has read. -/
structure Placed (source : List Char) (lexer : Lexer) : Prop where
  cursor : lexer.cursor = Cursor.after source lexer.cursor.offset
  spans : ∀ span ∈ lexer.produced.map (·.span), span.IsPlaced source

variable {source : List Char} {lexer : Lexer}

theorem placed_ofText (source : List Char) : Placed source (ofText source) :=
  ⟨rfl, fun _ member => nomatch member⟩

theorem spans_addTrivia (lexer : Lexer) (kind : TriviaKind) :
    (lexer.addTrivia kind).produced.map (·.span) = lexer.produced.map (·.span) := by
  unfold addTrivia
  split
  · next last earlier _ produced => simp [produced]
  · rfl

theorem isPlaced_pieceSpan (placed : lexer.mark = Cursor.after source lexer.mark.offset) :
    lexer.pieceSpan.IsPlaced source :=
  ⟨congrArg Cursor.line placed, congrArg Cursor.column placed⟩

theorem Placed.scanPiece (placed : lexer.Placed source) (unread : lexer.cursor.rest ≠ []) :
    lexer.scanPiece.Placed source := by
  have reads := (puts_scanPiece unread).reads
  constructor
  · rw [reads.offset, Cursor.after, Cursor.advanceAnyBy_add, ← Cursor.after, ← placed.cursor]
    exact reads.moves
  · obtain ⟨moved, past, puts⟩ := puts_scanPiece unread
    have before : ∀ span ∈ moved.produced.map (·.span), span.IsPlaced source := by
      rw [past.produced]
      exact placed.spans
    rw [puts]
    cases (reading lexer.cursor.rest).1 with
    | trivia kind => rwa [place, spans_addTrivia]
    | token kind =>
      refine List.forall_mem_cons.mpr ⟨isPlaced_pieceSpan ?_, before⟩
      rw [past.mark]
      exact placed.cursor

theorem Placed.scanPieces (placed : lexer.Placed source) : lexer.scanPieces.Placed source :=
  (scanPieces_keeps (fun _ unread placed => placed.scanPiece unread) placed).1

end Lexer

/-- Every token has the line and the column that one gets to when one goes over the text one
character after the other. -/
theorem isPlaced_tokenize (source : String) {token : Token}
    (member : token ∈ (tokenize source).tokens) : token.span.IsPlaced source.toList := by
  have placed := (Lexer.placed_ofText source.toList).scanPieces
  have all : ∀ span ∈ (Lexer.ofText source.toList).scanText.produced.map (·.span),
      span.IsPlaced source.toList :=
    List.forall_mem_cons.mpr ⟨Lexer.isPlaced_pieceSpan placed.cursor, placed.spans⟩
  exact all token.span (List.mem_map_of_mem (List.mem_reverse.mp member))

end Squirrel
