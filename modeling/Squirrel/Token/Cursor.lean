import Squirrel.Span

/-! A place in a source text, with the text still to be read. -/

namespace Squirrel

/-- Lines and columns count from one. -/
structure Cursor where
  rest : List Char
  offset : Nat
  line : Nat
  column : Nat
  deriving DecidableEq, Repr, Inhabited

namespace Cursor

def ofText (text : List Char) : Cursor := ⟨text, 0, 1, 1⟩

def atEnd (cursor : Cursor) : Bool := cursor.rest.isEmpty

/-- The character `distance` places ahead; past the end there is only U+0000. -/
def peek (cursor : Cursor) (distance : Nat) : Char :=
  cursor.rest.getD distance '\x00'

/-- Moves over `count` characters of one line, or over all that are left. -/
def advance (cursor : Cursor) (count : Nat) : Cursor :=
  let passed := (cursor.rest.take count).length
  { cursor with
    rest := cursor.rest.drop count
    offset := cursor.offset + passed
    column := cursor.column + passed }

def advanceWhile (cursor : Cursor) (accept : Char → Bool) : Cursor :=
  cursor.advance (cursor.rest.takeWhile accept).length

def isLineBreak (c : Char) : Bool := c = '\n' || c = '\r'

def advanceToLineEnd (cursor : Cursor) : Cursor :=
  cursor.advanceWhile (!isLineBreak ·)

/-- Moves over one character that may end a line. A carriage return does so unless a line feed
follows. -/
def advanceAny (cursor : Cursor) : Cursor :=
  match cursor.rest with
  | [] => cursor
  | c :: rest =>
    if c = '\n' ∨ c = '\r' ∧ rest.head? ≠ some '\n' then
      ⟨rest, cursor.offset + 1, cursor.line + 1, 1⟩
    else
      ⟨rest, cursor.offset + 1, cursor.line, cursor.column + 1⟩

def advanceAnyBy (cursor : Cursor) : Nat → Cursor
  | 0 => cursor
  | count + 1 => cursor.advanceAny.advanceAnyBy count

@[simp] theorem advance_rest (cursor : Cursor) (count : Nat) :
    (cursor.advance count).rest = cursor.rest.drop count := rfl

@[simp] theorem advanceWhile_rest (cursor : Cursor) (accept : Char → Bool) :
    (cursor.advanceWhile accept).rest = cursor.rest.dropWhile accept := by
  simp only [advanceWhile, advance_rest]
  induction cursor.rest with
  | nil => rfl
  | cons c rest ih =>
    by_cases accepted : accept c = true
    · simp [accepted, ih]
    · simp [accepted]

@[simp] theorem advanceAny_rest (cursor : Cursor) :
    cursor.advanceAny.rest = cursor.rest.drop 1 := by
  unfold advanceAny
  split
  · simp [*]
  · split <;> simp [*]

@[simp] theorem advanceAnyBy_rest (cursor : Cursor) (count : Nat) :
    (cursor.advanceAnyBy count).rest = cursor.rest.drop count := by
  induction count generalizing cursor with
  | zero => rfl
  | succ count ih => simp [advanceAnyBy, ih]

end Cursor

end Squirrel
