/-! Places in a source text. -/

namespace Squirrel

/-- The characters from `start` up to `stop`, with the line and column of the first one,
both counted from one. -/
structure Span where
  start : Nat
  stop : Nat
  line : Nat
  column : Nat
  deriving DecidableEq, Repr, Inhabited

/-- The characters of `text` from `start` up to `stop`. -/
def slice (text : List Char) (start stop : Nat) : List Char :=
  (text.drop start).take (stop - start)

end Squirrel
