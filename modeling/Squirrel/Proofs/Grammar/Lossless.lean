import Squirrel.Grammar.Session
import Squirrel.Proofs.Grammar.Soundness
import Squirrel.Proofs.Token.Tiling

/-! Trees hold the tokens that they were read from. -/

namespace Squirrel

open Grammar (Closed IsProgram)

theorem Grammar.closed_snoc {front : List Token} {last : Token} (ended : last.kind = .endOfInput)
    (goesOn : ∀ token ∈ front, token.kind ≠ .endOfInput) : Closed (front ++ [last]) := by
  induction front with
  | nil => exact ended
  | cons token front ih =>
    have others := ih fun other member => goesOn other (List.mem_cons_of_mem _ member)
    obtain ⟨next, rest, shape⟩ :=
      List.exists_cons_of_ne_nil (l := front ++ [last]) (by simp)
    rw [List.cons_append, shape]
    rw [shape] at others
    exact ⟨goesOn token (by simp), others⟩

theorem closed_tokenize (source : String) : Closed (tokenize source).tokens := by
  obtain ⟨tiled, _⟩ := (Lexer.tiled_ofText source.toList).scanPieces
  obtain ⟨last, listed, ended, _⟩ := Lexer.tokens_scanText (Lexer.ofText source.toList)
  rw [show (tokenize source).tokens = _ from listed]
  refine Grammar.closed_snoc ended fun token member => ?_
  exact tiled.unfinished token (List.mem_reverse.mp member)

theorem parse_isProgram [NestingLimit] (source : String) :
    ∃ trees last, (parse source).tree = .node .program (trees ++ [.leaf last]) ∧
      IsProgram (tokenize source).tokens (parseTokens (tokenize source).tokens) trees last := by
  obtain ⟨trees, last, isProgram⟩ := Grammar.parseTokens_isProgram (closed_tokenize source)
  exact ⟨trees, last, isProgram.tree, isProgram⟩

/-- A session that reads a whole program gives its tree and its reports. -/
theorem Grammar.Session.program_ofTokens [NestingLimit] {tokens : List Token} (full : tokens ≠ []) :
    ∃ stop, (Grammar.Session.ofTokens tokens).program = (.ok (parseTokens tokens).tree, stop) ∧
      stop.state.diagnostics = (parseTokens tokens).diagnostics := by
  have filled : tokens.isEmpty = false := by simpa using full
  refine ⟨⟨tokens, (Grammar.program tokens (.ofTokens tokens)).2⟩, ?_, rfl⟩
  simp [Grammar.Session.program, Grammar.Session.ofTokens, filled, parseTokens]

theorem tokens_parse [NestingLimit] (source : String) :
    (parse source).tree.tokens = (tokenize source).tokens := by
  obtain ⟨trees, last, shape, isProgram⟩ := parse_isProgram source
  rw [isProgram.split, shape]
  simp

/-- The leaves of the tree of a text are its tokens, each one once and in order, and the end is
the last of them and the only one. -/
theorem parse_lossless [NestingLimit] (source : String) :
    (parse source).tree.tokens = (tokenize source).tokens ∧
      ∃ front last, (parse source).tree.tokens = front ++ [last] ∧ last.kind = .endOfInput ∧
        ∀ token ∈ front, token.kind ≠ .endOfInput := by
  have closed := closed_tokenize source
  obtain ⟨trees, last, -, isProgram⟩ := parse_isProgram source
  have leaves := tokens_parse source
  rw [isProgram.split] at closed
  refine ⟨leaves, Tree.tokensOf trees, last, ?_, closed.last rfl, closed.front⟩
  rw [leaves, isProgram.split]

end Squirrel
