import Squirrel.Proofs.Grammar.Extraction

/-! Syntax errors are reported in the order of the tokens that they are about. -/

namespace Squirrel

namespace Grammar

/-- A report that came after those of `earlier`: it is about the token that was ahead when a
statement or a table entry was given up. -/
def Raised (tokens : List Token) (earlier : List Diagnostic) (diagnostic : Diagnostic) : Prop :=
  ∃ rest fault, rest <:+ tokens ∧ GivenUp fault ⟨rest, earlier⟩ ∧
    rest.head?.map (⟨.grammatical fault, .error, ·.span⟩) = some diagnostic

/-- A reader of `tokens` whose reports stand in order, none of them past the token ahead. -/
structure InOrder (tokens : List Token) (state : State) : Prop where
  closed : Closed state.rest
  ahead : state.rest <:+ tokens
  ordered : state.diagnostics.Pairwise (·.span.start ≤ ·.span.start)
  behind : ∀ diagnostic ∈ state.diagnostics, diagnostic.span.start ≤ state.current.span.start
  raised : ∀ earlier diagnostic later, state.diagnostics = earlier ++ diagnostic :: later →
    Raised tokens earlier diagnostic

variable {tokens : List Token} {start stop : State}

theorem Move.inOrder (sorted : tokens.Pairwise (·.span.start < ·.span.start))
    (move : Move start stop) (inOrder : InOrder tokens start) : InOrder tokens stop := by
  obtain ⟨closed, ahead, ordered, behind, raised⟩ := inOrder
  obtain ⟨rest, shape⟩ := closed.shape
  cases move with
  | pass goesOn =>
    obtain ⟨next, stillClosed⟩ := closed.advance goesOn
    have later : start.current.span.start < start.advance.current.span.start := by
      have left := sorted.sublist ahead.sublist
      rw [next] at left
      obtain ⟨others, shapeLater⟩ := stillClosed.shape
      exact (List.pairwise_cons.mp left).1 _ (by rw [shapeLater]; exact List.mem_cons_self ..)
    have suffix : start.advance.rest <:+ start.rest := ⟨[start.current], next.symm⟩
    refine ⟨stillClosed, suffix.trans ahead, ?_, ?_, ?_⟩ <;> rw [diagnostics_advance]
    · exact ordered
    · intro diagnostic member
      exact Nat.le_of_lt (Nat.lt_of_le_of_lt (behind diagnostic member) later)
    · exact raised
  | @report fault given =>
    refine ⟨closed, ahead, ?_, ?_, ?_⟩
    · rw [State.report, List.pairwise_append]
      refine ⟨ordered, List.pairwise_singleton .., fun one member other new => ?_⟩
      obtain rfl := List.mem_singleton.mp new
      exact behind one member
    · intro diagnostic member
      rcases List.mem_append.mp member with earlier | new
      · exact behind diagnostic earlier
      · obtain rfl := List.mem_singleton.mp new
        exact Nat.le_refl _
    · intro earlier diagnostic later split
      rcases List.eq_nil_or_concat later with rfl | ⟨more, last, rfl⟩
      · obtain ⟨rfl, same⟩ := List.append_inj' split rfl
        refine ⟨start.rest, fault, ahead, given, ?_⟩
        rw [shape]
        exact congrArg some (List.cons.inj same).1
      · have whole : start.diagnostics ++ [⟨.grammatical fault, .error, start.current.span⟩] =
            (earlier ++ diagnostic :: more) ++ [last] := by simpa [State.report] using split
        exact raised earlier diagnostic more (List.append_inj' whole rfl).1

theorem Reaches.inOrder (sorted : tokens.Pairwise (·.span.start < ·.span.start))
    (reached : Reaches start stop) (inOrder : InOrder tokens start) : InOrder tokens stop := by
  obtain ⟨-, moves⟩ := reached
  induction moves with
  | refl => exact inOrder
  | tail _ move ih => exact move.inOrder sorted ih

end Grammar

open Grammar

end Squirrel
