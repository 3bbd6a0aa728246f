import Squirrel.Proofs.Format.Output
import Squirrel.Proofs.Layout.Echo
import Squirrel.Proofs.Token.Scan

/-! Malformed units come through formatting as they are, but for blanks at their very end. -/

namespace Squirrel

namespace Tree

mutual

theorem tokens_malformedUnits {unit : Tree} : (tree : Tree) → unit ∈ tree.malformedUnits →
    ∀ token ∈ unit.tokens, token ∈ tree.tokens
  | .leaf _, member => by
    rw [malformedUnits] at member
    cases member
  | .node label children, member => by
    rw [malformedUnits] at member
    rw [tokens_node]
    exact tokens_malformedUnitsOf label children member

theorem tokens_malformedUnitsOf {unit : Tree} (parent : Label) : (trees : List Tree) →
    unit ∈ malformedUnitsOf parent trees → ∀ token ∈ unit.tokens, token ∈ tokensOf trees
  | [], member => by
    rw [malformedUnitsOf] at member
    cases member
  | tree :: trees, member => by
    intro token own
    rw [malformedUnitsOf, List.mem_append] at member
    rw [tokensOf_cons, List.mem_append]
    rcases member with here | later
    · split at here
      · rw [List.mem_singleton.mp here] at own
        exact .inl own
      · exact .inl (tokens_malformedUnits tree here token own)
    · exact .inr (tokens_malformedUnitsOf parent trees later token own)

end

theorem malformedUnitsOf_append (parent : Label) (first second : List Tree) :
    malformedUnitsOf parent (first ++ second) =
      malformedUnitsOf parent first ++ malformedUnitsOf parent second := by
  induction first with
  | nil => simp [malformedUnitsOf]
  | cons tree first ih => simp [malformedUnitsOf, ih]

end Tree

section Slices

theorem infix_slice (source : List Char) (start stop : Nat) : slice source start stop <:+: source :=
  (List.take_prefix _ _).isInfix.trans (List.drop_suffix _ _).isInfix

theorem head_slice {source : List Char} {start middle stop : Nat}
    (present : slice source start middle ≠ []) {c : Char}
    (head : (slice source start stop).head? = some c) :
    (slice source start middle).head? = some c := by
  unfold slice at present head ⊢
  rw [List.head?_take] at head ⊢
  split at head
  · cases head
  · rw [if_neg]
    · exact head
    · intro none
      rw [none, List.take_zero] at present
      exact present rfl

end Slices

variable {source : String} {unit : Tree}

theorem tokens_of_malformed [NestingLimit] (malformed : unit ∈ (parse source).tree.malformedUnits) :
    ∀ token ∈ unit.tokens, token ∈ (tokenize source).tokens ∧ token.kind ≠ .endOfInput := by
  obtain ⟨trees, last, shape, isProgram⟩ := parse_isProgram source
  have closed := closed_tokenize source
  rw [isProgram.split] at closed
  rw [shape, Tree.malformedUnits, Tree.malformedUnitsOf_append] at malformed
  have inside : unit ∈ Tree.malformedUnitsOf .program trees := by
    simpa [Tree.malformedUnitsOf, Tree.malformedUnits, Tree.isUnitOf] using malformed
  intro token own
  have listed := Tree.tokens_malformedUnitsOf .program trees inside token own
  refine ⟨?_, closed.front token listed⟩
  rw [isProgram.split]
  exact List.mem_append_left _ listed

theorem head_sourceText [NestingLimit] (malformed : unit ∈ (parse source).tree.malformedUnits) :
    (unit.sourceText source.toList).head? ≠ some ' ' := by
  intro space
  unfold Tree.sourceText Tree.range at space
  split at space
  · next first last isFirst isLast =>
    have own : first ∈ unit.tokens := by
      rw [Tree.firstToken?_eq] at isFirst
      exact List.mem_of_head? isFirst
    obtain ⟨member, goesOn⟩ := tokens_of_malformed malformed first own
    have cut : first.piece.CutFrom source.toList := (tiles_tokenize source).cut _
      (List.mem_flatMap.mpr ⟨first, member, by simp [Token.pieces]⟩)
    have present : slice source.toList first.span.start first.span.stop ≠ [] := by
      intro empty
      have text : first.text.toList = _ := cut.2
      exact text_ne_empty source member goesOn
        (String.toList_injective (by rw [text]; exact empty))
    refine head_token source member goesOn ?_
    have text : first.text.toList = _ := cut.2
    rw [text]
    exact head_slice present space
  · simp [slice] at space

theorem written_of_malformed [NestingLimit] (style : PageStyle)
    (malformed : unit ∈ (parse source).tree.malformedUnits)
    (present : unit.sourceText source.toList ≠ []) :
    Event.text (String.ofList (unit.sourceText source.toList)) ∈
      layoutEvents style source.toList (parse source).tree := by
  obtain ⟨trees, last, shape, -⟩ := parse_isProgram source
  have sound : (parse source).tree.hasLocalError = false := by
    rw [shape, Tree.hasLocalError, Bool.or_eq_false_iff, Tree.anyLocalError_eq_false]
    refine ⟨rfl, fun tree _ inner => ?_⟩
    cases tree with
    | leaf token => rw [Tree.hasLocalError]
    | node label children => cases inner
  have writes := Layout.writes_part source.toList ⟨false, false⟩ present _ (shaped_parse source)
    (ordered_parse source) sound malformed
  exact List.mem_append_left _ (writes.1 _ _ _ _ _)

/-- The source text of every malformed unit that stands in no other one is in the formatted text,
but for spaces and tabs that it ends in. -/
theorem format_echoes [NestingLimit] (options : FormatOptions) (source : String) :
    ∀ unit ∈ (parse source).tree.malformedUnits,
      trimEnd (unit.sourceText source.toList) <:+: (format options source).toList := by
  intro unit malformed
  rw [format_eq]
  split
  · by_cases present : unit.sourceText source.toList = []
    · rw [present]
      exact List.nil_infix
    · have written := written_of_malformed options.pageStyle malformed present
      obtain ⟨ending, -, finished⟩ := toList_finish options
        (String.ofList (printedText options.pageStyle source.toList (parse source).tree))
      have shown := @Sheet.infix_of_written options.pageStyle ⟨.blank, []⟩ _ _
        (by simpa using head_sourceText malformed) written
      rw [String.toList_ofList] at shown
      rw [finished, String.toList_ofList]
      exact (infix_trimEnd (trimEnd_trimEnd _) shown).trans (List.prefix_append _ _).isInfix
  · exact (prefix_trimEnd _).isInfix.trans (infix_slice _ _ _)

theorem format_echoes_unended :
    ∃ unit ∈ (parse "\"abc  \n").tree.malformedUnits,
      unit.sourceText "\"abc  \n".toList = "\"abc  ".toList ∧
        trimEnd (unit.sourceText "\"abc  \n".toList) <:+: (format .standard "\"abc  \n").toList := by
  have one : (parse "\"abc  \n").tree.malformedUnits.any
      (·.sourceText "\"abc  \n".toList = "\"abc  ".toList) := by
    decide +kernel
  obtain ⟨unit, malformed, whole⟩ := List.any_eq_true.mp one
  exact ⟨unit, malformed, of_decide_eq_true whole, format_echoes .standard _ unit malformed⟩

end Squirrel
