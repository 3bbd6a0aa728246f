import Mathlib.Data.List.Chain
import Squirrel.Proofs.Token.Cutting

/-! Which trivia stand before a token, which after it, and what may follow what among them. -/

namespace Squirrel

/-- A run of blanks is one piece, and a comment up to the end of its line is followed by the line
break or by the end of the text. -/
def Reading.Precedes (first second : Reading) : Prop :=
  (first = .trivia .whitespace → second ≠ .trivia .whitespace) ∧
    (first = .trivia .lineComment → second = .trivia .newline ∨ second = .token .endOfInput)

namespace Lexer

variable {text : List Char}

/-- Blanks, a line break and a comment up to the end of the line are told from all other pieces by
the first characters. -/
theorem reading_cases (text : List Char) :
    (isInlineSpace (text.getD 0 '\x00') ∧
        reading text = (.trivia .whitespace, (text.takeWhile isInlineSpace).length)) ∨
      (isInlineSpace (text.getD 0 '\x00') = false ∧
        ((reading text).1 = .trivia .newline ∨ reading text = (.trivia .lineComment, lineLength text) ∨
          (reading text).1 = .trivia .blockComment ∨ ∃ kind, (reading text).1 = .token kind)) := by
  unfold reading
  dsimp only
  split
  · next space => exact .inl ⟨space, rfl⟩
  · next other =>
    refine .inr ⟨Bool.eq_false_iff.mpr other, ?_⟩
    split
    · exact .inl rfl
    split
    · exact .inr (.inl rfl)
    split
    · unfold blockCommentReading
      split <;> simp
    unfold quotedReading verbatimReading numberReading hexadecimalReading decimalReading
      wordReading operatorReading
    grind

theorem reading_lineBreak (unread : text ≠ []) (breaks : text.head?.all Cursor.isLineBreak) :
    (reading text).1 = .trivia .newline := by
  obtain ⟨c, rest, rfl⟩ := List.exists_cons_of_ne_nil unread
  have isBreak : Cursor.isLineBreak c := by simpa using breaks
  have noSpace : isInlineSpace c = false := by
    rcases (by simpa [Cursor.isLineBreak] using isBreak : c = '\n' ∨ c = '\r') with rfl | rfl <;> rfl
  simp [reading, noSpace, isBreak]

theorem head_drop_takeWhile (accept : Char → Bool) (text : List Char) :
    (text.drop (text.takeWhile accept).length).head?.all (!accept ·) := by
  induction text with
  | nil => rfl
  | cons c text ih =>
    cases accepted : accept c with
    | true => simpa [accepted] using ih
    | false => simp [accepted]

theorem precedes_reading (left : text.drop (reading text).2 ≠ []) :
    (reading text).1.Precedes (reading (text.drop (reading text).2)).1 := by
  refine ⟨fun isSpace => ?_, fun isComment => .inl ?_⟩
  · rcases reading_cases text with ⟨-, blank⟩ | ⟨-, other⟩
    · rw [blank] at left ⊢
      have stops := head_drop_takeWhile isInlineSpace text
      rcases reading_cases (text.drop (text.takeWhile isInlineSpace).length) with ⟨space, -⟩ | ⟨-, other⟩
      · obtain ⟨c, rest, shape⟩ := List.exists_cons_of_ne_nil left
        rw [shape] at stops space
        simp_all
      · rcases other with kind | comment | kind | ⟨_, kind⟩
        · simp [kind]
        · simp [comment]
        · simp [kind]
        · simp [kind]
    · rcases other with kind | comment | kind | ⟨_, kind⟩ <;> simp_all
  · have whole : reading text = (.trivia .lineComment, lineLength text) := by
      rcases reading_cases text with ⟨-, blank⟩ | ⟨-, other⟩
      · simp [blank] at isComment
      · rcases other with kind | comment | kind | ⟨_, kind⟩ <;> simp_all
    rw [whole] at left ⊢
    refine reading_lineBreak left ?_
    simpa [lineLength] using head_drop_takeWhile (!Cursor.isLineBreak ·) text

theorem chain_scraps (text : List Char) :
    (scraps text).IsChain fun first second => first.sort.Precedes second.sort := by
  induction text using scraps.induct with
  | case1 => simp
  | case2 text unread ih =>
    rw [scraps_cons unread, List.isChain_cons]
    refine ⟨fun second next => ?_, ih⟩
    by_cases ended : text.drop (reading text).2 = []
    · simp [ended] at next
    · rw [scraps_cons ended, List.head?_cons, Option.mem_some_iff] at next
      rw [← next]
      exact precedes_reading ended

end Lexer

theorem chain_tokenize (source : String) :
    ((tokenize source).tokens.flatMap (·.scraps)).IsChain
      fun first second => first.sort.Precedes second.sort := by
  rw [tokenize_scraps, List.isChain_append]
  refine ⟨List.isChain_map_of_isChain Scrap.plain (fun _ _ follows => follows)
    (Lexer.chain_scraps source.toList), .singleton _, ?_⟩
  rintro first - second last
  obtain rfl : _ = second := by simpa using last
  exact ⟨by simp, fun _ => .inr rfl⟩

/-- Trivia around a token. Those after it stay in its line, and a comment up to the end of the line
is the last of them. Before it such a comment is followed by the line break, or it is the last thing
in the text. -/
structure Token.IsAttached (token : Token) : Prop where
  sameLine : ∀ trivia ∈ token.trailing, trivia.kind ≠ .newline
  lineEnd : ∀ before comment after, token.trailing = before ++ comment :: after →
    comment.kind = .lineComment → after = []
  lineBreak : ∀ before comment after, token.leading = before ++ comment :: after →
    comment.kind = .lineComment →
      after.head?.any (·.kind = .newline) ∨ (after = [] ∧ token.kind = .endOfInput)
  blanks : ∀ before first second after,
    (token.leading = before ++ first :: second :: after ∨
      token.trailing = before ++ first :: second :: after) →
    ¬ (first.kind = .whitespace ∧ second.kind = .whitespace)
  ended : token.kind = .endOfInput → token.trailing = []

/-- In every text the trivia are attached to the tokens in this way, and what stands before a token
that is not the first one starts with a line break. -/
theorem tokenize_attached (source : String) :
    (∀ token ∈ (tokenize source).tokens, token.IsAttached) ∧
      ∀ token ∈ (tokenize source).tokens.tail, token.leading ≠ [] →
        ∃ first rest, token.leading = first :: rest ∧ first.kind = .newline := by
  obtain ⟨calm, fresh⟩ := tokenize_sorted source
  refine ⟨fun token member => ?_, fun token member some => (fresh token member).resolve_left some⟩
  have sameLine := calm token member
  have chain : token.scraps.IsChain fun first second => first.sort.Precedes second.sort :=
    List.IsChain.infix (chain_tokenize source)
      (List.infix_of_mem_flatten (List.mem_map_of_mem member))
  rw [Token.scraps, Token.spread] at chain
  have leads : token.leading.IsChain fun first second =>
      (Reading.trivia first.kind).Precedes (.trivia second.kind) :=
    (List.isChain_map Trivia.scrap).mp chain.left_of_append
  have trails : token.trailing.IsChain fun first second =>
      (Reading.trivia first.kind).Precedes (.trivia second.kind) :=
    (List.isChain_map Trivia.scrap).mp chain.right_of_append.tail
  refine ⟨sameLine, fun before comment after shape isLine => ?_,
    fun before comment after shape isLine => ?_, fun before first second after shape blank => ?_,
    fun isEnd => ?_⟩
  · rcases after with - | ⟨next, after⟩
    · rfl
    have follows := (List.isChain_append_cons_cons.mp (shape ▸ trails)).2.1
    rcases follows.2 (congrArg Reading.trivia isLine) with breaks | ended
    · exact absurd (Reading.trivia.inj breaks) (sameLine next (by simp [shape]))
    · cases ended
  · rcases after with - | ⟨next, after⟩
    · rw [shape, List.map_append, List.append_assoc] at chain
      have follows := (List.isChain_append_cons_cons.mp chain).2.1
      rcases follows.2 (congrArg Reading.trivia isLine) with breaks | ended
      · cases breaks
      · exact .inr ⟨rfl, Reading.token.inj ended⟩
    · have follows := (List.isChain_append_cons_cons.mp (shape ▸ leads)).2.1
      rcases follows.2 (congrArg Reading.trivia isLine) with breaks | ended
      · exact .inl (by simpa using Reading.trivia.inj breaks)
      · cases ended
  · have follows : (Reading.trivia first.kind).Precedes (.trivia second.kind) := by
      rcases shape with leading | trailing
      · rw [leading] at leads
        exact (List.isChain_append_cons_cons.mp leads).2.1
      · rw [trailing] at trails
        exact (List.isChain_append_cons_cons.mp trails).2.1
    exact follows.1 (congrArg Reading.trivia blank.1) (congrArg Reading.trivia blank.2)
  · rw [tokens_tokenize, List.mem_append, List.mem_singleton] at member
    rcases member with earlier | rfl
    · have unfinished := (Lexer.tiled_ofText source.toList).scanPieces.1.unfinished
      exact absurd isEnd (unfinished token (List.mem_reverse.mp earlier))
    · rfl

theorem tokenize_attached_comment : let tokens := (tokenize "a //b\n c").tokens
    tokens.length = 3 ∧ (∀ token ∈ tokens, token.IsAttached) ∧
      ∃ first rest, (tokens.getD 1 default).leading = first :: rest ∧ first.kind = .newline := by
  intro tokens
  have attached := tokenize_attached "a //b\n c"
  exact ⟨by decide +kernel, attached.1,
    attached.2 _ (by decide +kernel) (by decide +kernel)⟩

end Squirrel
