import Mathlib.Data.List.GetD
import Squirrel.Proofs.Token.Scan

/-! What is cut out of a text between two of its tokens reads as it did there. -/

namespace Squirrel

namespace Lexer

variable {quote : Char} {length : Nat}

section Pieces

variable {text rest : List Char}

theorem quotedLength_plain {quote c : Char} (plain : c ≠ '\\') (rest : List Char) :
    quotedLength quote (c :: rest) =
      if c = quote || Cursor.isLineBreak c then 0 else quotedLength quote rest + 1 := by
  rw [quotedLength] <;> grind

/-- An escape is read as one step of a literal: it takes what the length of the literal counts for
it, and reports what the list of its unknown escapes holds. -/
theorem scanEscape_steps (quote : Char) {lexer : Lexer} {text : List Char}
    (starts : lexer.cursor.rest = '\\' :: text) :
    ∃ passed, lexer.scanEscape.cursor = lexer.cursor.advance passed ∧
      quotedLength quote lexer.cursor.rest =
        passed + quotedLength quote lexer.scanEscape.cursor.rest ∧
      lexer.scanEscape.diagnostics = lexer.diagnostics ++
        (unknownEscapes 0 (lexer.cursor.rest.take passed)).map fun (place, escaped) =>
          ⟨.lexical (.unknownEscape escaped), .error, ⟨lexer.cursor.offset + place,
            lexer.cursor.offset + place + 2, lexer.cursor.line, lexer.cursor.column + place⟩⟩ := by
  cases text with
  | nil =>
    refine ⟨1, ?_, ?_, ?_⟩
    · simp [scanEscape, move, starts, Cursor.advance]
    · simp [scanEscape, move, starts, Cursor.advance, quotedLength]
    · simp [scanEscape, move, starts, Cursor.advance, unknownEscapes]
  | cons c rest =>
    by_cases breaks : Cursor.isLineBreak c
    · refine ⟨1, ?_, ?_, ?_⟩
      · simp [scanEscape, move, starts, Cursor.advance, breaks]
      · have stops : quotedLength quote (c :: rest) = 0 := by
          rw [quotedLength_plain (by rintro rfl; cases breaks)]
          simp [breaks]
        simp [scanEscape, move, starts, Cursor.advance, breaks, stops, quotedLength]
      · simp [scanEscape, move, starts, Cursor.advance, unknownEscapes, breaks]
    · have passed : lexer.scanEscape.cursor = lexer.cursor.advance 2 := by
        cases known : isEscape c <;>
          simp [scanEscape, move, starts, Cursor.advance, breaks, known, report]
      refine ⟨2, passed, ?_, ?_⟩
      · simp [passed, Cursor.advance, starts, quotedLength, breaks, Nat.add_comm]
      · cases known : isEscape c <;>
          simp [scanEscape, move, starts, Cursor.advance, unknownEscapes, breaks, known, report]

theorem quotedLength_take (plain : quote ≠ '\\') (text rest : List Char)
    (closed : (text.drop (quotedLength quote text)).head? = some quote) :
    text.take (quotedLength quote text + 1) = text.take (quotedLength quote text) ++ [quote] ∧
      quotedLength quote (text.take (quotedLength quote text) ++ quote :: rest) =
        quotedLength quote text := by
  fun_induction quotedLength quote text with
  | case1 => cases closed
  | case2 => cases closed
  | case3 c others isBreak =>
    simp only [List.drop_succ_cons, List.drop_zero, List.head?_cons, Option.some.injEq] at closed
    subst closed
    simp [quotedLength, isBreak]
  | case4 c others goesOn ih =>
    simp only [List.drop_succ_cons] at closed
    obtain ⟨shape, same⟩ := ih closed
    simp [quotedLength, goesOn, shape, same]
  | case5 c others noEscape noEnd ends =>
    simp only [List.drop_zero, List.head?_cons, Option.some.injEq] at closed
    subst closed
    simp [quotedLength_plain plain]
  | case6 c others noEnd noEscape goesOn ih =>
    simp only [List.drop_succ_cons] at closed
    obtain ⟨shape, same⟩ := ih closed
    have ordinary : c ≠ '\\' := by
      cases others with
      | nil => exact fun same => noEnd same rfl
      | cons next others => exact fun same => noEscape next others same rfl
    simp [quotedLength_plain ordinary, goesOn, shape, same]

theorem verbatimLength?_take (closed : verbatimLength? text = some length)
    (ends : rest.head? ≠ some '"') :
    verbatimLength? (text.take (length + 1) ++ rest) = some length := by
  fun_induction verbatimLength? text generalizing length with
  | case1 => cases closed
  | case2 others ih =>
    obtain ⟨inner, found, rfl⟩ := Option.map_eq_some_iff.mp closed
    simp [verbatimLength?, ih found]
  | case3 others single =>
    cases closed
    cases rest with
    | nil => rfl
    | cons c rest =>
      have other : c ≠ '"' := by simpa using ends
      simp [verbatimLength?, other]
  | case4 c others doubled other ih =>
    obtain ⟨inner, found, rfl⟩ := Option.map_eq_some_iff.mp closed
    simp [verbatimLength?, other, ih found]

theorem commentLength?_take (closed : commentLength? text = some length) (rest : List Char) :
    commentLength? (text.take (length + 2) ++ rest) = some length := by
  fun_induction commentLength? text generalizing length with
  | case1 => cases closed
  | case2 others =>
    cases closed
    rfl
  | case3 c others goesOn ih =>
    obtain ⟨inner, found, rfl⟩ := Option.map_eq_some_iff.mp closed
    have long := commentLength?_le found
    obtain ⟨next, others, rfl⟩ : ∃ next more, others = next :: more :=
      List.exists_cons_of_length_pos (by omega)
    rw [List.take_succ_cons, List.cons_append, commentLength?, ih found]
    · rfl
    · intro more isStar same
      rw [List.take_succ_cons, List.cons_append, List.cons.injEq] at same
      exact goesOn others isStar (by rw [same.1])

theorem exponentLength_digits {mark : Char} (isMark : mark = 'e' ∨ mark = 'E')
    (starts : startsWithDigit text) : exponentLength (mark :: text) = 1 + digitCount text := by
  simp [exponentLength, isMark, starts]

theorem exponentLength_signed {mark sign : Char} (isMark : mark = 'e' ∨ mark = 'E')
    (isSign : sign = '+' ∨ sign = '-') (starts : startsWithDigit text) :
    exponentLength (mark :: sign :: text) = 2 + digitCount text := by
  have noDigit : startsWithDigit (sign :: text) = false := by
    rcases isSign with rfl | rfl <;> rfl
  simp [exponentLength, isMark, isSign, starts, noDigit]

theorem exponentLength_cases (text : List Char) :
    exponentLength text = 0 ∨
      (∃ mark digits, text = mark :: digits ∧ (mark = 'e' ∨ mark = 'E') ∧
        startsWithDigit digits) ∨
      ∃ mark sign digits, text = mark :: sign :: digits ∧ (mark = 'e' ∨ mark = 'E') ∧
        (sign = '+' ∨ sign = '-') ∧ startsWithDigit digits := by
  fun_cases exponentLength text with
  | case1 mark others isMark starts => exact .inr (.inl ⟨mark, others, rfl, isMark, starts⟩)
  | case2 mark isMark sign digits signed =>
    exact .inr (.inr ⟨mark, sign, digits, rfl, isMark, signed⟩)
  | case3 | case4 | case5 | case6 => exact .inl rfl

theorem reading_string (tail : List Char) :
    reading ('"' :: tail) = quotedReading '"' .string ('"' :: tail) := by
  simp [reading, isInlineSpace, Cursor.isLineBreak]

theorem reading_character (tail : List Char) :
    reading ('\'' :: tail) = quotedReading '\'' .character ('\'' :: tail) := by
  simp [reading, isInlineSpace, Cursor.isLineBreak]

end Pieces

section Fronts

variable {front back : List Char}

theorem takeWhile_front {accept : Char → Bool}
    (within : ((front ++ back).takeWhile accept).length ≤ front.length) :
    front.takeWhile accept = (front ++ back).takeWhile accept := by
  rw [List.takeWhile_append] at within ⊢
  split
  · next all =>
    rw [if_pos all, List.length_append] at within
    have none : back.takeWhile accept = [] := List.length_eq_zero_iff.mp (by omega)
    rw [none, List.append_nil]
    exact (List.takeWhile_prefix accept).eq_of_length all
  · rfl

theorem digitCount_front (within : digitCount (front ++ back) ≤ front.length) :
    digitCount front = digitCount (front ++ back) :=
  congrArg List.length (takeWhile_front within)

theorem digitCount_pos {text : List Char} (starts : startsWithDigit text) :
    0 < digitCount text := by
  cases text with
  | nil => cases starts
  | cons c text =>
    have digit : isDigit c := by simpa [startsWithDigit] using starts
    simp [digitCount, digit]

theorem startsWithDigit_front (within : digitCount (front ++ back) ≤ front.length) :
    startsWithDigit front = startsWithDigit (front ++ back) := by
  cases front with
  | nil =>
    cases starts : startsWithDigit ([] ++ back) with
    | false => rfl
    | true =>
      have some := digitCount_pos starts
      simp only [List.length_nil] at within
      omega
  | cons c front => rfl

theorem fractionLength_front (within : fractionLength (front ++ back) ≤ front.length) :
    fractionLength front = fractionLength (front ++ back) := by
  cases front with
  | nil => exact (Nat.le_zero.mp within).symm
  | cons c front =>
    by_cases point : c = '.'
    · subst point
      rw [List.cons_append, fractionLength] at within
      rw [List.cons_append, fractionLength, fractionLength]
      by_cases starts : startsWithDigit (front ++ back)
      · rw [if_pos starts, List.length_cons] at within
        have inside : digitCount (front ++ back) ≤ front.length := by omega
        rw [startsWithDigit_front inside, digitCount_front inside]
      · have none : startsWithDigit front = false := by
          cases front with
          | nil => rfl
          | cons d front => simpa [startsWithDigit] using starts
        simp [starts, none]
    · simp [fractionLength, point]

theorem startsWithDigit_append (starts : startsWithDigit front) (back : List Char) :
    startsWithDigit (front ++ back) := by
  cases front with
  | nil => cases starts
  | cons c front => exact starts

theorem exponentLength_append (back : List Char) (some : exponentLength front ≠ 0) :
    exponentLength (front ++ back) ≠ 0 := by
  rcases exponentLength_cases front with zero | ⟨mark, digits, rfl, isMark, starts⟩ |
    ⟨mark, sign, digits, rfl, isMark, isSign, starts⟩
  · exact absurd zero some
  · have grown : exponentLength (mark :: digits ++ back) = _ :=
      exponentLength_digits isMark (startsWithDigit_append starts back)
    omega
  · have grown : exponentLength (mark :: sign :: digits ++ back) = _ :=
      exponentLength_signed isMark isSign (startsWithDigit_append starts back)
    omega

theorem exponentLength_front (within : exponentLength (front ++ back) ≤ front.length) :
    exponentLength front = exponentLength (front ++ back) := by
  rcases exponentLength_cases (front ++ back) with zero | ⟨mark, digits, shape, isMark, starts⟩ |
    ⟨mark, sign, digits, shape, isMark, isSign, starts⟩
  · rw [zero]
    exact Classical.byContradiction fun some => exponentLength_append back some zero
  · rw [shape, exponentLength_digits isMark starts] at within
    match front, shape with
    | [], _ =>
      simp only [List.length_nil] at within
      omega
    | c :: front, shape =>
      rw [List.cons_append, List.cons.injEq] at shape
      obtain ⟨rfl, rfl⟩ := shape
      have inside : digitCount (front ++ back) ≤ front.length := by
        rw [List.length_cons] at within
        omega
      rw [List.cons_append, exponentLength_digits isMark starts,
        exponentLength_digits isMark (startsWithDigit_front inside ▸ starts), digitCount_front inside]
  · rw [shape, exponentLength_signed isMark isSign starts] at within
    match front, shape with
    | [], _ | [_], _ =>
      simp only [List.length_nil, List.length_cons] at within
      omega
    | c :: d :: front, shape =>
      rw [List.cons_append, List.cons_append, List.cons.injEq, List.cons.injEq] at shape
      obtain ⟨rfl, rfl, rfl⟩ := shape
      have inside : digitCount (front ++ back) ≤ front.length := by
        rw [List.length_cons, List.length_cons] at within
        omega
      rw [List.cons_append, List.cons_append, exponentLength_signed isMark isSign starts,
        exponentLength_signed isMark isSign (startsWithDigit_front inside ▸ starts),
        digitCount_front inside]

theorem drop_front {count : Nat} (within : count ≤ front.length) :
    (front ++ back).drop count = front.drop count ++ back :=
  List.drop_append_of_le_length within

theorem decimalReading_front (within : (decimalReading (front ++ back)).2 ≤ front.length) :
    decimalReading front = decimalReading (front ++ back) := by
  simp only [decimalReading] at within ⊢
  have whole : digitCount front = digitCount (front ++ back) := digitCount_front (by omega)
  rw [← whole] at within ⊢
  rw [drop_front (by omega)] at within ⊢
  have fraction : fractionLength (front.drop (digitCount front)) =
      fractionLength (front.drop (digitCount front) ++ back) := by
    refine fractionLength_front ?_
    rw [List.length_drop]
    omega
  rw [← fraction] at within ⊢
  rw [drop_front (by omega)] at within ⊢
  have exponent : exponentLength (front.drop (digitCount front +
        fractionLength (front.drop (digitCount front)))) =
      exponentLength (front.drop (digitCount front +
        fractionLength (front.drop (digitCount front))) ++ back) := by
    refine exponentLength_front ?_
    rw [List.length_drop]
    omega
  rw [exponent]

/-- `part` is what the front of a text reads as, if the text itself reads as `whole` and that lies in
the front. -/
def Cuts (front : List Char) (whole part : Reading × Nat) : Prop :=
  whole.2 ≤ front.length → whole.1 ≠ .token .error → part = whole

variable {whole other part other' : Reading × Nat}

theorem cuts_ite {condition condition' : Prop} [Decidable condition] [Decidable condition']
    (kept : condition' → condition) (taken : condition → condition' → Cuts front whole part)
    (lost : condition → ¬ condition' → Cuts front whole other')
    (passed : ¬ condition → ¬ condition' → Cuts front other other') :
    Cuts front (if condition then whole else other) (if condition' then part else other') := by
  by_cases holds : condition
  · rw [if_pos holds]
    split
    · next holds' => exact taken holds holds'
    · next fails => exact lost holds fails
  · have fails : ¬ condition' := fun holds' => holds (kept holds')
    rw [if_neg holds, if_neg fails]
    exact passed holds fails

theorem cuts_same {condition : Prop} [Decidable condition]
    (taken : condition → Cuts front whole part) (passed : ¬ condition → Cuts front other other') :
    Cuts front (if condition then whole else other) (if condition then part else other') :=
  cuts_ite id (fun holds _ => taken holds) (fun holds fails => absurd holds fails)
    (fun fails _ => passed fails)

theorem cuts_decimal : Cuts front (decimalReading (front ++ back)) (decimalReading front) :=
  fun within _ => decimalReading_front within

theorem cuts_hexadecimal :
    Cuts front (hexadecimalReading (front ++ back)) (hexadecimalReading front) := by
  intro within proper
  unfold hexadecimalReading at within proper ⊢
  dsimp only at within proper ⊢
  split at within
  · next digit =>
    rw [drop_front (by omega)] at within digit ⊢
    have inside : ((front.drop 2 ++ back).takeWhile isHexDigit).length ≤ (front.drop 2).length := by
      rw [List.length_drop]
      omega
    have starts : (front.drop 2).head?.any isHexDigit := by
      cases shape : front.drop 2 with
      | nil =>
        rw [shape] at inside digit
        cases back with
        | nil => cases digit
        | cons c back =>
          have isDigit : isHexDigit c := by simpa using digit
          simp [isDigit] at inside
      | cons c others => simpa [shape] using digit
    rw [if_pos starts, if_pos digit, takeWhile_front inside]
  · next stays =>
    rw [if_neg stays] at proper
    exact absurd rfl proper

theorem getD_front {place : Nat} {c : Char} (shown : c ≠ '\x00')
    (inside : front.getD place '\x00' = c) : (front ++ back).getD place '\x00' = c := by
  by_cases within : place < front.length
  · rwa [List.getD_append _ _ _ _ within]
  · rw [List.getD_eq_default _ _ (by omega)] at inside
    exact absurd inside.symm shown

theorem cuts_number : Cuts front (numberReading (front ++ back)) (numberReading front) := by
  refine cuts_ite ?_ (fun _ _ => cuts_hexadecimal) ?_ (fun _ _ => cuts_decimal)
  · rintro ⟨zero, mark⟩
    exact ⟨getD_front (by decide) zero,
      mark.imp (getD_front (by decide)) (getD_front (by decide))⟩
  · intro marked unmarked within proper
    have long : 2 ≤ front.length := by
      refine Nat.le_trans ?_ within
      unfold hexadecimalReading
      dsimp only
      split <;> omega
    rw [List.getD_append _ _ _ _ (by omega), List.getD_append _ _ _ _ (by omega)] at marked
    exact absurd marked unmarked

theorem cuts_word : Cuts front (wordReading (front ++ back)) (wordReading front) := by
  intro within _
  have same : front.takeWhile isWordRest = (front ++ back).takeWhile isWordRest :=
    takeWhile_front within
  rw [wordReading, wordReading, same]

theorem cuts_operator : Cuts front (operatorReading (front ++ back)) (operatorReading front) := by
  intro within proper
  unfold operatorReading at within proper ⊢
  cases found : operatorAt? (front ++ back) with
  | none =>
    rw [found] at proper
    exact absurd rfl proper
  | some entry =>
    rw [found] at within
    obtain ⟨starts, before, after, listed, others⟩ := List.find?_eq_some_iff_append.mp found
    have inside : entry.1.toList <+: front := by
      refine List.prefix_of_prefix_length_le (List.isPrefixOf_iff_prefix.mp starts)
        (List.prefix_append front back) ?_
      rw [String.length_toList]
      exact within
    have same : operatorAt? front = some entry := by
      refine List.find?_eq_some_iff_append.mpr
        ⟨List.isPrefixOf_iff_prefix.mpr inside, before, after, listed, fun other member => ?_⟩
      -- what starts the front starts the text as well
      have missing := others other member
      rw [Bool.not_eq_true', Bool.eq_false_iff, ne_eq, List.isPrefixOf_iff_prefix] at missing ⊢
      exact fun starts => missing (starts.trans (List.prefix_append front back))
    rw [same]

theorem verbatimLength?_ends {text : List Char} (closed : verbatimLength? text = some length) :
    (text.drop (length + 1)).head? ≠ some '"' := by
  fun_induction verbatimLength? text generalizing length with
  | case1 => cases closed
  | case2 others ih | case4 c others doubled other ih =>
    obtain ⟨inner, found, rfl⟩ := Option.map_eq_some_iff.mp closed
    exact ih found
  | case3 others single =>
    cases closed
    cases others with
    | nil => simp
    | cons c others =>
      rintro ⟨⟩
      exact single others rfl rfl

theorem front_eq {count : Nat} (within : count ≤ front.length) :
    front = (front ++ back).take count ++ front.drop count := by
  rw [List.take_append_of_le_length within, List.take_append_drop]

theorem cuts_verbatim : Cuts front (verbatimReading (front ++ back)) (verbatimReading front) := by
  intro within proper
  unfold verbatimReading at within proper ⊢
  cases closed : verbatimLength? ((front ++ back).drop 2) with
  | none =>
    rw [closed] at proper
    exact absurd rfl proper
  | some length =>
    replace within : length + 3 ≤ front.length := by rwa [closed] at within
    rw [drop_front (by omega)] at closed
    have long : length + 1 ≤ (front.drop 2).length := by
      rw [List.length_drop]
      omega
    have ends : ((front.drop 2).drop (length + 1)).head? ≠ some '"' := by
      have ends := verbatimLength?_ends closed
      rw [drop_front long] at ends
      cases shape : (front.drop 2).drop (length + 1) with
      | nil => simp
      | cons c others => simpa [shape] using ends
    have same := verbatimLength?_take closed ends
    rw [← front_eq long] at same
    rw [same]

theorem cuts_blockComment :
    Cuts front (blockCommentReading (front ++ back)) (blockCommentReading front) := by
  intro within proper
  unfold blockCommentReading at within proper ⊢
  cases closed : commentLength? ((front ++ back).drop 2) with
  | none =>
    rw [closed] at proper
    exact absurd rfl proper
  | some length =>
    replace within : length + 4 ≤ front.length := by rwa [closed] at within
    rw [drop_front (by omega)] at closed
    have long : length + 2 ≤ (front.drop 2).length := by
      rw [List.length_drop]
      omega
    have same := commentLength?_take closed ((front.drop 2).drop (length + 2))
    rw [← front_eq long] at same
    rw [same]

theorem quotedLength_front (plain : quote ≠ '\\')
    (closed : ((front ++ back).drop (quotedLength quote (front ++ back))).head? = some quote)
    (within : quotedLength quote (front ++ back) + 1 ≤ front.length) :
    quotedLength quote front = quotedLength quote (front ++ back) := by
  obtain ⟨quoted, same⟩ := quotedLength_take plain (front ++ back)
    (front.drop (quotedLength quote (front ++ back) + 1)) closed
  rwa [← List.singleton_append, ← List.append_assoc, ← quoted, ← front_eq within] at same

theorem cuts_quoted (plain : quote ≠ '\\') (kind : Kind) :
    Cuts front (quotedReading quote kind (front ++ back)) (quotedReading quote kind front) := by
  intro within proper
  unfold quotedReading at within proper ⊢
  dsimp only at within proper ⊢
  split at within
  · next closed =>
    rw [drop_front (by omega)] at within closed ⊢
    have long : quotedLength quote (front.drop 1 ++ back) + 1 ≤ (front.drop 1).length := by
      rw [List.length_drop]
      omega
    have ends : ((front.drop 1).drop (quotedLength quote (front.drop 1 ++ back))).head? =
        some quote := by
      rw [drop_front (by omega)] at closed
      cases shape : (front.drop 1).drop (quotedLength quote (front.drop 1 ++ back)) with
      | nil =>
        rw [List.drop_eq_nil_iff] at shape
        omega
      | cons c others =>
        rw [shape] at closed
        exact closed
    rw [quotedLength_front plain closed long, if_pos ends, if_pos closed]
  · next stays =>
    rw [if_neg stays] at proper
    exact absurd rfl proper

theorem cuts_newline (unread : front ≠ []) :
    Cuts front (.trivia .newline, newlineLength (front ++ back))
      (.trivia .newline, newlineLength front) := by
  intro within _
  have first : (front ++ back).getD 0 '\x00' = front.getD 0 '\x00' :=
    List.getD_append _ _ _ _ (List.length_pos_iff.mpr unread)
  rw [Prod.mk.injEq]
  refine ⟨rfl, ?_⟩
  unfold newlineLength at within ⊢
  rw [first] at within ⊢
  by_cases pair : front.getD 0 '\x00' = '\r' ∧ front.getD 1 '\x00' = '\n'
  · rw [if_pos pair, if_pos ⟨pair.1, getD_front (by decide) pair.2⟩]
  · rw [if_neg pair]
    split
    · next pair' =>
      rw [if_pos pair'] at within
      rw [List.getD_append _ _ _ _ within] at pair'
      exact absurd pair' pair
    · rfl

theorem cuts_line : Cuts front (.trivia .lineComment, lineLength (front ++ back))
    (.trivia .lineComment, lineLength front) := by
  intro within _
  exact congrArg (fun taken : List Char => (Reading.trivia .lineComment, taken.length))
    (takeWhile_front within)

theorem cuts_space : Cuts front
    (.trivia .whitespace, ((front ++ back).takeWhile isInlineSpace).length)
    (.trivia .whitespace, (front.takeWhile isInlineSpace).length) := by
  intro within _
  exact congrArg (fun taken : List Char => (Reading.trivia .whitespace, taken.length))
    (takeWhile_front within)

theorem two_le_lineLength {text : List Char} (first : text.getD 0 '\x00' = '/')
    (second : text.getD 1 '\x00' = '/') : 2 ≤ lineLength text := by
  match text, first, second with
  | [], first, _ => simp at first
  | [_], _, second => simp at second
  | c :: d :: text, first, second =>
    simp only [List.getD_cons_zero, List.getD_cons_succ] at first second
    subst first second
    simp [lineLength, Cursor.isLineBreak]

theorem two_le_blockComment {text : List Char}
    (proper : (blockCommentReading text).1 ≠ .token .error) : 2 ≤ (blockCommentReading text).2 := by
  unfold blockCommentReading at proper ⊢
  split
  · next length closed => exact Nat.le_add_left 2 (length + 2)
  · next open_ => simp [open_] at proper

theorem two_le_verbatim {text : List Char}
    (proper : (verbatimReading text).1 ≠ .token .error) : 2 ≤ (verbatimReading text).2 := by
  unfold verbatimReading at proper ⊢
  split
  · next length closed => exact Nat.le_add_left 2 (length + 1)
  · next open_ => simp [open_] at proper

theorem cuts_reading (back : List Char) (unread : front ≠ []) :
    Cuts front (reading (front ++ back)) (reading front) := by
  have first : (front ++ back).getD 0 '\x00' = front.getD 0 '\x00' :=
    List.getD_append _ _ _ _ (List.length_pos_iff.mpr unread)
  have second {c : Char} (shown : c ≠ '\x00') (inside : front.getD 1 '\x00' = c) :
      (front ++ back).getD 1 '\x00' = c := getD_front shown inside
  -- a mark of two characters that the front does not hold reaches out of it
  have long {d : Char} {whole part : Reading × Nat} (starts : (front ++ back).getD 1 '\x00' = d)
      (fails : front.getD 1 '\x00' ≠ d) (length : whole.1 ≠ .token .error → 2 ≤ whole.2) :
      Cuts front whole part := by
    intro within proper
    rw [List.getD_append _ _ _ _ (Nat.le_trans (length proper) within)] at starts
    exact absurd starts fails
  unfold reading
  rw [first]
  refine cuts_same (fun _ => cuts_space) (fun _ => ?_)
  refine cuts_same (fun _ => cuts_newline unread) (fun _ => ?_)
  refine cuts_ite (Or.imp_right (And.imp_right (second (by decide)))) (fun _ _ => cuts_line) ?_ ?_
  · rintro (hash | ⟨slash, other⟩) fails
    · exact absurd (.inl hash) fails
    · exact long other (fun inside => fails (.inr ⟨slash, inside⟩))
        (fun _ => two_le_lineLength (first.trans slash) other)
  intro _ _
  refine cuts_ite (And.imp_right (second (by decide))) (fun _ _ => cuts_blockComment) ?_ ?_
  · rintro ⟨slash, star⟩ fails
    exact long star (fun inside => fails ⟨slash, inside⟩) two_le_blockComment
  intro _ _
  refine cuts_same (fun _ => cuts_quoted (by decide) _) (fun _ => ?_)
  refine cuts_ite (And.imp_right (second (by decide))) (fun _ _ => cuts_verbatim) ?_ ?_
  · rintro ⟨sign, quote⟩ fails
    exact long quote (fun inside => fails ⟨sign, inside⟩) two_le_verbatim
  intro _ _
  refine cuts_same (fun _ => cuts_quoted (by decide) _) (fun _ => ?_)
  refine cuts_same (fun _ => cuts_number) (fun _ => ?_)
  exact cuts_same (fun _ => cuts_word) (fun _ => cuts_operator)

theorem escapesAt_front (unread : front ≠ []) (within : (reading (front ++ back)).2 ≤ front.length)
    (proper : (reading (front ++ back)).1 ≠ .token .error) :
    escapesAt front = escapesAt (front ++ back) := by
  obtain ⟨quote, inner, rfl⟩ := List.exists_cons_of_ne_nil unread
  simp only [escapesAt, List.cons_append, List.getD_cons_zero, List.drop_succ_cons, List.drop_zero]
  split
  · next isQuote =>
    obtain ⟨kind, plain, reads⟩ : ∃ kind, quote ≠ '\\' ∧
        reading (quote :: (inner ++ back)) = quotedReading quote kind (quote :: (inner ++ back)) := by
      rcases isQuote with rfl | rfl
      · exact ⟨_, by decide, reading_string _⟩
      · exact ⟨_, by decide, reading_character _⟩
    rw [List.cons_append, reads] at within proper
    simp only [quotedReading, List.drop_succ_cons, List.drop_zero] at within proper
    split at within
    · next closed =>
      have long : quotedLength quote (inner ++ back) + 1 ≤ inner.length := Nat.le_of_succ_le_succ within
      rw [quotedLength_front plain closed long, List.take_append_of_le_length (by omega)]
    · next stays =>
      rw [if_neg stays] at proper
      exact absurd rfl proper
  · rfl

theorem firstScrap_front (unread : front ≠ []) (within : (reading (front ++ back)).2 ≤ front.length)
    (proper : (firstScrap (front ++ back)).sort ≠ .token .error) :
    firstScrap front = firstScrap (front ++ back) := by
  rw [firstScrap, firstScrap, cuts_reading back unread within proper,
    escapesAt_front unread within proper, List.take_append_of_le_length within]

end Fronts

section Cuts

def written (read : List Scrap) : List Char := read.flatMap (·.text.toList)

theorem scraps_split {text : List Char} {first second : List Scrap}
    (split : scraps text = first ++ second) :
    ∃ rest, text = written first ++ rest ∧ scraps rest = second := by
  induction first generalizing text with
  | nil => exact ⟨text, rfl, split⟩
  | cons scrap first ih =>
    have unread : text ≠ [] := by
      rintro rfl
      rw [scraps_nil] at split
      cases split
    rw [scraps_cons unread, List.cons_append, List.cons.injEq] at split
    obtain ⟨rfl, others⟩ := split
    obtain ⟨rest, shape, read⟩ := ih others
    refine ⟨rest, ?_, read⟩
    rw [written, List.flatMap_cons, List.append_assoc]
    rw [written] at shape
    rw [← shape, firstScrap, String.toList_ofList, List.take_append_drop]

theorem scraps_front {front : List Scrap} {text : List Char} {back : List Scrap}
    (split : scraps (written front ++ text) = front ++ back)
    (proper : ∀ scrap ∈ front, scrap.sort ≠ .token .error) : scraps (written front) = front := by
  induction front with
  | nil => simp [written]
  | cons scrap front ih =>
    have whole : written (scrap :: front) = scrap.text.toList ++ written front := rfl
    have unread : written (scrap :: front) ++ text ≠ [] := by
      intro nothing
      rw [nothing, scraps_nil] at split
      cases split
    rw [scraps_cons unread, List.cons_append, List.cons.injEq] at split
    obtain ⟨first, others⟩ := split
    have length : scrap.text.toList.length = (reading (written (scrap :: front) ++ text)).2 := by
      have taken := congrArg (fun scrap : Scrap => scrap.text.toList.length) first
      simp only [firstScrap, String.toList_ofList, List.length_take_of_le (reading_le unread)] at taken
      exact taken.symm
    have within : (reading (written (scrap :: front) ++ text)).2 ≤
        (written (scrap :: front)).length := by
      rw [← length, whole, List.length_append]
      omega
    have some : written (scrap :: front) ≠ [] := by
      intro nothing
      rw [nothing, List.nil_append] at within
      rw [nothing, List.nil_append] at unread
      exact absurd within (Nat.not_le_of_gt (reading_pos unread))
    have own : (firstScrap (written (scrap :: front) ++ text)).sort ≠ .token .error := by
      rw [first]
      exact proper scrap (List.mem_cons_self ..)
    have same := cuts_reading text some within own
    have rest : (written (scrap :: front) ++ text).drop
        (reading (written (scrap :: front) ++ text)).2 = written front ++ text := by
      rw [← length, whole, List.append_assoc, List.drop_left]
    rw [scraps_cons some, firstScrap_front some within own, first, same, ← length, whole,
      List.drop_left]
    rw [rest] at others
    rw [ih others fun other member => proper other (List.mem_cons_of_mem _ member)]

end Cuts

end Lexer

def Scrap.plain (scrap : Scrap) : Scrap := { scrap with escapes := [] }

def Trivia.scrap (trivia : Trivia) : Scrap := ⟨.trivia trivia.kind, trivia.text, []⟩

namespace Token

def scrap (token : Token) : Scrap := ⟨.token token.kind, token.text, []⟩

section Spreading

variable {α : Type} (own : Token → α) (inert : Trivia → α)

def spread (token : Token) : List α :=
  token.leading.map inert ++ own token :: token.trailing.map inert

/-- What lies between the start of a token and the end of the last one of those after it. -/
def spreadTo (token : Token) : List Token → List α
  | [] => [own token]
  | next :: others =>
    own token :: token.trailing.map inert ++ next.leading.map inert ++ next.spreadTo others

theorem flatMap_spread (token : Token) (others : List Token) :
    (token :: others).flatMap (spread own inert) =
      token.leading.map inert ++ token.spreadTo own inert others ++
        ((token :: others).getLast (List.cons_ne_nil _ _)).trailing.map inert := by
  induction others generalizing token with
  | nil => simp [spread, spreadTo]
  | cons next others ih =>
    rw [List.flatMap_cons, ih, List.getLast_cons (List.cons_ne_nil _ _), spread, spreadTo]
    simp

theorem map_spreadTo {β : Type} (f : α → β) (token : Token) (others : List Token) :
    (token.spreadTo own inert others).map f = token.spreadTo (f ∘ own) (f ∘ inert) others := by
  induction others generalizing token with
  | nil => rfl
  | cons next others ih => simp [spreadTo, ih]

theorem head_spreadTo (token : Token) (others : List Token) :
    (token.spreadTo own inert others).head? = some (own token) := by
  cases others <;> simp [spreadTo]

theorem getLast_spreadTo (token : Token) (others : List Token) :
    (token.spreadTo own inert others).getLast? =
      some (own ((token :: others).getLast (List.cons_ne_nil _ _))) := by
  induction others generalizing token with
  | nil => rfl
  | cons next others ih =>
    rw [List.getLast_cons (List.cons_ne_nil _ _), spreadTo, List.getLast?_append, ih]
    rfl

theorem mem_spreadTo {token : Token} {others : List Token} {piece : α}
    (member : piece ∈ token.spreadTo own inert others) :
    (∃ other ∈ token :: others, piece = own other) ∨ ∃ trivia, piece = inert trivia := by
  induction others generalizing token with
  | nil => exact .inl ⟨token, List.mem_cons_self .., List.mem_singleton.mp member⟩
  | cons next others ih =>
    rw [spreadTo, List.mem_append, List.mem_append, List.mem_cons] at member
    rcases member with ((first | after) | before) | later
    · exact .inl ⟨token, List.mem_cons_self .., first⟩
    · obtain ⟨trivia, -, rfl⟩ := List.mem_map.mp after
      exact .inr ⟨trivia, rfl⟩
    · obtain ⟨trivia, -, rfl⟩ := List.mem_map.mp before
      exact .inr ⟨trivia, rfl⟩
    · rcases ih later with ⟨other, inside, same⟩ | inert
      · exact .inl ⟨other, List.mem_cons_of_mem _ inside, same⟩
      · exact .inr inert

end Spreading

def scraps (token : Token) : List Scrap := token.spread scrap (·.scrap)

end Token

namespace Lexer

section Runs

variable {lexer next : Lexer} {piece : Reading × Nat}

def collected (lexer : Lexer) : List Scrap :=
  lexer.tokens.flatMap (·.scraps) ++ lexer.pending.map (·.scrap)

theorem Puts.collected (puts : lexer.Puts next piece) (settled : lexer.Settled) :
    next.collected = lexer.collected ++
      [⟨piece.1, String.ofList (lexer.cursor.rest.take piece.2), []⟩] := by
  cases sort : piece.1 with
  | token kind =>
    obtain ⟨span, produced, pending, -⟩ := puts.token sort
    simp [Lexer.collected, tokens, produced, pending, Token.scraps, Token.spread, Token.scrap]
  | trivia kind =>
    obtain ⟨trivia, isKind, isText, placed⟩ := puts.trivia settled sort
    have own : trivia.scrap =
        ⟨.trivia kind, String.ofList (lexer.cursor.rest.take piece.2), []⟩ := by
      rw [Trivia.scrap, isKind, isText]
    rcases placed with ⟨-, none, still, -, last, earlier, before, after⟩ | ⟨-, produced, pending⟩
    · simp [Lexer.collected, tokens, before, after, none, still, Token.scraps, Token.spread,
        Token.scrap, own]
    · simp [Lexer.collected, tokens, produced, pending, own]

theorem collected_scanPieces (settled : lexer.Settled) :
    lexer.scanPieces.collected =
      lexer.collected ++ (scraps lexer.cursor.rest).map (·.plain) := by
  induction lexer using scanPieces.induct with
  | case1 lexer ended =>
    rw [Lexer.scanPieces, if_pos ended, ended, scraps_nil, List.map_nil, List.append_nil]
  | case2 lexer unread ih =>
    have puts := puts_scanPiece unread
    have one := puts.collected settled
    rw [Lexer.scanPieces, if_neg unread, ih (read_scanPiece settled unread).settled, one,
      puts.reads.rest, scraps_cons unread]
    simp [firstScrap, Scrap.plain]

theorem marksFrom_plain (breaks : Nat) (read : List Scrap) :
    marksFrom breaks (read.map (·.plain)) = marksFrom breaks read := by
  induction read generalizing breaks with
  | nil => rfl
  | cons scrap read ih =>
    rw [List.map_cons, marksFrom, marksFrom]
    simp only [ih]
    rfl

theorem written_plain (read : List Scrap) : written (read.map (·.plain)) = written read := by
  simp [written, List.flatMap_map, Scrap.plain]

end Runs

end Lexer

section Runs

open Lexer

theorem tokenize_scraps (source : String) :
    (tokenize source).tokens.flatMap (·.scraps) =
      (scraps source.toList).map (·.plain) ++ [⟨.token .endOfInput, "", []⟩] := by
  have collected : (ofText source.toList).scanPieces.collected =
      (scraps source.toList).map (·.plain) :=
    collected_scanPieces (tiled_ofText source.toList).settled
  rw [tokens_tokenize, List.flatMap_append, ← collected, Lexer.collected, List.append_assoc]
  simp [Token.scraps, Token.spread, Token.scrap]

section Tiles

variable {source : List Char} {start stop : Nat} {pieces : List Piece}

theorem tiles_append {first second : List Piece} (tiles : Tiles source start (first ++ second) stop)
    : ∃ middle, Tiles source start first middle ∧ Tiles source middle second stop := by
  induction first generalizing start with
  | nil => exact ⟨start, rfl, tiles⟩
  | cons piece first ih =>
    obtain ⟨here, own, others⟩ := tiles
    obtain ⟨middle, before, after⟩ := ih others
    exact ⟨middle, ⟨here, own, before⟩, after⟩

theorem Tiles.start_eq {piece : Piece} (tiles : Tiles source start pieces stop)
    (first : pieces.head? = some piece) : start = piece.start := by
  cases pieces with
  | nil => cases first
  | cons other pieces =>
    cases first
    exact tiles.1.symm

theorem Tiles.stop_eq {piece : Piece} (tiles : Tiles source start pieces stop)
    (last : pieces.getLast? = some piece) : stop = piece.stop := by
  induction pieces generalizing start with
  | nil => cases last
  | cons other pieces ih =>
    obtain ⟨-, -, others⟩ := tiles
    cases pieces with
    | nil =>
      cases last
      exact Eq.symm others
    | cons next pieces => exact ih others (by rwa [List.getLast?_cons_cons] at last)

end Tiles

theorem marksFrom_trivia (breaks : Nat) (trivia : List Trivia) :
    marksFrom breaks (trivia.map (·.scrap)) = [] ∧
      breaksFrom breaks (trivia.map (·.scrap)) = breaks + trivia.countP (·.kind = .newline) := by
  induction trivia generalizing breaks with
  | nil => exact ⟨rfl, rfl⟩
  | cons one trivia ih =>
    rw [List.map_cons, marksFrom, breaksFrom, Trivia.scrap, List.countP_cons]
    cases kind : one.kind <;> simp [ih, Nat.add_assoc, Nat.add_comm 1]

theorem marks_spreadTo (breaks : Nat) (token : Token) (others : List Token)
    (calm : ∀ other ∈ token :: others, ∀ trivia ∈ other.trailing, trivia.kind ≠ .newline) :
    marksFrom breaks (token.spreadTo Token.scrap (·.scrap) others) =
      (token.toLexeme, breaks) :: others.map (·.mark) := by
  induction others generalizing token breaks with
  | nil => rfl
  | cons next others ih =>
    have still : token.trailing.countP (·.kind = .newline) = 0 := by
      rw [List.countP_eq_zero]
      intro trivia member
      simpa using calm token (List.mem_cons_self ..) trivia member
    have after := marksFrom_trivia 0 token.trailing
    rw [still] at after
    have before := marksFrom_trivia 0 next.leading
    rw [Nat.zero_add] at before
    have rest := ih next.newlinesBefore next
      (fun other member => calm other (List.mem_cons_of_mem _ member))
    rw [Token.spreadTo, List.cons_append, List.cons_append, List.append_assoc, marksFrom]
    simp only [Token.scrap] at rest ⊢
    rw [marksFrom_append, marksFrom_append, after.1, after.2, before.1, before.2,
      show next.leading.countP (·.kind = .newline) = next.newlinesBefore from rfl, rest]
    rfl

section Cut

variable {source : String} {before after others : List Token} {first : Token}

section

variable (split : (tokenize source).tokens = before ++ first :: others ++ after)

include split

theorem slice_between :
    slice source.toList first.span.start
        ((first :: others).getLast (List.cons_ne_nil _ _)).span.stop =
      written (first.spreadTo Token.scrap (·.scrap) others) := by
  have tiles := tiles_tokenize source
  have whole : (first :: others).flatMap (·.pieces) = _ :=
    Token.flatMap_spread Token.piece Trivia.piece first others
  rw [split, List.flatMap_append, List.flatMap_append, whole, List.append_assoc] at tiles
  obtain ⟨_, -, tiles⟩ := tiles_append tiles
  rw [List.append_assoc, List.append_assoc] at tiles
  obtain ⟨_, -, tiles⟩ := tiles_append tiles
  obtain ⟨_, tiles, -⟩ := tiles_append tiles
  have starts := tiles.start_eq (Token.head_spreadTo ..)
  have stops := tiles.stop_eq (Token.getLast_spreadTo ..)
  subst starts stops
  have texts : (first.spreadTo Token.piece Trivia.piece others).map (·.text) =
      (first.spreadTo Token.scrap (·.scrap) others).map (·.text) := by
    rw [Token.map_spreadTo, Token.map_spreadTo]
    rfl
  calc slice source.toList first.piece.start _
      = ((first.spreadTo Token.piece Trivia.piece others).map (·.text)).flatMap (·.toList) := by
        rw [List.flatMap_map]
        exact tiles.text.symm
    _ = written (first.spreadTo Token.scrap (·.scrap) others) := by
        rw [texts, List.flatMap_map, written]

theorem scraps_between (goesOn : after ≠ [])
    (proper : ∀ token ∈ first :: others, token.kind ≠ .error) :
    (scraps (written (first.spreadTo Token.scrap (·.scrap) others))).map (·.plain) =
      first.spreadTo Token.scrap (·.scrap) others := by
  have whole := tokenize_scraps source
  have middle : (first :: others).flatMap (·.scraps) = _ :=
    Token.flatMap_spread Token.scrap (·.scrap) first others
  rw [split, List.flatMap_append, List.flatMap_append, middle] at whole
  -- the end token is the last of those after the cut
  have some : after.flatMap (·.scraps) ≠ [] := by
    obtain ⟨last, earlier, rfl⟩ := List.exists_cons_of_ne_nil goesOn
    simp [Token.scraps, Token.spread]
  rw [← List.dropLast_concat_getLast some, ← List.append_assoc] at whole
  have read := List.append_inj_left' whole rfl
  rw [List.append_assoc, List.append_assoc, List.append_assoc] at read
  obtain ⟨_, rest, shape, -, read⟩ := List.map_eq_append_iff.mp read.symm
  obtain ⟨_, rest, rfl, -, read⟩ := List.map_eq_append_iff.mp read
  obtain ⟨own, rest, rfl, same, -⟩ := List.map_eq_append_iff.mp read
  obtain ⟨_, -, read⟩ := scraps_split shape
  obtain ⟨_, -, read⟩ := scraps_split read
  obtain ⟨text, rfl, -⟩ := scraps_split read
  rw [← same, written_plain, scraps_front read]
  intro scrap member
  have listed : scrap.plain ∈ first.spreadTo Token.scrap (·.scrap) others := by
    rw [← same]
    exact List.mem_map_of_mem member
  rcases Token.mem_spreadTo _ _ listed with ⟨token, inside, shape⟩ | ⟨trivia, shape⟩
  · have sort : scrap.sort = .token token.kind := congrArg Scrap.sort shape
    rw [sort]
    exact fun isError => proper token inside (Reading.token.inj isError)
  · have sort : scrap.sort = .trivia trivia.kind := congrArg Scrap.sort shape
    rw [sort]
    simp

/-- What is cut out of a text from one token to another reads as these tokens, up to where they
stand and the lines that end before the first one. -/
theorem tokenize_cut (goesOn : after ≠ []) (proper : ∀ token ∈ first :: others, token.kind ≠ .error)
    :
    ∃ breaks, (tokenize (String.ofList (slice source.toList first.span.start
        ((first :: others).getLast (List.cons_ne_nil _ _)).span.stop))).tokens.map (·.mark) =
      (first.toLexeme, 0) :: others.map (·.mark) ++ [(⟨.endOfInput, ""⟩, breaks)] := by
  have calm : ∀ other ∈ first :: others, ∀ trivia ∈ other.trailing, trivia.kind ≠ .newline := by
    intro other member
    refine (tokenize_sorted source).1 other ?_
    rw [split]
    exact List.mem_append_left _ (List.mem_append_right _ member)
  rw [tokenize_marks, String.toList_ofList, slice_between split, ← marksFrom_plain,
    scraps_between split goesOn proper, marks_spreadTo 0 first others calm]
  exact ⟨_, rfl⟩

end

end Cut

end Runs

end Squirrel
