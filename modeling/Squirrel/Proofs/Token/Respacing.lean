import Mathlib.Data.List.Basic
import Squirrel.Proofs.Token.Cutting

/-! Tokens with blanks between them read as these tokens, whatever the blanks are. -/

namespace Squirrel

def Scrap.lexeme? (scrap : Scrap) : Option Lexeme :=
  match scrap.sort with
  | .token kind => some ⟨kind, scrap.text⟩
  | .trivia _ => none

structure Lexeme.IsWhole (lexeme : Lexeme) : Prop where
  unread : lexeme.text.toList ≠ []
  proper : lexeme.kind ≠ .error
  reads : Lexer.reading lexeme.text.toList = (.token lexeme.kind, lexeme.text.toList.length)

namespace Lexer

def isGap (c : Char) : Bool := c = ' ' || c = '\t' || c = '\n'

section Gaps

variable {c : Char} {front rest : List Char}

theorem gap_cases (gap : isGap c) : c = ' ' ∨ c = '\t' ∨ c = '\n' := by
  simpa [isGap, or_assoc] using gap

theorem outside_of_isGap {accept : Char → Bool} (gap : isGap c)
    (outside : [' ', '\t', '\n'].all (!accept ·)) : accept c = false := by
  have member : c ∈ [' ', '\t', '\n'] := by simpa using gap_cases gap
  simpa using List.all_eq_true.mp outside c member

theorem takeWhile_gap {accept : Char → Bool} (stops : accept c = false) (front rest : List Char) :
    (front ++ c :: rest).takeWhile accept = front.takeWhile accept := by
  induction front with
  | nil => rw [List.nil_append, List.takeWhile_cons_of_neg (by simp [stops]), List.takeWhile_nil]
  | cons d front ih => rw [List.cons_append, List.takeWhile_cons, List.takeWhile_cons, ih]

variable (gap : isGap c)

include gap

theorem noDigit_gap : isDigit c = false := outside_of_isGap gap (by decide)

theorem digitCount_gap (front rest : List Char) :
    digitCount (front ++ c :: rest) = digitCount front := by
  rw [digitCount, takeWhile_gap (noDigit_gap gap), digitCount]

theorem startsWithDigit_gap (front rest : List Char) :
    startsWithDigit (front ++ c :: rest) = startsWithDigit front := by
  cases front with
  | nil => simp [startsWithDigit, noDigit_gap gap]
  | cons d front => rfl

theorem fractionLength_gap (front rest : List Char) :
    fractionLength (front ++ c :: rest) = fractionLength front := by
  cases front with
  | nil => rcases gap_cases gap with rfl | rfl | rfl <;> rfl
  | cons d front =>
    by_cases point : d = '.'
    · subst point
      rw [List.cons_append, fractionLength, fractionLength, startsWithDigit_gap gap,
        digitCount_gap gap]
    · simp [fractionLength, point]

theorem exponentLength_gap (front rest : List Char) :
    exponentLength (front ++ c :: rest) = exponentLength front := by
  cases front with
  | nil => rcases gap_cases gap with rfl | rfl | rfl <;> rfl
  | cons mark front =>
    cases front with
    | nil =>
      have noSign : ¬ (c = '+' ∨ c = '-') := by
        rcases gap_cases gap with rfl | rfl | rfl <;> decide
      simp [exponentLength, startsWithDigit, noDigit_gap gap, noSign]
    | cons sign front =>
      have digits := startsWithDigit_gap gap front rest
      have whole := startsWithDigit_gap gap (sign :: front) rest
      have count := digitCount_gap gap front rest
      have all := digitCount_gap gap (sign :: front) rest
      rw [List.cons_append] at whole all
      simp only [List.cons_append, exponentLength, digits, whole, count, all]

theorem decimalReading_gap (front rest : List Char) :
    decimalReading (front ++ c :: rest) = decimalReading front := by
  have whole := digitCount_le front
  have fraction := fractionLength_le (front.drop (digitCount front))
  rw [List.length_drop] at fraction
  simp only [decimalReading, digitCount_gap gap]
  rw [drop_front whole, fractionLength_gap gap, drop_front (by omega), exponentLength_gap gap]

theorem hexadecimalReading_gap (long : 2 ≤ front.length) :
    hexadecimalReading (front ++ c :: rest) = hexadecimalReading front := by
  have stops : isHexDigit c = false := outside_of_isGap gap (by decide)
  have digit : (front.drop 2 ++ c :: rest).head?.any isHexDigit =
      (front.drop 2).head?.any isHexDigit := by
    cases front.drop 2 with
    | nil => simp [stops]
    | cons d digits => rfl
  simp only [hexadecimalReading, drop_front long, digit, takeWhile_gap stops]

omit gap in
theorem getD_zero_gap (unread : front ≠ []) :
    (front ++ c :: rest).getD 0 '\x00' = front.getD 0 '\x00' :=
  List.getD_append _ _ _ _ (List.length_pos_iff.mpr unread)

theorem getD_one_gap (unread : front ≠ []) {d : Char} (shown : d ≠ '\x00') (noGap : isGap d = false)
    : (front ++ c :: rest).getD 1 '\x00' = d ↔ front.getD 1 '\x00' = d := by
  match front, unread with
  | [first], _ =>
    have apart : c ≠ d := by
      rintro rfl
      rw [gap] at noGap
      cases noGap
    simp [apart, shown.symm]
  | first :: second :: front, _ => rfl

theorem numberReading_gap (unread : front ≠ []) :
    numberReading (front ++ c :: rest) = numberReading front := by
  simp only [numberReading, getD_zero_gap unread, decimalReading_gap gap,
    getD_one_gap gap unread (show 'x' ≠ '\x00' by decide) rfl,
    getD_one_gap gap unread (show 'X' ≠ '\x00' by decide) rfl]
  split
  · next marked =>
    refine hexadecimalReading_gap gap ?_
    rcases marked.2 with lower | upper
    · obtain ⟨_, rfl⟩ := shape_two marked.1 lower (by decide)
      simp
    · obtain ⟨_, rfl⟩ := shape_two marked.1 upper (by decide)
      simp
  · rfl

theorem wordReading_gap (front rest : List Char) :
    wordReading (front ++ c :: rest) = wordReading front := by
  rw [wordReading, takeWhile_gap (outside_of_isGap gap (by decide)), wordReading]

omit gap in
theorem operators_noGap : ∀ entry ∈ Kind.operators, entry.1.toList.all (!isGap ·) := by
  decide

theorem operatorReading_gap (front rest : List Char) :
    operatorReading (front ++ c :: rest) = operatorReading front := by
  have same : operatorAt? (front ++ c :: rest) = operatorAt? front := by
    rw [operatorAt?, operatorAt?, ← List.head?_filter, ← List.head?_filter]
    refine congrArg List.head? (List.filter_congr fun entry listed => ?_)
    rw [Bool.eq_iff_iff, List.isPrefixOf_iff_prefix, List.isPrefixOf_iff_prefix]
    refine ⟨fun starts => ?_, fun starts => starts.trans (List.prefix_append _ _)⟩
    rcases List.prefix_or_prefix_of_prefix starts (List.prefix_append front (c :: rest)) with
      inside | ⟨more, spelled⟩
    · exact inside
    · -- a spelling that goes beyond the front holds the blank after it
      cases more with
      | nil =>
        rw [List.append_nil] at spelled
        exact spelled ▸ List.prefix_rfl
      | cons d more =>
        rw [← spelled, List.prefix_append_right_inj, List.cons_prefix_cons] at starts
        have shown := List.all_eq_true.mp (operators_noGap entry listed) d (by simp [← spelled])
        rw [starts.1, gap] at shown
        cases shown
  rw [operatorReading, operatorReading, same]

end Gaps

section Pieces

variable {c : Char} {front rest : List Char} {kind : Kind}

/-- `whole` is the token that makes up all of the front, if `part` is. -/
def Keeps (front : List Char) (kind : Kind) (part whole : Reading × Nat) : Prop :=
  part = (.token kind, front.length) → whole = (.token kind, front.length)

theorem keeps_ite {condition : Prop} [Decidable condition] {part other whole other' : Reading × Nat}
    (taken : condition → Keeps front kind part whole)
    (passed : ¬ condition → Keeps front kind other other') :
    Keeps front kind (if condition then part else other) (if condition then whole else other') := by
  split
  · next holds => exact taken holds
  · next fails => exact passed fails

theorem keeps_trivia {sort : TriviaKind} {count : Nat} {whole : Reading × Nat} :
    Keeps front kind (.trivia sort, count) whole := nofun

theorem keeps_quoted {quote : Char} (plain : quote ≠ '\\') (own : Kind) (proper : kind ≠ .error)
    (rest : List Char) :
    Keeps front kind (quotedReading quote own front) (quotedReading quote own (front ++ rest)) := by
  intro reads
  unfold quotedReading at reads ⊢
  dsimp only at reads ⊢
  split at reads
  · next closed =>
    rw [Prod.mk.injEq] at reads
    obtain ⟨quoted, same⟩ := quotedLength_take plain (front.drop 1) rest closed
    have whole : (front.drop 1).length ≤ quotedLength quote (front.drop 1) + 1 := by
      rw [List.length_drop]
      omega
    rw [List.take_of_length_le whole] at quoted
    have inner : (front ++ rest).drop 1 =
        (front.drop 1).take (quotedLength quote (front.drop 1)) ++ quote :: rest := by
      rw [drop_front (by omega), ← List.singleton_append, ← List.append_assoc, ← quoted]
    have ends : ((front ++ rest).drop 1).drop (quotedLength quote (front.drop 1)) =
        quote :: rest := by
      rw [inner]
      exact List.drop_left' (List.length_take_of_le (quotedLength_le quote _))
    rw [inner, same, ← inner, ends, List.head?_cons, if_pos rfl, reads.1, reads.2]
  · rw [Prod.mk.injEq, Reading.token.injEq] at reads
    exact absurd reads.1.symm proper

theorem keeps_verbatim (gap : isGap c) (proper : kind ≠ .error) (rest : List Char) :
    Keeps front kind (verbatimReading front) (verbatimReading (front ++ c :: rest)) := by
  intro reads
  unfold verbatimReading at reads ⊢
  split at reads
  · next length closed =>
    rw [Prod.mk.injEq] at reads
    have ends : (c :: rest).head? ≠ some '"' := by
      rcases gap_cases gap with rfl | rfl | rfl <;> simp
    have same := verbatimLength?_take closed ends
    rw [List.take_of_length_le (by rw [List.length_drop]; omega)] at same
    rw [drop_front (by omega), same]
    exact Prod.ext reads.1 reads.2
  · rw [Prod.mk.injEq, Reading.token.injEq] at reads
    exact absurd reads.1.symm proper

theorem keeps_blockComment (proper : kind ≠ .error) {whole : Reading × Nat} :
    Keeps front kind (blockCommentReading front) whole := by
  intro reads
  unfold blockCommentReading at reads
  split at reads
  · cases reads
  · rw [Prod.mk.injEq, Reading.token.injEq] at reads
    exact absurd reads.1.symm proper

theorem reading_gap (gap : isGap c) (unread : front ≠ []) (proper : kind ≠ .error)
    (rest : List Char) : Keeps front kind (reading front) (reading (front ++ c :: rest)) := by
  unfold reading
  simp only [getD_zero_gap unread, getD_one_gap gap unread (show '/' ≠ '\x00' by decide) rfl,
    getD_one_gap gap unread (show '*' ≠ '\x00' by decide) rfl,
    getD_one_gap gap unread (show '"' ≠ '\x00' by decide) rfl]
  refine keeps_ite (fun _ => keeps_trivia) (fun _ => ?_)
  refine keeps_ite (fun _ => keeps_trivia) (fun _ => ?_)
  refine keeps_ite (fun _ => keeps_trivia) (fun _ => ?_)
  refine keeps_ite (fun _ => keeps_blockComment proper) (fun _ => ?_)
  refine keeps_ite (fun _ => keeps_quoted (by decide) _ proper _) (fun _ => ?_)
  refine keeps_ite (fun _ => keeps_verbatim gap proper _) (fun _ => ?_)
  refine keeps_ite (fun _ => keeps_quoted (by decide) _ proper _) (fun _ => ?_)
  refine keeps_ite (fun _ reads => (numberReading_gap gap unread).trans reads) (fun _ => ?_)
  exact keeps_ite (fun _ reads => (wordReading_gap gap front rest).trans reads)
    (fun _ reads => (operatorReading_gap gap front rest).trans reads)

end Pieces

section Texts

variable {c : Char} {text : List Char} {lexeme : Lexeme}

def lexemes (text : List Char) : List Lexeme := (scraps text).filterMap (·.lexeme?)

theorem map_marksFrom (breaks : Nat) (read : List Scrap) :
    (marksFrom breaks read).map (·.1) = read.filterMap (·.lexeme?) := by
  induction read generalizing breaks with
  | nil => rfl
  | cons scrap read ih =>
    rw [marksFrom, List.filterMap_cons, Scrap.lexeme?]
    split <;> simp [*]

@[simp] theorem lexemes_nil : lexemes [] = [] := by
  rw [lexemes, scraps_nil, List.filterMap_nil]

theorem lexemes_trivia {sort : TriviaKind} {count : Nat} (unread : text ≠ [])
    (reads : reading text = (.trivia sort, count)) : lexemes text = lexemes (text.drop count) := by
  rw [lexemes, scraps_cons unread, reads, List.filterMap_cons_none, lexemes]
  rw [firstScrap, reads]
  rfl

theorem lexemes_token {kind : Kind} {count : Nat} (unread : text ≠ [])
    (reads : reading text = (.token kind, count)) :
    lexemes text = ⟨kind, String.ofList (text.take count)⟩ :: lexemes (text.drop count) := by
  rw [lexemes, scraps_cons unread, reads, List.filterMap_cons_some, lexemes]
  rw [firstScrap, reads]
  rfl

theorem lexemes_space (text : List Char) :
    lexemes (text.dropWhile isInlineSpace) = lexemes text := by
  cases text with
  | nil => rfl
  | cons c rest =>
    cases space : isInlineSpace c with
    | false => rw [List.dropWhile_cons_of_neg (by simp [space])]
    | true =>
      have reads : reading (c :: rest) =
          (.trivia .whitespace, ((c :: rest).takeWhile isInlineSpace).length) := by
        simp [reading, space]
      have shape := List.takeWhile_append_dropWhile (p := isInlineSpace) (l := c :: rest)
      rw [lexemes_trivia (by simp) reads]
      exact congrArg lexemes (List.drop_left.symm.trans (congrArg (List.drop _) shape))

theorem lexemes_gap (gap : isGap c) (rest : List Char) : lexemes (c :: rest) = lexemes rest := by
  have spaces (space : isInlineSpace c) : lexemes (c :: rest) = lexemes rest := by
    rw [← lexemes_space, List.dropWhile_cons_of_pos space, lexemes_space]
  rcases gap_cases gap with rfl | rfl | rfl
  · exact spaces rfl
  · exact spaces rfl
  · have reads : reading ('\n' :: rest) = (.trivia .newline, 1) := by
      simp [reading, isInlineSpace, Cursor.isLineBreak, newlineLength]
    rw [lexemes_trivia (by simp) reads, List.drop_succ_cons, List.drop_zero]

theorem lexemes_gaps {gaps : List Char} (blank : gaps.all isGap) (rest : List Char) :
    lexemes (gaps ++ rest) = lexemes rest := by
  induction gaps with
  | nil => rfl
  | cons c gaps ih =>
    obtain ⟨gap, others⟩ := Bool.and_eq_true_iff.mp blank
    rw [List.cons_append, lexemes_gap gap, ih others]

theorem lexemes_append (whole : lexeme.IsWhole) {back : List Char} (blank : back.head?.all isGap) :
    lexemes (lexeme.text.toList ++ back) = lexeme :: lexemes back := by
  have reads : reading (lexeme.text.toList ++ back) =
      (.token lexeme.kind, lexeme.text.toList.length) := by
    cases back with
    | nil => rw [List.append_nil, whole.reads]
    | cons c back => exact reading_gap (by simpa using blank) whole.unread whole.proper back whole.reads
  rw [lexemes_token (by simp [whole.unread]) reads, List.take_left, List.drop_left,
    String.ofList_toList]

theorem isWhole_of_mem (member : lexeme ∈ lexemes text) (proper : lexeme.kind ≠ .error) :
    lexeme.IsWhole := by
  obtain ⟨scrap, listed, isLexeme⟩ := List.mem_filterMap.mp member
  obtain ⟨rest, unread, rfl⟩ := mem_scraps listed
  rw [Scrap.lexeme?] at isLexeme
  split at isLexeme
  · next kind sort =>
    obtain rfl : (⟨kind, (firstScrap rest).text⟩ : Lexeme) = lexeme := Option.some.inj isLexeme
    have length : (rest.take (reading rest).2).length = (reading rest).2 :=
      List.length_take_of_le (reading_le unread)
    have some : rest.take (reading rest).2 ≠ [] := by
      rw [← List.length_pos_iff, length]
      exact reading_pos unread
    have isToken : (reading rest).1 = .token kind := sort
    have same : reading (rest.take (reading rest).2) = reading rest := by
      have cuts := cuts_reading (rest.drop (reading rest).2) some
      rw [List.take_append_drop] at cuts
      refine cuts (Nat.le_of_eq length.symm) ?_
      rw [isToken]
      exact fun isError => proper (Reading.token.inj isError)
    have taken : (firstScrap rest).text.toList = rest.take (reading rest).2 := String.toList_ofList
    refine ⟨by rwa [taken], proper, ?_⟩
    rw [taken, same, length, ← isToken]
  · cases isLexeme

theorem kind_of_mem_lexemes (member : lexeme ∈ lexemes text) : lexeme.kind ≠ .endOfInput := by
  obtain ⟨scrap, listed, isLexeme⟩ := List.mem_filterMap.mp member
  obtain ⟨rest, -, rfl⟩ := mem_scraps listed
  rw [Scrap.lexeme?] at isLexeme
  split at isLexeme
  · next kind sort =>
    cases isLexeme
    intro ended
    exact reading_ne_end rest (sort.trans (congrArg Reading.token ended))
  · cases isLexeme

end Texts

end Lexer

open Lexer

theorem lexemes_tokenize (source : String) :
    (tokenize source).tokens.map (·.toLexeme) = lexemes source.toList ++ [⟨.endOfInput, ""⟩] := by
  have marks := congrArg (List.map (·.1)) (tokenize_marks source)
  rwa [List.map_append, map_marksFrom, List.map_map] at marks

def words (source : String) : List String :=
  ((tokenize source).tokens.filter (·.kind ≠ .endOfInput)).map (·.text)

theorem words_eq (source : String) : words source = (lexemes source.toList).map (·.text) := by
  have kept : (lexemes source.toList).filter (·.kind ≠ .endOfInput) = lexemes source.toList :=
    List.filter_eq_self.mpr fun lexeme member => by simpa using kind_of_mem_lexemes member
  have filtered : ((tokenize source).tokens.filter (·.kind ≠ .endOfInput)).map (·.toLexeme) =
      lexemes source.toList := by
    have whole := congrArg (List.filter (·.kind ≠ .endOfInput)) (lexemes_tokenize source)
    rw [List.filter_append, kept, List.filter_map] at whole
    simpa [Function.comp_def] using whole
  rw [← filtered, List.map_map]
  rfl

/-- Words one after the other. What stands between two of them depends on how many are left. -/
def spaced (gap : Nat → String) : List String → String
  | [] => ""
  | [word] => word
  | word :: next :: others => word ++ gap others.length ++ spaced gap (next :: others)

theorem lexemes_spaced {gap : Nat → String}
    (blank : ∀ left, gap left ≠ "" ∧ (gap left).toList.all Lexer.isGap) {after : List Char}
    (blankAfter : after.all Lexer.isGap) {all : List Lexeme} (whole : ∀ lexeme ∈ all, lexeme.IsWhole) :
    lexemes ((spaced gap (all.map (·.text))).toList ++ after) = all := by
  have ends : lexemes after = [] := by
    have none := lexemes_gaps blankAfter []
    rwa [List.append_nil, lexemes_nil] at none
  have head {gaps : List Char} (blank : gaps.all isGap) : gaps.head?.all isGap := by
    cases gaps with
    | nil => rfl
    | cons c gaps => exact (Bool.and_eq_true_iff.mp blank).1
  induction all with
  | nil => exact ends
  | cons lexeme all ih =>
    obtain ⟨own, others⟩ := List.forall_mem_cons.mp whole
    cases all with
    | nil => exact (lexemes_append own (head blankAfter)).trans (by rw [ends])
    | cons next all =>
      obtain ⟨some, gaps⟩ := blank (all.map (·.text)).length
      rw [List.map_cons, List.map_cons, spaced, ← List.map_cons (f := Lexeme.text),
        String.toList_append, String.toList_append, List.append_assoc, List.append_assoc,
        lexemes_append own, lexemes_gaps gaps, ih others]
      rw [List.head?_append_of_ne_nil _ fun empty => some (String.toList_eq_nil_iff.mp empty)]
      exact head gaps

/-- Whatever blanks stand between the tokens of a text, and around them, they read as before. -/
theorem tokenize_respaced (source : String)
    (proper : ∀ token ∈ (tokenize source).tokens, token.kind ≠ .error) (gap : Nat → String)
    (blank : ∀ left, gap left ≠ "" ∧ (gap left).toList.all Lexer.isGap = true) (before after : String)
    (blankBefore : before.toList.all Lexer.isGap = true)
    (blankAfter : after.toList.all Lexer.isGap = true) :
    (tokenize (before ++ spaced gap (words source) ++ after)).tokens.map (·.toLexeme) =
        (tokenize source).tokens.map (·.toLexeme) ∧
      ∀ token ∈ (tokenize (before ++ spaced gap (words source) ++ after)).tokens,
        token.kind ≠ .error := by
  have whole : ∀ lexeme ∈ lexemes source.toList, lexeme.IsWhole := by
    intro lexeme member
    have listed : lexeme ∈ (tokenize source).tokens.map (·.toLexeme) := by
      rw [lexemes_tokenize]
      exact List.mem_append_left _ member
    obtain ⟨token, own, rfl⟩ := List.mem_map.mp listed
    exact isWhole_of_mem member (proper token own)
  have same : (tokenize (before ++ spaced gap (words source) ++ after)).tokens.map (·.toLexeme) =
      (tokenize source).tokens.map (·.toLexeme) := by
    rw [lexemes_tokenize, lexemes_tokenize, String.toList_append, String.toList_append,
      List.append_assoc, lexemes_gaps blankBefore, words_eq, lexemes_spaced blank blankAfter whole]
  refine ⟨same, fun token member => ?_⟩
  have listed := List.mem_map_of_mem (f := (·.toLexeme)) member
  rw [same] at listed
  obtain ⟨other, own, isLexeme⟩ := List.mem_map.mp listed
  have kinds : other.kind = token.kind := congrArg Lexeme.kind isLexeme
  rw [← kinds]
  exact proper other own

theorem tokenize_respaced_points :
    (tokenize (" " ++ spaced (fun _ => "\n\t") (words "a.b<-1.5e3...@\"x\"") ++ "")).tokens.map
        (·.toLexeme) = (tokenize "a.b<-1.5e3...@\"x\"").tokens.map (·.toLexeme) ∧
      words "a.b<-1.5e3...@\"x\"" = ["a", ".", "b", "<-", "1.5e3", "...", "@\"x\""] :=
  ⟨(tokenize_respaced "a.b<-1.5e3...@\"x\"" (by decide +kernel) (fun _ => "\n\t")
    (fun _ => by decide) " " "" (by decide) (by decide)).1, by decide +kernel⟩

end Squirrel
