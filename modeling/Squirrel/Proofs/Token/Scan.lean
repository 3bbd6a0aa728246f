import Squirrel.Proofs.Token.Faults

/-! A text as the list of its pieces, and what its tokens take from them. -/

namespace Squirrel

/-- A piece of a text: what it is, how it is written, and the escapes without a meaning in it. -/
structure Scrap where
  sort : Reading
  text : String
  escapes : List Char
  deriving DecidableEq, Repr

namespace Scrap

def isSound (scrap : Scrap) : Bool := scrap.sort ≠ .token .error && scrap.escapes.isEmpty

def comment? (scrap : Scrap) : Option (TriviaKind × String) :=
  match scrap.sort with
  | .trivia .lineComment => some (.lineComment, scrap.text)
  | .trivia .blockComment => some (.blockComment, scrap.text)
  | _ => none

end Scrap

/-- What a token says, and how many lines end before it. -/
abbrev Mark := Lexeme × Nat

def Token.mark (token : Token) : Mark := (token.toLexeme, token.newlinesBefore)

def Trivia.comment? (trivia : Trivia) : Option (TriviaKind × String) :=
  if trivia.isComment then some (trivia.kind, trivia.text) else none

def Token.remarks (token : Token) : List (TriviaKind × String) :=
  (token.leading ++ token.trailing).filterMap (·.comment?)

namespace Lexer

section Pieces

variable {text : List Char}

theorem reads_ofText (unread : text ≠ []) :
    (Cursor.ofText text).Reads (ofText text).scanPiece.cursor (reading text).2 :=
  (@puts_scanPiece (ofText text) unread).reads

theorem reading_le (unread : text ≠ []) : (reading text).2 ≤ text.length :=
  (reads_ofText unread).bound

theorem reading_pos (unread : text ≠ []) : 0 < (reading text).2 := by
  have shorter := @scanPiece_shorter (ofText text) unread
  rw [(reads_ofText unread).rest] at shorter
  have same : (ofText text).cursor.rest = text := rfl
  rw [same, show (Cursor.ofText text).rest = text from rfl, List.length_drop] at shorter
  omega

def firstScrap (text : List Char) : Scrap :=
  ⟨(reading text).1, String.ofList (text.take (reading text).2), escapesAt text⟩

def scraps (text : List Char) : List Scrap :=
  if text = [] then [] else firstScrap text :: scraps (text.drop (reading text).2)
termination_by text.length
decreasing_by
  next unread =>
    have positive := reading_pos unread
    have full := List.length_pos_iff.mpr unread
    rw [List.length_drop]
    omega

@[simp] theorem scraps_nil : scraps [] = [] := by rw [scraps, if_pos rfl]

theorem scraps_cons (unread : text ≠ []) :
    scraps text = firstScrap text :: scraps (text.drop (reading text).2) := by
  rw [scraps, if_neg unread]

end Pieces

/-- The tokens among pieces, the first one after a number of line ends. -/
def marksFrom (breaks : Nat) : List Scrap → List Mark
  | [] => []
  | scrap :: scraps =>
    match scrap.sort with
    | .token kind => (⟨kind, scrap.text⟩, breaks) :: marksFrom 0 scraps
    | .trivia .newline => marksFrom (breaks + 1) scraps
    | .trivia _ => marksFrom breaks scraps

def breaksFrom (breaks : Nat) : List Scrap → Nat
  | [] => breaks
  | scrap :: scraps =>
    match scrap.sort with
    | .token _ => breaksFrom 0 scraps
    | .trivia .newline => breaksFrom (breaks + 1) scraps
    | .trivia _ => breaksFrom breaks scraps

section Progress

def marks (lexer : Lexer) : List Mark := lexer.tokens.map (·.mark)

def pendingBreaks (lexer : Lexer) : Nat := lexer.pending.countP (·.kind = .newline)

def remarks (lexer : Lexer) : List (TriviaKind × String) :=
  lexer.tokens.flatMap (·.remarks) ++ lexer.pending.filterMap (·.comment?)

/-- Trivia are where they belong: what follows a token in its line comes after it, and all else
before the next one. -/
structure Sorted (lexer : Lexer) : Prop where
  trailing : ∀ token ∈ lexer.produced, ∀ trivia ∈ token.trailing, trivia.kind ≠ .newline
  leading : ∀ token ∈ lexer.produced.dropLast,
    token.leading = [] ∨ ∃ first rest, token.leading = first :: rest ∧ first.kind = .newline
  pending : lexer.produced ≠ [] → lexer.pending = [] ∨
    ∃ first rest, lexer.pending = first :: rest ∧ first.kind = .newline
  idle : lexer.produced ≠ [] → lexer.collecting = false → lexer.pending ≠ []

variable {lexer next : Lexer} {piece : Reading × Nat}

theorem Puts.token {kind : Kind} (puts : lexer.Puts next piece) (isToken : piece.1 = .token kind) :
    ∃ span, next.produced =
        ⟨⟨kind, String.ofList (lexer.cursor.rest.take piece.2)⟩, span, lexer.pending, []⟩ ::
          lexer.produced ∧
      next.pending = [] ∧ next.collecting := by
  obtain ⟨moved, past, rfl⟩ := puts
  rw [isToken, place, emit, emitAs, past.piece, past.produced, past.pending]
  exact ⟨_, rfl, rfl, rfl⟩

theorem Puts.trivia {kind : TriviaKind} (puts : lexer.Puts next piece) (settled : lexer.Settled)
    (isTrivia : piece.1 = .trivia kind) :
    ∃ trivia : Trivia, trivia.kind = kind ∧
      trivia.text = String.ofList (lexer.cursor.rest.take piece.2) ∧
      ((kind ≠ .newline ∧ lexer.pending = [] ∧ next.pending = [] ∧ next.collecting ∧
        ∃ last earlier, lexer.produced = last :: earlier ∧
          next.produced = { last with trailing := last.trailing ++ [trivia] } :: earlier) ∨
      ((kind = .newline ∨ lexer.collecting = false) ∧ next.produced = lexer.produced ∧
        next.pending = lexer.pending ++ [trivia])) := by
  obtain ⟨moved, past, rfl⟩ := puts
  refine ⟨⟨kind, String.ofList moved.piece, moved.mark.offset⟩, rfl, by rw [past.piece], ?_⟩
  rw [isTrivia, place]
  unfold addTrivia
  have collecting := past.collecting
  rw [isTrivia] at collecting
  split
  · next last earlier goesOn produced =>
    rw [goesOn, eq_comm, Bool.and_eq_true] at collecting
    refine .inl ⟨by simpa using collecting.2, (settled collecting.1).1, ?_, goesOn, last, earlier, ?_,
      rfl⟩
    · rw [past.pending, (settled collecting.1).1]
    · rw [← past.produced, produced]
  · next other =>
    refine .inr ⟨?_, past.produced, by rw [past.pending]⟩
    cases goesOn : lexer.collecting with
    | false => exact .inr rfl
    | true =>
      refine .inl (Classical.byContradiction fun calm => ?_)
      rw [goesOn, Bool.true_and, decide_eq_true (by simpa using calm)] at collecting
      obtain ⟨last, earlier, produced⟩ := List.exists_cons_of_ne_nil (settled goesOn).2
      exact other last earlier collecting (by rw [past.produced, produced])

theorem Puts.marks (scrap : Scrap) (puts : lexer.Puts next piece) (settled : lexer.Settled)
    (same : scrap.sort = piece.1)
    (written : scrap.text = String.ofList (lexer.cursor.rest.take piece.2)) :
    next.marks = lexer.marks ++ marksFrom lexer.pendingBreaks [scrap] ∧
      next.pendingBreaks = breaksFrom lexer.pendingBreaks [scrap] := by
  cases sort : piece.1 with
  | token kind =>
    obtain ⟨span, produced, pending, collecting⟩ := puts.token sort
    simp [Lexer.marks, tokens, produced, pending, marksFrom, breaksFrom, same, sort, written,
      pendingBreaks, Token.mark, Token.newlinesBefore]
  | trivia kind =>
    obtain ⟨trivia, isKind, -, ⟨calm, none, still, -, last, earlier, before, after⟩ |
      ⟨-, produced, pending⟩⟩ := puts.trivia settled sort
    · have skips : marksFrom lexer.pendingBreaks [scrap] = [] ∧
          breaksFrom lexer.pendingBreaks [scrap] = lexer.pendingBreaks := by
        cases kind <;> simp_all [marksFrom, breaksFrom]
      rw [skips.1, skips.2]
      simp [Lexer.marks, tokens, before, after, pendingBreaks, none, still, Token.mark,
        Token.newlinesBefore]
    · cases kind <;> simp [Lexer.marks, tokens, produced, pending, marksFrom, breaksFrom, same, sort,
        pendingBreaks, isKind]

theorem Puts.remarks (scrap : Scrap) (puts : lexer.Puts next piece) (settled : lexer.Settled)
    (same : scrap.sort = piece.1)
    (written : scrap.text = String.ofList (lexer.cursor.rest.take piece.2)) :
    next.remarks = lexer.remarks ++ [scrap].filterMap (·.comment?) := by
  cases sort : piece.1 with
  | token kind =>
    obtain ⟨span, produced, pending, collecting⟩ := puts.token sort
    simp [Lexer.remarks, tokens, produced, pending, Scrap.comment?, same, sort, Token.remarks]
  | trivia kind =>
    obtain ⟨trivia, isKind, isText, placed⟩ := puts.trivia settled sort
    have noted : [trivia].filterMap (·.comment?) = [scrap].filterMap (·.comment?) := by
      cases kind <;> simp [Trivia.comment?, Trivia.isComment, TriviaKind.isComment, isKind, isText,
        Scrap.comment?, same, sort, written]
    rcases placed with ⟨-, none, still, -, last, earlier, before, after⟩ | ⟨-, produced, pending⟩
    · simp [Lexer.remarks, tokens, before, after, none, still, Token.remarks, List.filterMap_append,
        noted]
    · simp [Lexer.remarks, tokens, produced, pending, List.filterMap_append, noted]

theorem Puts.sorted (puts : lexer.Puts next piece) (settled : lexer.Settled)
    (sorted : lexer.Sorted) : next.Sorted := by
  cases sort : piece.1 with
  | token kind =>
    obtain ⟨span, produced, pending, collecting⟩ := puts.token sort
    refine ⟨?_, ?_, fun _ => .inl pending, fun _ idle => by rw [collecting] at idle; cases idle⟩
    · simpa [produced] using sorted.trailing
    · intro token member
      rw [produced] at member
      cases before : lexer.produced with
      | nil =>
        rw [before] at member
        cases member
      | cons last earlier =>
        rw [before, List.dropLast_cons_cons, List.mem_cons] at member
        rcases member with rfl | later
        · exact sorted.pending (by simp [before])
        · exact sorted.leading token (by rwa [before])
  | trivia kind =>
    obtain ⟨trivia, isKind, -, ⟨calm, none, still, collecting, last, earlier, before, after⟩ |
      ⟨breaks, produced, pending⟩⟩ := puts.trivia settled sort
    · refine ⟨?_, ?_, fun _ => .inl still, fun _ idle => by rw [collecting] at idle; cases idle⟩
      · have kept := sorted.trailing
        rw [before, List.forall_mem_cons] at kept
        rw [after, List.forall_mem_cons]
        refine ⟨?_, kept.2⟩
        rw [List.forall_mem_append]
        exact ⟨kept.1, by simpa [isKind] using calm⟩
      · intro token member
        have kept := sorted.leading
        rw [before] at kept
        rw [after] at member
        cases earlier with
        | nil => cases member
        | cons second others =>
          rw [List.dropLast_cons_cons] at kept member
          rcases List.mem_cons.mp member with rfl | later
          · exact kept last List.mem_cons_self
          · exact kept token (List.mem_cons_of_mem _ later)
    · refine ⟨by rw [produced]; exact sorted.trailing, by rw [produced]; exact sorted.leading, ?_,
        fun _ _ => by simp [pending]⟩
      intro some
      rw [produced] at some
      right
      rw [pending]
      rcases sorted.pending some with none | ⟨first, rest, waiting, isBreak⟩
      · rcases breaks with isBreak | idle
        · exact ⟨trivia, [], by simp [none], isKind.trans isBreak⟩
        · exact absurd none (sorted.idle some idle)
      · exact ⟨first, rest ++ [trivia], by simp [waiting], isBreak⟩

theorem Notes.diagnostics_eq_nil {scrap : Scrap} (noted : lexer.Notes next scrap.sort scrap.escapes)
    : next.diagnostics = [] ↔ lexer.diagnostics = [] ∧ scrap.isSound := by
  obtain ⟨notes, faults, noted⟩ := noted
  have quiet : notes = [] ↔ scrap.escapes = [] := by
    rw [← List.map_eq_nil_iff (f := fun note : Diagnostic => note.fault), faults, List.map_eq_nil_iff]
  split at noted
  · next bad =>
    obtain ⟨last, token, -, -, -, listed⟩ := noted
    simp [listed, Scrap.isSound, bad]
  · next sound => simp [noted, quiet, Scrap.isSound, sound]

end Progress

section Runs

variable {lexer : Lexer}

/-- What holds of a lexer that has read some pieces, and was at `start` before. -/
structure Read (start lexer : Lexer) (read : List Scrap) : Prop where
  settled : lexer.Settled
  marks : lexer.marks = start.marks ++ marksFrom start.pendingBreaks read
  breaks : lexer.pendingBreaks = breaksFrom start.pendingBreaks read
  remarks : lexer.remarks = start.remarks ++ read.filterMap (·.comment?)
  sorted : start.Sorted → lexer.Sorted
  diagnostics : lexer.diagnostics = [] ↔
    start.diagnostics = [] ∧ ∀ scrap ∈ read, scrap.isSound

theorem marksFrom_append (breaks : Nat) (first second : List Scrap) :
    marksFrom breaks (first ++ second) =
      marksFrom breaks first ++ marksFrom (breaksFrom breaks first) second := by
  induction first generalizing breaks with
  | nil => rfl
  | cons scrap first ih =>
    rw [List.cons_append, marksFrom, marksFrom, breaksFrom]
    split <;> simp [ih]

theorem breaksFrom_append (breaks : Nat) (first second : List Scrap) :
    breaksFrom breaks (first ++ second) = breaksFrom (breaksFrom breaks first) second := by
  induction first generalizing breaks with
  | nil => rfl
  | cons scrap first ih =>
    rw [List.cons_append, breaksFrom, breaksFrom]
    split <;> simp [ih]

theorem Read.cons {start middle lexer : Lexer} {first : Scrap} {rest : List Scrap}
    (one : Read start middle [first]) (others : Read middle lexer rest) :
    Read start lexer (first :: rest) where
  settled := others.settled
  marks := by
    rw [others.marks, one.marks, one.breaks, List.append_assoc, ← marksFrom_append]
    rfl
  breaks := by
    rw [others.breaks, one.breaks, ← breaksFrom_append]
    rfl
  remarks := by
    rw [others.remarks, one.remarks, List.append_assoc, ← List.filterMap_append]
    rfl
  sorted sorted := others.sorted (one.sorted sorted)
  diagnostics := by
    rw [others.diagnostics, one.diagnostics, and_assoc]
    simp

theorem read_scanPiece (settled : lexer.Settled) (unread : lexer.cursor.rest ≠ []) :
    Read lexer lexer.scanPiece [firstScrap lexer.cursor.rest] := by
  have puts := puts_scanPiece unread
  obtain ⟨marks, breaks⟩ := puts.marks (firstScrap lexer.cursor.rest) settled rfl rfl
  have remarks := puts.remarks (firstScrap lexer.cursor.rest) settled rfl rfl
  refine ⟨?_, marks, breaks, remarks, puts.sorted settled, ?_⟩
  · obtain ⟨moved, past, placed⟩ := puts
    rw [placed]
    exact settled_place (past.settled settled) _
  · have noted : lexer.Notes lexer.scanPiece (firstScrap lexer.cursor.rest).sort
      (firstScrap lexer.cursor.rest).escapes := notes_scanPiece lexer
    rw [noted.diagnostics_eq_nil]
    simp

theorem read_scanPieces (settled : lexer.Settled) :
    Read lexer lexer.scanPieces (scraps lexer.cursor.rest) := by
  induction lexer using scanPieces.induct with
  | case1 lexer ended =>
    rw [Lexer.scanPieces, if_pos ended, ended, scraps_nil]
    exact ⟨settled, by simp [marksFrom], rfl, by simp, id, by simp⟩
  | case2 lexer unread ih =>
    have one := read_scanPiece settled unread
    have rest : lexer.scanPiece.cursor.rest = _ := (puts_scanPiece unread).reads.rest
    rw [Lexer.scanPieces, if_neg unread, scraps_cons unread, ← rest]
    exact one.cons (ih one.settled)

end Runs

end Lexer

section Texts

open Lexer

variable (source : String)

theorem read_text : Read (ofText source.toList) (ofText source.toList).scanPieces
    (scraps source.toList) :=
  read_scanPieces (tiled_ofText source.toList).settled

theorem tokens_tokenize :
    (tokenize source).tokens = (ofText source.toList).scanPieces.tokens ++
      [⟨⟨.endOfInput, ""⟩, (ofText source.toList).scanPieces.setMark.pieceSpan,
        (ofText source.toList).scanPieces.pending, []⟩] := by
  simp [tokenize, scanText, emitAs, tokens, setMark]

theorem tokenize_marks :
    (tokenize source).tokens.map (·.mark) =
      marksFrom 0 (scraps source.toList) ++
        [(⟨.endOfInput, ""⟩, breaksFrom 0 (scraps source.toList))] := by
  have read := read_text source
  have marks : ((ofText source.toList).scanPieces.tokens.map (·.mark)) = _ := read.marks
  have breaks : (ofText source.toList).scanPieces.pendingBreaks = _ := read.breaks
  have start : (ofText source.toList).pendingBreaks = 0 := rfl
  rw [start] at marks breaks
  rw [tokens_tokenize, List.map_append, marks, ← breaks]
  rfl

theorem tokenize_remarks :
    (tokenize source).tokens.flatMap (·.remarks) =
      (scraps source.toList).filterMap (·.comment?) := by
  have remarks := (read_text source).remarks
  have start : (ofText source.toList).remarks = [] := rfl
  rw [start, List.nil_append] at remarks
  rw [tokens_tokenize, List.flatMap_append, ← remarks]
  simp [Lexer.remarks, Token.remarks]

theorem tokenize_sorted :
    (∀ token ∈ (tokenize source).tokens, ∀ trivia ∈ token.trailing, trivia.kind ≠ .newline) ∧
      ∀ token ∈ (tokenize source).tokens.tail, token.leading = [] ∨
        ∃ first rest, token.leading = first :: rest ∧ first.kind = .newline := by
  have start : (ofText source.toList).Sorted :=
    ⟨by simp [ofText], by simp [ofText], by simp [ofText], by simp [ofText]⟩
  have sorted := (read_text source).sorted start
  rw [tokens_tokenize, tokens]
  refine ⟨?_, ?_⟩
  · rw [List.forall_mem_append]
    exact ⟨fun token member => sorted.trailing token (List.mem_reverse.mp member), by simp⟩
  · cases before : (ofText source.toList).scanPieces.produced with
    | nil => simp
    | cons last earlier =>
      have some : (ofText source.toList).scanPieces.produced ≠ [] := by simp [before]
      have front : ∀ token ∈ (last :: earlier).reverse.tail, token ∈ (last :: earlier).dropLast := by
        intro token member
        rw [List.tail_reverse] at member
        exact List.mem_reverse.mp member
      rw [List.tail_append_of_ne_nil (by simp)]
      intro token member
      rcases List.mem_append.mp member with inside | last
      · exact sorted.leading token (by rw [before]; exact front token inside)
      · rw [List.mem_singleton.mp last]
        exact sorted.pending some

theorem mem_marksFrom {breaks : Nat} {read : List Scrap} {mark : Mark}
    (member : mark ∈ marksFrom breaks read) :
    ∃ scrap ∈ read, scrap.sort = .token mark.1.kind ∧ scrap.text = mark.1.text := by
  induction read generalizing breaks with
  | nil => cases member
  | cons scrap read ih =>
    rw [marksFrom] at member
    have later {breaks : Nat} (member : mark ∈ marksFrom breaks read) :
        ∃ scrap' ∈ scrap :: read, scrap'.sort = .token mark.1.kind ∧ scrap'.text = mark.1.text := by
      obtain ⟨found, own, rest⟩ := ih member
      exact ⟨found, List.mem_cons_of_mem _ own, rest⟩
    split at member
    · next kind sort =>
      rcases List.mem_cons.mp member with rfl | rest
      · exact ⟨scrap, List.mem_cons_self, sort, rfl⟩
      · exact later rest
    · exact later member
    · exact later member

theorem mem_scraps {text : List Char} {scrap : Scrap} (member : scrap ∈ scraps text) :
    ∃ rest, rest ≠ [] ∧ scrap = firstScrap rest := by
  induction text using scraps.induct with
  | case1 =>
    rw [scraps_nil] at member
    cases member
  | case2 text unread ih =>
    rw [scraps_cons unread, List.mem_cons] at member
    rcases member with rfl | later
    · exact ⟨text, unread, rfl⟩
    · exact ih later

variable {token : Token}

theorem tokens_scraps (member : token ∈ (tokenize source).tokens)
    (goesOn : token.kind ≠ .endOfInput) :
    ∃ scrap ∈ scraps source.toList, scrap.sort = .token token.kind ∧ scrap.text = token.text := by
  have marked : token.mark ∈ (tokenize source).tokens.map (·.mark) := List.mem_map_of_mem member
  rw [tokenize_marks, List.mem_append, List.mem_singleton] at marked
  rcases marked with inside | last
  · exact mem_marksFrom inside
  · exact absurd (congrArg (fun mark : Mark => mark.1.kind) last) goesOn

theorem head_firstScrap {text : List Char} (unread : text ≠ []) :
    (firstScrap text).text.toList.head? = text.head? := by
  obtain ⟨c, rest, rfl⟩ := List.exists_cons_of_ne_nil unread
  obtain ⟨count, shape⟩ := Nat.exists_eq_succ_of_ne_zero (Nat.ne_of_gt (reading_pos unread))
  simp [firstScrap, shape]

theorem text_ne_empty (member : token ∈ (tokenize source).tokens)
    (goesOn : token.kind ≠ .endOfInput) : token.text ≠ "" := by
  obtain ⟨scrap, own, -, same⟩ := tokens_scraps source member goesOn
  obtain ⟨rest, unread, rfl⟩ := mem_scraps own
  intro empty
  have head := head_firstScrap unread
  rw [same, empty] at head
  exact unread (List.head?_eq_none_iff.mp head.symm)

theorem head_token (member : token ∈ (tokenize source).tokens) (goesOn : token.kind ≠ .endOfInput) :
    token.text.toList.head? ≠ some ' ' := by
  obtain ⟨scrap, own, isToken, same⟩ := tokens_scraps source member goesOn
  obtain ⟨rest, unread, rfl⟩ := mem_scraps own
  rw [← same, head_firstScrap unread]
  intro space
  obtain ⟨c, others, rfl⟩ := List.exists_cons_of_ne_nil unread
  rw [List.head?_cons, Option.some.injEq] at space
  subst space
  have blank : (reading (' ' :: others)).1 = .trivia .whitespace := rfl
  rw [firstScrap, blank] at isToken
  cases isToken

end Texts

end Squirrel
