import Squirrel.Proofs.Layout.Account
import Squirrel.Proofs.Safety
import Squirrel.Proofs.Token.Scan

/-! The layout of a text holds each token and each comment once, in their order. -/

namespace Squirrel

namespace Layout

section Standing

variable {label : Label} {children : List Tree} {tree : Tree}

theorem everywhere_admits (shaped : tree.isShaped) : tree.everywhere Tree.admits := by
  induction tree using Tree.byChildren with
  | leaf token => simp
  | node label children ih =>
    have below : ∀ child ∈ children, child.isShaped := Tree.children_shaped shaped
    simp only [Tree.isShaped, Bool.and_eq_true] at shaped
    rw [Tree.everywhere_node, shaped.1.1, Bool.true_and, Tree.everywhereOf_iff]
    exact fun child member => ih child member (below child member)

theorem everywhere_proper (clean : tree.errors = 0) :
    tree.everywhere (fun label _ => decide (label ≠ .error)) := by
  induction tree using Tree.byChildren with
  | leaf token => simp
  | node label children ih =>
    rw [Tree.errors_node, Nat.add_eq_zero_iff, Tree.errorsOf_eq_zero] at clean
    rw [Tree.everywhere_node, Bool.and_eq_true, Tree.everywhereOf_iff]
    exact ⟨by simpa using clean.1, fun child member => ih child member (clean.2 child member)⟩

theorem nests_of_isComposed (composed : Tree.isComposed label children) : nests label children := by
  refine List.all_eq_true.mpr fun child member => ?_
  have own := List.all_eq_true.mp (Bool.and_eq_true_iff.mp composed).1 child member
  cases child with
  | leaf token => rfl
  | node inner _ =>
    have listed : label.parts.contains inner := by
      simpa [Tree.isLeaf, Tree.label?] using own
    have noProgram : label.parts.contains .program = false := by cases label <;> rfl
    have noBody : label.parts.contains .caseBody →
        (decide (label = .caseClause) || decide (label = .defaultClause)) := by
      cases label <;> decide
    by_cases isProgram : inner = .program
    · rw [isProgram, noProgram] at listed
      cases listed
    · by_cases isBody : inner = .caseBody
      · rw [isBody] at listed
        simpa [Tree.hasLabel, Tree.label?, isBody] using noBody listed
      · simp [Tree.hasLabel, Tree.label?, isProgram, isBody]

end Standing

end Layout

namespace Grammar

open Squirrel.Tree (everywhereOf)
open Layout (headed lastComma?)

variable {levels : Nat} {category : Category} {trees : List Tree} {next : Token}

theorem Derives.separated (derived : Derives levels category trees next) (isList : category.isList)
    : trees.all (fun tree => tree.isNode || tree.isToken .comma) := by
  induction derived with
  | noItem | noEntry => rfl
  | item _ first _ _ _ ih | oneEntry _ first _ _ _ ih => simp [first.isNode rfl, ih rfl]
  | itemComma _ first isComma _ _ ih | entryComma _ first isComma _ _ ih =>
    simp [first.isNode rfl, isComma, ih rfl]
  | _ => cases isList

def governs : Label → List Tree → Bool
  | .forStatement, children | .foreachStatement, children =>
    children.getLast?.any fun body => Tree.nodesAre statementLabels [body]
  | _, _ => true

/-- Switches start with no clause, what stands after the last entry of a list is a comma, and loops
end in a statement. -/
def isNeat (label : Label) (children : List Tree) : Bool :=
  headed label children && ((lastComma? label children).all fun token => decide (token.kind = .comma)) &&
    governs label children

theorem isNeat_list {label : Label} (isList : label = .array ∨ label = .table) (opener closer : Token)
    (separated : trees.all (fun tree => tree.isNode || tree.isToken .comma)) :
    isNeat label (.leaf opener :: (trees ++ [.leaf closer])) := by
  have noSwitch : headed label (.leaf opener :: (trees ++ [.leaf closer])) := by
    rcases isList with rfl | rfl <;> rfl
  have own : lastComma? label (.leaf opener :: (trees ++ [.leaf closer])) =
      trees.getLast?.bind (·.token?) := by
    simp [lastComma?, isList]
  have noLoop : governs label (.leaf opener :: (trees ++ [.leaf closer])) := by
    rcases isList with rfl | rfl <;> rfl
  rw [isNeat, noSwitch, noLoop, own, Bool.true_and, Bool.and_true]
  cases found : trees.getLast? with
  | none => rfl
  | some last =>
    have kinds := List.all_eq_true.mp separated last (List.mem_of_getLast? found)
    cases last with
    | leaf token => exact kinds
    | node label children => rfl

theorem isNeat_loop {label : Label} (isLoop : label = .forStatement ∨ label = .foreachStatement)
    (children : List Tree) : isNeat label children = governs label children := by
  rcases isLoop with rfl | rfl <;> simp [isNeat, headed, lastComma?]

theorem isNeat_other {label : Label} (other : label ≠ .switchStatement ∧ label ≠ .array ∧ label ≠ .table ∧
      label ≠ .forStatement ∧ label ≠ .foreachStatement)
    (children : List Tree) : isNeat label children := by
  have noList : lastComma? label children = none := if_neg (by simp [other])
  rw [isNeat, noList]
  cases label <;> simp_all [headed, governs]

theorem neat_loopNames {names : List Tree} (named : LoopNames names) :
    everywhereOf isNeat names := by
  rcases named with ⟨_, _, rfl⟩ | ⟨_, _, _, _, _, _, rfl⟩ <;> simp

theorem standsAlone_subject {subject : Tree} (parts : Tree.nodesAre expressionLabels [subject]) :
    Layout.standsAlone .switchStatement subject = false := by
  cases subject with
  | leaf token => rfl
  | node label children =>
    have listed : expressionLabels.contains label := by
      simpa [Tree.nodesAre, Tree.isLeaf, Tree.label?] using parts
    cases label <;> first | rfl | cases listed

theorem Derives.neat (derived : Derives levels category trees next) :
    everywhereOf isNeat trees := by
  induction derived with
  | array _ between _ ih =>
    simpa [isNeat_list (.inl rfl) _ _ (between.separated rfl)] using ih
  | table _ between _ ih =>
    simpa [isNeat_list (.inr rfl) _ _ (between.separated rfl)] using ih
  | @switchStatement _ _ _ clauses _ _ _ _ tested _ _ _ testedIh clausesIh =>
    cases tested with
    | @parentheses _ _ inner _ _ _ between _ =>
      have inside : Layout.standsAlone .switchStatement inner = false := standsAlone_subject between.parts
      have apart (token : Token) : Layout.standsAlone .switchStatement (.leaf token) = false := rfl
      simp_all [isNeat, headed, lastComma?, governs]
  | forStatement _ _ _ _ _ _ _ _ governed startsIh testedIh steppedIh governedIh =>
    have isStatement : Tree.nodesAre statementLabels [_] := governed.parts
    simp_all [isNeat_other, isNeat_loop, governs]
  | @lambda _ _ list body _ _ _ _ _ headIh insideIh =>
    rcases label_lambda list body with same | same <;> simp_all [isNeat_other]
  | @call _ _ operand list _ _ calledIh givenIh =>
    rcases label_makeCall operand list with same | same <;> rw [same] <;> simp_all [isNeat_other]
  | @infixOperator _ _ _ _ _ _ operator _ _ _ _ startIh appliedIh =>
    rcases label_operator operator.kind with same | same <;> simp_all [isNeat_other]
  | @assignment _ _ _ _ operator _ _ _ assignedIh givenIh =>
    rcases label_assignment operator.kind with same | same <;> simp_all [isNeat_other]
  | foreachStatement _ _ named _ _ _ governed iteratedIh governedIh =>
    have names : everywhereOf isNeat _ := neat_loopNames named
    have isStatement : Tree.nodesAre statementLabels [_] := governed.parts
    simp_all [isNeat_other, isNeat_loop, governs]
  | skippedEntry | skippedUnit => simp [errorNode, isNeat_other]
  | _ => simp_all [isNeat_other]

end Grammar

section Texts

open Lexer (reading scraps)

def isSolid (text : List Char) : Bool := text.head?.any (!isTrailingBlank ·)

theorem solid_cons {text : List Char} (solid : isSolid text) :
    ∃ c rest, text = c :: rest ∧ isTrailingBlank c = false := by
  cases text with
  | nil => cases solid
  | cons c rest => exact ⟨c, rest, rfl, by simpa [isSolid] using solid⟩

theorem trimEnd_ne_nil {text : List Char} (solid : isSolid text) : trimEnd text ≠ [] := by
  obtain ⟨c, rest, rfl, visible⟩ := solid_cons solid
  rw [← List.singleton_append, trimEnd_append]
  split
  · simp [trimEnd, visible]
  · simp

variable (source : String)

theorem solid_scrap {text : List Char} {scrap : Scrap} (member : scrap ∈ scraps text)
    (visible : scrap.sort ≠ .trivia .whitespace) : isSolid scrap.text.toList := by
  obtain ⟨rest, unread, rfl⟩ := mem_scraps member
  rw [isSolid, head_firstScrap unread]
  obtain ⟨c, others, rfl⟩ := List.exists_cons_of_ne_nil unread
  by_contra blank
  have isBlank : isTrailingBlank c := by simpa using blank
  refine visible ?_
  have inLine : Lexer.isInlineSpace c := by
    unfold isTrailingBlank at isBlank
    simp only [Lexer.isInlineSpace, Bool.or_eq_true] at isBlank ⊢
    exact .inl (.inl isBlank)
  change (reading (c :: others)).1 = _
  simp [reading, inLine]

variable {source} {token : Token}

theorem solid_token (member : token ∈ (tokenize source).tokens) (goesOn : token.kind ≠ .endOfInput) :
    isSolid token.text.toList := by
  obtain ⟨scrap, own, isToken, same⟩ := tokens_scraps source member goesOn
  rw [← same]
  exact solid_scrap own (by rw [isToken]; exact Reading.noConfusion)

theorem comments_scraps (member : token ∈ (tokenize source).tokens) {comment : Trivia}
    (listed : comment ∈ token.comments) :
    ∃ scrap ∈ scraps source.toList, scrap.sort = .trivia comment.kind ∧ scrap.text = comment.text := by
  obtain ⟨inside, isComment⟩ := List.mem_filter.mp listed
  have remark : (comment.kind, comment.text) ∈ (tokenize source).tokens.flatMap (·.remarks) := by
    refine List.mem_flatMap.mpr ⟨token, member, List.mem_filterMap.mpr ⟨comment, inside, ?_⟩⟩
    rw [Trivia.comment?, if_pos isComment]
  rw [tokenize_remarks] at remark
  obtain ⟨scrap, own, found⟩ := List.mem_filterMap.mp remark
  refine ⟨scrap, own, ?_⟩
  unfold Scrap.comment? at found
  split at found
  · next sort => simp_all
  · next sort => simp_all
  · cases found

theorem solid_comment (member : token ∈ (tokenize source).tokens) {comment : Trivia}
    (listed : comment ∈ token.comments) : isSolid comment.text.toList := by
  obtain ⟨scrap, own, sort, same⟩ := comments_scraps member listed
  have isComment := (List.mem_filter.mp listed).2
  rw [← same]
  refine solid_scrap own fun blank => ?_
  rw [sort, Reading.trivia.injEq] at blank
  simp [Trivia.isComment, blank, TriviaKind.isComment] at isComment

theorem comma_scrap {text : List Char} {scrap : Scrap} (member : scrap ∈ scraps text)
    (written : scrap.text = ",") : scrap.sort = .token .comma := by
  obtain ⟨rest, unread, rfl⟩ := mem_scraps member
  have head := head_firstScrap unread
  rw [written] at head
  obtain ⟨c, others, rfl⟩ := List.exists_cons_of_ne_nil unread
  cases head
  change (reading (',' :: others)).1 = _
  rfl

theorem comma_keywords : ∀ entry ∈ Kind.keywords, entry.2 ≠ .comma := by decide

theorem comma_operators : ∀ entry ∈ Kind.operators, entry.2 = .comma → entry.1 = "," := by decide

theorem operatorAt?_comma {text : List Char} (isComma : (reading text).1 = .token .comma) :
    Lexer.operatorAt? text = some (",", .comma) := by
  rcases Lexer.kind_of_reading isComma with
    wrong | wrong | wrong | ⟨entry, member, same⟩ | ⟨spelling, found⟩
  iterate 3 cases wrong
  · exact absurd same (comma_keywords entry member)
  · obtain rfl : spelling = "," := comma_operators _ (List.mem_of_find?_eq_some found) rfl
    exact found

theorem text_comma (member : token ∈ (tokenize source).tokens) (isComma : token.kind = .comma) :
    token.text = "," := by
  obtain ⟨scrap, own, isToken, same⟩ := tokens_scraps source member (by simp [isComma])
  obtain ⟨rest, unread, rfl⟩ := mem_scraps own
  have found := operatorAt?_comma (isToken.trans (by rw [isComma]))
  obtain ⟨after, rfl⟩ : ∃ after, rest = ',' :: after := by
    have spelled : ",".toList.isPrefixOf rest :=
      @List.find?_some _ (fun entry : String × Kind => entry.1.toList.isPrefixOf rest) _ _ found
    obtain ⟨after, whole⟩ := List.isPrefixOf_iff_prefix.mp spelled
    exact ⟨after, whole.symm⟩
  rw [← same]
  rfl

theorem text_endOfInput (member : token ∈ (tokenize source).tokens) (ends : token.kind = .endOfInput) :
    token.text = "" := by
  have marked : token.mark ∈ (tokenize source).tokens.map (·.mark) := List.mem_map_of_mem member
  rw [tokenize_marks, List.mem_append, List.mem_singleton] at marked
  rcases marked with inside | last
  · obtain ⟨scrap, own, sort, -⟩ := mem_marksFrom inside
    obtain ⟨rest, unread, rfl⟩ := mem_scraps own
    exact absurd (sort.trans (congrArg Reading.token ends)) (Lexer.reading_ne_end rest)
  · exact congrArg (fun mark : Mark => mark.1.text) last

end Texts

namespace Doc

mutual

/-- The texts of a document in order, with the side of each choice that is printed in a broken group. -/
def strings : Doc → List String
  | .text content => [content]
  | .concat parts => stringsOf parts
  | .group contents _ => contents.strings
  | .indent contents => contents.strings
  | .ifBreak broken _ => broken.strings
  | .lineSuffix contents => contents.strings
  | .line _ | .breakParent | .unknown _ => []

def stringsOf : List Doc → List String
  | [] => []
  | doc :: docs => doc.strings ++ stringsOf docs

end

variable {α : Type} (reader : Reader α)

mutual

theorem collect_eq_strings (choices : ∀ broken flat, reader.ofChoice broken flat = []) :
    (doc : Doc) → doc.collect reader = doc.strings.flatMap reader.ofText
  | .text content => by simp [strings]
  | .concat parts => by rw [strings]; exact collectAll_eq_strings choices parts
  | .group contents _ | .indent contents | .lineSuffix contents => by
    rw [strings]
    exact collect_eq_strings choices contents
  | .ifBreak broken flat => by
    rw [strings, collect, choices, List.nil_append]
    exact collect_eq_strings choices broken
  | .line _ | .breakParent | .unknown _ => rfl

theorem collectAll_eq_strings (choices : ∀ broken flat, reader.ofChoice broken flat = []) :
    (docs : List Doc) → (concat docs).collect reader = (stringsOf docs).flatMap reader.ofText
  | [] => rfl
  | doc :: docs => by
    rw [stringsOf, List.flatMap_append, ← collect_eq_strings choices doc,
      ← collectAll_eq_strings choices docs]
    rfl

end

end Doc

namespace Layout

def isLegible (content : String) : Bool := content ≠ "" ∧ content ≠ " " ∧ content ≠ ","

def unspaced (content : String) : List Char :=
  match content.toList with
  | ' ' :: rest => rest
  | text => text

def legend (doc : Doc) : List (List Char) := (doc.strings.filter isLegible).map unspaced

/-- What a token says, with the comments before and after it. Commas and the end say nothing. -/
def utterance (token : Token) : List (List Char) :=
  (token.leading.filter (·.isComment)).map (·.text.toList) ++
    (if token.kind = .comma ∨ token.kind = .endOfInput then [] else [token.text.toList]) ++
      (token.trailing.filter (·.isComment)).map (·.text.toList)

def legendReader : Doc.Reader (List Char) where
  ofText content := ([content].filter isLegible).map unspaced
  ofChoice _ _ := []
  empty := rfl
  space := rfl
  comma := rfl
  extra := List.map_nil (f := unspaced)

theorem legend_eq (doc : Doc) : legend doc = doc.collect legendReader := by
  rw [Doc.collect_eq_strings legendReader fun _ _ => rfl]
  unfold legend
  induction doc.strings with
  | nil => rfl
  | cons content strings ih =>
    rw [List.flatMap_cons, ← ih, ← List.singleton_append, List.filter_append, List.map_append]
    rfl

section Program

variable {α : Type} (reader : Doc.Reader α) {settles : Token → Bool} {source : String}

theorem neat_parse [NestingLimit] (source : String) :
    (parse source).tree.everywhere Grammar.isNeat := by
  obtain ⟨trees, last, shape, isProgram⟩ := parse_isProgram source
  rw [shape]
  simpa [Grammar.isNeat_other] using isProgram.derived.neat

theorem accounts_parse [NestingLimit] (clean : (parse source).tree.errors = 0)
    (settled : (parse source).tree.everywhere
      (fun label children => (lastComma? label children).all settles)) :
    (parse source).tree.everywhere (accounts settles) := by
  have proper := Tree.everywhere_both (everywhere_proper clean) (Tree.everywhere_both
    (everywhere_admits (shaped_parse source)) (Tree.everywhere_both (ordered_parse source)
      (Tree.everywhere_both (neat_parse source) (Tree.everywhere_both (composed_parse source) settled))))
  refine Tree.everywhere_mono (fun label children passes => ?_) proper
  simp only [Bool.and_eq_true] at passes
  obtain ⟨noError, admitted, stands, isNeat, composed, settles⟩ := passes
  have starts : headed label children :=
    (Bool.and_eq_true_iff.mp (Bool.and_eq_true_iff.mp isNeat).1).1
  simp [accounts, noError, admitted, stands, starts, nests_of_isComposed composed, settles]

theorem collect_parse [NestingLimit] (clean : (parse source).tree.errors = 0)
    (spare : ∀ token placed, settles token →
      reader.ofChoice (tokenDoc placed token) (.text "") = [])
    (settled : (parse source).tree.everywhere
      (fun label children => (lastComma? label children).all settles)) :
    (document source.toList (parse source).tree).collect reader =
      spoken reader (tokenize source).tokens := by
  obtain ⟨trees, last, shape, isProgram⟩ := parse_isProgram source
  have sound := accounts_parse clean settled
  have ends : last.text = "" ∧ last.trailing = [] := by
    have tokens := tokens_tokenize source
    rw [isProgram.split] at tokens
    have same := (List.append_inj' tokens rfl).2
    simp only [List.cons.injEq, and_true] at same
    rw [same]
    exact ⟨rfl, rfl⟩
  rw [shape, Tree.everywhere_node, Bool.and_eq_true, Tree.everywhereOf_append, Bool.and_eq_true] at sound
  obtain ⟨own, below, -⟩ := sound
  simp only [accounts, Bool.and_eq_true] at own
  have nested : nests .program trees := by
    simpa [nests, Tree.hasLabel, Tree.label?] using own.2.2.2.2.1
  rw [shape, isProgram.split]
  exact collect_document reader source.toList spare below own.2.1 nested ends.1 ends.2

variable {token : Token}

theorem unspaced_solid {content : String} (solid : isSolid content.toList) :
    unspaced content = content.toList ∧ unspaced (" " ++ content) = content.toList := by
  obtain ⟨c, rest, shape, visible⟩ := solid_cons solid
  constructor
  · unfold unspaced
    split
    · next tail space =>
      rw [shape] at space
      cases space
      cases visible
    · rfl
  · simp [unspaced]

theorem isLegible_solid {content : String} (solid : isSolid content.toList)
    (noComma : content ≠ ",") : isLegible content ∧ isLegible (" " ++ content) := by
  have full : content ≠ "" := by
    rintro rfl
    cases solid
  have noSpace : content ≠ " " := by
    rintro rfl
    cases solid
  have spaced : (" " ++ content).toList = ' ' :: content.toList := by simp
  refine ⟨by simp [isLegible, full, noSpace, noComma], ?_⟩
  simp [isLegible, ← String.toList_inj, full]

/-- A reader that reads texts as they are, with a space before them or without, unless they are
blank or a comma. -/
def Reads (reader : Doc.Reader (List Char)) : Prop :=
  ∀ content : String, isSolid content.toList → content ≠ "," →
    reader.ofText content = [content.toList] ∧ reader.ofText (" " ++ content) = [content.toList]

variable {reader : Doc.Reader (List Char)}

theorem Reads.comment (reads : Reads reader) (member : token ∈ (tokenize source).tokens)
    {comment : Trivia} (listed : comment ∈ token.comments) :
    reader.ofText comment.text = [comment.text.toList] ∧
      reader.ofText (" " ++ comment.text) = [comment.text.toList] := by
  refine reads _ (solid_comment member listed) fun isComma => ?_
  obtain ⟨scrap, own, sort, same⟩ := comments_scraps member listed
  rw [comma_scrap own (same.trans isComma)] at sort
  cases sort

theorem Reads.tokenText (reads : Reads reader) (member : token ∈ (tokenize source).tokens) :
    reader.ofText token.text =
      if token.kind = .comma ∨ token.kind = .endOfInput then [] else [token.text.toList] := by
  split
  · next silent =>
    rcases silent with isComma | ends
    · rw [text_comma member isComma, reader.comma]
    · rw [text_endOfInput member ends, reader.empty]
  · next heard =>
    obtain ⟨noComma, goesOn⟩ := not_or.mp heard
    refine (reads _ (solid_token member goesOn) fun isComma => ?_).1
    obtain ⟨scrap, own, sort, same⟩ := tokens_scraps source member goesOn
    rw [comma_scrap own (same.trans isComma), Reading.token.injEq] at sort
    exact noComma sort.symm

theorem Reads.spoken (reads : Reads reader) (source : String) :
    spoken reader (tokenize source).tokens = (tokenize source).tokens.flatMap utterance := by
  refine List.flatMap_congr fun token member => ?_
  have each {trivia : List Trivia} {read : Trivia → List (List Char)}
      (listed : ∀ comment ∈ trivia.filter (·.isComment), read comment = [comment.text.toList]) :
      (trivia.filter (·.isComment)).flatMap read =
        (trivia.filter (·.isComment)).map (·.text.toList) := by
    rw [List.flatMap_congr listed, List.map_eq_flatMap]
  rw [utterance, reads.tokenText member]
  congr 1
  · congr 1
    refine each fun comment own => (reads.comment member ?_).1
    simp only [Token.comments, List.filter_append, List.mem_append]
    exact .inl own
  · refine each fun comment own => (reads.comment member ?_).2
    simp only [Token.comments, List.filter_append, List.mem_append]
    exact .inr own

theorem reads_legend : Reads legendReader := by
  intro content solid noComma
  obtain ⟨plain, spaced⟩ := isLegible_solid solid noComma
  obtain ⟨same, cut⟩ := unspaced_solid solid
  simp [legendReader, plain, spaced, same, cut]

end Program

/-- The layout of a text without malformed parts holds every token and every comment once, in the
order of the text, and nothing else but separators. -/
theorem legend_document [NestingLimit] (source : String) (clean : (parse source).tree.errors = 0) :
    legend (document source.toList (parse source).tree) =
      (tokenize source).tokens.flatMap utterance := by
  rw [legend_eq, ← reads_legend.spoken]
  have settled : (parse source).tree.everywhere
      (fun label children => (lastComma? label children).all fun _ => true) :=
    Tree.everywhere_mono (fun _ _ _ => by simp) (composed_parse source)
  exact collect_parse legendReader clean (fun _ _ _ => rfl) settled

theorem legend_document_array :
    (parse "x = [1, // one\n2 /*two*/,]").tree.errors = 0 ∧
      legend (document "x = [1, // one\n2 /*two*/,]".toList
        (parse "x = [1, // one\n2 /*two*/,]").tree) =
        ["x", "=", "[", "1", "// one", "2", "/*two*/", "]"].map String.toList := by
  have clean : (parse "x = [1, // one\n2 /*two*/,]").tree.errors = 0 := by decide +kernel
  exact ⟨clean, (legend_document _ clean).trans (by decide +kernel)⟩

end Layout

end Squirrel
