import Squirrel.Proofs.Doc.Fitting
import Squirrel.Proofs.Safety
import Squirrel.Proofs.Token.Scan

/-! Colouring takes nothing away from a text: the coloured ranges are its comments and the tokens that
have a colour, in order, and the fragments and lines that are cut along them hold the whole text. -/

namespace Squirrel

/-- Whether a token has a colour: punctuation and the end of the text have none. -/
def Token.isShown (token : Token) : Bool :=
  !token.kind.isPunctuation && token.kind ≠ .endOfInput

namespace Highlight

structure Extent where
  start : Nat
  stop : Nat
  isComment : Bool
  deriving DecidableEq, Repr

def Range.stop (range : Range) : Nat := range.start + range.length

def Range.extent (range : Range) : Extent := ⟨range.start, range.stop, range.group = .comment⟩

def commentExtents (trivia : List Trivia) : List Extent :=
  (trivia.filter (·.isComment)).map fun comment => ⟨comment.start, comment.stop, true⟩

/-- The comments around a token, and between them the token itself if it has a colour. -/
def tokenExtents (token : Token) : List Extent :=
  commentExtents token.leading ++
    (if token.isShown then [⟨token.span.start, token.span.stop, false⟩] else []) ++
    commentExtents token.trailing

section Roles

mutual

theorem tokens_roles (called : Bool) : (tree : Tree) →
    (roles called tree).map (·.1) = tree.tokens
  | .leaf _ => rfl
  | .node label children => by rw [roles, tokens_rolesOf, Tree.tokens]

theorem tokens_rolesOf (called : Bool) (label : Label) (index : Nat) : (trees : List Tree) →
    (rolesOf called label index trees).map (·.1) = Tree.tokensOf trees
  | [] => rfl
  | .leaf token :: trees => by
    rw [rolesOf, List.map_cons, tokens_rolesOf, Tree.tokensOf, Tree.tokens, List.singleton_append]
  | .node inner children :: trees => by
    rw [rolesOf, List.map_append, tokens_roles, tokens_rolesOf, Tree.tokensOf]

end

theorem roleIn_ne_comment (called : Bool) (label : Label) (index : Nat) (isLast : Bool) :
    roleIn called label index isLast ≠ .comment := by
  unfold roleIn
  repeat' split
  all_goals exact nofun

mutual

theorem roles_ne_comment (called : Bool) : (tree : Tree) →
    ∀ entry ∈ roles called tree, entry.2 ≠ .comment
  | .leaf _ => by
    rw [roles, List.forall_mem_singleton]
    exact nofun
  | .node label children => by
    rw [roles]
    exact rolesOf_ne_comment called label 0 children

theorem rolesOf_ne_comment (called : Bool) (label : Label) (index : Nat) : (trees : List Tree) →
    ∀ entry ∈ rolesOf called label index trees, entry.2 ≠ .comment
  | [] => fun _ member => nomatch member
  | .leaf token :: trees => by
    rw [rolesOf, List.forall_mem_cons]
    exact ⟨roleIn_ne_comment called label index _, rolesOf_ne_comment called label _ trees⟩
  | .node inner children :: trees => by
    rw [rolesOf, List.forall_mem_append]
    exact ⟨roles_ne_comment _ _, rolesOf_ne_comment called label _ trees⟩

end

theorem groupOf?_eq (token : Token) {role : Group} (ordinary : role ≠ .comment) :
    if token.isShown then ∃ group, groupOf? token role = some group ∧ group ≠ .comment
    else groupOf? token role = none := by
  obtain ⟨⟨kind, text⟩, span, leading, trailing⟩ := token
  cases kind
  case identifier => exact ⟨role, rfl, ordinary⟩
  all_goals first | exact rfl | exact ⟨_, rfl, nofun⟩

end Roles

section Extents

variable {token : Token}

theorem lt_of_isShown (source : String) (member : token ∈ (tokenize source).tokens)
    (shown : token.isShown) : token.span.start < token.span.stop := by
  simp only [Token.isShown, Bool.and_eq_true, decide_eq_true_eq] at shown
  refine ((tiles_tokenize source).cut token.piece ?_).lt (text_ne_empty source member shown.2)
  exact List.mem_flatMap.mpr ⟨token, member, by simp [Token.pieces]⟩

theorem extents_comments (starts : List Nat) (trivia : List Trivia) :
    (commentRanges starts trivia).map (·.extent) = commentExtents trivia := by
  rw [commentRanges, commentExtents, List.map_map]
  refine List.map_congr_left fun comment _ => ?_
  have inside : comment.start ≤ comment.stop := Nat.le_add_right _ _
  simp [Range.extent, Range.stop, range, Nat.add_sub_cancel' inside]

theorem extents_token (starts : List Nat) {role : Group} (ordinary : role ≠ .comment)
    (filled : token.isShown → token.span.start < token.span.stop) :
    (tokenRanges starts token role).map (·.extent) = tokenExtents token := by
  have group := groupOf?_eq token ordinary
  rw [tokenRanges, tokenExtents, List.map_append, List.map_append, extents_comments,
    extents_comments]
  congr 2
  cases shown : token.isShown with
  | false =>
    rw [shown, if_neg Bool.false_ne_true] at group
    rw [group]
    rfl
  | true =>
    rw [shown, if_pos rfl] at group
    obtain ⟨group, found, other⟩ := group
    have forward := filled shown
    rw [found]
    simp [forward, Range.extent, Range.stop, range, Nat.add_sub_cancel' (Nat.le_of_lt forward),
      other]

theorem ranges?_eq [NestingLimit] (source : String) : ∃ colored, ranges? source = .ok colored ∧
    ranges source = colored ∧ colored = (roles false (parse source).tree).flatMap fun entry =>
      tokenRanges (lineStarts source.toList) entry.1 entry.2 := by
  obtain ⟨colored, isOk⟩ := treeRanges_ok source (shaped_parse source)
  refine ⟨colored, isOk, ?_, ?_⟩
  · rw [ranges, show ranges? source = .ok colored from isOk]
    rfl
  · unfold treeRanges? at isOk
    split at isOk
    · cases isOk
    · exact (Except.ok.inj isOk).symm

theorem extents_ranges [NestingLimit] (source : String) :
    (ranges source).map (·.extent) = (tokenize source).tokens.flatMap tokenExtents := by
  obtain ⟨colored, -, rfl, isRanges⟩ := ranges?_eq source
  rw [isRanges, List.map_flatMap, ← tokens_parse, ← tokens_roles false, List.flatMap_map]
  rw [List.flatMap_def, List.flatMap_def]
  refine congrArg List.flatten (List.map_congr_left fun entry member => ?_)
  refine extents_token _ (roles_ne_comment false _ entry member) (lt_of_isShown source ?_)
  rw [← tokens_parse, ← tokens_roles false]
  exact List.mem_map_of_mem member

theorem sublist_comments (trivia : List Trivia) :
    ((commentExtents trivia).map fun extent => (extent.start, extent.stop)).Sublist
      ((trivia.map (·.piece)).map fun piece => (piece.start, piece.stop)) := by
  rw [commentExtents, List.map_map, List.map_map]
  exact List.filter_sublist.map _

theorem sublist_extents (token : Token) :
    ((tokenExtents token).map fun extent => (extent.start, extent.stop)).Sublist
      (token.pieces.map fun piece => (piece.start, piece.stop)) := by
  rw [tokenExtents, Token.pieces, List.append_cons, List.map_append, List.map_append,
    List.map_append, List.map_append]
  refine ((sublist_comments _).append ?_).append (sublist_comments _)
  split
  · exact .refl _
  · exact List.nil_sublist _

theorem sublist_ranges [NestingLimit] (source : String) :
    ((ranges source).map fun range => (range.start, range.stop)).Sublist
      (((tokenize source).tokens.flatMap (·.pieces)).map fun piece => (piece.start, piece.stop)) := by
  have same : ((ranges source).map fun range => (range.start, range.stop)) =
      ((ranges source).map (·.extent)).map fun extent => (extent.start, extent.stop) := by
    rw [List.map_map]
    rfl
  rw [same, extents_ranges, List.map_flatMap, List.map_flatMap]
  generalize (tokenize source).tokens = tokens
  induction tokens with
  | nil => exact .refl _
  | cons token tokens ih => exact (sublist_extents token).append ih

theorem ranges_ordered [NestingLimit] (source : String) :
    (ranges source).Pairwise fun one two => one.stop ≤ two.start := by
  have ordered := List.pairwise_map.mp <|
    ((List.pairwise_map (f := fun piece : Piece => (piece.start, piece.stop))
      (R := fun one two => one.2 ≤ two.1)).mpr (tiles_tokenize source).ordered).sublist
      (sublist_ranges source)
  exact ordered

theorem ranges_within [NestingLimit] (source : String) :
    ∀ range ∈ ranges source, range.stop ≤ source.length := by
  intro range member
  have listed := (sublist_ranges source).subset (List.mem_map_of_mem member)
  obtain ⟨piece, own, same⟩ := List.mem_map.mp listed
  have inside := ((tiles_tokenize source).within piece own).2
  rw [(Prod.mk.inj same).2] at inside
  exact inside

theorem extents_filled (source : String) (member : token ∈ (tokenize source).tokens) :
    ∀ extent ∈ tokenExtents token, extent.start < extent.stop := by
  have comments {trivia : List Trivia} (part : trivia ⊆ token.leading ++ token.trailing) :
      ∀ extent ∈ commentExtents trivia, extent.start < extent.stop := by
    intro extent listed
    obtain ⟨comment, kept, rfl⟩ := List.mem_map.mp listed
    have own := part (List.mem_filter.mp kept).1
    have cut := (tiles_tokenize source).cut comment.piece
      (List.mem_flatMap.mpr ⟨token, member, Trivia.piece_mem_pieces own⟩)
    exact cut.lt (trivia_ne_empty source member own)
  rw [tokenExtents, List.forall_mem_append, List.forall_mem_append]
  refine ⟨⟨comments (List.subset_append_left _ _), ?_⟩, comments (List.subset_append_right _ _)⟩
  cases shown : token.isShown with
  | false => exact nofun
  | true => exact List.forall_mem_singleton.mpr (lt_of_isShown source member shown)

theorem ranges_filled [NestingLimit] (source : String) :
    ∀ range ∈ ranges source, 0 < range.length := by
  intro range member
  have listed : range.extent ∈ (ranges source).map (·.extent) := List.mem_map_of_mem member
  rw [extents_ranges] at listed
  obtain ⟨token, own, part⟩ := List.mem_flatMap.mp listed
  have forward := extents_filled source own _ part
  simp only [Range.extent, Range.stop] at forward
  omega

end Extents

section Cutting

/-- The ranges that are left out of the fragments, because they start before the end of the one
before. -/
def leftOut (offset : Nat) : List Range → List Range
  | [] => []
  | range :: ranges =>
    if range.start < offset then range :: leftOut offset ranges else leftOut range.stop ranges

/-- The part of a text that a range covers, in the style of its group. -/
def Range.fragment (source : List Char) (range : Range) : Fragment :=
  ⟨range.group.style, slice source range.start range.stop⟩

variable {offset : Nat} {ranges : List Range}

theorem leftOut_of_ordered (ordered : ranges.Pairwise fun one two => one.stop ≤ two.start)
    (after : ∀ range ∈ ranges, offset ≤ range.start) : leftOut offset ranges = [] := by
  induction ranges generalizing offset with
  | nil => rfl
  | cons range ranges ih =>
    obtain ⟨later, others⟩ := List.pairwise_cons.mp ordered
    have here : ¬ range.start < offset := Nat.not_lt.mpr (after range List.mem_cons_self)
    rw [leftOut, if_neg here]
    exact ih others later

theorem text_cut (offset : Nat) (text : List Char) (ranges : List Range) :
    (cut offset text ranges).flatMap (·.text) = text := by
  induction ranges generalizing offset text with
  | nil =>
    rw [cut]
    split
    · next empty => exact (List.isEmpty_iff.mp empty).symm
    · exact List.append_nil text
  | cons range ranges ih =>
    rw [cut]
    split
    · exact ih offset text
    · next after =>
      have front : (if offset < range.start then
          [(⟨"", text.take (range.start - offset)⟩ : Fragment)] else []).flatMap (·.text) =
          text.take (range.start - offset) := by
        split
        · exact List.append_nil _
        · next none =>
          have same : range.start - offset = 0 := Nat.sub_eq_zero_of_le (Nat.not_lt.mp none)
          rw [same]
          rfl
      rw [List.flatMap_append, List.flatMap_cons, ih, front, List.take_append_drop,
        List.take_append_drop]

theorem fragments_cut {source : List Char}
    (ordered : ranges.Pairwise fun one two => one.stop ≤ two.start)
    (after : ∀ range ∈ ranges, offset ≤ range.start) :
    (ranges.map (·.fragment source)).Sublist (cut offset (source.drop offset) ranges) := by
  induction ranges generalizing offset with
  | nil => exact List.nil_sublist _
  | cons range ranges ih =>
    obtain ⟨later, others⟩ := List.pairwise_cons.mp ordered
    have here := after range List.mem_cons_self
    have reached : (source.drop offset).drop (range.start - offset) = source.drop range.start := by
      rw [List.drop_drop, Nat.add_sub_cancel' here]
    have own : (⟨range.group.style, (source.drop range.start).take range.length⟩ : Fragment) =
        range.fragment source := by
      rw [Range.fragment, slice, Range.stop, Nat.add_sub_cancel_left]
    rw [cut, if_neg (Nat.not_lt.mpr here), List.map_cons]
    simp only [reached, own, List.drop_drop]
    exact ((ih others later).cons_cons _).trans (List.sublist_append_right _ _)

end Cutting

section Lines

def lineTexts (lines : List (List Fragment)) : List (List Char) :=
  lines.map fun line => line.flatMap (·.text)

theorem splitAtLineFeeds_eq (text : List Char) : splitAtLineFeeds text = text.splitOn '\n' := by
  induction text with
  | nil => rfl
  | cons c text ih =>
    rw [splitAtLineFeeds, List.splitOn_cons_eq_if_modifyHead, ih]
    split
    · next empty => exact absurd empty (List.splitOn_ne_nil _ _)
    · next first others shape => simp [shape]

theorem prependParts_cons (style : String) (part : List Char) {parts : List (List Char)}
    (more : parts ≠ []) (lines : List (List Fragment)) :
    prependParts style (part :: parts) lines = [⟨style, part⟩] :: prependParts style parts lines := by
  rw [prependParts]
  · exact fun _ empty => more empty
  · exact fun _ _ _ empty => more empty

variable {lines : List (List Fragment)}

theorem lineTexts_prependParts_cons (style : String) (c : Char) {parts : List (List Char)}
    (some : parts ≠ []) (more : lines ≠ []) :
    lineTexts (prependParts style (parts.modifyHead (c :: ·)) lines) =
      (lineTexts (prependParts style parts lines)).modifyHead (c :: ·) := by
  obtain ⟨first, others, rfl⟩ := List.exists_cons_of_ne_nil some
  obtain ⟨line, rest, rfl⟩ := List.exists_cons_of_ne_nil more
  cases others with
  | nil => rfl
  | cons second others =>
    rw [List.modifyHead_cons, prependParts_cons style (c :: first) (List.cons_ne_nil _ _),
      prependParts_cons style first (List.cons_ne_nil _ _)]
    rfl

theorem lineTexts_prependParts (style : String) (text after : List Char)
    (known : lineTexts lines = after.splitOn '\n') :
    lineTexts (prependParts style (text.splitOn '\n') lines) = (text ++ after).splitOn '\n' := by
  have more : lines ≠ [] := by
    rintro rfl
    exact List.splitOn_ne_nil _ _ known.symm
  induction text with
  | nil =>
    obtain ⟨line, rest, rfl⟩ := List.exists_cons_of_ne_nil more
    exact known
  | cons c text ih =>
    rw [List.cons_append, List.splitOn_cons_eq_if_modifyHead, List.splitOn_cons_eq_if_modifyHead,
      ← ih]
    split
    · rw [prependParts_cons style _ (List.splitOn_ne_nil _ _)]
      rfl
    · exact lineTexts_prependParts_cons style c (List.splitOn_ne_nil _ _) more

/-- What is asked of a function that tells the fragments of lines apart: it splits their text at
the line feeds. -/
structure SplitsLines (split : List Fragment → List (List Fragment)) : Prop where
  texts : ∀ fragments, lineTexts (split fragments) = (fragments.flatMap (·.text)).splitOn '\n'

theorem splitsLines_splitLines : SplitsLines splitLines where
  texts fragments := by
    induction fragments with
    | nil => rfl
    | cons fragment fragments ih =>
      rw [splitLines, List.foldr_cons, ← splitLines, splitAtLineFeeds_eq, List.flatMap_cons]
      exact lineTexts_prependParts fragment.style fragment.text _ ih

theorem SplitsLines.lineAt {split : List Fragment → List (List Fragment)} (splits : SplitsLines split)
    {fragments : List Fragment} {number : Nat}
    (inside : number ≤ (fragments.flatMap (·.text)).count '\n') :
    ((fragments.flatMap (·.text)).splitOn '\n')[number]? =
      some ((lineAt (split fragments) number).flatMap (·.text)) := by
  have lines := splits.texts fragments
  have counted : number < (split fragments).length := by
    have length := congrArg List.length lines
    rw [lineTexts, List.length_map, length_splitOn] at length
    omega
  rw [← lines, lineTexts, List.getElem?_map, Highlight.lineAt, List.getD_eq_getElem?_getD,
    List.getElem?_eq_getElem counted]
  rfl

end Lines

/-- The coloured ranges of a text are its comments and the tokens that are neither punctuation nor
the end, each one once. They are not empty, stay inside the text and do not overlap, so that none of
them is left out of the fragments. The fragments hold the whole text, and whatever splits them at
the line feeds gives the lines of the text. -/
theorem ranges_cover [NestingLimit] (source : String) :
    ranges? source = .ok (ranges source) ∧
    (ranges source).map (·.extent) = (tokenize source).tokens.flatMap tokenExtents ∧
    (∀ range ∈ ranges source, 0 < range.length ∧ range.stop ≤ source.length) ∧
    ((ranges source).Pairwise fun one two => one.stop ≤ two.start) ∧
    (leftOut 0 (ranges source) = [] ∧
      ((ranges source).map (·.fragment source.toList)).Sublist (fragments source)) ∧
    (fragments source).flatMap (·.text) = source.toList ∧
    ∀ split, SplitsLines split → ∀ number ≤ source.toList.count '\n',
      (source.toList.splitOn '\n')[number]? =
        some ((lineOf split source number).flatMap (·.text)) := by
  obtain ⟨colored, isOk, same, -⟩ := ranges?_eq source
  have ordered := ranges_ordered source
  have whole : (fragments source).flatMap (·.text) = source.toList := text_cut 0 _ _
  refine ⟨same ▸ isOk, extents_ranges source, fun range member => ?_, ordered,
    ⟨leftOut_of_ordered ordered fun _ _ => Nat.zero_le _, ?_⟩, whole,
    fun split splits number inside => ?_⟩
  · exact ⟨ranges_filled source range member, ranges_within source range member⟩
  · exact fragments_cut ordered fun _ _ => Nat.zero_le _
  · rw [← whole] at inside ⊢
    exact splits.lineAt inside

theorem ranges_cover_comment :
    ((⟨2, 5, 1, 3, .comment⟩ : Range) ∈ ranges "x /*\n*/ y" ∧ 0 < 5 ∧ 7 ≤ "x /*\n*/ y".length) ∧
    1 ≤ "x /*\n*/ y".toList.count '\n' ∧
    ("x /*\n*/ y".toList.splitOn '\n')[1]? =
      some ((lineOf splitLines "x /*\n*/ y" 1).flatMap (·.text)) := by
  obtain ⟨-, -, inside, -, -, -, lines⟩ := ranges_cover "x /*\n*/ y"
  have member : (⟨2, 5, 1, 3, .comment⟩ : Range) ∈ ranges "x /*\n*/ y" := by decide +kernel
  have second : 1 ≤ "x /*\n*/ y".toList.count '\n' := by decide
  exact ⟨⟨member, inside _ member⟩, second, lines _ splitsLines_splitLines 1 second⟩

end Highlight

end Squirrel
