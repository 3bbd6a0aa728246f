import Squirrel.Proofs.Doc.Collecting
import Squirrel.Proofs.Layout.Echo

/-! The layout of a tree says what its tokens and comments say, in their order. -/

namespace Squirrel.Layout

open Doc (collect hardLine plainLine softLine space)

variable {α : Type} (reader : Doc.Reader α)

def remarks (trivia : List Trivia) : List α :=
  (trivia.filter (·.isComment)).flatMap fun comment => reader.ofText comment.text

def trails (token : Token) : List α :=
  (token.trailing.filter (·.isComment)).flatMap fun comment => reader.ofText (" " ++ comment.text)

def leadsOf (tree : Tree) : List α := tree.firstToken?.toList.flatMap fun token => remarks reader token.leading

def trailsOf (tree : Tree) : List α := tree.lastToken?.toList.flatMap (trails reader)

section Comments

@[simp] theorem remarks_nil : remarks reader [] = [] := rfl

variable {trivia : Trivia}

theorem remarks_comment (isComment : trivia.isComment) (rest : List Trivia) :
    remarks reader (trivia :: rest) = reader.ofText trivia.text ++ remarks reader rest := by
  simp [remarks, isComment]

theorem remarks_other (other : trivia.isComment = false) (rest : List Trivia) :
    remarks reader (trivia :: rest) = remarks reader rest := by
  simp [remarks, other]

theorem isComment_of_newline (isBreak : trivia.kind = .newline) : trivia.isComment = false := by
  simp [Trivia.isComment, isBreak, TriviaKind.isComment]

theorem collect_gapAfterComment (kind : TriviaKind) (rest : List Trivia) :
    (gapAfterComment kind rest).collect reader = [] := by
  unfold gapAfterComment
  split
  · simp
  · split <;> simp

theorem collect_inlineComments (afterBreak : Bool) (trivia : List Trivia) :
    (inlineComments afterBreak trivia).flatMap (collect reader) = remarks reader trivia := by
  fun_induction inlineComments afterBreak trivia with
  | case1 => rfl
  | case2 afterBreak trivia rest isBreak ih =>
    rw [remarks_other reader (isComment_of_newline isBreak), ih]
  | case3 afterBreak trivia rest _ isComment ih =>
    rw [remarks_comment reader isComment, ← ih]
    cases afterBreak <;> simp [collect_gapAfterComment]
  | case4 afterBreak trivia rest _ other ih =>
    rw [remarks_other reader (by simpa using other), ih]

theorem collect_trailingComments (token : Token) :
    (trailingComments token).flatMap (collect reader) = trails reader token := by
  unfold trailingComments trails
  induction token.trailing with
  | nil => rfl
  | cons trivia rest ih =>
    rw [List.flatMap_cons, List.flatMap_append, ih, List.filter_cons]
    cases kind : trivia.kind <;> simp [kind, Trivia.isComment, TriviaKind.isComment]

theorem collect_separator (last : Option TriviaKind) (breaks : Nat) (seen : Bool) :
    (separator last breaks seen).flatMap (collect reader) = [] := by
  have after : (if 2 ≤ breaks ∧ seen then [hardLine] else []).flatMap (collect reader) = [] := by
    split <;> simp
  unfold separator
  rw [List.flatMap_append, after, List.append_nil]
  split
  · simp
  · split <;> simp
  · rfl

theorem collect_commentLinesAfter (seen : Bool) (last : Option TriviaKind) (breaks : Nat)
    (trivia : List Trivia) :
    (commentLinesAfter seen last breaks trivia).docs.flatMap (collect reader) =
      remarks reader trivia := by
  fun_induction commentLinesAfter seen last breaks trivia with
  | case1 => rfl
  | case2 seen last breaks trivia rest isBreak ih =>
    rw [remarks_other reader (isComment_of_newline isBreak), ih]
  | case3 seen last breaks trivia rest _ isComment lines ih =>
    rw [remarks_comment reader isComment, ← ih, List.flatMap_append, collect_separator]
    rfl
  | case4 seen last breaks trivia rest _ other ih =>
    rw [remarks_other reader (by simpa using other), ih]

theorem collect_unitComments (seen : Bool) (unit : Tree) :
    (unitComments seen unit).flatMap (collect reader) = leadsOf reader unit := by
  unfold unitComments leadsOf
  split
  · next first isFirst =>
    rw [isFirst, List.flatMap_append, collect_separator]
    simp [commentLines, collect_commentLinesAfter]
  · next empty =>
    rw [empty]
    simp

theorem collect_dangling (afterUnits : Bool) {closer : Part} (isToken : closer.isNode = false) :
    (dangling afterUnits closer).flatMap (collect reader) = leadsOf reader closer.tree := by
  obtain ⟨token, isLeaf⟩ := Tree.leaf_of_isNode isToken
  have lines := collect_commentLinesAfter reader afterUnits none 0 token.leading
  have own : leadsOf reader (.leaf token) = remarks reader token.leading := by
    simp [leadsOf, Tree.firstToken?]
  rw [dangling, isLeaf, own]
  unfold danglingComments commentLines
  dsimp only
  split
  · rw [List.flatMap_cons, Doc.collect_hardLine, List.nil_append, lines]
  · exact lines

end Comments

section Filling

def rowSpeech (row : Row) : List α := row.flatMap fun entry => entry.2.collect reader

@[simp] theorem rowSpeech_nil : rowSpeech reader [] = [] := rfl

@[simp] theorem rowSpeech_append (first second : Row) :
    rowSpeech reader (first ++ second) = rowSpeech reader first ++ rowSpeech reader second :=
  List.flatMap_append

@[simp] theorem rowSpeech_deepen (nest : Nat) (row : Row) :
    rowSpeech reader (row.deepen nest) = rowSpeech reader row :=
  List.flatMap_map ..

mutual

theorem rowSpeech_row : (doc : Doc) → rowSpeech reader doc.row = doc.collect reader
  | .concat docs => by rw [Doc.row, rowSpeech_rowOf docs, Doc.collect_concat]
  | .indent doc => by rw [Doc.row, rowSpeech_deepen, rowSpeech_row doc, Doc.collect]
  | .text _ | .line _ | .group _ _ | .ifBreak _ _ | .lineSuffix _ | .breakParent | .unknown _ => by
    simp [rowSpeech, Doc.row]

theorem rowSpeech_rowOf : (docs : List Doc) →
    rowSpeech reader (Doc.rowOf docs) = docs.flatMap (collect reader)
  | [] => rfl
  | doc :: docs => by
    rw [Doc.rowOf_cons, rowSpeech_append, rowSpeech_row doc, rowSpeech_rowOf docs, List.flatMap_cons]

end

@[simp] theorem rowSpeech_choice (broken flat : Doc) : rowSpeech reader [(0, .ifBreak broken flat)] =
    reader.ofChoice broken flat ++ broken.collect reader := by
  simp [rowSpeech]

def Slot.speech : Slot → List Part → List α
  | .hole, part :: _ => part.doc.collect reader
  | .spare, part :: _ => reader.ofChoice part.doc (.text "") ++ part.doc.collect reader
  | .unit _, part :: _ => leadsOf reader part.tree ++ part.doc.collect reader
  | .notes _, part :: _ => leadsOf reader part.tree
  | _, _ => []

def Template.speech : Template → List Part → List α
  | [], _ => []
  | (_, slot) :: template, parts =>
    slot.speech reader parts ++ speech template (if slot.takes then parts.tail else parts)

variable {parts : List Part} {opener closer : Part} {label : Label} {template : Template} {rank : Nat}

theorem rowSpeech_fill (made : template.Made rank) (goes : template.goes (parts.map (·.tree))) :
    rowSpeech reader (template.fill parts) = template.speech reader parts := by
  induction template generalizing parts with
  | nil => rfl
  | cons entry template ih =>
    obtain ⟨nest, slot⟩ := entry
    obtain ⟨suits, later⟩ := Bool.and_eq_true_iff.mp goes
    obtain ⟨here, rest⟩ := (made_cons _ _ _).mp made
    rw [← List.map_tail, ← apply_ite (List.map fun part : Part => part.tree)] at later
    rw [Template.fill, Template.speech, rowSpeech_append, rowSpeech_deepen, ih rest later]
    congr 1
    cases slot with
    | gap doc =>
      rw [Slot.row, rowSpeech_row]
      rcases here with rfl | rfl | rfl | rfl <;> simp [Slot.speech]
    | extra anyComma =>
      cases anyComma <;> simp [Slot.row, Slot.speech, rowSpeech, reader.comma, reader.extra, reader.empty]
    | notes afterUnits =>
      obtain _ | ⟨part, parts⟩ := parts
      · cases suits
      have isToken : part.isNode = false := by
        have isLeaf : part.tree.isLeaf := suits
        simp [Part.isNode, Tree.isNode, isLeaf]
      rw [Slot.row, Slot.speech, rowSpeech_rowOf, collect_dangling reader afterUnits isToken]
    | hole | unit | spare | out =>
      obtain _ | ⟨part, parts⟩ := parts
      · cases suits
      simp [Slot.row, Slot.speech, rowSpeech_row, rowSpeech_rowOf, collect_unitComments, rowSpeech_choice]

theorem Framed.speech {grouped : Bool} {doc : Doc} {row : Row} (framed : Framed grouped doc row) :
    doc.collect reader = rowSpeech reader row := by
  refine framed.cases (fun doc same => ?_) fun docs same => ?_
  · rw [← same, rowSpeech_row]
  · rw [← same, Doc.collect_groupOf, rowSpeech_rowOf]

theorem speech_append (first second : Template) (parts : List Part) :
    (first ++ second).speech reader parts =
      first.speech reader parts ++ second.speech reader (parts.drop first.count) := by
  induction first generalizing parts with
  | nil => rfl
  | cons entry first ih =>
    obtain ⟨nest, slot⟩ := entry
    rw [List.cons_append, Template.speech, ih, Template.speech, Template.count, List.append_assoc]
    split <;> simp [Nat.add_comm 1]

theorem speech_deepen (nest : Nat) (template : Template) (parts : List Part) :
    (template.deepen nest).speech reader parts = template.speech reader parts := by
  induction template generalizing parts with
  | nil => rfl
  | cons entry template ih =>
    exact congrArg (entry.2.speech reader parts ++ ·) (ih _)

theorem speech_plain (made : template.Made 0) (count : template.count = parts.length) :
    template.speech reader parts = parts.flatMap (·.doc.collect reader) := by
  induction template generalizing parts with
  | nil =>
    rw [List.length_eq_zero_iff.mp count.symm]
    rfl
  | cons entry template ih =>
    obtain ⟨nest, slot⟩ := entry
    obtain ⟨here, rest⟩ := (made_cons _ _ _).mp made
    cases slot with
    | gap doc => exact ih rest (by simpa [Template.count, Slot.takes] using count)
    | hole =>
      obtain _ | ⟨part, parts⟩ := parts
      · simp [Template.count, Slot.takes] at count
      rw [List.flatMap_cons, ← ih rest (by simpa [Template.count, Slot.takes, Nat.add_comm 1] using count)]
      rfl
    | unit | notes | spare | extra | out => simp [Slot.Made] at here

end Filling

section Arranging

variable {parts : List Part} {opener closer : Part} {label : Label}

/-- What a child says, with the comments before it if it stands on its own. -/
def item (label : Label) (part : Part) : List α :=
  (if standsAlone label part.tree then leadsOf reader part.tree else []) ++ part.doc.collect reader

/-- What the children of a node say. The comments before a last token can be those of the brackets
that it closes. -/
def told (label : Label) (dangles : Bool) : List Part → List α
  | [] => []
  | part :: parts =>
    (if part.tree.isLeaf && parts.isEmpty && dangles then leadsOf reader part.tree else []) ++
      item reader label part ++ told label dangles parts

theorem told_plain (label : Label) (parts : List Part) :
    told reader label false parts = parts.flatMap (item reader label) := by
  induction parts with
  | nil => rfl
  | cons part parts ih => simp [told, ih]

theorem standsAlone_token (label : Label) (isToken : closer.isNode = false) :
    standsAlone label closer.tree = false := by
  obtain ⟨token, shape⟩ := Tree.leaf_of_isNode isToken
  simp [shape, standsAlone, Tree.isUnitOf, Tree.isNode, Tree.isLeaf]

theorem told_closed (label : Label) (parts : List Part) (isToken : closer.isNode = false) :
    told reader label true (parts ++ [closer]) =
      parts.flatMap (item reader label) ++ leadsOf reader closer.tree ++ closer.doc.collect reader := by
  have isLeaf : closer.tree.isLeaf := by simpa [Part.isNode, Tree.isNode] using isToken
  have inside := standsAlone_token label isToken
  induction parts with
  | nil => simp [told, item, isLeaf, inside]
  | cons part parts ih => simp [told, ih]

def isJoint : Label → Bool
  | .program | .block | .caseBody | .switchStatement | .table | .array => false
  | _ => true

theorem standsAlone_joint (joint : isJoint label) (tree : Tree) :
    standsAlone label tree = false := by
  cases tree with
  | leaf token => simp [standsAlone, Tree.isUnitOf, Tree.isNode, Tree.isLeaf]
  | node inner children => cases label <;> first | rfl | cases joint

theorem item_inside (inside : standsAlone label closer.tree = false) :
    item reader label closer = closer.doc.collect reader := by
  rw [item, inside]
  rfl

theorem item_joint (joint : isJoint label) (part : Part) :
    item reader label part = part.doc.collect reader :=
  item_inside reader (standsAlone_joint joint part.tree)

theorem items_joint (joint : isJoint label) (parts : List Part) :
    parts.flatMap (item reader label) = parts.flatMap (·.doc.collect reader) :=
  List.flatMap_congr fun part _ => item_joint reader joint part

theorem item_token (label : Label) (isToken : closer.isNode = false) :
    item reader label closer = closer.doc.collect reader :=
  item_inside reader (standsAlone_token label isToken)

theorem item_alone (alone : standsAlone label closer.tree) :
    item reader label closer = leadsOf reader closer.tree ++ closer.doc.collect reader := by
  rw [item, if_pos alone]

theorem speech_units (seen : Bool) (alone : ∀ part ∈ parts, standsAlone label part.tree)
    (more : List Part) :
    (unitSlots seen (parts.map (·.tree))).speech reader (parts ++ more) =
      parts.flatMap (item reader label) := by
  induction parts generalizing seen with
  | nil => rfl
  | cons unit units ih =>
    obtain ⟨first, others⟩ := List.forall_mem_cons.mp alone
    have later := ih true others
    rw [List.flatMap_cons, item_alone reader first, ← later]
    cases seen <;> simp [unitSlots, Template.speech, Slot.speech, Slot.takes]

theorem speech_hollow (isToken : closer.isNode = false) :
    (hollowSlots closer.tree).speech reader [opener, closer] =
      opener.doc.collect reader ++ leadsOf reader closer.tree ++ closer.doc.collect reader := by
  have comments := collect_dangling reader false isToken
  have same : dangling false (.bare closer.tree) = dangling false closer := rfl
  unfold hollowSlots
  rw [same]
  split
  · next empty =>
    rw [← comments, List.isEmpty_iff.mp empty]
    simp [Template.speech, Slot.speech, Slot.takes]
  · simp [Template.speech, Slot.speech, Slot.takes]

variable {inner : List Part}

theorem speech_brackets {between : Template} {outer pad : Doc} {own nest : Nat}
    (isToken : closer.isNode = false) (count : between.count = inner.length)
    (spoken : between.speech reader (inner ++ [closer]) = inner.flatMap (item reader label)) :
    Template.speech reader (if (inner.map (·.tree)).isEmpty then hollowSlots closer.tree else
        [hole, (own, .gap outer)] ++ between ++ [(nest, .notes true), gap pad, hole])
        (opener :: (inner ++ [closer])) =
      opener.doc.collect reader ++ inner.flatMap (item reader label) ++ leadsOf reader closer.tree ++
        closer.doc.collect reader := by
  cases inner with
  | nil => simpa using speech_hollow reader isToken
  | cons first inner =>
    rw [if_neg (by simp), speech_append, speech_append, ← spoken]
    simp [Template.speech, Template.count, Slot.speech, Slot.takes, count, Nat.add_comm 1]

/-- Entries and the commas after them say what they say, if the comma after the last one may as well
be left out. -/
theorem speech_entries (apart : setsApart label) (anyComma : Bool) (more : List Part) :
    (seen : Bool) → (parts : List Part) → listed (parts.map (·.tree)) →
    (∀ comma ∈ parts.getLast?, comma.isNode = false → reader.ofChoice comma.doc (.text "") = []) →
    (entrySlots anyComma seen (parts.map (·.tree))).speech reader (parts ++ more) =
      parts.flatMap (item reader label)
  | _, [], _, _ => rfl
  | seen, [entry], inOrder, _ => by
    have own := item_alone reader (standsAlone_of_isNode apart (Template.isNode_of_listed inOrder))
    cases seen <;> simp [entrySlots, Template.speech, Slot.speech, Slot.takes, own]
  | seen, entry :: next :: rest, inOrder, spare => by
    have isNode := Template.isNode_of_listed inOrder
    have own := item_alone reader (standsAlone_of_isNode apart isNode)
    simp only [List.map_cons, listed, Bool.and_eq_true] at inOrder
    have later := inOrder.2
    cases follows : next.tree.isNode with
    | true =>
      rw [if_pos follows] at later
      have others := speech_entries apart anyComma more true (next :: rest) later
        (by simpa only [List.getLast?_cons_cons] using spare)
      rw [List.flatMap_cons, own, ← others]
      cases seen <;> simp [entrySlots, Template.speech, Slot.speech, Slot.takes, follows]
    | false =>
      rw [if_neg (by simp [follows])] at later
      have inside := item_token reader label (show next.isNode = false from follows)
      have others := speech_entries apart anyComma more true rest later (by
        cases rest with
        | nil => simp
        | cons third rest => simpa only [List.getLast?_cons_cons] using spare)
      rw [List.flatMap_cons, List.flatMap_cons, own, inside, ← others]
      cases rest with
      | nil =>
        have dropped := spare next (by simp) follows
        cases seen <;> simp [entrySlots, Template.speech, Slot.speech, Slot.takes, follows, dropped]
      | cons third rest =>
        cases seen <;> simp [entrySlots, Template.speech, Slot.speech, Slot.takes, follows]

def headed : Label → List Tree → Bool
  | .switchStatement, children => (children.take 4).all (!standsAlone .switchStatement ·)
  | _, _ => true

theorem any_isNode (opens : opener.isNode = false) (closes : closer.isNode = false)
    (alternate : alternates (inner.map (·.tree))) :
    (!((opener :: (inner ++ [closer])).map (·.tree)).any (·.isNode)) = inner.isEmpty := by
  have first : opener.tree.isNode = false := opens
  have last : closer.tree.isNode = false := closes
  cases inner with
  | nil => simp [first, last]
  | cons value rest =>
    have isNode : value.tree.isNode := by
      cases rest <;> simp_all [alternates]
    simp [isNode]

theorem told_list (joint : isJoint label) (closes : closer.isNode = false) :
    told reader label inner.isEmpty (opener :: (inner ++ [closer])) =
      opener.doc.collect reader ++ inner.flatMap (·.doc.collect reader) ++
        (if inner.isEmpty then leadsOf reader closer.tree else []) ++ closer.doc.collect reader := by
  cases inner with
  | nil =>
    have told := told_closed reader label [opener] closes
    rw [items_joint reader joint] at told
    simpa using told
  | cons value rest =>
    rw [List.isEmpty_cons, told_plain, items_joint reader joint]
    simp

theorem speech_list (joint : isJoint label) {slots : Template}
    (isToken : closer.isNode = false) (made : slots.Made 0)
    (count : Template.count (if (inner.map (·.tree)).isEmpty then hollowSlots closer.tree else slots) =
      (opener :: (inner ++ [closer])).length) :
    Template.speech reader (if (inner.map (·.tree)).isEmpty then hollowSlots closer.tree else slots)
        (opener :: (inner ++ [closer])) =
      told reader label inner.isEmpty (opener :: (inner ++ [closer])) := by
  rw [told_list reader joint isToken]
  cases inner with
  | nil => simpa using speech_hollow reader isToken
  | cons first inner =>
    rw [if_neg (by simp)] at count ⊢
    rw [speech_plain reader made count]
    simp

theorem collect_arrange (fits : label.fits (parts.map (·.isNode)))
    (inOrder : ordered label (parts.map (·.tree)))
    (clauses : label = .switchStatement →
      Tree.nodesAre [.caseClause, .defaultClause] ((parts.map (·.tree)).drop 4))
    (head : headed label (parts.map (·.tree)))
    (spare : label = .array ∨ label = .table → ∀ comma ∈ parts.tail.dropLast.getLast?,
      comma.isNode = false → reader.ofChoice comma.doc (.text "") = [])
    (ended : label = .program → ∀ last ∈ parts.getLast?, last.doc.collect reader = []) :
    (arrange label parts).collect reader =
      told reader label (endsDangling label (parts.map (·.tree))) parts := by
  obtain ⟨row, laid, framed⟩ := arranged fits inOrder
  have count := laid.count
  rw [framed.speech, ← laid.filled, rowSpeech_fill reader (made_template _ _) laid.goes_all]
  have plain (low : rankOf label = 0) (joint : isJoint label)
      (calm : endsDangling label (parts.map (·.tree)) = false) :
      (template label (parts.map (·.tree))).speech reader parts =
        told reader label (endsDangling label (parts.map (·.tree))) parts := by
    rw [calm, told_plain, items_joint reader joint]
    exact speech_plain reader (low ▸ made_template _ _) count
  cases label with
  | program =>
    obtain ⟨ends, nodes⟩ := Bool.and_eq_true_iff.mp fits
    obtain ⟨units, closer, rfl, isToken, kinds⟩ := getLast_map rfl (of_decide_eq_true ends)
    have areNodes : ∀ unit ∈ units, unit.isNode := by simpa [← kinds] using nodes
    have spoken := @speech_units _ reader units .program false
      (fun unit member => standsAlone_of_isNode rfl (areNodes unit member)) [closer]
    have counted := (Template.lays_units false areNodes).count
    rw [endsDangling, told_closed reader _ _ isToken, ended rfl closer (by simp), template,
      List.map_append, List.map_singleton, List.dropLast_concat, speech_append, spoken, counted,
      List.drop_left]
    simp [Template.speech, Slot.speech]
  | block =>
    obtain ⟨opener, units, closer, rfl, opens, isToken, areNodes⟩ := between_of_enclosesNodes fits
    have spoken := @speech_units _ reader units .block false
      (fun unit member => standsAlone_of_isNode rfl (areNodes unit member)) [closer]
    have counted := (Template.lays_units false areNodes).count
    rw [endsDangling, ← List.cons_append, told_closed reader _ _ isToken, List.flatMap_cons,
      item_token reader .block opens, List.cons_append, map_between, template,
      within?_between]
    exact speech_brackets reader isToken (by rwa [Template.count_deepen]) (by rwa [speech_deepen])
  | caseBody =>
    have allNodes : (parts.map (·.isNode)).all id := fits
    have areNodes : ∀ unit ∈ parts, unit.isNode := by simpa using allNodes
    have spoken := @speech_units _ reader parts .caseBody false
      (fun unit member => standsAlone_of_isNode rfl (areNodes unit member)) []
    rw [List.append_nil] at spoken
    have calm : endsDangling .caseBody (parts.map (·.tree)) = false := rfl
    rw [calm, told_plain, ← spoken]
    cases parts with
    | nil => rfl
    | cons first rest => exact speech_deepen reader 1 _ _
  | switchStatement =>
    obtain ⟨_, _, _, _, brace, units, unbrace, rfl, opens, isToken, areNodes⟩ := switch_of_fits fits
    have labelled := List.all_eq_true.mp (clauses rfl)
    have braced := item_token reader .switchStatement opens
    have alone : ∀ unit ∈ units, standsAlone .switchStatement unit.tree := fun unit member =>
      clause_standsAlone (areNodes unit member) (labelled unit.tree
        (List.mem_map_of_mem (by simp [member])))
    simp only [headed, List.map_cons, List.take_succ_cons, List.take_zero, List.all_cons,
      List.all_nil, Bool.and_true, Bool.and_eq_true, Bool.not_eq_true'] at head
    have spoken : Template.speech reader (switchSlots (units.map (·.tree)) unbrace.tree)
        (brace :: (units ++ [unbrace])) = _ :=
      speech_brackets reader isToken (Template.lays_units false areNodes).count
        (speech_units reader false alone [unbrace])
    iterate 5 rw [← List.cons_append]
    rw [endsDangling, told_closed reader _ _ isToken]
    simp only [List.cons_append, List.nil_append, List.map_cons, template, List.map_append,
      List.map_nil, within?_between, Option.elim]
    simp [Template.speech, Slot.speech, Slot.takes, spoken, braced, item_inside reader head.1,
      item_inside reader head.2.1, item_inside reader head.2.2.1, item_inside reader head.2.2.2]
  | arguments =>
    obtain ⟨opener, inner, closer, rfl, opens, closes⟩ := between_of_isEnclosed fits
    have alternate : alternates (inner.map (·.tree)) := ordered_between (fun _ => rfl) inOrder
    rw [endsDangling, any_isNode opens closes alternate]
    rw [map_between, template, argumentSlots, within?_between] at count ⊢
    exact speech_list reader rfl closes (by split <;> simp) count
  | parameters =>
    obtain ⟨opener, inner, closer, rfl, opens, closes⟩ := between_of_isEnclosed fits
    have alternate : alternates (inner.map (·.tree)) := ordered_between (fun _ => rfl) inOrder
    rw [endsDangling, any_isNode opens closes alternate]
    rw [map_between, template, within?_between] at count ⊢
    exact speech_list reader rfl closes (by simp) count
  | table | array =>
    obtain ⟨opener, inner, closer, rfl, opens, closes⟩ := between_of_isEnclosed fits
    have list : listed (inner.map (·.tree)) := ordered_between (fun _ => rfl) inOrder
    rw [endsDangling, ← List.cons_append, told_closed reader _ _ closes, List.flatMap_cons,
      item_token reader _ opens, List.cons_append, map_between, template,
      within?_between]
    exact speech_brackets reader closes (Template.lays_entries _ false list).count
      (speech_entries reader rfl _ [closer] false inner list (by simpa using spare (by simp)))
  | _ => exact plain rfl rfl rfl

end Arranging

section Trees

def spoken (tokens : List Token) : List α :=
  tokens.flatMap fun token => remarks reader token.leading ++ reader.ofText token.text ++ trails reader token

@[simp] theorem spoken_append (first second : List Token) :
    spoken reader (first ++ second) = spoken reader first ++ spoken reader second :=
  List.flatMap_append

theorem collect_tokenDoc (placed : Placed) (token : Token) :
    (tokenDoc placed token).collect reader =
      (if placed.leading then [] else remarks reader token.leading) ++ reader.ofText token.text ++
        (if placed.trailing then [] else trails reader token) := by
  have before := collect_inlineComments reader false token.leading
  have after := collect_trailingComments reader token
  rw [tokenDoc, Doc.collect_concat]
  cases placed.leading <;> cases placed.trailing <;> simp [before, after]

theorem collect_unitDoc (placed : Placed) (unit : Tree) (doc : Doc) :
    (unitDoc placed unit doc).collect reader =
      doc.collect reader ++ if placed.trailing then [] else trailsOf reader unit := by
  unfold unitDoc trailsOf
  cases placed.trailing with
  | true => simp
  | false =>
    cases unit.lastToken? with
    | none => simp
    | some last => simp [collect_trailingComments]

/-- A part says what its tokens say, but for the comments that have a place already. -/
structure Part.Tells (placed : Placed) (part : Part) : Prop where
  doc : (if placed.leading then leadsOf reader part.tree else []) ++ part.doc.collect reader ++
      (if placed.trailing then trailsOf reader part.tree else []) = spoken reader part.tree.tokens
  chain : ∀ chain ∈ part.chain?,
    (chain.head :: chain.tail).flatMap (collect reader) = part.doc.collect reader

theorem tells_leaf (placed : Placed) (token : Token) :
    Part.Tells reader placed ⟨.leaf token, tokenDoc placed token, none⟩ := by
  refine ⟨?_, by simp⟩
  rw [collect_tokenDoc]
  obtain ⟨leading, trailing⟩ := placed
  cases leading <;> cases trailing <;>
    simp [leadsOf, trailsOf, spoken, Tree.firstToken?, Tree.lastToken?]

theorem collect_logical (tree : Tree) {left operator right : Part} (isToken : operator.isNode = false)
    (chained : ∀ chain ∈ left.chain?,
      (chain.head :: chain.tail).flatMap (collect reader) = left.doc.collect reader) :
    (logical tree [left, operator, right]).doc.collect reader =
        [left, operator, right].flatMap (·.doc.collect reader) ∧
      ∀ chain ∈ (logical tree [left, operator, right]).chain?,
        (chain.head :: chain.tail).flatMap (collect reader) =
          (logical tree [left, operator, right]).doc.collect reader := by
  obtain ⟨token, isLeaf⟩ := Tree.leaf_of_isNode isToken
  obtain ⟨chain, made, same⟩ : ∃ chain, chainOf left operator right = some chain ∧
      (chain.head :: chain.tail).flatMap (collect reader) =
        [left, operator, right].flatMap (·.doc.collect reader) := by
    simp only [chainOf, isLeaf, Tree.token?, Option.bind_eq_bind, Option.bind_some]
    split
    · next earlier isEarlier =>
      have before := chained earlier isEarlier
      split
      · refine ⟨_, rfl, ?_⟩
        rw [List.flatMap_cons, List.flatMap_append, ← List.append_assoc, ← List.flatMap_cons, before]
        simp
      · exact ⟨_, rfl, by simp⟩
    · exact ⟨_, rfl, by simp⟩
  simp only [logical, made]
  have doc : chain.doc.collect reader = (chain.head :: chain.tail).flatMap (collect reader) := by
    simp [Chain.doc]
  exact ⟨doc.trans same, by simp [doc]⟩

/-- Where nodes may stand: programs stand in no other node, and the body of a clause in a clause. -/
def nests (label : Label) (children : List Tree) : Bool :=
  children.all fun child => !child.hasLabel .program &&
    (!child.hasLabel .caseBody || label = .caseClause || label = .defaultClause)

def lastComma? (label : Label) (children : List Tree) : Option Token :=
  if label = .array ∨ label = .table then children.tail.dropLast.getLast?.bind (·.token?) else none

/-- What a node needs in order to be laid out with all that its tokens say. -/
def accounts (settles : Token → Bool) (label : Label) (children : List Tree) : Bool :=
  decide (label ≠ .error) && (Tree.admits label children && (ordered label children &&
    (headed label children && (nests label children && (lastComma? label children).all settles))))

variable {settles : Token → Bool} {label : Label} {children : List Tree}

theorem hasLocalError_of_accounts {tree : Tree} (sound : tree.everywhere (accounts settles)) :
    tree.hasLocalError = false := by
  induction tree using Tree.byChildren with
  | leaf token => rw [Tree.hasLocalError]
  | node label children ih =>
    rw [Tree.everywhere_node, Bool.and_eq_true, accounts, Bool.and_eq_true] at sound
    rw [Tree.hasLocalError, Bool.or_eq_false_iff, Tree.anyLocalError_eq_false]
    exact ⟨by simpa using sound.1.1,
      fun tree member _ => ih tree member ((Tree.everywhereOf_iff children).mp sound.2 tree member)⟩

def leadsFrom (tokens : List Token) : List α :=
  tokens.head?.toList.flatMap fun token => remarks reader token.leading

def trailsFrom (tokens : List Token) : List α := tokens.getLast?.toList.flatMap (trails reader)

theorem leadsOf_eq (tree : Tree) : leadsOf reader tree = leadsFrom reader tree.tokens := by
  rw [leadsOf, Tree.firstToken?_eq]
  rfl

theorem trailsOf_eq (tree : Tree) : trailsOf reader tree = trailsFrom reader tree.tokens := by
  rw [trailsOf, Tree.lastToken?_eq]
  rfl

theorem isEmpty_eq (tree : Tree) : tree.isEmpty = tree.tokens.isEmpty := by
  rw [Tree.isEmpty, Tree.firstToken?_eq]
  cases tree.tokens <;> rfl

theorem all_isEmpty (trees : List Tree) :
    trees.all (·.isEmpty) = (Tree.tokensOf trees).isEmpty := by
  induction trees with
  | nil => simp
  | cons tree trees ih =>
    rw [List.all_cons, ih, isEmpty_eq, Tree.tokensOf_cons]
    cases tree.tokens <;> rfl

/-- What tokens say, from what those in front say and the others. Comments before all of them and
after all of them may have a place already. -/
theorem spoken_join {first rest : List Token} {own others : List α} {leading trailing : Bool}
    (front : (if leading then leadsFrom reader first else []) ++ own ++
      (if trailing && rest.isEmpty then trailsFrom reader first else []) = spoken reader first)
    (back : (if leading && first.isEmpty then leadsFrom reader rest else []) ++ others ++
      (if trailing then trailsFrom reader rest else []) = spoken reader rest) :
    (if leading then leadsFrom reader (first ++ rest) else []) ++ (own ++ others) ++
      (if trailing then trailsFrom reader (first ++ rest) else []) =
        spoken reader (first ++ rest) := by
  rw [spoken_append, ← front, ← back]
  cases first with
  | nil =>
    have silent : own = [] := by simpa [leadsFrom, trailsFrom, spoken] using front
    simp [silent, leadsFrom, trailsFrom]
  | cons token first =>
    cases rest with
    | nil =>
      have silent : others = [] := by simpa [leadsFrom, trailsFrom, spoken] using back
      simp [silent, trailsFrom]
    | cons next rest =>
      have last : (token :: (first ++ next :: rest)).getLast? = (next :: rest).getLast? :=
        List.getLast?_append_cons (token :: first) next rest
      simp [leadsFrom, trailsFrom, last]

/-- The children of a node that has the comments before it placed: a token comes first, and not as
the end of a list, or no child has its comments placed by the node. -/
def Opens (parent : Label) (dangles : Bool) (trees : List Tree) : Prop :=
  (∃ token rest, trees = .leaf token :: rest ∧ (dangles → rest ≠ [])) ∨
    (dangles = false ∧ ∀ tree ∈ trees,
      standsAlone parent tree = false ∧ tree.hasLabel .caseBody = false)

theorem opens_node (admitted : Tree.admits label children)
    (nested : nests label children) (inner : label ≠ .program ∧ label ≠ .caseBody) :
    Opens label (endsDangling label children) children := by
  have fits := (Bool.and_eq_true_iff.mp admitted).1
  have token {rest : List Bool} (kinds : children.map (·.isNode) = false :: rest) (more : rest ≠ []) :
      Opens label (endsDangling label children) children := by
    obtain ⟨first, others, rfl, isToken, rfl⟩ := List.map_eq_cons_iff.mp kinds
    obtain ⟨token, rfl⟩ := Tree.leaf_of_isNode isToken
    exact .inl ⟨token, others, rfl, fun _ => by simpa using more⟩
  have enclosed (encloses : isEnclosed (children.map (·.isNode))) :
      Opens label (endsDangling label children) children := by
    unfold isEnclosed at encloses
    split at encloses
    · next rest kinds =>
      refine token kinds ?_
      rintro rfl
      cases encloses
    · cases encloses
  cases label with
  | program => exact absurd rfl inner.1
  | caseBody => exact absurd rfl inner.2
  | arguments | parameters | table | array => exact enclosed fits
  | block =>
    refine enclosed ?_
    have encloses : enclosesNodes (children.map (·.isNode)) := fits
    unfold enclosesNodes at encloses
    unfold isEnclosed
    split <;> simp_all
  | switchStatement =>
    have front := of_decide_eq_true (Bool.and_eq_true_iff.mp fits).1
    match kinds : children.map (·.isNode) with
    | [] | [_] => simp [kinds] at front
    | first :: second :: rest =>
      rw [kinds, List.take_succ_cons, List.cons.injEq] at front
      obtain rfl := front.1
      exact token kinds (by simp)
  | caseClause | defaultClause => exact token (of_decide_eq_true fits) (by simp)
  | _ =>
    refine .inr ⟨rfl, fun tree member => ⟨standsAlone_joint rfl tree, ?_⟩⟩
    simpa using (Bool.and_eq_true_iff.mp (List.all_eq_true.mp nested tree member)).2

theorem Opens.tail {parent : Label} {dangles : Bool} {tree : Tree} {trees : List Tree}
    (opens : Opens parent dangles (tree :: trees)) (empty : tree.isEmpty) :
    Opens parent dangles trees := by
  rcases opens with ⟨token, rest, shape, -⟩ | ⟨calm, plain⟩
  · cases shape
    cases empty
  · exact .inr ⟨calm, fun other member => plain other (List.mem_cons_of_mem _ member)⟩

section Children

variable {source : List Char} {placed : Placed} {parent : Label} {dangles atStart : Bool} {tree : Tree}
  {trees : List Tree}

theorem told_unit {doc : Doc} (alone : standsAlone parent tree)
    (opens : (atStart && placed.leading) → Opens parent dangles (tree :: trees))
    (own : leadsOf reader tree ++ doc.collect reader ++ trailsOf reader tree = spoken reader tree.tokens) :
    (if atStart && placed.leading then leadsFrom reader tree.tokens else []) ++
        (leadsOf reader tree ++ (unitDoc ⟨atStart && placed.leading,
          placed.trailing && trees.all (·.isEmpty)⟩ tree doc).collect reader) ++
      (if placed.trailing && (Tree.tokensOf trees).isEmpty then trailsFrom reader tree.tokens else []) =
        spoken reader tree.tokens := by
  have notFirst : (atStart && placed.leading) = false := by
    refine Bool.eq_false_iff.mpr fun first => ?_
    rcases opens first with ⟨token, rest, shape, -⟩ | ⟨-, plain⟩
    · cases shape
      simp [standsAlone, Tree.isUnitOf, Tree.isNode, Tree.isLeaf] at alone
    · have inside := (plain tree List.mem_cons_self).1
      rw [alone] at inside
      cases inside
  rw [notFirst, ← own, ← trailsOf_eq, ← all_isEmpty, collect_unitDoc]
  cases placed.trailing && trees.all (·.isEmpty) <;> simp

end Children

theorem tells_nodePart (source : List Char) {placed : Placed} {parts : List Part}
    (trees : parts.map (·.tree) = children) (sound : accounts settles label children)
    (inner : label ≠ .program)
    (told : (if placed.leading then leadsFrom reader (Tree.tokensOf children) else []) ++
        told reader label (endsDangling label children) parts ++
      (if placed.trailing then trailsFrom reader (Tree.tokensOf children) else []) =
        spoken reader (Tree.tokensOf children))
    (chains : ∀ part ∈ parts, ∀ chain ∈ part.chain?,
      (chain.head :: chain.tail).flatMap (collect reader) = part.doc.collect reader)
    (spare : ∀ part ∈ parts, ∀ token, part.tree = .leaf token → settles token →
      reader.ofChoice part.doc (.text "") = []) :
    (nodePart source label children parts).Tells reader placed := by
  subst trees
  simp only [accounts, Bool.and_eq_true, decide_eq_true_eq] at sound
  obtain ⟨sane, admitted, inOrder, head, -, settled⟩ := sound
  obtain ⟨fits, within⟩ := Bool.and_eq_true_iff.mp admitted
  rw [List.map_map] at fits
  unfold nodePart
  rw [if_pos admitted]
  split
  · exact absurd rfl sane
  · obtain ⟨left, -, operator, isToken, right, -, rfl⟩ := itemized (of_decide_eq_true fits)
    obtain ⟨doc, chain⟩ := collect_logical reader _ isToken (chains left (by simp))
    refine ⟨?_, chain⟩
    rw [tree_logical, doc, leadsOf_eq, trailsOf_eq, Tree.tokens_node, ← told]
    exact congrArg (· ++ _) (congrArg (_ ++ ·)
      ((told_plain reader _ _).trans (items_joint reader rfl _)).symm)
  · have doc := collect_arrange reader fits inOrder (by rintro rfl; exact within) head ?_
      (fun isProgram => absurd isProgram inner)
    · refine ⟨?_, by simp⟩
      dsimp only
      rw [doc, leadsOf_eq, trailsOf_eq, Tree.tokens_node, ← told]
    · intro isList comma last isToken
      obtain ⟨token, isLeaf⟩ := Tree.leaf_of_isNode isToken
      have member : comma ∈ parts :=
        List.mem_of_mem_tail ((List.dropLast_sublist _).subset (List.mem_of_getLast? last))
      refine spare comma member token isLeaf ?_
      have own : lastComma? label (parts.map (·.tree)) = some token := by
        rw [lastComma?, if_pos isList, ← List.map_tail, ← List.map_dropLast, List.getLast?_map, last]
        simp [isLeaf, Tree.token?]
      simpa [own] using settled

theorem leaf_partsOf (source : List Char) (placed : Placed) (parent : Label) (dangles atStart : Bool)
    (trees : List Tree) :
    ∀ part ∈ partsOf source placed parent dangles atStart trees, ∀ token, part.tree = .leaf token →
      ∃ inner, part.doc = tokenDoc inner token := by
  induction trees generalizing atStart with
  | nil =>
    rw [partsOf]
    simp
  | cons tree trees ih =>
    rw [partsOf, List.forall_mem_cons]
    refine ⟨fun token isLeaf => ?_, ih _⟩
    obtain rfl : tree = .leaf token := by
      split at isLeaf
      · exact isLeaf
      · split at isLeaf <;> rwa [tree_part] at isLeaf
    have inside : standsAlone parent (.leaf token) = false := by
      simp [standsAlone, Tree.isUnitOf, Tree.isNode, Tree.isLeaf]
    rw [inside]
    simp only [Bool.false_eq_true, if_false]
    split
    · rw [part]
      exact ⟨_, rfl⟩
    · rw [part]
      exact ⟨_, rfl⟩

mutual

theorem tells_part (source : List Char)
    (spare : ∀ token placed, settles token →
      reader.ofChoice (tokenDoc placed token) (.text "") = []) (placed : Placed) :
    (tree : Tree) → tree.everywhere (accounts settles) → tree.hasLabel .program = false →
      (placed.leading → tree.hasLabel .caseBody = false) →
      (part source placed tree).Tells reader placed
  | .leaf token, _, _, _ => by
    rw [part]
    exact tells_leaf reader placed token
  | .node label children, sound, noProgram, noBody => by
    rw [Tree.everywhere_node, Bool.and_eq_true] at sound
    have checks := sound.1
    simp only [accounts, Bool.and_eq_true] at checks
    obtain ⟨-, admitted, -, -, nested, -⟩ := checks
    have inner : label ≠ .program := by simpa [Tree.hasLabel, Tree.label?] using noProgram
    obtain ⟨told, chains⟩ := told_partsOf source spare placed label (endsDangling label children) true
      children sound.2 nested fun leading => opens_node admitted nested
        ⟨inner, by simpa [Tree.hasLabel, Tree.label?] using noBody (by simpa using leading)⟩
    rw [part]
    refine tells_nodePart reader source (trees_partsOf ..) sound.1 inner (by simpa using told) chains ?_
    intro part member token isLeaf settled
    obtain ⟨own, doc⟩ := leaf_partsOf _ _ _ _ _ _ part member token isLeaf
    rw [doc]
    exact spare token own settled

theorem told_partsOf (source : List Char)
    (spare : ∀ token placed, settles token →
      reader.ofChoice (tokenDoc placed token) (.text "") = []) (placed : Placed) (parent : Label)
    (dangles : Bool) :
    (atStart : Bool) → (trees : List Tree) → Tree.everywhereOf (accounts settles) trees →
      nests parent trees →
      ((atStart && placed.leading) → Opens parent dangles trees) →
      (if atStart && placed.leading then leadsFrom reader (Tree.tokensOf trees) else []) ++
          told reader parent dangles (partsOf source placed parent dangles atStart trees) ++
        (if placed.trailing then trailsFrom reader (Tree.tokensOf trees) else []) =
          spoken reader (Tree.tokensOf trees) ∧
      ∀ part ∈ partsOf source placed parent dangles atStart trees, ∀ chain ∈ part.chain?,
        (chain.head :: chain.tail).flatMap (collect reader) = part.doc.collect reader
  | _, [], _, _, _ => by
    rw [partsOf]
    simp [told, spoken, leadsFrom, trailsFrom]
  | atStart, tree :: trees, sound, nested, opens => by
    rw [Tree.everywhereOf_cons, Bool.and_eq_true] at sound
    simp only [nests, List.all_cons, Bool.and_eq_true] at nested
    obtain ⟨⟨noProgram, bodied⟩, nestedLater⟩ := nested
    have own (inner : Placed) := tells_part source spare inner tree sound.1 (by simpa using noProgram)
    obtain ⟨later, chains⟩ := told_partsOf source spare placed parent dangles (atStart && tree.isEmpty) trees sound.2
      nestedLater fun first => by
        rw [Bool.and_right_comm, Bool.and_eq_true] at first
        exact (opens first.1).tail first.2
    have leading : (atStart && tree.isEmpty && placed.leading) =
        (atStart && placed.leading && tree.tokens.isEmpty) := by
      rw [Bool.and_right_comm, isEmpty_eq]
    rw [leading] at later
    rw [partsOf, hasLocalError_of_accounts sound.1]
    dsimp only
    have count : (partsOf source placed parent dangles (atStart && tree.isEmpty) trees).isEmpty =
        trees.isEmpty := by
      rw [← List.isEmpty_map (f := (·.tree)), trees_partsOf]
    rw [told]
    cases alone : standsAlone parent tree with
    | true =>
      have isNode : tree.isLeaf = false := by
        cases tree with
        | leaf token => simp [standsAlone, Tree.isUnitOf, Tree.isNode, Tree.isLeaf] at alone
        | node => rfl
      have noBody : tree.hasLabel .caseBody = false := by
        cases isBody : tree.hasLabel .caseBody with
        | false => rfl
        | true =>
          have clause : parent = .caseClause ∨ parent = .defaultClause := by simpa [isBody] using bodied
          have joint : isJoint parent := by rcases clause with rfl | rfl <;> rfl
          rw [standsAlone_joint joint] at alone
          cases alone
      have tells := (own ⟨true, true⟩ fun _ => noBody).doc
      rw [tree_part] at tells
      have front := told_unit reader alone opens tells
      refine ⟨?_, List.forall_mem_cons.mpr ⟨by simp, chains⟩⟩
      rw [Tree.tokensOf_cons]
      refine spoken_join reader ?_ later
      simpa [isNode, item, alone] using front
    | false =>
      cases closes : tree.isLeaf && trees.isEmpty && dangles with
      | true =>
        simp only [Bool.and_eq_true, List.isEmpty_iff] at closes
        obtain ⟨⟨isLeaf, rfl⟩, rfl⟩ := closes
        obtain ⟨token, rfl⟩ : ∃ token, tree = .leaf token := Tree.leaf_of_isNode (by simp [Tree.isNode, isLeaf])
        have notFirst : (atStart && placed.leading) = false := by
          refine Bool.eq_false_iff.mpr fun first => ?_
          rcases opens first with ⟨other, rest, shape, more⟩ | ⟨calm, -⟩
          · cases shape
            exact more rfl rfl
          · cases calm
        have tells := own ⟨true, placed.trailing && [].all Tree.isEmpty⟩ fun _ => rfl
        refine ⟨?_, List.forall_mem_cons.mpr ⟨tells.chain, chains⟩⟩
        have front := tells.doc
        rw [tree_part] at front
        rw [Tree.tokensOf_cons]
        refine spoken_join reader ?_ later
        rw [notFirst, ← trailsOf_eq, ← all_isEmpty]
        simpa [isLeaf, count, item, alone] using front
      | false =>
        have noBody : (atStart && placed.leading) → tree.hasLabel .caseBody = false := by
          intro first
          rcases opens first with ⟨token, rest, shape, -⟩ | ⟨-, plain⟩
          · cases shape
            rfl
          · exact (plain tree List.mem_cons_self).2
        have tells := own ⟨atStart && placed.leading, placed.trailing && trees.all (·.isEmpty)⟩ noBody
        refine ⟨?_, List.forall_mem_cons.mpr ⟨tells.chain, chains⟩⟩
        have front := tells.doc
        rw [tree_part, leadsOf_eq, trailsOf_eq, all_isEmpty] at front
        rw [Tree.tokensOf_cons]
        refine spoken_join reader ?_ later
        simpa [count, closes, item, alone, all_isEmpty] using front

end

theorem last_partsOf (source : List Char) (placed : Placed) (parent : Label) (atStart : Bool)
    (front : List Tree) (last : Token) :
    ∃ trailing, (partsOf source placed parent true atStart (front ++ [.leaf last])).getLast? =
      some ⟨.leaf last, tokenDoc ⟨true, trailing⟩ last, none⟩ := by
  induction front generalizing atStart with
  | nil =>
    have inside : standsAlone parent (.leaf last) = false := by
      simp [standsAlone, Tree.isUnitOf, Tree.isNode, Tree.isLeaf]
    exact ⟨placed.trailing, by simp [partsOf, inside, Tree.isLeaf, part]⟩
  | cons tree front ih =>
    obtain ⟨trailing, found⟩ := ih (atStart && tree.isEmpty)
    refine ⟨trailing, ?_⟩
    rw [List.cons_append, partsOf, List.getLast?_cons, found]
    rfl

theorem document_program (source : List Char) {children : List Tree}
    (admitted : Tree.admits .program children) :
    document source (.node .program children) =
      arrange .program (partsOf source ⟨false, false⟩ .program true true children) := by
  unfold document
  rw [part]
  unfold nodePart
  rw [if_pos admitted]
  rfl

theorem collect_document (source : List Char)
    (spare : ∀ token placed, settles token →
      reader.ofChoice (tokenDoc placed token) (.text "") = []) {trees : List Tree} {last : Token}
    (sound : Tree.everywhereOf (accounts settles) trees)
    (admitted : Tree.admits .program (trees ++ [.leaf last]))
    (nested : nests .program trees) (ended : last.text = "") (plain : last.trailing = []) :
    (document source (.node .program (trees ++ [.leaf last]))).collect reader =
      spoken reader (Tree.tokensOf trees ++ [last]) := by
  have whole : Tree.tokensOf (trees ++ [.leaf last]) = Tree.tokensOf trees ++ [last] := by simp
  obtain ⟨told, -⟩ := told_partsOf reader source spare ⟨false, false⟩ .program true true
    (trees ++ [.leaf last]) (by simpa using sound)
    (by simpa [nests, Tree.hasLabel, Tree.label?] using nested) (by simp)
  have parts := trees_partsOf source ⟨false, false⟩ .program true true (trees ++ [.leaf last])
  have fits := (Bool.and_eq_true_iff.mp admitted).1
  rw [← parts, List.map_map] at fits
  rw [document_program source admitted, ← whole, ← told]
  simp only [Bool.and_false, Bool.false_eq_true, if_false, List.nil_append, List.append_nil]
  have doc := collect_arrange reader fits rfl (by simp) rfl (by simp) fun _ closer isLast => by
    obtain ⟨trailing, found⟩ := last_partsOf source ⟨false, false⟩ .program true trees last
    rw [found] at isLast
    cases isLast
    rw [collect_tokenDoc, ended, reader.empty]
    simp [trails, plain]
  exact doc

end Trees

end Squirrel.Layout
