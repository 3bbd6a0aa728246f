import Mathlib.Logic.Relation
import Squirrel.Proofs.Tree.ErrorSite

/-! What a rule may do to the tokens ahead of it: read them in order, and report. -/

namespace Squirrel

namespace Grammar

open Squirrel.Tree (tokensOf errorSitesOf nextOf)

/-- Tokens up to an end, which is the last of them and the only one. -/
def Closed : List Token → Prop
  | [] => False
  | [last] => last.kind = .endOfInput
  | token :: next :: rest => token.kind ≠ .endOfInput ∧ Closed (next :: rest)

theorem Closed.of_append {read rest : List Token} (closed : Closed (read ++ rest))
    (left : rest ≠ []) : Closed rest := by
  induction read with
  | nil => exact closed
  | cons token read ih =>
    obtain ⟨next, more, shape⟩ := List.exists_cons_of_ne_nil (l := read ++ rest) (by simp [left])
    apply ih
    rw [List.cons_append, shape] at closed
    rw [shape]
    exact closed.2

variable {tokens : List Token}

theorem Closed.ne_nil (closed : Closed tokens) : tokens ≠ [] := by
  rintro rfl
  exact closed

theorem Closed.shape {state : State} (closed : Closed state.rest) :
    ∃ rest, state.rest = state.current :: rest := by
  obtain ⟨token, rest, shape⟩ := List.exists_cons_of_ne_nil closed.ne_nil
  exact ⟨rest, by simp [State.current, shape]⟩

theorem Closed.advance {state : State} (closed : Closed state.rest)
    (goesOn : state.current.kind ≠ .endOfInput) :
    state.rest = state.current :: state.advance.rest ∧ Closed state.advance.rest := by
  obtain ⟨rest, shape⟩ := closed.shape
  rw [shape] at closed
  cases rest with
  | nil => exact absurd closed goesOn
  | cons next rest =>
    have moved : state.advance.rest = next :: rest := by simp [State.advance, shape]
    rw [moved]
    exact ⟨shape, closed.2⟩

theorem Closed.single {token : Token} (closed : Closed (token :: tokens))
    (ended : token.kind = .endOfInput) : tokens = [] := by
  cases tokens with
  | nil => rfl
  | cons next rest => exact absurd ended closed.1

theorem diagnostics_advance (state : State) : state.advance.diagnostics = state.diagnostics := by
  unfold State.advance
  split <;> rfl

def Blames (diagnostic : Diagnostic) (tokens : List Token) : Prop :=
  diagnostic.kind = .syntaxError ∧ diagnostic.SitsOn tokens

theorem Blames.mono {diagnostic : Diagnostic} {tokens more : List Token}
    (blames : Blames diagnostic tokens) (subset : tokens ⊆ more) : Blames diagnostic more := by
  obtain ⟨kind, token, member, same⟩ := blames
  exact ⟨kind, token, subset member, same⟩

/-- A statement or a table entry was given up in this state, for a fault at the token ahead. -/
def GivenUp (fault : SyntaxFault) (state : State) : Prop :=
  ∃ levels start, (rules levels).statement start = .error (.fault fault state.current) state ∨
    tableEntry (rules levels) start = .error (.fault fault state.current) state

/-- One move of a reader: over the token ahead, or the report of what was given up there. -/
inductive Move : State → State → Prop
  | pass {state : State} (goesOn : state.current.kind ≠ .endOfInput) : Move state state.advance
  | report {state : State} {fault : SyntaxFault} (given : GivenUp fault state) :
    Move state (state.report fault state.current)

/-- Tokens are only ever passed, and syntax errors only ever added. -/
structure Reaches (start stop : State) : Prop where
  begun : Closed start.rest
  moves : Relation.ReflTransGen Move start stop

theorem take_one_subset (tokens rest : List Token) :
    (tokens ++ rest).take 1 ⊆ tokens ++ rest.take 1 := by
  cases tokens with
  | nil => simp
  | cons token tokens => simp

theorem current_mem {state : State} (closed : Closed state.rest) :
    state.current ∈ state.rest.take 1 := by
  obtain ⟨rest, shape⟩ := closed.shape
  rw [shape]
  simp

namespace Reaches

theorem refl {state : State} (closed : Closed state.rest) : Reaches state state := ⟨closed, .refl⟩

theorem trans {start mid stop : State} (first : Reaches start mid) (second : Reaches mid stop) :
    Reaches start stop :=
  ⟨first.begun, first.moves.trans second.moves⟩

variable {start stop : State} (reached : Reaches start stop)

include reached

theorem closed_and_read : Closed stop.rest ∧ ∃ tokens, start.rest = tokens ++ stop.rest := by
  obtain ⟨begun, moves⟩ := reached
  induction moves with
  | refl => exact ⟨begun, [], rfl⟩
  | @tail mid _ _ move ih =>
    obtain ⟨closed, tokens, shape⟩ := ih
    cases move with
    | pass goesOn =>
      obtain ⟨next, stillClosed⟩ := closed.advance goesOn
      refine ⟨stillClosed, tokens ++ [mid.current], ?_⟩
      rw [shape, List.append_assoc, List.singleton_append, ← next]
    | report => exact ⟨closed, tokens, shape⟩

theorem closed : Closed stop.rest := reached.closed_and_read.1

theorem read : ∃ tokens, start.rest = tokens ++ stop.rest := reached.closed_and_read.2

theorem reported : start.diagnostics ⊆ stop.diagnostics := by
  obtain ⟨-, moves⟩ := reached
  induction moves with
  | refl => exact List.Subset.refl _
  | tail _ move ih =>
    cases move with
    | pass => rwa [diagnostics_advance]
    | report => exact List.Subset.trans ih (List.subset_append_left _ _)

theorem located (tokens : List Token) (split : start.rest = tokens ++ stop.rest) :
    ∀ diagnostic ∈ stop.diagnostics,
      diagnostic ∈ start.diagnostics ∨ Blames diagnostic (tokens ++ stop.rest.take 1) := by
  obtain ⟨begun, moves⟩ := reached
  induction moves generalizing tokens with
  | refl => exact fun _ member => .inl member
  | @tail mid stop before move ih =>
    obtain ⟨closed, tokens', shape⟩ := (Reaches.mk begun before).closed_and_read
    intro diagnostic member
    cases move with
    | pass goesOn =>
      rw [diagnostics_advance] at member
      have next := (closed.advance goesOn).1
      obtain rfl : tokens = tokens' ++ [mid.current] := by
        refine List.append_cancel_right (split.symm.trans ?_)
        rw [shape, List.append_assoc, List.singleton_append, ← next]
      refine (ih tokens' shape diagnostic member).imp_right fun blames => blames.mono ?_
      rw [next]
      simp
    | report given =>
      obtain rfl : tokens = tokens' := List.append_cancel_right (split.symm.trans shape)
      rcases List.mem_append.mp member with earlier | new
      · exact ih tokens shape diagnostic earlier
      · obtain rfl := List.mem_singleton.mp new
        exact .inr ⟨rfl, mid.current, List.mem_append_right _ (current_mem closed), rfl⟩

end Reaches

/-- The tokens of `trees` have been read. What was reported meanwhile is about their error nodes,
and each of these was reported, unless it is there for a malformed token. -/
structure Consumes (start : State) (trees : List Tree) (stop : State) : Prop where
  rest : start.rest = tokensOf trees ++ stop.rest
  reaches : Reaches start stop
  located : ∀ diagnostic ∈ stop.diagnostics, diagnostic ∈ start.diagnostics ∨
    ∃ site ∈ errorSitesOf trees stop.rest, Blames diagnostic site.reach
  witnessed : ∀ site ∈ errorSitesOf trees stop.rest, (∃ token ∈ site.inside, token.kind = .error) ∨
    ∃ diagnostic ∈ stop.diagnostics, Blames diagnostic site.reach

variable {trees : List Tree}

namespace Consumes

variable {start stop : State}

theorem closed (read : Consumes start trees stop) : Closed stop.rest :=
  read.reaches.closed

theorem refl {state : State} (closed : Closed state.rest) : Consumes state [] state :=
  ⟨by simp, .refl closed, fun _ member => .inl member, by simp⟩

theorem trans {start mid stop : State} {first second : List Tree}
    (before : Consumes start first mid) (after : Consumes mid second stop) :
    Consumes start (first ++ second) stop := by
  refine ⟨?_, before.reaches.trans after.reaches, ?_, ?_⟩
  · rw [before.rest, after.rest, Tree.tokensOf_append, List.append_assoc]
  · intro diagnostic member
    rw [Tree.errorSitesOf_append, ← after.rest]
    rcases after.located diagnostic member with earlier | ⟨site, inside, blames⟩
    · rcases before.located diagnostic earlier with first | ⟨site, inside, blames⟩
      · exact .inl first
      · exact .inr ⟨site, List.mem_append_left _ inside, blames⟩
    · exact .inr ⟨site, List.mem_append_right _ inside, blames⟩
  · intro site member
    rw [Tree.errorSitesOf_append, ← after.rest] at member
    rcases List.mem_append.mp member with inside | inside
    · rcases before.witnessed site inside with malformed | ⟨diagnostic, given, blames⟩
      · exact .inl malformed
      · exact .inr ⟨diagnostic, after.reaches.reported given, blames⟩
    · exact after.witnessed site inside

theorem node {label : Label} (read : Consumes start trees stop) (sound : label ≠ .error) :
    Consumes start [.node label trees] stop := by
  have sites : errorSitesOf [.node label trees] stop.rest = errorSitesOf trees stop.rest := by
    simp [Tree.errorSites_node, sound]
  refine ⟨by simpa using read.rest, read.reaches, ?_, ?_⟩
  · rw [sites]
    exact read.located
  · rw [sites]
    exact read.witnessed

theorem current (read : Consumes start trees stop) : start.current = nextOf trees stop.current := by
  obtain ⟨rest, shape⟩ := read.closed.shape
  unfold nextOf
  rw [State.current, read.rest]
  cases tokensOf trees with
  | nil => simp [State.current]
  | cons token tokens => simp

theorem shorter (read : Consumes start trees stop) (full : tokensOf trees ≠ []) :
    stop.rest.length < start.rest.length := by
  have positive := List.length_pos_iff.mpr full
  rw [read.rest, List.length_append]
  omega

end Consumes

theorem consumes_advance {state : State} (closed : Closed state.rest)
    (goesOn : state.current.kind ≠ .endOfInput) :
    Consumes state [.leaf state.current] state.advance := by
  refine ⟨by simpa using (closed.advance goesOn).1, ⟨closed, .single (.pass goesOn)⟩, ?_, ?_⟩ <;>
    simp [diagnostics_advance]

/-- Giving up has done nothing but read and report. A fault is about the token ahead. -/
structure Fails (start : State) (failure : Failure) (stop : State) : Prop where
  reaches : Reaches start stop
  place : ∀ cause token, failure = .fault cause token → token = stop.current

/-- A rule that succeeds meets `post`; one that fails has done nothing but read and report. -/
def Yields {α : Type} (start : State) (post : α → State → Prop) :
    EStateM.Result Failure State α → Prop
  | .ok value stop => post value stop
  | .error failure stop => Fails start failure stop

/-- A rule that reads trees, given by `trees`, which are as `post` says in front of what follows. -/
def Reads {α : Type} (rule : Rule α) (trees : α → List Tree) (post : α → Token → Prop) : Prop :=
  ∀ start, Closed start.rest →
    Yields start (fun value stop => Consumes start (trees value) stop ∧ post value stop.current)
      (rule start)

def ReadsOne (rule : Rule Tree) (levels : Nat) (category : Category) : Prop :=
  Reads rule (fun tree => [tree]) fun tree next => Derives levels category [tree] next

def ReadsRun (rule : Rule (List Tree)) (levels : Nat) (category : Category) : Prop :=
  Reads rule id fun trees next => Derives levels category trees next

variable {α : Type}

theorem Yields.pure {state : State} {post : α → State → Prop} {value : α} (met : post value state) :
    Yields state post ((Pure.pure value : Rule α) state) := met

theorem Yields.mono {start : State} {post weaker : α → State → Prop}
    {result : EStateM.Result Failure State α} (yields : Yields start post result)
    (implied : ∀ value stop, post value stop → weaker value stop) : Yields start weaker result := by
  cases result with
  | ok value stop => exact implied value stop yields
  | error failure stop => exact yields

theorem Yields.after {start mid : State} {post : α → State → Prop}
    {result : EStateM.Result Failure State α} (yields : Yields mid post result)
    (reached : Reaches start mid) : Yields start post result := by
  cases result with
  | ok value stop => exact yields
  | error failure stop => exact ⟨reached.trans yields.reaches, yields.place⟩

theorem Yields.bind {α β : Type} {start : State} {rule : Rule α} {further : α → Rule β}
    {mid : α → State → Prop} {post : β → State → Prop} (first : Yields start mid (rule start))
    (second : ∀ value state, mid value state → Yields start post (further value state)) :
    Yields start post ((rule >>= further) start) := by
  change Yields start post (EStateM.bind rule further start)
  unfold EStateM.bind
  cases ran : rule start with
  | ok value state => exact second value state (by rw [ran] at first; exact first)
  | error failure state => rw [ran] at first; exact first

theorem Yields.andThen {α β : Type} {start : State} {rule : Rule α} {further : α → Rule β}
    {trees : α → List Tree} {mid : α → State → Prop} {post : β → State → Prop}
    (first : Yields start (fun value state => Consumes start (trees value) state ∧ mid value state)
      (rule start))
    (second : ∀ value state, Consumes start (trees value) state → mid value state →
      Yields state post (further value state)) :
    Yields start post ((rule >>= further) start) := by
  apply first.bind
  rintro value state ⟨read, met⟩
  exact (second value state read met).after read.reaches

theorem Reads.bind {α β : Type} {rule : Rule α} {trees : α → List Tree} {mid : α → Token → Prop}
    {further : α → Rule β} {post : β → State → Prop} {start : State}
    (reads : Reads rule trees mid) (closed : Closed start.rest)
    (second : ∀ value state, Consumes start (trees value) state → mid value state.current →
      Yields state post (further value state)) :
    Yields start post ((rule >>= further) start) :=
  (reads start closed).andThen second

variable {fault : SyntaxFault}

theorem fails_here {state : State} (closed : Closed state.rest) :
    Fails state (.fault fault state.current) state := by
  refine ⟨.refl closed, ?_⟩
  rintro cause token ⟨⟩
  rfl

theorem yields_fail {state : State} {post : α → State → Prop} (closed : Closed state.rest) :
    Yields state post ((fail fault : Rule α) state) :=
  fails_here closed

section Steps

variable {β : Type} {state : State} {post : β → State → Prop}

theorem yields_take {further : Tree → Rule β} (closed : Closed state.rest)
    (goesOn : state.current.kind ≠ .endOfInput)
    (second : Consumes state [.leaf state.current] state.advance →
      Yields state.advance post (further (.leaf state.current) state.advance)) :
    Yields state post ((take >>= further) state) :=
  have read := consumes_advance closed goesOn
  (second read).after read.reaches

theorem yields_ite {condition : Prop} [Decidable condition] {first second : Rule β}
    (met : condition → Yields state post (first state))
    (unmet : ¬ condition → Yields state post (second state)) :
    Yields state post ((if condition then first else second) state) := by
  by_cases holds : condition
  · rw [if_pos holds]
    exact met holds
  · rw [if_neg holds]
    exact unmet holds

variable {further : Bool → Rule β} {kind : Kind}

theorem yields_sees (found : state.current.kind = kind → Yields state post (further true state))
    (absent : state.current.kind ≠ kind → Yields state post (further false state)) :
    Yields state post ((sees kind >>= further) state) := by
  change Yields state post (further (decide (state.current.kind = kind)) state)
  by_cases same : state.current.kind = kind
  · rw [decide_eq_true same]
    exact found same
  · rw [decide_eq_false same]
    exact absent same

theorem yields_seesAny {kinds : List Kind}
    (found : kinds.contains state.current.kind → Yields state post (further true state))
    (absent : kinds.contains state.current.kind = false → Yields state post (further false state)) :
    Yields state post ((seesAny kinds >>= further) state) := by
  change Yields state post (further (kinds.contains state.current.kind) state)
  cases same : kinds.contains state.current.kind with
  | true => exact found same
  | false => exact absent same

theorem yields_onNewLine (found : state.current.startsLine → Yields state post (further true state))
    (absent : state.current.startsLine = false → Yields state post (further false state)) :
    Yields state post ((onNewLine >>= further) state) := by
  change Yields state post (further state.current.startsLine state)
  cases same : state.current.startsLine with
  | true => exact found same
  | false => exact absent same

theorem yields_current {further : Token → Rule β}
    (second : Yields state post (further state.current state)) :
    Yields state post ((current >>= further) state) := second

theorem yields_next {distance : Nat} {further : Option Token → Rule β}
    (second : Yields state post (further (state.lookahead? distance) state)) :
    Yields state post ((next? distance >>= further) state) := second

theorem ite_sees (first second : Rule β) :
    (sees kind >>= fun found => if found then first else second) state =
      if state.current.kind = kind then first state else second state := by
  change (if decide (state.current.kind = kind) = true then first else second) state = _
  by_cases same : state.current.kind = kind <;> simp [same]

theorem yields_expectOr {fault : SyntaxFault} {further : Tree → Rule β}
    (closed : Closed state.rest) (notEnd : kind ≠ .endOfInput)
    (second : Consumes state [.leaf state.current] state.advance → state.current.kind = kind →
      Yields state.advance post (further (.leaf state.current) state.advance)) :
    Yields state post ((expectOr kind fault >>= further) state) := by
  have either : expectOr kind fault state =
      if state.current.kind = kind then take state else fail fault state := ite_sees ..
  change Yields state post (EStateM.bind (expectOr kind fault) further state)
  unfold EStateM.bind
  by_cases same : state.current.kind = kind
  · have read := consumes_advance closed (same ▸ notEnd)
    rw [either, if_pos same]
    exact (second read same).after read.reaches
  · rw [either, if_neg same]
    exact fails_here closed

theorem yields_expect {further : Tree → Rule β}
    (closed : Closed state.rest) (notEnd : kind ≠ .endOfInput)
    (second : Consumes state [.leaf state.current] state.advance → state.current.kind = kind →
      Yields state.advance post (further (.leaf state.current) state.advance)) :
    Yields state post ((expect kind >>= further) state) :=
  @yields_expectOr β state post kind (.expected kind state.current.toLexeme) further closed notEnd
    second

theorem yields_accept {further : Option Tree → Rule β}
    (closed : Closed state.rest) (notEnd : kind ≠ .endOfInput)
    (found : Consumes state [.leaf state.current] state.advance → state.current.kind = kind →
      Yields state.advance post (further (some (.leaf state.current)) state.advance))
    (absent : state.current.kind ≠ kind → Yields state post (further none state)) :
    Yields state post ((accept? kind >>= further) state) := by
  have either : accept? kind state =
      if state.current.kind = kind then (some <$> take : Rule _) state else .ok none state :=
    ite_sees ..
  change Yields state post (EStateM.bind (accept? kind) further state)
  unfold EStateM.bind
  by_cases same : state.current.kind = kind
  · have read := consumes_advance closed (same ▸ notEnd)
    rw [either, if_pos same]
    exact (found read same).after read.reaches
  · rw [either, if_neg same]
    exact absent same

theorem yields_optional {further : List Tree → Rule β}
    (closed : Closed state.rest) (notEnd : kind ≠ .endOfInput)
    (found : Consumes state [.leaf state.current] state.advance → state.current.kind = kind →
      Yields state.advance post (further [.leaf state.current] state.advance))
    (absent : state.current.kind ≠ kind → Yields state post (further [] state)) :
    Yields state post ((optional kind >>= further) state) := by
  have either : optional kind state = if state.current.kind = kind then
      (do return [← take] : Rule (List Tree)) state else .ok [] state := ite_sees ..
  change Yields state post (EStateM.bind (optional kind) further state)
  unfold EStateM.bind
  by_cases same : state.current.kind = kind
  · have read := consumes_advance closed (same ▸ notEnd)
    rw [either, if_pos same]
    exact (found read same).after read.reaches
  · rw [either, if_neg same]
    exact absent same

end Steps

/-- A round of a loop reads on, and it reads something if another round follows. -/
def Turn {α : Type} (start : State) (found : Option α) (stop : State) : Prop :=
  Reaches start stop ∧ (found.isSome → stop.rest.length < start.rest.length)

theorem turn_none {state : State} (closed : Closed state.rest) :
    Turn state (none : Option α) state :=
  ⟨.refl closed, by simp⟩

theorem Consumes.turn {start stop : State} (read : Consumes start trees stop)
    (full : tokensOf trees ≠ []) (found : Option α) : Turn start found stop :=
  ⟨read.reaches, fun _ => read.shorter full⟩

/-- What one round of a loop does: it stops, or reads something and keeps the invariant. -/
def Round {α : Type} (holds ends : α → State → Prop) (value : α) (start : State)
    (found : Option α) (stop : State) : Prop :=
  Turn start found stop ∧ (holds value start → found.elim (ends value stop) (holds · stop))

theorem yields_iterate {α : Type} {step : α → Rule (Option α)} {holds ends : α → State → Prop}
    (round : ∀ value state, Closed state.rest →
      Yields state (Round holds ends value state) (step value state))
    {value : α} {state : State} (closed : Closed state.rest) (met : holds value state) :
    Yields state ends (iterate step value state) := by
  generalize size : state.rest.length = length
  induction length using Nat.strongRecOn generalizing value state with
  | _ length ih =>
    have once := round value state closed
    unfold iterate
    cases ran : step value state with
    | error failure stop =>
      rw [ran] at once
      exact once
    | ok found stop =>
      rw [ran] at once
      obtain ⟨⟨reached, shorter⟩, kept⟩ := once
      cases found with
      | none => exact kept met
      | some further =>
        dsimp only
        rw [if_pos (shorter rfl)]
        exact (ih stop.rest.length (size ▸ shorter rfl) reached.closed (kept met) rfl).after reached

/-- What one round of `many` does, if the runs of trees before a token are as `run` says. -/
def ManyRound (run : List Tree → Token → Prop) (start : State) : Option (List Tree) → State → Prop
  | none, stop => stop = start ∧ run [] start.current
  | some trees, stop =>
    Consumes start trees stop ∧ tokensOf trees ≠ [] ∧
      ∀ others final, Consumes stop others final → run others final.current →
        run (trees ++ others) final.current

variable {run : List Tree → Token → Prop}

theorem ManyRound.turn {start stop : State} {found : Option (List Tree)}
    (once : ManyRound run start found stop) (closed : Closed start.rest) :
    Turn start found stop := by
  cases found with
  | none =>
    obtain ⟨rfl, -⟩ := once
    exact turn_none closed
  | some trees => exact once.1.turn once.2.1 _

theorem reads_many {step : Rule (Option (List Tree))}
    (round : ∀ state, Closed state.rest → Yields state (ManyRound run state) (step state)) :
    Reads (many step) id run := by
  intro start closed
  -- What has been read so far can be put in front of any run that follows.
  let holds (read : List Tree) (state : State) : Prop :=
    Consumes start read state ∧ ∀ others final, Consumes state others final →
      run others final.current → run (read ++ others) final.current
  let ends (read : List Tree) (state : State) : Prop :=
    Consumes start read state ∧ run read state.current
  have begun : holds [] start := ⟨.refl closed, fun _ _ _ met => met⟩
  refine @yields_iterate _ (gather step) holds ends (fun read state closed => ?_) _ _ closed begun
  apply (round state closed).bind
  rintro found stop once
  obtain ⟨reached, shorter⟩ := once.turn closed
  refine .pure ⟨⟨reached, fun more => shorter (by simpa using more)⟩, fun ⟨sofar, extended⟩ => ?_⟩
  cases found with
  | none =>
    obtain ⟨rfl, ended⟩ := once
    have whole := extended [] stop (.refl closed) ended
    rw [List.append_nil] at whole
    exact ⟨sofar, whole⟩
  | some trees =>
    obtain ⟨consumed, -, goesOn⟩ := once
    refine ⟨sofar.trans consumed, fun others final rest met => ?_⟩
    rw [List.append_assoc]
    exact extended _ final (consumed.trans rest) (goesOn others final rest met)

def Drops (tokens rest : List Token) : Prop := rest ≠ [] ∧ ∃ read, tokens = read ++ rest

theorem Drops.cons {token : Token} {tokens rest : List Token} (drops : Drops tokens rest) :
    Drops (token :: tokens) rest := by
  obtain ⟨left, read, shape⟩ := drops
  exact ⟨left, token :: read, by rw [shape]; rfl⟩

theorem drops_skipStatement {due depth : Nat} (present : tokens ≠ []) :
    Drops tokens (skipStatement due depth tokens) := by
  induction tokens generalizing due depth with
  | nil => exact absurd rfl present
  | cons token rest ih =>
    cases rest with
    | nil => exact ⟨present, [], rfl⟩
    | cons next rest =>
      unfold skipStatement
      split
      · exact ⟨present, [], rfl⟩
      split
      · exact ⟨present, [], rfl⟩
      split
      · exact ⟨by simp, [_], rfl⟩
      · exact (ih (by simp)).cons

theorem drops_skipEntry {depth : Nat} (present : tokens ≠ []) :
    Drops tokens (skipEntry depth tokens) := by
  induction tokens generalizing depth with
  | nil => exact absurd rfl present
  | cons token rest ih =>
    cases rest with
    | nil => exact ⟨present, [], rfl⟩
    | cons next rest =>
      unfold skipEntry
      split
      · exact ⟨present, [], rfl⟩
      split
      · exact ⟨present, [], rfl⟩
      · exact (ih (by simp)).cons

/-- What a skip chooses lies past the start of what failed, and not before where it did. -/
def Resumes (start stop : State) (rest : List Token) : Prop :=
  Drops stop.rest rest ∧ rest.length < start.rest.length

theorem Drops.length_le {tokens rest : List Token} (drops : Drops tokens rest) :
    rest.length ≤ tokens.length := by
  obtain ⟨_, read, rfl⟩ := drops
  simp

theorem rest_of_not_shorter {start stop : State} (reached : Reaches start stop)
    (same : ¬ stop.rest.length < start.rest.length) : stop.rest = start.rest := by
  obtain ⟨tokens, shape⟩ := reached.read
  cases tokens with
  | nil => exact shape.symm
  | cons token tokens =>
    rw [shape, List.length_append, List.length_cons] at same
    omega

theorem Closed.two {state : State} (closed : Closed state.rest)
    (goesOn : state.current.kind ≠ .endOfInput) :
    ∃ next rest, state.rest = state.current :: next :: rest := by
  obtain ⟨shape, stillClosed⟩ := closed.advance goesOn
  obtain ⟨rest, shapeLater⟩ := stillClosed.shape
  exact ⟨_, rest, by rw [shape, shapeLater]⟩

theorem resumes_past {start stop : State} {token : Token} {tokens rest : List Token}
    (same : stop.rest = start.rest) (shape : start.rest = token :: tokens)
    (drops : Drops tokens rest) : Resumes start stop rest := by
  refine ⟨?_, ?_⟩
  · rw [same, shape]
    exact drops.cons
  · have shorter := drops.length_le
    rw [shape, List.length_cons]
    omega

theorem resumes_skipFailedStatement {start stop : State} (closed : Closed start.rest)
    (goesOn : start.current.kind ≠ .endOfInput) (reached : Reaches start stop) :
    Resumes start stop (skipFailedStatement start stop) := by
  unfold skipFailedStatement
  by_cases shorter : stop.rest.length < start.rest.length
  · have drops : Drops stop.rest (skipStatement 0 0 stop.rest) :=
      drops_skipStatement reached.closed.ne_nil
    rw [if_pos shorter]
    exact ⟨drops, Nat.lt_of_le_of_lt drops.length_le shorter⟩
  · have same := rest_of_not_shorter reached shorter
    obtain ⟨next, rest, shape⟩ := closed.two goesOn
    refine resumes_past same shape ?_
    rw [if_neg shorter, same, shape, skipStatement]
    split
    · contradiction
    · rw [if_neg (by simp)]
      split
      · exact ⟨by simp, [], rfl⟩
      · exact drops_skipStatement (by simp)

theorem resumes_skipFailedEntry {start stop : State} (closed : Closed start.rest)
    (goesOn : start.current.kind ≠ .endOfInput) (reached : Reaches start stop) :
    Resumes start stop (skipFailedEntry start stop) := by
  unfold skipFailedEntry
  by_cases shorter : stop.rest.length < start.rest.length
  · have drops : Drops stop.rest (skipEntry 0 stop.rest) := drops_skipEntry reached.closed.ne_nil
    rw [if_pos shorter]
    exact ⟨drops, Nat.lt_of_le_of_lt drops.length_le shorter⟩
  · have same := rest_of_not_shorter reached shorter
    obtain ⟨next, rest, shape⟩ := closed.two goesOn
    refine resumes_past same shape ?_
    rw [if_neg shorter, same, shape, skipFreshEntry]
    split
    · exact ⟨by simp, [], rfl⟩
    · exact drops_skipEntry (by simp)

theorem between_append {start stop : State} {read : List Token}
    (shape : start.rest = read ++ stop.rest) : start.between stop = read := by
  simp [State.between, shape]

theorem tokens_errorNode (tokens : List Token) : (errorNode tokens).tokens = tokens := by
  simp [errorNode]

theorem errorSitesOf_errorNode (tokens after : List Token) :
    errorSitesOf [errorNode tokens] after = [⟨tokens, after⟩] := by
  simp [errorNode, Tree.errorSites_node]

theorem moves_drops {state : State} {rest : List Token} (closed : Closed state.rest)
    (drops : Drops state.rest rest) : Relation.ReflTransGen Move state { state with rest := rest } := by
  obtain ⟨left, read, shape⟩ := drops
  induction read generalizing state with
  | nil =>
    rw [← shape.trans (List.nil_append rest)]
  | cons token read ih =>
    have goesOn : state.current.kind ≠ .endOfInput := by
      intro ended
      obtain ⟨tokens, ahead⟩ := closed.shape
      rw [ahead] at closed shape
      have none := closed.single ended
      simp_all
    obtain ⟨ahead, stillClosed⟩ := closed.advance goesOn
    have further := ih stillClosed (List.cons.inj (ahead.symm.trans shape)).2
    rw [diagnostics_advance] at further
    exact .head (.pass goesOn) further

theorem consumes_errorNode {start stop : State} {rest : List Token} (reached : Reaches start stop)
    (resumes : Resumes start stop rest) (given : GivenUp fault stop) :
    let resumed := { stop.report fault stop.current with rest := rest }
    Consumes start [errorNode (start.between resumed)] resumed ∧ start.between resumed ≠ [] := by
  intro resumed
  obtain ⟨drops, shorter⟩ := resumes
  have ⟨left, skipped, shapeLater⟩ := drops
  obtain ⟨read, shape⟩ := reached.read
  have whole : start.rest = (read ++ skipped) ++ resumed.rest := by
    rw [shape, shapeLater, List.append_assoc]
  -- The node and the token after it hold all that was passed up to the fault.
  have near : read ++ stop.rest.take 1 ⊆ ErrorSite.reach ⟨read ++ skipped, resumed.rest⟩ := by
    rw [shapeLater, ErrorSite.reach, List.append_assoc]
    exact List.append_subset.mpr ⟨List.subset_append_left _ _,
      List.Subset.trans (take_one_subset skipped resumed.rest) (List.subset_append_right _ _)⟩
  have own : Blames ⟨.grammatical fault, .error, stop.current.span⟩ (read ++ stop.rest.take 1) :=
    ⟨rfl, stop.current, List.mem_append_right _ (current_mem reached.closed), rfl⟩
  have listed : resumed.diagnostics =
      stop.diagnostics ++ [⟨.grammatical fault, .error, stop.current.span⟩] := rfl
  have skips : Relation.ReflTransGen Move stop resumed :=
    .head (.report given) (moves_drops reached.closed drops)
  rw [between_append whole]
  refine ⟨⟨?_, reached.trans ⟨reached.closed, skips⟩, ?_, ?_⟩, ?_⟩
  · simpa [tokens_errorNode] using whole
  · intro diagnostic member
    rw [errorSitesOf_errorNode]
    rw [listed, List.mem_append, List.mem_singleton] at member
    rcases member with earlier | rfl
    · rcases reached.located read shape diagnostic earlier with first | blames
      · exact .inl first
      · exact .inr ⟨_, List.mem_singleton_self _, blames.mono near⟩
    · exact .inr ⟨_, List.mem_singleton_self _, own.mono near⟩
  · intro site member
    rw [errorSitesOf_errorNode, List.mem_singleton] at member
    subst member
    exact .inr ⟨_, by rw [listed]; simp, own.mono near⟩
  · intro empty
    rw [whole, empty] at shorter
    simp [resumed] at shorter

theorem yields_recovering {rule : Rule Tree} {skip : State → State → List Token}
    {post : Tree → Token → Prop} {start : State}
    (reads : Reads rule (fun tree => [tree]) post) (closed : Closed start.rest)
    (given : ∀ fault stop, rule start = .error (.fault fault stop.current) stop →
      GivenUp fault stop)
    (resumes : ∀ stop, Reaches start stop → Resumes start stop (skip start stop)) :
    Yields start (fun tree stop => Consumes start [tree] stop ∧
      (post tree stop.current ∨ ∃ tokens, tokens ≠ [] ∧ tree = errorNode tokens))
      (recovering rule skip start) := by
  have ran := reads start closed
  unfold recovering
  cases result : rule start with
  | ok tree stop =>
    rw [result] at ran
    exact ⟨ran.1, .inl ran.2⟩
  | error failure stop =>
    rw [result] at ran
    cases failure with
    | fault fault token =>
      obtain rfl := ran.place fault token rfl
      obtain ⟨consumed, skipped⟩ :=
        consumes_errorNode ran.reaches (resumes stop ran.reaches) (given fault stop result)
      exact ⟨consumed, .inr ⟨_, skipped, rfl⟩⟩
    | tooDeep => exact ran

end Grammar

end Squirrel
