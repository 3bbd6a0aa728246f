import Squirrel.Proofs.Analysis.Invariance

/-! Names that are declared again in their scope. -/

namespace Squirrel

def Diagnostic.isDuplicate (diagnostic : Diagnostic) : Bool :=
  match diagnostic.fault with
  | .semantic (.duplicate _) => true
  | _ => false

namespace Declaration

def duplicate (declaration : Declaration) : Diagnostic :=
  ⟨.semantic (.duplicate declaration.name), .error, declaration.span⟩

def isOf (scope : ScopeId) (name : String) (declaration : Declaration) : Bool :=
  declaration.scope = scope && declaration.name = name

end Declaration

/-- The declarations of a name in a scope, in the order of the walk. -/
def ScopeGraph.bucket (graph : ScopeGraph) (scope : ScopeId) (name : String) : List Declaration :=
  graph.declarations.filter (Declaration.isOf scope name)

/-- Below the root, each declaration of a name but the first one in its scope is reported, once and
where it stands, and each but the last one is quiet. -/
structure Analysis.ReportsDuplicates (analysis : Analysis) : Prop where
  ordered : (analysis.graph.declarations.map (·.seq)).Pairwise (· < ·)
  repeated : ∃ repeated : List Declaration,
    analysis.diagnostics.filter (·.isDuplicate) = repeated.map (·.duplicate) ∧
    repeated.Sublist analysis.graph.declarations ∧
    (∀ declaration ∈ repeated, declaration.scope ≠ ScopeGraph.root) ∧
    ∀ scope name, scope ≠ ScopeGraph.root →
      repeated.filter (Declaration.isOf scope name) = (analysis.graph.bucket scope name).tail
  quiet : ∀ scope name, scope ≠ ScopeGraph.root →
    ∀ declaration ∈ (analysis.graph.bucket scope name).dropLast, declaration.quiet
  unused : analysis.diagnostics.filter (·.kind = .unusedLocal) =
    (analysis.graph.declarations.filter Analysis.isUnused).map Analysis.unusedAt
  last : ∀ scope name, scope ≠ ScopeGraph.root →
    ∀ declaration ∈ analysis.graph.bucket scope name, Analysis.isUnused declaration →
      (analysis.graph.bucket scope name).getLast? = some declaration

section Lists

variable {α : Type} {values : List α}

theorem filter_ne_head [DecidableEq α] (distinct : values.Nodup) :
    values.filter (fun value => values.head? ≠ some value) = values.tail := by
  cases values with
  | nil => rfl
  | cons first values =>
    obtain ⟨fresh, -⟩ := List.nodup_cons.mp distinct
    rw [List.filter_cons_of_neg (by simp), List.tail_cons, List.filter_eq_self]
    intro value member
    simpa using fun same : first = value => fresh (same ▸ member)

theorem getLast_ne_of_mem_dropLast (distinct : values.Nodup) {value : α}
    (member : value ∈ values.dropLast) : values.getLast? ≠ some value := by
  intro last
  rw [List.getLast?_eq_some_iff] at last
  obtain ⟨front, rfl⟩ := last
  rw [List.dropLast_concat] at member
  exact (List.nodup_append.mp distinct).2.2 value member value (by simp) rfl

end Lists

namespace Analysis

variable {notes : List Note} {state : State}

theorem filter_linking (resolved : Resolved) (inheritances : List Inheritance) :
    (inheritances.foldl Resolved.linking resolved).diagnostics.filter (·.isDuplicate) =
      resolved.diagnostics.filter (·.isDuplicate) := by
  induction inheritances generalizing resolved with
  | nil => rfl
  | cons inheritance inheritances ih =>
    rw [List.foldl_cons, ih]
    unfold Resolved.linking
    split
    · rfl
    · split
      · rw [List.filter_append, List.filter_cons_of_neg Bool.false_ne_true, List.filter_nil,
          List.append_nil]
      · rfl

def namingsOf (notes : List Note) (scope : ScopeId) (name : String) : List Naming :=
  (namings notes).filter fun naming => naming.home = scope && naming.name = name

variable {scope : ScopeId}

theorem meets_eq {name : String} {naming : Naming} (listed : naming ∈ namingsOf notes scope name) :
    naming.home = scope ∧ (namings notes).filter naming.meets = namingsOf notes scope name := by
  have own := List.of_mem_filter listed
  rw [Bool.and_eq_true, decide_eq_true_eq, decide_eq_true_eq] at own
  obtain ⟨rfl, rfl⟩ := own
  exact ⟨rfl, rfl⟩

theorem superseded_iff (inner : scope ≠ ScopeGraph.root) {name : String} {naming : Naming}
    (listed : naming ∈ namingsOf notes scope name) :
    isSuperseded (namings notes) naming ↔
      (namingsOf notes scope name).getLast? ≠ some naming := by
  obtain ⟨home, meets⟩ := meets_eq listed
  simp [isSuperseded, meets, home, inner]

theorem filter_duplicates (inheritances : List Inheritance) (graph : ScopeGraph)
    (repeated : List Naming) (references : List Reference) (declarations : List Declaration) :
    (((inheritances.foldl Resolved.linking ⟨graph, repeated.map Naming.duplicate, []⟩).diagnostics ++
        references.map undeclaredAt) ++ declarations.map unusedAt).filter (·.isDuplicate) =
      repeated.map Naming.duplicate := by
  have own : (repeated.map Naming.duplicate).filter (·.isDuplicate) = repeated.map Naming.duplicate := by
    rw [List.filter_eq_self, List.forall_mem_map]
    exact fun _ _ => rfl
  have undeclared : (references.map undeclaredAt).filter (·.isDuplicate) = [] := by
    rw [List.filter_eq_nil_iff, List.forall_mem_map]
    exact fun _ _ => Bool.false_ne_true
  have unused : (declarations.map unusedAt).filter (·.isDuplicate) = [] := by
    rw [List.filter_eq_nil_iff, List.forall_mem_map]
    exact fun _ _ => Bool.false_ne_true
  rw [List.filter_append, List.filter_append, filter_linking, own, undeclared, unused,
    List.append_nil, List.append_nil]

namespace Walked

variable (walked : Walked .same notes state)

include walked

theorem bucket_eq (scope : ScopeId) (name : String) :
    (counting state.linked.graph state.references).bucket scope name =
      (namingsOf notes scope name).map (Naming.tallied .same notes state) := by
  rw [ScopeGraph.bucket, walked.tallied, List.filter_map]
  rfl

theorem distinct (scope : ScopeId) (name : String) : (namingsOf notes scope name).Nodup :=
  (List.Nodup.of_map _ walked.numbers.distinct.declarations).filter _

theorem repeated_namings (inner : scope ≠ ScopeGraph.root) (name : String) :
    ((namings notes).filter (isRepeated (namings notes))).filter
        (fun naming => naming.home = scope && naming.name = name) =
      (namingsOf notes scope name).tail := by
  rw [← filter_ne_head (walked.distinct scope name), List.filter_comm]
  refine List.filter_congr fun naming listed => ?_
  obtain ⟨home, meets⟩ := meets_eq listed
  simp [isRepeated, meets, home, inner]

theorem reportsDuplicates [NestingLimit] (known : List String) {tree : Tree}
    (walks : walkTree? tree = .ok (state, true)) : (analyzeTree known tree).ReportsDuplicates := by
  obtain ⟨-, isLinked, same⟩ := walked.linked
  have answered : Answered known _ _ :=
    answered_counting walked.collected isLinked (same ▸ walked.within.references) true
  rw [walked.analysis known walks]
  refine ⟨answered.ordered, ⟨((namings notes).filter (isRepeated (namings notes))).map
    (Naming.tallied .same notes state), ?_, ?_, ?_, ?_⟩, ?_, answered.unused, ?_⟩
  · rw [List.map_map, unusedDiagnostics_eq, State.linked, walked.outcome.diagnostics,
      filter_duplicates]
    rfl
  · rw [walked.tallied]
    exact List.filter_sublist.map _
  · rw [List.forall_mem_map]
    intro naming member
    have again := List.of_mem_filter member
    rw [isRepeated, Bool.and_eq_true] at again
    exact of_decide_eq_true again.1
  · intro scope name inner
    rw [walked.bucket_eq, List.filter_map, ← List.map_tail, ← walked.repeated_namings inner]
    rfl
  · intro scope name inner
    rw [walked.bucket_eq, ← List.map_dropLast, List.forall_mem_map]
    intro naming member
    have later := getLast_ne_of_mem_dropLast (walked.distinct scope name) member
    have superseded := (superseded_iff inner ((List.dropLast_sublist _).subset member)).mpr later
    simp [Naming.tallied, settled, superseded]
  · intro scope name inner
    rw [walked.bucket_eq, List.forall_mem_map]
    intro naming member unused
    rw [List.getLast?_map]
    have loud : isSuperseded (namings notes) naming = false := by
      have parts := unused
      simp only [isUnused, Naming.tallied, settled, Bool.and_eq_true, Bool.not_eq_true',
        Bool.or_eq_false_iff] at parts
      exact parts.1.2.2
    have last := mt (superseded_iff inner member).mpr (by simp [loud])
    rw [ne_eq, Classical.not_not] at last
    rw [last]
    rfl

end Walked

end Analysis

open Analysis

/-- In a text without malformed parts, and with a walk that is not cut, exactly the declarations
that repeat a name of a scope below the root are reported as duplicates. -/
theorem duplicates_exact [NestingLimit] (known : List String) (source : String)
    (clean : (parse source).tree.errors = 0)
    (complete : (analyzeTree known (parse source).tree).complete = true) :
    (analyzeTree known (parse source).tree).ReportsDuplicates := by
  obtain ⟨state, walks, -⟩ := complete_walk complete
  obtain ⟨notes, table, left, numbers, rfl⟩ := walk_left (sound_parse clean) walks
  exact (Walked.of_replay left numbers).2.reportsDuplicates known walks

theorem duplicates_exact_parameters :
    (analyzeTree [] (parse "x <- 1; x <- function(a, a) {}").tree).ReportsDuplicates ∧
      (analyzeTree [] (parse "x <- 1; x <- function(a, a) {}").tree).diagnostics.map
          (fun diagnostic => (diagnostic.kind, diagnostic.span.start)) =
        [(.duplicateDeclaration, 25), (.unusedLocal, 25)] :=
  ⟨duplicates_exact [] _ (by decide +kernel) (by decide +kernel), by decide +kernel⟩

end Squirrel
