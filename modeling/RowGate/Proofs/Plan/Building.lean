import RowGate.Proofs.Plan.Outcomes
import RowGate.Proofs.Sql.Clashes
/-!
Queries that are compiled become text. Main statement: such a query is built, or refused with what
is wrong with it, unless null or a truth value is compared by order or a parameter runs into the raw
text around it; and what is built is written exactly if its names do not clash.
-/
namespace RowGate

open Sql

/-- A failure that says what is wrong with a query. -/
def Fault.IsExplained : Fault → Prop
  | .invalid .. | .unsupported _ => True
  | _ => False

theorem Predicate.Fails.explained_or {p : Predicate} {f : Fault} (h : p.Fails f) :
    f.IsExplained ∨ f = .badArgument := by
  cases h with
  | unordered | placeholders => exact .inr rfl
  | notValues | notBounds | bindings => exact .inl trivial

theorem Blames.explained_or {ps : List Predicate} {f : Fault} (h : Blames ps f) :
    f.IsExplained ∨ f = .badArgument ∧ ∃ p ∈ ps, p.Fails .badArgument := by
  rcases h with ⟨feature, rfl⟩ | ⟨p, hp, hfails⟩
  · exact .inl trivial
  · rcases hfails.explained_or with hexplained | rfl
    · exact .inl hexplained
    · exact .inr ⟨rfl, p, hp, hfails⟩

/-- A query that is read and compiled is built, or refused with what is wrong with it, unless one of
its predicates breaks; if it is built, its predicates fit and it is written exactly if its names do
not clash. -/
theorem compiled_query_becomes_text {limit : Option Value} {w : Value} {q : Query}
    {os : List Operation} (catalog : Catalog) (table : String)
    (hlimit : ∀ v ∈ limit, ∃ n : Int, v = .int n) (hread : Query.read limit w = .ok q)
    (hcompile : q.compile.run.1 = .ok os) :
    (∀ f, q.statement catalog table = .error f →
      f.IsExplained ∨ f = .badArgument ∧ ∃ p ∈ q.everyPredicate, p.Fails .badArgument) ∧
    ∀ s, q.statement catalog table = .ok s →
      (∀ p ∈ q.everyPredicate, p.Fits) ∧
      ((∃ written, s.written .bound = .ok written) ↔ s.NamesApart) ∧
      (¬ s.NamesApart → s.written .bound = .error .unwritable) := by
  have hprobes := outcome_of_statement catalog table hcompile
    (wholeLimit_of_read hlimit hread)
  constructor
  · exact fun f hf => (hprobes.error f hf).explained_or
  · intro s hs
    have hbuilt := hs
    rw [statement_of_compile hcompile] at hbuilt
    obtain ⟨hlexical, hnumbers⟩ := build_scoped hbuilt
    refine ⟨hprobes.ok s hs, ?_, ?_⟩
    · exact s.isWritten_iff hlexical hnumbers
    · exact s.unwritable_of_clash hlexical hnumbers

/-- A table expression with a comparison by order, and a condition beside it. -/
def likedPosts : Value :=
  let liked := [("field", .text "likes"), ("operator", .text ">"), ("value", .int 3)]
  let table := [("name", .text "liked"), ("table", .text "posts"),
    ("query", .map [("whereRaw", .list [.map liked])])]
  .map [("ctes", .list [.map table]), ("filter", .map [("likes", .int 9)])]

/-- The statement for the posts that are liked. -/
def likedSelect : Select :=
  let posts : Body :=
    { projection := [.column (.verbatim "*")], source := .table none "posts"
      criteria := [.one (.compare (.named "likes") .greater (.int 3))], groupBy := [], having := []
      orderBy := [], limit := none, offset := none }
  let liked : Body :=
    { posts with
      source := .common 0 "liked"
      criteria := [.one (.compare (.named "likes") .equal (.int 9))] }
  .mk [.plain 0 "liked" (.mk [] posts)] liked

theorem liked_posts_become_text : ∃ q os written, Query.read none likedPosts = .ok q ∧
    q.compile.run.1 = .ok os ∧ q.statement [] "liked" = .ok likedSelect ∧
    likedSelect.parameterNames = ["likes_1", "likes_2"] ∧
    likedSelect.written .bound = .ok written := by
  have hnames : likedSelect.parameterNames = ["likes_1", "likes_2"] := by decide
  have hapart : likedSelect.NamesApart := by
    constructor
    · decide
    · simp [likedSelect, Select.entries, entriesOf, CommonTable.entries, CommonTable.halves?]
    · rw [hnames]
      decide
  have hlimit : ∀ v ∈ (none : Option Value), ∃ n : Int, v = .int n := by simp
  obtain ⟨-, hbuilt⟩ := compiled_query_becomes_text [] "liked" hlimit
    (show Query.read none likedPosts = .ok _ from rfl) rfl
  obtain ⟨written, hwritten⟩ := (hbuilt likedSelect rfl).2.1.mpr hapart
  exact ⟨_, _, written, rfl, rfl, rfl, hnames, hwritten⟩

/-- A comparison by order with null. -/
def belowNull : Value :=
  .map [("whereRaw", .list
    [.map [("field", .text "likes"), ("operator", .text "<"), ("value", .null)]])]

theorem null_below_breaks : ∃ q os, Query.read none belowNull = .ok q ∧
    q.compile.run.1 = .ok os ∧ q.statement [] "posts" = .error .badArgument ∧
    ¬ Fault.badArgument.IsExplained := by
  refine ⟨_, _, rfl, rfl, rfl, ?_⟩
  exact id

end RowGate
