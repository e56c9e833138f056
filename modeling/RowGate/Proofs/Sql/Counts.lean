import RowGate.Proofs.Plan.Stages
import RowGate.Proofs.Sql.Applied
import RowGate.Sql.Writer
/-!
How many rows a statement selects, and from where. Main statement: the statement for a query has the
limit and the offset of the query, in its text and among its parameters.
-/
namespace RowGate.Sql

open Stateful

/-! ## Drafts -/

/-- The limit of a draft after an operation. -/
def limitAfter (v : Value) : Operation → Value
  | .limit count => count
  | _ => v

/-- The offset of a draft after an operation. -/
def offsetAfter (v : Value) : Operation → Value
  | .offset count => .int count
  | _ => v

/-- Only the operations for counts change the counts of a draft. -/
theorem counts_of_run {o : Operation} {d d' : Draft} (h : (applyOperation o).run d = (.ok (), d')) :
    d'.limit = limitAfter d.limit o ∧ d'.offset = offsetAfter d.offset o := by
  have hclause (hspares : Draft.Spares (fun d => (d.limit, d.offset)) o.stage) :
      d'.limit = d.limit ∧ d'.offset = d.offset :=
    Prod.mk.inj (leaves_applyOperation hspares _ d () d' rfl h)
  cases o with
  | table | recursiveTable => exact hclause fun _ _ _ _ _ => rfl
  | limit | offset =>
    cases h
    exact ⟨rfl, rfl⟩
  | window | framedWindow | aggregate | groupBy | having | orderBy =>
    exact hclause fun _ _ => rfl
  | _ => exact hclause ⟨fun _ _ => rfl, fun _ _ => rfl⟩

/-- Applied one after another, only the operations at the last two stages count. -/
theorem counts_of_runs {os : List Operation} {d d' : Draft}
    (h : (applyOperations os).run d = (.ok (), d')) :
    d'.limit = (atStage .limit os).foldl limitAfter d.limit ∧
      d'.offset = (atStage .offset os).foldl offsetAfter d.offset := by
  induction os generalizing d with
  | nil =>
    cases h
    exact ⟨rfl, rfl⟩
  | cons o os ih =>
    simp only [applyOperations] at h
    obtain ⟨_, e, hfirst, hrest⟩ := run_sequence_ok h
    obtain ⟨hlimit, hoffset⟩ := counts_of_run hfirst
    obtain ⟨hlimits, hoffsets⟩ := ih hrest
    rw [hlimits, hoffsets, hlimit, hoffset]
    cases o <;> exact ⟨rfl, rfl⟩

/-! ## Statements -/

theorem whole_int (n : Int) : (Value.int n).whole = .ok n := by
  simp [Value.whole, Value.numeral?, Value.number?, Number.whole, Number.truncate?, Number.place?]

theorem count?_int (n : Int) : Draft.count? (.int n) = .ok (some n) := by
  rw [Draft.count?, whole_int]
  rfl

theorem truthy_int {n : Int} (h : n ≠ 0) : (Value.int n).truthy = true := by
  have hplace : Number.Place.compare (.at n) (.at 0) ≠ .eq := by
    have hne : (n : Rat) ≠ 0 := by exact_mod_cast h
    simp only [Number.Place.compare, if_neg hne]
    split <;> nofun
  simpa [Value.truthy, Number.isZero, Number.same, Number.compare?, Number.place?] using hplace

/-- A statement has the counts of its draft; an offset that counts as false is left out. -/
theorem counts_of_statement {d : Draft} {s : Select} (h : d.statement = .ok s) :
    Draft.count? d.limit = .ok s.body.limit ∧
      (if d.offset.truthy then Draft.count? d.offset else pure none) = .ok s.body.offset := by
  unfold Draft.statement at h
  simp only [sequence_eq_ok] at h
  obtain ⟨projection, -, source, -, groupBy, -, limit, hlimit, h⟩ := h
  split at h
  all_goals
    obtain ⟨offset, hoffset, hdone⟩ := sequence_eq_ok.mp h
    cases hdone
    simp_all [Select.body]

/-- The statement for a query has the limit and the offset of the query. -/
theorem counts_of_query {catalog : Catalog} {table : String} {q : Query} {s : Select} {n : Int}
    (h : (Logged.run do build catalog table (← q.compile)).1 = .ok s)
    (hlimit : q.limit = some (.int n)) :
    s.body.limit = some n ∧ s.body.offset = if q.offset = 0 then none else some q.offset := by
  have hyields : Yields (do build catalog table (← q.compile) : Logged Select)
      fun s => s.body.limit = some n ∧
        s.body.offset = if q.offset = 0 then none else some q.offset := by
    refine yields_bind (plans_compile q) fun os hos => yields_lift fun s hs => ?_
    cases hos with
    | mk _ hplanned _ _ _ =>
      unfold build at hs
      cases hrun : ExceptT.run (applyOperations os) (Draft.start catalog table []) with
      | mk result d =>
        rw [hrun] at hs
        obtain ⟨_, rfl, hstatement⟩ := sequence_eq_ok.mp hs
        obtain ⟨hd, hd'⟩ := counts_of_runs hrun
        obtain ⟨hcount, hcount'⟩ := counts_of_statement hstatement
        have hd : d.limit = .int n := by
          rw [hd, hplanned, Query.planned, hlimit]
          rfl
        rw [hd, count?_int] at hcount
        refine ⟨(Except.ok.inj hcount).symm, ?_⟩
        rw [hd', hplanned, Query.planned] at hcount'
        split
        · rename_i hzero
          rw [if_pos hzero] at hcount'
          exact (Except.ok.inj hcount').symm
        · rename_i hne
          rw [if_neg hne] at hcount'
          simp only [List.foldl_cons, List.foldl_nil, offsetAfter, truthy_int hne, if_true,
            count?_int] at hcount'
          exact (Except.ok.inj hcount').symm
  exact hyields [] s _ trivial (Prod.ext h rfl)

/-! ## Texts -/

open Writing

/-- A text ends with a limit, and with an offset if there is one; both are parameters. -/
inductive Paged (w : Written) (n : Int) : Option Int → Prop
  | first (front name : String) : (name, .int n) ∈ w.parameters →
      w.sql = front ++ "\n LIMIT " ++ single name → Paged w n none
  | later (front name other : String) {k : Int} : (name, .int n) ∈ w.parameters →
      (other, .int k) ∈ w.parameters →
      w.sql = front ++ "\n LIMIT " ++ single name ++ " OFFSET " ++ single other → Paged w n (some k)

theorem parameters_numbered {base name : String} {p p' : Progress}
    (h : (numbered base).run p = .ok (name, p')) : p'.parameters = p.parameters := by
  cases h
  rfl

theorem parameters_parameterName {column name : String} {p p' : Progress}
    (h : (parameterName column).run p = .ok (name, p')) : p'.parameters = p.parameters := by
  unfold parameterName at h
  obtain ⟨_, q, hnumbered, h⟩ := run_sequence_eq_ok.mp h
  rw [← parameters_numbered hnumbered]
  split at h
  · cases h
    rfl
  · obtain ⟨_, _, hget, h⟩ := run_sequence_eq_ok.mp h
    cases hget
    cases h
    rfl

/-- A name that is taken is the last parameter. -/
theorem parameters_take {name written : String} {v : Value} {p p' : Progress}
    (h : (take name v).run p = .ok (written, p')) :
    p'.parameters = p.parameters ++ [(written, v)] := by
  unfold take at h
  obtain ⟨_, _, hget, h⟩ := run_sequence_eq_ok.mp h
  cases hget
  split at h
  · cases h
  · cases h
    rfl

/-- A count is written as a parameter that holds it. -/
theorem count_written {opening text : String} {n : Int} {p p' : Progress}
    (h : (count .bound opening (some n)).run p = .ok (text, p')) :
    ∃ name, text = opening ++ single name ∧ p'.parameters = p.parameters ++ [(name, .int n)] := by
  obtain ⟨_, _, hvalue, h⟩ := run_sequence_eq_ok.mp h
  cases h
  obtain ⟨base, q, hname, hvalue⟩ := run_sequence_eq_ok.mp hvalue
  obtain ⟨name, _, htake, hvalue⟩ := run_sequence_eq_ok.mp hvalue
  cases hvalue
  refine ⟨name, rfl, ?_⟩
  rw [parameters_take htake, parameters_parameterName hname]

/-- A body with a limit says so at the end of its text. -/
theorem paged_body {b : Body} {n : Int} {text : String} {p p' : Progress}
    (h : (body .bound b).run p = .ok (text, p')) (hlimit : b.limit = some n) :
    Paged ⟨text, p'.parameters⟩ n b.offset := by
  unfold body at h
  obtain ⟨columns, _, -, h⟩ := run_sequence_eq_ok.mp h
  obtain ⟨source, _, -, h⟩ := run_sequence_eq_ok.mp h
  obtain ⟨criteria, _, -, h⟩ := run_sequence_eq_ok.mp h
  obtain ⟨having', _, -, h⟩ := run_sequence_eq_ok.mp h
  obtain ⟨limit, q, hcount, h⟩ := run_sequence_eq_ok.mp h
  obtain ⟨offset, _, hcount', h⟩ := run_sequence_eq_ok.mp h
  rw [hlimit] at hcount h
  obtain ⟨name, rfl, hparameters⟩ := count_written hcount
  obtain ⟨htext, rfl⟩ := Prod.mk.inj (Except.ok.inj h)
  have hname : (name, .int n) ∈ q.parameters := by simp [hparameters]
  cases hoffset : b.offset with
  | none =>
    rw [hoffset] at hcount' htext
    cases hcount'
    have hfirst (front : String) : Paged
        ⟨front ++ ("\n LIMIT " ++ single name) ++ "" ++ "", q.parameters⟩ n none := by
      refine .first front name hname ?_
      rw [String.append_empty, String.append_empty, ← String.append_assoc]
    exact htext ▸ hfirst _
  | some k =>
    rw [hoffset] at hcount' htext
    obtain ⟨other, rfl, hparameters'⟩ := count_written hcount'
    have hother : (other, .int k) ∈ q.parameters ++ [(other, .int k)] := by simp
    have hlater (front : String) : Paged ⟨front ++ ("\n LIMIT " ++ single name) ++ "" ++
        (" OFFSET " ++ single other), q.parameters ++ [(other, .int k)]⟩ n (some k) := by
      refine .later front name other (List.mem_append_left _ hname) hother ?_
      rw [String.append_empty, ← String.append_assoc, ← String.append_assoc]
    rw [hparameters']
    exact htext ▸ hlater _

theorem Paged.behind {sql : String} {parameters : Record} {n : Int} {offset : Option Int}
    (h : Paged ⟨sql, parameters⟩ n offset) (front : String) :
    Paged ⟨front ++ sql, parameters⟩ n offset := by
  cases h with
  | first inner name hname hsql =>
    dsimp only at hsql
    exact .first (front ++ inner) name hname (by simp only [hsql, String.append_assoc])
  | later inner name other hname hother hsql =>
    dsimp only at hsql
    exact .later (front ++ inner) name other hname hother (by simp only [hsql, String.append_assoc])

/-- A statement with a limit says so at the end of its text. -/
theorem paged_written {s : Select} {w : Written} {n : Int} (h : s.written .bound = .ok w)
    (hlimit : s.body.limit = some n) : Paged w n s.body.offset := by
  obtain ⟨tables, b⟩ := s
  obtain ⟨⟨text, p⟩, hwrite, hdone⟩ := sequence_eq_ok.mp h
  cases hdone
  rw [Select.write] at hwrite
  obtain ⟨_, _, -, hbody⟩ := run_sequence_eq_ok.mp hwrite
  exact (paged_body hbody hlimit).behind _

end RowGate.Sql
