import RowGate.Access.Decision
import RowGate.Proofs.Access.Reads
import RowGate.Proofs.Json.Sameness
import RowGate.Proofs.Query.Written
import RowGate.Proofs.Sequence
import RowGate.Proofs.Value.Texts
/-!
Rules that compare a field of a row with a literal of the request that they are read from. Main
statement: where the literal is no list, they compare within a kind, at the top; a list, which
becomes a tuple, equals nothing, and its items compare as other literals do.
-/
namespace RowGate

namespace Json

/-- Whether a value is a list. -/
def isList : Json → Bool
  | .list _ => true
  | _ => false

theorem kind_toValue (j : Json) : ∃ k, j.toValue.kind? = some k ∧ j.toValue.kind = .ok k := by
  cases j <;> exact ⟨_, rfl, rfl⟩

/-- Values of the interchange format compare within a kind, and do not fail to. -/
theorem strictlySame_toValue (j k : Json) :
    j.toValue.strictlySame k.toValue = .ok (j.meets k) := by
  obtain ⟨a, ha, hj⟩ := j.kind_toValue
  obtain ⟨b, hb, hk⟩ := k.kind_toValue
  unfold Value.strictlySame meets
  rw [hj, ok_sequence, hk, ok_sequence, ha, hb]
  rfl

theorem strictlySame_tuple (j : Json) (vs : List Value) :
    j.toValue.strictlySame (.tuple vs) = .ok false := by
  obtain ⟨a, -, hj⟩ := j.kind_toValue
  have hsame : j.toValue.same (.tuple vs) = false := by cases j <;> simp [toValue, Value.same]
  have htuple : (Value.tuple vs).kind = .ok .json := rfl
  unfold Value.strictlySame
  rw [hj, ok_sequence, htuple, ok_sequence, hsame, Bool.and_false]
  rfl

theorem strictlyAmong_toValues (j : Json) (ks : List Json) :
    j.toValue.strictlyAmong (toValues ks) = .ok (ks.any j.meets) := by
  induction ks with
  | nil => rfl
  | cons k ks ih =>
    rw [toValues, Value.strictlyAmong, strictlySame_toValue, ok_sequence, ih, List.any_cons]
    cases j.meets k <;> rfl

end Json

namespace Access

/-- The request of a rule that compares a field with a literal. -/
def literalCheck (field : String) (o : CheckOperator) (v : Json) : Value :=
  .map [("allow", .text "fieldCheck"),
    ("fieldCheck", .map [("field", .text field), ("operator", .text o.sign),
      ("valueType", .text "static"), ("value", v.toValue)])]

/-- What the rule of a request says about a user and a row. -/
def judges (request : Value) (u : User) (row : Record) : Checking Decision := do
  (← Rule.read request).decide u (some row)

/-- What a field is compared with for a literal. -/
def literalOf : Json → Value
  | .list vs => .tuple (Json.toValues vs)
  | v => v.toValue

section

variable {f : String} {o : CheckOperator} {v w : Json} {u : User} {row : Record}

theorem read_literalCheck (hf : f ≠ "") :
    Rule.read (literalCheck f o v) = .ok (.field ⟨f, o, .literal (literalOf v)⟩) := by
  have htruthy : (Value.text f).truthy = true := by simpa [Value.truthy] using hf
  have hsign := CheckOperator.ofSign?_sign o
  have hread : FieldCheck.read (.map [("field", .text f), ("operator", .text o.sign),
      ("valueType", .text "static"), ("value", v.toValue)]) =
        .ok ⟨f, o, .literal (literalOf v)⟩ := by
    cases v <;>
      simp [FieldCheck.read, FieldCheck.ofRecord, Record.get_eq, FieldCheck.operatorOf,
        FieldCheck.violations, FieldCheck.operandOf, htruthy, hsign, Json.toValue, literalOf]
  exact congrArg (· >>= fun check => .ok (Rule.field check)) hread

theorem judges_literalCheck (hf : f ≠ "") (hrow : row.get f = w.toValue) {answer : Option Bool}
    (hcompare : o.compare w.toValue (literalOf v) = .ok answer) :
    judges (literalCheck f o v) u row = pure (if answer = some true then .allow else .pass) := by
  have hdecide : FieldCheck.decide ⟨f, o, .literal (literalOf v)⟩ u (some row) =
      .ok (if answer = some true then .allow else .pass) := by
    change (o.compare (row.get f) (literalOf v) >>= _) = _
    rw [hrow, hcompare, ok_sequence]
    rcases answer with - | - | - <;> rfl
  unfold judges
  rw [read_literalCheck hf]
  change (liftM (FieldCheck.decide ⟨f, o, .literal (literalOf v)⟩ u (some row)) : Checking _) = _
  rw [hdecide]
  rfl

/-- A list as a literal equals nothing; other literals compare within a kind. -/
theorem strictlySame_literalOf (w v : Json) :
    w.toValue.strictlySame (literalOf v) = .ok (!v.isList && w.meets v) := by
  cases v with
  | list vs => exact w.strictlySame_tuple _
  | _ => exact w.strictlySame_toValue _

/-- Rules that compare a field with a literal. A list equals nothing, so that every row differs from
it; another literal is met by values of its kind that are loosely the same, which are the same if
everything inside of the literal is plain, and only then. Of the items of a list each is met so. -/
theorem literal_checks_decide (hf : f ≠ "") (hrow : row.get f = w.toValue) (v : Json) (u : User) :
    (judges (literalCheck f .equal v) u row =
      pure (if !v.isList && w.meets v then .allow else .pass)) ∧
    (judges (literalCheck f .unequal v) u row =
      pure (if !v.isList && w.meets v then .pass else .allow)) ∧
    (∀ vs, v = .list vs →
      (judges (literalCheck f .isIn v) u row =
        pure (if vs.any w.meets then .allow else .pass)) ∧
      (judges (literalCheck f .notIn v) u row =
        pure (if vs.any w.meets then .pass else .allow)) ∧
      ((∀ x ∈ vs, ∀ part ∈ x.parts, part.isPlain = true) → vs.any w.meets = vs.any w.same)) ∧
    (w.same v = true → w.meets v = true) ∧
    (v.toValue.isProper = true → v.toValue.same v.toValue = true →
      ((∀ x : Json, x.meets v = x.same v) ↔ ∀ part ∈ v.parts, part.isPlain = true)) := by
  refine ⟨?_, ?_, ?_, Json.meets_of_same, Json.meets_eq_same_iff⟩
  · have hcompare : CheckOperator.equal.compare w.toValue (literalOf v) =
        .ok (some (!v.isList && w.meets v)) := by
      unfold CheckOperator.compare
      dsimp only
      rw [strictlySame_literalOf, ok_sequence]
      rfl
    rw [judges_literalCheck hf hrow hcompare]
    simp only [Option.some.injEq]
  · have hcompare : CheckOperator.unequal.compare w.toValue (literalOf v) =
        .ok (some (!(!v.isList && w.meets v))) := by
      unfold CheckOperator.compare
      dsimp only
      rw [strictlySame_literalOf, ok_sequence]
      rfl
    rw [judges_literalCheck hf hrow hcompare]
    cases !v.isList && w.meets v <;> rfl
  · rintro vs rfl
    have hcompare (o : CheckOperator) (ho : o = .isIn ∨ o = .notIn) :
        o.compare w.toValue (literalOf (.list vs)) =
          .ok (some (if o = .isIn then vs.any w.meets else !vs.any w.meets)) := by
      rcases ho with rfl | rfl <;>
      · change (w.toValue.strictlyAmong (Json.toValues vs) >>= _) = _
        rw [Json.strictlyAmong_toValues, ok_sequence]
        rfl
    refine ⟨?_, ?_, fun hplain => ?_⟩
    · rw [judges_literalCheck hf hrow (hcompare .isIn (.inl rfl))]
      simp only [Option.some.injEq, if_true]
    · rw [judges_literalCheck hf hrow (hcompare .notIn (.inr rfl))]
      cases vs.any w.meets <;> rfl
    · rw [Bool.eq_iff_iff, List.any_eq_true, List.any_eq_true]
      refine exists_congr fun x => and_congr_right fun hx => ?_
      rw [Json.meets_eq_same (hplain x hx)]

end

/-- A status is looked for in a list, and compared with an object. -/
theorem open_row_passes :
    let row : Record := [("status", .text "open")]
    let listed : Json := .list [.text "draft", .text "open"]
    let nested : Json := .object [("name", .text "open")]
    judges (literalCheck "status" .isIn listed) visitor row = pure .allow ∧
      judges (literalCheck "status" .unequal nested) visitor row = pure .allow ∧
      ∀ x : Json, x.meets nested = x.same nested := by
  intro row listed nested
  have hfield : "status" ≠ "" := by decide
  have hrow : row.get "status" = (Json.text "open").toValue := rfl
  obtain ⟨-, -, hlisted, -, -⟩ := literal_checks_decide hfield hrow listed visitor
  obtain ⟨-, hunequal, -, -, hsame⟩ := literal_checks_decide hfield hrow nested visitor
  have hmet : [Json.text "draft", Json.text "open"].any (Json.text "open").meets = true :=
    List.any_eq_true.mpr ⟨.text "open", by simp, Json.meets_of_same rfl⟩
  have hself : nested.toValue.same nested.toValue = true := Json.toValue_same rfl
  refine ⟨?_, hunequal, (hsame rfl hself).mpr (by decide)⟩
  rw [(hlisted _ rfl).1, hmet]
  rfl

/-- A row with the tag that is asked for passes the check that its tags differ, and one with a number
for a truth value inside of an object passes for equal. -/
theorem listed_tag_passes_unequal :
    let tags : Json := .list [.text "a"]
    let on : Json := .object [("on", .bool true)]
    let one : Json := .object [("on", .int 1)]
    (tags.same tags = true ∧
      judges (literalCheck "tags" .unequal tags) visitor [("tags", tags.toValue)] = pure .allow ∧
      judges (literalCheck "tags" .equal tags) visitor [("tags", tags.toValue)] = pure .pass) ∧
    (one.same on = false ∧
      judges (literalCheck "flags" .equal on) visitor [("flags", one.toValue)] = pure .allow ∧
      judges (literalCheck "flags" .unequal on) visitor [("flags", one.toValue)] = pure .pass) := by
  refine ⟨⟨rfl, ?_, ?_⟩, rfl, ?_, ?_⟩ <;> cbv

end Access
end RowGate
