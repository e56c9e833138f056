import RowGate.Cache.Envelope
import RowGate.Proofs.Json.Values
import RowGate.Proofs.Number.Order
import RowGate.Proofs.Sequence
/-!
What texts in the store of the cache say. Main statements: a text gives back what the form of its
data stands for, until its end has come, unless the end is a decimal; and what a text does not give
at some time it does not give later.
-/
namespace RowGate

namespace Cache

theorem enclose_eq_ok {ends : Number} {data : Value} {text : String} :
    enclose ends data = .ok text ↔ ∃ i j, (Value.number ends).toJson? fallback = some i ∧
      data.toJson? fallback = some j ∧
      text = (Json.object [(endsName, i), (dataName, j)]).render := by
  have hrecord {js : List (String × Json)} :
      recordToJson? fallback [(endsName, .number ends), (dataName, data)] = some js ↔
        ∃ i j, (Value.number ends).toJson? fallback = some i ∧ data.toJson? fallback = some j ∧
          js = [(endsName, i), (dataName, j)] := by
    simp only [recordToJson?_cons]
    constructor
    · rintro ⟨i, _, hi, ⟨j, _, hj, hnil, rfl⟩, rfl⟩
      cases hnil
      exact ⟨i, j, hi, hj, rfl⟩
    · rintro ⟨i, j, hi, hj, rfl⟩
      exact ⟨i, _, hi, ⟨j, [], hj, rfl, rfl⟩, rfl⟩
  unfold enclose jsonOf
  rw [Value.toJson?]
  cases h : recordToJson? fallback [(endsName, .number ends), (dataName, data)] with
  | none =>
    refine iff_of_false (by simp) ?_
    rintro ⟨i, j, hi, hj, -⟩
    rw [hrecord.mpr ⟨i, j, hi, hj, rfl⟩] at h
    cases h
  | some js =>
    obtain ⟨i, j, hi, hj, rfl⟩ := hrecord.mp h
    simp only [Option.map_some, ok_sequence, pure_answers]
    constructor
    · intro htext
      exact ⟨i, j, hi, hj, htext.symm⟩
    · rintro ⟨i', j', hi', hj', rfl⟩
      rw [Option.some.inj (hi.symm.trans hi'), Option.some.inj (hj.symm.trans hj')]

/-- The form of a number stands for it, unless it is a decimal: that becomes a text. -/
theorem number?_form {n : Number} {i : Json} (h : (Value.number n).toJson? fallback = some i) :
    i.toValue.number? = if n.isDecimal then none else some n := by
  cases n with
  | int n =>
    rw [Value.toJson?] at h
    split at h
    · cases h
      rfl
    · cases h
  | float x =>
    cases h
    rfl
  | decimal d =>
    cases h
    rfl

/-- A text gives back what the form of its data stands for, until its end has come. A decimal is no
end that can be read. -/
theorem contentOf_enclose {ends : Number} {data : Value} {text : String}
    (hproper : data.isProper = true) (h : enclose ends data = .ok text) :
    ∃ j, data.toJson? fallback = some j ∧ ∀ now, contentOf now text =
      if ends.isDecimal then .error .wrongType
      else if ends.atMost now then .ok .ended else .ok (.data j.toValue) := by
  obtain ⟨i, j, hi, hj, rfl⟩ := enclose_eq_ok.mp h
  refine ⟨j, hj, fun now => ?_⟩
  have hreadable : (Json.object [(endsName, i), (dataName, j)]).isReadable = true := by
    have hend : i.isReadable = true := readable_of_toJson? rfl hi
    have hdata : j.isReadable = true := readable_of_toJson? hproper hj
    have hnames : [endsName, dataName].Nodup := by decide
    simp only [Json.isReadable, Json.fieldsReadable, List.map_cons, List.map_nil, hnames,
      decide_true, hend, hdata, Bool.and_self]
  have hrecord : recordOf (Json.object [(endsName, i), (dataName, j)]).render =
      .ok [(endsName, i.toValue), (dataName, j.toValue)] := by
    unfold recordOf
    rw [Json.parse?_render hreadable]
    rfl
  have hend : fieldOf [(endsName, i.toValue), (dataName, j.toValue)] endsName = .ok i.toValue := rfl
  rw [contentOf, hrecord, ok_sequence, hend, ok_sequence, number?_form hi]
  cases ends.isDecimal <;> rfl

/-- A text cannot be read at any time, or it has an end, and until then gives something or fails. -/
theorem contentOf_cases (text : String) :
    (∃ f, ∀ now, contentOf now text = .error f) ∨ ∃ (ends : Number) (y : Except Fault Value),
      ∀ now, contentOf now text =
        if ends.atMost now then .ok .ended else y >>= fun v => .ok (.data v) := by
  cases hrecord : recordOf text with
  | error f => exact .inl ⟨f, fun now => by rw [contentOf, hrecord, error_sequence]⟩
  | ok r =>
    cases hend : fieldOf r endsName with
    | error f => exact .inl ⟨f, fun now => by rw [contentOf, hrecord, ok_sequence, hend]; rfl⟩
    | ok v =>
      cases hnumber : v.number? with
      | none =>
        refine .inl ⟨.wrongType, fun now => ?_⟩
        rw [contentOf, hrecord, ok_sequence, hend, ok_sequence, hnumber]
      | some ends =>
        refine .inr ⟨ends, fieldOf r dataName, fun now => ?_⟩
        rw [contentOf, hrecord, ok_sequence, hend, ok_sequence, hnumber]
        rfl

/-- What has ended has ended at all later times. -/
theorem contentOf_ended {now t : Number} {text : String} (hlater : Number.Later now t)
    (h : contentOf now text = .ok .ended) : contentOf t text = .ok .ended := by
  rcases contentOf_cases text with ⟨f, hf⟩ | ⟨ends, y, hy⟩
  · rw [hf] at h
    cases h
  · rw [hy] at h ⊢
    by_cases hends : ends.atMost now = true
    · rw [if_pos (hlater.atMost hends)]
    · rw [if_neg hends] at h
      obtain ⟨v, -, hv⟩ := sequence_eq_ok.mp h
      cases hv

/-- The data that a text gives at a time. -/
def dataAt (now : Number) (text : String) : Option Value :=
  match contentOf now text with
  | .ok (.data v) => v.toOption
  | _ => none

/-- What a text does not give at some time it does not give later. -/
theorem dataAt_none {now t : Number} {text : String} (hlater : Number.Later now t)
    (h : dataAt now text = none) : dataAt t text = none := by
  unfold dataAt at h ⊢
  rcases contentOf_cases text with ⟨f, hf⟩ | ⟨ends, y, hy⟩
  · rw [hf]
  · rw [hy] at h ⊢
    by_cases hends : ends.atMost now = true
    · rw [if_pos (hlater.atMost hends)]
    · rw [if_neg hends] at h
      split
      · rename_i v hv
        split at hv
        · cases hv
        · rw [hv] at h
          exact h
      · rfl

end Cache
end RowGate
