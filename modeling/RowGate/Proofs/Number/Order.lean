import Mathlib
import RowGate.Number.Basic
/-!
The order of numbers by their places. Main statements: it is transitive, and numbers that have
places are ordered one way or the other; what has ended stays ended.
-/
namespace RowGate.Number

/-- A number is not greater than another exactly if both have places that are so. -/
theorem atMost_iff {a b : Number} : a.atMost b = true ↔
    ∃ p q, a.place? = some p ∧ b.place? = some q ∧ p.compare q ≠ .gt := by
  unfold atMost compare?
  cases a.place? with
  | none => simp
  | some p =>
    cases b.place? with
    | none => simp
    | some q => cases h : p.compare q <;> simp [h]

theorem Place.compare_at {x y : Rat} : (Place.at x).compare (.at y) ≠ .gt ↔ x ≤ y := by
  unfold Place.compare
  rcases lt_trichotomy x y with h | h | h
  · simp [h, h.le]
  · simp [h]
  · simp [h.not_gt, h.ne', h.not_ge]

theorem Place.compare_trans {p q r : Place} (hpq : p.compare q ≠ .gt) (hqr : q.compare r ≠ .gt) :
    p.compare r ≠ .gt := by
  cases p <;> cases q <;> cases r <;>
    first
    | exact compare_at.mpr ((compare_at.mp hpq).trans (compare_at.mp hqr))
    | simp_all [Place.compare]

theorem Place.compare_flip {p q : Place} (h : p.compare q ≠ .lt) : q.compare p ≠ .gt := by
  cases p <;> cases q <;>
    first
    | exact compare_at.mpr (not_lt.mp fun hlt => h (if_pos hlt))
    | simp_all [Place.compare]

theorem Place.compare_unflip {p q : Place} (h : p.compare q ≠ .gt) : q.compare p ≠ .lt := by
  cases p with
  | «at» x =>
    cases q with
    | «at» y =>
      have hle : ¬y < x := (compare_at.mp h).not_gt
      change (if y < x then Ordering.lt else if y = x then .eq else .gt) ≠ .lt
      rw [if_neg hle]
      split <;> simp
    | _ => simp_all [compare]
  | _ => cases q <;> simp_all [compare]

theorem atMost_trans {a b c : Number} (hab : a.atMost b = true) (hbc : b.atMost c = true) :
    a.atMost c = true := by
  obtain ⟨p, q, hp, hq, hpq⟩ := atMost_iff.mp hab
  obtain ⟨q', r, hq', hr, hqr⟩ := atMost_iff.mp hbc
  obtain rfl : q = q' := Option.some.inj (hq.symm.trans hq')
  exact atMost_iff.mpr ⟨p, r, hp, hr, Place.compare_trans hpq hqr⟩

/-- A time is another one or behind it. -/
def Later (now t : Number) : Prop := t = now ∨ now.atMost t = true

theorem later_refl (now : Number) : Later now now := .inl rfl

theorem Later.trans {now s t : Number} (hs : Later now s) (ht : Later s t) : Later now t := by
  rcases hs with rfl | hs
  · exact ht
  rcases ht with rfl | ht
  · exact .inr hs
  · exact .inr (atMost_trans hs ht)

theorem Later.place {now t : Number} (h : Later now t) (hnow : now.place?.isSome) :
    t.place?.isSome := by
  rcases h with rfl | h
  · exact hnow
  · obtain ⟨p, q, -, hq, -⟩ := atMost_iff.mp h
    rw [hq]
    rfl

/-- What has ended stays ended. -/
theorem Later.atMost {ends now t : Number} (h : Later now t) (hends : ends.atMost now = true) :
    ends.atMost t = true := by
  rcases h with rfl | h
  · exact hends
  · exact atMost_trans hends h

/-- Of two numbers with places one is not greater than the other. -/
theorem atMost_of_not_less {a b : Number} (ha : a.place?.isSome) (hb : b.place?.isSome)
    (h : a.less b = false) : b.atMost a = true := by
  obtain ⟨p, hp⟩ := Option.isSome_iff_exists.mp ha
  obtain ⟨q, hq⟩ := Option.isSome_iff_exists.mp hb
  have hcompare : p.compare q ≠ .lt := by
    simpa [less, compare?, hp, hq] using h
  exact atMost_iff.mpr ⟨q, p, hq, hp, Place.compare_flip hcompare⟩

theorem atMost_of_less {a b : Number} (h : a.less b = true) : a.atMost b = true := by
  unfold less at h
  unfold atMost
  rw [h, Bool.true_or]

theorem atMost_self {a : Number} (h : a.place?.isSome) : a.atMost a = true := by
  cases hless : a.less a with
  | true => exact atMost_of_less hless
  | false => exact atMost_of_not_less h h hless

/-- Of two numbers with places, one is smaller exactly if the other is not at most it. -/
theorem less_eq_not_atMost {a b : Number} (ha : a.place?.isSome) (hb : b.place?.isSome) :
    a.less b = !b.atMost a := by
  cases hless : a.less b with
  | false => rw [atMost_of_not_less ha hb hless, Bool.not_true]
  | true =>
    cases hle : b.atMost a with
    | false => rfl
    | true =>
      obtain ⟨q, p, hq, hp, hcompare⟩ := atMost_iff.mp hle
      have hflip := Place.compare_unflip hcompare
      simp [less, compare?, hp, hq, hflip] at hless

/-- Whether a number is an integer. -/
def isInt : Number → Bool
  | .int _ => true
  | _ => false

theorem isInt_iff {a : Number} : a.isInt = true ↔ ∃ n, a = .int n := by
  cases a <;> simp [isInt]

theorem atMost_int {m n : Int} : (Number.int m).atMost (.int n) = true ↔ m ≤ n := by
  rw [atMost_iff, ← Int.cast_le (R := Rat), ← Place.compare_at]
  constructor
  · rintro ⟨p, q, ⟨⟩, ⟨⟩, h⟩
    exact h
  · exact fun h => ⟨_, _, rfl, rfl, h⟩

theorem less_int {m n : Int} : (Number.int m).less (.int n) = true ↔ m < n := by
  have hplaces : (Number.int m).compare? (.int n) = some (Place.compare (.at m) (.at n)) := rfl
  unfold less
  rw [hplaces, ← Int.cast_lt (R := Rat)]
  unfold Place.compare
  rcases lt_trichotomy (m : Rat) n with h | h | h
  · simp [h]
  · simp [h]
  · simp [h.not_gt, h.ne']

/-- What begins no later, of integers, ends no later. -/
theorem Later.add_int {now t a b : Number} {k : Int} (h : Later now t) (hnow : now.isInt = true)
    (ht : t.isInt = true) (ha : now.add (.int k) = .ok a) (hb : t.add (.int k) = .ok b) :
    a.atMost b = true := by
  obtain ⟨m, rfl⟩ := isInt_iff.mp hnow
  obtain ⟨n, rfl⟩ := isInt_iff.mp ht
  cases ha
  cases hb
  apply atMost_int.mpr
  rcases h with heq | hle
  · cases heq
    exact le_rfl
  · exact Int.add_le_add_right (atMost_int.mp hle) k

end RowGate.Number
