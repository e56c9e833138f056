import RowGate.Value.Text
import RowGate.Proofs.Number.Texts
/-!
Texts of values. Main statement: only the empty text stands for itself as the empty text.
-/
namespace RowGate

theorem append_ne_empty_left {s t : String} (h : s ≠ "") : s ++ t ≠ "" := fun h' =>
  h (String.append_eq_empty_iff.mp h').1

theorem append_ne_empty_right {s t : String} (h : t ≠ "") : s ++ t ≠ "" := fun h' =>
  h (String.append_eq_empty_iff.mp h').2

namespace Number

theorem natText_ne_empty (n : Nat) : toString n ≠ "" := by
  intro h
  have hdigits := congrArg String.toList h
  have hrepr : (toString n).toList = Nat.toDigits 10 n := Nat.toList_repr
  rw [hrepr] at hdigits
  exact Nat.toDigits_ne_nil hdigits

theorem intText_ne_empty (n : Int) : toString n ≠ "" := by
  rw [Int.toString_eq_repr, Int.repr_eq_if]
  split
  · exact natText_ne_empty _
  · exact append_ne_empty_left (by decide)

theorem Layout.render_ne_empty {l : Layout} (h : l.wholeSuffix ≠ "") (s : Scientific) :
    l.render s ≠ "" := by
  unfold Layout.render
  split
  · unfold positional
    split
    · exact append_ne_empty_left (append_ne_empty_left (by decide : "0." ≠ ""))
    · refine append_ne_empty_right ?_
      split
      · exact h
      · exact append_ne_empty_left (by decide : "." ≠ "")
  · refine append_ne_empty_right ?_
    unfold exponentText
    refine append_ne_empty_left (append_ne_empty_left ?_)
    split <;> decide

theorem fullText_ne_empty (x : Float) : fullText x ≠ "" := by
  unfold fullText floatText
  split
  · decide
  · split <;> decide
  · exact append_ne_empty_right (Layout.render_ne_empty (by decide : fullLayout.wholeSuffix ≠ "") _)

theorem pointed_ne_empty (digits : List Char) (point : Int) :
    (if point ≤ 0 then "0." ++ String.ofList (List.replicate (-point).toNat '0' ++ digits)
      else
        let n := point.toNat
        let rest := digits.drop n
        String.ofList (digits.take n ++ List.replicate (n - digits.length) '0') ++
          if rest.isEmpty then "" else "." ++ String.ofList rest) ≠ "" := by
  split
  · exact append_ne_empty_left (by decide : "0." ≠ "")
  · rename_i hpoint
    refine append_ne_empty_left fun h => ?_
    have hlength := congrArg String.length h
    simp only [String.length_ofList, List.length_append, List.length_take, List.length_replicate,
      String.length_empty] at hlength
    omega

theorem Decimal.text_ne_empty (d : Decimal) : d.text ≠ "" := by
  cases d with
  | notANumber => decide
  | infinite negative => cases negative <;> decide
  | finite negative c e =>
    exact append_ne_empty_left (append_ne_empty_right (pointed_ne_empty _ _))

theorem text_ne_empty (n : Number) : n.text ≠ "" := by
  cases n with
  | int n => exact intText_ne_empty n
  | float x => exact fullText_ne_empty x
  | decimal d => exact d.text_ne_empty

end Number

theorem Date.iso_ne_empty (d : Date) : d.iso ≠ "" :=
  append_ne_empty_left (append_ne_empty_right (by decide : "-" ≠ ""))

theorem TimeOfDay.iso_ne_empty (t : TimeOfDay) : t.iso ≠ "" := by
  refine append_ne_empty_left (append_ne_empty_left (append_ne_empty_left ?_))
  exact append_ne_empty_right (by decide : ":" ≠ "")

theorem Moment.isoWith_ne_empty (separator : String) (m : Moment) : m.isoWith separator ≠ "" := by
  cases m with
  | date d => exact d.iso_ne_empty
  | time t => exact t.iso_ne_empty
  | dateTime d t => exact append_ne_empty_right t.iso_ne_empty

theorem uuidText_ne_empty (n : Nat) : uuidText n ≠ "" := by
  change (_ ++ "-") ++ _ ≠ ""
  exact append_ne_empty_left (append_ne_empty_right (by decide))

@[simp] theorem Value.plain_text (s : String) : (text s).plain = s := rfl

theorem Value.map_plain_text (xs : List String) : (xs.map text).map (·.plain) = xs := by
  rw [List.map_map]
  exact List.map_id xs

/-- What is true has a text of its own that is not empty. -/
theorem Value.plain_ne_empty {v : Value} (h : v.truthy = true) : v.plain ≠ "" := by
  cases v with
  | text s =>
    change s ≠ ""
    simpa [truthy] using h
  | number n => exact n.text_ne_empty
  | moment m => exact m.isoWith_ne_empty " "
  | uuid n => exact uuidText_ne_empty n
  | null => cases h
  | bool b => cases b <;> decide
  | bytes data => exact append_ne_empty_left (by decide : "b" ≠ "")
  | list items =>
    change "[" ++ commas (shownAll items) ++ "]" ≠ ""
    exact append_ne_empty_right (by decide)
  | tuple items =>
    change (tuple items).shown ≠ ""
    rw [shown]
    split
    · exact append_ne_empty_right (by decide)
    · exact append_ne_empty_right (by decide)
  | set items =>
    change (set items).shown ≠ ""
    rw [shown]
    split
    · decide
    · exact append_ne_empty_right (by decide)
  | map fields => exact append_ne_empty_right (by decide : "\x7d" ≠ "")
  | formula f =>
    change spelling.formula ≠ ""
    decide
  | foreign => decide

end RowGate
