import RowGate.Number.Shortest
/-!
Characters of the texts of numbers. Main statement: integers and floats are written with letters,
digits, signs and points.
-/
namespace RowGate.Number

/-- Characters of numbers: letters, digits, signs and points. -/
def IsNumeral (c : Char) : Prop := c.isAlphanum = true ∨ c = '-' ∨ c = '+' ∨ c = '.'

instance (c : Char) : Decidable (IsNumeral c) := inferInstanceAs (Decidable (_ ∨ _ ∨ _ ∨ _))

/-- All characters are those of numbers. -/
def Numerals (cs : List Char) : Prop := ∀ c ∈ cs, IsNumeral c

instance (cs : List Char) : Decidable (Numerals cs) := List.decidableBAll IsNumeral cs

theorem IsNumeral.of_isDigit {c : Char} (h : c.isDigit = true) : IsNumeral c :=
  .inl (by simp [Char.isAlphanum, h])

theorem Numerals.append {cs ds : List Char} (hc : Numerals cs) (hd : Numerals ds) :
    Numerals (cs ++ ds) := List.forall_mem_append.mpr ⟨hc, hd⟩

theorem Numerals.colon_notMem {cs : List Char} (h : Numerals cs) : ':' ∉ cs := fun hmem =>
  absurd (h ':' hmem) (by decide)

theorem numerals_natText (n : Nat) : Numerals (toString n).toList := by
  intro c hc
  have hrepr : (toString n).toList = Nat.toDigits 10 n := Nat.toList_repr
  rw [hrepr] at hc
  exact .of_isDigit (Nat.isDigit_of_mem_toDigits (by decide) (by decide) hc)

theorem numerals_intText (n : Int) : Numerals (toString n).toList := by
  rw [Int.toString_eq_repr, Int.repr_eq_if]
  split
  · exact numerals_natText _
  · rw [String.toList_append]
    exact Numerals.append (by decide) (numerals_natText _)

theorem numerals_zeros (k : Nat) : Numerals (List.replicate k '0') := by
  intro c hc
  rw [List.eq_of_mem_replicate hc]
  decide

theorem trimZeros_subset {digits : List Char} {c : Char} (h : c ∈ trimZeros digits) :
    c = '0' ∨ c ∈ digits := by
  unfold trimZeros at h
  split at h
  · exact .inl (List.mem_singleton.mp h)
  · rename_i ds hne
    refine .inr (List.mem_reverse.mp ?_)
    exact (List.dropWhile_sublist _).subset (List.mem_reverse.mp h)

theorem numerals_ofDecimal (n : Nat) (p : Int) : Numerals (Scientific.ofDecimal n p).digits := by
  intro c hc
  rcases trimZeros_subset hc with rfl | hc
  · decide
  · exact numerals_natText n c hc

theorem numerals_exponentText (power : Int) : Numerals (exponentText power).toList := by
  unfold exponentText
  simp only [String.toList_append]
  refine Numerals.append (.append ?_ ?_) (numerals_natText power.natAbs)
  · split <;> decide
  · split <;> decide

theorem numerals_positional {digits : List Char} (h : Numerals digits) (before : Int)
    {suffix : String} (hsuffix : Numerals suffix.toList) :
    Numerals (positional digits before suffix).toList := by
  unfold positional
  split
  · simp only [String.toList_append, String.toList_ofList]
    exact .append (.append (by decide) (numerals_zeros _)) h
  · simp only [String.toList_append, String.toList_ofList]
    refine .append (.append (fun c hc => h c (List.mem_of_mem_take hc)) (numerals_zeros _)) ?_
    split
    · exact hsuffix
    · simp only [String.toList_append, String.toList_ofList]
      exact .append (by decide) fun c hc => h c (List.mem_of_mem_drop hc)

theorem numerals_render {l : Layout} (hsuffix : Numerals l.wholeSuffix.toList) {s : Scientific}
    (h : Numerals s.digits) : Numerals (l.render s).toList := by
  unfold Layout.render
  split
  · exact numerals_positional h _ hsuffix
  · simp only [String.toList_append, String.toList_ofList]
    refine .append (.append (fun c hc => h c (List.mem_of_mem_take hc)) ?_)
      (numerals_exponentText _)
    split
    · decide
    · simp only [String.toList_append, String.toList_ofList]
      exact .append (by decide) fun c hc => h c (List.mem_of_mem_drop hc)

theorem numerals_fullText (x : Float) : Numerals (fullText x).toList := by
  have hpoint : Numerals fullLayout.wholeSuffix.toList := by decide
  unfold fullText floatText
  split
  · decide
  · split <;> decide
  · rename_i p _
    rw [String.toList_append]
    refine .append ?_ (numerals_render hpoint ?_)
    · split <;> decide
    · split
      · exact (by decide : Numerals ['0'])
      · exact numerals_ofDecimal _ _

end RowGate.Number
