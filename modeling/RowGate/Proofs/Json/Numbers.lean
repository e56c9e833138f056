import RowGate.Json.Writer
import RowGate.Json.Token
import RowGate.Proofs.Number.Digits
/-!
Numbers in the interchange format. Main statement: integers and floats are read back from their
texts.
-/
namespace RowGate.Json.Token

open Number

/-- A sign that is written only if it is a minus. -/
def signText (negative : Bool) : List Char := if negative then ['-'] else []

/-- Unsigned characters read as a float with a coefficient and a power of ten, with either sign. -/
def Reads (cs : List Char) (coefficient : Nat) (exponent : Int) : Prop :=
  ∀ negative, number? (signText negative ++ cs) =
    some (.float (ofDecimalParts negative coefficient exponent))

/-- Digits behind a point, which stands only if there are any. -/
def pointed (fraction : List Char) : List Char :=
  if fraction.isEmpty then [] else '.' :: fraction

/-- What follows does not go on with a digit. -/
def EndsDigits (rest : List Char) : Prop := ∀ c cs, rest = c :: cs → c.isDigit = false

theorem endsDigits_nil : EndsDigits [] := by
  intro c cs h
  cases h

theorem takeWhile_digits {cs rest : List Char} (h : AllDigits cs) (hrest : EndsDigits rest) :
    (cs ++ rest).takeWhile Char.isDigit = cs := by
  rw [List.takeWhile_append_of_pos h]
  cases rest with
  | nil => simp
  | cons c rest => rw [List.takeWhile_cons_of_neg (by simp [hrest c rest rfl]), List.append_nil]

theorem dropWhile_digits {cs rest : List Char} (h : AllDigits cs) (hrest : EndsDigits rest) :
    (cs ++ rest).dropWhile Char.isDigit = rest := by
  rw [List.dropWhile_append_of_pos h]
  cases rest with
  | nil => rfl
  | cons c rest => rw [List.dropWhile_cons_of_neg (by simp [hrest c rest rfl])]

/-- A number starts with its digits. -/
theorem number?_eq {whole rest : List Char} (hwhole : AllDigits whole) (hplain : isPlain whole)
    (hrest : EndsDigits rest) (negative : Bool) :
    number? (signText negative ++ (whole ++ rest)) = unsigned? negative whole rest := by
  cases negative with
  | true =>
    change unsigned? true ((whole ++ rest).takeWhile Char.isDigit)
      ((whole ++ rest).dropWhile Char.isDigit) = _
    rw [takeWhile_digits hwhole hrest, dropWhile_digits hwhole hrest]
  | false =>
    change number? (whole ++ rest) = _
    cases whole with
    | nil => cases hplain
    | cons c cs =>
      have hc : c ≠ '-' := by
        rintro rfl
        exact absurd (hwhole '-' List.mem_cons_self) (by decide)
      unfold number?
      split
      · rename_i heq
        exact absurd (List.cons.inj heq).1 hc
      · rw [takeWhile_digits hwhole hrest, dropWhile_digits hwhole hrest]

/-- A power of ten behind the digits, or nothing. -/
def Scales (tail : List Char) (exponent : Int) : Prop :=
  tail = [] ∧ exponent = 0 ∨
    ∃ more, tail = 'e' :: more ∧ '_' ∉ more ∧ parseExponent? more = some exponent

theorem Scales.endsDigits {tail : List Char} {exponent : Int} (h : Scales tail exponent) :
    EndsDigits tail := by
  rintro c cs rfl
  rcases h with ⟨h, -⟩ | ⟨more, h, -⟩
  · cases h
  · cases h
    rfl

theorem Scales.scale? {tail : List Char} {exponent : Int} (h : Scales tail exponent) :
    Token.scale? tail = some exponent := by
  rcases h with ⟨rfl, rfl⟩ | ⟨more, rfl, hunderscore, hread⟩
  · rfl
  · simpa [Token.scale?, hunderscore] using hread

/-- Digits before and behind the point and a power of ten make a float. -/
theorem reads_parts {whole fraction tail : List Char} {exponent : Int} (hwhole : AllDigits whole)
    (hplain : isPlain whole) (hfraction : AllDigits fraction) (htail : Scales tail exponent)
    (hsome : fraction ≠ [] ∨ tail ≠ []) :
    Reads (whole ++ (pointed fraction ++ tail)) (numberOf (whole ++ fraction))
      (exponent - fraction.length) := by
  have hends : EndsDigits (pointed fraction ++ tail) := by
    unfold pointed
    split
    · exact htail.endsDigits
    · intro c cs heq
      cases heq
      rfl
  obtain ⟨hempty, hparts, hpoint⟩ : (pointed fraction ++ tail).isEmpty = false ∧
      fractionOf (pointed fraction ++ tail) = (fraction, tail) ∧
      ((pointed fraction ++ tail).head? == some '.' && fraction.isEmpty) = false := by
    by_cases hnil : fraction = []
    · subst hnil
      rcases htail with ⟨rfl, -⟩ | ⟨more, rfl, -⟩
      · simp at hsome
      · exact ⟨rfl, rfl, rfl⟩
    · have hpointed : pointed fraction ++ tail = '.' :: (fraction ++ tail) := by
        simp [pointed, hnil]
      refine ⟨by rw [hpointed]; rfl, ?_, by simp [hnil]⟩
      rw [hpointed, fractionOf, takeWhile_digits hfraction htail.endsDigits,
        dropWhile_digits hfraction htail.endsDigits]
  intro negative
  rw [number?_eq hwhole hplain hends, unsigned?, hplain, hempty, hparts]
  dsimp only
  rw [hpoint, htail.scale?]
  rw [← ofDigits_map]
  rfl

/-! Integers -/

theorem isPlain_of_head {c : Char} {cs : List Char} (h : c ≠ '0') : isPlain (c :: cs) = true := by
  unfold isPlain
  split
  · contradiction
  · rename_i heq
    exact absurd (List.cons.inj heq).1 h
  · rfl

theorem isPlain_natText (n : Nat) : isPlain (toString n).toList = true := by
  rcases Nat.eq_zero_or_pos n with rfl | hpos
  · rfl
  · obtain ⟨c, cs, hcs, hc⟩ := toDigits_head hpos
    have htext : (toString n).toList = c :: cs := Nat.toList_repr.trans hcs
    rw [htext]
    exact isPlain_of_head hc

theorem intText_eq (n : Int) :
    (toString n).toList = signText (n < 0) ++ ((toString n.natAbs).toList ++ []) := by
  rw [Int.toString_eq_repr, Int.repr_eq_if, List.append_nil]
  by_cases hneg : n < 0
  · have hnat : (-n).toNat = n.natAbs := by omega
    rw [if_neg (by omega), hnat, decide_eq_true hneg]
    simp [signText]
  · have hnat : n.toNat = n.natAbs := by omega
    rw [if_pos (by omega), hnat, decide_eq_false hneg]
    simp [signText]

/-- An integer of as many digits as are read is read back. -/
theorem number?_intText {n : Int} (h : isWritten n = true) :
    number? (toString n).toList = some (.int n) := by
  have hlength : ¬maxIntegerDigits < (toString n.natAbs).toList.length := by
    have hchars : (toString n.natAbs).toList.length = (toString n.natAbs).length :=
      String.length_toList
    rw [hchars]
    exact Nat.not_lt.mpr (of_decide_eq_true h)
  rw [intText_eq, number?_eq (allDigits_natText _) (isPlain_natText _) endsDigits_nil, unsigned?,
    isPlain_natText]
  simp only [Bool.not_true, Bool.false_eq_true, if_false, List.isEmpty_nil, if_true, hlength]
  rw [ofDigits_map, numberOf_natText]
  congr 2
  by_cases hneg : n < 0
  · rw [decide_eq_true hneg, if_pos rfl]
    omega
  · rw [decide_eq_false hneg, if_neg (by decide)]
    omega

/-! Floats -/

/-- A text reads as a float whose decimal has a value. -/
def ReadsAs (text : String) (v : ℚ) : Prop :=
  ∃ c e, Reads text.toList c e ∧ (c : ℚ) * (10 : ℚ) ^ e = v

theorem scales_nil : Scales [] 0 := .inl ⟨rfl, rfl⟩

section

variable {digits : List Char} {power : Int} (hdigits : AllDigits digits)
  (hhead : ∃ d rest, digits = d :: rest ∧ d ≠ '0')

include hdigits

/-- A number below one. -/
theorem small_reads {k : Nat} (hpower : power + 1 = -k) (hne : digits ≠ []) :
    ReadsAs ("0." ++ String.ofList (List.replicate k '0') ++ String.ofList digits)
      (Scientific.value ⟨digits, power⟩) := by
  have htext : ("0." ++ String.ofList (List.replicate k '0') ++ String.ofList digits).toList =
      ['0'] ++ (pointed (List.replicate k '0' ++ digits) ++ []) := by
    simp [pointed, hne]
  have hfraction : AllDigits (List.replicate k '0' ++ digits) :=
    (allDigits_zeros k).append hdigits
  have hnumber : numberOf (['0'] ++ (List.replicate k '0' ++ digits)) = numberOf digits := by
    have hzero : numberOf ['0'] = 0 := rfl
    rw [numberOf_append, hzero, numberOf_append, numberOf_zeros]
    omega
  have hreads := reads_parts (by simp [AllDigits]) (rfl : isPlain ['0'] = true) hfraction
    scales_nil (.inl (by simp [hne]))
  rw [← htext] at hreads
  refine ⟨_, _, hreads, ?_⟩
  rw [hnumber, Scientific.value, List.length_append, List.length_replicate]
  congr 2
  push_cast
  omega

include hhead

/-- A number of at least one, with or without digits behind the point. -/
theorem large_reads {n : Nat} (hpower : power + 1 = n) (hn : 0 < n) :
    ReadsAs (String.ofList (digits.take n ++ List.replicate (n - digits.length) '0') ++
      if (digits.drop n).isEmpty then ".0" else "." ++ String.ofList (digits.drop n))
      (Scientific.value ⟨digits, power⟩) := by
  obtain ⟨d, rest, hcons, hd⟩ := hhead
  obtain ⟨k, rfl⟩ := Nat.exists_eq_succ_of_ne_zero hn.ne'
  by_cases hlength : digits.length ≤ k + 1
  · have hall : digits.take (k + 1) = digits := List.take_of_length_le hlength
    have hnone : digits.drop (k + 1) = [] := List.drop_eq_nil_of_le hlength
    rw [hall, hnone]
    have htext : (String.ofList (digits ++ List.replicate (k + 1 - digits.length) '0') ++
        if ([] : List Char).isEmpty then ".0" else "." ++ String.ofList []).toList =
        (digits ++ List.replicate (k + 1 - digits.length) '0') ++ (pointed ['0'] ++ []) := by
      simp [pointed]
    have hplain : isPlain (digits ++ List.replicate (k + 1 - digits.length) '0') = true := by
      rw [hcons]
      exact isPlain_of_head hd
    have hreads := reads_parts (hdigits.append (allDigits_zeros _)) hplain
      (by simp [AllDigits] : AllDigits ['0']) scales_nil (.inl (by simp))
    rw [← htext] at hreads
    refine ⟨_, _, hreads, ?_⟩
    have hnumber : numberOf (digits ++ List.replicate (k + 1 - digits.length) '0' ++ ['0']) =
        numberOf digits * 10 ^ (k + 1 - digits.length) * 10 := by
      have hzero : numberOf ['0'] = 0 := rfl
      rw [numberOf_append, hzero, numberOf_append, numberOf_zeros, List.length_replicate]
      simp
    have hexponent : power - ((digits.length : ℤ) - 1) = ((k + 1 - digits.length : Nat) : ℤ) := by
      omega
    rw [hnumber, Scientific.value]
    dsimp only
    rw [hexponent, zpow_natCast]
    push_cast
    simp
  · have hplain : isPlain (digits.take (k + 1)) = true := by
      rw [hcons]
      exact isPlain_of_head hd
    have hsome : digits.drop (k + 1) ≠ [] := by
      rw [ne_eq, List.drop_eq_nil_iff]
      exact hlength
    have htext : (String.ofList (digits.take (k + 1) ++
        List.replicate (k + 1 - digits.length) '0') ++
        if (digits.drop (k + 1)).isEmpty then ".0" else "." ++ String.ofList (digits.drop (k + 1))
        ).toList = digits.take (k + 1) ++ (pointed (digits.drop (k + 1)) ++ []) := by
      have hzeros : k + 1 - digits.length = 0 := by omega
      simp [pointed, hsome, hzeros]
    have hreads := reads_parts (fun c hc => hdigits c (List.mem_of_mem_take hc)) hplain
      (fun c hc => hdigits c (List.mem_of_mem_drop hc)) scales_nil (.inl hsome)
    rw [← htext] at hreads
    refine ⟨_, _, hreads, ?_⟩
    rw [List.take_append_drop, List.length_drop, Scientific.value]
    congr 2
    dsimp only
    omega

theorem scientific_reads :
    ReadsAs (String.ofList (digits.take 1) ++
      (if (digits.drop 1).isEmpty then "" else "." ++ String.ofList (digits.drop 1)) ++
        exponentText power) (Scientific.value ⟨digits, power⟩) := by
  obtain ⟨d, rest, rfl, hd⟩ := hhead
  obtain ⟨hfirst, hrest⟩ := List.forall_mem_cons.mp hdigits
  obtain ⟨more, htext, hunderscore, hread⟩ := parseExponent?_exponentText power
  have htail : Scales ('e' :: more) power := .inr ⟨more, rfl, hunderscore, hread⟩
  have hsplit : (String.ofList ((d :: rest).take 1) ++
      (if ((d :: rest).drop 1).isEmpty then "" else "." ++ String.ofList ((d :: rest).drop 1)) ++
        exponentText power).toList = [d] ++ (pointed rest ++ 'e' :: more) := by
    rw [String.toList_append, htext]
    unfold pointed
    split <;> simp_all
  have hwhole : AllDigits [d] := by simpa [AllDigits] using hfirst
  have hreads := reads_parts hwhole (isPlain_of_head hd) hrest htail (.inr (by simp))
  rw [← hsplit] at hreads
  refine ⟨_, _, hreads, ?_⟩
  rw [Scientific.value, List.singleton_append]
  simp

end

/-- The text of proper digits reads as their value. -/
theorem render_reads {s : Scientific} (hs : s.Proper) :
    ReadsAs (fullLayout.render s) s.value := by
  obtain ⟨digits, power⟩ := s
  obtain ⟨hdigits, hhead⟩ := hs
  have hne : digits ≠ [] := by
    obtain ⟨d, rest, rfl, -⟩ := hhead
    simp
  unfold Layout.render
  dsimp only
  split
  · unfold positional
    dsimp only
    split
    · exact small_reads hdigits (by omega) hne
    · exact large_reads hdigits hhead (by omega) (by omega)
  · exact scientific_reads hdigits hhead

/-- The text of a float without its sign reads as a decimal in its interval, or as zero. -/
theorem magnitude_reads {p : BinaryParts} (hp : p.Canonical) :
    ∃ c e, Reads (fullLayout.render
        (if p.significand = 0 then ⟨['0'], 0⟩ else p.shortest)).toList c e ∧
      ofDecimalParts p.negative c e = p.toFloat := by
  by_cases hzero : p.significand = 0
  · rw [if_pos hzero]
    have hreads := reads_parts (by simp [AllDigits]) (rfl : isPlain ['0'] = true)
      (by simp [AllDigits] : AllDigits ['0']) scales_nil (.inl (by simp))
    refine ⟨_, _, hreads, ?_⟩
    have hnumber : numberOf (['0'] ++ ['0']) = 0 := rfl
    have hexponent : p.exponent = -1074 := by
      rcases hp.full with hfull | hleast
      · omega
      · exact hleast
    rw [hnumber, ofDecimalParts, if_pos rfl, BinaryParts.toFloat, BinaryParts.magnitude, hzero,
      hexponent]
    rfl
  · rw [if_neg hzero]
    have hpos := Nat.pos_of_ne_zero hzero
    unfold BinaryParts.shortest
    dsimp only
    rcases hshortest : shortestFrom (scaleTwo p.significand p.exponent) p.interval 17
      (leadingPower (scaleTwo p.significand p.exponent)) with ⟨n, e⟩
    have hholds := hp.shortest_holds hpos hshortest
    have hn := hp.pos_of_holds hpos hholds
    obtain ⟨c, k, hreads, hvalue⟩ := render_reads (ofDecimal_proper hn e)
    refine ⟨c, k, hreads, ofDecimalParts_eq hp hpos ?_⟩
    rwa [hvalue, ofDecimal_value hn]

/-- A finite float is read back from its text. -/
theorem number?_fullText {x : Float} {p : BinaryParts} (h : classify x = .finite p) :
    number? (fullText x).toList = some (.float x) := by
  obtain ⟨hp, hx⟩ := finite_parts h
  obtain ⟨c, e, hreads, hfloat⟩ := magnitude_reads hp
  have htext : (fullText x).toList = signText p.negative ++ (fullLayout.render
      (if p.significand = 0 then ⟨['0'], 0⟩ else p.shortest)).toList := by
    unfold fullText Number.floatText
    rw [h]
    dsimp only
    rw [String.toList_append, signText]
    congr 1
    split <;> rfl
  rw [htext, hreads, hfloat, hx]

end RowGate.Json.Token
