import RowGate.Json.Token
import RowGate.Json.Writer
import RowGate.Proofs.Json.Numbers
/-!
Lexemes of written texts. Main statement: names, numbers and quoted texts are read back as what they
were written for, whatever follows them.
-/
namespace RowGate.Json.Token

open Number

/-- The lexemes of characters that are read in a state of the machine. -/
def lexFrom (s : Mode × List Token) (cs : List Char) : Option (List Token) := do
  match ← cs.foldlM step s with
  | (.between, done) => some done.reverse
  | (.inAtom read, done) => do return (Token.atom (← atom? read.reverse) :: done).reverse
  | _ => none

theorem lexFrom_cons (s : Mode × List Token) (c : Char) (cs : List Char) :
    lexFrom s (c :: cs) = (step s c).bind fun t => lexFrom t cs := by
  unfold lexFrom
  rw [List.foldlM_cons]
  cases step s c <;> rfl

theorem lexFrom_step {s t : Mode × List Token} {c : Char} (h : step s c = some t) (cs : List Char) :
    lexFrom s (c :: cs) = lexFrom t cs := by
  rw [lexFrom_cons, h, Option.bind_some]

/-- What follows does not go on with a character of a name or number. -/
def EndsAtom (rest : List Char) : Prop := ∀ c cs, rest = c :: cs → isAtomChar c = false

/-- Characters are read as lexemes, whatever is around them. -/
def Lexes (cs : List Char) (ts : List Token) : Prop :=
  ∀ done rest, EndsAtom rest →
    lexFrom (.between, done) (cs ++ rest) = lexFrom (.between, ts.reverse ++ done) rest

/-! Names and numbers -/

theorem lexFrom_inAtom {cs : List Char} (h : ∀ c ∈ cs, isAtomChar c = true) (read : List Char)
    (done : List Token) (rest : List Char) :
    lexFrom (.inAtom read, done) (cs ++ rest) = lexFrom (.inAtom (cs.reverse ++ read), done) rest := by
  induction cs generalizing read with
  | nil => rfl
  | cons c cs ih =>
    obtain ⟨hc, hcs⟩ := List.forall_mem_cons.mp h
    have hstep : step (.inAtom read, done) c = some (.inAtom (c :: read), done) := by
      simp [step, hc]
    rw [List.cons_append, lexFrom_step hstep, ih hcs]
    simp

theorem lexFrom_endAtom {read : List Char} {v : Json} (h : atom? read.reverse = some v)
    (done : List Token) {rest : List Char} (hrest : EndsAtom rest) :
    lexFrom (.inAtom read, done) rest = lexFrom (.between, .atom v :: done) rest := by
  cases rest with
  | nil =>
    change (do return (Token.atom (← atom? read.reverse) :: done).reverse : Option (List Token)) = _
    rw [h]
    rfl
  | cons c cs =>
    have hc := hrest c cs rfl
    have hstep : step (.inAtom read, done) c = step (.between, .atom v :: done) c := by
      simp [step, hc, h]
    rw [lexFrom_cons, hstep, lexFrom_cons]

/-- A name or number is read as its value. -/
theorem lexes_atom {cs : List Char} {v : Json} (hne : cs ≠ []) (h : ∀ c ∈ cs, isAtomChar c = true)
    (hv : atom? cs = some v) : Lexes cs [.atom v] := by
  intro done rest hrest
  cases cs with
  | nil => exact absurd rfl hne
  | cons c cs =>
    obtain ⟨hc, hcs⟩ := List.forall_mem_cons.mp h
    have hstep : step (.between, done) c = some (.inAtom [c], done) := by
      have hspace : isSpace c = false := by
        rw [Bool.eq_false_iff]
        intro hspace
        rcases (by simpa [isSpace, or_assoc] using hspace) with rfl | rfl | rfl | rfl
        all_goals exact absurd hc (by decide)
      have hquote : c ≠ '\"' := by
        rintro rfl
        exact absurd hc (by decide)
      simp [step, stepBetween, hspace, hquote, hc]
    rw [List.cons_append, lexFrom_step hstep, lexFrom_inAtom hcs]
    exact lexFrom_endAtom (by simpa using hv) done hrest

theorem isAtomChar_of_numerals {cs : List Char} (h : Numerals cs) :
    ∀ c ∈ cs, isAtomChar c = true := by
  intro c hc
  rcases h c hc with h | rfl | rfl | rfl
  · simp [isAtomChar, h]
  · rfl
  · rfl
  · rfl

/-- No name is a number. -/
theorem atom?_of_number? {cs : List Char} {v : Json} (h : number? cs = some v) :
    atom? cs = some v := by
  have hname {name : String} (heq : String.ofList cs = name) : number? name.toList = some v := by
    rw [← heq, String.toList_ofList, h]
  unfold atom?
  split
  · rename_i heq
    cases hname heq
  · rename_i heq
    cases hname heq
  · rename_i heq
    cases hname heq
  · rename_i heq
    cases hname heq
  · rename_i heq
    cases hname heq
  · rename_i heq
    cases hname heq
  · exact h

theorem lexes_int {n : Int} (h : isWritten n = true) :
    Lexes (toString n).toList [.atom (.int n)] := by
  refine lexes_atom ?_ (isAtomChar_of_numerals (numerals_intText n))
    (atom?_of_number? (number?_intText h))
  intro hnil
  have hread := number?_intText h
  rw [hnil] at hread
  cases hread

theorem lexes_float (x : Float) : Lexes (floatText x).toList [.atom (.float x)] := by
  unfold floatText
  split
  · rename_i hclass
    rw [notANumber_eq hclass]
    exact lexes_atom (by decide) (isAtomChar_of_numerals (by decide)) rfl
  · rename_i negative hclass
    rw [infinite_eq hclass]
    split
    · rename_i hneg
      rw [hneg]
      exact lexes_atom (by decide) (isAtomChar_of_numerals (by decide)) rfl
    · rename_i hneg
      rw [Bool.eq_false_iff.mpr hneg]
      exact lexes_atom (by decide) (isAtomChar_of_numerals (by decide)) rfl
  · rename_i p hclass
    have hread := number?_fullText hclass
    refine lexes_atom ?_ (isAtomChar_of_numerals (numerals_fullText x))
      (atom?_of_number? hread)
    intro hnil
    rw [hnil] at hread
    cases hread

/-! Quoted texts -/

theorem hexValue?_hexDigit : ∀ d < 16, hexValue? (hexDigit d) = some d := by decide

/-- Four hexadecimal digits are read as a code unit. -/
theorem lexFrom_unit {n : Nat} (h : n < 0x10000) (p : Draft) (done : List Token)
    (rest : List Char) :
    lexFrom (.unit p 4 0, done) (hex 4 n ++ rest) = lexFrom (.inText (p.pushUnit n), done) rest := by
  have hmore {k v d : Nat} (hd : d < 16) : step (.unit p (k + 2) v, done) (hexDigit d) =
      some (.unit p (k + 1) (16 * v + d), done) := by
    simp [step, hexValue?_hexDigit d hd]
  have hlast {v d : Nat} (hd : d < 16) : step (.unit p 1 v, done) (hexDigit d) =
      some (.inText (p.pushUnit (16 * v + d)), done) := by
    simp [step, hexValue?_hexDigit d hd]
  have hdigits : hex 4 n ++ rest = hexDigit (n / 16 / 16 / 16 % 16) :: hexDigit (n / 16 / 16 % 16) ::
      hexDigit (n / 16 % 16) :: hexDigit (n % 16) :: rest := by
    simp [hex]
  have hmod (k : Nat) : k % 16 < 16 := Nat.mod_lt k (by decide)
  have hvalue : 16 * (16 * (16 * (16 * 0 + n / 16 / 16 / 16 % 16) + n / 16 / 16 % 16) +
      n / 16 % 16) + n % 16 = n := by
    omega
  rw [hdigits, lexFrom_step (hmore (hmod _)), lexFrom_step (hmore (hmod _)),
    lexFrom_step (hmore (hmod _)), lexFrom_step (hlast (hmod _)), hvalue]

/-- An escaped code unit is read. -/
theorem lexFrom_unitEscape {n : Nat} (h : n < 0x10000) (p : Draft) (done : List Token)
    (rest : List Char) :
    lexFrom (.inText p, done) (unitEscape n ++ rest) =
      lexFrom (.inText (p.pushUnit n), done) rest := by
  have hescape : step (.inText p, done) '\\' = some (.escape p, done) := rfl
  have hunit : step (.escape p, done) 'u' = some (.unit p 4 0, done) := rfl
  rw [unitEscape, List.cons_append, lexFrom_step hescape, List.cons_append, lexFrom_step hunit,
    lexFrom_unit h]

theorem lexFrom_short {c e : Char} (hu : e ≠ 'u') (h : shortEscape? e = some c)
    (chars : List Char) (done : List Token) (rest : List Char) :
    lexFrom (.inText ⟨chars, none⟩, done) (['\\', e] ++ rest) =
      lexFrom (.inText ⟨c :: chars, none⟩, done) rest := by
  have hescape : step (.inText ⟨chars, none⟩, done) '\\' = some (.escape ⟨chars, none⟩, done) := rfl
  have hshort : step (.escape ⟨chars, none⟩, done) e = some (.inText ⟨c :: chars, none⟩, done) := by
    simp [step, hu, h, Draft.push, Draft.flush]
  rw [List.cons_append, lexFrom_step hescape, List.cons_append, lexFrom_step hshort,
    List.nil_append]

/-- A character is read back from inside a quoted text. -/
theorem lexFrom_escape (chars : List Char) (done : List Token) (c : Char) (rest : List Char) :
    lexFrom (.inText ⟨chars, none⟩, done) (escape c ++ rest) =
      lexFrom (.inText ⟨c :: chars, none⟩, done) rest := by
  have hvalid : c.toNat < 0xd800 ∨ 0xdfff < c.toNat ∧ c.toNat < 0x110000 := c.valid
  have hchar : Char.ofNat c.toNat = c := Char.ofNat_toNat c
  unfold escape
  split
  case h_8 hquote hback _ _ _ _ _ =>
    dsimp only
    split
    · rename_i hplain
      have hstep : step (.inText ⟨chars, none⟩, done) c =
          some (.inText ⟨c :: chars, none⟩, done) := by
        have hlow : ¬c.toNat < 32 := by omega
        simp only [step]
        rw [if_neg hquote, if_neg hback, if_neg hlow]
        rfl
      exact lexFrom_step hstep rest
    split
    · rename_i hsmall
      have hpush : (⟨chars, none⟩ : Draft).pushUnit c.toNat = ⟨c :: chars, none⟩ := by
        rw [Draft.pushUnit, if_neg (by omega), if_neg (by omega), hchar]
        rfl
      rw [lexFrom_unitEscape hsmall, hpush]
    · -- the two halves of a surrogate pair
      rename_i hlarge
      have hhigh : 0xd800 + (c.toNat - 0x10000) / 0x400 < 0xdc00 := by omega
      have hlow : (c.toNat - 0x10000) % 0x400 < 0x400 := Nat.mod_lt _ (by decide)
      have hfirst : (⟨chars, none⟩ : Draft).pushUnit (0xd800 + (c.toNat - 0x10000) / 0x400) =
          ⟨chars, some (0xd800 + (c.toNat - 0x10000) / 0x400)⟩ := by
        rw [Draft.pushUnit, if_neg (by omega), if_pos (by omega)]
        rfl
      have hsecond : (⟨chars, some (0xd800 + (c.toNat - 0x10000) / 0x400)⟩ : Draft).pushUnit
          (0xdc00 + (c.toNat - 0x10000) % 0x400) = ⟨c :: chars, none⟩ := by
        have hpair : 0x10000 + (0xd800 + (c.toNat - 0x10000) / 0x400 - 0xd800) * 0x400 +
            (0xdc00 + (c.toNat - 0x10000) % 0x400 - 0xdc00) = c.toNat := by
          omega
        rw [Draft.pushUnit, if_pos (by omega)]
        dsimp only
        rw [hpair, hchar]
      rw [List.append_assoc, lexFrom_unitEscape (by omega), hfirst, lexFrom_unitEscape (by omega),
        hsecond]
  all_goals
    exact lexFrom_short (by decide) rfl chars done rest

theorem lexes_quote (s : String) : Lexes (Json.quote s).toList [.atom (.text s)] := by
  have hescapes (cs chars : List Char) (done : List Token) (rest : List Char) :
      lexFrom (.inText ⟨chars, none⟩, done) (cs.flatMap escape ++ rest) =
        lexFrom (.inText ⟨cs.reverse ++ chars, none⟩, done) rest := by
    induction cs generalizing chars with
    | nil => rfl
    | cons c cs ih =>
      rw [List.flatMap_cons, List.append_assoc, lexFrom_escape, ih]
      simp
  intro done rest hrest
  have hlist : (Json.quote s).toList ++ rest = '\"' :: (s.toList.flatMap escape ++ '\"' :: rest) := by
    simp [Json.quote]
  have hopen : step (.between, done) '\"' = some (.inText ⟨[], none⟩, done) := rfl
  have hclose : step (.inText ⟨s.toList.reverse ++ [], none⟩, done) '\"' =
      some (.between, .atom (.text s) :: done) := by
    simp [step, Draft.flush]
  rw [hlist, lexFrom_step hopen, hescapes, lexFrom_step hclose]
  rfl

/-! Marks and blanks -/

theorem lexes_mark {c : Char} {t : Token} (hspace : isSpace c = false) (hquote : c ≠ '\"')
    (hatom : isAtomChar c = false) (h : mark? c = some t) : Lexes [c] [t] := by
  intro done rest hrest
  have hstep : step (.between, done) c = some (.between, t :: done) := by
    simp [step, stepBetween, hspace, hquote, hatom, h]
  exact lexFrom_step hstep rest

end RowGate.Json.Token
