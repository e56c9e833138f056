import RowGate.Sql.Criterion
/-!
What joined conditions mean when they are read as text: parentheses first, then AND, then OR. Main
statements: a text has at most one reading, and the pieces of a joined condition read as the
condition itself.
-/
namespace RowGate

/-- Two truth values joined by a connective. -/
def Connective.apply (c : Connective) (x y : Bool) : Bool :=
  match c with
  | .and => x && y
  | .or => x || y

namespace Sql

/-- The truth values behind the first `n`. -/
def after (n : Nat) (t : Nat → Bool) : Nat → Bool := fun i => t (n + i)

@[simp] theorem after_zero (t : Nat → Bool) : after 0 t = t := by
  funext i
  simp only [after, Nat.zero_add]

theorem after_after (m n : Nat) (t : Nat → Bool) : after m (after n t) = after (n + m) t := by
  funext i
  simp only [after, Nat.add_assoc]

section Reading

/-- The parts of a condition, the tighter ones first. -/
inductive Part where
  | primary | conjunction | disjunction

/-- How a condition is read. A predicate stands for its truth value. -/
inductive Reads : Part → List (Piece Bool) → Bool → Prop
  | predicate (b : Bool) : Reads .primary [.one b] b
  | parentheses {ps b} : Reads .disjunction ps b → Reads .primary (.open_ :: ps ++ [.close]) b
  | oneFactor {ps b} : Reads .primary ps b → Reads .conjunction ps b
  | factor {ps qs b c} : Reads .conjunction ps b → Reads .primary qs c →
      Reads .conjunction (ps ++ .join .and :: qs) (b && c)
  | oneTerm {ps b} : Reads .conjunction ps b → Reads .disjunction ps b
  | term {ps qs b c} : Reads .disjunction ps b → Reads .conjunction qs c →
      Reads .disjunction (ps ++ .join .or :: qs) (b || c)

/-- The reading of a condition that may be absent. -/
def ReadsAs (ps : List (Piece Bool)) (b : Bool) : Prop :=
  ps = [] ∧ b = true ∨ Reads .disjunction ps b

/-- An open parenthesis: the alternatives that are complete, and the factors of the last one. -/
structure Level where
  sum : Bool
  product : Bool

/-- A parenthesis that has just been opened. -/
def Level.fresh : Level := ⟨false, true⟩

/-- The truth value of what stands in a parenthesis. -/
def Level.value (l : Level) : Bool := l.sum || l.product

/-- One piece read by a machine, the innermost parenthesis first. -/
def Level.read : List Level → Piece Bool → List Level
  | l :: ls, .one b => { l with product := l.product && b } :: ls
  | ls, .join .and => ls
  | l :: ls, .join .or => ⟨l.value, true⟩ :: ls
  | ls, .open_ => .fresh :: ls
  | l :: m :: ls, .close => { m with product := m.product && l.value } :: ls
  | ls, _ => ls

/-- What the machine makes of a part, whatever stands before it. -/
def Part.Adds (part : Part) (ps : List (Piece Bool)) (b : Bool) : Prop :=
  match part with
  | .primary | .conjunction => ∀ l ls,
    ps.foldl Level.read (l :: ls) = { l with product := l.product && b } :: ls
  | .disjunction => ∀ ls, ∃ l, ps.foldl Level.read (.fresh :: ls) = l :: ls ∧ l.value = b

theorem Reads.adds {part : Part} {ps : List (Piece Bool)} {b : Bool} (h : Reads part ps b) :
    part.Adds ps b := by
  induction h with
  | predicate b =>
    intro l ls
    rfl
  | parentheses _ ih =>
    intro m ls
    obtain ⟨l, hl, rfl⟩ := ih (m :: ls)
    simp only [List.cons_append, List.foldl_cons, List.foldl_append, List.foldl_nil, Level.read, hl]
  | oneFactor _ ih => exact ih
  | factor _ _ ihps ihqs =>
    intro l ls
    have hps := ihps l ls
    have hqs (m : Level) := ihqs m ls
    simp only [List.foldl_append, List.foldl_cons, hps, Level.read, hqs, Bool.and_assoc]
  | oneTerm _ ih =>
    intro ls
    refine ⟨_, ih .fresh ls, ?_⟩
    simp only [Level.value, Level.fresh, Bool.false_or, Bool.true_and]
  | @term _ _ _ c _ _ ihps ihqs =>
    intro ls
    obtain ⟨l, hl, rfl⟩ := ihps ls
    have hqs := ihqs ⟨l.value, true⟩ ls
    refine ⟨⟨l.value, true && c⟩, ?_, ?_⟩
    · simp only [List.foldl_append, List.foldl_cons, hl, Level.read]
      exact hqs
    · simp only [Level.value, Bool.true_and]

/-- A text has no two readings. -/
theorem Reads.unique {ps : List (Piece Bool)} {b c : Bool} (hb : Reads .disjunction ps b)
    (hc : Reads .disjunction ps c) : b = c := by
  obtain ⟨l, hl, rfl⟩ := hb.adds []
  obtain ⟨m, hm, rfl⟩ := hc.adds []
  have hsame : l :: [] = m :: [] := hl.symm.trans hm
  cases hsame
  rfl

theorem Reads.ne_nil {part : Part} {ps : List (Piece Bool)} {b : Bool} (h : Reads part ps b) :
    ps ≠ [] := by
  induction h with
  | predicate | parentheses => simp
  | oneFactor _ ih | oneTerm _ ih => exact ih
  | factor | term => simp

/-- A conjunction may go on with another one. -/
theorem Reads.factors {ps qs : List (Piece Bool)} {b c : Bool} (hps : Reads .conjunction ps b)
    (hqs : Reads .conjunction qs c) : Reads .conjunction (ps ++ .join .and :: qs) (b && c) := by
  generalize hpart : Part.conjunction = part at hqs
  induction hqs with
  | predicate | parentheses | oneTerm | term => cases hpart
  | oneFactor h => exact .factor hps h
  | factor _ hlast ih =>
    have hall := (ih rfl).factor hlast
    simpa only [List.append_assoc, List.cons_append, Bool.and_assoc] using hall

/-- A disjunction may go on with another one. -/
theorem Reads.terms {ps qs : List (Piece Bool)} {b c : Bool} (hps : Reads .disjunction ps b)
    (hqs : Reads .disjunction qs c) : Reads .disjunction (ps ++ .join .or :: qs) (b || c) := by
  generalize hpart : Part.disjunction = part at hqs
  induction hqs with
  | predicate | parentheses | oneFactor | factor => cases hpart
  | oneTerm h => exact .term hps h
  | term _ hlast ih =>
    have hall := (ih rfl).term hlast
    simpa only [List.append_assoc, List.cons_append, Bool.or_assoc] using hall

end Reading

section Predicates

variable {α : Type}

/-- The predicates in pieces of a condition. -/
def predicatesOf : List (Piece α) → List α
  | [] => []
  | .one a :: ps => a :: predicatesOf ps
  | _ :: ps => predicatesOf ps

/-- Pieces whose predicates have been given truth values in order. -/
def assign (t : Nat → Bool) : List (Piece α) → List (Piece Bool)
  | [] => []
  | .one _ :: ps => .one (t 0) :: assign (after 1 t) ps
  | .join c :: ps => .join c :: assign t ps
  | .open_ :: ps => .open_ :: assign t ps
  | .close :: ps => .close :: assign t ps

theorem predicatesOf_append (ps qs : List (Piece α)) :
    predicatesOf (ps ++ qs) = predicatesOf ps ++ predicatesOf qs := by
  induction ps with
  | nil => rfl
  | cons p ps ih => cases p <;> simp only [List.cons_append, predicatesOf, ih]

theorem assign_append (t : Nat → Bool) (ps qs : List (Piece α)) :
    assign t (ps ++ qs) = assign t ps ++ assign (after (predicatesOf ps).length t) qs := by
  induction ps generalizing t with
  | nil => simp only [List.nil_append, predicatesOf, List.length_nil, after_zero, assign]
  | cons p ps ih =>
    cases p with
    | one a =>
      simp only [List.cons_append, assign, predicatesOf, List.length_cons, ih, after_after,
        Nat.add_comm 1]
    | join c => simp only [List.cons_append, assign, predicatesOf, ih]
    | open_ => simp only [List.cons_append, assign, predicatesOf, ih]
    | close => simp only [List.cons_append, assign, predicatesOf, ih]

namespace Joined

mutual

/-- The predicates of a joined condition, in order. -/
def leaves : Joined α → List α
  | .one a => [a]
  | .all parts => leavesOf parts
  | .any parts => leavesOf parts

/-- The predicates of joined conditions. -/
def leavesOf : List (Joined α) → List α
  | [] => []
  | j :: js => j.leaves ++ leavesOf js

end

mutual

/-- Whether a joined condition holds where its predicates have the given truth values. -/
def holds (t : Nat → Bool) : Joined α → Bool
  | .one _ => t 0
  | .all parts => allHold t parts
  | .any parts => anyHolds t parts

/-- Whether all of some joined conditions hold. -/
def allHold (t : Nat → Bool) : List (Joined α) → Bool
  | [] => true
  | j :: js => j.holds t && allHold (after j.leaves.length t) js

/-- Whether one of some joined conditions holds. -/
def anyHolds (t : Nat → Bool) : List (Joined α) → Bool
  | [] => false
  | j :: js => j.holds t || anyHolds (after j.leaves.length t) js

end

mutual

/-- Nothing is joined of no parts. -/
def Proper : Joined α → Prop
  | .one _ => True
  | .all parts => parts ≠ [] ∧ AllProper parts
  | .any parts => parts ≠ [] ∧ AllProper parts

/-- None of some joined conditions is joined of no parts. -/
def AllProper : List (Joined α) → Prop
  | [] => True
  | j :: js => j.Proper ∧ AllProper js

end

theorem leavesOf_append (js ks : List (Joined α)) :
    leavesOf (js ++ ks) = leavesOf js ++ leavesOf ks := by
  induction js with
  | nil => rfl
  | cons j js ih => simp only [List.cons_append, leavesOf, ih, List.append_assoc]

theorem allHold_append (t : Nat → Bool) (js ks : List (Joined α)) :
    allHold t (js ++ ks) = (allHold t js && allHold (after (leavesOf js).length t) ks) := by
  induction js generalizing t with
  | nil => simp only [List.nil_append, leavesOf, List.length_nil, after_zero, allHold, Bool.true_and]
  | cons j js ih =>
    simp only [List.cons_append, allHold, leavesOf, List.length_append, ih, after_after,
      Bool.and_assoc]

theorem anyHolds_append (t : Nat → Bool) (js ks : List (Joined α)) :
    anyHolds t (js ++ ks) = (anyHolds t js || anyHolds (after (leavesOf js).length t) ks) := by
  induction js generalizing t with
  | nil =>
    simp only [List.nil_append, leavesOf, List.length_nil, after_zero, anyHolds, Bool.false_or]
  | cons j js ih =>
    simp only [List.cons_append, anyHolds, leavesOf, List.length_append, ih, after_after,
      Bool.or_assoc]

theorem allProper_append {js ks : List (Joined α)} :
    AllProper (js ++ ks) ↔ AllProper js ∧ AllProper ks := by
  induction js with
  | nil => simp only [List.nil_append, AllProper, true_and]
  | cons j js ih => simp only [List.cons_append, AllProper, ih, and_assoc]

mutual

/-- A proper condition has predicates. -/
theorem leaves_ne_nil : (j : Joined α) → j.Proper → j.leaves ≠ []
  | .one _, _ => List.cons_ne_nil _ _
  | .all parts, h => leavesOf_ne_nil parts h.1 h.2
  | .any parts, h => leavesOf_ne_nil parts h.1 h.2

theorem leavesOf_ne_nil : (js : List (Joined α)) → js ≠ [] → AllProper js → leavesOf js ≠ []
  | [], hne, _ => absurd rfl hne
  | j :: _, _, h => List.append_ne_nil_of_left_ne_nil (j.leaves_ne_nil h.1) _

end

mutual

theorem predicatesOf_pieces : (j : Joined α) → predicatesOf j.pieces = j.leaves
  | .one _ => rfl
  | .all parts => predicatesOf_conjunctPieces true parts
  | .any parts => predicatesOf_disjunctPieces true parts

theorem predicatesOf_conjunctPieces (first : Bool) :
    (js : List (Joined α)) → predicatesOf (conjunctPieces first js) = leavesOf js
  | [] => rfl
  | j :: js => by
    have hj := predicatesOf_pieces j
    have hjs := predicatesOf_conjunctPieces false js
    have hopening : predicatesOf (if first then [] else [.join .and] : List (Piece α)) = [] := by
      cases first <;> rfl
    have hpart : predicatesOf (if j.isLoose then [.open_] ++ j.pieces ++ [.close] else j.pieces) =
        j.leaves := by
      cases j.isLoose <;> simp [predicatesOf_append, predicatesOf, hj]
    simp only [conjunctPieces, predicatesOf_append, hopening, hpart, hjs, leavesOf,
      List.nil_append]

theorem predicatesOf_disjunctPieces (first : Bool) :
    (js : List (Joined α)) → predicatesOf (disjunctPieces first js) = leavesOf js
  | [] => rfl
  | j :: js => by
    have hj := predicatesOf_pieces j
    have hjs := predicatesOf_disjunctPieces false js
    have hopening : predicatesOf (if first then [] else [.join .or] : List (Piece α)) = [] := by
      cases first <;> rfl
    simp only [disjunctPieces, predicatesOf_append, hopening, hj, hjs, leavesOf, List.nil_append]

end

/-- A part of a conjunction as pieces. -/
def factorPieces (j : Joined α) : List (Piece α) :=
  if j.isLoose then [.open_] ++ j.pieces ++ [.close] else j.pieces

theorem predicatesOf_factorPieces (j : Joined α) : predicatesOf j.factorPieces = j.leaves := by
  have hj := predicatesOf_pieces j
  unfold factorPieces
  cases j.isLoose <;> simp [predicatesOf_append, predicatesOf, hj]

/-- A condition reads as itself; what is no disjunction also reads as a conjunction. -/
structure Readable (t : Nat → Bool) (j : Joined α) : Prop where
  disjunction : Reads .disjunction (assign t j.pieces) (j.holds t)
  conjunction : j.isLoose = false → Reads .conjunction (assign t j.pieces) (j.holds t)

/-- Parentheses make a disjunction a part of a conjunction. -/
theorem Readable.factor {t : Nat → Bool} {j : Joined α} (h : j.Readable t) :
    Reads .conjunction (assign t j.factorPieces) (j.holds t) := by
  unfold factorPieces
  cases hloose : j.isLoose with
  | false => exact h.conjunction hloose
  | true =>
    have hopened : assign t ([.open_] ++ j.pieces ++ [.close]) =
        .open_ :: assign t j.pieces ++ [.close] := by
      simp only [List.cons_append, List.nil_append, assign, assign_append]
    rw [if_pos rfl, hopened]
    exact .oneFactor (.parentheses h.disjunction)

mutual

theorem readable (t : Nat → Bool) : (j : Joined α) → j.Proper → j.Readable t
  | .one a, _ => by
    have hone : Reads .conjunction (assign t (Joined.one a).pieces) ((Joined.one a).holds t) :=
      .oneFactor (.predicate (t 0))
    exact ⟨.oneTerm hone, fun _ => hone⟩
  | .all [], h => absurd rfl h.1
  | .all (j :: js), h => by
    obtain ⟨-, hj, hjs⟩ := h
    have hall : Reads .conjunction (assign t (Joined.all (j :: js)).pieces)
        ((Joined.all (j :: js)).holds t) := by
      have hrest := reads_conjunctPieces (after j.leaves.length t) js hjs (readable t j hj).factor
      have hpieces : assign t (Joined.all (j :: js)).pieces = assign t j.factorPieces ++
          assign (after j.leaves.length t) (conjunctPieces false js) := by
        rw [← predicatesOf_factorPieces j, ← assign_append]
        rfl
      rw [hpieces]
      exact hrest
    exact ⟨.oneTerm hall, fun _ => hall⟩
  | .any [], h => absurd rfl h.1
  | .any (j :: js), h => by
    obtain ⟨-, hj, hjs⟩ := h
    have hrest := reads_disjunctPieces (after j.leaves.length t) js hjs (readable t j hj).disjunction
    have hpieces : assign t (Joined.any (j :: js)).pieces = assign t j.pieces ++
        assign (after j.leaves.length t) (disjunctPieces false js) := by
      rw [← predicatesOf_pieces j, ← assign_append]
      rfl
    refine ⟨?_, nofun⟩
    rw [hpieces]
    exact hrest

/-- Further parts of a conjunction, whatever the parts before them are. -/
theorem reads_conjunctPieces (t : Nat → Bool) {ps : List (Piece Bool)} {b : Bool} :
    (js : List (Joined α)) → AllProper js → Reads .conjunction ps b →
      Reads .conjunction (ps ++ assign t (conjunctPieces false js)) (b && allHold t js)
  | [], _, h => by
    simpa only [conjunctPieces, assign, List.append_nil, allHold, Bool.and_true] using h
  | j :: js, hproper, h => by
    obtain ⟨hj, hjs⟩ := hproper
    have hfirst := h.factors (readable t j hj).factor
    have hrest := reads_conjunctPieces (after j.leaves.length t) js hjs hfirst
    have hpieces : assign t (conjunctPieces false (j :: js)) = .join .and :: (assign t j.factorPieces ++
        assign (after j.leaves.length t) (conjunctPieces false js)) := by
      rw [← predicatesOf_factorPieces j, ← assign_append]
      rfl
    rw [hpieces]
    simpa only [List.append_assoc, List.cons_append, allHold, Bool.and_assoc] using hrest

/-- Further parts of a disjunction, whatever the parts before them are. -/
theorem reads_disjunctPieces (t : Nat → Bool) {ps : List (Piece Bool)} {b : Bool} :
    (js : List (Joined α)) → AllProper js → Reads .disjunction ps b →
      Reads .disjunction (ps ++ assign t (disjunctPieces false js)) (b || anyHolds t js)
  | [], _, h => by
    simpa only [disjunctPieces, assign, List.append_nil, anyHolds, Bool.or_false] using h
  | j :: js, hproper, h => by
    obtain ⟨hj, hjs⟩ := hproper
    have hfirst := h.terms (readable t j hj).disjunction
    have hrest := reads_disjunctPieces (after j.leaves.length t) js hjs hfirst
    have hpieces : assign t (disjunctPieces false (j :: js)) = .join .or :: (assign t j.pieces ++
        assign (after j.leaves.length t) (disjunctPieces false js)) := by
      rw [← predicatesOf_pieces j, ← assign_append]
      rfl
    rw [hpieces]
    simpa only [List.append_assoc, List.cons_append, anyHolds, Bool.or_assoc] using hrest

end

section Joining

variable (t : Nat → Bool) (a b : Joined α)

theorem leavesOf_conjuncts : leavesOf a.conjuncts = a.leaves := by
  cases a <;> simp only [conjuncts, leavesOf, leaves, List.append_nil]

theorem leavesOf_disjuncts : leavesOf a.disjuncts = a.leaves := by
  cases a <;> simp only [disjuncts, leavesOf, leaves, List.append_nil]

theorem allHold_conjuncts : allHold t a.conjuncts = a.holds t := by
  cases a <;> simp only [conjuncts, allHold, holds, Bool.and_true]

theorem anyHolds_disjuncts : anyHolds t a.disjuncts = a.holds t := by
  cases a <;> simp only [disjuncts, anyHolds, holds, Bool.or_false]

variable {a b}

theorem Proper.conjuncts (h : a.Proper) : a.conjuncts ≠ [] ∧ AllProper a.conjuncts := by
  cases a with
  | one x => exact ⟨nofun, h, trivial⟩
  | all parts => exact h
  | any parts => exact ⟨nofun, h, trivial⟩

theorem Proper.disjuncts (h : a.Proper) : a.disjuncts ≠ [] ∧ AllProper a.disjuncts := by
  cases a with
  | one x => exact ⟨nofun, h, trivial⟩
  | all parts => exact ⟨nofun, h, trivial⟩
  | any parts => exact h

theorem Proper.join (c : Connective) (ha : a.Proper) (hb : b.Proper) : (join c a b).Proper := by
  cases c with
  | and => exact ⟨by simp [ha.conjuncts.1], allProper_append.mpr ⟨ha.conjuncts.2, hb.conjuncts.2⟩⟩
  | or => exact ⟨by simp [ha.disjuncts.1], allProper_append.mpr ⟨ha.disjuncts.2, hb.disjuncts.2⟩⟩

variable (a b)

theorem leaves_join (c : Connective) : (join c a b).leaves = a.leaves ++ b.leaves := by
  cases c with
  | and => simp only [join, Joined.and, leaves, leavesOf_append, leavesOf_conjuncts]
  | or => simp only [join, Joined.or, leaves, leavesOf_append, leavesOf_disjuncts]

theorem holds_join (c : Connective) :
    (join c a b).holds t = c.apply (a.holds t) (b.holds (after a.leaves.length t)) := by
  cases c with
  | and =>
    simp only [join, Joined.and, holds, allHold_append, allHold_conjuncts, leavesOf_conjuncts,
      Connective.apply]
  | or =>
    simp only [join, Joined.or, holds, anyHolds_append, anyHolds_disjuncts, leavesOf_disjuncts,
      Connective.apply]

end Joining

section Conjunctions

variable {js : List (Joined α)}

theorem allProper_flatMap (h : AllProper js) : AllProper (js.flatMap conjuncts) := by
  induction js with
  | nil => exact h
  | cons j js ih =>
    rw [List.flatMap_cons]
    exact allProper_append.mpr ⟨h.1.conjuncts.2, ih h.2⟩

theorem leavesOf_flatMap : leavesOf (js.flatMap conjuncts) = leavesOf js := by
  induction js with
  | nil => rfl
  | cons j js ih => simp only [List.flatMap_cons, leavesOf_append, leavesOf_conjuncts, ih, leavesOf]

theorem allHold_flatMap (t : Nat → Bool) : allHold t (js.flatMap conjuncts) = allHold t js := by
  induction js generalizing t with
  | nil => rfl
  | cons j js ih =>
    simp only [List.flatMap_cons, allHold_append, allHold_conjuncts, leavesOf_conjuncts, ih, allHold]

theorem proper_conjunction {j : Joined α} (h : AllProper js) (hj : conjunction js = some j) :
    j.Proper := by
  match js with
  | [_] =>
    obtain rfl := Option.some.inj hj
    exact h.1
  | i :: k :: js =>
    obtain rfl := Option.some.inj hj
    have hnonempty : (i :: k :: js).flatMap conjuncts ≠ [] := by simp [h.1.conjuncts.1]
    exact ⟨hnonempty, allProper_flatMap h⟩

/-- A conjunction of conditions as pieces; there are none without conditions. -/
def conjunctionPieces (js : List (Joined α)) : List (Piece α) :=
  ((conjunction js).map pieces).getD []

theorem predicatesOf_conjunctionPieces : predicatesOf (conjunctionPieces js) = leavesOf js := by
  match js with
  | [] => rfl
  | [j] =>
    rw [leavesOf, leavesOf, List.append_nil]
    exact predicatesOf_pieces j
  | j :: k :: js => exact (predicatesOf_pieces (.all _)).trans leavesOf_flatMap

/-- A proper condition has something to be written. -/
theorem pieces_ne_nil {j : Joined α} (h : j.Proper) : j.pieces ≠ [] := by
  have hread := (readable (fun _ => true) j h).disjunction.ne_nil
  intro hnil
  rw [hnil] at hread
  exact hread rfl

theorem conjunctionPieces_eq_nil (h : AllProper js) : conjunctionPieces js = [] ↔ js = [] := by
  unfold conjunctionPieces
  cases hjs : conjunction js with
  | none =>
    match js with
    | [] => exact iff_of_true rfl rfl
    | [_] | _ :: _ :: _ => cases hjs
  | some j =>
    have hne : js ≠ [] := by
      rintro rfl
      cases hjs
    exact iff_of_false (pieces_ne_nil (proper_conjunction h hjs)) hne

end Conjunctions
end Joined
end Predicates
end Sql
end RowGate
