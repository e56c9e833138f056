import RowGate.Proofs.Sql.Clashes
import RowGate.Proofs.Sql.Fragments
/-!
Raw texts inside a statement. Main statement: each raw text in the conditions of a statement, and of
the table expressions at all depths, stands in the text of the statement as it is written, with
parameters of its own.
-/
namespace RowGate.Sql

/-- The raw text of a test, if it is one. -/
def Test.rawText? : Test → Option RawText
  | .raw r => some r
  | _ => none

/-- The raw texts in conditions, in the order of the text. -/
def rawTexts (cs : List Criterion) : List RawText := (Joined.leavesOf cs).filterMap Test.rawText?

mutual

/-- The bodies of a statement and of its table expressions at all depths, each behind those inside
it. -/
def Select.bodies : Select → List Body
  | .mk tables body => bodiesOf tables ++ [body]

/-- The bodies of a table expression. -/
def CommonTable.bodies : CommonTable → List Body
  | .plain _ _ query => query.bodies
  | .recursive _ _ initial recursive _ => initial.bodies ++ recursive.bodies

/-- The bodies of table expressions. -/
def bodiesOf : List CommonTable → List Body
  | [] => []
  | t :: ts => t.bodies ++ bodiesOf ts

end

/-- The raw texts of bodies. -/
def rawTextsOf (bs : List Body) : List RawText := bs.flatMap fun b => rawTexts b.criteria

theorem rawTextsOf_append (bs cs : List Body) :
    rawTextsOf (bs ++ cs) = rawTextsOf bs ++ rawTextsOf cs := List.flatMap_append

/-- One text stands in another. -/
def StandsIn (s t : String) : Prop := s.toList <:+: t.toList

namespace StandsIn

variable {s t u : String}

theorem refl (s : String) : StandsIn s s := List.infix_refl _

theorem trans (h : StandsIn s t) (h' : StandsIn t u) : StandsIn s u := List.IsInfix.trans h h'

theorem front (h : StandsIn s t) (back : String) : StandsIn s (t ++ back) := by
  unfold StandsIn
  rw [String.toList_append]
  exact List.IsInfix.trans h (List.prefix_append _ _).isInfix

theorem back (h : StandsIn s t) (front : String) : StandsIn s (front ++ t) := by
  unfold StandsIn
  rw [String.toList_append]
  exact List.IsInfix.trans h (List.suffix_append _ _).isInfix

theorem grouped (h : StandsIn s t) (needed : Bool) : StandsIn s (Writing.grouped needed t) := by
  cases needed with
  | false => exact h
  | true => exact (h.back "(").front ")"

/-- Each of some texts stands in the text that they are joined to. -/
theorem join {ts : List String} (h : t ∈ ts) : StandsIn t (String.join ts) := by
  obtain ⟨before, after, rfl⟩ := List.append_of_mem h
  rw [String.join_append, String.join_cons]
  exact ((refl t).front _).back _

/-- Each of some texts stands in their list. -/
theorem intercalate {ts : List String} (h : t ∈ ts) (separator : String) :
    StandsIn t (String.intercalate separator ts) := by
  induction ts with
  | nil => cases h
  | cons u ts ih =>
    cases ts with
    | nil =>
      rw [List.mem_singleton.mp h]
      exact refl u
    | cons v ts =>
      rw [String.intercalate_cons_cons]
      rcases List.mem_cons.mp h with rfl | hrest
      · exact ((refl t).front _).front _
      · exact (ih hrest).back _

end StandsIn

/-- Progress that keeps the parameters and the listed texts before it. -/
structure Progress.Extends (p p' : Progress) : Prop where
  parameters : p.parameters <+: p'.parameters
  entries : p.entries <+: p'.entries

theorem Progress.Extends.refl (p : Progress) : p.Extends p := ⟨List.prefix_rfl, List.prefix_rfl⟩

/-- Raw texts that are written between two points, one after another, into some texts. -/
structure Embeds (rs : List RawText) (texts : List String) (p p' : Progress) : Prop where
  entries : p.entries <+: p'.entries
  written : ∃ ws added, List.Forall₂ RawText.IsWritten rs ws ∧
    (∀ w ∈ ws, ∃ t ∈ texts, StandsIn w.sql t) ∧ p'.parameters = p.parameters ++ added ∧
    (ws.flatMap (·.parameters)).Sublist added

section Embeds

variable {rs qs : List RawText} {texts us : List String} {p p' p'' : Progress}

theorem Progress.Extends.embeds (h : p.Extends p') (texts : List String) :
    Embeds [] texts p p' := by
  constructor
  · exact h.entries
  · obtain ⟨added, hadded⟩ := h.parameters
    exact ⟨[], added, .nil, List.forall_mem_nil _, hadded.symm, List.nil_sublist _⟩

theorem Embeds.append (h : Embeds rs texts p p') (h' : Embeds qs us p' p'') :
    Embeds (rs ++ qs) (texts ++ us) p p'' := by
  obtain ⟨ws, added, hws, hstand, hadded, hsub⟩ := h.written
  obtain ⟨xs, more, hxs, hstand', hmore, hsub'⟩ := h'.written
  constructor
  · exact h.entries.trans h'.entries
  · refine ⟨ws ++ xs, added ++ more, List.rel_append hws hxs, ?_, ?_, ?_⟩
    · rw [List.forall_mem_append]
      constructor
      · intro w hw
        obtain ⟨t, ht, hin⟩ := hstand w hw
        exact ⟨t, List.mem_append_left us ht, hin⟩
      · intro w hw
        obtain ⟨t, ht, hin⟩ := hstand' w hw
        exact ⟨t, List.mem_append_right texts ht, hin⟩
    · rw [hmore, hadded, List.append_assoc]
    · rw [List.flatMap_append]
      exact hsub.append hsub'

/-- Texts that stand in others stand there with the raw texts in them. -/
theorem Embeds.inside (h : Embeds rs texts p p') (hin : ∀ t ∈ texts, ∃ u ∈ us, StandsIn t u) :
    Embeds rs us p p' := by
  obtain ⟨ws, added, hws, hstand, hadded, hsub⟩ := h.written
  refine ⟨h.entries, ws, added, hws, ?_, hadded, hsub⟩
  intro w hw
  obtain ⟨t, ht, hwt⟩ := hstand w hw
  obtain ⟨u, hu, htu⟩ := hin t ht
  exact ⟨u, hu, hwt.trans htu⟩

theorem Embeds.behind (h : p.Extends p') (h' : Embeds rs texts p' p'') : Embeds rs texts p p'' := by
  have hboth := (h.embeds []).append h'
  exact hboth

theorem Embeds.before (h : Embeds rs texts p p') (h' : p'.Extends p'') : Embeds rs texts p p'' := by
  have hboth := h.append (h'.embeds [])
  rwa [List.append_nil, List.append_nil] at hboth

/-- Texts that stand in an entry, or among those before it, when it has been listed. -/
theorem Embeds.listing (h : Embeds rs texts p p') {entry : String}
    (hin : ∀ t ∈ texts, t ∈ p'.entries ∨ StandsIn t entry) :
    Embeds rs (p'.listing entry).entries p (p'.listing entry) := by
  have hextends : p'.Extends (p'.listing entry) := ⟨List.prefix_rfl, List.prefix_append _ _⟩
  apply (h.before hextends).inside
  intro t ht
  rcases hin t ht with hlisted | hstands
  · exact ⟨t, List.mem_append_left _ hlisted, .refl t⟩
  · exact ⟨entry, List.mem_append_right _ (List.mem_singleton_self entry), hstands⟩

end Embeds

namespace Writing

variable {α : Type} {ns : List Naming} {x : Writing α} {p p' : Progress} {text : String}

/-- Writing that meets and lists nothing keeps what is before it. -/
theorem extends_of_names {a : α} (hx : Names ns x) (haside : Aside x) (hmet : met ns = [])
    (h : x.run p = .ok (a, p')) : p.Extends p' := by
  have hgrows := (hx p (areNew_of_none hmet)).grows h
  constructor
  · exact hgrows.parameters
  · rw [(haside p a p' h).entries]

theorem embeds_raw {r : RawText} (h : (raw .bound r).run p = .ok (text, p')) :
    Embeds [r] [text] p p' := by
  have hextends := extends_of_names (names_raw r) (aside_raw .bound r) (plain_test (.raw r)).met h
  obtain ⟨added, hadded⟩ := hextends.parameters
  constructor
  · exact hextends.entries
  · refine ⟨[⟨text, added⟩], added, ?_, ?_, hadded.symm, ?_⟩
    · exact .cons ⟨p, p', h, hadded.symm⟩ .nil
    · exact List.forall_mem_singleton.mpr ⟨text, List.mem_singleton_self _, .refl text⟩
    · simp

theorem embeds_test {t : Test} (h : (test .bound t).run p = .ok (text, p')) :
    Embeds t.rawText?.toList [text] p p' := by
  have hextends := extends_of_names (names_test t) (aside_test .bound t) (plain_test t).met h
  cases t with
  | raw r => exact embeds_raw h
  | _ => exact hextends.embeds _

/-- The raw texts of a condition stand in its pieces. -/
theorem embeds_pieces {ps : List (Piece Test)} {texts : List String}
    (h : (ps.mapM (piece .bound)).run p = .ok (texts, p')) :
    Embeds ((predicatesOf ps).filterMap Test.rawText?) texts p p' := by
  induction ps generalizing texts p with
  | nil =>
    cases h
    exact (Progress.Extends.refl p').embeds []
  | cons q ps ih =>
    rw [List.mapM_cons] at h
    obtain ⟨first, p₁, hfirst, h⟩ := run_sequence_eq_ok.mp h
    obtain ⟨others, p₂, hothers, h⟩ := run_sequence_eq_ok.mp h
    cases h
    have hrest := ih hothers
    have hplain (hnone : (predicatesOf (q :: ps)) = predicatesOf ps) (hsame : p₁ = p) :
        Embeds ((predicatesOf (q :: ps)).filterMap Test.rawText?) (first :: others) p p' := by
      rw [hnone]
      subst hsame
      apply hrest.inside
      intro t ht
      exact ⟨t, List.mem_cons_of_mem _ ht, .refl t⟩
    cases q with
    | one t =>
      have hboth := (embeds_test hfirst).append hrest
      cases hraw : t.rawText? <;> rw [hraw] at hboth <;>
        simpa [predicatesOf, hraw] using hboth
    | join c =>
      apply hplain rfl
      cases c <;> (cases hfirst; rfl)
    | open_ | close =>
      apply hplain rfl
      cases hfirst
      rfl

theorem embeds_condition {opening : String} {cs : List Criterion}
    (h : (condition .bound opening cs).run p = .ok (text, p')) :
    Embeds (rawTexts cs) [text] p p' := by
  have hleaves := @Joined.predicatesOf_conjunctionPieces _ cs
  unfold Joined.conjunctionPieces at hleaves
  unfold condition at h
  unfold rawTexts
  cases hcs : Joined.conjunction cs with
  | none =>
    rw [hcs] at hleaves h
    cases h
    rw [← hleaves]
    exact (Progress.Extends.refl p).embeds _
  | some c =>
    rw [hcs] at hleaves h
    obtain ⟨joined, q, hjoined, h⟩ := run_sequence_eq_ok.mp h
    cases h
    obtain ⟨texts, q, htexts, h⟩ := run_sequence_eq_ok.mp hjoined
    cases h
    have hpieces := embeds_pieces htexts
    rw [← hleaves]
    apply hpieces.inside
    intro t ht
    exact ⟨_, List.mem_singleton_self _, (StandsIn.join ht).back opening⟩

/-- The raw texts in the conditions of a body stand in its text. -/
theorem embeds_body {b : Body} (h : (body .bound b).run p = .ok (text, p')) :
    Embeds (rawTexts b.criteria) [text] p p' := by
  unfold body at h
  obtain ⟨columns, p₁, hcolumns, h⟩ := run_sequence_eq_ok.mp h
  obtain ⟨from_, p₂, hsource, h⟩ := run_sequence_eq_ok.mp h
  obtain ⟨criteria, p₃, hcriteria, h⟩ := run_sequence_eq_ok.mp h
  obtain ⟨having, p₄, hhaving, h⟩ := run_sequence_eq_ok.mp h
  obtain ⟨limit, p₅, hlimit, h⟩ := run_sequence_eq_ok.mp h
  obtain ⟨offset, p₆, hoffset, h⟩ := run_sequence_eq_ok.mp h
  cases h
  have hfirst := extends_of_names (names_mapM names_projection b.projection)
    (aside_mapM (aside_projection .bound) _) (ArePlain.flatMap plain_projection _).met hcolumns
  obtain ⟨-, rfl⟩ := source_ok hsource
  have hembeds := embeds_condition hcriteria
  have hsecond := extends_of_names (names_condition _ _) (aside_condition .bound _ _)
    (plain_condition _).met hhaving
  have hthird := extends_of_names (names_count _ _) (aside_count .bound _ _) (plain_count _).met
    hlimit
  have hlast := extends_of_names (names_count _ _) (aside_count .bound _ _) (plain_count _).met
    hoffset
  apply (((hembeds.behind hfirst).before hsecond).before hthird).before hlast |>.inside
  intro t ht
  rw [List.mem_singleton.mp ht]
  refine ⟨_, List.mem_singleton_self _, ?_⟩
  have hstands := (StandsIn.refl criteria).back ("SELECT " ++ commas columns ++ " \nFROM " ++ from_)
  exact ((((((hstands.front _).front _).front _).front _).front _).front _)

end Writing

open Writing

mutual

theorem embeds_select : (s : Select) → ∀ p text p', AreNew s.namings p.known →
    (s.write .bound).run p = .ok (text, p') →
    Embeds (rawTextsOf s.bodies) (text :: p'.entries) p p'
  | .mk tables body => by
    intro p text p' hnew h
    simp only [Select.write] at h
    simp only [Select.namings] at hnew
    obtain ⟨_, q, htables, hbody⟩ := run_sequence_eq_ok.mp h
    have hboth := (embeds_tables tables p q hnew.first htables).append (embeds_body hbody)
    simp only [Select.bodies, rawTextsOf_append]
    have hsingle : rawTextsOf [body] = rawTexts body.criteria := List.append_nil _
    rw [hsingle]
    apply hboth.inside
    rw [List.forall_mem_append]
    constructor
    · intro t ht
      have hsame := (body_ok hbody).2.entries
      rw [hsame]
      exact ⟨t, List.mem_cons_of_mem _ ht, .refl t⟩
    · intro t ht
      rw [List.mem_singleton.mp ht]
      exact ⟨text, List.mem_cons_self, .refl text⟩

theorem embeds_tables : (ts : List CommonTable) → ∀ p p', AreNew (tableNamings ts) p.known →
    (writeTables .bound ts).run p = .ok ((), p') →
    Embeds (rawTextsOf (bodiesOf ts)) p'.entries p p'
  | [] => by
    intro p p' _ h
    simp only [writeTables] at h
    cases h
    exact (Progress.Extends.refl _).embeds _
  | t :: ts => by
    intro p p' hnew h
    simp only [writeTables] at h
    simp only [tableNamings] at hnew
    obtain ⟨_, q, hfirst, hrest⟩ := run_sequence_eq_ok.mp h
    have hnewRest := (names_commonTable t p hnew.first).rest hnew hfirst
    have hothers := embeds_tables ts q p' hnewRest hrest
    have hboth := (embeds_table t p q hnew.first hfirst).append hothers
    simp only [bodiesOf, rawTextsOf_append]
    apply hboth.inside
    intro u hu
    refine ⟨u, ?_, .refl u⟩
    rcases List.mem_append.mp hu with hfront | hback
    · exact hothers.entries.subset hfront
    · exact hback

theorem embeds_table : (t : CommonTable) → ∀ p p', AreNew t.namings p.known →
    (t.write .bound).run p = .ok ((), p') → Embeds (rawTextsOf t.bodies) p'.entries p p'
  | .plain id name query => by
    intro p p' hnew h
    simp only [CommonTable.write] at h
    simp only [CommonTable.namings] at hnew
    obtain ⟨hid, hinner⟩ := hnew.table
    obtain ⟨isNew, q, hmeet, h⟩ := run_sequence_eq_ok.mp h
    obtain ⟨rfl, -, rfl⟩ := meet_ok hmeet hid
    simp only [if_true] at h
    obtain ⟨text, q, hquery, h⟩ := run_sequence_eq_ok.mp h
    cases h
    have hmet : p.Extends { p with known := (name, id) :: p.known } :=
      ⟨List.prefix_rfl, List.prefix_rfl⟩
    have hembeds := (embeds_select query _ text q hinner hquery).behind hmet
    apply hembeds.listing
    intro t ht
    rcases List.mem_cons.mp ht with rfl | hlisted
    · exact .inr (((StandsIn.refl t).back _).front _)
    · exact .inl hlisted
  | .recursive id name initial recursive keepRepeats => by
    intro p p' hnew h
    simp only [CommonTable.write] at h
    simp only [CommonTable.namings] at hnew
    obtain ⟨hid, hinner⟩ := hnew.table
    obtain ⟨isNew, q, hmeet, h⟩ := run_sequence_eq_ok.mp h
    obtain ⟨rfl, -, rfl⟩ := meet_ok hmeet hid
    simp only [if_true] at h
    obtain ⟨_, q, hrecursion, h⟩ := run_sequence_eq_ok.mp h
    cases hrecursion
    obtain ⟨columns, q₁, hcolumns, h⟩ := run_sequence_eq_ok.mp h
    obtain ⟨first, q₂, hfirst, h⟩ := run_sequence_eq_ok.mp h
    obtain ⟨_, q₃, hmatching, h⟩ := run_sequence_eq_ok.mp h
    obtain ⟨next, q₄, hnext, h⟩ := run_sequence_eq_ok.mp h
    cases h
    have hmet : p.Extends { p with known := (name, id) :: p.known, hasRecursion := true } :=
      ⟨List.prefix_rfl, List.prefix_rfl⟩
    have hcolumnsNew := (names_columnList _ _ hinner.first).rest hinner hcolumns
    have hfirstNew := (names_write initial q₁ hcolumnsNew.first).rest hcolumnsNew hfirst
    have hhalvesNew : AreNew ([.halves _ _] ++ recursive.namings) q₂.known := hfirstNew
    have hnextNew := (names_matching _ _ q₂ hhalvesNew.first).rest hhalvesNew hmatching
    have hlabels := extends_of_names (names_columnList _) (aside_columnList _)
      (plain_labels _ _).met hcolumns
    have hhalves := extends_of_names (names_matching _ _) (aside_matching _ _) rfl hmatching
    have hfirsts := embeds_select initial q₁ first q₂ hcolumnsNew.first hfirst
    have hnexts := embeds_select recursive q₃ next q₄ hnextNew hnext
    have hboth := (((hfirsts.before hhalves).append hnexts).behind hlabels).behind hmet
    simp only [CommonTable.bodies, rawTextsOf_append]
    apply hboth.listing
    intro t ht
    rcases List.mem_append.mp ht with hfront | hback
    · rcases List.mem_cons.mp hfront with rfl | hlisted
      · right
        have hgrouped := (StandsIn.refl t).grouped initial.needsParentheses
        exact ((((hgrouped.front _).front _).back _).front _)
      · exact .inl (hnexts.entries.subset (hhalves.entries.subset hlisted))
    · rcases List.mem_cons.mp hback with rfl | hlisted
      · right
        have hgrouped := (StandsIn.refl t).grouped recursive.needsParentheses
        exact ((hgrouped.back _).back _).front _
      · exact .inl hlisted

end

/-- Each raw text of a statement stands in its text, with parameters of its own. -/
theorem written_embeds {s : Select} (hnumbers : (numbers (s.entries [])).Nodup) {w : Written}
    (h : s.written .bound = .ok w) :
    ∃ ws, List.Forall₂ RawText.IsWritten (rawTextsOf s.bodies) ws ∧
      (∀ x ∈ ws, StandsIn x.sql w.sql) ∧ (ws.flatMap (·.parameters)).Sublist w.parameters := by
  unfold Select.written at h
  obtain ⟨⟨text, p⟩, hwrite, hdone⟩ := sequence_eq_ok.mp h
  cases hdone
  have hembeds := embeds_select s _ text p (s.areNew_start hnumbers) hwrite
  obtain ⟨ws, added, hws, hstand, hadded, hsub⟩ := hembeds.written
  have hparameters : p.parameters = added := hadded
  refine ⟨ws, hws, ?_, ?_⟩
  · intro x hx
    obtain ⟨t, ht, hin⟩ := hstand x hx
    apply hin.trans
    rcases List.mem_cons.mp ht with rfl | hlisted
    · exact (StandsIn.refl t).back _
    · have hsome : p.entries.isEmpty = false := by simp [List.ne_nil_of_mem hlisted]
      dsimp only
      rw [hsome]
      exact (((StandsIn.intercalate hlisted _).back _).front _).front _
  · dsimp only
    rw [hparameters]
    exact hsub

end RowGate.Sql
