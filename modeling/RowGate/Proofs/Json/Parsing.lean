import RowGate.Proofs.Json.Interchange
import RowGate.Proofs.Number.Lengths
/-!
What texts of the interchange format are read as. Main statement: whatever a text is read as is read
back from its own text, since integers are not too long and no object has a key twice.
-/
namespace RowGate

namespace Json

/-- What every step of a machine keeps holds after all steps. -/
theorem foldlM_keeps {σ τ : Type} {next : σ → τ → Option σ} {P : σ → Prop} {ts : List τ}
    (hnext : ∀ t ∈ ts, ∀ s s', P s → next s t = some s' → P s') {s s' : σ} (hs : P s)
    (h : ts.foldlM next s = some s') : P s' := by
  induction ts generalizing s with
  | nil => exact Option.some.inj h ▸ hs
  | cons t ts ih =>
    obtain ⟨ht, hts⟩ := List.forall_mem_cons.mp hnext
    rw [List.foldlM_cons] at h
    obtain ⟨s₁, hstep, hrest⟩ := Option.bind_eq_some_iff.mp h
    exact ih hts (ht s s₁ hs hstep) hrest

/-! ## Lexemes -/

namespace Token

theorem isReadable_unsigned? {negative : Bool} {whole rest : List Char} {j : Json}
    (hwhole : Number.AllDigits whole) (h : unsigned? negative whole rest = some j) :
    j.isReadable = true := by
  unfold unsigned? at h
  dsimp only at h
  split at h
  · cases h
  rename_i hplain
  split at h
  · split at h
    · cases h
    · rename_i hlength
      obtain rfl := Option.some.inj h
      have hne : whole ≠ [] := by
        rintro rfl
        exact hplain rfl
      have hbound := Number.ofDigits_lt (Number.digitGroups_lt (Number.digitGroups_eq hne hwhole))
      rw [List.length_map] at hbound
      have habs {n : Nat} : (if negative then -(n : Int) else n).natAbs = n := by
        split <;> simp
      refine Number.isWritten_of_lt ?_
      rw [habs]
      exact hbound.trans_le (Nat.pow_le_pow_right (by decide) (Nat.le_of_not_lt hlength))
  · split at h
    · cases h
    · obtain ⟨exponent, -, hj⟩ := Option.bind_eq_some_iff.mp h
      rw [← Option.some.inj hj]
      rfl

theorem isReadable_number? {cs : List Char} {j : Json} (h : number? cs = some j) :
    j.isReadable = true := by
  have hdigits (body : List Char) : Number.AllDigits (body.takeWhile Char.isDigit) :=
    fun _ hc => List.mem_takeWhile_imp hc
  unfold number? at h
  split at h <;> exact isReadable_unsigned? (hdigits _) h

theorem isReadable_atom? {cs : List Char} {j : Json} (h : atom? cs = some j) :
    j.isReadable = true := by
  unfold atom? at h
  split at h
  all_goals first
    | exact isReadable_number? h
    | rw [← Option.some.inj h]; rfl

/-- The values among lexemes are read back from their texts. -/
def AtomsReadable (ts : List Token) : Prop := ∀ j, atom j ∈ ts → j.isReadable = true

theorem AtomsReadable.cons {t : Token} {ts : List Token} (h : AtomsReadable ts)
    (ht : ∀ j, t = atom j → j.isReadable = true) : AtomsReadable (t :: ts) := by
  intro j hj
  rcases List.mem_cons.mp hj with hj | hj
  · exact ht j hj.symm
  · exact h j hj

theorem AtomsReadable.between {done : List Token} (h : AtomsReadable done) {c : Char}
    {s : Mode × List Token} (hs : stepBetween done c = some s) : AtomsReadable s.2 := by
  unfold stepBetween at hs
  split at hs
  · exact Option.some.inj hs ▸ h
  split at hs
  · exact Option.some.inj hs ▸ h
  split at hs
  · exact Option.some.inj hs ▸ h
  · obtain ⟨t, ht, rfl⟩ := Option.map_eq_some_iff.mp hs
    refine h.cons fun j hj => ?_
    rw [hj] at ht
    unfold mark? at ht
    split at ht <;> cases ht

theorem AtomsReadable.step {s : Mode × List Token} {c : Char} {s' : Mode × List Token}
    (h : AtomsReadable s.2) (hs : step s c = some s') : AtomsReadable s'.2 := by
  unfold Token.step at hs
  split at hs
  · exact h.between hs
  · split at hs
    · rw [← Option.some.inj hs]
      exact h.cons fun j hj => by cases hj; rfl
    split at hs
    · exact Option.some.inj hs ▸ h
    split at hs
    · cases hs
    · exact Option.some.inj hs ▸ h
  · split at hs
    · exact Option.some.inj hs ▸ h
    · obtain ⟨e, -, rfl⟩ := Option.map_eq_some_iff.mp hs
      exact h
  · obtain ⟨d, -, hs⟩ := Option.bind_eq_some_iff.mp hs
    dsimp only at hs
    split at hs <;> exact Option.some.inj hs ▸ h
  · split at hs
    · exact Option.some.inj hs ▸ h
    · obtain ⟨j, hj, hs⟩ := Option.bind_eq_some_iff.mp hs
      refine AtomsReadable.between ?_ hs
      exact h.cons fun k hk => by cases hk; exact isReadable_atom? hj

/-- The values among the lexemes of a text are read back from their own texts. -/
theorem atomsReadable_lex? {cs : List Char} {ts : List Token} (h : lex? cs = some ts) :
    AtomsReadable ts := by
  have hreverse {ts : List Token} (h : AtomsReadable ts) : AtomsReadable ts.reverse :=
    fun j hj => h j (List.mem_reverse.mp hj)
  obtain ⟨s, hs, hend⟩ := Option.bind_eq_some_iff.mp h
  have hdone : AtomsReadable s.2 :=
    foldlM_keeps (P := fun s => AtomsReadable s.2) (fun _ _ _ _ h hs => h.step hs)
      (fun _ hj => by cases hj) hs
  split at hend
  · exact Option.some.inj hend ▸ hreverse hdone
  · obtain ⟨j, hj, hts⟩ := Option.bind_eq_some_iff.mp hend
    rw [← Option.some.inj hts]
    exact hreverse (hdone.cons fun k hk => by cases hk; exact isReadable_atom? hj)
  · cases hend

end Token

/-! ## Values -/

theorem mem_putField {fields : List (String × Json)} {key : String} {v : Json} {f : String × Json}
    (h : f ∈ putField fields key v) : f = (key, v) ∨ f ∈ fields := by
  induction fields with
  | nil => exact .inl (List.mem_singleton.mp h)
  | cons g fields ih =>
    obtain ⟨k, w⟩ := g
    rw [putField] at h
    split at h
    · rename_i hk
      rcases List.mem_cons.mp h with rfl | hmem
      · exact .inl (by rw [hk])
      · exact .inr (List.mem_cons_of_mem _ hmem)
    · rcases List.mem_cons.mp h with rfl | hmem
      · exact .inr List.mem_cons_self
      · exact (ih hmem).imp_right (List.mem_cons_of_mem _)

theorem nodup_putField {fields : List (String × Json)} (h : (fields.map (·.1)).Nodup) (key : String)
    (v : Json) : ((putField fields key v).map (·.1)).Nodup := by
  induction fields with
  | nil => simp [putField]
  | cons f fields ih =>
    obtain ⟨k, w⟩ := f
    obtain ⟨hk, hfields⟩ := List.nodup_cons.mp h
    rw [putField]
    split
    · exact h
    · rename_i hne
      refine List.nodup_cons.mpr ⟨fun hmem => ?_, ih hfields⟩
      obtain ⟨g, hg, hkey⟩ := List.mem_map.mp hmem
      rcases mem_putField hg with rfl | hg
      · exact hne hkey.symm
      · exact hk (hkey ▸ List.mem_map_of_mem hg)

/-- What is in a list or object under way can be read back, and no key is there twice. -/
def Frame.IsReadable : Frame → Prop
  | list items => ∀ j ∈ items, j.isReadable = true
  | object fields _ => (fields.map (·.1)).Nodup ∧ ∀ f ∈ fields, f.2.isReadable = true

/-- A result can be read back. -/
def Phase.IsReadable : Phase → Prop
  | finished j => j.isReadable = true
  | _ => True

/-- All that the machine holds can be read back. -/
def Holds (s : Phase × List Frame) : Prop := s.1.IsReadable ∧ ∀ f ∈ s.2, f.IsReadable

theorem holds_accept {j : Json} (hj : j.isReadable = true) {frames : List Frame}
    (h : ∀ f ∈ frames, f.IsReadable) : Holds (accept j frames) := by
  unfold accept
  split
  · exact ⟨hj, nofun⟩
  · obtain ⟨hitems, hframes⟩ := List.forall_mem_cons.mp h
    exact ⟨trivial, List.forall_mem_cons.mpr ⟨List.forall_mem_cons.mpr ⟨hj, hitems⟩, hframes⟩⟩
  · obtain ⟨⟨hnodup, hfields⟩, hframes⟩ := List.forall_mem_cons.mp h
    refine ⟨trivial, List.forall_mem_cons.mpr ⟨⟨nodup_putField hnodup _ _, fun f hf => ?_⟩, hframes⟩⟩
    rcases mem_putField hf with rfl | hf
    · exact hj
    · exact hfields f hf

theorem holds_begin? {frames : List Frame} (h : ∀ f ∈ frames, f.IsReadable) {t : Token}
    (ht : ∀ j, t = .atom j → j.isReadable = true) {s : Phase × List Frame}
    (hs : begin? frames t = some s) : Holds s := by
  unfold begin? at hs
  split at hs
  · rw [← Option.some.inj hs]
    exact ⟨trivial, List.forall_mem_cons.mpr ⟨List.forall_mem_nil _, h⟩⟩
  · rw [← Option.some.inj hs]
    exact ⟨trivial, List.forall_mem_cons.mpr ⟨⟨List.nodup_nil, List.forall_mem_nil _⟩, h⟩⟩
  · rename_i j
    rw [← Option.some.inj hs]
    exact holds_accept (ht j rfl) h
  · cases hs

theorem holds_close? {frames : List Frame} (h : ∀ f ∈ frames, f.IsReadable) {t : Token}
    {s : Phase × List Frame} (hs : close? frames t = some s) : Holds s := by
  unfold close? at hs
  split at hs
  · rw [← Option.some.inj hs]
    obtain ⟨hitems, hframes⟩ := List.forall_mem_cons.mp h
    refine holds_accept ?_ hframes
    exact allReadable_iff.mpr fun j hj => hitems j (List.mem_reverse.mp hj)
  · rw [← Option.some.inj hs]
    obtain ⟨⟨hnodup, hfields⟩, hframes⟩ := List.forall_mem_cons.mp h
    refine holds_accept ?_ hframes
    exact (Bool.and_eq_true _ _).mpr ⟨decide_eq_true hnodup, fieldsReadable_iff.mpr hfields⟩
  · cases hs

/-- A step keeps that all the machine holds can be read back. -/
theorem holds_step {s s' : Phase × List Frame} (h : Holds s) {t : Token}
    (ht : ∀ j, t = .atom j → j.isReadable = true) (hs : step s t = some s') : Holds s' := by
  obtain ⟨-, hframes⟩ := h
  unfold step at hs
  split at hs
  case h_1 => exact holds_begin? hframes ht hs
  case h_2 =>
    rcases Option.or_eq_some_iff.mp hs with hs | ⟨-, hs⟩
    · exact holds_close? hframes hs
    · exact holds_begin? hframes ht hs
  case h_3 | h_4 =>
    obtain ⟨hframe, hothers⟩ := List.forall_mem_cons.mp hframes
    rw [← Option.some.inj hs]
    exact ⟨trivial, List.forall_mem_cons.mpr ⟨hframe, hothers⟩⟩
  case h_6 | h_7 | h_8 =>
    rw [← Option.some.inj hs]
    exact ⟨trivial, hframes⟩
  case h_5 | h_9 => exact holds_close? hframes hs
  case h_10 => cases hs

/-- Whatever a text is read as is read back from its own text. -/
theorem isReadable_of_parse? {s : String} {j : Json} (h : parse? s = some j) :
    j.isReadable = true := by
  obtain ⟨ts, hlex, hrest⟩ := Option.bind_eq_some_iff.mp h
  obtain ⟨m, hm, hend⟩ := Option.bind_eq_some_iff.mp hrest
  have hatoms := Token.atomsReadable_lex? hlex
  have hstart : Holds (.value, []) := ⟨trivial, List.forall_mem_nil _⟩
  have hholds : Holds m := foldlM_keeps
    (fun t ht _ _ h hs => holds_step h (fun j hj => hatoms j (hj ▸ ht)) hs) hstart hm
  split at hend
  · rw [← Option.some.inj hend]
    exact hholds.1
  · cases hend

end Json

/-- The values of the format are exactly those that texts stand for. -/
theorem Value.isInterchange_iff {v : Value} :
    v.IsInterchange ↔ ∃ s j, Json.parse? s = some j ∧ j.toValue = v := by
  constructor
  · rintro ⟨j, hj, hv⟩
    exact ⟨j.render, j, Json.parse?_render hj, hv⟩
  · rintro ⟨s, j, hj, hv⟩
    exact ⟨j, Json.isReadable_of_parse? hj, hv⟩

end RowGate
