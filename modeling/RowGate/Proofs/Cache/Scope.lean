import RowGate.Cache.Key
import RowGate.Proofs.Json.Reordering
import RowGate.Proofs.Json.Separators
import RowGate.Proofs.Sequence
/-!
Keys of cached answers by scope. Main statement: two queries that name no key have the same key only
in the same scope, whatever the names of scopes look like. A scope ends with a colon, and behind it
the text of a query begins with a brace, a quote and a letter, which no such text has inside.
-/
namespace RowGate.Cache

open Write

/-- Whether a name begins with a letter. -/
def lettered (name : String) : Bool := name.toList.head?.any Char.isAlpha

section

variable {key : String} (h : lettered key = true)
include h

theorem lettered_entry (present : Bool) (v : Value) :
    ∀ f ∈ entry present key v, lettered f.1 = true := by
  intro f hf
  unfold entry at hf
  split at hf
  · rw [List.mem_singleton.mp hf]
    exact h
  · cases hf

theorem lettered_optional {α : Type} (x : Option α) (toValue : α → Value) :
    ∀ f ∈ (x.map fun a => (key, toValue a)).toList, lettered f.1 = true := by
  intro f hf
  obtain ⟨a, -, rfl⟩ := Option.map_eq_some_iff.mp (Option.mem_toList.mp hf)
  exact h

end

/-- The fields of a query have names that begin with a letter. -/
theorem lettered_fieldsWith (q : Query) (tables recursiveTables : List Value) :
    ∀ f ∈ q.fieldsWith tables recursiveTables, lettered f.1 = true := by
  have hoffset : ∀ f ∈ [("offset", Value.int q.offset)], lettered f.1 = true := by
    intro f hf
    rw [List.mem_singleton.mp hf]
    exact (by decide : lettered "offset" = true)
  unfold Query.fieldsWith
  simp only [List.forall_mem_append]
  and_intros
  all_goals first
    | exact lettered_entry (by decide) _ _
    | exact lettered_optional (by decide) _ _
    | exact hoffset

theorem fieldsWith_ne_nil (q : Query) (tables recursiveTables : List Value) :
    q.fieldsWith tables recursiveTables ≠ [] := by
  have hmem : ("offset", Value.int q.offset) ∈ q.fieldsWith tables recursiveTables := by
    unfold Query.fieldsWith
    iterate 7 refine List.mem_append_left _ ?_
    exact List.mem_append_right _ (List.mem_singleton_self _)
  exact List.ne_nil_of_mem hmem

theorem names_sortKeysFields (fs : List (String × Json)) :
    (Json.sortKeysFields fs).map (·.1) = fs.map (·.1) := by
  rw [Json.sortKeysFields_eq, List.map_map]
  rfl

/-- A letter stands for itself inside a quoted text. -/
theorem escape_of_isAlpha {c : Char} (hc : c.isAlpha = true) : Json.escape c = [c] := by
  have hrange : 32 ≤ c.toNat ∧ c.toNat < 127 := by
    rcases (Bool.or_eq_true _ _).mp hc with hupper | hlower
    · have hcase : 65 ≤ c.val ∧ c.val ≤ 90 := of_decide_eq_true hupper
      simp only [UInt32.le_iff_toNat_le] at hcase
      change 65 ≤ c.toNat ∧ c.toNat ≤ 90 at hcase
      omega
    · have hcase : (decide (97 ≤ c.val) && decide (c.val ≤ 122)) = true := hlower
      simp only [Bool.and_eq_true, decide_eq_true_eq, UInt32.le_iff_toNat_le] at hcase
      change 97 ≤ c.toNat ∧ c.toNat ≤ 122 at hcase
      omega
  unfold Json.escape
  split
  case h_8 => exact if_pos hrange
  all_goals exact absurd hc (by decide)

theorem intercalate_start (sep s : String) (ss : List String) :
    ∃ zs, (String.intercalate sep (s :: ss)).toList = s.toList ++ zs := by
  cases ss with
  | nil => exact ⟨[], by simp⟩
  | cons t ts =>
    rw [String.intercalate_cons_cons, String.append_assoc, String.toList_append]
    exact ⟨_, rfl⟩

/-- The text of an object whose first field has a name that begins with a letter. -/
theorem render_object {f : String × Json} (fs : List (String × Json)) (h : lettered f.1 = true) :
    ∃ c ys, (Json.object (f :: fs)).render.toList = '\x7b' :: '\"' :: c :: ys ∧
      c.isAlpha = true := by
  obtain ⟨k, j⟩ := f
  obtain ⟨c, hhead, hc⟩ := (Option.any_eq_true _ _).mp h
  obtain ⟨cs, hk⟩ := List.head?_eq_some_iff.mp hhead
  have hk : k.toList = c :: cs := hk
  have hquote : (Json.quote k).toList = '\"' :: c :: (cs.flatMap Json.escape ++ ['\"']) := by
    simp [Json.quote, hk, escape_of_isAlpha hc]
  obtain ⟨zs, hzs⟩ :=
    intercalate_start ", " (Json.quote k ++ ": " ++ j.render) (Json.renderFields fs)
  refine ⟨c, cs.flatMap Json.escape ++ '\"' :: (':' :: ' ' :: j.render.toList ++ zs ++ ['\x7d']),
    ?_, hc⟩
  rw [Json.render, Json.renderFields, String.toList_append, String.toList_append, hzs,
    String.toList_append, String.toList_append, hquote]
  simp

theorem toValue_eq (q : Query) : ∃ fields : Record, q.toValue = .map fields ∧ fields ≠ [] ∧
    ∀ f ∈ fields, lettered f.1 = true := by
  cases q
  rw [Query.toValue]
  exact ⟨_, rfl, fieldsWith_ne_nil _ _ _, lettered_fieldsWith _ _ _⟩

/-- The text of a query is that of an object, and begins with a brace, a quote and a letter. -/
theorem queryText_eq {q : Query} {s : String} (h : queryText q = .ok s) :
    ∃ (j : Json) (c : Char) (ys : List Char), s = j.render ∧
      s.toList = '\x7b' :: '\"' :: c :: ys ∧ c.isAlpha = true := by
  obtain ⟨j, hj, hs⟩ := sequence_eq_ok.mp h
  obtain rfl : j.sortKeys.render = s := Except.ok.inj hs
  obtain ⟨fields, hvalue, hne, hnames⟩ := toValue_eq q
  have hjson : q.toValue.toJson? fallback = some j := by
    unfold jsonOf at hj
    split at hj
    · rename_i j' hsome
      exact hsome.trans (congrArg some (Except.ok.inj hj))
    · cases hj
  rw [hvalue, Value.toJson?] at hjson
  obtain ⟨js, hjs, rfl⟩ := Option.map_eq_some_iff.mp hjson
  have hkeys : (Json.sortKeysFields js).map (·.1) = fields.map (·.1) := by
    rw [names_sortKeysFields, names_recordToJson? hjs]
  have hperm := List.mergeSort_perm (Json.sortKeysFields js) fun a b => a.1 ≤ b.1
  have hlettered : ∀ f ∈ Json.sortKeysFields js, lettered f.1 = true := by
    intro f hf
    obtain ⟨g, hg, hname⟩ := List.mem_map.mp (hkeys ▸ List.mem_map_of_mem hf)
    exact hname ▸ hnames g hg
  rw [Json.sortKeys]
  generalize (Json.sortKeysFields js).mergeSort (fun a b => a.1 ≤ b.1) = sorted at hperm
  cases sorted with
  | nil =>
    rw [← hperm.nil_eq] at hkeys
    exact absurd (List.map_eq_nil_iff.mp hkeys.symm) hne
  | cons f fs =>
    obtain ⟨c, ys, htext, hc⟩ := render_object fs (hlettered f (hperm.subset List.mem_cons_self))
    exact ⟨_, c, ys, rfl, htext, hc⟩

/-- What a scope puts in front of the text of a query. -/
def scopeMark (scope : String) : List Char := if scope.isEmpty then [] else scope.toList ++ [':']

theorem scopeMark_inj {scope scope' : String} (h : scopeMark scope = scopeMark scope') :
    scope = scope' := by
  unfold scopeMark at h
  split at h <;> split at h
  · rename_i hscope hscope'
    rw [String.isEmpty_iff.mp hscope, String.isEmpty_iff.mp hscope']
  · simp at h
  · simp at h
  · exact String.toList_inj.mp (List.append_cancel_right h)

/-- What a mark ends with ends with a colon. -/
theorem colon_of_suffix {scope : String} {xs zs : List Char} (h : scopeMark scope = xs ++ zs)
    (hzs : zs ≠ []) : ∃ ws, zs = ws ++ [':'] := by
  unfold scopeMark at h
  split at h
  · exact absurd (List.append_eq_nil_iff.mp h.symm).2 hzs
  · obtain ⟨ws, c, rfl⟩ := List.eq_nil_or_concat zs |>.resolve_left hzs
    rw [List.concat_eq_append, ← List.append_assoc] at h
    obtain ⟨-, hc⟩ := List.append_inj' h rfl
    exact ⟨ws, by rw [List.concat_eq_append, hc]⟩

theorem keyOf_eq {start : Value} {scope key : String} {q : Query} (hown : ownKey? q = none)
    (h : keyOf start scope q = .ok key) :
    ∃ text, queryText q = .ok text ∧
      key.toList = start.plain.toList ++ (scopeMark scope ++ text.toList) := by
  unfold keyOf at h
  rw [hown] at h
  obtain ⟨text, htext, hbehind⟩ := sequence_eq_ok.mp h
  refine ⟨text, htext, ?_⟩
  unfold inScope at hbehind
  unfold scopeMark
  by_cases hscope : scope.isEmpty
  · rw [if_pos hscope] at hbehind ⊢
    cases start with
    | text t =>
      obtain rfl : t ++ text = key := Except.ok.inj hbehind
      exact String.toList_append
    | _ => cases hbehind
  · rw [if_neg hscope] at hbehind ⊢
    obtain rfl : start.plain ++ scope ++ ":" ++ text = key := Except.ok.inj hbehind
    simp only [String.toList_append, List.append_assoc]
    rfl

/-- A mark that goes on where another one with a text of a query ends is no longer. -/
theorem scopeMark_cancel {scope scope' text text' : String} {q q' : Query} {zs : List Char}
    (htext : queryText q = .ok text) (htext' : queryText q' = .ok text')
    (hmark : scopeMark scope' = scopeMark scope ++ zs) (h : text.toList = zs ++ text'.toList) :
    zs = [] := by
  by_cases hzs : zs = []
  · exact hzs
  obtain ⟨ws, rfl⟩ := colon_of_suffix hmark hzs
  obtain ⟨j, -, -, rfl, -, -⟩ := queryText_eq htext
  obtain ⟨-, c, ys, -, hstart, hc⟩ := queryText_eq htext'
  rw [hstart, List.append_assoc, List.singleton_append] at h
  exact absurd h (Json.render_ne j hc ws ys)

/-- Queries that name no key have one key in one scope only, and then are the same there. -/
theorem keyOf_inj {start : Value} {scope scope' key : String} {q q' : Query}
    (hown : ownKey? q = none) (hown' : ownKey? q' = none) (h : keyOf start scope q = .ok key)
    (h' : keyOf start scope' q' = .ok key) :
    scope = scope' ∧ queryText q = queryText q' := by
  obtain ⟨text, htext, hkey⟩ := keyOf_eq hown h
  obtain ⟨text', htext', hkey'⟩ := keyOf_eq hown' h'
  have hsame : scopeMark scope ++ text.toList = scopeMark scope' ++ text'.toList :=
    List.append_cancel_left (hkey.symm.trans hkey')
  have hmark : scopeMark scope = scopeMark scope' := by
    rcases List.append_eq_append_iff.mp hsame with ⟨zs, hmark, hrest⟩ | ⟨zs, hmark, hrest⟩
    · rw [scopeMark_cancel htext htext' hmark hrest] at hmark
      simpa using hmark.symm
    · rw [scopeMark_cancel htext' htext hmark hrest] at hmark
      simpa using hmark
  have htexts : text = text' := by
    rw [hmark] at hsame
    exact String.toList_inj.mp (List.append_cancel_left hsame)
  exact ⟨scopeMark_inj hmark, by rw [htext, htext', htexts]⟩

end RowGate.Cache
