import RowGate.Proofs.Json.Interchange
import RowGate.Proofs.Number.Lengths
import RowGate.Proofs.Query.Written
/-!
Queries read from values of the interchange format. Main statement: such a query is written as a map
of the format, so that it has a text.
-/
namespace RowGate

open Read Write

namespace Value

theorem isInterchange_int {n : Int} : (int n).IsInterchange ↔ Json.isWritten n = true := by
  constructor
  · rintro ⟨j, hj, hv⟩
    cases j <;> cases hv
    exact hj
  · intro h
    exact ⟨.int n, h, rfl⟩

theorem isInterchange_float (x : Float) : (float x).IsInterchange := ⟨.float x, rfl, rfl⟩

theorem isInterchange_texts (xs : List String) : (texts xs).IsInterchange :=
  isInterchange_list.mpr (List.forall_mem_map.mpr fun s _ => isInterchange_text s)

theorem IsInterchange.orEmpty {v : Value} (h : v.IsInterchange) : (Read.orEmpty v).IsInterchange := by
  unfold Read.orEmpty
  split
  · exact h
  · exact isInterchange_map.mpr ⟨List.nodup_nil, List.forall_mem_nil _⟩

theorem IsInterchange.object {v : Value} {place : String} {r : Record} (hv : v.IsInterchange)
    (h : Read.object v place = .ok r) : (map r).IsInterchange := by
  unfold Read.object at h
  split at h
  · rw [← Except.ok.inj h]
    exact hv
  · cases h

theorem IsInterchange.list {v : Value} {place : String} {vs : List Value} (hv : v.IsInterchange)
    (h : Read.list v place = .ok vs) : ∀ w ∈ vs, w.IsInterchange :=
  fun w hw => hv.of_mem_parts (mem_parts_of_list h w hw)

theorem IsInterchange.required {r : Record} {key place : String} {v : Value}
    (hr : (map r).IsInterchange) (h : Read.required r key place = .ok v) : v.IsInterchange := by
  have hget := hr.get key
  unfold Read.required at h
  split at h
  · cases h
  · rw [← Except.ok.inj h]
    exact hget

/-- Integers that are read from values of the format can be written in it. -/
theorem IsInterchange.integer {v : Value} {n : Int} (hv : v.IsInterchange)
    (h : integer? v = some n) : (int n).IsInterchange := by
  unfold integer? at h
  split at h
  · rw [← Option.some.inj h]
    exact hv
  · exact isInterchange_int.mpr (Number.isWritten_wholeFloat? h)
  · exact isInterchange_int.mpr (Number.isWritten_parseInt? h)
  · cases h

end Value

open Value

/-! ## Written records -/

/-- The fields of a record have some of the names, in order, and values of the interchange format. -/
structure Record.Fits (names : List String) (r : Record) : Prop where
  keys : r.keys.Sublist names
  values : ∀ f ∈ r, f.2.IsInterchange

namespace Record.Fits

variable {names others : List String} {r s : Record} {key : String} {v : Value} {α : Type}

theorem isInterchange (h : Fits names r) (hnodup : names.Nodup) : (map r).IsInterchange :=
  isInterchange_map.mpr ⟨hnodup.sublist h.keys, h.values⟩

theorem nil : Fits [] [] := ⟨.slnil, List.forall_mem_nil _⟩

theorem cons (hv : v.IsInterchange) (h : Fits names r) : Fits (key :: names) ((key, v) :: r) :=
  ⟨h.keys.cons_cons key, List.forall_mem_cons.mpr ⟨hv, h.values⟩⟩

theorem append (hr : Fits names r) (hs : Fits others s) : Fits (names ++ others) (r ++ s) := by
  refine ⟨?_, List.forall_mem_append.mpr ⟨hr.values, hs.values⟩⟩
  rw [Record.keys, List.map_append]
  exact hr.keys.append hs.keys

theorem one (key : String) (hv : v.IsInterchange) : Fits [key] [(key, v)] := cons hv nil

theorem entry (key : String) {present : Bool} (h : present = true → v.IsInterchange) :
    Fits [key] (entry present key v) := by
  cases present with
  | true => exact one key (h rfl)
  | false => exact ⟨List.nil_sublist _, List.forall_mem_nil _⟩

theorem option (key : String) {o : Option α} {f : α → Value} (h : ∀ a ∈ o, (f a).IsInterchange) :
    Fits [key] (o.map fun a => (key, f a)).toList := by
  cases o with
  | none => exact ⟨List.nil_sublist _, List.forall_mem_nil _⟩
  | some a => exact one key (h a rfl)

theorem list (key : String) {xs : List α} {f : α → Value} (h : ∀ x ∈ xs, (f x).IsInterchange) :
    Fits [key] (listField key xs f) :=
  entry key fun _ => isInterchange_list.mpr (List.forall_mem_map.mpr h)

theorem texts (key : String) (xs : List String) : Fits [key] (textsField key xs) :=
  list key fun s _ => isInterchange_text s

theorem text (key : String) (o : Option String) : Fits [key] (textField key o) :=
  option key fun s _ => isInterchange_text s

end Record.Fits

open Record

/-! ## Clauses -/

theorem OrderTerm.isInterchange_toValue (o : OrderTerm) : o.toValue.IsInterchange :=
  ((Fits.cons (isInterchange_text _) (.one _ (isInterchange_text _))).append
    (.text "nulls" o.nulls)).isInterchange (by decide)

theorem Condition.isInterchange_toValue {c : Condition} (h : c.value.IsInterchange) :
    c.toValue.IsInterchange :=
  ((Fits.cons (isInterchange_text _) (.cons (isInterchange_text _) (.one _ h))).append
    (.text "boolean" _)).isInterchange (by decide)

theorem Condition.isInterchange {v : Value} {place : String} {c : Condition} (hv : v.IsInterchange)
    (h : Condition.read v place = .ok c) : c.toValue.IsInterchange := by
  simp only [Condition.read, sequence_eq_ok, pure_answers] at h
  obtain ⟨r, hr, field, -, joiner, -, rfl⟩ := h
  exact isInterchange_toValue ((hv.object hr).get "value")

theorem Range.isInterchange {v : Value} {place : String} {x : Range} (hv : v.IsInterchange)
    (h : Range.read v place = .ok x) : x.toValue.IsInterchange := by
  simp only [Range.read, sequence_eq_ok] at h
  obtain ⟨r, hr, bounds, hbounds, values, hvalues, hrange⟩ := h
  split at hrange
  · obtain ⟨field, -, hx⟩ := sequence_eq_ok.mp hrange
    obtain rfl := pure_answers.mp hx
    have hboth := isInterchange_list.mpr (((hv.object hr).required hbounds).list hvalues)
    exact (Fits.cons (isInterchange_text _) (.cons (isInterchange_text _)
      (.one _ hboth))).isInterchange (by decide)
  · cases hrange

theorem Fragment.isInterchange {v : Value} {place : String} {f : Fragment} (hv : v.IsInterchange)
    (h : Fragment.read v place = .ok f) : f.toValue.IsInterchange := by
  simp only [Fragment.read, sequence_eq_ok, pure_answers] at h
  obtain ⟨r, hr, sql, -, bindings, hbindings, rfl⟩ := h
  have hall := isInterchange_list.mpr (((hv.object hr).get "bindings").list hbindings)
  exact (Fits.cons (isInterchange_text _) (.one _ hall)).isInterchange (by decide)

theorem isInterchange_groupValue (connective : Connective) {members : List Value}
    (h : ∀ v ∈ members, v.IsInterchange) (joiner : Option Connective) :
    (groupValue connective members joiner).IsInterchange :=
  ((Fits.cons (isInterchange_text _) (.one _ (isInterchange_list.mpr h))).append
    (.text "boolean" _)).isInterchange (by decide)

theorem forall_membersToValues {P : Value → Prop} {ms : List GroupMember} :
    (∀ v ∈ membersToValues ms, P v) ↔ ∀ m ∈ ms, P m.toValue := by
  induction ms with
  | nil => exact iff_of_true (List.forall_mem_nil _) (List.forall_mem_nil _)
  | cons m ms ih => rw [membersToValues, List.forall_mem_cons, ih, List.forall_mem_cons]

theorem Group.isInterchange {v : Value} {place : String} {g : Group} (hv : v.IsInterchange)
    (h : Group.read v place = .ok g) : g.toValue.IsInterchange := by
  simp only [Group.read, membersUnder_eq, sequence_eq_ok, pure_answers] at h
  obtain ⟨r, hr, members, hmembers, own, -, joiner, -, rfl⟩ := h
  refine isInterchange_groupValue _ (forall_membersToValues.mpr ?_) _
  exact (members_hold (W := IsInterchange) (fun _ hv _ => hv.of_mem_parts)
    (fun _ _ _ => Condition.isInterchange)
    (fun connective _ joiner hms =>
      isInterchange_groupValue connective (forall_membersToValues.mpr hms) joiner)
    _ ((hv.object hr).get "clauses")).2 place members hmembers

theorem HavingTerm.isInterchange {v : Value} {place : String} {t : HavingTerm}
    (hv : v.IsInterchange) (h : HavingTerm.read v place = .ok t) : t.toValue.IsInterchange := by
  simp only [HavingTerm.read, sequence_eq_ok, pure_answers] at h
  obtain ⟨r, hr, field, -, rfl⟩ := h
  exact (Fits.cons (isInterchange_text _) (.cons (isInterchange_text _)
    (.one _ ((hv.object hr).get "value")))).isInterchange (by decide)

theorem Aggregate.isInterchange_toValue (a : Aggregate) : a.toValue.IsInterchange :=
  ((Fits.cons (isInterchange_text _) (.one _ (isInterchange_text _))).append
    (.text "alias" a.label)).isInterchange (by decide)

theorem Window.isInterchange_toValue (w : Window) : w.toValue.IsInterchange :=
  (((((Fits.cons (isInterchange_text _) (.one _ (isInterchange_text _))).append
    (.text "field" w.field)).append (.texts "partitionBy" w.partitionBy)).append
    (.list "orderBy" fun o _ => o.isInterchange_toValue)).append
    (.text "frameClause" w.frame)).isInterchange (by decide)

theorem FrameBound.isInterchange {v : Value} (hv : v.IsInterchange) :
    (FrameBound.read v).toValue.IsInterchange := by
  unfold FrameBound.read
  split
  · exact isInterchange_text _
  · cases hn : integer? v with
    | none => exact isInterchange_text _
    | some n => exact hv.integer hn

theorem Frame.isInterchange {v : Value} {place : String} {f : Frame} (hv : v.IsInterchange)
    (h : Frame.read v place = .ok f) : f.toValue.IsInterchange := by
  simp only [Frame.read, sequence_eq_ok, pure_answers] at h
  obtain ⟨r, hr, type, -, start, hstart, rfl⟩ := h
  have hrecord := hv.object hr
  have hstop : ∀ b ∈ (r.get "end").toOption.map FrameBound.read, b.toValue.IsInterchange := by
    intro b hb
    obtain ⟨w, hw, rfl⟩ := Option.map_eq_some_iff.mp hb
    have hend := hrecord.get "end"
    cases hvalue : r.get "end" <;> rw [hvalue] at hw hend <;> cases hw <;>
      exact FrameBound.isInterchange hend
  exact ((Fits.cons (isInterchange_text _)
    (.one _ (FrameBound.isInterchange (hrecord.required hstart)))).append
    (.option "end" hstop)).isInterchange (by decide)

theorem FramedWindow.isInterchange {v : Value} {place : String} {w : FramedWindow}
    (hv : v.IsInterchange) (h : FramedWindow.read v place = .ok w) : w.toValue.IsInterchange := by
  simp only [FramedWindow.read, sequence_eq_ok, pure_answers] at h
  obtain ⟨r, hr, clause, hclause, type, -, label, -, partition, -, terms, -, order, -, frame, hframe,
    filter, hfilter, conditions, hconditions, rfl⟩ := h
  have hrecord := hv.object hr
  have hinner := (hrecord.get "over").orEmpty.object hclause
  have hframe' : ∀ f ∈ frame, f.toValue.IsInterchange := fun f hf =>
    Frame.isInterchange (hinner.get "frame") (read_of_unlessFalse hframe f hf)
  have hconditions' : ∀ c ∈ conditions, c.toValue.IsInterchange :=
    forall_of_mapM hconditions fun c hc _ =>
      Condition.isInterchange ((hrecord.get "filter").list hfilter c hc)
  have hover : (map (textsField "partitionBy" partition ++
      listField "orderBy" order OrderTerm.toValue ++
      (frame.map fun f => ("frame", f.toValue)).toList)).IsInterchange :=
    (((Fits.texts "partitionBy" partition).append
      (.list "orderBy" fun o _ => o.isInterchange_toValue)).append
      (.option "frame" hframe')).isInterchange (by decide)
  exact ((((Fits.cons (isInterchange_text _) (.one _ (isInterchange_text _))).append
    (.text "field" _)).append (.entry "over" fun _ => hover)).append
    (.list "filter" hconditions')).isInterchange (by decide)

/-! ## Settings -/

theorem Transforms.isInterchange_toValue (t : Transforms) : t.toValue.IsInterchange := by
  have hpivot (p : Pivot) : p.toValue.IsInterchange :=
    (Fits.cons (isInterchange_text _) (.cons (isInterchange_texts _)
      (.one _ p.aggregate.isInterchange_toValue))).isInterchange (by decide)
  exact (((((Fits.texts "groupBy" t.groupBy).append
    (.option "pivot" fun p _ => hpivot p)).append
    (.entry "flatten" fun _ => isInterchange_bool true)).append
    (.texts "select" t.select)).append (.texts "compute" _)).isInterchange (by decide)

theorem CacheSettings.isInterchange {v : Value} {place : String} {c : CacheSettings}
    (hv : v.IsInterchange) (h : CacheSettings.read v place = .ok c) : c.toValue.IsInterchange := by
  simp only [CacheSettings.read, sequence_eq_ok] at h
  obtain ⟨r, hr, ttl, httl, hread⟩ := h
  have hvalue := (hv.object hr).required httl
  split at hread
  · cases hread
  · rename_i n hn
    simp only [sequence_eq_ok, pure_answers] at hread
    obtain ⟨tags, -, rfl⟩ := hread
    have hnumber : (Value.number n).IsInterchange := by
      unfold positiveTtl? at hn
      split at hn
      · split at hn <;> cases hn
        exact hvalue
      · split at hn <;> cases hn
        exact hvalue
      · cases hn
    exact (((Fits.one "ttl" hnumber).append (.text "key" _)).append
      (.texts "tags" tags)).isInterchange (by decide)

theorem Limits.isInterchange_toValue {l : Limits}
    (h : ∀ n ∈ l.maxLimit, (Value.int n).IsInterchange) : l.toValue.IsInterchange := by
  have hrules := ((((Fits.option "maxLimit" h).append
    (.texts "requiredFields" l.requiredFields)).append
    (.texts "disallowedFields" l.disallowedFields)).append
    (.option "maxComplexity" fun x (_ : x ∈ l.maxComplexity) =>
      isInterchange_float x)).isInterchange (by decide)
  exact (Fits.cons hrules (.one "suggestions" (isInterchange_bool _))).isInterchange (by decide)

theorem Limits.isInterchange {v : Value} {place : String} {l : Limits} (hv : v.IsInterchange)
    (h : Limits.read v place = .ok l) : l.toValue.IsInterchange := by
  obtain ⟨r, hr, hlimit⟩ : ∃ r : Record, (map r).IsInterchange ∧
      l.maxLimit = integer? (r.get "maxLimit") := by
    obtain ⟨outer, houter, hbehind⟩ := sequence_eq_ok.mp h
    have hrecord := hv.object houter
    split at hbehind
    all_goals
      obtain ⟨r, hr, hrest⟩ := sequence_eq_ok.mp hbehind
      obtain ⟨required, -, hmore⟩ := sequence_eq_ok.mp hrest
      obtain ⟨disallowed, -, hlast⟩ := sequence_eq_ok.mp hmore
      refine ⟨r, ?_, ?_⟩
      on_goal 2 =>
        split at hlast
        all_goals
          obtain ⟨complexity, -, hl⟩ := sequence_eq_ok.mp hlast
          rw [← pure_answers.mp hl]
    · rename_i inner hinner
      have hrules := hrecord.get "rules"
      rw [Record.get_eq, hinner] at hrules
      exact hrules.object hr
    · rw [← pure_answers.mp hr]
      exact hrecord
  exact isInterchange_toValue fun n hn => (hr.get "maxLimit").integer (hlimit.symm.trans hn)

/-! ## Queries -/

theorem isInterchange_valueLists {r : Record} {key : String} {ls : List (String × List Value)}
    (hr : (map r).IsInterchange) (h : valueLists r key = .ok ls) :
    (valueListsValue ls).IsInterchange := by
  obtain ⟨fields, hfields, hlists⟩ := sequence_eq_ok.mp h
  obtain ⟨hnodup, hvalues⟩ := isInterchange_map.mp ((hr.get key).orEmpty.object hfields)
  have hkeys : ls.map (·.1) = fields.map (·.1) := by
    rw [← List.forall₂_eq_eq_eq, List.forall₂_map_left_iff, List.forall₂_map_right_iff]
    refine (mapM_eq_ok_iff.mp hlists).flip.imp fun l f hl => ?_
    obtain ⟨vs, -, hpair⟩ := sequence_eq_ok.mp hl
    rw [← pure_answers.mp hpair]
  refine isInterchange_map.mpr ⟨?_, List.forall_mem_map.mpr ?_⟩
  · rw [Record.keys, List.map_map]
    exact hkeys ▸ hnodup
  · refine forall_of_mapM hlists fun f hf l hl => ?_
    obtain ⟨vs, hvs, hpair⟩ := sequence_eq_ok.mp hl
    rw [← pure_answers.mp hpair]
    exact isInterchange_list.mpr ((hvalues f hf).list hvs)

/-- A query is written as a value of the format if it is read from one, and the queries inside it are
written as such. -/
theorem Query.ReadFrom.isInterchange {limit : Option Value} {r : Record} {q : Query}
    (h : q.ReadFrom limit r) (hr : (map r).IsInterchange) (hlimit : ∀ v ∈ limit, v.IsInterchange)
    (htables : TablesHold (·.toValue.IsInterchange) q.tables)
    (hrecursive : RecursiveTablesHold (·.toValue.IsInterchange) q.recursiveTables) :
    q.toValue.IsInterchange := by
  have hitems {key : String} : ∀ v ∈ (Record.get r key).parts, v.IsInterchange :=
    fun _ hv => (hr.get key).of_mem_parts hv
  have hpositive {key : String} {n : Int} (hn : positiveUnder r key = some n) :
      (Value.int n).IsInterchange :=
    (hr.get key).integer (Option.filter_eq_some_iff.mp hn).1
  have hlimit' : ∀ v ∈ q.limit, v.IsInterchange := by
    intro v hv
    rw [h.limit] at hv
    cases hn : positiveUnder r "limit" with
    | some n =>
      rw [hn] at hv
      exact Option.some.inj hv ▸ hpositive hn
    | none =>
      rw [hn] at hv
      exact hlimit v hv
  have hoffset : (Value.int q.offset).IsInterchange := by
    rw [h.offset]
    cases hn : positiveUnder r "offset" with
    | some n => exact hpositive hn
    | none => exact isInterchange_int.mpr rfl
  have htables' : ∀ t ∈ q.tables, t.toValue.IsInterchange := fun t ht =>
    (((Fits.cons (isInterchange_text _) (.one _ (htables t ht))).append
      (.texts "columns" t.columns)).append (.text "table" t.table)).isInterchange (by decide)
  have hrecursive' : ∀ t ∈ q.recursiveTables, t.toValue.IsInterchange := fun t ht =>
    (((((Fits.cons (isInterchange_text _) (.cons (hrecursive t ht).1 (.cons (hrecursive t ht).2
      (.one _ (isInterchange_bool _))))).append (.texts "columns" t.columns)).append
      (.text "table" t.table)).append (.text "recursiveTable" t.recursiveTable)).append
      (.texts "recursiveColumns" t.recursiveColumns)).isInterchange (by decide)
  rw [toValue_eq, tablesToValues_eq, recursiveTablesToValues_eq]
  unfold fieldsWith
  apply Fits.isInterchange
  · iterate 22 apply Fits.append
    · exact .entry "filter" fun _ => (hr.get "filter").orEmpty.object h.filter
    · exact .list _ (forall_of_items h.conditions fun v hv _ _ =>
        Condition.isInterchange (hitems v hv))
    · exact .list _ (forall_of_items h.ranges fun v hv _ _ => Range.isInterchange (hitems v hv))
    · exact .texts _ q.nulls
    · exact .texts _ q.notNulls
    · exact .entry _ fun _ => isInterchange_valueLists hr h.isIn
    · exact .entry _ fun _ => isInterchange_valueLists hr h.notIn
    · exact .list _ (forall_of_items h.exists_ fun v hv _ _ =>
        Fragment.isInterchange (hitems v hv))
    · exact .list _ (forall_of_items h.groups fun v hv _ _ => Group.isInterchange (hitems v hv))
    · exact .list _ fun o _ => o.isInterchange_toValue
    · exact .texts _ q.groupBy
    · exact .list _ (forall_of_items h.having fun v hv _ _ =>
        HavingTerm.isInterchange (hitems v hv))
    · exact .list _ fun a _ => a.isInterchange_toValue
    · exact .list _ (forall_of_items h.fragments fun v hv _ _ =>
        Fragment.isInterchange (hitems v hv))
    · exact .option _ hlimit'
    · exact .one _ hoffset
    · exact .list _ fun w _ => w.isInterchange_toValue
    · exact .list _ (List.forall_mem_map.mpr htables')
    · exact .list _ (List.forall_mem_map.mpr hrecursive')
    · exact .list _ (forall_of_items h.framedWindows fun v hv _ _ =>
        FramedWindow.isInterchange (hitems v hv))
    · exact .option _ fun t _ => t.isInterchange_toValue
    · exact .option _ fun c hc =>
        CacheSettings.isInterchange (hr.get "cache") (read_of_unlessFalse h.cache c hc)
    · exact .option _ fun l hl =>
        Limits.isInterchange (hr.get "validation") (read_of_unlessFalse h.limits l hl)
  · decide

/-- A query that is read from a value of the format is written as such a value. -/
theorem Query.isInterchange_toValue {limit : Option Value} {v : Value} {q : Query}
    (hlimit : ∀ w ∈ limit, w.IsInterchange) (hv : v.IsInterchange)
    (h : Query.read limit v = .ok q) : q.toValue.IsInterchange :=
  (readsHold (W := IsInterchange) (L := fun limit => ∀ w ∈ limit, w.IsInterchange)
    (P := (·.toValue.IsInterchange)) (fun _ hv _ => hv.of_mem_parts)
    (isInterchange_map.mpr ⟨List.nodup_nil, List.forall_mem_nil _⟩) (fun _ hw => by cases hw)
    (fun hlimit hr htables hrecursive hfrom => hfrom.isInterchange hr hlimit htables hrecursive)
    v hv).query limit q hlimit h

end RowGate
