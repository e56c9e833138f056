import RowGate.Proofs.Cache.Scope
import RowGate.Proofs.Plan.Reordering
import RowGate.Proofs.Query.Interchange
/-!
What the key of a query says about the query. Main statement: queries that are read from values of
the interchange format and name no key have one key exactly if they are asked in one scope and their
maps differ in the order of keys only, and then they are compiled to the same operations.
-/
namespace RowGate.Cache

/-- A query that is written as a value of the format has the text of that value with sorted keys. -/
theorem queryText_eq_render {q : Query} {j : Json} (hj : j.isReadable = true)
    (hvalue : j.toValue = q.toValue) : queryText q = .ok j.sortKeys.render := by
  have hform : jsonOf q.toValue = .ok j := by
    rw [jsonOf, ← hvalue, toJson?_toValue fallback hj]
  rw [queryText, hform]
  rfl

/-- A query that names no key has a key if it has a text. -/
theorem keyOf_of_queryText {q : Query} {text : String} (hown : ownKey? q = none)
    (htext : queryText q = .ok text) (start scope : String) :
    ∃ key, keyOf (.text start) scope q = .ok key := by
  have hbehind : ∃ s, inScope (.text start) scope = .text s := by
    unfold inScope
    split
    · exact ⟨start, rfl⟩
    · exact ⟨_, rfl⟩
  obtain ⟨s, hs⟩ := hbehind
  refine ⟨s ++ text, ?_⟩
  rw [keyOf, hown, htext, hs]
  rfl

section

variable {limit limit' : Option Value} {v v' : Value} {q q' : Query}

/-- Queries that are read from values of the format and name no key have keys. They have the same key
exactly if they are asked in the same scope and their maps differ in the order of keys only; then they
are compiled to operations that are the same but for the order of keys and entries. -/
theorem keyOf_eq_iff_reordered (hlimit : ∀ w ∈ limit, w.IsInterchange)
    (hlimit' : ∀ w ∈ limit', w.IsInterchange) (hv : v.IsInterchange) (hv' : v'.IsInterchange)
    (hread : Query.read limit v = .ok q) (hread' : Query.read limit' v' = .ok q')
    (hown : ownKey? q = none) (hown' : ownKey? q' = none) (start scope scope' : String) :
    ∃ key key', keyOf (.text start) scope q = .ok key ∧
      keyOf (.text start) scope' q' = .ok key' ∧
      (key = key' ↔ scope = scope' ∧ q.toValue.Reordered q'.toValue) ∧
      (key = key' → Correspond OperationsReordered (Logged.run q.compile).1
        (Logged.run q'.compile).1) := by
  obtain ⟨j, hj, hq⟩ := Query.isInterchange_toValue hlimit hv hread
  obtain ⟨j', hj', hq'⟩ := Query.isInterchange_toValue hlimit' hv' hread'
  have htext := queryText_eq_render hj hq
  have htext' := queryText_eq_render hj' hq'
  obtain ⟨key, hkey⟩ := keyOf_of_queryText hown htext start scope
  obtain ⟨key', hkey'⟩ := keyOf_of_queryText hown' htext' start scope'
  have hsame : key = key' ↔ scope = scope' ∧ q.toValue.Reordered q'.toValue := by
    rw [← hq, ← hq', ← Json.render_sortKeys_eq_iff hj hj']
    constructor
    · rintro rfl
      obtain ⟨hscope, htexts⟩ := keyOf_inj hown hown' hkey hkey'
      rw [htext, htext'] at htexts
      exact ⟨hscope, Except.ok.inj htexts⟩
    · rintro ⟨rfl, hrender⟩
      rw [keyOf, hown, htext, hrender, ← htext'] at hkey
      rw [keyOf, hown'] at hkey'
      exact Except.ok.inj (hkey.symm.trans hkey')
  exact ⟨key, key', hkey, hkey', hsame,
    fun heq => (compile_reordered (hsame.mp heq).2 [] [] trivial).1⟩

/-- The first five rows that have some values. -/
def firstFive (entries : Record) : Query :=
  { Query.empty (some (.int 5)) with filter := entries }

/-- A search by owner and number; the owner has a name with marks of the format in it. -/
def sought : Record := [("owner", .text "a:\"\x7d"), ("id", .int 1)]

theorem reordered_search_same_key :
    Query.read none (.map [("limit", .text "5"), ("filter", .map sought)]) = .ok (firstFive sought) ∧
    Query.read (some (.int 5)) (.map [("filter", .map sought.reverse)]) =
      .ok (firstFive sought.reverse) ∧
    ∃ key, keyOf (.text "query:") "posts" (firstFive sought) = .ok key ∧
      keyOf (.text "query:") "posts" (firstFive sought.reverse) = .ok key ∧
      Correspond OperationsReordered (Logged.run (firstFive sought).compile).1
        (Logged.run (firstFive sought.reverse).compile).1 := by
  have hread : Query.read none (.map [("limit", .text "5"), ("filter", .map sought)]) =
      .ok (firstFive sought) := rfl
  have hread' : Query.read (some (.int 5)) (.map [("filter", .map sought.reverse)]) =
      .ok (firstFive sought.reverse) := rfl
  have hv : (Value.map [("limit", .text "5"), ("filter", .map sought)]).IsInterchange :=
    ⟨.object [("limit", .text "5"), ("filter", .object [("owner", .text "a:\"\x7d"), ("id", .int 1)])],
      rfl, rfl⟩
  have hv' : (Value.map [("filter", .map sought.reverse)]).IsInterchange :=
    ⟨.object [("filter", .object [("id", .int 1), ("owner", .text "a:\"\x7d")])], rfl, rfl⟩
  have hvalue (f : String × Value) (r : Record) : (firstFive (f :: r)).toValue =
      .map [("filter", .map (f :: r)), ("limit", .int 5), ("offset", .int 0)] := by
    refine (Query.toValue_eq _).trans ?_
    unfold firstFive Query.empty
    dsimp only
    unfold Query.fieldsWith
    dsimp only
    simp [tablesToValues, recursiveTablesToValues, Write.textsField, Write.listField, Write.entry]
  have hreordered : (firstFive sought).toValue.Reordered (firstFive sought.reverse).toValue := by
    have hfilter : (Value.map sought).Reordered (.map sought.reverse) :=
      .of_perm (by decide) (List.reverse_perm sought).symm
    refine (hvalue _ _).symm ▸ (hvalue _ _).symm ▸ ?_
    exact .replaced (by decide) hfilter
  have hlimit : ∀ w ∈ some (Value.int 5), w.IsInterchange := fun w hw =>
    Option.some.inj hw ▸ Value.isInterchange_int.mpr rfl
  obtain ⟨key, key', hkey, hkey', hsame, hcompile⟩ := keyOf_eq_iff_reordered
    (fun _ hw => by cases hw) hlimit hv hv' hread hread' rfl rfl "query:" "posts" "posts"
  obtain rfl := hsame.mpr ⟨rfl, hreordered⟩
  exact ⟨hread, hread', key, hkey, hkey', hcompile rfl⟩

end

end RowGate.Cache
