import RowGate.Json.Reader
import RowGate.Proofs.Json.Lexemes
/-!
Interchange values read back from their texts. Main statement: a value is what its text is read as,
if its integers are not too long and its objects have no key twice.
-/
namespace RowGate.Json

open Token (Lexes EndsAtom lexFrom lexFrom_step)

mutual

/-- Whether a value is read back from its text. -/
def isReadable : Json → Bool
  | .int n => isWritten n
  | .list items => allReadable items
  | .object fields => decide (fields.map (·.1)).Nodup && fieldsReadable fields
  | _ => true

/-- Whether all items of a list are read back. -/
def allReadable : List Json → Bool
  | [] => true
  | j :: js => j.isReadable && allReadable js

/-- Whether the values of all fields are read back. -/
def fieldsReadable : List (String × Json) → Bool
  | [] => true
  | (_, j) :: fs => j.isReadable && fieldsReadable fs

end

/-! Texts put together -/

theorem lexes_nil : Lexes [] [] := fun _ _ _ => rfl

/-- A text goes on with a character that ends a name or number. -/
theorem lexes_append {cs ds : List Char} {ts us : List Token} (hc : Lexes cs ts)
    (hd : Lexes ds us) (hends : EndsAtom ds) (hne : ds ≠ []) : Lexes (cs ++ ds) (ts ++ us) := by
  intro done rest hrest
  have hfollows : EndsAtom (ds ++ rest) := by
    cases ds with
    | nil => exact absurd rfl hne
    | cons d ds =>
      intro c more heq
      cases heq
      exact hends d ds rfl
  rw [List.append_assoc, hc done _ hfollows, hd _ _ hrest, List.reverse_append, List.append_assoc]

theorem lexes_blank {cs : List Char} {ts : List Token} (h : Lexes cs ts) : Lexes (' ' :: cs) ts :=
  fun done rest hrest => h done rest hrest

theorem lexes_mark {c : Char} {t : Token} (hstep : ∀ done,
    Token.step (.between, done) c = some (.between, t :: done)) {cs : List Char} {ts : List Token}
    (h : Lexes cs ts) : Lexes (c :: cs) (t :: ts) := by
  intro done rest hrest
  rw [List.cons_append, lexFrom_step (hstep done), h _ _ hrest]
  simp

theorem endsAtom_cons {c : Char} (h : Token.isAtomChar c = false) (cs : List Char) :
    EndsAtom (c :: cs) := by
  intro d ds heq
  cases heq
  exact h

/-! Values -/

/-- Lexemes are read as a value, wherever one may come. -/
def Parses (ts : List Token) (j : Json) : Prop :=
  ∀ frames, ts.foldlM step (.value, frames) = some (accept j frames) ∧
    ts.foldlM step (.valueOrEnd, frames) = some (accept j frames)

/-- A text is read as a value. -/
def Writes (s : String) (j : Json) : Prop := ∃ ts, Lexes s.toList ts ∧ Parses ts j

/-- Lexemes are read as the items of a list. -/
def ParsesItems (ts : List Token) (items : List Json) : Prop :=
  ∀ acc frames,
    ts.foldlM step (.value, .list acc :: frames) =
        some (.rest, .list (items.reverse ++ acc) :: frames) ∧
      ts.foldlM step (.valueOrEnd, .list acc :: frames) =
        some (.rest, .list (items.reverse ++ acc) :: frames)

/-- Lexemes are read as the fields of an object. -/
def ParsesFields (ts : List Token) (fields : List (String × Json)) : Prop :=
  ∀ acc key frames, ((acc ++ fields).map (·.1)).Nodup →
    ∃ last,
      ts.foldlM step (.key, .object acc key :: frames) =
          some (.rest, .object (acc ++ fields) last :: frames) ∧
        ts.foldlM step (.keyOrEnd, .object acc key :: frames) =
          some (.rest, .object (acc ++ fields) last :: frames)

/-- A lexeme that opens a value is read alike where a list may end. -/
theorem parses_of_begins {t : Token} {ts : List Token} {j : Json} (ht : t ≠ .closeList ∧ t ≠ .closeObject)
    (h : ∀ frames, (t :: ts).foldlM step (.value, frames) = some (accept j frames)) :
    Parses (t :: ts) j := by
  intro frames
  have hclose : close? frames t = none := by
    unfold close?
    split
    · exact absurd rfl ht.1
    · exact absurd rfl ht.2
    · rfl
  have hsame : step (.valueOrEnd, frames) t = step (.value, frames) t := by
    change (close? frames t).or (begin? frames t) = begin? frames t
    rw [hclose, Option.none_or]
  refine ⟨h frames, ?_⟩
  rw [← h frames, List.foldlM_cons, List.foldlM_cons, hsame]

theorem parses_atom (j : Json) : Parses [.atom j] j := parses_of_begins (by simp) fun _ => rfl

theorem parses_list {ts : List Token} {items : List Json} (h : ParsesItems ts items) :
    Parses (.openList :: (ts ++ [.closeList])) (.list items) := by
  refine parses_of_begins (by simp) fun frames => ?_
  have hopen : step (.value, frames) .openList = some (.valueOrEnd, .list [] :: frames) := rfl
  have hclose : step (.rest, .list (items.reverse ++ []) :: frames) .closeList =
      some (accept (.list items) frames) := by
    change some (accept (.list (items.reverse ++ []).reverse) frames) = _
    simp
  rw [List.foldlM_cons, hopen]
  change (ts ++ [Token.closeList]).foldlM step (.valueOrEnd, .list [] :: frames) = _
  rw [List.foldlM_append, (h [] frames).2]
  change [Token.closeList].foldlM step (.rest, .list (items.reverse ++ []) :: frames) = _
  rw [List.foldlM_cons, hclose]
  rfl

theorem parses_object {ts : List Token} {fields : List (String × Json)}
    (hkeys : (fields.map (·.1)).Nodup) (h : ParsesFields ts fields) :
    Parses (.openObject :: (ts ++ [.closeObject])) (.object fields) := by
  refine parses_of_begins (by simp) fun frames => ?_
  have hopen : step (.value, frames) .openObject = some (.keyOrEnd, .object [] "" :: frames) := rfl
  obtain ⟨last, -, hfields⟩ := h [] "" frames (by simpa using hkeys)
  have hclose : step (.rest, .object ([] ++ fields) last :: frames) .closeObject =
      some (accept (.object fields) frames) := rfl
  rw [List.foldlM_cons, hopen]
  change (ts ++ [Token.closeObject]).foldlM step (.keyOrEnd, .object [] "" :: frames) = _
  rw [List.foldlM_append, hfields]
  change [Token.closeObject].foldlM step (.rest, .object ([] ++ fields) last :: frames) = _
  rw [List.foldlM_cons, hclose]
  rfl

theorem parses_item {ts : List Token} {j : Json} (h : Parses ts j) : ParsesItems ts [j] :=
  fun acc frames => h (.list acc :: frames)

theorem parses_items_cons {ts us : List Token} {j : Json} {js : List Json} (h : Parses ts j)
    (hs : ParsesItems us js) : ParsesItems (ts ++ .comma :: us) (j :: js) := by
  intro acc frames
  have hcomma : step (.rest, .list (j :: acc) :: frames) .comma =
      some (.value, .list (j :: acc) :: frames) := rfl
  have hrest : (Token.comma :: us).foldlM step (.rest, .list (j :: acc) :: frames) =
      some (.rest, .list ((j :: js).reverse ++ acc) :: frames) := by
    rw [List.foldlM_cons, hcomma]
    change us.foldlM step (.value, .list (j :: acc) :: frames) = _
    rw [(hs (j :: acc) frames).1]
    simp
  rw [List.foldlM_append, List.foldlM_append, (h _).1, (h _).2]
  exact ⟨hrest, hrest⟩

theorem putField_of_notMem {fields : List (String × Json)} {key : String}
    (h : key ∉ fields.map (·.1)) (v : Json) : putField fields key v = fields ++ [(key, v)] := by
  induction fields with
  | nil => rfl
  | cons f fields ih =>
    obtain ⟨k, w⟩ := f
    rw [List.map_cons, List.mem_cons, not_or] at h
    rw [putField, if_neg (Ne.symm h.1), ih h.2]
    rfl

theorem parses_field {ts : List Token} {j : Json} (h : Parses ts j) (k : String) :
    ParsesFields (.atom (.text k) :: .colon :: ts) [(k, j)] := by
  intro acc key frames hkeys
  have hnew : k ∉ acc.map (·.1) := by
    rw [List.map_append, List.nodup_append] at hkeys
    exact fun hmem => hkeys.2.2 k hmem k (by simp) rfl
  have hvalue : ts.foldlM step (.value, .object acc k :: frames) =
      some (.rest, .object (acc ++ [(k, j)]) k :: frames) := by
    rw [(h _).1, accept, putField_of_notMem hnew]
  exact ⟨k, hvalue, hvalue⟩

/-- A field is written as its key and its value. -/
theorem writes_field {j : Json} (h : Writes j.render j) (k : String) :
    ∃ ts, Lexes (quote k ++ ": " ++ j.render).toList ts ∧ ParsesFields ts [(k, j)] := by
  obtain ⟨ts, hlex, hparse⟩ := h
  have htext : (quote k ++ ": " ++ j.render).toList =
      (quote k).toList ++ ':' :: ' ' :: j.render.toList := by
    simp
  refine ⟨_, ?_, parses_field hparse k⟩
  rw [htext]
  exact lexes_append (Token.lexes_quote k) (lexes_mark (fun _ => rfl) (lexes_blank hlex))
    (endsAtom_cons rfl _) (by simp)

theorem parses_fields_cons {ts us : List Token} {f : String × Json} {fs : List (String × Json)}
    (h : ParsesFields ts [f]) (hs : ParsesFields us fs) :
    ParsesFields (ts ++ .comma :: us) (f :: fs) := by
  intro acc key frames hkeys
  have happend : acc ++ f :: fs = (acc ++ [f]) ++ fs := by simp
  rw [happend] at hkeys ⊢
  obtain ⟨k, hfirst, hfirstEnd⟩ := h acc key frames (by
    rw [List.map_append] at hkeys
    exact hkeys.of_append_left)
  obtain ⟨last, hrest, -⟩ := hs (acc ++ [f]) k frames hkeys
  have hcomma : step (.rest, .object (acc ++ [f]) k :: frames) .comma =
      some (.key, .object (acc ++ [f]) k :: frames) := rfl
  have hafter : (Token.comma :: us).foldlM step (.rest, .object (acc ++ [f]) k :: frames) =
      some (.rest, .object ((acc ++ [f]) ++ fs) last :: frames) := by
    rw [List.foldlM_cons, hcomma]
    exact hrest
  rw [List.foldlM_append, List.foldlM_append, hfirst, hfirstEnd]
  exact ⟨last, hafter, hafter⟩

mutual

theorem writes_render : (j : Json) → j.isReadable = true → Writes j.render j
  | .null, _ =>
    ⟨_, Token.lexes_atom (by decide) (Token.isAtomChar_of_numerals (by decide)) rfl, parses_atom _⟩
  | .bool b, _ => by
    refine ⟨_, ?_, parses_atom (.bool b)⟩
    cases b
    · exact Token.lexes_atom (by decide) (Token.isAtomChar_of_numerals (by decide)) rfl
    · exact Token.lexes_atom (by decide) (Token.isAtomChar_of_numerals (by decide)) rfl
  | .int n, h => ⟨_, Token.lexes_int h, parses_atom _⟩
  | .float x, _ => ⟨_, Token.lexes_float x, parses_atom _⟩
  | .text s, _ => ⟨_, Token.lexes_quote s, parses_atom _⟩
  | .list [], _ => by
    refine ⟨[.openList, .closeList], ?_, ?_⟩
    · exact lexes_mark (fun _ => rfl) (lexes_mark (fun _ => rfl) lexes_nil)
    · exact parses_of_begins (by simp) fun frames => rfl
  | .list (j :: js), h => by
    obtain ⟨ts, hlex, hparse⟩ := writes_items (j :: js) h (by simp)
    have htext : (Json.list (j :: js)).render.toList =
        '[' :: ((String.intercalate ", " (renderList (j :: js))).toList ++ [']']) := by
      simp [render]
    refine ⟨_, ?_, parses_list hparse⟩
    rw [htext]
    refine lexes_mark (fun _ => rfl) (lexes_append hlex ?_ (endsAtom_cons rfl []) (by simp))
    exact lexes_mark (fun _ => rfl) lexes_nil
  | .object [], _ => by
    refine ⟨[.openObject, .closeObject], ?_, ?_⟩
    · exact lexes_mark (fun _ => rfl) (lexes_mark (fun _ => rfl) lexes_nil)
    · exact parses_of_begins (by simp) fun frames => rfl
  | .object (f :: fs), h => by
    obtain ⟨hkeys, hfields⟩ : ((f :: fs).map (·.1)).Nodup ∧ fieldsReadable (f :: fs) = true := by
      simpa [isReadable] using h
    obtain ⟨ts, hlex, hparse⟩ := writes_fields (f :: fs) hfields (by simp)
    have htext : (Json.object (f :: fs)).render.toList =
        '\x7b' :: ((String.intercalate ", " (renderFields (f :: fs))).toList ++ ['\x7d']) := by
      simp [render]
    refine ⟨_, ?_, parses_object hkeys hparse⟩
    rw [htext]
    refine lexes_mark (fun _ => rfl) (lexes_append hlex ?_ (endsAtom_cons rfl []) (by simp))
    exact lexes_mark (fun _ => rfl) lexes_nil

theorem writes_items : (items : List Json) → allReadable items = true → items ≠ [] →
    ∃ ts, Lexes (String.intercalate ", " (renderList items)).toList ts ∧ ParsesItems ts items
  | [], _, hne => absurd rfl hne
  | [j], h, _ => by
    obtain ⟨hj, -⟩ : j.isReadable = true ∧ allReadable [] = true := by simpa [allReadable] using h
    obtain ⟨ts, hlex, hparse⟩ := writes_render j hj
    exact ⟨ts, by simpa [renderList] using hlex, parses_item hparse⟩
  | j :: k :: js, h, _ => by
    obtain ⟨hj, hjs⟩ : j.isReadable = true ∧ allReadable (k :: js) = true := by
      simpa [allReadable] using h
    obtain ⟨ts, hlex, hparse⟩ := writes_render j hj
    obtain ⟨us, hlexs, hparses⟩ := writes_items (k :: js) hjs (by simp)
    have htext : (String.intercalate ", " (renderList (j :: k :: js))).toList =
        j.render.toList ++
          ',' :: ' ' :: (String.intercalate ", " (renderList (k :: js))).toList := by
      simp [renderList, String.toList_intercalate]
    refine ⟨_, ?_, parses_items_cons hparse hparses⟩
    rw [htext]
    exact lexes_append hlex (lexes_mark (fun _ => rfl) (lexes_blank hlexs)) (endsAtom_cons rfl _)
      (by simp)

theorem writes_fields : (fields : List (String × Json)) → fieldsReadable fields = true →
    fields ≠ [] →
    ∃ ts, Lexes (String.intercalate ", " (renderFields fields)).toList ts ∧ ParsesFields ts fields
  | [], _, hne => absurd rfl hne
  | [(k, j)], h, _ => by
    obtain ⟨hj, -⟩ : j.isReadable = true ∧ fieldsReadable [] = true := by
      simpa [fieldsReadable] using h
    obtain ⟨ts, hlex, hparse⟩ := writes_field (writes_render j hj) k
    exact ⟨ts, by simpa [renderFields] using hlex, hparse⟩
  | (k, j) :: f :: fs, h, _ => by
    obtain ⟨hj, hfs⟩ : j.isReadable = true ∧ fieldsReadable (f :: fs) = true := by
      simpa only [fieldsReadable, Bool.and_eq_true] using h
    obtain ⟨ts, hlex, hparse⟩ := writes_field (writes_render j hj) k
    obtain ⟨us, hlexs, hparses⟩ := writes_fields (f :: fs) hfs (by simp)
    have htext : (String.intercalate ", " (renderFields ((k, j) :: f :: fs))).toList =
        (quote k ++ ": " ++ j.render).toList ++
          ',' :: ' ' :: (String.intercalate ", " (renderFields (f :: fs))).toList := by
      simp [renderFields, String.toList_intercalate]
    refine ⟨_, ?_, parses_fields_cons hparse hparses⟩
    rw [htext]
    exact lexes_append hlex (lexes_mark (fun _ => rfl) (lexes_blank hlexs)) (endsAtom_cons rfl _)
      (by simp)

end

/-- A value is read back from its text. -/
theorem parse?_render {j : Json} (h : j.isReadable = true) : parse? j.render = some j := by
  obtain ⟨ts, hlex, hparse⟩ := writes_render j h
  have htokens : Token.lex? j.render.toList = some ts := by
    have hend := hlex [] [] (by intro c cs h; cases h)
    rw [List.append_nil, List.append_nil] at hend
    refine hend.trans ?_
    change some ts.reverse.reverse = some ts
    rw [List.reverse_reverse]
  unfold parse?
  rw [htokens]
  change (ts.foldlM step (.value, []) >>= _) = _
  rw [(hparse []).1]
  rfl

end RowGate.Json
