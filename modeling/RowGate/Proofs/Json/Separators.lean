import RowGate.Json.Writer
import RowGate.Proofs.Number.Texts
/-!
Where colons stand in the texts of interchange values. Main statement: no such text has a colon, an
opening brace and a quote in a row that a letter follows. Between the parts of a value a blank
follows each colon, and inside a text a quote is escaped.
-/
namespace RowGate.Json

/-- How much of a colon, an opening brace and a quote has just been read. -/
inductive Seen where
  | nothing
  | colon
  | brace
  | all
deriving DecidableEq

/-- What has been read with one more character; a letter behind all three is refused. -/
def Seen.next : Seen → Char → Option Seen
  | .nothing, c => some (if c = ':' then .colon else .nothing)
  | .colon, c => some (if c = ':' then .colon else if c = '\x7b' then .brace else .nothing)
  | .brace, c => some (if c = ':' then .colon else if c = '\"' then .all else .nothing)
  | .all, c => if c.isAlpha then none else some (if c = ':' then .colon else .nothing)

/-- What has been read at the end of a text. -/
def Seen.scan (s : Seen) (cs : List Char) : Option Seen := cs.foldlM Seen.next s

open Seen

theorem scan_append (s : Seen) (xs ys : List Char) :
    s.scan (xs ++ ys) = (s.scan xs).bind fun t => t.scan ys :=
  List.foldlM_append

theorem scan_cons (s : Seen) (c : Char) (cs : List Char) :
    s.scan (c :: cs) = (s.next c).bind fun t => t.scan cs :=
  List.foldlM_cons

/-- Texts without colons. -/
theorem scan_plain {cs : List Char} (h : ':' ∉ cs) : nothing.scan cs = some nothing := by
  induction cs with
  | nil => rfl
  | cons c cs ih =>
    rw [List.mem_cons, not_or] at h
    rw [scan_cons, next, if_neg (Ne.symm h.1)]
    exact ih h.2

/-- A text that is read from the start ends with no letter refused behind it, or with one that any
other character follows. -/
def Settles (cs : List Char) : Prop := ∃ s, (s = nothing ∨ s = all) ∧ nothing.scan cs = some s

theorem settles_plain {cs : List Char} (h : ':' ∉ cs) : Settles cs :=
  ⟨nothing, .inl rfl, scan_plain h⟩

/-- After a text that settles, a character that is neither a colon nor a letter starts anew. -/
theorem Settles.scan_sep {xs : List Char} (h : Settles xs) {c : Char} (hcolon : c ≠ ':')
    (halpha : c.isAlpha = false) (ys : List Char) :
    nothing.scan (xs ++ c :: ys) = nothing.scan ys := by
  obtain ⟨s, hs, hscan⟩ := h
  rw [scan_append, hscan, Option.bind_some, scan_cons]
  rcases hs with rfl | rfl
  · simp [next, hcolon]
  · simp [next, hcolon, halpha]

/-- After a text that settles, a colon with a blank starts anew. -/
theorem Settles.scan_colon {xs : List Char} (h : Settles xs) (ys : List Char) :
    nothing.scan (xs ++ ':' :: ' ' :: ys) = nothing.scan ys := by
  obtain ⟨s, hs, hscan⟩ := h
  rw [scan_append, hscan, Option.bind_some]
  rcases hs with rfl | rfl <;> rfl

theorem hex_no_colon (width n : Nat) : ':' ∉ hex width n := by
  induction width generalizing n with
  | zero => simp [hex]
  | succ width ih =>
    rw [hex, List.mem_append, not_or]
    have hdigit : ∀ d < 16, ':' ≠ hexDigit d := by decide
    refine ⟨ih _, fun hmem => ?_⟩
    exact hdigit (n % 16) (Nat.mod_lt n (by decide)) (List.mem_singleton.mp hmem)

/-- An escaped code unit starts anew. -/
theorem scan_unitEscape {s : Seen} (hs : s ≠ all) (n : Nat) (cs : List Char) :
    s.scan (unitEscape n ++ cs) = nothing.scan cs := by
  have hback : s.next '\\' = some nothing := by
    cases s with
    | all => exact absurd rfl hs
    | _ => rfl
  change s.scan ('\\' :: 'u' :: (hex 4 n ++ cs)) = _
  rw [scan_cons, hback]
  change nothing.scan (hex 4 n ++ cs) = _
  rw [scan_append, scan_plain (hex_no_colon 4 n)]
  rfl

/-- A character that is no quote never completes the three. -/
theorem next_of_ne_quote {s : Seen} (hs : s ≠ all) {c : Char} (hc : c ≠ '\"') :
    ∃ t, t ≠ all ∧ s.next c = some t := by
  cases s with
  | nothing =>
    by_cases hcolon : c = ':'
    · exact ⟨colon, nofun, by simp [next, hcolon]⟩
    · exact ⟨nothing, nofun, by simp [next, hcolon]⟩
  | colon =>
    by_cases hcolon : c = ':'
    · exact ⟨colon, nofun, by simp [next, hcolon]⟩
    by_cases hbrace : c = '\x7b'
    · exact ⟨brace, nofun, by simp [next, hbrace]⟩
    · exact ⟨nothing, nofun, by simp [next, hcolon, hbrace]⟩
  | brace =>
    by_cases hcolon : c = ':'
    · exact ⟨colon, nofun, by simp [next, hcolon]⟩
    · exact ⟨nothing, nofun, by simp [next, hcolon, hc]⟩
  | all => exact absurd rfl hs

/-- Inside a quoted text a quote is never read behind an opening brace. -/
theorem scan_escape {s : Seen} (hs : s ≠ all) (c : Char) :
    ∃ t, t ≠ all ∧ s.scan (escape c) = some t := by
  have hunits (n : Nat) : s.scan (unitEscape n) = some nothing := by
    rw [← List.append_nil (unitEscape n), scan_unitEscape hs]
    rfl
  unfold escape
  split
  case h_8 hquote _ _ _ _ _ _ =>
    dsimp only
    split
    · obtain ⟨t, ht, hnext⟩ := next_of_ne_quote hs hquote
      exact ⟨t, ht, by rw [scan_cons, hnext]; rfl⟩
    split
    · exact ⟨nothing, nofun, hunits _⟩
    · refine ⟨nothing, nofun, ?_⟩
      rw [scan_append, hunits, Option.bind_some, ← List.append_nil (unitEscape _),
        scan_unitEscape (s := nothing) (by decide)]
      rfl
  all_goals
    refine ⟨nothing, nofun, ?_⟩
    cases s with
    | all => exact absurd rfl hs
    | _ => rfl

theorem scan_escapes {s : Seen} (hs : s ≠ all) (cs : List Char) :
    ∃ t, t ≠ all ∧ s.scan (cs.flatMap escape) = some t := by
  induction cs generalizing s with
  | nil => exact ⟨s, hs, rfl⟩
  | cons c cs ih =>
    obtain ⟨t, ht, hscan⟩ := scan_escape hs c
    obtain ⟨u, hu, hrest⟩ := ih ht
    refine ⟨u, hu, ?_⟩
    rw [List.flatMap_cons, scan_append, hscan, Option.bind_some, hrest]

theorem settles_quote (s : String) : Settles (Json.quote s).toList := by
  have hlist : (Json.quote s).toList = '\"' :: (s.toList.flatMap escape ++ ['\"']) := by
    simp [Json.quote]
  obtain ⟨t, ht, hscan⟩ := scan_escapes (s := nothing) nofun s.toList
  have hstart : nothing.scan ('\"' :: (s.toList.flatMap escape ++ ['\"'])) = t.scan ['\"'] := by
    rw [scan_cons]
    change nothing.scan (_ ++ _) = _
    rw [scan_append, hscan, Option.bind_some]
  rw [hlist, Settles, hstart]
  cases t with
  | nothing => exact ⟨nothing, .inl rfl, rfl⟩
  | colon => exact ⟨nothing, .inl rfl, rfl⟩
  | brace => exact ⟨all, .inr rfl, rfl⟩
  | all => exact absurd rfl ht

/-- Texts that settle still do with a comma and a blank between them. -/
theorem settles_intercalate {ss : List String} (h : ∀ s ∈ ss, Settles s.toList) :
    Settles (String.intercalate ", " ss).toList := by
  rw [String.toList_intercalate]
  induction ss with
  | nil => exact settles_plain (by simp)
  | cons s ss ih =>
    obtain ⟨hs, hss⟩ := List.forall_mem_cons.mp h
    cases ss with
    | nil => simpa using hs
    | cons t ts =>
      have hsplit : ", ".toList.intercalate ((s :: t :: ts).map String.toList) =
          s.toList ++ ',' :: ' ' :: ", ".toList.intercalate ((t :: ts).map String.toList) := by
        simp
      rw [hsplit, Settles, hs.scan_sep (by decide) (by decide)]
      exact ih hss

/-- A text that settles still does between two marks. -/
theorem Settles.between {xs : List Char} (h : Settles xs) {start stop : Char} (hstart : start ≠ ':')
    (hstop : stop ≠ ':') (halpha : stop.isAlpha = false) : Settles (start :: (xs ++ [stop])) := by
  have hscan : nothing.scan (start :: (xs ++ [stop])) = nothing.scan (xs ++ [stop]) := by
    rw [scan_cons, next, if_neg hstart]
    rfl
  rw [Settles, hscan, h.scan_sep hstop halpha]
  exact ⟨nothing, .inl rfl, rfl⟩

mutual

theorem settles_render : (j : Json) → Settles j.render.toList
  | .null => settles_plain (by decide)
  | .bool b => settles_plain (by cases b <;> decide)
  | .int n => settles_plain ((Number.numerals_intText n).colon_notMem)
  | .float x => by
    refine settles_plain ?_
    simp only [render, floatText]
    split
    · decide
    · split <;> decide
    · exact (Number.numerals_fullText x).colon_notMem
  | .text s => settles_quote s
  | .list items => by
    have hmarks : (Json.list items).render.toList =
        '[' :: ((String.intercalate ", " (renderList items)).toList ++ [']']) := by simp [render]
    rw [hmarks]
    exact (settles_intercalate (settles_renderList items)).between (by decide) (by decide)
      (by decide)
  | .object fields => by
    have hmarks : (Json.object fields).render.toList =
        '\x7b' :: ((String.intercalate ", " (renderFields fields)).toList ++ ['\x7d']) := by
      simp [render]
    rw [hmarks]
    exact (settles_intercalate (settles_renderFields fields)).between (by decide) (by decide)
      (by decide)

theorem settles_renderList : (js : List Json) → ∀ s ∈ renderList js, Settles s.toList
  | [], _, h => nomatch h
  | j :: js, s, h => by
    rcases List.mem_cons.mp h with rfl | h
    · exact settles_render j
    · exact settles_renderList js s h

theorem settles_renderFields : (fs : List (String × Json)) → ∀ s ∈ renderFields fs, Settles s.toList
  | [], _, h => nomatch h
  | (k, j) :: fs, s, h => by
    rcases List.mem_cons.mp h with rfl | h
    · have hsplit : (Json.quote k ++ ": " ++ j.render).toList =
          (Json.quote k).toList ++ ':' :: ' ' :: j.render.toList := by simp
      rw [hsplit, Settles, (settles_quote k).scan_colon]
      exact settles_render j
    · exact settles_renderFields fs s h

end

/-- No text of an interchange value goes on with a letter behind a colon, an opening brace and a
quote. -/
theorem render_ne (j : Json) {c : Char} (hc : c.isAlpha = true) (xs ys : List Char) :
    j.render.toList ≠ xs ++ ':' :: '\x7b' :: '\"' :: c :: ys := by
  intro heq
  obtain ⟨s, -, hscan⟩ := settles_render j
  rw [heq, scan_append] at hscan
  obtain ⟨t, -, ht⟩ := Option.bind_eq_some_iff.mp hscan
  have hrefused : t.scan (':' :: '\x7b' :: '\"' :: c :: ys) = none := by
    have hcolon : t.next ':' = some colon := by cases t <;> rfl
    rw [scan_cons, hcolon, Option.bind_some, scan_cons, next, if_neg (by decide), if_pos rfl,
      Option.bind_some, scan_cons, next, if_neg (by decide), if_pos rfl, Option.bind_some,
      scan_cons, next, if_pos hc]
    rfl
  rw [hrefused] at ht
  cases ht

end RowGate.Json
