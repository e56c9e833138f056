import Mathlib
import RowGate.Proofs.Access.Answered
/-!
Batches of records at the gate, under fixed answers. Main statement: a batch is decided record by
record. Where denials are raised it may be written if each record may be alone, where they are
dropped the records are left that may be written alone, and rows that are read may be put together
before the gate or behind it.
-/
namespace RowGate.Access

open Asking

variable {o : (q : Question) → q.Answer}

/-- Whether rules that compare no field deny a user everything. -/
def Refuses (o : (q : Question) → q.Answer) (rules : List Rule) (u : User) : Prop :=
  rules ≠ [] ∧ hasFieldCheck rules = false ∧ ruled o rules u none = .ok false

/-- Whether something is left of a record that is written alone. -/
def keptAlone (write : List Record → Except Fault (List Record)) (r : Record) : Bool :=
  match write [r] with
  | .ok kept => !kept.isEmpty
  | .error _ => false

/-- The batches that a call hands over to be written, in order. -/
def handed {α : Type} (o : (q : Question) → q.Answer) (x : Checking α) : List (List Record) :=
  (asked o x).filterMap fun
    | .write records => some records
    | _ => none

section Reading

variable {c : Config} {table operation : String} {rules : List Rule} {u : User}

theorem result_allowedRows_cons (r : Record) (rows : List Record) :
    result o (allowedRows c table operation rules u (r :: rows)) =
      ruled o rules u (some r) >>= fun b =>
        result o (allowedRows c table operation rules u rows) >>= fun others =>
          .ok (if b then r :: others else others) := by
  simp only [allowedRows, result_bind, result_isAllowed, result_pure]

theorem result_allowedRows_append (xs ys : List Record) :
    result o (allowedRows c table operation rules u (xs ++ ys)) =
      result o (allowedRows c table operation rules u xs) >>= fun first =>
        result o (allowedRows c table operation rules u ys) >>= fun second =>
          .ok (first ++ second) := by
  induction xs with
  | nil =>
    rw [List.nil_append, allowedRows, result_pure, ok_sequence]
    cases result o (allowedRows c table operation rules u ys) <;> rfl
  | cons r xs ih =>
    rw [List.cons_append, result_allowedRows_cons, result_allowedRows_cons, ih]
    cases ruled o rules u (some r) with
    | error f => rfl
    | ok b =>
      cases result o (allowedRows c table operation rules u xs) with
      | error f => rfl
      | ok first =>
        cases result o (allowedRows c table operation rules u ys) with
        | error f => rfl
        | ok second => cases b <;> rfl

/-- Rules judge two batches together as they judge them one after the other. -/
theorem result_checkRules_append (xs ys : List Record) :
    result o (checkRules c table operation rules (xs ++ ys) u) =
      result o (checkRules c table operation rules xs u) >>= fun first =>
        result o (checkRules c table operation rules ys u) >>= fun second =>
          .ok (first ++ second) := by
  simp only [result_checkRules_eq]
  split
  · rfl
  split
  · exact result_allowedRows_append xs ys
  · cases ruled o rules u none with
    | error f => rfl
    | ok b => cases b <;> rfl

theorem result_authorizeRows_append (xs ys : List Record) :
    result o (authorizeRows c table operation (xs ++ ys) u) =
      result o (authorizeRows c table operation xs u) >>= fun first =>
        result o (authorizeRows c table operation ys u) >>= fun second =>
          .ok (first ++ second) := by
  unfold authorizeRows
  simp only [result_bind]
  cases result o (rulesFor c table (Text.upper operation) (some u)) with
  | error f => rfl
  | ok rules => exact result_checkRules_append xs ys

end Reading

section Writing

variable {c : Config} {table operation : String} {a : Action} {rules : List Rule} {u : User}
  {records : List Record}

theorem authorizeWrite_named (hname : Text.upper operation = a.name) (records : List Record) :
    authorizeWrite c table operation records u = authorizeWrite c table a.name records u := by
  unfold authorizeWrite
  rw [hname, upper_name]

/-- Where all records can be judged, a gate that does not answer denies. -/
theorem checkRules_denies {operation : String}
    (hjudged : ∀ r ∈ records, ∃ b, decided o rules u r = .ok b) (hrecords : records ≠ [])
    {f : Fault} (h : result o (checkRules c table operation rules records u) = .error f) :
    f = .denied table operation u.shown none ∧ Refuses o rules u := by
  rw [result_checkRules_eq] at h
  split at h
  · cases h
  rename_i hsome
  split at h
  · rename_i hfield
    have hanswers (r : Record) (hr : r ∈ records) : ∃ b, ruled o rules u (some r) = .ok b := by
      rw [← decided_of_hasFieldCheck hfield]
      exact hjudged r hr
    rw [result_allowedRows.mpr ⟨hanswers, rfl⟩] at h
    cases h
  · rename_i hfield
    obtain ⟨r, hr⟩ := List.exists_mem_of_ne_nil records hrecords
    obtain ⟨b, hb⟩ := hjudged r hr
    have hnone : ruled o rules u none = .ok b := by
      simpa [decided, hsome, hfield] using hb
    rw [hnone] at h
    cases b with
    | true => cases h
    | false => exact ⟨(Except.error.inj h).symm, by simpa using hsome, by simpa using hfield, hnone⟩

theorem authorizeWrite_denies (hrules : stored? o table a = some rules)
    (hjudged : ∀ r ∈ records, ∃ b, decided o rules u r = .ok b) (hrecords : records ≠ [])
    {f : Fault} (h : result o (authorizeWrite c table a.name records u) = .error f) :
    ∃ wording, f = .denied table a.name u.shown wording := by
  unfold authorizeWrite at h
  rw [upper_name, result_bind, result_rulesFor.mpr hrules, ok_sequence,
    result_bind] at h
  cases hchecked : result o (checkRules c table a.name rules records u) with
  | error g =>
    rw [hchecked] at h
    obtain ⟨hg, -⟩ := checkRules_denies hjudged hrecords hchecked
    exact ⟨none, (Except.error.inj h).symm.trans hg⟩
  | ok kept =>
    rw [hchecked, ok_sequence] at h
    dsimp only at h
    split at h
    · exact ⟨_, (Except.error.inj h).symm⟩
    · cases h

theorem authorizeWrite_full (hrules : stored? o table a = some rules)
    (hjudged : ∀ r ∈ records, ∃ b, decided o rules u r = .ok b) (hrecords : records ≠ []) :
    result o (authorizeWrite c table a.name records u) = .ok records ↔
      ∀ r ∈ records, permits o rules u r = true := by
  rw [result_authorizeWrite hrecords]
  constructor
  · rintro ⟨rules', hrules', -, hkept, -⟩
    obtain rfl := Option.some.inj (hrules.symm.trans hrules')
    exact List.filter_eq_self.mp hkept.symm
  · intro hall
    exact ⟨rules, hrules, hjudged, (List.filter_eq_self.mpr hall).symm, fun _ => rfl⟩

theorem authorizeWrite_raising (hrules : stored? o table a = some rules)
    (hmode : c.writeMode = .raise)
    (hjudged : ∀ r ∈ records, ∃ b, decided o rules u r = .ok b) (hrecords : records ≠ [])
    (h : result o (authorizeWrite c table a.name records u) ≠ .ok records) :
    ∃ wording, result o (authorizeWrite c table a.name records u) =
      .error (.denied table a.name u.shown wording) := by
  cases hanswer : result o (authorizeWrite c table a.name records u) with
  | ok kept =>
    obtain ⟨_, -, -, -, hfull⟩ := (result_authorizeWrite hrecords).mp hanswer
    rw [hanswer, hfull (.inr hmode)] at h
    exact absurd rfl h
  | error f =>
    obtain ⟨wording, rfl⟩ := authorizeWrite_denies hrules hjudged hrecords hanswer
    exact ⟨wording, rfl⟩

theorem authorizeWrite_refused (hrules : stored? o table a = some rules)
    (h : Refuses o rules u) (records : List Record) :
    result o (authorizeWrite c table a.name records u) =
      .error (.denied table a.name u.shown none) := by
  obtain ⟨hsome, hfield, hnone⟩ := h
  have hchecked : result o (checkRules c table a.name rules records u) =
      .error (.denied table a.name u.shown none) := by
    rw [result_checkRules_eq, if_neg (by simpa using hsome), if_neg (by simp [hfield]), hnone]
    rfl
  unfold authorizeWrite
  rw [upper_name, result_bind, result_rulesFor.mpr hrules, ok_sequence,
    result_bind, hchecked]
  rfl

theorem authorizeWrite_dropping (hrules : stored? o table a = some rules)
    (hmode : c.writeMode = .filter)
    (hjudged : ∀ r ∈ records, ∃ b, decided o rules u r = .ok b) (hrecords : records ≠ [])
    (h : ¬Refuses o rules u) :
    result o (authorizeWrite c table a.name records u) =
      .ok (records.filter (permits o rules u)) := by
  rw [result_authorizeWrite hrecords]
  refine ⟨rules, hrules, hjudged, rfl, ?_⟩
  rintro (hfield | hraise)
  · -- one ruling without a row then stands for all records, and it does not deny
    refine List.filter_eq_self.mpr fun r hr => ?_
    obtain ⟨b, hb⟩ := hjudged r hr
    cases b with
    | true => exact permits_of_decided hb
    | false =>
      by_cases hsome : rules = []
      · rw [hsome] at hb
        cases hb
      · have hnone : ruled o rules u none = .ok false := by
          simpa [decided, hsome, hfield] using hb
        exact absurd ⟨hsome, hfield, hnone⟩ h
  · rw [hmode] at hraise
    cases hraise

/-- What is left of a record alone is the record, or nothing. -/
theorem keptAlone_iff (hrules : stored? o table a = some rules) {r : Record}
    (hjudged : ∃ b, decided o rules u r = .ok b) :
    keptAlone (fun records => result o (authorizeWrite c table a.name records u)) r = true ↔
      permits o rules u r = true := by
  unfold keptAlone
  constructor
  · intro h
    dsimp only at h
    split at h
    · rename_i kept hkept
      obtain ⟨rules', hrules', -, rfl, -⟩ :=
        (result_authorizeWrite (List.cons_ne_nil r [])).mp hkept
      obtain rfl := Option.some.inj (hrules.symm.trans hrules')
      by_contra hdenied
      simp [hdenied] at h
    · cases h
  · intro hpermits
    have halone : result o (authorizeWrite c table a.name [r] u) = .ok [r] :=
      (authorizeWrite_full hrules (by simpa using hjudged) (List.cons_ne_nil r [])).mpr
        (by simpa using hpermits)
    dsimp only
    rw [halone]
    rfl

end Writing

section Handing

variable {α β : Type}

theorem handed_bind (x : Checking α) (f : α → Checking β) :
    handed o (x >>= f) = handed o x ++
      match result o x with
      | .ok a => handed o (f a)
      | .error _ => [] := by
  unfold handed
  rw [asked_bind, List.filterMap_append]
  cases result o x <;> rfl

theorem handed_eq_nil {table : String} {x : Checking α}
    (h : AsksOnly (Question.Judges table) x) : handed o x = [] := by
  refine List.filterMap_eq_nil_iff.mpr fun q hq => ?_
  have hjudges : q.Judges table := by
    have htalk := talks_result o x
    exact h.of_talks htalk ⟨q, o q⟩ (List.mem_map.mpr ⟨q, hq, rfl⟩)
  cases q with
  | write records => cases hjudges
  | _ => rfl

theorem handed_authorizeWrite (c : Config) (table operation : String) (records : List Record)
    (u : User) : handed o (authorizeWrite c table operation records u) = [] := by
  unfold authorizeWrite
  -- the name of the operation is put into upper case twice, which must not be computed
  generalize Text.upper operation = action
  apply handed_eq_nil
  refine asksOnly_bind (asksOnly_rulesFor c action _) fun rules => ?_
  refine asksOnly_bind (asksOnly_checkRules c table action rules records u) fun kept => ?_
  dsimp only
  split
  · exact asksOnly_throw _
  · exact asksOnly_pure _

/-- A guarded write hands over what may be written, if that is something, and nothing else. -/
theorem handed_guardedWrite (c : Config) (table operation : String) (records : List Record)
    (u : User) :
    handed o (guardedWrite c table operation records u) =
      match result o (authorizeWrite c table operation records u) with
      | .ok kept => if kept.isEmpty then [] else [kept]
      | .error _ => [] := by
  unfold guardedWrite
  rw [handed_bind, handed_authorizeWrite, List.nil_append]
  cases result o (authorizeWrite c table operation records u) with
  | error f => rfl
  | ok kept =>
    dsimp only
    split
    · rfl
    · rw [handed_bind]
      have hover : handed o (handOver kept) = [kept] := rfl
      rw [hover]
      cases result o (handOver kept) <;> rfl

end Handing

/-- A batch whose records can all be judged is decided record by record. Where denials are raised,
it may be written if and only if each record may be written alone, and is denied otherwise. Where
denied records are dropped, those are left that are left alone, in order; only rules that compare no
field and deny the user deny the batch. What may be written is handed over once, if it is anything.
Two batches that are read together are read one after the other. -/
theorem batches_decided_singly {table operation : String} {a : Action} {rules : List Rule}
    (hname : Text.upper operation = a.name) (hrules : stored? o table a = some rules) (c : Config)
    (u : User) {records : List Record} (hrecords : records ≠ [])
    (hjudged : ∀ r ∈ records, ∃ b, decided o rules u r = .ok b) :
    let write := fun records => result o (authorizeWrite c table operation records u)
    let read := fun rows => result o (authorizeRows c table operation rows u)
    (c.writeMode = .raise →
      (write records = .ok records ↔ ∀ r ∈ records, write [r] = .ok [r]) ∧
        (write records ≠ .ok records →
          ∃ wording, write records = .error (.denied table a.name u.shown wording))) ∧
    (c.writeMode = .filter →
      (¬Refuses o rules u → write records = .ok (records.filter (keptAlone write))) ∧
        (Refuses o rules u → write records = .error (.denied table a.name u.shown none))) ∧
    (∀ r ∈ records, keptAlone write r = true ↔ write [r] = .ok [r]) ∧
    (∀ kept, write records = .ok kept →
      handed o (guardedWrite c table operation records u) = if kept.isEmpty then [] else [kept]) ∧
    (∀ f, write records = .error f → handed o (guardedWrite c table operation records u) = []) ∧
    ∀ xs ys, read (xs ++ ys) = do return (← read xs) ++ (← read ys) := by
  intro write read
  have hwrite (records : List Record) :
      write records = result o (authorizeWrite c table a.name records u) :=
    congrArg (result o) (authorizeWrite_named hname records)
  have hsingle (r : Record) (hr : r ∈ records) :
      write [r] = .ok [r] ↔ permits o rules u r = true := by
    rw [hwrite, authorizeWrite_full hrules (by simpa using hjudged r hr) (List.cons_ne_nil r [])]
    exact List.forall_mem_singleton
  have hkept (r : Record) (hr : r ∈ records) :
      keptAlone write r = true ↔ permits o rules u r = true := by
    rw [funext hwrite]
    exact keptAlone_iff hrules (hjudged r hr)
  refine ⟨fun hmode => ⟨?_, ?_⟩, fun hmode => ⟨?_, ?_⟩, ?_, ?_, ?_, ?_⟩
  · rw [hwrite, authorizeWrite_full hrules hjudged hrecords]
    exact (forall₂_congr hsingle).symm
  · rw [hwrite]
    exact authorizeWrite_raising hrules hmode hjudged hrecords
  · intro hrefuses
    have hsame : records.filter (keptAlone write) = records.filter (permits o rules u) :=
      List.filter_congr fun r hr => Bool.eq_iff_iff.mpr (hkept r hr)
    rw [hwrite, hsame]
    exact authorizeWrite_dropping hrules hmode hjudged hrecords hrefuses
  · intro hrefuses
    rw [hwrite]
    exact authorizeWrite_refused hrules hrefuses records
  · exact fun r hr => (hkept r hr).trans (hsingle r hr).symm
  · intro kept hanswer
    rw [handed_guardedWrite]
    change result o (authorizeWrite c table operation records u) = _ at hanswer
    rw [hanswer]
  · intro f hanswer
    rw [handed_guardedWrite]
    change result o (authorizeWrite c table operation records u) = _ at hanswer
    rw [hanswer]
  · exact result_authorizeRows_append

/-- Answers where posts may be changed by their owner. -/
def ownPosts : (q : Question) → q.Answer
  | .permissions _ => .ok (some ⟨[(.update, [.field ⟨"owner", .equal, .context "userId"⟩])]⟩)
  | .holds .. => .ok false
  | .write records => .ok records.length
  | .log _ => ()

/-- The rules under which they may. -/
def owned : List Rule := [.field ⟨"owner", .equal, .context "userId"⟩]

/-- A user with a name. -/
def ann : User := ⟨.text "ann", [], [], .null, none, []⟩

/-- A gate that drops records that are denied. -/
def dropping : Config := { Config.default with writeMode := .filter }

theorem foreign_post_dropped :
    let posts : List Record := [[("owner", .text "ann")], [("owner", .text "bob")]]
    Text.upper "UPDATE" = Action.update.name ∧ stored? ownPosts "posts" .update = some owned ∧
      (∀ r ∈ posts, ∃ b, decided ownPosts owned ann r = .ok b) ∧
      handed ownPosts (guardedWrite dropping "posts" "UPDATE" posts ann) =
        [[[("owner", .text "ann")]]] := by
  intro posts
  have hname : Text.upper "UPDATE" = Action.update.name := upper_name .update
  have hstored : stored? ownPosts "posts" .update = some owned := rfl
  have hann : decided ownPosts owned ann [("owner", .text "ann")] = .ok true := by cbv
  have hbob : decided ownPosts owned ann [("owner", .text "bob")] = .ok false := by cbv
  have hjudged : ∀ r ∈ posts, ∃ b, decided ownPosts owned ann r = .ok b :=
    List.forall_mem_cons.mpr ⟨⟨true, hann⟩, List.forall_mem_singleton.mpr ⟨false, hbob⟩⟩
  refine ⟨hname, hstored, hjudged, ?_⟩
  obtain ⟨-, hdropping, -, hhanded, -, -⟩ :=
    batches_decided_singly hname hstored dropping ann (List.cons_ne_nil _ _) hjudged
  have hkept := (hdropping rfl).1 fun hrefuses => by cases hrefuses.2.1
  have hfirst : keptAlone (fun records => result ownPosts
      (authorizeWrite dropping "posts" "UPDATE" records ann)) [("owner", .text "ann")] = true :=
    (keptAlone_iff hstored ⟨true, hann⟩).mpr (permits_of_decided hann)
  have hsecond : keptAlone (fun records => result ownPosts
      (authorizeWrite dropping "posts" "UPDATE" records ann)) [("owner", .text "bob")] ≠ true := by
    intro h
    have hpermits := (keptAlone_iff hstored ⟨false, hbob⟩).mp h
    rw [permits_of_decided hbob] at hpermits
    cases hpermits
  rw [hhanded _ hkept, List.filter_cons_of_pos hfirst, List.filter_cons_of_neg hsecond]
  rfl

end RowGate.Access
