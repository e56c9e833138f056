import RowGate.Proofs.Endpoint.Turns
import RowGate.Proofs.Endpoint.Writes
import RowGate.Proofs.Engine.Keeping
/-!
Updates and deletions of one table that take turns. Main statement: the rows that a statement
concerns are permitted by the rules, unless another call put them into the table after the rows had
been fetched to be judged.
-/
namespace RowGate.Endpoint

open Asking
open Access (stored? permits ruled visitor)

/-- Surroundings whose calls share a table: access control has fixed answers, and the engine carries
out statements on the rows, or fails and leaves them as they are. -/
structure Shares {σ : Type} (w : Surroundings Question Question.Answer σ)
    (judge : (q : Access.Question) → q.Answer) (rows : σ → List Record) : Prop where
  access : ∀ q s, (w (.access q) s).1 = judge q
  engine : ∀ q s, (∃ time, (w (.engine q) s).1 = (Engine.single time q (some (rows s))).1 ∧
      rows (w (.engine q) s).2 = Engine.left time q (rows s)) ∨
    (∃ f, (w (.engine q) s).1 = .error f) ∧ rows (w (.engine q) s).2 = rows s
  aside : ∀ q s, (∀ q', q ≠ .engine q') → rows (w q s).2 = rows s

section

variable {σ : Type} {w : Surroundings Question Question.Answer σ}
  {judge : (q : Access.Question) → q.Answer} {rows : σ → List Record}

/-- The rows of a shared table change with changes only. -/
theorem Shares.rows_of_harmless (h : Shares w judge rows) {q : Question} (hq : q.Harmless) (s : σ) :
    rows (w q s).2 = rows s := by
  cases q with
  | engine q =>
    have hchange (c : Sql.Change) : q ≠ .change c := by
      rintro rfl
      cases hq
    rcases h.engine q s with ⟨time, -, hleft⟩ | ⟨-, hleft⟩
    · rw [hleft, Engine.left_eq_self hchange]
    · exact hleft
  | _ => exact h.aside _ s nofun

/-- What a fetch answers are the rows under its key. -/
theorem Shares.found (h : Shares w judge rows) {t : Sql.Table} {k : Sql.RowKey} {s : σ}
    {found : List Record} (hfound : (w (.engine (.fetch ⟨t, none, k⟩)) s).1 = .ok found) :
    found = (rows s).filter (k.marks ·) := by
  rcases h.engine (.fetch ⟨t, none, k⟩) s with ⟨time, hanswer, -⟩ | ⟨⟨f, hanswer⟩, -⟩
  · rw [hfound] at hanswer
    exact (Except.ok.inj hanswer).trans (List.map_id _)
  · rw [hfound] at hanswer
    cases hanswer

end

/-- An update or a deletion of the rows under a key value. -/
inductive Write where
  | update (id body : Value)
  | delete (id : Value)

namespace Write

/-- What is done to the rows. -/
def action : Write → Action
  | .update .. => .update
  | .delete _ => .delete

/-- The call of a write. -/
def call (e : Endpoint) (table : String) (user : Option User) : Write → Serving Int
  | .update id body => e.update table id body user
  | .delete id => e.delete table id user

end Write

/-- Answers where access control has fixed ones. -/
def standing (judge : (q : Access.Question) → q.Answer) : (q : Question) → q.Answer
  | .access q => judge q
  | q => q.refusal

theorem Question.harmless_or_change (q : Question) :
    q.Harmless ∨ ∃ change, q = .engine (.change change) := by
  unfold Question.Harmless Question.change?
  split
  · exact .inr ⟨_, rfl⟩
  · exact .inl rfl

/-- Questions about access. -/
def Question.IsAccess (q : Question) : Prop := ∃ q', q = .access q'

section

variable {e : Endpoint} {c : Config} {u : User} {user : Option User} {table : String}
  {id : Value} {h : List (Exchange Question.Answer)} {judge : (q : Access.Question) → q.Answer}

theorem Question.IsAccess.harmless (q : Question) (hq : q.IsAccess) : q.Harmless := by
  obtain ⟨q', rfl⟩ := hq
  rfl

theorem asksOnly_access_guarding {α : Type} (x : Access.Checking α) :
    AsksOnly Question.IsAccess (guarding x) :=
  asksOnly_guarding (Script.asksOnly_any (fun q => ⟨q, rfl⟩) x.run)

theorem asksOnly_access_allUpdatable (rows : List Record) :
    AsksOnly Question.IsAccess (allUpdatable c u table rows) := by
  unfold allUpdatable
  split
  · exact asksOnly_pure _
  · exact asksOnly_bind (asksOnly_access_guarding _) fun _ => asksOnly_pure _

theorem talks_engine {q : Engine.Question} {r : q.Answer} :
    Talks (engine q) h r ↔ h = [⟨.engine q, r⟩] := Script.talks_once

/-- Rows are found with a connection and a fetch. -/
theorem talks_fetch {found : List Record} (htalk : Talks (e.fetch table id) h (.ok found)) :
    ∃ k, (e.tableOf table).key e.keyColumn id = .ok k ∧
      h = [⟨.engine .connect, .ok ()⟩,
        ⟨.engine (.fetch ⟨e.tableOf table, none, k⟩), .ok found⟩] := by
  unfold fetch at htalk
  rw [talks_lift_bind] at htalk
  cases hkey : (e.tableOf table).key e.keyColumn id with
  | error g =>
    rw [hkey] at htalk
    cases htalk.2
  | ok k =>
    rw [hkey] at htalk
    obtain ⟨h₁, h₂, _, rfl, hconnect, hfetch⟩ := talks_bind_ok htalk
    rw [talks_engine.mp hconnect, talks_engine.mp hfetch]
    exact ⟨k, rfl, rfl⟩

/-- A conversation vouches for rows: it is about access, and where access control gives its fixed
answers, the rules that are stored for an action permit each of the rows. -/
structure Vouches (judge : (q : Access.Question) → q.Answer) (table : String) (a : Action) (u : User)
    (found : List Record) (h : List (Exchange Question.Answer)) : Prop where
  isAccess : ∀ x ∈ h, x.1.IsAccess
  permits : (∀ q answer, ⟨.access q, answer⟩ ∈ h → answer = judge q) → ∀ rules,
    stored? judge table a = some rules → ∀ r ∈ found, permits judge rules u r = true

/-- Where what is asked about access has its fixed answers, all answers are fixed. -/
theorem eq_standing (haccess : ∀ x ∈ h, x.1.IsAccess)
    (hjudged : ∀ q answer, ⟨.access q, answer⟩ ∈ h → answer = judge q) :
    ∀ x ∈ h, x.2 = standing judge x.1 := by
  rintro ⟨q, answer⟩ hx
  obtain ⟨q', rfl⟩ := haccess _ hx
  exact hjudged q' answer hx

theorem vouches_allUpdatable {rows : List Record}
    (htalk : Talks (allUpdatable c u table rows) h (.ok true)) :
    Vouches judge table .update u rows h := by
  have haccess := (asksOnly_access_allUpdatable rows).of_talks htalk
  refine ⟨haccess, fun hjudged rules hrules r hr => ?_⟩
  have hresult := Asking.result_of_talks htalk (eq_standing haccess hjudged)
  obtain ⟨rules', hrules', hall⟩ := (result_allUpdatable (List.ne_nil_of_mem hr)).mp hresult
  obtain rfl : rules = rules' := Option.some.inj (hrules.symm.trans hrules')
  exact hall r hr

/-- A conversation clears an action on the rows under a key value: they are fetched, and the rest of
the conversation vouches for them. -/
def Clears (judge : (q : Access.Question) → q.Answer) (e : Endpoint) (table : String) (a : Action)
    (u : User) (id : Value) (h : List (Exchange Question.Answer)) : Prop :=
  ∃ found first rest, h = first ++ rest ∧ Talks (e.fetch table id) first (.ok found) ∧
    Vouches judge table a u found rest

/-- An update that is let through has been cleared. -/
theorem clears_mayUpdate (hgate : e.gateFor user = some (c, u)) {data : Record}
    (htalk : Talks (e.mayUpdate table id data user) h (.ok true)) :
    Clears judge e table .update u id h := by
  unfold mayUpdate at htalk
  rw [hgate] at htalk
  obtain ⟨h₁, h₂, found, rfl, hfetch, hrest⟩ := talks_bind_ok htalk
  obtain ⟨h₃, h₄, b, rfl, hold, hnew⟩ := talks_bind_ok hrest
  cases b with
  | false => cases hnew.2
  | true =>
    have hvouches : Vouches judge table .update u found h₃ := vouches_allUpdatable hold
    have hothers := (asksOnly_access_allUpdatable _).of_talks hnew
    refine ⟨found, h₁, h₃ ++ h₄, rfl, hfetch, ?_, fun hjudged => ?_⟩
    · exact List.forall_mem_append.mpr ⟨hvouches.isAccess, hothers⟩
    · exact hvouches.permits fun q answer hx => hjudged q answer (List.mem_append_left _ hx)

/-- A deletion that is let through has been cleared. -/
theorem clears_mayDelete (hgate : e.gateFor user = some (c, u))
    (htalk : Talks (e.mayDelete table id user) h (.ok true)) :
    Clears judge e table .delete u id h := by
  unfold mayDelete at htalk
  rw [hgate] at htalk
  obtain ⟨h₁, h₂, found, rfl, hfetch, hrest⟩ := talks_bind_ok htalk
  obtain ⟨h₃, h₄, kept, rfl, hguard, hdone⟩ := talks_bind_ok hrest
  obtain ⟨rfl, hfull⟩ := talks_pure.mp hdone
  rw [List.append_nil]
  have haccess := (asksOnly_access_guarding _).of_talks hguard
  refine ⟨found, h₁, h₃, rfl, hfetch, haccess, fun hjudged rules hrules r hr => ?_⟩
  have hresult := Asking.result_of_talks hguard (eq_standing haccess hjudged)
  rw [result_guarding] at hresult
  obtain ⟨-, hlength⟩ : kept ≠ [] ∧ ¬ kept.length < found.length := by simpa using hfull
  obtain ⟨rules', hrules', hall⟩ :=
    (Access.written_in_full (a := .delete) (List.ne_nil_of_mem hr)).mp ⟨kept, hresult, hlength⟩
  obtain rfl : rules = rules' := Option.some.inj (hrules.symm.trans hrules')
  exact hall r hr

variable {h₁ h₂ : List (Exchange Question.Answer)} {change : Sql.Change}
  {answer : Except Fault Int} {r : Except Fault Int}

theorem change_notMem (h : ∀ x ∈ h₁, x.1.Harmless) :
    ⟨.engine (.change change), answer⟩ ∉ h₁ := fun hmem => by
  cases h _ hmem

/-- What is let through is sent in a transaction, behind what it was let through by. -/
theorem talks_sent {x : Serving Bool} {key : Except Fault Sql.RowKey} {f : Sql.RowKey → Sql.Change}
    (hx : AsksOnly Question.Harmless x)
    (htalk : Talks (do
      if ← x then
        let k ← key
        engine .begin_
        engine (.change (f k))
      else return 0) (h₁ ++ ⟨.engine (.change change), answer⟩ :: h₂) r) :
    ∃ h k, Talks x h (.ok true) ∧ key = .ok k ∧ change = f k ∧
      h₁ = h ++ [⟨.engine .begin_, .ok ()⟩] := by
  have hmem : ⟨.engine (.change change), answer⟩ ∈
      h₁ ++ (⟨.engine (.change change), answer⟩ : Exchange Question.Answer) :: h₂ := by simp
  rcases talks_bind.mp htalk with ⟨g, hfailed, -⟩ | ⟨l₁, l₂, b, hsplit, hverdict, hrest⟩
  · exact absurd hmem (change_notMem (hx.of_talks hfailed))
  have hl₁ := hx.of_talks hverdict
  rw [hsplit] at hmem
  cases b with
  | false =>
    obtain ⟨rfl, -⟩ := talks_pure.mp hrest
    rw [List.append_nil] at hmem
    exact absurd hmem (change_notMem hl₁)
  | true =>
    have hrest := talks_lift_bind.mp hrest
    cases key with
    | error g =>
      obtain ⟨rfl, -⟩ := hrest
      rw [List.append_nil] at hmem
      exact absurd hmem (change_notMem hl₁)
    | ok k =>
      have hbegun (answer : Except Fault Unit) :
          ∀ x ∈ l₁ ++ [(⟨.engine .begin_, answer⟩ : Exchange Question.Answer)], x.1.Harmless :=
        List.forall_mem_append.mpr ⟨hl₁, List.forall_mem_singleton.mpr rfl⟩
      rcases talks_bind.mp hrest with ⟨g, hbegin, -⟩ | ⟨l₃, l₄, _, rfl, hbegin, hsent⟩
      · rw [talks_engine.mp hbegin] at hmem
        exact absurd hmem (change_notMem (hbegun _))
      · rw [talks_engine.mp hbegin, talks_engine.mp hsent, ← List.append_assoc] at hsplit
        rcases split_concat hsplit.symm with ⟨hbefore, hlast⟩ | ⟨more, hbefore⟩
        · cases hlast
          exact ⟨l₁, k, hverdict, rfl, rfl, hbefore.symm⟩
        · have hbegun := hbegun (.ok ())
          rw [hbefore] at hbegun
          exact absurd (List.mem_append_right _ List.mem_cons_self) (change_notMem hbegun)

/-- What precedes a change: the rows under the key that it has are fetched, a conversation vouches
for them, and a transaction begins. -/
def Precedes (judge : (q : Access.Question) → q.Answer) (e : Endpoint) (table : String) (a : Action)
    (u : User) (change : Sql.Change) (h : List (Exchange Question.Answer)) : Prop :=
  ∃ k found rest, (∀ row, change.concerns row = k.marks row) ∧
    h = [⟨.engine .connect, .ok ()⟩] ++
      ⟨.engine (.fetch ⟨e.tableOf table, none, k⟩), .ok found⟩ ::
        (rest ++ [⟨.engine .begin_, .ok ()⟩]) ∧
    Vouches judge table a u found rest

/-- What is cleared under a key value is sent under the same key. -/
theorem precedes_sent {a : Action} {x : Serving Bool} {f : Sql.RowKey → Sql.Change}
    (hx : AsksOnly Question.Harmless x)
    (hclears : ∀ h, Talks x h (.ok true) → Clears judge e table a u id h)
    (hf : ∀ k row, (f k).concerns row = k.marks row)
    (htalk : Talks (do
      if ← x then
        let k ← (e.tableOf table).key e.keyColumn id
        engine .begin_
        engine (.change (f k))
      else return 0) (h₁ ++ ⟨.engine (.change change), answer⟩ :: h₂) r) :
    Precedes judge e table a u change h₁ := by
  obtain ⟨h, k, hlet, hkey, rfl, rfl⟩ := talks_sent hx htalk
  obtain ⟨found, first, rest, rfl, hfetch, hvouches⟩ := hclears h hlet
  obtain ⟨k', hkey', rfl⟩ := talks_fetch hfetch
  obtain rfl : k = k' := Except.ok.inj (hkey.symm.trans hkey')
  exact ⟨k, found, rest, hf k, rfl, hvouches⟩

/-- Before a write sends its change, it fetches the rows under the key that the change has, and its
conversation vouches for them. -/
theorem precedes_change (judge : (q : Access.Question) → q.Answer)
    (hgate : e.gateFor user = some (c, u)) {x : Write}
    (htalk : Talks (x.call e table user) (h₁ ++ ⟨.engine (.change change), answer⟩ :: h₂) r) :
    Precedes judge e table x.action u change h₁ := by
  cases x with
  | update id body =>
    have htalk := talks_lift_bind.mp htalk
    cases hcheck : e.checkTable table "UPDATE" with
    | error g => simp [hcheck] at htalk
    | ok _ =>
      rw [hcheck] at htalk
      have htalk := talks_lift_bind.mp htalk
      cases hdata : recordIn body with
      | error g => simp [hdata] at htalk
      | ok data =>
        rw [hdata] at htalk
        exact precedes_sent (asksOnly_mayUpdate ..) (fun _ => clears_mayUpdate hgate)
          (fun _ _ => rfl) htalk
  | delete id =>
    have htalk := talks_lift_bind.mp htalk
    cases hcheck : e.checkTable table "DELETE" with
    | error g => simp [hcheck] at htalk
    | ok _ =>
      rw [hcheck] at htalk
      exact precedes_sent (asksOnly_mayDelete ..) (fun _ => clears_mayDelete hgate)
        (fun _ _ => rfl) htalk

end

section

variable {ι σ : Type} {w : Surroundings Question Question.Answer σ}
  {judge : (q : Access.Question) → q.Answer} {rows : σ → List Record} {s : σ} {i : ι} {r : Record}

/-- Among events, a change of another call than `i` puts a row into the table. -/
def Overtaken (w : Surroundings Question Question.Answer σ) (rows : σ → List Record) (s : σ) (i : ι)
    (events : List (Event ι)) (r : Record) : Prop :=
  ∃ first j change answer rest, events = first ++ (j, ⟨.engine (.change change), answer⟩) :: rest ∧
    j ≠ i ∧ r ∉ rows (stateAfter w s first) ∧
      r ∈ rows (stateAfter w s (first ++ [(j, ⟨.engine (.change change), answer⟩)]))

/-- Updates and deletions of rows of a table, none of which has begun. -/
def writing (e : Endpoint) (table : String) (users : ι → User) (writes : ι → Write) (s : σ) :
    Underway ι σ Int :=
  .ready (fun i => (writes i).call e table (some (users i))) s

variable [DecidableEq ι]

/-- While a call sends no change, a row in the table has been there, or another call puts it there. -/
theorem Shares.kept_or_overtaken (h : Shares w judge rows) {events : List (Event ι)}
    (hown : ∀ x ∈ own i events, x.1.Harmless) (hr : r ∈ rows (stateAfter w s events)) :
    r ∈ rows s ∨ Overtaken w rows s i events r := by
  by_cases hbefore : r ∈ rows s
  · exact .inl hbefore
  obtain ⟨first, ⟨j, q, answer⟩, rest, rfl, hout, hin⟩ :=
    exists_turning (P := fun s => r ∈ rows s) hbefore hr
  rcases q.harmless_or_change with hharmless | ⟨change, rfl⟩
  · rw [stateAfter_append] at hin
    exact absurd ((h.rows_of_harmless hharmless _) ▸ hin) hout
  · refine .inr ⟨first, j, change, answer, rest, rfl, ?_, hout, hin⟩
    rintro rfl
    exact change_notMem hown (mem_own.mpr (List.mem_append_right _ List.mem_cons_self))

/-- When a write is about to send a statement, each row that this concerns is permitted, or a change
of another write has put the row into the table since the rows were fetched to be judged. Those that
it would have concerned then are permitted. -/
theorem concerned_rows_permitted_unless_overtaken (hshares : Shares w judge rows) {e : Endpoint}
    {c : Config} (hgate : e.gate = some c) (henforce : e.config.enforce.truthy = true)
    {table : String} {users : ι → User} {writes : ι → Write} {turns : List ι} {u : Underway ι σ Int}
    (hturns : (writing e table users writes s).follow w turns = u) {change : Sql.Change}
    (hnext : u.next? i = some (.engine (.change change))) {rules : List Rule}
    (hrules : stored? judge table (writes i).action = some rules)
    (hfield : hasFieldCheck rules = true) :
    ∃ looked f found later, u.events = looked ++ (i, ⟨.engine (.fetch f), .ok found⟩) :: later ∧
      (∀ r ∈ rows (stateAfter w s looked), change.concerns r = true →
        ruled judge rules (users i) (some r) = .ok true) ∧
      ∀ r ∈ rows u.state, change.concerns r = true →
        ruled judge rules (users i) (some r) = .ok true ∨
          Overtaken w rows (stateAfter w s looked) i
            ((i, ⟨.engine (.fetch f), .ok found⟩) :: later) r := by
  have hfor : e.gateFor (some (users i)) = some (c, users i) := by
    unfold gateFor
    rw [hgate]
    exact if_pos henforce
  have hfits : u.Fits w (fun i => (writes i).call e table (some (users i))) s :=
    hturns ▸ (Underway.fits_ready _ s).follow turns
  obtain ⟨rest, result, htalk⟩ := hfits.exists_talks hnext (.ok 0)
  obtain ⟨k, found, judged, hconcerns, hown, hvouches⟩ := precedes_change judge hfor htalk
  obtain ⟨looked, later, hevents, -, hlater⟩ := split_own hown
  have hfound := hshares.found (hfits.answered looked _ later hevents).symm
  have hpermitted : ∀ r ∈ rows (stateAfter w s looked), change.concerns r = true →
      ruled judge rules (users i) (some r) = .ok true := by
    intro r hr hconcerned
    rw [← Access.decided_of_hasFieldCheck hfield, ← Access.permits_iff]
    refine hvouches.permits (fun q answer hmem => ?_) rules hrules r ?_
    · have hmem : (i, ⟨.access q, answer⟩) ∈ u.events := by
        rw [hevents]
        refine List.mem_append_right _ (List.mem_cons_of_mem _ (mem_own.mp ?_))
        rw [hlater]
        exact List.mem_append_left _ hmem
      obtain ⟨t, hanswer⟩ := hfits.answered.exists_state hmem
      exact hanswer.trans (hshares.access q t)
    · rw [hfound]
      exact List.mem_filter.mpr ⟨hr, (hconcerns r).symm.trans hconcerned⟩
  refine ⟨looked, _, found, later, hevents, hpermitted, fun r hr hconcerned => ?_⟩
  rw [hfits.state, hevents, stateAfter_append] at hr
  refine (hshares.kept_or_overtaken ?_ hr).imp_left fun hkept => hpermitted r hkept hconcerned
  -- between its fetch and its statement the write itself sends none
  rw [own_cons_self, hlater, List.forall_mem_cons, List.forall_mem_append]
  exact ⟨rfl, fun x hx => (hvouches.isAccess x hx).harmless, List.forall_mem_singleton.mpr rfl⟩

end

/-- An engine with a single table behind fixed answers about access. -/
def shared (judge : (q : Access.Question) → q.Answer) :
    Surroundings Question Question.Answer (List Record)
  | .access q, rows => (judge q, rows)
  | .engine q, rows => ((Engine.single .null q (some rows)).1, Engine.left .null q rows)
  | q, rows => (q.refusal, rows)

theorem shares_shared (judge : (q : Access.Question) → q.Answer) :
    Shares (shared judge) judge id where
  access _ _ := rfl
  engine _ _ := .inl ⟨.null, rfl, rfl⟩
  aside q _ h := by
    cases q with
    | engine q => exact absurd rfl (h q)
    | _ => rfl

/-- Rules that let administrators write all rows, and others their own ones. -/
def adminsOrOwner : List Rule := [.labels ["admin"], .field ⟨"owner", .equal, .context "userId"⟩]

/-- Answers about access where rows are written under these rules. -/
def underOwners : (q : Access.Question) → q.Answer
  | .permissions _ => .ok (some ⟨[(.update, adminsOrOwner), (.delete, adminsOrOwner)]⟩)
  | .holds .. | .write _ => .error .outside
  | .log _ => ()

/-- User 7. -/
def owner : User := { visitor with id := .int 7 }

/-- A post of a user. -/
def postOf (user : Int) : Record := [("id", .int 1), ("owner", .int user)]

/-- User 7 gives a post of theirs a title, while an administrator hands it over to user 8. The turns of
user 7 are true. -/
def handover (turns : List Bool) : Underway Bool (List Record) Int :=
  (writing { lenient with gate := some .default } "posts"
    (fun titles => if titles then owner else { owner with id := .int 1, labels := [.text "admin"] })
    (fun titles => .update (.int 1)
      (.map (if titles then [("title", .text "mine")] else [("owner", .int 8)]))) [postOf 7]).follow
    (shared underOwners) turns

/-- What gives the post its title. -/
def titling : Sql.Change :=
  .update ⟨none, "posts", none⟩ ⟨"id", .int 1⟩ [("title", .value (.text "mine"))]

/-- The post is fetched to be given a title, then it is handed over, and then it is about to be given
the title. -/
def crossing : List Bool := [true, true, false, false, false, false, false, false, true, true, true]

theorem post_handed_over_between :
    (handover crossing).next? true = some (.engine (.change titling)) ∧
      ∃ looked later, (handover crossing).events = looked ++ later ∧
        Overtaken (shared underOwners) id (stateAfter (shared underOwners) [postOf 7] looked) true
          later (postOf 8) := by
  have hnext : (handover crossing).next? true = some (.engine (.change titling)) := by
    with_unfolding_all rfl
  have hthere : postOf 8 ∈ (handover crossing).state := by
    have hstate : (handover crossing).state = [postOf 8] := by with_unfolding_all rfl
    rw [hstate]
    exact List.mem_singleton_self _
  have hdenied : ruled underOwners adminsOrOwner owner (some (postOf 8)) = .ok false := by cbv
  obtain ⟨looked, f, found, later, hevents, -, hconcerned⟩ :=
    concerned_rows_permitted_unless_overtaken (shares_shared underOwners) rfl rfl rfl hnext rfl rfl
  refine ⟨hnext, looked, _, hevents, (hconcerned (postOf 8) hthere (by cbv)).resolve_left ?_⟩
  intro hallowed
  cases hdenied.symm.trans hallowed

theorem foreign_post_given_title :
    stored? underOwners "posts" .update = some adminsOrOwner ∧
      hasFieldCheck adminsOrOwner = true ∧
      (handover crossing).next? true = some (.engine (.change titling)) ∧
      (handover crossing).state = [postOf 8] ∧ titling.concerns (postOf 8) = true ∧
      ruled underOwners adminsOrOwner owner (some (postOf 8)) = .ok false ∧
      (handover (crossing ++ [true])).state =
        [postOf 8 ++ [("title", .text "mine")]] := by
  refine ⟨rfl, rfl, ?_, ?_, ?_, ?_, ?_⟩ <;> with_unfolding_all rfl

end RowGate.Endpoint
