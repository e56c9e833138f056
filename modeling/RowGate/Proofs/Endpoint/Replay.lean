import Mathlib
import RowGate.Proofs.Access.Positions
import RowGate.Proofs.Endpoint.Afresh
/-!
Rows that come back from the cache against the rows that went into it. The gate judges rows as it
finds them, and the cache keeps some values as texts. Main statement: rules keep the rows of a cached
answer at the positions at which they keep the rows of the engine if they look only at fields whose
values come back as they were; of every other field some rule keeps other positions.
-/
namespace RowGate.Endpoint

open Access
open Number (Later)
open Cache (lives)

/-- A query that passes its checks, has a statement and wants its answer to be cached under a key
for some time. -/
structure IsCached (e : Endpoint) (table : String) (r : Request) (q : Query) (s : Sql.Select)
    (key : String) (ttl : Number) : Prop where
  passes : Passes e table r q
  builds : e.Builds table q s
  keyed : ∃ c, e.cacheFor q = some c ∧ Cache.Target.key c table (.query q) = .ok key
  kept : ∃ settings, q.cache = some settings ∧ settings.ttl = ttl
  wanted : Cache.isWanted (.query q) = .ok true

theorem isDecimal_of_lives {stored ttl t : Number} (h : lives stored ttl t = true) :
    ttl.isDecimal = false := by
  obtain ⟨-, hends⟩ := (Bool.and_eq_true _ _).mp h
  cases ttl with
  | int n => rfl
  | float x => rfl
  | decimal d =>
    have hsum (c : Number.Decimal) : ∀ ends, Number.addDecimals c d = .ok ends →
        Cache.isReadBack ends = false := by
      intro ends hends
      unfold Number.addDecimals at hends
      split at hends
      · obtain rfl := Except.ok.inj hends
        rfl
      · cases hends
    split at hends
    · rename_i ends hadd
      obtain ⟨hback, -⟩ := (Bool.and_eq_true _ _).mp hends
      cases stored with
      | int n => rw [hsum _ ends hadd] at hback; cases hback
      | float x => cases hadd
      | decimal c => rw [hsum _ ends hadd] at hback; cases hback
    · cases hends

/-- Rows come back each for itself, as what their forms stand for. -/
theorem recalledRows?_eq_some {rows found : List Record} : recalledRows? rows = some found ↔
    List.Forall₂ (fun row back =>
      ∃ fs, recordToJson? Cache.fallback row = some fs ∧ Json.toRecord fs = back) rows found := by
  unfold recalledRows?
  induction rows generalizing found with
  | nil =>
    rw [List.mapM_nil, List.forall₂_nil_left_iff]
    exact Option.some_inj.trans eq_comm
  | cons row rows ih =>
    simp only [List.mapM_cons, Option.bind_eq_bind, Option.bind_eq_some_iff, Option.map_eq_some_iff,
      List.forall₂_cons_left_iff, ih]
    constructor
    · rintro ⟨back, hback, rest, hrest, hfound⟩
      exact ⟨back, rest, hback, hrest, (Option.some.inj hfound).symm⟩
    · rintro ⟨back, rest, hback, hrest, rfl⟩
      exact ⟨back, hback, rest, hrest, rfl⟩

section

variable {rows found : List Record} {row back : Record} {f : String} {fields : List String}

theorem agreeOn_of_native {fs : List (String × Json)}
    (hform : recordToJson? Cache.fallback row = some fs)
    (hnative : ∀ f ∈ fields, (row.get f).isNative = true) :
    AgreeOn fields row (Json.toRecord fs) := by
  intro f hf
  obtain ⟨j, hj, hvalue⟩ := get_toRecord hform f
  rw [hvalue]
  exact ((toValue_eq_iff hj).mpr (hnative f hf)).symm

theorem isProper_get (hproper : (Value.map row).isProper = true) (f : String) :
    (row.get f).isProper = true := by
  obtain ⟨-, hfields⟩ := (Bool.and_eq_true _ _).mp hproper
  unfold Record.get
  cases hlookup : row.lookup f with
  | none => rfl
  | some v =>
    obtain ⟨before, after, rfl, -⟩ := List.lookup_eq_some_iff.mp hlookup
    exact fieldsProper_iff.mp hfields (f, v) (List.mem_append_right _ List.mem_cons_self)

end

section

variable {m : Moment} {e : Endpoint} {table key : String} {r : Request} {q : Query}
  {s : Sql.Select} {ttl t : Number} {rows found : List Record} {store : KeyValue.Memory}
  {user : Option User} {c : Config} {u : User} {rules : List Rule}

/-- A query answers with the rows at the positions that the rules in force keep. -/
theorem judged_eq (hgate : e.gateFor user = some (c, u))
    (hrules : stored? m.judging table .select = some rules) (rows : List Record) :
    m.judged e table user q rows = keptAt m.judging table "SELECT" rules u rows >>= fun marks =>
      transformed q (pick marks rows) := by
  have hauthorized : m.authorized e table user rows =
      keptAt m.judging table "SELECT" rules u rows >>= fun marks => .ok (pick marks rows) := by
    unfold Moment.authorized
    rw [hgate, ← result_checkRules_pick c]
    exact result_authorizeRows hrules c rows u
  rw [Moment.judged, hauthorized]
  cases keptAt m.judging table "SELECT" rules u rows <;> rfl

/-- A query that is missed answers for the rows of the engine, and if it is asked again while they
are kept, for the rows that come back. -/
theorem ask_again (h : IsCached e table r q s key ttl) (hfetched : m.fetched s = .ok rows)
    (hrecalled : recalledRows? rows = some found) (hmissed : rowsFound? store m.now key = none)
    (hlater : Later m.now t) (hlives : lives m.now ttl t = true) (user : Option User) :
    ∃ behind, m.ask e table r user store = (m.judged e table user q rows, ⟨behind, [s]⟩) ∧
      Moment.ask { m with now := t } e table r user behind =
        (m.judged e table user q found, ⟨behind, []⟩) := by
  obtain ⟨c, hcache, hkey⟩ := h.keyed
  obtain ⟨settings, hsettings, rfl⟩ := h.kept
  obtain ⟨behind, hrun, hfound⟩ := runIn_rows_missed (m := m) (w := ⟨store, []⟩) hcache hkey
    hsettings h.wanted (isDecimal_of_lives hlives) h.builds hmissed
  have hsent : m.sends s = [s] := by
    obtain ⟨_, hconnect, -⟩ := sequence_eq_ok.mp hfetched
    unfold Moment.sends
    rw [hconnect]
  have hback : rowsFound? behind t key = some found := by
    rw [hfound t hlater key, if_pos rfl, hfetched]
    exact (if_pos hlives).trans hrecalled
  refine ⟨behind, ?_, ask_found (m := { m with now := t }) h.passes hcache hkey hback user⟩
  rw [ask_of_rows h.passes hrun, hfetched, hsent]
  rfl

/-- Let the rows that the engine has for a query be cached. While they are kept, the query answers
with those that come back, at the positions that the rules in force keep of them, and sends nothing.
Those are the positions that rules keep of the rows themselves, and they fail where those fail, if
the rules look only at fields whose values are native. A value that is not native comes back as
another one; if that equals itself, as all do that hold no float that is no number, the check that
the field equals it keeps other positions of what comes back. -/
theorem replay_judged_alike (h : IsCached e table r q s key ttl)
    (hproper : ∀ row ∈ rows, (Value.map row).isProper = true)
    (hrecalled : recalledRows? rows = some found) :
    (∀ (m : Moment) (t : Number) (user : Option User) (c : Config) (u : User) (rules : List Rule)
        (store : KeyValue.Memory), m.fetched s = .ok rows → rowsFound? store m.now key = none →
        Later m.now t → lives m.now ttl t = true → e.gateFor user = some (c, u) →
        stored? m.judging table .select = some rules →
        ∃ behind, m.ask e table r user store =
            (keptAt m.judging table "SELECT" rules u rows >>= fun marks =>
              transformed q (pick marks rows), ⟨behind, [s]⟩) ∧
          Moment.ask { m with now := t } e table r user behind =
            (keptAt m.judging table "SELECT" rules u found >>= fun marks =>
              transformed q (pick marks found), ⟨behind, []⟩)) ∧
      (∀ fields : List String, (∀ row ∈ rows, ∀ f ∈ fields, (row.get f).isNative = true) →
        ∀ o, Sees o fieldsSeen → ∀ rules : List Rule, (∀ rule ∈ rules, LooksOnlyAt fields rule) →
          ∀ u, keptAt o table "SELECT" rules u rows = keptAt o table "SELECT" rules u found) ∧
      ∀ row back, (row, back) ∈ rows.zip found → ∀ f, (row.get f).isNative = false →
        (back.get f).same (back.get f) = true →
          ∀ o u, ¬ Alike (keptAt o table "SELECT" [equals f (back.get f)] u rows)
            (keptAt o table "SELECT" [equals f (back.get f)] u found) := by
  have hpairs := recalledRows?_eq_some.mp hrecalled
  refine ⟨?_, ?_, ?_⟩
  · intro m t user c u rules store hfetched hmissed hlater hlives hgate hrules
    obtain ⟨behind, hfirst, hsecond⟩ :=
      ask_again h hfetched hrecalled hmissed hlater hlives user
    refine ⟨behind, ?_, ?_⟩
    · rw [hfirst, judged_eq hgate hrules]
    · rw [hsecond, judged_eq hgate hrules]
  · intro fields hnative o ho rules hrules u
    refine keptAt_of_agree ho hrules (List.forall₂_iff_zip.mpr ⟨hpairs.length_eq, fun hpair => ?_⟩)
    obtain ⟨fs, hform, rfl⟩ := List.forall₂_zip hpairs hpair
    exact agreeOn_of_native hform (hnative _ (List.of_mem_zip hpair).1)
  · intro row back hpair f hchanged hself o u
    obtain ⟨fs, hform, rfl⟩ := List.forall₂_zip hpairs hpair
    obtain ⟨j, hj, hvalue⟩ := get_toRecord hform f
    refine told_apart (fun back hback => ?_) hpair ?_ hself
    · obtain ⟨i, hi, rfl⟩ := List.mem_iff_getElem.mp hback
      obtain ⟨gs, hgs, hsame⟩ := hpairs.get (hpairs.length_eq ▸ hi) hi
      obtain ⟨k, -, hk⟩ := get_toRecord hgs f
      rw [List.get_eq_getElem] at hsame
      rw [← hsame, hk]
      exact isSome_kind?_toValue k
    · rw [hvalue, ← Bool.not_eq_true]
      intro hsame
      have hrow := isProper_get (hproper row (List.of_mem_zip hpair).1) f
      rw [isNative_of_same hrow hj hsame] at hchanged
      cases hchanged

end

theorem isCached_forMinute : ∃ s, IsCached guarded "posts" (.read (forMinute [])) (forMinute []) s
    minuteKey (.int 60) := by
  obtain ⟨s, hs⟩ := builds_forMinute
  exact ⟨s, passes_forMinute [], hs, ⟨_, rfl, key_forMinute⟩, ⟨_, rfl, rfl⟩, rfl⟩

/-- The moment in which everybody may read the posts that a check admits. -/
def admitting (check : FieldCheck) (o : Outside) : Moment :=
  ⟨Entries.empty.insert "posts" ⟨[(.select, [.field check])]⟩, .int 1000, o⟩

/-- The moment in which everybody may read the first post, and no other one. -/
def firstOnly : Moment := admitting ⟨"id", .equal, .literal (.int 1)⟩ onePost

theorem first_post_twice : ∃ s behind,
    firstOnly.ask guarded "posts" (.read (forMinute [])) (some visitor) .empty =
      (.ok [[("id", .int 1)]], ⟨behind, [s]⟩) ∧
    Moment.ask { firstOnly with now := .int 1001 } guarded "posts" (.read (forMinute []))
      (some visitor) behind = (.ok [[("id", .int 1)]], ⟨behind, []⟩) := by
  obtain ⟨s, hs⟩ := isCached_forMinute
  have hback : recalledRows? [[("id", .int 1)]] = some [[("id", .int 1)]] := rfl
  obtain ⟨hask, halike, -⟩ := replay_judged_alike hs (by decide) hback
  obtain ⟨behind, hmissed, hfound⟩ := hask firstOnly (.int 1001) (some visitor) .default visitor
    [equals "id" (.int 1)] .empty rfl rfl (.inr rfl) rfl rfl rfl
  have hmarks : keptAt firstOnly.judging "posts" "SELECT" [equals "id" (.int 1)] visitor
      [[("id", .int 1)]] = .ok [true] := by
    rw [keptAt_equals]
    cbv
  have hagain := halike ["id"] (by decide) firstOnly.judging (fun _ _ _ _ _ => rfl)
    [equals "id" (.int 1)] (by simp [equals, LooksOnlyAt]) visitor
  refine ⟨s, behind, ?_, ?_⟩
  · rw [hmissed, hmarks]
    rfl
  · rw [hfound, ← hagain, hmarks]
    rfl

/-- A post with a decimal for its owner. -/
def decimalPost : Record := [("owner", .number (.decimal (.finite false 1 0)))]

/-- An outside where every table has that post. -/
def decimalOwner : Outside where
  engine
    | .connect => .ok ()
    | .select _ => .ok [decimalPost]
    | _ => .error .outside
  plan _ := .error .outside
  holds _ _ _ := .ok false
  proper s rows h row hrow := by
    obtain rfl := Except.ok.inj h
    rw [List.mem_singleton.mp hrow]
    decide

/-- The moment in which everybody may read the posts of all owners but the first. -/
def notFirst : Moment := admitting ⟨"owner", .unequal, .literal (.int 1)⟩ decimalOwner

theorem denied_post_from_cache : ∃ s behind,
    notFirst.ask guarded "posts" (.read (forMinute [])) (some visitor) .empty =
      (.ok [], ⟨behind, [s]⟩) ∧
    Moment.ask { notFirst with now := .int 1001 } guarded "posts" (.read (forMinute []))
      (some visitor) behind = (.ok [[("owner", .text "1")]], ⟨behind, []⟩) := by
  obtain ⟨s, hs⟩ := isCached_forMinute
  have hfetched : notFirst.fetched s = .ok [decimalPost] := rfl
  have hback : recalledRows? [decimalPost] = some [[("owner", .text "1")]] := by cbv
  have hnone : rowsFound? .empty notFirst.now minuteKey = none := rfl
  have hlater : Later notFirst.now (.int 1001) := .inr rfl
  obtain ⟨behind, hmissed, hfound⟩ :=
    ask_again hs hfetched hback hnone hlater rfl (some visitor)
  have hrules : stored? notFirst.judging "posts" .select =
      some [.field ⟨"owner", .unequal, .literal (.int 1)⟩] := rfl
  rw [judged_eq rfl hrules] at hmissed hfound
  refine ⟨s, behind, ?_, ?_⟩
  · rw [hmissed]
    cbv
  · rw [hfound]
    cbv

end RowGate.Endpoint
