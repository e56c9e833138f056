import RowGate.Config.Program
import RowGate.Proofs.Number.Order
import RowGate.Proofs.Number.Sums
import RowGate.Proofs.Script.Run
import RowGate.Proofs.Value.Records
/-!
Programs on the configuration in force. Settings are checked whenever a configuration is built, so
whatever program is built from overrides, resets and blocks, a valid one is in force at every moment.
Main statement: blocks and failed overrides leave the configuration in force as it was, all that are
ever in force are valid, and overrides one after another are one override.
-/
namespace RowGate

open Asking

/-! ## Valid configurations -/

/-- A float that is no number. -/
def Number.IsNaN (n : Number) : Prop := ∃ x, n = .float x ∧ Number.classify x = .notANumber

namespace Config

/-- A configuration as it can be built. A float that is no number passes for a limit and for a count
of joins. -/
structure IsValid (c : Config) : Prop where
  writeMode : c.settings.get "on_write_denied" = .text "raise" ∨
    c.settings.get "on_write_denied" = .text "filter"
  defaultLimit : ∃ n, (c.settings.get "default_limit").number? = some n ∧
    ((Number.int 0).less n = true ∨ n.IsNaN)
  joinCount : ∃ n, (c.settings.get "max_join_count").number? = some n ∧
    ((Number.int 0).atMost n = true ∨ n.IsNaN)
  validTables : ∃ tables, c.settings.get "valid_tables" = .tuple tables

/-- A number that passes a comparison with zero has a place there, or is a float that is none. -/
theorem number_of_comparable {v : Value} {n : Number} (h : v.comparable = .ok n) :
    v.number? = some n ∧ (n.place?.isSome ∨ n.IsNaN) := by
  unfold Value.comparable at h
  cases hnumber : v.number? with
  | none =>
    rw [hnumber] at h
    cases h
  | some m =>
    rw [hnumber] at h
    obtain ⟨b, hbelow, hm⟩ := sequence_eq_ok.mp h
    obtain rfl := pure_answers.mp hm
    refine ⟨rfl, ?_⟩
    cases m with
    | int k => exact .inl rfl
    | float x =>
      by_cases hx : Number.classify x = .notANumber
      · exact .inr ⟨x, rfl, hx⟩
      · exact .inl (Number.place_float.mpr hx)
    | decimal d =>
      refine .inl (Number.place_decimal.mpr ?_)
      rintro rfl
      cases hbelow

theorem less_of_not_atMost {n : Number} (h : n.place?.isSome ∨ n.IsNaN)
    (hnot : ¬ n.atMost (.int 0) = true) : (Number.int 0).less n = true ∨ n.IsNaN := by
  refine h.imp_left fun hplace => ?_
  rw [Number.less_eq_not_atMost rfl hplace, Bool.not_eq_true', Bool.eq_false_iff]
  exact hnot

theorem atMost_of_not_less {n : Number} (h : n.place?.isSome ∨ n.IsNaN)
    (hnot : ¬ n.less (.int 0) = true) : (Number.int 0).atMost n = true ∨ n.IsNaN :=
  h.imp_left fun hplace => Number.atMost_of_not_less hplace rfl (Bool.eq_false_iff.mpr hnot)

theorem writeMode?_eq_ok {v : Value} {mode : WriteMode} (h : writeMode? v = .ok mode) :
    v = .text mode.name ∧ (v = .text "raise" ∨ v = .text "filter") := by
  unfold writeMode? at h
  split at h
  · cases h
    exact ⟨rfl, .inl rfl⟩
  · cases h
    exact ⟨rfl, .inr rfl⟩
  · cases h

variable {setting : String → Value} {c : Config}

/-- A configuration of settings, given its write mode and its tables. -/
def ofChecked (setting : String → Value) (mode : WriteMode) (tables : List Value) : Config where
  defaultLimit := setting "default_limit"
  enforce := setting "enforce_rls"
  logDecisions := setting "log_policy_decisions"
  writeMode := mode
  keyPrefix := setting "cache_key_prefix"
  tagPrefix := setting "cache_tag_prefix"
  largeTable := setting "large_table_threshold"
  sortMemory := setting "sort_memory_threshold"
  maxJoins := setting "max_join_count"
  checkTables := setting "check_valid_table"
  validTables := tables

/-- Settings that pass the checks. -/
structure Passes (setting : String → Value) (mode : WriteMode) (tables : List Value) : Prop where
  writeMode : writeMode? (setting "on_write_denied") = .ok mode
  defaultLimit : ∃ n, (setting "default_limit").comparable = .ok n ∧ ¬ n.atMost (.int 0) = true
  joinCount : ∃ n, (setting "max_join_count").comparable = .ok n ∧ ¬ n.less (.int 0) = true
  validTables : (setting "valid_tables").items? = some tables

theorem ofSettings_eq_ok : ofSettings setting = .ok c ↔
    ∃ mode tables, Passes setting mode tables ∧ c = ofChecked setting mode tables := by
  constructor
  · intro h
    unfold ofSettings at h
    obtain ⟨mode, hmode, h⟩ := sequence_eq_ok.mp h
    obtain ⟨n, hn, h⟩ := sequence_eq_ok.mp h
    dsimp only at h
    split at h
    · cases h
    rename_i hlimit
    obtain ⟨m, hm, h⟩ := sequence_eq_ok.mp h
    split at h
    · cases h
    rename_i hjoins
    split at h
    · cases h
    rename_i tables htables
    exact ⟨mode, tables, ⟨hmode, ⟨n, hn, hlimit⟩, ⟨m, hm, hjoins⟩, htables⟩,
      (pure_answers.mp h).symm⟩
  · rintro ⟨mode, tables, ⟨hmode, ⟨n, hn, hlimit⟩, ⟨m, hm, hjoins⟩, htables⟩, rfl⟩
    unfold ofSettings
    rw [hmode, ok_sequence]
    dsimp only
    rw [hn, ok_sequence, if_neg hlimit, hm, ok_sequence, if_neg hjoins, htables]
    rfl

theorem Passes.isValid {mode : WriteMode} {tables : List Value} (h : Passes setting mode tables) :
    (ofChecked setting mode tables).IsValid where
  writeMode := by
    obtain ⟨hname, hmode⟩ := writeMode?_eq_ok h.writeMode
    change Value.text mode.name = _ ∨ Value.text mode.name = _
    rwa [← hname]
  defaultLimit := by
    obtain ⟨n, hn, hlimit⟩ := h.defaultLimit
    obtain ⟨hnumber, hplace⟩ := number_of_comparable hn
    exact ⟨n, hnumber, less_of_not_atMost hplace hlimit⟩
  joinCount := by
    obtain ⟨n, hn, hjoins⟩ := h.joinCount
    obtain ⟨hnumber, hplace⟩ := number_of_comparable hn
    exact ⟨n, hnumber, atMost_of_not_less hplace hjoins⟩
  validTables := ⟨tables, rfl⟩

theorem isValid_of_ofSettings (h : ofSettings setting = .ok c) : c.IsValid := by
  obtain ⟨mode, tables, hpasses, rfl⟩ := ofSettings_eq_ok.mp h
  exact hpasses.isValid

theorem isValid_of_ofNamed {named : Record} (h : ofNamed named = .ok c) : c.IsValid := by
  unfold ofNamed at h
  split at h
  · exact isValid_of_ofSettings h
  · cases h

theorem isValid_of_merge {named : Record} {d : Config} (h : c.merge named = .ok d) :
    d.IsValid := by
  unfold merge at h
  split at h
  · cases h
  split at h
  · exact isValid_of_ofSettings h
  · cases h

theorem isValid_default : default.IsValid := isValid_of_ofNamed (show ofNamed [] = .ok default by rfl)

/-! ## Overrides -/

/-- The settings of a configuration under overrides; a null overrides nothing. -/
def overridden (c : Config) (named : Record) (name : String) : Value :=
  ((named.get name).toOption).getD (c.settings.get name)

/-- The overrides of two records, of which the second prevails. -/
def lastNamed (a b : Record) : Record :=
  default.settings.keys.map fun name => (name, (b.get name).toOption.getD (a.get name))

theorem merge_eq_ok {named : Record} {d : Config} : c.merge named = .ok d ↔
    known named = true ∧
      ((named.get "valid_tables").isNull || (named.get "valid_tables").items?.isSome) = true ∧
      ofSettings (c.overridden named) = .ok d := by
  unfold merge
  cases known named with
  | false => simp
  | true =>
    rw [Bool.not_true, if_neg Bool.false_ne_true]
    split
    · rename_i htables
      simp only [htables, true_and]
      rfl
    · rename_i htables
      simp [htables]

theorem get_lastNamed {name : String} (h : name ∈ default.settings.keys) (a b : Record) :
    (lastNamed a b).get name = (b.get name).toOption.getD (a.get name) := by
  have hkeys : (lastNamed a b).keys = default.settings.keys := by
    simp [lastNamed, Record.keys, Function.comp_def]
  have hnodup : (lastNamed a b).keys.Nodup := by
    rw [hkeys]
    decide
  have hmem : (name, (b.get name).toOption.getD (a.get name)) ∈ lastNamed a b :=
    List.mem_map.mpr ⟨name, h, rfl⟩
  rw [Record.get_eq, Record.get?_of_mem hnodup hmem, Option.getD_some]

theorem toOption_getD (v w u : Value) :
    (v.toOption.getD w).toOption.getD u = v.toOption.getD (w.toOption.getD u) := by
  cases v <;> rfl

/-- A configuration has the settings that it is built from, its tables apart. -/
theorem get_settings {name : String} {mode : WriteMode} {tables : List Value}
    (h : Passes setting mode tables) (hname : name ∈ default.settings.keys)
    (hne : name ≠ "valid_tables") :
    (ofChecked setting mode tables).settings.get name = setting name := by
  have hmode := (writeMode?_eq_ok h.writeMode).1
  simp only [default, settings, Record.keys, List.map_cons, List.map_nil, List.mem_cons,
    List.not_mem_nil, or_false] at hname
  rcases hname with rfl | rfl | rfl | rfl | rfl | rfl | rfl | rfl | rfl | rfl | rfl
  case inr.inr.inr.inl => exact hmode.symm
  case inr.inr.inr.inr.inr.inr.inr.inr.inr.inr => exact absurd rfl hne
  all_goals rfl

/-- A configuration cannot tell settings apart that differ in the kind of its tables only. -/
theorem ofSettings_congr {other : String → Value}
    (h : ∀ name ∈ default.settings.keys, name ≠ "valid_tables" → setting name = other name)
    (htables : (setting "valid_tables").items? = (other "valid_tables").items?) :
    ofSettings setting = ofSettings other := by
  have hmode := h "on_write_denied" (by decide) (by decide)
  have hlimit := h "default_limit" (by decide) (by decide)
  have hjoins := h "max_join_count" (by decide) (by decide)
  have henforce := h "enforce_rls" (by decide) (by decide)
  have hlog := h "log_policy_decisions" (by decide) (by decide)
  have hkey := h "cache_key_prefix" (by decide) (by decide)
  have htag := h "cache_tag_prefix" (by decide) (by decide)
  have hlarge := h "large_table_threshold" (by decide) (by decide)
  have hsort := h "sort_memory_threshold" (by decide) (by decide)
  have hcheck := h "check_valid_table" (by decide) (by decide)
  unfold ofSettings
  rw [hmode, hlimit, hjoins, htables, henforce, hlog, hkey, htag, hlarge, hsort, hcheck]

/-- Overrides one after another are the last ones of both. -/
theorem merge_merge {a b : Record} {c₁ c₂ : Config} (h₁ : c.merge a = .ok c₁)
    (h₂ : c₁.merge b = .ok c₂) : c.merge (lastNamed a b) = .ok c₂ := by
  obtain ⟨-, ha, h₁⟩ := merge_eq_ok.mp h₁
  obtain ⟨-, hb, h₂⟩ := merge_eq_ok.mp h₂
  obtain ⟨mode, tables, hpasses, rfl⟩ := ofSettings_eq_ok.mp h₁
  have hkey : "valid_tables" ∈ default.settings.keys := by decide
  have hlast (v w : Value) (hv : (v.isNull || v.items?.isSome) = true)
      (hw : (w.isNull || w.items?.isSome) = true) :
      ((v.toOption.getD w).isNull || (v.toOption.getD w).items?.isSome) = true := by
    cases v with
    | null => exact hw
    | _ => exact hv
  refine merge_eq_ok.mpr ⟨rfl, ?_, ?_⟩
  · rw [get_lastNamed hkey]
    exact hlast _ _ hb ha
  · have htwice (name : String) (hname : name ∈ default.settings.keys) :
        c.overridden (lastNamed a b) name =
          (b.get name).toOption.getD (c.overridden a name) := by
      change ((lastNamed a b).get name).toOption.getD (c.settings.get name) = _
      rw [get_lastNamed hname, toOption_getD]
      rfl
    rw [← h₂]
    apply ofSettings_congr
    · intro name hname hne
      rw [htwice name hname, ← get_settings hpasses hname hne]
      rfl
    · rw [htwice _ hkey]
      unfold overridden
      cases (b.get "valid_tables").toOption with
      | none => exact hpasses.validTables
      | some v => rfl

end Config

/-! ## Programs -/

namespace Configuring

/-- Programs that are built from overrides, resets and blocks. A block starts with named settings or
with the defaults; bodies and what comes behind a step depend on its result in any way, may fail, and
may go on after a failure. -/
inductive Built : {α : Type} → Configuring α → Prop where
  | result {α : Type} (y : Except Fault α) : Built (liftM y)
  | current : Built current
  | configure (named : Record) : Built (configure named)
  | reset : Built reset
  | isolated {α : Type} (named : Option Record) {body : Config → Configuring α} :
      (∀ c, Built (body c)) →
      Built ((liftM (named.mapM Config.ofNamed) : Configuring _) >>= fun start =>
        isolated start body)
  | bind {α β : Type} {x : Configuring α} {f : α → Configuring β} :
      Built x → (∀ a, Built (f a)) → Built (x >>= f)
  | outcome {α : Type} {x : Configuring α} : Built x → Built x.outcome

variable {α : Type} {c : Config}

theorem runIn_current (c : Config) : current.runIn inForce c = (.ok c, c) := rfl

theorem runIn_install (d c : Config) : (install d).runIn inForce c = (.ok (), d) := rfl

/-- An override that fails leaves the configuration in force as it was. -/
theorem runIn_configure (named : Record) (c : Config) :
    (configure named).runIn inForce c = (c.merge named, (c.merge named).toOption.getD c) := by
  unfold configure
  rw [runIn_bind_ok (runIn_current c), runIn_bind_lift]
  cases c.merge named <;> rfl

/-- A block results in what its body results in, and changes nothing outside. -/
theorem runIn_isolated (start : Option Config) (body : Config → Configuring α) (c : Config) :
    (isolated start body).runIn inForce c =
      (((body (start.getD Config.default)).runIn inForce (start.getD Config.default)).1, c) := by
  unfold isolated
  rw [runIn_bind_ok (runIn_current c)]
  dsimp only
  rw [runIn_bind_ok (runIn_install _ c), runIn_bind_ok (runIn_outcome _ _),
    runIn_bind_ok (runIn_install c _), runIn_lift]

theorem always_current (hc : c.IsValid) : current.Always inForce Config.IsValid c := ⟨hc, hc⟩

theorem always_install {d : Config} (hd : d.IsValid) (hc : c.IsValid) :
    (install d).Always inForce Config.IsValid c := ⟨hc, hd⟩

theorem always_configure (named : Record) (hc : c.IsValid) :
    (configure named).Always inForce Config.IsValid c := by
  unfold configure
  refine (always_current hc).bind_ok (runIn_current c) ?_
  refine (always_lift _ hc).bind fun d t hrun => ?_
  rw [runIn_lift] at hrun
  obtain ⟨hmerge, rfl⟩ := Prod.mk.inj hrun
  have hd : d.IsValid := Config.isValid_of_merge hmerge
  exact (always_install hd hc).bind_ok (runIn_install d c) (always_pure d hd)

/-- A block keeps to valid configurations if its body does. -/
theorem always_isolated {start : Option Config} {body : Config → Configuring α}
    (hstart : (start.getD Config.default).IsValid)
    (hbody : (body (start.getD Config.default)).Always inForce Config.IsValid
      (start.getD Config.default))
    (hc : c.IsValid) : (isolated start body).Always inForce Config.IsValid c := by
  unfold isolated
  refine (always_current hc).bind_ok (runIn_current c) ?_
  refine (always_install hstart hc).bind_ok (runIn_install _ c) ?_
  refine hbody.outcome.bind_ok (runIn_outcome _ _) ?_
  exact (always_install hc hbody.last).bind_ok (runIn_install c _) (always_lift _ hc)

theorem isValid_start {named : Option Record} {start : Option Config}
    (h : named.mapM Config.ofNamed = .ok start) : (start.getD Config.default).IsValid := by
  cases named with
  | none =>
    cases h
    exact Config.isValid_default
  | some settings =>
    rw [Option.mapM_some] at h
    cases hbuilt : Config.ofNamed settings with
    | error f =>
      rw [hbuilt] at h
      cases h
    | ok d =>
      rw [hbuilt] at h
      cases h
      exact Config.isValid_of_ofNamed hbuilt

/-- The configurations in force during a program that starts with a valid one are valid. -/
theorem Built.always {x : Configuring α} (h : Built x) (hc : c.IsValid) :
    x.Always inForce Config.IsValid c := by
  -- on how the program is built, from every valid configuration: a block starts with its own
  induction h generalizing c with
  | result y => exact always_lift y hc
  | current => exact always_current hc
  | configure named => exact always_configure named hc
  | reset => exact always_install Config.isValid_default hc
  | isolated named _ ih =>
    refine (always_lift _ hc).bind fun start t hrun => ?_
    rw [runIn_lift] at hrun
    obtain ⟨hstart, rfl⟩ := Prod.mk.inj hrun
    have hvalid := isValid_start hstart
    exact always_isolated hvalid (ih _ hvalid) hc
  | bind _ _ ihx ihf =>
    refine (ihx hc).bind fun a t hrun => ihf a ?_
    have hlast := (ihx hc).last
    rwa [hrun] at hlast
  | outcome _ ih => exact (ih hc).outcome

end Configuring

/-! ## Rehearsed steps -/

open Configuring

mutual

/-- The program of a step. -/
def ConfigStep.program : ConfigStep → Configuring ConfigAnswer
  | .build named => return .config (Config.ofNamed named)
  | .derive named => do return .config ((← current).merge named)
  | .configure named => do return .config (← (configure named).outcome)
  | .current => do return .config (.ok (← current))
  | .reset => do
    reset
    return .config (.ok (← current))
  | .limit query => do
    return .limit ((Query.read (some (← current).defaultLimit) query).map (·.limit))
  | .isolated start body fails => do
    let block : Configuring (Config × List ConfigAnswer) := do
      let start ← (liftM (start.mapM Config.ofNamed) : Configuring (Option Config))
      isolated start fun inner => do
        let answers ← stepsProgram body
        return (inner, answers)
    let result ← block.outcome
    let after ← current
    match result with
    | .error f => return .block (.error f) [] after
    | .ok (inner, answers) =>
      return .block (if fails then .error .outside else .ok inner) answers after

/-- The program of steps one after another. -/
def stepsProgram : List ConfigStep → Configuring (List ConfigAnswer)
  | [] => return []
  | s :: rest => do
    let a ← s.program
    let others ← stepsProgram rest
    return a :: others

end

/-- A block starts with the named settings or with the defaults. -/
theorem start_eq (start : Option Record) :
    (start.map Config.ofNamed).getD (.ok Config.default) =
      (start.mapM Config.ofNamed).map (·.getD Config.default) := by
  cases start with
  | none => rfl
  | some named =>
    rw [Option.map_some, Option.getD_some, Option.mapM_some]
    cases Config.ofNamed named <;> rfl

mutual

theorem run_program (c : Config) : ∀ step : ConfigStep,
    step.program.runIn inForce c = (.ok (step.run c).1, (step.run c).2)
  | .build named => rfl
  | .derive named => rfl
  | .configure named => by
    rw [ConfigStep.program, runIn_bind_ok (runIn_outcome _ c), runIn_configure, ConfigStep.run]
    cases c.merge named <;> rfl
  | .current => rfl
  | .reset => rfl
  | .limit query => rfl
  | .isolated start body fails => by
    rw [ConfigStep.program, ConfigStep.run, start_eq start, runIn_bind_ok (runIn_outcome _ c),
      runIn_bind_lift]
    cases start.mapM Config.ofNamed with
    | error f => rfl
    | ok built =>
      have hbody := run_stepsProgram (built.getD Config.default) body
      rw [runThen, runIn_isolated, runIn_bind_ok hbody]
      rfl

theorem run_stepsProgram (c : Config) : ∀ steps : List ConfigStep,
    (stepsProgram steps).runIn inForce c = (.ok (runSteps c steps).1, (runSteps c steps).2)
  | [] => rfl
  | s :: rest => by
    rw [stepsProgram, runIn_bind_ok (run_program c s),
      runIn_bind_ok (run_stepsProgram (s.run c).2 rest)]
    rfl

end

theorem built_pure {α : Type} (a : α) : Built (pure a) := Built.result (.ok a)

mutual

theorem built_program : ∀ step : ConfigStep, Built step.program
  | .build named => by
    rw [ConfigStep.program]
    exact built_pure _
  | .derive named => by
    rw [ConfigStep.program]
    exact .bind .current fun _ => built_pure _
  | .configure named => by
    rw [ConfigStep.program]
    exact .bind (.outcome (.configure named)) fun _ => built_pure _
  | .current => by
    rw [ConfigStep.program]
    exact .bind .current fun _ => built_pure _
  | .reset => by
    rw [ConfigStep.program]
    exact .bind .reset fun _ => .bind .current fun _ => built_pure _
  | .limit query => by
    rw [ConfigStep.program]
    exact .bind .current fun _ => built_pure _
  | .isolated start body fails => by
    rw [ConfigStep.program]
    have hbody (inner : Config) : Built (do
        let answers ← stepsProgram body
        return (inner, answers)) := .bind (built_stepsProgram body) fun _ => built_pure _
    refine .bind (.outcome (.isolated start hbody)) fun result => .bind .current fun after => ?_
    cases result <;> exact built_pure _

theorem built_stepsProgram : ∀ steps : List ConfigStep, Built (stepsProgram steps)
  | [] => by
    rw [stepsProgram]
    exact built_pure _
  | s :: rest => by
    rw [stepsProgram]
    exact .bind (built_program s) fun _ => .bind (built_stepsProgram rest) fun _ => built_pure _

end

/-! ## Isolation and validity -/

/-- Whatever a block does, the configuration from before it is in force behind it. An override that
fails leaves the one in force, and merging never changes it. Every configuration that is built is valid;
from a valid one a program that is built from overrides, resets and blocks goes through valid ones
only, and such a program does what steps do when they are rehearsed. Overrides one after another are
those of one record with the last override of each setting. -/
theorem configurations_isolated_and_valid :
    (∀ (α : Type) (start : Option Config) (body : Config → Configuring α) (c : Config),
      (isolated start body).runIn inForce c =
        (((body (start.getD Config.default)).runIn inForce (start.getD Config.default)).1, c)) ∧
    (∀ (named : Record) (c : Config),
      (configure named).runIn inForce c = (c.merge named, (c.merge named).toOption.getD c) ∧
      (do liftM ((← current).merge named) : Configuring Config).runIn inForce c =
        (c.merge named, c)) ∧
    (Config.default.IsValid ∧
      (∀ (named : Record) (c d : Config),
        Config.ofNamed named = .ok d ∨ c.merge named = .ok d → d.IsValid) ∧
      (∀ (α : Type) (x : Configuring α) (c : Config), Built x → c.IsValid →
        x.Always inForce Config.IsValid c) ∧
      ∀ steps : List ConfigStep, ∃ x : Configuring (List ConfigAnswer), Built x ∧
        ∀ c, x.runIn inForce c = (.ok (runSteps c steps).1, (runSteps c steps).2)) ∧
    ∀ (c c₁ c₂ : Config) (a b : Record), c.merge a = .ok c₁ → c₁.merge b = .ok c₂ →
      c.merge (Config.lastNamed a b) = .ok c₂ := by
  refine ⟨fun α => runIn_isolated, fun named c => ⟨runIn_configure named c, ?_⟩,
    ⟨Config.isValid_default, fun named c d h => ?_, fun α x c hx hc => hx.always hc,
      fun steps => ?_⟩,
    fun c c₁ c₂ a b => Config.merge_merge⟩
  · rw [runIn_bind_ok (runIn_current c), runIn_lift]
  · exact h.elim Config.isValid_of_ofNamed Config.isValid_of_merge
  · exact ⟨stepsProgram steps, built_stepsProgram steps, fun c => run_stepsProgram c steps⟩

/-- A larger limit, and a block that fails after another write mode and a bad count of joins. -/
def limitAndBlock : List ConfigStep :=
  [.configure [("default_limit", .int 25)],
    .isolated none [.configure [("on_write_denied", .text "filter")],
      .configure [("max_join_count", .int (-1))]] true]

theorem limitAndBlock_valid :
    (runSteps Config.default limitAndBlock).2 = { Config.default with defaultLimit := .int 25 } ∧
      (runSteps Config.default limitAndBlock).2.IsValid ∧
      Config.default.merge (Config.lastNamed [("default_limit", .int 25)]
          [("default_limit", .int 30), ("enforce_rls", .bool false)]) =
        .ok { Config.default with defaultLimit := .int 30, enforce := .bool false } := by
  obtain ⟨-, -, ⟨hdefault, -, hprograms, hsteps⟩, hmerges⟩ := configurations_isolated_and_valid
  obtain ⟨x, hx, hrun⟩ := hsteps limitAndBlock
  have hlast := (hprograms _ x Config.default hx hdefault).last
  rw [hrun] at hlast
  have hfirst : Config.default.merge [("default_limit", .int 25)] =
      .ok { Config.default with defaultLimit := .int 25 } := by
    rfl
  have hsecond : ({ Config.default with defaultLimit := .int 25 } : Config).merge
      [("default_limit", .int 30), ("enforce_rls", .bool false)] =
        .ok { Config.default with defaultLimit := .int 30, enforce := .bool false } := by
    rfl
  exact ⟨rfl, hlast, hmerges _ _ _ _ _ hfirst hsecond⟩

/-- A float that is no number passes for a limit, and is in force although it is not positive. -/
theorem nan_limit_passes :
    (configure [("default_limit", .number (.float Number.notANumber))]).runIn inForce
        Config.default =
      (.ok { Config.default with defaultLimit := .number (.float Number.notANumber) },
        { Config.default with defaultLimit := .number (.float Number.notANumber) }) ∧
      (Number.int 0).less (.float Number.notANumber) = false := by
  have hlimit : ¬ (Number.float Number.notANumber).atMost (.int 0) = true := by decide
  have hcomparable : (Value.number (.float Number.notANumber)).comparable =
      .ok (.float Number.notANumber) := rfl
  have hmerge : Config.default.merge [("default_limit", .number (.float Number.notANumber))] =
      .ok { Config.default with defaultLimit := .number (.float Number.notANumber) } :=
    Config.merge_eq_ok.mpr ⟨rfl, rfl, Config.ofSettings_eq_ok.mpr
      ⟨.raise, [], ⟨rfl, ⟨_, hcomparable, hlimit⟩, ⟨.int 3, rfl, by decide⟩, rfl⟩, rfl⟩⟩
  refine ⟨?_, by decide⟩
  rw [runIn_configure, hmerge]
  rfl

end RowGate
