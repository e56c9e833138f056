import RowGate.Proofs.Cache.Effects
/-!
Views of a store after calls of the cache. Main statements: the set of a tag outlives the texts that
were put under it, so these are gone when the tag is removed; and a key that is not in the sets of
some tags cannot tell whether they were removed.
-/
namespace RowGate.Cache

open Number (Later)
open KeyValue (Memory Expiring laterEnd)
open KeyValue.Memory (unended extended isOver_later)

namespace Effect

/-- The tags under which a key is put. -/
def filed (key : String) : Effect → Option (List String)
  | .filing other _ _ tags => if other = key then some tags else none
  | _ => none

/-- The tags that are removed. -/
def dropped : Effect → List String
  | .dropping tags => tags
  | _ => []

/-- Effects on keys, with ends that can be told from other times. -/
def IsSound (c : Config) : Effect → Prop
  | .filing key _ ends _ => IsKey c key ∧ ends.place?.isSome
  | _ => True

end Effect

namespace View

variable {c : Config} {key other tag : String} {now t ends : Number} {v v' : View}

/-- The set of a tag has a key in it. -/
def Enrolled (key tag : String) (v : View) : Prop :=
  ∃ s, v.tagged tag = some s ∧ key ∈ s.content

/-- The set of a tag has a key in it for as long as a text is there under the key. -/
def Shelters (now : Number) (key tag : String) (v : View) : Prop :=
  ∀ e, v.entry = some e → e.isOver now = false →
    ∃ s, v.tagged tag = some s ∧ key ∈ s.content ∧
      ∃ a b, e.ends = some a ∧ s.ends = some b ∧ a.atMost b = true

/-- Whatever is under a key has ended. -/
def Gone (now : Number) (v : View) : Prop := ∀ e, v.entry = some e → e.isOver now = true

theorem extended_content {s : Option (Expiring (List String))} {names : List String}
    {last : Option Number} {x : String} :
    x ∈ (extended now names last s).content ↔ x ∈ membersAt now s ∨ x ∈ names := by
  unfold extended membersAt
  cases unended now s with
  | none => simp [Text.mem_distinct]
  | some e => simp [Text.mem_distinct]

/-- A set with further members ends no sooner than it did, and no sooner than they do. -/
theorem extended_ends (now : Number) (names : List String)
    {s : Option (Expiring (List String))} (hends : ends.place?.isSome)
    (hs : ∀ e, s = some e → ∃ a, e.ends = some a ∧ a.place?.isSome) :
    ∃ b, (extended now names (some ends) s).ends = some b ∧ b.place?.isSome ∧
      ends.atMost b = true ∧
      ∀ e a, unended now s = some e → e.ends = some a → a.atMost b = true := by
  unfold extended
  cases hheld : unended now s with
  | none => exact ⟨ends, rfl, hends, Number.atMost_self hends, nofun⟩
  | some e =>
    have hsome := (Memory.unended_eq_some.mp hheld).1
    obtain ⟨a, ha, hplace⟩ := hs e hsome
    dsimp only
    rw [ha]
    unfold laterEnd
    dsimp only
    cases hless : a.less ends with
    | true =>
      refine ⟨ends, rfl, hends, Number.atMost_self hends, ?_⟩
      rintro e' a' ⟨⟩ ha'
      cases ha.symm.trans ha'
      exact Number.atMost_of_less hless
    | false =>
      refine ⟨a, rfl, hplace, Number.atMost_of_not_less hplace hends hless, ?_⟩
      rintro e' a' ⟨⟩ ha'
      cases ha.symm.trans ha'
      exact Number.atMost_self hplace

theorem IsSound.enter (h : v.IsSound c) (hkey : IsKey c other) (hends : ends.place?.isSome)
    (tag : String) : (v.enter now other ends tag).IsSound c := by
  intro u s hs
  change (if u = tag then some (extended now [other] (some ends) (v.tagged tag))
    else v.tagged u) = some s at hs
  split at hs
  · obtain rfl := Option.some.inj hs
    obtain ⟨b, hb, hplace, -, -⟩ := extended_ends now [other] hends fun e he => (h tag e he).2
    refine ⟨fun k hk => ?_, b, hb, hplace⟩
    rcases extended_content.mp hk with hmember | hnew
    · exact h.isKey hmember
    · obtain rfl := List.mem_singleton.mp hnew
      exact hkey
  · exact h u s hs

/-- Sets of tags stay sound. -/
theorem IsSound.after (h : v.IsSound c) {effect : Effect} (heffect : effect.IsSound c) :
    (v.after now key effect).IsSound c := by
  cases effect with
  | nothing => exact h
  | reading other =>
    rw [View.after]
    split <;> exact h
  | filing other text ends tags =>
    obtain ⟨hkey, hends⟩ := heffect
    refine List.foldlRecOn tags _ ?_ fun w hw tag _ => hw.enter hkey hends tag
    split <;> exact h
  | dropping tags => exact List.foldlRecOn tags _ h fun w hw tag _ => hw.drop tag

/-- A key that is put into the set of a tag is put there for as long as its text is there. -/
theorem shelters_enter (h : v.IsSound c) (hends : ends.place?.isSome)
    (hentry : ∀ e, v.entry = some e → ∃ a, e.ends = some a ∧ a.atMost ends = true) :
    (v.enter now key ends tag).Shelters now key tag := by
  intro e he hover
  obtain ⟨a, ha, hfirst⟩ := hentry e he
  obtain ⟨b, hb, -, hlast, -⟩ := extended_ends now [key] hends fun e he => (h tag e he).2
  exact ⟨_, if_pos rfl, extended_content.mpr (.inr (List.mem_singleton_self key)), a, b, ha, hb,
    Number.atMost_trans hfirst hlast⟩

/-- A set that outlives the text under a key has not ended before it. -/
theorem Shelters.isOver (h : v.Shelters now key tag) {e : Expiring String} (he : v.entry = some e)
    (hover : e.isOver now = false) :
    ∃ s a b, v.tagged tag = some s ∧ s.isOver now = false ∧ key ∈ s.content ∧
      e.ends = some a ∧ s.ends = some b ∧ a.atMost b = true := by
  obtain ⟨s, hs, hmember, a, b, ha, hb, hab⟩ := h e he hover
  refine ⟨s, a, b, hs, ?_, hmember, ha, hb, hab⟩
  rw [Memory.isOver_of_ends ha] at hover
  rw [Memory.isOver_of_ends hb]
  by_contra hend
  rw [Number.atMost_trans hab (Bool.not_eq_false _ |>.mp hend)] at hover
  cases hover

theorem Shelters.of_same (h : v.Shelters now key tag) (hentry : v'.entry = v.entry)
    (htagged : v'.tagged tag = v.tagged tag) : v'.Shelters now key tag := by
  unfold Shelters
  rw [hentry, htagged]
  exact h

theorem Shelters.of_unended (h : v.Shelters now key tag) (hentry : v'.entry = v.entry)
    (htagged : v'.tagged tag = unended now (v.tagged tag)) : v'.Shelters now key tag := by
  intro e he hover
  rw [hentry] at he
  obtain ⟨s, a, b, hs, hlive, hcontent, ha, hb, hab⟩ := h.isOver he hover
  have hheld : unended now (v.tagged tag) = some s := Memory.unended_eq_some.mpr ⟨hs, hlive⟩
  exact ⟨s, htagged.trans hheld, hcontent, a, b, ha, hb, hab⟩

/-- A set that outlives the text under a key has the key in it while the text is there. -/
theorem Shelters.gone_or_mem (h : v.Shelters now key tag) :
    v.Gone now ∨ key ∈ membersAt now (v.tagged tag) := by
  by_cases hgone : v.Gone now
  · exact .inl hgone
  · obtain ⟨e, hlive⟩ := not_forall.mp hgone
    obtain ⟨he, hover⟩ := Classical.not_imp.mp hlive
    obtain ⟨s, a, b, hs, hlive, hcontent, -⟩ := h.isOver he (Bool.not_eq_true _ |>.mp hover)
    exact .inr (mem_membersAt.mpr ⟨s, hs, hlive, hcontent⟩)

/-- A set goes on outliving the text under a key when something is put into sets. -/
theorem Shelters.enter (hshelters : v.Shelters now key tag) (h : v.IsSound c)
    (hends : ends.place?.isSome) (other u : String) :
    (v.enter now other ends u).Shelters now key tag := by
  intro e he hover
  obtain ⟨s, a, b, hs, hlive, hmember, ha, hb, hab⟩ := hshelters.isOver he hover
  by_cases hu : tag = u
  · subst hu
    obtain ⟨b', hb', -, -, hlast⟩ := extended_ends now [other] hends fun e he => (h tag e he).2
    have hheld : unended now (v.tagged tag) = some s := Memory.unended_eq_some.mpr ⟨hs, hlive⟩
    have hmember : key ∈ membersAt now (v.tagged tag) := mem_membersAt.mpr ⟨s, hs, hlive, hmember⟩
    exact ⟨_, if_pos rfl, extended_content.mpr (.inl hmember), a, b', ha, hb',
      Number.atMost_trans hab (hlast s b hheld hb)⟩
  · exact ⟨s, (if_neg hu).trans hs, hmember, a, b, ha, hb, hab⟩

theorem Shelters.enterAll (hshelters : v.Shelters now key tag) (h : v.IsSound c)
    (hother : IsKey c other) (hends : ends.place?.isSome) (tags : List String) :
    (tags.foldl (View.enter now other ends) v).Shelters now key tag := by
  induction tags generalizing v with
  | nil => exact hshelters
  | cons u tags ih => exact ih (hshelters.enter h hends other u) (h.enter hother hends u)

theorem shelters_enterAll {tags : List String} (htag : tag ∈ tags) (h : v.IsSound c)
    (hkey : IsKey c key) (hends : ends.place?.isSome)
    (hentry : ∀ e, v.entry = some e → ∃ a, e.ends = some a ∧ a.atMost ends = true) :
    (tags.foldl (View.enter now key ends) v).Shelters now key tag := by
  induction tags generalizing v with
  | nil => cases htag
  | cons u tags ih =>
    have hsound : (v.enter now key ends u).IsSound c := h.enter hkey hends u
    by_cases htags : tag ∈ tags
    · exact ih htags hsound hentry
    · obtain rfl := (List.mem_cons.mp htag).resolve_right htags
      exact (shelters_enter h hends hentry).enterAll hsound hkey hends tags

/-- A set goes on outliving the text under a key when things are removed. -/
theorem Shelters.drop (h : v.Shelters now key tag) (u : String) :
    (v.drop now key u).Shelters now key tag := by
  intro e he hover
  change (if key ∈ membersAt now (v.tagged u) then none else v.entry) = some e at he
  by_cases hmember : key ∈ membersAt now (v.tagged u)
  · rw [if_pos hmember] at he
    cases he
  · rw [if_neg hmember] at he
    obtain ⟨s, a, b, hs, hlive, hcontent, ha, hb, hab⟩ := h.isOver he hover
    have hu : ¬tag = u := by
      rintro rfl
      exact hmember (mem_membersAt.mpr ⟨s, hs, hlive, hcontent⟩)
    exact ⟨s, (if_neg hu).trans hs, hcontent, a, b, ha, hb, hab⟩

theorem Shelters.later (h : v.Shelters now key tag) (hlater : Later now t) :
    v.Shelters t key tag := by
  intro e he hover
  apply h e he
  by_contra hend
  rw [isOver_later hlater (Bool.not_eq_false _ |>.mp hend)] at hover
  cases hover

theorem Shelters.of_lasting (h : v.Shelters now key tag) :
    Shelters now key tag { v with entry := lasting now v.entry } := by
  intro e he
  exact h e (Option.filter_eq_some_iff.mp he).1

/-- A set goes on outliving the text under a key unless another text is put there. -/
theorem Shelters.after (hshelters : v.Shelters now key tag) (h : v.IsSound c) {effect : Effect}
    (heffect : effect.IsSound c) (hfiled : effect.filed key = none) :
    (v.after now key effect).Shelters now key tag := by
  cases effect with
  | nothing => exact hshelters
  | reading other =>
    rw [View.after]
    split
    · exact hshelters.of_lasting
    · exact hshelters
  | filing other text ends tags =>
    obtain ⟨hother, hends⟩ := heffect
    have hne : ¬other = key := by
      intro heq
      rw [Effect.filed, if_pos heq] at hfiled
      cases hfiled
    rw [View.after, if_neg hne]
    exact hshelters.enterAll h hother hends tags
  | dropping tags => exact List.foldlRecOn tags _ hshelters fun w hw u _ => hw.drop u

/-- Another text under a key is outlived by the sets into which the key is put with it. -/
theorem shelters_filed (h : v.IsSound c) {effect : Effect} (heffect : effect.IsSound c)
    {tags : List String} (hfiled : effect.filed key = some tags) (htag : tag ∈ tags) :
    (v.after now key effect).Shelters now key tag := by
  cases effect with
  | filing other text ends listed =>
    rw [Effect.filed] at hfiled
    split at hfiled
    · rename_i heq
      subst heq
      obtain rfl := Option.some.inj hfiled
      rw [View.after, if_pos rfl]
      have hentry (e : Expiring String) (he : some ⟨text, some ends⟩ = some e) :
          ∃ a, e.ends = some a ∧ a.atMost ends = true := by
        rw [← Option.some.inj he]
        exact ⟨ends, rfl, Number.atMost_self heffect.2⟩
      exact shelters_enterAll htag h heffect.1 heffect.2 hentry
    · cases hfiled
  | _ => cases hfiled

/-- Nothing is found under a key whose text is gone. -/
theorem Gone.found {start : String} {m : Memory} (h : (View.of start key m).Gone now) :
    found? m now key = none := by
  unfold found?
  cases hentry : m.values.get? key with
  | none => rfl
  | some e => exact if_pos (h e hentry)

theorem Gone.drop (h : v.Gone now) (u : String) : (v.drop now key u).Gone now := by
  intro e he
  change (if key ∈ membersAt now (v.tagged u) then none else v.entry) = some e at he
  split at he
  · cases he
  · exact h e he

theorem Gone.later (h : v.Gone now) (hlater : Later now t) : v.Gone t :=
  fun e he => isOver_later hlater (h e he)

/-- What the set of a tag outlives is gone when the tag is removed. -/
theorem gone_drop (h : v.Shelters now key tag) : (v.drop now key tag).Gone now := by
  intro e he
  change (if key ∈ membersAt now (v.tagged tag) then none else v.entry) = some e at he
  rcases h.gone_or_mem with hgone | hmember
  · split at he
    · cases he
    · exact hgone e he
  · rw [if_pos hmember] at he
    cases he

theorem gone_dropping {tags : List String} (htag : tag ∈ tags) (h : v.Shelters now key tag) :
    (v.after now key (.dropping tags)).Gone now := by
  change (tags.foldl (View.drop now key) v).Gone now
  induction tags generalizing v with
  | nil => cases htag
  | cons u tags ih =>
    by_cases htags : tag ∈ tags
    · exact ih htags (h.drop u)
    · obtain rfl := (List.mem_cons.mp htag).resolve_right htags
      exact List.foldlRecOn tags _ (gone_drop h) fun w hw u _ => hw.drop u

/-- What changes the set of one tag at a time leaves those of all others. -/
theorem tagged_foldl {f : View → String → View} {tags : List String}
    (hf : ∀ v u, tag ≠ u → (f v u).tagged tag = v.tagged tag) (h : tag ∉ tags) (v : View) :
    (tags.foldl f v).tagged tag = v.tagged tag := by
  induction tags generalizing v with
  | nil => rfl
  | cons u tags ih =>
    have hrest : tag ∉ tags := fun hmem => h (List.mem_cons_of_mem u hmem)
    have hne : tag ≠ u := fun heq => h (List.mem_cons.mpr (.inl heq))
    rw [List.foldl_cons, ih hrest, hf v u hne]

theorem enterAll_entry (now : Number) (other : String) (ends : Number) (tags : List String)
    (v : View) : (tags.foldl (View.enter now other ends) v).entry = v.entry := by
  induction tags generalizing v with
  | nil => rfl
  | cons u tags ih => exact ih _

/-- What is gone stays gone unless another text is put under the key. -/
theorem Gone.after (h : v.Gone now) {effect : Effect} (hfiled : effect.filed key = none) :
    (v.after now key effect).Gone now := by
  cases effect with
  | nothing => exact h
  | reading other =>
    rw [View.after]
    split
    · intro e he
      exact h e (Option.filter_eq_some_iff.mp he).1
    · exact h
  | filing other text ends tags =>
    have hne : ¬other = key := by
      intro heq
      rw [Effect.filed, if_pos heq] at hfiled
      cases hfiled
    rw [View.after, if_neg hne]
    unfold Gone
    rw [enterAll_entry]
    exact h
  | dropping tags => exact List.foldlRecOn tags _ h fun w hw u _ => hw.drop u

theorem Enrolled.of_enter {u : String} (h : (v.enter now other ends u).Enrolled key tag) :
    v.Enrolled key tag ∨ other = key ∧ tag = u := by
  obtain ⟨s, hs, hmember⟩ := h
  change (if tag = u then some (extended now [other] (some ends) (v.tagged u))
    else v.tagged tag) = some s at hs
  by_cases hu : tag = u
  · subst hu
    rw [if_pos rfl] at hs
    obtain rfl := Option.some.inj hs
    rcases extended_content.mp hmember with hheld | hnew
    · obtain ⟨s, hs, -, hcontent⟩ := mem_membersAt.mp hheld
      exact .inl ⟨s, hs, hcontent⟩
    · exact .inr ⟨(List.mem_singleton.mp hnew).symm, rfl⟩
  · rw [if_neg hu] at hs
    exact .inl ⟨s, hs, hmember⟩

theorem Enrolled.of_enterAll {tags : List String}
    (h : (tags.foldl (View.enter now other ends) v).Enrolled key tag) :
    v.Enrolled key tag ∨ other = key ∧ tag ∈ tags := by
  induction tags generalizing v with
  | nil => exact .inl h
  | cons u tags ih =>
    rcases ih h with hbefore | ⟨hkey, htag⟩
    · rcases hbefore.of_enter with hv | ⟨hkey, htag⟩
      · exact .inl hv
      · exact .inr ⟨hkey, List.mem_cons.mpr (.inl htag)⟩
    · exact .inr ⟨hkey, List.mem_cons_of_mem u htag⟩

theorem Enrolled.of_drop {u : String} (h : (v.drop now other u).Enrolled key tag) :
    v.Enrolled key tag ∧ tag ≠ u := by
  obtain ⟨s, hs, hmember⟩ := h
  change (if tag = u then none else v.tagged tag) = some s at hs
  by_cases hu : tag = u
  · rw [if_pos hu] at hs
    cases hs
  · rw [if_neg hu] at hs
    exact ⟨⟨s, hs, hmember⟩, hu⟩

theorem Enrolled.of_dropAll {tags : List String}
    (h : (tags.foldl (View.drop now other) v).Enrolled key tag) :
    v.Enrolled key tag ∧ tag ∉ tags := by
  induction tags generalizing v with
  | nil => exact ⟨h, List.not_mem_nil⟩
  | cons u tags ih =>
    obtain ⟨hbefore, htags⟩ := ih h
    obtain ⟨hv, hu⟩ := hbefore.of_drop
    exact ⟨hv, List.not_mem_cons_of_ne_of_not_mem hu htags⟩

/-- A key gets into the set of a tag only where a text is put under it and the tag. -/
theorem enrolled_after {effect : Effect} (h : (v.after now key effect).Enrolled key tag) :
    (v.Enrolled key tag ∧ tag ∉ effect.dropped) ∨
      ∃ tags, effect.filed key = some tags ∧ tag ∈ tags := by
  cases effect with
  | nothing => exact .inl ⟨h, List.not_mem_nil⟩
  | reading other =>
    rw [View.after] at h
    split at h <;> exact .inl ⟨h, List.not_mem_nil⟩
  | filing other text ends tags =>
    rcases Enrolled.of_enterAll h with hbefore | ⟨hkey, htag⟩
    · split at hbefore <;> exact .inl ⟨hbefore, List.not_mem_nil⟩
    · exact .inr ⟨tags, if_pos hkey, htag⟩
  | dropping tags => exact .inl (Enrolled.of_dropAll h)

theorem tagged_enter (h : v.tagged tag = v'.tagged tag) (u : String) :
    (v.enter now other ends u).tagged tag = (v'.enter now other ends u).tagged tag := by
  change (if tag = u then some (extended now [other] (some ends) (v.tagged u)) else v.tagged tag) =
    if tag = u then some (extended now [other] (some ends) (v'.tagged u)) else v'.tagged tag
  by_cases hu : tag = u
  · rw [if_pos hu, if_pos hu, ← hu, h]
  · rw [if_neg hu, if_neg hu, h]

theorem tagged_drop (h : v.tagged tag = v'.tagged tag) (u : String) :
    (v.drop now key u).tagged tag = (v'.drop now key u).tagged tag := by
  change (if tag = u then none else v.tagged tag) = if tag = u then none else v'.tagged tag
  rw [h]

theorem tagged_all {f : View → String → View}
    (hf : ∀ w w' u, w.tagged tag = w'.tagged tag → (f w u).tagged tag = (f w' u).tagged tag)
    (h : v.tagged tag = v'.tagged tag) (tags : List String) :
    (tags.foldl f v).tagged tag = (tags.foldl f v').tagged tag := by
  induction tags generalizing v v' with
  | nil => exact h
  | cons u tags ih => exact ih (hf v v' u h)

/-- What the set of a tag is after an effect depends on what it was before. -/
theorem tagged_after (h : v.tagged tag = v'.tagged tag) (effect : Effect) :
    (v.after now key effect).tagged tag = (v'.after now key effect).tagged tag := by
  cases effect with
  | nothing => exact h
  | reading other =>
    rw [View.after, View.after]
    split <;> exact h
  | filing other text ends tags =>
    rw [View.after, View.after]
    apply tagged_all fun _ _ u hw => tagged_enter hw u
    split <;> exact h
  | dropping tags => exact tagged_all (fun _ _ u hw => tagged_drop hw u) h tags

/-- Two views that differ only in sets of some tags, in which the key is not. -/
structure Alike (key : String) (tags : List String) (v v' : View) : Prop where
  entry : v.entry = v'.entry
  tagged : ∀ tag, tag ∉ tags → v.tagged tag = v'.tagged tag
  unlisted : ∀ tag ∈ tags, ¬v.Enrolled key tag
  unlisted' : ∀ tag ∈ tags, ¬v'.Enrolled key tag

theorem not_member (h : ¬v.Enrolled key tag) : key ∉ membersAt now (v.tagged tag) := by
  intro hmember
  obtain ⟨s, hs, -, hcontent⟩ := mem_membersAt.mp hmember
  exact h ⟨s, hs, hcontent⟩

theorem Alike.drop {tags : List String} (h : Alike key tags v v') (u : String) :
    Alike key tags (v.drop now key u) (v'.drop now key u) where
  entry := by
    change (if key ∈ membersAt now (v.tagged u) then none else v.entry) =
      if key ∈ membersAt now (v'.tagged u) then none else v'.entry
    by_cases hu : u ∈ tags
    · rw [if_neg (not_member (h.unlisted u hu)), if_neg (not_member (h.unlisted' u hu)), h.entry]
    · rw [h.tagged u hu, h.entry]
  tagged tag htag := tagged_drop (h.tagged tag htag) u
  unlisted tag htag hmember := h.unlisted tag htag hmember.of_drop.1
  unlisted' tag htag hmember := h.unlisted' tag htag hmember.of_drop.1

/-- What cannot be told from the sets of some tags makes no difference later, unless the key gets
into one of them. -/
theorem Alike.after {tags : List String} (h : Alike key tags v v') {effect : Effect}
    (hfiled : ∀ listed, effect.filed key = some listed → ∀ tag ∈ listed, tag ∉ tags) :
    Alike key tags (v.after now key effect) (v'.after now key effect) where
  entry := by
    cases effect with
    | nothing => exact h.entry
    | reading other =>
      rw [View.after, View.after]
      split
      · exact congrArg (lasting now) h.entry
      · exact h.entry
    | filing other text ends listed =>
      rw [View.after, View.after, enterAll_entry, enterAll_entry]
      split
      · rfl
      · exact h.entry
    | dropping dropped =>
      change (dropped.foldl (View.drop now key) v).entry =
        (dropped.foldl (View.drop now key) v').entry
      induction dropped generalizing v v' with
      | nil => exact h.entry
      | cons u dropped ih =>
        refine ih (h.drop u) fun _ hlisted => ?_
        cases hlisted
  tagged tag htag := tagged_after (h.tagged tag htag) effect
  unlisted tag htag hmember := by
    rcases enrolled_after hmember with ⟨hbefore, -⟩ | ⟨listed, hlisted, hmem⟩
    · exact h.unlisted tag htag hbefore
    · exact hfiled listed hlisted tag hmem htag
  unlisted' tag htag hmember := by
    rcases enrolled_after hmember with ⟨hbefore, -⟩ | ⟨listed, hlisted, hmem⟩
    · exact h.unlisted' tag htag hbefore
    · exact hfiled listed hlisted tag hmem htag

theorem dropAll_tagged {tags : List String} (h : tag ∉ tags) :
    (tags.foldl (View.drop now key) v).tagged tag = v.tagged tag :=
  tagged_foldl (fun _ _ hu => if_neg hu) h v

/-- Removing tags cannot be told by a key that is in none of their sets. -/
theorem alike_dropping {tags : List String} (h : ∀ tag ∈ tags, ¬v.Enrolled key tag) :
    Alike key tags (v.after now key (.dropping tags)) v where
  entry := by
    change (tags.foldl (View.drop now key) v).entry = v.entry
    induction tags generalizing v with
    | nil => rfl
    | cons u tags ih =>
      have hu : (v.drop now key u).entry = v.entry := if_neg (not_member (h u List.mem_cons_self))
      rw [List.foldl_cons, ih fun tag htag hmember =>
        h tag (List.mem_cons_of_mem u htag) hmember.of_drop.1, hu]
  tagged _ htag := dropAll_tagged htag
  unlisted tag htag hmember := h tag htag (Enrolled.of_dropAll hmember).1
  unlisted' := h

end View

end RowGate.Cache
