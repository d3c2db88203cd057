import VaultQuery.Proofs.Command.Likeness
import VaultQuery.Proofs.Snapshot.Dates
import VaultQuery.Proofs.Snapshot.Documents

/-! # Queries after a snapshot is read

    A date that was saved is a text when it is read, and the kind of its field makes the date
    of it again: as long as the date stands by itself and its year has four digits, no query
    sees the difference.

    * `Value.IsReloadable`: no date, or such a date;
    * `Kind.coerce_reloaded`: such a date as its field sees it;
    * `Vault.looksLike_reloaded`: the vault that was read looks like the one that was saved;
    * `Vault.select_ofSnapshot_toSnapshot`: so selections list the same paths. -/

namespace VaultQuery

/-! ## Values -/

namespace Value

/-- The instant of a value that is a date. -/
def date? : Value → Option Instant
  | .date t => some t
  | _ => none

theorem date?_eq_some_iff {x : Value} {t : Instant} : x.date? = some t ↔ x = .date t := by
  cases x <;> simp [date?]

/-- There is no date in the value, or the value is a date of a year of four digits. -/
def IsReloadable (x : Value) : Prop :=
  x.Dateless ∨ ∃ t, x.date? = some t ∧ 0 ≤ t.day.year ∧ t.day.year ≤ 9999

end Value

/-- A field declared as a date sees in the text the date that was saved. -/
theorem Kind.coerce_reloaded {kind : Kind} {x : Value} (h : x.IsReloadable)
    (hkind : kind ≠ .date → x.Dateless) : kind.coerce x.reloaded = kind.coerce x := by
  by_cases hdateless : x.Dateless
  · rw [x.reloaded_eq_self hdateless]
  · have hdate : kind = .date := Decidable.byContradiction fun hne => hdateless (hkind hne)
    rcases h with h | ⟨t, ht, hyear⟩
    · exact absurd h hdateless
    · rw [Value.date?_eq_some_iff] at ht
      subst hdate ht
      show Kind.date.coerce (.text t.withZulu) = .date t
      simp only [coerce, Instant.read?_withZulu_iff.mpr hyear]

/-! ## Documents -/

theorem Dictionary.get?_map {α β : Type} (g : α → β) (d : Dictionary α) (name : String) :
    (d.map g).get? name = (d.get? name).map g := by
  obtain ⟨entries, h⟩ := d
  show findEntry name (entries.map fun e => (e.1, g e.2)) = (findEntry name entries).map g
  clear h
  induction entries with
  | nil => rfl
  | cons e entries ih =>
      obtain ⟨n, x⟩ := e
      rw [List.map_cons, findEntry, findEntry]
      by_cases hn : n = name
      · rw [if_pos hn, if_pos hn]
        rfl
      · rw [if_neg hn, if_neg hn, ih]

theorem Document.field?_reloaded (d : Document) (name : String) :
    d.reloaded.field? name = (d.field? name).map Value.reloaded := by
  obtain ⟨path, created, modified, frontmatter⟩ := d
  cases frontmatter with
  | none => rfl
  | some f => exact Dictionary.get?_map Value.reloaded f name

/-! ## Vaults -/

namespace Vault

variable {v w : Vault}

/-- **The vault that was read looks like the one that was saved**, if dates are stored by
    themselves, in fields declared for them, and in years of four digits. -/
theorem looksLike_reloaded (hdeclared : v.DatesDeclared)
    (hdates : ∀ x ∈ v.values, x.IsReloadable) (hproperties : w.properties = v.properties)
    (hdocuments : w.documentList = v.documentList.map Document.reloaded) :
    w.LooksLike v Document.reloaded where
  properties := hproperties
  documentList := hdocuments
  path := fun _ _ => rfl
  block := by
    intro d _
    obtain ⟨path, created, modified, frontmatter⟩ := d
    cases frontmatter with
    | none => rfl
    | some f => rfl
  value := by
    intro d hd key a ha
    cases key with
    | intrinsic i =>
        cases ha
        cases i <;> rfl
    | field name =>
        cases (v.resolve_field (isReserved_eq_false_of_resolve ha)).symm.trans ha
        rw [Attribute.value, Attribute.value, Document.field?_reloaded]
        cases hfield : d.field? name with
        | none => rfl
        | some x =>
            obtain ⟨f, hf, hx⟩ := Option.bind_eq_some_iff.mp hfield
            have hstored : x ∈ v.values := mem_values hd hf hx
            exact Kind.coerce_reloaded (hdates x hstored) (hdeclared d hd f hf name x hx)

theorem properties_ofSnapshot {now : Instant} {s : String} (h : ofSnapshot now s = .ok v) :
    v.properties = .empty := by
  rw [ofSnapshot] at h
  split at h
  · cases h
    exact properties_ofDocuments _
  · cases h

/-- What was read from the snapshot of a vault, if anything was. -/
theorem eq_reloaded_of_ofSnapshot {now : Instant}
    (hnumbers : ∀ x ∈ v.values, ∀ d, Value.number d ∈ x.scalars → d.ReadsBack)
    (h : ofSnapshot now v.toSnapshot = .ok w) : w = v.reloaded := by
  rw [ofSnapshot_toSnapshot_eq now hnumbers] at h
  split at h
  · exact (Except.ok.inj h).symm
  · cases h

/-- **Saving and reading a vault changes no selection.** A vault was read from a snapshot and
    worked on with requests. If its dates stand by themselves in years of four digits and its
    numbers are read as they are printed, then whatever is selected from the vault that is read
    back has the same paths in the same order, or fails with the same failure. -/
theorem select_ofSnapshot_toSnapshot {now now' : Instant} {snapshot : String}
    {loaded v saved : Vault} {kinds : List (String × Kind)}
    {requests : List (Settings × Instant × Command)}
    (hload : ofSnapshot now snapshot = .ok loaded)
    (hv : v = (loaded.declareAll kinds).afterAll requests)
    (hdates : ∀ x ∈ v.values, x.IsReloadable)
    (hnumbers : ∀ x ∈ v.values, ∀ d, Value.number d ∈ x.scalars → d.ReadsBack)
    (hsave : ofSnapshot now' v.toSnapshot = .ok saved)
    (s : Settings) (clauses sort : List String) (context : Option String) :
    ((saved.declareAll kinds).select s clauses sort context).map Report.listedPaths
      = (v.select s clauses sort context).map Report.listedPaths := by
  have hdeclared : v.DatesDeclared := by
    rw [hv]
    exact datesDeclared_afterAll requests
      (datesDeclared_of_dateless (dateless_of_ofSnapshot hload) kinds)
  have hproperties : (saved.declareAll kinds).properties = v.properties := by
    rw [hv, properties_afterAll]
    show saved.properties.insertAll kinds = loaded.properties.insertAll kinds
    rw [properties_ofSnapshot hload, properties_ofSnapshot hsave]
  have hdocuments : (saved.declareAll kinds).documentList
      = v.documentList.map Document.reloaded := by
    rw [← documentList_reloaded, ← eq_reloaded_of_ofSnapshot hnumbers hsave]
    rfl
  exact (looksLike_reloaded hdeclared hdates hproperties hdocuments).select s clauses sort context

/-! ## A vault with one date in it -/

theorem exists_date_of_years {year : Int}
    (h : v.values.map (fun x => x.date?.map (·.day.year)) = [some year]) :
    ∃ t : Instant, v.values = [.date t] ∧ t.day.year = year := by
  obtain ⟨x, hvalues, hx⟩ := List.map_eq_singleton_iff.mp h
  obtain ⟨t, ht, hyear⟩ := Option.map_eq_some_iff.mp hx
  rw [Value.date?_eq_some_iff] at ht
  exact ⟨t, ht ▸ hvalues, hyear⟩

theorem readsBack_of_date {t : Instant} (h : v.values = [.date t]) :
    ∀ x ∈ v.values, ∀ d, Value.number d ∈ x.scalars → d.ReadsBack := by
  rw [h]
  refine List.forall_mem_singleton.mpr fun d hd => ?_
  cases List.mem_singleton.mp hd

theorem ofSnapshot_toSnapshot_of_date {t : Instant} (now : Instant) (h : v.values = [.date t]) :
    ofSnapshot now v.toSnapshot = .ok v.reloaded := by
  have hdepth : ∀ x ∈ v.values, x.depth ≤ valueNestingLimit := by
    rw [h]
    exact List.forall_mem_singleton.mpr (Nat.zero_le _)
  rw [ofSnapshot_toSnapshot_eq now (readsBack_of_date h), if_pos hdepth]

/-- What is due before July is listed after saving and reading as it was before. -/
theorem select_ofSnapshot_toSnapshot_of_june :
    ∃ loaded v saved, ofSnapshot Sample.moment "[]" = .ok loaded ∧
      v = (loaded.declareAll Sample.deadlines).afterAll (Sample.dueOn "2024-06-15") ∧
      ofSnapshot Sample.moment v.toSnapshot = .ok saved ∧
      ((saved.declareAll Sample.deadlines).select .default ["due:lt:2024-07-01"] ["due:desc"]
        none).map Report.listedPaths = .ok ["A.md"] := by
  have hload : ofSnapshot Sample.moment "[]" = .ok .empty := rfl
  obtain ⟨v, hv⟩ : ∃ v, v = (empty.declareAll Sample.deadlines).afterAll
      (Sample.dueOn "2024-06-15") := ⟨_, rfl⟩
  have hyears : v.values.map (fun x => x.date?.map (·.day.year)) = [some 2024] := by
    rw [hv]
    decide +kernel
  have hselect : ((v.select .default ["due:lt:2024-07-01"] ["due:desc"] none).map
      Report.listedPaths).toOption = some ["A.md"] := by
    rw [hv]
    decide +kernel
  obtain ⟨t, hvalues, hyear⟩ := exists_date_of_years hyears
  have hdates : ∀ x ∈ v.values, x.IsReloadable := by
    rw [hvalues]
    exact List.forall_mem_singleton.mpr (Or.inr ⟨t, rfl, by omega⟩)
  have hsave := ofSnapshot_toSnapshot_of_date Sample.moment hvalues
  refine ⟨.empty, v, v.reloaded, hload, hv, hsave, ?_⟩
  rw [select_ofSnapshot_toSnapshot hload hv hdates (readsBack_of_date hvalues) hsave]
  exact toOption_eq_some_iff.mp hselect

/-- A document that is due on the first day of the year 10000 is not due on it any more when
    the vault was saved and read: the strict format has no such year. -/
theorem not_select_ofSnapshot_toSnapshot_of_year :
    ∃ loaded v saved, ofSnapshot Sample.moment "[]" = .ok loaded ∧
      v = (loaded.declareAll Sample.deadlines).afterAll (Sample.dueOn "+10000-01-01") ∧
      ofSnapshot Sample.moment v.toSnapshot = .ok saved ∧
      (v.select .default ["due:eq:+10000-01-01"] [] none).map Report.listedPaths
        = .ok ["A.md"] ∧
      ((saved.declareAll Sample.deadlines).select .default ["due:eq:+10000-01-01"] []
        none).map Report.listedPaths = .ok [] := by
  obtain ⟨v, hv⟩ : ∃ v, v = (empty.declareAll Sample.deadlines).afterAll
      (Sample.dueOn "+10000-01-01") := ⟨_, rfl⟩
  have hyears : v.values.map (fun x => x.date?.map (·.day.year)) = [some 10000] := by
    rw [hv]
    decide +kernel
  have hbefore : ((v.select .default ["due:eq:+10000-01-01"] [] none).map
      Report.listedPaths).toOption = some ["A.md"] := by
    rw [hv]
    decide +kernel
  have hafter : (((v.reloaded.declareAll Sample.deadlines).select .default
      ["due:eq:+10000-01-01"] [] none).map Report.listedPaths).toOption = some [] := by
    rw [hv]
    decide +kernel
  obtain ⟨t, hvalues, -⟩ := exists_date_of_years hyears
  exact ⟨.empty, v, v.reloaded, rfl, hv, ofSnapshot_toSnapshot_of_date Sample.moment hvalues,
    toOption_eq_some_iff.mp hbefore, toOption_eq_some_iff.mp hafter⟩

end Vault
end VaultQuery
