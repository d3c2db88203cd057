import VaultQuery.Dictionary

/-! # Dictionaries seen through their values

    The order of the entries leaves one dictionary for each assignment of values to names. So
    whatever is done to a dictionary can be followed name by name.

    * `Dictionary.eq_of_get?`: dictionaries with the same values are the same;
    * `Dictionary.insert_comm`: writes under different names may change places. -/

namespace VaultQuery.Dictionary

variable {α : Type} {d d' : Dictionary α}

/-- **Dictionaries with the same values are the same.** -/
theorem eq_of_get? (h : ∀ name, d.get? name = d'.get? name) : d = d' := by
  have hmem : ∀ e, e ∈ d.entries ↔ e ∈ d'.entries := by
    rintro ⟨name, value⟩
    rw [← get?_eq_some_iff, ← get?_eq_some_iff, h]
  have hnodup : ∀ c : Dictionary α, c.entries.Nodup := fun c =>
    c.increasing.imp fun {a b} hlt (heq : a = b) => String.ne_of_lt hlt (congrArg (·.1) heq)
  have hperm : d.entries.Perm d'.entries :=
    (List.perm_ext_iff_of_nodup (hnodup d) (hnodup d')).mpr hmem
  have hentries : d.entries = d'.entries :=
    hperm.eq_of_pairwise (fun _ _ _ _ hab hba => absurd hba (String.lt_asymm hab))
      d.increasing d'.increasing
  obtain ⟨entries, hsorted⟩ := d
  subst hentries
  rfl

/-- Writes under different names may change places. -/
theorem insert_comm {m n : String} (hne : m ≠ n) (d : Dictionary α) (a b : α) :
    (d.insert m a).insert n b = (d.insert n b).insert m a := by
  refine eq_of_get? fun name => ?_
  simp only [get?_insert]
  by_cases hm : m = name
  · rw [if_pos hm, if_pos hm, if_neg fun hn => hne (hm.trans hn.symm)]
  · rw [if_neg hm, if_neg hm]

end VaultQuery.Dictionary
