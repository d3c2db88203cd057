import VaultQuery.Proofs.Command.Members
import VaultQuery.Proofs.Order.StableSort
import VaultQuery.Proofs.Value.Order
import VaultQuery.Proofs.Vault.Sample

/-! # The order of what is found

    A query keeps its sort fields in reverse and sorts by one field after the other, with a
    stable sort each time. What comes out is sorted by all fields at once: the field named
    first decides, among equals the next one, and in the end the order of paths.

    * `SortField.Asks`, `SortField.asks_order`: what one sort field asks for, and that the order
      by it is of this kind;
    * `Vault.orderBy`: the order that a list of sort fields asks for;
    * `Query.isStableSort_sortByFields`: one stable sort after the other;
    * `Vault.Precedes`: the order in which documents are reported;
    * `Query.isStableSort_sort`: sorting, and what reports list. -/

namespace VaultQuery

/-- The order of two documents by one field, in the direction asked for. -/
def SortField.order (v : Vault) (f : SortField) (a b : Document) : Ordering :=
  match v.resolve f.key with
  | .ok attr => Value.askedOrder f.descending (attr.value a) (attr.value b)
  | .error _ => .eq

/-- What a sort field asks of the order of documents by the values of an attribute: where values
    of one type are told apart, they stand as they compare, or the other way around where the
    last is to come first; and what is missing comes last in either direction. -/
structure SortField.Asks (f : SortField) (attr : Attribute)
    (order : Document → Document → Ordering) : Prop where
  compared : ∀ a b o, (attr.value a).SameType (attr.value b) → o ≠ .eq →
    (attr.value a).compare? (attr.value b) = some o →
      order a b = if f.descending then o.swap else o
  missing : ∀ a b, (attr.value a).isNull = false → (attr.value b).isNull = true →
    order a b = .lt

/-- The order of two documents by several fields, the first field first. -/
def Vault.orderBy (v : Vault) : List SortField → Document → Document → Ordering
  | [] => fun _ _ => .eq
  | f :: fs => compareLex (f.order v) (v.orderBy fs)

variable {v : Vault} {s : Settings} {context : Option Document} {clauses : List Clause}
  {sort : List SortField} {q : Query}

theorem SortField.order_eq {f : SortField} {attr : Attribute} (h : v.resolve f.key = .ok attr) :
    f.order v = fun a b => Value.askedOrder f.descending (attr.value a) (attr.value b) := by
  funext a b
  rw [order, h]

instance (v : Vault) (f : SortField) : Std.TransCmp (f.order v) := by
  have hvalues : Std.TransCmp (Value.askedOrder f.descending) :=
    Value.directedCompare_eq_askedOrder f.descending ▸ inferInstance
  cases hkey : v.resolve f.key with
  | error e =>
      have hequal : f.order v = fun _ _ => .eq := by
        funext a b
        rw [SortField.order, hkey]
      rw [hequal]
      exact { eq_swap := rfl, isLE_trans := fun _ _ => rfl }
  | ok attr =>
      rw [SortField.order_eq hkey]
      exact { eq_swap := hvalues.eq_swap, isLE_trans := hvalues.isLE_trans }

instance (v : Vault) (sort : List SortField) : Std.TransCmp (v.orderBy sort) := by
  induction sort with
  | nil => exact { eq_swap := rfl, isLE_trans := fun _ _ => rfl }
  | cons f sort ih =>
      exact inferInstanceAs (Std.TransCmp (compareLex (f.order v) (v.orderBy sort)))

/-- **The order by a field is as the field asks.** -/
theorem SortField.asks_order {f : SortField} {attr : Attribute} (h : v.resolve f.key = .ok attr) :
    f.Asks attr (f.order v) := by
  rw [order_eq h]
  constructor
  case compared =>
    intro a b o htype ho hcompared
    exact Value.askedOrder_of_compare? htype ho hcompared f.descending
  case missing =>
    intro a b ha hb
    cases hvalue : attr.value b with
    | null => exact Value.askedOrder_null ha f.descending
    | _ =>
        rw [hvalue] at hb
        exact nomatch hb

namespace Query

/-- To sort by one field is a stable sort. -/
theorem isStableSort_sortByField {field : SortField × Attribute} {f : SortField}
    (h : resolveSortField v f = .ok field) (ds : List Document) :
    IsStableSort (f.order v) ds (sortByField field ds) := by
  obtain ⟨attr, hkey, rfl⟩ := map_eq_ok_iff.mp h
  have horder : ∀ a b, Value.directedCompare f.descending (attr.value a) (attr.value b)
      = f.order v a b := by
    intro a b
    rw [SortField.order_eq hkey, Value.directedCompare_eq_askedOrder]
  simp only [sortByField, horder]
  exact isStableSort_mergeSort ds

/-- **One stable sort after the other, the first field last, is a stable sort by all fields.** -/
theorem isStableSort_sortByFields {fields : List (SortField × Attribute)}
    (h : sort.map (resolveSortField v) = fields.map .ok) (ds : List Document) :
    IsStableSort (v.orderBy sort) ds (sortByFields fields.reverse ds) := by
  induction sort generalizing fields with
  | nil =>
      cases fields with
      | nil => exact IsStableSort.refl ds
      | cons field fields => exact nomatch h
  | cons f sort ih =>
      cases fields with
      | nil => exact nomatch h
      | cons field fields =>
          rw [List.map_cons, List.map_cons, List.cons.injEq] at h
          have hlast : sortByFields (field :: fields).reverse ds
              = sortByField field (sortByFields fields.reverse ds) := by
            rw [List.reverse_cons, sortByFields, List.foldl_append]
            rfl
          rw [hlast]
          exact (ih h.2).lex (isStableSort_sortByField h.1 _)

/-- A query that was made ready sorts by the fields it was asked to. -/
theorem isStableSort_of_compile (h : compile v clauses sort context s = .ok q)
    (ds : List Document) : IsStableSort (v.orderBy sort) ds (q.sort ds) := by
  obtain ⟨-, hfields, -⟩ := compile_eq_ok_iff.mp h
  have hmap := collect_eq_ok_iff.mp hfields
  rw [List.map_reverse] at hmap
  have hforward : sort.map (resolveSortField v) = q.sortFields.reverse.map .ok := by
    rw [List.map_reverse, ← hmap, List.reverse_reverse]
  have hsorted := isStableSort_sortByFields hforward ds
  rw [List.reverse_reverse] at hsorted
  exact hsorted

end Query

/-! ## The order of reports -/

/-- The document `a` stands before `b` when results are sorted by some fields. -/
def Vault.Precedes (v : Vault) (sort : List SortField) (a b : Document) : Prop :=
  v.orderBy sort a b = .lt ∨ v.orderBy sort a b = .eq ∧ a.path < b.path

instance (a b : Document) : Decidable (v.Precedes sort a b) :=
  inferInstanceAs (Decidable (_ ∨ _ ∧ _))

/-- Of two documents one is not both before and after the other. -/
theorem Vault.Precedes.asymm {a b : Document} (h : v.Precedes sort a b) :
    ¬ v.Precedes sort b a := by
  have hswap : v.orderBy sort b a = (v.orderBy sort a b).swap := Std.OrientedCmp.eq_swap
  rw [Vault.Precedes, hswap]
  intro hback
  rcases h with hlt | ⟨heq, hpath⟩
  · rw [hlt] at hback
    rcases hback with hgt | ⟨hgt, -⟩ <;> exact nomatch hgt
  · rw [heq] at hback
    rcases hback with hlt | ⟨-, hpath'⟩
    · exact nomatch hlt
    · exact String.lt_irrefl _ (String.lt_trans hpath hpath')

/-- Documents that stand in this order come once each. -/
theorem Vault.nodup_of_precedes {ds : List Document} (h : ds.Pairwise (v.Precedes sort)) :
    ds.Nodup :=
  h.imp fun hab heq => (heq ▸ hab).asymm (heq ▸ hab)

/-- Documents that stand in this order are determined by which ones they are. -/
theorem Vault.eq_of_precedes {ds ds' : List Document} (h : ds.Pairwise (v.Precedes sort))
    (h' : ds'.Pairwise (v.Precedes sort)) (hsame : ∀ d, d ∈ ds ↔ d ∈ ds') : ds = ds' := by
  have hperm : ds.Perm ds' :=
    (List.perm_ext_iff_of_nodup (nodup_of_precedes h) (nodup_of_precedes h')).mpr hsame
  exact hperm.eq_of_pairwise (fun _ _ _ _ hab hba => absurd hba hab.asymm) h h'

namespace Query

/-- Documents that pass stand in the order of their paths before they are sorted. -/
theorem pairwise_precedes_of_matching (h : compile v clauses sort context s = .ok q) {w : Vault}
    {found : List Document} (hfound : q.matching w = .ok found) :
    found.Pairwise (v.Precedes sort) := by
  obtain ⟨ds, hds, rfl⟩ := map_eq_ok_iff.mp hfound
  have hpaths : ds.Pairwise fun a b => a.path < b.path :=
    (List.pairwise_map.mp w.paths_increasing).sublist (accepted_sublist hds)
  exact (isStableSort_of_compile h ds).pairwise_then hpaths

/-- **Sorting is stable and by all fields at once**, the field named first counting most,
    whatever documents are sorted, and the order by each field is as that field asks; and what
    a query reports is what passes it in a vault,
    each document once, in this order and otherwise in the order of paths. -/
theorem isStableSort_sort (h : compile v clauses sort context s = .ok q) :
    (∀ ds, IsStableSort (v.orderBy sort) ds (q.sort ds)) ∧
    (∀ f ∈ sort, ∃ attr, v.resolve f.key = .ok attr ∧ f.Asks attr (f.order v)) ∧
    ∀ w r, q.report w = .ok r →
      (∀ d, r.Lists d ↔ d ∈ w.documentList ∧ q.acceptsAny (some d) = .ok true) ∧
      (r.listed.map (·.document)).Nodup ∧
      (r.listed.map (·.document)).Pairwise (v.Precedes sort) := by
  refine ⟨isStableSort_of_compile h, fun f hf => ?_, fun w r hr => ?_⟩
  · obtain ⟨attr, hkey⟩ := (exists_compile_iff.mp ⟨q, h⟩).2 f hf
    exact ⟨attr, hkey, SortField.asks_order hkey⟩
  · obtain ⟨found, hfound, rfl⟩ := map_eq_ok_iff.mp hr
    have hlisted : (found.map w.linked).map (·.document) = found := by
      rw [List.map_map]
      exact List.map_id' found
    have hordered := pairwise_precedes_of_matching h hfound
    rw [hlisted]
    exact ⟨fun d => lists_linked_iff.trans (mem_matching hfound),
      Vault.nodup_of_precedes hordered, hordered⟩

/-- Sorted by status, the last first, and then by type, the book with a status comes first, as
    what is missing comes last in this direction too; of the collections, which have none and
    are of one type, the first path comes first. -/
theorem isStableSort_sort_of_shelves :
    ∃ q r, compile Sample.shelves [] Sample.byStatusAndType none .default = .ok q ∧
      q.report Sample.shelves = .ok r ∧
      SortField.order Sample.shelves ⟨.field "status", true⟩ Sample.dune Sample.favorites = .lt ∧
      r.listed.map (·.document) = [Sample.dune, Sample.favorites, Sample.readingList] := by
  have hfields : ∀ f ∈ Sample.byStatusAndType, ∃ a, Sample.shelves.resolve f.key = .ok a := by
    intro f hf
    have hkey : f.key = .field "status" ∨ f.key = .field "type" := by
      revert f
      decide
    rcases hkey with hkey | hkey <;> rw [hkey] <;>
      exact ⟨_, Sample.shelves.resolve_field (by decide)⟩
  obtain ⟨q, h⟩ : ∃ q, compile Sample.shelves [] Sample.byStatusAndType none .default = .ok q :=
    exists_compile_iff.mpr ⟨fun _ hc => (nomatch hc), hfields⟩
  have hanswers := exists_accepts h (Or.inr fun _ hc => nomatch hc)
  obtain ⟨r, hr, -⟩ := exists_report hanswers Sample.shelves
  obtain ⟨-, hasked, hreported⟩ := isStableSort_sort h
  obtain ⟨hlists, -, hordered⟩ := hreported Sample.shelves r hr
  have hstatus : SortField.order Sample.shelves ⟨.field "status", true⟩ Sample.dune
      Sample.favorites = .lt := by
    obtain ⟨attr, hattr, hasks⟩ := hasked ⟨.field "status", true⟩ (List.mem_cons_self ..)
    cases (Sample.shelves.resolve_field (by decide)).symm.trans hattr
    exact hasks.missing _ _ (by decide) (by decide)
  refine ⟨q, r, h, hr, hstatus, Vault.eq_of_precedes hordered (by decide +kernel) fun d => ?_⟩
  -- without clauses every document passes
  have haccepts : q.acceptsAny (some d) = .ok true :=
    (accepts_eq_true_iff h d).mpr fun _ hc => nomatch hc
  have hdocuments : Sample.shelves.documentList
      = [Sample.favorites, Sample.dune, Sample.readingList] := rfl
  rw [← Report.Lists, hlists, hdocuments, and_iff_left haccepts]
  simp [or_left_comm]

end Query
end VaultQuery
