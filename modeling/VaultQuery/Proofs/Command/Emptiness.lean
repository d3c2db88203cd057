import VaultQuery.Proofs.Command.Reordering
import VaultQuery.Proofs.Query.Grammar
import VaultQuery.Proofs.Value.Spelling
import VaultQuery.Proofs.Value.Visible

/-! # What is empty under a kind

    A question for emptiness looks at a value as its kind sees it. A kind that reads texts or
    writes them makes nothing empty, and nothing empty is read. Only the kind of lists changes an
    answer: it makes a list of whatever is there, and a list of the empty text is not empty.

    * `Kind.isEmpty_coerce_iff`: what a kind sees as empty;
    * `Kind.isEmpty_coerce_eq_iff`: when two kinds agree on it;
    * `Vault.selection_emptiness_eq`: what is selected by emptiness;
    * `Vault.selection_emptiness`: two declarations of a field select the same, but for the empty
      text;
    * `Vault.not_select_emptiness_of_list`: a document that stores it. -/

namespace VaultQuery

/-! ## Values as kinds see them -/

theorem Text.Visible.isEmpty {s : String} (h : Visible s) : s.isEmpty = false := by
  obtain ⟨c, hc, -⟩ := h
  rw [Bool.eq_false_iff]
  intro hempty
  rw [String.isEmpty_iff.mp hempty] at hc
  exact List.not_mem_nil hc

/-- Empty are nothing, the empty text and the empty list. -/
theorem Value.isEmpty_iff {w : Value} :
    w.isEmpty = true ↔ w = .null ∨ w = .list [] ∨ w = .text "" := by
  cases w with
  | text s => simp [isEmpty]
  | list items => simp [isEmpty]
  | _ => simp [isEmpty]

/-- What a text is read as is not empty. -/
theorem Value.Spells.isEmpty {s : String} {u : Value} (h : Spells s u) : u.isEmpty = false := by
  cases h <;> rfl

/-- The empty text is not read as anything. -/
theorem Value.not_spells_empty {u : Value} : ¬ Spells "" u := by
  have hnumber : readDouble? "" = none := rfl
  have hdate : Instant.read? "" = none := rfl
  have hbool : readBool? "" = none := by decide
  intro h
  cases h with
  | number h => cases hnumber.symm.trans h
  | date h => cases hdate.symm.trans h
  | bool h => cases hbool.symm.trans h

namespace Kind

/-- Under every kind but that of lists a value is empty when it is empty as it is stored. -/
theorem isEmpty_coerce {k : Kind} (hk : k ≠ .list) (w : Value) :
    (k.coerce w).isEmpty = w.isEmpty := by
  by_cases htext : k = .text
  -- the kind of texts writes numbers, dates and truth values, which can all be seen
  · rw [htext]
    cases w with
    | bool b => exact (Value.visible_boolText b).isEmpty
    | number d => exact (Layout.visible_plain d).isEmpty
    | date t => exact t.visible_withOffset.isEmpty
    | _ => rfl
  · cases w with
    | text s =>
        rcases coerce_text htext hk s with hkept | hspelled
        · rw [hkept]
        · have hs : s.isEmpty = false := by
            rw [Bool.eq_false_iff, Ne, String.isEmpty_iff]
            rintro rfl
            exact Value.not_spells_empty hspelled
          exact hspelled.isEmpty.trans hs.symm
    | _ =>
        refine congrArg Value.isEmpty (coerce_of_ne_text htext hk fun a ha => ?_)
        cases ha

/-- Under the kind of lists nothing and the empty list are empty, and whatever else is there is
    the item of a list. -/
theorem isEmpty_list_coerce_iff {w : Value} :
    (Kind.list.coerce w).isEmpty = true ↔ w = .null ∨ w = .list [] := by
  cases w with
  | list items => simp [coerce, Value.isEmpty]
  | _ => simp [coerce, Value.isEmpty]

/-- **What a kind sees as empty.** -/
theorem isEmpty_coerce_iff {k : Kind} {w : Value} :
    (k.coerce w).isEmpty = true ↔ w = .null ∨ w = .list [] ∨ w = .text "" ∧ k ≠ .list := by
  by_cases hk : k = .list
  · rw [hk, isEmpty_list_coerce_iff]
    simp
  · rw [isEmpty_coerce hk, Value.isEmpty_iff]
    simp [hk]

/-- Two kinds agree on whether a value is empty, unless it is the empty text and one of them is
    that of lists. -/
theorem isEmpty_coerce_eq_iff {k k' : Kind} {w : Value} :
    (k.coerce w).isEmpty = (k'.coerce w).isEmpty ↔
      (w = .text "" → (k = .list ↔ k' = .list)) := by
  rw [Bool.eq_iff_iff, isEmpty_coerce_iff, isEmpty_coerce_iff]
  by_cases hw : w = .text ""
  · simp [hw, not_iff_not]
  · simp [hw]

end Kind

/-! ## Documents -/

namespace Operator

variable {op : Operator} {name : String} {k k' : Kind} {d : Document}

/-- The operator asks whether a value is empty. -/
def AsksEmptiness (op : Operator) : Prop := op = .isEmpty ∨ op = .notEmpty

/-- Asked for emptiness, two values give one answer when both are empty or neither is. -/
theorem AsksEmptiness.holdsFor_eq_iff (hop : op.AsksEmptiness) {a b w : Value} :
    op.holdsFor a w = op.holdsFor b w ↔ a.isEmpty = b.isEmpty := by
  rcases hop with rfl | rfl
  · exact Iff.rfl
  · exact Bool.not_inj_iff

/-- The answer of a document that is asked for a field: without frontmatter it is no. -/
def answerOn (op : Operator) (name : String) (k : Kind) (d : Document) : Bool :=
  d.frontmatter.isSome && op.holdsFor ((Attribute.field name k).value d) .null

/-- **Two kinds of a field lead to one answer** unless the document stores the empty text and
    one of the kinds makes a list of it. -/
theorem AsksEmptiness.answerOn_eq_iff (hop : op.AsksEmptiness) :
    op.answerOn name k d = op.answerOn name k' d ↔
      (d.field? name = some (.text "") → (k = .list ↔ k' = .list)) := by
  rw [answerOn, answerOn]
  cases hf : d.frontmatter with
  | none =>
      simp [Document.field?_of_none hf]
  | some f =>
      rw [Option.isSome_some, Bool.true_and, Bool.true_and, hop.holdsFor_eq_iff, Attribute.value,
        Attribute.value, Kind.isEmpty_coerce_eq_iff]
      cases d.field? name <;> simp

/-- What a document answers when it is asked whether a field is empty. -/
theorem answerOn_isEmpty_iff {f : Frontmatter} (hf : d.frontmatter = some f) :
    isEmpty.answerOn name k d = true ↔
      f.get? name = none ∨ f.get? name = some .null ∨ f.get? name = some (.list []) ∨
        f.get? name = some (.text "") ∧ k ≠ .list := by
  rw [answerOn, hf, Option.isSome_some, Bool.true_and, Attribute.value,
    Document.field?_of_some hf]
  show (k.coerce ((f.get? name).getD .null)).isEmpty = true ↔ _
  rw [Kind.isEmpty_coerce_iff]
  cases f.get? name <;> simp

end Operator

/-! ## Selections -/

namespace Vault

variable {v : Vault} {name : String} {op : Operator}

theorem resolve_declare (hname : isReserved name = false) (v : Vault) (k : Kind) :
    (v.declare name k).resolve (.field name) = .ok (.field name k) := by
  have hkind : (v.declare name k).kindOf name = k := by
    rw [kindOf, declare, Dictionary.get?_insert_self]
    rfl
  rw [resolve_field _ hname, hkind]

/-- A field that is asked for emptiness where it is declared of a kind. -/
theorem exists_emptiness (hname : isReserved name = false) (hop : op.AsksEmptiness) (v : Vault)
    (s : Settings) (context : Option Document) (k : Kind) :
    ∃ q, Query.compile (v.declare name k) [⟨.field name, op, .value .null⟩] [] context s = .ok q ∧
      ∀ d, q.accepts d = .ok (op.answerOn name k d) := by
  have hthis : op ≠ .hasThis := by
    rcases hop with rfl | rfl <;> decide
  obtain ⟨q, hq, haccepts⟩ :=
    Query.exists_field (resolve_declare hname v k) hthis .null context s
  refine ⟨q, hq, fun d => ?_⟩
  rw [haccepts, Kind.coerce_null, Operator.answerOn]

/-- **A question for emptiness selects the documents that say yes**, in the order of the
    vault. -/
theorem selection_emptiness_eq (hname : isReserved name = false) (hop : op.AsksEmptiness)
    (v : Vault) (s : Settings) (context : Option Document) (k : Kind) :
    (v.declare name k).selection s [] context [⟨.field name, op, .value .null⟩]
      = .ok ⟨[], (v.documentList.filter (op.answerOn name k)).map v.linked, [],
          [⟨.info, plural (v.documentList.filter (op.answerOn name k)).length "document"⟩]⟩ := by
  obtain ⟨q, hq, haccepts⟩ := exists_emptiness hname hop v s context k
  have hmatching : q.matching (v.declare name k)
      = .ok (v.documentList.filter (op.answerOn name k)) :=
    Query.matching_eq_filter (Query.sortFields_eq_nil hq) haccepts
  have htype : q.setType = none := by
    have hnone : q.clausesOn (.ofName q.settings.typeAttribute) .eq = [] := by
      refine List.filter_eq_nil_iff.mpr fun c hc => ?_
      rw [List.mem_singleton.mp ((Query.clauses_perm hq).mem_iff.mp hc)]
      rcases hop with rfl | rfl <;> simp
    rw [Query.setType, hnone]
    rfl
  rw [selection, hq]
  show q.report (v.declare name k) = _
  rw [Query.report, hmatching, Except.map, Query.countMessage, htype]
  rfl

/-- A reserved name that is no attribute cannot be asked for anything. -/
theorem selection_of_reserved (hname : isReserved name = true) (v : Vault) (s : Settings)
    (context : Option Document) (op : Operator) :
    v.selection s [] context [⟨.field name, op, .value .null⟩]
      = .error (.unresolvedAttribute name) := by
  rw [selection, Query.compile_singleton, Test.ofClause, resolve, if_pos hname]
  rfl

/-- A question that is typed selects what its clause does, once the context is looked up. -/
theorem select_question (hkey : Clause.IsKeyName name) (hname : isReserved name = false)
    (v : Vault) (s : Settings) (op : Operator) (context : Option String) :
    v.select s [name ++ ":" ++ op.name] [] context
      = (v.contextDocument context).bind fun c =>
          v.selection s [] c [⟨.field name, op, .value .null⟩] := by
  have hclause : collect Clause.ofExpression [name ++ ":" ++ op.name]
      = .ok [⟨.field name, op, .value .null⟩] := by
    rw [collect, Clause.ofExpression_short hkey, Clause.literal, Key.ofName_of_not_reserved hname]
    rfl
  rw [select_eq_selection, hclause]
  rfl

/-- **A kind changes what is empty only by making a list of the empty text.** A name that cannot
    be asked for cannot be under any kind. Every other field can, and whatever two kinds it is
    declared of, `isempty` and `notempty` select the same documents, but for those that store the
    empty text if just one of the kinds is that of lists; without these the whole answers are the
    same. A document with frontmatter passes `isempty` exactly when nothing is stored, or null,
    or the empty list, or, where no list is made of it, the empty text. Such questions can be
    typed. -/
theorem selection_emptiness (v : Vault) (s : Settings) (name : String)
    (context : Option Document) :
    (isReserved name = true → ∀ k op,
      (v.declare name k).selection s [] context [⟨.field name, op, .value .null⟩]
        = .error (.unresolvedAttribute name)) ∧
    (isReserved name = false →
      (∀ op : Operator, op.AsksEmptiness → ∀ k k', ∃ r r',
        (v.declare name k).selection s [] context [⟨.field name, op, .value .null⟩] = .ok r ∧
        (v.declare name k').selection s [] context [⟨.field name, op, .value .null⟩] = .ok r' ∧
        (∀ d ∈ v.documentList, (r.Lists d ↔ r'.Lists d) ↔
          (d.field? name = some (.text "") → (k = .list ↔ k' = .list))) ∧
        ((∀ d ∈ v.documentList, d.field? name = some (.text "") → (k = .list ↔ k' = .list)) →
          r = r')) ∧
      (∀ k, ∃ q, Query.compile (v.declare name k) [⟨.field name, .isEmpty, .value .null⟩] []
          context s = .ok q ∧
        ∀ d f, d.frontmatter = some f → (q.accepts d = .ok true ↔
          f.get? name = none ∨ f.get? name = some .null ∨ f.get? name = some (.list []) ∨
            f.get? name = some (.text "") ∧ k ≠ .list)) ∧
      (Clause.IsKeyName name → ∀ k (op : Operator) path,
        (v.declare name k).select s [name ++ ":" ++ op.name] [] path
          = (v.contextDocument path).bind fun c =>
              (v.declare name k).selection s [] c [⟨.field name, op, .value .null⟩])) := by
  refine ⟨fun hname k op => selection_of_reserved hname _ s context op,
    fun hname => ⟨fun op hop k k' => ?_, fun k => ?_,
      fun hkey k op path => select_question hkey hname _ s op path⟩⟩
  · refine ⟨_, _, selection_emptiness_eq hname hop v s context k,
      selection_emptiness_eq hname hop v s context k', fun d hd => ?_, fun hagree => ?_⟩
    · rw [Query.lists_linked_iff, Query.lists_linked_iff, List.mem_filter, List.mem_filter,
        and_iff_right hd, and_iff_right hd, ← Bool.eq_iff_iff, hop.answerOn_eq_iff]
    · have hsame : v.documentList.filter (op.answerOn name k)
          = v.documentList.filter (op.answerOn name k') :=
        List.filter_congr fun d hd => hop.answerOn_eq_iff.mpr (hagree d hd)
      rw [hsame]
  · obtain ⟨q, hq, haccepts⟩ := exists_emptiness hname (Or.inl rfl) v s context k
    refine ⟨q, hq, fun d f hf => ?_⟩
    rw [haccepts, Except.ok.injEq]
    exact Operator.answerOn_isEmpty_iff hf

/-- An empty title is empty whether titles are declared as texts or as numbers, and it can be
    typed as a question; a name that is reserved is no attribute. -/
theorem selection_emptiness_of_title :
    let v := ofDocuments [Sample.titled ""]
    isReserved "title" = false ∧ Clause.IsKeyName "title" ∧
      (∀ d ∈ v.documentList, d.field? "title" = some (.text "") →
        (Kind.text = .list ↔ Kind.number = .list)) ∧
      (∃ r, (v.declare "title" .text).select .default ["title:isempty"] [] none = .ok r ∧
        (v.declare "title" .number).select .default ["title:isempty"] [] none = .ok r) ∧
      (∃ q, Query.compile (v.declare "title" .number) [⟨.field "title", .isEmpty, .value .null⟩] []
          none .default = .ok q ∧ q.accepts (Sample.titled "") = .ok true) ∧
      isReserved "__title" = true ∧
      (v.declare "__title" .text).selection .default [] none
          [⟨.field "__title", .isEmpty, .value .null⟩]
        = .error (.unresolvedAttribute "__title") := by
  intro v
  have hname : isReserved "title" = false := by decide
  have hkey : Clause.IsKeyName "title" :=
    ⟨by decide, Text.trimmed_of_all (by decide), by decide⟩
  have hreserved : isReserved "__title" = true := by decide
  have hagree : ∀ d ∈ v.documentList, d.field? "title" = some (.text "") →
      (Kind.text = .list ↔ Kind.number = .list) := fun _ _ _ => by decide
  obtain ⟨-, hfield⟩ := selection_emptiness v .default "title" none
  obtain ⟨hkinds, hstored, htyped⟩ := hfield hname
  obtain ⟨r, r', hr, hr', -, hsame⟩ := hkinds .isEmpty (Or.inl rfl) .text .number
  obtain ⟨q, hq, haccepts⟩ := hstored .number
  obtain ⟨herror, -⟩ := selection_emptiness v .default "__title" none
  refine ⟨hname, hkey, hagree, ⟨r, ?_, ?_⟩, ⟨q, hq, ?_⟩, hreserved, herror hreserved .text _⟩
  · exact (htyped hkey .text .isEmpty none).trans hr
  · rw [hsame hagree]
    exact (htyped hkey .number .isEmpty none).trans hr'
  · exact (haccepts (Sample.titled "") _ rfl).mpr (Or.inr (Or.inr (Or.inr ⟨rfl, by decide⟩)))

/-- **An empty title is not empty any more when titles are declared as lists**: it is the item of
    a list. -/
theorem not_select_emptiness_of_list :
    let v := ofDocuments [Sample.titled ""]
    (Sample.titled "").field? "title" = some (.text "") ∧
      ((v.declare "title" .any).select .default ["title:isempty"] [] none).map
        Report.listedPaths = .ok ["A.md"] ∧
      ((v.declare "title" .list).select .default ["title:isempty"] [] none).map
        Report.listedPaths = .ok [] ∧
      ((v.declare "title" .any).select .default ["title:notempty"] [] none).map
        Report.listedPaths = .ok [] ∧
      ((v.declare "title" .list).select .default ["title:notempty"] [] none).map
        Report.listedPaths = .ok ["A.md"] := by
  refine ⟨rfl, toOption_eq_some_iff.mp ?_, toOption_eq_some_iff.mp ?_,
    toOption_eq_some_iff.mp ?_, toOption_eq_some_iff.mp ?_⟩ <;> decide +kernel

end Vault
end VaultQuery
