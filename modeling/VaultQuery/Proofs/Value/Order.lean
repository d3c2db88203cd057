import VaultQuery.Value.Comparison

/-! # The order of result lists

    The order of values in result lists compares three things one after the other: the place
    of the type, a number for the types that have one, and the text. So it is a total preorder,
    and so is the order in either direction, which looks first at what is missing.

    * `Value.sortCompare_eq`: the order as a lexicographic one;
    * `Value.askedOrder`: the order in a direction, by cases on what is missing, and
      `Value.directedCompare_eq_askedOrder`: it is the order that sorting uses;
    * `Value.IsResultOrder`: what sorting needs of an order, and
      `Value.isResultOrder_sortCompare`: all of them have it, and keep the order in which
      values of one type are compared. -/

namespace VaultQuery

namespace Double

/-- The two keys of a number: that of the total order is one less for a negative one. -/
theorem key_cases (d : Double) :
    (d.key = -(d.magnitude : Int) ∧ d.totalKey = d.key - 1) ∨
      (d.key = d.magnitude ∧ d.totalKey = d.key) := by
  rw [totalKey, key]
  cases d.negative with
  | true => exact Or.inl ⟨rfl, rfl⟩
  | false => exact Or.inr ⟨rfl, rfl⟩

/-- The total order tells apart no more than the two zeros and the NaNs. -/
theorem totalKey_lt_of_key_lt {a b : Double} (h : a.key < b.key) : a.totalKey < b.totalKey := by
  rcases a.key_cases with ⟨ha, hta⟩ | ⟨ha, hta⟩ <;> rcases b.key_cases with ⟨hb, htb⟩ | ⟨hb, htb⟩
  all_goals omega

/-- Numbers of which one is less are in that order in the total order too. -/
theorem totalCompare_of_compare? {a b : Double} {o : Ordering} (ho : o ≠ .eq)
    (h : a.compare? b = some o) : a.totalCompare b = o := by
  have hkeys : compare a.key b.key = o := by
    rw [compare?] at h
    split at h
    · cases h
    · exact Option.some.inj h
  rw [totalCompare]
  cases o with
  | eq => exact absurd rfl ho
  | lt => exact Int.compare_eq_lt.mpr (totalKey_lt_of_key_lt (Int.compare_eq_lt.mp hkeys))
  | gt => exact Int.compare_eq_gt.mpr (totalKey_lt_of_key_lt (Int.compare_eq_gt.mp hkeys))

end Double

namespace Value

/-- The place of a value among those of its type; texts and lists have none. -/
def orderNumber : Value → Int
  | .bool b => b.toNat
  | .number d => d.totalKey
  | .date t => t.key
  | _ => 0

/-- The text that places a value among those of its type. -/
def orderText : Value → String
  | .text s => s
  | _ => ""

/-- First the type decides, then the number, then the text. -/
theorem sortCompare_eq :
    sortCompare = compareLex (compareOn rank)
      (compareLex (compareOn orderNumber) (compareOn orderText)) := by
  have hthen : ∀ o : Ordering, o = o.then .eq := by
    intro o
    cases o <;> rfl
  funext a b
  -- between values of one type only their own place is left
  cases a <;> cases b
  case bool.bool a b => cases a <;> cases b <;> rfl
  case number.number a b => exact hthen (compare a.totalKey b.totalKey)
  case date.date a b => exact hthen (compare a.key b.key)
  all_goals rfl

instance : Std.TransCmp sortCompare :=
  sortCompare_eq ▸ inferInstanceAs (Std.TransCmp (compareLex (compareOn rank)
    (compareLex (compareOn orderNumber) (compareOn orderText))))

/-- The order in a direction: what is missing comes last, other values as they are asked for. -/
def askedOrder (descending : Bool) : Value → Value → Ordering
  | .null, .null => .eq
  | .null, _ => .gt
  | _, .null => .lt
  | a, b => if descending then sortCompare b a else sortCompare a b

/-- What is there stands before what is missing. -/
theorem askedOrder_null {a : Value} (h : a.isNull = false) (descending : Bool) :
    askedOrder descending a .null = .lt := by
  cases a with
  | null => exact nomatch h
  | _ => rfl

/-- What is missing is told apart first, and the direction counts for the rest. -/
theorem directedCompare_eq (descending : Bool) :
    directedCompare descending = compareLex (compareOn isNull)
      (if descending then fun a b => sortCompare b a else sortCompare) := by
  funext a b
  cases descending <;> cases a <;> cases b <;> rfl

instance (descending : Bool) : Std.TransCmp (directedCompare descending) := by
  rw [directedCompare_eq]
  cases descending with
  | false => exact inferInstanceAs (Std.TransCmp (compareLex (compareOn isNull) sortCompare))
  | true =>
      have hreverse : Std.TransCmp fun a b => sortCompare b a := Std.TransCmp.opposite
      exact inferInstanceAs (Std.TransCmp (compareLex (compareOn isNull)
        fun a b => sortCompare b a))

/-- Sorting uses the order that was asked for. -/
theorem directedCompare_eq_askedOrder (descending : Bool) :
    directedCompare descending = askedOrder descending := by
  funext a b
  cases descending <;> cases a <;> cases b <;> rfl

/-! ## What sorting needs -/

/-- The two values are of one type. -/
def SameType : Value → Value → Prop
  | .null, .null => True
  | .bool _, .bool _ => True
  | .number _, .number _ => True
  | .text _, .text _ => True
  | .date _, .date _ => True
  | .list _, .list _ => True
  | _, _ => False

/-- A total preorder on all values in which everything stands strictly before what is
    missing. -/
structure IsResultOrder (cmp : Value → Value → Ordering) : Prop where
  refl (a : Value) : cmp a a = .eq
  swap (a b : Value) : cmp a b = (cmp b a).swap
  trans {a b c : Value} : (cmp a b).isLE = true → (cmp b c).isLE = true → (cmp a c).isLE = true
  null_last {a : Value} : a.isNull = false → cmp a .null = .lt

theorem isResultOrder_of_transCmp (cmp : Value → Value → Ordering) [Std.TransCmp cmp]
    (hnull : ∀ a : Value, a.isNull = false → cmp a .null = .lt) : IsResultOrder cmp where
  refl _ := Std.ReflCmp.compare_self
  swap _ _ := Std.OrientedCmp.eq_swap
  trans := Std.TransCmp.isLE_trans
  null_last := hnull _

/-- Values of one type that stand in order keep it in result lists. -/
theorem sortCompare_of_compare? {a b : Value} {o : Ordering} (htype : SameType a b)
    (ho : o ≠ .eq) (h : a.compare? b = some o) : sortCompare a b = o := by
  cases a <;> cases b <;> try exact htype.elim
  case number.number a b => exact Double.totalCompare_of_compare? ho h
  case bool.bool a b => exact Option.some.inj h
  case text.text a b => exact Option.some.inj h
  case date.date a b => exact Option.some.inj h
  case null.null => exact nomatch h
  case list.list a b => exact nomatch h

/-- In a direction they keep it or stand the other way around. -/
theorem askedOrder_of_compare? {a b : Value} {o : Ordering} (htype : SameType a b)
    (ho : o ≠ .eq) (h : a.compare? b = some o) (descending : Bool) :
    askedOrder descending a b = if descending then o.swap else o := by
  have hsorted : sortCompare a b = o := sortCompare_of_compare? htype ho h
  have hswapped : sortCompare b a = o.swap := hsorted ▸ Std.OrientedCmp.eq_swap
  have hpresent : askedOrder descending a b
      = if descending then sortCompare b a else sortCompare a b := by
    cases a with
    | null =>
        cases b with
        | null => exact nomatch h
        | _ => exact htype.elim
    | _ =>
        cases b with
        | null => exact htype.elim
        | _ => rfl
  rw [hpresent, hsorted, hswapped]

/-- **Every order by which results are sorted is a total preorder on all values** and puts what
    is missing strictly last: the order of result lists and the order in either direction.
    Values of one type of which one is less than the other stand in that order in result
    lists. -/
theorem isResultOrder_sortCompare :
    IsResultOrder sortCompare ∧ (∀ descending, IsResultOrder (directedCompare descending)) ∧
      ∀ a b o, SameType a b → o ≠ .eq → a.compare? b = some o → sortCompare a b = o := by
  refine ⟨isResultOrder_of_transCmp _ fun a ha => ?_,
    fun descending => isResultOrder_of_transCmp _ fun a ha => ?_,
    fun _ _ _ => sortCompare_of_compare?⟩
  · cases a with
    | null => exact nomatch ha
    | _ => rfl
  · cases a with
    | null => exact nomatch ha
    | _ => cases descending <;> rfl

/-- Negative zero stands before a half; and where the last comes first, a text stands before a
    NaN and that before what is missing. -/
theorem isResultOrder_sortCompare_of_nan :
    sortCompare (.number (.zero true)) (.number (.ofBits 0x3FE0000000000000)) = .lt ∧
      (directedCompare true (.text "a") .null).isLE = true ∧
      directedCompare true (.number (.ofBits 0x7FF8000000000000)) .null = .lt := by
  obtain ⟨-, hdirected, hkept⟩ := isResultOrder_sortCompare
  have hlast : directedCompare true (.number (.ofBits 0x7FF8000000000000)) .null = .lt :=
    (hdirected true).null_last rfl
  refine ⟨hkept _ _ .lt trivial (by decide) (by decide), ?_, hlast⟩
  exact (hdirected true).trans (b := .number (.ofBits 0x7FF8000000000000)) (by decide)
    (by rw [hlast]; rfl)

end Value
end VaultQuery
