import VaultQuery.Number.Decimal

/-! # Shortest decimals

    The decimal with the fewest digits that still reads back as a given double, and among
    those the one nearest to it.

    - `Tie`: which way a value half way between two such decimals goes;
    - `candidates`: the decimals of one precision that read back, the nearest first;
    - `shortest`: the first of them, from the lowest precision up. -/

namespace VaultQuery

/-- The choice between two decimals at the same distance. -/
inductive Tie where
  /-- The one whose last digit is even. -/
  | even
  /-- The larger one. -/
  | up
deriving DecidableEq

namespace Double

/-- The exponent of the leading decimal digit of `num / den`, a positive quotient, as the
    first of the given candidates that does not exceed it. -/
def leadingExponentFrom (num den : Nat) (e : Int) : Nat → Int
  | 0 => e
  | fuel + 1 =>
      let reached :=
        if 0 ≤ e then den * powerOfTen e.toNat ≤ num else den ≤ num * powerOfTen e.natAbs
      if reached then e else leadingExponentFrom num den (e - 1) fuel

/-- The exponent of the leading decimal digit of `num / den`: a few steps down from an upper
    bound by binary logarithms. -/
def leadingExponent (num den : Nat) : Int :=
  let bits : Int := (num.log2 : Int) - den.log2 + 1
  leadingExponentFrom num den (bits * 30103 / 100000 + 1) 4

/-- `num / den` in units of `10 ^ e` as a quotient of naturals. -/
def inUnits (num den : Nat) (e : Int) : Nat × Nat :=
  if 0 ≤ e then (num, den * powerOfTen e.toNat) else (num * powerOfTen e.natAbs, den)

/-- The multiples of `10 ^ e` next to the value of `d` that read back as `d`, the preferred
    one first. -/
def candidates (tie : Tie) (d : Double) (e : Int) : List Decimal :=
  let (num, den) := inUnits d.units unitsPerOne e
  let below := num / den
  let twice := 2 * (num % den)
  let upFirst : Bool :=
    if twice = den then
      match tie with
      | .even => below % 2 == 1
      | .up => true
    else decide (den < twice)
  let inOrder := if upFirst then [below + 1, below] else [below, below + 1]
  (inOrder.map fun n => (⟨d.negative, n, e⟩ : Decimal)).filter fun c => c.nearest == d

/-- The value of a finite double written out in full: a unit is a multiple of `10 ^ -1074`. -/
def exactDecimal (d : Double) : Decimal :=
  ⟨d.negative, d.units * (powerOfTen 1074 / unitsPerOne), -1074⟩

/-- The decimal with the fewest digits that reads back as `d`, the nearest of those. Seventeen
    digits are always enough. -/
def shortest (tie : Tie) (d : Double) : Decimal :=
  if d.magnitude = 0 then ⟨d.negative, 0, 0⟩
  else
    let e := leadingExponent d.units unitsPerOne
    match (List.range 17).findSome? fun (k : Nat) => (candidates tie d (e - k)).head? with
    | some c => c
    | none => exactDecimal d

theorem nearest_of_mem_candidates {tie : Tie} {d : Double} {e : Int} {c : Decimal}
    (h : c ∈ candidates tie d e) : c.nearest = d := by
  simp only [candidates, List.mem_filter, beq_iff_eq] at h
  exact h.2

/-- The shortest decimal was chosen to read back, unless it is the whole value. -/
theorem shortest_cases {d : Double} (tie : Tie) (hd : d.magnitude ≠ 0) :
    (d.shortest tie).nearest = d ∨ d.shortest tie = d.exactDecimal := by
  simp only [shortest, if_neg hd]
  split
  · rename_i c hc
    obtain ⟨k, -, hhead⟩ := List.exists_of_findSome?_eq_some hc
    exact Or.inl (nearest_of_mem_candidates (List.mem_of_mem_head? hhead))
  · exact Or.inr rfl

end Double
end VaultQuery
