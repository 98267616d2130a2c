import JexlScript.Lowering.Operator
import Mathlib.Tactic.FinCases

/-!
# Scripts of binary operators

`OperatorScript` lists the operators that have a fixed script, with the script of
each, and `binaryScript?` gives these and no others.
-/

namespace JexlScript

open List Script

/-- The binary operators that have a fixed script, with the script of each. -/
inductive OperatorScript (l r : Expr) : String → Expr → Prop where
  | logical {op : String} (known : op ∈ logicalOps) : OperatorScript l r op (.logical l op r)
  | native {op : String} (known : op ∈ nativeBinaryOps) : OperatorScript l r op (.binary l op r)
  | equal : OperatorScript l r "==" (.binary l "===" r)
  | unequal : OperatorScript l r "!=" (.binary l "!==" r)
  | power : OperatorScript l r "^" (.binary l "**" r)
  | floor : OperatorScript l r "//" (floorOfQuotient l r)
  | includes : OperatorScript l r "in" (r.invoke "includes" [l])

variable {op : String} {l r e : Expr}

/-- An operator has a fixed script if it is listed, and then the listed one. -/
theorem binaryScript?_eq_some_iff : binaryScript? op l r = some e ↔ OperatorScript l r op e := by
  constructor
  · intro script
    by_cases equal : op = "=="
    · subst equal
      cases script
      exact .equal
    by_cases unequal : op = "!="
    · subst unequal
      cases script
      exact .unequal
    simp only [binaryScript?, strictEquality?, equal, unequal, if_false] at script
    split_ifs at script with logical native power floor includes <;> cases script
    · exact .logical (contains_iff_mem.mp logical)
    · exact .native (contains_iff_mem.mp native)
    · exact power ▸ .power
    · exact floor ▸ .floor
    · exact includes ▸ .includes
  · rintro (known | known | _)
    · rw [binaryScript?, if_pos (contains_iff_mem.mpr known)]
    · fin_cases known <;> rfl
    all_goals rfl

/-- A unary operator with a script stays what it is. -/
theorem eq_of_unaryScript? (script : unaryScript? op l = some e) : e = .unary op l := by
  unfold unaryScript? at script
  split_ifs at script
  exact (Option.some.inj script).symm

/-- Whether an operator has a fixed script does not depend on its operands. -/
theorem OperatorScript.exists_operands (script : OperatorScript l r op e) (l' r' : Expr) :
    ∃ e', binaryScript? op l' r' = some e' := by
  cases script with
  | logical known => exact ⟨_, binaryScript?_eq_some_iff.mpr (.logical known)⟩
  | native known => exact ⟨_, binaryScript?_eq_some_iff.mpr (.native known)⟩
  | _ => exact ⟨_, rfl⟩

end JexlScript
