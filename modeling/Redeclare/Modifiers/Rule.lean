import Redeclare.Modifiers.Basic
import Redeclare.Text.Numeral

/-!
# Modifier rules

A rule governs a range of bits: it clears the range and sets its mask.  The
mask is taken as given, also where it reaches outside the range.  A list of
rules is applied from left to right.
-/

namespace Redeclare

/-- Clears the bits of `range`, then sets those of `mask`. -/
structure Rule where
  range : Modifiers
  mask : Modifiers
  deriving DecidableEq

namespace Rule

/-- The effect of a rule on a set. -/
def apply (r : Rule) (m : Modifiers) : Modifiers :=
  (m.diff r.range).union r.mask

/-- The bits that the rule sets outside its range. -/
def strayBits (r : Rule) : Modifiers :=
  r.mask.diff r.range

/-- Whether the rule sets only bits that it also clears. -/
def isConfined (r : Rule) : Bool :=
  r.strayBits == .empty

/-- The display text of a rule: both sets as four hexadecimal digits. -/
def display (r : Rule) : String :=
  let digits (m : Modifiers) := String.ofList (Text.hexFixed Text.hexDigit 4 m.toNat)
  "ModifierRule\x7brange=0x" ++ digits r.range ++ ", mask=0x" ++ digits r.mask ++ "\x7d"

/-- A bit after a rule: set by the mask, or kept outside the range. -/
theorem getLsbD_apply (r : Rule) (m : Modifiers) (i : Nat) :
    (r.apply m).bits.getLsbD i =
      (r.mask.bits.getLsbD i || (m.bits.getLsbD i && !r.range.bits.getLsbD i)) := by
  rw [apply, Modifiers.getLsbD_union, Modifiers.getLsbD_diff]
  by_cases h : i < 16
  · cases r.mask.bits.getLsbD i <;> simp [h]
  · simp [BitVec.getLsbD_of_ge _ _ (Nat.le_of_not_lt h)]

/-- A stray bit is set by the mask and not cleared by the range. -/
theorem getLsbD_strayBits (r : Rule) (i : Nat) :
    r.strayBits.bits.getLsbD i = (r.mask.bits.getLsbD i && !r.range.bits.getLsbD i) := by
  rw [strayBits, Modifiers.getLsbD_diff]
  cases hi : r.mask.bits.getLsbD i with
  | false => simp
  | true => simp [BitVec.lt_of_getLsbD hi]

end Rule

/-- The effect of a list of rules, applied from left to right. -/
def resolve (rules : List Rule) (m : Modifiers) : Modifiers :=
  rules.foldl (fun m r => r.apply m) m

@[simp] theorem resolve_nil (m : Modifiers) : resolve [] m = m := rfl

@[simp] theorem resolve_cons (r : Rule) (rules : List Rule) (m : Modifiers) :
    resolve (r :: rules) m = resolve rules (r.apply m) := rfl

theorem resolve_append (rules rules' : List Rule) (m : Modifiers) :
    resolve (rules ++ rules') m = resolve rules' (resolve rules m) :=
  List.foldl_append

end Redeclare
