import Mathlib.Data.Nat.Digits.Defs

/-!
# Numbers in decimal

The value of a text of digits, the first being the highest. Digits in front or behind never make it smaller, and the value of
a number's digits is the number.
-/

namespace Decimal

def IsDigit (c : UInt8) : Prop := 48 ≤ c ∧ c ≤ 57

instance : DecidablePred IsDigit := fun _ => inferInstanceAs (Decidable (_ ∧ _))

def value (ds : List UInt8) : Nat := ds.foldl (fun n c => 10 * n + (c.toNat - 48)) 0

variable {a b ds : List UInt8} {n : Nat}

theorem not_mem_of_digits {c : UInt8} (hds : ∀ d ∈ ds, IsDigit d) (hc : ¬ IsDigit c) : c ∉ ds := fun hmem => hc (hds c hmem)

theorem value_append (a b : List UInt8) : value (a ++ b) = 10 ^ b.length * value a + value b := by
  have hfold (n : Nat) : b.foldl (fun n c => 10 * n + (c.toNat - 48)) n = 10 ^ b.length * n + value b := by
    unfold value
    induction b generalizing n with
    | nil => simp
    | cons c b ih =>
      rw [List.foldl_cons, ih, List.foldl_cons, ih (10 * 0 + (c.toNat - 48)), List.length_cons, pow_succ]
      ring
  rw [value, List.foldl_append]
  exact hfold _

theorem value_le_of_infix (h : a <:+: b) : value a ≤ value b := by
  obtain ⟨front, back, rfl⟩ := h
  rw [value_append, value_append]
  calc value a ≤ 10 ^ a.length * value front + value a := Nat.le_add_left _ _
    _ ≤ 10 ^ back.length * (10 ^ a.length * value front + value a) := Nat.le_mul_of_pos_left _ (Nat.pow_pos (by decide))
    _ ≤ 10 ^ back.length * (10 ^ a.length * value front + value a) + value back := Nat.le_add_right _ _

/-- The text of the digits, of which the lowest is first. -/
def text (digits : List Nat) : List UInt8 := digits.reverse.map fun d => UInt8.ofNat (48 + d)

theorem isDigit_of_mem_text {digits : List Nat} (hlt : ∀ d ∈ digits, d < 10) : ∀ c ∈ text digits, IsDigit c := by
  have htable : ∀ d < 10, IsDigit (UInt8.ofNat (48 + d)) := by decide
  intro c hc
  obtain ⟨d, hd, rfl⟩ := List.mem_map.mp hc
  exact htable d (hlt d (List.mem_reverse.mp hd))

theorem value_text {digits : List Nat} (hlt : ∀ d ∈ digits, d < 10) : value (text digits) = Nat.ofDigits 10 digits := by
  induction digits with
  | nil => rfl
  | cons d digits ih =>
    rw [List.forall_mem_cons] at hlt
    have hsplit : text (d :: digits) = text digits ++ [UInt8.ofNat (48 + d)] := by
      rw [text, List.reverse_cons, List.map_append]
      rfl
    have hnum : (UInt8.ofNat (48 + d)).toNat = 48 + d :=
      UInt8.toNat_ofNat_of_lt' (Nat.lt_trans (Nat.add_lt_add_left hlt.1 48) (by decide))
    have hone : value [UInt8.ofNat (48 + d)] = d := by
      rw [value, List.foldl_cons, List.foldl_nil, hnum]
      omega
    rw [hsplit, value_append, ih hlt.2, hone, Nat.ofDigits_cons, List.length_singleton, pow_one]
    exact Nat.add_comm _ _

theorem value_digits (n : Nat) : value (text (Nat.digits 10 n)) = n := by
  rw [value_text fun d hd => Nat.digits_lt_base (by decide) hd, Nat.ofDigits_digits]

end Decimal
