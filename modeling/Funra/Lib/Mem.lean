import Mathlib.Data.List.Basic

/-!
# Byte objects with checked accesses

An object is the list of its bytes. `load`, `store` and `copyWithin` are `memcpy` out of, into and
inside one object; an access outside the object, or an overlapping `copyWithin`, is a `Fault`. A
negative size is a fault too: converted to `size_t` it exceeds every object.

`load_ok`, `store_ok` and `copyWithin_ok` say when an access succeeds and what it yields.
`overwrite` is the object after a store; its `take`/`drop` lemmas say which bytes it leaves alone.
-/

namespace Mem

/-- The ways a program step can leave defined behaviour, and the loop bound of a model. -/
inductive Fault
  | outOfBounds
  | overlap
  | nullDeref
  | divByZero
  | useAfterFree
  | outOfFuel
  deriving DecidableEq, Repr

abbrev Obj := List UInt8

/-- `n` bytes of `mem` from `off` on. -/
def window (mem : Obj) (off n : Nat) : Obj := (mem.drop off).take n

/-- `mem` with the bytes `bs` put at `off`. -/
def overwrite (mem : Obj) (off : Nat) (bs : Obj) : Obj :=
  mem.take off ++ bs ++ mem.drop (off + bs.length)

def load (mem : Obj) (off n : Int) : Except Fault Obj :=
  if 0 ≤ off ∧ 0 ≤ n ∧ off + n ≤ mem.length then .ok (window mem off.toNat n.toNat)
  else .error .outOfBounds

def store (mem : Obj) (off : Int) (bs : Obj) : Except Fault Obj :=
  if 0 ≤ off ∧ off + bs.length ≤ mem.length then .ok (overwrite mem off.toNat bs)
  else .error .outOfBounds

/-- `memcpy(mem + dst, mem + src, n)`: the two ranges must not overlap. -/
def copyWithin (mem : Obj) (dst src n : Int) : Except Fault Obj :=
  match load mem src n with
  | .error f => .error f
  | .ok bs =>
    if 0 < n ∧ dst < src + n ∧ src < dst + n then .error .overlap else store mem dst bs

/-- `strlen`: the index of the first zero byte, `none` when the object has none. -/
def strlen (mem : Obj) : Option Nat := mem.findIdx? (· == 0)

/-! ### Windows -/

@[simp] theorem window_length (mem : Obj) (off n : Nat) :
    (window mem off n).length = min n (mem.length - off) := by
  simp [window]

theorem window_append_window (mem : Obj) (off n k : Nat) :
    window mem off n ++ window mem (off + n) k = window mem off (n + k) := by
  simp only [window, ← List.drop_drop]
  exact (List.take_add ..).symm

theorem window_zero (mem : Obj) (off : Nat) : window mem off 0 = [] := by
  simp [window]

theorem window_skip_append (a b : Obj) (n k : Nat) (h : a.length ≤ n) :
    window (a ++ b) n k = window b (n - a.length) k := by
  simp only [window]
  rw [List.drop_append, List.drop_eq_nil_of_le h, List.nil_append]

theorem window_head_append (a b : Obj) (k : Nat) (h : a.length = k) : window (a ++ b) 0 k = a := by
  simp [window, ← h]

/-! ### Overwriting -/

@[simp] theorem overwrite_length (mem : Obj) (off : Nat) (bs : Obj) (h : off + bs.length ≤ mem.length) :
    (overwrite mem off bs).length = mem.length := by
  simp only [overwrite, List.length_append, List.length_take, List.length_drop]
  omega

theorem window_overwrite_self (mem : Obj) (off : Nat) (bs : Obj) (h : off + bs.length ≤ mem.length) :
    window (overwrite mem off bs) off bs.length = bs := by
  have htake : (mem.take off).length = off := by simp; omega
  simp [window, overwrite, htake]

/-- The bytes before the written range are unchanged. -/
theorem window_overwrite_before (mem : Obj) (off : Nat) (bs : Obj) (i n : Nat)
    (h : off + bs.length ≤ mem.length) (hi : i + n ≤ off) :
    window (overwrite mem off bs) i n = window mem i n := by
  have htake : (mem.take off).length = off := by simp; omega
  rw [window, overwrite, List.append_assoc, List.drop_append_of_le_length (by omega),
    List.take_append_of_le_length (by simp; omega), window, List.drop_take, List.take_take,
    Nat.min_eq_left (by omega)]

/-- The bytes behind the written range are unchanged. -/
theorem window_overwrite_after (mem : Obj) (off : Nat) (bs : Obj) (i n : Nat)
    (h : off + bs.length ≤ mem.length) (hi : off + bs.length ≤ i) :
    window (overwrite mem off bs) i n = window mem i n := by
  have hlen : (mem.take off ++ bs).length = off + bs.length := by simp; omega
  have hdrop : (overwrite mem off bs).drop i = mem.drop i := by
    rw [overwrite, List.drop_append, hlen, List.drop_eq_nil_of_le (by omega), List.nil_append,
      List.drop_drop]
    congr 1
    omega
  rw [window, hdrop, window]

/-- A write behind a window extends it. -/
theorem window_overwrite_append (mem : Obj) (off n : Nat) (bs : Obj)
    (h : off + n + bs.length ≤ mem.length) :
    window (overwrite mem (off + n) bs) off (n + bs.length) = window mem off n ++ bs := by
  rw [← window_append_window, window_overwrite_before _ _ _ _ _ h (by omega),
    window_overwrite_self _ _ _ h]

/-! ### When an access succeeds -/

theorem load_ok {mem : Obj} {off n : Nat} (h : off + n ≤ mem.length) :
    load mem off n = .ok (window mem off n) := by
  rw [load, if_pos (by omega)]
  simp

theorem load_neg {mem : Obj} {off n : Int} (h : n < 0) : load mem off n = .error .outOfBounds := by
  rw [load, if_neg (by omega)]

theorem store_ok {mem : Obj} {off : Nat} {bs : Obj} (h : off + bs.length ≤ mem.length) :
    store mem off bs = .ok (overwrite mem off bs) := by
  rw [store, if_pos (by omega)]
  simp

theorem copyWithin_ok {mem : Obj} {dst src n : Nat} (hsrc : src + n ≤ mem.length)
    (hdst : dst + n ≤ src) :
    copyWithin mem dst src n = .ok (overwrite mem dst (window mem src n)) := by
  have hlen : (window mem src n).length = n := by simp; omega
  rw [copyWithin, load_ok hsrc]
  dsimp only
  rw [if_neg (by omega), store_ok (by rw [hlen]; omega)]

end Mem
