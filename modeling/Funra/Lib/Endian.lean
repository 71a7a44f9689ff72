import Mathlib.Data.List.Basic
import Mathlib.Data.Nat.Init
import Mathlib.Tactic.Ring

/-!
# Little-endian words and byte order conversion

`leBytes n v` are the `n` bytes a little-endian host stores for `v`, `ofLeBytes` reads them back.
`swap32`/`swap64` reverse the bytes of a word: `htonl`, `ntohl` and their 64-bit counterparts on such
a host. The word laws (`swap32_swap32`, `ofLeBytes_leBytes`, `leBytes_ofLeBytes`) are all a codec
needs to know about byte order.
-/

namespace Endian

def leBytes : Nat → Nat → List UInt8
  | 0, _ => []
  | n + 1, v => UInt8.ofNat v :: leBytes n (v / 256)

def ofLeBytes : List UInt8 → Nat
  | [] => 0
  | b :: bs => b.toNat + 256 * ofLeBytes bs

@[simp] theorem leBytes_length (n v : Nat) : (leBytes n v).length = n := by
  induction n generalizing v with
  | zero => rfl
  | succ n ih => simp [leBytes, ih]

theorem ofLeBytes_lt (bs : List UInt8) : ofLeBytes bs < 256 ^ bs.length := by
  induction bs with
  | nil => simp [ofLeBytes]
  | cons b bs ih =>
    have hb : b.toNat < 256 := b.toNat_lt
    simp only [ofLeBytes, List.length_cons, Nat.pow_succ]
    omega

theorem ofLeBytes_leBytes (n v : Nat) : ofLeBytes (leBytes n v) = v % 256 ^ n := by
  induction n generalizing v with
  | zero => simp [leBytes, ofLeBytes, Nat.mod_one]
  | succ n ih =>
    rw [leBytes, ofLeBytes, ih, Nat.pow_succ, Nat.mul_comm (256 ^ n), Nat.mod_mul]
    simp

theorem leBytes_ofLeBytes (bs : List UInt8) : leBytes bs.length (ofLeBytes bs) = bs := by
  induction bs with
  | nil => rfl
  | cons b bs ih =>
    have hb : b.toNat < 256 := b.toNat_lt
    rw [List.length_cons, leBytes, ofLeBytes, Nat.add_mul_div_left _ _ (by omega),
      Nat.div_eq_of_lt hb, Nat.zero_add, ih]
    congr 1
    rw [← UInt8.toNat_inj]
    simp

/-- The value whose stored bytes are those of `v` in reverse order. -/
def swap (n v : Nat) : Nat := ofLeBytes (leBytes n v).reverse

theorem leBytes_swap (n v : Nat) : leBytes n (swap n v) = (leBytes n v).reverse := by
  have h := leBytes_ofLeBytes (leBytes n v).reverse
  rwa [List.length_reverse, leBytes_length] at h

theorem swap_lt (n v : Nat) : swap n v < 256 ^ n := by
  have h := ofLeBytes_lt (leBytes n v).reverse
  rwa [List.length_reverse, leBytes_length] at h

theorem swap_swap {n v : Nat} (h : v < 256 ^ n) : swap n (swap n v) = v := by
  rw [swap, leBytes_swap, List.reverse_reverse, ofLeBytes_leBytes, Nat.mod_eq_of_lt h]

theorem leBytes_add (n k v : Nat) : leBytes (n + k) v = leBytes n v ++ leBytes k (v / 256 ^ n) := by
  induction n generalizing v with
  | zero => simp [leBytes]
  | succ n ih =>
    rw [show n + 1 + k = (n + k) + 1 by omega, leBytes, ih, leBytes, Nat.div_div_eq_div_mul,
      Nat.pow_succ, Nat.mul_comm (256 ^ n)]
    rfl

theorem ofLeBytes_append (a b : List UInt8) :
    ofLeBytes (a ++ b) = ofLeBytes a + 256 ^ a.length * ofLeBytes b := by
  induction a with
  | nil => simp [ofLeBytes]
  | cons x a ih =>
    simp only [List.cons_append, ofLeBytes, ih, List.length_cons, Nat.pow_succ]
    ring

/-- Modulo 255 a word is the sum of its bytes. -/
theorem ofLeBytes_mod_255 (bs : List UInt8) :
    ofLeBytes bs % 255 = (bs.map UInt8.toNat).sum % 255 := by
  induction bs with
  | nil => rfl
  | cons b bs ih =>
    simp only [ofLeBytes, List.map_cons, List.sum_cons]
    omega

/-- So its byte order does not matter there. -/
theorem swap_mod_255 {n v : Nat} (h : v < 256 ^ n) : swap n v % 255 = v % 255 := by
  have hv := ofLeBytes_mod_255 (leBytes n v)
  rw [ofLeBytes_leBytes, Nat.mod_eq_of_lt h] at hv
  rw [swap, ofLeBytes_mod_255, List.map_reverse, List.sum_reverse, ← hv]

/-- A narrow conversion read back wide puts the value into the high bytes. -/
theorem swap_swap_wide {n k v : Nat} (h : v < 256 ^ n) : swap (n + k) (swap n v) = v * 256 ^ k := by
  have hzero : ∀ m, leBytes m 0 = List.replicate m 0 := by
    intro m
    induction m with
    | zero => rfl
    | succ m ih => simp [leBytes, ih, List.replicate_succ]
  have hval : ∀ m, ofLeBytes (List.replicate m 0) = 0 := by
    intro m
    induction m with
    | zero => rfl
    | succ m ih => simp [List.replicate_succ, ofLeBytes, ih]
  rw [swap, leBytes_add, Nat.div_eq_of_lt (swap_lt n v), leBytes_swap, hzero, List.reverse_append,
    List.reverse_reverse, List.reverse_replicate, ofLeBytes_append, hval, ofLeBytes_leBytes,
    Nat.mod_eq_of_lt h]
  simp [Nat.mul_comm]

def swap32 (x : UInt32) : UInt32 := UInt32.ofNat (swap 4 x.toNat)

def swap64 (x : UInt64) : UInt64 := UInt64.ofNat (swap 8 x.toNat)

@[simp] theorem swap32_toNat (x : UInt32) : (swap32 x).toNat = swap 4 x.toNat := by
  have h : swap 4 x.toNat < 2 ^ 32 := swap_lt 4 x.toNat
  simpa [swap32] using h

@[simp] theorem swap64_toNat (x : UInt64) : (swap64 x).toNat = swap 8 x.toNat := by
  have h : swap 8 x.toNat < 2 ^ 64 := swap_lt 8 x.toNat
  simpa [swap64] using h

@[simp] theorem swap32_swap32 (x : UInt32) : swap32 (swap32 x) = x := by
  rw [← UInt32.toNat_inj]
  simp [swap_swap (n := 4) x.toNat_lt]

@[simp] theorem swap64_swap64 (x : UInt64) : swap64 (swap64 x) = x := by
  rw [← UInt64.toNat_inj]
  simp [swap_swap (n := 8) x.toNat_lt]

theorem swap32_mod_255 (x : UInt32) : (swap32 x).toNat % 255 = x.toNat % 255 := by
  rw [swap32_toNat]
  exact swap_mod_255 (n := 4) x.toNat_lt

/-- A stored 32-bit word reads back as itself. -/
theorem ofNat_leBytes32 (x : UInt32) : UInt32.ofNat (ofLeBytes (leBytes 4 x.toNat)) = x := by
  rw [ofLeBytes_leBytes, ← UInt32.toNat_inj]
  simp

/-- A stored 64-bit word reads back as itself. -/
theorem ofNat_leBytes64 (x : UInt64) : UInt64.ofNat (ofLeBytes (leBytes 8 x.toNat)) = x := by
  rw [ofLeBytes_leBytes, ← UInt64.toNat_inj]
  simp

/-- Four bytes are those of the word they read as. -/
theorem leBytes_ofNat32 {bs : List UInt8} (h : bs.length = 4) : leBytes 4 (UInt32.ofNat (ofLeBytes bs)).toNat = bs := by
  have hlt := ofLeBytes_lt bs
  have hself := leBytes_ofLeBytes bs
  rw [h] at hlt hself
  rw [UInt32.toNat_ofNat_of_lt' (by simpa using hlt), hself]

/-- Eight bytes are those of the word they read as. -/
theorem leBytes_ofNat64 {bs : List UInt8} (h : bs.length = 8) : leBytes 8 (UInt64.ofNat (ofLeBytes bs)).toNat = bs := by
  have hlt := ofLeBytes_lt bs
  have hself := leBytes_ofLeBytes bs
  rw [h] at hlt hself
  rw [UInt64.toNat_ofNat_of_lt' (by simpa using hlt), hself]

end Endian
