import Funra.Rdict.Returns

/-!
# The associations of `map_clients`

`map_clients` maps the id of a session to the address of its data source. `SessionMap` is the map that the
dictionary represents; what `rdict_add` and `rdict_remove` do to the dictionary is what `add` and `remove` do
here (`SessionMap.add_refines`, `SessionMap.remove_refines`). A lookup of a key without a value ends only where it
meets a free slot (`SessionMap.absent_refines_iff`).
-/

namespace Funra

open Mem KeyMap

abbrev SessionMap := Option Nat → Option (Option Nat)

theorem keyEq_uint64 {key key' : Option Nat} : keyEq uint64Funcs key key' = true ↔ key = key' := by
  cases key with
  | none => cases key' <;> simp [keyEq]
  | some k => cases key' <;> simp [keyEq, uint64Funcs]

/-- From the bucket of a key on there is a free slot. The `NULL` key is in no bucket. -/
def LookupEnds (d : Rdict Nat Nat Unit) (dsId : Nat) : Prop :=
  ∀ k, uint64Key dsId = some k → ∃ i e, d.start uint64Funcs k ≤ i ∧ d.slots[i]? = some e ∧ e.key = none

namespace SessionMap

def empty : SessionMap := fun _ => none

/-- `rdict_add`; without memory (`added` is false) the map stays. -/
def add (m : SessionMap) (added : Bool) (dsId n : Nat) : SessionMap :=
  if added then mapStep uint64Funcs m (.add (uint64Key dsId) (some n)) else m

def remove (m : SessionMap) (dsId : Nat) : SessionMap := mapStep uint64Funcs m (.remove (uint64Key dsId))

variable {m : SessionMap} {dsId n : Nat} {key : Option Nat} {value : Option Nat}

@[simp] theorem add_false : m.add false dsId n = m := rfl

theorem add_eq_update : m.add true dsId n = Function.update m (uint64Key dsId) (some (some n)) := by
  funext key
  simp only [add, if_true, mapStep, KeyMap.set, keyEq_uint64]
  by_cases heq : uint64Key dsId = key
  · rw [← heq, Function.update_self, if_pos rfl]
  · rw [Function.update_of_ne (fun h => heq h.symm), if_neg heq]

theorem add_some (h : m.add true dsId n key = some value) :
    key = uint64Key dsId ∧ value = some n ∨ key ≠ uint64Key dsId ∧ m key = some value := by
  simp only [add, if_true, mapStep, KeyMap.set, keyEq_uint64] at h
  split at h
  · rename_i heq
    cases h
    exact .inl ⟨heq.symm, rfl⟩
  · rename_i hne
    exact .inr ⟨fun heq => hne heq.symm, h⟩

theorem remove_some (h : m.remove dsId key = some value) : key ≠ uint64Key dsId ∧ m key = some value := by
  simp only [remove, mapStep, KeyMap.unset, keyEq_uint64] at h
  split at h
  · cases h
  · rename_i hne
    exact ⟨fun heq => hne heq.symm, h⟩

theorem remove_self : m.remove dsId (uint64Key dsId) = none := by
  simp only [remove, mapStep, KeyMap.unset, keyEq_uint64, if_true]

/-- The map loses nothing if and only if the key was not in it. -/
theorem remove_eq_iff : m.remove dsId = m ↔ m (uint64Key dsId) = none := by
  constructor
  · intro h
    rw [← h, remove_self]
  · intro h
    funext key
    simp only [remove, mapStep, KeyMap.unset, keyEq_uint64]
    split
    · rename_i heq
      rw [← heq, h]
    · rfl

theorem map_remove_iff {map : Option SessionMap} :
    (map.map fun m => m.remove dsId) = map ↔ ∀ m, map = some m → m (uint64Key dsId) = none := by
  cases map with
  | none => simp
  | some m => simp [remove_eq_iff]

/-- What has been added is taken away again. -/
theorem remove_add (added : Bool) : (m.add added dsId n).remove dsId = m.remove dsId := by
  cases added with
  | false => rfl
  | true =>
    funext key
    simp only [add, remove, if_true, mapStep, KeyMap.set, KeyMap.unset]
    split <;> rfl

/-! ### The dictionary -/

variable {d d' : Rdict Nat Nat Unit} {ok : Nat → Bool} {scale : Nat → Nat}

theorem add_refines (hok : ∀ i, ok i = true) (h : Refines uint64Funcs d m)
    (hwrap : NoWrap uint64Funcs scale d (.add (uint64Key dsId) (some n)))
    (hstep : RdictStep uint64Funcs ok scale d (.add (uint64Key dsId) (some n)) d') :
    Refines uint64Funcs d' (m.add true dsId n) :=
  h.step uint64Funcs_compatible hok hwrap hstep

theorem remove_refines (h : Refines uint64Funcs d m) {code : Int}
    (hrun : rdictRemove uint64Funcs d (uint64Key dsId) = .ok (code, d')) :
    Refines uint64Funcs d' (m.remove dsId) := by
  have hstep : RdictStep uint64Funcs (fun _ => true) id d (.remove (uint64Key dsId)) d' := ⟨0, code, hrun⟩
  exact h.step uint64Funcs_compatible (fun _ => rfl) .remove hstep

/-- A key without a value is not found if and only if its lookup ends. -/
theorem absent_refines_iff (h : Refines uint64Funcs d m) (habsent : m (uint64Key dsId) = none) :
    rdictFind uint64Funcs d (uint64Key dsId) = .ok none ↔ LookupEnds d dsId := by
  have hiff := find_iff uint64Funcs_compatible h (uint64Key dsId)
  rw [habsent] at hiff
  exact hiff.trans ⟨fun hends k hk => hends k hk rfl, fun hends k hk _ => hends k hk⟩

end SessionMap

/-! ### The map of a dictionary -/

/-- The value of every key that has one. -/
def Rdict.associations (d : Rdict Nat Nat Unit) : SessionMap
  | none => d.entryNull.map (·.value)
  | some k => (d.entries.find? fun e => e.key = some k).map (·.value)

section associations

variable {d d' : Rdict Nat Nat Unit} {m : SessionMap}

theorem hasKey_uint64 {k : Nat} {e : RdictEntry Nat Nat} : HasKey uint64Funcs k e ↔ e.key = some k := by
  simp [HasKey, uint64Funcs]

theorem carries_uint64 {e : RdictEntry Nat Nat} {v : Option Nat} : Carries uint64Funcs e v ↔ e.value = v := by
  simp [Carries, uint64Funcs]

/-- No two entries have one key. -/
theorem Rdict.Inv.entry_unique (h : d.Inv uint64Funcs) {k : Nat} {e e' : RdictEntry Nat Nat} (he : e ∈ d.entries)
    (he' : e' ∈ d.entries) (hk : e.key = some k) (hk' : e'.key = some k) : e = e' := by
  obtain ⟨i, hi, -⟩ := mem_entries.mp he
  obtain ⟨j, hj, -⟩ := mem_entries.mp he'
  have heq := h.slot_unique hi hj (hasKey_uint64.mpr hk) (hasKey_uint64.mpr hk')
  rw [heq, hj] at hi
  exact (Option.some.inj hi).symm

theorem Rdict.Inv.associations_eq (h : d.Inv uint64Funcs) {k : Nat} {e : RdictEntry Nat Nat} (he : e ∈ d.entries)
    (hk : e.key = some k) : d.associations (some k) = some e.value := by
  have hsome : (d.entries.find? fun e => e.key = some k).isSome := List.find?_isSome.mpr ⟨e, he, by simp [hk]⟩
  obtain ⟨e', hfind⟩ := Option.isSome_iff_exists.mp hsome
  have hk' : e'.key = some k := by simpa using List.find?_some hfind
  have heq : e' = e := h.entry_unique (List.mem_of_find?_eq_some hfind) he hk' hk
  rw [Rdict.associations, hfind, heq]
  rfl

theorem associations_refines (h : d.Inv uint64Funcs) (hb : 0 < d.buckets) : Refines uint64Funcs d d.associations := by
  refine ⟨h, hb, ⟨fun k hnone e he hk => ?_, fun k v hsome => ?_⟩, ?_⟩
  · rw [h.associations_eq he (hasKey_uint64.mp hk)] at hnone
    cases hnone
  · obtain ⟨e, hfind, rfl⟩ := Option.map_eq_some_iff.mp hsome
    have hk : e.key = some k := by simpa using List.find?_some hfind
    exact ⟨e, List.mem_of_find?_eq_some hfind, hasKey_uint64.mpr hk, carries_uint64.mpr rfl⟩
  · rw [Rdict.associations]
    rcases hnull : d.entryNull with _ | e
    · rfl
    · exact ⟨e, rfl, carries_uint64.mpr rfl⟩

/-- A dictionary represents one map only. -/
theorem Refines.associations_eq (h : Refines uint64Funcs d m) : d.associations = m := by
  funext key
  rcases key with _ | k
  · have hnull := h.null
    rcases hm : m none with _ | v
    · rw [hm] at hnull
      rw [Rdict.associations, show d.entryNull = none from hnull]
      rfl
    · rw [hm] at hnull
      obtain ⟨e, he, hv⟩ := hnull
      rw [Rdict.associations, he, Option.map_some, carries_uint64.mp hv]
  · rcases hm : m (some k) with _ | v
    · have hfind : (d.entries.find? fun e => e.key = some k) = none := by
        apply List.find?_eq_none.mpr
        intro e he hk
        exact h.entries.absent k hm e he (hasKey_uint64.mpr (by simpa using hk))
      rw [Rdict.associations, hfind]
      rfl
    · obtain ⟨e, he, hk, hv⟩ := h.entries.present k v hm
      rw [h.inv.associations_eq he (hasKey_uint64.mp hk), carries_uint64.mp hv]

/-- Dictionaries with the same associations have the same size. -/
theorem size_of_associations (h : Refines uint64Funcs d m) (h' : Refines uint64Funcs d' m) :
    d'.size = d.size :=
  (h'.counts uint64Funcs_compatible).unique (fun _ _ => keyEq_uint64) (h.counts uint64Funcs_compatible)

end associations

end Funra
