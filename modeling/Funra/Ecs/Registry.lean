import Mathlib.Data.List.Nodup
import Funra.Rdict.Associations

/-!
# The registries of a context

`map_entities` and `map_components` map ids to addresses. A `Registry` is what such a dictionary holds: its
entries, one for an id. `rdict_add` and `rdict_remove` do to the dictionary what `add` and `remove` do here, and
`rdict_find` finds what `get` gives (`Registry.add_refines`, `Registry.remove_refines`, `Registry.get_refines`). For
an id that is not registered, `rdict_find` gives nothing only where its search meets a free slot in the table
(`Registry.absent_refines_iff`); a context with its two dictionaries is a `DictContext`.
-/

namespace Funra

open Mem KeyMap

structure Registry where
  items : List (Nat × Nat)
  nodup : (items.map Prod.fst).Nodup
  deriving DecidableEq, Repr

namespace Registry

def empty : Registry := ⟨[], List.nodup_nil⟩

/-- `rdict_find`. -/
def get (m : Registry) (id : Nat) : Option Nat := (m.items.find? fun p => p.1 = id).map Prod.snd

def remove (m : Registry) (id : Nat) : Registry :=
  ⟨m.items.filter fun p => p.1 ≠ id, m.nodup.sublist (List.filter_sublist.map Prod.fst)⟩

theorem fst_ne_of_mem_remove {m : Registry} {id : Nat} : id ∉ (m.remove id).items.map Prod.fst := by
  intro hmem
  obtain ⟨p, hp, heq⟩ := List.mem_map.mp hmem
  have hne := (List.mem_filter.mp hp).2
  exact of_decide_eq_true hne heq

/-- `rdict_add`; without memory (`added` is false) the dictionary stays. -/
def add (m : Registry) (added : Bool) (id a : Nat) : Registry :=
  if added then ⟨(id, a) :: (m.remove id).items, List.nodup_cons.mpr ⟨fst_ne_of_mem_remove, (m.remove id).nodup⟩⟩
  else m

variable {m : Registry} {id id' a a' : Nat} {added : Bool}

theorem get_eq_some : m.get id = some a ↔ (id, a) ∈ m.items := by
  constructor
  · intro h
    obtain ⟨p, hfind, rfl⟩ := Option.map_eq_some_iff.mp h
    have hid : p.1 = id := by simpa using List.find?_some hfind
    rw [← hid]
    exact List.mem_of_find?_eq_some hfind
  · intro hmem
    have hsome : (m.items.find? fun p => p.1 = id).isSome := List.find?_isSome.mpr ⟨_, hmem, by simp⟩
    obtain ⟨p, hfind⟩ := Option.isSome_iff_exists.mp hsome
    have hid : p.1 = id := by simpa using List.find?_some hfind
    have heq : p = (id, a) := List.inj_on_of_nodup_map m.nodup (List.mem_of_find?_eq_some hfind) hmem hid
    rw [get, hfind, heq]
    rfl

@[simp] theorem get_empty : empty.get id = none := rfl

theorem get_remove (id' : Nat) : (m.remove id).get id' = if id' = id then none else m.get id' := by
  ext a
  rw [get_eq_some, remove, List.mem_filter]
  by_cases heq : id' = id
  · simp [heq]
  · simp [heq, get_eq_some]

theorem get_add (id' : Nat) : (m.add true id a).get id' = if id' = id then some a else m.get id' := by
  ext b
  rw [get_eq_some, add, if_pos rfl, List.mem_cons, ← get_eq_some, get_remove]
  by_cases heq : id' = id
  · simp [heq, eq_comm]
  · simp [heq]

theorem get_add_self : (m.add true id a).get id = some a := by simp [get_add]

theorem get_add_of_ne (h : id' ≠ id) : (m.add true id a).get id' = m.get id' := by simp [get_add, h]

theorem get_remove_of_ne (h : id' ≠ id) : (m.remove id).get id' = m.get id' := by simp [get_remove, h]

theorem add_some (h : (m.add true id a).get id' = some a') : id' = id ∧ a' = a ∨ id' ≠ id ∧ m.get id' = some a' := by
  rw [get_add] at h
  split at h
  next heq =>
    cases h
    exact Or.inl ⟨heq, rfl⟩
  next hne => exact Or.inr ⟨hne, h⟩

theorem remove_some (h : (m.remove id).get id' = some a) : id' ≠ id ∧ m.get id' = some a := by
  rw [get_remove] at h
  split at h
  next => cases h
  next hne => exact ⟨hne, h⟩

theorem remove_eq_self (h : m.get id = none) : m.remove id = m := by
  have hitems : (m.remove id).items = m.items := by
    rw [remove, List.filter_eq_self]
    rintro ⟨id', a⟩ hp
    apply decide_eq_true
    rintro rfl
    rw [get_eq_some.mpr hp] at h
    cases h
  cases m
  simpa [remove] using hitems

theorem remove_remove : (m.remove id).remove id = m.remove id := remove_eq_self (by simp [get_remove])

/-- What has been added is taken away again. -/
theorem remove_add : (m.add added id a).remove id = m.remove id := by
  cases added with
  | false => rfl
  | true => simp [add, remove]

/-! ### The dictionary -/

/-- The map that the dictionary represents. -/
def sessionMap (m : Registry) : SessionMap :=
  fun key => (m.items.find? fun p => uint64Key p.1 = key).map fun p => some p.2

theorem uint64Key_inj {a b : Nat} (h : uint64Key a = uint64Key b) : a = b := by
  unfold uint64Key at h
  split at h <;> split at h <;> simp_all

theorem sessionMap_key (m : Registry) (id : Nat) : m.sessionMap (uint64Key id) = (m.get id).map some := by
  have hsame : (fun p : Nat × Nat => decide (uint64Key p.1 = uint64Key id)) = fun p => decide (p.1 = id) := by
    funext p
    simp only [decide_eq_decide]
    exact ⟨uint64Key_inj, congrArg uint64Key⟩
  simp only [sessionMap, get, hsame, Option.map_map]
  rfl

theorem sessionMap_other (m : Registry) {key : Option Nat} (h : ∀ id, uint64Key id ≠ key) : m.sessionMap key = none := by
  have hfind : (m.items.find? fun p => uint64Key p.1 = key) = none := by simp [List.find?_eq_none, h]
  rw [sessionMap, hfind]
  rfl

theorem sessionMap_ext {m : Registry} {map : SessionMap} (hkey : ∀ id, (m.get id).map some = map (uint64Key id))
    (hother : ∀ key, (∀ id, uint64Key id ≠ key) → map key = none) : m.sessionMap = map := by
  funext key
  by_cases hex : ∃ id, uint64Key id = key
  · obtain ⟨id, rfl⟩ := hex
    rw [sessionMap_key, hkey]
  · have hne : ∀ id, uint64Key id ≠ key := fun id heq => hex ⟨id, heq⟩
    rw [m.sessionMap_other hne, hother key hne]

theorem sessionMap_remove (m : Registry) (id : Nat) : (m.remove id).sessionMap = m.sessionMap.remove id := by
  apply sessionMap_ext
  · intro id'
    simp only [get_remove, SessionMap.remove, mapStep, KeyMap.unset, keyEq_uint64, sessionMap_key]
    by_cases heq : id' = id
    · simp [heq]
    · have hne : ¬ uint64Key id = uint64Key id' := fun h => heq (uint64Key_inj h).symm
      simp [heq, hne]
  · intro key hne
    simp [SessionMap.remove, mapStep, KeyMap.unset, keyEq_uint64, m.sessionMap_other hne]

theorem sessionMap_add (m : Registry) (added : Bool) (id a : Nat) :
    (m.add added id a).sessionMap = m.sessionMap.add added id a := by
  cases added with
  | false => rfl
  | true =>
    apply sessionMap_ext
    · intro id'
      simp only [get_add, SessionMap.add, if_true, mapStep, KeyMap.set, keyEq_uint64, sessionMap_key]
      by_cases heq : id' = id
      · simp [heq]
      · have hne : ¬ uint64Key id = uint64Key id' := fun h => heq (uint64Key_inj h).symm
        simp [heq, hne]
    · intro key hne
      simp [SessionMap.add, mapStep, KeyMap.set, keyEq_uint64, hne, m.sessionMap_other hne]

variable {d d' : Rdict Nat Nat Unit} {ok : Nat → Bool} {scale : Nat → Nat}

theorem add_refines (hok : ∀ i, ok i = true) (h : Refines uint64Funcs d m.sessionMap)
    (hwrap : NoWrap uint64Funcs scale d (.add (uint64Key id) (some a)))
    (hstep : RdictStep uint64Funcs ok scale d (.add (uint64Key id) (some a)) d') :
    Refines uint64Funcs d' (m.add true id a).sessionMap := by
  rw [sessionMap_add]
  exact SessionMap.add_refines hok h hwrap hstep

theorem remove_refines (h : Refines uint64Funcs d m.sessionMap) {code : Int}
    (hrun : rdictRemove uint64Funcs d (uint64Key id) = .ok (code, d')) :
    Refines uint64Funcs d' (m.remove id).sessionMap := by
  rw [sessionMap_remove]
  exact SessionMap.remove_refines h hrun

/-- `rdict_find` gives what is registered. -/
theorem get_refines (h : Refines uint64Funcs d m.sessionMap) (hget : m.get id = some a) :
    FindsAs uint64Funcs d (uint64Key id) (some (some a)) := by
  have hkey : m.sessionMap (uint64Key id) = some (some a) := by rw [sessionMap_key, hget, Option.map_some]
  rw [← hkey]
  refine (find_iff uint64Funcs_compatible h _).mpr fun k _ hnone => ?_
  rw [hkey] at hnone
  cases hnone

/-- For an id that is not registered it gives nothing if and only if the lookup ends. -/
theorem absent_refines_iff (h : Refines uint64Funcs d m.sessionMap) (hget : m.get id = none) :
    rdictFind uint64Funcs d (uint64Key id) = .ok none ↔ LookupEnds d id :=
  SessionMap.absent_refines_iff h (by rw [sessionMap_key, hget, Option.map_none])

end Registry

end Funra
