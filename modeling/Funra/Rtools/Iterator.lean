import Funra.Lib.Cursor
import Funra.Rarray.Basic
import Funra.Rdict.Iterators
import Funra.Rlist.Runs

/-!
# The generic iterator

`riterator_t` of `rtools.c` wraps the iterator of a list, an array or a dictionary. Its loop goes through the
elements as the loop over the container's own iterator does, in every state of an array or a dictionary
(`riterator_rarray`, `riterator_rdict`). For a list `riterator_next` calls `rlist_next` and drops what it
returns, so that the loop sees nothing (`riterator_rlist`).
-/

namespace Funra

open Mem Cursor

variable {α V K W E : Type} [Zero V] [DecidableEq V]

/-- `riterator_t` with a `type_id` for each kind of container and the container's own iterator behind `data`. -/
inductive Riterator (α V K W E : Type)
  | rlist (list : Rlist α) (it : RlistIterator)
  | rarray (d : Rarray V) (index : Nat)
  | rdict (it : RdictIterator K W E)

/-- What a pointer from an iterator points to. -/
inductive IterItem (V : Type)
  | node (a : Nat)
  | value (v : V)
  | entry (r : RdictRef)

/-- An element of an array is a pointer itself. -/
def itemOfValue (v : V) : Option (IterItem V) := if v = 0 then none else some (.value v)

def rlistItFirst (list : Rlist α) (it : RlistIterator) : RlistIterator :=
  { it with next := if it.direction = .tail then list.head else list.tail }

def rarrayItFirst : Nat := 0

/-! ### `rtools.c` -/

/-- The case of the dictionary falls through to the default, a warning. -/
def riteratorReset : Riterator α V K W E → Int × Riterator α V K W E
  | .rlist list it => (0, .rlist list (rlistItFirst list it))
  | .rarray d _ => (0, .rarray d rarrayItFirst)
  | .rdict it => (0, .rdict (rdictItFirst it))

/-- The case of the list ends in a `break`, and behind the switch is `return NULL`. -/
def riteratorNext :
    Riterator α V K W E → Except Fault (Option (IterItem V) × Riterator α V K W E)
  | .rlist list it => (rlistNext list it).map fun r => (none, .rlist list r.2)
  | .rarray d index => (rarrayNext d index).map fun r => (itemOfValue r.1, .rarray d r.2)
  | .rdict it => (rdictItNext it).map fun r => (r.1.map .entry, .rdict r.2)

def riteratorHasNext : Riterator α V K W E → Bool
  | .rarray d index => rarrayHasNext d index
  | _ => false

/-! ### The loops -/

/-- The condition of the loop: `riterator_has_next` for an array, the pointer for a list or a dictionary. -/
def riteratorGoesOn (r : Option (IterItem V)) : Riterator α V K W E → Bool
  | .rarray d index => riteratorHasNext (.rarray d index : Riterator α V K W E)
  | _ => r.isSome

/-- The loop over the generic iterator. -/
def riteratorLoop (fuel : Nat) (it : Riterator α V K W E) :
    Except Fault (Option (List (Option (IterItem V)))) :=
  collect riteratorNext riteratorGoesOn fuel (riteratorReset it).2

/-- `while ((node = rlist_next(&it)))`. -/
def rlistLoop (fuel : Nat) (list : Rlist α) (it : RlistIterator) :
    Except Fault (Option (List (Option Nat))) :=
  collect (rlistNext list) (fun r _ => r.isSome) fuel (rlistItFirst list it)

/-- `for (; temp = rarray_next(&it), rarray_has_next(&it); )`. -/
def rarrayLoop (fuel : Nat) (d : Rarray V) : Except Fault (Option (List V)) :=
  collect (rarrayNext d) (fun _ index => rarrayHasNext d index) fuel rarrayItFirst

/-- `while ((de = rdict_next(&it)))`. -/
def rdictLoop (fuel : Nat) (it : RdictIterator K W E) : Except Fault (Option (List (Option RdictRef))) :=
  collect rdictItNext (fun r _ => r.isSome) fuel (rdictItFirst it)

/-- The loop over the container's own iterator. -/
def nativeLoop (fuel : Nat) : Riterator α V K W E → Except Fault (Option (List (Option (IterItem V))))
  | .rlist list it => (rlistLoop fuel list it).map (Option.map (List.map (Option.map .node)))
  | .rarray d _ => (rarrayLoop fuel d).map (Option.map (List.map itemOfValue))
  | .rdict it => (rdictLoop fuel it).map (Option.map (List.map (Option.map .entry)))

/-! ### Arrays and dictionaries -/

theorem riterator_rarray (fuel : Nat) (d : Rarray V) (index : Nat) :
    riteratorLoop fuel (.rarray d index : Riterator α V K W E) =
      nativeLoop fuel (.rarray d index : Riterator α V K W E) :=
  collect_map (f := Riterator.rarray d) (fun _ => rfl) (fun _ _ => rfl) fuel rarrayItFirst

theorem riterator_rdict (fuel : Nat) (it : RdictIterator K W E) :
    riteratorLoop fuel (.rdict it : Riterator α V K W E) =
      nativeLoop fuel (.rdict it : Riterator α V K W E) := by
  apply collect_map (f := Riterator.rdict)
  · intro s
    rfl
  · intro r s
    cases r <;> rfl

/-! ### Lists -/

theorem RlistRep.itRep {list : Rlist α} {l : List (Nat × Option α)} (h : RlistRep list l)
    (it : RlistIterator) : ∃ as, ItRep list (rlistItFirst list it) as ∧ (as = [] ↔ l = []) := by
  obtain ⟨next, direction⟩ := it
  cases direction with
  | head => exact ⟨(l.map Prod.fst).reverse, h.prev, by simp⟩
  | tail => exact ⟨l.map Prod.fst, h.next, by simp⟩

/-- The list's own loop sees its nodes. -/
theorem rlistLoop_eq {list : Rlist α} {as : List Nat} {n : Nat} {it : RlistIterator}
    (h : ItRep list it as) (hn : as.length < n) :
    collect (rlistNext list) (fun r _ => r.isSome) n it = .ok (some (as.map some)) := by
  induction n generalizing it as with
  | zero => omega
  | succ n ih =>
    cases as with
    | nil =>
      rw [collect, rlistNext_nil h]
      rfl
    | cons a as =>
      obtain ⟨⟨r, it'⟩, heq, rfl, hrest⟩ := rlistNext_cons h
      rw [collect, heq]
      simp only [Except.bind, Option.isSome_some, if_true]
      rw [ih hrest (by simpa using hn)]
      rfl

/-- The generic loop ends in its first round. -/
theorem riterator_rlist {list : Rlist α} {as : List Nat} {it : RlistIterator}
    (h : ItRep list (rlistItFirst list it) as) (n : Nat) :
    riteratorLoop (n + 1) (.rlist list it : Riterator α V K W E) = .ok (some []) := by
  obtain ⟨r, hr⟩ : ∃ r, rlistNext list (rlistItFirst list it) = .ok r := by
    cases as with
    | nil => exact ⟨_, rlistNext_nil h⟩
    | cons a as =>
      obtain ⟨r, hr, -⟩ := rlistNext_cons h
      exact ⟨r, hr⟩
  simp only [riteratorLoop, riteratorReset, collect, riteratorNext, hr]
  rfl

/-! ### Agreement -/

/-- A list is one that its functions keep. -/
def Riterator.WellFormed : Riterator α V K W E → Prop
  | .rlist list _ => ∃ l, RlistRep list l
  | _ => True

/-- The container is a list with an element. -/
def Riterator.OverElements : Riterator α V K W E → Prop
  | .rlist list _ => list.head ≠ none
  | _ => False

/-- The loops agree, whatever number of rounds they have, just where the container is not a list with an
element. -/
theorem riterator_agrees_iff {c : Riterator α V K W E} (hc : c.WellFormed) :
    (∀ fuel, riteratorLoop fuel c = nativeLoop fuel c) ↔ ¬ c.OverElements := by
  cases c with
  | rarray d index => exact ⟨fun _ => not_false, fun _ fuel => riterator_rarray fuel d index⟩
  | rdict it => exact ⟨fun _ => not_false, fun _ fuel => riterator_rdict fuel it⟩
  | rlist list it =>
    obtain ⟨l, hrep⟩ := hc
    obtain ⟨as, has, hempty⟩ := hrep.itRep it
    have hhead : list.head = none ↔ as = [] := by
      rw [hempty, hrep.head_eq, List.head?_eq_none_iff, List.map_eq_nil_iff]
    have hnative : ∀ n, as.length < n → nativeLoop n (.rlist list it : Riterator α V K W E) =
        .ok (some (as.map fun a => some (.node a))) := by
      intro n hn
      rw [nativeLoop, rlistLoop, rlistLoop_eq has hn]
      simp [Except.map, Function.comp_def]
    simp only [Riterator.OverElements, ne_eq, not_not, hhead]
    constructor
    · intro hagree
      have heq := hagree (as.length + 1)
      rw [riterator_rlist has, hnative _ (Nat.lt_succ_self _)] at heq
      simpa using heq
    · rintro rfl fuel
      cases fuel with
      | zero => rfl
      | succ n => rw [riterator_rlist has, hnative _ (Nat.succ_pos n), List.map_nil]

/-- A list with one node. -/
def oneNode : Rlist Nat := ⟨some 0, some 0, 1, fun a => if a = 0 then some ⟨none, none, some 5⟩ else none, []⟩

theorem oneNode_rep : RlistRep oneNode [(0, some 5)] := by
  constructor
  · exact ⟨rfl, none, rfl, rfl⟩
  · exact ⟨rfl, none, rfl, rfl⟩
  · intro p hp
    rw [List.mem_singleton.mp hp]
    rfl
  · rfl

theorem riterator_agrees_iff_one :
    (∀ fuel, riteratorLoop fuel (.rlist oneNode ⟨none, .tail⟩ : Riterator Nat Nat Nat Nat Unit) =
      nativeLoop fuel (.rlist oneNode ⟨none, .tail⟩ : Riterator Nat Nat Nat Nat Unit)) ↔
      ¬ (.rlist oneNode ⟨none, .tail⟩ : Riterator Nat Nat Nat Nat Unit).OverElements :=
  riterator_agrees_iff ⟨_, oneNode_rep⟩

/-- The loop over a list of one node does not see it. -/
theorem riterator_misses_node : ¬ ∀ c : Riterator Nat Nat Nat Nat Unit, c.WellFormed →
    ∀ fuel, riteratorLoop fuel c = nativeLoop fuel c := by
  intro hall
  have hits : ItRep oneNode (rlistItFirst oneNode ⟨none, .tail⟩) [0] := oneNode_rep.next
  have heq := hall (.rlist oneNode ⟨none, .tail⟩) ⟨_, oneNode_rep⟩ 2
  rw [riterator_rlist hits, nativeLoop, rlistLoop, rlistLoop_eq hits (by decide)] at heq
  simp [Except.map] at heq

end Funra
