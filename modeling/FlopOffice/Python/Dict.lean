/-
# FlopOffice.Python.Dict — a `dict` as its items in insertion order.

`dictSet` gives a key that is there its new value in place, and puts a new key last. What a lookup finds
after a store is all the sources rely on (`dictGet_dictSet`), and which keys there are.
-/
import Mathlib.Data.List.Basic
import Mathlib.Tactic.Common

namespace FlopOffice.Python

variable {κ β : Type} [DecidableEq κ]

/-- `d.get(key)`. -/
def dictGet (d : List (κ × β)) (key : κ) : Option β := (d.find? fun kv => kv.1 = key).map Prod.snd

/-- `d[key] = value`. -/
def dictSet (key : κ) (value : β) : List (κ × β) → List (κ × β)
  | [] => [(key, value)]
  | (k, v) :: rest => if k = key then (k, value) :: rest else (k, v) :: dictSet key value rest

theorem dictGet_cons (k : κ) (v : β) (d : List (κ × β)) (key : κ) :
    dictGet ((k, v) :: d) key = if k = key then some v else dictGet d key := by
  unfold dictGet
  by_cases hk : k = key
  · simp [hk]
  · simp [hk]

/-- **A lookup after a store.** -/
theorem dictGet_dictSet (d : List (κ × β)) (key other : κ) (value : β) :
    dictGet (dictSet key value d) other = if key = other then some value else dictGet d other := by
  induction d with
  | nil => exact dictGet_cons key value [] other
  | cons kv d ih =>
    obtain ⟨k, v⟩ := kv
    unfold dictSet
    by_cases hk : k = key
    · rw [if_pos hk, dictGet_cons, dictGet_cons, hk]
      split
      · rfl
      · rfl
    · rw [if_neg hk, dictGet_cons, dictGet_cons, ih]
      by_cases hko : k = other
      · rw [if_pos hko, if_pos hko, if_neg (fun h => hk (hko.trans h.symm))]
      · rw [if_neg hko, if_neg hko]

/-- A store adds its key, last, unless it is there. -/
theorem keys_dictSet (d : List (κ × β)) (key : κ) (value : β) :
    (dictSet key value d).map Prod.fst =
      if key ∈ d.map Prod.fst then d.map Prod.fst else d.map Prod.fst ++ [key] := by
  induction d with
  | nil => rfl
  | cons kv d ih =>
    obtain ⟨k, v⟩ := kv
    unfold dictSet
    by_cases hk : k = key
    · rw [if_pos hk]
      simp [hk]
    · rw [if_neg hk, List.map_cons, ih, List.map_cons]
      by_cases hmem : key ∈ d.map Prod.fst
      · rw [if_pos hmem, if_pos (List.mem_cons_of_mem _ hmem)]
      · have hne : key ∉ k :: d.map Prod.fst := by
          simp only [List.mem_cons, not_or]
          exact ⟨fun h => hk h.symm, hmem⟩
        rw [if_neg hmem, if_neg hne]
        rfl

end FlopOffice.Python
