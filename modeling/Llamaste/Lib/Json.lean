import Llamaste.Lib.CInt
import Llamaste.Lib.Text

/-!
# JSON values

The values of a JSON library whose objects are ordered maps, and its typed access with a
default. An access that the library answers with a type error is `none`.

Integers that fit a 64-bit type are kept as integers; every other number is a decimal
`m * 10 ^ e` (its rounding to a binary format is not modelled).
-/

/-- A JSON value. The members of an object are listed in key order, without repeats. -/
inductive Json
  | null
  | bool (b : Bool)
  | int (n : ℤ)
  | float (m e : ℤ)
  | str (s : Text)
  | arr (elems : List Json)
  | obj (members : List (Text × Json))
  deriving Repr

namespace Json

/-- Insertion into an ordered member list; an old member with the same key is replaced. -/
def insertMember (key : Text) (val : Json) : List (Text × Json) → List (Text × Json)
  | [] => [(key, val)]
  | (k, v) :: ms =>
      if key = k then (key, val) :: ms
      else if key < k then (key, val) :: (k, v) :: ms
      else (k, v) :: insertMember key val ms

/-- The object with the given members, later ones replacing earlier ones. -/
def object (members : List (Text × Json)) : Json :=
  obj (members.foldl (fun ms kv => insertMember kv.1 kv.2 ms) [])

/-- `find(key)` on an object. -/
def find (key : Text) : Json → Option Json
  | obj ms => ms.lookup key
  | _ => none

/-- `contains(key)`. -/
def contains (j : Json) (key : Text) : Bool := (j.find key).isSome

/-- `is_object()`. -/
def isObject : Json → Bool
  | obj _ => true
  | _ => false

/-! ### Typed access -/

/-- The integer part of a decimal, as a conversion to an integer type takes it. -/
def truncFloat (m e : ℤ) : ℤ :=
  if 0 ≤ e then m * 10 ^ e.toNat else Int.tdiv m (10 ^ (-e).toNat)

/-- `get<std::string>()`. -/
def getString : Json → Option Text
  | str s => some s
  | _ => none

/-- `get<bool>()`. -/
def getBool : Json → Option Bool
  | bool b => some b
  | _ => none

/-- `get<int>()`: numbers are converted, and so are booleans. -/
def getInt32 : Json → Option ℤ
  | int n => some (CInt.toInt32 n)
  | float m e => some (CInt.toInt32 (truncFloat m e))
  | bool b => some (if b then 1 else 0)
  | _ => none

/-- `get<int64_t>()`. -/
def getInt64 : Json → Option ℤ
  | int n => some (CInt.toInt64 n)
  | float m e => some (CInt.toInt64 (truncFloat m e))
  | _ => none

/-- `get<uint64_t>()`. -/
def getUInt64 : Json → Option ℤ
  | int n => some (CInt.toUInt64 n)
  | float m e => some (CInt.toUInt64 (truncFloat m e))
  | _ => none

/-- `value(key, default)`: the default stands in for an absent member, never for one of
another type; on anything but an object it is a type error. -/
def value {α : Type*} (get : Json → Option α) (j : Json) (key : Text) (default : α) :
    Option α :=
  match j with
  | obj ms =>
      match ms.lookup key with
      | some v => get v
      | none => some default
  | _ => none

/-- A member that is there is read, whatever the default. -/
theorem value_of_find {α : Type*} {get : Json → Option α} {j v : Json} {key : Text} {default : α}
    (h : j.find key = some v) : j.value get key default = get v := by
  cases j with
  | obj ms =>
      have hms : ms.lookup key = some v := h
      rw [value, hms]
  | _ => exact nomatch h

/-- An inserted member is found, and all others are as they were. -/
theorem lookup_insertMember (key other : Text) (val : Json) (ms : List (Text × Json)) :
    (insertMember key val ms).lookup other = if other = key then some val else ms.lookup other := by
  have hcons (k : Text) (v : Json) (l : List (Text × Json)) :
      ((k, v) :: l).lookup other = if other = k then some v else l.lookup other := by
    rw [List.lookup_cons]
    by_cases h : other = k
    · rw [if_pos h, beq_iff_eq.mpr h]
    · rw [if_neg h, beq_eq_false_iff_ne.mpr h]
  induction ms with
  | nil => exact hcons key val []
  | cons kv ms ih =>
      obtain ⟨k, v⟩ := kv
      rw [insertMember, hcons k]
      by_cases hkey : key = k
      · rw [if_pos hkey, hcons, ← hkey]
        split_ifs <;> rfl
      rw [if_neg hkey]
      by_cases hlt : key < k
      · rw [if_pos hlt, hcons, hcons]
      · rw [if_neg hlt, hcons, ih]
        by_cases hother : other = k
        · rw [if_pos hother, if_pos hother, if_neg fun h => hkey (h.symm.trans hother)]
        · rw [if_neg hother, if_neg hother]

/-- A new member is only put in its place. -/
theorem perm_insertMember {key : Text} {ms : List (Text × Json)} (h : ∀ kv ∈ ms, key ≠ kv.1)
    (val : Json) : (insertMember key val ms).Perm ((key, val) :: ms) := by
  induction ms with
  | nil => exact .refl _
  | cons kv ms ih =>
      obtain ⟨hne, hrest⟩ := List.forall_mem_cons.mp h
      rw [insertMember, if_neg hne]
      split_ifs
      · exact .refl _
      · exact ((ih hrest).cons kv).trans (.swap _ _ _)

/-- Members without repeats are only put in order. -/
theorem perm_object {ms : List (Text × Json)} (h : (ms.map Prod.fst).Nodup) :
    ∃ l, object ms = obj l ∧ l.Perm ms := by
  refine ⟨_, rfl, ?_⟩
  induction ms using List.reverseRecOn with
  | nil => exact .refl _
  | append_singleton ms kv ih =>
      rw [List.map_append, List.map_singleton] at h
      obtain ⟨hms, -, hdisjoint⟩ := List.nodup_append.mp h
      have hperm := ih hms
      rw [List.foldl_append]
      refine (perm_insertMember (fun kv' hkv' => ?_) kv.2).trans
        ((hperm.cons kv).trans (List.perm_append_singleton kv ms).symm)
      exact (hdisjoint kv'.1 (List.mem_map_of_mem (hperm.mem_iff.mp hkv')) kv.1
        List.mem_cons_self).symm

end Json
